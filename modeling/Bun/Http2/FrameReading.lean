/-
Frames across reads.

A read may end anywhere in a frame.  The bytes of an incomplete frame wait in the read buffer,
in one of three ways.  Whatever the session does with its frames, it is given the same ones for
every way to cut the bytes into reads.
-/

import Bun.Http2.Delivery

set_option autoImplicit false

namespace Bun.Http2

/-! ### The reader -/

/-- What a session does with its frames, whatever its state is. -/
structure FrameSink (σ : Type) where
  dispatchFrame : σ → Frame → σ
  fatalError : σ → Option Error
  fail : σ → Error → σ
  fatalError_fail : ∀ state error, fatalError (fail state error) = some error

def FrameHeader.frame (header : FrameHeader) (buffer : List UInt8) : Frame where
  kind := header.kind
  flags := header.flags
  streamId := header.streamId
  payload := (buffer.drop frameHeaderSize).take header.length

/-- The number of bytes that were consumed, with a record of the frames. -/
structure Parsed (σ : Type) where
  consumed : ℕ
  state : σ
  frames : List Frame

/-- A session with the bytes of an incomplete frame and a record of its frames. -/
structure Reader (σ : Type) where
  state : σ
  readBuffer : List UInt8 := []
  dispatched : List Frame := []

/-- Bytes that arrive.  The session may change before its frames and after them. -/
structure Read (σ : Type) where
  idle : Bool
  incoming : List UInt8
  starts : σ → σ
  finishes : σ → σ

variable {σ τ : Type}

namespace FrameSink

def parseFrames (sink : FrameSink σ) (state : σ) (buffer : List UInt8) : Parsed σ :=
  match FrameHeader.decode buffer with
  | none => ⟨0, state, []⟩
  | some header =>
      if header.length > defaultMaxFrameSize then ⟨0, sink.fail state .frameSizeError, []⟩
      else if buffer.length < frameHeaderSize + header.length then ⟨0, state, []⟩
      else
        let frame := header.frame buffer
        let dispatched := sink.dispatchFrame state frame
        if (sink.fatalError dispatched).isSome then
          ⟨frameHeaderSize + header.length, dispatched, [frame]⟩
        else
          let parsed :=
            parseFrames sink dispatched (buffer.drop (frameHeaderSize + header.length))
          ⟨frameHeaderSize + header.length + parsed.consumed, parsed.state, frame :: parsed.frames⟩
termination_by buffer.length
decreasing_by
  rw [List.length_drop]
  have size : frameHeaderSize = 9 := rfl
  omega

/-- Frames are parsed in place, and only the tail is kept. -/
def handleData (sink : FrameSink σ) (reader : Reader σ) (incoming : List UInt8) : Reader σ :=
  if reader.readBuffer.isEmpty then
    let parsed := sink.parseFrames reader.state incoming
    { state := parsed.state
      readBuffer :=
        if parsed.consumed < incoming.length && (sink.fatalError parsed.state).isNone then
          reader.readBuffer ++ incoming.drop parsed.consumed
        else reader.readBuffer
      dispatched := reader.dispatched ++ parsed.frames }
  else
    let buffer := reader.readBuffer ++ incoming
    let parsed := sink.parseFrames reader.state buffer
    { state := parsed.state
      readBuffer := buffer.drop parsed.consumed
      dispatched := reader.dispatched ++ parsed.frames }

/-- `copy_within` of everything from an index on, to the front. -/
def copyDown (buffer : List UInt8) (start : ℕ) : List UInt8 :=
  buffer.drop start ++ buffer.drop (buffer.length - start)

def onIdleData (sink : FrameSink σ) (reader : Reader σ) (incoming : List UInt8) : Reader σ :=
  let buffer := reader.readBuffer ++ incoming
  let parsed := sink.parseFrames reader.state buffer
  let tail := buffer.length - parsed.consumed
  let moved := if 0 < tail && 0 < parsed.consumed then copyDown buffer parsed.consumed else buffer
  { state := parsed.state
    readBuffer := moved.take tail
    dispatched := reader.dispatched ++ parsed.frames }

def read (sink : FrameSink σ) (reader : Reader σ) (read : Read σ) : Reader σ :=
  let started := { reader with state := read.starts reader.state }
  let parsed :=
    if read.idle then sink.onIdleData started read.incoming
    else sink.handleData started read.incoming
  { parsed with state := read.finishes parsed.state }

def readAll (sink : FrameSink σ) (reader : Reader σ) : List (Read σ) → Reader σ
  | [] => reader
  | next :: rest =>
      let after := sink.read reader next
      if (sink.fatalError after.state).isSome then after else readAll sink after rest

end FrameSink

/-! ### Headers -/

theorem FrameHeader.decode_eq_none_iff (bytes : List UInt8) :
    FrameHeader.decode bytes = none ↔ bytes.length < frameHeaderSize := by
  unfold FrameHeader.decode frameHeaderSize
  split
  · simp
  · rename_i short
    refine ⟨fun _ => ?_, fun _ => rfl⟩
    match bytes with
    | [] | [_] | [_, _] | [_, _, _] | [_, _, _, _] | [_, _, _, _, _] | [_, _, _, _, _, _]
    | [_, _, _, _, _, _, _] | [_, _, _, _, _, _, _, _] => simp
    | a :: b :: c :: d :: e :: f :: g :: h :: i :: rest =>
        exact absurd rfl (short a b c d e f g h i rest)

theorem FrameHeader.decode_append {bytes : List UInt8} {header : FrameHeader}
    (isHeader : FrameHeader.decode bytes = some header) (more : List UInt8) :
    FrameHeader.decode (bytes ++ more) = some header := by
  unfold FrameHeader.decode at isHeader
  split at isHeader
  · exact isHeader
  · cases isHeader

theorem FrameHeader.frame_append (header : FrameHeader) {bytes : List UInt8}
    (complete : frameHeaderSize + header.length ≤ bytes.length) (more : List UInt8) :
    header.frame (bytes ++ more) = header.frame bytes := by
  unfold FrameHeader.frame
  rw [List.drop_append_of_le_length (by omega),
    List.take_append_of_le_length (by rw [List.length_drop]; omega)]

/-! ### Frames and their bytes -/

def IsFrame (bytes : List UInt8) (frame : Frame) : Prop :=
  ∃ header, FrameHeader.decode bytes = some header ∧ header.length ≤ defaultMaxFrameSize ∧
    bytes.length = frameHeaderSize + header.length ∧ frame = header.frame bytes

inductive FramedAs : List UInt8 → List Frame → List UInt8 → Prop where
  | nil (rest : List UInt8) : FramedAs rest [] rest
  | cons {bytes more rest : List UInt8} {frame : Frame} {frames : List Frame}
      (isFrame : IsFrame bytes frame) (framed : FramedAs more frames rest) :
      FramedAs (bytes ++ more) (frame :: frames) rest

theorem FramedAs.append {first second rest : List UInt8} {before after : List Frame}
    {between : List UInt8} (framed : FramedAs first before between)
    (next : FramedAs (between ++ second) after rest) :
    FramedAs (first ++ second) (before ++ after) rest := by
  induction framed with
  | nil _ => exact next
  | cons isFrame _ ih =>
      rw [List.append_assoc]
      exact FramedAs.cons isFrame (ih next)

theorem FramedAs.more {bytes rest : List UInt8} {frames : List Frame}
    (framed : FramedAs bytes frames rest) (more : List UInt8) :
    FramedAs (bytes ++ more) frames (rest ++ more) := by
  have extended := framed.append (FramedAs.nil (rest ++ more))
  rw [List.append_nil] at extended
  exact extended

def Waiting (bytes : List UInt8) : Prop :=
  bytes.length < frameHeaderSize ∨
    ∃ header, FrameHeader.decode bytes = some header ∧ header.length ≤ defaultMaxFrameSize ∧
      bytes.length < frameHeaderSize + header.length

theorem Waiting.length_lt {bytes : List UInt8} (waiting : Waiting bytes) :
    bytes.length < frameHeaderSize + defaultMaxFrameSize := by
  rcases waiting with short | ⟨header, -, fits, incomplete⟩
  · omega
  · omega

namespace FrameSink

variable {sink : FrameSink σ}

theorem parseFrames_frame (sink : FrameSink σ) (state : σ) {buffer : List UInt8}
    {header : FrameHeader} (isHeader : FrameHeader.decode buffer = some header)
    (fits : ¬ header.length > defaultMaxFrameSize)
    (complete : ¬ buffer.length < frameHeaderSize + header.length) :
    sink.parseFrames state buffer =
      if (sink.fatalError (sink.dispatchFrame state (header.frame buffer))).isSome then
        ⟨frameHeaderSize + header.length, sink.dispatchFrame state (header.frame buffer),
          [header.frame buffer]⟩
      else
        let parsed := sink.parseFrames (sink.dispatchFrame state (header.frame buffer))
          (buffer.drop (frameHeaderSize + header.length))
        ⟨frameHeaderSize + header.length + parsed.consumed, parsed.state,
          header.frame buffer :: parsed.frames⟩ := by
  rw [parseFrames, isHeader]
  dsimp only
  rw [if_neg fits, if_neg complete]

theorem isFrame_take {buffer : List UInt8} {header : FrameHeader}
    (isHeader : FrameHeader.decode buffer = some header)
    (fits : ¬ header.length > defaultMaxFrameSize)
    (complete : ¬ buffer.length < frameHeaderSize + header.length) :
    IsFrame (buffer.take (frameHeaderSize + header.length)) (header.frame buffer) := by
  have whole := List.take_append_drop (frameHeaderSize + header.length) buffer
  have isLength : (buffer.take (frameHeaderSize + header.length)).length =
      frameHeaderSize + header.length := by
    rw [List.length_take]
    omega
  have known : FrameHeader.decode (buffer.take (frameHeaderSize + header.length)) =
      some header := by
    cases isTaken : FrameHeader.decode (buffer.take (frameHeaderSize + header.length)) with
    | none =>
        have short := (FrameHeader.decode_eq_none_iff _).mp isTaken
        omega
    | some taken =>
        have extended := FrameHeader.decode_append isTaken
          (buffer.drop (frameHeaderSize + header.length))
        rw [whole, isHeader] at extended
        exact extended.symm
  refine ⟨header, known, Nat.le_of_not_lt fits, isLength, ?_⟩
  have same := FrameHeader.frame_append header (Nat.le_of_eq isLength.symm)
    (buffer.drop (frameHeaderSize + header.length))
  rw [whole] at same
  exact same

theorem parseFrames_framed (sink : FrameSink σ) (state : σ) (buffer : List UInt8) :
    FramedAs buffer (sink.parseFrames state buffer).frames
      (buffer.drop (sink.parseFrames state buffer).consumed) := by
  fun_induction parseFrames sink state buffer with
  | case1 | case2 | case3 => exact FramedAs.nil _
  | case4 state buffer header isHeader fits complete =>
      have framed := FramedAs.cons (isFrame_take isHeader fits complete)
        (FramedAs.nil (buffer.drop (frameHeaderSize + header.length)))
      rw [List.take_append_drop] at framed
      exact framed
  | case5 state buffer header isHeader fits complete frame dispatched alive parsed ih =>
      have framed := FramedAs.cons (isFrame_take isHeader fits complete) ih
      rw [List.take_append_drop, List.drop_drop] at framed
      exact framed

theorem parseFrames_consumed_le (sink : FrameSink σ) (state : σ) (buffer : List UInt8) :
    (sink.parseFrames state buffer).consumed ≤ buffer.length := by
  fun_induction parseFrames sink state buffer with
  | case1 | case2 | case3 => exact Nat.zero_le _
  | case4 state buffer header isHeader fits complete => exact Nat.le_of_not_lt complete
  | case5 state buffer header isHeader fits complete frame dispatched alive parsed ih =>
      rw [List.length_drop] at ih
      change frameHeaderSize + header.length + parsed.consumed ≤ buffer.length
      change parsed.consumed ≤ _ at ih
      omega

theorem parseFrames_waiting {state : σ} {buffer : List UInt8}
    (alive : sink.fatalError (sink.parseFrames state buffer).state = none) :
    Waiting (buffer.drop (sink.parseFrames state buffer).consumed) := by
  fun_induction parseFrames sink state buffer with
  | case1 state buffer isHeader =>
      exact Or.inl ((FrameHeader.decode_eq_none_iff _).mp isHeader)
  | case2 state buffer header =>
      rw [sink.fatalError_fail] at alive
      cases alive
  | case3 state buffer header isHeader fits incomplete =>
      exact Or.inr ⟨header, isHeader, Nat.le_of_not_lt fits, incomplete⟩
  | case4 state buffer header isHeader fits complete frame dispatched failed =>
      rw [Option.isSome_iff_ne_none] at failed
      exact absurd alive failed
  | case5 state buffer header isHeader fits complete frame dispatched stillAlive parsed ih =>
      have waiting := ih alive
      rw [List.drop_drop] at waiting
      exact waiting

theorem parseFrames_append_failed {state : σ} {buffer : List UInt8}
    (started : sink.fatalError state = none)
    (failed : sink.fatalError (sink.parseFrames state buffer).state ≠ none) (more : List UInt8) :
    sink.parseFrames state (buffer ++ more) = sink.parseFrames state buffer := by
  fun_induction parseFrames sink state buffer with
  | case1 state buffer => exact absurd started failed
  | case2 state buffer header isHeader tooLong =>
      rw [parseFrames, FrameHeader.decode_append isHeader]
      dsimp only
      rw [if_pos tooLong]
  | case3 state buffer => exact absurd started failed
  | case4 state buffer header isHeader fits complete frame dispatched isFailed =>
      have isSame : header.frame (buffer ++ more) = header.frame buffer :=
        header.frame_append (Nat.le_of_not_lt complete) more
      rw [parseFrames_frame sink state (FrameHeader.decode_append isHeader more) fits
        (by rw [List.length_append]; omega), isSame, if_pos isFailed]
  | case5 state buffer header isHeader fits complete frame dispatched alive parsed ih =>
      have isSame : header.frame (buffer ++ more) = header.frame buffer :=
        header.frame_append (Nat.le_of_not_lt complete) more
      rw [parseFrames_frame sink state (FrameHeader.decode_append isHeader more) fits
        (by rw [List.length_append]; omega), isSame, if_neg alive,
        List.drop_append_of_le_length (Nat.le_of_not_lt complete),
        ih (by simpa using alive) failed]

theorem parseFrames_append {state : σ} {buffer : List UInt8}
    (alive : sink.fatalError (sink.parseFrames state buffer).state = none) (more : List UInt8) :
    sink.parseFrames state (buffer ++ more) =
      let first := sink.parseFrames state buffer
      let second := sink.parseFrames first.state (buffer.drop first.consumed ++ more)
      ⟨first.consumed + second.consumed, second.state, first.frames ++ second.frames⟩ := by
  fun_induction parseFrames sink state buffer with
  | case1 state buffer => simp
  | case2 state buffer header =>
      rw [sink.fatalError_fail] at alive
      cases alive
  | case3 state buffer => simp
  | case4 state buffer header isHeader fits complete frame dispatched failed =>
      rw [Option.isSome_iff_ne_none] at failed
      exact absurd alive failed
  | case5 state buffer header isHeader fits complete frame dispatched stillAlive parsed ih =>
      have isSame : header.frame (buffer ++ more) = header.frame buffer :=
        header.frame_append (Nat.le_of_not_lt complete) more
      rw [parseFrames_frame sink state (FrameHeader.decode_append isHeader more) fits
        (by rw [List.length_append]; omega), isSame, if_neg stillAlive,
        List.drop_append_of_le_length (Nat.le_of_not_lt complete), ih alive]
      simp only [List.drop_drop, Nat.add_assoc, List.cons_append]
      rfl

/-! ### One read -/

/-- What a read does: the waiting bytes come before those that arrive. -/
structure ReadsAs (sink : FrameSink σ) (reader : Reader σ) (incoming : List UInt8)
    (next : Reader σ) : Prop where
  state : next.state = (sink.parseFrames reader.state (reader.readBuffer ++ incoming)).state
  dispatched : next.dispatched =
    reader.dispatched ++ (sink.parseFrames reader.state (reader.readBuffer ++ incoming)).frames
  readBuffer : sink.fatalError next.state = none → next.readBuffer =
    (reader.readBuffer ++ incoming).drop
      (sink.parseFrames reader.state (reader.readBuffer ++ incoming)).consumed

theorem handleData_reads (sink : FrameSink σ) (reader : Reader σ) (incoming : List UInt8) :
    ReadsAs sink reader incoming (sink.handleData reader incoming) := by
  unfold handleData
  split
  · rename_i isEmpty
    have noBuffer : reader.readBuffer = [] := List.isEmpty_iff.mp isEmpty
    refine ⟨?_, ?_, ?_⟩
    · rw [noBuffer]
      rfl
    · rw [noBuffer]
      rfl
    · intro alive
      dsimp only at alive ⊢
      rw [noBuffer, List.nil_append, List.nil_append]
      by_cases someLeft : (sink.parseFrames reader.state incoming).consumed < incoming.length
      · simp [someLeft, alive]
      · rw [List.drop_eq_nil_of_le (Nat.le_of_not_lt someLeft)]
        simp [someLeft]
  · exact ⟨rfl, rfl, fun _ => rfl⟩

theorem onIdleData_readBuffer (sink : FrameSink σ) (reader : Reader σ)
    (incoming : List UInt8) :
    (sink.onIdleData reader incoming).readBuffer = (reader.readBuffer ++ incoming).drop
      (sink.parseFrames reader.state (reader.readBuffer ++ incoming)).consumed := by
  unfold onIdleData
  dsimp only
  have isBelow :=
    sink.parseFrames_consumed_le reader.state (reader.readBuffer ++ incoming)
  generalize (sink.parseFrames reader.state (reader.readBuffer ++ incoming)).consumed =
    consumed at isBelow ⊢
  generalize reader.readBuffer ++ incoming = buffer at isBelow ⊢
  by_cases noTail : buffer.length - consumed = 0
  · rw [noTail, List.take_zero, List.drop_eq_nil_of_le (by omega)]
  · by_cases noFrame : consumed = 0
    · simp [noFrame]
    · have isTail : 0 < buffer.length - consumed := Nat.pos_of_ne_zero noTail
      have someFrame : 0 < consumed := Nat.pos_of_ne_zero noFrame
      simp only [isTail, someFrame, decide_true, Bool.and_true, if_true, copyDown]
      rw [List.take_append_of_le_length (by rw [List.length_drop]), List.take_of_length_le]
      rw [List.length_drop]

theorem onIdleData_reads (sink : FrameSink σ) (reader : Reader σ) (incoming : List UInt8) :
    ReadsAs sink reader incoming (sink.onIdleData reader incoming) :=
  ⟨rfl, rfl, fun _ => onIdleData_readBuffer sink reader incoming⟩

theorem read_reads (sink : FrameSink σ) (reader : Reader σ) (next : Read σ) :
    ∃ parsed, ReadsAs sink { reader with state := next.starts reader.state } next.incoming parsed ∧
      sink.read reader next = { parsed with state := next.finishes parsed.state } := by
  unfold read
  cases next.idle with
  | true => exact ⟨_, onIdleData_reads sink _ _, rfl⟩
  | false => exact ⟨_, handleData_reads sink _ _, rfl⟩

/-! ### What cannot be seen -/

/-- What a frame does depends on no more of the state than can be seen. -/
structure Sees (sink : FrameSink σ) (view : σ → τ) : Prop where
  dispatchFrame : ∀ {state other} frame, view state = view other →
    view (sink.dispatchFrame state frame) = view (sink.dispatchFrame other frame)
  fatalError : ∀ {state other}, view state = view other →
    sink.fatalError state = sink.fatalError other

end FrameSink

/-- A read changes nothing that can be seen around its frames, unless the session fails. -/
structure Read.Unseen (sink : FrameSink σ) (view : σ → τ) (read : Read σ) : Prop where
  starts : ∀ state, view (read.starts state) = view state
  finishes : ∀ state, sink.fatalError (read.finishes state) = none →
    view (read.finishes state) = view state
  staysFailed : ∀ state, sink.fatalError state ≠ none →
    sink.fatalError (read.finishes state) ≠ none

namespace FrameSink

variable {sink : FrameSink σ} {view : σ → τ}

theorem Sees.parseFrames (sees : sink.Sees view) (buffer : List UInt8) {state other : σ}
    (same : view state = view other) :
    (sink.parseFrames state buffer).consumed = (sink.parseFrames other buffer).consumed ∧
      (sink.parseFrames state buffer).frames = (sink.parseFrames other buffer).frames ∧
      sink.fatalError (sink.parseFrames state buffer).state =
        sink.fatalError (sink.parseFrames other buffer).state ∧
      (sink.fatalError (sink.parseFrames state buffer).state = none →
        view (sink.parseFrames state buffer).state =
          view (sink.parseFrames other buffer).state) := by
  fun_induction FrameSink.parseFrames sink state buffer generalizing other with
  | case1 state buffer isHeader =>
      rw [FrameSink.parseFrames, isHeader]
      exact ⟨rfl, rfl, sees.fatalError same, fun _ => same⟩
  | case2 state buffer header isHeader tooLong =>
      rw [FrameSink.parseFrames, isHeader]
      dsimp only
      rw [if_pos tooLong]
      refine ⟨rfl, rfl, ?_, fun alive => ?_⟩
      · exact (sink.fatalError_fail state _).trans (sink.fatalError_fail other _).symm
      · rw [sink.fatalError_fail] at alive
        cases alive
  | case3 state buffer header isHeader fits incomplete =>
      rw [FrameSink.parseFrames, isHeader]
      dsimp only
      rw [if_neg fits, if_pos incomplete]
      exact ⟨rfl, rfl, sees.fatalError same, fun _ => same⟩
  | case4 state buffer header isHeader fits complete frame dispatched =>
      rename_i failed
      have next := sees.dispatchFrame (header.frame buffer) same
      have isFailed : (sink.fatalError (sink.dispatchFrame other
          (header.frame buffer))).isSome = true := (sees.fatalError next) ▸ failed
      rw [parseFrames_frame sink other isHeader fits complete, if_pos isFailed]
      exact ⟨rfl, rfl, sees.fatalError next, fun _ => next⟩
  | case5 state buffer header isHeader fits complete frame dispatched alive parsed =>
      rename_i ih
      have next := sees.dispatchFrame (header.frame buffer) same
      have isAlive : ¬ (sink.fatalError (sink.dispatchFrame other
          (header.frame buffer))).isSome = true := (sees.fatalError next) ▸ alive
      obtain ⟨isConsumed, isFrames, isFatal, isView⟩ := ih next
      rw [parseFrames_frame sink other isHeader fits complete, if_neg isAlive]
      refine ⟨?_, ?_, isFatal, isView⟩
      · exact congrArg (frameHeaderSize + header.length + ·) isConsumed
      · exact congrArg (header.frame buffer :: ·) isFrames

/-! ### All reads -/

theorem parseFrames_of_waiting (sink : FrameSink σ) (state : σ) {buffer : List UInt8}
    (waiting : Waiting buffer) : sink.parseFrames state buffer = ⟨0, state, []⟩ := by
  rcases waiting with short | ⟨header, isHeader, fits, incomplete⟩
  · rw [FrameSink.parseFrames, (FrameHeader.decode_eq_none_iff buffer).mpr short]
  · rw [FrameSink.parseFrames, isHeader]
    dsimp only
    rw [if_neg (Nat.not_lt_of_le fits), if_pos incomplete]

theorem read_alive {reader : Reader σ} {next : Read σ} (unseen : next.Unseen sink view)
    (alive : sink.fatalError (sink.read reader next).state = none) :
    let parsed := sink.parseFrames (next.starts reader.state) (reader.readBuffer ++ next.incoming)
    sink.fatalError parsed.state = none ∧
      view (sink.read reader next).state = view parsed.state ∧
      (sink.read reader next).readBuffer =
        (reader.readBuffer ++ next.incoming).drop parsed.consumed := by
  obtain ⟨parsed, reads, isRead⟩ := sink.read_reads reader next
  rw [isRead] at alive ⊢
  have stillAlive : sink.fatalError parsed.state = none :=
    Classical.byContradiction fun failed => unseen.staysFailed _ failed alive
  refine ⟨?_, ?_, reads.readBuffer stillAlive⟩
  · rw [← reads.state]
    exact stillAlive
  · rw [← reads.state]
    exact unseen.finishes _ alive

theorem read_dispatched (sink : FrameSink σ) (reader : Reader σ) (next : Read σ) :
    (sink.read reader next).dispatched = reader.dispatched ++
      (sink.parseFrames (next.starts reader.state)
        (reader.readBuffer ++ next.incoming)).frames := by
  obtain ⟨parsed, reads, isRead⟩ := sink.read_reads reader next
  rw [isRead]
  exact reads.dispatched

theorem read_failed {reader : Reader σ} {next : Read σ} (unseen : next.Unseen sink view)
    (failed : sink.fatalError (sink.parseFrames (next.starts reader.state)
      (reader.readBuffer ++ next.incoming)).state ≠ none) :
    sink.fatalError (sink.read reader next).state ≠ none :=
  fun alive => failed (read_alive unseen alive).1

theorem readAll_framed (reads : List (Read σ)) (unseen : ∀ read ∈ reads, read.Unseen sink view)
    (reader : Reader σ) (waiting : Waiting reader.readBuffer) :
    ∃ frames rest, (sink.readAll reader reads).dispatched = reader.dispatched ++ frames ∧
      FramedAs (reader.readBuffer ++ reads.flatMap Read.incoming) frames rest ∧
      (sink.fatalError (sink.readAll reader reads).state = none →
        rest = (sink.readAll reader reads).readBuffer ∧ Waiting rest) := by
  induction reads generalizing reader with
  | nil =>
      refine ⟨[], reader.readBuffer, (List.append_nil _).symm, ?_, fun _ => ⟨rfl, waiting⟩⟩
      rw [List.flatMap_nil, List.append_nil]
      exact FramedAs.nil _
  | cons next rest ih =>
      have isUnseen := unseen next List.mem_cons_self
      have framed := sink.parseFrames_framed (next.starts reader.state)
        (reader.readBuffer ++ next.incoming)
      have dispatched := sink.read_dispatched reader next
      rw [readAll, List.flatMap_cons, ← List.append_assoc]
      split
      · rename_i failed
        rw [Option.isSome_iff_ne_none] at failed
        exact ⟨_, _, dispatched, framed.more _, fun alive => absurd alive failed⟩
      · rename_i notFailed
        have alive : sink.fatalError (sink.read reader next).state = none := by
          simpa using notFailed
        obtain ⟨parsedAlive, -, isBuffer⟩ := read_alive isUnseen alive
        have nextWaiting : Waiting (sink.read reader next).readBuffer := by
          rw [isBuffer]
          exact parseFrames_waiting parsedAlive
        obtain ⟨frames, left, isDispatched, restFramed, isLeft⟩ :=
          ih (fun read member => unseen read (List.mem_cons_of_mem _ member)) _ nextWaiting
        rw [isBuffer] at restFramed
        refine ⟨_, left, ?_, framed.append restFramed, isLeft⟩
        rw [isDispatched, dispatched, List.append_assoc]

/-- The frames of all reads are those of one read of all bytes, up to a failure elsewhere. -/
theorem readAll_frames (sees : sink.Sees view) (reads : List (Read σ))
    (unseen : ∀ read ∈ reads, read.Unseen sink view) (reader : Reader σ)
    (waiting : Waiting reader.readBuffer) {other : σ} (same : view reader.state = view other)
    (started : sink.fatalError other = none) :
    let run := sink.readAll reader reads
    let whole :=
      (sink.parseFrames other (reader.readBuffer ++ reads.flatMap Read.incoming)).frames
    ∃ frames, run.dispatched = reader.dispatched ++ frames ∧ frames <+: whole ∧
      (sink.fatalError run.state = none → frames = whole) ∧
      ((∀ read ∈ reads, ∀ state, sink.fatalError state = none →
        sink.fatalError (read.finishes state) = none) → frames = whole) := by
  induction reads generalizing reader other with
  | nil =>
      dsimp only
      rw [List.flatMap_nil, List.append_nil, sink.parseFrames_of_waiting other waiting]
      exact ⟨[], (List.append_nil _).symm, List.prefix_refl _, fun _ => rfl, fun _ => rfl⟩
  | cons next rest ih =>
      have isUnseen := unseen next List.mem_cons_self
      have startsSame : view (next.starts reader.state) = view other :=
        (isUnseen.starts _).trans same
      have dispatched := sink.read_dispatched reader next
      obtain ⟨isConsumed, isFrames, isFatal, isView⟩ :=
        sees.parseFrames (reader.readBuffer ++ next.incoming) startsSame
      rw [readAll, List.flatMap_cons, ← List.append_assoc]
      dsimp only
      rw [isFrames] at dispatched
      by_cases parsedAlive : sink.fatalError (sink.parseFrames other
          (reader.readBuffer ++ next.incoming)).state = none
      · rw [parseFrames_append parsedAlive]
        split
        · -- the frames have not failed, but something after them has
          rename_i failed
          rw [Option.isSome_iff_ne_none] at failed
          refine ⟨_, dispatched, List.prefix_append _ _, fun alive => absurd alive failed, ?_⟩
          intro neverFails
          obtain ⟨parsed, reads, isRead⟩ := sink.read_reads reader next
          rw [isRead] at failed
          refine absurd (neverFails next List.mem_cons_self _ ?_) failed
          rw [reads.state]
          exact isFatal.trans parsedAlive
        · rename_i notFailed
          have alive : sink.fatalError (sink.read reader next).state = none := by
            simpa using notFailed
          obtain ⟨firstAlive, nextView, isBuffer⟩ := read_alive isUnseen alive
          have nextWaiting : Waiting (sink.read reader next).readBuffer := by
            rw [isBuffer]
            exact parseFrames_waiting firstAlive
          obtain ⟨frames, isDispatched, isBefore, whenAlive, whenQuiet⟩ :=
            ih (fun read member => unseen read (List.mem_cons_of_mem _ member)) _ nextWaiting
              (nextView.trans (isView firstAlive)) parsedAlive
          rw [isBuffer, isConsumed] at isBefore whenAlive whenQuiet
          refine ⟨_, ?_, (List.prefix_append_right_inj _).mpr isBefore, ?_, ?_⟩
          · rw [isDispatched, dispatched, List.append_assoc]
          · exact fun runAlive => congrArg _ (whenAlive runAlive)
          · exact fun neverFails => congrArg _
              (whenQuiet fun read member => neverFails read (List.mem_cons_of_mem _ member))
      · have failed : sink.fatalError (sink.read reader next).state ≠ none :=
          read_failed isUnseen (isFatal ▸ parsedAlive)
        rw [parseFrames_append_failed started parsedAlive,
          if_pos (Option.isSome_iff_ne_none.mpr failed)]
        exact ⟨_, dispatched, List.prefix_refl _, fun alive => absurd alive failed, fun _ => rfl⟩

/-- However the bytes are cut into reads, the session is given the frames of all of them, up to
the first error.  Each byte is in one frame, in order, or still waits, and few bytes wait. -/
theorem readAll_framing (sees : sink.Sees view) (reads : List (Read σ))
    (unseen : ∀ read ∈ reads, read.Unseen sink view) (start : σ)
    (started : sink.fatalError start = none) :
    let run := sink.readAll { state := start } reads
    let stream := reads.flatMap Read.incoming
    let whole := (sink.parseFrames start stream).frames
    run.dispatched <+: whole ∧
      ((∀ read ∈ reads, ∀ state, sink.fatalError state = none →
        sink.fatalError (read.finishes state) = none) → run.dispatched = whole) ∧
      (∃ rest, FramedAs stream run.dispatched rest) ∧
      (sink.fatalError run.state = none →
        run.dispatched = whole ∧ FramedAs stream run.dispatched run.readBuffer ∧
          run.readBuffer.length < frameHeaderSize + defaultMaxFrameSize) := by
  have noBytes : Waiting [] := Or.inl (by decide)
  obtain ⟨frames, isDispatched, isBefore, whenAlive, whenQuiet⟩ :=
    readAll_frames sees reads unseen { state := start } noBytes rfl started
  obtain ⟨framed, rest, isSame, isFramed, isRest⟩ :=
    readAll_framed reads unseen { state := start } noBytes
  rw [List.nil_append] at isDispatched isBefore whenAlive whenQuiet isSame isFramed
  dsimp only
  rw [isDispatched] at isSame ⊢
  rw [← isSame] at isFramed
  refine ⟨isBefore, whenQuiet, ⟨rest, isFramed⟩, fun alive => ?_⟩
  obtain ⟨isLeft, waiting⟩ := isRest alive
  rw [← isLeft]
  exact ⟨whenAlive alive, isFramed, waiting.length_lt⟩

def untilGoaway : FrameSink (Option Error) where
  dispatchFrame error frame := if frame.kind = .goaway then some .goAway else error
  fatalError error := error
  fail _ error := some error
  fatalError_fail _ _ := rfl

/-- A PING frame in two reads, on a connection that waits at first. -/
theorem readAll_framing_ping :
    let reads : List (Read (Option Error)) :=
      [{ idle := true, incoming := [0, 0, 8, 6, 0], starts := id, finishes := id },
        { idle := false, incoming := [0, 0, 0, 0, 1, 2, 3, 4, 5, 6, 7, 8], starts := id,
          finishes := id }]
    (untilGoaway.readAll { state := none } reads).dispatched =
      (untilGoaway.parseFrames none (reads.flatMap Read.incoming)).frames := by
  have sees : untilGoaway.Sees (id : Option Error → Option Error) :=
    ⟨fun frame same => congrArg (untilGoaway.dispatchFrame · frame) same,
      fun same => congrArg untilGoaway.fatalError same⟩
  refine (readAll_framing sees _ ?_ none rfl).2.1 ?_
  · intro read member
    simp only [List.mem_cons, List.not_mem_nil, or_false] at member
    rcases member with rfl | rfl
    · exact ⟨fun _ => rfl, fun _ _ => rfl, fun _ failed => failed⟩
    · exact ⟨fun _ => rfl, fun _ _ => rfl, fun _ failed => failed⟩
  · intro read member state alive
    simp only [List.mem_cons, List.not_mem_nil, or_false] at member
    rcases member with rfl | rfl
    · exact alive
    · exact alive

end FrameSink

/-! ### The session -/

namespace Session

def sink (hpack : Hpack σ) : FrameSink (Session σ) where
  dispatchFrame := dispatchFrame hpack
  fatalError := fatalError
  fail := fail
  fatalError_fail _ _ := rfl

theorem parseFrames_eq (hpack : Hpack σ) (session : Session σ) (buffer : List UInt8) :
    session.parseFrames hpack buffer =
      (((sink hpack).parseFrames session buffer).consumed,
        ((sink hpack).parseFrames session buffer).state) := by
  fun_induction Session.parseFrames hpack session buffer with
  | case1 session buffer isHeader =>
      rw [FrameSink.parseFrames, isHeader]
  | case2 session buffer header isHeader tooLong =>
      rw [FrameSink.parseFrames, isHeader]
      dsimp only
      rw [if_pos tooLong]
      rfl
  | case3 session buffer header isHeader fits incomplete =>
      rw [FrameSink.parseFrames, isHeader]
      dsimp only
      rw [if_neg fits, if_pos incomplete]
  | case4 session buffer header isHeader fits complete frame dispatched failed =>
      have isFailed : ((sink hpack).fatalError
          ((sink hpack).dispatchFrame session (header.frame buffer))).isSome = true := failed
      rw [FrameSink.parseFrames, isHeader]
      dsimp only
      rw [if_neg fits, if_neg complete, if_pos isFailed]
      rfl
  | case5 session buffer header isHeader fits complete frame dispatched alive consumed parsed
      isParsed ih =>
      have isAlive : ¬ ((sink hpack).fatalError
          ((sink hpack).dispatchFrame session (header.frame buffer))).isSome = true := alive
      have rest := ih.symm.trans isParsed
      have isConsumed := congrArg Prod.fst rest
      have isState := congrArg Prod.snd rest
      rw [FrameSink.parseFrames, isHeader]
      dsimp only at isConsumed isState ⊢
      rw [if_neg fits, if_neg complete, if_neg isAlive, ← isConsumed, ← isState]
      rfl

theorem modify_readBuffer (session : Session σ) (id : ℕ) (change : Stream → Stream) :
    (session.modify id change).readBuffer = session.readBuffer := rfl

theorem fail_readBuffer (session : Session σ) (error : Error) :
    (session.fail error).readBuffer = session.readBuffer := rfl

theorem record_readBuffer (session : Session σ) (event : Event) :
    (session.record event).readBuffer = session.readBuffer := rfl

theorem writeFrame_readBuffer (session : Session σ) (frame : Frame) :
    (session.writeFrame frame).readBuffer = session.readBuffer := rfl

theorem rstStream_readBuffer (session : Session σ) (id : ℕ) (code : ErrorCode) :
    (session.rstStream id code).readBuffer = session.readBuffer := by
  grind [rstStream, modify_readBuffer, writeFrame_readBuffer]

theorem decodeDiscardOrphan_readBuffer (hpack : Hpack σ) (session : Session σ) :
    (session.decodeDiscardOrphan hpack).readBuffer = session.readBuffer := by
  grind [decodeDiscardOrphan, fail_readBuffer]

theorem decodeHeaderBlock_readBuffer (hpack : Hpack σ) (session : Session σ) (id : ℕ) :
    (session.decodeHeaderBlock hpack id).readBuffer = session.readBuffer := by
  grind [decodeHeaderBlock, applyScan, fail_readBuffer, modify_readBuffer, rstStream_readBuffer,
    writeFrame_readBuffer]

theorem applySetting_readBuffer (session : Session σ) (setting : ℕ × ℕ) :
    (session.applySetting setting).readBuffer = session.readBuffer := by
  grind [applySetting, fail_readBuffer]

theorem applySettings_readBuffer (session : Session σ) (settings : List (ℕ × ℕ)) :
    (session.applySettings settings).readBuffer = session.readBuffer := by
  fun_induction applySettings session settings with
  | case1 => rfl
  | case2 session setting rest next failed => exact applySetting_readBuffer session setting
  | case3 session setting rest next _ ih => exact ih.trans (applySetting_readBuffer session setting)

theorem onSettings_readBuffer (session : Session σ) (frame : Frame) :
    (session.onSettings frame).readBuffer = session.readBuffer := by
  grind [onSettings, fail_readBuffer, applySettings_readBuffer, writeFrame_readBuffer]

theorem onWindowUpdate_readBuffer (session : Session σ) (frame : Frame) :
    (session.onWindowUpdate frame).readBuffer = session.readBuffer := by
  grind [onWindowUpdate, growConnWindow, growStreamWindow, fail_readBuffer, modify_readBuffer,
    rstStream_readBuffer, record_readBuffer]

theorem onHeaders_readBuffer (hpack : Hpack σ) (session : Session σ) (frame : Frame) :
    (session.onHeaders hpack frame).readBuffer = session.readBuffer := by
  grind [onHeaders, onOrphanHeaders, onStreamHeaders, resetStreamFrameReceived, fail_readBuffer,
    modify_readBuffer, decodeHeaderBlock_readBuffer, decodeDiscardOrphan_readBuffer]

theorem onContinuation_readBuffer (hpack : Hpack σ) (session : Session σ) (frame : Frame) :
    (session.onContinuation hpack frame).readBuffer = session.readBuffer := by
  grind [onContinuation, fail_readBuffer, modify_readBuffer, decodeHeaderBlock_readBuffer,
    decodeDiscardOrphan_readBuffer]

theorem onData_readBuffer (session : Session σ) (frame : Frame) :
    (session.onData frame).readBuffer = session.readBuffer := by
  grind [onData, onStreamData, resetStreamFrameReceived, fail_readBuffer, modify_readBuffer,
    rstStream_readBuffer]

theorem dispatchFrame_readBuffer (hpack : Hpack σ) (session : Session σ) (frame : Frame) :
    (session.dispatchFrame hpack frame).readBuffer = session.readBuffer := by
  unfold dispatchFrame
  grind [onSettings_readBuffer, onWindowUpdate_readBuffer, onHeaders_readBuffer,
    onContinuation_readBuffer, onData_readBuffer, onPing, onPriority, onRstStream, onGoaway,
    fail_readBuffer, record_readBuffer, modify_readBuffer, writeFrame_readBuffer]

theorem parseFrames_readBuffer (hpack : Hpack σ) (session : Session σ) (buffer : List UInt8) :
    (session.parseFrames hpack buffer).2.readBuffer = session.readBuffer := by
  fun_induction parseFrames hpack session buffer with
  | case1 | case2 | case3 => rfl
  | case4 session => exact dispatchFrame_readBuffer hpack session _
  | case5 session buffer header isHeader fits complete frame dispatched alive consumed parsed
      isParsed ih =>
      rw [isParsed] at ih
      exact ih.trans (dispatchFrame_readBuffer hpack session frame)

/-- The session reads as its sink does. -/
theorem parseIncoming_eq (hpack : Hpack σ) (session : Session σ) (incoming : List UInt8) :
    session.parseIncoming hpack incoming =
      let next := (sink hpack).handleData
        { state := { session with streamProgressed := false }, readBuffer := session.readBuffer }
        incoming
      { next.state with readBuffer := next.readBuffer } := by
  unfold parseIncoming FrameSink.handleData
  dsimp only
  split
  · rename_i isEmpty
    have noBuffer : session.readBuffer = [] := List.isEmpty_iff.mp isEmpty
    have untouched :=
      parseFrames_readBuffer hpack { session with streamProgressed := false } incoming
    rw [parseFrames_eq] at untouched ⊢
    generalize (sink hpack).parseFrames { session with streamProgressed := false } incoming =
      parsed at untouched ⊢
    dsimp only at untouched ⊢
    rw [noBuffer] at untouched ⊢
    rw [List.nil_append]
    split
    · rename_i someLeft
      have isLeft : (decide (parsed.consumed < incoming.length) &&
          ((sink hpack).fatalError parsed.state).isNone) = true := someLeft
      rw [if_pos isLeft]
    · rename_i noneLeft
      have isRead : ¬ (decide (parsed.consumed < incoming.length) &&
          ((sink hpack).fatalError parsed.state).isNone) = true := noneLeft
      rw [if_neg isRead, ← untouched]
  · rw [parseFrames_eq]

theorem onIdleData_eq (hpack : Hpack σ) (session : Session σ) (incoming : List UInt8)
    (answer : FlushAnswer) :
    session.onIdleData hpack incoming answer =
      let next := (sink hpack).onIdleData
        { state := session, readBuffer := session.readBuffer } incoming
      let kept := { next.state with readBuffer := next.readBuffer }
      (kept.flush answer).elim (kept.fail .writeFailed) Prod.snd := by
  unfold onIdleData
  dsimp only
  rw [FrameSink.onIdleData_readBuffer, parseFrames_eq]
  unfold FrameSink.onIdleData
  dsimp only
  split
  · rename_i failed
    rw [failed, Option.elim_none]
  · rename_i flushed
    rw [flushed, Option.elim_some]

end Session

end Bun.Http2
