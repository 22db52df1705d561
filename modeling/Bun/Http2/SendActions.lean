/-
Sending requests and bodies is a run of actions.
-/

import Bun.Http2.DispatchActions

set_option autoImplicit false

namespace Bun.Http2

open Bun.Foundation Session

variable {σ : Type}

namespace Session

theorem modify_same (session : Session σ) (id : ℕ) {change : Stream → Stream}
    (same : ∀ stream, change stream = stream) : session.modify id change = session := by
  have unchanged (stream : Stream) :
      (if stream.id = id then change stream else stream) = stream := by
    split
    · exact same stream
    · rfl
  unfold modify
  rw [funext unchanged, List.map_id']

theorem foldl_writeFrame (session : Session σ) (frames : List Frame) :
    ∃ queued, frames.foldl writeFrame session =
      { session with log := session.log ++ frames.map .wrote, queued } := by
  induction frames generalizing session with
  | nil => exact ⟨session.queued, by simp⟩
  | cons frame rest ih =>
      obtain ⟨queued, wrote⟩ := ih (session.writeFrame frame)
      refine ⟨queued, ?_⟩
      rw [List.foldl_cons, wrote]
      simp [writeFrame]

theorem rstStream_fatalError (session : Session σ) (id : ℕ) (code : ErrorCode) :
    (session.rstStream id code).fatalError = session.fatalError := by
  unfold rstStream
  split
  · rfl
  · split
    · rfl
    · rfl

theorem writeData_fatalError (session : Session σ) (id : ℕ) (last : Bool) (chunk : List UInt8) :
    (session.writeData id last chunk).fatalError = session.fatalError := by
  unfold writeData
  dsimp only
  split
  · rfl
  · rfl

theorem find_writeData {session : Session σ} {id : ℕ} {stream : Stream} (last : Bool)
    (chunk : List UInt8) (found : session.find id = some stream) :
    ∃ sent, (session.writeData id last chunk).find id = some sent ∧ sent.state = stream.state := by
  unfold writeData
  dsimp only
  split
  · exact ⟨stream, found, rfl⟩
  · have framed : (session.writeFrame (dataFrame id last chunk)).find id = some stream := found
    exact ⟨_, find_modify _ (fun _ => rfl) framed, rfl⟩

end Session

section

variable {hpack : Hpack σ} {allowed : Label → Prop}

/-! ### Bodies -/

/-- What has been framed of `left` bytes: a part of them, or all of them, and then the last
frame is still to be noted on the stream. -/
inductive Framed (hpack : Hpack σ) (allowed : Label → Prop) (session : Session σ) (id left : ℕ)
    (endStream : Bool) (consumed : ℕ) : ℕ × Session σ → Prop where
  | part (sent : ℕ) (middle : Session σ) (path : Path hpack allowed session middle)
      (less : sent < consumed + left) :
      Framed hpack allowed session id left endStream consumed (sent, middle)
  | whole (sent : ℕ) (middle : Session σ) (stream : Stream) (chunk : List UInt8)
      (path : Path hpack allowed session middle) (all : sent = consumed + left)
      (alive : middle.fatalError = none)
      (found : middle.find id = some stream) (opened : stream.localClosed = false)
      (fits : chunk ≠ [] → (chunk.length : ℤ) ≤ stream.sendWindow ∧
        (chunk.length : ℤ) ≤ middle.connSendWindow ∧ chunk.length ≤ middle.remoteMaxFrameSize) :
      Framed hpack allowed session id left endStream consumed
        (sent, middle.writeData id endStream chunk)

theorem take_fits {session : Session σ} {stream : Stream} {data : List UInt8} {size : ℕ}
    (isSize : size = min (min data.length session.remoteMaxFrameSize)
      (max (min stream.sendWindow session.connSendWindow) 0).toNat) :
    data.take size ≠ [] → ((data.take size).length : ℤ) ≤ stream.sendWindow ∧
      ((data.take size).length : ℤ) ≤ session.connSendWindow ∧
      (data.take size).length ≤ session.remoteMaxFrameSize := by
  intro some_taken
  have positive : (data.take size).length ≠ 0 := by simpa using some_taken
  rw [List.length_take] at positive ⊢
  omega

theorem sendPart_path (plain : allowed .plain) {session : Session σ} {id : ℕ} {stream : Stream}
    {chunk : List UInt8} (alive : session.fatalError = none)
    (found : session.find id = some stream) (opened : stream.localClosed = false)
    (fits : chunk ≠ [] → (chunk.length : ℤ) ≤ stream.sendWindow ∧
      (chunk.length : ℤ) ≤ session.connSendWindow ∧ chunk.length ≤ session.remoteMaxFrameSize) :
    Path hpack allowed session (session.writeData id false chunk) := by
  obtain rfl := id_of_find found
  have sent : Act hpack .plain session _ :=
    Act.sendData session stream false chunk alive found opened fits
  rw [modify_same _ _ fun stream => if_neg Bool.false_ne_true] at sent
  exact Path.single plain sent

theorem Framed.after {session written : Session σ} {id : ℕ} {left size : ℕ} {endStream : Bool}
    {consumed : ℕ} {result : ℕ × Session σ} (path : Path hpack allowed session written)
    (rest : Framed hpack allowed written id (left - size) endStream (consumed + size) result)
    (within : size ≤ left) : Framed hpack allowed session id left endStream consumed result := by
  cases rest with
  | part sent middle later less => exact .part sent middle (path.trans later) (by omega)
  | whole sent middle stream chunk later all alive found opened fits =>
      exact .whole sent middle stream chunk (path.trans later) (by omega) alive found opened fits

theorem writeDataWindowed_framed (plain : allowed .plain) (session : Session σ) (id : ℕ)
    (data : List UInt8) (endStream : Bool) (cap consumed : ℕ) {stream : Stream}
    (alive : session.fatalError = none) (found : session.find id = some stream)
    (opened : stream.localClosed = false) :
    Framed hpack allowed session id data.length endStream consumed
      (session.writeDataWindowed id data endStream cap consumed) := by
  have nothing {data : List UInt8} (some_left : data ≠ []) (session : Session σ) (consumed : ℕ) :
      Framed hpack allowed session id data.length endStream consumed (consumed, session) := by
    have positive := List.length_pos_iff.mpr some_left
    exact .part consumed session (Path.refl session) (by omega)
  fun_induction writeDataWindowed session id data endStream cap consumed generalizing stream with
  | case1 session data consumed untracked =>
      rw [untracked] at found
      cases found
  | case2 session data consumed current isCurrent window =>
      rename_i exhausted
      exact nothing exhausted.1 session consumed
  | case3 session data consumed current isCurrent window _ =>
      rename_i full
      exact nothing full.1 session consumed
  | case4 session data consumed current isCurrent window _ _ =>
      rename_i capped
      exact nothing capped.2 session consumed
  | case5 session data consumed current isCurrent window _ _ _ size last written =>
      rw [isCurrent] at found
      cases found
      by_cases isLast : last
      · have all : written = session.writeData id endStream (data.take size) := by
          simp [written, isLast]
        rw [all]
        exact .whole (consumed + size) session _ _ (Path.refl session) (by rw [isLast]) alive
          isCurrent opened (take_fits rfl)
      · have part : written = session.writeData id false (data.take size) := by
          simp [written, isLast]
        rw [part]
        refine .part (consumed + size) _
          (sendPart_path plain alive isCurrent opened (take_fits rfl)) ?_
        have short : size < data.length := by omega
        omega
  | case6 session data consumed current isCurrent window _ _ _ size last written more =>
      rename_i ih
      rw [isCurrent] at found
      cases found
      have notLast : ¬ last := fun isLast => more (Or.inl isLast)
      have part : written = session.writeData id false (data.take size) := by
        simp [written, notLast]
      obtain ⟨sent, foundSent, state⟩ := find_writeData false (data.take size) isCurrent
      rw [← part] at foundSent
      have stillOpen : sent.localClosed = false := by
        unfold Stream.localClosed at opened ⊢
        rw [state]
        exact opened
      have rest := ih (by rw [part, writeData_fatalError]; exact alive) foundSent stillOpen
      rw [List.length_drop] at rest
      refine Framed.after ?_ rest (by omega)
      rw [part]
      exact sendPart_path plain alive isCurrent opened (take_fits rfl)

theorem Framed.finish_path (plain : allowed .plain) {session : Session σ} {id left : ℕ}
    {endStream : Bool} {result : ℕ × Session σ}
    (framed : Framed hpack allowed session id left endStream 0 result) (closes : Bool)
    (change : Stream → Stream) {finish : Stream → Stream}
    (part : result.1 < left → closes = false) (whole : result.1 = left → closes = endStream)
    (quiet : ∀ stream : Stream, stream.Quiet (change stream) ∧
      (change stream).headerBlock = stream.headerBlock)
    (each : ∀ stream, finish stream =
      change (if closes then stream.sentEndStream else stream)) :
    Path hpack allowed session (result.2.modify id finish) := by
  have isFinish := funext each
  subst isFinish
  have noted (session : Session σ) : Act hpack .plain session (session.modify id change) :=
    Act.quietModify id (fun stream => (quiet stream).1) (Or.inl fun stream => (quiet stream).2)
  cases framed with
  | part sent middle path less =>
      have open_ := part (by omega)
      simp only [open_, Bool.false_eq_true, if_false]
      exact path.andThen plain (noted middle)
  | whole sent middle stream chunk path all alive found opened fits =>
      have isEnd := whole (by omega)
      obtain rfl := id_of_find found
      have sentAct : Act hpack .plain middle _ :=
        Act.sendData middle stream closes chunk alive found opened fits
      have both := path.andThen plain sentAct |>.andThen plain (noted _)
      rw [modify_modify _ _ fun stream => by split <;> rfl] at both
      rw [← isEnd]
      exact both

theorem isEmpty_drop_iff (data : List UInt8) (sent : ℕ) :
    (data.drop sent).isEmpty = true ↔ data.length ≤ sent := by
  rw [List.isEmpty_iff, List.drop_eq_nil_iff]

theorem drainBytes_path (plain : allowed .plain) {session : Session σ} {id sent : ℕ}
    {pending : List UInt8} {written : Session σ}
    (framed : Framed hpack allowed session id pending.length true 0 (sent, written)) :
    Path hpack allowed session
      (written.modify id fun stream =>
        let stream := { stream with body := .bytes (pending.drop sent) }
        if (pending.drop sent).isEmpty then stream.sentEndStream else stream) := by
  refine Framed.finish_path plain framed (pending.drop sent).isEmpty
    (fun stream => { stream with body := .bytes (pending.drop sent) }) ?_ ?_
    (fun stream => ⟨⟨rfl, rfl, rfl, rfl, rfl, fun known => known⟩, rfl⟩) ?_
  · intro less
    exact Bool.eq_false_iff.mpr fun none_left => absurd ((isEmpty_drop_iff _ _).mp none_left) (by
      omega)
  · intro all
    exact (isEmpty_drop_iff _ _).mpr (by omega)
  · intro stream
    dsimp only
    split
    · rfl
    · rfl

theorem drainStream_path (plain : allowed .plain) {session : Session σ} {id sent : ℕ}
    {buffer : List UInt8} (ended detached : Bool) {written : Session σ}
    (framed : Framed hpack allowed session id buffer.length ended 0 (sent, written)) :
    Path hpack allowed session
      (written.modify id fun stream =>
        let left := buffer.drop sent
        if left.isEmpty && ended then
          { stream with body := .stream [] ended true }.sentEndStream
        else { stream with body := .stream left ended detached }) := by
  refine Framed.finish_path plain framed ((buffer.drop sent).isEmpty && ended)
    (fun stream =>
      { stream with
        body :=
          if (buffer.drop sent).isEmpty && ended then .stream [] ended true
          else .stream (buffer.drop sent) ended detached }) ?_ ?_
    (fun stream => ⟨⟨rfl, rfl, rfl, rfl, rfl, fun known => known⟩, rfl⟩) ?_
  · intro less
    have some_left : (buffer.drop sent).isEmpty = false :=
      Bool.eq_false_iff.mpr fun none_left => absurd ((isEmpty_drop_iff _ _).mp none_left) (by omega)
    rw [some_left, Bool.false_and]
  · intro all
    rw [(isEmpty_drop_iff _ _).mpr (by omega), Bool.true_and]
  · intro stream
    dsimp only
    split
    · rfl
    · rfl

theorem drainSendBody_path (plain : allowed .plain) (session : Session σ) (id cap : ℕ)
    (alive : session.fatalError = none) :
    Path hpack allowed session (session.drainSendBody id cap) := by
  unfold drainSendBody
  split
  · exact Path.refl session
  · rename_i stream found
    split
    · exact Path.refl session
    · rename_i may
      simp only [Bool.or_eq_true, not_or, Bool.not_eq_true] at may
      have framed (data : List UInt8) (endStream : Bool) :
          Framed hpack allowed session id data.length endStream 0
            (session.writeDataWindowed id data endStream cap 0) :=
        writeDataWindowed_framed plain session id data endStream cap 0 alive found may.1.1
      split
      · exact Path.refl session
      · split
        · rename_i pending _
          exact drainBytes_path plain (framed pending true)
        · rename_i buffer ended detached _
          split
          · exact Path.refl session
          · exact drainStream_path plain ended detached (framed buffer ended)

/-! ### Flushes -/

theorem flush_sameCore {session flushed : Session σ} {answer : FlushAnswer} {backpressured : Bool}
    (isFlush : session.flush answer = some (backpressured, flushed)) : SameCore session flushed := by
  unfold flush at isFlush
  split at isFlush
  · cases isFlush
    exact SameCore.refl session
  · split at isFlush
    · cases isFlush
    · cases isFlush
      exact ⟨rfl, rfl, rfl, rfl, rfl, rfl, rfl, rfl, rfl, rfl, rfl, rfl⟩

theorem flushQuietly_sameCore (session : Session σ) (answer : FlushAnswer) :
    SameCore session (session.flushQuietly answer) := by
  unfold flushQuietly
  split
  · exact SameCore.refl session
  · rename_i isFlush
    exact flush_sameCore isFlush

theorem failAll_path (plain : allowed .plain) (session : Session σ) (error : Error) (alive : Bool) :
    Path hpack allowed session (session.failAll error alive) := by
  unfold failAll
  cases alive with
  | true =>
      have said : Act hpack .plain session _ :=
        Act.control session (goawayFrame error) (Or.inr (Or.inr rfl)) rfl
      exact (Path.single plain said).trans (fail_path plain rfl rfl rfl)
  | false => exact fail_path plain rfl rfl rfl

/-! ### Requests -/

def requestStream (session : Session σ) (request : Request) : Stream where
  id := session.nextStreamId
  sendWindow := min session.remoteInitialWindowSize maxWindowSize
  body := request.body

theorem alive_of_headroom {session : Session σ} (headroom : session.hasHeadroom = true) :
    session.fatalError = none := by
  unfold hasHeadroom at headroom
  simp only [Bool.and_eq_true, Option.isNone_iff_eq_none] at headroom
  exact headroom.1.1.2

theorem requestStream_fresh {session : Session σ} (request : Request)
    (headroom : session.hasHeadroom = true) : (requestStream session request).Fresh session := by
  unfold hasHeadroom at headroom
  simp only [Bool.and_eq_true, decide_eq_true_eq] at headroom
  exact ⟨rfl, headroom.2, rfl, rfl, rfl, rfl, rfl⟩

/-- The session before the stream of a request is added. -/
def prefaced (session : Session σ) : Session σ :=
  if session.prefaceSent then session else session.writePreface

theorem prefaced_path (plain : allowed .plain) (session : Session σ) :
    Path hpack allowed session (prefaced session) := by
  unfold prefaced
  split
  · exact Path.refl session
  · exact Path.single plain (Act.preface session)

theorem attach_opened (session : Session σ) (stream : Stream) :
    (if session.prefaceSent then session.addStream stream
      else (session.addStream stream).writePreface) = (prefaced session).addStream stream := by
  unfold prefaced
  split
  · rfl
  · rfl

theorem prefaced_core (session : Session σ) :
    (prefaced session).fatalError = session.fatalError ∧
      (prefaced session).nextStreamId = session.nextStreamId ∧
      (prefaced session).remoteInitialWindowSize = session.remoteInitialWindowSize := by
  unfold prefaced
  split
  · exact ⟨rfl, rfl, rfl⟩
  · exact ⟨rfl, rfl, rfl⟩

theorem foldl_writeFrame_modify (session : Session σ) (frames : List Frame) (id : ℕ)
    (change : Stream → Stream) :
    frames.foldl writeFrame (session.modify id change) =
      (frames.foldl writeFrame session).modify id change := by
  induction frames generalizing session with
  | nil => rfl
  | cons frame rest ih => exact ih (session.writeFrame frame)

def waitFor (waits : Bool) (stream : Stream) : Stream :=
  { stream with awaitingContinue := waits }

def closeWith (ends : Bool) (stream : Stream) : Stream :=
  if ends then stream.sentEndStream else stream

theorem closeWith_id (ends : Bool) (stream : Stream) : (closeWith ends stream).id = stream.id := by
  unfold closeWith
  split
  · rfl
  · rfl

theorem openRequest_path (plain : allowed .plain) (session : Session σ) {stream : Stream}
    (alive : session.fatalError = none) (fresh : stream.Fresh session) (block : List UInt8)
    (ends waits : Bool) :
    Path hpack allowed session
      ((((session.addStream stream).modify stream.id (waitFor waits)).writeHeaderBlock stream.id
        block ends).modify stream.id (closeWith ends)) := by
  have opened : Act hpack .plain session _ :=
    Act.openRequest session stream alive fresh session.remoteMaxFrameSize block ends
  have waiting (session : Session σ) :
      Act hpack .plain session (session.modify stream.id (waitFor waits)) :=
    Act.quietModify stream.id (fun _ => ⟨rfl, rfl, rfl, rfl, rfl, fun known => known⟩)
      (Or.inl fun _ => rfl)
  have both := (Path.single plain opened).andThen plain (waiting _)
  have keepsId (stream : Stream) : (waitFor waits stream).id = stream.id := rfl
  have commutes : (fun stream => closeWith ends (waitFor waits stream)) =
      fun stream => waitFor waits (closeWith ends stream) := by
    funext stream
    cases ends with
    | true => rfl
    | false => rfl
  unfold writeHeaderBlock
  rw [foldl_writeFrame_modify, modify_modify _ _ keepsId, commutes,
    ← modify_modify _ _ (closeWith_id ends)]
  exact both

theorem writeHeaderBlock_fatalError (session : Session σ) (id : ℕ) (block : List UInt8)
    (endStream : Bool) :
    (session.writeHeaderBlock id block endStream).fatalError = session.fatalError := by
  obtain ⟨queued, wrote⟩ := foldl_writeFrame session
    (headerFrames session.remoteMaxFrameSize id endStream true block)
  unfold writeHeaderBlock
  rw [wrote]

theorem writeRequest_path (plain : allowed .plain) {session : Session σ} {stream : Stream}
    (alive : session.fatalError = none) (fresh : stream.Fresh session) (request : Request)
    (block : List UInt8) :
    Path hpack allowed session
      ((session.addStream stream).writeRequest stream.id request block) := by
  let started := { session with pendingHpackEncCapacity := none }
  have tuned : Path hpack allowed session started :=
    Path.single plain (Act.tune _ _ ⟨rfl, rfl, rfl, rfl, rfl, rfl, rfl, rfl, rfl, rfl, rfl, rfl⟩)
  have freshStarted : stream.Fresh started :=
    ⟨fresh.id_eq, fresh.id_lt, fresh.state_eq, fresh.rstDone_eq, fresh.unacked_eq, fresh.window_eq,
      fresh.block_eq⟩
  have opened (ends waits : Bool) := tuned.trans
    (openRequest_path plain started alive freshStarted block ends waits)
  have unchanged (session : Session σ) : session.modify stream.id (closeWith false) = session :=
    modify_same session stream.id fun _ => rfl
  have stillAlive (waits ends : Bool) : (((started.addStream stream).modify stream.id
      (waitFor waits)).writeHeaderBlock stream.id block ends).fatalError = none :=
    (writeHeaderBlock_fatalError _ _ _ _).trans alive
  unfold writeRequest
  dsimp only
  split
  · rename_i inline
    rw [decide_eq_true inline, Bool.not_true, Bool.false_and]
    have framed := opened false (request.expectContinue && (true || request.body.isStreaming))
    rw [unchanged] at framed
    exact framed.trans (drainSendBody_path plain _ stream.id noCap (stillAlive _ _))
  · rename_i notInline
    rw [decide_eq_false notInline]
    split
    · rename_i streaming
      rw [streaming, Bool.not_true, Bool.and_false]
      have framed := opened false (request.expectContinue && (false || true))
      rw [unchanged] at framed
      exact framed
    · rename_i notStreaming
      rw [Bool.eq_false_iff.mpr notStreaming]
      exact opened true _

theorem attach_eq (session : Session σ) (request : Request) (answers : List FlushAnswer) :
    session.attach request answers =
      let opened := (prefaced session).addStream (requestStream session request)
      if request.compressFails then opened.removeStream session.nextStreamId
      else
        match request.block with
        | none =>
            { opened.removeStream session.nextStreamId with
              encoderPoisoned := true
              pendingAttach := [] }
        | some block =>
            (opened.writeRequest session.nextStreamId request block).pumpSendBodies answers := by
  unfold attach
  rw [← attach_opened session (requestStream session request)]
  rfl

/-- A request is attached, up to the rounds of draining that follow. -/
theorem attach_path (plain : allowed .plain) (session : Session σ) (request : Request)
    (headroom : session.hasHeadroom = true) :
    Path hpack allowed session (session.attach request []) := by
  have fresh := requestStream_fresh request headroom
  have opening : Path hpack allowed session (prefaced session) := prefaced_path plain session
  obtain ⟨sameFatal, sameNext, sameInitial⟩ := prefaced_core session
  have alive : (prefaced session).fatalError = none :=
    sameFatal.trans (alive_of_headroom headroom)
  have freshPrefaced : (requestStream session request).Fresh (prefaced session) :=
    ⟨fresh.id_eq.trans sameNext.symm, fresh.id_lt, rfl, rfl, rfl, by rw [sameInitial]; rfl, rfl⟩
  have opened := opening.andThen plain (Act.openStream _ _ freshPrefaced)
  rw [attach_eq]
  dsimp only
  split
  · exact opened.andThen plain (Act.remove _ _)
  · split
    · exact (opened.andThen plain (Act.remove _ _)).andThen plain (Act.tune _ _
        ⟨rfl, rfl, rfl, rfl, rfl, rfl, rfl, rfl, rfl, rfl, rfl, rfl⟩)
    · rename_i block _
      exact opening.trans (writeRequest_path plain alive freshPrefaced request block)

end

end Bun.Http2
