/-
Handling a frame is a run of actions.
-/

import Bun.Http2.Actions

set_option autoImplicit false

namespace Bun.Http2

open Bun.Foundation Session

variable {σ : Type}

/-! ### Tracked streams -/

namespace Session

theorem mem_of_find {session : Session σ} {id : ℕ} {stream : Stream}
    (found : session.find id = some stream) : stream ∈ session.streams :=
  List.mem_of_find?_eq_some found

theorem id_of_find {session : Session σ} {id : ℕ} {stream : Stream}
    (found : session.find id = some stream) : stream.id = id := by
  have isId := List.find?_some found
  exact beq_iff_eq.mp isId

theorem find_mapStreams (session : Session σ) (id : ℕ) {change : Stream → Stream}
    (keepsId : ∀ stream, (change stream).id = stream.id) :
    (session.mapStreams change).find id = (session.find id).map change := by
  unfold find mapStreams
  dsimp only
  rw [List.find?_map]
  congr 2
  funext stream
  rw [Function.comp_apply, keepsId]

theorem modify_eq_mapStreams (session : Session σ) (id : ℕ) (change : Stream → Stream) :
    session.modify id change =
      session.mapStreams fun stream => if stream.id = id then change stream else stream :=
  rfl

theorem find_modify {session : Session σ} {id : ℕ} {stream : Stream} (change : Stream → Stream)
    (keepsId : ∀ stream, (change stream).id = stream.id)
    (found : session.find id = some stream) :
    (session.modify id change).find id = some (change stream) := by
  rw [modify_eq_mapStreams, find_mapStreams, found, Option.map_some, if_pos (id_of_find found)]
  intro stream
  split
  · exact keepsId stream
  · rfl

theorem modify_modify (session : Session σ) (id : ℕ) {first second : Stream → Stream}
    (keepsId : ∀ stream, (first stream).id = stream.id) :
    (session.modify id first).modify id second =
      session.modify id fun stream => second (first stream) := by
  unfold modify
  dsimp only
  rw [List.map_map]
  congr 2
  funext stream
  rw [Function.comp_apply]
  by_cases isId : stream.id = id
  · rw [if_pos isId, if_pos isId, if_pos ((keepsId stream).trans isId)]
  · rw [if_neg isId, if_neg isId, if_neg isId]

end Session

section

variable {hpack : Hpack σ} {session : Session σ}

theorem Act.quietModify (id : ℕ) {change : Stream → Stream}
    (quiet : ∀ stream : Stream, stream.Quiet (change stream))
    (block : (∀ stream, (change stream).headerBlock = stream.headerBlock) ∨
      session.expectingContinuation = 0) :
    Act hpack .plain session (session.modify id change) := by
  rw [modify_eq_mapStreams]
  refine Act.quiet session _ (fun stream => ?_) (fun stream => ?_)
  · split
    · exact quiet stream
    · exact Stream.Quiet.refl stream
  · rcases block with same | nobody
    · left
      split
      · exact same stream
      · rfl
    · exact Or.inr (Or.inr nobody)

/-! ### Reading a block -/

theorem scanBlock_fed {statusCode : ℕ} {block : List UInt8} {table table' : σ}
    {scan scan' result : Scan}
    (read : scanBlock hpack statusCode table scan block = (.ok result, scan', table')) :
    feedBlock hpack table block = some table' := by
  fun_induction scanBlock hpack statusCode table scan block with
  | case1 =>
      rw [feedBlock, if_pos rfl]
      simp only [Prod.mk.injEq] at read
      rw [read.2.2]
  | case2 =>
      simp at read
  | case3 =>
      simp at read
  | case4 table scan block some_left field next taken scanned isField ih =>
      rw [feedBlock, if_neg some_left]
      split
      · rename_i failed
        rw [failed] at taken
        cases taken
      · rename_i field' next' again
        rw [again] at taken
        cases taken
        exact ih read

/-! ### What a block says about its stream -/

/-- A header block that ends a body which was held back. -/
def EndsBody (stream : Stream) (scan : Scan) : Prop :=
  scan.malformed = false ∧ stream.statusCode = 0 ∧ 200 ≤ scan.status ∧
    stream.awaitingContinue = true

variable {allowed : Label → Prop}

theorem resetWithError_path (plain : allowed .plain) (session : Session σ)
    (alive : session.fatalError = none) (id : ℕ) (code : ErrorCode) (error : Error) :
    Path hpack allowed session
      ((session.rstStream id code).modify id fun stream => { stream with fatalError := some error }) :=
  (Path.single plain (Act.reset session id code alive)).andThen plain
    (Act.quietModify id (fun _ => ⟨rfl, rfl, rfl, rfl, rfl, fun _ => rfl⟩) (Or.inl fun _ => rfl))

theorem setError_path (plain : allowed .plain) (session : Session σ) (id : ℕ) (error : Error) :
    Path hpack allowed session
      (session.modify id fun stream => { stream with fatalError := some error }) :=
  Path.single plain
    (Act.quietModify id (fun _ => ⟨rfl, rfl, rfl, rfl, rfl, fun _ => rfl⟩) (Or.inl fun _ => rfl))

theorem applyScan_path (plain : allowed .plain) {stream current : Stream} {scan : Scan}
    (found : session.find stream.id = some current) (alive : session.fatalError = none)
    (state : current.state = stream.state)
    (ends : EndsBody stream scan → stream.localClosed = true → allowed .endsClosed) :
    Path hpack allowed session (session.applyScan stream scan) := by
  unfold applyScan
  dsimp only
  split
  · refine (Path.single plain ?_).trans (resetWithError_path plain (session.modify stream.id fun
      stream' => { stream' with decodedBytes := stream.decodedBytes }) alive stream.id _ _)
    exact Act.quietModify _ (fun _ => ⟨rfl, rfl, rfl, rfl, rfl, id⟩) (Or.inl fun _ => rfl)
  · rename_i wellFormed
    split
    · split
      · exact Path.refl session
      · exact setError_path plain session stream.id _
    · rename_i first
      split
      · refine Path.single plain ?_
        exact Act.quietModify _ (fun _ => ⟨rfl, rfl, rfl, rfl, rfl, fun _ => rfl⟩) (Or.inl fun _ => rfl)
      · split
        · refine Path.single plain (Act.quietModify _ (fun other => ⟨rfl, rfl, rfl, rfl, rfl, ?_⟩)
            (Or.inl fun _ => rfl))
          intro known
          dsimp only
          split
          · rfl
          · exact known
        · rename_i final
          have ready : Act hpack .plain session (session.modify stream.id (Stream.respond scan)) :=
            Act.quietModify _ (fun _ => ⟨rfl, rfl, rfl, rfl, rfl, id⟩) (Or.inl fun _ => rfl)
          split
          · rename_i waits
            have currentId := id_of_find found
            have sameId : (current.respond scan).id = stream.id := currentId
            have foundReady : (session.modify stream.id (Stream.respond scan)).find
                (current.respond scan).id = some (current.respond scan) := by
              rw [sameId]
              exact find_modify (Stream.respond scan) (fun _ => rfl) found
            have ended : Act hpack _ _ _ := Act.endWithheld (session.modify stream.id (Stream.respond scan)) _ alive
              foundReady
            rw [sameId] at ended
            refine (Path.single plain ready).trans (Path.single ?_ ended)
            unfold endLabel
            have closed : (current.respond scan).localClosed = stream.localClosed := by
              unfold Stream.localClosed Stream.respond
              rw [state]
            rw [closed]
            split
            · rename_i isClosed
              refine ends ⟨?_, ?_, ?_, waits⟩ isClosed
              · simpa using wellFormed
              · simpa using first
              · omega
            · exact plain
          · exact Path.single plain ready

/-! ### Header blocks -/

/-- The stream and the whole header block, for an accepted frame that completes one. -/
def completedBlock (session : Session σ) (frame : Frame) : Option (Stream × List UInt8) :=
  let bounded (stream : Stream) (block : List UInt8) :=
    if block.length ≤ localMaxHeaderListSize then some (stream, block) else none
  if session.settingsReceived = false ∨ frame.endHeaders = false then none
  else
    match frame.kind with
    | .headers =>
        if session.expectingContinuation = 0 then
          (session.find frame.streamId).bind fun stream => frame.fragment.bind (bounded stream)
        else none
    | .continuation =>
        if frame.streamId ≠ 0 ∧ session.expectingContinuation = frame.streamId ∧
            session.continuationCount < localMaxContinuations then
          (session.find frame.streamId).bind fun stream =>
            bounded stream (stream.headerBlock ++ frame.payload)
        else none
    | _ => none

def EndsClosed (hpack : Hpack σ) (session : Session σ) (frame : Frame) : Prop :=
  ∃ stream block, completedBlock session frame = some (stream, block) ∧
    stream.localClosed = true ∧ ∃ result scan table,
      scanBlock hpack stream.statusCode session.hpack (Scan.start stream.decodedBytes) block =
        (.ok result, scan, table) ∧ EndsBody stream scan

theorem localClosed_recvEndStream (stream : Stream) :
    stream.recvEndStream.localClosed = stream.localClosed := by
  unfold Stream.recvEndStream Stream.localClosed
  cases stream.state with
  | opened => rfl
  | halfClosedLocal => rfl
  | halfClosedRemote => rfl
  | closed => rfl

theorem decodeHeaderBlock_path (plain : allowed .plain) {kept : Session σ} {id : ℕ}
    {stream : Stream} {result scan : Scan} {table : σ} (found : kept.find id = some stream)
    (alive : kept.fatalError = none) (nobody : kept.expectingContinuation = 0)
    (read : scanBlock hpack stream.statusCode kept.hpack (Scan.start stream.decodedBytes)
      stream.headerBlock = (.ok result, scan, table))
    (ends : EndsBody stream scan → stream.localClosed = true → allowed .endsClosed) :
    Path hpack allowed { kept with hpack := table } (kept.decodeHeaderBlock hpack id) := by
  obtain rfl := id_of_find found
  unfold decodeHeaderBlock
  simp only [found, read]
  have clear : Act hpack .plain { kept with hpack := table }
      ({ kept with hpack := table }.modify stream.id fun stream =>
        { stream with headerBlock := [], decodedBytes := scan.decoded }) :=
    Act.quietModify _ (fun _ => ⟨rfl, rfl, rfl, rfl, rfl, fun known => known⟩) (Or.inr nobody)
  have foundKept : { kept with hpack := table }.find stream.id = some stream := found
  have current := find_modify (fun stream =>
    { stream with headerBlock := [], decodedBytes := scan.decoded }) (fun _ => rfl) foundKept
  exact (Path.single plain clear).trans (applyScan_path plain current alive rfl ends)

theorem decodeHeaderBlock_failed {kept : Session σ} {id : ℕ} {stream : Stream} {scan : Scan}
    {table : σ} {error : Error} (found : kept.find id = some stream)
    (read : scanBlock hpack stream.statusCode kept.hpack (Scan.start stream.decodedBytes)
      stream.headerBlock = (.error error, scan, table)) :
    (kept.decodeHeaderBlock hpack id).fatalError = some error ∧
      (kept.decodeHeaderBlock hpack id).log = kept.log ∧
      (kept.decodeHeaderBlock hpack id).panicked = kept.panicked := by
  unfold decodeHeaderBlock
  simp only [found, read]
  exact ⟨rfl, rfl, rfl⟩

theorem rejected_path (plain : allowed .plain) {session after : Session σ} (frame : Frame)
    (failed : after.fatalError.isSome = true)
    (log : after.log = session.log ++ [.received frame])
    (panicked : after.panicked = session.panicked) : Path hpack allowed session after :=
  (Path.single plain (Act.reject session frame .protocolError)).andThen plain
    (Act.dead _ after rfl failed log panicked)

theorem fail_path (plain : allowed .plain) {session after : Session σ}
    (failed : after.fatalError.isSome = true) (log : after.log = session.log)
    (panicked : after.panicked = session.panicked) : Path hpack allowed session after :=
  (Path.single plain (Act.fail session .protocolError)).andThen plain
    (Act.dead _ after rfl failed log panicked)

theorem recvEnd_each (ended : Stream → Bool) (stream : Stream) :
    (if ended stream then stream.recvEndStream else stream) = stream ∨
      (if ended stream then stream.recvEndStream else stream) = stream.recvEndStream := by
  split
  · exact Or.inr rfl
  · exact Or.inl rfl

/-- The peer's end of a stream, when its header block carries it. -/
def closeAtEnd (stream : Stream) : Stream :=
  if stream.headersEndStream then stream.recvEndStream else stream

theorem closeAtEnd_fields (stream : Stream) :
    (closeAtEnd stream).statusCode = stream.statusCode ∧
      (closeAtEnd stream).decodedBytes = stream.decodedBytes ∧
      (closeAtEnd stream).headerBlock = stream.headerBlock ∧
      (closeAtEnd stream).awaitingContinue = stream.awaitingContinue ∧
      (closeAtEnd stream).id = stream.id := by
  unfold closeAtEnd
  split
  · exact ⟨rfl, rfl, rfl, rfl, rfl⟩
  · exact ⟨rfl, rfl, rfl, rfl, rfl⟩

theorem closeAtEnd_localClosed (stream : Stream) :
    (closeAtEnd stream).localClosed = stream.localClosed := by
  unfold closeAtEnd
  split
  · exact localClosed_recvEndStream stream
  · rfl

theorem completeBlock_path (plain : allowed .plain) {kept : Session σ} {id : ℕ}
    {stream : Stream} {result scan : Scan} {table : σ} (found : kept.find id = some stream)
    (alive : kept.fatalError = none) (nobody : kept.expectingContinuation = 0)
    (read : scanBlock hpack stream.statusCode kept.hpack (Scan.start stream.decodedBytes)
      stream.headerBlock = (.ok result, scan, table))
    (ends : EndsBody stream scan → stream.localClosed = true → allowed .endsClosed) :
    Path hpack allowed { kept with hpack := table }
      ((kept.modify id closeAtEnd).decodeHeaderBlock hpack id) := by
  have closing : Act hpack .plain { kept with hpack := table }
      ({ kept with hpack := table }.modify id closeAtEnd) :=
    Act.recvEnd _ id _ fun stream => recvEnd_each (·.headersEndStream) stream
  obtain ⟨status, decoded, block, waits, _⟩ := closeAtEnd_fields stream
  have foundClosed := find_modify closeAtEnd (fun stream => (closeAtEnd_fields stream).2.2.2.2) found
  rw [← status, ← decoded, ← block] at read
  refine (Path.single plain closing).trans (decodeHeaderBlock_path plain foundClosed alive nobody read ?_)
  rw [closeAtEnd_localClosed]
  rintro ⟨wellFormed, first, final, waiting⟩
  exact ends ⟨wellFormed, status.symm.trans first, final, waits.symm.trans waiting⟩

theorem completeBlock_failed {kept : Session σ} {id : ℕ} {stream : Stream} {scan : Scan}
    {table : σ} {error : Error} (found : kept.find id = some stream)
    (read : scanBlock hpack stream.statusCode kept.hpack (Scan.start stream.decodedBytes)
      stream.headerBlock = (.error error, scan, table)) :
    ((kept.modify id closeAtEnd).decodeHeaderBlock hpack id).fatalError = some error ∧
      ((kept.modify id closeAtEnd).decodeHeaderBlock hpack id).log = kept.log ∧
      ((kept.modify id closeAtEnd).decodeHeaderBlock hpack id).panicked = kept.panicked := by
  obtain ⟨status, decoded, block, _⟩ := closeAtEnd_fields stream
  have foundClosed := find_modify closeAtEnd (fun stream => (closeAtEnd_fields stream).2.2.2.2) found
  rw [← status, ← decoded, ← block] at read
  exact decodeHeaderBlock_failed foundClosed read

theorem isIdle_eq_false {id : ℕ} (used : session.isIdle id = false) :
    id ≠ 0 ∧ id < session.nextStreamId := by
  unfold isIdle at used
  simp only [Bool.or_eq_false_iff, decide_eq_false_iff_not] at used
  omega

theorem onOrphanHeaders_path (plain : allowed .plain) (session : Session σ) (frame : Frame)
    (kind : frame.kind = .headers) (nobody : session.expectingContinuation = 0)
    (untracked : session.find frame.streamId = none) (count : ℕ) :
    Path hpack allowed session
      (onOrphanHeaders hpack
        { session.record (.received frame) with continuationCount := count } frame) := by
  unfold onOrphanHeaders
  split
  · exact rejected_path plain frame rfl rfl rfl
  · rename_i used
    obtain ⟨notZero, used⟩ := isIdle_eq_false (Bool.eq_false_iff.mpr used)
    cases isFragment : frame.fragment with
    | none => exact rejected_path plain frame rfl rfl rfl
    | some fragment =>
        dsimp only
        split
        · exact rejected_path plain frame rfl rfl rfl
        · split
          · rename_i complete
            unfold decodeDiscardOrphan
            dsimp only
            split
            · exact rejected_path plain frame rfl rfl rfl
            · rename_i table fed
              have read : Act hpack .plain session _ :=
                Act.readHeaders session frame fragment table kind isFragment complete nobody fed
              refine ((Path.single plain read).andThen plain (Act.orphan _ [] nobody)).andThen plain
                (Act.tune _ _ ?_)
              exact ⟨rfl, rfl, rfl, rfl, rfl, rfl, rfl, rfl, rfl, rfl, rfl, rfl⟩
          · rename_i incomplete
            have kept : Act hpack .plain session _ :=
              Act.keepOrphan session frame fragment kind isFragment (by simpa using incomplete) nobody
                untracked notZero used
            refine (Path.single plain kept).andThen plain (Act.tune _ _ ?_)
            exact ⟨rfl, rfl, rfl, rfl, rfl, rfl, rfl, rfl, rfl, rfl, rfl, rfl⟩

def keepFragment (fragment : List UInt8) (endStream : Bool) (stream : Stream) : Stream :=
  { stream with headerBlock := fragment, headersEndStream := endStream }

theorem keepFragment_quiet (fragment : List UInt8) (endStream : Bool) (stream : Stream) :
    stream.Quiet (keepFragment fragment endStream stream) :=
  ⟨rfl, rfl, rfl, rfl, rfl, fun known => known⟩

theorem streamBlock_path (plain : allowed .plain) {started : Session σ} {id : ℕ}
    {stream : Stream} {fragment : List UInt8} (endStream : Bool) {result scan : Scan} {table : σ}
    (found : started.find id = some stream) (alive : started.fatalError = none)
    (nobody : started.expectingContinuation = 0)
    (read : scanBlock hpack stream.statusCode started.hpack (Scan.start stream.decodedBytes)
      fragment = (.ok result, scan, table))
    (ends : EndsBody stream scan → stream.localClosed = true → allowed .endsClosed) :
    Path hpack allowed { started with hpack := table }
      (((started.modify id (keepFragment fragment endStream)).modify id
        closeAtEnd).decodeHeaderBlock hpack id) := by
  have keep : Act hpack .plain { started with hpack := table }
      ({ started with hpack := table }.modify id (keepFragment fragment endStream)) :=
    Act.quietModify id (keepFragment_quiet fragment endStream) (Or.inr nobody)
  have foundKept := find_modify (keepFragment fragment endStream) (fun _ => rfl) found
  have complete := completeBlock_path plain foundKept alive nobody read ends
  exact (Path.single plain keep).trans complete

theorem onStreamHeaders_path (plain : allowed .plain) (session : Session σ) (frame : Frame)
    {stream : Stream} (alive : session.fatalError = none) (kind : frame.kind = .headers)
    (settled : session.settingsReceived = true) (nobody : session.expectingContinuation = 0)
    (found : session.find frame.streamId = some stream) (count : ℕ)
    (ends : EndsClosed hpack session frame → allowed .endsClosed) :
    Path hpack allowed session
      (onStreamHeaders hpack
        { session.record (.received frame) with continuationCount := count } frame.streamId
          frame) := by
  let started := { session.record (.received frame) with
    continuationCount := count, streamProgressed := true, livenessPingSpent := false }
  unfold onStreamHeaders
  split
  · exact rejected_path plain frame rfl rfl rfl
  · rename_i fragment isFragment
    change Path hpack allowed session
      (if fragment.length > localMaxHeaderListSize then started.fail .headerListTooLarge
      else
        if frame.endHeaders then
          ((started.modify frame.streamId (keepFragment fragment frame.endStream)).modify
            frame.streamId closeAtEnd).decodeHeaderBlock hpack frame.streamId
        else
          { started.modify frame.streamId (keepFragment fragment frame.endStream) with
            expectingContinuation := frame.streamId })
    split
    · exact rejected_path plain frame rfl rfl rfl
    · rename_i small
      split
      · rename_i complete
        cases read : scanBlock hpack stream.statusCode started.hpack
            (Scan.start stream.decodedBytes) fragment with
        | mk outcome rest =>
            obtain ⟨scan, table⟩ := rest
            have foundStarted : started.find frame.streamId = some stream := found
            cases outcome with
            | error error =>
                have foundKept := find_modify (keepFragment fragment frame.endStream)
                  (fun _ => rfl) foundStarted
                obtain ⟨failed, log, panicked⟩ := completeBlock_failed foundKept read
                exact rejected_path plain frame (congrArg Option.isSome failed) log panicked
            | ok result =>
                have readAct : Act hpack .plain session _ :=
                  Act.readHeaders session frame fragment table kind isFragment complete nobody
                    (scanBlock_fed read)
                have tuned : Path hpack allowed session { started with hpack := table } :=
                  (Path.single plain readAct).andThen plain (Act.tune _ _
                    ⟨rfl, rfl, rfl, rfl, rfl, rfl, rfl, rfl, rfl, rfl, rfl, rfl⟩)
                refine tuned.trans
                  (streamBlock_path plain frame.endStream foundStarted alive nobody read ?_)
                intro body closed
                refine ends ⟨stream, fragment, ?_, closed, result, scan, table, read, body⟩
                unfold completedBlock
                rw [kind, found, isFragment]
                simp [complete, settled, nobody, Nat.not_lt.mp small]
      · rename_i incomplete
        have kept : Act hpack .plain session _ :=
          Act.keepHeaders session frame fragment stream (keepFragment fragment frame.endStream)
            kind isFragment (by simpa using incomplete) nobody found
            (keepFragment_quiet fragment frame.endStream) (fun _ => rfl)
        exact (Path.single plain kept).andThen plain (Act.tune _ _
          ⟨rfl, rfl, rfl, rfl, rfl, rfl, rfl, rfl, rfl, rfl, rfl, rfl⟩)

theorem onHeaders_path (plain : allowed .plain) (session : Session σ) (frame : Frame)
    (alive : session.fatalError = none) (kind : frame.kind = .headers)
    (settled : session.settingsReceived = true) (nobody : session.expectingContinuation = 0)
    (ends : EndsClosed hpack session frame → allowed .endsClosed) :
    Path hpack allowed session ((session.record (.received frame)).onHeaders hpack frame) := by
  unfold onHeaders
  dsimp only
  split
  · rename_i untracked
    exact onOrphanHeaders_path plain session frame kind nobody untracked 0
  · rename_i stream found
    rw [id_of_find found]
    exact onStreamHeaders_path plain session frame alive kind settled nobody found 0 ends

def keepMoreFragment (payload : List UInt8) (stream : Stream) : Stream :=
  { stream with headerBlock := stream.headerBlock ++ payload }

theorem streamBlockEnd_path (plain : allowed .plain) {started : Session σ} {id : ℕ}
    {stream : Stream} (payload : List UInt8) {result scan : Scan} {table : σ}
    (found : started.find id = some stream) (alive : started.fatalError = none)
    (read : scanBlock hpack stream.statusCode started.hpack (Scan.start stream.decodedBytes)
      (stream.headerBlock ++ payload) = (.ok result, scan, table))
    (ends : EndsBody stream scan → stream.localClosed = true → allowed .endsClosed) :
    Path hpack allowed { started with hpack := table, expectingContinuation := 0 }
      (({ started.modify id (keepMoreFragment payload) with expectingContinuation := 0 }.modify id
        closeAtEnd).decodeHeaderBlock hpack id) := by
  let ended : Session σ := { started with expectingContinuation := 0 }
  have keep : Act hpack .plain { ended with hpack := table }
      ({ ended with hpack := table }.modify id (keepMoreFragment payload)) :=
    Act.quietModify id (fun _ => ⟨rfl, rfl, rfl, rfl, rfl, fun known => known⟩) (Or.inr rfl)
  have foundEnded : ended.find id = some stream := found
  have foundKept := find_modify (keepMoreFragment payload) (fun _ => rfl) foundEnded
  have complete := completeBlock_path plain foundKept alive rfl read ends
  exact (Path.single plain keep).trans complete

theorem onStreamContinuation_path (plain : allowed .plain) (session : Session σ) (frame : Frame)
    {stream : Stream} (alive : session.fatalError = none) (kind : frame.kind = .continuation)
    (expected : session.expectingContinuation = frame.streamId) (notZero : frame.streamId ≠ 0)
    (found : session.find frame.streamId = some stream) (count : ℕ)
    (settled : session.settingsReceived = true)
    (few : session.continuationCount < localMaxContinuations)
    (small : stream.headerBlock.length + frame.length ≤ localMaxHeaderListSize)
    (ends : EndsClosed hpack session frame → allowed .endsClosed) {kept : Session σ}
    (keptEq : kept = { session.record (.received frame) with continuationCount := count }.modify
      frame.streamId (keepMoreFragment frame.payload)) :
    Path hpack allowed session
      (if frame.endHeaders then
        ({ kept with expectingContinuation := 0 }.modify frame.streamId
          closeAtEnd).decodeHeaderBlock hpack frame.streamId
      else kept) := by
  let started := { session.record (.received frame) with continuationCount := count }
  have foundStarted : started.find frame.streamId = some stream := found
  subst keptEq
  split
  · rename_i complete
    cases read : scanBlock hpack stream.statusCode started.hpack
        (Scan.start stream.decodedBytes) (stream.headerBlock ++ frame.payload) with
    | mk outcome rest =>
        obtain ⟨scan, table⟩ := rest
        cases outcome with
        | error error =>
            let ended : Session σ := { started with expectingContinuation := 0 }
            have foundEnded : ended.find frame.streamId = some stream := found
            have foundKept := find_modify (keepMoreFragment frame.payload) (fun _ => rfl) foundEnded
            obtain ⟨failed, log, panicked⟩ := completeBlock_failed foundKept read
            exact rejected_path plain frame (congrArg Option.isSome failed) log panicked
        | ok result =>
            have fed := scanBlock_fed read
            have readAct : Act hpack .plain session _ :=
              Act.readMore session frame table kind expected notZero complete
                (by rw [found]; exact fed)
            have tuned : Path hpack allowed session
                { started with hpack := table, expectingContinuation := 0 } :=
              (Path.single plain readAct).andThen plain (Act.tune _ _
                ⟨rfl, rfl, rfl, rfl, rfl, rfl, rfl, rfl, rfl, rfl, rfl, rfl⟩)
            refine tuned.trans (streamBlockEnd_path plain frame.payload foundStarted alive read ?_)
            intro body closed
            refine ends ⟨stream, stream.headerBlock ++ frame.payload, ?_, closed, result, scan, table,
              read, body⟩
            have bounded : (stream.headerBlock ++ frame.payload).length ≤ localMaxHeaderListSize := by
              rw [List.length_append]
              exact small
            unfold completedBlock
            rw [kind, found]
            simp only [complete, settled, expected, few]
            simpa [notZero] using bounded
  · rename_i incomplete
    have more : Act hpack .plain session _ :=
      Act.keepMore session frame kind expected notZero (by simpa using incomplete) stream found
    exact (Path.single plain more).andThen plain (Act.tune _ _
      ⟨rfl, rfl, rfl, rfl, rfl, rfl, rfl, rfl, rfl, rfl, rfl, rfl⟩)

theorem onOrphanContinuation_path (plain : allowed .plain) (session : Session σ) (frame : Frame)
    (kind : frame.kind = .continuation)
    (expected : session.expectingContinuation = frame.streamId) (notZero : frame.streamId ≠ 0)
    (untracked : session.find frame.streamId = none) (count : ℕ) {kept : Session σ}
    (keptEq : kept = { session.record (.received frame) with
      continuationCount := count
      orphanHeaderBlock := session.orphanHeaderBlock ++ frame.payload }) :
    Path hpack allowed session
      (if frame.endHeaders then { kept with expectingContinuation := 0 }.decodeDiscardOrphan hpack
      else kept) := by
  subst keptEq
  split
  · rename_i complete
    unfold decodeDiscardOrphan
    dsimp only
    split
    · exact rejected_path plain frame rfl rfl rfl
    · rename_i table fed
      have readAct : Act hpack .plain session _ :=
        Act.readMore session frame table kind expected notZero complete
          (by rw [untracked]; exact fed)
      exact ((Path.single plain readAct).andThen plain (Act.orphan _ [] rfl)).andThen plain
        (Act.tune _ _ ⟨rfl, rfl, rfl, rfl, rfl, rfl, rfl, rfl, rfl, rfl, rfl, rfl⟩)
  · rename_i incomplete
    have more : Act hpack .plain session _ :=
      Act.keepMoreOrphan session frame kind expected notZero (by simpa using incomplete) untracked
    exact (Path.single plain more).andThen plain (Act.tune _ _
      ⟨rfl, rfl, rfl, rfl, rfl, rfl, rfl, rfl, rfl, rfl, rfl, rfl⟩)

theorem onContinuation_path (plain : allowed .plain) (session : Session σ) (frame : Frame)
    (alive : session.fatalError = none) (kind : frame.kind = .continuation)
    (settled : session.settingsReceived = true)
    (ends : EndsClosed hpack session frame → allowed .endsClosed) :
    Path hpack allowed session
      ((session.record (.received frame)).onContinuation hpack frame) := by
  unfold onContinuation
  dsimp only
  split
  · exact rejected_path plain frame rfl rfl rfl
  · rename_i expects
    simp only [Bool.or_eq_true, decide_eq_true_eq, not_or, ne_eq, Decidable.not_not] at expects
    obtain ⟨notZero, isNext⟩ := expects
    have expected : session.expectingContinuation = frame.streamId := isNext.symm
    have notZero : frame.streamId ≠ 0 := fun zero => notZero (expected.trans zero)
    split
    · exact rejected_path plain frame rfl rfl rfl
    · rename_i few
      split
      · rename_i stream found
        have found : session.find frame.streamId = some stream := expected ▸ found
        split
        · exact rejected_path plain frame rfl rfl rfl
        · rename_i small
          rw [id_of_find found]
          exact onStreamContinuation_path plain session frame alive kind expected notZero found _
            settled (Nat.not_lt.mp few) (Nat.not_lt.mp small) ends rfl
      · rename_i untracked
        have untracked : session.find frame.streamId = none := expected ▸ untracked
        split
        · exact rejected_path plain frame rfl rfl rfl
        · exact onOrphanContinuation_path plain session frame kind expected notZero untracked _ rfl

/-! ### Bodies and resets -/

theorem onStreamData_path (plain : allowed .plain) {session : Session σ} {stream : Stream}
    (frame : Frame) (alive : session.fatalError = none) (kind : frame.kind = .data)
    (found : session.find frame.streamId = some stream) (counts : allowed .counts) :
    Path hpack allowed session ((session.countConn frame).onStreamData stream frame) := by
  let started := { session with streamProgressed := true, livenessPingSpent := false }
  have tuned : Path hpack allowed session started :=
    Path.single plain (Act.tune _ _ ⟨rfl, rfl, rfl, rfl, rfl, rfl, rfl, rfl, rfl, rfl, rfl, rfl⟩)
  have foundStarted : started.find frame.streamId = some stream := found
  unfold onStreamData
  dsimp only
  split
  · have early : Act hpack .counts started _ := Act.dataEarly started frame alive kind stream foundStarted
    exact (tuned.trans (Path.single counts early)).trans (setError_path plain _ stream.id _)
  · split
    · rename_i closed
      have uncounted : Act hpack .counts started (started.countConn frame) := by
        refine Act.dataUncounted started frame kind (fun absent => ?_) (fun other same => ?_)
        · rw [foundStarted] at absent
          cases absent
        · rw [foundStarted] at same
          cases same
          exact closed
      refine (tuned.trans (Path.single counts uncounted)).andThen plain ?_
      exact Act.quietModify stream.id (fun _ => ⟨rfl, rfl, rfl, rfl, rfl, fun _ => rfl⟩)
        (Or.inl fun _ => rfl)
    · have counted := tuned.trans
        (Path.single counts (Act.dataCounted started frame kind stream foundStarted))
      split
      · exact counted.andThen plain (Act.fail _ _)
      · refine (counted.andThen plain (Act.recvEnd _ stream.id _
          fun stream => recvEnd_each (fun _ => frame.endStream) stream)).andThen plain ?_
        exact Act.quietModify stream.id (fun _ => ⟨rfl, rfl, rfl, rfl, rfl, fun known => known⟩)
          (Or.inl fun _ => rfl)

theorem onData_path (plain : allowed .plain) (session : Session σ) (frame : Frame)
    (alive : session.fatalError = none) (kind : frame.kind = .data) (counts : allowed .counts) :
    Path hpack allowed session ((session.record (.received frame)).onData frame) := by
  unfold onData
  dsimp only
  split
  · rename_i untracked
    have untracked : session.find frame.streamId = none := untracked
    split
    · exact rejected_path plain frame rfl rfl rfl
    · rename_i used
      have used := (isIdle_eq_false (Bool.eq_false_iff.mpr used)).2
      have uncounted : Act hpack .counts session (session.countConn frame) := by
        refine Act.dataUncounted session frame kind (fun _ => used) (fun stream found => ?_)
        rw [untracked] at found
        cases found
      exact (Path.single counts uncounted).andThen plain (Act.tune _ _
        ⟨rfl, rfl, rfl, rfl, rfl, rfl, rfl, rfl, rfl, rfl, rfl, rfl⟩)
  · rename_i stream found
    exact onStreamData_path plain frame alive kind found counts

def Erases (session : Session σ) (frame : Frame) : Prop :=
  frame.kind = .rstStream ∧ ∃ stream, session.find frame.streamId = some stream ∧
    stream.rstDone = false ∧ stream.fatalError.isSome = true ∧
    resetError (BigEndian.ofBytes frame.payload) stream.remoteClosed = none

theorem onRstStream_path (plain : allowed .plain) (session : Session σ) (frame : Frame)
    (kind : frame.kind = .rstStream) (erases : Erases session frame → allowed .erases) :
    Path hpack allowed session ((session.record (.received frame)).onRstStream frame) := by
  unfold onRstStream
  split
  · exact rejected_path plain frame rfl rfl rfl
  · split
    · exact rejected_path plain frame rfl rfl rfl
    · rename_i used
      have used := (isIdle_eq_false (Bool.eq_false_iff.mpr used)).2
      split
      · rename_i untracked
        have untracked : session.find frame.streamId = none := untracked
        refine Path.single plain (Act.resetIgnored session frame kind used fun stream found => ?_)
        rw [untracked] at found
        cases found
      · rename_i stream found
        have found : session.find frame.streamId = some stream := found
        split
        · rename_i done
          refine Path.single plain (Act.resetIgnored session frame kind used fun other same => ?_)
          rw [found] at same
          cases same
          exact done
        · rename_i notDone
          have notDone : stream.rstDone = false := by simpa using notDone
          refine Path.single ?_ (Act.resetReceived session frame kind stream found notDone)
          unfold resetLabel
          split
          · rename_i taken
            exact erases ⟨kind, stream, found, notDone, taken.1, taken.2⟩
          · exact plain

/-! ### The connection -/

/-- Frames that say nothing about a header block, a body or a reset. -/
theorem inert_path (plain : allowed .plain) (session : Session σ) {frame : Frame}
    (kind : frame.kind = .windowUpdate ∨ frame.kind = .ping ∨ frame.kind = .priority ∨
      frame.kind = .goaway ∨ frame.kind = .pushPromise ∨ ∃ code, frame.kind = .unknown code) :
    Path hpack allowed session (session.record (.received frame)) := by
  refine Path.single plain (Act.inert session frame ?_)
  obtain isKind | isKind | isKind | isKind | isKind | ⟨code, isKind⟩ := kind <;> simp [isKind]

theorem growStreamWindow_path (plain : allowed .plain) {session : Session σ} {stream : Stream}
    (increment : ℕ) (found : session.find stream.id = some stream)
    (alive : session.fatalError = none) (said : session.Said stream.id increment) :
    Path hpack allowed session (session.growStreamWindow stream increment) := by
  unfold growStreamWindow
  dsimp only
  split
  · exact resetWithError_path plain session alive stream.id _ _
  · split
    · exact resetWithError_path plain session alive stream.id _ _
    · rename_i small
      have small : stream.sendWindow + increment ≤ maxWindowSize := not_lt.mp small
      split
      · rename_i misfit
        refine Path.single plain (Act.panic session stream.sendWindow increment alive
          (Or.inr ⟨stream, mem_of_find found, rfl⟩) small ?_)
        simpa using misfit
      · exact (Path.single plain (Act.grantStream session stream increment alive found said small)).andThen
          plain (Act.tune _ _ ⟨rfl, rfl, rfl, rfl, rfl, rfl, rfl, rfl, rfl, rfl, rfl, rfl⟩)

theorem growConnWindow_path (plain : allowed .plain) (session : Session σ) (increment : ℕ)
    (alive : session.fatalError = none) (said : session.Said 0 increment) :
    Path hpack allowed session (session.growConnWindow increment) := by
  unfold growConnWindow
  dsimp only
  split
  · exact Path.single plain (Act.fail session _)
  · split
    · exact Path.single plain (Act.fail session _)
    · rename_i small
      have small : session.connSendWindow + increment ≤ maxWindowSize := not_lt.mp small
      split
      · rename_i misfit
        refine Path.single plain (Act.panic session session.connSendWindow increment alive
          (Or.inl rfl) small ?_)
        simpa using misfit
      · exact (Path.single plain (Act.grantConn session increment alive said small)).andThen plain
          (Act.tune _ _ ⟨rfl, rfl, rfl, rfl, rfl, rfl, rfl, rfl, rfl, rfl, rfl, rfl⟩)

theorem onWindowUpdate_path (plain : allowed .plain) (session : Session σ) (frame : Frame)
    (alive : session.fatalError = none) (kind : frame.kind = .windowUpdate) :
    Path hpack allowed session ((session.record (.received frame)).onWindowUpdate frame) := by
  have noted : Path hpack allowed session _ := inert_path plain session (Or.inl kind)
  have said : (session.record (.received frame)).Said frame.streamId (uint31 frame.payload) :=
    ⟨frame, List.getLast?_concat, kind, rfl, rfl⟩
  unfold onWindowUpdate
  split
  · exact rejected_path plain frame rfl rfl rfl
  · dsimp only
    split
    · rename_i isConn
      rw [isConn] at said
      exact noted.trans (growConnWindow_path plain _ _ alive said)
    · split
      · rename_i stream found
        have isId := id_of_find found
        rw [← isId] at said found
        exact noted.trans (growStreamWindow_path plain _ found alive said)
      · split
        · exact rejected_path plain frame rfl rfl rfl
        · exact noted

theorem onSettings_path (plain : allowed .plain) (session : Session σ) (frame : Frame)
    (alive : session.fatalError = none) (kind : frame.kind = .settings) :
    Path hpack allowed session ((session.record (.received frame)).onSettings frame) := by
  unfold onSettings
  split
  · exact rejected_path plain frame rfl rfl rfl
  · split
    · rename_i ack
      split
      · exact rejected_path plain frame rfl rfl rfl
      · exact Path.single plain (Act.inert session frame (by simp [kind, ack]))
    · rename_i notAck
      split
      · exact rejected_path plain frame rfl rfl rfl
      · have applied : Path hpack allowed session _ :=
          Path.single plain (Act.settings session frame alive kind (by simpa using notAck))
        dsimp only
        split
        · exact applied
        · split
          · exact applied.andThen plain (Act.fail _ _)
          · exact (applied.andThen plain (Act.control _ settingsAckFrame (Or.inl rfl) rfl)).andThen plain
              (Act.tune _ _ ⟨rfl, rfl, rfl, rfl, rfl, rfl, rfl, rfl, rfl, rfl, rfl, rfl⟩)

theorem onPing_path (plain : allowed .plain) (session : Session σ) (frame : Frame)
    (kind : frame.kind = .ping) :
    Path hpack allowed session ((session.record (.received frame)).onPing frame) := by
  have noted : Path hpack allowed session _ := inert_path plain session (Or.inr (Or.inl kind))
  unfold onPing
  split
  · exact rejected_path plain frame rfl rfl rfl
  · split
    · exact rejected_path plain frame rfl rfl rfl
    · split
      · exact noted.andThen plain (Act.tune _ _
          ⟨rfl, rfl, rfl, rfl, rfl, rfl, rfl, rfl, rfl, rfl, rfl, rfl⟩)
      · split
        · exact rejected_path plain frame rfl rfl rfl
        · exact noted.andThen plain (Act.control _ _ (Or.inr (Or.inl rfl)) rfl)

theorem onPriority_path (plain : allowed .plain) (session : Session σ) (frame : Frame)
    (kind : frame.kind = .priority) :
    Path hpack allowed session ((session.record (.received frame)).onPriority frame) := by
  unfold onPriority
  split
  · exact rejected_path plain frame rfl rfl rfl
  · split
    · exact rejected_path plain frame rfl rfl rfl
    · exact inert_path plain session (by simp [kind])

def refuseAbove (lastId : ℕ) (graceful : Bool) (stream : Stream) : Stream :=
  if stream.id > lastId then
    { stream with fatalError := some (if graceful then .refusedStream else .goAway) }
  else if !graceful && !stream.remoteClosed then { stream with fatalError := some .goAway }
  else stream

theorem refuseAbove_quiet (lastId : ℕ) (graceful : Bool) (stream : Stream) :
    stream.Quiet (refuseAbove lastId graceful stream) ∧
      (refuseAbove lastId graceful stream).headerBlock = stream.headerBlock := by
  unfold refuseAbove
  split
  · exact ⟨⟨rfl, rfl, rfl, rfl, rfl, fun _ => rfl⟩, rfl⟩
  · split
    · exact ⟨⟨rfl, rfl, rfl, rfl, rfl, fun _ => rfl⟩, rfl⟩
    · exact ⟨Stream.Quiet.refl stream, rfl⟩

theorem onGoaway_path (plain : allowed .plain) (session : Session σ) (frame : Frame)
    (kind : frame.kind = .goaway) :
    Path hpack allowed session ((session.record (.received frame)).onGoaway frame) := by
  have noted : Path hpack allowed session (session.record (.received frame)) :=
    inert_path plain session (by simp [kind])
  unfold onGoaway
  split
  · exact rejected_path plain frame rfl rfl rfl
  · split
    · exact rejected_path plain frame rfl rfl rfl
    · have refused (lastId : ℕ) (graceful : Bool) : Act hpack .plain
          (session.record (.received frame))
          ((session.record (.received frame)).mapStreams (refuseAbove lastId graceful)) :=
        Act.quiet _ _ (fun stream => (refuseAbove_quiet lastId graceful stream).1)
          (fun stream => Or.inl (refuseAbove_quiet lastId graceful stream).2)
      exact (noted.andThen plain (refused _ _)).andThen plain
        (Act.tune _ _ ⟨rfl, rfl, rfl, rfl, rfl, rfl, rfl, rfl, rfl, rfl, rfl, rfl⟩)

/-! ### All frames -/

theorem dispatchFrame_path (plain : allowed .plain) (session : Session σ) (frame : Frame)
    (alive : session.fatalError = none) (counts : frame.kind = .data → allowed .counts)
    (ends : EndsClosed hpack session frame → allowed .endsClosed)
    (erases : Erases session frame → allowed .erases) :
    Path hpack allowed session (session.dispatchFrame hpack frame) := by
  unfold dispatchFrame
  dsimp only
  split
  · exact rejected_path plain frame rfl rfl rfl
  · rename_i inBlock
    split
    · exact rejected_path plain frame rfl rfl rfl
    · rename_i notSettled
      have settled (notSettings : frame.kind ≠ .settings) : session.settingsReceived = true := by
        by_contra unsettled
        exact notSettled ⟨Bool.eq_false_iff.mpr unsettled, notSettings⟩
      cases kind : frame.kind with
      | settings => exact onSettings_path plain session frame alive kind
      | windowUpdate => exact onWindowUpdate_path plain session frame alive kind
      | ping => exact onPing_path plain session frame kind
      | priority => exact onPriority_path plain session frame kind
      | headers =>
          refine onHeaders_path plain session frame alive kind (settled (by simp [kind])) ?_ ends
          by_contra expects
          exact inBlock ⟨expects, by simp [kind]⟩
      | continuation =>
          exact onContinuation_path plain session frame alive kind (settled (by simp [kind])) ends
      | data => exact onData_path plain session frame alive kind (counts kind)
      | rstStream => exact onRstStream_path plain session frame kind erases
      | goaway => exact onGoaway_path plain session frame kind
      | pushPromise => exact rejected_path plain frame rfl rfl rfl
      | unknown code => exact inert_path plain session (by simp [kind])

end

end Bun.Http2
