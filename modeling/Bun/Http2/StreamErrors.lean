/-
Errors of streams.

An error that a frame leaves on a stream stays there until the stream is delivered, which
then fails.  One frame can take it away: RST_STREAM with NO_ERROR, when the peer has ended
the response.
-/

import Bun.Http2.Lifecycle

set_option autoImplicit false

namespace Bun.Http2

open Bun.Foundation Session

variable {σ : Type} {hpack : Hpack σ} {label : Label} {session after : Session σ}

def Stream.Sticky (stream after : Stream) : Prop :=
  after.id = stream.id ∧ (stream.fatalError.isSome = true → after.fatalError.isSome = true)

theorem Stream.Sticky.refl (stream : Stream) : stream.Sticky stream :=
  ⟨rfl, fun failed => failed⟩

theorem Stream.Sticky.trans (first second third : Stream) (earlier : first.Sticky second)
    (later : second.Sticky third) : first.Sticky third :=
  ⟨later.1.trans earlier.1, fun failed => later.2 (earlier.2 failed)⟩

theorem Stream.Sticky.window (stream : Stream) (value : ℤ) :
    stream.Sticky { stream with sendWindow := value } :=
  ⟨rfl, fun failed => failed⟩

theorem rstStream_sticky (session : Session σ) (id : ℕ) (code : ErrorCode) :
    Follows Stream.Sticky session (session.rstStream id code) := by
  obtain ⟨same, _⟩ | ⟨_, _, _, _, isReset⟩ := rstStream_cases session id code
  · rw [same]
    exact Follows.of_streams Stream.Sticky.refl rfl
  · rw [isReset]
    exact modify_follows Stream.Sticky.refl session id fun _ => ⟨rfl, fun failed => failed⟩

structure Fails (id : ℕ) (session : Session σ) : Prop where
  ids : Ids session
  opened : id < session.nextStreamId
  failed : ∀ stream ∈ session.streams, stream.id = id → stream.fatalError.isSome = true

theorem Fails.keep {id : ℕ} (fails : Fails id session) (ids : Ids after)
    (next : session.nextStreamId ≤ after.nextStreamId)
    (sticky : Follows Stream.Sticky session after) : Fails id after := by
  refine ⟨ids, fails.opened.trans_le next, fun stream isIn isId => ?_⟩
  obtain ⟨old, wasIn, sameId, kept⟩ := sticky stream isIn
  exact kept (fails.failed old wasIn (sameId.symm.trans isId))

theorem addStream_fails {id : ℕ} (fails : Fails id session) {stream : Stream}
    (fresh : stream.Fresh session) : Fails id (session.addStream stream) := by
  refine ⟨fails.ids.addStream fresh, Nat.lt_add_right 2 fails.opened, fun opened isIn isId => ?_⟩
  rcases List.mem_append.mp isIn with known | new
  · exact fails.failed opened known isId
  · rw [List.mem_singleton.mp new, fresh.id_eq] at isId
    exact absurd isId (Nat.ne_of_gt fails.opened)

theorem Act.fails {id : ℕ} (act : Act hpack label session after) (allowed : label ≠ .erases)
    (alive : after.fatalError = none) (fails : Fails id session) : Fails id after := by
  have ids : Ids after := act.ids alive fails.ids
  have same (next : after.nextStreamId = session.nextStreamId)
      (streams : after.streams = session.streams) : Fails id after :=
    fails.keep ids next.ge (Follows.of_streams Stream.Sticky.refl streams)
  have sticky (next : after.nextStreamId = session.nextStreamId)
      (follows : Follows Stream.Sticky session after) : Fails id after :=
    fails.keep ids next.ge follows
  cases act with
  | tune _ _ core => exact same core.next_eq core.streams_eq
  | quiet _ change quiet =>
      exact sticky rfl (mapStreams_follows session fun stream =>
        ⟨(quiet stream).id_eq, (quiet stream).error_kept⟩)
  | orphan _ block nobody => exact same rfl rfl
  | fail _ error => cases alive
  | dead _ _ _ failedAfter =>
      rw [alive] at failedAfter
      cases failedAfter
  | panic _ value increment => exact same rfl rfl
  | reject _ frame error => cases alive
  | inert _ frame kind => exact same rfl rfl
  | settings _ frame _ kind notAck =>
      exact sticky (applySettings_log (session.record (.received frame)) _).2
        (applySettings_follows Stream.Sticky.refl Stream.Sticky.window Stream.Sticky.trans
          (session.record (.received frame)) _)
  | grantConn _ increment => exact same rfl rfl
  | grantStream _ stream increment =>
      exact sticky rfl (modify_follows Stream.Sticky.refl session stream.id
        fun _ => ⟨rfl, fun failed => failed⟩)
  | reset _ other code =>
      refine sticky ?_ (rstStream_sticky session other code)
      obtain ⟨isSame, _⟩ | ⟨_, _, _, _, isReset⟩ := rstStream_cases session other code
      · rw [isSame]
      · rw [isReset]
        rfl
  | recvEnd _ other change each =>
      refine sticky rfl (modify_follows Stream.Sticky.refl session other fun stream => ?_)
      rcases each stream with isSame | ended
      · rw [isSame]
        exact Stream.Sticky.refl stream
      · rw [ended]
        exact ⟨rfl, fun failed => failed⟩
  | keepHeaders _ frame fragment stream change kind _ _ _ _ quiet =>
      exact sticky rfl (modify_follows Stream.Sticky.refl (session.record _) frame.streamId
        fun stream => ⟨(quiet stream).id_eq, (quiet stream).error_kept⟩)
  | keepOrphan _ frame fragment kind => exact same rfl rfl
  | readHeaders _ frame fragment table kind => exact same rfl rfl
  | keepMore _ frame kind =>
      exact sticky rfl (modify_follows Stream.Sticky.refl (session.record _) frame.streamId
        fun _ => ⟨rfl, fun failed => failed⟩)
  | keepMoreOrphan _ frame kind => exact same rfl rfl
  | readMore _ frame table kind => exact same rfl rfl
  | dataUncounted _ frame kind => exact same rfl rfl
  | dataEarly _ frame _ kind stream found =>
      refine sticky ?_ (rstStream_sticky (session.countConn frame) stream.id .protocolError)
      obtain ⟨isSame, _⟩ | ⟨_, _, _, _, isReset⟩ :=
        rstStream_cases (session.countConn frame) stream.id .protocolError
      · rw [isSame]
        rfl
      · rw [isReset]
        rfl
  | dataCounted _ frame kind stream found =>
      exact sticky rfl (modify_follows Stream.Sticky.refl (session.countConn frame) stream.id
        fun _ => ⟨rfl, fun failed => failed⟩)
  | resetIgnored _ frame kind used => exact same rfl rfl
  | resetReceived _ frame kind stream found notDone =>
      refine ⟨ids, fails.opened, fun changed isIn isId => ?_⟩
      obtain ⟨old, wasIn, rfl⟩ := List.mem_map.mp isIn
      by_cases isReset : old.id = stream.id
      · have both := (fails.ids.find_iff.mpr ⟨wasIn, isReset⟩).symm.trans
          (id_of_find found ▸ found)
        cases both
        rw [if_pos rfl] at isId ⊢
        have failed := fails.failed stream wasIn isId
        by_contra taken
        refine allowed (if_pos ⟨failed, ?_⟩)
        simpa using taken
      · rw [if_neg isReset] at isId ⊢
        exact fails.failed old wasIn isId
  | endWithheld _ stream _ found =>
      exact sticky rfl (modify_follows Stream.Sticky.refl (session.writeFrame _) stream.id
        fun _ => ⟨rfl, fun failed => failed⟩)
  | control _ frame kind onConn => exact same rfl rfl
  | preface _ => exact same rfl rfl
  | sendData _ stream last chunk _ found =>
      have closing (stream : Stream) :
          stream.Sticky (if last then stream.sentEndStream else stream) := by
        split
        · exact ⟨rfl, fun failed => failed⟩
        · exact Stream.Sticky.refl stream
      exact sticky (writeData_log session stream.id last chunk).2
        ((writeData_follows Stream.Sticky.refl Stream.Sticky.window session stream.id last
          chunk).trans Stream.Sticky.trans
            (modify_follows Stream.Sticky.refl _ stream.id closing))
  | ackConn _ _ => exact same rfl rfl
  | ackStream _ stream _ found =>
      exact sticky rfl (modify_follows Stream.Sticky.refl session stream.id
        fun _ => ⟨rfl, fun failed => failed⟩)
  | openStream _ stream fresh => exact addStream_fails fails fresh
  | openRequest _ stream _ fresh size block ends =>
      obtain ⟨queued, wrote⟩ := foldl_writeFrame (session.addStream stream)
        (headerFrames size stream.id ends true block)
      rw [wrote] at ids ⊢
      have closing (stream : Stream) :
          stream.Sticky (if ends then stream.sentEndStream else stream) := by
        split
        · exact ⟨rfl, fun failed => failed⟩
        · exact Stream.Sticky.refl stream
      exact (addStream_fails fails fresh).keep ids (Nat.le_refl _)
        (modify_follows Stream.Sticky.refl (session.addStream stream) stream.id closing)
  | remove _ other =>
      refine sticky ?_ (removeStream_follows Stream.Sticky.refl session other)
      unfold removeStream
      split
      · rfl
      · rfl

/-! ### Every run -/

def Session.Outcome.Refused (outcome : Outcome) : Prop :=
  outcome = .nothing ∨ outcome = .retried ∨ ∃ error, outcome = .failed error

theorem deliverStream_refused (session : Session σ) (id : ℕ) (answers : ClientAnswers)
    (answer : FlushAnswer)
    (failed : ∀ stream, session.find id = some stream → stream.fatalError.isSome = true) :
    (session.deliverStream id answers answer).2.1.Refused := by
  unfold deliverStream
  split
  · exact Or.inl rfl
  · rename_i stream found
    obtain ⟨error, isError⟩ := Option.isSome_iff_exists.mp (failed stream found)
    rw [isError]
    split
    · exact Or.inl rfl
    · split
      · exact Or.inr (Or.inr ⟨_, rfl⟩)
      · dsimp only
        split
        · exact Or.inr (Or.inl rfl)
        · exact Or.inr (Or.inr ⟨_, rfl⟩)

/-- The run forgets no error: as long as the session lives and no frame takes the error of a
stream away, the stream has one whenever it is delivered, and the delivery is no success. -/
theorem run_keeps_errors (hpack : Hpack σ) (table : σ) {session after : Session σ}
    (reachable : Reachable hpack anyFrame table session) (alive : session.fatalError = none)
    {id : ℕ} {stream : Stream} (found : session.find id = some stream)
    (failed : stream.fatalError.isSome = true)
    (run : Run hpack (fun session frame => ¬ Erases session frame) session after)
    (aliveAfter : after.fatalError = none) :
    (∀ current, after.find id = some current → current.fatalError.isSome = true) ∧
      ∀ answers answer, (after.deliverStream id answers answer).2.1.Refused := by
  have ids : Ids session := reachable.path.windows.2 alive |>.ids
  have start : Fails id session := by
    refine ⟨ids, ?_, fun other isIn isId => ?_⟩
    · exact id_of_find found ▸ (ids.of_mem (mem_of_find found)).2
    · have same := (ids.find_iff.mpr ⟨isIn, isId⟩).symm.trans found
      cases same
      exact failed
  have path : Path hpack (· ≠ .erases) session after :=
    run.path (by decide) (fun _ _ _ _ => by decide) (fun _ _ _ _ => by decide)
      (fun _ _ kept erases => absurd erases kept)
  have fails : Fails id after :=
    path.invariant (fun _ => start)
      (fun label session after allowed act alive fails => act.fails allowed alive fails) aliveAfter
  have still (current : Stream) (now : after.find id = some current) :
      current.fatalError.isSome = true :=
    fails.failed current (mem_of_find now) (id_of_find now)
  exact ⟨still, fun answers answer => deliverStream_refused after id answers answer still⟩

def dataAfterEnd : Session Unit :=
  ((((Session.fresh ()).dispatchFrame statusOk (settingsFrame settingsInitialWindowSize 2)).attach
    { block := some [0x82] } []).dispatchFrame statusOk
      { kind := .headers, flags := endHeadersFlag ||| endStreamFlag, streamId := 1,
        payload := [0x88] }).dispatchFrame statusOk { kind := .data, streamId := 1, payload := [7] }

theorem dataAfterEnd_reachable : Reachable statusOk anyFrame () dataAfterEnd :=
  ((((Run.refl _).step (Step.frame _ _ rfl trivial)).step
    (Step.attach _ _ (by decide +kernel))).step (Step.frame _ _ (by decide +kernel) trivial)).step
      (Step.frame _ _ (by decide +kernel) trivial)

/-- The peer ends the connection, with room for the stream. -/
def goawayAfterData : Session Unit :=
  dataAfterEnd.dispatchFrame statusOk
    { kind := .goaway, streamId := 0, payload := [0, 0, 0, 1, 0, 0, 0, 0] }

theorem run_keeps_errors_goaway :
    (goawayAfterData.find 1).isSome = true ∧
      (goawayAfterData.deliverStream 1 {} (.takes 0)).2.1.Refused := by
  refine ⟨by decide +kernel, ?_⟩
  have recorded : ∃ stream, dataAfterEnd.find 1 = some stream ∧ stream.fatalError.isSome = true := by
    have failed : (dataAfterEnd.find 1).any (·.fatalError.isSome) = true := by decide +kernel
    exact (Option.any_eq_true ..).mp failed
  obtain ⟨stream, found, failed⟩ := recorded
  have kept : ¬ Erases dataAfterEnd
      { kind := .goaway, streamId := 0, payload := [0, 0, 0, 1, 0, 0, 0, 0] } := by
    rintro ⟨kind, _⟩
    cases kind
  exact (run_keeps_errors statusOk () dataAfterEnd_reachable (by decide +kernel) found failed
    ((Run.refl _).step (Step.frame _ _ (by decide +kernel) kept)) (by decide +kernel)).2 {} (.takes 0)

def resetAfterData : Session Unit :=
  dataAfterEnd.dispatchFrame statusOk { kind := .rstStream, streamId := 1, payload := [0, 0, 0, 0] }

/-- DATA after the end of a response is an error, and the reset after it makes a success of
it. -/
theorem resetAfterData_succeeds :
    Reachable statusOk anyFrame () resetAfterData ∧
      (dataAfterEnd.find 1).any (·.fatalError.isSome) = true ∧
      (resetAfterData.find 1).any (·.fatalError.isNone) = true ∧
      (resetAfterData.deliverStream 1 {} (.takes 0)).2.1 = .succeeded :=
  ⟨dataAfterEnd_reachable.step (Step.frame _ _ (by decide +kernel) trivial),
    by decide +kernel, by decide +kernel, by decide +kernel⟩

end Bun.Http2
