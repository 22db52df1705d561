/-
Which streams a session knows, and what it may do once it has failed.

Stream ids are given out once and in order.  No entry of the log speaks of a stream that
has not been opened.
-/

import Mathlib.Data.List.Nodup
import Bun.Http2.Runs

set_option autoImplicit false

namespace Bun.Http2

open Bun.Foundation Session

variable {σ : Type} {hpack : Hpack σ} {label : Label} {session after : Session σ}

/-! ### After a failure -/

/-- Entries that a session may still add when it has failed. -/
def Event.Harmless : Event → Prop
  | .wrote frame => frame.kind = .settings ∨ frame.kind = .ping ∨ frame.kind = .goaway
  | .preface frames =>
      frames = [prefaceSettingsFrame, windowUpdateFrame 0 (localInitialWindowSize - defaultWindowSize)]
  | .granted _ _ => False
  | .received _ => True

theorem applySetting_log (session : Session σ) (setting : ℕ × ℕ) :
    (session.applySetting setting).log = session.log ∧
      (session.applySetting setting).nextStreamId = session.nextStreamId := by
  unfold applySetting
  dsimp only
  repeat' split
  all_goals exact ⟨rfl, rfl⟩

theorem applySettings_log (session : Session σ) (units : List (ℕ × ℕ)) :
    (session.applySettings units).log = session.log ∧
      (session.applySettings units).nextStreamId = session.nextStreamId := by
  induction units generalizing session with
  | nil => exact ⟨rfl, rfl⟩
  | cons setting rest ih =>
      unfold applySettings
      dsimp only
      split
      · exact applySetting_log session setting
      · obtain ⟨log, next⟩ := applySetting_log session setting
        obtain ⟨restLog, restNext⟩ := ih (session.applySetting setting)
        exact ⟨restLog.trans log, restNext.trans next⟩

theorem Act.of_failed (act : Act hpack label session after)
    (failed : session.fatalError.isSome = true) :
    after.fatalError.isSome = true ∧ after.panicked = session.panicked ∧
      ∃ events : List Event, after.log = session.log ++ events ∧ ∀ event ∈ events, event.Harmless := by
  have dead {P : Prop} (alive : session.fatalError = none) : P := by
    rw [alive] at failed
    cases failed
  have same (log : after.log = session.log) :
      ∃ events : List Event, after.log = session.log ++ events ∧
        ∀ event ∈ events, event.Harmless :=
    ⟨[], by rw [log, List.append_nil], fun _ isIn => by cases isIn⟩
  have one (event : Event) (harmless : event.Harmless) (log : after.log = session.log ++ [event]) :
      ∃ events : List Event, after.log = session.log ++ events ∧
        ∀ event ∈ events, event.Harmless :=
    ⟨[event], log, fun other isIn => by
      rw [List.mem_singleton.mp isIn]
      exact harmless⟩
  cases act with
  | tune _ _ core => exact ⟨by rw [core.fatal_eq]; exact failed, core.panicked_eq, same core.log_eq⟩
  | quiet _ change => exact ⟨failed, rfl, same rfl⟩
  | orphan _ block nobody => exact ⟨failed, rfl, same rfl⟩
  | fail _ error => exact ⟨rfl, rfl, same rfl⟩
  | dead _ _ _ failedAfter log panicked => exact ⟨failedAfter, panicked, same log⟩
  | panic _ value increment alive => exact dead alive
  | reject _ frame error => exact ⟨rfl, rfl, one (.received frame) trivial rfl⟩
  | inert _ frame kind => exact ⟨failed, rfl, one (.received frame) trivial rfl⟩
  | settings _ frame alive => exact dead alive
  | grantConn _ increment alive => exact dead alive
  | grantStream _ stream increment alive => exact dead alive
  | reset _ id code alive => exact dead alive
  | recvEnd _ id change => exact ⟨failed, rfl, same rfl⟩
  | keepHeaders _ frame => exact ⟨failed, rfl, one (.received frame) trivial rfl⟩
  | keepOrphan _ frame => exact ⟨failed, rfl, one (.received frame) trivial rfl⟩
  | readHeaders _ frame => exact ⟨failed, rfl, one (.received frame) trivial rfl⟩
  | keepMore _ frame => exact ⟨failed, rfl, one (.received frame) trivial rfl⟩
  | keepMoreOrphan _ frame => exact ⟨failed, rfl, one (.received frame) trivial rfl⟩
  | readMore _ frame => exact ⟨failed, rfl, one (.received frame) trivial rfl⟩
  | dataUncounted _ frame => exact ⟨failed, rfl, one (.received frame) trivial rfl⟩
  | dataEarly _ frame alive => exact dead alive
  | dataCounted _ frame => exact ⟨failed, rfl, one (.received frame) trivial rfl⟩
  | resetIgnored _ frame => exact ⟨failed, rfl, one (.received frame) trivial rfl⟩
  | resetReceived _ frame => exact ⟨failed, rfl, one (.received frame) trivial rfl⟩
  | endWithheld _ stream alive => exact dead alive
  | control _ frame kind => exact ⟨failed, rfl, one (.wrote frame) kind rfl⟩
  | preface _ => exact ⟨failed, rfl, one (.preface _) rfl rfl⟩
  | sendData _ stream last chunk alive => exact dead alive
  | ackConn _ alive => exact dead alive
  | ackStream _ stream alive => exact dead alive
  | openStream _ stream => exact ⟨failed, rfl, same rfl⟩
  | openRequest _ stream alive => exact dead alive
  | remove _ id =>
      unfold removeStream at *
      split at same
      · exact ⟨failed, rfl, same rfl⟩
      · exact ⟨failed, rfl, same rfl⟩

/-- What the actions of a session that has not failed keep.  `good` is to hold even in a
session that has failed. -/
theorem Path.always {allowed : Label → Prop} (path : Path hpack allowed session after)
    (good inv : Session σ → Prop) (isGood : good session)
    (start : session.fatalError = none → inv session)
    (step : ∀ label (session after : Session σ), allowed label → Act hpack label session after →
      session.fatalError = none → inv session → good session →
      good after ∧ (after.fatalError = none → inv after))
    (harmless : ∀ session after : Session σ, after.panicked = session.panicked →
      (∃ events : List Event, after.log = session.log ++ events ∧
        ∀ event ∈ events, event.Harmless) → good session → good after) :
    good after ∧ (after.fatalError = none → inv after) := by
  induction path with
  | refl => exact ⟨isGood, start⟩
  | @tail middle after _ last ih =>
      obtain ⟨label, isAllowed, act⟩ := last
      by_cases alive : middle.fatalError = none
      · exact step label middle after isAllowed act alive (ih.2 alive) ih.1
      · obtain ⟨stillFailed, panicked, log⟩ :=
          act.of_failed (Option.isSome_iff_ne_none.mpr alive)
        refine ⟨harmless middle after panicked log ih.1, fun aliveAfter => ?_⟩
        rw [aliveAfter] at stillFailed
        cases stillFailed

theorem Path.invariant {allowed : Label → Prop} {inv : Session σ → Prop}
    (path : Path hpack allowed session after) (start : session.fatalError = none → inv session)
    (step : ∀ label (session after : Session σ), allowed label → Act hpack label session after →
      after.fatalError = none → inv session → inv after) : after.fatalError = none → inv after := by
  refine (path.always (fun _ => True) inv trivial start ?_ fun _ _ _ _ _ => trivial).2
  intro label session after isAllowed act _ isInv _
  exact ⟨trivial, fun alive => step label session after isAllowed act alive isInv⟩

/-! ### Streams -/

theorem rstStream_cases (session : Session σ) (id : ℕ) (code : ErrorCode) :
    (session.rstStream id code = session ∧
      ∀ stream, session.find id = some stream → stream.rstDone = true ∨ stream.state = .closed) ∨
    ∃ stream, session.find id = some stream ∧ stream.rstDone = false ∧ stream.state ≠ .closed ∧
      session.rstStream id code =
        (session.modify id fun stream => { stream with rstDone := true, state := .closed }).writeFrame
          (rstFrame id code) := by
  unfold rstStream
  split
  · rename_i untracked
    refine Or.inl ⟨rfl, fun stream found => ?_⟩
    rw [untracked] at found
    cases found
  · rename_i stream found
    split
    · rename_i done
      refine Or.inl ⟨rfl, fun other same => ?_⟩
      rw [found] at same
      cases same
      simpa using done
    · rename_i opened
      simp only [Bool.or_eq_true, decide_eq_true_eq, not_or, Bool.not_eq_true] at opened
      exact Or.inr ⟨stream, found, opened.1, opened.2, rfl⟩

def streamIds (session : Session σ) : List ℕ :=
  session.streams.map (·.id)

theorem mapStreams_ids (session : Session σ) {change : Stream → Stream}
    (keepsId : ∀ stream, (change stream).id = stream.id) :
    streamIds (session.mapStreams change) = streamIds session := by
  unfold streamIds mapStreams
  rw [List.map_map]
  exact List.map_congr_left fun stream _ => keepsId stream

theorem modify_ids (session : Session σ) (id : ℕ) {change : Stream → Stream}
    (keepsId : ∀ stream, (change stream).id = stream.id) :
    streamIds (session.modify id change) = streamIds session := by
  rw [modify_eq_mapStreams, mapStreams_ids]
  intro stream
  split
  · exact keepsId stream
  · rfl

theorem writeData_ids (session : Session σ) (id : ℕ) (last : Bool) (chunk : List UInt8) :
    streamIds (session.writeData id last chunk) = streamIds session := by
  unfold writeData
  dsimp only
  split
  · rfl
  · exact modify_ids (session.writeFrame _) id fun _ => rfl

theorem writeData_log (session : Session σ) (id : ℕ) (last : Bool) (chunk : List UInt8) :
    (session.writeData id last chunk).log =
        session.log ++ [.wrote (dataFrame id last chunk)] ∧
      (session.writeData id last chunk).nextStreamId = session.nextStreamId := by
  unfold writeData
  dsimp only
  split
  · exact ⟨rfl, rfl⟩
  · exact ⟨rfl, rfl⟩

theorem removeStream_log (session : Session σ) (id : ℕ) :
    (session.removeStream id).log = session.log := by
  unfold removeStream
  split
  · rfl
  · rfl

theorem shiftWindows_ids (delta : ℤ) (streams : List Stream) :
    (shiftWindows delta streams).1.map (·.id) = streams.map (·.id) := by
  induction streams with
  | nil => rfl
  | cons stream rest ih =>
      unfold shiftWindows
      dsimp only
      split
      · rfl
      · split
        · rfl
        · rw [List.map_cons, List.map_cons, ih]

theorem applySetting_ids (session : Session σ) (setting : ℕ × ℕ) :
    streamIds (session.applySetting setting) = streamIds session := by
  unfold applySetting
  dsimp only
  split
  · split
    · rfl
    · rfl
  · split
    · rfl
    · split
      · rfl
      · split
        · split
          · rfl
          · exact shiftWindows_ids _ session.streams
        · rfl

theorem applySettings_ids (session : Session σ) (units : List (ℕ × ℕ)) :
    streamIds (session.applySettings units) = streamIds session := by
  induction units generalizing session with
  | nil => rfl
  | cons setting rest ih =>
      unfold applySettings
      dsimp only
      split
      · exact applySetting_ids session setting
      · exact (ih _).trans (applySetting_ids session setting)

theorem swapRemove_perm (id : ℕ) (streams : List Stream) :
    (swapRemove id streams).Perm (streams.eraseP fun stream => stream.id = id) := by
  induction streams with
  | nil => exact List.Perm.nil
  | cons stream rest ih =>
      unfold swapRemove
      split
      · rename_i isId
        rw [List.eraseP_cons_of_pos (by simpa using isId)]
        cases isLast : rest.getLast? with
        | none =>
            rw [List.getLast?_eq_none_iff.mp isLast]
        | some last =>
            obtain ⟨front, rfl⟩ := List.getLast?_eq_some_iff.mp isLast
            dsimp only
            rw [List.dropLast_concat]
            exact (List.perm_append_singleton last front).symm
      · rename_i other
        rw [List.eraseP_cons_of_neg (by simpa using other)]
        exact ih.cons stream

/-! ### Streams that follow others -/

/-- Every stream comes from one that was there, as the relation says. -/
def Follows (relation : Stream → Stream → Prop) (session after : Session σ) : Prop :=
  ∀ stream ∈ after.streams, ∃ old ∈ session.streams, relation old stream

section

variable {relation : Stream → Stream → Prop}

theorem mapStreams_follows (session : Session σ) {change : Stream → Stream}
    (each : ∀ stream, relation stream (change stream)) :
    Follows relation session (session.mapStreams change) := by
  intro stream isIn
  obtain ⟨old, wasIn, rfl⟩ := List.mem_map.mp isIn
  exact ⟨old, wasIn, each old⟩

theorem Follows.trans {middle : Session σ}
    (transitive : ∀ first second third, relation first second → relation second third →
      relation first third)
    (first : Follows relation session middle) (second : Follows relation middle after) :
    Follows relation session after := by
  intro stream isIn
  obtain ⟨between, wasBetween, later⟩ := second stream isIn
  obtain ⟨old, wasIn, earlier⟩ := first between wasBetween
  exact ⟨old, wasIn, transitive old between stream earlier later⟩

variable (reflexive : ∀ stream, relation stream stream)

include reflexive

theorem Follows.of_streams (same : after.streams = session.streams) :
    Follows relation session after := by
  intro stream isIn
  rw [same] at isIn
  exact ⟨stream, isIn, reflexive stream⟩

theorem modify_follows (session : Session σ) (id : ℕ) {change : Stream → Stream}
    (each : ∀ stream, relation stream (change stream)) :
    Follows relation session (session.modify id change) := by
  rw [modify_eq_mapStreams]
  refine mapStreams_follows session fun stream => ?_
  split
  · exact each stream
  · exact reflexive stream

theorem removeStream_follows (session : Session σ) (id : ℕ) :
    Follows relation session (session.removeStream id) := by
  unfold removeStream
  split
  · exact Follows.of_streams reflexive rfl
  · intro stream isIn
    have wasIn := List.mem_of_mem_eraseP ((swapRemove_perm id session.streams).mem_iff.mp isIn)
    exact ⟨stream, wasIn, reflexive stream⟩

theorem writeData_follows
    (window : ∀ (stream : Stream) (value : ℤ), relation stream { stream with sendWindow := value })
    (session : Session σ) (id : ℕ) (last : Bool) (chunk : List UInt8) :
    Follows relation session (session.writeData id last chunk) := by
  unfold writeData
  dsimp only
  split
  · exact Follows.of_streams reflexive rfl
  · exact modify_follows reflexive session id fun stream => window stream _

theorem shiftWindows_follows
    (window : ∀ (stream : Stream) (value : ℤ), relation stream { stream with sendWindow := value })
    (delta : ℤ) (streams : List Stream) :
    ∀ stream ∈ (shiftWindows delta streams).1, ∃ old ∈ streams, relation old stream := by
  induction streams with
  | nil =>
      intro stream isIn
      cases isIn
  | cons first rest ih =>
      have same : ∀ stream ∈ first :: rest, ∃ old ∈ first :: rest, relation old stream :=
        fun stream isIn => ⟨stream, isIn, reflexive stream⟩
      unfold shiftWindows
      dsimp only
      split
      · exact same
      · split
        · exact same
        · intro stream isIn
          rcases List.mem_cons.mp isIn with rfl | later
          · exact ⟨first, List.mem_cons_self, window first _⟩
          · obtain ⟨old, wasIn, isOld⟩ := ih stream later
            exact ⟨old, List.mem_cons_of_mem _ wasIn, isOld⟩

theorem applySetting_follows
    (window : ∀ (stream : Stream) (value : ℤ), relation stream { stream with sendWindow := value })
    (session : Session σ) (setting : ℕ × ℕ) :
    Follows relation session (session.applySetting setting) := by
  have same (after : Session σ) (streams : after.streams = session.streams) :
      Follows relation session after := Follows.of_streams reflexive streams
  unfold applySetting
  dsimp only
  split
  · split
    · exact same _ rfl
    · exact same _ rfl
  · split
    · exact same _ rfl
    · split
      · exact same _ rfl
      · split
        · split
          · exact same _ rfl
          · exact shiftWindows_follows reflexive window _ session.streams
        · exact same _ rfl

theorem applySettings_follows
    (window : ∀ (stream : Stream) (value : ℤ), relation stream { stream with sendWindow := value })
    (transitive : ∀ first second third, relation first second → relation second third →
      relation first third)
    (session : Session σ) (units : List (ℕ × ℕ)) :
    Follows relation session (session.applySettings units) := by
  induction units generalizing session with
  | nil => exact Follows.of_streams reflexive rfl
  | cons setting rest ih =>
      have first := applySetting_follows reflexive window session setting
      unfold applySettings
      dsimp only
      split
      · exact first
      · exact first.trans transitive (ih _)

end

theorem id_ne_of_mem_eraseP {id : ℕ} {streams : List Stream} {stream : Stream}
    (nodup : (streams.map (·.id)).Nodup)
    (isIn : stream ∈ streams.eraseP fun stream => stream.id = id) : stream.id ≠ id := by
  induction streams with
  | nil => cases isIn
  | cons first rest ih =>
      rw [List.map_cons, List.nodup_cons] at nodup
      by_cases isId : first.id = id
      · rw [List.eraseP_cons_of_pos (by simpa using isId)] at isIn
        intro same
        rw [isId, ← same] at nodup
        exact nodup.1 (List.mem_map_of_mem isIn)
      · rw [List.eraseP_cons_of_neg (by simpa using isId)] at isIn
        rcases List.mem_cons.mp isIn with rfl | later
        · exact isId
        · exact ih nodup.2 later

/-- The stream that an entry of the log is about, 0 for none. -/
def Event.names : Event → ℕ
  | .preface _ => 0
  | .wrote frame => frame.streamId
  | .received frame => if frame.kind = .data ∨ frame.kind = .rstStream then frame.streamId else 0
  | .granted id _ => id

/-- Each stream has an id of its own, and ids are given out in order. -/
structure Ids (session : Session σ) : Prop where
  nodup : (streamIds session).Nodup
  below : ∀ id ∈ streamIds session, 0 < id ∧ id < session.nextStreamId
  positive : 0 < session.nextStreamId
  logged : ∀ event ∈ session.log, event.names < session.nextStreamId

namespace Ids

theorem of_mem (ids : Ids session) {stream : Stream} (isIn : stream ∈ session.streams) :
    0 < stream.id ∧ stream.id < session.nextStreamId :=
  ids.below stream.id (List.mem_map_of_mem isIn)

theorem of_find (ids : Ids session) {id : ℕ} {stream : Stream}
    (found : session.find id = some stream) : 0 < id ∧ id < session.nextStreamId := by
  rw [← id_of_find found]
  exact ids.of_mem (mem_of_find found)

theorem find_iff (ids : Ids session) {id : ℕ} {stream : Stream} :
    session.find id = some stream ↔ stream ∈ session.streams ∧ stream.id = id := by
  constructor
  · intro found
    exact ⟨mem_of_find found, id_of_find found⟩
  · rintro ⟨isIn, rfl⟩
    cases found : session.find stream.id with
    | none =>
        have absent := List.find?_eq_none.mp found stream isIn
        simp at absent
    | some other =>
        have same := id_of_find found
        have both := List.inj_on_of_nodup_map ids.nodup (mem_of_find found) isIn same
        rw [both]

theorem keep (ids : Ids session) {events : List Event} (streams : streamIds after = streamIds session)
    (next : after.nextStreamId = session.nextStreamId) (log : after.log = session.log ++ events)
    (names : ∀ event ∈ events, event.names < session.nextStreamId) : Ids after where
  nodup := by
    rw [streams]
    exact ids.nodup
  below := by
    rw [streams, next]
    exact ids.below
  positive := by
    rw [next]
    exact ids.positive
  logged := by
    rw [log, next]
    intro event isIn
    rcases List.mem_append.mp isIn with old | new
    · exact ids.logged event old
    · exact names event new

theorem keepSilent (ids : Ids session) (streams : streamIds after = streamIds session)
    (next : after.nextStreamId = session.nextStreamId) (log : after.log = session.log) : Ids after :=
  ids.keep streams next (log.trans (List.append_nil _).symm) fun _ isIn => by cases isIn

theorem keepOne (ids : Ids session) {event : Event} (streams : streamIds after = streamIds session)
    (next : after.nextStreamId = session.nextStreamId) (log : after.log = session.log ++ [event])
    (names : event.names < session.nextStreamId) : Ids after :=
  ids.keep streams next log fun other isIn => by
    rw [List.mem_singleton.mp isIn]
    exact names

theorem addStream (ids : Ids session) {stream : Stream} (fresh : stream.Fresh session) :
    Ids (session.addStream stream) where
  nodup := by
    unfold streamIds Session.addStream
    rw [List.map_append, List.nodup_append]
    refine ⟨ids.nodup, List.nodup_singleton _, fun id isIn other isNew same => ?_⟩
    have isNew : other = stream.id := List.mem_singleton.mp isNew
    have less := (ids.below id isIn).2
    rw [same, isNew, fresh.id_eq] at less
    exact lt_irrefl _ less
  below := by
    intro id isIn
    unfold streamIds Session.addStream at isIn
    rw [List.map_append, List.mem_append] at isIn
    have positive := ids.positive
    have next : (session.addStream stream).nextStreamId = session.nextStreamId + 2 := rfl
    rcases isIn with old | new
    · have bounds := ids.below id old
      omega
    · have isId : id = stream.id := List.mem_singleton.mp new
      rw [isId, fresh.id_eq]
      omega
  positive := Nat.succ_pos _
  logged := by
    intro event isIn
    have less := ids.logged event isIn
    have next : (session.addStream stream).nextStreamId = session.nextStreamId + 2 := rfl
    omega

theorem mem_swapRemove (ids : Ids session) {id : ℕ} {stream : Stream} :
    stream ∈ swapRemove id session.streams ↔ stream ∈ session.streams ∧ stream.id ≠ id := by
  rw [(swapRemove_perm id session.streams).mem_iff]
  constructor
  · intro isIn
    exact ⟨List.mem_of_mem_eraseP isIn, id_ne_of_mem_eraseP ids.nodup isIn⟩
  · rintro ⟨isIn, other⟩
    exact (List.mem_eraseP_of_neg (by simpa using other)).mpr isIn

theorem removeStream (ids : Ids session) (id : ℕ) : Ids (session.removeStream id) := by
  unfold Session.removeStream
  split
  · exact ids
  · have perm := (swapRemove_perm id session.streams).map (·.id)
    have less := (List.eraseP_sublist (p := fun stream : Stream => decide (stream.id = id))
      (l := session.streams)).map (·.id)
    exact
      { nodup := perm.nodup_iff.mpr (ids.nodup.sublist less)
        below := fun other isIn => ids.below other (less.subset (perm.mem_iff.mp isIn))
        positive := ids.positive
        logged := ids.logged }

theorem mem_removeStream (ids : Ids session) {id : ℕ} {stream : Stream} :
    stream ∈ (session.removeStream id).streams ↔ stream ∈ session.streams ∧ stream.id ≠ id := by
  unfold Session.removeStream
  split
  · rename_i untracked
    constructor
    · intro isIn
      refine ⟨isIn, fun isId => ?_⟩
      rw [ids.find_iff.mpr ⟨isIn, isId⟩] at untracked
      cases untracked
    · exact fun isIn => isIn.1
  · exact ids.mem_swapRemove

theorem find_removeStream (ids : Ids session) (id other : ℕ) :
    (session.removeStream id).find other = if other = id then none else session.find other := by
  refine Option.ext fun stream => ?_
  rw [(ids.removeStream id).find_iff, ids.mem_removeStream]
  split
  · rename_i isId
    constructor
    · rintro ⟨⟨_, notId⟩, isOther⟩
      exact absurd (isOther.trans isId) notId
    · intro impossible
      cases impossible
  · rename_i notId
    rw [ids.find_iff]
    constructor
    · exact fun isIn => ⟨isIn.1.1, isIn.2⟩
    · exact fun isIn => ⟨⟨isIn.1, fun isId => notId (isIn.2.symm.trans isId)⟩, isIn.2⟩

end Ids

theorem headerFrames_streamId (max id : ℕ) (endStream first : Bool) (remaining : List UInt8) :
    ∀ frame ∈ headerFrames max id endStream first remaining, frame.streamId = id := by
  fun_induction headerFrames max id endStream first remaining with
  | case1 =>
      intro frame isIn
      rw [List.mem_singleton.mp isIn]
      rfl
  | case2 =>
      rename_i ih
      intro frame isIn
      rcases List.mem_cons.mp isIn with rfl | later
      · rfl
      · exact ih frame later

theorem Ids.received (ids : Ids session) {frame : Frame} (notData : frame.kind ≠ .data)
    (notReset : frame.kind ≠ .rstStream) : (Event.received frame).names < session.nextStreamId := by
  have names : (Event.received frame).names = 0 := if_neg (not_or.mpr ⟨notData, notReset⟩)
  rw [names]
  exact ids.positive

theorem Ids.receivedOn (ids : Ids session) {frame : Frame}
    (used : frame.streamId < session.nextStreamId) :
    (Event.received frame).names < session.nextStreamId := by
  unfold Event.names
  dsimp only
  split
  · exact used
  · exact ids.positive

theorem closeWith_ids (session : Session σ) (id : ℕ) (ends : Bool) :
    streamIds (session.modify id fun stream => if ends then stream.sentEndStream else stream) =
      streamIds session :=
  modify_ids session id fun stream => closeWith_id ends stream

theorem Act.ids (act : Act hpack label session after) (alive : after.fatalError = none)
    (ids : Ids session) : Ids after := by
  cases act with
  | tune _ _ core =>
      refine ids.keepSilent ?_ core.next_eq core.log_eq
      unfold streamIds
      rw [core.streams_eq]
  | quiet _ change quiet =>
      exact ids.keepSilent (mapStreams_ids session fun stream => (quiet stream).id_eq) rfl rfl
  | orphan _ block nobody => exact ids.keepSilent rfl rfl rfl
  | fail _ error => cases alive
  | dead _ _ failed failedAfter =>
      rw [alive] at failedAfter
      cases failedAfter
  | panic _ value increment => exact ids.keepSilent rfl rfl rfl
  | reject _ frame error => cases alive
  | inert _ frame kind => exact ids.keepOne rfl rfl rfl (ids.received kind.1 kind.2.2.2.1)
  | settings _ frame _ kind =>
      obtain ⟨log, next⟩ := applySettings_log (session.record (.received frame))
        (settingsUnits frame.payload)
      exact ids.keepOne (applySettings_ids _ _) next log (ids.received (by simp [kind]) (by simp [kind]))
  | grantConn _ increment => exact ids.keepOne rfl rfl rfl ids.positive
  | grantStream _ stream increment _ found =>
      exact ids.keepOne (modify_ids session stream.id fun _ => rfl) rfl rfl (ids.of_find found).2
  | reset _ id code =>
      obtain ⟨same, _⟩ | ⟨stream, found, _, _, isReset⟩ := rstStream_cases session id code
      · rw [same]
        exact ids
      · rw [isReset]
        exact ids.keepOne (modify_ids session id fun _ => rfl) rfl rfl (ids.of_find found).2
  | recvEnd _ id change each =>
      refine ids.keepSilent (modify_ids session id fun stream => ?_) rfl rfl
      rcases each stream with same | ended
      · rw [same]
      · rw [ended]
        rfl
  | keepHeaders _ frame fragment stream change kind isFragment incomplete nobody found quiet block =>
      exact ids.keepOne (modify_ids session frame.streamId fun stream => (quiet stream).id_eq) rfl rfl
        (ids.received (by simp [kind]) (by simp [kind]))
  | keepOrphan _ frame fragment kind =>
      exact ids.keepOne rfl rfl rfl (ids.received (by simp [kind]) (by simp [kind]))
  | readHeaders _ frame fragment table kind =>
      exact ids.keepOne rfl rfl rfl (ids.received (by simp [kind]) (by simp [kind]))
  | keepMore _ frame kind =>
      exact ids.keepOne (modify_ids session frame.streamId fun _ => rfl) rfl rfl
        (ids.received (by simp [kind]) (by simp [kind]))
  | keepMoreOrphan _ frame kind =>
      exact ids.keepOne rfl rfl rfl (ids.received (by simp [kind]) (by simp [kind]))
  | readMore _ frame table kind =>
      exact ids.keepOne rfl rfl rfl (ids.received (by simp [kind]) (by simp [kind]))
  | dataUncounted _ frame kind used =>
      refine ids.keepOne rfl rfl rfl (ids.receivedOn ?_)
      cases found : session.find frame.streamId with
      | none => exact used found
      | some stream => exact (ids.of_find found).2
  | dataEarly _ frame _ kind stream found =>
      have counted : Ids (session.countConn frame) :=
        ids.keepOne rfl rfl rfl (ids.receivedOn (ids.of_find found).2)
      obtain ⟨same, _⟩ | ⟨_, foundCounted, _, _, isReset⟩ :=
        rstStream_cases (session.countConn frame) stream.id .protocolError
      · rw [same]
        exact counted
      · rw [isReset]
        exact counted.keepOne (modify_ids _ stream.id fun _ => rfl) rfl rfl
          (counted.of_find foundCounted).2
  | dataCounted _ frame kind stream found =>
      exact ids.keepOne (modify_ids (session.countConn frame) stream.id fun _ => rfl) rfl rfl
        (ids.receivedOn (ids.of_find found).2)
  | resetIgnored _ frame kind used => exact ids.keepOne rfl rfl rfl (ids.receivedOn used)
  | resetReceived _ frame kind stream found =>
      exact ids.keepOne (modify_ids _ stream.id fun _ => rfl) rfl rfl
        (ids.receivedOn (ids.of_find found).2)
  | endWithheld _ stream _ found =>
      exact ids.keepOne (modify_ids _ stream.id fun _ => rfl) rfl rfl (ids.of_find found).2
  | control _ frame kind onConn =>
      refine ids.keepOne rfl rfl rfl ?_
      have names : (Event.wrote frame).names = 0 := onConn
      rw [names]
      exact ids.positive
  | preface _ => exact ids.keepOne rfl rfl rfl ids.positive
  | sendData _ stream last chunk _ found =>
      obtain ⟨log, next⟩ := writeData_log session stream.id last chunk
      exact ids.keepOne ((closeWith_ids _ _ last).trans (writeData_ids session stream.id last chunk))
        next log (ids.of_find found).2
  | ackConn _ _ => exact ids.keepOne rfl rfl rfl ids.positive
  | ackStream _ stream _ found =>
      exact ids.keepOne (modify_ids _ stream.id fun _ => rfl) rfl rfl (ids.of_find found).2
  | openStream _ stream fresh => exact ids.addStream fresh
  | openRequest _ stream _ fresh size block ends =>
      have added := ids.addStream fresh
      obtain ⟨queued, wrote⟩ := foldl_writeFrame (session.addStream stream)
        (headerFrames size stream.id ends true block)
      rw [wrote]
      refine added.keep (closeWith_ids _ _ ends) rfl rfl fun event isIn => ?_
      obtain ⟨frame, isFrame, rfl⟩ := List.mem_map.mp isIn
      have names : (Event.wrote frame).names = stream.id := headerFrames_streamId _ _ _ _ _ _ isFrame
      have next : (session.addStream stream).nextStreamId = session.nextStreamId + 2 := rfl
      rw [names, fresh.id_eq]
      omega
  | remove _ id => exact ids.removeStream id

theorem Ids.fresh (table : σ) : Ids (Session.fresh table) where
  nodup := List.nodup_nil
  below := fun _ isIn => by cases isIn
  positive := Nat.one_pos
  logged := fun _ isIn => by cases isIn

end Bun.Http2
