/-
The end of a stream.

Once a stream is finished for writing, by END_STREAM or by a reset of either side, no more of
a request goes out on it.  One action can break that: a final response ends the body that
waits for it, and does not look whether the stream has been reset in the meantime.
-/

import Bun.Http2.SendWindows

set_option autoImplicit false

namespace Bun.Http2

open Bun.Foundation Session

variable {σ : Type} {hpack : Hpack σ} {label : Label} {session after : Session σ}

/-! ### What the log says -/

def Wrote (id : ℕ) (log : List Event) (property : Frame → Prop) : Prop :=
  ∃ frame, Event.wrote frame ∈ log ∧ frame.streamId = id ∧ property frame

/-- END_STREAM was written.  A header block is one unit, so that of a HEADERS frame counts
when the block is complete. -/
def WroteEnd (id : ℕ) (log : List Event) : Prop :=
  (Wrote id log fun frame => frame.kind = .data ∧ frame.endStream = true) ∨
    (Wrote id log fun frame => frame.kind = .headers ∧ frame.endStream = true) ∧
      Wrote id log fun frame =>
        (frame.kind = .headers ∨ frame.kind = .continuation) ∧ frame.endHeaders = true

def WroteReset (id : ℕ) (log : List Event) : Prop :=
  Wrote id log fun frame => frame.kind = .rstStream

def GotReset (id : ℕ) (log : List Event) : Prop :=
  ∃ frame, Event.received frame ∈ log ∧ frame.streamId = id ∧ frame.kind = .rstStream

def Finished (id : ℕ) (log : List Event) : Prop :=
  WroteEnd id log ∨ WroteReset id log ∨ GotReset id log

def Lawful (before : List Event) : Event → Prop
  | .wrote frame =>
      (frame.kind = .headers ∨ frame.kind = .continuation ∨ frame.kind = .data →
        ¬ Finished frame.streamId before) ∧
      (frame.kind = .rstStream → ¬ WroteReset frame.streamId before)
  | _ => True

/-- An entry that has to do with the end of the stream. -/
def Event.Touches (id : ℕ) : Event → Prop
  | .wrote frame => frame.streamId = id ∧ (frame.kind = .headers ∨ frame.kind = .continuation ∨
      frame.kind = .data ∨ frame.kind = .rstStream)
  | .received frame => frame.streamId = id ∧ frame.kind = .rstStream
  | _ => False

theorem Wrote.of_append {id : ℕ} {log events : List Event} {property : Frame → Prop}
    (wrote : Wrote id (log ++ events) property)
    (absent : ∀ frame, Event.wrote frame ∈ events → frame.streamId = id → ¬ property frame) :
    Wrote id log property := by
  obtain ⟨frame, isIn, isId, has⟩ := wrote
  rcases List.mem_append.mp isIn with old | new
  · exact ⟨frame, old, isId, has⟩
  · exact absurd has (absent frame new isId)

theorem WroteReset.of_append {id : ℕ} {log events : List Event}
    (wrote : WroteReset id (log ++ events)) (untouched : ∀ event ∈ events, ¬ event.Touches id) :
    WroteReset id log :=
  Wrote.of_append wrote fun _ isIn isId kind =>
    untouched _ isIn ⟨isId, Or.inr (Or.inr (Or.inr kind))⟩

theorem GotReset.of_append {id : ℕ} {log events : List Event}
    (got : GotReset id (log ++ events)) (untouched : ∀ event ∈ events, ¬ event.Touches id) :
    GotReset id log := by
  obtain ⟨frame, isIn, isId, kind⟩ := got
  rcases List.mem_append.mp isIn with old | new
  · exact ⟨frame, old, isId, kind⟩
  · exact absurd ⟨isId, kind⟩ (untouched _ new)

theorem WroteEnd.of_append {id : ℕ} {log events : List Event} (wrote : WroteEnd id (log ++ events))
    (untouched : ∀ event ∈ events, ¬ event.Touches id) : WroteEnd id log := by
  rcases wrote with data | ⟨headers, complete⟩
  · exact Or.inl (data.of_append fun _ isIn isId has =>
      untouched _ isIn ⟨isId, Or.inr (Or.inr (Or.inl has.1))⟩)
  · refine Or.inr ⟨headers.of_append fun _ isIn isId has =>
      untouched _ isIn ⟨isId, Or.inl has.1⟩, complete.of_append fun _ isIn isId has => ?_⟩
    refine untouched _ isIn ⟨isId, ?_⟩
    rcases has.1 with isHeaders | isContinuation
    · exact Or.inl isHeaders
    · exact Or.inr (Or.inl isContinuation)

theorem Finished.of_append {id : ℕ} {log events : List Event} (finished : Finished id (log ++ events))
    (untouched : ∀ event ∈ events, ¬ event.Touches id) : Finished id log := by
  rcases finished with ended | reset | got
  · exact Or.inl (ended.of_append untouched)
  · exact Or.inr (Or.inl (reset.of_append untouched))
  · exact Or.inr (Or.inr (got.of_append untouched))

theorem Event.names_of_touches {id : ℕ} {event : Event} (touches : event.Touches id) :
    event.names = id := by
  cases event with
  | preface frames => exact touches.elim
  | wrote frame => exact touches.1
  | received frame => exact (if_pos (Or.inr touches.2)).trans touches.1
  | granted streamId increment => exact touches.elim

theorem not_finished_of_unnamed {id : ℕ} {log : List Event}
    (unnamed : ∀ event ∈ log, event.names < id) : ¬ Finished id log := by
  have untouched : ∀ event ∈ log, ¬ event.Touches id := fun event isIn touches =>
    Nat.ne_of_lt (unnamed event isIn) (Event.names_of_touches touches)
  intro finished
  have appended : Finished id ([] ++ log) := finished
  have nothing := appended.of_append untouched
  rcases nothing with (⟨_, isIn, _⟩ | ⟨⟨_, isIn, _⟩, _⟩) | ⟨_, isIn, _⟩ | ⟨_, isIn, _⟩
  · cases isIn
  · cases isIn
  · cases isIn
  · cases isIn

/-! ### What the session knows -/

structure StreamLife (log : List Event) (stream : Stream) : Prop where
  finished : Finished stream.id log → stream.localClosed = true
  reset : WroteReset stream.id log → stream.state = .closed
  done : stream.rstDone = true → stream.state = .closed

structure Life (session : Session σ) : Prop where
  ids : Ids session
  each : ∀ stream ∈ session.streams, StreamLife session.log stream

structure Stream.Closing (stream after : Stream) : Prop where
  id_eq : after.id = stream.id
  closed : stream.state = .closed → after.state = .closed
  localClosed : stream.localClosed = true → after.localClosed = true
  done : after.rstDone = true → stream.rstDone = true ∨ after.state = .closed

theorem Stream.Closing.of_state {stream after : Stream} (id : after.id = stream.id)
    (state : after.state = stream.state) (done : after.rstDone = stream.rstDone) :
    stream.Closing after := by
  refine ⟨id, fun closed => state.trans closed, fun closed => ?_, fun isDone => Or.inl ?_⟩
  · unfold Stream.localClosed at closed ⊢
    rw [state]
    exact closed
  · rw [← done]
    exact isDone

theorem Stream.Closing.sentEnd (stream : Stream) : stream.Closing stream.sentEndStream := by
  unfold Stream.sentEndStream
  refine ⟨rfl, fun closed => ?_, fun closed => ?_, fun isDone => Or.inl isDone⟩
  · rw [closed]
  · unfold Stream.localClosed at closed ⊢
    cases isState : stream.state with
    | opened => rfl
    | halfClosedLocal => rfl
    | halfClosedRemote => rfl
    | closed => rfl

theorem Stream.localClosed_sentEndStream (stream : Stream) :
    stream.sentEndStream.localClosed = true := by
  unfold Stream.sentEndStream Stream.localClosed
  cases stream.state with
  | opened => rfl
  | halfClosedLocal => rfl
  | halfClosedRemote => rfl
  | closed => rfl

theorem Stream.Closing.recvEnd (stream : Stream) : stream.Closing stream.recvEndStream := by
  refine ⟨rfl, fun closed => ?_, fun closed => ?_, fun isDone => Or.inl isDone⟩
  · unfold Stream.recvEndStream
    rw [closed]
  · rw [localClosed_recvEndStream]
    exact closed

theorem StreamLife.keep {log events : List Event} {stream after : Stream}
    (life : StreamLife log stream) (closing : stream.Closing after)
    (untouched : ∀ event ∈ events, ¬ event.Touches stream.id) :
    StreamLife (log ++ events) after := by
  refine ⟨fun finished => ?_, fun reset => ?_, fun isDone => ?_⟩
  · rw [closing.id_eq] at finished
    exact closing.localClosed (life.finished (finished.of_append untouched))
  · rw [closing.id_eq] at reset
    exact closing.closed (life.reset (reset.of_append untouched))
  · rcases closing.done isDone with wasDone | closed
    · exact closing.closed (life.done wasDone)
    · exact closed

theorem Stream.Closing.refl (stream : Stream) : stream.Closing stream :=
  Stream.Closing.of_state rfl rfl rfl

theorem Stream.Closing.trans (first second third : Stream) (earlier : first.Closing second)
    (later : second.Closing third) : first.Closing third := by
  refine ⟨later.id_eq.trans earlier.id_eq, fun closed => later.closed (earlier.closed closed),
    fun closed => later.localClosed (earlier.localClosed closed), fun isDone => ?_⟩
  rcases later.done isDone with wasDone | isClosed
  · rcases earlier.done wasDone with before | isClosed
    · exact Or.inl before
    · exact Or.inr (later.closed isClosed)
  · exact Or.inr isClosed

theorem Stream.Closing.window (stream : Stream) (value : ℤ) :
    stream.Closing { stream with sendWindow := value } :=
  Stream.Closing.of_state rfl rfl rfl

def Closes (session after : Session σ) : Prop :=
  Follows Stream.Closing session after

theorem Closes.refl (session : Session σ) : Closes session session :=
  Follows.of_streams Stream.Closing.refl rfl

theorem modify_closes (session : Session σ) (id : ℕ) {change : Stream → Stream}
    (closing : ∀ stream : Stream, stream.Closing (change stream)) :
    Closes session (session.modify id change) :=
  modify_follows Stream.Closing.refl session id closing

theorem Life.keep (life : Life session) (ids : Ids after) {events : List Event}
    (log : after.log = session.log ++ events)
    (untouched : ∀ event ∈ events, ∀ id, ¬ event.Touches id) (closes : Closes session after) :
    Life after := by
  refine ⟨ids, fun stream isIn => ?_⟩
  obtain ⟨old, wasIn, closing⟩ := closes stream isIn
  rw [log]
  exact (life.each old wasIn).keep closing fun event isEvent => untouched event isEvent old.id

/-- An entry that neither touches a stream nor breaks the law. -/
def Event.Aside (event : Event) : Prop :=
  ∀ id, ¬ event.Touches id

theorem Event.Aside.lawful {event : Event} (aside : event.Aside) (before : List Event) :
    Lawful before event := by
  cases event with
  | preface frames => trivial
  | received frame => trivial
  | granted id increment => trivial
  | wrote frame =>
      have untouched := aside frame.streamId
      constructor
      · intro kind
        refine absurd ⟨rfl, ?_⟩ untouched
        rcases kind with isHeaders | isContinuation | isData
        · exact Or.inl isHeaders
        · exact Or.inr (Or.inl isContinuation)
        · exact Or.inr (Or.inr (Or.inl isData))
      · intro isReset
        exact absurd ⟨rfl, Or.inr (Or.inr (Or.inr isReset))⟩ untouched

theorem Event.aside_received {frame : Frame} (notReset : frame.kind ≠ .rstStream) :
    (Event.received frame).Aside :=
  fun _ touches => notReset touches.2

theorem Event.aside_wrote {frame : Frame} (kind : frame.kind ≠ .headers ∧
    frame.kind ≠ .continuation ∧ frame.kind ≠ .data ∧ frame.kind ≠ .rstStream) :
    (Event.wrote frame).Aside := by
  rintro id ⟨_, isHeaders | isContinuation | isData | isReset⟩
  · exact kind.1 isHeaders
  · exact kind.2.1 isContinuation
  · exact kind.2.2.1 isData
  · exact kind.2.2.2 isReset

theorem Event.Harmless.lawful {event : Event} (harmless : event.Harmless) (before : List Event) :
    Lawful before event := by
  cases event with
  | preface frames => trivial
  | received frame => trivial
  | granted id increment => trivial
  | wrote frame =>
      have kinds : frame.kind = .settings ∨ frame.kind = .ping ∨ frame.kind = .goaway := harmless
      refine Event.Aside.lawful (Event.aside_wrote ?_) before
      rcases kinds with isKind | isKind | isKind <;> simp [isKind]

theorem lawful_append {log events : List Event} (lawful : EachEntry Lawful log)
    (each : ∀ event ∈ events, ∀ before, Lawful before event) :
    EachEntry Lawful (log ++ events) := by
  refine eachEntry_append lawful fun before event rest isEvents => each event ?_ _
  rw [isEvents]
  exact List.mem_append_right before List.mem_cons_self

/-! ### Resets -/

theorem Life.close (life : Life session) (ids : Ids after) {event : Event} {id : ℕ}
    (log : after.log = session.log ++ [event]) (touches : ∀ other, event.Touches other → other = id)
    (closes : Closes session after)
    (closed : ∀ stream ∈ after.streams, stream.id = id → stream.localClosed = true ∧
      (WroteReset id (session.log ++ [event]) → stream.state = .closed)) : Life after := by
  refine ⟨ids, fun stream isIn => ?_⟩
  obtain ⟨old, wasIn, closing⟩ := closes stream isIn
  have oldLife := life.each old wasIn
  rw [log]
  by_cases isId : stream.id = id
  · obtain ⟨localClosed, reset⟩ := closed stream isIn isId
    refine ⟨fun _ => localClosed, fun wrote => reset (isId ▸ wrote), fun isDone => ?_⟩
    rcases closing.done isDone with wasDone | isClosed
    · exact closing.closed (oldLife.done wasDone)
    · exact isClosed
  · refine oldLife.keep closing fun other isEvent touched => isId ?_
    rw [List.mem_singleton.mp isEvent] at touched
    rw [closing.id_eq]
    exact touches old.id touched

theorem rstStream_life (life : Life session) (lawful : EachEntry Lawful session.log) (id : ℕ)
    (code : ErrorCode) (ids : Ids (session.rstStream id code)) :
    EachEntry Lawful (session.rstStream id code).log ∧ Life (session.rstStream id code) := by
  obtain ⟨same, _⟩ | ⟨stream, found, notDone, notClosed, isReset⟩ := rstStream_cases session id code
  · rw [same]
    exact ⟨lawful, life⟩
  · rw [isReset] at ids ⊢
    have first : ¬ WroteReset id session.log := by
      intro wrote
      rw [← id_of_find found] at wrote
      exact notClosed ((life.each stream (mem_of_find found)).reset wrote)
    have isLawful : Lawful session.log (.wrote (rstFrame id code)) := by
      refine ⟨fun kind => ?_, fun _ => first⟩
      rcases kind with impossible | impossible | impossible <;> cases impossible
    refine ⟨eachEntry_concat lawful isLawful, ?_⟩
    have touches : ∀ other, (Event.wrote (rstFrame id code)).Touches other → other = id :=
      fun other touched => touched.1.symm
    have closing (stream : Stream) :
        stream.Closing { stream with rstDone := true, state := .closed } :=
      ⟨rfl, fun _ => rfl, fun _ => rfl, fun _ => Or.inr rfl⟩
    refine life.close ids rfl touches (modify_closes session id closing) fun changed isIn isId => ?_
    obtain ⟨old, _, rfl⟩ := List.mem_map.mp isIn
    by_cases wasId : old.id = id
    · rw [if_pos wasId]
      exact ⟨rfl, fun _ => rfl⟩
    · rw [if_neg wasId] at isId
      exact absurd isId wasId

/-! ### Bodies -/

theorem Finished.of_data {id : ℕ} {log : List Event} {frame : Frame} (kind : frame.kind = .data)
    (finished : Finished id (log ++ [.wrote frame])) :
    Finished id log ∨ frame.streamId = id ∧ frame.endStream = true := by
  have other {property : Frame → Prop} (not : ¬ property frame)
      (wrote : Wrote id (log ++ [.wrote frame]) property) : Wrote id log property := by
    refine wrote.of_append fun new isIn _ has => not ?_
    rw [List.mem_singleton] at isIn
    cases isIn
    exact has
  rcases finished with (data | ⟨headers, complete⟩) | reset | got
  · obtain ⟨sent, isIn, isId, has⟩ := data
    rcases List.mem_append.mp isIn with old | new
    · exact Or.inl (Or.inl (Or.inl ⟨sent, old, isId, has⟩))
    · rw [List.mem_singleton] at new
      cases new
      exact Or.inr ⟨isId, has.2⟩
  · exact Or.inl (Or.inl (Or.inr ⟨other (by simp [kind]) headers, other (by simp [kind]) complete⟩))
  · exact Or.inl (Or.inr (Or.inl (other (by simp [kind]) reset)))
  · obtain ⟨received, isIn, isId, isReset⟩ := got
    rcases List.mem_append.mp isIn with old | new
    · exact Or.inl (Or.inr (Or.inr ⟨received, old, isId, isReset⟩))
    · rw [List.mem_singleton] at new
      cases new

theorem Life.send (life : Life session) (ids : Ids after) {frame : Frame}
    (kind : frame.kind = .data) (log : after.log = session.log ++ [.wrote frame])
    (closes : Closes session after)
    (closed : frame.endStream = true → ∀ stream ∈ after.streams, stream.id = frame.streamId →
      stream.localClosed = true) : Life after := by
  refine ⟨ids, fun stream isIn => ?_⟩
  obtain ⟨old, wasIn, closing⟩ := closes stream isIn
  have oldLife := life.each old wasIn
  rw [log]
  refine ⟨fun finished => ?_, fun reset => ?_, fun isDone => ?_⟩
  · rcases finished.of_data kind with before | ⟨isId, ends⟩
    · rw [closing.id_eq] at before
      exact closing.localClosed (oldLife.finished before)
    · exact closed ends stream isIn isId.symm
  · rw [closing.id_eq] at reset
    refine closing.closed (oldLife.reset (Wrote.of_append reset fun new isNew _ isReset => ?_))
    rw [List.mem_singleton] at isNew
    cases isNew
    rw [kind] at isReset
    cases isReset
  · rcases closing.done isDone with wasDone | isClosed
    · exact closing.closed (oldLife.done wasDone)
    · exact isClosed

theorem Life.lawful_data (life : Life session) {stream : Stream} {frame : Frame}
    (found : session.find stream.id = some stream) (opened : stream.localClosed = false)
    (kind : frame.kind = .data) (onStream : frame.streamId = stream.id) :
    Lawful session.log (.wrote frame) := by
  refine ⟨fun _ finished => ?_, fun isReset => ?_⟩
  · rw [onStream] at finished
    rw [(life.each stream (mem_of_find found)).finished finished] at opened
    cases opened
  · rw [kind] at isReset
    cases isReset

theorem mem_modify {id : ℕ} {change : Stream → Stream} {stream : Stream}
    (isIn : stream ∈ (session.modify id change).streams) (isId : stream.id = id) :
    ∃ old ∈ session.streams, old.id = id ∧ stream = change old := by
  obtain ⟨old, wasIn, rfl⟩ := List.mem_map.mp isIn
  by_cases wasId : old.id = id
  · rw [if_pos wasId]
    exact ⟨old, wasIn, wasId, rfl⟩
  · rw [if_neg wasId] at isId
    exact absurd isId wasId

theorem dataFrame_endStream (id : ℕ) (last : Bool) (chunk : List UInt8) :
    (dataFrame id last chunk).endStream = last := by
  change ((if last then endStreamFlag else 0) &&& endStreamFlag != 0) = last
  cases last with
  | true => decide
  | false => decide

theorem closeWith_closing (ends : Bool) (stream : Stream) :
    stream.Closing (if ends then stream.sentEndStream else stream) := by
  split
  · exact Stream.Closing.sentEnd stream
  · exact Stream.Closing.of_state rfl rfl rfl

theorem sendData_life (life : Life session) (lawful : EachEntry Lawful session.log)
    {stream : Stream} (last : Bool) (chunk : List UInt8)
    (found : session.find stream.id = some stream) (opened : stream.localClosed = false)
    (ids : Ids ((session.writeData stream.id last chunk).modify stream.id fun stream =>
      if last then stream.sentEndStream else stream)) :
    EachEntry Lawful ((session.writeData stream.id last chunk).modify stream.id fun stream =>
        if last then stream.sentEndStream else stream).log ∧
      Life ((session.writeData stream.id last chunk).modify stream.id fun stream =>
        if last then stream.sentEndStream else stream) := by
  obtain ⟨log, _⟩ := writeData_log session stream.id last chunk
  constructor
  · change EachEntry Lawful (session.writeData stream.id last chunk).log
    rw [log]
    exact eachEntry_concat lawful (life.lawful_data found opened rfl rfl)
  · refine life.send ids rfl log ((writeData_follows Stream.Closing.refl Stream.Closing.window session
      stream.id last chunk).trans Stream.Closing.trans
        (modify_closes _ stream.id (closeWith_closing last))) fun ends changed isIn isId => ?_
    rw [dataFrame_endStream] at ends
    obtain ⟨old, _, _, rfl⟩ := mem_modify isIn isId
    rw [if_pos ends]
    exact Stream.localClosed_sentEndStream old

theorem endWithheld_life (life : Life session) (lawful : EachEntry Lawful session.log)
    {stream : Stream} (found : session.find stream.id = some stream)
    (opened : stream.localClosed = false)
    (ids : Ids ((session.writeFrame (endDataFrame stream.id)).modify stream.id fun stream =>
      { stream with awaitingContinue := false }.sentEndStream)) :
    EachEntry Lawful ((session.writeFrame (endDataFrame stream.id)).modify stream.id fun stream =>
        { stream with awaitingContinue := false }.sentEndStream).log ∧
      Life ((session.writeFrame (endDataFrame stream.id)).modify stream.id fun stream =>
        { stream with awaitingContinue := false }.sentEndStream) := by
  have closing (stream : Stream) :
      stream.Closing { stream with awaitingContinue := false }.sentEndStream := by
    obtain ⟨id, closed, localClosed, done⟩ :=
      Stream.Closing.sentEnd { stream with awaitingContinue := false }
    exact ⟨id, closed, localClosed, done⟩
  refine ⟨eachEntry_concat lawful (life.lawful_data found opened rfl rfl), ?_⟩
  refine life.send ids rfl rfl (modify_closes (session.writeFrame _) stream.id closing)
    fun _ changed isIn isId => ?_
  obtain ⟨old, _, _, rfl⟩ := mem_modify isIn isId
  exact Stream.localClosed_sentEndStream _

/-! ### Headers -/

theorem headerFrame_endStream (id : ℕ) (first endStream last : Bool) (chunk : List UInt8) :
    (headerFrame id first endStream last chunk).endStream = (first && endStream) := by
  change (((if last then endHeadersFlag else 0) ||| (if first && endStream then endStreamFlag else 0))
    &&& endStreamFlag != 0) = (first && endStream)
  generalize (first && endStream) = ends
  cases last with
  | true =>
      cases ends with
      | true => decide
      | false => decide
  | false =>
      cases ends with
      | true => decide
      | false => decide

theorem headerFrame_endHeaders (id : ℕ) (first endStream last : Bool) (chunk : List UInt8) :
    (headerFrame id first endStream last chunk).endHeaders = last := by
  change (((if last then endHeadersFlag else 0) ||| (if first && endStream then endStreamFlag else 0))
    &&& endHeadersFlag != 0) = last
  generalize (first && endStream) = ends
  cases last with
  | true =>
      cases ends with
      | true => decide
      | false => decide
  | false =>
      cases ends with
      | true => decide
      | false => decide

theorem headerFrame_kind (id : ℕ) (first endStream last : Bool) (chunk : List UInt8) :
    (headerFrame id first endStream last chunk).kind = .headers ∨
      (headerFrame id first endStream last chunk).kind = .continuation := by
  cases first with
  | true => exact Or.inl rfl
  | false => exact Or.inr rfl

theorem headerFrames_spec (max id : ℕ) (endStream first : Bool) (remaining : List UInt8) :
    ∀ frame ∈ headerFrames max id endStream first remaining,
      (frame.kind = .headers ∨ frame.kind = .continuation) ∧
        (frame.endStream = true → endStream = true) := by
  have one (first last : Bool) (chunk : List UInt8) :
      ((headerFrame id first endStream last chunk).kind = .headers ∨
        (headerFrame id first endStream last chunk).kind = .continuation) ∧
          ((headerFrame id first endStream last chunk).endStream = true → endStream = true) := by
    refine ⟨headerFrame_kind id first endStream last chunk, fun ends => ?_⟩
    rw [headerFrame_endStream, Bool.and_eq_true] at ends
    exact ends.2
  fun_induction headerFrames max id endStream first remaining with
  | case1 =>
      intro frame isIn
      rw [List.mem_singleton.mp isIn]
      exact one _ _ _
  | case2 =>
      rename_i ih
      intro frame isIn
      rcases List.mem_cons.mp isIn with rfl | later
      · exact one _ _ _
      · exact ih frame later

theorem headerFrames_before (max id : ℕ) (endStream first : Bool) (remaining : List UInt8) :
    ∀ before frame rest, headerFrames max id endStream first remaining = before ++ frame :: rest →
      ∀ earlier ∈ before, earlier.endHeaders = false := by
  fun_induction headerFrames max id endStream first remaining with
  | case1 =>
      intro before frame rest isFrames earlier isIn
      cases before with
      | nil => cases isIn
      | cons head tail => simp at isFrames
  | case2 =>
      rename_i ih
      intro before frame rest isFrames earlier isIn
      cases before with
      | nil => cases isIn
      | cons head tail =>
          rw [List.cons_append, List.cons.injEq] at isFrames
          rcases List.mem_cons.mp isIn with rfl | later
          · rw [← isFrames.1]
            exact headerFrame_endHeaders _ _ _ _ _
          · exact ih tail frame rest isFrames.2 earlier later

theorem Wrote.of_unnamed {id : ℕ} {log events : List Event} {property : Frame → Prop}
    (unnamed : ∀ event ∈ log, event.names < id) (wrote : Wrote id (log ++ events) property) :
    Wrote id events property := by
  obtain ⟨frame, isIn, isId, has⟩ := wrote
  rcases List.mem_append.mp isIn with old | new
  · exact absurd isId (Nat.ne_of_lt (unnamed _ old))
  · exact ⟨frame, new, isId, has⟩

theorem Finished.of_headers {id : ℕ} {log : List Event} {frames : List Frame}
    (unnamed : ∀ event ∈ log, event.names < id)
    (kinds : ∀ frame ∈ frames, frame.kind = .headers ∨ frame.kind = .continuation)
    (finished : Finished id (log ++ frames.map .wrote)) :
    (∃ frame ∈ frames, frame.endStream = true) ∧ ∃ frame ∈ frames, frame.endHeaders = true := by
  have written {property : Frame → Prop} (wrote : Wrote id (log ++ frames.map .wrote) property) :
      ∃ frame ∈ frames, property frame := by
    obtain ⟨frame, isIn, _, has⟩ := wrote.of_unnamed unnamed
    obtain ⟨other, isFrame, same⟩ := List.mem_map.mp isIn
    cases same
    exact ⟨frame, isFrame, has⟩
  rcases finished with (data | ⟨headers, complete⟩) | reset | got
  · obtain ⟨frame, isFrame, isData, _⟩ := written data
    rcases kinds frame isFrame with isKind | isKind <;> simp [isKind] at isData
  · obtain ⟨first, isFirst, _, ends⟩ := written headers
    obtain ⟨last, isLast, _, completes⟩ := written complete
    exact ⟨⟨first, isFirst, ends⟩, last, isLast, completes⟩
  · obtain ⟨frame, isFrame, isReset⟩ := written reset
    rcases kinds frame isFrame with isKind | isKind <;> simp [isKind] at isReset
  · obtain ⟨frame, isIn, isId, isReset⟩ := got
    rcases List.mem_append.mp isIn with old | new
    · have names : (Event.received frame).names = id := (if_pos (Or.inr isReset)).trans isId
      exact absurd names (Nat.ne_of_lt (unnamed _ old))
    · obtain ⟨_, _, impossible⟩ := List.mem_map.mp new
      cases impossible

theorem lawful_headers {id : ℕ} {log : List Event} {frames : List Frame}
    (lawful : EachEntry Lawful log) (unnamed : ∀ event ∈ log, event.names < id)
    (kinds : ∀ frame ∈ frames, frame.kind = .headers ∨ frame.kind = .continuation)
    (onStream : ∀ frame ∈ frames, frame.streamId = id)
    (complete : ∀ before frame rest, frames = before ++ frame :: rest →
      ∀ earlier ∈ before, earlier.endHeaders = false) :
    EachEntry Lawful (log ++ frames.map .wrote) := by
  refine eachEntry_append lawful fun before event rest isFrames => ?_
  obtain ⟨first, others, rfl, rfl, isOthers⟩ := List.map_eq_append_iff.mp isFrames
  obtain ⟨frame, last, rfl, rfl, rfl⟩ := List.map_eq_cons_iff.mp isOthers
  have isFrame : frame ∈ first ++ frame :: last := List.mem_append_right _ List.mem_cons_self
  refine ⟨fun _ finished => ?_, fun isReset => ?_⟩
  · rw [onStream frame isFrame] at finished
    obtain ⟨_, earlier, isIn, completes⟩ := finished.of_headers unnamed
      fun frame isIn => kinds frame (List.mem_append_left _ isIn)
    rw [complete first frame last rfl earlier isIn] at completes
    cases completes
  · rcases kinds frame isFrame with isKind | isKind <;> simp [isKind] at isReset

/-- A stream whose headers have been written knows whether they ended it. -/
theorem opened_life {stream : Stream} {log : List Event} {frames : List Frame} {ends : Bool}
    (notDone : stream.rstDone = false) (unnamed : ∀ event ∈ log, event.names < stream.id)
    (kinds : ∀ frame ∈ frames, frame.kind = .headers ∨ frame.kind = .continuation)
    (carries : ∀ frame ∈ frames, frame.endStream = true → ends = true) :
    StreamLife (log ++ frames.map .wrote) (closeWith ends stream) := by
  refine ⟨fun finished => ?_, fun reset => ?_, fun isDone => ?_⟩
  · rw [closeWith_id] at finished
    obtain ⟨⟨frame, isFrame, isEnd⟩, _⟩ := finished.of_headers unnamed kinds
    rw [carries frame isFrame isEnd]
    exact Stream.localClosed_sentEndStream stream
  · rw [closeWith_id] at reset
    obtain ⟨frame, isIn, _, isReset⟩ := Wrote.of_unnamed unnamed reset
    obtain ⟨other, isFrame, same⟩ := List.mem_map.mp isIn
    cases same
    rcases kinds frame isFrame with isKind | isKind <;> simp [isKind] at isReset
  · have same : (closeWith ends stream).rstDone = stream.rstDone := by
      unfold closeWith
      split
      · rfl
      · rfl
    rw [same, notDone] at isDone
    cases isDone

theorem openRequest_life (life : Life session) (lawful : EachEntry Lawful session.log)
    {stream : Stream} (fresh : stream.Fresh session) (size : ℕ) (block : List UInt8) (ends : Bool)
    (ids : Ids (((headerFrames size stream.id ends true block).foldl writeFrame
      (session.addStream stream)).modify stream.id fun stream =>
        if ends then stream.sentEndStream else stream)) :
    EachEntry Lawful (((headerFrames size stream.id ends true block).foldl writeFrame
        (session.addStream stream)).modify stream.id fun stream =>
          if ends then stream.sentEndStream else stream).log ∧
      Life (((headerFrames size stream.id ends true block).foldl writeFrame
        (session.addStream stream)).modify stream.id fun stream =>
          if ends then stream.sentEndStream else stream) := by
  have spec := headerFrames_spec size stream.id ends true block
  have onStream := headerFrames_streamId size stream.id ends true block
  have complete := headerFrames_before size stream.id ends true block
  have unnamed : ∀ event ∈ session.log, event.names < stream.id := by
    rw [fresh.id_eq]
    exact life.ids.logged
  generalize headerFrames size stream.id ends true block = frames at *
  obtain ⟨queued, wrote⟩ := foldl_writeFrame (session.addStream stream) frames
  rw [wrote] at ids ⊢
  refine ⟨lawful_headers lawful unnamed (fun frame isFrame => (spec frame isFrame).1) onStream complete,
    ids, fun changed isIn => ?_⟩
  obtain ⟨old, wasIn, rfl⟩ := List.mem_map.mp isIn
  rcases List.mem_append.mp wasIn with known | new
  · have other : old.id ≠ stream.id := by
      rw [fresh.id_eq]
      exact Nat.ne_of_lt (life.ids.of_mem known).2
    rw [if_neg other]
    refine (life.each old known).keep (Stream.Closing.of_state rfl rfl rfl) fun event isEvent => ?_
    obtain ⟨frame, isFrame, rfl⟩ := List.mem_map.mp isEvent
    exact fun touches => other (touches.1.symm.trans (onStream frame isFrame))
  · rw [List.mem_singleton.mp new, if_pos rfl]
    exact opened_life fresh.rstDone_eq unnamed (fun frame isFrame => (spec frame isFrame).1)
      fun frame isFrame => (spec frame isFrame).2

theorem addStream_life (life : Life session) {stream : Stream} (fresh : stream.Fresh session) :
    Life (session.addStream stream) := by
  refine ⟨life.ids.addStream fresh, fun opened isIn => ?_⟩
  rcases List.mem_append.mp isIn with known | new
  · exact life.each opened known
  · rw [List.mem_singleton.mp new]
    have unfinished : ¬ Finished stream.id session.log :=
      not_finished_of_unnamed (by rw [fresh.id_eq]; exact life.ids.logged)
    refine ⟨fun finished => absurd finished unfinished,
      fun reset => absurd (Or.inr (Or.inl reset)) unfinished, fun isDone => ?_⟩
    rw [fresh.rstDone_eq] at isDone
    cases isDone

/-! ### One action -/

theorem resetIgnored_life (life : Life session) {frame : Frame}
    (done : ∀ stream, session.find frame.streamId = some stream → stream.rstDone = true)
    (ids : Ids (session.record (.received frame))) : Life (session.record (.received frame)) := by
  have touches : ∀ other, (Event.received frame).Touches other → other = frame.streamId :=
    fun other touched => touched.1.symm
  refine life.close ids rfl touches (Closes.refl session) fun stream isIn isId => ?_
  have closed := (life.each stream isIn).done (done stream (life.ids.find_iff.mpr ⟨isIn, isId⟩))
  refine ⟨?_, fun _ => closed⟩
  unfold Stream.localClosed
  rw [closed]
  rfl

theorem resetReceived_life (life : Life session) {frame : Frame} {stream : Stream}
    (error : Stream → Option Error) (found : session.find frame.streamId = some stream)
    (ids : Ids ((session.record (.received frame)).modify stream.id fun stream =>
      { stream with rstDone := true, state := .closed, fatalError := error stream })) :
    Life ((session.record (.received frame)).modify stream.id fun stream =>
      { stream with rstDone := true, state := .closed, fatalError := error stream }) := by
  have touches : ∀ other, (Event.received frame).Touches other → other = stream.id :=
    fun other touched => touched.1.symm.trans (id_of_find found).symm
  have closing (stream : Stream) : stream.Closing
      { stream with rstDone := true, state := .closed, fatalError := error stream } :=
    ⟨rfl, fun _ => rfl, fun _ => rfl, fun _ => Or.inr rfl⟩
  refine life.close ids rfl touches (modify_closes (session.record _) stream.id closing)
    fun changed isIn isId => ?_
  obtain ⟨old, _, _, rfl⟩ := mem_modify isIn isId
  exact ⟨rfl, fun _ => rfl⟩

theorem Act.life (act : Act hpack label session after) (allowed : label ≠ .endsClosed)
    (life : Life session) (lawful : EachEntry Lawful session.log) :
    EachEntry Lawful after.log ∧ (after.fatalError = none → Life after) := by
  have ids (alive : after.fatalError = none) : Ids after := act.ids alive life.ids
  have aside {event : Event} (isAside : event.Aside) (log : after.log = session.log ++ [event])
      (closes : Closes session after) :
      EachEntry Lawful after.log ∧ (after.fatalError = none → Life after) := by
    have untouched : ∀ other ∈ [event], ∀ id, ¬ other.Touches id := by
      intro other isIn
      rw [List.mem_singleton.mp isIn]
      exact isAside
    refine ⟨?_, fun alive => life.keep (ids alive) log untouched closes⟩
    rw [log]
    exact eachEntry_concat lawful (isAside.lawful _)
  have silent (log : after.log = session.log) (closes : Closes session after) :
      EachEntry Lawful after.log ∧ (after.fatalError = none → Life after) := by
    refine ⟨?_, fun alive => life.keep (ids alive) (log.trans (List.append_nil _).symm)
      (fun _ isIn => absurd isIn List.not_mem_nil) closes⟩
    rw [log]
    exact lawful
  cases act with
  | tune _ _ core =>
      exact silent core.log_eq (Follows.of_streams Stream.Closing.refl core.streams_eq)
  | quiet _ change quiet =>
      exact silent rfl (mapStreams_follows session fun stream => Stream.Closing.of_state
        (quiet stream).id_eq (quiet stream).state_eq (quiet stream).rstDone_eq)
  | orphan _ block nobody => exact silent rfl (Closes.refl session)
  | fail _ error => exact silent rfl (Closes.refl session)
  | dead _ _ _ failedAfter log =>
      refine ⟨by rw [log]; exact lawful, fun alive => ?_⟩
      rw [alive] at failedAfter
      cases failedAfter
  | panic _ value increment => exact silent rfl (Closes.refl session)
  | reject _ frame error =>
      exact ⟨eachEntry_concat lawful trivial, fun alive => by cases alive⟩
  | inert _ frame kind =>
      exact aside (Event.aside_received kind.2.2.2.1) rfl (Closes.refl session)
  | settings _ frame _ kind notAck =>
      obtain ⟨log, _⟩ := applySettings_log (session.record (.received frame))
        (settingsUnits frame.payload)
      exact aside (Event.aside_received (by simp [kind])) log
        (applySettings_follows Stream.Closing.refl Stream.Closing.window Stream.Closing.trans
          (session.record (.received frame)) _)
  | grantConn _ increment =>
      have isAside : (Event.granted 0 increment).Aside := fun _ touches => touches
      exact aside isAside rfl (Closes.refl session)
  | grantStream _ stream increment =>
      have isAside : (Event.granted stream.id increment).Aside := fun _ touches => touches
      exact aside isAside rfl
        (modify_closes session stream.id fun _ => Stream.Closing.of_state rfl rfl rfl)
  | reset _ id code alive =>
      have both := rstStream_life life lawful id code
        (ids ((rstStream_fatalError session id code).trans alive))
      exact ⟨both.1, fun _ => both.2⟩
  | recvEnd _ id change each =>
      refine silent rfl (modify_closes session id fun stream => ?_)
      rcases each stream with same | ended
      · rw [same]
        exact Stream.Closing.of_state rfl rfl rfl
      · rw [ended]
        exact Stream.Closing.recvEnd stream
  | keepHeaders _ frame fragment stream change kind _ _ _ _ quiet =>
      exact aside (Event.aside_received (by simp [kind])) rfl
        (modify_closes (session.record _) frame.streamId fun stream => Stream.Closing.of_state
          (quiet stream).id_eq (quiet stream).state_eq (quiet stream).rstDone_eq)
  | keepOrphan _ frame fragment kind =>
      exact aside (Event.aside_received (by simp [kind])) rfl (Closes.refl session)
  | readHeaders _ frame fragment table kind =>
      exact aside (Event.aside_received (by simp [kind])) rfl (Closes.refl session)
  | keepMore _ frame kind =>
      exact aside (Event.aside_received (by simp [kind])) rfl
        (modify_closes (session.record _) frame.streamId fun _ => Stream.Closing.of_state rfl rfl rfl)
  | keepMoreOrphan _ frame kind =>
      exact aside (Event.aside_received (by simp [kind])) rfl (Closes.refl session)
  | readMore _ frame table kind =>
      exact aside (Event.aside_received (by simp [kind])) rfl (Closes.refl session)
  | dataUncounted _ frame kind =>
      exact aside (Event.aside_received (by simp [kind])) rfl (Closes.refl session)
  | dataEarly _ frame alive kind stream found =>
      have isAside : (Event.received frame).Aside := Event.aside_received (by simp [kind])
      have untouched : ∀ other ∈ [Event.received frame], ∀ id, ¬ other.Touches id := by
        intro other isIn
        rw [List.mem_singleton.mp isIn]
        exact isAside
      have countedIds : Ids (session.countConn frame) :=
        life.ids.keepOne rfl rfl rfl (life.ids.receivedOn (life.ids.of_find found).2)
      have counted : Life (session.countConn frame) :=
        life.keep countedIds rfl untouched (Closes.refl session)
      have both := rstStream_life counted (eachEntry_concat lawful (isAside.lawful _)) stream.id
        .protocolError (ids ((rstStream_fatalError _ _ _).trans alive))
      exact ⟨both.1, fun _ => both.2⟩
  | dataCounted _ frame kind stream found =>
      exact aside (Event.aside_received (by simp [kind])) rfl
        (modify_closes (session.countConn _) stream.id fun _ => Stream.Closing.of_state rfl rfl rfl)
  | resetIgnored _ frame kind used done =>
      exact ⟨eachEntry_concat lawful trivial, fun alive => resetIgnored_life life done (ids alive)⟩
  | resetReceived _ frame kind stream found notDone =>
      exact ⟨eachEntry_concat lawful trivial,
        fun alive => resetReceived_life life _ found (ids alive)⟩
  | endWithheld _ stream alive found =>
      have opened : stream.localClosed = false := by
        unfold endLabel at allowed
        by_contra closed
        rw [if_pos (by simpa using closed)] at allowed
        exact allowed rfl
      have both := endWithheld_life life lawful found opened (ids alive)
      exact ⟨both.1, fun _ => both.2⟩
  | control _ frame kind onConn =>
      refine aside (Event.aside_wrote ?_) rfl (Closes.refl session)
      rcases kind with isKind | isKind | isKind <;> simp [isKind]
  | preface _ =>
      have isAside (frames : List Frame) : (Event.preface frames).Aside := fun _ touches => touches
      exact aside (isAside _) rfl (Closes.refl session)
  | sendData _ stream last chunk alive found opened =>
      have both := sendData_life life lawful last chunk found opened
        (ids ((writeData_fatalError _ _ _ _).trans alive))
      exact ⟨both.1, fun _ => both.2⟩
  | ackConn _ _ =>
      have isAside (id increment : ℕ) : (Event.wrote (windowUpdateFrame id increment)).Aside :=
        Event.aside_wrote (by simp [windowUpdateFrame])
      exact aside (isAside _ _) rfl (Closes.refl session)
  | ackStream _ stream _ found =>
      have isAside (id increment : ℕ) : (Event.wrote (windowUpdateFrame id increment)).Aside :=
        Event.aside_wrote (by simp [windowUpdateFrame])
      exact aside (isAside _ _) rfl
        (modify_closes session stream.id fun _ => Stream.Closing.of_state rfl rfl rfl)
  | openStream _ stream fresh => exact ⟨lawful, fun _ => addStream_life life fresh⟩
  | openRequest _ stream alive fresh size block ends =>
      have stillAlive : ((headerFrames size stream.id ends true block).foldl writeFrame
          (session.addStream stream)).fatalError = none := by
        obtain ⟨queued, wrote⟩ := foldl_writeFrame (session.addStream stream)
          (headerFrames size stream.id ends true block)
        rw [wrote]
        exact alive
      have both := openRequest_life life lawful fresh size block ends (ids stillAlive)
      exact ⟨both.1, fun _ => both.2⟩
  | remove _ id => exact silent (removeStream_log session id) (removeStream_follows Stream.Closing.refl session id)

/-! ### Every run -/

theorem Life.fresh (table : σ) : Life (Session.fresh table) :=
  ⟨Ids.fresh table, fun _ isIn => by cases isIn⟩

/-- In a run in which no response ends the body of a stream that is closed for writing, no
more of a request is written once its stream is finished. -/
theorem reachable_lifecycle (hpack : Hpack σ) (table : σ) {session : Session σ}
    (reachable : Reachable hpack (fun session frame => ¬ EndsClosed hpack session frame) table
      session) : EachEntry Lawful session.log := by
  have path : Path hpack (· ≠ .endsClosed) (Session.fresh table) session :=
    Run.path (by decide) (fun _ _ _ _ => by decide)
      (fun session frame isTaken ends => absurd ends isTaken) (fun _ _ _ _ => by decide) reachable
  refine (path.always (fun session => EachEntry Lawful session.log) Life (eachEntry_nil _)
    (fun _ => Life.fresh table) ?_ ?_).1
  · intro label session after allowed act _ life lawful
    exact act.life allowed life lawful
  · intro session after _ log lawful
    obtain ⟨events, isLog, harmless⟩ := log
    rw [isLog]
    exact lawful_append lawful fun event isIn before => (harmless event isIn).lawful before

theorem not_endsClosed {frame : Frame} (notHeaders : frame.kind ≠ .headers)
    (notContinuation : frame.kind ≠ .continuation) : ¬ EndsClosed hpack session frame := by
  rintro ⟨stream, block, completes, _⟩
  unfold completedBlock at completes
  dsimp only at completes
  split at completes
  · cases completes
  split at completes
  · exact absurd ‹_› notHeaders
  · exact absurd ‹_› notContinuation
  · cases completes

def resetByPeer : Session Unit :=
  (((Session.fresh ()).dispatchFrame noFields (settingsFrame settingsInitialWindowSize 2)).attach
    { block := some [0x82], body := .bytes [1, 2, 3] } []).dispatchFrame noFields
      { kind := .rstStream, streamId := 1, payload := [0, 0, 0, 8] }

theorem resetByPeer_reachable : Reachable noFields
    (fun session frame => ¬ EndsClosed noFields session frame) () resetByPeer :=
  (((Run.refl _).step (Step.frame _ _ rfl (not_endsClosed (by decide) (by decide)))).step
    (Step.attach _ _ (by decide +kernel))).step
      (Step.frame _ _ (by decide +kernel) (not_endsClosed (by decide) (by decide)))

theorem reachable_lifecycle_resetByPeer :
    GotReset 1 resetByPeer.log ∧ EachEntry Lawful resetByPeer.log := by
  refine ⟨⟨{ kind := .rstStream, streamId := 1, payload := [0, 0, 0, 8] }, ?_, rfl, rfl⟩,
    reachable_lifecycle noFields () resetByPeer_reachable⟩
  decide +kernel

def statusOk : Hpack Unit where
  decode := fun _ input =>
    match input with
    | [] => none
    | _ :: _ => some ({ name := ascii ":status", value := ascii "200", next := 1 }, ())
  next_pos := by
    intro table input field table' isField
    cases input with
    | nil => cases isField
    | cons byte rest =>
        cases isField
        exact Nat.one_pos

/-- A request that waits to send its body, a WINDOW_UPDATE of 0 that resets its stream, and
then a final response. -/
def resetThenOk : Session Unit :=
  ((((Session.fresh ()).dispatchFrame statusOk (settingsFrame settingsInitialWindowSize 2)).attach
    { block := some [0x82], body := .bytes [1, 2, 3], expectContinue := true } []).dispatchFrame
      statusOk { kind := .windowUpdate, streamId := 1, payload := [0, 0, 0, 0] }).dispatchFrame
        statusOk { kind := .headers, flags := endHeadersFlag, streamId := 1, payload := [0x88] }

/-- DATA is written on a stream after its reset. -/
theorem resetThenOk_unlawful :
    Reachable statusOk anyFrame () resetThenOk ∧ ¬ EachEntry Lawful resetThenOk.log := by
  constructor
  · exact ((((Run.refl _).step (Step.frame _ _ rfl trivial)).step
      (Step.attach _ _ (by decide +kernel))).step (Step.frame _ _ (by decide +kernel) trivial)).step
        (Step.frame _ _ (by decide +kernel) trivial)
  · intro lawful
    have isLog : resetThenOk.log = resetThenOk.log.dropLast ++ [.wrote (endDataFrame 1)] := by
      decide +kernel
    have unfinished := (lawful _ _ _ isLog).1 (Or.inr (Or.inr rfl))
    refine unfinished (Or.inr (Or.inl ⟨rstFrame 1 .protocolError, ?_, rfl, rfl⟩))
    decide +kernel

end Bun.Http2
