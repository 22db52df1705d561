/-
Receive windows.

Every DATA byte that arrives is owed to the peer until a WINDOW_UPDATE grants it again.
The session keeps what it owes in counters, one for the connection and one for each stream,
and the log says that nothing is lost: what was received is what was granted again and what
is still owed.
-/

import Mathlib.Data.List.Induction
import Bun.Http2.StreamErrors

set_option autoImplicit false

namespace Bun.Http2

open Bun.Foundation Session

variable {σ : Type} {hpack : Hpack σ} {label : Label} {session after : Session σ}

/-! ### What the log says -/

namespace Event

/-- The DATA bytes that arrived on a stream, with their padding. -/
def dataOn (id : ℕ) : Event → ℕ
  | .received frame => if frame.kind = .data ∧ frame.streamId = id then frame.length else 0
  | _ => 0

def dataIn : Event → ℕ
  | .received frame => if frame.kind = .data then frame.length else 0
  | _ => 0

def update (id : ℕ) : Event → ℕ
  | .wrote frame =>
      if frame.kind = .windowUpdate ∧ frame.streamId = id then BigEndian.ofBytes frame.payload else 0
  | _ => 0

def written : Event → List Frame
  | .preface frames => frames
  | .wrote frame => [frame]
  | _ => []

def Increments (event : Event) : Prop :=
  ∀ frame ∈ event.written, frame.kind = .windowUpdate →
    1 ≤ BigEndian.ofBytes frame.payload ∧ BigEndian.ofBytes frame.payload ≤ 2 ^ 31 - 1

end Event

def Honours (before : List Event) : Event → Prop
  | .received frame => frame.kind = .data →
      tally Event.dataIn before + frame.length ≤
          localInitialWindowSize + tally (Event.update 0) before ∧
        tally (Event.dataOn frame.streamId) before + frame.length ≤
          localInitialWindowSize + tally (Event.update frame.streamId) before
  | _ => True

theorem honours_le {log : List Event} (honest : EachEntry Honours log) (id : ℕ) :
    tally Event.dataIn log ≤ localInitialWindowSize + tally (Event.update 0) log ∧
      tally (Event.dataOn id) log ≤ localInitialWindowSize + tally (Event.update id) log := by
  induction log using List.reverseRecOn with
  | nil => exact ⟨Nat.zero_le _, Nat.zero_le _⟩
  | append_singleton log event ih =>
      have before := ih (eachEntry_of_append honest)
      have last := honest log event [] rfl
      simp only [tally_append, tally_cons, tally_nil, Nat.add_zero]
      cases event with
      | preface frames => exact before
      | granted id increment => exact before
      | wrote frame =>
          have idle : (Event.wrote frame).dataIn = 0 ∧ (Event.wrote frame).dataOn id = 0 := ⟨rfl, rfl⟩
          omega
      | received frame =>
          have idle (id : ℕ) : (Event.received frame).update id = 0 := rfl
          by_cases isData : frame.kind = .data
          · have fits := last isData
            have counted : (Event.received frame).dataIn = frame.length := if_pos isData
            refine ⟨by rw [counted, idle]; exact fits.1, ?_⟩
            by_cases isId : frame.streamId = id
            · subst isId
              have counted : (Event.received frame).dataOn frame.streamId = frame.length :=
                if_pos ⟨isData, rfl⟩
              rw [counted, idle]
              exact fits.2
            · have other : (Event.received frame).dataOn id = 0 := if_neg fun both => isId both.2
              rw [other, idle]
              exact before.2
          · have conn : (Event.received frame).dataIn = 0 := if_neg isData
            have stream : (Event.received frame).dataOn id = 0 := if_neg fun both => isData both.1
            rw [conn, stream, idle, idle]
            exact before

/-! ### The counters -/

/-- What arrived on a stream is what was granted again and what is owed. -/
def Stream.Owes (log : List Event) (stream : Stream) : Prop :=
  tally (Event.dataOn stream.id) log = tally (Event.update stream.id) log + stream.unackedBytes

structure ReceiveInv (session : Session σ) : Prop where
  ids : Ids session
  conn : tally Event.dataIn session.log =
    tally (Event.update 0) session.log + session.connUnackedBytes
  each : ∀ stream ∈ session.streams, stream.remoteClosed = false → stream.Owes session.log
  reset : ∀ stream ∈ session.streams, stream.rstDone = true → stream.state = .closed

/-- An entry that neither brings DATA nor grants window. -/
structure Event.Idle (event : Event) : Prop where
  dataIn_eq : event.dataIn = 0
  dataOn_eq : ∀ id, event.dataOn id = 0
  update_eq : ∀ id, event.update id = 0
  increments : event.Increments

theorem Event.Idle.received {frame : Frame} (notData : frame.kind ≠ .data) :
    (Event.received frame).Idle :=
  ⟨if_neg notData, fun _ => if_neg fun both => notData both.1, fun _ => rfl,
    fun _ isIn => by cases isIn⟩

theorem Event.Idle.wrote {frame : Frame} (notUpdate : frame.kind ≠ .windowUpdate) :
    (Event.wrote frame).Idle := by
  refine ⟨rfl, fun _ => rfl, fun _ => if_neg fun both => notUpdate both.1, fun other isIn => ?_⟩
  rw [List.mem_singleton.mp isIn]
  exact fun isUpdate => absurd isUpdate notUpdate

theorem Event.Idle.granted (id increment : ℕ) : (Event.granted id increment).Idle :=
  ⟨rfl, fun _ => rfl, fun _ => rfl, fun _ isIn => by cases isIn⟩

theorem Event.increments_preface : (Event.preface [prefaceSettingsFrame,
    windowUpdateFrame 0 (localInitialWindowSize - defaultWindowSize)]).Increments := by
  unfold Event.Increments Event.written
  decide

theorem tally_idle {events : List Event} (idle : ∀ event ∈ events, event.Idle) (id : ℕ) :
    tally Event.dataIn events = 0 ∧ tally (Event.dataOn id) events = 0 ∧
      tally (Event.update id) events = 0 :=
  ⟨tally_eq_zero fun event isIn => (idle event isIn).dataIn_eq,
    tally_eq_zero fun event isIn => (idle event isIn).dataOn_eq id,
    tally_eq_zero fun event isIn => (idle event isIn).update_eq id⟩

structure Stream.Closes (stream after : Stream) : Prop where
  id_eq : after.id = stream.id
  closed : after.remoteClosed = false → stream.remoteClosed = false
  reset : (stream.rstDone = true → stream.state = .closed) → after.rstDone = true →
    after.state = .closed

structure Stream.Waits (stream after : Stream) : Prop extends stream.Closes after where
  unacked_eq : after.unackedBytes = stream.unackedBytes

namespace Stream.Waits

theorem refl (stream : Stream) : stream.Waits stream :=
  ⟨⟨rfl, fun opened => opened, fun closed => closed⟩, rfl⟩

theorem trans (first second third : Stream) (earlier : first.Waits second)
    (later : second.Waits third) : first.Waits third :=
  ⟨⟨later.id_eq.trans earlier.id_eq, fun opened => earlier.closed (later.closed opened),
    fun closed => later.reset (earlier.reset closed)⟩, later.unacked_eq.trans earlier.unacked_eq⟩

theorem window (stream : Stream) (value : ℤ) : stream.Waits { stream with sendWindow := value } :=
  ⟨⟨rfl, fun opened => opened, fun closed => closed⟩, rfl⟩

theorem of_quiet {stream after : Stream} (quiet : stream.Quiet after) : stream.Waits after := by
  refine ⟨⟨quiet.id_eq, ?_, ?_⟩, quiet.unacked_eq⟩
  · unfold remoteClosed
    rw [quiet.state_eq]
    exact fun opened => opened
  · rw [quiet.state_eq, quiet.rstDone_eq]
    exact fun closed => closed

theorem sentEndStream (stream : Stream) : stream.Waits stream.sentEndStream := by
  refine ⟨⟨rfl, ?_, ?_⟩, rfl⟩
  · unfold remoteClosed Stream.sentEndStream
    cases stream.state with
    | opened => exact fun opened => opened
    | halfClosedLocal => exact fun opened => opened
    | halfClosedRemote => exact fun opened => by simp at opened
    | closed => exact fun opened => opened
  · intro closed isDone
    unfold Stream.sentEndStream
    rw [closed isDone]

theorem recvEndStream (stream : Stream) : stream.Waits stream.recvEndStream := by
  refine ⟨⟨rfl, ?_, ?_⟩, rfl⟩
  · unfold remoteClosed Stream.recvEndStream
    cases stream.state with
    | opened => exact fun opened => by simp at opened
    | halfClosedLocal => exact fun opened => by simp at opened
    | halfClosedRemote => exact fun opened => opened
    | closed => exact fun opened => opened
  · intro closed isDone
    unfold Stream.recvEndStream
    rw [closed isDone]

theorem closeWith (ends : Bool) (stream : Stream) :
    stream.Waits (if ends then stream.sentEndStream else stream) := by
  split
  · exact sentEndStream stream
  · exact refl stream

theorem close {stream after : Stream} (id : after.id = stream.id) (state : after.state = .closed)
    (unacked : after.unackedBytes = stream.unackedBytes) : stream.Waits after := by
  refine ⟨⟨id, fun opened => ?_, fun _ _ => state⟩, unacked⟩
  unfold remoteClosed at opened
  rw [state] at opened
  simp at opened

end Stream.Waits

theorem Stream.Owes.keep {log events : List Event} {stream after : Stream} (owes : stream.Owes log)
    (id : after.id = stream.id)
    (unacked : tally (Event.dataOn stream.id) events + stream.unackedBytes =
      tally (Event.update stream.id) events + after.unackedBytes) : after.Owes (log ++ events) := by
  unfold Stream.Owes at owes ⊢
  rw [id, tally_append, tally_append]
  omega

theorem ReceiveInv.keep (inv : ReceiveInv session) (ids : Ids after) {events : List Event}
    (idle : ∀ event ∈ events, event.Idle) (log : after.log = session.log ++ events)
    (conn : after.connUnackedBytes = session.connUnackedBytes)
    (follows : Follows Stream.Waits session after) : ReceiveInv after where
  ids := ids
  conn := by
    obtain ⟨received, _, granted⟩ := tally_idle idle 0
    rw [log, tally_append, tally_append, received, granted, conn]
    exact inv.conn
  each := by
    intro stream isIn opened
    obtain ⟨old, wasIn, waits⟩ := follows stream isIn
    obtain ⟨_, received, granted⟩ := tally_idle idle old.id
    rw [log]
    refine (inv.each old wasIn (waits.closed opened)).keep waits.id_eq ?_
    rw [received, granted, waits.unacked_eq]
  reset := by
    intro stream isIn
    obtain ⟨old, wasIn, waits⟩ := follows stream isIn
    exact waits.reset (inv.reset old wasIn)

/-! ### DATA -/

structure Stream.Counted (frame : Frame) (stream after : Stream) : Prop
    extends stream.Closes after where
  unacked : after.remoteClosed = false → after.unackedBytes =
    if frame.streamId = stream.id then saturatingAdd stream.unackedBytes frame.length
    else stream.unackedBytes

theorem saturatingAdd_eq {owed more : ℕ} (fits : owed + more ≤ localInitialWindowSize) :
    saturatingAdd owed more = owed + more := by
  unfold saturatingAdd localInitialWindowSize at *
  omega

theorem ReceiveInv.count (inv : ReceiveInv session) (ids : Ids after)
    (honest : EachEntry Honours after.log) {frame : Frame} (kind : frame.kind = .data)
    {events : List Event} (idle : ∀ event ∈ events, event.Idle)
    (log : after.log = session.log ++ .received frame :: events)
    (conn : after.connUnackedBytes = saturatingAdd session.connUnackedBytes frame.length)
    (follows : Follows (Stream.Counted frame) session after) : ReceiveInv after where
  ids := ids
  conn := by
    have fits := (honest session.log (.received frame) events log kind).1
    have counted : (Event.received frame).dataIn = frame.length := if_pos kind
    have granted : (Event.received frame).update 0 = 0 := rfl
    obtain ⟨more, _, update⟩ := tally_idle idle 0
    have owed := inv.conn
    rw [log, tally_append, tally_append, tally_cons, tally_cons, more, update, counted, granted, conn,
      saturatingAdd_eq (by omega)]
    omega
  each := by
    intro stream isIn opened
    obtain ⟨old, wasIn, counted⟩ := follows stream isIn
    have owes := inv.each old wasIn (counted.closed opened)
    have granted : (Event.received frame).update old.id = 0 := rfl
    obtain ⟨_, more, update⟩ := tally_idle idle old.id
    rw [log]
    refine owes.keep counted.id_eq ?_
    rw [tally_cons, tally_cons, more, update, granted, counted.unacked opened]
    split
    · rename_i isId
      have fits := (honest session.log (.received frame) events log kind).2
      have bytes : (Event.received frame).dataOn old.id = frame.length := if_pos ⟨kind, isId⟩
      unfold Stream.Owes at owes
      rw [isId] at fits
      rw [bytes, saturatingAdd_eq (by omega)]
      omega
    · rename_i other
      have bytes : (Event.received frame).dataOn old.id = 0 := if_neg fun both => other both.2
      rw [bytes]
  reset := by
    intro stream isIn
    obtain ⟨old, wasIn, counted⟩ := follows stream isIn
    exact counted.reset (inv.reset old wasIn)

theorem dataUncounted_receive (inv : ReceiveInv session) {frame : Frame}
    (honest : EachEntry Honours (session.countConn frame).log) (kind : frame.kind = .data)
    (ids : Ids (session.countConn frame))
    (closed : ∀ stream, session.find frame.streamId = some stream → stream.remoteClosed = true) :
    ReceiveInv (session.countConn frame) := by
  refine inv.count ids honest kind (fun _ isIn => by cases isIn) rfl rfl fun stream isIn => ?_
  refine ⟨stream, isIn, ⟨rfl, fun opened => opened, fun closed => closed⟩, fun opened => ?_⟩
  split
  · rename_i isId
    rw [closed stream (inv.ids.find_iff.mpr ⟨isIn, isId.symm⟩)] at opened
    cases opened
  · rfl

theorem dataCounted_receive (inv : ReceiveInv session) {frame : Frame} {stream : Stream}
    (found : session.find frame.streamId = some stream) (kind : frame.kind = .data)
    (isAfter : after = (session.countConn frame).modify stream.id fun stream =>
      { stream with unackedBytes := saturatingAdd stream.unackedBytes frame.length })
    (honest : EachEntry Honours after.log) (ids : Ids after) : ReceiveInv after := by
  subst isAfter
  refine inv.count ids honest kind (fun _ isIn => by cases isIn) rfl rfl fun changed isIn => ?_
  obtain ⟨old, wasIn, rfl⟩ := List.mem_map.mp isIn
  refine ⟨old, wasIn, ?_⟩
  split
  · rename_i isId
    refine ⟨⟨rfl, fun opened => opened, fun closed => closed⟩, fun _ => ?_⟩
    rw [← id_of_find found, if_pos isId.symm]
  · rename_i other
    refine ⟨⟨rfl, fun opened => opened, fun closed => closed⟩, fun _ => ?_⟩
    rw [← id_of_find found, if_neg fun same => other same.symm]

/-- DATA before the response counts for the connection and closes its stream. -/
theorem dataEarly_receive (inv : ReceiveInv session) {frame : Frame} {stream : Stream}
    (found : session.find frame.streamId = some stream) (kind : frame.kind = .data)
    (isAfter : after = (session.countConn frame).rstStream stream.id .protocolError)
    (honest : EachEntry Honours after.log) (ids : Ids after) : ReceiveInv after := by
  subst isAfter
  have foundCounted : (session.countConn frame).find stream.id = some stream := by
    rw [id_of_find found]
    exact found
  obtain ⟨same, done⟩ | ⟨_, _, _, _, isReset⟩ :=
    rstStream_cases (session.countConn frame) stream.id .protocolError
  · rw [same] at honest ids ⊢
    refine dataUncounted_receive inv honest kind ids fun other isOther => ?_
    rw [found] at isOther
    cases isOther
    have state : stream.state = .closed :=
      (done stream foundCounted).elim (inv.reset stream (mem_of_find found)) fun closed => closed
    unfold Stream.remoteClosed
    rw [state]
    rfl
  · rw [isReset] at honest ids ⊢
    have idle : ∀ event ∈ [Event.wrote (rstFrame stream.id .protocolError)], event.Idle := by
      intro event isIn
      rw [List.mem_singleton.mp isIn]
      exact Event.Idle.wrote nofun
    refine inv.count ids honest kind idle (List.append_assoc _ _ _) rfl fun changed isIn => ?_
    obtain ⟨old, wasIn, rfl⟩ := List.mem_map.mp isIn
    refine ⟨old, wasIn, ?_⟩
    split
    · exact ⟨⟨rfl, nofun, fun _ _ => rfl⟩, nofun⟩
    · rename_i other
      refine ⟨⟨rfl, fun opened => opened, fun closed => closed⟩, fun _ => ?_⟩
      rw [← id_of_find found, if_neg fun same => other same.symm]

/-! ### Grants -/

theorem update_windowUpdateFrame (id increment : ℕ) (fits : increment ≤ localInitialWindowSize) :
    (Event.wrote (windowUpdateFrame id increment)).update id = increment := by
  have bytes : BigEndian.ofBytes (BigEndian.toBytes 4 increment) = increment :=
    BigEndian.ofBytes_toBytes 4 increment (fits.trans_lt (by decide))
  exact (if_pos ⟨rfl, rfl⟩).trans bytes

theorem update_other {id other increment : ℕ} (differs : id ≠ other) :
    (Event.wrote (windowUpdateFrame id increment)).update other = 0 :=
  if_neg fun both => differs both.2

theorem increments_windowUpdateFrame {id increment : ℕ} (due : replenishThreshold ≤ increment)
    (fits : increment ≤ localInitialWindowSize) :
    (Event.wrote (windowUpdateFrame id increment)).Increments := by
  intro frame isIn _
  rw [List.mem_singleton.mp isIn]
  have bytes : BigEndian.ofBytes (windowUpdateFrame id increment).payload = increment :=
    BigEndian.ofBytes_toBytes 4 increment (fits.trans_lt (by decide))
  have threshold : replenishThreshold = 8388608 := rfl
  have window : localInitialWindowSize = 16777216 := rfl
  rw [bytes]
  omega

theorem ReceiveInv.conn_le (inv : ReceiveInv session) (honest : EachEntry Honours session.log) :
    session.connUnackedBytes ≤ localInitialWindowSize := by
  have owed := inv.conn
  have sent := (honours_le honest 0).1
  omega

theorem ReceiveInv.stream_le (inv : ReceiveInv session) (honest : EachEntry Honours session.log)
    {stream : Stream} (isIn : stream ∈ session.streams) (opened : stream.remoteClosed = false) :
    stream.unackedBytes ≤ localInitialWindowSize := by
  have owed := inv.each stream isIn opened
  have sent := (honours_le honest stream.id).2
  unfold Stream.Owes at owed
  omega

theorem ackConn_receive (inv : ReceiveInv session) (honest : EachEntry Honours session.log)
    (isAfter : after =
      { session.writeWindowUpdate 0 session.connUnackedBytes with connUnackedBytes := 0 })
    (ids : Ids after) : ReceiveInv after := by
  subst isAfter
  refine ⟨ids, ?_, fun stream isIn opened => ?_, inv.reset⟩
  · have granted := update_windowUpdateFrame 0 _ (inv.conn_le honest)
    have silent : (Event.wrote (windowUpdateFrame 0 session.connUnackedBytes)).dataIn = 0 := rfl
    change tally _ (session.log ++ [_]) = tally _ (session.log ++ [_]) + 0
    rw [tally_append, tally_append, tally_cons, tally_cons, tally_nil, tally_nil, granted, silent]
    have owed := inv.conn
    omega
  · have other : (Event.wrote (windowUpdateFrame 0 session.connUnackedBytes)).update stream.id = 0 :=
      update_other (inv.ids.of_mem isIn).1.ne
    refine (inv.each stream isIn opened).keep rfl ?_
    rw [tally_cons, tally_cons, tally_nil, tally_nil, other]
    rfl

theorem ackStream_receive (inv : ReceiveInv session) (honest : EachEntry Honours session.log)
    {stream : Stream} (found : session.find stream.id = some stream)
    (isOpen : stream.remoteClosed = false)
    (isAfter : after = (session.modify stream.id fun stream =>
      { stream with unackedBytes := 0 }).writeWindowUpdate stream.id stream.unackedBytes)
    (ids : Ids after) : ReceiveInv after := by
  subst isAfter
  have isIn := mem_of_find found
  refine ⟨ids, ?_, fun changed isChanged opened => ?_, fun changed isChanged => ?_⟩
  · have other : (Event.wrote (windowUpdateFrame stream.id stream.unackedBytes)).update 0 = 0 :=
      update_other (inv.ids.of_mem isIn).1.ne'
    have silent : (Event.wrote (windowUpdateFrame stream.id stream.unackedBytes)).dataIn = 0 := rfl
    change tally _ (session.log ++ [_]) = tally _ (session.log ++ [_]) + _
    rw [tally_append, tally_append, tally_cons, tally_cons, tally_nil, tally_nil, other, silent]
    exact inv.conn
  · obtain ⟨old, wasIn, rfl⟩ := List.mem_map.mp isChanged
    by_cases isId : old.id = stream.id
    · have same := (inv.ids.find_iff.mpr ⟨wasIn, isId⟩).symm.trans found
      cases same
      have granted := update_windowUpdateFrame stream.id _ (inv.stream_le honest isIn isOpen)
      rw [if_pos rfl]
      refine (inv.each stream isIn isOpen).keep rfl ?_
      rw [tally_cons, tally_cons, tally_nil, tally_nil, granted]
      exact Nat.zero_add _
    · have other : (Event.wrote (windowUpdateFrame stream.id stream.unackedBytes)).update old.id = 0 :=
        update_other fun same => isId same.symm
      rw [if_neg isId] at opened ⊢
      refine (inv.each old wasIn opened).keep rfl ?_
      rw [tally_cons, tally_cons, tally_nil, tally_nil, other]
      rfl
  · obtain ⟨old, wasIn, rfl⟩ := List.mem_map.mp isChanged
    split
    · exact inv.reset old wasIn
    · exact inv.reset old wasIn

theorem addStream_receive (inv : ReceiveInv session) {stream : Stream}
    (fresh : stream.Fresh session) : ReceiveInv (session.addStream stream) := by
  have later (event : Event) (isIn : event ∈ session.log) : event.names ≠ stream.id := by
    rw [fresh.id_eq]
    exact (inv.ids.logged event isIn).ne
  have received : tally (Event.dataOn stream.id) session.log = 0 := by
    refine tally_eq_zero fun event isIn => ?_
    cases event with
    | preface frames => rfl
    | wrote frame => rfl
    | granted id increment => rfl
    | received frame =>
        refine if_neg fun both => later _ isIn ?_
        exact (if_pos (Or.inl both.1)).trans both.2
  have granted : tally (Event.update stream.id) session.log = 0 := by
    refine tally_eq_zero fun event isIn => ?_
    cases event with
    | preface frames => rfl
    | received frame => rfl
    | granted id increment => rfl
    | wrote frame => exact if_neg fun both => later _ isIn both.2
  refine ⟨inv.ids.addStream fresh, inv.conn, fun other isIn opened => ?_, fun other isIn => ?_⟩
  · rcases List.mem_append.mp isIn with known | new
    · exact inv.each other known opened
    · rw [List.mem_singleton.mp new]
      exact received.trans (by rw [fresh.unacked_eq]; exact granted.symm)
  · rcases List.mem_append.mp isIn with known | new
    · exact inv.reset other known
    · rw [List.mem_singleton.mp new, fresh.rstDone_eq]
      exact nofun

/-! ### One action -/

/-- No counter goes up: the counter of a stream is that of an old one, or lower. -/
def Lowers (session after : Session σ) : Prop :=
  after.connUnackedBytes ≤ session.connUnackedBytes ∧
    ∀ stream ∈ after.streams, stream.unackedBytes = 0 ∨
      ∃ old ∈ session.streams, old.id = stream.id ∧
        (stream.remoteClosed = false → old.remoteClosed = false) ∧
        stream.unackedBytes ≤ old.unackedBytes

theorem Lowers.of_waits (conn : after.connUnackedBytes = session.connUnackedBytes)
    (follows : Follows Stream.Waits session after) : Lowers session after := by
  refine ⟨conn.le, fun stream isIn => ?_⟩
  obtain ⟨old, wasIn, waits⟩ := follows stream isIn
  exact Or.inr ⟨old, wasIn, waits.id_eq.symm, waits.closed, waits.unacked_eq.le⟩

theorem addStream_lowers {stream : Stream} (fresh : stream.Fresh session) :
    Lowers session (session.addStream stream) := by
  refine ⟨Nat.le_refl _, fun other isIn => ?_⟩
  rcases List.mem_append.mp isIn with known | new
  · exact Or.inr ⟨other, known, rfl, fun opened => opened, Nat.le_refl _⟩
  · rw [List.mem_singleton.mp new]
    exact Or.inl fresh.unacked_eq

theorem Lowers.trans {middle : Session σ} (first : Lowers session middle)
    (second : Lowers middle after) : Lowers session after := by
  refine ⟨second.1.trans first.1, fun stream isIn => ?_⟩
  rcases second.2 stream isIn with zero | ⟨between, wasBetween, isId, closed, less⟩
  · exact Or.inl zero
  · rcases first.2 between wasBetween with zero | ⟨old, wasIn, wasId, wasClosed, wasLess⟩
    · exact Or.inl (Nat.le_zero.mp (less.trans zero.le))
    · exact Or.inr ⟨old, wasIn, wasId.trans isId, fun opened => wasClosed (closed opened),
        less.trans wasLess⟩

/-- What an action adds to the log, and what it keeps if the peer keeps to its windows. -/
structure Receives (label : Label) (session after : Session σ) (events : List Event) : Prop where
  log : after.log = session.log ++ events
  increments : EachEntry Honours session.log → ReceiveInv session →
    ∀ event ∈ events, event.Increments
  inv : EachEntry Honours after.log → ReceiveInv session → after.fatalError = none → ReceiveInv after
  lowers : label ≠ .counts → after.fatalError = none → Lowers session after

theorem rstStream_idle (session : Session σ) (id : ℕ) (code : ErrorCode) :
    ∃ events, (session.rstStream id code).log = session.log ++ events ∧
      (session.rstStream id code).connUnackedBytes = session.connUnackedBytes ∧
      (∀ event ∈ events, event.Idle) ∧
      Follows Stream.Waits session (session.rstStream id code) := by
  obtain ⟨same, _⟩ | ⟨_, _, _, _, isReset⟩ := rstStream_cases session id code
  · rw [same]
    exact ⟨[], (List.append_nil _).symm, rfl, fun _ isIn => absurd isIn List.not_mem_nil,
      Follows.of_streams Stream.Waits.refl rfl⟩
  · rw [isReset]
    refine ⟨[.wrote (rstFrame id code)], rfl, rfl, fun event isIn => ?_, ?_⟩
    · rw [List.mem_singleton.mp isIn]
      exact Event.Idle.wrote nofun
    · exact modify_follows Stream.Waits.refl session id
        fun _ => Stream.Waits.close rfl rfl rfl

theorem applySettings_connUnacked (session : Session σ) (units : List (ℕ × ℕ)) :
    (session.applySettings units).connUnackedBytes = session.connUnackedBytes := by
  induction units generalizing session with
  | nil => rfl
  | cons setting rest ih =>
      have first : (session.applySetting setting).connUnackedBytes = session.connUnackedBytes := by
        unfold applySetting
        dsimp only
        repeat' split
        all_goals rfl
      unfold applySettings
      dsimp only
      split
      · exact first
      · exact (ih _).trans first

theorem writeData_connUnacked (session : Session σ) (id : ℕ) (last : Bool) (chunk : List UInt8) :
    (session.writeData id last chunk).connUnackedBytes = session.connUnackedBytes := by
  unfold writeData
  dsimp only
  split
  · rfl
  · rfl

theorem Act.receives (act : Act hpack label session after) :
    ∃ events, Receives label session after events := by
  have ids (inv : ReceiveInv session) (alive : after.fatalError = none) : Ids after :=
    act.ids alive inv.ids
  have idle {events : List Event} (log : after.log = session.log ++ events)
      (idle : ∀ event ∈ events, event.Idle)
      (conn : after.connUnackedBytes = session.connUnackedBytes)
      (follows : Follows Stream.Waits session after) : ∃ events, Receives label session after events :=
    ⟨events, log, fun _ _ event isIn => (idle event isIn).increments,
      fun _ inv alive => inv.keep (ids inv alive) idle log conn follows,
      fun _ _ => Lowers.of_waits conn follows⟩
  have one {event : Event} (log : after.log = session.log ++ [event]) (isIdle : event.Idle)
      (conn : after.connUnackedBytes = session.connUnackedBytes)
      (follows : Follows Stream.Waits session after) : ∃ events, Receives label session after events :=
    idle log (fun other isIn => by rw [List.mem_singleton.mp isIn]; exact isIdle) conn follows
  have silent (log : after.log = session.log)
      (conn : after.connUnackedBytes = session.connUnackedBytes)
      (follows : Follows Stream.Waits session after) : ∃ events, Receives label session after events :=
    idle (log.trans (List.append_nil _).symm) (fun _ isIn => by cases isIn) conn follows
  have same (streams : after.streams = session.streams) : Follows Stream.Waits session after :=
    Follows.of_streams Stream.Waits.refl streams
  have received {frame : Frame} (log : after.log = session.log ++ [.received frame])
      (inv : EachEntry Honours after.log → ReceiveInv session → after.fatalError = none →
        ReceiveInv after)
      (lowers : label ≠ .counts → after.fatalError = none → Lowers session after) :
      ∃ events, Receives label session after events := by
    refine ⟨[.received frame], log, fun _ _ event isIn => ?_, inv, lowers⟩
    rw [List.mem_singleton.mp isIn]
    exact fun _ impossible => by cases impossible
  cases act with
  | tune _ _ core => exact silent core.log_eq core.connUnacked_eq (same core.streams_eq)
  | quiet _ change quiet =>
      exact silent rfl rfl (mapStreams_follows session fun stream =>
        Stream.Waits.of_quiet (quiet stream))
  | orphan _ block nobody => exact silent rfl rfl (same rfl)
  | fail _ error => exact silent rfl rfl (same rfl)
  | dead _ _ failed failedAfter log =>
      have dead {P : Prop} (alive : after.fatalError = none) : P := by
        rw [alive] at failedAfter
        cases failedAfter
      exact ⟨[], log.trans (List.append_nil _).symm,
        fun _ _ _ isIn => absurd isIn List.not_mem_nil, fun _ _ alive => dead alive,
        fun _ alive => dead alive⟩
  | panic _ value increment => exact silent rfl rfl (same rfl)
  | reject _ frame error =>
      exact received rfl (fun _ _ alive => by cases alive) (fun _ alive => by cases alive)
  | inert _ frame kind => exact one rfl (Event.Idle.received kind.1) rfl (same rfl)
  | settings _ frame _ kind notAck =>
      exact one (applySettings_log (session.record (.received frame)) _).1
        (Event.Idle.received (by simp [kind]))
        (applySettings_connUnacked (session.record (.received frame)) _)
        (applySettings_follows Stream.Waits.refl Stream.Waits.window Stream.Waits.trans
          (session.record (.received frame)) _)
  | grantConn _ increment => exact one rfl (Event.Idle.granted _ _) rfl (same rfl)
  | grantStream _ stream increment =>
      exact one rfl (Event.Idle.granted _ _) rfl (modify_follows Stream.Waits.refl session stream.id
        fun stream => Stream.Waits.window stream _)
  | reset _ id code =>
      obtain ⟨events, log, conn, isIdle, follows⟩ := rstStream_idle session id code
      exact idle log isIdle conn follows
  | recvEnd _ id change each =>
      refine silent rfl rfl (modify_follows Stream.Waits.refl session id fun stream => ?_)
      rcases each stream with isSame | ended
      · rw [isSame]
        exact Stream.Waits.refl stream
      · rw [ended]
        exact Stream.Waits.recvEndStream stream
  | keepHeaders _ frame fragment stream change kind _ _ _ _ quiet =>
      exact one rfl (Event.Idle.received (by simp [kind])) rfl (modify_follows Stream.Waits.refl
        (session.record _) frame.streamId fun stream => Stream.Waits.of_quiet (quiet stream))
  | keepOrphan _ frame fragment kind =>
      exact one rfl (Event.Idle.received (by simp [kind])) rfl (same rfl)
  | readHeaders _ frame fragment table kind =>
      exact one rfl (Event.Idle.received (by simp [kind])) rfl (same rfl)
  | keepMore _ frame kind =>
      exact one rfl (Event.Idle.received (by simp [kind])) rfl (modify_follows Stream.Waits.refl
        (session.record _) frame.streamId
        fun _ => ⟨⟨rfl, fun opened => opened, fun closed => closed⟩, rfl⟩)
  | keepMoreOrphan _ frame kind =>
      exact one rfl (Event.Idle.received (by simp [kind])) rfl (same rfl)
  | readMore _ frame table kind =>
      exact one rfl (Event.Idle.received (by simp [kind])) rfl (same rfl)
  | dataUncounted _ frame kind used closed =>
      exact received rfl
        (fun honest inv alive => dataUncounted_receive inv honest kind (ids inv alive) closed)
        (fun notCounts => absurd rfl notCounts)
  | dataEarly _ frame _ kind stream found =>
      obtain ⟨events, log, _, isIdle, _⟩ :=
        rstStream_idle (session.countConn frame) stream.id .protocolError
      refine ⟨.received frame :: events, log.trans (List.append_assoc _ _ _), ?_, ?_,
        fun notCounts => absurd rfl notCounts⟩
      · intro _ _ event isIn
        rcases List.mem_cons.mp isIn with rfl | later
        · exact fun _ impossible => by cases impossible
        · exact (isIdle event later).increments
      · exact fun honest inv alive =>
          dataEarly_receive inv found kind rfl honest (ids inv alive)
  | dataCounted _ frame kind stream found =>
      exact received rfl
        (fun honest inv alive => dataCounted_receive inv found kind rfl honest (ids inv alive))
        (fun notCounts => absurd rfl notCounts)
  | resetIgnored _ frame kind used =>
      exact one rfl (Event.Idle.received (by simp [kind])) rfl (same rfl)
  | resetReceived _ frame kind stream found =>
      exact one rfl (Event.Idle.received (by simp [kind])) rfl (modify_follows Stream.Waits.refl
        (session.record _) stream.id fun _ => Stream.Waits.close rfl rfl rfl)
  | endWithheld _ stream _ found =>
      refine one rfl (Event.Idle.wrote nofun) rfl (modify_follows Stream.Waits.refl
        (session.writeFrame _) stream.id fun stream => ?_)
      have awaited : stream.Waits { stream with awaitingContinue := false } :=
        ⟨⟨rfl, fun opened => opened, fun closed => closed⟩, rfl⟩
      exact Stream.Waits.trans _ _ _ awaited (Stream.Waits.sentEndStream _)
  | control _ frame kind onConn =>
      refine one rfl (Event.Idle.wrote fun isUpdate => ?_) rfl (same rfl)
      rw [isUpdate] at kind
      simp at kind
  | preface _ =>
      exact one rfl ⟨rfl, fun _ => rfl, fun _ => rfl, Event.increments_preface⟩ rfl (same rfl)
  | sendData _ stream last chunk _ found =>
      exact one (writeData_log session stream.id last chunk).1 (Event.Idle.wrote nofun)
        (writeData_connUnacked session stream.id last chunk)
        ((writeData_follows Stream.Waits.refl Stream.Waits.window session stream.id last
          chunk).trans Stream.Waits.trans (modify_follows Stream.Waits.refl _ stream.id
            (Stream.Waits.closeWith last)))
  | ackConn _ _ due =>
      refine ⟨[.wrote (windowUpdateFrame 0 session.connUnackedBytes)], rfl,
        fun honest inv event isIn => ?_, fun honest inv alive => ?_, fun _ _ => ?_⟩
      · rw [List.mem_singleton.mp isIn]
        exact increments_windowUpdateFrame due (inv.conn_le honest)
      · exact ackConn_receive inv (eachEntry_of_append honest) rfl (ids inv alive)
      · exact ⟨Nat.zero_le _, fun stream isIn =>
          Or.inr ⟨stream, isIn, rfl, fun opened => opened, Nat.le_refl _⟩⟩
  | ackStream _ stream _ found due opened =>
      refine ⟨[.wrote (windowUpdateFrame stream.id stream.unackedBytes)], rfl,
        fun honest inv event isIn => ?_, fun honest inv alive => ?_, fun _ _ => ?_⟩
      · rw [List.mem_singleton.mp isIn]
        exact increments_windowUpdateFrame due (inv.stream_le honest (mem_of_find found) opened)
      · exact ackStream_receive inv (eachEntry_of_append honest) found opened rfl (ids inv alive)
      · refine ⟨Nat.le_refl _, fun changed isIn => ?_⟩
        obtain ⟨old, wasIn, rfl⟩ := List.mem_map.mp isIn
        split
        · exact Or.inl rfl
        · exact Or.inr ⟨old, wasIn, rfl, fun opened => opened, Nat.le_refl _⟩
  | openStream _ stream fresh =>
      exact ⟨[], (List.append_nil _).symm, fun _ _ _ isIn => absurd isIn List.not_mem_nil,
        fun _ inv _ => addStream_receive inv fresh, fun _ _ => addStream_lowers fresh⟩
  | openRequest _ stream _ fresh size block ends =>
      obtain ⟨queued, wrote⟩ := foldl_writeFrame (session.addStream stream)
        (headerFrames size stream.id ends true block)
      rw [wrote] at ids ⊢
      have isIdle : ∀ event ∈ (headerFrames size stream.id ends true block).map Event.wrote,
          event.Idle := by
        intro event isIn
        obtain ⟨frame, isFrame, rfl⟩ := List.mem_map.mp isIn
        exact Event.Idle.wrote (headerFrames_kind _ _ _ _ _ frame isFrame).2
      refine ⟨(headerFrames size stream.id ends true block).map Event.wrote, rfl,
        fun _ _ event isIn => (isIdle event isIn).increments, fun _ inv alive => ?_, fun _ _ => ?_⟩
      · exact (addStream_receive inv fresh).keep (ids inv alive) isIdle rfl rfl
          (modify_follows Stream.Waits.refl (session.addStream stream) stream.id
            (Stream.Waits.closeWith ends))
      · exact (addStream_lowers fresh).trans (Lowers.of_waits rfl
          (modify_follows Stream.Waits.refl (session.addStream stream) stream.id
            (Stream.Waits.closeWith ends)))
  | remove _ id =>
      refine silent (removeStream_log session id) ?_
        (removeStream_follows Stream.Waits.refl session id)
      unfold removeStream
      split
      · rfl
      · rfl

/-! ### After a read -/

/-- Every counter is below the point at which it is granted again, unless the consumer of
the response has paused. -/
def Replenished (paused : ℕ → Bool) (session : Session σ) : Prop :=
  session.connUnackedBytes < replenishThreshold ∧
    ∀ stream ∈ session.streams, stream.remoteClosed = false → paused stream.id = false →
      stream.unackedBytes < replenishThreshold

theorem Replenished.keep {paused : ℕ → Bool} (replenished : Replenished paused session)
    (lowers : Lowers session after) : Replenished paused after := by
  refine ⟨lowers.1.trans_lt replenished.1, fun stream isIn opened running => ?_⟩
  rcases lowers.2 stream isIn with zero | ⟨old, wasIn, isId, closed, less⟩
  · rw [zero]
    decide
  · rw [← isId] at running
    exact less.trans_lt (replenished.2 old wasIn (closed opened) running)

theorem replenishConn_lt (session : Session σ) :
    session.replenishConn.connUnackedBytes < replenishThreshold := by
  have positive : 0 < replenishThreshold := by decide
  unfold replenishConn
  split
  · exact positive
  · exact not_le.mp ‹_›

theorem replenishStream_conn (paused : ℕ → Bool) (session : Session σ) (id : ℕ) :
    (session.replenishStream paused id).connUnackedBytes = session.connUnackedBytes := by
  unfold replenishStream
  split
  · rfl
  · split
    · rfl
    · split
      · rfl
      · rfl

theorem mem_replenishStream {paused : ℕ → Bool} {session : Session σ} {id : ℕ}
    (nodup : (streamIds session).Nodup) {stream : Stream}
    (isIn : stream ∈ (session.replenishStream paused id).streams) :
    (stream ∈ session.streams ∧ stream.id ≠ id) ∨
      (stream.remoteClosed = false → paused stream.id = false →
        stream.unackedBytes < replenishThreshold) := by
  have other (current : Stream) (found : session.find id = some current)
      (isIn : stream ∈ session.streams) :
      stream = current ∨ (stream ∈ session.streams ∧ stream.id ≠ id) := by
    by_cases isId : stream.id = id
    · exact Or.inl (List.inj_on_of_nodup_map nodup isIn (mem_of_find found)
        (isId.trans (id_of_find found).symm))
    · exact Or.inr ⟨isIn, isId⟩
  unfold replenishStream at isIn
  split at isIn
  · rename_i untracked
    refine Or.inl ⟨isIn, fun isId => ?_⟩
    have absent := List.find?_eq_none.mp untracked stream isIn
    simp [isId] at absent
  · rename_i current found
    split at isIn
    · rename_i low
      rcases other current found isIn with rfl | isOther
      · refine Or.inr fun opened _ => ?_
        rw [opened, Bool.or_false] at low
        simpa using low
      · exact Or.inl isOther
    · split at isIn
      · rename_i stopped
        rcases other current found isIn with rfl | isOther
        · refine Or.inr fun _ running => ?_
          rw [id_of_find found] at running
          rw [running, Bool.and_false] at stopped
          cases stopped
        · exact Or.inl isOther
      · obtain ⟨old, wasIn, rfl⟩ := List.mem_map.mp isIn
        have positive : 0 < replenishThreshold := by decide
        split
        · exact Or.inr fun _ _ => positive
        · rename_i notId
          exact Or.inl ⟨wasIn, notId⟩

theorem replenishStream_ids (paused : ℕ → Bool) (session : Session σ) (id : ℕ) :
    streamIds (session.replenishStream paused id) = streamIds session := by
  unfold replenishStream
  split
  · rfl
  · split
    · rfl
    · split
      · rfl
      · exact modify_ids session id fun _ => rfl

theorem replenishWindow_replenished (session : Session σ) (paused : ℕ → Bool)
    (nodup : (streamIds session).Nodup) : Replenished paused (session.replenishWindow paused) := by
  have streams : session.replenishConn.streams = session.streams := by
    unfold replenishConn
    split
    · rfl
    · rfl
  have conn := replenishConn_lt session
  unfold replenishWindow
  -- The streams whose turn is still to come may have a high counter.
  have waiting : ∀ stream ∈ session.replenishConn.streams,
      stream.id ∈ session.streams.map (·.id) ∨ (stream.remoteClosed = false →
        paused stream.id = false → stream.unackedBytes < replenishThreshold) := by
    intro stream isIn
    rw [streams] at isIn
    exact Or.inl (List.mem_map_of_mem isIn)
  have nodup : (streamIds session.replenishConn).Nodup := by
    unfold streamIds
    rw [streams]
    exact nodup
  generalize session.streams.map (·.id) = ids at waiting ⊢
  generalize session.replenishConn = started at conn waiting nodup ⊢
  induction ids generalizing started with
  | nil =>
      refine ⟨conn, fun stream isIn => ?_⟩
      exact (waiting stream isIn).resolve_left List.not_mem_nil
  | cons id rest ih =>
      rw [List.foldl_cons]
      refine ih _ ?_ ?_ ?_
      · rw [replenishStream_conn]
        exact conn
      · intro stream isIn
        rcases mem_replenishStream nodup isIn with ⟨wasIn, other⟩ | low
        · rcases waiting stream wasIn with listed | low
          · exact Or.inl ((List.mem_cons.mp listed).resolve_left other)
          · exact Or.inr low
        · exact Or.inr low
      · rw [replenishStream_ids]
        exact nodup

/-- A read that does not fail the session ends with a delivery and new grants. -/
theorem handleData_alive {incoming : List UInt8} {answers : DataAnswers}
    (alive : session.fatalError = none)
    (aliveAfter : (session.handleData hpack incoming answers).fatalError = none) :
    ∃ sent, Run hpack anyFrame session sent ∧ sent.fatalError = none ∧
      session.handleData hpack incoming answers =
        (sent.deliverAndReplenish answers).reattach answers := by
  have parsed : Run hpack anyFrame session _ := parseIncoming_run session incoming alive
  unfold handleData at aliveAfter ⊢
  dsimp only at aliveAfter ⊢
  cases isFlush : (session.parseIncoming hpack incoming).flush answers.parsed with
  | none =>
      rw [isFlush] at aliveAfter
      unfold failAll at aliveAfter
      cases isAlive : answers.alive with
      | true =>
          rw [isAlive] at aliveAfter
          cases aliveAfter
      | false =>
          rw [isAlive] at aliveAfter
          cases aliveAfter
  | some flushed =>
      have flushedRun := parsed.step (Step.note _ _ (flush_sameCore isFlush))
      rw [isFlush] at aliveAfter
      dsimp only at aliveAfter ⊢
      split at aliveAfter
      · unfold failAll at aliveAfter
        cases isAlive : answers.alive with
        | true =>
            rw [isAlive] at aliveAfter
            cases aliveAfter
        | false =>
            rw [isAlive] at aliveAfter
            cases aliveAfter
      · rename_i isNone
        split at aliveAfter
        · rename_i failed
          rw [aliveAfter] at failed
          cases failed
        · rename_i notFailed
          rw [if_neg notFailed]
          exact ⟨_, flushedRun.trans (sendAfterData_run flushed.2 answers), by simpa using notFailed,
            rfl⟩

theorem Run.ids {taken : Session σ → Frame → Prop} (run : Run hpack taken session after)
    (ids : session.fatalError = none → Ids session) : after.fatalError = none → Ids after := by
  have path : Path hpack anyLabel session after :=
    run.path trivial (fun _ _ _ _ => trivial) (fun _ _ _ _ => trivial) (fun _ _ _ _ => trivial)
  exact path.invariant ids fun label session after _ act alive ids => act.ids alive ids

theorem handleData_replenished {incoming : List UInt8} {answers : DataAnswers}
    (ids : Ids session) (alive : session.fatalError = none)
    (aliveAfter : (session.handleData hpack incoming answers).fatalError = none) :
    Replenished answers.paused (session.handleData hpack incoming answers) := by
  obtain ⟨sent, run, sentAlive, isAfter⟩ := handleData_alive alive aliveAfter
  rw [isAfter] at aliveAfter ⊢
  obtain ⟨delivered, deliveredAlive⟩ : LiveRun hpack anyFrame sent _ :=
    deliverAll_run answers.clients answers.delivered (sent.streams.length + 1) 0 sent sentAlive
  have nodup := ((run.trans delivered).ids (fun _ => ids) deliveredAlive).nodup
  have granted := replenishWindow_replenished _ answers.paused nodup
  have flushed : Replenished answers.paused (sent.deliverAndReplenish answers) := by
    have core := flushQuietly_sameCore
      ((deliverAll answers.clients answers.delivered (sent.streams.length + 1) 0
        sent).replenishWindow answers.paused) answers.replenished
    exact granted.keep (Lowers.of_waits core.connUnacked_eq
      (Follows.of_streams Stream.Waits.refl core.streams_eq))
  -- No frame arrives while requests are attached.
  have reattached : Run hpack (fun _ _ => False) (sent.deliverAndReplenish answers) _ :=
    reattach_run _ answers
  have path : Path hpack (· ≠ .counts) (sent.deliverAndReplenish answers) _ :=
    reattached.path (by decide) (fun _ _ taken => taken.elim) (fun _ _ taken => taken.elim)
      (fun _ _ taken => taken.elim)
  refine path.invariant (fun _ => flushed) ?_ aliveAfter
  intro label session after notCounts act alive replenished
  obtain ⟨events, receives⟩ := act.receives
  exact replenished.keep (receives.lowers notCounts alive)

/-! ### Every run -/

theorem ReceiveInv.fresh (table : σ) : ReceiveInv (Session.fresh table) where
  ids := Ids.fresh table
  conn := rfl
  each := fun _ isIn => absurd isIn List.not_mem_nil
  reset := fun _ isIn => absurd isIn List.not_mem_nil

theorem Event.Harmless.increments {event : Event} (harmless : event.Harmless) :
    event.Increments := by
  cases event with
  | preface frames =>
      have known : frames = _ := harmless
      rw [known]
      exact Event.increments_preface
  | received frame => exact fun _ isIn => absurd isIn List.not_mem_nil
  | granted id increment => exact fun _ isIn => absurd isIn List.not_mem_nil
  | wrote frame =>
      intro other isIn isUpdate
      have kinds : frame.kind = .settings ∨ frame.kind = .ping ∨ frame.kind = .goaway := harmless
      rw [List.mem_singleton.mp isIn] at isUpdate
      rw [isUpdate] at kinds
      simp at kinds

theorem Path.receives {allowed : Label → Prop} {table : σ}
    (path : Path hpack allowed (Session.fresh table) session) :
    (EachEntry Honours session.log → ∀ event ∈ session.log, event.Increments) ∧
      (session.fatalError = none → EachEntry Honours session.log → ReceiveInv session) := by
  refine path.always
    (fun session => EachEntry Honours session.log → ∀ event ∈ session.log, event.Increments)
    (fun session => EachEntry Honours session.log → ReceiveInv session)
    (fun _ _ isIn => absurd isIn List.not_mem_nil) (fun _ _ => ReceiveInv.fresh table) ?_ ?_
  · intro label session after _ act _ inv good
    obtain ⟨events, receives⟩ := act.receives
    have before (honest : EachEntry Honours after.log) : EachEntry Honours session.log := by
      rw [receives.log] at honest
      exact eachEntry_of_append honest
    refine ⟨fun honest event isIn => ?_, fun alive honest =>
      receives.inv honest (inv (before honest)) alive⟩
    rw [receives.log] at isIn
    rcases List.mem_append.mp isIn with old | new
    · exact good (before honest) event old
    · exact receives.increments (before honest) (inv (before honest)) event new
  · rintro session after _ ⟨events, log, harmless⟩ good honest event isIn
    rw [log] at honest isIn
    rcases List.mem_append.mp isIn with old | new
    · exact good (eachEntry_of_append honest) event old
    · exact (harmless event new).increments

/-- Flow control of what arrives, in every run with a peer that keeps to its windows: no byte
is lost on an open stream or on the connection as long as the session has not failed, every
increment is one the protocol allows, and after a read that does not fail the session little
is owed. -/
theorem reachable_receiveWindows (hpack : Hpack σ) (table : σ) {session : Session σ}
    (reachable : Reachable hpack anyFrame table session) (honest : EachEntry Honours session.log) :
    (∀ event ∈ session.log, event.Increments) ∧
      (session.fatalError = none →
        tally Event.dataIn session.log =
            tally (Event.update 0) session.log + session.connUnackedBytes ∧
          (∀ stream ∈ session.streams, stream.remoteClosed = false →
            tally (Event.dataOn stream.id) session.log =
              tally (Event.update stream.id) session.log + stream.unackedBytes) ∧
          ∀ incoming answers, (session.handleData hpack incoming answers).fatalError = none →
            Replenished answers.paused (session.handleData hpack incoming answers)) := by
  obtain ⟨increments, isInv⟩ := reachable.path.receives
  refine ⟨increments honest, fun alive => ?_⟩
  have inv := isInv alive honest
  exact ⟨inv.conn, inv.each, fun incoming answers aliveAfter =>
    handleData_replenished inv.ids alive aliveAfter⟩

theorem honours_of_small {log : List Event}
    (small : tally Event.dataIn log ≤ localInitialWindowSize) : EachEntry Honours log := by
  intro before event rest isLog
  cases event with
  | preface frames => trivial
  | wrote frame => trivial
  | granted id increment => trivial
  | received frame =>
      intro isData
      have counted : (Event.received frame).dataIn = frame.length := if_pos isData
      have less : tally (Event.dataOn frame.streamId) before ≤ tally Event.dataIn before := by
        refine tally_mono (fun event => ?_) before
        cases event with
        | preface frames => exact Nat.le_refl _
        | wrote frame => exact Nat.le_refl _
        | granted id increment => exact Nat.le_refl _
        | received other =>
            unfold Event.dataOn Event.dataIn
            dsimp only
            split
            · rename_i both
              rw [if_pos both.1]
            · exact Nat.zero_le _
      rw [isLog, tally_append, tally_cons, counted] at small
      omega

def threeBytes : Session Unit :=
  ((((Session.fresh ()).dispatchFrame statusOk (settingsFrame settingsInitialWindowSize 2)).attach
    { block := some [0x82] } []).dispatchFrame statusOk
      { kind := .headers, flags := endHeadersFlag, streamId := 1, payload := [0x88] }).dispatchFrame
        statusOk { kind := .data, streamId := 1, payload := [7, 8, 9] }

theorem threeBytes_reachable : Reachable statusOk anyFrame () threeBytes :=
  ((((Run.refl _).step (Step.frame _ _ rfl trivial)).step
    (Step.attach _ _ (by decide +kernel))).step (Step.frame _ _ (by decide +kernel) trivial)).step
      (Step.frame _ _ (by decide +kernel) trivial)

theorem reachable_receiveWindows_threeBytes :
    threeBytes.connUnackedBytes = 3 ∧
      tally Event.dataIn threeBytes.log =
        tally (Event.update 0) threeBytes.log + threeBytes.connUnackedBytes := by
  have honest : EachEntry Honours threeBytes.log := honours_of_small (by decide +kernel)
  obtain ⟨_, counted⟩ := reachable_receiveWindows statusOk () threeBytes_reachable honest
  exact ⟨by decide +kernel, (counted (by decide +kernel)).1⟩

/-- A peer that answers a request with DATA before its SETTINGS. -/
def dataFirst : Session Unit :=
  ((Session.fresh ()).attach { block := some [0x82] } []).dispatchFrame statusOk
    { kind := .data, streamId := 1, payload := [7, 8, 9] }

/-- DATA that fails the session need not be counted. -/
theorem dataFirst_uncounted :
    Reachable statusOk anyFrame () dataFirst ∧ EachEntry Honours dataFirst.log ∧
      dataFirst.fatalError.isSome = true ∧
      tally Event.dataIn dataFirst.log ≠
        tally (Event.update 0) dataFirst.log + dataFirst.connUnackedBytes :=
  ⟨((Run.refl _).step (Step.attach _ _ (by decide +kernel))).step
      (Step.frame _ _ (by decide +kernel) trivial),
    honours_of_small (by decide +kernel), by decide +kernel, by decide +kernel⟩

end Bun.Http2
