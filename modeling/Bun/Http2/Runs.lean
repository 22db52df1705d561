/-
Runs of a session.

A run takes one operation after another, in any order.  An operation is what the code does
between two looks at the world: it takes a frame, opens a stream, drains a body, delivers,
grants window.  The entry points of the session are runs, and a run is a run of actions.
-/

import Bun.Http2.SendActions

set_option autoImplicit false

namespace Bun.Http2

open Bun.Foundation Session

variable {σ : Type}

/-- The bytes of a request body, as they change outside the session. -/
def Session.setBody (session : Session σ) (id : ℕ) (update : RequestBody → RequestBody) :
    Session σ :=
  session.modify id fun stream => { stream with body := update stream.body }

/-- One operation.  `taken` says which frames may arrive. -/
inductive Step (hpack : Hpack σ) (taken : Session σ → Frame → Prop) :
    Session σ → Session σ → Prop where
  | frame (session : Session σ) (frame : Frame) (alive : session.fatalError = none)
      (isTaken : taken session frame) : Step hpack taken session (session.dispatchFrame hpack frame)
  /-- A request is attached.  The draining after it is another operation. -/
  | attach (session : Session σ) (request : Request) (headroom : session.hasHeadroom = true) :
      Step hpack taken session (session.attach request [])
  | drain (session : Session σ) (id cap : ℕ) (alive : session.fatalError = none) :
      Step hpack taken session (session.drainSendBody id cap)
  | deliver (session : Session σ) (id : ℕ) (answers : ClientAnswers) (answer : FlushAnswer)
      (alive : session.fatalError = none) :
      Step hpack taken session (session.deliverStream id answers answer).2.2
  | reset (session : Session σ) (id : ℕ) (code : ErrorCode) (alive : session.fatalError = none) :
      Step hpack taken session (session.rstStream id code)
  | remove (session : Session σ) (id : ℕ) (alive : session.fatalError = none) :
      Step hpack taken session (session.removeStream id)
  | body (session : Session σ) (id : ℕ) (update : RequestBody → RequestBody)
      (alive : session.fatalError = none) : Step hpack taken session (session.setBody id update)
  | replenishConn (session : Session σ) (alive : session.fatalError = none) :
      Step hpack taken session session.replenishConn
  | replenishStream (session : Session σ) (paused : ℕ → Bool) (id : ℕ)
      (alive : session.fatalError = none) :
      Step hpack taken session (session.replenishStream paused id)
  | ping (session : Session σ) (alive : session.fatalError = none) :
      Step hpack taken session (session.writeFrame pingFrame)
  /-- Flushes, timers, the read buffer and the requests that wait. -/
  | note (session after : Session σ) (same : SameCore session after) : Step hpack taken session after
  | fail (session : Session σ) (error : Error) : Step hpack taken session (session.fail error)
  | failAll (session : Session σ) (error : Error) (alive : Bool) :
      Step hpack taken session (session.failAll error alive)

def Run (hpack : Hpack σ) (taken : Session σ → Frame → Prop) : Session σ → Session σ → Prop :=
  Relation.ReflTransGen (Step hpack taken)

def Session.fresh (table : σ) : Session σ where
  hpack := table

def Reachable (hpack : Hpack σ) (taken : Session σ → Frame → Prop) (table : σ)
    (session : Session σ) : Prop :=
  Run hpack taken (Session.fresh table) session

/-! ### Operations are runs of actions -/

section

variable {hpack : Hpack σ} {allowed : Label → Prop}

theorem bookkeeping_path (plain : allowed .plain) (session : Session σ) (id : ℕ)
    {change : Stream → Stream}
    (quiet : ∀ stream : Stream, stream.Quiet (change stream) ∧
      (change stream).headerBlock = stream.headerBlock) :
    Path hpack allowed session (session.modify id change) :=
  Path.single plain (Act.quietModify id (fun stream => (quiet stream).1)
    (Or.inl fun stream => (quiet stream).2))

theorem release_path (plain : allowed .plain) (session : Session σ) (id : ℕ) :
    Path hpack allowed session (session.release id) :=
  bookkeeping_path plain session id fun _ => ⟨⟨rfl, rfl, rfl, rfl, rfl, fun known => known⟩, rfl⟩

theorem cancel_path (plain : allowed .plain) (session : Session σ) (id : ℕ) (answer : FlushAnswer)
    (alive : session.fatalError = none) : Path hpack allowed session (session.cancel id answer) := by
  have reset : Act hpack .plain session _ := Act.reset session id .cancel alive
  exact ((Path.single plain reset).andThen plain
    (Act.tune _ _ (flushQuietly_sameCore _ answer))).trans (release_path plain _ id)

theorem deliverBody_path (plain : allowed .plain) (session : Session σ) (stream : Stream)
    (answers : ClientAnswers) (answer : FlushAnswer) (alive : session.fatalError = none) :
    Path hpack allowed session (session.deliverBody stream answers answer).2.2 := by
  have taken : Path hpack allowed session
      (session.modify stream.id fun stream => { stream with bodyBuffer := [] }) :=
    bookkeeping_path plain session stream.id fun _ =>
      ⟨⟨rfl, rfl, rfl, rfl, rfl, fun known => known⟩, rfl⟩
  unfold deliverBody
  dsimp only
  split
  · exact Path.refl session
  · split
    · split
      · exact taken.trans (cancel_path plain _ stream.id answer alive)
      · split
        · exact taken.trans (release_path plain _ stream.id)
        · split
          · exact taken.trans (release_path plain _ stream.id)
          · exact taken
    · split
      · exact release_path plain session stream.id
      · exact Path.refl session

theorem deliverStream_path (plain : allowed .plain) (session : Session σ) (id : ℕ)
    (answers : ClientAnswers) (answer : FlushAnswer) (alive : session.fatalError = none) :
    Path hpack allowed session (session.deliverStream id answers answer).2.2 := by
  have taken : Path hpack allowed session
      (session.modify id fun stream => { stream with headersReady := false }) :=
    bookkeeping_path plain session id fun _ =>
      ⟨⟨rfl, rfl, rfl, rfl, rfl, fun known => known⟩, rfl⟩
  unfold deliverStream
  split
  · exact Path.refl session
  · rename_i stream found
    split
    · exact Path.refl session
    · split
      · exact cancel_path plain session id answer alive
      · split
        · exact release_path plain session id
        · split
          · dsimp only
            split
            · exact taken.trans (cancel_path plain _ id answer alive)
            · split
              · exact taken.trans (cancel_path plain _ id answer alive)
              · split
                · exact taken.trans (release_path plain _ id)
                · exact taken.trans (deliverBody_path plain _ stream answers answer alive)
          · exact deliverBody_path plain session stream answers answer alive

theorem replenishConn_path (plain : allowed .plain) (session : Session σ)
    (alive : session.fatalError = none) : Path hpack allowed session session.replenishConn := by
  unfold replenishConn
  split
  · rename_i due
    exact Path.single plain (Act.ackConn session alive due)
  · exact Path.refl session

theorem replenishStream_path (plain : allowed .plain) (session : Session σ) (paused : ℕ → Bool)
    (id : ℕ) (alive : session.fatalError = none) :
    Path hpack allowed session (session.replenishStream paused id) := by
  unfold replenishStream
  split
  · exact Path.refl session
  · rename_i stream found
    obtain rfl := id_of_find found
    split
    · exact Path.refl session
    · rename_i due
      simp only [Bool.or_eq_true, decide_eq_true_eq, not_or, not_lt, Bool.not_eq_true] at due
      split
      · exact Path.refl session
      · exact Path.single plain (Act.ackStream session stream alive found due.1 due.2)

theorem Step.path {taken : Session σ → Frame → Prop} {session after : Session σ}
    (plain : allowed .plain)
    (counts : ∀ session frame, taken session frame → frame.kind = .data → allowed .counts)
    (ends : ∀ session frame, taken session frame → EndsClosed hpack session frame →
      allowed .endsClosed)
    (erases : ∀ session frame, taken session frame → Erases session frame → allowed .erases)
    (step : Step hpack taken session after) : Path hpack allowed session after := by
  cases step with
  | frame frame alive isTaken =>
      exact dispatchFrame_path plain session frame alive (counts session frame isTaken)
        (ends session frame isTaken) (erases session frame isTaken)
  | attach request headroom => exact attach_path plain session request headroom
  | drain id cap alive => exact drainSendBody_path plain session id cap alive
  | deliver id answers answer alive => exact deliverStream_path plain session id answers answer alive
  | reset id code alive => exact Path.single plain (Act.reset session id code alive)
  | remove id alive => exact Path.single plain (Act.remove session id)
  | body id update alive =>
      exact bookkeeping_path plain session id fun _ =>
        ⟨⟨rfl, rfl, rfl, rfl, rfl, fun known => known⟩, rfl⟩
  | replenishConn alive => exact replenishConn_path plain session alive
  | replenishStream paused id alive => exact replenishStream_path plain session paused id alive
  | ping alive => exact Path.single plain (Act.control session pingFrame (Or.inr (Or.inl rfl)) rfl)
  | note _ same => exact Path.single plain (Act.tune session after same)
  | fail error => exact Path.single plain (Act.fail session error)
  | failAll error alive => exact failAll_path plain session error alive

theorem Run.path {taken : Session σ → Frame → Prop} {session after : Session σ}
    (plain : allowed .plain)
    (counts : ∀ session frame, taken session frame → frame.kind = .data → allowed .counts)
    (ends : ∀ session frame, taken session frame → EndsClosed hpack session frame →
      allowed .endsClosed)
    (erases : ∀ session frame, taken session frame → Erases session frame → allowed .erases)
    (run : Run hpack taken session after) : Path hpack allowed session after := by
  induction run with
  | refl => exact Path.refl session
  | tail _ last ih => exact ih.trans (last.path plain counts ends erases)

end

/-! ### Entry points are runs -/

section

variable {hpack : Hpack σ} {taken : Session σ → Frame → Prop}

theorem Run.step {session middle after : Session σ} (run : Run hpack taken session middle)
    (last : Step hpack taken middle after) : Run hpack taken session after :=
  Relation.ReflTransGen.tail run last

theorem Run.trans {session middle after : Session σ} (first : Run hpack taken session middle)
    (second : Run hpack taken middle after) : Run hpack taken session after :=
  Relation.ReflTransGen.trans first second

theorem Run.refl (session : Session σ) : Run hpack taken session session :=
  Relation.ReflTransGen.refl

theorem Run.single {session after : Session σ} (step : Step hpack taken session after) :
    Run hpack taken session after :=
  Relation.ReflTransGen.single step

theorem flushQuietly_fatalError (session : Session σ) (answer : FlushAnswer) :
    (session.flushQuietly answer).fatalError = session.fatalError :=
  (flushQuietly_sameCore session answer).fatal_eq

theorem removeStream_fatalError (session : Session σ) (id : ℕ) :
    (session.removeStream id).fatalError = session.fatalError := by
  unfold removeStream
  split
  · rfl
  · rfl

theorem cancel_fatalError (session : Session σ) (id : ℕ) (answer : FlushAnswer) :
    (session.cancel id answer).fatalError = session.fatalError :=
  (flushQuietly_fatalError _ answer).trans (rstStream_fatalError session id .cancel)

theorem deliverBody_fatalError (session : Session σ) (stream : Stream) (answers : ClientAnswers)
    (answer : FlushAnswer) :
    (session.deliverBody stream answers answer).2.2.fatalError = session.fatalError := by
  unfold deliverBody
  dsimp only
  split
  · rfl
  · split
    · split
      · exact cancel_fatalError _ _ _
      · split
        · rfl
        · split
          · rfl
          · rfl
    · split
      · rfl
      · rfl

theorem deliverStream_fatalError (session : Session σ) (id : ℕ) (answers : ClientAnswers)
    (answer : FlushAnswer) :
    (session.deliverStream id answers answer).2.2.fatalError = session.fatalError := by
  unfold deliverStream
  split
  · rfl
  · split
    · rfl
    · split
      · exact cancel_fatalError _ _ _
      · split
        · rfl
        · split
          · dsimp only
            split
            · exact cancel_fatalError _ _ _
            · split
              · exact cancel_fatalError _ _ _
              · split
                · rfl
                · exact deliverBody_fatalError _ _ _ _
          · exact deliverBody_fatalError _ _ _ _

def LiveRun (hpack : Hpack σ) (taken : Session σ → Frame → Prop) (session after : Session σ) : Prop :=
  Run hpack taken session after ∧ after.fatalError = none

theorem LiveRun.refl {session : Session σ} (alive : session.fatalError = none) :
    LiveRun hpack taken session session :=
  ⟨Run.refl session, alive⟩

theorem LiveRun.step {session middle after : Session σ} (live : LiveRun hpack taken session middle)
    (last : middle.fatalError = none → Step hpack taken middle after)
    (same : after.fatalError = middle.fatalError) : LiveRun hpack taken session after :=
  ⟨live.1.step (last live.2), same.trans live.2⟩

theorem deliverAll_run (clients : ℕ → ClientAnswers) (answer : FlushAnswer) (steps index : ℕ)
    (session : Session σ) (alive : session.fatalError = none) :
    LiveRun hpack taken session (deliverAll clients answer steps index session) := by
  induction steps generalizing index session with
  | zero => exact LiveRun.refl alive
  | succ steps ih =>
      unfold deliverAll
      split
      · exact LiveRun.refl alive
      · rename_i stream _
        have delivered : LiveRun hpack taken session _ := (LiveRun.refl alive).step
          (fun alive => Step.deliver session stream.id (clients stream.id) answer alive)
          (deliverStream_fatalError session stream.id (clients stream.id) answer)
        split
        · rename_i isDelivered
          rw [isDelivered] at delivered
          obtain ⟨later, stillAlive⟩ := ih (index + 1) _ delivered.2
          exact ⟨delivered.1.trans later, stillAlive⟩
        · rename_i isDelivered
          rw [isDelivered] at delivered
          have reset := delivered.step (fun alive => Step.reset _ stream.id .cancel alive)
            (rstStream_fatalError _ stream.id .cancel)
          have removed := reset.step (fun alive => Step.remove _ stream.id alive)
            (removeStream_fatalError _ stream.id)
          obtain ⟨later, stillAlive⟩ := ih index _ removed.2
          exact ⟨removed.1.trans later, stillAlive⟩

theorem writeDataWindowed_fatalError (session : Session σ) (id : ℕ) (data : List UInt8)
    (endStream : Bool) (cap consumed : ℕ) :
    (session.writeDataWindowed id data endStream cap consumed).2.fatalError =
      session.fatalError := by
  fun_induction writeDataWindowed session id data endStream cap consumed with
  | case1 => rfl
  | case2 => rfl
  | case3 => rfl
  | case4 => rfl
  | case5 => exact writeData_fatalError _ _ _ _
  | case6 =>
      rename_i ih
      exact ih.trans (writeData_fatalError _ _ _ _)

theorem drainSendBody_fatalError (session : Session σ) (id cap : ℕ) :
    (session.drainSendBody id cap).fatalError = session.fatalError := by
  have windowed (data : List UInt8) (endStream : Bool) :=
    writeDataWindowed_fatalError session id data endStream cap 0
  unfold drainSendBody
  split
  · rfl
  · split
    · rfl
    · split
      · rfl
      · split
        · exact windowed _ _
        · split
          · rfl
          · exact windowed _ _

theorem drainPass_run (session : Session σ) (slice : ℕ) (ids : List ℕ)
    (alive : session.fatalError = none) :
    LiveRun hpack taken session (session.drainPass slice ids).2 := by
  unfold drainPass
  generalize false = progressed
  induction ids generalizing session progressed with
  | nil => exact LiveRun.refl alive
  | cons id rest ih =>
      rw [List.foldl_cons]
      dsimp only
      split
      · exact ih session alive progressed
      · split
        · exact ih session alive progressed
        · have drained := (drainSendBody_fatalError session id slice).trans alive
          obtain ⟨later, stillAlive⟩ := ih (session.drainSendBody id slice) drained _
          exact ⟨(Run.single (Step.drain session id slice alive)).trans later, stillAlive⟩

theorem drainSendBodiesLoop_run (passes : ℕ) (session : Session σ)
    (alive : session.fatalError = none) :
    LiveRun hpack taken session (drainSendBodiesLoop passes session).2 := by
  induction passes generalizing session with
  | zero => exact LiveRun.refl alive
  | succ passes ih =>
      unfold drainSendBodiesLoop
      split
      · exact LiveRun.refl alive
      · split
        · exact LiveRun.refl alive
        · have pass : LiveRun hpack taken session _ :=
            drainPass_run session session.remoteMaxFrameSize (session.streams.map (·.id)) alive
          split
          · rename_i drained isPass
            rw [isPass] at pass
            exact pass
          · rename_i drained isPass
            rw [isPass] at pass
            obtain ⟨later, stillAlive⟩ := ih drained pass.2
            exact ⟨pass.1.trans later, stillAlive⟩

theorem pumpSendBodies_run (session : Session σ) (answers : List FlushAnswer)
    (alive : session.fatalError = none) :
    Run hpack taken session (session.pumpSendBodies answers) := by
  induction answers generalizing session with
  | nil => exact Run.refl session
  | cons answer answers ih =>
      have both : LiveRun hpack taken session session.drainSendBodies.2 :=
        drainSendBodiesLoop_run _ session alive
      obtain ⟨drain, drained⟩ := both
      unfold pumpSendBodies
      dsimp only
      split
      · exact drain.step (Step.failAll _ _ _)
      · rename_i backpressured flushed isFlush
        have core := flush_sameCore isFlush
        have flush := drain.step (Step.note _ _ core)
        split
        · exact flush
        · exact flush.trans (ih flushed (core.fatal_eq.trans drained))

theorem writeRequest_fatalError (session : Session σ) (id : ℕ) (request : Request)
    (block : List UInt8) :
    (session.writeRequest id request block).fatalError = session.fatalError := by
  have framed (waits ends : Bool) := writeHeaderBlock_fatalError
    ({ session with pendingHpackEncCapacity := none }.modify id (waitFor waits)) id block ends
  unfold writeRequest
  dsimp only
  split
  · exact (drainSendBody_fatalError _ id noCap).trans (framed _ _)
  · split
    · exact framed _ _
    · exact framed _ _

theorem attach_run (session : Session σ) (request : Request) (answers : List FlushAnswer)
    (headroom : session.hasHeadroom = true) :
    Run hpack taken session (session.attach request answers) := by
  have attached : Run hpack taken session (session.attach request []) :=
    Run.single (Step.attach session request headroom)
  rw [attach_eq] at attached ⊢
  dsimp only at attached ⊢
  split at attached
  · rename_i fails
    rw [if_pos fails]
    exact attached
  · rename_i compresses
    rw [if_neg compresses]
    cases isBlock : request.block with
    | none =>
        rw [isBlock] at attached
        exact attached
    | some block =>
        rw [isBlock] at attached
        refine attached.trans (pumpSendBodies_run _ answers ?_)
        have same : ((prefaced session).addStream (requestStream session request)).fatalError =
            session.fatalError := (prefaced_core session).1
        exact (writeRequest_fatalError _ _ _ _).trans (same.trans (alive_of_headroom headroom))

theorem attachAll_run (session : Session σ) (requests : List (Request × List FlushAnswer)) :
    Run hpack taken session (session.attachAll requests) := by
  induction requests generalizing session with
  | nil => exact Run.refl session
  | cons request rest ih =>
      unfold attachAll
      split
      · exact ih session
      · rename_i may
        simp only [Bool.or_eq_true, not_or, Bool.not_eq_true, Bool.not_eq_false'] at may
        exact (attach_run session request.1 request.2 may.2).trans (ih _)

theorem drainPending_run (session : Session σ) (answers : List (List FlushAnswer)) :
    Run hpack taken session (session.drainPending answers) := by
  unfold drainPending
  split
  · exact Run.refl session
  · refine (Run.single (Step.note _ _ ?_)).trans (attachAll_run _ _)
    exact ⟨rfl, rfl, rfl, rfl, rfl, rfl, rfl, rfl, rfl, rfl, rfl, rfl⟩

def anyFrame (_ : Session σ) (_ : Frame) : Prop := True

theorem parseFrames_run (session : Session σ) (buffer : List UInt8)
    (alive : session.fatalError = none) :
    Run hpack anyFrame session (session.parseFrames hpack buffer).2 := by
  fun_induction parseFrames hpack session buffer with
  | case1 => exact Run.refl _
  | case2 => exact Run.single (Step.fail _ _)
  | case3 => exact Run.refl _
  | case4 session => exact Run.single (Step.frame session _ alive trivial)
  | case5 session buffer header isHeader _ _ frame dispatched notFailed =>
      rename_i isParsed ih
      have stillAlive : dispatched.fatalError = none := by simpa using notFailed
      have rest := ih stillAlive
      rw [isParsed] at rest
      exact (Run.single (Step.frame session frame alive trivial)).trans rest

theorem parseIncoming_run (session : Session σ) (incoming : List UInt8)
    (alive : session.fatalError = none) :
    Run hpack anyFrame session (session.parseIncoming hpack incoming) := by
  let started := { session with streamProgressed := false }
  have start : Run hpack anyFrame session started :=
    Run.single (Step.note _ _ ⟨rfl, rfl, rfl, rfl, rfl, rfl, rfl, rfl, rfl, rfl, rfl, rfl⟩)
  have parsed (buffer : List UInt8) := start.trans (parseFrames_run started buffer alive)
  unfold parseIncoming
  dsimp only
  split
  · split
    · exact (parsed _).step
        (Step.note _ _ ⟨rfl, rfl, rfl, rfl, rfl, rfl, rfl, rfl, rfl, rfl, rfl, rfl⟩)
    · exact parsed _
  · exact (parsed _).step
      (Step.note _ _ ⟨rfl, rfl, rfl, rfl, rfl, rfl, rfl, rfl, rfl, rfl, rfl, rfl⟩)

theorem sendAfterData_run (session : Session σ) (answers : DataAnswers) :
    Run hpack taken session (session.sendAfterData answers) := by
  have attached : Run hpack taken session (session.drainPending answers.attached) :=
    drainPending_run session answers.attached
  unfold sendAfterData
  dsimp only
  split
  · exact attached
  · rename_i alive
    exact attached.trans (pumpSendBodies_run _ _ (by simpa using alive))

theorem reattach_run (session : Session σ) (answers : DataAnswers) :
    Run hpack taken session (session.reattach answers) := by
  let parked := { session with pendingAttach := session.pendingAttach ++ answers.parked }
  have park : Run hpack taken session parked :=
    Run.single (Step.note _ _ ⟨rfl, rfl, rfl, rfl, rfl, rfl, rfl, rfl, rfl, rfl, rfl, rfl⟩)
  have attached := park.trans (drainPending_run parked answers.reattached)
  unfold reattach
  dsimp only
  split
  · exact park
  · split
    · exact attached
    · split
      · exact attached.step (Step.failAll _ _ _)
      · rename_i isFlush
        exact attached.step (Step.note _ _ (flush_sameCore isFlush))

/-- What `feedBody` makes of a body. -/
def RequestBody.feed (added : List UInt8) : RequestBody → RequestBody
  | .bytes pending => .bytes pending
  | .stream buffer ended detached => .stream (buffer ++ added) ended detached

end

end Bun.Http2
