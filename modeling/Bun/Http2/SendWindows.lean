/-
Send windows.

A window is what the log says it is: the size it started from, with what the peer granted
and without what was framed.  A body goes out under both windows, so what was framed on a
stream exceeds the grants by no more than an initial size that was in force, and no window
leaves the range of its integer type.
-/

import Bun.Foundation.Ledger
import Bun.Http2.StreamIds

set_option autoImplicit false

namespace Bun.Http2

open Bun.Foundation Session

variable {σ : Type} {hpack : Hpack σ} {label : Label} {session after : Session σ}

/-! ### What the log says -/

namespace Event

def grant (id : ℕ) : Event → ℕ
  | .granted streamId increment => if streamId = id then increment else 0
  | _ => 0

def framed (id : ℕ) : Event → ℕ
  | .wrote frame => if frame.kind = .data ∧ frame.streamId = id then frame.length else 0
  | _ => 0

def framedAny : Event → ℕ
  | .wrote frame => if frame.kind = .data then frame.length else 0
  | _ => 0

end Event

def lastSetting (setting current : ℕ) (units : List (ℕ × ℕ)) : ℕ :=
  units.foldl (fun current unit => if unit.1 = setting then unit.2 else current) current

/-- A setting of the peer, `initial` as long as it says nothing. -/
def announced (setting initial : ℕ) (log : List Event) : ℕ :=
  log.foldl
    (fun current event =>
      match event with
      | .received frame =>
          if frame.kind = .settings ∧ frame.isAck = false then
            lastSetting setting current (settingsUnits frame.payload)
          else current
      | _ => current)
    initial

def announcedWindow (log : List Event) : ℕ :=
  announced settingsInitialWindowSize defaultWindowSize log

def announcedFrameSize (log : List Event) : ℕ :=
  announced settingsMaxFrameSize defaultMaxFrameSize log

def connWindow (log : List Event) : ℤ :=
  defaultWindowSize + tally (Event.grant 0) log - tally Event.framedAny log

def streamWindow (id : ℕ) (log : List Event) : ℤ :=
  announcedWindow log + tally (Event.grant id) log - tally (Event.framed id) log

def SendFits (before : List Event) : Event → Prop
  | .wrote frame => frame.kind = .data → frame.payload ≠ [] →
      (frame.length : ℤ) ≤ connWindow before ∧
      (frame.length : ℤ) ≤ streamWindow frame.streamId before ∧
      frame.length ≤ announcedFrameSize before
  | _ => True

def GrantSaid (before : List Event) : Event → Prop
  | .granted id increment =>
      ∃ frame, before.getLast? = some (.received frame) ∧ frame.kind = .windowUpdate ∧
        frame.streamId = id ∧ uint31 frame.payload = increment
  | _ => True

/-! ### Windows -/

structure StreamCredit (initial : ℕ) (log : List Event) (stream : Stream) : Prop where
  window : stream.sendWindow =
    initial + tally (Event.grant stream.id) log - tally (Event.framed stream.id) log
  high : stream.sendWindow ≤ maxWindowSize
  low : -(maxWindowSize : ℤ) ≤
    (tally (Event.grant stream.id) log : ℤ) - tally (Event.framed stream.id) log

structure Credit (session : Session σ) : Prop where
  conn : session.connSendWindow = connWindow session.log
  connLow : 0 ≤ session.connSendWindow
  connHigh : session.connSendWindow ≤ maxWindowSize
  initialHigh : session.remoteInitialWindowSize ≤ maxWindowSize
  frameSizeHigh : session.remoteMaxFrameSize ≤ maxFrameSize
  each : ∀ stream ∈ session.streams,
    StreamCredit session.remoteInitialWindowSize session.log stream

structure Event.Free (event : Event) : Prop where
  grant_eq : ∀ id, event.grant id = 0
  framed_eq : ∀ id, event.framed id = 0
  framedAny_eq : event.framedAny = 0

theorem Event.Free.received (frame : Frame) : (Event.received frame).Free :=
  ⟨fun _ => rfl, fun _ => rfl, rfl⟩

theorem Event.Free.preface (frames : List Frame) : (Event.preface frames).Free :=
  ⟨fun _ => rfl, fun _ => rfl, rfl⟩

theorem Event.Free.wrote {frame : Frame} (free : frame.kind = .data → frame.payload = []) :
    (Event.wrote frame).Free := by
  have framedAny : (Event.wrote frame).framedAny = 0 := by
    unfold Event.framedAny
    dsimp only
    split
    · rename_i isData
      exact congrArg List.length (free isData)
    · rfl
  refine ⟨fun _ => rfl, fun id => ?_, framedAny⟩
  unfold Event.framed
  unfold Event.framedAny at framedAny
  dsimp only at framedAny ⊢
  split
  · rename_i isData
    rwa [if_pos isData.1] at framedAny
  · rfl

theorem tally_free {events : List Event} (free : ∀ event ∈ events, event.Free) (id : ℕ) :
    tally (Event.grant id) events = 0 ∧ tally (Event.framed id) events = 0 ∧
      tally Event.framedAny events = 0 :=
  ⟨tally_eq_zero fun event isIn => (free event isIn).grant_eq id,
    tally_eq_zero fun event isIn => (free event isIn).framed_eq id,
    tally_eq_zero fun event isIn => (free event isIn).framedAny_eq⟩

/-- A window moves with what the log says of it.  What is framed leaves it positive. -/
theorem StreamCredit.move {initial : ℕ} {log events : List Event} {stream moved : Stream}
    (credit : StreamCredit initial log stream) (small : initial ≤ maxWindowSize)
    (id : moved.id = stream.id)
    (window : moved.sendWindow = stream.sendWindow + tally (Event.grant stream.id) events -
      tally (Event.framed stream.id) events)
    (high : moved.sendWindow ≤ maxWindowSize)
    (spent : tally (Event.framed stream.id) events = 0 ∨ 0 ≤ moved.sendWindow) :
    StreamCredit initial (log ++ events) moved := by
  obtain ⟨isWindow, _, low⟩ := credit
  refine ⟨?_, high, ?_⟩
  · rw [id, tally_append, tally_append]
    omega
  · rw [id, tally_append, tally_append]
    omega

def windowsOf (session : Session σ) : List (ℕ × ℤ) :=
  session.streams.map fun stream => (stream.id, stream.sendWindow)

theorem Credit.keep (credit : Credit session) {events : List Event}
    (free : ∀ event ∈ events, event.Free) (log : after.log = session.log ++ events)
    (conn : after.connSendWindow = session.connSendWindow)
    (initial : after.remoteInitialWindowSize = session.remoteInitialWindowSize)
    (frameSize : after.remoteMaxFrameSize = session.remoteMaxFrameSize)
    (streams : ∀ window ∈ windowsOf after, window ∈ windowsOf session) : Credit after where
  conn := by
    obtain ⟨grant, _, framed⟩ := tally_free free 0
    rw [conn, log, credit.conn]
    unfold connWindow
    rw [tally_append, tally_append, grant, framed]
    rfl
  connLow := by
    rw [conn]
    exact credit.connLow
  connHigh := by
    rw [conn]
    exact credit.connHigh
  initialHigh := by
    rw [initial]
    exact credit.initialHigh
  frameSizeHigh := by
    rw [frameSize]
    exact credit.frameSizeHigh
  each := by
    intro stream isIn
    obtain ⟨old, wasIn, same⟩ := List.mem_map.mp (streams _ (List.mem_map_of_mem isIn))
    rw [Prod.mk.injEq] at same
    rw [initial, log]
    obtain ⟨grant, framed, _⟩ := tally_free free old.id
    have isCredit := credit.each old wasIn
    refine isCredit.move credit.initialHigh same.1.symm ?_ (same.2.symm.le.trans isCredit.high)
      (Or.inl framed)
    rw [← same.2, grant, framed]
    simp

theorem Credit.keepSilent (credit : Credit session) (log : after.log = session.log)
    (conn : after.connSendWindow = session.connSendWindow)
    (initial : after.remoteInitialWindowSize = session.remoteInitialWindowSize)
    (frameSize : after.remoteMaxFrameSize = session.remoteMaxFrameSize)
    (streams : windowsOf after = windowsOf session) : Credit after := by
  refine credit.keep (fun _ isIn => absurd isIn List.not_mem_nil)
    (log.trans (List.append_nil _).symm) conn initial frameSize fun window isIn => ?_
  rw [← streams]
  exact isIn

/-! ### Settings -/

theorem shiftWindows_credit {initial value : ℕ} {log : List Event} {streams : List Stream}
    (small : value ≤ maxWindowSize) (each : ∀ stream ∈ streams, StreamCredit initial log stream) :
    (shiftWindows ((value : ℤ) - initial) streams).2.2 = false ∧
      ((shiftWindows ((value : ℤ) - initial) streams).2.1 = none →
        ∀ stream ∈ (shiftWindows ((value : ℤ) - initial) streams).1, StreamCredit value log stream) := by
  induction streams with
  | nil => exact ⟨rfl, fun _ stream isIn => by cases isIn⟩
  | cons stream rest ih =>
      have credit := each stream List.mem_cons_self
      obtain ⟨restPanics, restCredit⟩ := ih fun other isIn =>
        each other (List.mem_cons_of_mem stream isIn)
      obtain ⟨window, high, low⟩ := credit
      unfold shiftWindows
      dsimp only
      split
      · exact ⟨rfl, fun noError => by cases noError⟩
      · rename_i fits
        have fits := not_lt.mp fits
        have inRange : fitsI32 (stream.sendWindow + ((value : ℤ) - initial)) = true := by
          have bound : maxWindowSize = 2147483647 := rfl
          unfold fitsI32
          simp only [Bool.and_eq_true, decide_eq_true_eq]
          omega
        rw [inRange]
        refine ⟨restPanics, fun noError other isIn => ?_⟩
        rcases List.mem_cons.mp isIn with rfl | later
        · refine ⟨?_, fits, low⟩
          change stream.sendWindow + ((value : ℤ) - initial) =
            value + tally (Event.grant stream.id) log - tally (Event.framed stream.id) log
          omega
        · exact restCredit noError other later

theorem applySetting_credit (credit : Credit session) (setting : ℕ × ℕ) :
    (session.applySetting setting).panicked = session.panicked ∧
      ((session.applySetting setting).fatalError = none →
        Credit (session.applySetting setting) ∧
          (session.applySetting setting).remoteInitialWindowSize =
            lastSetting settingsInitialWindowSize session.remoteInitialWindowSize [setting] ∧
          (session.applySetting setting).remoteMaxFrameSize =
            lastSetting settingsMaxFrameSize session.remoteMaxFrameSize [setting]) := by
  obtain ⟨kind, value⟩ := setting
  unfold applySetting
  dsimp only
  split
  · rename_i isSize
    subst isSize
    split
    · exact ⟨rfl, fun failed => by cases failed⟩
    · rename_i inRange
      simp only [Bool.or_eq_true, decide_eq_true_eq, not_or, not_lt] at inRange
      refine ⟨rfl, fun _ => ⟨⟨credit.conn, credit.connLow, credit.connHigh, credit.initialHigh,
        inRange.2, credit.each⟩, rfl, rfl⟩⟩
  · rename_i notSize
    have frameSize : lastSetting settingsMaxFrameSize session.remoteMaxFrameSize [(kind, value)] =
        session.remoteMaxFrameSize := if_neg notSize
    split
    · rename_i isLimit
      subst isLimit
      exact ⟨rfl, fun _ => ⟨credit.keepSilent rfl rfl rfl rfl rfl, rfl, frameSize.symm⟩⟩
    · split
      · rename_i isTable
        subst isTable
        exact ⟨rfl, fun _ => ⟨credit.keepSilent rfl rfl rfl rfl rfl, rfl, frameSize.symm⟩⟩
      · split
        · rename_i isWindow
          subst isWindow
          split
          · exact ⟨rfl, fun failed => by cases failed⟩
          · rename_i small
            have small := not_lt.mp small
            obtain ⟨calm, shifted⟩ := shiftWindows_credit small credit.each
            refine ⟨?_, fun noError => ⟨⟨credit.conn, credit.connLow, credit.connHigh, small,
              credit.frameSizeHigh, ?_⟩, rfl, frameSize.symm⟩⟩
            · change (session.panicked || _) = _
              rw [calm, Bool.or_false]
            · refine shifted ?_
              change Option.or _ _ = none at noError
              exact (Option.or_eq_none_iff.mp noError).1
        · rename_i notWindow
          exact ⟨rfl, fun _ => ⟨credit, (if_neg notWindow).symm, frameSize.symm⟩⟩

theorem applySettings_credit (credit : Credit session) (units : List (ℕ × ℕ)) :
    (session.applySettings units).panicked = session.panicked ∧
      ((session.applySettings units).fatalError = none →
        Credit (session.applySettings units) ∧
          (session.applySettings units).remoteInitialWindowSize =
            lastSetting settingsInitialWindowSize session.remoteInitialWindowSize units ∧
          (session.applySettings units).remoteMaxFrameSize =
            lastSetting settingsMaxFrameSize session.remoteMaxFrameSize units) := by
  induction units generalizing session with
  | nil => exact ⟨rfl, fun _ => ⟨credit, rfl, rfl⟩⟩
  | cons setting rest ih =>
      obtain ⟨calm, applied⟩ := applySetting_credit credit setting
      unfold applySettings
      dsimp only
      split
      · rename_i failed
        refine ⟨calm, fun stillAlive => ?_⟩
        rw [stillAlive] at failed
        cases failed
      · rename_i notFailed
        have stillAlive : (session.applySetting setting).fatalError = none := by
          simpa using notFailed
        obtain ⟨next, initial, frameSize⟩ := applied stillAlive
        obtain ⟨restCalm, restApplied⟩ := ih next
        refine ⟨restCalm.trans calm, fun done => ?_⟩
        obtain ⟨last, lastInitial, lastFrameSize⟩ := restApplied done
        refine ⟨last, ?_, ?_⟩
        · rw [lastInitial, initial]
          rfl
        · rw [lastFrameSize, frameSize]
          rfl

/-! ### One action -/

structure WindowInv (session : Session σ) : Prop where
  ids : Ids session
  credit : Credit session
  initial : session.remoteInitialWindowSize = announcedWindow session.log
  frameSize : session.remoteMaxFrameSize = announcedFrameSize session.log

/-- Every frame went out under the windows, and no cast has failed. -/
structure WindowGood (session : Session σ) : Prop where
  fits : EachEntry SendFits session.log
  said : EachEntry GrantSaid session.log
  calm : session.panicked = false

/-- An entry that neither grants, nor sends, nor changes a setting. -/
def Event.Calm : Event → Prop
  | .preface _ => True
  | .wrote frame => frame.kind = .data → frame.payload = []
  | .received frame => ¬ (frame.kind = .settings ∧ frame.isAck = false)
  | .granted _ _ => False

theorem Event.Calm.free {event : Event} (calm : event.Calm) : event.Free := by
  cases event with
  | preface frames => exact Event.Free.preface frames
  | wrote frame => exact Event.Free.wrote calm
  | received frame => exact Event.Free.received frame
  | granted id increment => exact calm.elim

theorem Event.Calm.fits {event : Event} (calm : event.Calm) (before : List Event) :
    SendFits before event ∧ GrantSaid before event := by
  cases event with
  | preface frames => exact ⟨trivial, trivial⟩
  | wrote frame => exact ⟨fun isData some_sent => absurd (calm isData) some_sent, trivial⟩
  | received frame => exact ⟨trivial, trivial⟩
  | granted id increment => exact calm.elim

theorem Event.Harmless.fits {event : Event} (harmless : event.Harmless) (before : List Event) :
    SendFits before event ∧ GrantSaid before event := by
  cases event with
  | preface frames => exact ⟨trivial, trivial⟩
  | wrote frame =>
      refine ⟨fun isData _ => ?_, trivial⟩
      have kinds : frame.kind = .settings ∨ frame.kind = .ping ∨ frame.kind = .goaway := harmless
      rw [isData] at kinds
      simp at kinds
  | received frame => exact ⟨trivial, trivial⟩
  | granted id increment => exact harmless.elim

theorem WindowGood.append (good : WindowGood session) {events : List Event}
    (fits : ∀ event ∈ events, ∀ before, SendFits before event ∧ GrantSaid before event)
    (log : after.log = session.log ++ events) (panicked : after.panicked = session.panicked) :
    WindowGood after where
  fits := by
    rw [log]
    refine eachEntry_append good.fits fun before event rest isEvents => (fits event ?_ _).1
    rw [isEvents]
    exact List.mem_append_right before List.mem_cons_self
  said := by
    rw [log]
    refine eachEntry_append good.said fun before event rest isEvents => (fits event ?_ _).2
    rw [isEvents]
    exact List.mem_append_right before List.mem_cons_self
  calm := panicked.trans good.calm

theorem announced_append (setting initial : ℕ) (log : List Event) {events : List Event}
    (calm : ∀ event ∈ events, event.Calm) :
    announced setting initial (log ++ events) = announced setting initial log := by
  unfold announced
  rw [List.foldl_append]
  generalize log.foldl _ initial = current
  induction events with
  | nil => rfl
  | cons event rest ih =>
      have first := calm event List.mem_cons_self
      rw [List.foldl_cons]
      cases event with
      | preface frames => exact ih fun other isIn => calm other (List.mem_cons_of_mem _ isIn)
      | wrote frame => exact ih fun other isIn => calm other (List.mem_cons_of_mem _ isIn)
      | received frame =>
          dsimp only
          rw [if_neg first]
          exact ih fun other isIn => calm other (List.mem_cons_of_mem _ isIn)
      | granted id increment => exact first.elim

structure Calm (session after : Session σ) (events : List Event) : Prop where
  log : after.log = session.log ++ events
  calm : ∀ event ∈ events, event.Calm
  conn : after.connSendWindow = session.connSendWindow
  initial : after.remoteInitialWindowSize = session.remoteInitialWindowSize
  frameSize : after.remoteMaxFrameSize = session.remoteMaxFrameSize
  panicked : after.panicked = session.panicked
  streams : ∀ window ∈ windowsOf after, window ∈ windowsOf session

theorem Calm.good {events : List Event} (calm : Calm session after events)
    (good : WindowGood session) : WindowGood after :=
  good.append (fun event isIn => (calm.calm event isIn).fits) calm.log calm.panicked

theorem Calm.inv {events : List Event} (calm : Calm session after events)
    (inv : WindowInv session) (ids : Ids after) : WindowInv after where
  ids := ids
  credit := inv.credit.keep (fun event isIn => (calm.calm event isIn).free) calm.log calm.conn
    calm.initial calm.frameSize calm.streams
  initial := by
    rw [calm.initial, inv.initial, calm.log]
    exact (announced_append _ _ _ calm.calm).symm
  frameSize := by
    rw [calm.frameSize, inv.frameSize, calm.log]
    exact (announced_append _ _ _ calm.calm).symm

theorem mapStreams_windows (session : Session σ) {change : Stream → Stream}
    (keeps : ∀ stream, (change stream).id = stream.id ∧
      (change stream).sendWindow = stream.sendWindow) :
    windowsOf (session.mapStreams change) = windowsOf session := by
  unfold windowsOf mapStreams
  rw [List.map_map]
  refine List.map_congr_left fun stream _ => ?_
  rw [Function.comp_apply, (keeps stream).1, (keeps stream).2]

theorem modify_windows (session : Session σ) (id : ℕ) {change : Stream → Stream}
    (keeps : ∀ stream, (change stream).id = stream.id ∧
      (change stream).sendWindow = stream.sendWindow) :
    windowsOf (session.modify id change) = windowsOf session := by
  rw [modify_eq_mapStreams, mapStreams_windows]
  intro stream
  split
  · exact keeps stream
  · exact ⟨rfl, rfl⟩

theorem Calm.silent (log : after.log = session.log)
    (conn : after.connSendWindow = session.connSendWindow)
    (initial : after.remoteInitialWindowSize = session.remoteInitialWindowSize)
    (frameSize : after.remoteMaxFrameSize = session.remoteMaxFrameSize)
    (panicked : after.panicked = session.panicked)
    (streams : windowsOf after = windowsOf session) : Calm session after [] where
  log := log.trans (List.append_nil _).symm
  calm := fun _ isIn => absurd isIn List.not_mem_nil
  conn := conn
  initial := initial
  frameSize := frameSize
  panicked := panicked
  streams := by
    rw [streams]
    exact fun _ isIn => isIn

theorem Calm.one {event : Event} (calm : event.Calm) (log : after.log = session.log ++ [event])
    (conn : after.connSendWindow = session.connSendWindow)
    (initial : after.remoteInitialWindowSize = session.remoteInitialWindowSize)
    (frameSize : after.remoteMaxFrameSize = session.remoteMaxFrameSize)
    (panicked : after.panicked = session.panicked)
    (streams : windowsOf after = windowsOf session) : Calm session after [event] where
  log := log
  calm := by
    intro other isIn
    rw [List.mem_singleton.mp isIn]
    exact calm
  conn := conn
  initial := initial
  frameSize := frameSize
  panicked := panicked
  streams := by
    rw [streams]
    exact fun _ isIn => isIn

theorem rstStream_calm (session : Session σ) (id : ℕ) (code : ErrorCode) :
    ∃ events, Calm session (session.rstStream id code) events := by
  obtain ⟨same, _⟩ | ⟨stream, _, _, _, isReset⟩ := rstStream_cases session id code
  · rw [same]
    exact ⟨[], Calm.silent rfl rfl rfl rfl rfl rfl⟩
  · rw [isReset]
    have calm : (Event.wrote (rstFrame id code)).Calm := fun isData => by cases isData
    exact ⟨_, Calm.one calm rfl rfl rfl rfl rfl
      (modify_windows session id fun _ => ⟨rfl, rfl⟩)⟩

theorem Event.calm_received {frame : Frame} (other : frame.kind ≠ .settings) :
    (Event.received frame).Calm :=
  fun isSettings => other isSettings.1

theorem Credit.fits (credit : Credit session) {value : ℤ}
    (window : value = session.connSendWindow ∨ ∃ stream ∈ session.streams, value = stream.sendWindow) :
    -(maxWindowSize : ℤ) ≤ value ∧ value ≤ maxWindowSize := by
  rcases window with rfl | ⟨stream, isIn, rfl⟩
  · have low := credit.connLow
    exact ⟨by omega, credit.connHigh⟩
  · obtain ⟨window, high, low⟩ := credit.each stream isIn
    exact ⟨by omega, high⟩

theorem Credit.noPanic (credit : Credit session) {value : ℤ} {increment : ℕ}
    (window : value = session.connSendWindow ∨ ∃ stream ∈ session.streams, value = stream.sendWindow)
    (small : value + increment ≤ maxWindowSize) : fitsI32 (value + increment) = true := by
  have range := credit.fits window
  have bound : maxWindowSize = 2147483647 := rfl
  unfold fitsI32
  simp only [Bool.and_eq_true, decide_eq_true_eq]
  omega

theorem grantConn_credit (credit : Credit session) (ids : Ids session) {increment : ℕ}
    (fits : session.connSendWindow + increment ≤ maxWindowSize) :
    Credit
      { session.record (.granted 0 increment) with
        connSendWindow := session.connSendWindow + increment } where
  conn := by
    have conn := credit.conn
    unfold connWindow at conn ⊢
    change session.connSendWindow + increment = _ + ((tally _ (session.log ++ [_]) : ℕ) : ℤ) -
      (tally _ (session.log ++ [_]) : ℕ)
    rw [tally_append, tally_append, conn]
    simp [Event.grant, Event.framedAny]
    omega
  connLow := by
    have low := credit.connLow
    change 0 ≤ session.connSendWindow + increment
    omega
  connHigh := fits
  initialHigh := credit.initialHigh
  frameSizeHigh := credit.frameSizeHigh
  each := by
    intro stream isIn
    have isCredit := credit.each stream isIn
    have notConn : (0 : ℕ) ≠ stream.id := (ids.of_mem isIn).1.ne
    refine isCredit.move credit.initialHigh rfl ?_ isCredit.high (Or.inl rfl)
    simp [Event.grant, Event.framed, notConn]

theorem grantStream_credit (credit : Credit session) (ids : Ids session) {stream : Stream}
    {increment : ℕ} (found : session.find stream.id = some stream)
    (fits : stream.sendWindow + increment ≤ maxWindowSize) :
    Credit
      ((session.modify stream.id fun stream' =>
        { stream' with sendWindow := stream.sendWindow + increment }).record
          (.granted stream.id increment)) where
  conn := by
    have conn := credit.conn
    have notConn : stream.id ≠ 0 := (ids.of_find found).1.ne'
    unfold connWindow at conn ⊢
    change session.connSendWindow = _ + ((tally _ (session.log ++ [_]) : ℕ) : ℤ) -
      (tally _ (session.log ++ [_]) : ℕ)
    rw [tally_append, tally_append, conn]
    simp [Event.grant, Event.framedAny, notConn]
  connLow := credit.connLow
  connHigh := credit.connHigh
  initialHigh := credit.initialHigh
  frameSizeHigh := credit.frameSizeHigh
  each := by
    intro changed isIn
    obtain ⟨old, wasIn, rfl⟩ := List.mem_map.mp isIn
    have isCredit := credit.each old wasIn
    by_cases isId : old.id = stream.id
    · have both := (ids.find_iff.mpr ⟨wasIn, isId⟩).symm.trans found
      cases both
      rw [if_pos rfl]
      refine isCredit.move credit.initialHigh rfl ?_ fits (Or.inl rfl)
      simp [Event.grant, Event.framed]
    · rw [if_neg isId]
      refine isCredit.move credit.initialHigh rfl ?_ isCredit.high (Or.inl rfl)
      simp [Event.grant, Event.framed, Ne.symm isId]

theorem writeData_eq (session : Session σ) (id : ℕ) (last : Bool) {chunk : List UInt8}
    (small : chunk.length ≤ maxFrameSize) :
    session.writeData id last chunk =
      { (session.writeFrame (dataFrame id last chunk)).modify id fun stream =>
          { stream with sendWindow := stream.sendWindow - chunk.length } with
        connSendWindow := session.connSendWindow - chunk.length } := by
  have fits : fitsI32 chunk.length = true := by
    have bound : maxFrameSize = 16777215 := rfl
    unfold fitsI32
    simp only [Bool.and_eq_true, decide_eq_true_eq]
    omega
  unfold writeData
  simp only [fits, Bool.not_true, Bool.false_eq_true, if_false]

theorem chunk_small (credit : Credit session) {chunk : List UInt8}
    (fits : chunk ≠ [] → chunk.length ≤ session.remoteMaxFrameSize) :
    chunk.length ≤ maxFrameSize := by
  by_cases empty : chunk = []
  · rw [empty]
    exact Nat.zero_le _
  · exact (fits empty).trans credit.frameSizeHigh

theorem writeData_credit (credit : Credit session) (ids : Ids session) {stream : Stream} {last : Bool}
    {chunk : List UInt8} (found : session.find stream.id = some stream)
    (fits : chunk ≠ [] → (chunk.length : ℤ) ≤ stream.sendWindow ∧
      (chunk.length : ℤ) ≤ session.connSendWindow ∧ chunk.length ≤ session.remoteMaxFrameSize) :
    Credit (session.writeData stream.id last chunk) := by
  have small := chunk_small credit fun some_sent => (fits some_sent).2.2
  have within : chunk.length = 0 ∨
      ((chunk.length : ℤ) ≤ stream.sendWindow ∧ (chunk.length : ℤ) ≤ session.connSendWindow) := by
    by_cases empty : chunk = []
    · left
      rw [empty]
      rfl
    · exact Or.inr ⟨(fits empty).1, (fits empty).2.1⟩
  rw [writeData_eq session stream.id last small]
  have framedAny : (Event.wrote (dataFrame stream.id last chunk)).framedAny = chunk.length := rfl
  have grant (id : ℕ) :
      tally (Event.grant id) (session.log ++ [.wrote (dataFrame stream.id last chunk)]) =
        tally (Event.grant id) session.log := by
    simp [Event.grant]
  exact
    { conn := by
        have conn := credit.conn
        unfold connWindow at conn ⊢
        change session.connSendWindow - chunk.length = _ + ((tally _ (session.log ++ [_]) : ℕ) : ℤ) -
          (tally _ (session.log ++ [_]) : ℕ)
        rw [grant, tally_append, tally_cons, framedAny, tally_nil, conn]
        omega
      connLow := by
        have low := credit.connLow
        change 0 ≤ session.connSendWindow - chunk.length
        omega
      connHigh := by
        have high := credit.connHigh
        change session.connSendWindow - chunk.length ≤ _
        omega
      initialHigh := credit.initialHigh
      frameSizeHigh := credit.frameSizeHigh
      each := by
        intro changed isIn
        obtain ⟨old, wasIn, rfl⟩ := List.mem_map.mp isIn
        have isCredit := credit.each old wasIn
        have high := isCredit.high
        by_cases isId : old.id = stream.id
        · have both := (ids.find_iff.mpr ⟨wasIn, isId⟩).symm.trans found
          cases both
          rw [if_pos rfl]
          have framed : tally (Event.framed stream.id)
              [.wrote (dataFrame stream.id last chunk)] = chunk.length := by
            simp [Event.framed, dataFrame, Frame.length]
          refine isCredit.move credit.initialHigh rfl ?_ ?_ ?_
          · rw [framed]
            simp [Event.grant]
          · change stream.sendWindow - chunk.length ≤ _
            omega
          · rw [framed]
            change _ ∨ 0 ≤ stream.sendWindow - chunk.length
            omega
        · have framed : tally (Event.framed old.id)
              [.wrote (dataFrame stream.id last chunk)] = 0 := by
            simp [Event.framed, dataFrame, Ne.symm isId]
          rw [if_neg isId]
          refine isCredit.move credit.initialHigh rfl ?_ high (Or.inl framed)
          rw [framed]
          simp [Event.grant] }

theorem tally_unnamed {log : List Event} {id : ℕ} (unnamed : ∀ event ∈ log, event.names < id) :
    tally (Event.grant id) log = 0 ∧ tally (Event.framed id) log = 0 := by
  constructor
  · refine tally_eq_zero fun event isIn => ?_
    have other := unnamed event isIn
    cases event with
    | preface frames => rfl
    | wrote frame => rfl
    | received frame => rfl
    | granted streamId increment => exact if_neg (Nat.ne_of_lt other)
  · refine tally_eq_zero fun event isIn => ?_
    have other := unnamed event isIn
    cases event with
    | preface frames => rfl
    | wrote frame => exact if_neg fun isFramed => Nat.ne_of_lt other isFramed.2
    | received frame => rfl
    | granted streamId increment => rfl

theorem addStream_credit (credit : Credit session) (ids : Ids session) {stream : Stream}
    (fresh : stream.Fresh session) : Credit (session.addStream stream) where
  conn := credit.conn
  connLow := credit.connLow
  connHigh := credit.connHigh
  initialHigh := credit.initialHigh
  frameSizeHigh := credit.frameSizeHigh
  each := by
    intro opened isIn
    rcases List.mem_append.mp isIn with old | new
    · exact credit.each opened old
    · rw [List.mem_singleton.mp new]
      have window := fresh.window_eq
      have initialHigh := credit.initialHigh
      obtain ⟨grant, framed⟩ := tally_unnamed ids.logged
      rw [← fresh.id_eq] at grant framed
      have next : (session.addStream stream).log = session.log := rfl
      have initial : (session.addStream stream).remoteInitialWindowSize =
        session.remoteInitialWindowSize := rfl
      refine ⟨?_, ?_, ?_⟩
      · rw [next, initial, grant, framed]
        omega
      · omega
      · rw [next, grant, framed]
        omega

theorem openStream_inv (inv : WindowInv session) {stream : Stream} (fresh : stream.Fresh session) :
    WindowInv (session.addStream stream) :=
  ⟨inv.ids.addStream fresh, addStream_credit inv.credit inv.ids fresh, inv.initial, inv.frameSize⟩

theorem Calm.trans {middle : Session σ} {events more : List Event}
    (first : Calm session middle events) (second : Calm middle after more) :
    Calm session after (events ++ more) where
  log := by rw [second.log, first.log, List.append_assoc]
  calm := by
    intro event isIn
    rcases List.mem_append.mp isIn with old | new
    · exact first.calm event old
    · exact second.calm event new
  conn := second.conn.trans first.conn
  initial := second.initial.trans first.initial
  frameSize := second.frameSize.trans first.frameSize
  panicked := second.panicked.trans first.panicked
  streams := fun window isIn => first.streams window (second.streams window isIn)

theorem removeStream_calm (session : Session σ) (id : ℕ) :
    Calm session (session.removeStream id) [] := by
  unfold removeStream
  split
  · exact Calm.silent rfl rfl rfl rfl rfl rfl
  · refine ⟨(List.append_nil _).symm, fun _ isIn => absurd isIn List.not_mem_nil, rfl, rfl, rfl, rfl,
      fun window isIn => ?_⟩
    obtain ⟨stream, isKept, rfl⟩ := List.mem_map.mp isIn
    have wasIn := List.mem_of_mem_eraseP ((swapRemove_perm id session.streams).mem_iff.mp isKept)
    exact List.mem_map_of_mem wasIn

theorem closeWith_windows (session : Session σ) (id : ℕ) (ends : Bool) :
    windowsOf (session.modify id fun stream => if ends then stream.sentEndStream else stream) =
      windowsOf session := by
  refine modify_windows session id fun stream => ?_
  split
  · exact ⟨rfl, rfl⟩
  · exact ⟨rfl, rfl⟩

theorem headerFrames_kind (max id : ℕ) (endStream first : Bool) (remaining : List UInt8) :
    ∀ frame ∈ headerFrames max id endStream first remaining,
      frame.kind ≠ .data ∧ frame.kind ≠ .windowUpdate := by
  have one (last : Bool) (chunk : List UInt8) (first : Bool) :
      (headerFrame id first endStream last chunk).kind ≠ .data ∧
        (headerFrame id first endStream last chunk).kind ≠ .windowUpdate := by
    cases first with
    | true => exact ⟨nofun, nofun⟩
    | false => exact ⟨nofun, nofun⟩
  fun_induction headerFrames max id endStream first remaining with
  | case1 =>
      intro frame isIn
      rw [List.mem_singleton.mp isIn]
      exact one _ _ _
  | case2 =>
      rename_i ih
      intro frame isIn
      rcases List.mem_cons.mp isIn with rfl | later
      · exact one _ _ _
      · exact ih frame later

theorem headers_calm (stream : Stream) (ends : Bool) (size : ℕ) (block : List UInt8) (queued : ℕ) :
    Calm session
      ({ session with
        log := session.log ++ (headerFrames size stream.id ends true block).map Event.wrote
        queued }.modify stream.id fun stream => if ends then stream.sentEndStream else stream)
      ((headerFrames size stream.id ends true block).map Event.wrote) := by
  refine ⟨rfl, fun event isIn => ?_, rfl, rfl, rfl, rfl, ?_⟩
  · obtain ⟨frame, isFrame, rfl⟩ := List.mem_map.mp isIn
    exact fun isData => absurd isData (headerFrames_kind _ _ _ _ _ frame isFrame).1
  · rw [closeWith_windows]
    exact fun _ isIn => isIn

theorem WindowGood.grant (good : WindowGood session) {id increment : ℕ}
    (said : session.Said id increment) (log : after.log = session.log ++ [.granted id increment])
    (panicked : after.panicked = session.panicked) : WindowGood after where
  fits := by
    rw [log]
    exact eachEntry_concat good.fits trivial
  said := by
    rw [log]
    exact eachEntry_concat good.said said
  calm := panicked.trans good.calm

theorem announced_granted (setting initial : ℕ) (log : List Event) (id increment : ℕ) :
    announced setting initial (log ++ [.granted id increment]) = announced setting initial log := by
  unfold announced
  rw [List.foldl_append]
  rfl

theorem announced_settings (setting initial : ℕ) (log : List Event) {frame : Frame}
    (kind : frame.kind = .settings) (notAck : frame.isAck = false) :
    announced setting initial (log ++ [.received frame]) =
      lastSetting setting (announced setting initial log) (settingsUnits frame.payload) := by
  unfold announced
  rw [List.foldl_append, List.foldl_cons]
  exact if_pos ⟨kind, notAck⟩

theorem settings_windows (inv : WindowInv session) (good : WindowGood session) {frame : Frame}
    (kind : frame.kind = .settings) (notAck : frame.isAck = false)
    (ids : ((session.record (.received frame)).applySettings
      (settingsUnits frame.payload)).fatalError = none →
        Ids ((session.record (.received frame)).applySettings (settingsUnits frame.payload))) :
    WindowGood ((session.record (.received frame)).applySettings (settingsUnits frame.payload)) ∧
      (((session.record (.received frame)).applySettings
        (settingsUnits frame.payload)).fatalError = none →
          WindowInv ((session.record (.received frame)).applySettings
            (settingsUnits frame.payload))) := by
  have recorded : Credit (session.record (.received frame)) := by
    refine inv.credit.keep (fun event isIn => ?_) rfl rfl rfl rfl fun _ isIn => isIn
    rw [List.mem_singleton.mp isIn]
    exact Event.Free.received frame
  obtain ⟨log, _⟩ := applySettings_log (session.record (.received frame))
    (settingsUnits frame.payload)
  obtain ⟨calm, applied⟩ := applySettings_credit recorded (settingsUnits frame.payload)
  refine ⟨good.append (fun event isIn before => ?_) log calm, fun alive => ?_⟩
  · rw [List.mem_singleton.mp isIn]
    exact ⟨trivial, trivial⟩
  · obtain ⟨credit, initial, frameSize⟩ := applied alive
    refine ⟨ids alive, credit, ?_, ?_⟩
    · rw [initial, log]
      exact (congrArg (lastSetting _ · _) inv.initial).trans
        (announced_settings _ _ _ kind notAck).symm
    · rw [frameSize, log]
      exact (congrArg (lastSetting _ · _) inv.frameSize).trans
        (announced_settings _ _ _ kind notAck).symm

theorem endFrame_calm (id : ℕ) : (Event.wrote (endDataFrame id)).Calm :=
  fun _ => rfl

theorem writeData_windows (inv : WindowInv session) (good : WindowGood session) {stream : Stream}
    (last : Bool) {chunk : List UInt8} (found : session.find stream.id = some stream)
    (fits : chunk ≠ [] → (chunk.length : ℤ) ≤ stream.sendWindow ∧
      (chunk.length : ℤ) ≤ session.connSendWindow ∧ chunk.length ≤ session.remoteMaxFrameSize) :
    WindowGood (session.writeData stream.id last chunk) ∧
      WindowInv (session.writeData stream.id last chunk) := by
  have small := chunk_small inv.credit fun some_sent => (fits some_sent).2.2
  have isWritten := writeData_eq session stream.id last small
  obtain ⟨log, next⟩ := writeData_log session stream.id last chunk
  have calmSettings (setting initial : ℕ) : announced setting initial
      (session.log ++ [.wrote (dataFrame stream.id last chunk)]) =
        announced setting initial session.log := by
    unfold announced
    rw [List.foldl_append]
    rfl
  refine ⟨⟨?_, ?_, ?_⟩, ⟨?_, writeData_credit inv.credit inv.ids found fits, ?_, ?_⟩⟩
  · rw [log]
    refine eachEntry_concat good.fits fun _ some_sent => ?_
    obtain ⟨inStream, inConn, inFrame⟩ := fits some_sent
    refine ⟨inv.credit.conn ▸ inConn, ?_, inv.frameSize ▸ inFrame⟩
    have window := (inv.credit.each stream (mem_of_find found)).window
    rw [inv.initial] at window
    exact inStream.trans window.le
  · rw [log]
    exact eachEntry_concat good.said trivial
  · rw [isWritten]
    exact good.calm
  · exact inv.ids.keepOne (writeData_ids session stream.id last chunk) next log
      (inv.ids.of_find found).2
  · rw [log]
    exact (congrArg Session.remoteInitialWindowSize isWritten).trans
      (inv.initial.trans (calmSettings _ _).symm)
  · rw [log]
    exact (congrArg Session.remoteMaxFrameSize isWritten).trans
      (inv.frameSize.trans (calmSettings _ _).symm)

theorem Act.windows (act : Act hpack label session after) (inv : WindowInv session)
    (good : WindowGood session) :
    WindowGood after ∧ (after.fatalError = none → WindowInv after) := by
  have ids (alive : after.fatalError = none) : Ids after := act.ids alive inv.ids
  have calm {events : List Event} (isCalm : Calm session after events) :
      WindowGood after ∧ (after.fatalError = none → WindowInv after) :=
    ⟨isCalm.good good, fun alive => isCalm.inv inv (ids alive)⟩
  have failed {events : List Event} (log : after.log = session.log ++ events)
      (fits : ∀ event ∈ events, ∀ before, SendFits before event ∧ GrantSaid before event)
      (panicked : after.panicked = session.panicked) (failed : after.fatalError.isSome = true) :
      WindowGood after ∧ (after.fatalError = none → WindowInv after) := by
    refine ⟨good.append fits log panicked, fun alive => ?_⟩
    rw [alive] at failed
    cases failed
  cases act with
  | tune _ _ core =>
      refine calm (Calm.silent core.log_eq core.connWindow_eq core.initial_eq core.frameSize_eq
        core.panicked_eq ?_)
      unfold windowsOf
      rw [core.streams_eq]
  | quiet _ change quiet =>
      exact calm (Calm.silent rfl rfl rfl rfl rfl
        (mapStreams_windows session fun stream => ⟨(quiet stream).id_eq, (quiet stream).window_eq⟩))
  | orphan _ block nobody => exact calm (Calm.silent rfl rfl rfl rfl rfl rfl)
  | fail _ error => exact failed (List.append_nil _).symm (fun _ isIn => by cases isIn) rfl rfl
  | dead _ _ _ failedAfter log panicked =>
      exact failed (log.trans (List.append_nil _).symm) (fun _ isIn => by cases isIn) panicked
        failedAfter
  | panic _ value increment _ window small misfit =>
      rw [inv.credit.noPanic window small] at misfit
      cases misfit
  | reject _ frame error =>
      have noted : ∀ event ∈ [Event.received frame], ∀ before,
          SendFits before event ∧ GrantSaid before event := by
        intro event isIn before
        rw [List.mem_singleton.mp isIn]
        exact ⟨trivial, trivial⟩
      exact failed rfl noted rfl rfl
  | inert _ frame kind =>
      have quiet : (Event.received frame).Calm := by
        rintro ⟨isSettings, notAck⟩
        rw [kind.2.2.2.2 isSettings] at notAck
        cases notAck
      exact calm (Calm.one quiet rfl rfl rfl rfl rfl rfl)
  | settings _ frame _ kind notAck => exact settings_windows inv good kind notAck ids
  | grantConn _ increment _ said fits =>
      refine ⟨good.grant said rfl rfl, fun alive => ?_⟩
      exact ⟨ids alive, grantConn_credit inv.credit inv.ids fits, inv.initial.trans
        (announced_granted _ _ _ _ _).symm, inv.frameSize.trans (announced_granted _ _ _ _ _).symm⟩
  | grantStream _ stream increment _ found said fits =>
      refine ⟨good.grant said rfl rfl, fun alive => ?_⟩
      exact ⟨ids alive, grantStream_credit inv.credit inv.ids found fits, inv.initial.trans
        (announced_granted _ _ _ _ _).symm, inv.frameSize.trans (announced_granted _ _ _ _ _).symm⟩
  | reset _ id code => exact calm (rstStream_calm session id code).choose_spec
  | recvEnd _ id change each =>
      refine calm (Calm.silent rfl rfl rfl rfl rfl (modify_windows session id fun stream => ?_))
      rcases each stream with same | ended
      · rw [same]
        exact ⟨rfl, rfl⟩
      · rw [ended]
        exact ⟨rfl, rfl⟩
  | keepHeaders _ frame fragment stream change kind _ _ _ _ quiet =>
      exact calm (Calm.one (Event.calm_received (by simp [kind])) rfl rfl rfl rfl rfl
        (modify_windows session frame.streamId fun stream =>
          ⟨(quiet stream).id_eq, (quiet stream).window_eq⟩))
  | keepOrphan _ frame fragment kind =>
      exact calm (Calm.one (Event.calm_received (by simp [kind])) rfl rfl rfl rfl rfl rfl)
  | readHeaders _ frame fragment table kind =>
      exact calm (Calm.one (Event.calm_received (by simp [kind])) rfl rfl rfl rfl rfl rfl)
  | keepMore _ frame kind =>
      exact calm (Calm.one (Event.calm_received (by simp [kind])) rfl rfl rfl rfl rfl
        (modify_windows session frame.streamId fun _ => ⟨rfl, rfl⟩))
  | keepMoreOrphan _ frame kind =>
      exact calm (Calm.one (Event.calm_received (by simp [kind])) rfl rfl rfl rfl rfl rfl)
  | readMore _ frame table kind =>
      exact calm (Calm.one (Event.calm_received (by simp [kind])) rfl rfl rfl rfl rfl rfl)
  | dataUncounted _ frame kind =>
      exact calm (Calm.one (Event.calm_received (by simp [kind])) rfl rfl rfl rfl rfl rfl)
  | dataEarly _ frame _ kind stream found =>
      have counted : Calm session (session.countConn frame) _ :=
        Calm.one (Event.calm_received (by simp [kind])) rfl rfl rfl rfl rfl rfl
      obtain ⟨events, reset⟩ := rstStream_calm (session.countConn frame) stream.id .protocolError
      exact calm (counted.trans reset)
  | dataCounted _ frame kind stream found =>
      exact calm (Calm.one (Event.calm_received (by simp [kind])) rfl rfl rfl rfl rfl
        (modify_windows session stream.id fun _ => ⟨rfl, rfl⟩))
  | resetIgnored _ frame kind used =>
      exact calm (Calm.one (Event.calm_received (by simp [kind])) rfl rfl rfl rfl rfl rfl)
  | resetReceived _ frame kind stream found =>
      exact calm (Calm.one (Event.calm_received (by simp [kind])) rfl rfl rfl rfl rfl
        (modify_windows session stream.id fun _ => ⟨rfl, rfl⟩))
  | endWithheld _ stream _ found =>
      exact calm (Calm.one (endFrame_calm stream.id) rfl rfl rfl rfl rfl
        (modify_windows session stream.id fun _ => ⟨rfl, rfl⟩))
  | control _ frame kind onConn =>
      have quiet : (Event.wrote frame).Calm := by
        intro isData
        rw [isData] at kind
        simp at kind
      exact calm (Calm.one quiet rfl rfl rfl rfl rfl rfl)
  | preface _ =>
      have quiet (frames : List Frame) : (Event.preface frames).Calm := trivial
      exact calm (Calm.one (quiet _) rfl rfl rfl rfl rfl rfl)
  | sendData _ stream last chunk _ found opened fits =>
      obtain ⟨sentGood, sentInv⟩ := writeData_windows inv good last found fits
      have close : Calm (session.writeData stream.id last chunk)
          ((session.writeData stream.id last chunk).modify stream.id fun stream =>
            if last then stream.sentEndStream else stream) [] :=
        Calm.silent rfl rfl rfl rfl rfl (closeWith_windows _ stream.id last)
      exact ⟨close.good sentGood, fun alive => close.inv sentInv (ids alive)⟩
  | ackConn _ _ =>
      have quiet (id increment : ℕ) : (Event.wrote (windowUpdateFrame id increment)).Calm :=
        fun isData => by cases isData
      exact calm (Calm.one (quiet _ _) rfl rfl rfl rfl rfl rfl)
  | ackStream _ stream _ found =>
      have quiet (id increment : ℕ) : (Event.wrote (windowUpdateFrame id increment)).Calm :=
        fun isData => by cases isData
      exact calm (Calm.one (quiet _ _) rfl rfl rfl rfl rfl
        (modify_windows session stream.id fun _ => ⟨rfl, rfl⟩))
  | openStream _ stream fresh =>
      exact ⟨⟨good.fits, good.said, good.calm⟩, fun _ => openStream_inv inv fresh⟩
  | openRequest _ stream _ fresh size block ends =>
      have added : WindowGood (session.addStream stream) := ⟨good.fits, good.said, good.calm⟩
      obtain ⟨queued, wrote⟩ := foldl_writeFrame (session.addStream stream)
        (headerFrames size stream.id ends true block)
      rw [wrote] at ids ⊢
      have framed : Calm (session.addStream stream) _ _ := headers_calm stream ends size block queued
      exact ⟨framed.good added, fun alive => framed.inv (openStream_inv inv fresh) (ids alive)⟩
  | remove _ id => exact calm (removeStream_calm session id)

/-! ### Every run -/

theorem WindowInv.fresh (table : σ) : WindowInv (Session.fresh table) where
  ids := Ids.fresh table
  credit :=
    { conn := rfl
      connLow := show (0 : ℤ) ≤ defaultWindowSize by decide
      connHigh := show (defaultWindowSize : ℤ) ≤ maxWindowSize by decide
      initialHigh := show defaultWindowSize ≤ maxWindowSize by decide
      frameSizeHigh := show defaultMaxFrameSize ≤ maxFrameSize by decide
      each := fun _ isIn => by cases isIn }
  initial := rfl
  frameSize := rfl

theorem Path.windows {allowed : Label → Prop} {table : σ}
    (path : Path hpack allowed (Session.fresh table) session) :
    WindowGood session ∧ (session.fatalError = none → WindowInv session) := by
  refine path.always WindowGood WindowInv ⟨eachEntry_nil _, eachEntry_nil _, rfl⟩
    (fun _ => WindowInv.fresh table) ?_ ?_
  · intro label session after _ act _ inv good
    exact act.windows inv good
  · intro session after panicked log good
    obtain ⟨events, isLog, harmless⟩ := log
    exact good.append (fun event isIn => (harmless event isIn).fits) isLog panicked

def anyLabel (_ : Label) : Prop := True

theorem Reachable.path {taken : Session σ → Frame → Prop} {table : σ}
    (reachable : Reachable hpack taken table session) :
    Path hpack anyLabel (Session.fresh table) session :=
  Run.path trivial (fun _ _ _ _ => trivial) (fun _ _ _ _ => trivial) (fun _ _ _ _ => trivial) reachable

/-- Flow control, in every run: the windows are what the log says and stay in the range of
their type, and every DATA frame went out under both. -/
theorem reachable_sendWindows (hpack : Hpack σ) (table : σ) {session : Session σ}
    (reachable : Reachable hpack anyFrame table session) :
    (session.fatalError = none →
      session.connSendWindow = connWindow session.log ∧
        (∀ stream ∈ session.streams, stream.sendWindow = streamWindow stream.id session.log) ∧
        session.remoteMaxFrameSize = announcedFrameSize session.log ∧
        ∀ window, (window = session.connSendWindow ∨
          ∃ stream ∈ session.streams, window = stream.sendWindow) →
            -(2 ^ 31 - 1) ≤ window ∧ window ≤ 2 ^ 31 - 1) ∧
      EachEntry SendFits session.log ∧ EachEntry GrantSaid session.log ∧
      session.panicked = false := by
  obtain ⟨good, inv⟩ := reachable.path.windows
  refine ⟨fun alive => ?_, good.fits, good.said, good.calm⟩
  obtain ⟨_, credit, initial, frameSize⟩ := inv alive
  refine ⟨credit.conn, fun stream isIn => ?_, frameSize, fun window isWindow => credit.fits isWindow⟩
  have window := (credit.each stream isIn).window
  rw [initial] at window
  exact window

def noFields : Hpack Unit where
  decode := fun _ _ => none
  next_pos := by
    intro table input field table' isField
    cases isField

def settingsFrame (setting value : ℕ) : Frame where
  kind := .settings
  streamId := 0
  payload := encodeSetting setting value

/-- The initial size is lowered while two of three bytes are on their way. -/
def lowered : Session Unit :=
  (((Session.fresh ()).dispatchFrame noFields (settingsFrame settingsInitialWindowSize 2)).attach
    { block := some [0x82], body := .bytes [1, 2, 3] } []).dispatchFrame noFields
      (settingsFrame settingsInitialWindowSize 1)

theorem lowered_reachable : Reachable noFields anyFrame () lowered :=
  (((Run.refl _).step (Step.frame _ _ rfl trivial)).step (Step.attach _ _ (by decide +kernel))).step
    (Step.frame _ _ (by decide +kernel) trivial)

theorem reachable_sendWindows_lowered :
    lowered.streams.map (·.sendWindow) = [-1] ∧ lowered.connSendWindow = 65533 ∧
      connWindow lowered.log = 65533 ∧ EachEntry SendFits lowered.log := by
  have conn : lowered.connSendWindow = 65533 := by decide +kernel
  obtain ⟨windows, fits, _⟩ := reachable_sendWindows noFields () lowered_reachable
  exact ⟨by decide +kernel, conn, (windows (by decide +kernel)).1.symm.trans conn, fits⟩

end Bun.Http2
