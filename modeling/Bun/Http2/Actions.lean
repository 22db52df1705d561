/-
What a session can do, one action at a time.

The code is a few large functions.  Each of them runs through actions from the list here,
and a property of all runs is shown to be kept by every action.
-/

import Mathlib.Logic.Relation
import Bun.Http2.Delivery

set_option autoImplicit false

namespace Bun.Http2

open Bun.Foundation Session

variable {σ : Type}

structure Session.SameCore (session after : Session σ) : Prop where
  hpack_eq : after.hpack = session.hpack
  streams_eq : after.streams = session.streams
  next_eq : after.nextStreamId = session.nextStreamId
  expecting_eq : after.expectingContinuation = session.expectingContinuation
  orphan_eq : after.orphanHeaderBlock = session.orphanHeaderBlock
  fatal_eq : after.fatalError = session.fatalError
  frameSize_eq : after.remoteMaxFrameSize = session.remoteMaxFrameSize
  initial_eq : after.remoteInitialWindowSize = session.remoteInitialWindowSize
  connWindow_eq : after.connSendWindow = session.connSendWindow
  connUnacked_eq : after.connUnackedBytes = session.connUnackedBytes
  log_eq : after.log = session.log
  panicked_eq : after.panicked = session.panicked

theorem Session.SameCore.refl (session : Session σ) : SameCore session session :=
  ⟨rfl, rfl, rfl, rfl, rfl, rfl, rfl, rfl, rfl, rfl, rfl, rfl⟩

/-- A change of a stream that touches neither its state nor its windows, and forgets no
error. -/
structure Stream.Quiet (stream after : Stream) : Prop where
  id_eq : after.id = stream.id
  state_eq : after.state = stream.state
  rstDone_eq : after.rstDone = stream.rstDone
  unacked_eq : after.unackedBytes = stream.unackedBytes
  window_eq : after.sendWindow = stream.sendWindow
  error_kept : stream.fatalError.isSome = true → after.fatalError.isSome = true

theorem Stream.Quiet.refl (stream : Stream) : stream.Quiet stream :=
  ⟨rfl, rfl, rfl, rfl, rfl, fun known => known⟩

namespace Session

def mapStreams (session : Session σ) (change : Stream → Stream) : Session σ :=
  { session with streams := session.streams.map change }

def countConn (session : Session σ) (frame : Frame) : Session σ :=
  { session.record (.received frame) with
    connUnackedBytes := saturatingAdd session.connUnackedBytes frame.length }

def Said (session : Session σ) (id increment : ℕ) : Prop :=
  ∃ frame, session.log.getLast? = some (.received frame) ∧ frame.kind = .windowUpdate ∧
    frame.streamId = id ∧ uint31 frame.payload = increment

def addStream (session : Session σ) (stream : Stream) : Session σ :=
  { session with
    streams := session.streams ++ [stream]
    nextStreamId := session.nextStreamId + 2 }

end Session

structure Stream.Fresh (stream : Stream) (session : Session σ) : Prop where
  id_eq : stream.id = session.nextStreamId
  id_lt : stream.id < maxStreamId
  state_eq : stream.state = .opened
  rstDone_eq : stream.rstDone = false
  unacked_eq : stream.unackedBytes = 0
  window_eq : stream.sendWindow = min (session.remoteInitialWindowSize : ℤ) maxWindowSize
  block_eq : stream.headerBlock = []

/-- Some actions need to be told from all others: those that take DATA, the end of a body
on a stream that is closed for writing, and a reset that takes an error away. -/
inductive Label where
  | plain
  | counts
  | endsClosed
  | erases
deriving DecidableEq

def endLabel (stream : Stream) : Label :=
  if stream.localClosed then .endsClosed else .plain

def resetLabel (stream : Stream) (frame : Frame) : Label :=
  if stream.fatalError.isSome ∧
      resetError (BigEndian.ofBytes frame.payload) stream.remoteClosed = none then .erases
  else .plain

inductive Act (hpack : Hpack σ) : Label → Session σ → Session σ → Prop where
  | tune (session after : Session σ) (same : SameCore session after) : Act hpack .plain session after
  | quiet (session : Session σ) (change : Stream → Stream)
      (quiet : ∀ stream : Stream, stream.Quiet (change stream))
      (block : ∀ stream : Stream, (change stream).headerBlock = stream.headerBlock ∨
        session.expectingContinuation ≠ stream.id ∨ session.expectingContinuation = 0) :
      Act hpack .plain session (session.mapStreams change)
  | orphan (session : Session σ) (block : List UInt8) (nobody : session.expectingContinuation = 0) :
      Act hpack .plain session { session with orphanHeaderBlock := block }
  | fail (session : Session σ) (error : Error) : Act hpack .plain session (session.fail error)
  | dead (session after : Session σ) (failed : session.fatalError.isSome = true)
      (failedAfter : after.fatalError.isSome = true) (log : after.log = session.log)
      (panicked : after.panicked = session.panicked) : Act hpack .plain session after
  | panic (session : Session σ) (value : ℤ) (increment : ℕ) (alive : session.fatalError = none)
      (window : value = session.connSendWindow ∨ ∃ stream ∈ session.streams, value = stream.sendWindow)
      (small : value + increment ≤ maxWindowSize) (misfit : fitsI32 (value + increment) = false) :
      Act hpack .plain session { session with panicked := true }
  | reject (session : Session σ) (frame : Frame) (error : Error) :
      Act hpack .plain session ((session.record (.received frame)).fail error)
  | inert (session : Session σ) (frame : Frame)
      (kind : frame.kind ≠ .data ∧ frame.kind ≠ .headers ∧ frame.kind ≠ .continuation ∧
        frame.kind ≠ .rstStream ∧ (frame.kind = .settings → frame.isAck = true)) :
      Act hpack .plain session (session.record (.received frame))
  | settings (session : Session σ) (frame : Frame) (alive : session.fatalError = none)
      (kind : frame.kind = .settings) (notAck : frame.isAck = false) :
      Act hpack .plain session
        ((session.record (.received frame)).applySettings (settingsUnits frame.payload))
  | grantConn (session : Session σ) (increment : ℕ) (alive : session.fatalError = none)
      (said : session.Said 0 increment)
      (fits : session.connSendWindow + increment ≤ maxWindowSize) :
      Act hpack .plain session
        { session.record (.granted 0 increment) with
          connSendWindow := session.connSendWindow + increment }
  | grantStream (session : Session σ) (stream : Stream) (increment : ℕ)
      (alive : session.fatalError = none)
      (found : session.find stream.id = some stream) (said : session.Said stream.id increment)
      (fits : stream.sendWindow + increment ≤ maxWindowSize) :
      Act hpack .plain session
        ((session.modify stream.id fun stream' =>
          { stream' with sendWindow := stream.sendWindow + increment }).record
            (.granted stream.id increment))
  | reset (session : Session σ) (id : ℕ) (code : ErrorCode) (alive : session.fatalError = none) :
      Act hpack .plain session (session.rstStream id code)
  | recvEnd (session : Session σ) (id : ℕ) (change : Stream → Stream)
      (each : ∀ stream : Stream, change stream = stream ∨ change stream = stream.recvEndStream) :
      Act hpack .plain session (session.modify id change)
  | keepHeaders (session : Session σ) (frame : Frame) (fragment : List UInt8) (stream : Stream)
      (change : Stream → Stream) (kind : frame.kind = .headers)
      (isFragment : frame.fragment = some fragment) (incomplete : frame.endHeaders = false)
      (nobody : session.expectingContinuation = 0)
      (found : session.find frame.streamId = some stream)
      (quiet : ∀ stream : Stream, stream.Quiet (change stream))
      (block : ∀ stream, (change stream).headerBlock = fragment) :
      Act hpack .plain session
        { (session.record (.received frame)).modify frame.streamId change with
          expectingContinuation := frame.streamId }
  | keepOrphan (session : Session σ) (frame : Frame) (fragment : List UInt8)
      (kind : frame.kind = .headers) (isFragment : frame.fragment = some fragment)
      (incomplete : frame.endHeaders = false) (nobody : session.expectingContinuation = 0)
      (untracked : session.find frame.streamId = none) (notZero : frame.streamId ≠ 0)
      (used : frame.streamId < session.nextStreamId) :
      Act hpack .plain session
        { session.record (.received frame) with
          expectingContinuation := frame.streamId
          orphanHeaderBlock := fragment }
  | readHeaders (session : Session σ) (frame : Frame) (fragment : List UInt8) (table : σ)
      (kind : frame.kind = .headers) (isFragment : frame.fragment = some fragment)
      (complete : frame.endHeaders = true) (nobody : session.expectingContinuation = 0)
      (fed : feedBlock hpack session.hpack fragment = some table) :
      Act hpack .plain session { session.record (.received frame) with hpack := table }
  | keepMore (session : Session σ) (frame : Frame) (kind : frame.kind = .continuation)
      (expected : session.expectingContinuation = frame.streamId) (notZero : frame.streamId ≠ 0)
      (incomplete : frame.endHeaders = false) (stream : Stream)
      (found : session.find frame.streamId = some stream) :
      Act hpack .plain session
        ((session.record (.received frame)).modify frame.streamId fun stream =>
          { stream with headerBlock := stream.headerBlock ++ frame.payload })
  | keepMoreOrphan (session : Session σ) (frame : Frame) (kind : frame.kind = .continuation)
      (expected : session.expectingContinuation = frame.streamId) (notZero : frame.streamId ≠ 0)
      (incomplete : frame.endHeaders = false) (untracked : session.find frame.streamId = none) :
      Act hpack .plain session
        { session.record (.received frame) with
          orphanHeaderBlock := session.orphanHeaderBlock ++ frame.payload }
  | readMore (session : Session σ) (frame : Frame) (table : σ) (kind : frame.kind = .continuation)
      (expected : session.expectingContinuation = frame.streamId) (notZero : frame.streamId ≠ 0)
      (complete : frame.endHeaders = true)
      (fed : feedBlock hpack session.hpack
        (((session.find frame.streamId).map (·.headerBlock)).getD session.orphanHeaderBlock ++
          frame.payload) = some table) :
      Act hpack .plain session
        { session.record (.received frame) with expectingContinuation := 0, hpack := table }
  | dataUncounted (session : Session σ) (frame : Frame) (kind : frame.kind = .data)
      (used : session.find frame.streamId = none → frame.streamId < session.nextStreamId)
      (closed : ∀ stream, session.find frame.streamId = some stream → stream.remoteClosed = true) :
      Act hpack .counts session (session.countConn frame)
  | dataEarly (session : Session σ) (frame : Frame) (alive : session.fatalError = none)
      (kind : frame.kind = .data) (stream : Stream)
      (found : session.find frame.streamId = some stream) :
      Act hpack .counts session ((session.countConn frame).rstStream stream.id .protocolError)
  | dataCounted (session : Session σ) (frame : Frame) (kind : frame.kind = .data) (stream : Stream)
      (found : session.find frame.streamId = some stream) :
      Act hpack .counts session
        ((session.countConn frame).modify stream.id fun stream =>
          { stream with unackedBytes := saturatingAdd stream.unackedBytes frame.length })
  | resetIgnored (session : Session σ) (frame : Frame) (kind : frame.kind = .rstStream)
      (used : frame.streamId < session.nextStreamId)
      (done : ∀ stream, session.find frame.streamId = some stream → stream.rstDone = true) :
      Act hpack .plain session (session.record (.received frame))
  | resetReceived (session : Session σ) (frame : Frame) (kind : frame.kind = .rstStream)
      (stream : Stream) (found : session.find frame.streamId = some stream)
      (notDone : stream.rstDone = false) :
      Act hpack (resetLabel stream frame) session
        ((session.record (.received frame)).modify stream.id fun stream =>
          { stream with
            rstDone := true
            state := .closed
            fatalError := resetError (BigEndian.ofBytes frame.payload) stream.remoteClosed })
  | endWithheld (session : Session σ) (stream : Stream) (alive : session.fatalError = none)
      (found : session.find stream.id = some stream) :
      Act hpack (endLabel stream) session
        ((session.writeFrame (endDataFrame stream.id)).modify stream.id fun stream =>
          { stream with awaitingContinue := false }.sentEndStream)
  | control (session : Session σ) (frame : Frame)
      (kind : frame.kind = .settings ∨ frame.kind = .ping ∨ frame.kind = .goaway)
      (onConn : frame.streamId = 0) : Act hpack .plain session (session.writeFrame frame)
  | preface (session : Session σ) : Act hpack .plain session session.writePreface
  | sendData (session : Session σ) (stream : Stream) (last : Bool) (chunk : List UInt8)
      (alive : session.fatalError = none) (found : session.find stream.id = some stream)
      (opened : stream.localClosed = false)
      (fits : chunk ≠ [] → (chunk.length : ℤ) ≤ stream.sendWindow ∧
        (chunk.length : ℤ) ≤ session.connSendWindow ∧ chunk.length ≤ session.remoteMaxFrameSize) :
      Act hpack .plain session
        ((session.writeData stream.id last chunk).modify stream.id fun stream =>
          if last then stream.sentEndStream else stream)
  | ackConn (session : Session σ) (alive : session.fatalError = none)
      (due : replenishThreshold ≤ session.connUnackedBytes) :
      Act hpack .plain session
        { session.writeWindowUpdate 0 session.connUnackedBytes with connUnackedBytes := 0 }
  | ackStream (session : Session σ) (stream : Stream) (alive : session.fatalError = none)
      (found : session.find stream.id = some stream)
      (due : replenishThreshold ≤ stream.unackedBytes) (opened : stream.remoteClosed = false) :
      Act hpack .plain session
        ((session.modify stream.id fun stream => { stream with unackedBytes := 0 }).writeWindowUpdate
          stream.id stream.unackedBytes)
  | openStream (session : Session σ) (stream : Stream) (fresh : stream.Fresh session) :
      Act hpack .plain session (session.addStream stream)
  | openRequest (session : Session σ) (stream : Stream) (alive : session.fatalError = none)
      (fresh : stream.Fresh session) (size : ℕ) (block : List UInt8) (ends : Bool) :
      Act hpack .plain session
        (((headerFrames size stream.id ends true block).foldl writeFrame
          (session.addStream stream)).modify stream.id fun stream =>
            if ends then stream.sentEndStream else stream)
  | remove (session : Session σ) (id : ℕ) : Act hpack .plain session (session.removeStream id)

def Path (hpack : Hpack σ) (allowed : Label → Prop) : Session σ → Session σ → Prop :=
  Relation.ReflTransGen fun session after => ∃ label, allowed label ∧ Act hpack label session after

namespace Path

variable {hpack : Hpack σ} {allowed : Label → Prop} {session middle after : Session σ}

theorem refl (session : Session σ) : Path hpack allowed session session :=
  Relation.ReflTransGen.refl

theorem trans (first : Path hpack allowed session middle) (second : Path hpack allowed middle after) :
    Path hpack allowed session after :=
  Relation.ReflTransGen.trans first second

theorem single {label : Label} (isAllowed : allowed label) (act : Act hpack label session after) :
    Path hpack allowed session after :=
  Relation.ReflTransGen.single ⟨label, isAllowed, act⟩

theorem andThen (path : Path hpack allowed session middle) (plain : allowed .plain)
    (act : Act hpack .plain middle after) : Path hpack allowed session after :=
  path.trans (Path.single plain act)

end Path

end Bun.Http2
