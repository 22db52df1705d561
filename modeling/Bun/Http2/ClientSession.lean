/-
The state of an HTTP/2 client connection.

The session keeps the streams whose requests are under way.  The log is a record of the
connection, oldest entry first: what was written, what was received, and by how much a
send window was raised.  The code keeps no such record, it is what properties speak of.
-/

import Mathlib.Data.Int.Notation
import Bun.Http2.Wire

set_option autoImplicit false

namespace Bun.Http2

open Bun.Foundation

/-! ### Streams -/

inductive StreamState where
  | opened
  | halfClosedLocal
  | halfClosedRemote
  | closed
deriving DecidableEq, Repr

/-- A request body: bytes of which a suffix is still unsent, or a buffer that is being
filled. -/
inductive RequestBody where
  | bytes (pending : List UInt8)
  | stream (buffer : List UInt8) (ended detached : Bool)
deriving DecidableEq, Repr

def RequestBody.isStreaming : RequestBody → Bool
  | .bytes _ => false
  | .stream _ _ _ => true

structure Stream where
  id : ℕ
  hasClient : Bool := true
  headerBlock : List UInt8 := []
  bodyBuffer : List UInt8 := []
  decodedBytes : List UInt8 := []
  decodedHeaders : List (List UInt8 × List UInt8) := []
  /-- The final status, 0 until the response headers arrive. -/
  statusCode : ℕ := 0
  state : StreamState := .opened
  rstDone : Bool := false
  headersReady : Bool := false
  headersEndStream : Bool := false
  awaitingContinue : Bool := false
  fatalError : Option Error := none
  unackedBytes : ℕ := 0
  dataBytesReceived : ℕ := 0
  sendWindow : ℤ
  body : RequestBody
deriving DecidableEq, Repr

namespace Stream

def sentEndStream (stream : Stream) : Stream :=
  { stream with
    state := match stream.state with
      | .opened => .halfClosedLocal
      | .halfClosedRemote => .closed
      | other => other }

def recvEndStream (stream : Stream) : Stream :=
  { stream with
    state := match stream.state with
      | .opened => .halfClosedRemote
      | .halfClosedLocal => .closed
      | other => other }

def localClosed (stream : Stream) : Bool :=
  stream.state = .halfClosedLocal || stream.state = .closed

def remoteClosed (stream : Stream) : Bool :=
  stream.state = .halfClosedRemote || stream.state = .closed

end Stream

/-! ### The session -/

/-- A field that the HPACK decoder returns, with the number of bytes it took. -/
structure HpackField where
  name : List UInt8
  value : List UInt8
  next : ℕ

/-- The HPACK decoder, which is not part of the model.  It takes at least one byte when it
succeeds. -/
structure Hpack (σ : Type) where
  decode : σ → List UInt8 → Option (HpackField × σ)
  next_pos : ∀ table input field table', decode table input = some (field, table') →
    0 < field.next

inductive Event where
  | preface (frames : List Frame)
  | wrote (frame : Frame)
  | received (frame : Frame)
  | granted (streamId increment : ℕ)
deriving DecidableEq, Repr

/-- A request that is to be attached.  `block` is what the HPACK encoder makes of its
headers, unless it fails. -/
structure Request where
  block : Option (List UInt8)
  body : RequestBody := .bytes []
  expectContinue : Bool := false
  compressFails : Bool := false
  aborted : Bool := false

structure Session (σ : Type) where
  hpack : σ
  streams : List Stream := []
  nextStreamId : ℕ := 1
  /-- The stream whose header block is incomplete, 0 for none. -/
  expectingContinuation : ℕ := 0
  continuationCount : ℕ := 0
  pendingAttach : List Request := []
  readBuffer : List UInt8 := []
  prefaceSent : Bool := false
  settingsReceived : Bool := false
  goawayReceived : Bool := false
  goawayLastStreamId : ℕ := 0
  encoderPoisoned : Bool := false
  streamProgressed : Bool := false
  awaitingPingAck : Bool := false
  livenessPingSpent : Bool := false
  fatalError : Option Error := none
  orphanHeaderBlock : List UInt8 := []
  remoteMaxFrameSize : ℕ := defaultMaxFrameSize
  remoteMaxConcurrentStreams : ℕ := 100
  remoteInitialWindowSize : ℕ := defaultWindowSize
  pendingHpackEncCapacity : Option ℕ := none
  connSendWindow : ℤ := defaultWindowSize
  connUnackedBytes : ℕ := 0
  /-- The size of `write_buffer`. -/
  queued : ℕ := 0
  log : List Event := []
  /-- A checked integer cast has failed. -/
  panicked : Bool := false

namespace Session

variable {σ : Type}

def fitsI32 (value : ℤ) : Bool :=
  -2147483648 ≤ value && value ≤ 2147483647

def saturatingAdd (a b : ℕ) : ℕ :=
  min (a + b) 4294967295

def find (session : Session σ) (id : ℕ) : Option Stream :=
  session.streams.find? fun stream => stream.id == id

def modify (session : Session σ) (id : ℕ) (change : Stream → Stream) : Session σ :=
  { session with
    streams := session.streams.map fun stream => if stream.id = id then change stream else stream }

def fail (session : Session σ) (error : Error) : Session σ :=
  { session with fatalError := some error }

def record (session : Session σ) (event : Event) : Session σ :=
  { session with log := session.log ++ [event] }

def writeFrame (session : Session σ) (frame : Frame) : Session σ :=
  { session with
    log := session.log ++ [.wrote frame]
    queued := session.queued + frameHeaderSize + frame.length }

def rstFrame (id : ℕ) (code : ErrorCode) : Frame where
  kind := .rstStream
  streamId := id
  payload := BigEndian.toBytes 4 code.value

def rstStream (session : Session σ) (id : ℕ) (code : ErrorCode) : Session σ :=
  match session.find id with
  | none => session
  | some stream =>
      if stream.rstDone || stream.state = .closed then session
      else
        (session.modify id fun stream => { stream with rstDone := true, state := .closed }).writeFrame
          (rstFrame id code)

def windowUpdateFrame (id increment : ℕ) : Frame where
  kind := .windowUpdate
  streamId := id
  payload := BigEndian.toBytes 4 increment

def writeWindowUpdate (session : Session σ) (id increment : ℕ) : Session σ :=
  session.writeFrame (windowUpdateFrame id increment)

/-- The map keeps its entries in order, and fills the place of a removed one with the
last. -/
def swapRemove (id : ℕ) : List Stream → List Stream
  | [] => []
  | stream :: rest =>
      if stream.id = id then
        match rest.getLast? with
        | none => []
        | some last => last :: rest.dropLast
      else stream :: swapRemove id rest

/-- A header block that the stream has not received completely goes on without it. -/
def removeStream (session : Session σ) (id : ℕ) : Session σ :=
  match session.find id with
  | none => session
  | some stream =>
      { session with
        orphanHeaderBlock :=
          if session.expectingContinuation = id then stream.headerBlock
          else session.orphanHeaderBlock
        streams := swapRemove id session.streams }

def hasHeadroom (session : Session σ) : Bool :=
  !session.goawayReceived && !session.encoderPoisoned && !session.awaitingPingAck &&
    session.fatalError.isNone && session.streams.length < session.remoteMaxConcurrentStreams &&
    session.nextStreamId < maxStreamId

/-- What the socket does with the queued bytes: it takes some of them or fails, and may be
alive after that. -/
inductive FlushAnswer where
  | takes (bytes : ℕ)
  | fails (alive : Bool)
deriving DecidableEq, Repr

/-- Whether bytes are left, when the socket does not fail. -/
def flush (session : Session σ) (answer : FlushAnswer) : Option (Bool × Session σ) :=
  if session.queued = 0 then some (false, session)
  else
    match answer with
    | .fails _ => none
    | .takes taken =>
        let left := session.queued - min taken session.queued
        some (left != 0, { session with queued := left })

def flushQuietly (session : Session σ) (answer : FlushAnswer) : Session σ :=
  match session.flush answer with
  | none => session
  | some (_, flushed) => flushed

end Session

end Bun.Http2
