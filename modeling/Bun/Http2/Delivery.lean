/-
Attaching requests, delivering responses, and the entry points of a session.

What the session asks of the world outside it comes in as answers: whether the socket
takes bytes, and what a client makes of headers and body.
-/

import Bun.Http2.Dispatch
import Bun.Http2.Encode

set_option autoImplicit false

namespace Bun.Http2

open Bun.Foundation

namespace Session

variable {σ : Type}

def goawayFrame (error : Error) : Frame where
  kind := .goaway
  streamId := 0
  payload := BigEndian.toBytes 4 0 ++ BigEndian.toBytes 4 (errorCodeFor error).value

def failAll (session : Session σ) (error : Error) (alive : Bool) : Session σ :=
  let failed := { session with fatalError := some (session.fatalError.getD error) }
  let said := if alive then failed.writeFrame (goawayFrame error) else failed
  { said with streams := [], pendingAttach := [] }

def FlushAnswer.alive : FlushAnswer → Bool
  | .takes _ => true
  | .fails alive => alive

/-- Drains and flushes until nothing is left or the socket takes no more.  There is one
answer of the socket for each round. -/
def pumpSendBodies (session : Session σ) : List FlushAnswer → Session σ
  | [] => session
  | answer :: answers =>
      let (more, drained) := session.drainSendBodies
      match drained.flush answer with
      | none => drained.failAll .writeFailed answer.alive
      | some (backpressured, flushed) =>
          if !more || backpressured then flushed else pumpSendBodies flushed answers

def writeRequest (session : Session σ) (id : ℕ) (request : Request) (block : List UInt8) :
    Session σ :=
  let session := { session with pendingHpackEncCapacity := none }
  let inlineBody := request.body ≠ .bytes [] ∧ request.body.isStreaming = false
  let streaming := request.body.isStreaming
  let waits := request.expectContinue && (inlineBody || streaming)
  let opened := session.modify id fun stream => { stream with awaitingContinue := waits }
  let framed := opened.writeHeaderBlock id block (!inlineBody && !streaming)
  if inlineBody then framed.drainSendBody id noCap
  else if streaming then framed
  else framed.modify id Stream.sentEndStream

def attach (session : Session σ) (request : Request) (answers : List FlushAnswer) : Session σ :=
  let id := session.nextStreamId
  let stream : Stream :=
    { id, sendWindow := min session.remoteInitialWindowSize maxWindowSize, body := request.body }
  let added :=
    { session with
      streams := session.streams ++ [stream]
      nextStreamId := session.nextStreamId + 2 }
  let opened := if session.prefaceSent then added else added.writePreface
  if request.compressFails then opened.removeStream id
  else
    match request.block with
    | none => { opened.removeStream id with encoderPoisoned := true, pendingAttach := [] }
    | some block => (opened.writeRequest id request block).pumpSendBodies answers

/-- The parked requests, once the settings of the server are known. -/
def attachAll (session : Session σ) : List (Request × List FlushAnswer) → Session σ
  | [] => session
  | (request, answers) :: rest =>
      if session.fatalError.isSome || request.aborted || !session.hasHeadroom then
        session.attachAll rest
      else (session.attach request answers).attachAll rest

def drainPending (session : Session σ) (answers : List (List FlushAnswer)) : Session σ :=
  if !session.settingsReceived || session.pendingAttach.isEmpty then session
  else
    { session with pendingAttach := [] }.attachAll (session.pendingAttach.zip answers)

/-- Resets a stream, fails its request and removes it. -/
def detachWithFailure (session : Session σ) (id : ℕ) (answer : FlushAnswer) : Session σ :=
  ((session.rstStream id .cancel).flushQuietly answer).removeStream id

/-! ### Delivery -/

/-- What a client answers while its stream is delivered. -/
structure ClientAnswers where
  aborted : Bool := false
  /-- `apply_multiplexed_headers` fails. -/
  headersFail : Bool := false
  redirect : Bool := false
  /-- No body is expected after the headers. -/
  finished : Bool := false
  doneAfterHeaders : Bool := false
  /-- The client is past the headers. -/
  inBody : Bool := true
  bodyFails : Bool := false
  reports : Bool := false
  doneAfterBody : Bool := false
  retries : Bool := false
  eofFails : Bool := false
  contentLength : Option ℕ := none

inductive Outcome where
  | nothing
  | progress
  | succeeded
  | failed (error : Error)
  | retried
  | redirected
deriving DecidableEq, Repr

def finishStream (stream : Stream) (contentLength : Option ℕ) : Outcome :=
  match contentLength with
  | some length =>
      if stream.dataBytesReceived ≠ length then .failed .contentLengthMismatch else .succeeded
  | none => .succeeded

def cancel (session : Session σ) (id : ℕ) (answer : FlushAnswer) : Session σ :=
  ((session.rstStream id .cancel).flushQuietly answer).modify id fun stream =>
    { stream with hasClient := false }

def release (session : Session σ) (id : ℕ) : Session σ :=
  session.modify id fun stream => { stream with hasClient := false }

/-- The body part of a delivery: whether the stream is finished, and what is told. -/
def deliverBody (session : Session σ) (stream : Stream) (answers : ClientAnswers)
    (answer : FlushAnswer) : Bool × Outcome × Session σ :=
  let id := stream.id
  if !answers.inBody then (false, .nothing, session)
  else if !stream.bodyBuffer.isEmpty then
    let taken := session.modify id fun stream => { stream with bodyBuffer := [] }
    if answers.bodyFails then (true, .failed .other, taken.cancel id answer)
    else if stream.remoteClosed then
      (true, finishStream stream answers.contentLength, taken.release id)
    else if answers.reports && answers.doneAfterBody then (true, .succeeded, taken.release id)
    else (false, if answers.reports then .progress else .nothing, taken)
  else if stream.remoteClosed then
    (true, if answers.eofFails then .failed .other else finishStream stream answers.contentLength,
      session.release id)
  else (false, .nothing, session)

/-- Delivers what is ready, and returns whether the stream is finished. -/
def deliverStream (session : Session σ) (id : ℕ) (answers : ClientAnswers)
    (answer : FlushAnswer) : Bool × Outcome × Session σ :=
  match session.find id with
  | none => (true, .nothing, session)
  | some stream =>
      if !stream.hasClient then (true, .nothing, session)
      else if answers.aborted then (true, .failed .aborted, session.cancel id answer)
      else
        match stream.fatalError with
        | some error =>
            (true,
              if error = .refusedStream ∧ stream.statusCode = 0 ∧ answers.retries ∧
                  stream.body.isStreaming = false then .retried
              else .failed error,
              session.release id)
        | none =>
            if stream.headersReady then
              let taken := session.modify id fun stream => { stream with headersReady := false }
              if answers.headersFail then (true, .failed .other, taken.cancel id answer)
              else if answers.redirect then (true, .redirected, taken.cancel id answer)
              else if answers.finished || (stream.remoteClosed && stream.bodyBuffer.isEmpty) ||
                  answers.doneAfterHeaders then
                (true,
                  finishStream stream (if answers.finished then some 0 else answers.contentLength),
                  taken.release id)
              else taken.deliverBody stream answers answer
            else session.deliverBody stream answers answer

/-- The delivery loop: a stream that is finished is reset if it is still open, and removed;
the entry that takes its place is looked at next. -/
def deliverAll (clients : ℕ → ClientAnswers) (answer : FlushAnswer) :
    ℕ → ℕ → Session σ → Session σ
  | 0, _, session => session
  | steps + 1, index, session =>
      match session.streams[index]? with
      | none => session
      | some stream =>
          match session.deliverStream stream.id (clients stream.id) answer with
          | (false, _, delivered) => deliverAll clients answer steps (index + 1) delivered
          | (true, _, delivered) =>
              deliverAll clients answer steps index
                ((delivered.rstStream stream.id .cancel).removeStream stream.id)

/-! ### Receive windows -/

def replenishThreshold : ℕ := localInitialWindowSize / 2

def replenishStream (paused : ℕ → Bool) (session : Session σ) (id : ℕ) : Session σ :=
  match session.find id with
  | none => session
  | some stream =>
      if stream.unackedBytes < replenishThreshold || stream.remoteClosed then session
      else if stream.hasClient && paused id then session
      else
        (session.modify id fun stream => { stream with unackedBytes := 0 }).writeWindowUpdate id
          stream.unackedBytes

def replenishConn (session : Session σ) : Session σ :=
  if session.connUnackedBytes ≥ replenishThreshold then
    { session.writeWindowUpdate 0 session.connUnackedBytes with connUnackedBytes := 0 }
  else session

def replenishWindow (session : Session σ) (paused : ℕ → Bool) : Session σ :=
  (session.streams.map (·.id)).foldl (replenishStream paused) session.replenishConn

/-! ### Entry points -/

/-- The world's part in one `handle_data`. -/
structure DataAnswers where
  parsed : FlushAnswer := .takes 0
  alive : Bool := true
  attached : List (List FlushAnswer) := []
  pumped : List FlushAnswer := [.takes 0]
  clients : ℕ → ClientAnswers := fun _ => {}
  delivered : FlushAnswer := .takes 0
  paused : ℕ → Bool := fun _ => false
  replenished : FlushAnswer := .takes 0
  /-- Requests that deliveries sent back to this session. -/
  parked : List Request := []
  reattached : List (List FlushAnswer) := []
  ended : FlushAnswer := .takes 0

def parseIncoming (hpack : Hpack σ) (session : Session σ) (incoming : List UInt8) : Session σ :=
  let session := { session with streamProgressed := false }
  if session.readBuffer.isEmpty then
    let (consumed, parsed) := session.parseFrames hpack incoming
    if consumed < incoming.length && parsed.fatalError.isNone then
      { parsed with readBuffer := incoming.drop consumed }
    else parsed
  else
    let buffer := session.readBuffer ++ incoming
    let (consumed, parsed) := session.parseFrames hpack buffer
    { parsed with readBuffer := buffer.drop consumed }

/-- After the frames: parked requests are attached and bodies are sent. -/
def sendAfterData (session : Session σ) (answers : DataAnswers) : Session σ :=
  let attached := session.drainPending answers.attached
  if attached.fatalError.isSome then attached else attached.pumpSendBodies answers.pumped

/-- Every stream is delivered, and what was received is granted again. -/
def deliverAndReplenish (session : Session σ) (answers : DataAnswers) : Session σ :=
  let delivered :=
    deliverAll answers.clients answers.delivered (session.streams.length + 1) 0 session
  (delivered.replenishWindow answers.paused).flushQuietly answers.replenished

/-- Requests that were sent back to the session are attached. -/
def reattach (session : Session σ) (answers : DataAnswers) : Session σ :=
  let parked := { session with pendingAttach := session.pendingAttach ++ answers.parked }
  if parked.pendingAttach.isEmpty then parked
  else
    let attached := parked.drainPending answers.reattached
    if attached.fatalError.isSome then attached
    else
      match attached.flush answers.ended with
      | none => attached.failAll .writeFailed answers.ended.alive
      | some (_, flushed) => flushed

def handleData (hpack : Hpack σ) (session : Session σ) (incoming : List UInt8)
    (answers : DataAnswers) : Session σ :=
  let parsed := session.parseIncoming hpack incoming
  let flushed :=
    match parsed.flush answers.parsed with
    | none => parsed.fail .writeFailed
    | some (_, flushed) => flushed
  match flushed.fatalError with
  | some error => flushed.failAll error answers.alive
  | none =>
      let sent := flushed.sendAfterData answers
      if sent.fatalError.isSome then sent
      else (sent.deliverAndReplenish answers).reattach answers

/-- The socket takes bytes again.  Requests that were aborted in the meantime go. -/
def handleWritable (session : Session σ) (answers : List FlushAnswer) (aborted : ℕ → Bool)
    (answer : FlushAnswer) : Session σ :=
  let pumped := session.pumpSendBodies answers
  if pumped.fatalError.isSome then pumped
  else
    ((pumped.streams.filter fun stream => stream.hasClient && aborted stream.id).map (·.id)).foldl
      (fun session id => session.detachWithFailure id answer) pumped

def pingFrame : Frame where
  kind := .ping
  streamId := 0
  payload := [0, 0, 0, 0, 0, 0, 0, 0]

/-- A PING after an abort on a connection that has been silent. -/
def probeLiveness (session : Session σ) (silent : Bool) (answer : FlushAnswer) : Session σ :=
  if session.awaitingPingAck || !silent then session
  else if session.livenessPingSpent then { session with goawayReceived := true }
  else
    let pinged := { session with livenessPingSpent := true }.writeFrame pingFrame
    match pinged.flush answer with
    | none => { pinged with awaitingPingAck := false }
    | some (_, flushed) => { flushed with awaitingPingAck := true }

def abortRequest (session : Session σ) (id : ℕ) (silent : Bool) (answer : FlushAnswer) :
    Session σ :=
  (session.detachWithFailure id answer).probeLiveness silent answer

def feedBody (session : Session σ) (id : ℕ) (bytes : List UInt8) : Session σ :=
  session.modify id fun stream =>
    match stream.body with
    | .bytes _ => stream
    | .stream buffer ended detached =>
        { stream with body := .stream (buffer ++ bytes) ended detached }

inductive WriteMessage where
  | data
  | ended
  | lengthMismatch
deriving DecidableEq, Repr

def streamRequestBody (session : Session σ) (id : ℕ) (message : WriteMessage)
    (answers : List FlushAnswer) (answer : FlushAnswer) : Session σ :=
  match session.find id with
  | none => session
  | some stream =>
      match stream.hasClient, stream.body with
      | true, .stream _ _ _ =>
          let marked := session.modify id fun stream =>
            match stream.body with
            | .bytes _ => stream
            | .stream buffer _ detached =>
                { stream with body := .stream buffer (message = .ended) detached }
          if message = .lengthMismatch then marked.detachWithFailure id answer
          else (marked.drainSendBody id noCap).pumpSendBodies answers
      | _, _ => session

def resumeReceive (session : Session σ) (paused : ℕ → Bool) (answer : FlushAnswer) :
    Session σ :=
  let granted := session.replenishWindow paused
  match granted.flush answer with
  | none => granted.failAll .writeFailed answer.alive
  | some (_, flushed) => flushed

def onIdleData (hpack : Hpack σ) (session : Session σ) (incoming : List UInt8)
    (answer : FlushAnswer) : Session σ :=
  let buffer := session.readBuffer ++ incoming
  let (consumed, parsed) := session.parseFrames hpack buffer
  let kept := { parsed with readBuffer := buffer.drop consumed }
  match kept.flush answer with
  | none => kept.fail .writeFailed
  | some (_, flushed) => flushed

/-- Parks a request, or attaches it if there is room.  Otherwise it goes elsewhere. -/
def adoptClient (session : Session σ) (request : Request) (answers : List FlushAnswer) :
    Session σ :=
  if !session.settingsReceived then
    { session with pendingAttach := session.pendingAttach ++ [request] }
  else if !session.hasHeadroom then session
  else session.attach request answers

inductive Call where
  | adopt (request : Request) (answers : List FlushAnswer)
  | data (incoming : List UInt8) (answers : DataAnswers)
  | idleData (incoming : List UInt8) (answer : FlushAnswer)
  | writable (answers : List FlushAnswer) (aborted : ℕ → Bool) (answer : FlushAnswer)
  | abort (id : ℕ) (silent : Bool) (answer : FlushAnswer)
  | feed (id : ℕ) (bytes : List UInt8)
  | streamBody (id : ℕ) (message : WriteMessage) (answers : List FlushAnswer)
      (answer : FlushAnswer)
  | resume (paused : ℕ → Bool) (answer : FlushAnswer)

def call (hpack : Hpack σ) (session : Session σ) : Call → Session σ
  | .adopt request answers => session.adoptClient request answers
  | .data incoming answers => session.handleData hpack incoming answers
  | .idleData incoming answer => session.onIdleData hpack incoming answer
  | .writable answers aborted answer => session.handleWritable answers aborted answer
  | .abort id silent answer => session.abortRequest id silent answer
  | .feed id bytes => session.feedBody id bytes
  | .streamBody id message answers answer => session.streamRequestBody id message answers answer
  | .resume paused answer => session.resumeReceive paused answer

def calls (hpack : Hpack σ) (session : Session σ) : List Call → Session σ
  | [] => session
  | next :: rest =>
      if session.fatalError.isSome then session else (session.call hpack next).calls hpack rest

end Session

end Bun.Http2
