/-
Inbound frames.

Each frame is handled to its end before the next one.  A connection error is recorded on
the session, which then takes no more frames; an error of one stream is recorded on that
stream and is noticed when the stream is delivered.
-/

import Bun.Core.AsciiText
import Bun.Http2.ClientSession

set_option autoImplicit false

namespace Bun.Http2

open Bun.Foundation

/-! ### Response fields -/

def isFieldNameByte (c : UInt8) : Bool :=
  (0x61 ≤ c && c ≤ 0x7a) || (0x30 ≤ c && c ≤ 0x39) || (ascii "!#$%&'*+-.^_|~").contains c ||
    c == 0x60

def hopByHopFields : List (List UInt8) :=
  ["connection", "keep-alive", "proxy-connection", "te", "transfer-encoding", "upgrade"].map ascii

def isMalformedResponseField (name : List UInt8) : Bool :=
  name.isEmpty || !name.all isFieldNameByte || hopByHopFields.contains name

def isMalformedResponseValue (value : List UInt8) : Bool :=
  value.any fun c => c == 0x00 || c == 0x0d || c == 0x0a

def isFieldSpace (c : UInt8) : Bool :=
  c == 0x20 || c == 0x09

def trimResponseValue (value : List UInt8) : List UInt8 :=
  ((value.dropWhile isFieldSpace).reverse.dropWhile isFieldSpace).reverse

/-- Decimal digits, with `_` between them skipped. -/
def parseDigits : ℕ → List UInt8 → Option ℕ
  | acc, [] => some acc
  | acc, c :: rest =>
      if c = 0x5f then parseDigits acc rest
      else if 0x30 ≤ c && c ≤ 0x39 then parseDigits (acc * 10 + (c.toNat - 0x30)) rest
      else none

def parseUnsigned (digits : List UInt8) : Option ℕ :=
  if digits.isEmpty || digits.head? = some 0x5f || digits.getLast? = some 0x5f then none
  else parseDigits 0 digits

/-! ### Header blocks -/

structure Scan where
  status : ℕ := 0
  fields : List (List UInt8 × List UInt8) := []
  decoded : List UInt8
  untrimmed : ℕ
  seenRegular : Bool := false
  seenStatus : Bool := false
  malformed : Bool := false
deriving DecidableEq, Repr

namespace Scan

def start (decoded : List UInt8) : Scan where
  decoded := decoded
  untrimmed := decoded.length

def pseudo (statusCode : ℕ) (scan : Scan) (name value : List UInt8) : Scan :=
  if statusCode ≠ 0 || scan.seenRegular || scan.seenStatus || name ≠ ascii ":status" then
    { scan with malformed := true }
  else
    let status := if value.length = 3 then (parseUnsigned value).getD 0 else 0
    { scan with
      seenStatus := true
      status
      malformed := scan.malformed || status < 100 || status > 999 }

/-- A regular field.  Fields of trailers, and those of a block that is malformed already,
are read and dropped. -/
def regular (statusCode : ℕ) (scan : Scan) (name value : List UInt8) : Except Error Scan :=
  let scan := { scan with seenRegular := true }
  if statusCode ≠ 0 || scan.malformed then .ok scan
  else if isMalformedResponseField name || isMalformedResponseValue value then
    .ok { scan with malformed := true }
  else if scan.untrimmed + name.length + value.length > localMaxHeaderListSize then
    .error .headerListTooLarge
  else
    .ok { scan with
      untrimmed := scan.untrimmed + name.length + value.length
      decoded := scan.decoded ++ name ++ trimResponseValue value
      fields := scan.fields ++ [(name, trimResponseValue value)] }

def field (statusCode : ℕ) (scan : Scan) (name value : List UInt8) : Except Error Scan :=
  if name.head? = some 0x3a then .ok (scan.pseudo statusCode name value)
  else scan.regular statusCode name value

end Scan

section

variable {σ : Type} (hpack : Hpack σ)

/-- Reads a header block to its end, unless that fails the session. -/
def scanBlock (statusCode : ℕ) (table : σ) (scan : Scan) (block : List UInt8) :
    Except Error Scan × Scan × σ :=
  if block = [] then (.ok scan, scan, table)
  else
    match read : hpack.decode table block with
    | none => (.error .compressionError, scan, table)
    | some (field, table') =>
        match scan.field statusCode field.name field.value with
        | .error error => (.error error, scan, table')
        | .ok scan' => scanBlock statusCode table' scan' (block.drop field.next)
termination_by block.length
decreasing_by
  have taken := hpack.next_pos _ _ _ _ read
  have some_left : block.length ≠ 0 := by simpa using ‹¬ block = []›
  rw [List.length_drop]
  omega

def feedBlock (table : σ) (block : List UInt8) : Option σ :=
  if block = [] then some table
  else
    match read : hpack.decode table block with
    | none => none
    | some (field, table') => feedBlock table' (block.drop field.next)
termination_by block.length
decreasing_by
  have taken := hpack.next_pos _ _ _ _ read
  have some_left : block.length ≠ 0 := by simpa using ‹¬ block = []›
  rw [List.length_drop]
  omega

end

def Stream.respond (scan : Scan) (stream : Stream) : Stream :=
  { stream with
    statusCode := scan.status
    headersReady := true
    decodedHeaders := stream.decodedHeaders ++ scan.fields }

namespace Session

variable {σ : Type}

/-- The block of a stream that is not tracked any more is decoded and dropped. -/
def decodeDiscardOrphan (hpack : Hpack σ) (session : Session σ) : Session σ :=
  match feedBlock hpack session.hpack session.orphanHeaderBlock with
  | none => { session with orphanHeaderBlock := [] }.fail .compressionError
  | some table => { session with orphanHeaderBlock := [], hpack := table }

/-- The empty DATA that ends a body which was held back. -/
def endDataFrame (id : ℕ) : Frame where
  kind := .data
  flags := endStreamFlag
  streamId := id
  payload := []

/-- What a header block that was read completely says about its stream. -/
def applyScan (session : Session σ) (stream : Stream) (scan : Scan) : Session σ :=
  let id := stream.id
  if scan.malformed then
    ((session.modify id fun stream' => { stream' with decodedBytes := stream.decodedBytes }).rstStream
      id .protocolError).modify id fun stream => { stream with fatalError := some .protocolError }
  else if stream.statusCode ≠ 0 then
    if stream.headersEndStream then session
    else session.modify id fun stream => { stream with fatalError := some .protocolError }
  else if scan.status = 0 then
    session.modify id fun stream' =>
      { stream' with decodedBytes := stream.decodedBytes, fatalError := some .protocolError }
  else if scan.status < 200 then
    session.modify id fun stream' =>
      { stream' with
        decodedBytes := stream.decodedBytes
        awaitingContinue := if scan.status = 100 then false else stream'.awaitingContinue
        fatalError := if stream'.remoteClosed then some .protocolError else stream'.fatalError }
  else
    let ready := session.modify id (Stream.respond scan)
    if stream.awaitingContinue then
      (ready.writeFrame (endDataFrame id)).modify id fun stream =>
        { stream with awaitingContinue := false }.sentEndStream
    else ready

def decodeHeaderBlock (hpack : Hpack σ) (session : Session σ) (id : ℕ) : Session σ :=
  match session.find id with
  | none => session
  | some stream =>
      match scanBlock hpack stream.statusCode session.hpack (Scan.start stream.decodedBytes)
        stream.headerBlock with
      | (result, scan, table) =>
          let read := { session with hpack := table }.modify id fun stream =>
            { stream with headerBlock := [], decodedBytes := scan.decoded }
          match result with
          | .error error => read.fail error
          | .ok _ => read.applyScan stream scan

/-! ### The frame types -/

/-- The windows of the streams after a new initial size, up to the first that overflows. -/
def shiftWindows (delta : ℤ) : List Stream → List Stream × Option Error × Bool
  | [] => ([], none, false)
  | stream :: rest =>
      let next := stream.sendWindow + delta
      if next > maxWindowSize then (stream :: rest, some .flowControlError, false)
      else if !fitsI32 next then (stream :: rest, none, true)
      else
        match shiftWindows delta rest with
        | (shifted, error, panics) => ({ stream with sendWindow := next } :: shifted, error, panics)

def applySetting (session : Session σ) (setting : ℕ × ℕ) : Session σ :=
  let (kind, value) := setting
  if kind = settingsMaxFrameSize then
    if value < defaultMaxFrameSize || value > maxFrameSize then session.fail .protocolError
    else { session with remoteMaxFrameSize := value }
  else if kind = settingsMaxConcurrentStreams then
    { session with remoteMaxConcurrentStreams := value }
  else if kind = settingsHeaderTableSize then
    { session with
      pendingHpackEncCapacity := some (min (session.pendingHpackEncCapacity.getD value) value) }
  else if kind = settingsInitialWindowSize then
    if value > maxWindowSize then session.fail .flowControlError
    else
      match shiftWindows ((value : ℤ) - session.remoteInitialWindowSize) session.streams with
      | (streams, error, panics) =>
          { session with
            remoteInitialWindowSize := value
            streams
            fatalError := error.or session.fatalError
            panicked := session.panicked || panics }
  else session

def applySettings (session : Session σ) : List (ℕ × ℕ) → Session σ
  | [] => session
  | setting :: rest =>
      let session := session.applySetting setting
      if session.fatalError.isSome then session else session.applySettings rest

def settingsAckFrame : Frame where
  kind := .settings
  flags := ackFlag
  streamId := 0
  payload := []

def onSettings (session : Session σ) (frame : Frame) : Session σ :=
  if frame.streamId ≠ 0 then session.fail .protocolError
  else if frame.isAck then
    if frame.length ≠ 0 then session.fail .frameSizeError else session
  else if frame.length % settingsUnitSize ≠ 0 then session.fail .frameSizeError
  else
    let session := session.applySettings (settingsUnits frame.payload)
    if session.fatalError.isSome then session
    else if session.queued ≥ writeBufferControlLimit then session.fail .enhanceYourCalm
    else { session.writeFrame settingsAckFrame with settingsReceived := true }

/-- Streams the client never opened: those of the server, and those that come later. -/
def isIdle (session : Session σ) (id : ℕ) : Bool :=
  id % 2 = 0 || id ≥ session.nextStreamId

def growStreamWindow (session : Session σ) (stream : Stream) (increment : ℕ) : Session σ :=
  let id := stream.id
  if increment = 0 then
    (session.rstStream id .protocolError).modify id fun stream =>
      { stream with fatalError := some .protocolError }
  else
    let next := stream.sendWindow + increment
    if next > maxWindowSize then
      (session.rstStream id .flowControlError).modify id fun stream =>
        { stream with fatalError := some .flowControlError }
    else if !fitsI32 next then { session with panicked := true }
    else
      { (session.modify id fun stream => { stream with sendWindow := next }).record
          (.granted id increment) with
        streamProgressed := true }

def growConnWindow (session : Session σ) (increment : ℕ) : Session σ :=
  if increment = 0 then session.fail .protocolError
  else
    let next := session.connSendWindow + increment
    if next > maxWindowSize then session.fail .flowControlError
    else if !fitsI32 next then { session with panicked := true }
    else
      { session.record (.granted 0 increment) with
        connSendWindow := next
        streamProgressed := true }

def onWindowUpdate (session : Session σ) (frame : Frame) : Session σ :=
  if frame.length ≠ 4 then session.fail .frameSizeError
  else
    let increment := uint31 frame.payload
    if frame.streamId = 0 then session.growConnWindow increment
    else
      match session.find frame.streamId with
      | some stream => session.growStreamWindow stream increment
      | none => if session.isIdle frame.streamId then session.fail .protocolError else session

def pingAckFrame (payload : List UInt8) : Frame where
  kind := .ping
  flags := ackFlag
  streamId := 0
  payload := payload

def onPing (session : Session σ) (frame : Frame) : Session σ :=
  if frame.length ≠ 8 then session.fail .frameSizeError
  else if frame.streamId ≠ 0 then session.fail .protocolError
  else if frame.isAck then { session with awaitingPingAck := false }
  else if session.queued ≥ writeBufferControlLimit then session.fail .enhanceYourCalm
  else session.writeFrame (pingAckFrame frame.payload)

def onPriority (session : Session σ) (frame : Frame) : Session σ :=
  if frame.streamId = 0 then session.fail .protocolError
  else if frame.length ≠ streamPrioritySize then session.fail .frameSizeError
  else session

/-- A frame that the peer sent before it saw the reset of its stream. -/
def resetStreamFrameReceived (session : Session σ) : Session σ :=
  { session with
    streamProgressed := session.streamProgressed || session.awaitingPingAck
    livenessPingSpent := false }

def onOrphanHeaders (hpack : Hpack σ) (session : Session σ) (frame : Frame) : Session σ :=
  if session.isIdle frame.streamId then session.fail .protocolError
  else
    match frame.fragment with
    | none => session.fail .protocolError
    | some fragment =>
        if fragment.length > localMaxHeaderListSize then session.fail .headerListTooLarge
        else
          let kept := { session.resetStreamFrameReceived with orphanHeaderBlock := fragment }
          if frame.endHeaders then kept.decodeDiscardOrphan hpack
          else { kept with expectingContinuation := frame.streamId }

def onStreamHeaders (hpack : Hpack σ) (session : Session σ) (id : ℕ) (frame : Frame) :
    Session σ :=
  let session := { session with streamProgressed := true, livenessPingSpent := false }
  match frame.fragment with
  | none => session.fail .protocolError
  | some fragment =>
      if fragment.length > localMaxHeaderListSize then session.fail .headerListTooLarge
      else
        let kept := session.modify id fun stream =>
          { stream with headerBlock := fragment, headersEndStream := frame.endStream }
        if frame.endHeaders then
          (kept.modify id fun stream =>
            if stream.headersEndStream then stream.recvEndStream else stream).decodeHeaderBlock
              hpack id
        else { kept with expectingContinuation := id }

def onHeaders (hpack : Hpack σ) (session : Session σ) (frame : Frame) : Session σ :=
  let session := { session with continuationCount := 0 }
  match session.find frame.streamId with
  | none => session.onOrphanHeaders hpack frame
  | some stream => session.onStreamHeaders hpack stream.id frame

def onContinuation (hpack : Hpack σ) (session : Session σ) (frame : Frame) : Session σ :=
  if session.expectingContinuation = 0 || frame.streamId ≠ session.expectingContinuation then
    session.fail .protocolError
  else
    let session := { session with continuationCount := session.continuationCount + 1 }
    if session.continuationCount > localMaxContinuations then session.fail .enhanceYourCalm
    else
      match session.find session.expectingContinuation with
      | some stream =>
          let id := stream.id
          if stream.headerBlock.length + frame.length > localMaxHeaderListSize then
            session.fail .headerListTooLarge
          else
            let kept := session.modify id fun stream =>
              { stream with headerBlock := stream.headerBlock ++ frame.payload }
            if frame.endHeaders then
              ({ kept with expectingContinuation := 0 }.modify id fun stream =>
                if stream.headersEndStream then stream.recvEndStream else stream).decodeHeaderBlock
                  hpack id
            else kept
      | none =>
          if session.orphanHeaderBlock.length + frame.length > localMaxHeaderListSize then
            session.fail .headerListTooLarge
          else
            let kept :=
              { session with orphanHeaderBlock := session.orphanHeaderBlock ++ frame.payload }
            if frame.endHeaders then
              { kept with expectingContinuation := 0 }.decodeDiscardOrphan hpack
            else kept

def onStreamData (session : Session σ) (stream : Stream) (frame : Frame) : Session σ :=
  let id := stream.id
  let session := { session with streamProgressed := true, livenessPingSpent := false }
  if stream.statusCode = 0 then
    (session.rstStream id .protocolError).modify id fun stream =>
      { stream with fatalError := some .protocolError }
  else if stream.remoteClosed then
    session.modify id fun stream =>
      { stream with fatalError := some (stream.fatalError.getD .protocolError) }
  else
    let counted := session.modify id fun stream =>
      { stream with unackedBytes := saturatingAdd stream.unackedBytes frame.length }
    match frame.body with
    | none => counted.fail .protocolError
    | some fragment =>
        (counted.modify id fun stream =>
          if frame.endStream then stream.recvEndStream else stream).modify id fun stream =>
            { stream with
              dataBytesReceived := stream.dataBytesReceived + fragment.length
              bodyBuffer := stream.bodyBuffer ++ fragment }

def onData (session : Session σ) (frame : Frame) : Session σ :=
  let session :=
    { session with connUnackedBytes := saturatingAdd session.connUnackedBytes frame.length }
  match session.find frame.streamId with
  | none =>
      if session.isIdle frame.streamId then
        (session.fail .protocolError).resetStreamFrameReceived
      else session.resetStreamFrameReceived
  | some stream => session.onStreamData stream frame

def resetError (code : ℕ) (hadResponse : Bool) : Option Error :=
  if code = ErrorCode.noError.value then if hadResponse then none else some .streamReset
  else if code = ErrorCode.refusedStream.value then some .refusedStream
  else some .streamReset

def onRstStream (session : Session σ) (frame : Frame) : Session σ :=
  if frame.length ≠ 4 then session.fail .frameSizeError
  else if session.isIdle frame.streamId then session.fail .protocolError
  else
    match session.find frame.streamId with
    | none => session
    | some stream =>
        if stream.rstDone then session
        else
          session.modify stream.id fun stream =>
            { stream with
              rstDone := true
              state := .closed
              fatalError := resetError (BigEndian.ofBytes frame.payload) stream.remoteClosed }

def onGoaway (session : Session σ) (frame : Frame) : Session σ :=
  if frame.streamId ≠ 0 then session.fail .protocolError
  else if frame.length < 8 then session.fail .frameSizeError
  else
    let lastId := uint31 (frame.payload.take 4)
    let graceful : Bool :=
      BigEndian.ofBytes ((frame.payload.drop 4).take 4) = ErrorCode.noError.value
    { session with
      goawayReceived := true
      goawayLastStreamId := lastId
      streams := session.streams.map fun stream =>
        if stream.id > lastId then
          { stream with fatalError := some (if graceful then .refusedStream else .goAway) }
        else if !graceful && !stream.remoteClosed then
          { stream with fatalError := some .goAway }
        else stream }

def dispatchFrame (hpack : Hpack σ) (session : Session σ) (frame : Frame) : Session σ :=
  let session := session.record (.received frame)
  if session.expectingContinuation ≠ 0 ∧ frame.kind ≠ .continuation then
    session.fail .protocolError
  else if session.settingsReceived = false ∧ frame.kind ≠ .settings then
    session.fail .protocolError
  else
    match frame.kind with
    | .settings => session.onSettings frame
    | .windowUpdate => session.onWindowUpdate frame
    | .ping => session.onPing frame
    | .priority => session.onPriority frame
    | .headers => session.onHeaders hpack frame
    | .continuation => session.onContinuation hpack frame
    | .data => session.onData frame
    | .rstStream => session.onRstStream frame
    | .goaway => session.onGoaway frame
    | .pushPromise => session.fail .protocolError
    | .unknown _ => session

/-- Dispatches every complete frame, up to one that fails the session, and returns the
number of bytes that were read. -/
def parseFrames (hpack : Hpack σ) (session : Session σ) (buffer : List UInt8) : ℕ × Session σ :=
  match FrameHeader.decode buffer with
  | none => (0, session)
  | some header =>
      if header.length > defaultMaxFrameSize then (0, session.fail .frameSizeError)
      else if buffer.length < frameHeaderSize + header.length then (0, session)
      else
        let frame : Frame :=
          { kind := header.kind
            flags := header.flags
            streamId := header.streamId
            payload := (buffer.drop frameHeaderSize).take header.length }
        let dispatched := session.dispatchFrame hpack frame
        if dispatched.fatalError.isSome then (frameHeaderSize + header.length, dispatched)
        else
          let (consumed, parsed) :=
            parseFrames hpack dispatched (buffer.drop (frameHeaderSize + header.length))
          (frameHeaderSize + header.length + consumed, parsed)
termination_by buffer.length
decreasing_by
  rw [List.length_drop]
  have size : frameHeaderSize = 9 := rfl
  omega

end Session

end Bun.Http2
