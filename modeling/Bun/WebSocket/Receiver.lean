/-
The receiving side of a WebSocket connection, for both roles.

A read is parsed by a loop over a cursor.  What a read leaves unfinished is kept in
the cells of the connection: half a header, part of an extended length, part of a
masking key, a partial control payload, and the fragments of a message.

Sending, the transport and the JavaScript object are left out: a connection that is
read from has a listener that neither pauses nor closes it, and writes succeed.
-/

import Bun.WebSocket.Header
import Bun.Foundation.FixedArray

set_option autoImplicit false

namespace Bun.WebSocket

open Bun.Foundation

inductive ErrorCode
  | controlFrameIsFragmented
  | invalidControlFrame
  | invalidCompressedData
  | failedToAllocateMemory
  | unexpectedMaskFromServer
  | unsupportedControlFrame
  | unexpectedOpcode
  | invalidUtf8
  | messageTooBig
  | unexpectedRsv1
  | invalidCloseCode
  | unexpectedRsv2Or3
  | expectedMask
  | unsupportedPayloadLength
deriving DecidableEq, Repr

def ErrorCode.closeCode : ErrorCode → Option Nat
  | controlFrameIsFragmented => some 1002
  | invalidControlFrame => some 1002
  | invalidCompressedData => some 1007
  | failedToAllocateMemory => none
  | unexpectedMaskFromServer => some 1002
  | unsupportedControlFrame => some 1002
  | unexpectedOpcode => some 1002
  | invalidUtf8 => some 1007
  | messageTooBig => some 1009
  | unexpectedRsv1 => some 1002
  | invalidCloseCode => some 1002
  | unexpectedRsv2Or3 => some 1002
  | expectedMask => some 1002
  | unsupportedPayloadLength => some 1009

/-- A failure and the invalid opcode, length or status code appended to its message. -/
structure Failure where
  code : ErrorCode
  value : Option Nat := none
deriving DecidableEq, Repr

inductive Event
  | received (kind : Opcode) (payload : List UInt8)
  | closing (code : Nat) (reason : List UInt8)
  | failed (failure : Failure)
deriving DecidableEq, Repr

def Event.isLast : Event → Bool
  | received _ _ => false
  | closing _ _ => true
  | failed _ => true

inductive ReceiveState
  | needHeader
  | needBody
  | extendedPayloadLength16
  | extendedPayloadLength64
  | ping
  | pong
  | close
  | maskKey
  | maskedBody
  | closed
deriving DecidableEq, Repr

def maxControlPayload : Nat := 125

def maxPayloadLengthLimit : Nat := 2 ^ 53 - 1

def usizeMax : Nat := 2 ^ 64 - 1

structure ConnectedOptions where
  maxPayloadLength : Nat
  wsMode : Bool
  skipUtf8Validation : Bool
  isServer : Bool
deriving DecidableEq, Repr

def ConnectedOptions.maxLength (options : ConnectedOptions) : Nat :=
  match options.maxPayloadLength with
  | 0 => usizeMax
  | limit => limit

inductive DeflateError
  | inflateFailed
  | tooLarge
  | outOfMemory
deriving DecidableEq, Repr

def DeflateError.toErrorCode : DeflateError → ErrorCode
  | inflateFailed => .invalidCompressedData
  | tooLarge => .messageTooBig
  | outOfMemory => .failedToAllocateMemory

/-- The text validator and the inflater of a connection.  The inflater has a window
that it keeps from one message to the next. -/
structure Codecs (Inflater : Type) where
  isValidUtf8 : List UInt8 → Bool
  decompress : Inflater → List UInt8 → Nat → Inflater × Except DeflateError (List UInt8)

/-- Unmasking state of the frame being read.  The key is rotated so that its first
byte applies to the next payload byte. -/
structure Unmask where
  key : FixedArray UInt8 4
  keyLen : Nat
  payloadState : ReceiveState
deriving DecidableEq, Repr

structure Connection (Inflater : Type) where
  /-- The JavaScript object is still attached. -/
  attached : Bool
  receiveState : ReceiveState
  receivingType : Opcode
  receivingIsFinal : Bool
  controlPayload : FixedArray UInt8 maxControlPayload
  controlPayloadLen : Nat
  controlFrameStarted : Bool
  unmask : Unmask
  closeReceived : Option (Nat × List UInt8)
  receiveBodyRemain : Nat
  receiveBuffer : List UInt8
  headerFragment : Option UInt8
  payloadLengthFrameBytes : FixedArray UInt8 8
  payloadLengthFrameLen : Nat
  deflate : Option Inflater
  receivingCompressed : Bool
  messageIsCompressed : Bool
  dispatched : List Event

structure RecvCursor where
  data : List UInt8
  state : ReceiveState
  bodyRemain : Nat
  isFinal : Bool
  lastDataType : Opcode
deriving DecidableEq, Repr

inductive Step
  | goOn
  | needMoreData
  | terminated
deriving DecidableEq, Repr

/-- One step of the frame loop: its outcome and what it leaves behind. -/
structure Received (Inflater : Type) where
  step : Step
  connection : Connection Inflater
  cursor : RecvCursor

variable {Inflater : Type}

def newRaw (deflate : Option Inflater) : Connection Inflater :=
  { attached := true
    receiveState := .needHeader
    receivingType := .resB
    receivingIsFinal := true
    controlPayload := FixedArray.fill _ 0
    controlPayloadLen := 0
    controlFrameStarted := false
    unmask := { key := FixedArray.fill _ 0, keyLen := 0, payloadState := .needHeader }
    closeReceived := none
    receiveBodyRemain := 0
    receiveBuffer := []
    headerFragment := none
    payloadLengthFrameBytes := FixedArray.fill _ 0
    payloadLengthFrameLen := 0
    deflate := deflate
    receivingCompressed := false
    messageIsCompressed := false
    dispatched := [] }

/-! ### Failing -/

namespace Connection

def emit (ws : Connection Inflater) (event : Event) : Connection Inflater :=
  { ws with dispatched := ws.dispatched ++ [event] }

def clearReceiveBuffers (ws : Connection Inflater) : Connection Inflater :=
  { ws with receiveBuffer := [], receiveBodyRemain := 0 }

def clearData (ws : Connection Inflater) : Connection Inflater :=
  { ws.clearReceiveBuffers with
    controlFrameStarted := false
    controlPayloadLen := 0
    receivingCompressed := false
    messageIsCompressed := false
    deflate := none }

def dropConnection (ws : Connection Inflater) : Connection Inflater :=
  clearData { ws with receiveState := .closed }

def finish (ws : Connection Inflater) (failure : Failure) : Connection Inflater :=
  match ws.attached with
  | false => ws
  | true =>
      (dropConnection { ws with attached := false, closeReceived := none }).emit (.failed failure)

def stopReading (ws : Connection Inflater) : Connection Inflater :=
  clearReceiveBuffers { ws with receiveState := .closed }

/-- In `ws_mode` a failure with a close code reports an error and waits for the
connection to close. -/
def fail (ws : Connection Inflater) (options : ConnectedOptions) (failure : Failure) :
    Connection Inflater :=
  match ws.attached with
  | false => ws
  | true =>
      match failure.code.closeCode with
      | none => ws.finish failure
      | some _ =>
          match options.wsMode with
          | false => ws.finish failure
          | true => ws.stopReading.emit (.failed failure)

def recvFailed (ws : Connection Inflater) (options : ConnectedOptions) (cursor : RecvCursor)
    (failure : Failure) : Received Inflater :=
  { step := .terminated, connection := ws.fail options failure, cursor := cursor }

/-! ### Dispatching -/

/-- Text is delivered as bytes in `ws_mode` and as UTF-16 otherwise; the conversion
refuses what is not UTF-8. -/
def dispatchData (ws : Connection Inflater) (codecs : Codecs Inflater)
    (options : ConnectedOptions) (data : List UInt8) (kind : Opcode) : Connection Inflater :=
  match ws.attached with
  | false => ws.clearData
  | true =>
      match kind with
      | .text =>
          match options.wsMode with
          | true =>
              if !options.skipUtf8Validation && !codecs.isValidUtf8 data then
                ws.fail options { code := .invalidUtf8 }
              else ws.emit (.received kind data)
          | false =>
              if !codecs.isValidUtf8 data then ws.fail options { code := .invalidUtf8 }
              else ws.emit (.received kind data)
      | .binary | .ping | .pong => ws.emit (.received kind data)
      | _ => ws.fail options { code := .unexpectedOpcode }

def dispatchCompressedData (ws : Connection Inflater) (codecs : Codecs Inflater)
    (options : ConnectedOptions) (data : List UInt8) (kind : Opcode) : Connection Inflater :=
  match ws.deflate with
  | none => ws.fail options { code := .unexpectedRsv1 }
  | some deflate =>
      let inflated := codecs.decompress deflate data options.maxLength
      let ws := { ws with deflate := some inflated.1 }
      match inflated.2 with
      | .ok decompressed => ws.dispatchData codecs options decompressed kind
      | .error error => ws.fail options { code := error.toErrorCode }

/-- The buffer is taken before the message is dispatched and put back, emptied,
afterwards. -/
def dispatchBufferedMessage (ws : Connection Inflater) (codecs : Codecs Inflater)
    (options : ConnectedOptions) (kind : Opcode) (compressed : Bool) : Connection Inflater :=
  let buffered := ws.receiveBuffer
  let ws := { ws with receiveBuffer := [] }
  let ws :=
    if compressed then ws.dispatchCompressedData codecs options buffered kind
    else ws.dispatchData codecs options buffered kind
  let ws := ws.clearReceiveBuffers
  let ws := if compressed then { ws with receivingCompressed := false } else ws
  { ws with messageIsCompressed := false }

def bufferPayload (ws : Connection Inflater) (data : List UInt8) : Connection Inflater :=
  { ws with receiveBuffer := ws.receiveBuffer ++ data }

/-! ### Consuming payload -/

def consumeCompressed (ws : Connection Inflater) (codecs : Codecs Inflater)
    (options : ConnectedOptions) (data : List UInt8) (leftInFragment : Nat) (kind : Opcode)
    (isFinal : Bool) : Connection Inflater × Nat :=
  let ws := if data.isEmpty then ws else ws.bufferPayload data
  if data.length = leftInFragment then
    let ws := { ws with receiveBodyRemain := 0 }
    if isFinal then (ws.dispatchBufferedMessage codecs options kind true, data.length)
    else (ws, data.length)
  else (ws, data.length)

/-- A message that arrived in one read is dispatched without copying; everything else
goes through the receive buffer. -/
def consume (ws : Connection Inflater) (codecs : Codecs Inflater) (options : ConnectedOptions)
    (data : List UInt8) (leftInFragment : Nat) (kind : Opcode) (isFinal : Bool) :
    Connection Inflater × Nat :=
  if ws.receivingCompressed then
    ws.consumeCompressed codecs options data leftInFragment kind isFinal
  else
    let frameComplete := decide (data.length = leftInFragment)
    if isFinal && frameComplete && ws.receiveBuffer.isEmpty then
      ({ ws.dispatchData codecs options data kind with messageIsCompressed := false },
        data.length)
    else if isFinal && frameComplete && data.isEmpty then
      (ws.dispatchBufferedMessage codecs options kind false, 0)
    else if data.isEmpty then (ws, 0)
    else
      let ws := ws.bufferPayload data
      if frameComplete then
        let ws := { ws with receiveBodyRemain := 0 }
        if isFinal then (ws.dispatchBufferedMessage codecs options kind false, data.length)
        else (ws, data.length)
      else (ws, data.length)

/-! ### The steps of the frame loop -/

def expectMaskKey (ws : Connection Inflater) (next : ReceiveState) :
    Connection Inflater × ReceiveState :=
  let expect (payloadState : ReceiveState) : Connection Inflater × ReceiveState :=
    ({ ws with unmask := { key := FixedArray.fill _ 0, keyLen := 0, payloadState } }, .maskKey)
  match next with
  | .extendedPayloadLength16 | .extendedPayloadLength64 => (ws, next)
  | .needBody => expect .maskedBody
  | control => expect control

def payloadLengthFailure (ws : Connection Inflater) (options : ConnectedOptions)
    (cursor : RecvCursor) : Option Failure :=
  match cursor.state with
  | .needBody =>
      if min (ws.receiveBuffer.length + cursor.bodyRemain) usizeMax > options.maxLength then
        some { code := .messageTooBig }
      else none
  | .ping | .pong | .close =>
      if cursor.bodyRemain > maxControlPayload ∨
          (cursor.bodyRemain = 1 ∧ cursor.state = .close) then
        some { code := .invalidControlFrame, value := some cursor.bodyRemain }
      else none
  | _ => none

def validatePayloadLength (ws : Connection Inflater) (options : ConnectedOptions)
    (cursor : RecvCursor) : Received Inflater :=
  match ws.payloadLengthFailure options cursor with
  | some failure => ws.recvFailed options cursor failure
  | none =>
      if options.isServer then
        let expected := ws.expectMaskKey cursor.state
        { step := .goOn, connection := expected.1, cursor := { cursor with state := expected.2 } }
      else { step := .goOn, connection := ws, cursor := cursor }

end Connection

structure ParsedHeader where
  opcode : Opcode
  payloadLen : Nat
  isFragmented : Bool
  isFinal : Bool
  compressed : Bool
  next : ReceiveState
deriving DecidableEq, Repr

/-- The state after the header of a frame; reserved opcodes have none. -/
def stateAfterHeader (opcode : Opcode) (payloadLen : Nat) : Option ReceiveState :=
  match opcode with
  | .text | .continuation | .binary =>
      if payloadLen ≤ 125 then some .needBody
      else if payloadLen = 126 then some .extendedPayloadLength16
      else some .extendedPayloadLength64
  | .close => some .close
  | .ping => some .ping
  | .pong => some .pong
  | _ => none

def parseWebsocketHeader (first second : UInt8) (isServer : Bool) :
    Except ErrorCode ParsedHeader :=
  let header := WebsocketHeader.fromSlice first second
  if header.rsv ≠ 0 then .error .unexpectedRsv2Or3
  else if header.mask ≠ isServer then
    .error (if isServer then .expectedMask else .unexpectedMaskFromServer)
  else
    match stateAfterHeader header.opcode header.len with
    | none => .error .unsupportedControlFrame
    | some next =>
        .ok
          { opcode := header.opcode
            payloadLen := header.len
            isFragmented := header.opcode == .continuation || !header.final
            isFinal := header.final
            compressed := header.compressed
            next := next }

namespace Connection

/-- The rules on fragmentation: a continuation needs a message to continue, a new
message needs the last one to be complete, and control frames are whole. -/
def fragmentationFailure (ws : Connection Inflater) (header : ParsedHeader) : Option Failure :=
  match header.opcode with
  | .continuation =>
      if ws.receivingIsFinal then
        some { code := .unexpectedOpcode, value := some header.opcode.toNat }
      else none
  | .text | .binary =>
      if !ws.receivingIsFinal then
        some { code := .unexpectedOpcode, value := some header.opcode.toNat }
      else none
  | op =>
      if op.isControl && header.isFragmented then some { code := .controlFrameIsFragmented }
      else none

def recordFragment (ws : Connection Inflater) (header : ParsedHeader) : Connection Inflater :=
  match header.opcode with
  | .continuation | .text | .binary => { ws with receivingIsFinal := header.isFinal }
  | _ => ws

/-- A new message records its own RSV1 bit; a continuation inherits the message's. -/
def recordCompression (ws : Connection Inflater) (header : ParsedHeader) :
    Connection Inflater :=
  match header.opcode with
  | .text | .binary =>
      { ws with messageIsCompressed := header.compressed, receivingCompressed := header.compressed }
  | .continuation => { ws with receivingCompressed := ws.messageIsCompressed }
  | _ => ws

/-- `recv_frame_header` from the check of the length on. -/
def recvPayloadLength (ws : Connection Inflater) (codecs : Codecs Inflater)
    (options : ConnectedOptions) (cursor : RecvCursor) : Received Inflater :=
  let validated := ws.validatePayloadLength options cursor
  match validated.step with
  | .terminated => validated
  | _ =>
      let ws := validated.connection
      let cursor := validated.cursor
      -- An empty final message is dispatched without a body.
      if cursor.bodyRemain = 0 ∧ cursor.state = .needBody ∧ cursor.isFinal = true then
        let ws := (ws.consume codecs options [] 0 cursor.lastDataType true).1
        let ws := { ws with receivingCompressed := false, messageIsCompressed := false }
        { step := if cursor.data.isEmpty then .needMoreData else .goOn
          connection := ws
          cursor := { cursor with state := .needHeader } }
      else { step := .goOn, connection := ws, cursor := cursor }

/-- `recv_frame_header` from a parsed header on. -/
def recvParsedHeader (ws : Connection Inflater) (codecs : Codecs Inflater)
    (options : ConnectedOptions) (cursor : RecvCursor) (header : ParsedHeader) :
    Received Inflater :=
  let cursor :=
    { cursor with
      state := header.next, bodyRemain := header.payloadLen, isFinal := header.isFinal }
  match ws.fragmentationFailure header with
  | some failure => ws.recvFailed options cursor failure
  | none =>
      let ws := ws.recordFragment header
      let isMessageStart := header.opcode == .text || header.opcode == .binary
      let cursor :=
        if isMessageStart then { cursor with lastDataType := header.opcode } else cursor
      if header.compressed && (!isMessageStart || ws.deflate.isNone) then
        ws.recvFailed options cursor { code := .unexpectedRsv1 }
      else (ws.recordCompression header).recvPayloadLength codecs options cursor

/-- `recv_frame_header` after its two bytes are taken. -/
def recvHeaderBytes (ws : Connection Inflater) (codecs : Codecs Inflater)
    (options : ConnectedOptions) (cursor : RecvCursor) (first second : UInt8) :
    Received Inflater :=
  match parseWebsocketHeader first second options.isServer with
  | .error .unsupportedControlFrame =>
      ws.recvFailed options cursor
        { code := .unsupportedControlFrame, value := some (first.toNat % 16) }
  | .error code => ws.recvFailed options cursor { code }
  | .ok header => ws.recvParsedHeader codecs options cursor header

/-- `none` is an access outside the data of the cursor. -/
def recvFrameHeader (ws : Connection Inflater) (codecs : Codecs Inflater)
    (options : ConnectedOptions) (cursor : RecvCursor) : Option (Received Inflater) :=
  if cursor.data.length < 2 ∧ ws.headerFragment = none then
    match cursor.data with
    | [] => none
    | byte :: _ =>
        some
          { step := .needMoreData
            connection := { ws with headerFragment := some byte }
            cursor := cursor }
  else
    match ws.headerFragment, cursor.data with
    | some first, second :: rest =>
        some (recvHeaderBytes { ws with headerFragment := none } codecs options
          { cursor with data := rest } first second)
    | none, first :: second :: rest =>
        some (ws.recvHeaderBytes codecs options { cursor with data := rest } first second)
    | _, _ => none

/-- `none` is a range outside the buffer of length bytes. -/
def recvExtendedPayloadLength (ws : Connection Inflater) (options : ConnectedOptions)
    (cursor : RecvCursor) (byteSize : Nat) : Option (Received Inflater) :=
  if cursor.data.isEmpty then
    some { step := .needMoreData, connection := ws, cursor := cursor }
  else if byteSize < ws.payloadLengthFrameLen then none
  else
    let start := ws.payloadLengthFrameLen
    let totalReceived := min (byteSize - start) cursor.data.length
    match ws.payloadLengthFrameBytes.copyFromSlice start (cursor.data.take totalReceived) with
    | none => none
    | some bytes =>
        let ws :=
          { ws with
            payloadLengthFrameBytes := bytes
            payloadLengthFrameLen := start + totalReceived }
        let cursor := { cursor with data := cursor.data.drop totalReceived }
        if ws.payloadLengthFrameLen < byteSize then
          some { step := .needMoreData, connection := ws, cursor := cursor }
        else
          let length :=
            if byteSize = 8 then BigEndian.ofBytes bytes.items
            else BigEndian.ofBytes (bytes.items.take 2)
          if byteSize = 8 ∧ length > maxPayloadLengthLimit then
            some (ws.recvFailed options cursor { code := .unsupportedPayloadLength })
          else
            let ws := { ws with payloadLengthFrameLen := 0 }
            some (ws.validatePayloadLength options
              { cursor with bodyRemain := length, state := .needBody })

/-- `none` is a range outside the key. -/
def recvMaskKey (ws : Connection Inflater) (cursor : RecvCursor) : Option (Received Inflater) :=
  let start := ws.unmask.keyLen
  if 4 < start then none
  else
    let count := min (4 - start) cursor.data.length
    match ws.unmask.key.copyFromSlice start (cursor.data.take count) with
    | none => none
    | some key =>
        let unmask := { ws.unmask with key := key, keyLen := start + count }
        let ws := { ws with unmask := unmask }
        let cursor := { cursor with data := cursor.data.drop count }
        if unmask.keyLen < 4 then
          some { step := .needMoreData, connection := ws, cursor := cursor }
        else
          some
            { step := .goOn
              connection := ws
              cursor := { cursor with state := unmask.payloadState } }

end Connection

/-- `fill_with_skip_mask`: byte `i` is combined with byte `i & 3` of the key. -/
def fillWithSkipMask (key : FixedArray UInt8 4) (input : List UInt8) (skipMask : Bool) :
    List UInt8 :=
  if skipMask then input
  else input.mapIdx fun index byte => byte ^^^ key.items.getD (index % 4) 0

def Unmask.copy (unmask : Unmask) (input : List UInt8) : List UInt8 × Unmask :=
  (fillWithSkipMask unmask.key input false,
    { unmask with key := unmask.key.rotateLeft (input.length % 4) })

namespace Connection

def recvMaskedBody (ws : Connection Inflater) (codecs : Codecs Inflater)
    (options : ConnectedOptions) (cursor : RecvCursor) : Received Inflater :=
  let count := min cursor.bodyRemain cursor.data.length
  let chunk := cursor.data.take count
  let ws :=
    if chunk.isEmpty then ws
    else
      let unmasked := ws.unmask.copy chunk
      { ws with receiveBuffer := ws.receiveBuffer ++ unmasked.1, unmask := unmasked.2 }
  let cursor :=
    { cursor with bodyRemain := cursor.bodyRemain - count, data := cursor.data.drop count }
  let step := if cursor.data.isEmpty then Step.needMoreData else Step.goOn
  if cursor.bodyRemain = 0 then
    let ws :=
      if cursor.isFinal then
        ws.dispatchBufferedMessage codecs options cursor.lastDataType ws.receivingCompressed
      else ws
    { step := step, connection := ws, cursor := { cursor with state := .needHeader } }
  else { step := step, connection := ws, cursor := cursor }

/-- While a control frame is started, `bodyRemain` counts the bytes buffered so far.
The outer `none` is a range outside the payload buffer, the inner one a payload that
is not complete. -/
def bufferControlPayload (ws : Connection Inflater) (options : ConnectedOptions)
    (cursor : RecvCursor) :
    Option (Connection Inflater × RecvCursor × Option (List UInt8)) :=
  let started :=
    if ws.controlFrameStarted then (ws, cursor)
    else
      ({ ws with controlPayloadLen := cursor.bodyRemain % 256, controlFrameStarted := true },
        { cursor with bodyRemain := 0 })
  let ws := started.1
  let cursor := started.2
  let payloadLen := ws.controlPayloadLen
  let buffered : Option (Connection Inflater × RecvCursor) :=
    if cursor.data.isEmpty then some (ws, cursor)
    else
      let totalReceived := min payloadLen (cursor.bodyRemain + cursor.data.length)
      if totalReceived < cursor.bodyRemain then none
      else
        let copied := totalReceived - cursor.bodyRemain
        match ws.controlPayload.copyFromSlice cursor.bodyRemain (cursor.data.take copied) with
        | none => none
        | some controlPayload =>
            some
              ({ ws with controlPayload := controlPayload },
                { cursor with bodyRemain := totalReceived, data := cursor.data.drop copied })
  match buffered with
  | none => none
  | some (ws, cursor) =>
      if payloadLen > cursor.bodyRemain then some (ws, cursor, none)
      else
        let payload := ws.controlPayload.items.take payloadLen
        let payload :=
          if options.isServer then fillWithSkipMask ws.unmask.key payload false else payload
        some ({ ws with controlFrameStarted := false }, cursor, some payload)

def recvPingOrPong (ws : Connection Inflater) (codecs : Codecs Inflater)
    (options : ConnectedOptions) (cursor : RecvCursor) (opcode : Opcode) :
    Option (Received Inflater) :=
  match ws.bufferControlPayload options cursor with
  | none => none
  | some (ws, cursor, none) =>
      some { step := .needMoreData, connection := ws, cursor := cursor }
  | some (ws, cursor, some payload) =>
      some
        { step := if cursor.data.isEmpty then .needMoreData else .goOn
          connection := ws.dispatchData codecs options payload opcode
          cursor := { cursor with state := .needHeader, bodyRemain := 0 } }

def recvBody (ws : Connection Inflater) (codecs : Codecs Inflater)
    (options : ConnectedOptions) (cursor : RecvCursor) : Received Inflater :=
  let count := min cursor.bodyRemain cursor.data.length
  let consumed :=
    ws.consume codecs options (cursor.data.take count) cursor.bodyRemain cursor.lastDataType
      cursor.isFinal
  let cursor :=
    { cursor with bodyRemain := cursor.bodyRemain - consumed.2, data := cursor.data.drop count }
  let cursor :=
    if cursor.bodyRemain = 0 then { cursor with state := .needHeader } else cursor
  { step := if cursor.data.isEmpty then .needMoreData else .goOn
    connection := consumed.1
    cursor := cursor }

def acknowledgeClose (ws : Connection Inflater) (cursor : RecvCursor) (code : Nat)
    (reason : List UInt8) : Received Inflater :=
  let ws := stopReading { ws with closeReceived := some (code, reason) }
  { step := .terminated
    connection := if ws.attached then ws.emit (.closing code reason) else ws
    cursor := cursor }

def recvClose (ws : Connection Inflater) (codecs : Codecs Inflater)
    (options : ConnectedOptions) (cursor : RecvCursor) : Option (Received Inflater) :=
  match ws.bufferControlPayload options cursor with
  | none => none
  | some (ws, cursor, none) =>
      some { step := .needMoreData, connection := ws, cursor := cursor }
  | some (ws, cursor, some payload) =>
      match payload with
      | high :: low :: reason =>
          let code := BigEndian.ofBytes [high, low]
          if !isValidCloseCode code then
            some (ws.recvFailed options cursor { code := .invalidCloseCode, value := some code })
          else if !options.skipUtf8Validation && !codecs.isValidUtf8 reason then
            some (ws.recvFailed options cursor { code := .invalidUtf8 })
          else some (ws.acknowledgeClose cursor code reason)
      | _ => some (ws.acknowledgeClose cursor 1005 [])

/-! ### The frame loop -/

def recvStep (ws : Connection Inflater) (codecs : Codecs Inflater)
    (options : ConnectedOptions) (cursor : RecvCursor) : Option (Received Inflater) :=
  match cursor.state with
  | .needHeader => ws.recvFrameHeader codecs options cursor
  | .extendedPayloadLength16 => ws.recvExtendedPayloadLength options cursor 2
  | .extendedPayloadLength64 => ws.recvExtendedPayloadLength options cursor 8
  | .ping => ws.recvPingOrPong codecs options cursor .ping
  | .pong => ws.recvPingOrPong codecs options cursor .pong
  | .needBody => some (ws.recvBody codecs options cursor)
  | .close => ws.recvClose codecs options cursor
  | .maskKey => ws.recvMaskKey cursor
  | .maskedBody => some (ws.recvMaskedBody codecs options cursor)
  | .closed => some { step := .terminated, connection := ws, cursor := cursor }

def cursorFor (ws : Connection Inflater) (data : List UInt8) : RecvCursor :=
  { data := data
    state := ws.receiveState
    bodyRemain := ws.receiveBodyRemain
    isFinal := ws.receivingIsFinal
    lastDataType := ws.receivingType }

def keepCursor (ws : Connection Inflater) (cursor : RecvCursor) : Connection Inflater :=
  if ws.receiveState = .closed then ws
  else
    { ws with
      receiveState := cursor.state
      receivingType := cursor.lastDataType
      receiveBodyRemain := cursor.bodyRemain }

/-- `none` is a panic, or a loop that needs more than `fuel` steps. -/
def dataLoop (codecs : Codecs Inflater) (options : ConnectedOptions) :
    Nat → Connection Inflater → RecvCursor → Option (Connection Inflater)
  | 0, _, _ => none
  | fuel + 1, ws, cursor =>
      if ws.receiveState = .closed then some ws
      else
        match ws.recvStep codecs options cursor with
        | none => none
        | some received =>
            match received.step with
            | .goOn => dataLoop codecs options fuel received.connection received.cursor
            | .needMoreData => some (received.connection.keepCursor received.cursor)
            | .terminated => some received.connection

/-- A step without progress moves on to the next part of a frame, of which there are
at most four. -/
def handleDataLoop (ws : Connection Inflater) (codecs : Codecs Inflater)
    (options : ConnectedOptions) (data : List UInt8) : Option (Connection Inflater) :=
  dataLoop codecs options (4 * data.length + 5) ws (ws.cursorFor data)

def handleReads (codecs : Codecs Inflater) (options : ConnectedOptions) :
    Connection Inflater → List (List UInt8) → Option (Connection Inflater)
  | ws, [] => some ws
  | ws, data :: reads =>
      match ws.handleDataLoop codecs options data with
      | none => none
      | some ws => handleReads codecs options ws reads

end Connection

end Bun.WebSocket
