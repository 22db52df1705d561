/-
Frames of an HTTP/2 connection.

A frame is a type, flags, a stream and a payload.  Types are non-exhaustive on the wire.
-/

import Mathlib.Data.Nat.Notation
import Bun.Foundation.Endian

set_option autoImplicit false

namespace Bun.Http2

open Bun.Foundation

/-! ### Sizes -/

def maxWindowSize : ℕ := 2147483647

def maxStreamId : ℕ := 2147483647

def maxFrameSize : ℕ := 0xffffff

def defaultWindowSize : ℕ := 65535

def defaultMaxFrameSize : ℕ := 16384

def localInitialWindowSize : ℕ := 16777216

def localMaxHeaderListSize : ℕ := 262144

def localMaxContinuations : ℕ := 8

def writeBufferHighWater : ℕ := 262144

def writeBufferControlLimit : ℕ := 1048576

def frameHeaderSize : ℕ := 9

def settingsUnitSize : ℕ := 6

def streamPrioritySize : ℕ := 5

/-! ### Frames -/

inductive FrameType where
  | data
  | headers
  | priority
  | rstStream
  | settings
  | pushPromise
  | ping
  | goaway
  | windowUpdate
  | continuation
  | unknown (code : UInt8)
deriving DecidableEq, Repr

def FrameType.ofByte : UInt8 → FrameType
  | 0x00 => .data
  | 0x01 => .headers
  | 0x02 => .priority
  | 0x03 => .rstStream
  | 0x04 => .settings
  | 0x05 => .pushPromise
  | 0x06 => .ping
  | 0x07 => .goaway
  | 0x08 => .windowUpdate
  | 0x09 => .continuation
  | code => .unknown code

structure Frame where
  kind : FrameType
  flags : UInt8 := 0
  streamId : ℕ
  payload : List UInt8
deriving DecidableEq, Repr

namespace Frame

def length (frame : Frame) : ℕ :=
  frame.payload.length

def has (frame : Frame) (flag : UInt8) : Bool :=
  frame.flags &&& flag != 0

end Frame

/-- The flags `END_STREAM` and `ACK`. -/
def endStreamFlag : UInt8 := 0x1

def ackFlag : UInt8 := 0x1

def endHeadersFlag : UInt8 := 0x4

def paddedFlag : UInt8 := 0x8

def priorityFlag : UInt8 := 0x20

namespace Frame

def endStream (frame : Frame) : Bool :=
  frame.has endStreamFlag

def endHeaders (frame : Frame) : Bool :=
  frame.has endHeadersFlag

def isAck (frame : Frame) : Bool :=
  frame.has ackFlag

end Frame

/-! ### Codes -/

inductive ErrorCode where
  | noError
  | protocolError
  | internalError
  | flowControlError
  | frameSizeError
  | refusedStream
  | cancel
  | compressionError
  | enhanceYourCalm
deriving DecidableEq, Repr

def ErrorCode.value : ErrorCode → ℕ
  | .noError => 0x0
  | .protocolError => 0x1
  | .internalError => 0x2
  | .flowControlError => 0x3
  | .frameSizeError => 0x6
  | .refusedStream => 0x7
  | .cancel => 0x8
  | .compressionError => 0x9
  | .enhanceYourCalm => 0xb

/-- The errors a session or a request can end with.  `other` is what a client reports. -/
inductive Error where
  | protocolError
  | frameSizeError
  | flowControlError
  | compressionError
  | headerListTooLarge
  | enhanceYourCalm
  | streamReset
  | refusedStream
  | goAway
  | contentLengthMismatch
  | requestBodyLengthMismatch
  | writeFailed
  | aborted
  | other
deriving DecidableEq, Repr

def errorCodeFor : Error → ErrorCode
  | .protocolError => .protocolError
  | .frameSizeError => .frameSizeError
  | .flowControlError => .flowControlError
  | .compressionError => .compressionError
  | .headerListTooLarge => .enhanceYourCalm
  | .enhanceYourCalm => .enhanceYourCalm
  | _ => .internalError

/-! ### Payloads -/

def uint31 (bytes : List UInt8) : ℕ :=
  BigEndian.ofBytes bytes % 2147483648

def stripPadding : List UInt8 → Option (List UInt8)
  | [] => none
  | pad :: rest =>
      if pad.toNat ≥ rest.length + 1 then none
      else some (rest.take (rest.length - pad.toNat))

def Frame.fragment (frame : Frame) : Option (List UInt8) :=
  let unpadded := if frame.has paddedFlag then stripPadding frame.payload else some frame.payload
  unpadded.bind fun payload =>
    if frame.has priorityFlag then
      if payload.length < streamPrioritySize then none else some (payload.drop streamPrioritySize)
    else some payload

def Frame.body (frame : Frame) : Option (List UInt8) :=
  if frame.has paddedFlag then stripPadding frame.payload else some frame.payload

/-- The entries of a SETTINGS payload: type and value. -/
def settingsUnits : List UInt8 → List (ℕ × ℕ)
  | a :: b :: c :: d :: e :: f :: rest =>
      (BigEndian.ofBytes [a, b], BigEndian.ofBytes [c, d, e, f]) :: settingsUnits rest
  | _ => []

def settingsHeaderTableSize : ℕ := 0x1

def settingsEnablePush : ℕ := 0x2

def settingsMaxConcurrentStreams : ℕ := 0x3

def settingsInitialWindowSize : ℕ := 0x4

def settingsMaxFrameSize : ℕ := 0x5

def settingsMaxHeaderListSize : ℕ := 0x6

def encodeSetting (setting value : ℕ) : List UInt8 :=
  BigEndian.toBytes 2 setting ++ BigEndian.toBytes 4 value

/-- A header that has arrived, with the length of the payload after it. -/
structure FrameHeader where
  length : ℕ
  kind : FrameType
  flags : UInt8
  streamId : ℕ

/-- The first nine bytes, when all of them are there. -/
def FrameHeader.decode : List UInt8 → Option FrameHeader
  | l0 :: l1 :: l2 :: kind :: flags :: s0 :: s1 :: s2 :: s3 :: _ =>
      some
        { length := BigEndian.ofBytes [l0, l1, l2]
          kind := FrameType.ofByte kind
          flags
          streamId := uint31 [s0, s1, s2, s3] }
  | _ => none

end Bun.Http2
