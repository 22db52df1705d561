/-
RFC 6455 decoding of a whole byte stream.

The stream is a sequence of frames.  A frame is read in one piece: its two-byte head,
the extended length, the masking key and the payload.  The head and the length are
checked as soon as they are known.  A message is the payload of a Text or Binary frame
followed by the payloads of its Continuation frames up to FIN; a control frame between
them is handled at its place.  The first violation ends the stream, and so does a Close.
-/

import Bun.WebSocket.Receiver

set_option autoImplicit false

namespace Bun.WebSocket

open Bun.Foundation

structure FrameHead where
  fin : Bool
  rsv1 : Bool
  rsv23 : Nat
  opcode : Opcode
  masked : Bool
  shortLength : Nat
deriving DecidableEq, Repr

namespace FrameHead

def ofBytes (first second : UInt8) : FrameHead :=
  { fin := decide (128 ≤ first.toNat)
    rsv1 := decide (first.toNat / 64 % 2 = 1)
    rsv23 := first.toNat / 16 % 4
    opcode := Opcode.fromRaw first.toNat
    masked := decide (128 ≤ second.toNat)
    shortLength := second.toNat % 128 }

def startsMessage (head : FrameHead) : Bool :=
  head.opcode == .text || head.opcode == .binary

def isData (head : FrameHead) : Bool :=
  head.startsMessage || head.opcode == .continuation

def isControl (head : FrameHead) : Bool :=
  head.opcode == .close || head.opcode == .ping || head.opcode == .pong

def lengthBytes (head : FrameHead) : Nat :=
  if head.isData then
    if head.shortLength = 126 then 2 else if head.shortLength = 127 then 8 else 0
  else 0

end FrameHead

structure Message where
  opcode : Opcode
  compressed : Bool
  payload : List UInt8
deriving DecidableEq, Repr

/-- What a decoder keeps between two frames: the message that is not complete, and the
window of the negotiated compression. -/
structure Decoder (Inflater : Type) where
  pending : Option Message
  deflate : Option Inflater

inductive FrameRead
  | short
  | violation (failure : Failure)
  | frame (head : FrameHead) (payload rest : List UInt8)
deriving DecidableEq, Repr

/-- The payload byte at `i` is combined with the key byte at `i` modulo four. -/
def unmasked (key payload : List UInt8) : List UInt8 :=
  payload.mapIdx fun index byte => byte ^^^ key.getD (index % 4) 0

def unmaskedBy (key : Option (List UInt8)) (payload : List UInt8) : List UInt8 :=
  match key with
  | none => payload
  | some bytes => unmasked bytes payload

/-- Whether a text has to be checked: the check can only be left out in `ws_mode`. -/
def ConnectedOptions.checksText (options : ConnectedOptions) : Bool :=
  !(options.wsMode && options.skipUtf8Validation)

variable {Inflater : Type}

namespace Decoder

/-! ### The rules of a frame -/

def headViolation (decoder : Decoder Inflater) (options : ConnectedOptions) (head : FrameHead) :
    Option Failure :=
  if head.rsv23 ≠ 0 then some { code := .unexpectedRsv2Or3 }
  else if head.masked ≠ options.isServer then
    some { code := if options.isServer then .expectedMask else .unexpectedMaskFromServer }
  else if !head.isData && !head.isControl then
    some { code := .unsupportedControlFrame, value := some head.opcode.toNat }
  else if head.startsMessage && decoder.pending.isSome ||
      head.opcode == .continuation && decoder.pending.isNone then
    some { code := .unexpectedOpcode, value := some head.opcode.toNat }
  else if head.isControl && !head.fin then some { code := .controlFrameIsFragmented }
  else if head.rsv1 && !(head.startsMessage && decoder.deflate.isSome) then
    some { code := .unexpectedRsv1 }
  else none

def growing (decoder : Decoder Inflater) (head : FrameHead) : Message :=
  match decoder.pending with
  | none => { opcode := head.opcode, compressed := head.rsv1, payload := [] }
  | some message => message

def lengthViolation (decoder : Decoder Inflater) (options : ConnectedOptions)
    (head : FrameHead) (length : Nat) : Option Failure :=
  if head.isData then
    if head.shortLength = 127 ∧ length > maxPayloadLengthLimit then
      some { code := .unsupportedPayloadLength }
    else if
        min ((decoder.growing head).payload.length + length) usizeMax > options.maxLength then
      some { code := .messageTooBig }
    else none
  else if length > maxControlPayload ∨ (length = 1 ∧ head.opcode = .close) then
    some { code := .invalidControlFrame, value := some length }
  else none

/-! ### Reading a frame -/

def readPayload (head : FrameHead) (length : Nat) (key : Option (List UInt8))
    (bytes : List UInt8) : FrameRead :=
  if bytes.length < length then .short
  else .frame head (unmaskedBy key (bytes.take length)) (bytes.drop length)

def readKey (head : FrameHead) (length : Nat) (bytes : List UInt8) : FrameRead :=
  if head.masked then
    if bytes.length < 4 then .short
    else readPayload head length (some (bytes.take 4)) (bytes.drop 4)
  else readPayload head length none bytes

def lengthOf (head : FrameHead) (bytes : List UInt8) : Nat :=
  if head.lengthBytes = 0 then head.shortLength
  else BigEndian.ofBytes (bytes.take head.lengthBytes)

def readLength (decoder : Decoder Inflater) (options : ConnectedOptions) (head : FrameHead)
    (bytes : List UInt8) : FrameRead :=
  if bytes.length < head.lengthBytes then .short
  else
    match decoder.lengthViolation options head (lengthOf head bytes) with
    | some failure => .violation failure
    | none => readKey head (lengthOf head bytes) (bytes.drop head.lengthBytes)

def readHead (decoder : Decoder Inflater) (options : ConnectedOptions) (head : FrameHead)
    (bytes : List UInt8) : FrameRead :=
  match decoder.headViolation options head with
  | some failure => .violation failure
  | none => decoder.readLength options head bytes

def readFrame (decoder : Decoder Inflater) (options : ConnectedOptions) :
    List UInt8 → FrameRead
  | first :: second :: bytes =>
      decoder.readHead options (FrameHead.ofBytes first second) bytes
  | _ => .short

/-! ### Handling a frame -/

def deliverData (decoder : Decoder Inflater) (codecs : Codecs Inflater)
    (options : ConnectedOptions) (kind : Opcode) (data : List UInt8) :
    List Event × Option (Decoder Inflater) :=
  if kind == .text && options.checksText && !codecs.isValidUtf8 data then
    ([.failed { code := .invalidUtf8 }], none)
  else ([.received kind data], some decoder)

def deliver (decoder : Decoder Inflater) (codecs : Codecs Inflater)
    (options : ConnectedOptions) (message : Message) :
    List Event × Option (Decoder Inflater) :=
  if message.compressed then
    match decoder.deflate with
    | none => ([.failed { code := .unexpectedRsv1 }], none)
    | some deflate =>
        let inflated := codecs.decompress deflate message.payload options.maxLength
        match inflated.2 with
        | .ok data =>
            deliverData { pending := none, deflate := some inflated.1 } codecs options
              message.opcode data
        | .error error => ([.failed { code := error.toErrorCode }], none)
  else
    deliverData { decoder with pending := none } codecs options message.opcode message.payload

def closeEvent (codecs : Codecs Inflater) (options : ConnectedOptions) : List UInt8 → Event
  | high :: low :: reason =>
      let code := BigEndian.ofBytes [high, low]
      if !isValidCloseCode code then
        .failed { code := .invalidCloseCode, value := some code }
      else if !options.skipUtf8Validation && !codecs.isValidUtf8 reason then
        .failed { code := .invalidUtf8 }
      else .closing code reason
  | _ => .closing 1005 []

def receive (decoder : Decoder Inflater) (codecs : Codecs Inflater)
    (options : ConnectedOptions) (head : FrameHead) (payload : List UInt8) :
    List Event × Option (Decoder Inflater) :=
  if head.isData then
    let message := decoder.growing head
    let message := { message with payload := message.payload ++ payload }
    if head.fin then decoder.deliver codecs options message
    else ([], some { decoder with pending := some message })
  else if head.opcode = .close then ([closeEvent codecs options payload], none)
  else ([.received head.opcode payload], some decoder)

theorem readPayload_rest {head head' : FrameHead} {length : Nat} {key : Option (List UInt8)}
    {bytes payload rest : List UInt8}
    (read : readPayload head length key bytes = .frame head' payload rest) :
    rest.length ≤ bytes.length := by
  unfold readPayload at read
  split at read
  · cases read
  · cases read
    rw [List.length_drop]
    omega

theorem readKey_rest {head head' : FrameHead} {length : Nat} {bytes payload rest : List UInt8}
    (read : readKey head length bytes = .frame head' payload rest) :
    rest.length ≤ bytes.length := by
  unfold readKey at read
  split at read
  · split at read
    · cases read
    · have shorter := readPayload_rest read
      rw [List.length_drop] at shorter
      omega
  · exact readPayload_rest read

theorem readLength_rest {decoder : Decoder Inflater} {options : ConnectedOptions}
    {head head' : FrameHead} {bytes payload rest : List UInt8}
    (read : decoder.readLength options head bytes = .frame head' payload rest) :
    rest.length ≤ bytes.length := by
  unfold readLength at read
  split at read
  · cases read
  · split at read
    · cases read
    · have shorter := readKey_rest read
      rw [List.length_drop] at shorter
      omega

theorem readFrame_rest {decoder : Decoder Inflater} {options : ConnectedOptions}
    {head : FrameHead} {bytes payload rest : List UInt8}
    (read : decoder.readFrame options bytes = .frame head payload rest) :
    rest.length < bytes.length := by
  unfold readFrame at read
  split at read
  · unfold readHead at read
    split at read
    · cases read
    · have shorter := readLength_rest read
      simp only [List.length_cons]
      omega
  · cases read

def decode (codecs : Codecs Inflater) (options : ConnectedOptions) (decoder : Decoder Inflater)
    (bytes : List UInt8) : List Event :=
  match _read : decoder.readFrame options bytes with
  | .short => []
  | .violation failure => [.failed failure]
  | .frame head payload rest =>
      let handled := decoder.receive codecs options head payload
      match handled.2 with
      | none => handled.1
      | some next => handled.1 ++ decode codecs options next rest
termination_by bytes.length
decreasing_by exact readFrame_rest _read

def proceed (codecs : Codecs Inflater) (options : ConnectedOptions)
    (decoder : Decoder Inflater) : FrameRead → List Event
  | .short => []
  | .violation failure => [.failed failure]
  | .frame head payload rest =>
      let handled := decoder.receive codecs options head payload
      match handled.2 with
      | none => handled.1
      | some next => handled.1 ++ decode codecs options next rest

theorem decode_eq_proceed (codecs : Codecs Inflater) (options : ConnectedOptions)
    (decoder : Decoder Inflater) (bytes : List UInt8) :
    decode codecs options decoder bytes =
      proceed codecs options decoder (decoder.readFrame options bytes) := by
  rw [decode]
  split
  · rename_i read
    rw [read]
    rfl
  · rename_i read
    rw [read]
    rfl
  · rename_i read
    rw [read]
    rfl

/-! ### The end of a stream -/

theorem deliverData_last (decoder : Decoder Inflater) (codecs : Codecs Inflater)
    (options : ConnectedOptions) (kind : Opcode) (data : List UInt8) :
    let handled := decoder.deliverData codecs options kind data
    handled.1.length ≤ 1 ∧ (handled.2.isSome → ∀ event ∈ handled.1, event.isLast = false) := by
  unfold deliverData
  split
  · exact ⟨le_refl _, nofun⟩
  · exact ⟨le_refl _, fun _ event isIn => by rw [List.mem_singleton.mp isIn]; rfl⟩

theorem deliver_last (decoder : Decoder Inflater) (codecs : Codecs Inflater)
    (options : ConnectedOptions) (message : Message) :
    let handled := decoder.deliver codecs options message
    handled.1.length ≤ 1 ∧ (handled.2.isSome → ∀ event ∈ handled.1, event.isLast = false) := by
  unfold deliver
  split
  · split
    · exact ⟨le_refl _, nofun⟩
    · dsimp only
      split
      · exact deliverData_last _ codecs options _ _
      · exact ⟨le_refl _, nofun⟩
  · exact deliverData_last _ codecs options _ _

/-- A frame reports at most one event, and only its last frame ends a stream. -/
theorem receive_last (decoder : Decoder Inflater) (codecs : Codecs Inflater)
    (options : ConnectedOptions) (head : FrameHead) (payload : List UInt8) :
    let handled := decoder.receive codecs options head payload
    handled.1.length ≤ 1 ∧ (handled.2.isSome → ∀ event ∈ handled.1, event.isLast = false) := by
  unfold receive
  split
  · dsimp only
    split
    · exact deliver_last decoder codecs options _
    · exact ⟨Nat.zero_le _, fun _ event isIn => absurd isIn List.not_mem_nil⟩
  · split
    · exact ⟨le_refl _, nofun⟩
    · exact ⟨le_refl _, fun _ event isIn => by rw [List.mem_singleton.mp isIn]; rfl⟩

theorem dropLast_of_length_le_one {events : List Event} (short : events.length ≤ 1) :
    events.dropLast = [] := by
  cases events with
  | nil => rfl
  | cons event rest =>
      have restNil : rest = [] := List.length_eq_zero_iff.mp (by
        rw [List.length_cons] at short
        omega)
      rw [restNil]
      rfl

theorem decode_dropLast (codecs : Codecs Inflater) (options : ConnectedOptions)
    (decoder : Decoder Inflater) (bytes : List UInt8) :
    ∀ event ∈ (decode codecs options decoder bytes).dropLast, event.isLast = false := by
  induction size : bytes.length using Nat.strong_induction_on generalizing decoder bytes with
  | _ size shorter =>
      intro event isIn
      rw [decode_eq_proceed] at isIn
      cases read : decoder.readFrame options bytes with
      | short =>
          rw [read] at isIn
          exact absurd isIn List.not_mem_nil
      | violation failure =>
          rw [read] at isIn
          exact absurd isIn List.not_mem_nil
      | frame head payload rest =>
          rw [read, proceed] at isIn
          obtain ⟨single, inner⟩ := receive_last decoder codecs options head payload
          revert isIn single inner
          generalize decoder.receive codecs options head payload = handled
          obtain ⟨events, next⟩ := handled
          cases next with
          | none =>
              intro isIn single inner
              dsimp only at isIn single
              rw [dropLast_of_length_le_one single] at isIn
              exact absurd isIn List.not_mem_nil
          | some next =>
              intro isIn single inner
              dsimp only at isIn
              by_cases noMore : decode codecs options next rest = []
              · rw [noMore, List.append_nil] at isIn
                exact inner rfl event (List.mem_of_mem_dropLast isIn)
              · rw [List.dropLast_append_of_ne_nil noMore, List.mem_append] at isIn
                rcases isIn with here | later
                · exact inner rfl event here
                · exact shorter rest.length (size ▸ readFrame_rest read) next rest rfl event later


end Decoder

end Bun.WebSocket
