/-
Writing frames, and reading them back by the other role.

`Copy::copy` puts the header, the extended length, the masking key and the payload into
a buffer whose size was computed before.  Text is transcoded in place and masked
afterwards.
-/

import Bun.Core.TextCopy
import Bun.WebSocket.ReceiverRuns

set_option autoImplicit false

namespace Bun.WebSocket

open Bun.Foundation
open Bun.Core

inductive Copy
  | utf16 (units : List UInt16)
  | latin1 (bytes : List UInt8)
  | bytes (bytes : List UInt8)
deriving DecidableEq, Repr

/-- The header fields of an outgoing frame.  A client masks, a server does not. -/
structure FrameKind where
  opcode : Opcode
  fin : Bool
  masked : Bool
deriving DecidableEq, Repr

/-- The parts of a frame-sized buffer; `rest` is what the parts leave over. -/
structure FrameParts where
  header : List UInt8
  mask : Option (List UInt8)
  payload : List UInt8
  rest : List UInt8
deriving DecidableEq, Repr

/-- The buffer with the extended length written, in parts.  `none` is a range outside
the buffer. -/
def splitFrame (buf : List UInt8) (contentByteLen : Nat) (masked : Bool) : Option FrameParts :=
  let lengthByteCount := WebsocketHeader.lengthByteCount contentByteLen
  if buf.length < 2 + lengthByteCount + 4 * masked.toNat + contentByteLen then none
  else
    let buf := buf.take 2 ++ BigEndian.toBytes lengthByteCount contentByteLen ++
      buf.drop (2 + lengthByteCount)
    let header := buf.take (2 + lengthByteCount)
    let rest := buf.drop (2 + lengthByteCount)
    let payload := if masked then rest.drop 4 else rest
    some
      { header := header
        mask := if masked then some (rest.take 4) else none
        payload := payload.take contentByteLen
        rest := payload.drop contentByteLen }

def isZeroKey (key : FixedArray UInt8 4) : Bool :=
  key.items.all (· == 0)

def maskFill (key : FixedArray UInt8 4) (output input : List UInt8) : Option (List UInt8) :=
  if input.isEmpty then some output
  else if output.length < input.length then none
  else some (fillWithSkipMask key input (isZeroKey key) ++ output.drop input.length)

def maskFillInPlace (key : FixedArray UInt8 4) (buf : List UInt8) : List UInt8 :=
  if buf.isEmpty then buf else fillWithSkipMask key buf (isZeroKey key)

namespace Copy

def frameAndContentLen (copy : Copy) (simdutf : Simdutf) (masked : Bool) : Nat × Nat :=
  let byteLen :=
    match copy with
    | utf16 units => elementLengthUtf16IntoUtf8 simdutf units
    | latin1 text => elementLengthLatin1IntoUtf8 simdutf text
    | bytes raw => raw.length
  (WebsocketHeader.frameSize byteLen masked, byteLen)

def writePayload (copy : Copy) (simdutf : Simdutf) (key : FixedArray UInt8 4)
    (mask : Option (List UInt8)) (payload : List UInt8) : Option (List UInt8) :=
  let masked (text : List UInt8) : List UInt8 :=
    match mask with
    | none => text
    | some _ => maskFillInPlace key text
  match copy with
  | utf16 units =>
      let encoded := copyUtf16IntoUtf8 simdutf payload.length units
      some (masked (encoded ++ payload.drop encoded.length))
  | latin1 text =>
      let encoded := copyLatin1IntoUtf8 payload.length text
      some (masked (encoded ++ payload.drop encoded.length))
  | bytes raw =>
      match mask with
      | some _ => maskFill key payload raw
      | none => if payload.length = raw.length then some raw else none

/-- The buffer after the copy; `key` is the key the random source gives. -/
def copyWithRsv1 (copy : Copy) (simdutf : Simdutf) (key : FixedArray UInt8 4)
    (buf : List UInt8) (contentByteLen : Nat) (kind : FrameKind) (compressed : Bool) :
    Option (List UInt8) :=
  let header := WebsocketHeader.new (WebsocketHeader.packLength contentByteLen) kind.masked
    kind.opcode
  let header := (header.setFinal kind.fin).setCompressed compressed
  match splitFrame buf contentByteLen kind.masked with
  | none => none
  | some parts =>
      match copy.writePayload simdutf key parts.mask parts.payload with
      | none => none
      | some payload =>
          some (header.toBytes ++ parts.header.drop 2 ++
            (match parts.mask with
            | none => []
            | some _ => key.items) ++ payload ++ parts.rest)

def copy (content : Copy) (simdutf : Simdutf) (key : FixedArray UInt8 4) (buf : List UInt8)
    (contentByteLen : Nat) (kind : FrameKind) : Option (List UInt8) :=
  content.copyWithRsv1 simdutf key buf contentByteLen kind false

def content : Copy → List UInt8
  | utf16 units => encodeText (utf16Text units)
  | latin1 text => encodeText (latin1Text text)
  | bytes raw => raw

end Copy

/-! ### The bytes of a frame -/

def wireFrame (key : FixedArray UInt8 4) (kind : FrameKind) (content : List UInt8) :
    List UInt8 :=
  let header := WebsocketHeader.new (WebsocketHeader.packLength content.length) kind.masked
    kind.opcode
  ((header.setFinal kind.fin).setCompressed false).toBytes ++
    BigEndian.toBytes (WebsocketHeader.lengthByteCount content.length) content.length ++
    (if kind.masked then key.items ++ unmasked key.items content else content)

theorem length_unmasked (key payload : List UInt8) :
    (unmasked key payload).length = payload.length := List.length_mapIdx

theorem length_wireFrame (key : FixedArray UInt8 4) (kind : FrameKind) (content : List UInt8) :
    (wireFrame key kind content).length =
      WebsocketHeader.frameSize content.length kind.masked := by
  unfold wireFrame WebsocketHeader.frameSize
  cases kind.masked with
  | true =>
      simp [WebsocketHeader.toBytes, length_unmasked, key.length_items]
      omega
  | false =>
      simp [WebsocketHeader.toBytes]
      omega

theorem getD_zeroKey {key : FixedArray UInt8 4} (zero : isZeroKey key = true) (index : Nat) :
    key.items.getD index 0 = 0 := by
  rw [isZeroKey, List.all_eq_true] at zero
  by_cases inside : index < key.items.length
  · rw [List.getD_eq_getElem _ _ inside]
    simpa using zero _ (List.getElem_mem inside)
  · exact List.getD_eq_default _ _ (by omega)

theorem fillWithSkipMask_isZeroKey (key : FixedArray UInt8 4) (input : List UInt8) :
    fillWithSkipMask key input (isZeroKey key) = unmasked key.items input := by
  cases zero : isZeroKey key with
  | false => rfl
  | true =>
      unfold fillWithSkipMask unmasked
      rw [if_pos rfl]
      simp only [getD_zeroKey zero, UInt8.xor_zero]
      exact (List.mapIdx_eq_iff.mpr fun index => by simp).symm

theorem maskFillInPlace_eq (key : FixedArray UInt8 4) (buf : List UInt8) :
    maskFillInPlace key buf = unmasked key.items buf := by
  unfold maskFillInPlace
  cases buf with
  | nil => rfl
  | cons byte rest =>
      rw [if_neg (by simp)]
      exact fillWithSkipMask_isZeroKey key (byte :: rest)

theorem unmasked_unmasked (key payload : List UInt8) :
    unmasked key (unmasked key payload) = payload := by
  unfold unmasked
  apply List.ext_getElem
  · simp
  · intro index inside inPayload
    rw [List.getElem_mapIdx, List.getElem_mapIdx, UInt8.xor_assoc, UInt8.xor_self, UInt8.xor_zero]

/-! ### The copy fills its buffer -/

theorem frameAndContentLen_eq {simdutf : Simdutf} (documented : simdutf.Documented)
    (copy : Copy) (masked : Bool) :
    copy.frameAndContentLen simdutf masked =
      (WebsocketHeader.frameSize copy.content.length masked, copy.content.length) := by
  cases copy with
  | utf16 units =>
      simp only [Copy.frameAndContentLen, Copy.content, elementLengthUtf16IntoUtf8,
        documented.replacedLength]
  | latin1 text =>
      simp only [Copy.frameAndContentLen, Copy.content,
        elementLengthLatin1IntoUtf8_eq documented]
  | bytes raw => rfl

theorem writePayload_eq {simdutf : Simdutf} (documented : simdutf.Documented) (copy : Copy)
    (key : FixedArray UInt8 4) (mask : Option (List UInt8)) (payload : List UInt8)
    (fits : payload.length = copy.content.length) :
    copy.writePayload simdutf key mask payload =
      some (if mask.isSome then unmasked key.items copy.content else copy.content) := by
  have text : ∀ encoded, encoded = copy.content →
      (match mask with
        | none => encoded ++ payload.drop encoded.length
        | some _ => maskFillInPlace key (encoded ++ payload.drop encoded.length)) =
        if mask.isSome then unmasked key.items copy.content else copy.content := by
    rintro encoded rfl
    rw [List.drop_of_length_le (by omega), List.append_nil]
    cases mask with
    | none => rfl
    | some bytes => exact maskFillInPlace_eq key _
  cases copy with
  | utf16 units =>
      unfold Copy.writePayload
      rw [fits]
      exact congrArg some (text _ (copyUtf16IntoUtf8_eq documented units))
  | latin1 raw =>
      unfold Copy.writePayload
      rw [fits]
      exact congrArg some (text _ (copyLatin1IntoUtf8_eq raw))
  | bytes raw =>
      have fitsRaw : payload.length = raw.length := fits
      unfold Copy.writePayload
      cases mask with
      | none => exact if_pos fits
      | some bytes =>
          dsimp only
          unfold maskFill
          cases raw with
          | nil =>
              rw [if_pos List.isEmpty_nil, List.length_eq_zero_iff.mp fitsRaw]
              rfl
          | cons byte rest =>
              rw [if_neg (by simp), if_neg (by omega), fillWithSkipMask_isZeroKey,
                List.drop_of_length_le (by omega), List.append_nil]
              rfl

theorem splitFrame_eq (buf : List UInt8) (contentByteLen : Nat) (masked : Bool)
    (size : buf.length = WebsocketHeader.frameSize contentByteLen masked) :
    ∃ parts, splitFrame buf contentByteLen masked = some parts ∧
      parts.header.drop 2 =
        BigEndian.toBytes (WebsocketHeader.lengthByteCount contentByteLen) contentByteLen ∧
      parts.mask.isSome = masked ∧ parts.payload.length = contentByteLen ∧ parts.rest = [] := by
  unfold WebsocketHeader.frameSize at size
  unfold splitFrame
  rw [if_neg (by omega)]
  refine ⟨_, rfl, ?_⟩
  generalize WebsocketHeader.lengthByteCount contentByteLen = count at size ⊢
  have front : (buf.take 2 ++ BigEndian.toBytes count contentByteLen).length = 2 + count := by
    rw [List.length_append, BigEndian.toBytes_length, List.length_take]
    omega
  have headerEq : ((buf.take 2 ++ BigEndian.toBytes count contentByteLen) ++
      buf.drop (2 + count)).take (2 + count) =
      buf.take 2 ++ BigEndian.toBytes count contentByteLen := List.take_left' front
  have restEq : ((buf.take 2 ++ BigEndian.toBytes count contentByteLen) ++
      buf.drop (2 + count)).drop (2 + count) = buf.drop (2 + count) := List.drop_left' front
  dsimp only
  rw [headerEq, restEq]
  have twoBytes : (buf.take 2).length = 2 := List.length_take_of_le (by omega)
  refine ⟨List.drop_left' twoBytes, ?_, ?_, ?_⟩
  · cases masked <;> rfl
  · cases masked with
    | true =>
        change (((buf.drop (2 + count)).drop 4).take contentByteLen).length = _
        simp only [List.length_take, List.length_drop]
        simp only [Bool.toNat_true] at size
        omega
    | false =>
        change ((buf.drop (2 + count)).take contentByteLen).length = _
        simp only [List.length_take, List.length_drop]
        simp only [Bool.toNat_false] at size
        omega
  · cases masked with
    | true =>
        change ((buf.drop (2 + count)).drop 4).drop contentByteLen = []
        apply List.drop_of_length_le
        simp only [List.length_drop]
        simp only [Bool.toNat_true] at size
        omega
    | false =>
        change (buf.drop (2 + count)).drop contentByteLen = []
        apply List.drop_of_length_le
        simp only [List.length_drop]
        simp only [Bool.toNat_false] at size
        omega

theorem copy_eq_wireFrame {simdutf : Simdutf} (documented : simdutf.Documented)
    (content : Copy) (key : FixedArray UInt8 4) (kind : FrameKind) (buf : List UInt8)
    (size : buf.length = (content.frameAndContentLen simdutf kind.masked).1) :
    content.copy simdutf key buf (content.frameAndContentLen simdutf kind.masked).2 kind =
      some (wireFrame key kind content.content) := by
  rw [frameAndContentLen_eq documented] at size ⊢
  obtain ⟨parts, partsEq, headerEq, maskEq, payloadEq, restEq⟩ := splitFrame_eq buf _ _ size
  unfold Copy.copy Copy.copyWithRsv1
  dsimp only
  rw [partsEq]
  dsimp only
  rw [writePayload_eq documented content key parts.mask parts.payload payloadEq, maskEq]
  dsimp only
  rw [headerEq, restEq, List.append_nil, wireFrame, List.append_assoc, List.append_assoc,
    List.append_assoc]
  cases maskIs : parts.mask with
  | none =>
      rw [maskIs] at maskEq
      rw [← maskEq]
      rfl
  | some bytes =>
      rw [maskIs] at maskEq
      rw [← maskEq]
      rfl

/-! ### The header of a written frame -/

namespace WebsocketHeader

private theorem or_and_distrib (x y z : UInt16) : (x ||| y) &&& z = (x &&& z) ||| (y &&& z) :=
  UInt16.toBitVec_inj.mp BitVec.and_or_distrib_right

private theorem separate_length (length mask opcode top keepFinal fin keepRsv1 rsv1 : UInt16) :
    ((((length ||| mask ||| opcode ||| top) &&& keepFinal) ||| fin) &&& keepRsv1) ||| rsv1 =
      (((((mask ||| opcode ||| top) &&& keepFinal) ||| fin) &&& keepRsv1) ||| rsv1) |||
        ((length &&& keepFinal) &&& keepRsv1) := by
  simp only [or_and_distrib]
  ac_rfl

private def upperBits (mask : Bool) (opcode : Opcode) (fin compressed : Bool) : UInt16 :=
  (((((mask.toUInt16 <<< (7 : UInt16)) |||
        ((UInt16.ofNat opcode.toNat &&& (0xF : UInt16)) <<< (8 : UInt16)) |||
        ((1 : UInt16) <<< (15 : UInt16))) &&& ~~~((1 : UInt16) <<< (15 : UInt16))) |||
      (fin.toUInt16 <<< (15 : UInt16))) &&& ~~~((1 : UInt16) <<< (14 : UInt16))) |||
    (compressed.toUInt16 <<< (14 : UInt16))

private theorem upperBits_eq (mask : Bool) (opcode : Opcode) (fin compressed : Bool) :
    (upperBits mask opcode fin compressed).toNat =
      (fin.toNat * 256 + compressed.toNat * 128 + opcode.toNat * 2 + mask.toNat) <<< 7 := by
  cases opcode <;> cases mask <;> cases fin <;> cases compressed <;> rfl

private theorem lengthBits_eq : ∀ len : Fin 128,
    ((UInt8.ofNat len.val).toUInt16 &&& (0x7F : UInt16)) &&& ~~~((1 : UInt16) <<< (15 : UInt16)) &&&
        ~~~((1 : UInt16) <<< (14 : UInt16)) = UInt16.ofNat len.val := by
  decide +kernel

theorem toNat_bits (len : UInt8) (small : len.toNat < 128) (mask : Bool) (opcode : Opcode)
    (fin compressed : Bool) :
    (((new len mask opcode).setFinal fin).setCompressed compressed).bits.toNat =
      (fin.toNat * 256 + compressed.toNat * 128 + opcode.toNat * 2 + mask.toNat) * 128 +
        len.toNat := by
  have bitsEq : (((new len mask opcode).setFinal fin).setCompressed compressed).bits =
      upperBits mask opcode fin compressed ||| UInt16.ofNat len.toNat := by
    have lengthEq := lengthBits_eq ⟨len.toNat, small⟩
    simp only [UInt8.ofNat_toNat] at lengthEq
    rw [← lengthEq]
    exact separate_length _ _ _ _ _ _ _ _
  have lengthNat : (UInt16.ofNat len.toNat).toNat = len.toNat := by
    rw [UInt16.toNat_ofNat']
    omega
  rw [bitsEq, UInt16.toNat_or, upperBits_eq, lengthNat,
    ← Nat.shiftLeft_add_eq_or_of_lt (show len.toNat < 2 ^ 7 from small), Nat.shiftLeft_eq]

theorem ofBytes_toBytes (len : UInt8) (small : len.toNat < 128) (mask : Bool) (opcode : Opcode)
    (fin compressed : Bool) :
    ∃ first second,
      (((new len mask opcode).setFinal fin).setCompressed compressed).toBytes = [first, second] ∧
        FrameHead.ofBytes first second =
          { fin := fin
            rsv1 := compressed
            rsv23 := 0
            opcode := opcode
            masked := mask
            shortLength := len.toNat } := by
  refine ⟨_, _, rfl, ?_⟩
  have value := toNat_bits len small mask opcode fin compressed
  generalize (((new len mask opcode).setFinal fin).setCompressed compressed).bits = bits at value
  have bounded := bits.toNat_lt
  have opcodeLt := opcode.toNat_lt
  have firstEq : (bits >>> 8).toUInt8.toNat =
      fin.toNat * 128 + compressed.toNat * 64 + opcode.toNat := by
    rw [UInt16.toNat_toUInt8, UInt16.toNat_shiftRight]
    change bits.toNat >>> 8 % 256 = _
    rw [Nat.shiftRight_eq_div_pow]
    cases fin <;> cases compressed <;> cases mask <;> simp at value ⊢ <;> omega
  have secondEq : bits.toUInt8.toNat = mask.toNat * 128 + len.toNat := by
    rw [UInt16.toNat_toUInt8]
    cases fin <;> cases compressed <;> cases mask <;> simp at value ⊢ <;> omega
  have opcodeEq : Opcode.fromRaw (fin.toNat * 128 + compressed.toNat * 64 + opcode.toNat) =
      opcode := by
    have low : (fin.toNat * 128 + compressed.toNat * 64 + opcode.toNat) % 16 = opcode.toNat := by
      cases fin <;> cases compressed <;> simp <;> omega
    rw [← Opcode.fromRaw_mod, low, Opcode.fromRaw_toNat]
  unfold FrameHead.ofBytes
  rw [firstEq, secondEq, opcodeEq]
  clear firstEq secondEq opcodeEq value bounded
  have finEq : decide (128 ≤ fin.toNat * 128 + compressed.toNat * 64 + opcode.toNat) = fin := by
    cases fin <;> cases compressed <;> simp <;> omega
  have rsv1Eq : decide ((fin.toNat * 128 + compressed.toNat * 64 + opcode.toNat) / 64 % 2 = 1) =
      compressed := by
    cases fin <;> cases compressed <;> simp <;> omega
  have rsv23Eq : (fin.toNat * 128 + compressed.toNat * 64 + opcode.toNat) / 16 % 4 = 0 := by
    cases fin <;> cases compressed <;> simp <;> omega
  have maskEq : decide (128 ≤ mask.toNat * 128 + len.toNat) = mask := by
    cases mask with
    | true => simp
    | false => simpa using small
  have lengthEq : (mask.toNat * 128 + len.toNat) % 128 = len.toNat := by omega
  rw [finEq, rsv1Eq, rsv23Eq, maskEq, lengthEq]

end WebsocketHeader

/-! ### Reading a written frame -/

def IsDataOpcode (opcode : Opcode) : Prop :=
  opcode = .continuation ∨ opcode = .text ∨ opcode = .binary

def IsControlOpcode (opcode : Opcode) : Prop :=
  opcode = .close ∨ opcode = .ping ∨ opcode = .pong

/-- A frame that RFC 6455 allows: control frames are whole, have at most 125 bytes and
no Close of one byte. -/
def WellFormed (kind : FrameKind) (content : List UInt8) : Prop :=
  IsDataOpcode kind.opcode ∨
    (IsControlOpcode kind.opcode ∧ kind.fin = true ∧ content.length ≤ maxControlPayload ∧
      ¬(content.length = 1 ∧ kind.opcode = .close))

/-- A frame that the receiver takes: its length is also below `2 ^ 53`. -/
structure Sendable (kind : FrameKind) (content : List UInt8) : Prop where
  wellFormed : WellFormed kind content
  supported : content.length ≤ maxPayloadLengthLimit

variable {Inflater : Type}

/-- The place of a data frame in the stream: a continuation needs a message to continue,
a new message needs that there is none. -/
def Decoder.Expects (decoder : Decoder Inflater) (opcode : Opcode) : Prop :=
  (opcode = .continuation → decoder.pending.isSome = true) ∧
    (opcode = .text ∨ opcode = .binary → decoder.pending = none)

structure Opposite (options : ConnectedOptions) (masked : Bool) : Prop where
  role : options.isServer = masked
  unlimited : options.maxPayloadLength = 0

def FrameKind.head (kind : FrameKind) (length : Nat) : FrameHead :=
  { fin := kind.fin
    rsv1 := false
    rsv23 := 0
    opcode := kind.opcode
    masked := kind.masked
    shortLength := (WebsocketHeader.packLength length).toNat }

theorem packLength_toNat (length : Nat) :
    (WebsocketHeader.packLength length).toNat =
      if length ≤ 125 then length else if length ≤ 0xFFFF then 126 else 127 := by
  unfold WebsocketHeader.packLength
  by_cases short : length ≤ 125
  · rw [if_pos short, if_pos short, UInt8.toNat_ofNat']
    omega
  · rw [if_neg short, if_neg short]
    split <;> rfl

theorem head_isData {kind : FrameKind} (length : Nat) (isData : IsDataOpcode kind.opcode) :
    (kind.head length).isData = true := by
  unfold FrameHead.isData FrameHead.startsMessage FrameKind.head
  rcases isData with opcode | opcode | opcode <;> simp [opcode]

theorem head_isControl {kind : FrameKind} (length : Nat)
    (isControl : IsControlOpcode kind.opcode) : (kind.head length).isControl = true := by
  unfold FrameHead.isControl FrameKind.head
  rcases isControl with opcode | opcode | opcode <;> simp [opcode]

theorem head_lengthBytes {kind : FrameKind} {content : List UInt8}
    (wellFormed : WellFormed kind content) :
    (kind.head content.length).lengthBytes = WebsocketHeader.lengthByteCount content.length := by
  have short : (kind.head content.length).shortLength =
      if content.length ≤ 125 then content.length
      else if content.length ≤ 0xFFFF then 126 else 127 := packLength_toNat content.length
  unfold WebsocketHeader.lengthByteCount FrameHead.lengthBytes
  rcases wellFormed with isData | ⟨isControl, -, bounded, -⟩
  · rw [if_pos (head_isData _ isData), short]
    by_cases inHeader : content.length ≤ 125
    · rw [if_pos inHeader, if_pos inHeader, if_neg (by omega), if_neg (by omega)]
    · rw [if_neg inHeader, if_neg inHeader]
      by_cases twoBytes : content.length ≤ 0xFFFF
      · rw [if_pos twoBytes, if_pos twoBytes, if_pos rfl]
      · rw [if_neg twoBytes, if_neg twoBytes, if_neg (by decide), if_pos rfl]
  · rw [isData_of_isControl (head_isControl _ isControl), if_neg (by decide),
      if_pos (show content.length ≤ 125 from bounded)]

theorem lengthOf_wire {kind : FrameKind} {content : List UInt8}
    (wellFormed : WellFormed kind content) (fits : content.length < 2 ^ 64)
    (rest : List UInt8) :
    Decoder.lengthOf (kind.head content.length)
      (BigEndian.toBytes (WebsocketHeader.lengthByteCount content.length) content.length ++ rest) =
      content.length := by
  have widthEq := head_lengthBytes wellFormed
  unfold Decoder.lengthOf
  rw [widthEq, List.take_left' (BigEndian.toBytes_length _ _)]
  unfold WebsocketHeader.lengthByteCount
  by_cases inHeader : content.length ≤ 125
  · rw [if_pos inHeader, if_pos rfl]
    exact (packLength_toNat content.length).trans (if_pos inHeader)
  · rw [if_neg inHeader]
    by_cases twoBytes : content.length ≤ 0xFFFF
    · rw [if_pos twoBytes, if_neg (by decide)]
      exact BigEndian.ofBytes_toBytes 2 _ (by omega)
    · rw [if_neg twoBytes, if_neg (by decide)]
      exact BigEndian.ofBytes_toBytes 8 _ (by omega)

theorem headViolation_wire {kind : FrameKind} {content : List UInt8}
    (wellFormed : WellFormed kind content) {options : ConnectedOptions}
    (opposite : Opposite options kind.masked) {decoder : Decoder Inflater}
    (expects : decoder.Expects kind.opcode) :
    decoder.headViolation options (kind.head content.length) = none := by
  have known : (kind.head content.length).isData = true ∨
      (kind.head content.length).isControl = true := by
    rcases wellFormed with isData | ⟨isControl, -⟩
    · exact Or.inl (head_isData _ isData)
    · exact Or.inr (head_isControl _ isControl)
  rw [headViolation_eq decoder (show (kind.head content.length).rsv23 = 0 from rfl)
    (show kind.masked = options.isServer from opposite.role.symm) known]
  have inSequence : ((kind.head content.length).startsMessage && decoder.pending.isSome ||
      (kind.head content.length).opcode == .continuation && decoder.pending.isNone) = false := by
    obtain ⟨continues, starts⟩ := expects
    unfold FrameHead.startsMessage FrameKind.head
    dsimp only
    rcases wellFormed with (opcode | opcode | opcode) | ⟨opcode | opcode | opcode, -⟩
    · have isSome := continues opcode
      rw [← Option.not_isSome, isSome]
      simp [opcode]
    · simp [starts (Or.inl opcode), opcode]
    · simp [starts (Or.inr opcode), opcode]
    all_goals simp [opcode]
  have whole : ((kind.head content.length).isControl && !(kind.head content.length).fin) =
      false := by
    rcases wellFormed with isData | ⟨-, fin, -⟩
    · unfold FrameHead.isControl FrameKind.head
      rcases isData with opcode | opcode | opcode <;> simp [opcode]
    · rw [show (kind.head content.length).fin = true from fin]
      simp
  rw [if_neg (by rw [inSequence]; decide), if_neg (by rw [whole]; decide)]
  exact if_neg (by simp [FrameKind.head])

theorem lengthViolation_wire {kind : FrameKind} {content : List UInt8}
    (sendable : Sendable kind content) {options : ConnectedOptions}
    (opposite : Opposite options kind.masked) (decoder : Decoder Inflater) :
    decoder.lengthViolation options (kind.head content.length) content.length = none := by
  unfold Decoder.lengthViolation
  rcases sendable.wellFormed with isData | ⟨isControl, -, bounded, notShort⟩
  · have supported := sendable.supported
    rw [if_pos (head_isData _ isData), if_neg (by omega), if_neg]
    have unlimited : options.maxLength = usizeMax := by
      rw [ConnectedOptions.maxLength, opposite.unlimited]
      rfl
    rw [unlimited]
    omega
  · rw [isData_of_isControl (head_isControl _ isControl), if_neg (by decide)]
    refine if_neg ?_
    rintro (tooLong | oneByte)
    · omega
    · exact notShort oneByte

theorem readFrame_length (key : FixedArray UInt8 4) (kind : FrameKind) {content : List UInt8}
    (wellFormed : WellFormed kind content) (fits : content.length < 2 ^ 64)
    (options : ConnectedOptions) (opposite : Opposite options kind.masked)
    (decoder : Decoder Inflater) (expects : decoder.Expects kind.opcode) (more : List UInt8) :
    decoder.readFrame options (wireFrame key kind content ++ more) =
      match decoder.lengthViolation options (kind.head content.length) content.length with
      | some failure => .violation failure
      | none =>
          Decoder.readKey (kind.head content.length) content.length
            ((if kind.masked then key.items ++ unmasked key.items content else content) ++
              more) := by
  have small : (WebsocketHeader.packLength content.length).toNat < 128 := by
    rw [packLength_toNat]
    split
    · omega
    · split <;> decide
  obtain ⟨first, second, headerEq, headEq⟩ := WebsocketHeader.ofBytes_toBytes
    (WebsocketHeader.packLength content.length) small kind.masked kind.opcode kind.fin false
  have headIs : FrameHead.ofBytes first second = kind.head content.length := headEq
  unfold wireFrame
  dsimp only
  rw [headerEq, List.append_assoc, List.append_assoc, List.cons_append, List.cons_append,
    List.nil_append, Decoder.readFrame, headIs, Decoder.readHead,
    headViolation_wire wellFormed opposite expects]
  dsimp only
  rewrite [Decoder.readLength, head_lengthBytes wellFormed, lengthOf_wire wellFormed fits,
    if_neg (by simp), List.drop_left' (BigEndian.toBytes_length _ _)]
  rfl

theorem readFrame_wireFrame (key : FixedArray UInt8 4) {kind : FrameKind}
    {content : List UInt8} (sendable : Sendable kind content) {options : ConnectedOptions}
    (opposite : Opposite options kind.masked) {decoder : Decoder Inflater}
    (expects : decoder.Expects kind.opcode) (more : List UInt8) :
    decoder.readFrame options (wireFrame key kind content ++ more) =
      .frame (kind.head content.length) content more := by
  have fits : content.length < 2 ^ 64 := by
    have supported := sendable.supported
    unfold maxPayloadLengthLimit at supported
    omega
  rw [readFrame_length key kind sendable.wellFormed fits options opposite decoder expects,
    lengthViolation_wire sendable opposite]
  dsimp only
  rw [Decoder.readKey]
  change (if kind.masked = true then _ else _) = _
  cases masked : kind.masked with
  | true =>
      have fourBytes : key.items.length = 4 := key.length_items
      rw [if_pos rfl, if_pos rfl, List.append_assoc, if_neg (by simp [fourBytes]),
        List.take_left' fourBytes, List.drop_left' fourBytes, Decoder.readPayload,
        if_neg (by simp [length_unmasked]), List.take_left' (length_unmasked _ _),
        List.drop_left' (length_unmasked _ _)]
      exact congrArg (fun payload => FrameRead.frame _ payload more)
        (unmasked_unmasked key.items content)
  | false =>
      rw [if_neg (by decide), if_neg (by decide), Decoder.readPayload, if_neg (by simp),
        List.take_left, List.drop_left]
      rfl

/-! ### Whole messages -/

structure Piece where
  copy : Copy
  key : FixedArray UInt8 4
deriving DecidableEq, Repr

/-- What an endpoint sends: a message in one or more fragments, or a Ping or Pong. -/
inductive Outgoing
  | message (opcode : Opcode) (first : Piece) (rest : List Piece)
  | control (opcode : Opcode) (piece : Piece)
deriving DecidableEq, Repr

def messageFrames (masked : Bool) (opcode : Opcode) :
    Piece → List Piece → List (FrameKind × Piece)
  | last, [] => [({ opcode := opcode, fin := true, masked := masked }, last)]
  | piece, next :: rest =>
      ({ opcode := opcode, fin := false, masked := masked }, piece) ::
        messageFrames masked .continuation next rest

def Outgoing.frames (masked : Bool) : Outgoing → List (FrameKind × Piece)
  | message opcode first rest => messageFrames masked opcode first rest
  | control opcode piece => [({ opcode := opcode, fin := true, masked := masked }, piece)]

def joinedContent (pieces : List Piece) : List UInt8 :=
  pieces.flatMap fun piece => piece.copy.content

def Outgoing.event : Outgoing → Event
  | message opcode first rest => .received opcode (joinedContent (first :: rest))
  | control opcode piece => .received opcode piece.copy.content

/-- A message that a receiver takes: its frames can be read, and a text is UTF-8. -/
def Outgoing.Valid (codecs : Codecs Inflater) (options : ConnectedOptions) : Outgoing → Prop
  | message opcode first rest =>
      Connection.IsMessageKind opcode ∧
        (∀ piece ∈ first :: rest, piece.copy.content.length ≤ maxPayloadLengthLimit) ∧
        (opcode = .text → options.checksText = true →
          codecs.isValidUtf8 (joinedContent (first :: rest)) = true)
  | control opcode piece =>
      (opcode = .ping ∨ opcode = .pong) ∧ piece.copy.content.length ≤ maxControlPayload

/-- What is left in a buffer of the computed size by copying a frame into it. -/
def CopiedTo (simdutf : Simdutf) (frame : FrameKind × Piece) (bytes : List UInt8) : Prop :=
  ∃ buf,
    buf.length = (frame.2.copy.frameAndContentLen simdutf frame.1.masked).1 ∧
      frame.2.copy.copy simdutf frame.2.key buf
        (frame.2.copy.frameAndContentLen simdutf frame.1.masked).2 frame.1 = some bytes

def wireFrames (frames : List (FrameKind × Piece)) : List UInt8 :=
  frames.flatMap fun frame => wireFrame frame.2.key frame.1 frame.2.copy.content

theorem wireFrames_append (first second : List (FrameKind × Piece)) :
    wireFrames (first ++ second) = wireFrames first ++ wireFrames second := List.flatMap_append

theorem flatten_of_copied {simdutf : Simdutf} (documented : simdutf.Documented)
    {frames : List (FrameKind × Piece)} {written : List (List UInt8)}
    (copied : List.Forall₂ (CopiedTo simdutf) frames written) :
    written.flatten = wireFrames frames := by
  induction copied with
  | nil => rfl
  | cons copiedTo _ rest =>
      rename_i frame bytes frames written later
      obtain ⟨buf, size, copyEq⟩ := copiedTo
      rw [copy_eq_wireFrame documented frame.2.copy frame.2.key frame.1 buf size] at copyEq
      rw [List.flatten_cons, rest, ← Option.some.inj copyEq]
      rfl

theorem decode_wireFrame (codecs : Codecs Inflater) {options : ConnectedOptions}
    {kind : FrameKind} {piece : Piece} (sendable : Sendable kind piece.copy.content)
    (opposite : Opposite options kind.masked) {decoder : Decoder Inflater}
    (expects : decoder.Expects kind.opcode) (more : List UInt8) :
    Decoder.decode codecs options decoder
        (wireFrame piece.key kind piece.copy.content ++ more) =
      decoder.proceed codecs options
        (.frame (kind.head piece.copy.content.length) piece.copy.content more) := by
  rw [Decoder.decode_eq_proceed, readFrame_wireFrame piece.key sendable opposite expects]

/-- The message that the next data frame adds to: a new one or the pending one. -/
def Starts (decoder : Decoder Inflater) (opcode : Opcode) (message : Message) : Prop :=
  (decoder.pending = none ∧ Connection.IsMessageKind opcode ∧
      message = { opcode := opcode, compressed := false, payload := [] }) ∨
    (decoder.pending = some message ∧ opcode = .continuation)

theorem Starts.expects {decoder : Decoder Inflater} {opcode : Opcode} {message : Message}
    (starts : Starts decoder opcode message) : decoder.Expects opcode := by
  rcases starts with ⟨noPending, isText | isBinary, -⟩ | ⟨pending, isContinuation⟩
  · refine ⟨?_, fun _ => noPending⟩
    rw [isText]
    exact nofun
  · refine ⟨?_, fun _ => noPending⟩
    rw [isBinary]
    exact nofun
  · refine ⟨fun _ => by rw [pending]; rfl, ?_⟩
    rw [isContinuation]
    rintro (isText | isBinary)
    · cases isText
    · cases isBinary

theorem Starts.isData {decoder : Decoder Inflater} {opcode : Opcode} {message : Message}
    (starts : Starts decoder opcode message) : IsDataOpcode opcode := by
  rcases starts with ⟨-, isText | isBinary, -⟩ | ⟨-, isContinuation⟩
  · exact Or.inr (Or.inl isText)
  · exact Or.inr (Or.inr isBinary)
  · exact Or.inl isContinuation

theorem Starts.growing {decoder : Decoder Inflater} {kind : FrameKind} {message : Message}
    (starts : Starts decoder kind.opcode message) (length : Nat) :
    decoder.growing (kind.head length) = message := by
  rcases starts with ⟨noPending, -, messageEq⟩ | ⟨pending, -⟩
  · rw [Decoder.growing, noPending, messageEq]
    rfl
  · rw [Decoder.growing, pending]

theorem decode_messageFrames (codecs : Codecs Inflater) {options : ConnectedOptions}
    {masked : Bool} (opposite : Opposite options masked) (rest : List Piece) (piece : Piece)
    (opcode : Opcode) (decoder : Decoder Inflater) (message : Message)
    (starts : Starts decoder opcode message) (plain : message.compressed = false)
    (supported : ∀ later ∈ piece :: rest,
      later.copy.content.length ≤ maxPayloadLengthLimit)
    (isText : message.opcode = .text → options.checksText = true →
      codecs.isValidUtf8 (message.payload ++ joinedContent (piece :: rest)) = true)
    (more : List UInt8) :
    Decoder.decode codecs options decoder
        (wireFrames (messageFrames masked opcode piece rest) ++ more) =
      .received message.opcode (message.payload ++ joinedContent (piece :: rest)) ::
        Decoder.decode codecs options { pending := none, deflate := decoder.deflate } more := by
  induction rest generalizing piece opcode decoder message with
  | nil =>
      have sendable : Sendable { opcode := opcode, fin := true, masked := masked }
          piece.copy.content := ⟨Or.inl starts.isData, supported piece List.mem_cons_self⟩
      have contentEq : joinedContent [piece] = piece.copy.content := List.append_nil _
      have valid : (message.opcode == .text && options.checksText &&
          !codecs.isValidUtf8 (message.payload ++ piece.copy.content)) = false := by
        cases textEq : message.opcode == .text with
        | false => rfl
        | true =>
            cases checks : options.checksText with
            | false => rfl
            | true =>
                have isValid := isText (by simpa using textEq) checks
                rw [contentEq] at isValid
                rw [isValid]
                rfl
      have framesEq : wireFrames (messageFrames masked opcode piece []) =
          wireFrame piece.key { opcode := opcode, fin := true, masked := masked }
            piece.copy.content := List.append_nil _
      have handledEq : decoder.receive codecs options
          (FrameKind.head { opcode := opcode, fin := true, masked := masked }
            piece.copy.content.length) piece.copy.content =
          ([.received message.opcode (message.payload ++ piece.copy.content)],
            some { pending := none, deflate := decoder.deflate }) := by
        rw [receive_data decoder codecs options (head_isData _ starts.isData), starts.growing]
        change decoder.deliver codecs options
          { message with payload := message.payload ++ piece.copy.content } = _
        rw [Decoder.deliver]
        dsimp only
        rw [plain, if_neg (by decide), Decoder.deliverData, valid, if_neg (by decide)]
      rw [framesEq, decode_wireFrame codecs sendable opposite starts.expects, Decoder.proceed,
        handledEq, contentEq]
      rfl
  | cons next rest later =>
      have sendable : Sendable { opcode := opcode, fin := false, masked := masked }
          piece.copy.content := ⟨Or.inl starts.isData, supported piece List.mem_cons_self⟩
      have framesEq : wireFrames (messageFrames masked opcode piece (next :: rest)) =
          wireFrame piece.key { opcode := opcode, fin := false, masked := masked }
              piece.copy.content ++
            wireFrames (messageFrames masked .continuation next rest) := rfl
      have contentEq : joinedContent (piece :: next :: rest) =
          piece.copy.content ++ joinedContent (next :: rest) := rfl
      rw [contentEq, ← List.append_assoc] at isText
      have handledEq : decoder.receive codecs options
          (FrameKind.head { opcode := opcode, fin := false, masked := masked }
            piece.copy.content.length) piece.copy.content =
          ([], some
            { decoder with
              pending := some
                { message with payload := message.payload ++ piece.copy.content } }) := by
        rw [receive_data decoder codecs options (head_isData _ starts.isData), starts.growing]
        rfl
      rw [framesEq, List.append_assoc, decode_wireFrame codecs sendable opposite starts.expects,
        Decoder.proceed, handledEq, contentEq, ← List.append_assoc]
      exact later next .continuation
        { decoder with
          pending := some { message with payload := message.payload ++ piece.copy.content } }
        { message with payload := message.payload ++ piece.copy.content } (Or.inr ⟨rfl, rfl⟩) plain
        (fun piece isIn => supported piece (List.mem_cons_of_mem _ isIn)) isText

theorem decode_outgoing (codecs : Codecs Inflater) {options : ConnectedOptions}
    {masked : Bool} (opposite : Opposite options masked) {outgoing : Outgoing}
    (valid : outgoing.Valid codecs options) (deflate : Option Inflater) (more : List UInt8) :
    Decoder.decode codecs options { pending := none, deflate := deflate }
        (wireFrames (outgoing.frames masked) ++ more) =
      outgoing.event ::
        Decoder.decode codecs options { pending := none, deflate := deflate } more := by
  cases outgoing with
  | message opcode first rest =>
      obtain ⟨isMessage, supported, isText⟩ := valid
      exact decode_messageFrames codecs opposite rest first opcode _
        { opcode := opcode, compressed := false, payload := [] }
        (Or.inl ⟨rfl, isMessage, rfl⟩) rfl supported isText more
  | control opcode piece =>
      obtain ⟨pingOrPong, bounded⟩ := valid
      have isControl : IsControlOpcode opcode := Or.inr pingOrPong
      have notClose : ¬opcode = .close := by
        rcases pingOrPong with rfl | rfl <;> decide
      have sendable : Sendable { opcode := opcode, fin := true, masked := masked }
          piece.copy.content := by
        refine ⟨Or.inr ⟨isControl, rfl, bounded, fun isClose => notClose isClose.2⟩, ?_⟩
        unfold maxControlPayload at bounded
        unfold maxPayloadLengthLimit
        omega
      have expects : Decoder.Expects { pending := none, deflate := deflate } opcode := by
        refine ⟨?_, fun _ => rfl⟩
        rcases pingOrPong with rfl | rfl <;> exact nofun
      have framesEq : wireFrames ((Outgoing.control opcode piece).frames masked) =
          wireFrame piece.key { opcode := opcode, fin := true, masked := masked }
            piece.copy.content := List.append_nil _
      have handledEq : Decoder.receive { pending := none, deflate := deflate } codecs options
          (FrameKind.head { opcode := opcode, fin := true, masked := masked }
            piece.copy.content.length) piece.copy.content =
          ([.received opcode piece.copy.content],
            some { pending := none, deflate := deflate }) := by
        rw [Decoder.receive, isData_of_isControl (head_isControl _ isControl), if_neg (by decide)]
        exact if_neg notClose
      rw [framesEq, decode_wireFrame codecs sendable opposite expects, Decoder.proceed, handledEq]
      rfl

theorem decode_outgoings (codecs : Codecs Inflater) {options : ConnectedOptions}
    {masked : Bool} (opposite : Opposite options masked) (sent : List Outgoing)
    (valid : ∀ outgoing ∈ sent, outgoing.Valid codecs options) (deflate : Option Inflater) :
    Decoder.decode codecs options { pending := none, deflate := deflate }
        (wireFrames (sent.flatMap (Outgoing.frames masked))) =
      sent.map Outgoing.event := by
  induction sent with
  | nil => exact decode_nil codecs options _
  | cons outgoing sent rest =>
      rw [List.flatMap_cons, wireFrames_append,
        decode_outgoing codecs opposite (valid outgoing List.mem_cons_self),
        rest fun later isIn => valid later (List.mem_cons_of_mem _ isIn)]
      rfl

/-! ### The round trip -/

/-- A connection between two frames, whose messages so far are those of `decoder`. -/
def AtBoundary (options : ConnectedOptions) (ws : Connection Inflater)
    (decoder : Decoder Inflater) : Prop :=
  ∀ data, Tracks options ws (ws.cursorFor data) decoder (.boundary none)

/-- A frame fills its buffer and is read back by the other role, with nothing left over;
whole messages are received unchanged. -/
theorem copy_round_trip (Inflater : Type) {simdutf : Simdutf} (documented : simdutf.Documented) :
    (∀ (piece : Piece) (kind : FrameKind) (buf : List UInt8),
      buf.length = (piece.copy.frameAndContentLen simdutf kind.masked).1 →
        ∃ bytes,
          piece.copy.copy simdutf piece.key buf
              (piece.copy.frameAndContentLen simdutf kind.masked).2 kind = some bytes ∧
            bytes.length = (piece.copy.frameAndContentLen simdutf kind.masked).1) ∧
      (∀ (piece : Piece) (kind : FrameKind) (bytes : List UInt8),
        Sendable kind piece.copy.content → CopiedTo simdutf (kind, piece) bytes →
        ∀ (codecs : Codecs Inflater) (options : ConnectedOptions) (ws : Connection Inflater)
          (decoder : Decoder Inflater) (reads : List (List UInt8)) (more : List UInt8),
          Opposite options kind.masked → AtBoundary options ws decoder →
          decoder.Expects kind.opcode → (∀ data ∈ reads, data ≠ []) →
          reads.flatten = bytes ++ more →
          ∃ head after,
            head.opcode = kind.opcode ∧ head.fin = kind.fin ∧
              decoder.readFrame options reads.flatten = .frame head piece.copy.content more ∧
              Connection.handleReads codecs options ws reads = some after ∧
              after.dispatched =
                ws.dispatched ++
                  decoder.proceed codecs options (.frame head piece.copy.content more)) ∧
      ∀ (codecs : Codecs Inflater) (options : ConnectedOptions) (masked : Bool)
        (deflate : Option Inflater) (sent : List Outgoing) (written reads : List (List UInt8)),
        Opposite options masked → (∀ outgoing ∈ sent, outgoing.Valid codecs options) →
        List.Forall₂ (CopiedTo simdutf) (sent.flatMap (Outgoing.frames masked)) written →
        (∀ data ∈ reads, data ≠ []) → reads.flatten = written.flatten →
        ∃ after,
          Connection.handleReads codecs options (newRaw deflate) reads = some after ∧
            after.dispatched = sent.map Outgoing.event := by
  refine ⟨?_, ?_, ?_⟩
  · intro piece kind buf size
    refine ⟨_, copy_eq_wireFrame documented piece.copy piece.key kind buf size, ?_⟩
    rw [length_wireFrame, frameAndContentLen_eq documented]
  · intro piece kind bytes sendable copied codecs options ws decoder reads more opposite atBoundary
      expects nonempty cut
    obtain ⟨buf, size, copyEq⟩ := copied
    rw [copy_eq_wireFrame documented piece.copy piece.key kind buf size] at copyEq
    rw [← Option.some.inj copyEq] at cut
    obtain ⟨after, readsEq, log⟩ := handleReads_events codecs atBoundary
      (decode_nil codecs options decoder) reads nonempty
    refine ⟨kind.head piece.copy.content.length, after, rfl, rfl, ?_, readsEq, ?_⟩
    · rw [cut]
      exact readFrame_wireFrame piece.key sendable opposite expects more
    · rw [log, cut]
      exact congrArg (ws.dispatched ++ ·) (decode_wireFrame codecs sendable opposite expects more)
  · intro codecs options masked deflate sent written reads opposite valid copied nonempty cut
    obtain ⟨after, readsEq, log⟩ := handleReads_events codecs (tracks_newRaw options deflate)
      (decode_nil codecs options _) reads nonempty
    refine ⟨after, readsEq, log.trans ?_⟩
    rw [cut, flatten_of_copied documented copied]
    exact decode_outgoings codecs opposite sent valid deflate

def referenceSimdutf : Simdutf :=
  { utf8LengthFromLatin1 := fun latin1 => (encodeText (latin1Text latin1)).length
    utf8LengthFromUtf16le := fun utf16 => (encodeText (utf16Text utf16)).length
    utf8LengthFromUtf16leWithReplacement := fun utf16 => (encodeText (utf16Text utf16)).length
    convertUtf16leToUtf8WithErrors := fun utf16 =>
      if isPaired utf16 then some (encodeText (utf16Text utf16)) else none }

theorem referenceSimdutf_documented : referenceSimdutf.Documented :=
  ⟨fun _ => rfl, fun _ => rfl, fun _ => rfl⟩

def zeroKey : FixedArray UInt8 4 := FixedArray.fill 4 0

/-- A text in two fragments, the second with an unpaired surrogate, from a client. -/
theorem copy_round_trip_fragments :
    referenceSimdutf.Documented ∧
      ∃ after,
        Connection.handleReads plainCodecs
            { maxPayloadLength := 0, wsMode := false, skipUtf8Validation := false, isServer := true }
            (newRaw none)
            [[0x01, 0x82, 1, 2, 3, 4, 0xC2, 0xAB], [0x80, 0x83, 0, 0, 0, 0, 0xEF, 0xBF, 0xBD]] =
              some after ∧
          after.dispatched = [.received .text [0xC3, 0xA9, 0xEF, 0xBF, 0xBD]] := by
  refine ⟨referenceSimdutf_documented, ?_⟩
  have trip := (copy_round_trip Unit referenceSimdutf_documented).2.2 plainCodecs
    { maxPayloadLength := 0, wsMode := false, skipUtf8Validation := false, isServer := true } true
    none
    [.message .text { copy := .latin1 [0xE9], key := ⟨[1, 2, 3, 4], rfl⟩ }
      [{ copy := .utf16 [0xD800], key := zeroKey }]]
    [[0x01, 0x82, 1, 2, 3, 4, 0xC2, 0xAB], [0x80, 0x83, 0, 0, 0, 0, 0xEF, 0xBF, 0xBD]]
    [[0x01, 0x82, 1, 2, 3, 4, 0xC2, 0xAB], [0x80, 0x83, 0, 0, 0, 0, 0xEF, 0xBF, 0xBD]]
    ⟨rfl, rfl⟩ ?_ ?_ (by decide) rfl
  · exact trip
  · intro outgoing isIn
    rw [List.mem_singleton.mp isIn]
    exact ⟨Or.inl rfl, by decide, fun _ _ => rfl⟩
  · refine .cons ⟨List.replicate 8 0, by decide +kernel, by decide +kernel⟩
      (.cons ⟨List.replicate 9 0, by decide +kernel, by decide +kernel⟩ .nil)

/-! ### Frames that are not read back -/

def clientOptions : ConnectedOptions :=
  { maxPayloadLength := 0, wsMode := false, skipUtf8Validation := false, isServer := false }

def freshDecoder : Decoder Unit := { pending := none, deflate := none }

theorem copiedTo_wireFrame {simdutf : Simdutf} (documented : simdutf.Documented)
    (kind : FrameKind) (piece : Piece) :
    CopiedTo simdutf (kind, piece) (wireFrame piece.key kind piece.copy.content) := by
  refine ⟨List.replicate (piece.copy.frameAndContentLen simdutf kind.masked).1 0,
    List.length_replicate, ?_⟩
  exact copy_eq_wireFrame documented piece.copy piece.key kind _ List.length_replicate

/-- A length from `2 ^ 53` on is refused. -/
theorem readFrame_unsupported (key : FixedArray UInt8 4) {content : List UInt8}
    (large : maxPayloadLengthLimit < content.length) (fits : content.length < 2 ^ 64) :
    freshDecoder.readFrame clientOptions
        (wireFrame key { opcode := .binary, fin := true, masked := false } content) =
      .violation { code := .unsupportedPayloadLength } := by
  have isData : IsDataOpcode Opcode.binary := Or.inr (Or.inr rfl)
  have read := readFrame_length key { opcode := .binary, fin := true, masked := false }
    (Or.inl isData) fits clientOptions ⟨rfl, rfl⟩ freshDecoder ⟨nofun, fun _ => rfl⟩ []
  rw [List.append_nil, Decoder.lengthViolation, if_pos (head_isData _ isData), if_pos] at read
  · exact read
  · refine ⟨?_, large⟩
    refine (packLength_toNat content.length).trans ?_
    unfold maxPayloadLengthLimit at large
    rw [if_neg (by omega), if_neg (by omega)]

/-- A Close of one byte, a control frame without FIN and a payload of `2 ^ 53` bytes are
written and not read, and a message of text that is not UTF-8 fails. -/
theorem written_not_read :
    (CopiedTo referenceSimdutf
        ({ opcode := .close, fin := true, masked := false }, { copy := .bytes [3], key := zeroKey })
        [0x88, 0x01, 0x03] ∧
      freshDecoder.readFrame clientOptions [0x88, 0x01, 0x03] =
        .violation { code := .invalidControlFrame, value := some 1 }) ∧
      (CopiedTo referenceSimdutf
          ({ opcode := .ping, fin := false, masked := false }, { copy := .bytes [], key := zeroKey })
          [0x09, 0x00] ∧
        freshDecoder.readFrame clientOptions [0x09, 0x00] =
          .violation { code := .controlFrameIsFragmented }) ∧
      (∃ bytes,
        CopiedTo referenceSimdutf
            ({ opcode := .binary, fin := true, masked := false },
              { copy := .bytes (List.replicate (2 ^ 53) 0), key := zeroKey }) bytes ∧
          freshDecoder.readFrame clientOptions bytes =
            .violation { code := .unsupportedPayloadLength }) ∧
      CopiedTo referenceSimdutf
          ({ opcode := .text, fin := true, masked := false },
            { copy := .bytes [0xFF], key := zeroKey }) [0x81, 0x01, 0xFF] ∧
        freshDecoder.decode { plainCodecs with isValidUtf8 := fun text => text != [0xFF] }
            clientOptions [0x81, 0x01, 0xFF] =
          [.failed { code := .invalidUtf8 }] := by
  refine ⟨⟨?_, by decide +kernel⟩, ⟨?_, by decide +kernel⟩, ?_, ?_, by decide +kernel⟩
  · exact copiedTo_wireFrame referenceSimdutf_documented _ _
  · exact copiedTo_wireFrame referenceSimdutf_documented _ _
  · refine ⟨_, copiedTo_wireFrame referenceSimdutf_documented _ _, ?_⟩
    have large : maxPayloadLengthLimit < (List.replicate (2 ^ 53) (0 : UInt8)).length := by
      rw [List.length_replicate]
      decide
    have fits : (List.replicate (2 ^ 53) (0 : UInt8)).length < 2 ^ 64 := by
      rw [List.length_replicate]
      decide
    exact readFrame_unsupported zeroKey large fits
  · exact copiedTo_wireFrame referenceSimdutf_documented _ _

end Bun.WebSocket
