/-
WebSocket frame headers: the opcodes, the packed two-byte header and the parser of
a received header.
-/

import Bun.Foundation.Endian
import Mathlib.Data.Nat.Bitwise
import Mathlib.Tactic.IntervalCases

set_option autoImplicit false

namespace Bun.WebSocket

inductive Opcode
  | continuation | text | binary
  | res3 | res4 | res5 | res6 | res7
  | close | ping | pong
  | resB | resC | resD | resE | resF
deriving DecidableEq, Repr

namespace Opcode

def toNat : Opcode → Nat
  | continuation => 0x0
  | text => 0x1
  | binary => 0x2
  | res3 => 0x3
  | res4 => 0x4
  | res5 => 0x5
  | res6 => 0x6
  | res7 => 0x7
  | close => 0x8
  | ping => 0x9
  | pong => 0xA
  | resB => 0xB
  | resC => 0xC
  | resD => 0xD
  | resE => 0xE
  | resF => 0xF

def fromRaw (n : Nat) : Opcode :=
  match n % 16 with
  | 0x0 => continuation
  | 0x1 => text
  | 0x2 => binary
  | 0x3 => res3
  | 0x4 => res4
  | 0x5 => res5
  | 0x6 => res6
  | 0x7 => res7
  | 0x8 => close
  | 0x9 => ping
  | 0xA => pong
  | 0xB => resB
  | 0xC => resC
  | 0xD => resD
  | 0xE => resE
  | _ => resF

def isControl (opcode : Opcode) : Bool :=
  0x8 ≤ opcode.toNat

theorem toNat_lt (opcode : Opcode) : opcode.toNat < 16 := by
  cases opcode <;> decide

theorem fromRaw_toNat (opcode : Opcode) : fromRaw opcode.toNat = opcode := by
  cases opcode <;> rfl

theorem fromRaw_mod (n : Nat) : fromRaw (n % 16) = fromRaw n := by
  unfold fromRaw
  rw [Nat.mod_mod]

theorem toNat_fromRaw (n : Nat) : (fromRaw n).toNat = n % 16 := by
  have bounded : n % 16 < 16 := Nat.mod_lt _ (by decide)
  unfold fromRaw
  generalize n % 16 = low at bounded ⊢
  interval_cases low <;> rfl

end Opcode

def isValidCloseCode (code : Nat) : Bool :=
  (1000 ≤ code && code ≤ 1003) || (1007 ≤ code && code ≤ 1014) || (3000 ≤ code && code ≤ 4999)

/-! ### The packed header -/

/-- Field order is least significant first: seven bits of length, the mask bit, four
bits of opcode, RSV2 and RSV3, RSV1 (`compressed`) and FIN. -/
structure WebsocketHeader where
  bits : UInt16
deriving DecidableEq, Repr

namespace WebsocketHeader

def new (len : UInt8) (mask : Bool) (opcode : Opcode) : WebsocketHeader :=
  ⟨(len.toUInt16 &&& (0x7F : UInt16)) ||| (mask.toUInt16 <<< (7 : UInt16)) |||
    ((UInt16.ofNat opcode.toNat &&& (0xF : UInt16)) <<< (8 : UInt16)) |||
    ((1 : UInt16) <<< (15 : UInt16))⟩

def len (header : WebsocketHeader) : Nat :=
  (header.bits &&& 0x7F).toNat

def mask (header : WebsocketHeader) : Bool :=
  (header.bits >>> 7) &&& 1 != 0

def opcode (header : WebsocketHeader) : Opcode :=
  Opcode.fromRaw ((header.bits >>> 8) &&& 0xF).toNat

def rsv (header : WebsocketHeader) : Nat :=
  ((header.bits >>> 12) &&& 0x3).toNat

def compressed (header : WebsocketHeader) : Bool :=
  (header.bits >>> 14) &&& 1 != 0

def setCompressed (header : WebsocketHeader) (v : Bool) : WebsocketHeader :=
  ⟨(header.bits &&& ~~~((1 : UInt16) <<< 14)) ||| (v.toUInt16 <<< 14)⟩

def final (header : WebsocketHeader) : Bool :=
  (header.bits >>> 15) &&& 1 != 0

def setFinal (header : WebsocketHeader) (v : Bool) : WebsocketHeader :=
  ⟨(header.bits &&& ~~~((1 : UInt16) <<< 15)) ||| (v.toUInt16 <<< 15)⟩

/-- The two bytes `write_header` writes, in network order. -/
def toBytes (header : WebsocketHeader) : List UInt8 :=
  [(header.bits >>> 8).toUInt8, header.bits.toUInt8]

def fromSlice (first second : UInt8) : WebsocketHeader :=
  ⟨(first.toUInt16 <<< 8) ||| second.toUInt16⟩

def packLength (length : Nat) : UInt8 :=
  if length ≤ 125 then UInt8.ofNat length
  else if length ≤ 0xFFFF then 126
  else 127

def lengthByteCount (byteLength : Nat) : Nat :=
  if byteLength ≤ 125 then 0
  else if byteLength ≤ 0xFFFF then 2
  else 8

def frameSize (byteLength : Nat) (masked : Bool) : Nat :=
  2 + lengthByteCount byteLength + 4 * masked.toNat + byteLength

/-! ### The fields of two received bytes -/

theorem toNat_fromSlice (first second : UInt8) :
    (fromSlice first second).bits.toNat = first.toNat * 256 + second.toNat := by
  have firstBound := first.toNat_lt
  have secondBound := second.toNat_lt
  unfold fromSlice
  simp only [UInt16.toNat_or, UInt16.toNat_shiftLeft, UInt8.toNat_toUInt16]
  rw [show ((8 : UInt16).toNat % 16) = 8 from rfl, Nat.mod_eq_of_lt (by
    rw [Nat.shiftLeft_eq]
    omega), ← Nat.shiftLeft_add_eq_or_of_lt (by omega), Nat.shiftLeft_eq]

theorem len_fromSlice (first second : UInt8) :
    (fromSlice first second).len = second.toNat % 128 := by
  unfold len
  rw [UInt16.toNat_and, toNat_fromSlice, show ((0x7F : UInt16).toNat) = 2 ^ 7 - 1 from rfl,
    Nat.and_two_pow_sub_one_eq_mod]
  omega

theorem shifted_fromSlice (first second : UInt8) (shift : UInt16) (small : shift.toNat < 16) :
    ((fromSlice first second).bits >>> shift).toNat =
      (first.toNat * 256 + second.toNat) / 2 ^ shift.toNat := by
  rw [UInt16.toNat_shiftRight, toNat_fromSlice, Nat.mod_eq_of_lt small, Nat.shiftRight_eq_div_pow]

theorem bit_fromSlice (first second : UInt8) (shift : UInt16) (small : shift.toNat < 16) :
    (((fromSlice first second).bits >>> shift) &&& 1 != 0) =
      decide ((first.toNat * 256 + second.toNat) / 2 ^ shift.toNat % 2 = 1) := by
  have value : (((fromSlice first second).bits >>> shift) &&& 1).toNat =
      (first.toNat * 256 + second.toNat) / 2 ^ shift.toNat % 2 := by
    rw [UInt16.toNat_and, shifted_fromSlice first second shift small,
      show ((1 : UInt16).toNat) = 2 ^ 1 - 1 from rfl, Nat.and_two_pow_sub_one_eq_mod]
  rw [bne, beq_eq_decide, ← decide_not, decide_eq_decide, ← UInt16.toNat_inj, value]
  change ¬_ = 0 ↔ _
  omega

theorem mask_fromSlice (first second : UInt8) :
    (fromSlice first second).mask = decide (128 ≤ second.toNat) := by
  have secondBound := second.toNat_lt
  unfold mask
  rw [bit_fromSlice first second 7 (by decide), decide_eq_decide]
  change _ / 128 % 2 = 1 ↔ _
  omega

theorem opcode_fromSlice (first second : UInt8) :
    (fromSlice first second).opcode = Opcode.fromRaw first.toNat := by
  have secondBound := second.toNat_lt
  unfold opcode
  rw [UInt16.toNat_and, shifted_fromSlice first second 8 (by decide),
    show ((0xF : UInt16).toNat) = 2 ^ 4 - 1 from rfl, Nat.and_two_pow_sub_one_eq_mod]
  have value : (first.toNat * 256 + second.toNat) / 2 ^ (8 : UInt16).toNat = first.toNat := by
    change _ / 256 = _
    omega
  rw [value]
  exact Opcode.fromRaw_mod first.toNat

theorem rsv_fromSlice (first second : UInt8) :
    (fromSlice first second).rsv = first.toNat / 16 % 4 := by
  have secondBound := second.toNat_lt
  unfold rsv
  rw [UInt16.toNat_and, shifted_fromSlice first second 12 (by decide),
    show ((0x3 : UInt16).toNat) = 2 ^ 2 - 1 from rfl, Nat.and_two_pow_sub_one_eq_mod]
  change _ / 4096 % 4 = _
  omega

theorem compressed_fromSlice (first second : UInt8) :
    (fromSlice first second).compressed = decide (first.toNat / 64 % 2 = 1) := by
  have secondBound := second.toNat_lt
  unfold compressed
  rw [bit_fromSlice first second 14 (by decide), decide_eq_decide]
  change _ / 16384 % 2 = 1 ↔ _
  omega

theorem final_fromSlice (first second : UInt8) :
    (fromSlice first second).final = decide (128 ≤ first.toNat) := by
  have firstBound := first.toNat_lt
  have secondBound := second.toNat_lt
  unfold final
  rw [bit_fromSlice first second 15 (by decide), decide_eq_decide]
  change _ / 32768 % 2 = 1 ↔ _
  omega

end WebsocketHeader

end Bun.WebSocket
