/-
The signed varints of the internal source-map format: a zig-zag step that maps
`i32` onto `u32`, then seven payload bits a byte with the high bit set on every
byte but the last.

`writeVarint` follows `write_varint`, and `readVarint` follows `read_varint` with
its one-byte fast path and its cap of five bytes.
-/

import Bun.Foundation.ContinuationDigits

set_option autoImplicit false

namespace Bun.SourceMap

open Bun.Foundation.ContinuationDigits

def zigzagEncode (value : Int32) : UInt32 :=
  ((value <<< 1) ^^^ (value >>> 31)).toUInt32

def zigzagDecode (value : UInt32) : Int32 :=
  (value >>> 1).toInt32 ^^^ (-(value &&& 1).toInt32)

/-- `ceil(32 / 7)` bytes are enough for every zig-zag word. -/
def maxVarintLen : Nat := 5

theorem toNat_shiftRight_seven (word : UInt32) : (word >>> 7).toNat = word.toNat / 128 := by
  rw [UInt32.toNat_shiftRight]
  simp [Nat.shiftRight_eq_div_pow]

/-- The body of the loop in `write_varint`. -/
def writeVarintLoop (word : UInt32) : List UInt8 :=
  let byte : UInt8 := (word &&& 0x7f).toUInt8
  let rest := word >>> 7
  if more : rest ≠ 0 then (byte ||| 0x80) :: writeVarintLoop rest else [byte]
termination_by word.toNat
decreasing_by
  have positive : rest.toNat ≠ 0 := fun zero => more (UInt32.toNat_inj.mp (by simpa using zero))
  simp only [rest, toNat_shiftRight_seven] at positive ⊢
  omega

def writeVarint (signed : Int32) : List UInt8 :=
  writeVarintLoop (zigzagEncode signed)

/-- The loop of `read_varint` after its first byte.  It ends at the first byte
without a continuation bit, or after the fifth byte. -/
def readVarintLoop (bytes : List UInt8) (index shift : Nat) (result : UInt32) :
    Option (UInt32 × Nat) :=
  if 28 < shift then some (result, index)
  else
    match bytes[index]? with
    | none => none
    | some byte =>
        let result := result ||| ((byte &&& 0x7f).toUInt32 <<< UInt32.ofNat shift)
        if byte &&& 0x80 = 0 then some (result, index + 1)
        else readVarintLoop bytes (index + 1) (shift + 7) result
termination_by 35 - shift

/-- The value at `pos` and the position after it, or nothing when the varint runs
past the end of `bytes`. -/
def readVarint (bytes : List UInt8) (pos : Nat) : Option (Int32 × Nat) :=
  match bytes[pos]? with
  | none => none
  | some first =>
      if first < 0x80 then some (zigzagDecode first.toUInt32, pos + 1)
      else
        match readVarintLoop bytes (pos + 1) 7 (first &&& 0x7f).toUInt32 with
        | none => none
        | some (result, index) => some (zigzagDecode result, index)

/-! ### Zig-zag -/

private theorem sshiftRight_of_nonneg (word : BitVec 32) (nonneg : word.toNat < 2 ^ 31) :
    word.sshiftRight 31 = 0#32 := by
  have sign : word.msb = false := by
    rw [BitVec.msb_eq_false_iff_two_mul_lt]
    omega
  rw [BitVec.sshiftRight_eq_of_msb_false sign]
  apply BitVec.eq_of_toNat_eq
  simp only [BitVec.toNat_ushiftRight, Nat.shiftRight_eq_div_pow, BitVec.toNat_ofNat]
  omega

private theorem sshiftRight_of_neg (word : BitVec 32) (neg : 2 ^ 31 ≤ word.toNat) :
    word.sshiftRight 31 = BitVec.allOnes 32 := by
  have sign : word.msb = true := by
    rw [BitVec.msb_eq_true_iff_two_mul_ge]
    omega
  rw [BitVec.sshiftRight_eq_of_msb_true sign]
  apply BitVec.eq_of_toNat_eq
  have bounded := word.isLt
  simp only [BitVec.toNat_not, BitVec.toNat_ushiftRight, Nat.shiftRight_eq_div_pow,
    BitVec.toNat_allOnes]
  omega

/-- The zig-zag round trip on words, split on the sign that the arithmetic shift
copies into every bit. -/
private theorem zigzag_bits (word : BitVec 32) :
    (((word <<< 1) ^^^ word.sshiftRight 31) >>> 1) ^^^
      (-(((word <<< 1) ^^^ word.sshiftRight 31) &&& 1#32)) = word := by
  have bounded := word.isLt
  by_cases nonneg : word.toNat < 2 ^ 31
  · have even : (word <<< 1) &&& 1#32 = 0#32 := by
      apply BitVec.eq_of_toNat_eq
      simp [Nat.shiftLeft_eq]
    rw [sshiftRight_of_nonneg word nonneg, BitVec.xor_zero, even]
    apply BitVec.eq_of_toNat_eq
    simp [Nat.shiftLeft_eq, Nat.shiftRight_eq_div_pow]
    omega
  · have odd : ~~~(word <<< 1) &&& 1#32 = 1#32 := by
      apply BitVec.eq_of_toNat_eq
      simp [Nat.shiftLeft_eq]
      omega
    have minusOne : -(1#32) = BitVec.allOnes 32 := by decide
    rw [sshiftRight_of_neg word (by omega), BitVec.xor_allOnes, odd, minusOne, BitVec.xor_allOnes]
    apply BitVec.eq_of_toNat_eq
    simp [Nat.shiftLeft_eq, Nat.shiftRight_eq_div_pow]
    omega

theorem zigzagDecode_zigzagEncode (value : Int32) :
    zigzagDecode (zigzagEncode value) = value := by
  apply Int32.toBitVec_inj.mp
  have bits := zigzag_bits value.toBitVec
  simpa [zigzagDecode, zigzagEncode] using bits

/-! ### Writing -/

private theorem toNat_low_seven (word : UInt32) :
    ((word &&& 0x7f).toUInt8).toNat = word.toNat % 128 := by
  rw [UInt32.toNat_toUInt8, UInt32.toNat_and]
  have mask : (0x7f : UInt32).toNat = 2 ^ 7 - 1 := rfl
  rw [mask, Nat.and_two_pow_sub_one_eq_mod]
  omega

private theorem toNat_or_continuation (byte : UInt8) (small : byte.toNat < 128) :
    (byte ||| 0x80).toNat = byte.toNat + 128 := by
  rw [UInt8.toNat_or]
  have bit : (0x80 : UInt8).toNat = 2 ^ 7 * 1 := rfl
  rw [bit, Nat.or_comm, ← Nat.two_pow_add_eq_or_of_lt small]
  omega

theorem writeVarintLoop_digits (word : UInt32) :
    (writeVarintLoop word).map UInt8.toNat = digits 7 word.toNat := by
  induction size : word.toNat using Nat.strongRecOn generalizing word with
  | ind value ih =>
      rw [writeVarintLoop]
      have rest := toNat_shiftRight_seven word
      have payload := toNat_low_seven word
      by_cases more : word >>> 7 = 0
      · have small : word.toNat < 2 ^ 7 := by
          have zero := congrArg UInt32.toNat more
          rw [rest] at zero
          simp at zero
          omega
        rw [dif_neg (by simpa using more), digits_of_lt (by decide) (by omega)]
        simp only [List.map_cons, List.map_nil, payload]
        congr 1
        omega
      · have large : 2 ^ 7 ≤ word.toNat := by
          by_contra small
          apply more
          apply UInt32.toNat_inj.mp
          rw [rest]
          simp
          omega
        rw [dif_pos more, digits_of_le (by decide) (by omega), List.map_cons,
          toNat_or_continuation _ (by omega), payload,
          ih (word >>> 7).toNat (by omega) (word >>> 7) rfl, rest, size]
        rfl

theorem writeVarint_length_le (signed : Int32) : (writeVarint signed).length ≤ maxVarintLen := by
  have digitCount := digits_length_le (by decide : 0 < 7) 4 (zigzagEncode signed).toNat
    (by have bounded := (zigzagEncode signed).toNat_lt; omega)
  rw [← writeVarintLoop_digits, List.length_map] at digitCount
  exact digitCount

/-! ### Reading what was written -/

private theorem toNat_payload (byte : UInt8) : (byte &&& 0x7f).toUInt32.toNat = byte.toNat % 128 := by
  rw [UInt8.toNat_toUInt32, UInt8.toNat_and]
  have mask : (0x7f : UInt8).toNat = 2 ^ 7 - 1 := rfl
  rw [mask, Nat.and_two_pow_sub_one_eq_mod]

private theorem continuation_iff (byte : UInt8) : byte &&& 0x80 = 0 ↔ byte.toNat < 128 := by
  have all : ∀ value : Fin 256, value.val &&& 128 = 0 ↔ value.val < 128 := by decide +kernel
  rw [← UInt8.toNat_inj, UInt8.toNat_and]
  exact all ⟨byte.toNat, byte.toNat_lt⟩

private theorem getElem?_of_drop {bytes tail : List UInt8} {pos : Nat} {byte : UInt8}
    (here : bytes.drop pos = byte :: tail) : bytes[pos]? = some byte := by
  have first : (bytes.drop pos)[0]? = some byte := by rw [here]; rfl
  rwa [List.getElem?_drop, Nat.add_zero] at first

private theorem drop_succ_of_drop {bytes tail : List UInt8} {pos : Nat} {byte : UInt8}
    (here : bytes.drop pos = byte :: tail) : bytes.drop (pos + 1) = tail := by
  rw [← List.drop_drop, here]
  rfl

/-- One step of the reader: the payload of the current byte goes above the bits
already collected. -/
private theorem toNat_or_shifted (word value shift : Nat) (result : UInt32) (byte : UInt8)
    (bounded : value < 2 ^ 32) (room : shift ≤ 28) (collected : result.toNat = value % 2 ^ shift)
    (payload : byte.toNat % 128 = value / 2 ^ shift % 128) (wordEq : word = shift + 7) :
    (result ||| ((byte &&& 0x7f).toUInt32 <<< UInt32.ofNat shift)).toNat = value % 2 ^ word := by
  have inWord : (value / 2 ^ shift % 2 ^ 7) <<< shift < 2 ^ 32 := by
    rw [Nat.shiftLeft_eq]
    calc value / 2 ^ shift % 2 ^ 7 * 2 ^ shift
        ≤ value / 2 ^ shift * 2 ^ shift := Nat.mul_le_mul_right _ (Nat.mod_le _ _)
      _ ≤ value := Nat.div_mul_le_self _ _
      _ < 2 ^ 32 := bounded
  have shiftWord : (UInt32.ofNat shift).toNat % 32 = shift := by
    rw [UInt32.toNat_ofNat']
    omega
  rw [UInt32.toNat_or, UInt32.toNat_shiftLeft, toNat_payload, collected, payload, shiftWord,
    show (128 : Nat) = 2 ^ 7 from rfl, Nat.mod_eq_of_lt inWord, wordEq, or_payload]

/-- The loop, entered at a multiple of seven bits with the bits below collected,
returns the whole number. -/
private theorem readVarintLoop_digits (value : Nat) (bounded : value < 2 ^ 32) (remaining : Nat) :
    ∀ (shift index : Nat) (result : UInt32) (bytes encoded tail : List UInt8),
      shift + 7 * remaining = 28 →
      bytes.drop index = encoded ++ tail →
      encoded.map UInt8.toNat = digits 7 (value / 2 ^ shift) →
      result.toNat = value % 2 ^ shift →
      readVarintLoop bytes index shift result =
        some (UInt32.ofNat value, index + encoded.length) := by
  induction remaining with
  | zero =>
      intro shift index result bytes encoded tail atEnd here written collected
      have last : value / 2 ^ shift < 2 ^ 7 := by
        rw [show shift = 28 by omega]
        omega
      rw [digits_of_lt (by decide) last] at written
      obtain ⟨byte, rfl, byteEq⟩ := List.map_eq_singleton_iff.mp written
      rw [readVarintLoop, if_neg (by omega), getElem?_of_drop here]
      dsimp only
      rw [if_pos ((continuation_iff byte).mpr (by omega))]
      have full := toNat_or_shifted (shift + 7) value shift result byte bounded (by omega) collected
        (by omega) rfl
      rw [Nat.mod_eq_of_lt (by rw [show shift + 7 = 35 by omega]; omega)] at full
      rw [← full, UInt32.ofNat_toNat]
      rfl
  | succ remaining ih =>
      intro shift index result bytes encoded tail atStep here written collected
      by_cases last : value / 2 ^ shift < 2 ^ 7
      · rw [digits_of_lt (by decide) last] at written
        obtain ⟨byte, rfl, byteEq⟩ := List.map_eq_singleton_iff.mp written
        rw [readVarintLoop, if_neg (by omega), getElem?_of_drop here]
        dsimp only
        rw [if_pos ((continuation_iff byte).mpr (by omega))]
        have full := toNat_or_shifted (shift + 7) value shift result byte bounded (by omega)
          collected (by omega) rfl
        have whole : value < 2 ^ (shift + 7) := by
          rw [pow_add, Nat.mul_comm]
          exact (Nat.div_lt_iff_lt_mul (Nat.two_pow_pos _)).mp last
        rw [Nat.mod_eq_of_lt whole] at full
        rw [← full, UInt32.ofNat_toNat]
        rfl
      · rw [digits_of_le (by decide) (by omega)] at written
        obtain ⟨byte, rest, rfl, byteEq, restEq⟩ := List.map_eq_cons_iff.mp written
        rw [readVarintLoop, if_neg (by omega), getElem?_of_drop here]
        dsimp only
        rw [if_neg (by rw [continuation_iff]; omega)]
        have next := ih (shift + 7) (index + 1) _ bytes rest tail (by omega)
          (drop_succ_of_drop here) (by rw [restEq, pow_add, Nat.div_div_eq_div_mul])
          (toNat_or_shifted (shift + 7) value shift result byte bounded (by omega) collected
            (by omega) rfl)
        rw [next, List.length_cons]
        congr 2
        omega

/-- Reading at a written varint returns its value and the position after it,
whatever follows. -/
theorem readVarint_writeVarint (signed : Int32) (bytes tail : List UInt8) (pos : Nat)
    (here : bytes.drop pos = writeVarint signed ++ tail) :
    readVarint bytes pos = some (signed, pos + (writeVarint signed).length) := by
  have bounded := (zigzagEncode signed).toNat_lt
  have written := writeVarintLoop_digits (zigzagEncode signed)
  change (writeVarint signed).map UInt8.toNat = _ at written
  by_cases oneByte : (zigzagEncode signed).toNat < 2 ^ 7
  · rw [digits_of_lt (by decide) oneByte] at written
    obtain ⟨byte, single, byteEq⟩ := List.map_eq_singleton_iff.mp written
    rw [single] at here ⊢
    have fast : byte < 0x80 := by
      rw [UInt8.lt_iff_toNat_lt]
      have threshold : (0x80 : UInt8).toNat = 128 := rfl
      omega
    have wordEq : byte.toUInt32 = zigzagEncode signed := by
      apply UInt32.toNat_inj.mp
      rw [UInt8.toNat_toUInt32, byteEq]
    rw [readVarint, getElem?_of_drop here]
    dsimp only
    rw [if_pos fast, wordEq, zigzagDecode_zigzagEncode]
    rfl
  · rw [digits_of_le (by decide) (by omega)] at written
    obtain ⟨byte, rest, consEq, byteEq, restEq⟩ := List.map_eq_cons_iff.mp written
    rw [consEq] at here ⊢
    have slow : ¬byte < 0x80 := by
      rw [UInt8.lt_iff_toNat_lt]
      have threshold : (0x80 : UInt8).toNat = 128 := rfl
      omega
    have loop := readVarintLoop_digits (zigzagEncode signed).toNat bounded 3 7 (pos + 1)
      (byte &&& 0x7f).toUInt32 bytes rest tail rfl (drop_succ_of_drop here) restEq
      (by rw [toNat_payload]; omega)
    rw [readVarint, getElem?_of_drop here]
    dsimp only
    rw [if_neg slow, loop, UInt32.ofNat_toNat]
    dsimp only
    rw [zigzagDecode_zigzagEncode, List.length_cons]
    congr 2
    omega

end Bun.SourceMap
