/-
Decoding an encoded quantity, whatever follows it.

The word of a value is cut into five-bit digits; `decodeLoop` collects them above
each other and stops at the first one without a continuation bit.
-/

import Bun.SourceMap.Mapping

set_option autoImplicit false

namespace Bun.SourceMap.Vlq

open Bun.Foundation.ContinuationDigits

/-! ### Encoding -/

theorem toNat_shiftRight_five (word : UInt32) : (word >>> 5).toNat = word.toNat / 32 := by
  rw [UInt32.toNat_shiftRight]
  simp [Nat.shiftRight_eq_div_pow]

theorem toNat_and_thirtyOne (word : UInt32) : (word &&& 31).toNat = word.toNat % 32 := by
  rw [UInt32.toNat_and]
  have mask : (31 : UInt32).toNat = 2 ^ 5 - 1 := rfl
  rw [mask, Nat.and_two_pow_sub_one_eq_mod]

theorem toNat_or_continuation_five (digit : UInt32) (small : digit.toNat < 32) :
    (digit ||| 32).toNat = digit.toNat + 32 := by
  rw [UInt32.toNat_or]
  have bit : (32 : UInt32).toNat = 2 ^ 5 * 1 := rfl
  rw [bit, Nat.or_comm, ← Nat.two_pow_add_eq_or_of_lt small]
  omega

def digitByte (digit : Nat) : UInt8 := base64.getD digit 0

theorem encodeLoop_digits (iterations : Nat) :
    ∀ (word : UInt32) (written : List UInt8), (digits 5 word.toNat).length ≤ iterations →
      encodeLoop iterations word written = written ++ (digits 5 word.toNat).map digitByte := by
  induction iterations with
  | zero =>
      intro word written short
      have nonempty : digits 5 word.toNat ≠ [] := digits_ne_nil word.toNat
      exact absurd (List.length_eq_zero_iff.mp (Nat.le_zero.mp short)) nonempty
  | succ iterations ih =>
      intro word written short
      have rest := toNat_shiftRight_five word
      have payload := toNat_and_thirtyOne word
      rw [encodeLoop]
      by_cases last : word >>> 5 = 0
      · have small : word.toNat < 2 ^ 5 := by
          have zero := congrArg UInt32.toNat last
          rw [rest] at zero
          simp at zero
          omega
        rw [if_pos last, if_neg (show ¬word >>> 5 ≠ 0 by simpa using last),
          digits_of_lt (by decide) small, payload,
          Nat.mod_eq_of_lt (show word.toNat < 32 from small)]
        rfl
      · have large : 2 ^ 5 ≤ word.toNat := by
          by_contra small
          apply last
          apply UInt32.toNat_inj.mp
          rw [rest]
          simp
          omega
        rw [digits_of_le (by decide) large, List.length_cons] at short
        rw [if_neg last, if_pos (show word >>> 5 ≠ 0 from last), digits_of_le (by decide) large, ih (word >>> 5) _ (by
          rw [rest]
          exact Nat.le_of_succ_le_succ short), rest,
          toNat_or_continuation_five _ (by rw [payload]; exact Nat.mod_lt _ (by decide)), payload,
          List.append_assoc]
        rfl

theorem encodeSlowPath_digits (value : Int32) :
    encodeSlowPath value = (digits 5 (vlqWord value).toNat).map digitByte := by
  have short := digits_length_le (by decide : 0 < 5) 6 (vlqWord value).toNat
    (by have bounded := (vlqWord value).toNat_lt; omega)
  rw [encodeSlowPath, encodeLoop_digits vlqMaxInBytes _ _ short, List.nil_append]

theorem encode_eq_slowPath (value : Int32) : encode value = encodeSlowPath value := by
  unfold encode
  split
  · rename_i inTable
    have lower : 0 ≤ value.toInt := Int32.le_iff_toInt_le.mp inTable.1
    have upper : value.toInt ≤ 255 := Int32.le_iff_toInt_le.mp inTable.2
    have index : value.toInt.toNat < 256 := by omega
    have restored : Int32.ofNat value.toInt.toNat = value := by
      apply Int32.toInt_inj.mp
      rw [Int32.toInt_ofNat_of_lt (by omega)]
      omega
    rw [vlqLookupTable, List.getD_eq_getElem?_getD, List.getElem?_map,
      List.getElem?_range index, Option.map_some, Option.getD_some, restored]
  · rfl

theorem encode_length_le (value : Int32) : (encode value).length ≤ vlqMaxInBytes := by
  have short := digits_length_le (by decide : 0 < 5) 6 (vlqWord value).toNat
    (by have bounded := (vlqWord value).toNat_lt; omega)
  rw [encode_eq_slowPath, encodeSlowPath_digits, List.length_map]
  exact short

theorem encode_ne_nil (value : Int32) : encode value ≠ [] := by
  rw [encode_eq_slowPath, encodeSlowPath_digits]
  intro empty
  exact digits_ne_nil _ (List.map_eq_nil_iff.mp empty)

def encodedDigits (value : Int32) : List Nat := digits 5 (vlqWord value).toNat

theorem encode_digits (value : Int32) : encode value = (encodedDigits value).map digitByte := by
  rw [encode_eq_slowPath, encodeSlowPath_digits, encodedDigits]

theorem encodedDigits_lt (value : Int32) : ∀ digit ∈ encodedDigits value, digit < 64 :=
  digits_lt (by decide : 0 < 5) _

/-! ### Decoding -/

private theorem base64Lut_digitByte : ∀ digit : Fin 64,
    base64Lut (digitByte digit.val &&& 0x7f) = digit.val := by
  decide +kernel

private theorem and_continuation_five : ∀ digit : Fin 64,
    (digit.val &&& 32 = 0 ↔ digit.val < 32) ∧ digit.val &&& 31 = digit.val % 32 := by
  decide +kernel

/-- One step: the payload of a digit goes above the bits already collected. -/
private theorem toNat_or_digit (value shift digit : Nat) (word : UInt32) (bounded : value < 2 ^ 32)
    (room : shift ≤ 30) (collected : word.toNat = value % 2 ^ shift)
    (payload : digit % 32 = value / 2 ^ shift % 32) :
    (word ||| (UInt32.ofNat (digit % 32) <<< UInt32.ofNat (shift &&& 31))).toNat =
      value % 2 ^ (shift + 5) := by
  have shiftEq : shift &&& 31 = shift := by
    rw [show (31 : Nat) = 2 ^ 5 - 1 from rfl, Nat.and_two_pow_sub_one_eq_mod]
    omega
  have inWord : (value / 2 ^ shift % 2 ^ 5) <<< shift < 2 ^ 32 := by
    rw [Nat.shiftLeft_eq]
    calc value / 2 ^ shift % 2 ^ 5 * 2 ^ shift
        ≤ value / 2 ^ shift * 2 ^ shift := Nat.mul_le_mul_right _ (Nat.mod_le _ _)
      _ ≤ value := Nat.div_mul_le_self _ _
      _ < 2 ^ 32 := bounded
  have shiftWord : (UInt32.ofNat shift).toNat % 32 = shift := by
    rw [UInt32.toNat_ofNat']
    omega
  have digitWord : (UInt32.ofNat (digit % 32)).toNat = value / 2 ^ shift % 2 ^ 5 := by
    rw [UInt32.toNat_ofNat', payload]
    omega
  rw [shiftEq, UInt32.toNat_or, UInt32.toNat_shiftLeft, digitWord, collected, shiftWord,
    Nat.mod_eq_of_lt inWord, or_payload]

private theorem decodeLoop_last (value shift taken : Nat) (word : UInt32) (tail : List UInt8)
    (bounded : value < 2 ^ 32) (room : shift ≤ 30) (last : value / 2 ^ shift < 2 ^ 5)
    (collected : word.toNat = value % 2 ^ shift) :
    decodeLoop ((digits 5 (value / 2 ^ shift)).map digitByte ++ tail) shift word taken =
      some (wordValue (UInt32.ofNat value), taken + (digits 5 (value / 2 ^ shift)).length) := by
  have lut := base64Lut_digitByte ⟨value / 2 ^ shift, by omega⟩
  obtain ⟨stops, masked⟩ := and_continuation_five ⟨value / 2 ^ shift, by omega⟩
  dsimp only at lut stops masked
  have whole : value < 2 ^ (shift + 5) := by
    rw [pow_add, Nat.mul_comm]
    exact (Nat.div_lt_iff_lt_mul (Nat.two_pow_pos _)).mp last
  have full := toNat_or_digit value shift (value / 2 ^ shift) word bounded room collected rfl
  have wordEq := congrArg UInt32.ofNat full
  rw [UInt32.ofNat_toNat, Nat.mod_eq_of_lt whole] at wordEq
  rw [digits_of_lt (by decide) last]
  simp only [List.map_cons, List.map_nil, List.singleton_append, decodeLoop, lut,
    List.length_singleton]
  rw [if_pos (stops.mpr (by omega)), masked, wordEq]

/-- The loop, entered at a multiple of five bits with the bits below collected,
returns the value of the whole word. -/
private theorem decodeLoop_digits (value : Nat) (bounded : value < 2 ^ 32) (remaining : Nat) :
    ∀ (shift taken : Nat) (word : UInt32) (tail : List UInt8),
      shift + 5 * remaining = 30 → word.toNat = value % 2 ^ shift →
      decodeLoop ((digits 5 (value / 2 ^ shift)).map digitByte ++ tail) shift word taken =
        some (wordValue (UInt32.ofNat value), taken + (digits 5 (value / 2 ^ shift)).length) := by
  induction remaining with
  | zero =>
      intro shift taken word tail atEnd collected
      refine decodeLoop_last value shift taken word tail bounded (by omega) ?_ collected
      rw [show shift = 30 by omega]
      omega
  | succ remaining ih =>
      intro shift taken word tail atStep collected
      by_cases last : value / 2 ^ shift < 2 ^ 5
      · exact decodeLoop_last value shift taken word tail bounded (by omega) last collected
      · have digitSmall : value / 2 ^ shift % 2 ^ 5 + 2 ^ 5 < 64 := by omega
        have lut := base64Lut_digitByte ⟨value / 2 ^ shift % 2 ^ 5 + 2 ^ 5, digitSmall⟩
        obtain ⟨stops, masked⟩ := and_continuation_five ⟨value / 2 ^ shift % 2 ^ 5 + 2 ^ 5, digitSmall⟩
        dsimp only at lut stops masked
        rw [digits_of_le (by decide) (by omega)]
        simp only [List.map_cons, List.cons_append, decodeLoop, lut, List.length_cons]
        rw [if_neg (by rw [stops]; omega), masked]
        have step := ih (shift + 5) (taken + 1)
          (word ||| (UInt32.ofNat ((value / 2 ^ shift % 2 ^ 5 + 2 ^ 5) % 32) <<<
            UInt32.ofNat (shift &&& 31))) tail (by omega)
          (toNat_or_digit value shift _ word bounded (by omega) collected (by omega))
        rw [pow_add, ← Nat.div_div_eq_div_mul] at step
        rw [step]
        congr 2
        omega

theorem wordValue_vlqWord (value : Int32) (representable : value ≠ Int32.minValue) :
    wordValue (vlqWord value) = value := by
  have lowest : -2 ^ 31 < value.toInt := by
    have bound := value.le_toInt
    have different : value.toInt ≠ -2 ^ 31 := by
      intro same
      apply representable
      apply Int32.toInt_inj.mp
      rw [same]
      rfl
    omega
  have highest := value.toInt_lt
  by_cases nonneg : value ≥ 0
  · have lower : 0 ≤ value.toInt := Int32.le_iff_toInt_le.mp nonneg
    have valueNat : value.toUInt32.toNat = value.toInt.toNat := by
      have bits := Int32.toNat_toUInt32_of_le nonneg
      rw [bits]
      rfl
    have wordNat : (vlqWord value).toNat = value.toInt.toNat * 2 := by
      rw [vlqWord, if_pos nonneg]
      have shifted : (value <<< 1).toUInt32 = value.toUInt32 <<< 1 := rfl
      rw [shifted, UInt32.toNat_shiftLeft, valueNat]
      simp only [UInt32.reduceToNat, Nat.reduceMod, Nat.shiftLeft_eq]
      omega
    have even : vlqWord value &&& 1 = 0 := by
      apply UInt32.toNat_inj.mp
      rw [UInt32.toNat_and, wordNat]
      change _ &&& (2 ^ 1 - 1) = 0
      rw [Nat.and_two_pow_sub_one_eq_mod]
      omega
    rw [wordValue, if_pos even]
    have half : vlqWord value >>> 1 = value.toUInt32 := by
      apply UInt32.toNat_inj.mp
      rw [UInt32.toNat_shiftRight, wordNat, valueNat]
      simp [Nat.shiftRight_eq_div_pow]
    rw [half]
    rfl
  · have negative : value.toInt < 0 := by
      rw [ge_iff_le, Int32.not_le, Int32.lt_iff_toInt_lt] at nonneg
      exact nonneg
    have magnitude : (UInt32.ofNat value.toInt.natAbs).toNat = value.toInt.natAbs := by
      rw [UInt32.toNat_ofNat']
      omega
    have wordNat : (vlqWord value).toNat = value.toInt.natAbs * 2 + 1 := by
      rw [vlqWord, if_neg nonneg, UInt32.toNat_or, UInt32.toNat_shiftLeft, magnitude]
      have doubled : value.toInt.natAbs <<< ((1 : UInt32).toNat % 32) % 2 ^ 32 =
          2 ^ 1 * value.toInt.natAbs := by
        rw [show (1 : UInt32).toNat % 32 = 1 from rfl, Nat.shiftLeft_eq]
        omega
      rw [doubled]
      change _ ||| 1 = _
      rw [← Nat.two_pow_add_eq_or_of_lt (by decide)]
      omega
    have odd : ¬vlqWord value &&& 1 = 0 := by
      intro zero
      have bits := congrArg UInt32.toNat zero
      rw [UInt32.toNat_and, wordNat] at bits
      change _ &&& (2 ^ 1 - 1) = 0 at bits
      rw [Nat.and_two_pow_sub_one_eq_mod] at bits
      omega
    rw [wordValue, if_neg odd]
    have half : vlqWord value >>> 1 = UInt32.ofNat value.toInt.natAbs := by
      apply UInt32.toNat_inj.mp
      rw [UInt32.toNat_shiftRight, wordNat, magnitude]
      simp [Nat.shiftRight_eq_div_pow]
      omega
    rw [half]
    apply Int32.toInt_inj.mp
    have word : (UInt32.ofNat value.toInt.natAbs).toInt32 = Int32.ofNat value.toInt.natAbs := by
      rfl
    rw [word, Int32.toInt_neg, Int32.toInt_ofNat_of_lt (by omega),
      Int.bmod_eq_of_le (by omega) (by omega)]
    omega

theorem decodeLoop_encode (value : Int32) (representable : value ≠ Int32.minValue)
    (tail : List UInt8) :
    decodeLoop ((encode value ++ tail).take (vlqMaxInBytes + 1)) 0 0 0 =
      some (value, (encode value).length) := by
  have short := encode_length_le value
  have bounded := (vlqWord value).toNat_lt
  have split : (encode value ++ tail).take (vlqMaxInBytes + 1) =
      encode value ++ tail.take (vlqMaxInBytes + 1 - (encode value).length) := by
    rw [List.take_append, List.take_of_length_le (by omega)]
  have loop := decodeLoop_digits (vlqWord value).toNat bounded 6 0 0 0
    (tail.take (vlqMaxInBytes + 1 - (encode value).length)) rfl (by simp [Nat.mod_one])
  simp only [Nat.pow_zero, Nat.div_one, Nat.zero_add] at loop
  have encoded : encode value = (digits 5 (vlqWord value).toNat).map digitByte := by
    rw [encode_eq_slowPath, encodeSlowPath_digits]
  rw [split]
  conv_lhs => rw [encoded]
  rw [encoded] at loop
  rw [loop, UInt32.ofNat_toNat, wordValue_vlqWord value representable]
  simp only [encoded, List.length_map]

/-- Reading where a quantity was written returns its value and the offset after it. -/
theorem decode_encode_at (front tail : List UInt8) (value : Int32)
    (representable : value ≠ Int32.minValue) :
    decode (front ++ (encode value ++ tail)) front.length =
      { value := value, start := (front ++ encode value).length } := by
  rw [decode, List.drop_left, decodeLoop_encode value representable]
  dsimp only
  rw [List.length_append]

theorem decode_encode_front (tail : List UInt8) (value : Int32)
    (representable : value ≠ Int32.minValue) :
    decode (encode value ++ tail) 0 = { value := value, start := (encode value).length } :=
  decode_encode_at [] tail value representable

/-- A text that begins with a quantity begins with its value, whatever follows. -/
theorem decode_encode (value : Int32) (representable : value ≠ Int32.minValue)
    (following : List UInt8) :
    decode (encode value ++ following) 0 =
      { value := value, start := (encode value).length } := by
  rw [decode, List.drop_zero, decodeLoop_encode value representable]
  dsimp only
  rw [Nat.zero_add]

theorem decode_encode_largest :
    decode (encode Int32.maxValue ++ [base64.getD 33 0]) 0 = { value := Int32.maxValue, start := 7 } :=
  decode_encode Int32.maxValue (by decide) [base64.getD 33 0]

end Bun.SourceMap.Vlq
