/-
Fixed-width little-endian and big-endian numbers as byte lists, the bits of such a number
addressed through its bytes, and reads at an offset of a longer byte list.

Nothing here mentions a particular format.  A format instantiates the widths
and offsets, and takes the round trips and the bit addressing from here.
-/

import Mathlib.Data.Nat.Bitwise
import Mathlib.Tactic.Ring

set_option autoImplicit false

namespace Bun.Foundation.LittleEndian

/-- The `width` low bytes of `value`, the least significant first. -/
def toBytes : Nat → Nat → List UInt8
  | 0, _ => []
  | width + 1, value => UInt8.ofNat value :: toBytes width (value / 256)

def ofBytes : List UInt8 → Nat
  | [] => 0
  | byte :: rest => byte.toNat + 256 * ofBytes rest

/-- The bytes `[start, start + count)`, when all of them are there. -/
def slice? (bytes : List UInt8) (start count : Nat) : Option (List UInt8) :=
  if start + count ≤ bytes.length then some ((bytes.drop start).take count) else none

@[simp] theorem toBytes_length (width value : Nat) : (toBytes width value).length = width := by
  induction width generalizing value with
  | zero => rfl
  | succ width ih => simp only [toBytes, List.length_cons, ih]

theorem ofBytes_lt (bytes : List UInt8) : ofBytes bytes < 256 ^ bytes.length := by
  induction bytes with
  | nil => decide
  | cons byte rest ih =>
      have small := byte.toNat_lt
      simp only [ofBytes, List.length_cons, pow_succ]
      omega

theorem ofBytes_toBytes (width value : Nat) (fits : value < 256 ^ width) :
    ofBytes (toBytes width value) = value := by
  induction width generalizing value with
  | zero =>
      have zero : value = 0 := by simpa using fits
      rw [zero]
      rfl
  | succ width ih =>
      have quotient : value / 256 < 256 ^ width := by
        rw [Nat.div_lt_iff_lt_mul (by decide), ← pow_succ]
        exact fits
      simp only [toBytes, ofBytes, ih (value / 256) quotient, UInt8.toNat_ofNat']
      omega

theorem toBytes_ofBytes (bytes : List UInt8) : toBytes bytes.length (ofBytes bytes) = bytes := by
  induction bytes with
  | nil => rfl
  | cons byte rest ih =>
      have small := byte.toNat_lt
      have low : UInt8.ofNat (byte.toNat + 256 * ofBytes rest) = byte := by
        apply UInt8.toNat_inj.mp
        rw [UInt8.toNat_ofNat']
        omega
      have high : (byte.toNat + 256 * ofBytes rest) / 256 = ofBytes rest := by omega
      rw [List.length_cons, ofBytes, toBytes, low, high, ih]

theorem ofBytes_append (low high : List UInt8) :
    ofBytes (low ++ high) = ofBytes low + 256 ^ low.length * ofBytes high := by
  induction low with
  | nil => simp [ofBytes]
  | cons byte rest ih =>
      simp only [List.cons_append, ofBytes, ih, List.length_cons, pow_succ]
      ring

theorem slice?_of_le {bytes : List UInt8} {start count : Nat}
    (inside : start + count ≤ bytes.length) :
    slice? bytes start count = some ((bytes.drop start).take count) := by
  rw [slice?, if_pos inside]

theorem slice?_middle (before middle after : List UInt8) :
    slice? (before ++ (middle ++ after)) before.length middle.length = some middle := by
  have inside : before.length + middle.length ≤ (before ++ (middle ++ after)).length := by
    simp only [List.length_append]
    omega
  rw [slice?_of_le inside, List.drop_left, List.take_left]

/-! ### Bits of a number given by its bytes -/

/-- Bit `index` of the number is bit `index % 8` of byte `index / 8`. -/
theorem testBit_ofBytes (bytes : List UInt8) (index : Nat) :
    (ofBytes bytes).testBit index =
      ((bytes[index / 8]?).getD 0).toNat.testBit (index % 8) := by
  induction bytes generalizing index with
  | nil => simp [ofBytes]
  | cons byte rest ih =>
      have small : byte.toNat < 2 ^ 8 := byte.toNat_lt
      have split : ofBytes (byte :: rest) = 2 ^ 8 * ofBytes rest + byte.toNat := by
        simp only [ofBytes]
        omega
      rw [split, Nat.testBit_two_pow_mul_add _ small]
      by_cases low : index < 8
      · have byteIndex : index / 8 = 0 := by omega
        have bitIndex : index % 8 = index := by omega
        rw [if_pos low, byteIndex, bitIndex]
        rfl
      · have byteIndex : index / 8 = (index - 8) / 8 + 1 := by omega
        have bitIndex : index % 8 = (index - 8) % 8 := by omega
        rw [if_neg low, ih, byteIndex, bitIndex]
        rfl

/-- Set bit `index`, writing only the byte that holds it. -/
def setBit (bytes : List UInt8) (index : Nat) : List UInt8 :=
  bytes.modify (index / 8) (· ||| ((1 : UInt8) <<< UInt8.ofNat (index % 8)))

@[simp] theorem setBit_length (bytes : List UInt8) (index : Nat) :
    (setBit bytes index).length = bytes.length := by
  simp [setBit]

theorem toNat_one_shiftLeft (bit : Nat) (small : bit < 8) :
    ((1 : UInt8) <<< UInt8.ofNat bit).toNat = 2 ^ bit := by
  have all : ∀ bit : Fin 8, ((1 : UInt8) <<< UInt8.ofNat bit.val).toNat = 2 ^ bit.val := by
    decide
  exact all ⟨bit, small⟩

theorem testBit_ofBytes_setBit (bytes : List UInt8) (index other : Nat)
    (inside : index / 8 < bytes.length) :
    (ofBytes (setBit bytes index)).testBit other =
      ((ofBytes bytes).testBit other || decide (other = index)) := by
  rw [testBit_ofBytes, testBit_ofBytes, setBit, List.getElem?_modify]
  by_cases sameByte : index / 8 = other / 8
  · have found : other / 8 < bytes.length := by omega
    rw [List.getElem?_eq_getElem found]
    simp only [Option.map_eq_map, Option.map_some, Option.getD_some, if_pos sameByte,
      UInt8.toNat_or, Nat.testBit_or]
    rw [toNat_one_shiftLeft _ (Nat.mod_lt _ (by decide)), Nat.testBit_two_pow]
    congr 1
    rw [decide_eq_decide]
    omega
  · have different : other ≠ index := by
      intro same
      exact sameByte (by rw [same])
    simp [sameByte, different]

theorem testBit_ofBytes_replicate_zero (width index : Nat) :
    (ofBytes (List.replicate width 0)).testBit index = false := by
  rw [testBit_ofBytes, List.getElem?_replicate]
  split <;> simp

end Bun.Foundation.LittleEndian

namespace Bun.Foundation.BigEndian

/-- The `width` low bytes of `value`, the most significant first. -/
def toBytes (width value : Nat) : List UInt8 :=
  (LittleEndian.toBytes width value).reverse

def ofBytes (bytes : List UInt8) : Nat :=
  LittleEndian.ofBytes bytes.reverse

@[simp] theorem toBytes_length (width value : Nat) : (toBytes width value).length = width := by
  rw [toBytes, List.length_reverse, LittleEndian.toBytes_length]

theorem ofBytes_toBytes (width value : Nat) (fits : value < 256 ^ width) :
    ofBytes (toBytes width value) = value := by
  unfold ofBytes toBytes
  rw [List.reverse_reverse]
  exact LittleEndian.ofBytes_toBytes width value fits

end Bun.Foundation.BigEndian
