/-
Byte texts written as literals, and decimal numbers as they are printed.
-/

import Mathlib.Data.Nat.Notation
import Mathlib.Order.Basic

set_option autoImplicit false

namespace Bun

def ascii (text : String) : List UInt8 :=
  text.toList.map Char.toUInt8

def decimalFrom (acc : ℕ) (digits : List UInt8) : ℕ :=
  digits.foldl (fun value c => value * 10 + (c.toNat - 0x30)) acc

def decimalValue (digits : List UInt8) : ℕ :=
  decimalFrom 0 digits

/-- The digits of a number, as `Display` prints them. -/
def decimalText (n : Nat) : List UInt8 :=
  if n < 10 then [UInt8.ofNat (0x30 + n)]
  else decimalText (n / 10) ++ [UInt8.ofNat (0x30 + n % 10)]
termination_by n
decreasing_by omega

@[simp]
theorem decimalFrom_nil (acc : ℕ) : decimalFrom acc [] = acc :=
  rfl

@[simp]
theorem decimalFrom_cons (acc : ℕ) (c : UInt8) (rest : List UInt8) :
    decimalFrom acc (c :: rest) = decimalFrom (acc * 10 + (c.toNat - 0x30)) rest := by
  unfold decimalFrom
  rw [List.foldl_cons]

theorem decimalFrom_append (acc : ℕ) (front back : List UInt8) :
    decimalFrom acc (front ++ back) = decimalFrom (decimalFrom acc front) back := by
  unfold decimalFrom
  rw [List.foldl_append]

theorem le_decimalFrom (acc : ℕ) (digits : List UInt8) : acc ≤ decimalFrom acc digits := by
  induction digits generalizing acc with
  | nil => exact Nat.le_refl acc
  | cons c rest ih =>
      rw [decimalFrom_cons]
      have step := ih (acc * 10 + (c.toNat - 0x30))
      omega

theorem decimalText_small (n : ℕ) (small : n < 10) :
    decimalText n = [UInt8.ofNat (0x30 + n)] := by
  rw [decimalText, if_pos small]

theorem decimalText_large (n : ℕ) (large : ¬ n < 10) :
    decimalText n = decimalText (n / 10) ++ [UInt8.ofNat (0x30 + n % 10)] := by
  rw [decimalText, if_neg large]

theorem digitByte_toNat (d : ℕ) (small : d < 10) : (UInt8.ofNat (0x30 + d)).toNat = 0x30 + d := by
  rw [UInt8.toNat_ofNat_of_lt']
  change 48 + d < 256
  omega

theorem decimalValue_decimalText (n : ℕ) : decimalValue (decimalText n) = n := by
  unfold decimalValue
  induction n using Nat.strongRecOn with
  | ind n ih =>
      by_cases small : n < 10
      · rw [decimalText_small n small, decimalFrom_cons, decimalFrom_nil, digitByte_toNat n small]
        omega
      · rw [decimalText_large n small, decimalFrom_append, ih (n / 10) (by omega),
          decimalFrom_cons, decimalFrom_nil, digitByte_toNat (n % 10) (by omega)]
        omega

theorem decimalText_ne_nil (n : ℕ) : decimalText n ≠ [] := by
  by_cases small : n < 10
  · rw [decimalText_small n small]
    exact List.cons_ne_nil _ _
  · rw [decimalText_large n small]
    simp

theorem length_decimalText_le {a b : ℕ} (le : a ≤ b) :
    (decimalText a).length ≤ (decimalText b).length := by
  induction b using Nat.strongRecOn generalizing a with
  | ind b ih =>
      by_cases smallA : a < 10
      · rw [decimalText_small a smallA]
        exact List.length_pos_iff.mpr (decimalText_ne_nil b)
      · have smallB : ¬ b < 10 := by omega
        rw [decimalText_large a smallA, decimalText_large b smallB, List.length_append,
          List.length_append]
        exact Nat.add_le_add_right (ih (b / 10) (by omega) (by omega)) 1

theorem decimalText_injective : Function.Injective decimalText := by
  intro a b same
  rw [← decimalValue_decimalText a, same, decimalValue_decimalText]

end Bun
