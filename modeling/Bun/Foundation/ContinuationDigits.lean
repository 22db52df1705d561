/-
Numbers as little-endian digits of a fixed bit width, where every digit but the
last carries a continuation bit just above its payload.

Base-128 varints (width seven) and the base-64 quantities of source maps (width
five) are the two instances.  Readers of either kind rebuild the number by
or-ing shifted payloads; `or_payload` is the step they all take.
-/

import Mathlib.Data.Nat.Bitwise
import Mathlib.Tactic.Ring

set_option autoImplicit false

namespace Bun.Foundation.ContinuationDigits

/-- The digits of `value`.  A width of zero has no digits to offer, so it is
read as a width of one. -/
def digits (width value : Nat) : List Nat :=
  if value < 2 ^ max width 1 then [value]
  else (value % 2 ^ max width 1 + 2 ^ max width 1) :: digits width (value / 2 ^ max width 1)
termination_by value
decreasing_by
  rename_i large
  have base : 2 ≤ 2 ^ max width 1 := by
    calc 2 = 2 ^ 1 := rfl
      _ ≤ 2 ^ max width 1 := Nat.pow_le_pow_right (by decide) (by omega)
  exact Nat.div_lt_self (by omega) (by omega)

section Width

variable {width : Nat} (positive : 0 < width)

include positive

theorem digits_of_lt {value : Nat} (small : value < 2 ^ width) :
    digits width value = [value] := by
  rw [digits, Nat.max_eq_left positive, if_pos small]

theorem digits_of_le {value : Nat} (large : 2 ^ width ≤ value) :
    digits width value = (value % 2 ^ width + 2 ^ width) :: digits width (value / 2 ^ width) := by
  rw [digits, Nat.max_eq_left positive, if_neg (by omega)]

/-- A number of at most `count` digits is written with at most `count` digits. -/
theorem digits_length_le (count value : Nat) (fits : value < 2 ^ (width * (count + 1))) :
    (digits width value).length ≤ count + 1 := by
  induction count generalizing value with
  | zero =>
      rw [digits_of_lt positive (by simpa using fits)]
      rfl
  | succ count ih =>
      by_cases small : value < 2 ^ width
      · rw [digits_of_lt positive small, List.length_singleton]
        omega
      · have power : 2 ^ (width * (count + 1 + 1)) = 2 ^ (width * (count + 1)) * 2 ^ width := by
          rw [← pow_add]
          ring_nf
        have quotient : value / 2 ^ width < 2 ^ (width * (count + 1)) := by
          rw [Nat.div_lt_iff_lt_mul (Nat.two_pow_pos _), ← power]
          exact fits
        rw [digits_of_le positive (by omega), List.length_cons]
        have shorter := ih (value / 2 ^ width) quotient
        omega

theorem digits_lt (value : Nat) : ∀ digit ∈ digits width value, digit < 2 ^ (width + 1) := by
  have double : 2 ^ (width + 1) = 2 ^ width + 2 ^ width := by ring
  induction value using Nat.strongRecOn with
  | ind value ih =>
      intro digit member
      by_cases small : value < 2 ^ width
      · rw [digits_of_lt positive small, List.mem_singleton] at member
        omega
      · have smaller : value / 2 ^ width < value := by
          have base : 1 < 2 ^ width := Nat.one_lt_two_pow (by omega)
          exact Nat.div_lt_self (by omega) base
        have payload := Nat.mod_lt value (Nat.two_pow_pos width)
        rw [digits_of_le positive (by omega)] at member
        rcases List.mem_cons.mp member with rfl | later
        · omega
        · exact ih _ smaller digit later

omit positive in
theorem digits_ne_nil (value : Nat) : digits width value ≠ [] := by
  rw [digits]
  split <;> simp

end Width

/-- Or-ing the next payload above the bits already collected extends them. -/
theorem or_payload (value shift width : Nat) :
    value % 2 ^ shift ||| (value / 2 ^ shift % 2 ^ width) <<< shift =
      value % 2 ^ (shift + width) := by
  have low : value % 2 ^ shift < 2 ^ shift := Nat.mod_lt _ (Nat.two_pow_pos _)
  rw [Nat.or_comm, ← Nat.shiftLeft_add_eq_or_of_lt low, Nat.shiftLeft_eq, pow_add, Nat.mod_mul]
  ring

end Bun.Foundation.ContinuationDigits
