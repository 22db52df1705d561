/-
The first number from a start on that a test accepts.

A loop that counts up until a test holds is run with a bound on its rounds.  It ends as
soon as the test holds anywhere, and a test that only rejects what a finite list names
holds of one of infinitely many candidates.
-/

import Mathlib.Data.List.Nodup
import Mathlib.Data.List.Perm.Subperm
import Mathlib.Data.Nat.Find

set_option autoImplicit false

namespace Bun.Foundation

/-- At most `fuel` numbers are tried. -/
def firstFrom (accepts : ℕ → Bool) : ℕ → ℕ → Option ℕ
  | 0, _ => none
  | fuel + 1, start => if accepts start then some start else firstFrom accepts fuel (start + 1)

structure IsFirst (accepts : ℕ → Bool) (start found : ℕ) : Prop where
  from_start : start ≤ found
  accepted : accepts found = true
  rejected : ∀ n, start ≤ n → n < found → accepts n = false

namespace IsFirst

variable {accepts : ℕ → Bool} {start a b : ℕ}

theorem unique (first : IsFirst accepts start a) (second : IsFirst accepts start b) : a = b := by
  rcases Nat.lt_trichotomy a b with less | same | greater
  · have impossible := second.rejected a first.from_start less
    rw [first.accepted] at impossible
    exact absurd impossible (by decide)
  · exact same
  · have impossible := first.rejected b second.from_start greater
    rw [second.accepted] at impossible
    exact absurd impossible (by decide)

theorem here (accepted : accepts start = true) : IsFirst accepts start start where
  from_start := Nat.le_refl start
  accepted := accepted
  rejected := fun _ atLeast less => absurd less (Nat.not_lt.mpr atLeast)

end IsFirst

/-- The loop ends once it is given more rounds than there are numbers to pass over. -/
theorem firstFrom_of_isFirst {accepts : ℕ → Bool} {fuel start found : ℕ}
    (first : IsFirst accepts start found) (enough : found - start < fuel) :
    firstFrom accepts fuel start = some found := by
  induction fuel generalizing start with
  | zero => exact absurd enough (Nat.not_lt_zero _)
  | succ fuel ih =>
      unfold firstFrom
      split
      · rename_i accepted
        rw [(IsFirst.here accepted).unique first]
      · rename_i notAccepted
        have further : start < found := by
          rcases Nat.eq_or_lt_of_le first.from_start with same | less
          · rw [same] at notAccepted
            exact absurd first.accepted notAccepted
          · exact less
        refine ih ⟨further, first.accepted, fun n atLeast => ?_⟩ (by omega)
        exact first.rejected n (Nat.le_of_succ_le atLeast)

theorem exists_isFirst {accepts : ℕ → Bool} {start : ℕ}
    (holds : ∃ n, start ≤ n ∧ accepts n = true) : ∃ found, IsFirst accepts start found := by
  classical
  refine ⟨Nat.find holds, (Nat.find_spec holds).1, (Nat.find_spec holds).2, ?_⟩
  intro n atLeast less
  have smaller := Nat.find_min holds less
  rw [not_and] at smaller
  exact Bool.eq_false_iff.mpr (smaller atLeast)

theorem exists_unused_below {α : Type} [DecidableEq α] {candidate : ℕ → α}
    (injective : Function.Injective candidate) (used : List α) (start : ℕ) :
    ∃ n, start ≤ n ∧ n < start + used.length + 1 ∧ candidate n ∉ used := by
  by_contra none
  have all : ∀ n ∈ List.range' start (used.length + 1), candidate n ∈ used := by
    intro n member
    rw [List.mem_range'_1] at member
    by_contra free
    exact none ⟨n, member.1, by omega, free⟩
  have nodup : ((List.range' start (used.length + 1)).map candidate).Nodup :=
    (List.nodup_range').map injective
  have subset : (List.range' start (used.length + 1)).map candidate ⊆ used := by
    intro name member
    obtain ⟨n, inRange, rfl⟩ := List.mem_map.mp member
    exact all n inRange
  have length := (nodup.subperm subset).length_le
  rw [List.length_map, List.length_range'] at length
  omega

/-- Among infinitely many different candidates one is not in the list. -/
theorem exists_unused {α : Type} [DecidableEq α] {candidate : ℕ → α}
    (injective : Function.Injective candidate) (used : List α) (start : ℕ) :
    ∃ n, start ≤ n ∧ candidate n ∉ used := by
  obtain ⟨n, atLeast, _, free⟩ := exists_unused_below injective used start
  exact ⟨n, atLeast, free⟩

end Bun.Foundation
