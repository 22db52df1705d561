/-
Cuts of a linear order: just below a point or just above it.

A closed or open bound on either side is a cut, so that bounds of every kind are
compared in one linear order and an interval is the points between two cuts.
-/

import Mathlib.Data.Prod.Lex
import Mathlib.Order.WithBot

set_option autoImplicit false

namespace Bun.Foundation

/-- The second component tells whether the cut is above the point. -/
abbrev Cut (K : Type) := K ×ₗ Bool

namespace Cut

variable {K : Type} [LinearOrder K]

def below (point : K) : Cut K :=
  toLex (point, false)

def above (point : K) : Cut K :=
  toLex (point, true)

def lower (point : K) (inclusive : Bool) : Cut K :=
  toLex (point, !inclusive)

def upper (point : K) (inclusive : Bool) : Cut K :=
  toLex (point, inclusive)

theorem le_iff (a b : K) (aAbove bAbove : Bool) :
    (toLex (a, aAbove) : Cut K) ≤ toLex (b, bAbove) ↔ a < b ∨ a = b ∧ aAbove ≤ bAbove :=
  Prod.Lex.toLex_le_toLex

theorem lt_iff (a b : K) (aAbove bAbove : Bool) :
    (toLex (a, aAbove) : Cut K) < toLex (b, bAbove) ↔ a < b ∨ a = b ∧ aAbove < bAbove :=
  Prod.Lex.toLex_lt_toLex

theorem below_le_below {a b : K} : below a ≤ below b ↔ a ≤ b := by
  unfold below
  rw [le_iff, and_iff_left (le_refl _)]
  exact le_iff_lt_or_eq.symm

theorem above_le_above {a b : K} : above a ≤ above b ↔ a ≤ b := by
  unfold above
  rw [le_iff, and_iff_left (le_refl _)]
  exact le_iff_lt_or_eq.symm

theorem above_le_below {a b : K} : above a ≤ below b ↔ a < b := by
  unfold above below
  rw [le_iff]
  simp

theorem below_lt_above {a b : K} : below a < above b ↔ a ≤ b := by
  unfold above below
  rw [lt_iff, le_iff_lt_or_eq]
  simp

theorem point_le {a b : K} {aAbove bAbove : Bool}
    (le : (toLex (a, aAbove) : Cut K) ≤ toLex (b, bAbove)) : a ≤ b := by
  rcases (le_iff a b aAbove bAbove).mp le with less | ⟨same, _⟩
  · exact less.le
  · exact same.le

end Cut

/-- Between marks, every key has the same place as the lowest one, as a mark or as what follows a
mark. -/
theorem exists_samePlace {K β : Type} [LinearOrder K] (key : β → K) (next : β → β)
    {low x : β} (marks : List β) (fromLow : key low ≤ key x)
    (follows : ∀ m ∈ marks, key m < key x → key m < key (next m) ∧ key (next m) ≤ key x) :
    ∃ e ∈ low :: marks.flatMap fun m => [m, next m], key e ≤ key x ∧
      ∀ m ∈ marks, (key m ≤ key e ↔ key m ≤ key x) ∧ (key e ≤ key m ↔ key x ≤ key m) := by
  induction marks with
  | nil => exact ⟨low, List.mem_cons_self, fromLow, fun m isIn => absurd isIn List.not_mem_nil⟩
  | cons m marks ih =>
      obtain ⟨e, isIn, isBelow, same⟩ := ih fun other member =>
        follows other (List.mem_cons_of_mem _ member)
      have later : e ∈ low :: (m :: marks).flatMap fun m => [m, next m] := by
        rw [List.flatMap_cons]
        rcases List.mem_cons.mp isIn with rfl | isLater
        · exact List.mem_cons_self
        · exact List.mem_cons_of_mem _ (List.mem_append_right _ isLater)
      rcases lt_trichotomy (key x) (key m) with above | equal | below
      · refine ⟨e, later, isBelow, fun other member => ?_⟩
        rcases List.mem_cons.mp member with rfl | member
        · exact ⟨⟨fun le => le.trans isBelow, fun le => absurd le (not_le.mpr above)⟩,
            ⟨fun _ => above.le, fun _ => isBelow.trans above.le⟩⟩
        · exact same other member
      · refine ⟨m, List.mem_cons_of_mem _ List.mem_cons_self, equal.ge, fun other _ => ?_⟩
        rw [equal]
        exact ⟨Iff.rfl, Iff.rfl⟩
      · rcases lt_or_ge (key m) (key e) with between | before
        · refine ⟨e, later, isBelow, fun other member => ?_⟩
          rcases List.mem_cons.mp member with rfl | member
          · exact ⟨⟨fun _ => below.le, fun _ => between.le⟩,
              ⟨fun le => absurd le (not_le.mpr between), fun le => absurd le (not_le.mpr below)⟩⟩
          · exact same other member
        · -- what follows the mark takes the place of a key below it
          obtain ⟨isAfter, nextBelow⟩ := follows m List.mem_cons_self below
          refine ⟨next m, List.mem_cons_of_mem _ (List.mem_cons_of_mem _ List.mem_cons_self),
            nextBelow, fun other member => ?_⟩
          rcases List.mem_cons.mp member with rfl | member
          · exact ⟨⟨fun _ => below.le, fun _ => isAfter.le⟩,
              ⟨fun le => absurd le (not_le.mpr isAfter), fun le => absurd le (not_le.mpr below)⟩⟩
          · obtain ⟨under, above⟩ := same other member
            exact ⟨⟨fun le => le.trans nextBelow, fun le => (under.mpr le).trans
                (before.trans isAfter.le)⟩,
              ⟨fun le => above.mp ((before.trans isAfter.le).trans le), fun le => nextBelow.trans le⟩⟩

end Bun.Foundation
