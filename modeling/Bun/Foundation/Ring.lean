/-
Items that lie around a ring of cells.

A run of items starts at some cell and goes on from the first cell after the last one.
Its place is counted modulo the number of cells, so moving the start by whole turns
changes nothing.
-/

import Mathlib.Data.List.Rotate

set_option autoImplicit false

namespace Bun.Foundation

variable {α : Type}

/-- The cells with those from `start` on replaced by the new ones. -/
def overwrite (cells : List (Option α)) (start : Nat) (new : List (Option α)) :
    List (Option α) :=
  cells.take start ++ new ++ cells.drop (start + new.length)

/-- The items stand in the ring one after another from the place `start`. -/
def Lies (cells : List (Option α)) (start : Nat) (items : List α) : Prop :=
  ∀ index (inItems : index < items.length),
    cells[(start + index) % cells.length]? = some (some items[index])

theorem length_overwrite {cells new : List (Option α)} {start : Nat}
    (fits : start + new.length ≤ cells.length) :
    (overwrite cells start new).length = cells.length := by
  simp only [overwrite, List.length_append, List.length_take, List.length_drop]
  omega

theorem getElem?_overwrite_inside {cells new : List (Option α)} {start index : Nat}
    (fits : start + new.length ≤ cells.length) (inNew : index < new.length) :
    (overwrite cells start new)[start + index]? = new[index]? := by
  have frontLength : (cells.take start).length = start := by
    rw [List.length_take]
    omega
  rw [overwrite, List.append_assoc, List.getElem?_append_right (by omega), frontLength,
    Nat.add_sub_cancel_left, List.getElem?_append_left inNew]

theorem getElem?_overwrite_outside {cells new : List (Option α)} {start place : Nat}
    (fits : start + new.length ≤ cells.length)
    (outside : place < start ∨ start + new.length ≤ place) :
    (overwrite cells start new)[place]? = cells[place]? := by
  have frontLength : (cells.take start).length = start := by
    rw [List.length_take]
    omega
  cases outside with
  | inl before =>
      rw [overwrite, List.append_assoc, List.getElem?_append_left (by omega),
        List.getElem?_take_of_lt before]
  | inr after =>
      rw [overwrite, List.getElem?_append_right (by rw [List.length_append]; omega),
        List.getElem?_drop, List.length_append, frontLength]
      congr 1
      omega

/-! ### Places -/

namespace Lies

variable {cells : List (Option α)} {start : Nat} {items : List α}

theorem nil (cells : List (Option α)) (start : Nat) : Lies cells start [] := by
  intro index inItems
  exact absurd inItems (Nat.not_lt_zero index)

theorem mod_iff : Lies cells (start % cells.length) items ↔ Lies cells start items := by
  unfold Lies
  simp only [Nat.mod_add_mod]

theorem add_length_iff : Lies cells (start + cells.length) items ↔ Lies cells start items := by
  rw [← mod_iff, Nat.add_mod_right, mod_iff]

theorem append_iff {front back : List α} :
    Lies cells start (front ++ back) ↔
      Lies cells start front ∧ Lies cells (start + front.length) back := by
  constructor
  · intro whole
    constructor
    · intro index inFront
      have found := whole index (by rw [List.length_append]; omega)
      rwa [List.getElem_append_left inFront] at found
    · intro index inBack
      have found := whole (front.length + index) (by rw [List.length_append]; omega)
      rw [List.getElem_append_right (by omega)] at found
      simpa only [Nat.add_sub_cancel_left, Nat.add_assoc] using found
  · rintro ⟨inFront, inBack⟩ index inBoth
    by_cases first : index < front.length
    · rw [List.getElem_append_left first]
      exact inFront index first
    · rw [List.length_append] at inBoth
      have found := inBack (index - front.length) (by omega)
      rw [List.getElem_append_right (by omega)]
      rwa [show start + front.length + (index - front.length) = start + index by omega] at found

theorem cons_iff {item : α} {rest : List α} :
    Lies cells start (item :: rest) ↔
      cells[start % cells.length]? = some (some item) ∧ Lies cells (start + 1) rest := by
  rw [← List.singleton_append, append_iff]
  constructor
  · rintro ⟨first, others⟩
    exact ⟨first 0 (Nat.zero_lt_one), others⟩
  · rintro ⟨first, others⟩
    refine ⟨?_, others⟩
    intro index inItems
    obtain rfl : index = 0 := by simpa using inItems
    exact first

/-! ### Runs that do not pass the end -/

theorem iff_isPrefix (fits : start + items.length ≤ cells.length) :
    Lies cells start items ↔ items.map some <+: cells.drop start := by
  rw [List.prefix_iff_getElem?]
  constructor
  · intro inPlace index inItems
    rw [List.length_map] at inItems
    have found := inPlace index inItems
    rw [Nat.mod_eq_of_lt (by omega)] at found
    rw [List.getElem?_drop, found, List.getElem_map]
  · intro agree index inItems
    have found := agree index (by rwa [List.length_map])
    rw [List.getElem?_drop, List.getElem_map] at found
    rw [Nat.mod_eq_of_lt (by omega)]
    exact found

theorem take_drop (inPlace : Lies cells start items)
    (fits : start + items.length ≤ cells.length) :
    (cells.drop start).take items.length = items.map some := by
  have whole := List.prefix_iff_eq_take.mp ((iff_isPrefix fits).mp inPlace)
  rw [List.length_map] at whole
  exact whole.symm

/-! ### Writing -/

theorem overwrite_self {new : List (Option α)} (fits : start + new.length ≤ cells.length)
    (written : items.map some <+: new) : Lies (overwrite cells start new) start items := by
  have short := written.length_le
  rw [List.length_map] at short
  intro index inItems
  rw [length_overwrite fits, Nat.mod_eq_of_lt (by omega),
    getElem?_overwrite_inside fits (by omega)]
  have found := List.prefix_iff_getElem?.mp written index (by rwa [List.length_map])
  rw [List.getElem_map] at found
  exact found

/-- A run that begins at least as far behind the written place as the writing reaches, and
ends before coming round to it, stays. -/
theorem overwrite_other {new : List (Option α)} {gap : Nat}
    (inPlace : Lies cells (start + gap) items) (fits : start + new.length ≤ cells.length)
    (behind : new.length ≤ gap) (ends : gap + items.length ≤ cells.length) :
    Lies (overwrite cells start new) (start + gap) items := by
  intro index inItems
  rw [length_overwrite fits, getElem?_overwrite_outside fits, inPlace index inItems]
  by_cases wraps : start + gap + index < cells.length
  · rw [Nat.mod_eq_of_lt wraps]
    omega
  · rw [Nat.mod_eq_sub_mod (by omega), Nat.mod_eq_of_lt (by omega)]
    omega

theorem overwrite_apart {new : List (Option α)} {place : Nat}
    (inPlace : Lies cells place items) (gap : Nat) (fits : start + new.length ≤ cells.length)
    (behind : new.length ≤ gap) (ends : gap + items.length ≤ cells.length)
    (samePlace : (start + gap) % cells.length = place % cells.length) :
    Lies (overwrite cells start new) place items := by
  have here : Lies cells (start + gap) items := by
    rw [← mod_iff, samePlace, mod_iff]
    exact inPlace
  have kept := overwrite_other here fits behind ends
  rwa [← mod_iff, length_overwrite fits, samePlace, ← length_overwrite fits, mod_iff] at kept

theorem rotate (inPlace : Lies cells start items) (fits : items.length ≤ cells.length) :
    Lies (cells.rotate start) 0 items := by
  intro index inItems
  have within : index < cells.length := by omega
  rw [List.length_rotate, Nat.zero_add, Nat.mod_eq_of_lt within, List.getElem?_rotate within,
    Nat.add_comm]
  exact inPlace index inItems

end Lies

end Bun.Foundation
