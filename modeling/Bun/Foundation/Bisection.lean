/-
Bisection: the boundary between the indices where a predicate holds and those
where it does not, found by halving the interval that holds it.

On a list whose order the predicate respects, the boundary is the length of the
longest prefix that satisfies it, so a search can be read as `List.takeWhile`.
-/

import Mathlib.Data.List.Basic

set_option autoImplicit false

namespace Bun.Foundation

/-- Narrow `[lo, hi)` to the first index where `holds` fails. -/
def bisect (holds : Nat → Bool) (lo hi : Nat) : Nat :=
  if lo < hi then
    let mid := lo + (hi - lo) / 2
    if holds mid then bisect holds (mid + 1) hi else bisect holds lo mid
  else lo
termination_by hi - lo
decreasing_by all_goals omega

theorem bisect_boundary (holds : Nat → Bool) (lo hi : Nat) (ordered : lo ≤ hi)
    (down : ∀ low high, low ≤ high → high < hi → holds high = true → holds low = true) :
    lo ≤ bisect holds lo hi ∧ bisect holds lo hi ≤ hi ∧
      (∀ index, lo ≤ index → index < bisect holds lo hi → holds index = true) ∧
      (∀ index, bisect holds lo hi ≤ index → index < hi → holds index = false) := by
  induction lo, hi using bisect.induct holds with
  | case1 lo hi more mid here ih =>
      obtain ⟨above, below, holdsBelow, failsAbove⟩ := ih (by omega) down
      have step : bisect holds lo hi = bisect holds (mid + 1) hi := by
        rw [bisect, if_pos more]
        exact if_pos here
      rw [step]
      refine ⟨by omega, below, ?_, failsAbove⟩
      intro index from_lo inside
      by_cases beyond : mid + 1 ≤ index
      · exact holdsBelow index beyond inside
      · exact down index mid (by omega) (by omega) here
  | case2 lo hi more mid here ih =>
      obtain ⟨above, below, holdsBelow, failsAbove⟩ := ih (by omega) (by
        intro low high lowHigh inside
        exact down low high lowHigh (by omega))
      have step : bisect holds lo hi = bisect holds lo mid := by
        rw [bisect, if_pos more]
        exact if_neg here
      rw [step]
      refine ⟨above, by omega, holdsBelow, ?_⟩
      intro index beyond inside
      by_cases before : index < mid
      · exact failsAbove index beyond before
      · by_contra holdsIndex
        rw [Bool.not_eq_false] at holdsIndex
        exact here (down mid index (by omega) inside holdsIndex)
  | case3 lo hi none =>
      rw [bisect, if_neg none]
      refine ⟨Nat.le_refl lo, ordered, ?_, ?_⟩
      · intro index from_lo inside
        omega
      · intro index beyond inside
        omega

section Lists

variable {α : Type}

theorem bisect_eq_takeWhile_length (items : List α) (satisfies : α → Bool)
    (down : items.Pairwise fun earlier later => satisfies later = true → satisfies earlier = true) :
    bisect (fun index => (items[index]?).any satisfies) 0 items.length =
      (items.takeWhile satisfies).length := by
  have passedDown : ∀ low high, low ≤ high → high < items.length →
      (items[high]?).any satisfies = true → (items[low]?).any satisfies = true := by
    intro low high lowHigh inside holdsHigh
    have lowInside : low < items.length := by omega
    rw [List.getElem?_eq_getElem inside, Option.any_some] at holdsHigh
    rw [List.getElem?_eq_getElem lowInside, Option.any_some]
    rcases Nat.lt_or_eq_of_le lowHigh with strict | rfl
    · exact List.pairwise_iff_getElem.mp down low high lowInside inside strict holdsHigh
    · exact holdsHigh
  obtain ⟨-, below, holdsBelow, failsAbove⟩ :=
    bisect_boundary (fun index => (items[index]?).any satisfies) 0 items.length (Nat.zero_le _)
      passedDown
  generalize bisect (fun index => (items[index]?).any satisfies) 0 items.length = boundary at *
  have split : items.takeWhile satisfies = items.take boundary := by
    conv_lhs => rw [← List.take_append_drop boundary items]
    rw [List.takeWhile_append_of_pos]
    · have stops : (items.drop boundary).takeWhile satisfies = [] := by
        cases rest : items.drop boundary with
        | nil => rfl
        | cons item rest' =>
            have found : items[boundary]? = some item := by
              have head : (items.drop boundary)[0]? = some item := by rw [rest]; rfl
              rwa [List.getElem?_drop, Nat.add_zero] at head
            have inside := (List.getElem?_eq_some_iff.mp found).1
            have fails := failsAbove boundary (Nat.le_refl _) inside
            rw [found, Option.any_some] at fails
            rw [List.takeWhile_cons, if_neg (by simp [fails])]
      rw [stops, List.append_nil]
    · intro item member
      obtain ⟨index, inside, rfl⟩ := List.getElem_of_mem member
      have bounds := inside
      rw [List.length_take] at bounds
      have holdsIndex := holdsBelow index (Nat.zero_le _) (by omega)
      rw [List.getElem?_eq_getElem (by omega), Option.any_some] at holdsIndex
      rw [List.getElem_take]
      exact holdsIndex
  rw [split, List.length_take]
  omega

/-- The first index at which the predicate fails, on a list that it cuts in two. -/
def partitionPoint (items : List α) (satisfies : α → Bool) : Nat :=
  bisect (fun index => (items[index]?).any satisfies) 0 items.length

theorem drop_partitionPoint (items : List α) (satisfies : α → Bool)
    (down : items.Pairwise fun earlier later => satisfies later = true → satisfies earlier = true) :
    items.drop (partitionPoint items satisfies) = items.dropWhile satisfies := by
  unfold partitionPoint
  rw [bisect_eq_takeWhile_length items satisfies down]
  have split := List.takeWhile_append_dropWhile (p := satisfies) (l := items)
  calc items.drop (items.takeWhile satisfies).length
      = (items.takeWhile satisfies ++ items.dropWhile satisfies).drop
          (items.takeWhile satisfies).length := by rw [split]
    _ = items.dropWhile satisfies := List.drop_left

section Keys

variable {key : α → Nat}

theorem below_down {items : List α} (sorted : items.Pairwise fun a b => key a ≤ key b)
    (bound : Nat) :
    items.Pairwise fun earlier later =>
      decide (key later < bound) = true → decide (key earlier < bound) = true := by
  apply sorted.imp
  intro earlier later ordered below
  rw [decide_eq_true_eq] at below ⊢
  omega

/-- In a list sorted by a key, the members with a key from `bound` on are what follows the
partition point. -/
theorem mem_drop_partitionPoint {items : List α}
    (sorted : items.Pairwise fun a b => key a ≤ key b) (bound : Nat) (item : α) :
    item ∈ items.drop (partitionPoint items fun item => decide (key item < bound)) ↔
      item ∈ items ∧ bound ≤ key item := by
  rw [drop_partitionPoint _ _ (below_down sorted bound)]
  induction items with
  | nil => simp
  | cons head rest ih =>
      have behind := List.pairwise_cons.mp sorted
      by_cases below : key head < bound
      · rw [List.dropWhile_cons_of_pos (by simpa using below), ih behind.2, List.mem_cons]
        constructor
        · intro found
          exact ⟨Or.inr found.1, found.2⟩
        · intro found
          refine ⟨found.1.resolve_left ?_, found.2⟩
          rintro rfl
          exact absurd below (Nat.not_lt_of_le found.2)
      · rw [List.dropWhile_cons_of_neg (by simpa using below)]
        constructor
        · intro member
          refine ⟨member, ?_⟩
          rcases List.mem_cons.mp member with rfl | later
          · exact Nat.le_of_not_lt below
          · exact Nat.le_trans (Nat.le_of_not_lt below) (behind.1 item later)
        · intro found
          exact found.1

theorem mem_run {items : List α} (sorted : items.Pairwise fun a b => key a ≤ key b)
    (value : Nat) (item : α) :
    item ∈ (items.drop (partitionPoint items fun item => decide (key item < value))).takeWhile
        (fun item => decide (key item = value)) ↔ item ∈ items ∧ key item = value := by
  have behind := mem_drop_partitionPoint sorted value
  have ordered := sorted.sublist (List.drop_sublist
    (partitionPoint items fun item => decide (key item < value)) items)
  generalize items.drop (partitionPoint items fun item => decide (key item < value)) = rest at *
  constructor
  · intro member
    have found := (behind item).mp ((List.takeWhile_sublist _).mem member)
    exact ⟨found.1, of_decide_eq_true (List.all_eq_true.mp List.all_takeWhile item member)⟩
  · intro found
    have member := (behind item).mpr ⟨found.1, Nat.le_of_eq found.2.symm⟩
    have atLeast (other : α) (isIn : other ∈ rest) : value ≤ key other :=
      ((behind other).mp isIn).2
    clear behind
    induction rest with
    | nil => cases member
    | cons head rest ih =>
        have later := List.pairwise_cons.mp ordered
        have first : key head = value := by
          apply Nat.le_antisymm
          · rcases List.mem_cons.mp member with rfl | isLater
            · exact Nat.le_of_eq found.2
            · exact Nat.le_trans (later.1 item isLater) (Nat.le_of_eq found.2)
          · exact atLeast head List.mem_cons_self
        rw [List.takeWhile_cons_of_pos (by simpa using first)]
        rcases List.mem_cons.mp member with rfl | isLater
        · exact List.mem_cons_self
        · exact List.mem_cons_of_mem _ (ih later.2 isLater
            (fun other isIn => atLeast other (List.mem_cons_of_mem _ isIn)))

theorem any_at_partitionPoint {items : List α}
    (sorted : items.Pairwise fun a b => key a ≤ key b) (first last : Nat) :
    (items[partitionPoint items fun item => decide (key item < first)]?).any
        (fun item => decide (key item ≤ last)) = true ↔
      ∃ item ∈ items, first ≤ key item ∧ key item ≤ last := by
  have behind := mem_drop_partitionPoint sorted first
  have ordered := sorted.sublist (List.drop_sublist
    (partitionPoint items fun item => decide (key item < first)) items)
  have head := List.head?_drop
    (l := items) (i := partitionPoint items fun item => decide (key item < first))
  rw [← head]
  generalize items.drop (partitionPoint items fun item => decide (key item < first)) = rest at *
  cases rest with
  | nil =>
      constructor
      · intro impossible
        cases impossible
      · rintro ⟨item, member, above, _⟩
        cases (behind item).mpr ⟨member, above⟩
  | cons front rest =>
      rw [List.head?_cons, Option.any_some, decide_eq_true_eq]
      constructor
      · intro within
        have found := (behind front).mp List.mem_cons_self
        exact ⟨front, found.1, found.2, within⟩
      · rintro ⟨item, member, above, within⟩
        rcases List.mem_cons.mp ((behind item).mpr ⟨member, above⟩) with rfl | later
        · exact within
        · exact Nat.le_trans ((List.pairwise_cons.mp ordered).1 item later) within

end Keys

theorem takeWhile_blocks (satisfies : α → Bool) (front : List α) (head : α) (rest back : List α)
    (frontHolds : ∀ item ∈ front, satisfies item = true) (headHolds : satisfies head = true)
    (backFails : ∀ item, back.head? = some item → satisfies item = false) :
    (front ++ (head :: rest ++ back)).takeWhile satisfies =
      front ++ head :: rest.takeWhile satisfies := by
  have backStops : back.takeWhile satisfies = [] := by
    cases back with
    | nil => rfl
    | cons item back => rw [List.takeWhile_cons, if_neg (by simp [backFails item rfl])]
  rw [List.takeWhile_append_of_pos frontHolds, List.cons_append, List.takeWhile_cons,
    if_pos headHolds, List.takeWhile_append, backStops, List.append_nil]
  split <;> rename_i whole
  · rw [(List.takeWhile_prefix satisfies).eq_of_length whole]
  · rfl

end Lists

end Bun.Foundation
