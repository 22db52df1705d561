/-
Items moved to the places that a permutation gives them, without a second list.

Each cycle of the permutation is walked once.  A swap puts the right item into the place
where the walk stands and carries the displaced one on to the next place.  A place that is
done is marked in the permutation itself, by a number that may also be an index.  The walk
has no bound of its own, so it takes a number of steps that it may make; an access outside
a list fails.
-/

import Mathlib.Data.Finset.Card
import Mathlib.Data.Finset.Range
import Mathlib.Data.List.Range

set_option autoImplicit false

namespace Bun.Collections.ApplyPermutation

variable {α : Type}

/-- `u32::MAX`, the mark of a place that is done. -/
def done : UInt32 := 0xFFFFFFFF

structure Permuting (α : Type) where
  items : List α
  order : List UInt32

def swap (items : List α) (a b : ℕ) : Option (List α) := do
  let first ← items[a]?
  let second ← items[b]?
  return (items.set a second).set b first

/-- The `loop` over one cycle, from `cur` on. -/
def walkCycle (start : ℕ) : ℕ → ℕ → Permuting α → Option (Permuting α)
  | 0, _, _ => none
  | steps + 1, cur, now => do
      let next ← now.order[cur]?
      let order := now.order.set cur done
      if next.toNat = start then return { now with order }
      else
        let items ← swap now.items cur next.toNat
        walkCycle start steps next.toNat { items, order }

def applyFrom (steps : ℕ) (now : Permuting α) (start : ℕ) : Option (Permuting α) := do
  let mark ← now.order[start]?
  if mark = done then return now else walkCycle start steps start now

def applyPermutationInPlace (steps : ℕ) (items : List α) (order : List UInt32) :
    Option (List α) := do
  let finished ← (List.range items.length).foldlM (applyFrom steps) { items, order }
  return finished.items

/-! ### Places that are done -/

def Sends (order : List UInt32) (place next : ℕ) : Prop :=
  ∃ index, order[place]? = some index ∧ index.toNat = next

/-- The order sends `count` places to each other, each to another one. -/
structure IsOrder (count : ℕ) (order : List UInt32) : Prop where
  defined : ∀ place < count, ∃ next < count, Sends order place next
  once : ∀ place other next, Sends order place next → Sends order other next → place = other

structure Placed (items : List α) (order : List UInt32) (finished : Finset ℕ)
    (now : Permuting α) : Prop where
  within : finished ⊆ Finset.range items.length
  sameLength : now.items.length = items.length
  marked : ∀ place ∈ finished, now.order[place]? = some done
  unmarked : ∀ place ∉ finished, now.order[place]? = order[place]?
  moved : ∀ place ∈ finished, ∀ next, Sends order place next → now.items[place]? = items[next]?

/-- Between two walks: the other places are as they were, and lead to none that is finished. -/
structure Settled (items : List α) (order : List UInt32) (finished : Finset ℕ)
    (now : Permuting α) : Prop extends Placed items order finished now where
  kept : ∀ place ∉ finished, now.items[place]? = items[place]?
  closed : ∀ place next, Sends order place next → next ∈ finished → place ∈ finished

/-- Inside a walk that began at `start`: the item of `start` stands at `cur`. -/
structure Walking (items : List α) (order : List UInt32) (start cur : ℕ) (finished : Finset ℕ)
    (now : Permuting α) : Prop extends Placed items order finished now where
  inside : cur < items.length
  open' : cur ∉ finished
  held : now.items[cur]? = items[start]?
  kept : ∀ place ∉ finished, place ≠ cur → now.items[place]? = items[place]?
  closed : ∀ place next, Sends order place next → next ∈ finished →
    place ∈ finished ∨ next = start
  comes : cur = start ∨ ∃ place ∈ finished, Sends order place cur

variable {items : List α} {order : List UInt32} {start cur : ℕ} {finished : Finset ℕ}
  {now : Permuting α}

theorem Placed.insert {moved : List α} {next : ℕ} (placed : Placed items order finished now)
    (isNew : cur ∉ finished) (inside : cur < items.length) (sends : Sends order cur next)
    (sameLength : moved.length = items.length) (isMoved : moved[cur]? = items[next]?)
    (kept : ∀ place ∈ finished, moved[place]? = now.items[place]?) :
    Placed items order (insert cur finished)
      { items := moved, order := now.order.set cur done } := by
  obtain ⟨index, isIndex, rfl⟩ := sends
  have isEntry := (placed.unmarked cur isNew).trans isIndex
  have inOrder : cur < now.order.length := (List.getElem?_eq_some_iff.mp isEntry).1
  constructor
  · intro place isPlace
    rcases Finset.mem_insert.mp isPlace with rfl | isPlace
    · exact Finset.mem_range.mpr inside
    · exact placed.within isPlace
  · exact sameLength
  · intro place isPlace
    by_cases same : cur = place
    · subst same
      exact List.getElem?_set_self inOrder
    · rw [List.getElem?_set_ne same]
      exact placed.marked place (Finset.mem_of_mem_insert_of_ne isPlace (Ne.symm same))
  · intro place isOther
    rw [Finset.mem_insert, not_or] at isOther
    rw [List.getElem?_set_ne (Ne.symm isOther.1)]
    exact placed.unmarked place isOther.2
  · intro place isPlace other sends
    rcases Finset.mem_insert.mp isPlace with rfl | isPlace
    · obtain ⟨entry, isOther, rfl⟩ := sends
      rw [isIndex] at isOther
      rw [← Option.some.inj isOther]
      exact isMoved
    · rw [kept place isPlace]
      exact placed.moved place isPlace other sends

theorem Walking.returns (walking : Walking items order start cur finished now)
    (isOrder : IsOrder items.length order) (sends : Sends order cur start) :
    Settled items order (insert cur finished)
      { now with order := now.order.set cur done } := by
  refine
    { toPlaced := walking.toPlaced.insert walking.open' walking.inside sends walking.sameLength
        walking.held (fun _ _ => rfl)
      kept := ?_
      closed := ?_ }
  · intro place isOther
    rw [Finset.mem_insert, not_or] at isOther
    exact walking.kept place isOther.2 isOther.1
  · intro place next placeSends isFinished
    rcases Finset.mem_insert.mp isFinished with rfl | isFinished
    · rcases walking.comes with rfl | ⟨before, isBefore, beforeSends⟩
      · rw [isOrder.once place next next placeSends sends]
        exact Finset.mem_insert_self _ _
      · rw [isOrder.once place before next placeSends beforeSends]
        exact Finset.mem_insert_of_mem isBefore
    · rcases walking.closed place next placeSends isFinished with isPlace | rfl
      · exact Finset.mem_insert_of_mem isPlace
      · rw [isOrder.once place cur next placeSends sends]
        exact Finset.mem_insert_self _ _

theorem Walking.next_new {next : ℕ} (walking : Walking items order start cur finished now)
    (isOrder : IsOrder items.length order) (sends : Sends order cur next)
    (goesOn : next ≠ start) : next ∉ insert cur finished := by
  intro isFinished
  rcases Finset.mem_insert.mp isFinished with rfl | isFinished
  · rcases walking.comes with same | ⟨before, isBefore, beforeSends⟩
    · exact goesOn same
    · rw [isOrder.once before next next beforeSends sends] at isBefore
      exact walking.open' isBefore
  · rcases walking.closed cur next sends isFinished with isCur | same
    · exact walking.open' isCur
    · exact goesOn same

theorem swap_of_fits {a b : ℕ} {first second : α} (isFirst : items[a]? = some first)
    (isSecond : items[b]? = some second) :
    swap items a b = some ((items.set a second).set b first) := by
  rw [swap, isFirst, isSecond]
  rfl

theorem Walking.goesOn {next : ℕ} (walking : Walking items order start cur finished now)
    (isOrder : IsOrder items.length order) (sends : Sends order cur next)
    (inside : next < items.length) (goesOn : next ≠ start) :
    ∃ moved, swap now.items cur next = some moved ∧
      Walking items order start next (insert cur finished)
        { items := moved, order := now.order.set cur done } := by
  have isNew := walking.next_new isOrder sends goesOn
  have isOther := isNew
  rw [Finset.mem_insert, not_or] at isOther
  have curInside : cur < now.items.length := walking.sameLength ▸ walking.inside
  have nextInside : next < now.items.length := walking.sameLength ▸ inside
  have isNext := walking.kept next isOther.2 isOther.1
  refine ⟨_, swap_of_fits (List.getElem?_eq_getElem curInside)
    (List.getElem?_eq_getElem nextInside), ?_⟩
  have elsewhere (place : ℕ) (notCur : place ≠ cur) (notNext : place ≠ next) :
      ((now.items.set cur now.items[next]).set next now.items[cur])[place]? =
        now.items[place]? := by
    rw [List.getElem?_set_ne (Ne.symm notNext), List.getElem?_set_ne (Ne.symm notCur)]
  refine
    { toPlaced := ?_
      inside := inside
      open' := isNew
      held := ?_
      kept := ?_
      closed := ?_
      comes := Or.inr ⟨cur, Finset.mem_insert_self _ _, sends⟩ }
  · refine walking.toPlaced.insert walking.open' walking.inside sends ?_ ?_ ?_
    · rw [List.length_set, List.length_set, walking.sameLength]
    · rw [List.getElem?_set_ne isOther.1, List.getElem?_set_self curInside,
        ← List.getElem?_eq_getElem nextInside, isNext]
    · intro place isPlace
      refine elsewhere place ?_ ?_
      · rintro rfl
        exact walking.open' isPlace
      · rintro rfl
        exact isOther.2 isPlace
  · dsimp only
    rw [List.getElem?_set_self (by rw [List.length_set]; exact nextInside),
      ← List.getElem?_eq_getElem curInside, walking.held]
  · intro place notFinished notNext
    rw [Finset.mem_insert, not_or] at notFinished
    dsimp only
    rw [elsewhere place notFinished.1 notNext]
    exact walking.kept place notFinished.2 notFinished.1
  · intro place other placeSends isFinished
    rcases Finset.mem_insert.mp isFinished with rfl | isFinished
    · rcases walking.comes with rfl | ⟨before, isBefore, beforeSends⟩
      · exact Or.inr rfl
      · rw [isOrder.once place before other placeSends beforeSends]
        exact Or.inl (Finset.mem_insert_of_mem isBefore)
    · rcases walking.closed place other placeSends isFinished with isPlace | same
      · exact Or.inl (Finset.mem_insert_of_mem isPlace)
      · exact Or.inr same

theorem walkCycle_settles (isOrder : IsOrder items.length order) {steps : ℕ}
    (walking : Walking items order start cur finished now)
    (enough : items.length ≤ finished.card + steps) :
    ∃ visited later, walkCycle start steps cur now = some later ∧
      Settled items order visited later ∧ insert cur finished ⊆ visited := by
  induction steps generalizing cur finished now with
  | zero =>
      have within : insert cur finished ⊆ Finset.range items.length :=
        Finset.insert_subset (Finset.mem_range.mpr walking.inside) walking.within
      have small := Finset.card_le_card within
      rw [Finset.card_insert_of_notMem walking.open', Finset.card_range] at small
      omega
  | succ steps ih =>
      obtain ⟨next, nextInside, sends⟩ := isOrder.defined cur walking.inside
      obtain ⟨index, isIndex, rfl⟩ := sends
      have isEntry := (walking.unmarked cur walking.open').trans isIndex
      rw [walkCycle, isEntry, Option.bind_eq_bind, Option.bind_some]
      by_cases comesBack : index.toNat = start
      · rw [if_pos comesBack]
        exact ⟨_, _, rfl, walking.returns isOrder ⟨index, isIndex, comesBack⟩,
          Finset.Subset.refl _⟩
      · obtain ⟨moved, isMoved, walks⟩ :=
          walking.goesOn isOrder ⟨index, isIndex, rfl⟩ nextInside comesBack
        rw [if_neg comesBack, isMoved]
        obtain ⟨visited, later, run, settled, grows⟩ := ih walks (by
          rw [Finset.card_insert_of_notMem walking.open']
          omega)
        exact ⟨visited, later, run, settled,
          fun place isPlace => grows (Finset.mem_insert_of_mem isPlace)⟩

/-! ### All cycles -/

/-- The walks from the places before `limit`.  One of them may have been passed over without
a walk because its entry looks like a mark. -/
def Swept (items : List α) (order : List UInt32) (limit : ℕ) (now : Permuting α) : Prop :=
  ∃ finished, Settled items order finished now ∧
    ∀ place < limit, place ∈ finished ∨ order[place]? = some done

theorem swept_start : Swept items order 0 { items, order } :=
  ⟨∅, { within := Finset.empty_subset _
        sameLength := rfl
        marked := fun _ isPlace => nomatch isPlace
        unmarked := fun _ _ => rfl
        moved := fun _ isPlace => nomatch isPlace
        kept := fun _ _ => rfl
        closed := fun _ _ _ isPlace => nomatch isPlace }, fun _ isPlace => nomatch isPlace⟩

theorem Settled.walking (settled : Settled items order finished now)
    (inside : start < items.length) (isNew : start ∉ finished) :
    Walking items order start start finished now :=
  { toPlaced := settled.toPlaced
    inside := inside
    open' := isNew
    held := settled.kept start isNew
    kept := fun place isOther _ => settled.kept place isOther
    closed := fun place next sends isFinished => Or.inl (settled.closed place next sends isFinished)
    comes := Or.inl rfl }

theorem applyFrom_swept (isOrder : IsOrder items.length order) {steps : ℕ}
    (enough : items.length ≤ steps) (inside : start < items.length)
    (swept : Swept items order start now) :
    ∃ later, applyFrom steps now start = some later ∧ Swept items order (start + 1) later := by
  obtain ⟨finished, settled, passed⟩ := swept
  have goesOn {visited : Finset ℕ} (grows : finished ⊆ visited)
      (isPassed : start ∈ visited ∨ order[start]? = some done) :
      ∀ place < start + 1, place ∈ visited ∨ order[place]? = some done := by
    intro place isPlace
    rcases Nat.lt_succ_iff_lt_or_eq.mp isPlace with before | rfl
    · exact (passed place before).imp_left fun isFinished => grows isFinished
    · exact isPassed
  by_cases isFinished : start ∈ finished
  · refine ⟨now, ?_, finished, settled, goesOn (Finset.Subset.refl _) (Or.inl isFinished)⟩
    rw [applyFrom, settled.marked start isFinished]
    rfl
  · obtain ⟨next, -, index, isIndex, -⟩ := isOrder.defined start inside
    have isEntry := (settled.unmarked start isFinished).trans isIndex
    rw [applyFrom, isEntry, Option.bind_eq_bind, Option.bind_some]
    by_cases isDone : index = done
    · subst isDone
      exact ⟨now, if_pos rfl, finished, settled,
        goesOn (Finset.Subset.refl _) (Or.inr isIndex)⟩
    · rw [if_neg isDone]
      obtain ⟨visited, later, run, settled, grows⟩ :=
        walkCycle_settles isOrder (settled.walking inside isFinished)
          (Nat.le_trans enough (Nat.le_add_left steps finished.card))
      exact ⟨later, run, visited, settled,
        goesOn (fun _ isPlace => grows (Finset.mem_insert_of_mem isPlace))
          (Or.inl (grows (Finset.mem_insert_self _ _)))⟩

theorem foldlM_swept (isOrder : IsOrder items.length order) {steps : ℕ}
    (enough : items.length ≤ steps) {limit : ℕ} (inside : limit ≤ items.length) :
    ∃ later, (List.range limit).foldlM (applyFrom steps) { items, order } = some later ∧
      Swept items order limit later := by
  induction limit with
  | zero => exact ⟨_, rfl, swept_start⟩
  | succ limit ih =>
      obtain ⟨now, run, swept⟩ := ih (by omega)
      obtain ⟨later, step, sweptOn⟩ := applyFrom_swept isOrder enough inside swept
      refine ⟨later, ?_, sweptOn⟩
      rw [List.range_succ, List.foldlM_append, run, Option.bind_eq_bind, Option.bind_some,
        List.foldlM_cons, step]
      rfl

/-- A place that was passed over without a walk keeps its item, and is sent to itself. -/
theorem Swept.moved (isOrder : IsOrder items.length order)
    (swept : Swept items order items.length now) {place next : ℕ} (inside : place < items.length)
    (sends : Sends order place next) : now.items[place]? = items[next]? := by
  obtain ⟨finished, settled, passed⟩ := swept
  by_cases isFinished : place ∈ finished
  · exact settled.moved place isFinished next sends
  · have isMark := (passed place inside).resolve_left isFinished
    obtain ⟨other, otherInside, placeSends⟩ := isOrder.defined place inside
    obtain ⟨index, isIndex, rfl⟩ := sends
    obtain rfl : done = index := Option.some.inj (isMark.symm.trans isIndex)
    have isNext : done.toNat < items.length := by
      obtain ⟨entry, isEntry, rfl⟩ := placeSends
      rw [isMark] at isEntry
      rw [Option.some.inj isEntry]
      exact otherInside
    have notFinished : done.toNat ∉ finished := fun isNextFinished =>
      isFinished (settled.closed place done.toNat ⟨done, isMark, rfl⟩ isNextFinished)
    have nextMark := (passed done.toNat isNext).resolve_left notFinished
    have same : place = done.toNat :=
      isOrder.once place done.toNat done.toNat ⟨done, isMark, rfl⟩ ⟨done, nextMark, rfl⟩
    rw [settled.kept place isFinished, ← same]

theorem isOrder_of_perm {count : ℕ}
    (isPermutation : (order.map UInt32.toNat).Perm (List.range count)) : IsOrder count order := by
  have sameLength : order.length = count := by
    rw [← @List.length_range count, ← isPermutation.length_eq, List.length_map]
  have distinct : (order.map UInt32.toNat).Nodup := isPermutation.nodup_iff.mpr List.nodup_range
  constructor
  · intro place isPlace
    have inOrder : place < order.length := sameLength ▸ isPlace
    refine ⟨order[place].toNat, ?_, order[place], List.getElem?_eq_getElem inOrder, rfl⟩
    exact List.mem_range.mp (isPermutation.mem_iff.mp
      (List.mem_map_of_mem (List.getElem_mem inOrder)))
  · rintro place other next ⟨index, isIndex, rfl⟩ ⟨entry, isEntry, same⟩
    have inside : place < (order.map UInt32.toNat).length := by
      rw [List.length_map]
      exact (List.getElem?_eq_some_iff.mp isIndex).1
    refine (List.getElem?_inj inside distinct).mp ?_
    rw [List.getElem?_map, List.getElem?_map, isIndex, isEntry, Option.map_some, Option.map_some,
      same]

/-- Every item goes to the place that the order gives it. -/
theorem applyPermutationInPlace_moves {steps : ℕ}
    (isPermutation : (order.map UInt32.toNat).Perm (List.range items.length))
    (enough : items.length ≤ steps) :
    ∃ moved, applyPermutationInPlace steps items order = some moved ∧
      moved.length = items.length ∧
      ∀ (place : ℕ) (index : UInt32), order[place]? = some index →
        moved[place]? = items[index.toNat]? := by
  have isOrder := isOrder_of_perm isPermutation
  obtain ⟨later, run, swept⟩ := foldlM_swept isOrder enough (Nat.le_refl items.length)
  refine ⟨later.items, ?_, ?_, ?_⟩
  · rw [applyPermutationInPlace, run]
    rfl
  · obtain ⟨finished, settled, -⟩ := swept
    exact settled.sameLength
  · intro place index isIndex
    have inside : place < items.length := by
      rw [← @List.length_range items.length, ← isPermutation.length_eq, List.length_map]
      exact (List.getElem?_eq_some_iff.mp isIndex).1
    exact swept.moved isOrder inside ⟨index, isIndex, rfl⟩

/-- Two cycles, one of them a fixed point. -/
theorem applyPermutationInPlace_moves_three :
    ∃ moved, applyPermutationInPlace 3 ["a", "b", "c"] [2, 1, 0] = some moved ∧
      moved.length = 3 ∧
      ∀ (place : ℕ) (index : UInt32), [2, 1, (0 : UInt32)][place]? = some index →
        moved[place]? = ["a", "b", "c"][index.toNat]? :=
  applyPermutationInPlace_moves (by decide) (by decide)

end Bun.Collections.ApplyPermutation
