/-
Merge sort by a comparison that may answer anything.

Merging leaves a trace of the choices it made: an item of the right run goes first if the
answer was that it is less than the one of the left run.  From the trace follows what the
sort keeps: the items always, neighbours in order if the comparison reverses with its
arguments, and the stable order if it is a total preorder.
-/

import Bun.Collections.SortSteps
import Bun.Foundation.StableOrder
import Mathlib.Data.List.Chain

set_option autoImplicit false

namespace Bun.Collections.IndexSort

open Bun.Foundation

variable {α σ : Type} {cmp : Comparison α σ}

/-! ### The trace of a merge -/

inductive Merged (cmp : Comparison α σ) : List α → List α → List α → Prop
  | leftDone (right : List α) : Merged cmp [] right right
  | rightDone (left : List α) : Merged cmp left [] left
  | takeLeft {x y : α} {left right merged : List α} (notLess : MayBeNotLess cmp y x)
      (later : Merged cmp left (y :: right) merged) :
      Merged cmp (x :: left) (y :: right) (x :: merged)
  | takeRight {x y : α} {left right merged : List α} (less : MayBeLess cmp y x)
      (later : Merged cmp (x :: left) right merged) :
      Merged cmp (x :: left) (y :: right) (y :: merged)

/-- `merge` leaves runs alone if the right one does not start with less than the left one
ends with. -/
def MergeOutcome (cmp : Comparison α σ) (left right merged : List α) : Prop :=
  (∀ x ∈ left.getLast?, ∀ y ∈ right.head?, MayBeNotLess cmp y x) ∧ merged = left ++ right ∨
    Merged cmp left right merged

theorem Merged.perm {left right merged : List α} (isMerged : Merged cmp left right merged) :
    merged.Perm (left ++ right) := by
  induction isMerged with
  | leftDone right => exact List.Perm.refl _
  | rightDone left => rw [List.append_nil]
  | takeLeft notLess later ih => exact ih.cons _
  | takeRight less later ih => exact (ih.cons _).trans List.perm_middle.symm

/-- The first item of what is merged is the first of one of the runs. -/
theorem Merged.head {left right merged : List α} (isMerged : Merged cmp left right merged)
    {item : α} (isHead : item ∈ merged.head?) : item ∈ left.head? ∨ item ∈ right.head? := by
  cases isMerged with
  | leftDone right => exact Or.inr isHead
  | rightDone left => exact Or.inl isHead
  | takeLeft notLess later => exact Or.inl isHead
  | takeRight less later => exact Or.inr isHead

/-! ### Running a merge -/

/-- From any place in a merge: what is left of both runs is merged behind what has been
written, over a gap as long as what is left of the left run. -/
theorem mergeLoop_yields {len middle : ℕ} {left done leftRest out gap rest : List α}
    (isLeft : left = done ++ leftRest) (isMiddle : middle = left.length)
    (gapLength : gap.length = leftRest.length)
    (isLength : len = out.length + (gap.length + rest.length)) :
    Yields (mergeLoop cmp len middle left {
        both := out ++ (gap ++ rest)
        fromLeft := done.length
        fromRight := out.length + gap.length
        target := out.length } >>= mergeFinish left) fun result =>
      ∃ merged, Merged cmp leftRest rest merged ∧ result = out ++ merged := by
  induction isSize : leftRest.length + rest.length generalizing done leftRest out gap rest with
  | zero =>
      obtain rfl : leftRest = [] := List.length_eq_zero_iff.mp (by omega)
      obtain rfl : rest = [] := List.length_eq_zero_iff.mp (by omega)
      obtain rfl : gap = [] := List.length_eq_zero_iff.mp gapLength
      rw [mergeLoop, if_neg (by simp [isMiddle, isLeft])]
      refine Yields.bind (Yields.pure rfl) ?_
      rintro _ rfl
      rw [List.append_nil] at isLeft
      have nothing : copyFrom (left.drop done.length) [] = some [] := by
        rw [isLeft, List.drop_length]
        rfl
      refine (changeSlice_yields nothing).mono ?_
      rintro result rfl
      exact ⟨[], Merged.leftDone [], rfl⟩
  | succ size ih =>
      have leftLength := congrArg List.length isLeft
      rw [List.length_append] at leftLength
      cases leftRest with
      | nil =>
          obtain rfl : gap = [] := List.length_eq_zero_iff.mp gapLength
          rw [List.append_nil] at isLeft
          rw [mergeLoop, if_neg (by simp [isMiddle, isLeft])]
          refine Yields.bind (Yields.pure rfl) ?_
          rintro _ rfl
          have nothing : copyFrom (left.drop done.length) [] = some [] := by
            rw [isLeft, List.drop_length]
            rfl
          refine (changeSlice_yields nothing).mono ?_
          rintro result rfl
          exact ⟨rest, Merged.leftDone rest, rfl⟩
      | cons x leftRest =>
          cases rest with
          | nil =>
              rw [mergeLoop, if_neg (by simp [isLength])]
              refine Yields.bind (Yields.pure rfl) ?_
              rintro _ rfl
              have copied : copyFrom (left.drop done.length) gap = some (x :: leftRest) := by
                rw [isLeft, List.drop_left]
                exact if_pos gapLength
              refine (changeSlice_yields copied).mono ?_
              rintro result rfl
              exact ⟨x :: leftRest, Merged.rightDone _, by rw [List.append_nil]⟩
          | cons y rest =>
              cases gap with
              | nil => exact nomatch gapLength
              | cons g gap =>
                  rw [List.length_cons] at leftLength isSize gapLength isLength
                  rw [List.length_cons] at isSize gapLength isLength
                  have isRight : (out ++ (g :: gap ++ y :: rest))[out.length + (g :: gap).length]? =
                      some y := by
                    rw [← List.append_assoc, ← List.length_append,
                      List.getElem?_append_right (Nat.le_refl _), Nat.sub_self]
                    rfl
                  have isItem : left[done.length]? = some x := by
                    rw [isLeft, List.getElem?_append_right (Nat.le_refl _), Nat.sub_self]
                    rfl
                  have written (item : α) : (out ++ (g :: gap ++ y :: rest)).set out.length item =
                      (out ++ [item]) ++ (gap ++ y :: rest) := by
                    rw [List.set_append_right _ _ (Nat.le_refl _), Nat.sub_self, List.append_assoc]
                    rfl
                  have inside : out.length < (out ++ (g :: gap ++ y :: rest)).length := by
                    rw [List.length_append, List.length_append, List.length_cons]
                    omega
                  rw [mergeLoop, if_pos (by dsimp only; rw [List.length_cons]; omega)]
                  simp only [bind_assoc]
                  refine Yields.bind (readAt_yields isRight) ?_
                  rintro y rfl
                  refine Yields.bind (readAt_yields isItem) ?_
                  rintro x rfl
                  refine Yields.bind (compareBy_yields _ _) ?_
                  intro answer possible
                  by_cases less : answer = .lt
                  · rw [if_pos less]
                    simp only [bind_assoc]
                    refine Yields.bind (writeAt_yields inside y) ?_
                    rintro _ rfl
                    rw [written]
                    have next := @ih done (x :: leftRest) (out ++ [y]) (gap ++ [y]) rest isLeft
                      (by rw [List.length_append, List.length_singleton, List.length_cons]; omega)
                      (by simp only [List.length_append, List.length_singleton]; omega)
                      (by rw [List.length_cons]; omega)
                    have shift : out.length + (g :: gap).length + 1 =
                        (out ++ [y]).length + (gap ++ [y]).length := by
                      simp only [List.length_append, List.length_cons, List.length_nil]
                      omega
                    rw [List.append_assoc gap, ← shift, List.length_append,
                      List.singleton_append] at next
                    refine next.mono ?_
                    rintro result ⟨merged, isMerged, rfl⟩
                    refine ⟨y :: merged, Merged.takeRight (possible.1 less) isMerged, ?_⟩
                    rw [List.append_assoc, List.singleton_append]
                  · rw [if_neg less]
                    simp only [bind_assoc]
                    refine Yields.bind (writeAt_yields inside x) ?_
                    rintro _ rfl
                    rw [written]
                    have next := @ih (done ++ [x]) leftRest (out ++ [x]) gap (y :: rest)
                      (by rw [isLeft, List.append_assoc]; rfl) (by omega)
                      (by simp only [List.length_append, List.length_cons, List.length_nil]; omega)
                      (by rw [List.length_cons]; omega)
                    have shift : out.length + (g :: gap).length = (out ++ [x]).length + gap.length := by
                      simp only [List.length_append, List.length_cons, List.length_nil]
                      omega
                    rw [← shift, List.length_append, List.length_append] at next
                    refine next.mono ?_
                    rintro result ⟨merged, isMerged, rfl⟩
                    refine ⟨x :: merged, Merged.takeLeft (possible.2 less) isMerged, ?_⟩
                    rw [List.append_assoc, List.singleton_append]

theorem needsMerge_yields {left right : List α} (notEmpty : left ≠ []) :
    Yields (needsMerge cmp (left ++ right) left.length) fun needed =>
      (needed = true → right ≠ []) ∧ (needed = false →
        ∀ x ∈ left.getLast?, ∀ y ∈ right.head?, MayBeNotLess cmp y x) := by
  unfold needsMerge
  cases right with
  | nil =>
      rw [if_pos (by rw [List.append_nil])]
      exact Yields.pure ⟨fun is => (nomatch is), fun _ _ _ y isHead => nomatch isHead⟩
  | cons y right =>
      have positive := List.length_pos_iff.mpr notEmpty
      have isRight : (left ++ y :: right)[left.length]? = some y := by
        rw [List.getElem?_append_right (Nat.le_refl _), Nat.sub_self]
        rfl
      have isLeft : (left ++ y :: right)[left.length - 1]? = some (left.getLast notEmpty) := by
        rw [List.getElem?_append_left (by omega), List.getLast_eq_getElem,
          List.getElem?_eq_getElem]
      rw [if_neg (by rw [List.length_append, List.length_cons]; omega)]
      refine Yields.bind (readAt_yields isRight) ?_
      rintro _ rfl
      refine Yields.bind (subtract_yields (by omega)) ?_
      rintro _ rfl
      refine Yields.bind (readAt_yields isLeft) ?_
      rintro _ rfl
      refine Yields.bind (compareBy_yields _ _) ?_
      intro answer possible
      refine Yields.pure ⟨fun _ => List.cons_ne_nil _ _, ?_⟩
      intro isNot x isLast other isHead
      rw [List.getLast?_eq_some_getLast notEmpty] at isLast
      obtain rfl := Option.some.inj isLast
      obtain rfl := Option.some.inj isHead
      exact possible.2 (by simpa using isNot)

theorem merge_yields {left right : List α} (notEmpty : left ≠ []) :
    Yields (merge cmp left.length (left ++ right)) (MergeOutcome cmp left right) := by
  unfold merge
  refine Yields.bind (needsMerge_yields notEmpty) ?_
  rintro needed ⟨_, notLess⟩
  cases needed with
  | false => exact Yields.pure (Or.inl ⟨notLess rfl, rfl⟩)
  | true =>
      rw [if_pos rfl, List.take_left]
      have merges := @mergeLoop_yields _ _ cmp (left ++ right).length _ _ [] _ [] left right rfl rfl rfl
        (by rw [List.length_append, List.length_nil, Nat.zero_add])
      rw [List.nil_append, List.length_nil, Nat.zero_add] at merges
      refine merges.mono ?_
      rintro result ⟨merged, isMerged, rfl⟩
      exact Or.inr isMerged

theorem merge_single {width : ℕ} {run : List α} (short : run.length ≤ width) :
    Yields (merge cmp width run) fun merged => merged = run := by
  have notNeeded : needsMerge cmp run width = pure false := if_pos short
  unfold merge
  rw [notNeeded]
  refine Yields.bind (Yields.pure rfl) ?_
  rintro _ rfl
  exact Yields.pure rfl

theorem MergeOutcome.perm {left right merged : List α}
    (outcome : MergeOutcome cmp left right merged) : merged.Perm (left ++ right) := by
  rcases outcome with ⟨_, rfl⟩ | isMerged
  · exact List.Perm.refl _
  · exact isMerged.perm

/-- A property that survives merging holds of what the passes of the sort join. -/
theorem merge_joins {P : List α → List α → Prop} (nil : P [] [])
    (survives : ∀ {leftIn left rightIn right merged : List α}, P leftIn left → P rightIn right →
      MergeOutcome cmp left right merged → P (leftIn ++ rightIn) merged) :
    Joins P (merge cmp) where
  nil := nil
  single short holds := (merge_single short).mono (by rintro _ rfl; exact ⟨rfl, holds⟩)
  pair := by
    intro width leftIn left rightIn right positive full _ _ leftHolds rightHolds
    subst full
    refine (merge_yields (List.length_pos_iff.mp positive)).mono ?_
    intro merged outcome
    refine ⟨?_, survives leftHolds rightHolds outcome⟩
    rw [outcome.perm.length_eq, List.length_append]

/-! ### Every item is kept -/

theorem survivesInsertion_perm :
    SurvivesInsertion cmp fun input output : List α => output.Perm input where
  nil := List.Perm.refl _
  insert := by
    intro input before behind item isPerm _
    exact (List.perm_middle.trans (isPerm.cons item)).trans (List.perm_append_singleton _ _).symm

theorem mergeSort_perm (indices : List α) :
    Yields (mergeSortIndices cmp indices) fun sorted => sorted.Perm indices := by
  refine sortInPasses_yields survivesInsertion_perm (merge_joins (List.Perm.refl _) ?_)
    (by decide) indices
  intro leftIn left rightIn right merged leftPerm rightPerm outcome
  exact outcome.perm.trans (leftPerm.append rightPerm)

/-! ### Neighbours -/

section

variable {order : α → α → Ordering}

def InOrder (order : α → α → Ordering) (list : List α) : Prop :=
  list.IsChain fun a b => order b a ≠ .lt

theorem not_lt_of_lt (reverses : ∀ a b, order b a = (order a b).swap) {a b : α}
    (less : order a b = .lt) : order b a ≠ .lt := by
  rw [reverses a b, less]
  exact fun same => nomatch same

theorem survivesInsertion_inOrder (answers : Answers cmp order)
    (reverses : ∀ a b, order b a = (order a b).swap) :
    SurvivesInsertion cmp fun _ output : List α => InOrder order output where
  nil := List.IsChain.nil
  insert := by
    intro input before behind item ordered inserted
    have ⟨beforeOrdered, behindOrdered, _⟩ := List.isChain_append.mp ordered
    refine List.isChain_append.mpr ⟨beforeOrdered, List.isChain_cons.mpr ⟨?_, behindOrdered⟩, ?_⟩
    · intro b isHead
      have less := (inserted.lessThan b (List.mem_of_mem_head? isHead)).of_answers answers
      exact not_lt_of_lt reverses less
    · intro a isLast b isItem
      obtain rfl := Option.some.inj isItem
      exact (inserted.notLessThan a isLast).of_answers answers

theorem Merged.inOrder (answers : Answers cmp order)
    (reverses : ∀ a b, order b a = (order a b).swap) {left right merged : List α}
    (isMerged : Merged cmp left right merged) (leftOrdered : InOrder order left)
    (rightOrdered : InOrder order right) : InOrder order merged := by
  induction isMerged with
  | leftDone right => exact rightOrdered
  | rightDone left => exact leftOrdered
  | takeLeft notLess later ih =>
      have ⟨next, leftRest⟩ := List.isChain_cons.mp leftOrdered
      refine List.isChain_cons.mpr ⟨?_, ih leftRest rightOrdered⟩
      intro item isHead
      rcases later.head isHead with inLeft | inRight
      · exact next item inLeft
      · obtain rfl := Option.some.inj inRight
        exact notLess.of_answers answers
  | takeRight less later ih =>
      have ⟨next, rightRest⟩ := List.isChain_cons.mp rightOrdered
      refine List.isChain_cons.mpr ⟨?_, ih leftOrdered rightRest⟩
      intro item isHead
      rcases later.head isHead with inLeft | inRight
      · obtain rfl := Option.some.inj inLeft
        exact not_lt_of_lt reverses (less.of_answers answers)
      · exact next item inRight

theorem mergeSort_inOrder (answers : Answers cmp order)
    (reverses : ∀ a b, order b a = (order a b).swap) (indices : List α) :
    Yields (mergeSortIndices cmp indices) (InOrder order) := by
  refine sortInPasses_yields (survivesInsertion_inOrder answers reverses)
    (merge_joins List.IsChain.nil ?_) (by decide) indices
  intro leftIn left rightIn right merged leftOrdered rightOrdered outcome
  rcases outcome with ⟨notLess, rfl⟩ | isMerged
  · refine List.isChain_append.mpr ⟨leftOrdered, rightOrdered, ?_⟩
    intro x isLast y isHead
    exact (notLess x isLast y isHead).of_answers answers
  · exact isMerged.inOrder answers reverses leftOrdered rightOrdered

/-! ### The stable order -/

theorem isLE_of_not_lt (preorder : TotalPreorder order) {a b : α} (notLess : order b a ≠ .lt) :
    (order a b).isLE = true := by
  rw [preorder.swap b a]
  cases isOrder : order b a with
  | lt => exact absurd isOrder notLess
  | eq => rfl
  | gt => rfl

theorem le_of_last_le (preorder : TotalPreorder order) {list : List α}
    (ordered : list.Pairwise fun a b => (order a b).isLE = true) {bound : α}
    (last : ∀ a ∈ list.getLast?, (order a bound).isLE = true) :
    ∀ a ∈ list, (order a bound).isLE = true := by
  intro a isIn
  obtain ⟨front, last', isList⟩ := List.eq_nil_or_concat list |>.resolve_left
    (List.ne_nil_of_mem isIn)
  rw [List.concat_eq_append] at isList
  subst isList
  have lastLe := last last' (by rw [List.getLast?_concat]; rfl)
  rcases List.mem_append.mp isIn with inFront | isLast
  · exact preorder.trans a last' bound
      ((List.pairwise_append.mp ordered).2.2 a inFront last' (List.mem_singleton_self _)) lastLe
  · rw [List.mem_singleton.mp isLast]
    exact lastLe

/-- What is no greater than the first item of a list in order is no greater than any. -/
theorem le_of_le_head (preorder : TotalPreorder order) {list : List α}
    (ordered : list.Pairwise fun a b => (order a b).isLE = true) {bound : α}
    (head : ∀ b ∈ list.head?, (order bound b).isLE = true) :
    ∀ b ∈ list, (order bound b).isLE = true := by
  intro b isIn
  cases list with
  | nil => exact nomatch isIn
  | cons first rest =>
      have firstLe := head first rfl
      rcases List.mem_cons.mp isIn with rfl | later
      · exact firstLe
      · exact preorder.trans bound first b firstLe (List.rel_of_pairwise_cons ordered later)

theorem survivesInsertion_stable (answers : Answers cmp order) (preorder : TotalPreorder order) :
    SurvivesInsertion cmp (StablySorted order) where
  nil := StablySorted.nil
  insert := by
    intro input before behind item isSorted inserted
    refine isSorted.insert preorder ?_ ?_
    · intro b isIn
      exact (inserted.lessThan b isIn).of_answers answers
    · refine le_of_last_le preorder (List.pairwise_append.mp isSorted.ordered).1 ?_
      intro a isLast
      exact isLE_of_not_lt preorder ((inserted.notLessThan a isLast).of_answers answers)

theorem Merged.stable (answers : Answers cmp order) (preorder : TotalPreorder order)
    {left right merged : List α} (isMerged : Merged cmp left right merged)
    (leftOrdered : left.Pairwise fun a b => (order a b).isLE = true)
    (rightOrdered : right.Pairwise fun a b => (order a b).isLE = true) :
    StablySorted order (left ++ right) merged := by
  induction isMerged with
  | leftDone right => exact ⟨rightOrdered, fun _ => rfl⟩
  | rightDone left => exact ⟨leftOrdered, fun _ => by rw [List.append_nil]⟩
  | @takeLeft x y left right merged notLess later ih =>
      have ⟨above, leftRest⟩ := List.pairwise_cons.mp leftOrdered
      have rest := ih leftRest rightOrdered
      have single : StablySorted order [x] [x] := ⟨List.pairwise_singleton _ _, fun _ => rfl⟩
      refine single.append rest ?_
      intro a isItem b isIn
      rw [List.mem_singleton.mp isItem]
      rcases List.mem_append.mp (later.perm.mem_iff.mp isIn) with inLeft | inRight
      · exact above b inLeft
      · refine le_of_le_head preorder rightOrdered ?_ b inRight
        intro c isHead
        obtain rfl := Option.some.inj isHead
        exact isLE_of_not_lt preorder (notLess.of_answers answers)
  | @takeRight x y left right merged less later ih =>
      have ⟨above, rightRest⟩ := List.pairwise_cons.mp rightOrdered
      have rest := ih leftOrdered rightRest
      have isLess := less.of_answers answers
      have belowLeft : ∀ b ∈ x :: left, (order y b).isLE = true := by
        refine le_of_le_head preorder leftOrdered ?_
        intro c isHead
        obtain rfl := Option.some.inj isHead
        rw [isLess]
        rfl
      have single : StablySorted order [y] [y] := ⟨List.pairwise_singleton _ _, fun _ => rfl⟩
      have moved : StablySorted order ([y] ++ (x :: left ++ right)) (y :: merged) := by
        refine single.append rest ?_
        intro a isItem b isIn
        rw [List.mem_singleton.mp isItem]
        rcases List.mem_append.mp (later.perm.mem_iff.mp isIn) with inLeft | inRight
        · exact belowLeft b inLeft
        · exact above b inRight
      refine @StablySorted.swap _ _ preorder [] (x :: left) [y] _ _ ?_ ?_
      · intro a isIn b isItem
        rw [List.mem_singleton.mp isItem, Bool.eq_false_iff]
        intro notAbove
        have atMost : (order x y).isLE = true := by
          rcases List.mem_cons.mp isIn with rfl | later
          · exact notAbove
          · exact preorder.trans x a y (List.rel_of_pairwise_cons leftOrdered later) notAbove
        rw [preorder.swap y x, isLess] at atMost
        exact nomatch atMost
      · rw [List.nil_append]
        exact moved

theorem mergeSort_stable (answers : Answers cmp order) (preorder : TotalPreorder order)
    (indices : List α) :
    Yields (mergeSortIndices cmp indices) (StablySorted order indices) := by
  refine sortInPasses_yields (survivesInsertion_stable answers preorder)
    (merge_joins StablySorted.nil ?_) (by decide) indices
  intro leftIn left rightIn right merged leftSorted rightSorted outcome
  rcases outcome with ⟨notLess, rfl⟩ | isMerged
  · refine leftSorted.append rightSorted ?_
    intro a inLeft b inRight
    refine le_of_le_head preorder rightSorted.ordered ?_ b inRight
    intro y isHead
    refine le_of_last_le preorder leftSorted.ordered ?_ a inLeft
    intro x isLast
    exact isLE_of_not_lt preorder ((notLess x isLast y isHead).of_answers answers)
  · exact leftSorted.of_parts rightSorted
      (isMerged.stable answers preorder leftSorted.ordered rightSorted.ordered)

end

/-- Whatever the comparison answers, the sort ends with the items it was given; it is the
stable sort by a total preorder, and leaves no item less than the one before it if the
comparison reverses with its arguments. -/
theorem mergeSortIndices_sorts (cmp : Comparison α σ) (indices : List α) :
    Yields (mergeSortIndices cmp indices) (fun sorted => sorted.Perm indices) ∧
    (∀ order, Answers cmp order → TotalPreorder order →
      Yields (mergeSortIndices cmp indices) fun sorted =>
        sorted = indices.mergeSort fun a b => (order a b).isLE) ∧
    ∀ order, Answers cmp order → (∀ a b, order b a = (order a b).swap) →
      Yields (mergeSortIndices cmp indices) fun sorted =>
        sorted.IsChain fun a b => order b a ≠ .lt := by
  refine ⟨mergeSort_perm indices, ?_, ?_⟩
  · intro order answers preorder
    refine (mergeSort_stable answers preorder indices).mono ?_
    intro sorted isSorted
    exact isSorted.eq_mergeSort preorder
  · intro order answers reverses
    exact mergeSort_inOrder answers reverses indices

/-- A comparison by value alone sorts more numbers than one run of insertions takes. -/
theorem mergeSortIndices_sorts_descending :
    Yields (mergeSortIndices (fun a b (s : ℕ) => (compare a b, s + 1)) (List.range 64).reverse)
      fun sorted => sorted = (List.range 64).reverse.mergeSort fun a b : ℕ => (compare a b).isLE :=
  (mergeSortIndices_sorts (fun a b (s : ℕ) => (compare a b, s + 1)) (List.range 64).reverse).2.1
    compare (fun _ _ _ => rfl)
    (@Keyed.totalPreorder _ _ _ _ id fun a b => compares_compare a b)

end Bun.Collections.IndexSort
