/-
Stable sorting by an order that may have ties.

A list is a stable arrangement of another one if it is in order and every class of tied
elements is in it as in the other one.  There is only one such list, and the stable sort of
the library is it.  Merging keeps to it: the elements of the first list that are tied with
one of the second stay in front of it.
-/

import Bun.Foundation.KeyOrder

set_option autoImplicit false

namespace Bun.Foundation

variable {α : Type} {cmp : α → α → Ordering}

def tied (cmp : α → α → Ordering) (a b : α) : Bool :=
  (cmp a b).isLE && (cmp b a).isLE

/-- `output` has the elements of `input` in order, tied ones as they were. -/
structure StablySorted (cmp : α → α → Ordering) (input output : List α) : Prop where
  ordered : output.Pairwise fun a b => (cmp a b).isLE = true
  classes : ∀ a, output.filter (tied cmp a) = input.filter (tied cmp a)

namespace TotalPreorder

theorem tied_self (preorder : TotalPreorder cmp) (a : α) : tied cmp a a = true := by
  unfold tied
  rw [preorder.refl a]
  rfl

/-- What is below an element that another one is strictly below is not tied to that one. -/
theorem not_tied_of_lt (preorder : TotalPreorder cmp) {a b c : α} (isTied : tied cmp a b = true)
    (notLe : (cmp c b).isLE = false) : tied cmp a c = false := by
  unfold tied at *
  rw [Bool.and_eq_true] at isTied
  rw [Bool.eq_false_iff]
  intro alsoTied
  rw [Bool.and_eq_true] at alsoTied
  rw [preorder.trans c a b alsoTied.2 isTied.1] at notLe
  exact nomatch notLe

end TotalPreorder

namespace StablySorted

theorem nil : StablySorted cmp [] [] :=
  ⟨List.Pairwise.nil, fun _ => rfl⟩

theorem unique (preorder : TotalPreorder cmp) {input first second : List α}
    (isFirst : StablySorted cmp input first) (isSecond : StablySorted cmp input second) :
    first = second := by
  have same (a : α) : first.filter (tied cmp a) = second.filter (tied cmp a) :=
    (isFirst.classes a).trans (isSecond.classes a).symm
  have orderedFirst := isFirst.ordered
  have orderedSecond := isSecond.ordered
  clear isFirst isSecond
  induction first generalizing second with
  | nil =>
      cases second with
      | nil => rfl
      | cons b rest =>
          have isIn := same b
          rw [List.filter_cons_of_pos (preorder.tied_self b)] at isIn
          exact nomatch isIn
  | cons a rest ih =>
      have mem_of_mem {list other : List α} (sameClass : ∀ c,
          list.filter (tied cmp c) = other.filter (tied cmp c)) (c : α) (isIn : c ∈ list) :
          c ∈ other := by
        have inClass : c ∈ list.filter (tied cmp c) :=
          List.mem_filter.mpr ⟨isIn, preorder.tied_self c⟩
        rw [sameClass c] at inClass
        exact (List.mem_filter.mp inClass).1
      cases second with
      | nil =>
          have isIn := same a
          rw [List.filter_cons_of_pos (preorder.tied_self a)] at isIn
          exact nomatch isIn
      | cons b others =>
          have below {c d : α} {list : List α} (ordered : (c :: list).Pairwise fun a b => (cmp a b).isLE = true)
              (isIn : d ∈ c :: list) : (cmp c d).isLE = true := by
            rcases List.mem_cons.mp isIn with rfl | later
            · rw [preorder.refl d]
              rfl
            · exact List.rel_of_pairwise_cons ordered later
          have aBelow : (cmp a b).isLE = true :=
            below orderedFirst (mem_of_mem (fun c => (same c).symm) b List.mem_cons_self)
          have bBelow : (cmp b a).isLE = true :=
            below orderedSecond (mem_of_mem same a List.mem_cons_self)
          have isTied : tied cmp a b = true := by
            unfold tied
            rw [aBelow, bBelow]
            rfl
          have heads := same a
          rw [List.filter_cons_of_pos (preorder.tied_self a), List.filter_cons_of_pos isTied] at heads
          obtain rfl := (List.cons.inj heads).1
          have tails (c : α) : rest.filter (tied cmp c) = others.filter (tied cmp c) := by
            have both := same c
            rw [List.filter_cons, List.filter_cons] at both
            split at both
            · exact (List.cons.inj both).2
            · exact both
          exact congrArg (a :: ·) (ih tails (List.pairwise_cons.mp orderedFirst).2
            (List.pairwise_cons.mp orderedSecond).2)

theorem append {firstIn firstOut secondIn secondOut : List α}
    (isFirst : StablySorted cmp firstIn firstOut) (isSecond : StablySorted cmp secondIn secondOut)
    (between : ∀ a ∈ firstOut, ∀ b ∈ secondOut, (cmp a b).isLE = true) :
    StablySorted cmp (firstIn ++ secondIn) (firstOut ++ secondOut) := by
  refine ⟨List.pairwise_append.mpr ⟨isFirst.ordered, isSecond.ordered, between⟩, ?_⟩
  intro a
  rw [List.filter_append, List.filter_append, isFirst.classes, isSecond.classes]

/-- An arrangement of two arrangements put together is one of what they are arrangements of. -/
theorem of_parts {firstIn first secondIn second output : List α}
    (isFirst : StablySorted cmp firstIn first) (isSecond : StablySorted cmp secondIn second)
    (isOutput : StablySorted cmp (first ++ second) output) :
    StablySorted cmp (firstIn ++ secondIn) output := by
  refine ⟨isOutput.ordered, fun a => ?_⟩
  rw [isOutput.classes, List.filter_append, List.filter_append, isFirst.classes, isSecond.classes]

/-- Two neighbouring parts may change places if no element of the second has one of the first
below it. -/
theorem swap (preorder : TotalPreorder cmp) {front first second back output : List α}
    (apart : ∀ a ∈ first, ∀ b ∈ second, (cmp a b).isLE = false)
    (isOutput : StablySorted cmp (front ++ second ++ (first ++ back)) output) :
    StablySorted cmp (front ++ first ++ (second ++ back)) output := by
  refine ⟨isOutput.ordered, ?_⟩
  intro a
  have oneEmpty : first.filter (tied cmp a) = [] ∨ second.filter (tied cmp a) = [] := by
    by_cases isEmpty : second.filter (tied cmp a) = []
    · exact Or.inr isEmpty
    · refine Or.inl (List.filter_eq_nil_iff.mpr ?_)
      obtain ⟨b, isIn⟩ := List.exists_mem_of_ne_nil _ isEmpty
      obtain ⟨inSecond, isTied⟩ := List.mem_filter.mp isIn
      intro c inFirst
      rw [preorder.not_tied_of_lt isTied (apart c inFirst b inSecond)]
      exact Bool.false_ne_true
  rw [isOutput.classes, List.filter_append, List.filter_append, List.filter_append,
    List.filter_append, List.filter_append, List.filter_append]
  rcases oneEmpty with isEmpty | isEmpty
  · rw [isEmpty, List.append_nil, List.nil_append, List.append_assoc]
  · rw [isEmpty, List.append_nil, List.nil_append, List.append_assoc]

theorem mergeSort (preorder : TotalPreorder cmp) (list : List α) :
    StablySorted cmp list (list.mergeSort fun a b => (cmp a b).isLE) := by
  have total (a b : α) : ((cmp a b).isLE || (cmp b a).isLE) = true := by
    rw [Bool.or_eq_true]
    exact preorder.total a b
  refine ⟨List.pairwise_mergeSort preorder.trans total list, ?_⟩
  intro a
  have ordered : (list.filter (tied cmp a)).Pairwise fun b c => (cmp b c).isLE = true := by
    rw [List.pairwise_filter]
    refine List.pairwise_of_forall ?_
    intro b c bTied cTied
    unfold tied at bTied cTied
    rw [Bool.and_eq_true] at bTied cTied
    exact preorder.trans b a c bTied.2 cTied.1
  have inSorted := (List.sublist_mergeSort preorder.trans total ordered
    List.filter_sublist).filter (tied cmp a)
  simp only [List.filter_filter, Bool.and_self] at inSorted
  refine (inSorted.eq_of_length ?_).symm
  exact ((List.mergeSort_perm list _).filter _).length_eq.symm

theorem eq_mergeSort (preorder : TotalPreorder cmp) {input output : List α}
    (isSorted : StablySorted cmp input output) :
    output = input.mergeSort fun a b => (cmp a b).isLE :=
  isSorted.unique preorder (mergeSort preorder input)

theorem insert (preorder : TotalPreorder cmp) {input before behind : List α} {item : α}
    (isSorted : StablySorted cmp input (before ++ behind))
    (above : ∀ b ∈ behind, cmp item b = .lt) (notAbove : ∀ a ∈ before, (cmp a item).isLE = true) :
    StablySorted cmp (input ++ [item]) (before ++ item :: behind) := by
  have swapped (b : α) (isIn : b ∈ behind) : (cmp b item).isLE = false := by
    rw [preorder.swap item b, above b isIn]
    rfl
  have withItem : StablySorted cmp (before ++ behind ++ ([item] ++ [])) (before ++ item :: behind) := by
    refine @swap _ _ preorder _ behind [item] _ _ ?_ ⟨?_, ?_⟩
    · intro a isIn b isItem
      rw [List.mem_singleton.mp isItem]
      exact swapped a isIn
    · have ⟨beforeOrdered, behindOrdered, between⟩ := List.pairwise_append.mp isSorted.ordered
      refine List.pairwise_append.mpr ⟨beforeOrdered, List.pairwise_cons.mpr ⟨?_, behindOrdered⟩, ?_⟩
      · intro b isIn
        rw [above b isIn]
        rfl
      · intro a isBefore b isIn
        rcases List.mem_cons.mp isIn with rfl | isBehind
        · exact notAbove a isBefore
        · exact between a isBefore b isBehind
    · intro a
      rw [List.append_nil, List.append_assoc]
      rfl
  rw [List.append_nil] at withItem
  refine ⟨withItem.ordered, fun a => ?_⟩
  rw [withItem.classes, List.filter_append, isSorted.classes, List.filter_append]

end StablySorted

end Bun.Foundation
