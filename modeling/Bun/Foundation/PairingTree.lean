/-
Pairing heaps as trees.

A tree is a row of siblings: its first item, the row of that item's children, and the rest
of the row.  A heap is one item with the row of its children.  Ties are kept by the item
that is linked second.
-/

import Mathlib.Data.List.Nodup
import Mathlib.Data.List.Perm.Basic

set_option autoImplicit false

namespace Bun.Foundation

/-- A comparison that orders the items of a set, up to ties.  What it says of an item and
itself does not matter. -/
structure OrdersOn {T : Type} (less : T → T → Bool) (members : List T) : Prop where
  asymm : ∀ x ∈ members, ∀ y ∈ members, x ≠ y → less x y = true → less y x = false
  not_less_trans : ∀ x ∈ members, ∀ y ∈ members, ∀ z ∈ members, x ≠ y → y ≠ z → x ≠ z →
    less y x = false → less z y = false → less z x = false

theorem OrdersOn.subset {T : Type} {less : T → T → Bool} {members fewer : List T}
    (orders : OrdersOn less members) (within : fewer ⊆ members) : OrdersOn less fewer where
  asymm x xIn y yIn := orders.asymm x (within xIn) y (within yIn)
  not_less_trans x xIn y yIn z zIn :=
    orders.not_less_trans x (within xIn) y (within yIn) z (within zIn)

inductive PairingTree (T : Type) where
  | empty
  | node (item : T) (children siblings : PairingTree T)

namespace PairingTree

variable {T : Type}

def top? : PairingTree T → Option T
  | empty => none
  | node item _ _ => some item

def items : PairingTree T → List T
  | empty => []
  | node item children siblings => item :: (children.items ++ siblings.items)

def Ordered (less : T → T → Bool) : PairingTree T → Prop
  | empty => True
  | node item children siblings =>
      (∀ below ∈ children.items, less below item = false) ∧
        children.Ordered less ∧ siblings.Ordered less

/-- The row without the given item: its siblings close the gap. -/
def cut [DecidableEq T] (removed : T) : PairingTree T → PairingTree T
  | empty => empty
  | node item children siblings =>
      if item = removed then siblings
      else node item (children.cut removed) (siblings.cut removed)

def childrenOf [DecidableEq T] (parent : T) : PairingTree T → PairingTree T
  | empty => empty
  | node item children siblings =>
      if item = parent then children
      else if parent ∈ children.items then children.childrenOf parent
      else siblings.childrenOf parent

theorem top?_mem {tree : PairingTree T} {item : T} (isTop : tree.top? = some item) :
    item ∈ tree.items := by
  cases tree with
  | empty => cases isTop
  | node first children siblings =>
      obtain rfl : first = item := Option.some.inj isTop
      exact List.mem_cons_self

theorem eq_empty_of_top? {tree : PairingTree T} (isTop : tree.top? = none) : tree = empty := by
  cases tree with
  | empty => rfl
  | node first children siblings => cases isTop

/-! ### Taking an item out of a row -/

section Cut

variable [DecidableEq T] {removed : T} {tree : PairingTree T}

theorem cut_of_not_mem (absent : removed ∉ tree.items) : tree.cut removed = tree := by
  induction tree with
  | empty => rfl
  | node item children siblings ihChildren ihSiblings =>
      simp only [items, List.mem_cons, List.mem_append, not_or] at absent
      rw [cut, if_neg (Ne.symm absent.1), ihChildren absent.2.1, ihSiblings absent.2.2]

theorem items_cut_subset : (tree.cut removed).items ⊆ tree.items := by
  induction tree with
  | empty => exact List.Subset.refl _
  | node item children siblings ihChildren ihSiblings =>
      unfold cut
      by_cases same : item = removed
      · rw [if_pos same]
        intro other inRest
        simp [items, inRest]
      · rw [if_neg same]
        intro other inCut
        simp only [items, List.mem_cons, List.mem_append] at inCut ⊢
        rcases inCut with rfl | inChildren | inSiblings
        · exact Or.inl rfl
        · exact Or.inr (Or.inl (ihChildren inChildren))
        · exact Or.inr (Or.inr (ihSiblings inSiblings))

theorem items_perm_cut (distinct : tree.items.Nodup) (present : removed ∈ tree.items) :
    tree.items.Perm
      (removed :: ((tree.childrenOf removed).items ++ (tree.cut removed).items)) := by
  induction tree with
  | empty => exact absurd present List.not_mem_nil
  | node item children siblings ihChildren ihSiblings =>
      unfold cut childrenOf
      by_cases same : item = removed
      · rw [if_pos same, if_pos same, same, items]
      · rw [if_neg same, if_neg same]
        simp only [items, List.nodup_cons, List.nodup_append, List.mem_append] at distinct
        simp only [items, List.mem_cons, List.mem_append] at present
        rcases present with first | inChildren | inSiblings
        · exact absurd first.symm same
        · have notInSiblings : removed ∉ siblings.items := fun inSiblings =>
            distinct.2.2.2 removed inChildren removed inSiblings rfl
          rw [if_pos inChildren, cut_of_not_mem notInSiblings]
          have inner := ihChildren distinct.2.1 inChildren
          simp only [items]
          refine ((inner.append_right siblings.items).cons item).trans ?_
          simp only [List.cons_append, List.append_assoc]
          refine (List.Perm.swap _ _ _).trans (List.Perm.cons _ ?_)
          exact List.perm_middle.symm
        · have notInChildren : removed ∉ children.items := fun inChildren =>
            distinct.2.2.2 removed inChildren removed inSiblings rfl
          rw [if_neg notInChildren, cut_of_not_mem notInChildren]
          have inner := ihSiblings distinct.2.2.1 inSiblings
          simp only [items]
          refine ((inner.append_left children.items).cons item).trans ?_
          refine (List.Perm.cons item List.perm_middle).trans ?_
          refine (List.Perm.swap _ _ _).trans (List.Perm.cons _ ?_)
          refine (List.Perm.cons item ?_).trans List.perm_middle.symm
          rw [← List.append_assoc, ← List.append_assoc]
          exact List.perm_append_comm.append_right _

variable {less : T → T → Bool}

theorem Ordered.cut (ordered : tree.Ordered less) : (tree.cut removed).Ordered less := by
  induction tree with
  | empty => exact ordered
  | node item children siblings ihChildren ihSiblings =>
      obtain ⟨above, inChildren, inSiblings⟩ := ordered
      unfold PairingTree.cut
      by_cases same : item = removed
      · rwa [if_pos same]
      · rw [if_neg same]
        exact ⟨fun below inCut => above below (items_cut_subset inCut), ihChildren inChildren,
          ihSiblings inSiblings⟩

theorem Ordered.childrenOf (ordered : tree.Ordered less) :
    (tree.childrenOf removed).Ordered less := by
  induction tree with
  | empty => exact ordered
  | node item children siblings ihChildren ihSiblings =>
      obtain ⟨_, inChildren, inSiblings⟩ := ordered
      unfold PairingTree.childrenOf
      by_cases same : item = removed
      · rwa [if_pos same]
      · rw [if_neg same]
        by_cases inner : removed ∈ children.items
        · rw [if_pos inner]
          exact ihChildren inChildren
        · rw [if_neg inner]
          exact ihSiblings inSiblings

end Cut

end PairingTree

/-! ### Heaps -/

structure PairingHeap (T : Type) where
  root : T
  children : PairingTree T

namespace PairingHeap

variable {T : Type} {less : T → T → Bool}

def items (heap : PairingHeap T) : List T :=
  heap.root :: heap.children.items

def Ordered (less : T → T → Bool) (heap : PairingHeap T) : Prop :=
  (∀ below ∈ heap.children.items, less below heap.root = false) ∧ heap.children.Ordered less

def single (item : T) : PairingHeap T :=
  ⟨item, .empty⟩

/-- The heap whose root is not the lesser one becomes the first child of the other. -/
def link (less : T → T → Bool) (left right : PairingHeap T) : PairingHeap T :=
  if less left.root right.root then
    ⟨left.root, .node right.root right.children left.children⟩
  else
    ⟨right.root, .node left.root left.children right.children⟩

/-- The siblings of a row linked two by two, the last pair first. -/
def pairUp (less : T → T → Bool) (done : List (PairingHeap T)) :
    PairingTree T → List (PairingHeap T)
  | .empty => done
  | .node item children .empty => ⟨item, children⟩ :: done
  | .node left leftChildren (.node right rightChildren rest) =>
      pairUp less (link less ⟨left, leftChildren⟩ ⟨right, rightChildren⟩ :: done) rest

def collapse (less : T → T → Bool) (heap : PairingHeap T) : List (PairingHeap T) → PairingHeap T
  | [] => heap
  | before :: others => collapse less (link less before heap) others

def combine (less : T → T → Bool) (tree : PairingTree T) : Option (PairingHeap T) :=
  match pairUp less [] tree with
  | [] => none
  | last :: others => some (collapse less last others)

theorem items_link (less : T → T → Bool) (left right : PairingHeap T) :
    (link less left right).items.Perm (left.items ++ right.items) := by
  unfold link
  by_cases lesser : less left.root right.root = true
  · rw [if_pos lesser]
    simp only [items, PairingTree.items, List.cons_append]
    refine List.Perm.cons _ ?_
    refine (List.Perm.cons _ List.perm_append_comm).trans ?_
    exact List.perm_middle.symm
  · rw [if_neg lesser]
    simp only [items, PairingTree.items, List.cons_append]
    refine (List.Perm.swap _ _ _).trans (List.Perm.cons _ ?_)
    exact List.perm_middle.symm

theorem link_ordered {left right : PairingHeap T}
    (orders : OrdersOn less (left.items ++ right.items))
    (distinct : (left.items ++ right.items).Nodup)
    (leftOrdered : left.Ordered less) (rightOrdered : right.Ordered less) :
    (link less left right).Ordered less := by
  have leftIn : left.root ∈ left.items := List.mem_cons_self
  have rightIn : right.root ∈ right.items := List.mem_cons_self
  obtain ⟨leftDistinct, rightDistinct, apart⟩ := List.nodup_append.mp distinct
  have different : left.root ≠ right.root := apart _ leftIn _ rightIn
  have leftBoth : left.root ∈ left.items ++ right.items := List.mem_append_left _ leftIn
  have rightBoth : right.root ∈ left.items ++ right.items := List.mem_append_right _ rightIn
  unfold link
  by_cases lesser : less left.root right.root = true
  · rw [if_pos lesser]
    have after := orders.asymm _ leftBoth _ rightBoth different lesser
    refine ⟨?_, rightOrdered.1, rightOrdered.2, leftOrdered.2⟩
    intro below inBelow
    simp only [PairingTree.items, List.mem_cons, List.mem_append] at inBelow
    rcases inBelow with rfl | inRight | inLeft
    · exact after
    · have inItems : below ∈ right.items := List.mem_cons_of_mem _ inRight
      refine orders.not_less_trans _ leftBoth _ rightBoth _ (List.mem_append_right _ inItems)
        different ?_ (apart _ leftIn _ inItems) after (rightOrdered.1 below inRight)
      rintro rfl
      exact (List.nodup_cons.mp rightDistinct).1 inRight
    · exact leftOrdered.1 below inLeft
  · rw [if_neg lesser]
    have after := Bool.eq_false_iff.mpr lesser
    refine ⟨?_, leftOrdered.1, leftOrdered.2, rightOrdered.2⟩
    intro below inBelow
    simp only [PairingTree.items, List.mem_cons, List.mem_append] at inBelow
    rcases inBelow with rfl | inLeft | inRight
    · exact after
    · have inItems : below ∈ left.items := List.mem_cons_of_mem _ inLeft
      refine orders.not_less_trans _ rightBoth _ leftBoth _ (List.mem_append_left _ inItems)
        different.symm ?_ (apart _ inItems _ rightIn).symm after (leftOrdered.1 below inLeft)
      rintro rfl
      exact (List.nodup_cons.mp leftDistinct).1 inLeft
    · exact rightOrdered.1 below inRight

def itemsOf (heaps : List (PairingHeap T)) : List T :=
  heaps.flatMap items

theorem pairUp_items (less : T → T → Bool) (done : List (PairingHeap T))
    (tree : PairingTree T) :
    (itemsOf (pairUp less done tree)).Perm (itemsOf done ++ tree.items) := by
  fun_induction pairUp less done tree with
  | case1 done => simp [PairingTree.items]
  | case2 done item children =>
      simp only [itemsOf, List.flatMap_cons, PairingTree.items, items, List.append_nil]
      exact List.perm_append_comm
  | case3 done left leftChildren right rightChildren rest ih =>
      refine ih.trans ?_
      simp only [itemsOf, List.flatMap_cons, PairingTree.items]
      refine ((items_link less _ _).append_right _ |>.append_right _).trans ?_
      refine (List.perm_append_comm.append_right _).trans ?_
      simp only [items, List.append_assoc, List.cons_append, List.perm_append_left_iff]
      exact List.Perm.refl _

theorem length_pairUp_le (less : T → T → Bool) (done : List (PairingHeap T))
    (tree : PairingTree T) :
    (pairUp less done tree).length ≤ done.length + tree.items.length := by
  fun_induction pairUp less done tree with
  | case1 done => exact Nat.le_add_right _ _
  | case2 done item children =>
      simp only [PairingTree.items, List.length_cons, List.length_append]
      omega
  | case3 done left leftChildren right rightChildren rest ih =>
      simp only [PairingTree.items, List.length_cons, List.length_append] at ih ⊢
      omega

theorem collapse_items (less : T → T → Bool) (heap : PairingHeap T)
    (others : List (PairingHeap T)) :
    (collapse less heap others).items.Perm (heap.items ++ itemsOf others) := by
  induction others generalizing heap with
  | nil => simp [collapse, itemsOf]
  | cons before others ih =>
      rw [collapse]
      refine (ih _).trans ?_
      simp only [itemsOf, List.flatMap_cons]
      refine ((items_link less _ _).append_right _).trans ?_
      rw [← List.append_assoc]
      exact List.perm_append_comm.append_right _

theorem combine_items (less : T → T → Bool) (tree : PairingTree T) :
    (((combine less tree).map items).getD []).Perm tree.items := by
  have whole := pairUp_items less [] tree
  unfold combine
  cases pairs : pairUp less [] tree with
  | nil =>
      rw [pairs] at whole
      exact whole
  | cons last others =>
      rw [pairs] at whole
      exact (collapse_items less last others).trans whole

theorem pairUp_ordered {done : List (PairingHeap T)} {tree : PairingTree T}
    (orders : OrdersOn less (itemsOf done ++ tree.items))
    (distinct : (itemsOf done ++ tree.items).Nodup)
    (doneOrdered : ∀ heap ∈ done, heap.Ordered less) (treeOrdered : tree.Ordered less) :
    ∀ heap ∈ pairUp less done tree, heap.Ordered less := by
  fun_induction pairUp less done tree with
  | case1 done => exact doneOrdered
  | case2 done item children =>
      intro heap inHeaps
      rcases List.mem_cons.mp inHeaps with rfl | inDone
      · exact ⟨treeOrdered.1, treeOrdered.2.1⟩
      · exact doneOrdered heap inDone
  | case3 done left leftChildren right rightChildren rest ih =>
      obtain ⟨leftAbove, leftInner, rightAbove, rightInner, restOrdered⟩ := treeOrdered
      have moved : (itemsOf (link less ⟨left, leftChildren⟩ ⟨right, rightChildren⟩ :: done) ++
          rest.items).Perm (itemsOf done ++ (PairingTree.node left leftChildren
            (.node right rightChildren rest)).items) := by
        simp only [itemsOf, List.flatMap_cons, PairingTree.items]
        refine ((items_link less _ _).append_right _ |>.append_right _).trans ?_
        refine (List.perm_append_comm.append_right _).trans ?_
        simp only [items, List.append_assoc, List.cons_append, List.perm_append_left_iff]
        exact List.Perm.refl _
      refine ih (orders.subset moved.subset) ((moved.nodup_iff).mpr distinct) ?_ restOrdered
      intro heap inHeaps
      rcases List.mem_cons.mp inHeaps with rfl | inDone
      · have pair : (items ⟨left, leftChildren⟩ ++ items ⟨right, rightChildren⟩).Sublist
            (itemsOf done ++ (PairingTree.node left leftChildren
              (.node right rightChildren rest)).items) := by
          refine List.Sublist.trans ?_ (List.sublist_append_right _ _)
          rw [show (PairingTree.node left leftChildren (.node right rightChildren rest)).items =
            (items ⟨left, leftChildren⟩ ++ items ⟨right, rightChildren⟩) ++ rest.items by
              simp [items, PairingTree.items]]
          exact List.sublist_append_left _ _
        exact link_ordered (orders.subset pair.subset) (distinct.sublist pair)
          ⟨leftAbove, leftInner⟩ ⟨rightAbove, rightInner⟩
      · exact doneOrdered heap inDone

theorem collapse_ordered {heap : PairingHeap T} {others : List (PairingHeap T)}
    (orders : OrdersOn less (heap.items ++ itemsOf others))
    (distinct : (heap.items ++ itemsOf others).Nodup) (heapOrdered : heap.Ordered less)
    (othersOrdered : ∀ other ∈ others, other.Ordered less) :
    (collapse less heap others).Ordered less := by
  induction others generalizing heap with
  | nil => exact heapOrdered
  | cons before others ih =>
      have moved : (before.items ++ heap.items ++ itemsOf others).Perm
          (heap.items ++ itemsOf (before :: others)) := by
        simp only [itemsOf, List.flatMap_cons]
        rw [← List.append_assoc]
        exact List.perm_append_comm.append_right _
      have linked : ((link less before heap).items ++ itemsOf others).Perm
          (heap.items ++ itemsOf (before :: others)) :=
        ((items_link less before heap).append_right _).trans moved
      have pairDistinct := ((moved.nodup_iff).mpr distinct).sublist
        (List.sublist_append_left _ _)
      have pairOrders := orders.subset fun item inPair =>
        moved.subset (List.mem_append_left _ inPair)
      refine ih (orders.subset linked.subset) ((linked.nodup_iff).mpr distinct)
        (link_ordered pairOrders pairDistinct (othersOrdered before List.mem_cons_self)
          heapOrdered) ?_
      intro other inOthers
      exact othersOrdered other (List.mem_cons_of_mem _ inOthers)

theorem combine_ordered {tree : PairingTree T} (orders : OrdersOn less tree.items)
    (distinct : tree.items.Nodup) (treeOrdered : tree.Ordered less) :
    ∀ heap, combine less tree = some heap → heap.Ordered less := by
  intro heap combined
  have whole := pairUp_items less [] tree
  have each : ∀ other ∈ pairUp less [] tree, other.Ordered less :=
    pairUp_ordered (by simpa [itemsOf] using orders) (by simpa [itemsOf] using distinct)
      (by simp) treeOrdered
  unfold combine at combined
  cases pairs : pairUp less [] tree with
  | nil =>
      rw [pairs] at combined
      cases combined
  | cons last others =>
      rw [pairs] at combined whole each
      obtain rfl := Option.some.inj combined
      refine collapse_ordered (orders.subset whole.subset) ((whole.nodup_iff).mpr distinct)
        (each last List.mem_cons_self) ?_
      intro other inOthers
      exact each other (List.mem_cons_of_mem _ inOthers)

end PairingHeap

end Bun.Foundation
