/-
Every sequence of insertions, minimum deletions and removals keeps the intrusive heap in
order.
-/

import Mathlib.Logic.Relation
import Mathlib.Order.Defs.Unbundled
import Bun.Io.HeapOperations

set_option autoImplicit false

namespace Bun.Io

open Bun.Foundation

namespace Links

variable {T : Type} {links : Links T} {prev : Option T} {tree : PairingTree T}

/-- The second node is the first child or the next sibling of the first one. -/
def Down (links : Links T) (x y : T) : Prop :=
  (links x).child = some y ∨ (links x).next = some y

theorem Linked.prev_top (linked : Linked links prev tree) {item : T}
    (isTop : tree.top? = some item) : (links item).prev = prev := by
  cases tree with
  | empty => cases isTop
  | node first children siblings =>
      obtain rfl : first = item := Option.some.inj isTop
      rw [linked.1]

/-- What a node of the row points down to is in the row and points back to it. -/
theorem Linked.down (linked : Linked links prev tree) {x y : T} (inRow : x ∈ tree.items)
    (down : Down links x y) : y ∈ tree.items ∧ (links y).prev = some x := by
  induction tree generalizing prev with
  | empty => exact absurd inRow List.not_mem_nil
  | node item children siblings ihChildren ihSiblings =>
      obtain ⟨here, inChildren, inSiblings⟩ := linked
      simp only [PairingTree.items, List.mem_cons, List.mem_append] at inRow ⊢
      rcases inRow with rfl | below | beside
      · rw [Down, here] at down
        rcases down with isChild | isNext
        · exact ⟨Or.inr (Or.inl (PairingTree.top?_mem isChild)), inChildren.prev_top isChild⟩
        · exact ⟨Or.inr (Or.inr (PairingTree.top?_mem isNext)), inSiblings.prev_top isNext⟩
      · obtain ⟨inside, back⟩ := ihChildren inChildren below
        exact ⟨Or.inr (Or.inl inside), back⟩
      · obtain ⟨inside, back⟩ := ihSiblings inSiblings beside
        exact ⟨Or.inr (Or.inr inside), back⟩

/-- A node of the row that is not its first has one node above it, as child or as sibling. -/
theorem Linked.up (linked : Linked links prev tree) (distinct : tree.items.Nodup) {y : T}
    (inRow : y ∈ tree.items) (notTop : tree.top? ≠ some y) :
    ∃ x, (links y).prev = some x ∧
      ((links x).child = some y ∧ (links x).next ≠ some y ∨
        (links x).next = some y ∧ (links x).child ≠ some y) := by
  induction tree generalizing prev with
  | empty => exact absurd inRow List.not_mem_nil
  | node item children siblings ihChildren ihSiblings =>
      obtain ⟨here, inChildren, inSiblings⟩ := linked
      simp only [PairingTree.items, List.nodup_cons, List.mem_append, not_or,
        List.nodup_append] at distinct
      obtain ⟨_, childrenNodup, siblingsNodup, apart⟩ := distinct
      simp only [PairingTree.items, List.mem_cons, List.mem_append] at inRow
      rcases inRow with rfl | below | beside
      · exact absurd rfl notTop
      · by_cases first : children.top? = some y
        · refine ⟨item, inChildren.prev_top first, Or.inl ?_⟩
          rw [here]
          exact ⟨first, top?_ne fun beside => apart y below y beside rfl⟩
        · exact ihChildren inChildren childrenNodup below first
      · by_cases first : siblings.top? = some y
        · refine ⟨item, inSiblings.prev_top first, Or.inr ?_⟩
          rw [here]
          exact ⟨first, top?_ne fun below => apart y below y beside rfl⟩
        · exact ihSiblings inSiblings siblingsNodup beside first

theorem Linked.down_lt [DecidableEq T] (linked : Linked links prev tree)
    (distinct : tree.items.Nodup) {x y : T} (inRow : x ∈ tree.items) (down : Down links x y) :
    tree.items.idxOf x < tree.items.idxOf y := by
  induction tree generalizing prev with
  | empty => exact absurd inRow List.not_mem_nil
  | node item children siblings ihChildren ihSiblings =>
      have inside := (linked.down inRow down).1
      obtain ⟨here, inChildren, inSiblings⟩ := linked
      simp only [PairingTree.items, List.nodup_cons, List.mem_append, not_or,
        List.nodup_append] at distinct
      obtain ⟨⟨notBelow, notBeside⟩, childrenNodup, siblingsNodup, apart⟩ := distinct
      simp only [PairingTree.items, List.mem_cons, List.mem_append] at inRow
      rcases inRow with rfl | below | beside
      · have notSelf : x ≠ y := by
          rintro rfl
          rw [Down, here] at down
          rcases down with isChild | isNext
          · exact notBelow (PairingTree.top?_mem isChild)
          · exact notBeside (PairingTree.top?_mem isNext)
        rw [PairingTree.items, List.idxOf_cons_self, List.idxOf_cons_ne _ notSelf]
        exact Nat.succ_pos _
      · have yBelow := (inChildren.down below down).1
        rw [PairingTree.items, List.idxOf_cons_ne _ (by rintro rfl; exact notBelow below),
          List.idxOf_cons_ne _ (by rintro rfl; exact notBelow yBelow),
          List.idxOf_append_of_mem below, List.idxOf_append_of_mem yBelow]
        exact Nat.succ_lt_succ (ihChildren inChildren childrenNodup below)
      · have yBeside := (inSiblings.down beside down).1
        rw [PairingTree.items, List.idxOf_cons_ne _ (by rintro rfl; exact notBeside beside),
          List.idxOf_cons_ne _ (by rintro rfl; exact notBeside yBeside),
          List.idxOf_append_of_notMem fun below => apart x below x beside rfl,
          List.idxOf_append_of_notMem fun below => apart y below y yBeside rfl]
        exact Nat.succ_lt_succ (Nat.add_lt_add_left
          (ihSiblings inSiblings siblingsNodup beside) _)

theorem Linked.reaches (linked : Linked links prev tree) {first y : T}
    (isTop : tree.top? = some first) (inRow : y ∈ tree.items) :
    Relation.ReflTransGen (Down links) first y := by
  induction tree generalizing prev first with
  | empty => cases isTop
  | node item children siblings ihChildren ihSiblings =>
      obtain rfl : item = first := Option.some.inj isTop
      obtain ⟨here, inChildren, inSiblings⟩ := linked
      simp only [PairingTree.items, List.mem_cons, List.mem_append] at inRow
      rcases inRow with rfl | below | beside
      · exact Relation.ReflTransGen.refl
      · cases childTop : children.top? with
        | none =>
            rw [PairingTree.eq_empty_of_top? childTop] at below
            exact absurd below List.not_mem_nil
        | some child =>
            refine Relation.ReflTransGen.head (Or.inl ?_) (ihChildren inChildren childTop below)
            rw [here, childTop]
      · cases nextTop : siblings.top? with
        | none =>
            rw [PairingTree.eq_empty_of_top? nextTop] at beside
            exact absurd beside List.not_mem_nil
        | some next =>
            refine Relation.ReflTransGen.head (Or.inr ?_) (ihSiblings inSiblings nextTop beside)
            rw [here, nextTop]

end Links

/-! ### States of the heap -/

/-- What holds of a heap whose inserted and not removed nodes are the members. -/
structure Sound {T : Type} [DecidableEq T] (less : T → T → Bool) (fuel : Nat)
    (heap : Intrusive T) (members : List T) : Prop where
  members_nodup : members.Nodup
  /-- a child or a next sibling points back -/
  down_prev : ∀ x y, Links.Down heap.links x y → (heap.links y).prev = some x
  /-- and a node that points back is one of them, never both -/
  prev_down : ∀ x y, (heap.links y).prev = some x →
    (heap.links x).child = some y ∧ (heap.links x).next ≠ some y ∨
      (heap.links x).next = some y ∧ (heap.links x).child ≠ some y
  acyclic : ∀ x, ¬ Relation.TransGen (Links.Down heap.links) x x
  reachable : ∀ y, (∃ top, heap.root = some top ∧
    Relation.ReflTransGen (Links.Down heap.links) top y) ↔ y ∈ members
  peek_none : heap.peek = none ↔ members = []
  peek_least : ∀ top, heap.peek = some top →
    top ∈ members ∧ ∀ other ∈ members, other ≠ top → less other top = false
  deletes_least : ∃ next, heap.deleteMin less fuel = some (heap.peek, next)
  visits_once : ∃ nodes, heap.forEach fuel = some nodes ∧ nodes.Nodup ∧
    ∀ y, y ∈ nodes ↔ y ∈ members

namespace Intrusive

variable {T : Type} [DecidableEq T] {less : T → T → Bool} {heap : Intrusive T}
  {members : List T}

def Holds (less : T → T → Bool) (heap : Intrusive T) (members : List T) : Prop :=
  ∃ held, heap.Represents held ∧ (Pairing.contents held).Perm members ∧
    ∀ top, held = some top → top.Ordered less

omit [DecidableEq T] in
theorem default_holds (less : T → T → Bool) : (default : Intrusive T).Holds less [] :=
  ⟨none, default_represents, List.Perm.refl _, fun _ impossible => nomatch impossible⟩

theorem sound_of_empty (represents : heap.Represents none) (fuel : Nat) :
    Sound less fuel heap [] := by
  have noLinks : ∀ x, heap.links x = IntrusiveField.default := fun x =>
    represents.outside x List.not_mem_nil
  have noRoot : heap.root = none := represents.root_eq
  have noDown : ∀ x y, ¬ Links.Down heap.links x y := by
    intro x y down
    rw [Links.Down, noLinks] at down
    rcases down with impossible | impossible <;> cases impossible
  refine ⟨List.nodup_nil, fun x y down => absurd down (noDown x y), ?_, ?_, ?_, ?_, ?_,
    ⟨heap, ?_⟩, ⟨[], ?_, List.nodup_nil, fun y => Iff.rfl⟩⟩
  · intro x y back
    rw [noLinks] at back
    cases back
  · intro x cycle
    obtain ⟨y, _, down⟩ := Relation.TransGen.tail'_iff.mp cycle
    exact noDown y x down
  · intro y
    rw [noRoot]
    simp
  · exact ⟨fun _ => rfl, fun _ => noRoot⟩
  · intro top isTop
    rw [peek, noRoot] at isTop
    cases isTop
  · rw [deleteMin_none less fuel represents, peek, noRoot]
  · rw [forEach, noRoot]

theorem sound_of_top {top : PairingHeap T} (represents : heap.Represents (some top))
    (ordered : top.Ordered less) {fuel : Nat} (enough : 4 * top.items.length < fuel) :
    Sound less fuel heap top.items := by
  have topHolds := represents.holds top rfl
  have distinct : top.items.Nodup := represents.distinct
  have hasRoot : heap.root = some top.root := represents.root_eq
  have linked : Links.Linked heap.links none (.node top.root top.children .empty) :=
    ⟨topHolds.root, topHolds.below, trivial⟩
  have sameItems : (PairingTree.node top.root top.children .empty).items = top.items := by
    simp [PairingTree.items, PairingHeap.items]
  have outside : ∀ x, x ∉ top.items → heap.links x = IntrusiveField.default :=
    represents.outside
  have downInside : ∀ x y, Links.Down heap.links x y → x ∈ top.items := by
    intro x y down
    by_contra absent
    rw [Links.Down, outside x absent] at down
    rcases down with impossible | impossible <;> cases impossible
  have reached : ∀ x y, Relation.ReflTransGen (Links.Down heap.links) x y →
      x ∈ top.items → y ∈ top.items := by
    intro x y path inTop
    induction path with
    | refl => exact inTop
    | tail _ down ih =>
        rw [← sameItems] at ih ⊢
        exact (linked.down ih down).1
  refine ⟨distinct, ?_, ?_, ?_, ?_, ?_, ?_, ?_, ?_⟩
  · intro x y down
    have inTop := downInside x y down
    rw [← sameItems] at inTop
    exact (linked.down inTop down).2
  · intro x y back
    have inTop : y ∈ top.items := by
      by_contra absent
      rw [outside y absent] at back
      cases back
    have notRoot : (PairingTree.node top.root top.children .empty).top? ≠ some y := by
      intro isTop
      rw [linked.prev_top isTop] at back
      cases back
    rw [← sameItems] at inTop
    obtain ⟨above, aboveBack, place⟩ := linked.up (by rwa [sameItems]) inTop notRoot
    obtain rfl : above = x := Option.some.inj (aboveBack.symm.trans back)
    exact place
  · intro x cycle
    have increases : ∀ y, Relation.TransGen (Links.Down heap.links) x y →
        top.items.idxOf x < top.items.idxOf y := by
      intro y path
      induction path with
      | single down =>
          have inTop := downInside _ _ down
          rw [← sameItems] at inTop ⊢
          exact linked.down_lt (by rwa [sameItems]) inTop down
      | tail _ down ih =>
          have inTop := downInside _ _ down
          rw [← sameItems] at inTop ih ⊢
          exact Nat.lt_trans ih (linked.down_lt (by rwa [sameItems]) inTop down)
    exact Nat.lt_irrefl _ (increases x cycle)
  · intro y
    constructor
    · rintro ⟨first, isFirst, path⟩
      obtain rfl : top.root = first := Option.some.inj (hasRoot.symm.trans isFirst)
      exact reached _ _ path List.mem_cons_self
    · intro inTop
      exact ⟨top.root, hasRoot, linked.reaches rfl (by rwa [sameItems])⟩
  · constructor
    · intro noTop
      rw [peek, hasRoot] at noTop
      cases noTop
    · intro noMembers
      cases noMembers
  · intro first isFirst
    obtain rfl : top.root = first := Option.some.inj (hasRoot.symm.trans isFirst)
    refine ⟨List.mem_cons_self, ?_⟩
    intro other inTop notTop
    exact ordered.1 other ((List.mem_cons.mp inTop).resolve_left notTop)
  · obtain ⟨next, deletes, _⟩ := deleteMin_spec less represents
      (show top.items.length ≤ fuel by omega)
    exact ⟨next, by rw [deletes, peek, hasRoot]⟩
  · obtain ⟨steps, bound, walks⟩ := Links.walk_row linked (by rwa [sameItems]) rfl
    rw [sameItems] at bound walks
    refine ⟨top.items, ?_, distinct, fun y => Iff.rfl⟩
    obtain ⟨spare, rfl⟩ : ∃ spare, fuel = spare + 1 + steps :=
      ⟨fuel - 1 - steps, by omega⟩
    have noPrev : (heap.links top.root).prev = none := by rw [topHolds.root]
    rw [forEach, hasRoot]
    simp only [walks, walk, noPrev, Option.map_some, List.append_nil]

theorem Holds.sound (holds : heap.Holds less members) {fuel : Nat}
    (enough : 4 * members.length < fuel) : Sound less fuel heap members := by
  obtain ⟨held, represents, sameItems, ordered⟩ := holds
  cases held with
  | none =>
      obtain rfl : members = [] := List.nil_perm.mp sameItems
      exact sound_of_empty represents fuel
  | some top =>
      have same : top.items.Perm members := sameItems
      have sound := sound_of_top represents (ordered top rfl)
        (show 4 * top.items.length < fuel by rw [same.length_eq]; exact enough)
      refine ⟨(same.nodup_iff).mp sound.members_nodup, sound.down_prev, sound.prev_down,
        sound.acyclic, fun y => (sound.reachable y).trans same.mem_iff, ?_, ?_,
        sound.deletes_least, ?_⟩
      · rw [sound.peek_none]
        constructor
        · rintro noItems
          cases noItems
        · rintro rfl
          exact List.perm_nil.mp same
      · intro first isFirst
        obtain ⟨inTop, least⟩ := sound.peek_least first isFirst
        exact ⟨same.mem_iff.mp inTop, fun other inMembers =>
          least other (same.mem_iff.mpr inMembers)⟩
      · obtain ⟨nodes, visits, distinct, each⟩ := sound.visits_once
        exact ⟨nodes, visits, distinct, fun y => (each y).trans same.mem_iff⟩

end Intrusive

/-! ### Runs -/

inductive HeapOp (T : Type) where
  | insert (v : T)
  | deleteMin
  | remove (v : T)
deriving DecidableEq, Repr

/-- The heap with the nodes that were inserted and not taken out again. -/
structure HeapState (T : Type) where
  heap : Intrusive T
  members : List T

namespace HeapOp

variable {T : Type} [DecidableEq T]

def apply (less : T → T → Bool) (fuel : Nat) (state : HeapState T) :
    HeapOp T → Option (HeapState T)
  | insert v => (state.heap.insert less v).map fun next => ⟨next, v :: state.members⟩
  | deleteMin => (state.heap.deleteMin less fuel).map fun result =>
      ⟨result.2, (result.1.map state.members.erase).getD state.members⟩
  | remove v => (state.heap.remove less fuel v).map fun next => ⟨next, state.members.erase v⟩

/-- A node goes into the heap once, and into a set of members that is admitted; only members
are removed. -/
def Allowed (admits : List T → Prop) (members : List T) : HeapOp T → Prop
  | insert v => v ∉ members ∧ admits (v :: members)
  | deleteMin => True
  | remove v => v ∈ members

end HeapOp

namespace HeapState

variable {T : Type} [DecidableEq T] {less : T → T → Bool} {fuel : Nat}
  {admits : List T → Prop}

def initial : HeapState T := ⟨Intrusive.default, []⟩

def run (less : T → T → Bool) (fuel : Nat) (state : HeapState T) :
    List (HeapOp T) → Option (HeapState T)
  | [] => some state
  | op :: ops => (op.apply less fuel state).bind fun next => run less fuel next ops

/-- Every operation of the sequence is allowed where it is made. -/
def AllAllowed (admits : List T → Prop) (less : T → T → Bool) (fuel : Nat)
    (state : HeapState T) : List (HeapOp T) → Prop
  | [] => True
  | op :: ops => op.Allowed admits state.members ∧
      ∀ next, op.apply less fuel state = some next → AllAllowed admits less fuel next ops

def Good (admits : List T → Prop) (less : T → T → Bool) (state : HeapState T) : Prop :=
  state.heap.Holds less state.members ∧ admits state.members

structure AdmitsOrdered (admits : List T → Prop) (less : T → T → Bool) : Prop where
  nil : admits []
  subset : ∀ members fewer, fewer ⊆ members → admits members → admits fewer
  ordered : ∀ members, admits members → OrdersOn less members

theorem deleteMin_good (admitted : AdmitsOrdered admits less) {heap : Intrusive T}
    {members : List T} {top : PairingHeap T}
    (represents : heap.Represents (some top)) (sameItems : top.items.Perm members)
    (ordered : top.Ordered less) (isAdmitted : admits members)
    (enough : members.length ≤ fuel) :
    ∃ next, heap.deleteMin less fuel = some (some top.root, next) ∧
      (HeapState.mk next (members.erase top.root)).Good admits less := by
  obtain ⟨next, deletes, nextRepresents⟩ := Intrusive.deleteMin_spec less represents
    (show top.items.length ≤ fuel by rw [sameItems.length_eq]; exact enough)
  refine ⟨next, deletes, ⟨_, nextRepresents, ?_, ?_⟩,
    admitted.subset _ _ List.erase_subset isAdmitted⟩
  · exact (Pairing.contents_deleteMin top).trans (sameItems.erase _)
  · exact Pairing.deleteMin_ordered ((admitted.ordered _ isAdmitted).subset sameItems.subset)
      represents.distinct ordered

theorem apply_good (admitted : AdmitsOrdered admits less) {state : HeapState T}
    (good : state.Good admits less) {op : HeapOp T} (allowed : op.Allowed admits state.members)
    (enough : state.members.length ≤ fuel) :
    ∃ next, op.apply less fuel state = some next ∧ next.Good admits less ∧
      next.members.length ≤ state.members.length + 1 := by
  obtain ⟨⟨held, represents, sameItems, ordered⟩, isAdmitted⟩ := good
  have orders := admitted.ordered _ isAdmitted
  cases op with
  | insert v =>
      obtain ⟨fresh, admitsNext⟩ := allowed
      have nextOrders := admitted.ordered _ admitsNext
      have freshHeld : v ∉ Pairing.contents held := fun inHeld =>
        fresh (sameItems.mem_iff.mp inHeld)
      obtain ⟨next, inserts, nextRepresents⟩ :=
        Intrusive.insert_spec less represents freshHeld
      have added := sameItems.cons v
      refine ⟨⟨next, v :: state.members⟩, by rw [HeapOp.apply, inserts]; rfl,
        ⟨⟨_, nextRepresents, (Pairing.contents_insert less v held).trans added, ?_⟩,
          admitsNext⟩, Nat.le_refl _⟩
      intro top same
      obtain rfl := Option.some.inj same
      exact Pairing.insert_ordered (nextOrders.subset added.subset)
        (List.nodup_cons.mpr ⟨freshHeld, represents.distinct⟩) ordered
  | deleteMin =>
      cases held with
      | none =>
          refine ⟨state, ?_, ⟨⟨none, represents, sameItems, ordered⟩, isAdmitted⟩,
            Nat.le_succ _⟩
          rw [HeapOp.apply, Intrusive.deleteMin_none less fuel represents]
          rfl
      | some top =>
          obtain ⟨next, deletes, good⟩ :=
            deleteMin_good admitted represents sameItems (ordered top rfl) isAdmitted enough
          refine ⟨_, by rw [HeapOp.apply, deletes]; rfl, good, ?_⟩
          exact Nat.le_trans List.length_erase_le (Nat.le_succ _)
  | remove v =>
      have present : v ∈ Pairing.contents held := sameItems.mem_iff.mpr allowed
      have shorter : (state.members.erase v).length ≤ state.members.length + 1 :=
        Nat.le_trans List.length_erase_le (Nat.le_succ _)
      cases held with
      | none => exact absurd present List.not_mem_nil
      | some top =>
          have topHolds := represents.holds top rfl
          rcases List.mem_cons.mp present with rfl | below
          · obtain ⟨next, deletes, good⟩ :=
              deleteMin_good admitted represents sameItems (ordered top rfl) isAdmitted enough
            have isRoot : state.heap.root = some top.root := represents.root_eq
            have noPrev : (state.heap.links top.root).prev = none := by rw [topHolds.root]
            refine ⟨⟨next, state.members.erase top.root⟩, ?_, good, shorter⟩
            rw [HeapOp.apply, Intrusive.remove]
            simp only [noPrev, isRoot, if_true, deletes, Option.map_some]
          · obtain ⟨next, removes, nextRepresents⟩ := Intrusive.remove_spec less represents
              (show top.items.length ≤ fuel from sameItems.length_eq ▸ enough) below
            refine ⟨⟨next, state.members.erase v⟩, by rw [HeapOp.apply, removes]; rfl,
              ⟨⟨_, nextRepresents, ?_, ?_⟩, admitted.subset _ _ List.erase_subset isAdmitted⟩,
              shorter⟩
            · exact (Pairing.contents_removeBelow less represents.distinct below).trans
                (sameItems.erase v)
            · intro other same
              obtain rfl := Option.some.inj same
              exact Pairing.removeBelow_ordered (orders.subset sameItems.subset)
                represents.distinct below (ordered top rfl)

theorem run_good (admitted : AdmitsOrdered admits less) {state : HeapState T}
    (good : state.Good admits less) (ops : List (HeapOp T))
    (allowed : AllAllowed admits less fuel state ops)
    (enough : state.members.length + ops.length ≤ fuel) :
    ∃ last, run less fuel state ops = some last ∧ last.Good admits less ∧
      last.members.length ≤ state.members.length + ops.length := by
  induction ops generalizing state with
  | nil => exact ⟨state, rfl, good, Nat.le_refl _⟩
  | cons op ops ih =>
      obtain ⟨allowedNow, allowedLater⟩ := allowed
      rw [List.length_cons] at enough
      obtain ⟨next, applies, nextGood, bound⟩ :=
        apply_good admitted good allowedNow (show state.members.length ≤ fuel by omega)
      obtain ⟨last, runs, lastGood, lastBound⟩ :=
        ih nextGood (allowedLater next applies) (by omega)
      refine ⟨last, by rw [run, applies, Option.bind_some, runs], lastGood, ?_⟩
      rw [List.length_cons]
      omega

theorem run_sound (admitted : AdmitsOrdered admits less) (ops : List (HeapOp T))
    (enough : 4 * ops.length < fuel) (allowed : AllAllowed admits less fuel initial ops) :
    ∃ last, run less fuel initial ops = some last ∧ Sound less fuel last.heap last.members ∧
      admits last.members := by
  have short : (initial : HeapState T).members.length = 0 := rfl
  have start : (initial : HeapState T).Good admits less :=
    ⟨Intrusive.default_holds less, admitted.nil⟩
  obtain ⟨last, runs, good, bound⟩ := run_good admitted start ops allowed (by omega)
  exact ⟨last, runs, good.1.sound (by omega), good.2⟩

end HeapState

theorem ordersOn_of_strictWeakOrder {T : Type} (less : T → T → Bool)
    [order : IsStrictWeakOrder T fun x y => less x y = true] (members : List T) :
    OrdersOn less members where
  asymm x _ y _ _ lesser := by
    refine Bool.eq_false_iff.mpr fun greater => ?_
    exact order.irrefl x (order.trans x y x lesser greater)
  not_less_trans x _ y _ z _ _ _ _ notYX notZY := by
    refine Bool.eq_false_iff.mpr fun lesser => ?_
    -- `z` would be below `x` with `y` tied to both of them or between them
    by_cases xy : less x y = true
    · exact Bool.eq_false_iff.mp notZY (order.trans z x y lesser xy)
    · by_cases yz : less y z = true
      · exact Bool.eq_false_iff.mp notYX (order.trans y z x yz lesser)
      · have tied := order.incomp_trans x y z ⟨xy, Bool.eq_false_iff.mp notYX⟩
          ⟨yz, Bool.eq_false_iff.mp notZY⟩
        exact tied.2 lesser

/-- Whatever is inserted, deleted and removed, every state of the heap is sound: its links
agree and have no cycle, its nodes are the inserted and not removed ones, the root is a least
one, and each is visited once. -/
theorem intrusiveHeap_sound {T : Type} [DecidableEq T] (less : T → T → Bool)
    [IsStrictWeakOrder T fun x y => less x y = true] (ops : List (HeapOp T)) (fuel : Nat)
    (enough : 4 * ops.length < fuel)
    (allowed : HeapState.AllAllowed (fun _ => True) less fuel .initial ops) :
    ∃ last, HeapState.run less fuel .initial ops = some last ∧
      Sound less fuel last.heap last.members := by
  obtain ⟨last, runs, sound, _⟩ := HeapState.run_sound
    ⟨trivial, fun _ _ _ _ => trivial, fun members _ => ordersOn_of_strictWeakOrder less members⟩
    ops enough allowed
  exact ⟨last, runs, sound⟩

theorem HeapOp.members_insert {T : Type} [DecidableEq T] {less : T → T → Bool} {fuel : Nat}
    {state next : HeapState T} {v : T}
    (applies : (HeapOp.insert v).apply less fuel state = some next) :
    next.members = v :: state.members := by
  obtain ⟨heap, _, rfl⟩ := Option.map_eq_some_iff.mp applies
  rfl

instance natLess_strictWeakOrder :
    IsStrictWeakOrder Nat fun x y => decide (x < y) = true where
  irrefl x := by simp
  trans x y z := by simpa using Nat.lt_trans
  incomp_trans x y z := by
    simp only [decide_eq_true_eq, Nat.not_lt]
    omega

/-- Each of four numbers goes above the one before it, and one from the middle is taken out. -/
theorem fourNumbers_sound :
    ∃ last, HeapState.run (fun x y => decide (x < y)) 25 .initial
        [.insert 4, .insert 3, .insert 2, .insert 1, .remove 3, .deleteMin] = some last ∧
      Sound (fun x y => decide (x < y)) 25 last.heap last.members := by
  refine intrusiveHeap_sound (fun x y : Nat => decide (x < y)) _ 25 (by decide)
    ⟨⟨List.not_mem_nil, trivial⟩, fun one inserts => ?_⟩
  have oneMembers : one.members = [4] := HeapOp.members_insert inserts
  refine ⟨⟨by rw [oneMembers]; decide, trivial⟩, fun two inserts => ?_⟩
  have twoMembers : two.members = [3, 4] := by
    rw [HeapOp.members_insert inserts, oneMembers]
  refine ⟨⟨by rw [twoMembers]; decide, trivial⟩, fun three inserts => ?_⟩
  have threeMembers : three.members = [2, 3, 4] := by
    rw [HeapOp.members_insert inserts, twoMembers]
  refine ⟨⟨by rw [threeMembers]; decide, trivial⟩, fun four inserts => ⟨?_, ?_⟩⟩
  · show 3 ∈ four.members
    rw [HeapOp.members_insert inserts, threeMembers]
    decide
  · exact fun _ _ => ⟨trivial, fun _ _ => trivial⟩

end Bun.Io
