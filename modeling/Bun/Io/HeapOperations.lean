/-
`insert`, `delete_min` and `remove` do to the links what linking and combining do to a
pairing heap.
-/

import Bun.Io.HeapDetach

set_option autoImplicit false

namespace Bun.Io

open Bun.Foundation

/-! ### The operations on pairing heaps -/

namespace Pairing

variable {T : Type} [DecidableEq T]

def contents (heap : Option (PairingHeap T)) : List T :=
  (heap.map PairingHeap.items).getD []

def insert (less : T → T → Bool) (item : T) : Option (PairingHeap T) → PairingHeap T
  | none => .single item
  | some heap => .link less (.single item) heap

def deleteMin (less : T → T → Bool) : Option (PairingHeap T) → Option (PairingHeap T)
  | none => none
  | some heap => PairingHeap.combine less heap.children

def removeBelow (less : T → T → Bool) (item : T) (heap : PairingHeap T) : PairingHeap T :=
  match PairingHeap.combine less (heap.children.childrenOf item) with
  | none => ⟨heap.root, heap.children.cut item⟩
  | some lifted => .link less lifted ⟨heap.root, heap.children.cut item⟩

variable {less : T → T → Bool} {item : T}

omit [DecidableEq T] in
theorem contents_insert (less : T → T → Bool) (item : T) (heap : Option (PairingHeap T)) :
    (insert less item heap).items.Perm (item :: contents heap) := by
  cases heap with
  | none => exact List.Perm.refl _
  | some heap => exact PairingHeap.items_link less _ _

omit [DecidableEq T] in
theorem insert_ordered {heap : Option (PairingHeap T)}
    (orders : OrdersOn less (item :: contents heap)) (distinct : (item :: contents heap).Nodup)
    (ordered : ∀ old, heap = some old → old.Ordered less) : (insert less item heap).Ordered less := by
  have single : (PairingHeap.single item).Ordered less :=
    ⟨fun below inRow => absurd inRow List.not_mem_nil, trivial⟩
  cases heap with
  | none => exact single
  | some heap => exact PairingHeap.link_ordered orders distinct single (ordered heap rfl)

theorem contents_deleteMin (heap : PairingHeap T) :
    (contents (deleteMin less (some heap))).Perm (heap.items.erase heap.root) := by
  rw [PairingHeap.items, List.erase_cons_head]
  exact PairingHeap.combine_items less heap.children

omit [DecidableEq T] in
theorem deleteMin_ordered {heap : PairingHeap T} (orders : OrdersOn less heap.items)
    (distinct : heap.items.Nodup) (ordered : heap.Ordered less) :
    ∀ next, deleteMin less (some heap) = some next → next.Ordered less :=
  PairingHeap.combine_ordered (orders.subset (List.subset_cons_self _ _))
    (List.nodup_cons.mp distinct).2 ordered.2

/-- The items besides the removed one are its children and what is left of the row. -/
theorem items_perm_below {heap : PairingHeap T} (distinct : heap.items.Nodup)
    (present : item ∈ heap.children.items) :
    heap.items.Perm (item :: ((heap.children.childrenOf item).items ++
      (PairingHeap.mk heap.root (heap.children.cut item)).items)) := by
  have row := PairingTree.items_perm_cut (List.nodup_cons.mp distinct).2 present
  refine (row.cons heap.root).trans ((List.Perm.swap _ _ _).trans (List.Perm.cons _ ?_))
  exact List.perm_middle.symm

theorem contents_removeBelow (less : T → T → Bool) {heap : PairingHeap T} (distinct : heap.items.Nodup)
    (present : item ∈ heap.children.items) :
    (removeBelow less item heap).items.Perm (heap.items.erase item) := by
  have others := ((items_perm_below distinct present).erase item).symm
  rw [List.erase_cons_head] at others
  refine List.Perm.trans ?_ others
  have lifted := PairingHeap.combine_items less (heap.children.childrenOf item)
  unfold removeBelow
  cases combined : PairingHeap.combine less (heap.children.childrenOf item) with
  | none =>
      rw [combined] at lifted
      exact (lifted.append_right _)
  | some other =>
      rw [combined] at lifted
      exact (PairingHeap.items_link less _ _).trans (lifted.append_right _)

theorem removeBelow_ordered {heap : PairingHeap T} (orders : OrdersOn less heap.items)
    (distinct : heap.items.Nodup) (present : item ∈ heap.children.items)
    (ordered : heap.Ordered less) : (removeBelow less item heap).Ordered less := by
  have whole := items_perm_below distinct present
  have rest : (PairingHeap.mk heap.root (heap.children.cut item)).Ordered less :=
    ⟨fun below inCut => ordered.1 below (PairingTree.items_cut_subset inCut), ordered.2.cut⟩
  have parts : OrdersOn less ((heap.children.childrenOf item).items ++
      (PairingHeap.mk heap.root (heap.children.cut item)).items) :=
    orders.subset fun other inParts => whole.mem_iff.mpr (List.mem_cons_of_mem _ inParts)
  have partsDistinct := (List.nodup_cons.mp ((whole.nodup_iff).mp distinct)).2
  have lifted := PairingHeap.combine_items less (heap.children.childrenOf item)
  unfold removeBelow
  cases combined : PairingHeap.combine less (heap.children.childrenOf item) with
  | none => exact rest
  | some other =>
      rw [combined] at lifted
      have sameItems := lifted.append_right
        (PairingHeap.mk heap.root (heap.children.cut item)).items
      refine PairingHeap.link_ordered (parts.subset sameItems.subset)
        ((sameItems.nodup_iff).mpr partsDistinct) ?_ rest
      exact PairingHeap.combine_ordered (parts.subset (List.subset_append_left _ _))
        (List.nodup_append.mp partsDistinct).1 ordered.2.childrenOf other combined

end Pairing

namespace Intrusive

variable {T : Type} [DecidableEq T] {heap : Intrusive T} {held : Option (PairingHeap T)}
  {top : PairingHeap T}

structure Represents (heap : Intrusive T) (held : Option (PairingHeap T)) : Prop where
  root_eq : heap.root = held.map PairingHeap.root
  holds : ∀ top, held = some top → Links.Holds heap.links top none none
  distinct : (Pairing.contents held).Nodup
  outside : ∀ node, node ∉ Pairing.contents held → heap.links node = IntrusiveField.default

omit [DecidableEq T] in
theorem default_represents : (default : Intrusive T).Represents none :=
  ⟨rfl, (fun _ impossible => nomatch impossible), List.nodup_nil, fun _ _ => rfl⟩

theorem insert_spec (less : T → T → Bool) (represents : heap.Represents held) {v : T}
    (fresh : v ∉ Pairing.contents held) :
    ∃ next, heap.insert less v = some next ∧
      next.Represents (some (Pairing.insert less v held)) := by
  have empty := represents.outside v fresh
  have sameItems := Pairing.contents_insert less v held
  cases held with
  | none =>
      have noRoot : heap.root = none := represents.root_eq
      refine ⟨{ heap with root := some v }, by simp only [insert, noRoot], rfl, ?_,
        List.nodup_singleton v, ?_⟩
      · intro top same
        obtain rfl := Option.some.inj same
        exact ⟨empty, trivial⟩
      · intro node _
        exact represents.outside node List.not_mem_nil
  | some top =>
      have hasRoot : heap.root = some top.root := represents.root_eq
      have topHolds := represents.holds top rfl
      have single : Links.Holds heap.links (PairingHeap.single v) none none := ⟨empty, trivial⟩
      have distinct : ((PairingHeap.single v).items ++
          (top.items ++ (PairingTree.empty : PairingTree T).items)).Nodup := by
        rw [PairingTree.items, List.append_nil]
        exact List.nodup_cons.mpr ⟨fresh, represents.distinct⟩
      have noRest : Links.Linked heap.links (some top.root) .empty := trivial
      obtain ⟨melded, melds, holds, _, frame⟩ := Links.meld_spec less single topHolds.hangs
        (by rw [topHolds.root]; rfl) noRest distinct
      rw [PairingTree.items, List.append_nil] at frame
      refine ⟨⟨some _, melded⟩, ?_, rfl, ?_, ?_, ?_⟩
      · have meldsTop : heap.links.meld less v top.root =
            some (melded, (Pairing.insert less v (some top)).root) := melds
        simp only [insert, hasRoot, meldsTop, Option.bind_eq_bind, Option.bind_some,
          Option.pure_def]
      · intro next same
        obtain rfl := Option.some.inj same
        exact holds
      · exact (sameItems.nodup_iff).mpr (List.nodup_cons.mpr ⟨fresh, represents.distinct⟩)
      · intro node outside
        have notOld : node ∉ (PairingHeap.single v).items ++ top.items := fun inOld =>
          outside (sameItems.mem_iff.mpr inOld)
        exact (frame node notOld).trans (represents.outside node fun inTop =>
          notOld (List.mem_append_right _ inTop))

theorem deleteMin_none (less : T → T → Bool) (fuel : Nat) (represents : heap.Represents none) :
    heap.deleteMin less fuel = some (none, heap) := by
  have noRoot : heap.root = none := represents.root_eq
  simp only [deleteMin, noRoot]

theorem deleteMin_spec (less : T → T → Bool) {fuel : Nat}
    (represents : heap.Represents (some top)) (enough : top.items.length ≤ fuel) :
    ∃ next, heap.deleteMin less fuel = some (some top.root, next) ∧
      next.Represents (Pairing.deleteMin less (some top)) := by
  have hasRoot : heap.root = some top.root := represents.root_eq
  have topHolds := represents.holds top rfl
  have distinct : top.items.Nodup := represents.distinct
  have rootNotBelow := (List.nodup_cons.mp distinct).1
  have belowDistinct := (List.nodup_cons.mp distinct).2
  have hasChild : (heap.links top.root).child = top.children.top? := by rw [topHolds.root]
  cases below : top.children.top? with
  | none =>
      have noChildren := PairingTree.eq_empty_of_top? below
      have nothing : Pairing.deleteMin less (some top) = none := by
        rw [Pairing.deleteMin, noChildren]
        rfl
      refine ⟨⟨none, Function.update heap.links top.root IntrusiveField.default⟩, by
        simp only [deleteMin, hasRoot, hasChild, below], ?_⟩
      rw [nothing]
      refine ⟨rfl, (fun _ impossible => nomatch impossible), List.nodup_nil, ?_⟩
      intro node _
      dsimp only
      rw [Function.update_apply]
      by_cases same : node = top.root
      · rw [if_pos same]
      · rw [if_neg same]
        refine represents.outside node ?_
        change node ∉ top.root :: top.children.items
        rw [noChildren, PairingTree.items, List.mem_singleton]
        exact same
  | some child =>
      obtain ⟨combined, next, combines, computes, holds, frame⟩ :=
        Links.combineSiblings_spec less
          (show top.children.items.length ≤ fuel by
            rw [PairingHeap.items, List.length_cons] at enough
            omega) below topHolds.below belowDistinct
      have sameItems := PairingHeap.combine_items less top.children
      rw [combines] at sameItems
      have same : next.items.Perm top.children.items := sameItems
      have rootNotNext : top.root ∉ next.items := fun inNext =>
        rootNotBelow (same.mem_iff.mp inNext)
      refine ⟨⟨some next.root, Function.update combined top.root IntrusiveField.default⟩, by
        simp only [deleteMin, hasRoot, hasChild, below, computes, Option.bind_eq_bind,
          Option.bind_some, Option.pure_def], ?_⟩
      rw [Pairing.deleteMin, combines]
      have unchanged : ∀ node ∈ next.items,
          Function.update combined top.root IntrusiveField.default node = combined node := by
        intro node inNext
        rw [Function.update_apply, if_neg]
        rintro rfl
        exact rootNotNext inNext
      refine ⟨rfl, ?_, (same.nodup_iff).mpr belowDistinct, ?_⟩
      · intro other isNext
        obtain rfl := Option.some.inj isNext
        refine ⟨?_, holds.below.congr fun node inRow =>
          unchanged node (List.mem_cons_of_mem _ inRow)⟩
        exact (unchanged _ List.mem_cons_self).trans holds.root
      · intro node outside
        dsimp only
        rw [Function.update_apply]
        by_cases atRoot : node = top.root
        · rw [if_pos atRoot]
        · have notBelow : node ∉ top.children.items := fun inRow =>
            outside (same.mem_iff.mpr inRow)
          rw [if_neg atRoot, frame node notBelow]
          refine represents.outside node ?_
          exact fun inTop => (List.mem_cons.mp inTop).elim atRoot notBelow

theorem remove_detached (represents : heap.Represents (some top)) {v : T}
    (present : v ∈ top.children.items) :
    ∃ before, (heap.links v).prev = some before ∧
      Links.Holds (detach heap.links v before) ⟨top.root, top.children.cut v⟩ none none ∧
      Links.Holds (detach heap.links v before) ⟨v, top.children.childrenOf v⟩ none none ∧
      ∀ node, node ∉ top.items → detach heap.links v before node = heap.links node := by
  have topHolds := represents.holds top rfl
  have distinct : top.items.Nodup := represents.distinct
  have rootNotV : top.root ≠ v := by
    rintro rfl
    exact (List.nodup_cons.mp distinct).1 present
  have whole : Links.Linked heap.links none (.node top.root top.children .empty) :=
    ⟨topHolds.root, topHolds.below, trivial⟩
  have sameItems : (PairingTree.node top.root top.children .empty).items = top.items := by
    simp [PairingTree.items, PairingHeap.items]
  obtain ⟨before, back, detached⟩ := Links.detach_spec whole (by rwa [sameItems])
    (by rw [sameItems]; exact List.mem_cons_of_mem _ present)
    (fun same => rootNotV (Option.some.inj same))
  obtain ⟨_, cut, below, frame⟩ := detached
  rw [PairingTree.cut, if_neg rootNotV] at cut
  rw [PairingTree.childrenOf, if_neg rootNotV, if_pos present] at below
  rw [sameItems] at frame
  exact ⟨before, back, ⟨cut.1, cut.2.1⟩, below, frame⟩

theorem remove_spec (less : T → T → Bool) {fuel : Nat} (represents : heap.Represents (some top))
    (enough : top.items.length ≤ fuel) {v : T} (present : v ∈ top.children.items) :
    ∃ next, heap.remove less fuel v = some next ∧
      next.Represents (some (Pairing.removeBelow less v top)) := by
  have hasRoot : heap.root = some top.root := represents.root_eq
  have distinct : top.items.Nodup := represents.distinct
  have sameItems := Pairing.items_perm_below distinct present
  have remaining := Pairing.contents_removeBelow less distinct present
  obtain ⟨before, back, restHolds, vHolds, frame⟩ := remove_detached represents present
  have partsDistinct := (sameItems.nodup_iff).mp distinct
  obtain ⟨vNotIn, partsDistinct⟩ := List.nodup_cons.mp partsDistinct
  obtain ⟨rowDistinct, restDistinct, rowApart⟩ := List.nodup_append.mp partsDistinct
  have vChild : (detach heap.links v before v).child = (top.children.childrenOf v).top? := by
    rw [vHolds.root]
  have outsideOld : ∀ node, node ≠ v → node ∉ (Pairing.removeBelow less v top).items →
      node ∉ top.items := by
    intro node notV outside inOld
    exact outside (remaining.mem_iff.mpr ((List.mem_erase_of_ne notV).mpr inOld))
  have nodupNext : (Pairing.removeBelow less v top).items.Nodup :=
    (remaining.nodup_iff).mpr (distinct.erase v)
  cases below : (top.children.childrenOf v).top? with
  | none =>
      have noRow := PairingTree.eq_empty_of_top? below
      have unlifted : Pairing.removeBelow less v top = ⟨top.root, top.children.cut v⟩ := by
        rw [Pairing.removeBelow, noRow]
        rfl
      refine ⟨{ heap with links := detach heap.links v before }, ?_, ?_⟩
      · simp only [remove, back, vChild, below]
      · rw [unlifted] at nodupNext outsideOld ⊢
        refine ⟨hasRoot, ?_, nodupNext, ?_⟩
        · intro other same
          obtain rfl := Option.some.inj same
          exact restHolds
        · intro node outside
          by_cases atV : node = v
          · rw [atV]
            refine vHolds.root.trans ?_
            rw [noRow]
            rfl
          · have notOld := outsideOld node atV outside
            exact (frame node notOld).trans (represents.outside node notOld)
  | some child =>
      have cleared : ∀ node, node ≠ v →
          (detach heap.links v before).setChild v none node = detach heap.links v before node := by
        intro node notV
        rw [Links.setChild, Function.update_apply, if_neg notV]
      have notV : ∀ node ∈ (top.children.childrenOf v).items ++
          (PairingHeap.mk top.root (top.children.cut v)).items, node ≠ v := by
        rintro node inParts rfl
        exact vNotIn inParts
      have short : (top.children.childrenOf v).items.length ≤ fuel := by
        have whole := sameItems.length_eq
        rw [List.length_cons, List.length_append] at whole
        omega
      obtain ⟨combined, lifted, combines, computes, holds, combineFrame⟩ :=
        Links.combineSiblings_spec less short below
          (vHolds.below.congr fun node inRow =>
            cleared node (notV node (List.mem_append_left _ inRow))) rowDistinct
      have liftedItems := PairingHeap.combine_items less (top.children.childrenOf v)
      rw [combines] at liftedItems
      have sameRow : lifted.items.Perm (top.children.childrenOf v).items := liftedItems
      have unchanged : ∀ node ∈ (PairingHeap.mk top.root (top.children.cut v)).items,
          combined node = detach heap.links v before node := by
        intro node inRest
        rw [combineFrame node fun inRow => rowApart node inRow node inRest rfl]
        exact cleared node (notV node (List.mem_append_right _ inRest))
      have restStill : Links.Holds combined ⟨top.root, top.children.cut v⟩ none none :=
        ⟨(unchanged _ List.mem_cons_self).trans restHolds.root, restHolds.below.congr
          fun node inRow => unchanged node (List.mem_cons_of_mem _ inRow)⟩
      have pairDistinct : (lifted.items ++
          ((PairingHeap.mk top.root (top.children.cut v)).items ++
            (PairingTree.empty : PairingTree T).items)).Nodup := by
        rw [PairingTree.items, List.append_nil]
        exact ((sameRow.append_right _).nodup_iff).mpr partsDistinct
      have noRest : Links.Linked combined (some top.root) .empty := trivial
      obtain ⟨melded, melds, meldedHolds, _, meldFrame⟩ := Links.meld_spec less holds
        restStill.hangs (by rw [restStill.root]; rfl) noRest pairDistinct
      rw [PairingTree.items, List.append_nil] at meldFrame
      have linked : Pairing.removeBelow less v top =
          .link less lifted ⟨top.root, top.children.cut v⟩ := by
        rw [Pairing.removeBelow, combines]
      refine ⟨⟨some (Pairing.removeBelow less v top).root, melded⟩, ?_, ?_⟩
      · have meldsRoot : combined.meld less lifted.root top.root =
            some (melded, (Pairing.removeBelow less v top).root) := by
          rw [linked]
          exact melds
        simp only [remove, back, vChild, below, computes, hasRoot, meldsRoot,
          Option.bind_eq_bind, Option.bind_some, Option.pure_def]
      · refine ⟨rfl, ?_, nodupNext, ?_⟩
        · intro other same
          obtain rfl := Option.some.inj same
          rw [linked]
          exact meldedHolds
        · intro node outside
          have notPair : node ∉ lifted.items ++
              (PairingHeap.mk top.root (top.children.cut v)).items := by
            intro inPair
            refine outside ?_
            change node ∈ (Pairing.removeBelow less v top).items
            rw [linked]
            exact (PairingHeap.items_link less _ _).mem_iff.mpr inPair
          have notRow : node ∉ (top.children.childrenOf v).items := fun inRow =>
            notPair (List.mem_append_left _ (sameRow.mem_iff.mpr inRow))
          dsimp only
          rw [meldFrame node notPair, combineFrame node notRow]
          by_cases atV : node = v
          · rw [atV, Links.setChild, Function.update_self, vHolds.root]
            rfl
          · have notOld := outsideOld node atV outside
            rw [cleared node atV, frame node notOld]
            exact represents.outside node notOld

end Intrusive

end Bun.Io
