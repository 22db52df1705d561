/-
The links of the intrusive heap spell out a pairing heap.

Each step of `meld` and `combine_siblings` rewrites links of the nodes it is given and of
the first nodes of their rows, so what the other links spell out stays.
-/

import Bun.Foundation.PairingTree
import Bun.Io.IntrusiveHeap

set_option autoImplicit false

namespace Bun.Io

open Bun.Foundation

namespace Links

variable {T : Type}

/-- The links spell out the row, whose first node points back to `prev`. -/
def Linked (links : Links T) : Option T → PairingTree T → Prop
  | _, .empty => True
  | prev, .node item children siblings =>
      links item = { child := children.top?, prev := prev, next := siblings.top? } ∧
        Linked links (some item) children ∧ Linked links (some item) siblings

def Hangs (links : Links T) (heap : PairingHeap T) : Prop :=
  (links heap.root).child = heap.children.top? ∧ Linked links (some heap.root) heap.children

variable {links changed : Links T} {prev : Option T} {tree : PairingTree T}

theorem Linked.congr (linked : Linked links prev tree)
    (same : ∀ item ∈ tree.items, changed item = links item) : Linked changed prev tree := by
  induction tree generalizing prev with
  | empty => trivial
  | node item children siblings ihChildren ihSiblings =>
      obtain ⟨here, inChildren, inSiblings⟩ := linked
      refine ⟨(same item (by simp [PairingTree.items])).trans here, ihChildren inChildren ?_,
        ihSiblings inSiblings ?_⟩
      · intro other inRow
        exact same other (by simp [PairingTree.items, inRow])
      · intro other inRow
        exact same other (by simp [PairingTree.items, inRow])

theorem Hangs.congr {heap : PairingHeap T} (hangs : Hangs links heap)
    (same : ∀ item ∈ heap.items, changed item = links item) : Hangs changed heap := by
  refine ⟨?_, hangs.2.congr ?_⟩
  · rw [same heap.root List.mem_cons_self]
    exact hangs.1
  · intro item inRow
    exact same item (List.mem_cons_of_mem _ inRow)

theorem top?_ne {row : PairingTree T} {item : T} (absent : item ∉ row.items) :
    row.top? ≠ some item := by
  intro isTop
  exact absent (PairingTree.top?_mem isTop)

section Update

variable [DecidableEq T]

theorem Linked.repoint (linked : Linked links prev tree) (distinct : tree.items.Nodup)
    {other : Option T}
    (same : ∀ item ∈ tree.items, changed item =
      if tree.top? = some item then { links item with prev := other } else links item) :
    Linked changed other tree := by
  cases tree with
  | empty => trivial
  | node item children siblings =>
      obtain ⟨here, inChildren, inSiblings⟩ := linked
      simp only [PairingTree.items, List.nodup_cons, List.mem_append, not_or] at distinct
      obtain ⟨⟨notInChildren, notInSiblings⟩, _⟩ := distinct
      simp only [PairingTree.top?, Option.some_inj] at same
      refine ⟨?_, inChildren.congr ?_, inSiblings.congr ?_⟩
      · rw [same item (by simp [PairingTree.items]), if_pos rfl, here]
      · intro below inRow
        rw [same below (by simp [PairingTree.items, inRow]), if_neg]
        rintro rfl
        exact notInChildren inRow
      · intro after inRow
        rw [same after (by simp [PairingTree.items, inRow]), if_neg]
        rintro rfl
        exact notInSiblings inRow

/-! ### Melding -/

section Meld

variable {a b : T} {aChild aPrev bChild bNext : Option T}

theorem meldUnderFirst_apply (different : a ≠ b)
    (aLinks : links a = { child := aChild, prev := aPrev, next := none })
    (bChildLink : (links b).child = bChild) (bNextLink : (links b).next = bNext)
    (aChildApart : aChild ≠ some a ∧ aChild ≠ some b)
    (bNextApart : bNext ≠ some a ∧ bNext ≠ some b ∧ (aChild = none ∨ aChild ≠ bNext)) (x : T) :
    links.meldUnderFirst a b x =
      if x = a then { child := some b, prev := aPrev, next := bNext }
      else if x = b then { child := bChild, prev := some a, next := aChild }
      else if aChild = some x then { links x with prev := some b }
      else if bNext = some x then { links x with prev := some a }
      else links x := by
  subst bChildLink bNextLink
  cases atNext : (links b).next with
  | none =>
      cases aChild with
      | none =>
          simp [meldUnderFirst, setPrev, setChild, aLinks, atNext, different]
          grind [Function.update_apply]
      | some child =>
          simp [meldUnderFirst, setPrev, setNext, setChild, aLinks, atNext, different]
          grind [Function.update_apply]
  | some next =>
      rw [atNext] at bNextApart
      have notA : a ≠ next := fun same => bNextApart.1 (congrArg some same.symm)
      have notB : b ≠ next := fun same => bNextApart.2.1 (congrArg some same.symm)
      cases aChild with
      | none =>
          simp [meldUnderFirst, setPrev, setNext, setChild, aLinks, atNext, different, notA, notB]
          grind [Function.update_apply]
      | some child =>
          simp [meldUnderFirst, setPrev, setNext, setChild, aLinks, atNext, different, notA, notB]
          grind [Function.update_apply]

theorem meldUnderSecond_apply (different : a ≠ b)
    (aLinks : links a = { child := aChild, prev := aPrev, next := none })
    (bChildLink : (links b).child = bChild) (bNextLink : (links b).next = bNext)
    (bChildApart : bChild ≠ some a ∧ bChild ≠ some b) (x : T) :
    links.meldUnderSecond a b x =
      if x = b then { child := some a, prev := aPrev, next := bNext }
      else if x = a then { child := aChild, prev := some b, next := bChild }
      else if bChild = some x then { links x with prev := some a }
      else links x := by
  subst bNextLink
  cases bChild with
  | none =>
      simp [meldUnderSecond, setPrev, setChild, aLinks, bChildLink, different, different.symm]
      grind [Function.update_apply]
  | some child =>
      simp [meldUnderSecond, setPrev, setNext, setChild, aLinks, bChildLink, different,
        different.symm]
      grind [Function.update_apply]

end Meld

/-- The links spell out a heap with the given neighbours of its root. -/
structure Holds (links : Links T) (heap : PairingHeap T) (prev next : Option T) : Prop where
  root : links heap.root = { child := heap.children.top?, prev := prev, next := next }
  below : Linked links (some heap.root) heap.children

omit [DecidableEq T] in
theorem Holds.hangs {heap : PairingHeap T} {next : Option T}
    (holds : Holds links heap prev next) : Hangs links heap :=
  ⟨by rw [holds.root], holds.below⟩

/-- `meld` links two heaps and leaves the siblings of the second behind the winner. -/
theorem meld_spec (less : T → T → Bool) {left right : PairingHeap T} {rest : PairingTree T}
    (leftHolds : Holds links left prev none) (rightHangs : Hangs links right)
    (rightNext : (links right.root).next = rest.top?)
    (restLinked : Linked links (some right.root) rest)
    (distinct : (left.items ++ (right.items ++ rest.items)).Nodup) :
    ∃ melded, links.meld less left.root right.root =
        some (melded, (PairingHeap.link less left right).root) ∧
      Holds melded (PairingHeap.link less left right) prev rest.top? ∧
      Linked melded (some (PairingHeap.link less left right).root) rest ∧
      ∀ item, item ∉ left.items ++ (right.items ++ rest.items) → melded item = links item := by
  obtain ⟨a, aRow⟩ := left
  obtain ⟨b, bRow⟩ := right
  simp only [PairingHeap.items, List.cons_append, List.nodup_cons, List.mem_append,
    List.mem_cons, not_or, List.nodup_append] at distinct
  obtain ⟨⟨aRowNotA, aNotB, bRowNotA, restNotA⟩, aRowNodup, ⟨⟨bRowNotB, restNotB⟩, bRowNodup,
    restNodup, bRowRest⟩, aRowApart⟩ := distinct
  have aLinks : links a = { child := aRow.top?, prev := prev, next := none } := leftHolds.root
  have aRowNotB : b ∉ aRow.items := fun inRow => aRowApart b inRow b (Or.inl rfl) rfl
  have aRowNotRest : ∀ item ∈ aRow.items, item ∉ rest.items := fun item inRow inRest =>
    aRowApart item inRow item (Or.inr (Or.inr inRest)) rfl
  have aRowNotBRow : ∀ item ∈ aRow.items, item ∉ bRow.items := fun item inRow inOther =>
    aRowApart item inRow item (Or.inr (Or.inl inOther)) rfl
  have bRowNotRest : ∀ item ∈ bRow.items, item ∉ rest.items := fun item inRow inRest =>
    bRowRest item inRow item inRest rfl
  have cleared : (links a).next = none := by rw [aLinks]
  unfold meld PairingHeap.link
  rw [if_pos cleared]
  by_cases lesser : less a b = true
  · rw [if_pos lesser, if_pos lesser]
    have applied := meldUnderFirst_apply aNotB aLinks rightHangs.1 rightNext
      ⟨top?_ne aRowNotA, top?_ne aRowNotB⟩ ⟨top?_ne restNotA, top?_ne restNotB, by
        cases isTop : aRow.top? with
        | none => exact Or.inl rfl
        | some item =>
            refine Or.inr fun same => ?_
            exact aRowNotRest item (PairingTree.top?_mem isTop)
              (PairingTree.top?_mem same.symm)⟩
    refine ⟨_, rfl, ⟨?_, ?_, ?_, ?_⟩, ?_, ?_⟩
    · rw [applied, if_pos rfl]
      rfl
    · rw [applied, if_neg (Ne.symm aNotB), if_pos rfl]
    · refine rightHangs.2.congr ?_
      intro item inRow
      rw [applied, if_neg (by rintro rfl; exact bRowNotA inRow),
        if_neg (by rintro rfl; exact bRowNotB inRow),
        if_neg (top?_ne fun inOther => aRowNotBRow item inOther inRow),
        if_neg (top?_ne (bRowNotRest item inRow))]
    · refine leftHolds.below.repoint aRowNodup ?_
      intro item inRow
      rw [applied, if_neg (by rintro rfl; exact aRowNotA inRow),
        if_neg (by rintro rfl; exact aRowNotB inRow),
        if_neg (top?_ne (aRowNotRest item inRow))]
    · refine restLinked.repoint restNodup ?_
      intro item inRow
      rw [applied, if_neg (by rintro rfl; exact restNotA inRow),
        if_neg (by rintro rfl; exact restNotB inRow),
        if_neg (top?_ne fun inOther => aRowNotRest item inOther inRow)]
    · intro item outside
      simp only [PairingHeap.items, List.cons_append, List.mem_append, List.mem_cons, not_or]
        at outside
      rw [applied, if_neg outside.1, if_neg outside.2.2.1, if_neg (top?_ne outside.2.1),
        if_neg (top?_ne outside.2.2.2.2)]
  · rw [if_neg lesser, if_neg lesser]
    have applied := meldUnderSecond_apply aNotB aLinks rightHangs.1 rightNext
      ⟨top?_ne bRowNotA, top?_ne bRowNotB⟩
    refine ⟨_, rfl, ⟨?_, ?_, ?_, ?_⟩, ?_, ?_⟩
    · rw [applied, if_pos rfl]
      rfl
    · rw [applied, if_neg aNotB, if_pos rfl]
    · refine leftHolds.below.congr ?_
      intro item inRow
      rw [applied, if_neg (by rintro rfl; exact aRowNotB inRow),
        if_neg (by rintro rfl; exact aRowNotA inRow),
        if_neg (top?_ne (aRowNotBRow item inRow))]
    · refine rightHangs.2.repoint bRowNodup ?_
      intro item inRow
      rw [applied, if_neg (by rintro rfl; exact bRowNotB inRow),
        if_neg (by rintro rfl; exact bRowNotA inRow)]
    · refine restLinked.congr ?_
      intro item inRow
      rw [applied, if_neg (by rintro rfl; exact restNotB inRow),
        if_neg (by rintro rfl; exact restNotA inRow),
        if_neg (top?_ne fun inOther => bRowNotRest item inOther inRow)]
    · intro item outside
      simp only [PairingHeap.items, List.cons_append, List.mem_append, List.mem_cons, not_or]
        at outside
      rw [applied, if_neg outside.2.2.1, if_neg outside.1, if_neg (top?_ne outside.2.2.2.1)]

/-! ### Combining siblings -/

/-- The paired heaps, the last one first: each root points back to the one before.  Its
`next` may be stale, since the node it names may have lost its pair. -/
def Stacked (links : Links T) : List (PairingHeap T) → Prop
  | [] => True
  | heap :: others =>
      Hangs links heap ∧ (links heap.root).prev = others.head?.map PairingHeap.root ∧
        Stacked links others

omit [DecidableEq T] in
theorem Stacked.congr {heaps : List (PairingHeap T)} (stacked : Stacked links heaps)
    (same : ∀ item ∈ PairingHeap.itemsOf heaps, changed item = links item) :
    Stacked changed heaps := by
  induction heaps with
  | nil => trivial
  | cons heap others ih =>
      obtain ⟨hangs, back, below⟩ := stacked
      simp only [PairingHeap.itemsOf, List.flatMap_cons, List.mem_append] at same
      refine ⟨hangs.congr fun item inHeap => same item (Or.inl inHeap), ?_,
        ih below fun item inOthers => same item (Or.inr inOthers)⟩
      rw [same heap.root (Or.inl List.mem_cons_self)]
      exact back

theorem setNext_apply (links : Links T) (node : T) (next : Option T) (item : T) :
    links.setNext node next item =
      if item = node then { links node with next := next } else links item := by
  rw [setNext, Function.update_apply]

theorem setPrev_apply (links : Links T) (node : T) (prev : Option T) (item : T) :
    links.setPrev node prev item =
      if item = node then { links node with prev := prev } else links item := by
  rw [setPrev, Function.update_apply]

theorem Hangs.clearNext {heap : PairingHeap T} (hangs : Hangs links heap)
    (distinct : heap.items.Nodup) :
    Holds (links.setNext heap.root none) heap (links heap.root).prev none := by
  constructor
  · rw [setNext_apply, if_pos rfl]
    dsimp only
    rw [hangs.1]
  · refine hangs.2.congr ?_
    intro item inRow
    rw [setNext_apply, if_neg]
    rintro rfl
    exact (List.nodup_cons.mp distinct).1 inRow

/-- The first pass leaves the paired heaps stacked, and the last one without a `next`. -/
theorem mergeRight_spec (less : T → T → Bool) (done : List (PairingHeap T))
    (tree : PairingTree T) {fuel : Nat} (enough : tree.items.length ≤ fuel) {left : T}
    (isLeft : tree.top? = some left) (stacked : Stacked links done)
    (linked : Linked links (done.head?.map PairingHeap.root) tree)
    (distinct : (PairingHeap.itemsOf done ++ tree.items).Nodup) :
    ∃ merged last others, PairingHeap.pairUp less done tree = last :: others ∧
      mergeRight less fuel links left = some (merged, last.root) ∧
      Stacked merged (last :: others) ∧ (merged last.root).next = none ∧
      ∀ item, item ∉ PairingHeap.itemsOf done ++ tree.items → merged item = links item := by
  fun_induction PairingHeap.pairUp less done tree generalizing links fuel left with
  | case1 done => cases isLeft
  | case2 done item children =>
      obtain rfl : item = left := Option.some.inj isLeft
      obtain ⟨here, inChildren, _⟩ := linked
      cases fuel with
      | zero => simp [PairingTree.items] at enough
      | succ fuel =>
          refine ⟨links, ⟨item, children⟩, done, rfl, ?_, ⟨⟨?_, inChildren⟩, ?_, stacked⟩, ?_,
            fun _ _ => rfl⟩
          · simp [mergeRight, here, PairingTree.top?]
          · simp [here]
          · simp [here]
          · simp [here, PairingTree.top?]
  | case3 done a aRow b bRow rest ih =>
      obtain rfl : a = left := Option.some.inj isLeft
      obtain ⟨aHere, inARow, bHere, inBRow, inRest⟩ := linked
      cases fuel with
      | zero => simp [PairingTree.items] at enough
      | succ fuel =>
          have pairDistinct : ((PairingHeap.mk a aRow).items ++
              ((PairingHeap.mk b bRow).items ++ rest.items)).Nodup := by
            refine (List.nodup_append.mp distinct).2.1.perm ?_
            simp [PairingHeap.items, PairingTree.items]
          have apart : ∀ item ∈ PairingHeap.itemsOf done, item ∉ (PairingHeap.mk a aRow).items ++
              ((PairingHeap.mk b bRow).items ++ rest.items) := by
            intro item inDone inPair
            refine (List.nodup_append.mp distinct).2.2 item inDone item ?_ rfl
            simpa [PairingHeap.items, PairingTree.items] using inPair
          have clearedElsewhere : ∀ item, item ≠ a → links.setNext a none item = links item := by
            intro item notA
            rw [setNext_apply, if_neg notA]
          have notFirst : ∀ item ∈ (PairingHeap.mk b bRow).items ++ rest.items, item ≠ a := by
            rintro item inLater rfl
            exact (List.nodup_append.mp pairDistinct).2.2 item List.mem_cons_self item inLater rfl
          have aHangs : Hangs links ⟨a, aRow⟩ := ⟨by rw [aHere], inARow⟩
          have bHangs : Hangs links ⟨b, bRow⟩ := ⟨by rw [bHere], inBRow⟩
          have notB : b ≠ a := notFirst b (by simp [PairingHeap.items])
          obtain ⟨melded, melds, holds, restLinked, frame⟩ := meld_spec less
            (aHangs.clearNext (List.nodup_append.mp pairDistinct).1)
            (bHangs.congr fun item inB => clearedElsewhere item
              (notFirst item (List.mem_append_left _ inB)))
            (by rw [clearedElsewhere _ notB, bHere])
            (inRest.congr fun item inRow => clearedElsewhere item
              (notFirst item (List.mem_append_right _ inRow)))
            pairDistinct
          generalize winner : PairingHeap.link less ⟨a, aRow⟩ ⟨b, bRow⟩ = paired at *
          have framed : ∀ item, item ∉ (PairingHeap.mk a aRow).items ++
              ((PairingHeap.mk b bRow).items ++ rest.items) → melded item = links item := by
            intro item outside
            refine (frame item outside).trans (clearedElsewhere item ?_)
            rintro rfl
            exact outside (by simp [PairingHeap.items])
          have stackedPair : Stacked melded (paired :: done) := by
            refine ⟨holds.hangs, ?_, stacked.congr fun item inDone =>
              framed item (apart item inDone)⟩
            rw [holds.root, aHere]
          have reads : (links a).next = some b := by rw [aHere]; rfl
          cases rest with
          | empty =>
              refine ⟨melded, paired, done, rfl, ?_, stackedPair, ?_, ?_⟩
              · simp only [mergeRight, reads, melds, Option.bind_eq_bind, Option.bind_some,
                  holds.root, PairingTree.top?, Option.pure_def]
              · rw [holds.root]
                rfl
              · intro item outside
                refine framed item fun inPair => outside ?_
                simp [PairingHeap.items, PairingTree.items] at inPair ⊢
                tauto
          | node next nextRow others =>
              have shorter : (PairingTree.node next nextRow others).items.length ≤ fuel := by
                simp only [PairingTree.items, List.length_cons, List.length_append] at enough ⊢
                omega
              have sameItems : (PairingHeap.itemsOf (paired :: done)).Perm
                  ((PairingHeap.mk a aRow).items ++ (PairingHeap.mk b bRow).items ++
                    PairingHeap.itemsOf done) := by
                rw [← winner]
                exact (PairingHeap.items_link less _ _).append_right _
              have moved : (PairingHeap.itemsOf done ++ (PairingTree.node a aRow
                  (.node b bRow (.node next nextRow others))).items).Perm
                  (PairingHeap.itemsOf (paired :: done) ++
                    (PairingTree.node next nextRow others).items) := by
                refine List.Perm.trans ?_ (sameItems.append_right _).symm
                rw [List.append_assoc _ (PairingHeap.itemsOf done)]
                refine List.Perm.trans ?_ (List.perm_append_comm_assoc _ _ _)
                simp [PairingHeap.items, PairingTree.items]
              obtain ⟨merged, last, before, pairs, merges, stackedAll, ended, frameAll⟩ :=
                ih shorter rfl stackedPair restLinked (distinct.perm moved)
              refine ⟨merged, last, before, pairs, ?_, stackedAll, ended, ?_⟩
              · simp only [mergeRight, reads, melds, Option.bind_eq_bind, Option.bind_some,
                  holds.root, PairingTree.top?, Option.pure_def, merges]
              · intro item outside
                rw [frameAll item fun inNew => outside (moved.mem_iff.mpr inNew)]
                refine framed item fun inPair => outside (List.mem_append_right _ ?_)
                simpa [PairingHeap.items, PairingTree.items] using inPair

theorem mergeLeft_spec (less : T → T → Bool) {heap : PairingHeap T}
    {others : List (PairingHeap T)} {fuel : Nat} (enough : others.length < fuel)
    (stacked : Stacked links (heap :: others)) (ended : (links heap.root).next = none)
    (distinct : (PairingHeap.itemsOf (heap :: others)).Nodup) :
    ∃ merged, mergeLeft less fuel links heap.root =
        some (merged, (PairingHeap.collapse less heap others).root) ∧
      Holds merged (PairingHeap.collapse less heap others) none none ∧
      ∀ item, item ∉ PairingHeap.itemsOf (heap :: others) → merged item = links item := by
  induction others generalizing links heap fuel with
  | nil =>
      obtain ⟨hangs, back, _⟩ := stacked
      cases fuel with
      | zero => exact absurd enough (Nat.not_lt_zero _)
      | succ fuel =>
          have first : (links heap.root).prev = none := back
          refine ⟨links, ?_, ⟨?_, hangs.2⟩, fun _ _ => rfl⟩
          · simp only [mergeLeft, first, PairingHeap.collapse]
          · exact IntrusiveField.ext hangs.1 first ended
  | cons before others ih =>
      obtain ⟨hangs, back, beforeHangs, beforeBack, below⟩ := stacked
      cases fuel with
      | zero => exact absurd enough (Nat.not_lt_zero _)
      | succ fuel =>
          simp only [PairingHeap.itemsOf, List.flatMap_cons] at distinct
          have heapDistinct := (List.nodup_append.mp distinct).1
          have laterDistinct := (List.nodup_append.mp distinct).2.1
          have heapApart := (List.nodup_append.mp distinct).2.2
          have beforeDistinct := (List.nodup_append.mp laterDistinct).1
          have clearedElsewhere : ∀ item, item ≠ before.root →
              links.setNext before.root none item = links item := by
            intro item notBefore
            rw [setNext_apply, if_neg notBefore]
          have notBefore : ∀ item ∈ heap.items, item ≠ before.root := by
            rintro item inHeap rfl
            exact heapApart _ inHeap _ (List.mem_append_left _ List.mem_cons_self) rfl
          have rootHere : links.setNext before.root none heap.root = links heap.root :=
            clearedElsewhere _ (notBefore _ List.mem_cons_self)
          have pairDistinct : (before.items ++
              (heap.items ++ (PairingTree.empty : PairingTree T).items)).Nodup := by
            rw [PairingTree.items, List.append_nil]
            refine List.nodup_append.mpr ⟨beforeDistinct, heapDistinct, ?_⟩
            intro item inBefore other inHeap same
            exact heapApart other inHeap item (List.mem_append_left _ inBefore) same.symm
          have noRest : Linked (links.setNext before.root none) (some heap.root) .empty := trivial
          obtain ⟨melded, melds, holds, _, frame⟩ := meld_spec less
            (beforeHangs.clearNext beforeDistinct)
            (hangs.congr fun item inHeap => clearedElsewhere item (notBefore item inHeap))
            (by rw [rootHere, ended]; rfl) noRest pairDistinct
          rw [PairingTree.items, List.append_nil] at frame
          have framed : ∀ item, item ∉ before.items ++ heap.items →
              melded item = links item := by
            intro item outside
            refine (frame item outside).trans (clearedElsewhere item ?_)
            rintro rfl
            exact outside (List.mem_append_left _ List.mem_cons_self)
          have moved : (PairingHeap.itemsOf (heap :: before :: others)).Perm
              (PairingHeap.itemsOf (PairingHeap.link less before heap :: others)) := by
            refine List.Perm.trans ?_ ((PairingHeap.items_link less before heap).append_right _).symm
            simp only [PairingHeap.itemsOf, List.flatMap_cons, List.append_assoc]
            exact List.perm_append_comm_assoc _ _ _
          have stackedPair : Stacked melded (PairingHeap.link less before heap :: others) := by
            refine ⟨holds.hangs, ?_, below.congr fun item inOthers => framed item ?_⟩
            · rw [holds.root]
              exact beforeBack
            · intro inPair
              rcases List.mem_append.mp inPair with inBefore | inHeap
              · exact (List.nodup_append.mp laterDistinct).2.2 item inBefore item inOthers rfl
              · exact heapApart item inHeap item (List.mem_append_right _ inOthers) rfl
          obtain ⟨merged, merges, mergedHolds, frameAll⟩ := ih
            (Nat.lt_of_succ_lt_succ enough) stackedPair (by rw [holds.root]; rfl)
            ((moved.nodup_iff).mp distinct)
          refine ⟨merged, ?_, mergedHolds, ?_⟩
          · have reads : (links heap.root).prev = some before.root := back
            simp only [mergeLeft, reads, melds, Option.bind_eq_bind, Option.bind_some, merges,
              PairingHeap.collapse]
          · intro item outside
            rw [frameAll item fun inNew => outside (moved.mem_iff.mpr inNew)]
            refine framed item fun inPair => outside ?_
            simp only [PairingHeap.itemsOf, List.flatMap_cons, List.mem_append] at inPair ⊢
            tauto

/-- `combine_siblings` turns a row into one heap, whatever its first node pointed back to. -/
theorem combineSiblings_spec (less : T → T → Bool) {fuel : Nat}
    (enough : tree.items.length ≤ fuel) {left : T} (isLeft : tree.top? = some left)
    (linked : Linked links prev tree) (distinct : tree.items.Nodup) :
    ∃ combined heap, PairingHeap.combine less tree = some heap ∧
      links.combineSiblings less fuel left = some (combined, heap.root) ∧
      Holds combined heap none none ∧
      ∀ item, item ∉ tree.items → combined item = links item := by
  have detached : Linked (links.setPrev left none) none tree := by
    refine linked.repoint distinct ?_
    intro item _
    rw [setPrev_apply, isLeft]
    by_cases same : item = left
    · rw [if_pos same, if_pos (congrArg some same.symm), same]
    · rw [if_neg same, if_neg fun equal => same (Option.some.inj equal).symm]
  have leftIn := PairingTree.top?_mem isLeft
  obtain ⟨merged, last, others, pairs, merges, stacked, ended, frame⟩ :=
    mergeRight_spec less [] tree enough isLeft trivial detached (by simpa [PairingHeap.itemsOf])
  have sameItems := PairingHeap.pairUp_items less [] tree
  rw [pairs] at sameItems
  have short := PairingHeap.length_pairUp_le less [] tree
  rw [pairs, List.length_cons, List.length_nil] at short
  obtain ⟨final, finishes, holds, frameLeft⟩ := mergeLeft_spec less
    (show others.length < fuel by omega) stacked ended ((sameItems.nodup_iff).mpr (by simpa [PairingHeap.itemsOf]))
  refine ⟨final, PairingHeap.collapse less last others, by rw [PairingHeap.combine, pairs], ?_,
    holds, ?_⟩
  · simp only [combineSiblings, merges, Option.bind_eq_bind, Option.bind_some, finishes]
  · intro item outside
    rw [frameLeft item fun inPairs => outside (by
        simpa [PairingHeap.itemsOf] using sameItems.mem_iff.mp inPairs),
      frame item (by simpa [PairingHeap.itemsOf] using outside), setPrev_apply, if_neg]
    rintro rfl
    exact outside leftIn

end Update

end Links

end Bun.Io
