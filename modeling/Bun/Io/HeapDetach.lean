/-
Taking a node out of the links, and walking over all of them.
-/

import Bun.Io.HeapLinks

set_option autoImplicit false

namespace Bun.Io

open Bun.Foundation

namespace Links

variable {T : Type} [DecidableEq T] {links : Links T} {prev : Option T} {tree : PairingTree T}

/-! ### Detaching -/

theorem detach_apply (links : Links T) {v before : T} (notSelf : before ≠ v)
    (nextApart : (links v).next ≠ some v ∧ (links v).next ≠ some before) (x : T) :
    Intrusive.detach links v before x =
      if x = v then { child := (links v).child, prev := none, next := none }
      else if x = before then
        if (links before).child = some v then { links before with child := (links v).next }
        else { links before with next := (links v).next }
      else if (links v).next = some x then { links x with prev := some before }
      else links x := by
  cases atNext : (links v).next with
  | none =>
      by_cases parent : (links before).child = some v
      · simp [Intrusive.detach, setPrev, setNext, setChild, atNext, parent]
        grind [Function.update_apply]
      · simp [Intrusive.detach, setPrev, setNext, atNext, parent]
        grind [Function.update_apply]
  | some next =>
      rw [atNext] at nextApart
      have notV : v ≠ next := fun same => nextApart.1 (congrArg some same.symm)
      have notBefore : before ≠ next := fun same => nextApart.2 (congrArg some same.symm)
      by_cases parent : (links before).child = some v
      · simp [Intrusive.detach, setPrev, setNext, setChild, atNext, parent, notBefore]
        grind [Function.update_apply]
      · simp [Intrusive.detach, setPrev, setNext, atNext, parent, notBefore]
        grind [Function.update_apply]

theorem top?_cut {v : T} (notTop : tree.top? ≠ some v) : (tree.cut v).top? = tree.top? := by
  cases tree with
  | empty => rfl
  | node item children siblings =>
      rw [PairingTree.cut, if_neg fun same => notTop (congrArg some same)]
      rfl

/-- What `detach` does to a row in which some node is not the first one. -/
structure Detached (links : Links T) (v before : T) (prev : Option T)
    (tree : PairingTree T) : Prop where
  inside : before ∈ tree.items
  cut : Linked (Intrusive.detach links v before) prev (tree.cut v)
  below : Holds (Intrusive.detach links v before) ⟨v, tree.childrenOf v⟩ none none
  frame : ∀ item, item ∉ tree.items → Intrusive.detach links v before item = links item

/-- The node is the first child of `item`. -/
theorem detached_firstChild {item v : T} {vRow rest siblings : PairingTree T}
    (linked : Linked links prev (.node item (.node v vRow rest) siblings))
    (distinct : (PairingTree.node item (.node v vRow rest) siblings).items.Nodup) :
    Detached links v item prev (.node item (.node v vRow rest) siblings) := by
  obtain ⟨itemLinks, ⟨vLinks, inVRow, inRest⟩, inSiblings⟩ := linked
  simp only [PairingTree.items, List.cons_append, List.append_assoc, List.nodup_cons,
    List.mem_cons, List.mem_append, not_or, List.nodup_append] at distinct
  obtain ⟨⟨itemNotV, itemVRow, itemRest, itemSiblings⟩, ⟨vVRow, vRest, vSiblings⟩, _,
    ⟨restNodup, _, restApart⟩, vRowApart⟩ := distinct
  have parent : (links item).child = some v := by rw [itemLinks]; rfl
  have applied := detach_apply links itemNotV (by
    rw [vLinks]
    exact ⟨top?_ne vRest, top?_ne itemRest⟩)
  simp only [vLinks, if_pos parent] at applied
  refine ⟨by simp [PairingTree.items], ?_, ⟨?_, ?_⟩, ?_⟩
  · rw [PairingTree.cut, if_neg itemNotV, PairingTree.cut, if_pos rfl,
      PairingTree.cut_of_not_mem vSiblings]
    refine ⟨?_, inRest.repoint restNodup ?_, inSiblings.congr ?_⟩
    · rw [applied, if_neg itemNotV, if_pos rfl, itemLinks]
    · intro other inRow
      rw [applied, if_neg (by rintro rfl; exact vRest inRow),
        if_neg (by rintro rfl; exact itemRest inRow)]
    · intro other inRow
      rw [applied, if_neg (by rintro rfl; exact vSiblings inRow),
        if_neg (by rintro rfl; exact itemSiblings inRow),
        if_neg (top?_ne fun inRest => restApart other inRest other inRow rfl)]
  · rw [applied, if_pos rfl, PairingTree.childrenOf, if_neg itemNotV,
      if_pos (by simp [PairingTree.items]), PairingTree.childrenOf, if_pos rfl]
  · rw [PairingTree.childrenOf, if_neg itemNotV, if_pos (by simp [PairingTree.items]),
      PairingTree.childrenOf, if_pos rfl]
    refine inVRow.congr ?_
    intro other inRow
    rw [applied, if_neg (by rintro rfl; exact vVRow inRow),
      if_neg (by rintro rfl; exact itemVRow inRow),
      if_neg (top?_ne fun inRest => vRowApart other inRow other (Or.inl inRest) rfl)]
  · intro other outside
    simp only [PairingTree.items, List.cons_append, List.append_assoc, List.mem_cons,
      List.mem_append, not_or] at outside
    rw [applied, if_neg outside.2.1, if_neg outside.1, if_neg (top?_ne outside.2.2.2.1)]

/-- The node is the next sibling of `item`. -/
theorem detached_nextSibling {item v : T} {children vRow rest : PairingTree T}
    (linked : Linked links prev (.node item children (.node v vRow rest)))
    (distinct : (PairingTree.node item children (.node v vRow rest)).items.Nodup) :
    Detached links v item prev (.node item children (.node v vRow rest)) := by
  obtain ⟨itemLinks, inChildren, vLinks, inVRow, inRest⟩ := linked
  simp only [PairingTree.items, List.nodup_cons, List.mem_cons, List.mem_append, not_or,
    List.nodup_append] at distinct
  obtain ⟨⟨itemChildren, itemNotV, itemVRow, itemRest⟩, _, ⟨⟨vVRow, vRest⟩, _, restNodup,
    vRowApart⟩, childrenApart⟩ := distinct
  have vChildren : v ∉ children.items := fun inRow =>
    childrenApart v inRow v (Or.inl rfl) rfl
  have notParent : ¬ (links item).child = some v := by
    rw [itemLinks]
    exact top?_ne vChildren
  have applied := detach_apply links itemNotV (by
    rw [vLinks]
    exact ⟨top?_ne vRest, top?_ne itemRest⟩)
  simp only [vLinks, if_neg notParent] at applied
  refine ⟨by simp [PairingTree.items], ?_, ⟨?_, ?_⟩, ?_⟩
  · rw [PairingTree.cut, if_neg itemNotV, PairingTree.cut, if_pos rfl,
      PairingTree.cut_of_not_mem vChildren]
    refine ⟨?_, inChildren.congr ?_, inRest.repoint restNodup ?_⟩
    · rw [applied, if_neg itemNotV, if_pos rfl, itemLinks]
    · intro other inRow
      rw [applied, if_neg (by rintro rfl; exact vChildren inRow),
        if_neg (by rintro rfl; exact itemChildren inRow),
        if_neg (top?_ne fun inRest => childrenApart other inRow other
          (Or.inr (Or.inr inRest)) rfl)]
    · intro other inRow
      rw [applied, if_neg (by rintro rfl; exact vRest inRow),
        if_neg (by rintro rfl; exact itemRest inRow)]
  · rw [applied, if_pos rfl, PairingTree.childrenOf, if_neg itemNotV, if_neg vChildren,
      PairingTree.childrenOf, if_pos rfl]
  · rw [PairingTree.childrenOf, if_neg itemNotV, if_neg vChildren, PairingTree.childrenOf,
      if_pos rfl]
    refine inVRow.congr ?_
    intro other inRow
    rw [applied, if_neg (by rintro rfl; exact vVRow inRow),
      if_neg (by rintro rfl; exact itemVRow inRow),
      if_neg (top?_ne fun inRest => vRowApart other inRow other inRest rfl)]
  · intro other outside
    simp only [PairingTree.items, List.mem_cons, List.mem_append, not_or] at outside
    rw [applied, if_neg outside.2.2.1, if_neg outside.1, if_neg (top?_ne outside.2.2.2.2)]

/-- Every node but the first of a row has a previous node, and is detached from it. -/
theorem detach_spec {v : T} (linked : Linked links prev tree) (distinct : tree.items.Nodup)
    (present : v ∈ tree.items) (notTop : tree.top? ≠ some v) :
    ∃ before, (links v).prev = some before ∧ Detached links v before prev tree := by
  induction tree generalizing prev with
  | empty => exact absurd present List.not_mem_nil
  | node item children siblings ihChildren ihSiblings =>
      have itemNotV : item ≠ v := fun same => notTop (congrArg some same)
      obtain ⟨itemLinks, inChildren, inSiblings⟩ := linked
      have parts := distinct
      simp only [PairingTree.items, List.nodup_cons, List.mem_append, not_or,
        List.nodup_append] at parts
      obtain ⟨⟨itemChildren, itemSiblings⟩, childrenNodup, siblingsNodup, apart⟩ := parts
      simp only [PairingTree.items, List.mem_cons, List.mem_append] at present
      rcases present with same | below | beside
      · exact absurd same.symm itemNotV
      · have notBeside : v ∉ siblings.items := fun beside => apart v below v beside rfl
        by_cases first : children.top? = some v
        · cases children with
          | empty => cases first
          | node child vRow rest =>
              obtain rfl : child = v := Option.some.inj first
              exact ⟨item, by rw [inChildren.1], detached_firstChild
                ⟨itemLinks, inChildren, inSiblings⟩ distinct⟩
        · obtain ⟨before, back, detached⟩ := ihChildren inChildren childrenNodup below first
          refine ⟨before, back, ⟨by simp [PairingTree.items, detached.inside], ?_, ?_, ?_⟩⟩
          · rw [PairingTree.cut, if_neg itemNotV, PairingTree.cut_of_not_mem notBeside]
            refine ⟨?_, detached.cut, inSiblings.congr ?_⟩
            · rw [detached.frame item itemChildren, itemLinks, top?_cut first]
            · intro other inRow
              exact detached.frame other fun inOther => apart other inOther other inRow rfl
          · rw [PairingTree.childrenOf, if_neg itemNotV, if_pos below]
            exact detached.below
          · intro other outside
            simp only [PairingTree.items, List.mem_cons, List.mem_append, not_or] at outside
            exact detached.frame other outside.2.1
      · have notBelow : v ∉ children.items := fun below => apart v below v beside rfl
        by_cases first : siblings.top? = some v
        · cases siblings with
          | empty => cases first
          | node sibling vRow rest =>
              obtain rfl : sibling = v := Option.some.inj first
              exact ⟨item, by rw [inSiblings.1], detached_nextSibling
                ⟨itemLinks, inChildren, inSiblings⟩ distinct⟩
        · obtain ⟨before, back, detached⟩ := ihSiblings inSiblings siblingsNodup beside first
          refine ⟨before, back, ⟨by simp [PairingTree.items, detached.inside], ?_, ?_, ?_⟩⟩
          · rw [PairingTree.cut, if_neg itemNotV, PairingTree.cut_of_not_mem notBelow]
            refine ⟨?_, inChildren.congr ?_, detached.cut⟩
            · rw [detached.frame item itemSiblings, itemLinks, top?_cut first]
            · intro other inRow
              exact detached.frame other fun inOther => apart other inRow other inOther rfl
          · rw [PairingTree.childrenOf, if_neg itemNotV, if_neg notBelow]
            exact detached.below
          · intro other outside
            simp only [PairingTree.items, List.mem_cons, List.mem_append, not_or] at outside
            exact detached.frame other outside.2.2

/-! ### Walking -/

open Intrusive in
/-- From the first node of a row the walk visits the whole row and then climbs from that
node. -/
theorem walk_row {item : T} (linked : Linked links prev tree) (distinct : tree.items.Nodup)
    (isTop : tree.top? = some item) :
    ∃ steps, steps ≤ 4 * tree.items.length ∧ ∀ fuel,
      walk links (fuel + steps) (.visit item) =
        (walk links fuel (.climb item)).map (tree.items ++ ·) := by
  induction tree generalizing prev item with
  | empty => cases isTop
  | node first children siblings ihChildren ihSiblings =>
      obtain rfl : first = item := Option.some.inj isTop
      obtain ⟨here, inChildren, inSiblings⟩ := linked
      simp only [PairingTree.items, List.nodup_cons, List.mem_append, not_or,
        List.nodup_append] at distinct
      obtain ⟨_, childrenNodup, siblingsNodup, apart⟩ := distinct
      -- the children are visited, and the walk comes back to look sideways
      have down : ∃ steps, steps ≤ 4 * children.items.length + 2 ∧ ∀ fuel,
          walk links (fuel + steps) (.visit first) =
            (walk links fuel (.sideways first)).map (first :: children.items ++ ·) := by
        cases childTop : children.top? with
        | none =>
            obtain rfl := PairingTree.eq_empty_of_top? childTop
            refine ⟨1, by simp [PairingTree.items], fun fuel => ?_⟩
            simp only [walk, here, childTop]
            rfl
        | some child =>
            obtain ⟨steps, bound, walks⟩ := ihChildren inChildren childrenNodup childTop
            refine ⟨steps + 2, by omega, fun fuel => ?_⟩
            have back : (links child).prev = some first := by
              cases children with
              | empty => cases childTop
              | node other row rest =>
                  obtain rfl : other = child := Option.some.inj childTop
                  rw [inChildren.1]
            have isParent : (links first).child = some child := by rw [here, childTop]
            rw [show fuel + (steps + 2) = (fuel + 1 + steps) + 1 by omega]
            simp only [walk, isParent, walks, back, if_true, Option.map_map]
            rfl
      have across : ∃ steps, steps ≤ 4 * siblings.items.length + 2 ∧ ∀ fuel,
          walk links (fuel + steps) (.sideways first) =
            (walk links fuel (.climb first)).map (siblings.items ++ ·) := by
        cases nextTop : siblings.top? with
        | none =>
            obtain rfl := PairingTree.eq_empty_of_top? nextTop
            refine ⟨1, by simp [PairingTree.items], fun fuel => ?_⟩
            simp only [walk, here, nextTop, PairingTree.items, List.nil_append]
            cases walk links fuel (.climb first) <;> rfl
        | some next =>
            obtain ⟨steps, bound, walks⟩ := ihSiblings inSiblings siblingsNodup nextTop
            refine ⟨steps + 2, by omega, fun fuel => ?_⟩
            have back : (links next).prev = some first := by
              cases siblings with
              | empty => cases nextTop
              | node other row rest =>
                  obtain rfl : other = next := Option.some.inj nextTop
                  rw [inSiblings.1]
            have isNext : (links first).next = some next := by rw [here, nextTop]
            have notParent : ¬ (links first).child = some next := by
              rw [here]
              exact top?_ne fun inRow =>
                apart next inRow next (PairingTree.top?_mem nextTop) rfl
            rw [show fuel + (steps + 2) = (fuel + 1 + steps) + 1 by omega]
            simp only [walk, isNext, walks, back, if_neg notParent]
      obtain ⟨downSteps, downBound, walksDown⟩ := down
      obtain ⟨acrossSteps, acrossBound, walksAcross⟩ := across
      refine ⟨acrossSteps + downSteps, ?_, fun fuel => ?_⟩
      · simp only [PairingTree.items, List.length_cons, List.length_append]
        omega
      · rw [← Nat.add_assoc, walksDown, walksAcross, Option.map_map]
        congr 1
        funext visited
        simp [PairingTree.items]

end Links

end Bun.Io
