/-
What the search for immediate dominators returns.

From the level on at which every approximation is exact, a sweep leaves the dominators as they
are, so the loop ends.  When it ends earlier, the approximation it ends with has every level.
-/

import Bun.Bundler.DominatorSweeps
import Mathlib.Data.Fin.VecNotation

set_option autoImplicit false

namespace Bun.Bundler

open Bun.Foundation Relation

variable {n : ℕ} {successors predecessors : Fin n → List (Fin n)} {root : Fin n}
variable {found : Postorder n} {idom : Fin n → Option (Fin n)}

structure Settling (successors : Fin n → List (Fin n)) (root : Fin n) (found : Postorder n)
    (level : ℕ) (idom : Fin n → Option (Fin n)) : Prop where
  approximates : Approximated successors root found idom
  follows : Follows (IsEdge successors) root found.number idom fun _ => level
  known : 1 ≤ level → ∀ node, Reached (IsEdge successors) root node → (idom node).isSome = true

theorem initial_settling (successors : Fin n → List (Fin n)) (root : Fin n)
    (found : Postorder n) :
    Settling successors root found 0 (Function.update (fun _ => none) root (some root)) where
  approximates := by
    have isRoot {node upper : Fin n}
        (isUpper : Function.update (fun _ => none) root (some root) node = some upper) :
        node = root := by
      by_contra other
      rw [Function.update_of_ne other] at isUpper
      nomatch isUpper
    refine ⟨Function.update_self .., ?_, ?_, ?_, ?_⟩
    · intro node upper isUpper
      rw [isRoot isUpper]
      exact reached_root
    · intro node upper isUpper
      rw [isRoot isUpper, Function.update_self] at isUpper
      rw [← Option.some.inj isUpper, Function.update_self]
      rfl
    · exact fun node upper other isUpper => absurd (isRoot isUpper) other
    · exact fun node upper other isUpper => absurd (isRoot isUpper) other
  follows := fun _ _ _ few => absurd few (Nat.not_lt_zero _)
  known := fun isPositive => absurd isPositive (Nat.not_succ_le_zero 0)

theorem Settling.swept {level : ℕ} (numbering : Numbered successors root found)
    (settling : Settling successors root found level idom) {front : List (Fin n)}
    (isOrder : found.order = front ++ [root]) :
    Swept successors root found level front.length idom where
  approximates := settling.approximates
  follows := by
    intro node nodes walk few upper above
    by_cases visited : front.length ≤ found.number node
    · have isMember := (numbering.member_iff node).mpr ⟨nodes, walk⟩
      have isRoot : node = root := by
        rw [isOrder, List.mem_append, List.mem_singleton] at isMember
        rcases isMember with inFront | isRoot
        · unfold Postorder.number at visited
          rw [isOrder, List.idxOf_append_of_mem inFront] at visited
          exact absurd (List.idxOf_lt_length_of_mem inFront) (Nat.not_lt.mpr visited)
        · exact isRoot
      subst isRoot
      rw [settling.approximates.above_root above]
      exact walk.root_mem
    · dsimp only at few
      rw [if_neg visited] at few
      exact settling.follows node nodes walk few upper above
  known := by
    intro node isReached visited
    rcases visited with isPositive | atEnd
    · exact settling.known isPositive node isReached
    · have isMember := (numbering.member_iff node).mpr isReached
      rw [isOrder, List.mem_append, List.mem_singleton] at isMember
      rcases isMember with inFront | isRoot
      · unfold Postorder.number at atEnd
        rw [isOrder, List.idxOf_append_of_mem inFront] at atEnd
        exact absurd (List.idxOf_lt_length_of_mem inFront) (Nat.not_lt.mpr atEnd)
      · rw [isRoot, settling.approximates.atRoot]
        rfl

theorem Swept.settling {level : ℕ} (swept : Swept successors root found level 0 idom) :
    Settling successors root found (level + 1) idom where
  approximates := swept.approximates
  follows := by
    intro node nodes walk few
    refine swept.follows node nodes walk ?_
    dsimp only
    rw [if_pos (Nat.zero_le _)]
    exact few
  known := fun _ node isReached => swept.known node isReached (Or.inr (Nat.zero_le _))

theorem sweep_settling {level exactLevel : ℕ} (same : SameEdges successors predecessors root)
    (numbering : Numbered successors root found)
    (exactFrom : ExactFrom successors root found exactLevel) (positive : 1 ≤ exactLevel) {fuel : ℕ}
    (enough : 2 * (found.order.length + 1) < fuel)
    (settling : Settling successors root found level idom) :
    ∃ sweep, (found.order.reverse.drop 1).foldlM (visit found.postorder predecessors fuel)
        { idom := idom, changed := false } = some sweep ∧
      Settling successors root found (level + 1) sweep.idom ∧
      (sweep.changed = false → sweep.idom = idom) ∧
      (exactLevel ≤ level → sweep.changed = false) := by
  obtain ⟨front, isOrder⟩ := numbering.led.eq_append_root
  have skipped : found.order.reverse.drop 1 = front.reverse := by
    rw [isOrder, List.reverse_append, List.reverse_singleton, List.singleton_append]
    rfl
  obtain ⟨last, isLast, swept, unchanged, unmoved⟩ :=
    visits_swept same numbering exactFrom positive enough front [root] isOrder
      (List.mem_singleton_self _)
      (show Swept successors root found level front.length (Sweep.mk idom false).idom
        from settling.swept numbering isOrder)
  rw [skipped]
  refine ⟨last, isLast, swept.settling, fun isFalse => (unchanged isFalse).2, ?_⟩
  intro isExact
  rw [unmoved isExact]

theorem exact_of_unchanged {level exactLevel : ℕ} (same : SameEdges successors predecessors root)
    (numbering : Numbered successors root found)
    (exactFrom : ExactFrom successors root found exactLevel) (positive : 1 ≤ exactLevel) {fuel : ℕ}
    (enough : 2 * (found.order.length + 1) < fuel)
    (settling : Settling successors root found level idom) {sweep : Sweep n}
    (isSweep : (found.order.reverse.drop 1).foldlM (visit found.postorder predecessors fuel)
      { idom := idom, changed := false } = some sweep) (unchanged : sweep.idom = idom) :
    Exact (IsEdge successors) root idom := by
  have everyLevel : ∀ more, Settling successors root found (level + more) idom := by
    intro more
    induction more with
    | zero => exact settling
    | succ more ih =>
        obtain ⟨next, isNext, settlingNext, _⟩ :=
          sweep_settling same numbering exactFrom positive enough ih
        have sameSweep : next = sweep := Option.some.inj (isNext.symm.trans isSweep)
        rw [sameSweep, unchanged] at settlingNext
        exact settlingNext
  exact exactFrom idom _ (fun _ => Nat.le_add_left exactLevel level)
    (everyLevel exactLevel).follows

theorem settle_spec {exactLevel : ℕ} (same : SameEdges successors predecessors root)
    (numbering : Numbered successors root found)
    (exactFrom : ExactFrom successors root found exactLevel) (positive : 1 ≤ exactLevel) {fuel : ℕ}
    (enough : 2 * (found.order.length + 1) < fuel) {rounds level : ℕ} (notYet : level ≤ exactLevel)
    (enoughRounds : exactLevel + 1 ≤ level + rounds)
    (settling : Settling successors root found level idom) :
    ∃ last, settle found predecessors fuel rounds idom = some last ∧
      Approximated successors root found last ∧ Exact (IsEdge successors) root last ∧
      ∀ node, Reached (IsEdge successors) root node → (last node).isSome = true := by
  induction rounds generalizing level idom with
  | zero => omega
  | succ rounds ih =>
      obtain ⟨sweep, isSweep, next, unchanged, unmoved⟩ :=
        sweep_settling same numbering exactFrom positive enough settling
      unfold settle
      rw [isSweep]
      dsimp only
      cases isChanged : sweep.changed with
      | true =>
          rw [if_pos rfl]
          have below : level < exactLevel := by
            by_contra notBelow
            rw [unmoved (Nat.not_lt.mp notBelow)] at isChanged
            nomatch isChanged
          exact ih below (by omega) next
      | false =>
          rw [if_neg Bool.false_ne_true]
          have isSame := unchanged isChanged
          refine ⟨sweep.idom, rfl, next.approximates, ?_, next.known (Nat.succ_pos _)⟩
          rw [isSame]
          exact exact_of_unchanged same numbering exactFrom positive enough settling isSweep isSame

/-- The dominator tree of a graph, the root being its own parent. -/
structure IsDominatorTree (successors : Fin n → List (Fin n)) (root : Fin n)
    (idom : Fin n → Option (Fin n)) : Prop where
  atRoot : idom root = some root
  unreached : ∀ node, ¬ Reached (IsEdge successors) root node → idom node = none
  known : ∀ node, Reached (IsEdge successors) root node → (idom node).isSome = true
  immediate : ∀ node, node ≠ root → Reached (IsEdge successors) root node → ∀ dominator,
    idom node = some dominator ↔ ImmediateDominator (IsEdge successors) root dominator node

/-- The loops end, with the immediate dominator of every node but the root that the root leads
to, and the root for the root itself. -/
theorem immediateDominators_finds (successors predecessors : Fin n → List (Fin n)) (root : Fin n)
    (same : SameEdges successors predecessors root) :
    ∃ enough, ∀ fuel, enough ≤ fuel →
      ∃ idom, immediateDominators fuel successors root predecessors = some idom ∧
        IsDominatorTree successors root idom := by
  have numbering := search_numbered successors root
  unfold immediateDominators
  generalize Postorder.search successors (Postorder.initial root) = found at numbering
  obtain ⟨exactLevel, isExact⟩ :=
    exists_exact_level (IsEdge successors) root found.number
  have exactFrom : ExactFrom successors root found (exactLevel + 1) := by
    intro idom level isHigh
    exact isExact idom level fun node => Nat.le_of_succ_le (isHigh node)
  refine ⟨2 * (found.order.length + 1) + exactLevel + 2, ?_⟩
  intro fuel enough
  obtain ⟨last, isLast, approximates, exact, known⟩ :=
    settle_spec same numbering exactFrom (Nat.succ_pos _)
      (show 2 * (found.order.length + 1) < fuel by omega) (Nat.zero_le _)
      (show exactLevel + 1 + 1 ≤ 0 + fuel by omega) (initial_settling successors root found)
  refine ⟨last, isLast, approximates.atRoot, ?_, known, ?_⟩
  · intro node notReached
    cases isUpper : last node with
    | none => rfl
    | some upper => exact absurd (approximates.reached node upper isUpper) notReached
  · intro node notRoot isReached dominator
    constructor
    · exact fun isUpper => approximates.immediate exact notRoot isUpper
    · intro isImmediate
      obtain ⟨upper, isUpper⟩ := Option.isSome_iff_exists.mp (known node isReached)
      have sameUpper : upper = dominator :=
        ImmediateDominator.unique isReached (approximates.immediate exact notRoot isUpper)
          isImmediate
      rw [isUpper, sameUpper]

/-- A loop of three nodes that the root enters at two places; the last node is never reached. -/
theorem immediateDominators_finds_irreducible :
    ∃ enough, ∀ fuel, enough ≤ fuel →
      ∃ idom, immediateDominators fuel ![[1, 2], [3], [3], [1, 2], [3]] (0 : Fin 5)
          ![[], [0, 3], [0, 3], [1, 2, 4], []] = some idom ∧
        IsDominatorTree ![[1, 2], [3], [3], [1, 2], [3]] 0 idom :=
  immediateDominators_finds ![[1, 2], [3], [3], [1, 2], [3]] ![[], [0, 3], [0, 3], [1, 2, 4], []]
    (0 : Fin 5) (by unfold SameEdges; decide)

/-- The root has no strict dominator, and still gets itself. -/
theorem immediateDominators_root :
    SameEdges (fun _ => []) (fun _ => []) (0 : Fin 1) ∧
      (immediateDominators 3 (fun _ => []) (0 : Fin 1) fun _ => []).map (fun idom => idom 0) =
        some (some 0) ∧
      Reached (IsEdge fun _ => []) (0 : Fin 1) 0 ∧
      ∀ dominator, ¬ ImmediateDominator (IsEdge fun _ => []) (0 : Fin 1) dominator 0 := by
  refine ⟨?_, by decide +kernel, reached_root, ?_⟩
  · intro before node
    exact fun notRoot => absurd (Subsingleton.elim node 0) notRoot
  · intro dominator immediate
    exact immediate.strict immediate.dominates.eq_root

end Bun.Bundler
