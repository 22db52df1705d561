/-
Dominators of a graph with a root.

A node dominates another one if every walk from the root to the second passes the first.  The
immediate dominator of a node is the one closest to it among those that are not the node.
-/

import Mathlib.Data.Nat.Notation
import Mathlib.Data.List.Basic
import Mathlib.Data.Finset.Card
import Mathlib.Data.Fintype.Card

set_option autoImplicit false

namespace Bun.Foundation

variable {ν : Type} {edge : ν → ν → Prop} {root : ν}

inductive Walk (edge : ν → ν → Prop) (root : ν) : List ν → ν → Prop
  | start : Walk edge root [root] root
  | step {nodes : List ν} {before node : ν} (front : Walk edge root nodes before)
      (isEdge : edge before node) : Walk edge root (node :: nodes) node

def Reached (edge : ν → ν → Prop) (root node : ν) : Prop :=
  ∃ nodes, Walk edge root nodes node

def Dominates (edge : ν → ν → Prop) (root dominator node : ν) : Prop :=
  ∀ nodes, Walk edge root nodes node → dominator ∈ nodes

structure ImmediateDominator (edge : ν → ν → Prop) (root dominator node : ν) : Prop where
  strict : dominator ≠ node
  dominates : Dominates edge root dominator node
  closest : ∀ other, other ≠ node → Dominates edge root other node →
    Dominates edge root other dominator

namespace Walk

theorem last_mem {nodes : List ν} {node : ν} (walk : Walk edge root nodes node) : node ∈ nodes := by
  cases walk with
  | start => exact List.mem_singleton_self _
  | step front isEdge => exact List.mem_cons_self

theorem root_mem {nodes : List ν} {node : ν} (walk : Walk edge root nodes node) : root ∈ nodes := by
  induction walk with
  | start => exact List.mem_singleton_self _
  | step front isEdge ih => exact List.mem_cons_of_mem _ ih

theorem unique {nodes : List ν} {first second : ν} (isFirst : Walk edge root nodes first)
    (isSecond : Walk edge root nodes second) : first = second := by
  cases isFirst with
  | start =>
      cases isSecond with
      | start => rfl
      | step front isEdge => rfl
  | step front isEdge =>
      cases isSecond with
      | start => rfl
      | step front isEdge => rfl

theorem upTo {nodes : List ν} {node passed : ν} (walk : Walk edge root nodes node)
    (isPassed : passed ∈ nodes) : ∃ front, Walk edge root front passed ∧ front <:+ nodes := by
  induction walk with
  | start =>
      obtain rfl := List.mem_singleton.mp isPassed
      exact ⟨_, Walk.start, List.suffix_refl _⟩
  | @step nodes before node front isEdge ih =>
      rcases List.mem_cons.mp isPassed with rfl | isBefore
      · exact ⟨_, Walk.step front isEdge, List.suffix_refl _⟩
      · obtain ⟨part, isWalk, isSuffix⟩ := ih isBefore
        exact ⟨part, isWalk, isSuffix.trans (List.suffix_cons _ _)⟩

theorem passed_reached {nodes : List ν} {node passed : ν} (walk : Walk edge root nodes node)
    (isPassed : passed ∈ nodes) : Reached edge root passed := by
  obtain ⟨front, isWalk, _⟩ := walk.upTo isPassed
  exact ⟨front, isWalk⟩

end Walk

theorem reached_root : Reached edge root root :=
  ⟨[root], Walk.start⟩

theorem Reached.step {before node : ν} (reached : Reached edge root before)
    (isEdge : edge before node) : Reached edge root node := by
  obtain ⟨nodes, walk⟩ := reached
  exact ⟨node :: nodes, walk.step isEdge⟩

namespace Dominates

theorem refl (node : ν) : Dominates edge root node node :=
  fun _ walk => walk.last_mem

theorem of_root (node : ν) : Dominates edge root root node :=
  fun _ walk => walk.root_mem

theorem trans {first second node : ν} (isFirst : Dominates edge root first second)
    (isSecond : Dominates edge root second node) : Dominates edge root first node := by
  intro nodes walk
  obtain ⟨front, toSecond, isSuffix⟩ := walk.upTo (isSecond nodes walk)
  exact isSuffix.subset (isFirst front toSecond)

theorem eq_root {dominator : ν} (dominates : Dominates edge root dominator root) :
    dominator = root :=
  List.mem_singleton.mp (dominates [root] Walk.start)

theorem before {dominator before node : ν} (dominates : Dominates edge root dominator node)
    (strict : dominator ≠ node) (isEdge : edge before node) :
    Dominates edge root dominator before := by
  intro nodes walk
  rcases List.mem_cons.mp (dominates (node :: nodes) (walk.step isEdge)) with same | isBefore
  · exact absurd same strict
  · exact isBefore

/-- Of two nodes that dominate each other, a shortest walk to one has to pass the other last. -/
theorem antisymm {first second : ν} (isFirst : Dominates edge root first second)
    (isSecond : Dominates edge root second first) (reached : Reached edge root second) :
    first = second := by
  obtain ⟨nodes, walk⟩ := reached
  induction isLength : nodes.length using Nat.strongRecOn generalizing nodes with
  | ind length ih =>
      obtain ⟨front, toFirst, isSuffix⟩ := walk.upTo (isFirst nodes walk)
      obtain ⟨shorter, toSecond, isFront⟩ := toFirst.upTo (isSecond front toFirst)
      have frontLe := isSuffix.length_le
      have shorterLe := isFront.length_le
      rcases Nat.lt_or_ge shorter.length length with less | atLeast
      · exact ih shorter.length less shorter toSecond rfl
      · have same : shorter = front := isFront.eq_of_length (by omega)
        rw [same] at toSecond
        exact toFirst.unique toSecond

end Dominates

theorem ImmediateDominator.unique {first second node : ν} (reached : Reached edge root node)
    (isFirst : ImmediateDominator edge root first node)
    (isSecond : ImmediateDominator edge root second node) : first = second := by
  obtain ⟨nodes, walk⟩ := reached
  have isReached := walk.passed_reached (isSecond.dominates nodes walk)
  exact (isSecond.closest first isFirst.strict isFirst.dominates).antisymm
    (isFirst.closest second isSecond.strict isSecond.dominates) isReached

/-! ### Counting dominators -/

open Classical in
noncomputable def dominators [Fintype ν] (edge : ν → ν → Prop) (root node : ν) : Finset ν :=
  Finset.univ.filter fun dominator => Dominates edge root dominator node

theorem ImmediateDominator.card_lt [Fintype ν] {dominator node : ν}
    (reached : Reached edge root node) (immediate : ImmediateDominator edge root dominator node) :
    (dominators edge root dominator).card < (dominators edge root node).card := by
  classical
  apply Finset.card_lt_card
  refine (Finset.ssubset_iff_of_subset ?_).mpr ⟨node, ?_, ?_⟩
  · intro other member
    have dominates := (Finset.mem_filter.mp member).2
    exact Finset.mem_filter.mpr ⟨Finset.mem_univ _, dominates.trans immediate.dominates⟩
  · exact Finset.mem_filter.mpr ⟨Finset.mem_univ _, Dominates.refl node⟩
  · intro member
    have dominates := (Finset.mem_filter.mp member).2
    exact immediate.strict (immediate.dominates.antisymm dominates reached)

end Bun.Foundation
