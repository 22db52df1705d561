/-
Approximating immediate dominators.

Nodes are numbered so that every node but the root has one with a higher number in front of
it.  An approximation gives every node one with a higher number that each of its strict
dominators dominates.  Where two chains of such nodes meet, each node that dominates both ends
dominates the meeting point.

How good an approximation is can be told by walks that go against the numbering a bounded
number of times: a chain of a level passes only nodes of every walk with fewer such steps.
Taking the meeting point of the chains in front of a node raises its level.  At a high enough
level the chains are the dominators.
-/

import Bun.Foundation.Dominators
import Mathlib.Logic.Relation
import Mathlib.Logic.Function.Basic
import Mathlib.Data.Finite.Prod
import Mathlib.Data.Set.Finite.Lattice

set_option autoImplicit false

namespace Bun.Foundation

open Relation

variable {ν : Type} {edge : ν → ν → Prop} {root : ν} {number : ν → ℕ} {parent : ν → Option ν}

/-- `upper` is on the chain of parents that starts at a node. -/
def Above (parent : ν → Option ν) (node upper : ν) : Prop :=
  ReflTransGen (fun a b => parent a = some b) node upper

/-- A partial approximation of the immediate dominators; the root is its own parent. -/
structure Approximates (edge : ν → ν → Prop) (root : ν) (number : ν → ℕ)
    (parent : ν → Option ν) : Prop where
  atRoot : parent root = some root
  reached : ∀ node upper, parent node = some upper → Reached edge root node
  defined : ∀ node upper, parent node = some upper → (parent upper).isSome = true
  climbs : ∀ node upper, node ≠ root → parent node = some upper → number node < number upper
  keeps : ∀ node upper, node ≠ root → parent node = some upper → ∀ other, other ≠ node →
    Dominates edge root other node → Dominates edge root other upper

namespace Approximates

theorem number_le (approximates : Approximates edge root number parent) {top : ℕ}
    (bounded : ∀ node, number node < top) {node other : ν} (isSome : (parent node).isSome = true)
    (dominates : Dominates edge root other node) : number node ≤ number other := by
  induction isLeft : top - number node using Nat.strongRecOn generalizing node with
  | ind left ih =>
      by_cases same : other = node
      · exact Nat.le_of_eq (congrArg number same.symm)
      · by_cases isRoot : node = root
        · rw [isRoot] at dominates same
          exact absurd dominates.eq_root same
        · obtain ⟨upper, isUpper⟩ := Option.isSome_iff_exists.mp isSome
          have climbs := approximates.climbs node upper isRoot isUpper
          have := bounded node
          have := bounded upper
          have later := ih (top - number upper) (by omega)
            (approximates.defined node upper isUpper)
            (approximates.keeps node upper isRoot isUpper other same dominates) rfl
          omega

theorem above_number_le (approximates : Approximates edge root number parent) {node upper : ν}
    (above : Above parent node upper) : number node ≤ number upper := by
  induction above with
  | refl => exact Nat.le_refl _
  | tail front isParent ih =>
      rename_i middle last
      by_cases isRoot : middle = root
      · subst isRoot
        rw [approximates.atRoot] at isParent
        obtain rfl := Option.some.inj isParent
        exact ih
      · have := approximates.climbs middle last isRoot isParent
        omega

theorem above_root (approximates : Approximates edge root number parent) {upper : ν}
    (above : Above parent root upper) : upper = root := by
  induction above with
  | refl => rfl
  | tail front isParent ih =>
      rw [ih, approximates.atRoot] at isParent
      exact (Option.some.inj isParent).symm

theorem above_defined (approximates : Approximates edge root number parent) {node upper : ν}
    (isSome : (parent node).isSome = true) (above : Above parent node upper) :
    (parent upper).isSome = true := by
  induction above with
  | refl => exact isSome
  | tail front isParent _ => exact approximates.defined _ _ isParent

end Approximates

/-! ### Where chains meet -/

/-- A node where two chains meet, as low as their common dominators allow. -/
structure Meets (edge : ν → ν → Prop) (root : ν) (parent : ν → Option ν) (a b c : ν) : Prop where
  aboveFirst : Above parent a c
  aboveSecond : Above parent b c
  dominated : ∀ other, Dominates edge root other a → Dominates edge root other b →
    Dominates edge root other c

theorem Meets.self (a : ν) : Meets edge root parent a a a :=
  ⟨ReflTransGen.refl, ReflTransGen.refl, fun _ isDominator _ => isDominator⟩

theorem Meets.symm {a b c : ν} (meets : Meets edge root parent a b c) :
    Meets edge root parent b a c :=
  ⟨meets.aboveSecond, meets.aboveFirst, fun other ofB ofA => meets.dominated other ofA ofB⟩

theorem Meets.step (approximates : Approximates edge root number parent) {top : ℕ}
    (bounded : ∀ node, number node < top) {a b c upper : ν} (isSome : (parent b).isSome = true)
    (lower : number a < number b) (isUpper : parent a = some upper)
    (meets : Meets edge root parent upper b c) : Meets edge root parent a b c := by
  refine ⟨ReflTransGen.head isUpper meets.aboveFirst, meets.aboveSecond, ?_⟩
  intro other ofA ofB
  have numberLe := approximates.number_le bounded isSome ofB
  have notSame : other ≠ a := by
    rintro rfl
    omega
  have notRoot : a ≠ root := by
    rintro rfl
    have := approximates.number_le bounded isSome (Dominates.of_root b)
    omega
  exact meets.dominated other (approximates.keeps a upper notRoot isUpper other notSame ofA) ofB

/-! ### Levels -/

/-- How often a walk goes to a node that has no lower number. -/
def retreats (number : ν → ℕ) : List ν → ℕ
  | node :: before :: rest =>
      retreats number (before :: rest) + if number node < number before then 0 else 1
  | [_] => 0
  | [] => 0

theorem retreats_cons (node before : ν) (rest : List ν) :
    retreats number (node :: before :: rest) =
      retreats number (before :: rest) + if number node < number before then 0 else 1 :=
  rfl

theorem retreats_suffix {front nodes : List ν} (isSuffix : front <:+ nodes) :
    retreats number front ≤ retreats number nodes := by
  obtain ⟨later, rfl⟩ := isSuffix
  induction later with
  | nil => exact Nat.le_refl _
  | cons node later ih =>
      rw [List.cons_append]
      cases isRest : later ++ front with
      | nil =>
          obtain ⟨_, rfl⟩ := List.append_eq_nil_iff.mp isRest
          exact Nat.le_refl _
      | cons before rest =>
          rw [isRest] at ih
          rw [retreats_cons]
          omega

/-- The chain of a node passes only nodes of every walk to it that retreats less often than
the node's level says. -/
def Follows (edge : ν → ν → Prop) (root : ν) (number : ν → ℕ) (parent : ν → Option ν)
    (level : ν → ℕ) : Prop :=
  ∀ node nodes, Walk edge root nodes node → retreats number nodes < level node →
    ∀ upper, Above parent node upper → upper ∈ nodes

section Update

variable [DecidableEq ν]

theorem above_update {node upper start last : ν}
    (above : Above (Function.update parent node (some upper)) start last) :
    Above parent start last ∨ Above parent start node ∧ Above parent upper last := by
  induction above using ReflTransGen.head_induction_on with
  | refl => exact Or.inl ReflTransGen.refl
  | head isParent rest ih =>
      rename_i first next
      by_cases isNode : first = node
      · subst isNode
        rw [Function.update_self] at isParent
        obtain rfl := Option.some.inj isParent
        rcases ih with above | ⟨_, above⟩
        · exact Or.inr ⟨ReflTransGen.refl, above⟩
        · exact Or.inr ⟨ReflTransGen.refl, above⟩
      · rw [Function.update_of_ne isNode] at isParent
        rcases ih with above | ⟨toNode, above⟩
        · exact Or.inl (ReflTransGen.head isParent above)
        · exact Or.inr ⟨ReflTransGen.head isParent toNode, above⟩

theorem above_update_self {node upper last : ν}
    (above : Above (Function.update parent node (some upper)) node last) :
    last = node ∨ Above parent upper last := by
  rcases ReflTransGen.cases_head above with same | ⟨next, isParent, rest⟩
  · exact Or.inl same.symm
  · rw [Function.update_self] at isParent
    obtain rfl := Option.some.inj isParent
    rcases above_update rest with above | ⟨_, above⟩
    · exact Or.inr above
    · exact Or.inr above

/-- A node that is given the meeting point of the chains in front of it gets the next level. -/
theorem Follows.update {level : ν → ℕ} {node upper : ν} {next : ℕ}
    (follows : Follows edge root number parent level) (notRoot : node ≠ root)
    (atMost : ∀ other, level other ≤ next)
    (inFront : ∀ before, edge before node → Reached edge root before →
      (∀ last, Above parent upper last → Above parent before last) ∨ next = 1 ∧
        ¬ number node < number before)
    (levels : ∀ before, edge before node → Reached edge root before →
      next ≤ level before + if number node < number before then 0 else 1) :
    Follows edge root number (Function.update parent node (some upper))
      (Function.update level node next) := by
  -- Every walk to the node with few retreats passes what is above its new parent.
  have passes (nodes : List ν) (walk : Walk edge root nodes node)
      (few : retreats number nodes < next) :
      ∀ last, Above parent upper last → last ∈ nodes := by
    intro last above
    cases walk with
    | start => exact absurd rfl notRoot
    | @step nodes before node front isEdge =>
        have isReached : Reached edge root before := ⟨nodes, front⟩
        have levelBefore := levels before isEdge isReached
        obtain ⟨tail, isNodes⟩ : ∃ tail, nodes = before :: tail := by
          cases front with
          | start => exact ⟨[], rfl⟩
          | step front isEdge => exact ⟨_, rfl⟩
        subst isNodes
        rw [retreats_cons] at few
        rcases inFront before isEdge isReached with covers | ⟨isOne, retreat⟩
        · exact List.mem_cons_of_mem _ (follows before _ front (by omega) last (covers last above))
        · rw [if_neg retreat] at few
          omega
  intro start nodes walk few last above
  by_cases isNode : start = node
  · subst isNode
    rw [Function.update_self] at few
    rcases above_update_self above with rfl | above
    · exact walk.last_mem
    · exact passes nodes walk few last above
  · rw [Function.update_of_ne isNode] at few
    rcases above_update above with above | ⟨toNode, above⟩
    · exact follows start nodes walk few last above
    · have isPassed := follows start nodes walk few node toNode
      obtain ⟨front, isWalk, isSuffix⟩ := walk.upTo isPassed
      have fewer : retreats number front ≤ retreats number nodes := retreats_suffix isSuffix
      have := atMost start
      exact isSuffix.subset (passes front isWalk (by omega) last above)

end Update

def Exact (edge : ν → ν → Prop) (root : ν) (parent : ν → Option ν) : Prop :=
  ∀ node upper, Above parent node upper → Dominates edge root upper node

/-- Above a level that depends on the graph alone, chains pass only dominators. -/
theorem exists_exact_level [Finite ν] (edge : ν → ν → Prop) (root : ν) (number : ν → ℕ) :
    ∃ enough, ∀ parent, ∀ level : ν → ℕ, (∀ node, enough ≤ level node) →
      Follows edge root number parent level → Exact edge root parent := by
  have witness (pair : ν × ν) : ∃ bound, ¬ Dominates edge root pair.1 pair.2 →
      ∃ nodes, Walk edge root nodes pair.2 ∧ pair.1 ∉ nodes ∧ retreats number nodes < bound := by
    by_cases dominates : Dominates edge root pair.1 pair.2
    · exact ⟨0, fun not => absurd dominates not⟩
    · unfold Dominates at dominates
      push Not at dominates
      obtain ⟨nodes, walk, avoids⟩ := dominates
      exact ⟨retreats number nodes + 1, fun _ => ⟨nodes, walk, avoids, Nat.lt_succ_self _⟩⟩
  choose bound isBound using witness
  obtain ⟨enough, isEnough⟩ := (Set.finite_range bound).bddAbove
  refine ⟨enough, ?_⟩
  intro parent level high follows node upper above
  by_contra notDominates
  obtain ⟨nodes, walk, avoids, few⟩ := isBound (upper, node) notDominates
  have le : bound (upper, node) ≤ enough := isEnough (Set.mem_range_self _)
  have := high node
  exact avoids (follows node nodes walk (by omega) upper above)

theorem Approximates.immediate (approximates : Approximates edge root number parent)
    (exact : Exact edge root parent) {node upper : ν} (notRoot : node ≠ root)
    (isUpper : parent node = some upper) : ImmediateDominator edge root upper node where
  strict := by
    rintro rfl
    exact absurd (approximates.climbs upper upper notRoot isUpper) (Nat.lt_irrefl _)
  dominates := exact node upper (ReflTransGen.single isUpper)
  closest := approximates.keeps node upper notRoot isUpper

/-- Two exact approximations that give a node something give it the same. -/
theorem Approximates.same_of_exact {other : ν → Option ν} {top : ℕ}
    (first : Approximates edge root number parent) (second : Approximates edge root number other)
    (bounded : ∀ node, number node < top)
    (injective : ∀ a b, Reached edge root a → Reached edge root b → number a = number b → a = b)
    (firstExact : Exact edge root parent) (secondExact : Exact edge root other) {node a b : ν}
    (notRoot : node ≠ root) (isFirst : parent node = some a) (isSecond : other node = some b) :
    a = b := by
  have ofFirst := first.immediate firstExact notRoot isFirst
  have ofSecond := second.immediate secondExact notRoot isSecond
  have firstDefined := first.defined node a isFirst
  have secondDefined := second.defined node b isSecond
  obtain ⟨_, isA⟩ := Option.isSome_iff_exists.mp firstDefined
  obtain ⟨_, isB⟩ := Option.isSome_iff_exists.mp secondDefined
  have le := first.number_le bounded firstDefined
    (ofFirst.closest b ofSecond.strict ofSecond.dominates)
  have ge := second.number_le bounded secondDefined
    (ofSecond.closest a ofFirst.strict ofFirst.dominates)
  exact injective a b (first.reached a _ isA) (second.reached b _ isB) (Nat.le_antisymm le ge)

end Bun.Foundation
