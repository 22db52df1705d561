/-
A search with a stack through a finite directed graph.

A node is marked when it is pushed.  Nodes that cannot lead to the goal need not be kept.
-/

import Mathlib.Logic.Relation
import Mathlib.Data.Finset.Card
import Mathlib.Data.Fintype.Card

set_option autoImplicit false

namespace Bun.Foundation

open Relation

variable {α : Type} [DecidableEq α]

/-- Marks and pushes the nodes that are kept and not marked yet. -/
def pushNew (keep : α → Bool) (seen : Finset α) (stack : List α) : List α → Finset α × List α
  | [] => (seen, stack)
  | node :: rest =>
      if keep node ∧ node ∉ seen then pushNew keep (insert node seen) (node :: stack) rest
      else pushNew keep seen stack rest

theorem pushNew_measure [Fintype α] (keep : α → Bool) (seen : Finset α) (stack nodes : List α) :
    (pushNew keep seen stack nodes).1ᶜ.card + (pushNew keep seen stack nodes).2.length =
      seenᶜ.card + stack.length := by
  fun_induction pushNew keep seen stack nodes with
  | case1 => rfl
  | case2 seen stack node rest isNew ih =>
      have fewer : (insert node seen)ᶜ.card + 1 = seenᶜ.card := by
        rw [Finset.compl_insert, Finset.card_erase_add_one (Finset.mem_compl.mpr isNew.2)]
      rw [ih, List.length_cons]
      omega
  | case3 seen stack node rest _ ih => exact ih

/-- Whether the goal comes behind a node of the stack. -/
def search [Fintype α] (next : α → List α) (keep : α → Bool) (goal : α) (seen : Finset α)
    (stack : List α) : Bool :=
  match stack with
  | [] => false
  | node :: rest =>
      if goal ∈ next node then true
      else
        search next keep goal (pushNew keep seen rest (next node)).1
          (pushNew keep seen rest (next node)).2
termination_by seenᶜ.card + stack.length
decreasing_by
  rw [pushNew_measure]
  exact Nat.lt_succ_self _

theorem mem_pushNew_seen (keep : α → Bool) (seen : Finset α) (stack nodes : List α) (node : α) :
    node ∈ (pushNew keep seen stack nodes).1 ↔
      node ∈ seen ∨ node ∈ nodes ∧ keep node = true := by
  fun_induction pushNew keep seen stack nodes with
  | case1 => simp
  | case2 seen stack first rest isNew ih =>
      rw [ih, Finset.mem_insert, List.mem_cons]
      grind
  | case3 seen stack first rest notNew ih =>
      rw [ih, List.mem_cons]
      grind

theorem mem_pushNew_stack (keep : α → Bool) (seen : Finset α) (stack nodes : List α) (node : α) :
    node ∈ (pushNew keep seen stack nodes).2 ↔
      node ∈ stack ∨ node ∈ (pushNew keep seen stack nodes).1 ∧ node ∉ seen := by
  fun_induction pushNew keep seen stack nodes with
  | case1 => simp
  | case2 seen stack first rest isNew ih =>
      have marked : first ∈ (pushNew keep (insert first seen) (first :: stack) rest).1 :=
        (mem_pushNew_seen keep _ _ _ _).mpr (Or.inl (Finset.mem_insert_self _ _))
      rw [ih, List.mem_cons, Finset.mem_insert]
      grind
  | case3 seen stack first rest _ ih => exact ih

variable [Fintype α]

theorem exists_of_search {next : α → List α} {keep : α → Bool} {goal : α} {seen : Finset α}
    {stack : List α} (found : search next keep goal seen stack = true) :
    ∃ node ∈ stack, TransGen (fun first second => second ∈ next first) node goal := by
  fun_induction search next keep goal seen stack with
  | case1 => cases found
  | case2 seen node rest isNext => exact ⟨node, List.mem_cons_self, TransGen.single isNext⟩
  | case3 seen node rest _ ih =>
      obtain ⟨start, member, path⟩ := ih found
      rw [mem_pushNew_stack, mem_pushNew_seen] at member
      rcases member with inRest | ⟨marked | ⟨isNext, -⟩, notSeen⟩
      · exact ⟨start, List.mem_cons_of_mem _ inRest, path⟩
      · exact absurd marked notSeen
      · exact ⟨node, List.mem_cons_self, TransGen.head isNext path⟩

theorem closed_of_search {next : α → List α} {keep : α → Bool} {goal : α} {seen : Finset α}
    {stack : List α} (notFound : search next keep goal seen stack = false)
    (finished : ∀ node ∈ seen, node ∉ stack →
      goal ∉ next node ∧ ∀ after ∈ next node, keep after = true → after ∈ seen) :
    ∃ marked : Finset α, seen ⊆ marked ∧ ∀ node ∈ marked,
      goal ∉ next node ∧ ∀ after ∈ next node, keep after = true → after ∈ marked := by
  fun_induction search next keep goal seen stack with
  | case1 seen =>
      exact ⟨seen, Finset.Subset.refl _, fun node member => finished node member (by simp)⟩
  | case2 => cases notFound
  | case3 seen node rest noGoal ih =>
      have grows : seen ⊆ (pushNew keep seen rest (next node)).1 := fun _ member =>
        (mem_pushNew_seen keep _ _ _ _).mpr (Or.inl member)
      have finishedNext : ∀ other ∈ (pushNew keep seen rest (next node)).1,
          other ∉ (pushNew keep seen rest (next node)).2 → goal ∉ next other ∧
            ∀ after ∈ next other, keep after = true →
              after ∈ (pushNew keep seen rest (next node)).1 := by
        intro other isSeen notStacked
        rw [mem_pushNew_stack, not_or] at notStacked
        have wasSeen : other ∈ seen := by
          by_contra isNew
          exact notStacked.2 ⟨isSeen, isNew⟩
        by_cases same : other = node
        · rw [same]
          exact ⟨noGoal, fun after isNext kept =>
            (mem_pushNew_seen keep _ _ _ _).mpr (Or.inr ⟨isNext, kept⟩)⟩
        · obtain ⟨noGoalThere, isClosed⟩ := finished other wasSeen (by
            rw [List.mem_cons, not_or]
            exact ⟨same, notStacked.1⟩)
          exact ⟨noGoalThere, fun after isNext kept => grows (isClosed after isNext kept)⟩
      obtain ⟨marked, isAbove, closed⟩ := ih notFound finishedNext
      exact ⟨marked, grows.trans isAbove, closed⟩

/-- The search finds the goal exactly when a path leads to it, if every node on such a path is
kept. -/
theorem search_iff {next : α → List α} {keep : α → Bool} {start goal : α} (other : start ≠ goal)
    (kept : ∀ node, node ≠ goal →
      ReflTransGen (fun first second => second ∈ next first) start node →
      ReflTransGen (fun first second => second ∈ next first) node goal → keep node = true) :
    search next keep goal {start} [start] = true ↔
      ReflTransGen (fun first second => second ∈ next first) start goal := by
  constructor
  · intro found
    obtain ⟨node, member, path⟩ := exists_of_search found
    rw [List.mem_singleton.mp member] at path
    exact path.to_reflTransGen
  · intro path
    by_contra notFound
    rw [Bool.not_eq_true] at notFound
    obtain ⟨marked, isAbove, closed⟩ := closed_of_search notFound (by simp)
    have leadsAway : ∀ node, ReflTransGen (fun first second => second ∈ next first) node goal →
        ReflTransGen (fun first second => second ∈ next first) start node →
        node ∈ marked → node ≠ goal → False := by
      intro node toGoal
      induction toGoal using ReflTransGen.head_induction_on with
      | refl => exact fun _ _ isOther => isOther rfl
      | @head before after isNext rest ih =>
          intro fromStart isMarked _
          obtain ⟨noGoal, isClosed⟩ := closed before isMarked
          have notGoal : after ≠ goal := fun same => noGoal (same ▸ isNext)
          have onPath := fromStart.tail isNext
          exact ih onPath (isClosed after isNext (kept after notGoal onPath rest)) notGoal
    exact leadsAway start path ReflTransGen.refl (isAbove (Finset.mem_singleton_self _)) other

end Bun.Foundation
