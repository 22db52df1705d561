/-
One node of a directed graph is contracted into another.

The edges of the first become edges of the second.  No cycle arises when neither node leads to
the other except by an edge.
-/

import Mathlib.Logic.Relation
import Mathlib.Data.Nat.Notation

set_option autoImplicit false

namespace Bun.Foundation

open Relation

variable {α : Type}

def IsAcyclic (edge : α → α → Prop) : Prop :=
  ∀ node, ¬ TransGen edge node node

theorem IsAcyclic.of_increasing {edge : α → α → Prop} (position : α → ℕ)
    (increasing : ∀ first second, edge first second → position first < position second) :
    IsAcyclic edge := by
  have longer : ∀ first second, TransGen edge first second → position first < position second := by
    intro first second path
    induction path with
    | single step => exact increasing _ _ step
    | tail _ step ih => exact Nat.lt_trans ih (increasing _ _ step)
  exact fun node cycle => Nat.lt_irrefl _ (longer node node cycle)

theorem IsAcyclic.antisymm {edge : α → α → Prop} (acyclic : IsAcyclic edge) {first second : α}
    (there : ReflTransGen edge first second) (back : ReflTransGen edge second first) :
    first = second := by
  rcases reflTransGen_iff_eq_or_transGen.mp there with same | path
  · exact same.symm
  · exact absurd (path.trans_left back) (acyclic first)

section

variable [DecidableEq α] (edge : α → α → Prop) (source target : α)

/-- The node that stands for another after the contraction. -/
def renamed (node : α) : α :=
  if node = source then target else node

/-- The edges between different nodes, with the source's ends moved to the target. -/
def contracted (first second : α) : Prop :=
  first ≠ second ∧
    ∃ before after, edge before after ∧ renamed source target before = first ∧
      renamed source target after = second

variable {edge source target}

theorem renamed_ne (distinct : source ≠ target) (node : α) :
    renamed source target node ≠ source := by
  unfold renamed
  split
  · exact distinct.symm
  · assumption

theorem contracted_cases {first second : α} (step : contracted edge source target first second) :
    edge first second ∨ (first = target ∧ edge source second) ∨
      (second = target ∧ edge first source) := by
  obtain ⟨distinct, before, after, isEdge, isFirst, isSecond⟩ := step
  unfold renamed at isFirst isSecond
  by_cases fromSource : before = source
  · rw [if_pos fromSource] at isFirst
    by_cases toSource : after = source
    · rw [if_pos toSource] at isSecond
      exact absurd (isFirst.symm.trans isSecond) distinct
    · rw [if_neg toSource] at isSecond
      rw [fromSource, isSecond] at isEdge
      exact Or.inr (Or.inl ⟨isFirst.symm, isEdge⟩)
  · rw [if_neg fromSource] at isFirst
    by_cases toSource : after = source
    · rw [if_pos toSource] at isSecond
      rw [isFirst, toSource] at isEdge
      exact Or.inr (Or.inr ⟨isSecond.symm, isEdge⟩)
    · rw [if_neg toSource] at isSecond
      rw [isFirst, isSecond] at isEdge
      exact Or.inl isEdge

theorem contracted_path {first second : α}
    (path : TransGen (contracted edge source target) first second) :
    TransGen edge first second ∨
      (ReflTransGen edge first source ∨ ReflTransGen edge first target) ∧
        (ReflTransGen edge source second ∨ ReflTransGen edge target second) := by
  induction path with
  | single step =>
      rcases contracted_cases step with isEdge | ⟨isTarget, isEdge⟩ | ⟨isTarget, isEdge⟩
      · exact Or.inl (TransGen.single isEdge)
      · exact Or.inr ⟨Or.inr (isTarget ▸ ReflTransGen.refl), Or.inl (ReflTransGen.single isEdge)⟩
      · exact Or.inr ⟨Or.inl (ReflTransGen.single isEdge), Or.inr (isTarget ▸ ReflTransGen.refl)⟩
  | tail _ step ih =>
      rcases contracted_cases step with isEdge | ⟨isTarget, isEdge⟩ | ⟨isTarget, isEdge⟩
      · rcases ih with path | ⟨reaches, fromSource | fromTarget⟩
        · exact Or.inl (path.tail isEdge)
        · exact Or.inr ⟨reaches, Or.inl (fromSource.tail isEdge)⟩
        · exact Or.inr ⟨reaches, Or.inr (fromTarget.tail isEdge)⟩
      · refine Or.inr ⟨?_, Or.inl (ReflTransGen.single isEdge)⟩
        rcases ih with path | ⟨reaches, -⟩
        · exact Or.inr (isTarget ▸ path.to_reflTransGen)
        · exact reaches
      · refine Or.inr ⟨?_, Or.inr (isTarget ▸ ReflTransGen.refl)⟩
        rcases ih with path | ⟨reaches, -⟩
        · exact Or.inl (path.to_reflTransGen.tail isEdge)
        · exact reaches

/-- Contracting a node into another closes no cycle, unless the second leads to the first, or
the first to the second by more than an edge. -/
theorem IsAcyclic.contracted (acyclic : IsAcyclic edge) (distinct : source ≠ target)
    (noReturn : ¬ ReflTransGen edge target source)
    (noDetour : ∀ next, edge source next → next ≠ target → ¬ ReflTransGen edge next target) :
    IsAcyclic (contracted edge source target) := by
  have elsewhere : ∀ node, node ≠ source → node ≠ target →
      ¬ TransGen (Foundation.contracted edge source target) node node := by
    intro node notSource notTarget cycle
    rcases contracted_path cycle with path | ⟨toSource | toTarget, fromSource | fromTarget⟩
    · exact acyclic node path
    · exact notSource (acyclic.antisymm toSource fromSource)
    · exact noReturn (fromTarget.trans toSource)
    · rcases ReflTransGen.cases_head fromSource with same | ⟨next, isEdge, rest⟩
      · exact notSource same.symm
      · by_cases isTarget : next = target
        · exact notTarget (acyclic.antisymm toTarget (isTarget ▸ rest))
        · exact noDetour next isEdge isTarget (rest.trans toTarget)
    · exact notTarget (acyclic.antisymm toTarget fromTarget)
  intro node cycle
  -- a cycle at the target has another node
  obtain ⟨next, step, back⟩ := TransGen.head'_iff.mp cycle
  have notSource : ∀ {first second}, Foundation.contracted edge source target first second →
      first ≠ source ∧ second ≠ source := by
    rintro first second ⟨-, before, after, -, rfl, rfl⟩
    exact ⟨renamed_ne distinct before, renamed_ne distinct after⟩
  by_cases isTarget : node = target
  · have nextNotTarget : next ≠ target := fun same => step.1 (isTarget.trans same.symm)
    exact elsewhere next (notSource step).2 nextNotTarget (TransGen.tail' back step)
  · exact elsewhere node (notSource step).1 isTarget cycle

end

end Bun.Foundation
