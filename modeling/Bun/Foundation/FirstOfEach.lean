/-
The first element of each key in a list.

A loop that skips an element whose key it has met keeps these elements, in their order.
-/

import Mathlib.Data.List.Nodup

set_option autoImplicit false

namespace Bun.Foundation

variable {α β : Type} [DecidableEq β] {key : α → β}

def firstOfEach (key : α → β) : List α → List α
  | [] => []
  | first :: rest =>
      first :: (firstOfEach key rest).filter fun other => decide (key other ≠ key first)

theorem firstOfEach_sublist (items : List α) : (firstOfEach key items).Sublist items := by
  induction items with
  | nil => exact List.Sublist.slnil
  | cons first rest ih => exact (List.filter_sublist.trans ih).cons_cons first

theorem nodup_firstOfEach (items : List α) : ((firstOfEach key items).map key).Nodup := by
  induction items with
  | nil => exact List.nodup_nil
  | cons first rest ih =>
      rw [firstOfEach, List.map_cons, List.nodup_cons]
      refine ⟨?_, ih.sublist (List.filter_sublist.map key)⟩
      intro isIn
      obtain ⟨other, kept, sameKey⟩ := List.mem_map.mp isIn
      exact of_decide_eq_true (List.mem_filter.mp kept).2 sameKey

theorem find?_firstOfEach (items : List α) (name : β) :
    (firstOfEach key items).find? (fun item => key item == name) =
      items.find? fun item => key item == name := by
  induction items with
  | nil => rfl
  | cons first rest ih =>
      rw [firstOfEach, List.find?_cons, List.find?_cons]
      cases isFirst : key first == name with
      | true => rfl
      | false =>
          dsimp only
          rw [← ih, List.find?_filter]
          refine congrArg (List.find? · _) (funext fun other => ?_)
          have apart : name ≠ key first := fun same => beq_eq_false_iff_ne.mp isFirst same.symm
          by_cases named : key other = name
          · simp [named, apart]
          · simp [named]

theorem mem_map_firstOfEach (items : List α) (name : β) :
    name ∈ (firstOfEach key items).map key ↔ name ∈ items.map key := by
  have found (list : List α) : name ∈ list.map key ↔
      (list.find? fun item => key item == name).isSome = true := by
    rw [List.find?_isSome, List.mem_map]
    exact exists_congr fun item => and_congr_right fun _ => beq_iff_eq.symm
  rw [found, found, find?_firstOfEach]

theorem firstOfEach_append_singleton (items : List α) (last : α) :
    firstOfEach key (items ++ [last]) =
      firstOfEach key items ++ if key last ∈ items.map key then [] else [last] := by
  induction items with
  | nil => rfl
  | cons first rest ih =>
      rw [List.cons_append, firstOfEach, firstOfEach, ih, List.filter_append, List.map_cons,
        List.cons_append]
      rw [List.cons_inj_right, List.append_cancel_left_eq]
      by_cases isFirst : key last = key first
      · rw [if_pos (List.mem_cons.mpr (Or.inl isFirst))]
        split <;> simp [isFirst]
      · by_cases later : key last ∈ rest.map key
        · rw [if_pos later, if_pos (List.mem_cons_of_mem _ later)]
          rfl
        · rw [if_neg later, if_neg fun isIn => (List.mem_cons.mp isIn).elim isFirst later,
            List.filter_singleton, decide_eq_true isFirst]
          rfl

/-- A test that only looks at the keys may be made before or after. -/
theorem filter_firstOfEach (items : List α) {keeps : α → Bool}
    (byKey : ∀ a ∈ items, ∀ b ∈ items, key a = key b → keeps a = keeps b) :
    (firstOfEach key items).filter keeps = firstOfEach key (items.filter keeps) := by
  induction items with
  | nil => rfl
  | cons first rest ih =>
      have later := ih fun a inRest b inRest' =>
        byKey a (List.mem_cons_of_mem _ inRest) b (List.mem_cons_of_mem _ inRest')
      rw [firstOfEach, List.filter_cons, List.filter_cons, List.filter_filter]
      cases kept : keeps first with
      | true =>
          rw [if_pos rfl, if_pos rfl, firstOfEach, ← later, List.filter_filter]
          exact congrArg _ (List.filter_congr fun _ _ => Bool.and_comm _ _)
      | false =>
          rw [if_neg Bool.false_ne_true, if_neg Bool.false_ne_true, ← later]
          refine List.filter_congr fun other inRest => ?_
          by_cases sameKey : key other = key first
          · rw [byKey other (List.mem_cons_of_mem _ ((firstOfEach_sublist rest).subset inRest)) first
              List.mem_cons_self sameKey, kept, Bool.false_and]
          · rw [decide_eq_true sameKey, Bool.and_true]

end Bun.Foundation
