/-
Endless runs of a first-in first-out queue.

Every step takes the first item and appends some.  Each item is taken in the end, and
unless the items get deeper and deeper the steps run out.
-/

import Mathlib.Logic.Hydra
import Mathlib.Order.WellFounded

set_option autoImplicit false

namespace Bun.Foundation

open Relation

variable {α : Type}

def TakesFirst (before after : List α) (item : α) (rest added : List α) : Prop :=
  before = item :: rest ∧ after = rest ++ added

theorem exists_taken {queue : Nat → List α}
    (endless : ∀ time, ∃ item rest added,
      TakesFirst (queue time) (queue (time + 1)) item rest added)
    {time : Nat} {item : α} (waits : item ∈ queue time) :
    ∃ later rest, time ≤ later ∧ queue later = item :: rest := by
  obtain ⟨ahead, behind, split⟩ := List.append_of_mem waits
  clear waits
  -- The items ahead leave the queue one by one.
  induction ahead generalizing time behind with
  | nil => exact ⟨time, behind, Nat.le_refl _, split⟩
  | cons first ahead ih =>
      obtain ⟨taken, rest, added, isFirst, isNext⟩ := endless time
      rw [split, List.cons_append] at isFirst
      obtain ⟨_, restEq⟩ := List.cons.inj isFirst
      rw [← restEq, List.append_assoc, List.cons_append] at isNext
      obtain ⟨later, laterRest, after, isTaken⟩ := ih _ isNext
      exact ⟨later, laterRest, by omega, isTaken⟩

def distances (bound : Nat) (depth : α → Nat) (queue : List α) : Multiset Nat :=
  (queue.map fun item => bound - depth item : List Nat)

theorem distances_append (bound : Nat) (depth : α → Nat) (left right : List α) :
    distances bound depth (left ++ right) =
      distances bound depth left + distances bound depth right := by
  unfold distances
  rw [List.map_append, Multiset.coe_add]

/-- If a step that uses up nothing of a budget only appends deeper items, then an endless run has
items of any depth. -/
theorem exists_deep (queue : Nat → List α) (depth : Nat → α → Nat) (budget : Nat → Nat)
    (endless : ∀ time, ∃ item rest added,
      TakesFirst (queue time) (queue (time + 1)) item rest added ∧
        (∀ waiting ∈ rest, depth (time + 1) waiting = depth time waiting) ∧
        (budget (time + 1) < budget time ∨
          (budget (time + 1) = budget time ∧
            ∀ new ∈ added, depth time item < depth (time + 1) new)))
    (bound : Nat) : ∃ time, ∃ item ∈ queue time, bound < depth time item := by
  by_contra shallow
  have atMost : ∀ time, ∀ item ∈ queue time, depth time item ≤ bound := by
    intro time item waits
    by_contra deep
    exact shallow ⟨time, item, waits, Nat.lt_of_not_le deep⟩
  -- The budget, and then the distances, which a step replaces by smaller ones.
  have wellFounded : IsWellFounded (Nat × Multiset Nat)
      (Prod.Lex (· < ·) (CutExpand (· < ·))) :=
    ⟨WellFounded.prod_lex Nat.lt_wfRel.wf Nat.lt_wfRel.wf.cutExpand⟩
  obtain ⟨time, stuck⟩ := WellFounded.not_rel_apply_succ
    (r := Prod.Lex (· < ·) (CutExpand (· < ·)))
    (fun time => (budget time, distances bound (depth time) (queue time)))
  refine stuck ?_
  obtain ⟨item, rest, added, ⟨isFirst, isNext⟩, stays, used | ⟨unused, deeper⟩⟩ := endless time
  · exact Prod.Lex.left _ _ used
  · rw [unused]
    refine Prod.Lex.right _ ?_
    have same : distances bound (depth (time + 1)) rest = distances bound (depth time) rest := by
      unfold distances
      refine congrArg _ (List.map_congr_left ?_)
      intro waiting inRest
      rw [stays waiting inRest]
    refine ⟨distances bound (depth (time + 1)) added, bound - depth time item, ?_, ?_⟩
    · intro distance inAdded
      obtain ⟨new, isAdded, rfl⟩ := List.mem_map.mp (Multiset.mem_coe.mp inAdded)
      have new_le := atMost (time + 1) new (isNext ▸ List.mem_append_right _ isAdded)
      have lower := deeper new isAdded
      omega
    · rw [isFirst, isNext, distances_append, same]
      change _ + _ + _ = distances bound (depth time) ([item] ++ rest) + _
      rw [distances_append]
      change _ + _ + {bound - depth time item} = {bound - depth time item} + _ + _
      rw [add_comm _ {bound - depth time item}, add_assoc]

end Bun.Foundation
