/-
Logs that only grow.

A tally is what the entries of a log come to.  A property of entries may look at what
stands before an entry, and holds of a log when it holds of every entry.
-/

import Mathlib.Algebra.GroupWithZero.Nat
import Mathlib.Data.Nat.Notation

set_option autoImplicit false

namespace Bun.Foundation

variable {α : Type}

def tally (weight : α → ℕ) (log : List α) : ℕ :=
  (log.map weight).sum

@[simp]
theorem tally_nil (weight : α → ℕ) : tally weight [] = 0 :=
  rfl

@[simp]
theorem tally_append (weight : α → ℕ) (log more : List α) :
    tally weight (log ++ more) = tally weight log + tally weight more := by
  unfold tally
  rw [List.map_append, List.sum_append]

@[simp]
theorem tally_cons (weight : α → ℕ) (entry : α) (log : List α) :
    tally weight (entry :: log) = weight entry + tally weight log := by
  unfold tally
  rw [List.map_cons, List.sum_cons]

theorem tally_eq_zero {weight : α → ℕ} {log : List α} (none : ∀ entry ∈ log, weight entry = 0) :
    tally weight log = 0 := by
  induction log with
  | nil => rfl
  | cons entry rest ih =>
      rw [tally_cons, none entry List.mem_cons_self,
        ih fun other isIn => none other (List.mem_cons_of_mem entry isIn)]

theorem tally_mono {small large : α → ℕ} (le : ∀ entry, small entry ≤ large entry) (log : List α) :
    tally small log ≤ tally large log := by
  induction log with
  | nil => exact Nat.le_refl _
  | cons entry rest ih =>
      rw [tally_cons, tally_cons]
      exact Nat.add_le_add (le entry) ih

def EachEntry (property : List α → α → Prop) (log : List α) : Prop :=
  ∀ before entry after, log = before ++ entry :: after → property before entry

theorem eachEntry_nil (property : List α → α → Prop) : EachEntry property [] := by
  intro before entry after isLog
  simp at isLog

theorem eachEntry_concat {property : List α → α → Prop} {log : List α} {entry : α}
    (each : EachEntry property log) (last : property log entry) :
    EachEntry property (log ++ [entry]) := by
  intro before other after isLog
  rcases List.eq_nil_or_concat after with rfl | ⟨front, final, rfl⟩
  · obtain ⟨rfl, same⟩ := List.append_inj' isLog rfl
    cases same
    exact last
  · rw [List.concat_eq_append, ← List.cons_append, ← List.append_assoc] at isLog
    exact each before other front (List.append_inj' isLog rfl).1

theorem eachEntry_append {property : List α → α → Prop} {log more : List α}
    (each : EachEntry property log)
    (later : ∀ before entry after, more = before ++ entry :: after → property (log ++ before) entry) :
    EachEntry property (log ++ more) := by
  induction more generalizing log with
  | nil =>
      rw [List.append_nil]
      exact each
  | cons entry rest ih =>
      rw [List.append_cons]
      have first := later [] entry rest rfl
      rw [List.append_nil] at first
      refine ih (eachEntry_concat each first) fun before other after isRest => ?_
      have next := later (entry :: before) other after (by rw [isRest, List.cons_append])
      rw [List.append_assoc]
      exact next

theorem eachEntry_of_append {property : List α → α → Prop} {log more : List α}
    (each : EachEntry property (log ++ more)) : EachEntry property log := by
  intro before entry rest isLog
  refine each before entry (rest ++ more) ?_
  rw [isLog, List.append_assoc, List.cons_append]

end Bun.Foundation
