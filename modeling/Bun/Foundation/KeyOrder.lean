/-
Comparison functions that agree with a linear order on keys.

A comparison with a key is a total preorder, and a comparison that tries one
criterion after another has the lexicographic product of their keys.
-/

import Mathlib.Order.Compare
import Mathlib.Data.Prod.Lex
import Mathlib.Data.Sum.Order
import Mathlib.Data.List.Lex
import Mathlib.Order.WithBot

set_option autoImplicit false

namespace Bun.Foundation

/-! ### Comparing by criteria in turn -/

section Criteria

variable {α β : Type}

theorem compares_then [LinearOrder α] [LinearOrder β] {first second : Ordering}
    {a a' : α} {b b' : β} (byFirst : first.Compares a a') (bySecond : second.Compares b b') :
    (first.then second).Compares (toLex (a, b)) (toLex (a', b')) := by
  cases first with
  | lt => exact Prod.Lex.toLex_lt_toLex.mpr (Or.inl byFirst)
  | gt => exact Prod.Lex.toLex_lt_toLex.mpr (Or.inl byFirst)
  | eq =>
      have same : a = a' := byFirst
      subst same
      cases second with
      | lt => exact Prod.Lex.toLex_lt_toLex.mpr (Or.inr ⟨rfl, bySecond⟩)
      | gt => exact Prod.Lex.toLex_lt_toLex.mpr (Or.inr ⟨rfl, bySecond⟩)
      | eq => exact congrArg (fun b => toLex (a, b)) bySecond

theorem compares_cons [LinearOrder α] {first rest : Ordering} {a b : α} {as bs : List α}
    (byHead : first.Compares a b) (byTail : rest.Compares as bs) :
    (first.then rest).Compares (a :: as) (b :: bs) := by
  cases first with
  | lt => exact List.cons_lt_cons_iff.mpr (Or.inl byHead)
  | gt => exact List.cons_lt_cons_iff.mpr (Or.inl byHead)
  | eq =>
      have same : a = b := byHead
      subst same
      cases rest with
      | lt => exact List.cons_lt_cons_iff.mpr (Or.inr ⟨rfl, byTail⟩)
      | gt => exact List.cons_lt_cons_iff.mpr (Or.inr ⟨rfl, byTail⟩)
      | eq => exact congrArg (a :: ·) byTail

theorem compares_inl [LinearOrder α] [LinearOrder β] {order : Ordering} {a a' : α}
    (compares : order.Compares a a') :
    order.Compares (toLex (Sum.inl a : α ⊕ β)) (toLex (Sum.inl a')) := by
  cases order with
  | lt => exact Sum.Lex.inl_lt_inl_iff.mpr compares
  | gt => exact Sum.Lex.inl_lt_inl_iff.mpr compares
  | eq => exact congrArg (fun a => toLex (Sum.inl a)) compares

theorem compares_inr [LinearOrder α] [LinearOrder β] {order : Ordering} {b b' : β}
    (compares : order.Compares b b') :
    order.Compares (toLex (Sum.inr b : α ⊕ β)) (toLex (Sum.inr b')) := by
  cases order with
  | lt => exact Sum.Lex.inr_lt_inr_iff.mpr compares
  | gt => exact Sum.Lex.inr_lt_inr_iff.mpr compares
  | eq => exact congrArg (fun b => toLex (Sum.inr b)) compares

theorem compares_coe [LinearOrder α] {order : Ordering} {a a' : α} :
    order.Compares (a : WithTop α) (a' : WithTop α) ↔ order.Compares a a' := by
  cases order with
  | lt => exact WithTop.coe_lt_coe
  | gt => exact WithTop.coe_lt_coe
  | eq => exact WithTop.coe_inj

theorem compares_compare [LinearOrder α] (a b : α) : (compare a b).Compares a b :=
  (compare_iff a b).mp rfl

theorem compareOfLessAndEq_compares [LT α] [DecidableLT α] [DecidableEq α] [LinearOrder β]
    {key : α → β} (mono : ∀ a b, a < b ↔ key a < key b) (injective : Function.Injective key)
    (a b : α) : (compareOfLessAndEq a b).Compares (key a) (key b) := by
  unfold compareOfLessAndEq
  split
  · rename_i less
    exact (mono a b).mp less
  · rename_i notLess
    split
    · rename_i same
      exact congrArg key same
    · rename_i different
      rw [mono a b, not_lt] at notLess
      exact lt_of_le_of_ne notLess (fun same => different (injective same.symm))

end Criteria

/-! ### Comparisons with a key -/

section Keyed

variable {α K : Type} [LinearOrder K]

/-- `cmp` orders the values of `α` as their keys are ordered. -/
def Keyed (cmp : α → α → Ordering) (key : α → K) : Prop :=
  ∀ a b, (cmp a b).Compares (key a) (key b)

variable {cmp : α → α → Ordering} {key : α → K}

theorem Keyed.eq_compare (keyed : Keyed cmp key) (a b : α) :
    cmp a b = compare (key a) (key b) :=
  ((compare_iff (key a) (key b)).mpr (keyed a b)).symm

theorem Keyed.eq_lt (keyed : Keyed cmp key) {a b : α} : cmp a b = .lt ↔ key a < key b := by
  rw [keyed.eq_compare, compare_lt_iff_lt]

theorem Keyed.eq_gt (keyed : Keyed cmp key) {a b : α} : cmp a b = .gt ↔ key b < key a := by
  rw [keyed.eq_compare, compare_gt_iff_gt]

theorem Keyed.eq_eq (keyed : Keyed cmp key) {a b : α} : cmp a b = .eq ↔ key a = key b := by
  rw [keyed.eq_compare, compare_eq_iff_eq]

theorem Keyed.isLE (keyed : Keyed cmp key) {a b : α} :
    (cmp a b).isLE = true ↔ key a ≤ key b := by
  rw [Ordering.isLE_iff_ne_gt, keyed.eq_gt, not_lt]

end Keyed

/-! ### Total preorders -/

section Preorders

variable {α K : Type} [LinearOrder K]

/-- A comparison that is total, reflexive and transitive, and reverses with its
arguments. -/
structure TotalPreorder (cmp : α → α → Ordering) : Prop where
  refl : ∀ a, cmp a a = .eq
  swap : ∀ a b, cmp b a = (cmp a b).swap
  total : ∀ a b, (cmp a b).isLE = true ∨ (cmp b a).isLE = true
  trans : ∀ a b c, (cmp a b).isLE = true → (cmp b c).isLE = true → (cmp a c).isLE = true

theorem Keyed.totalPreorder {cmp : α → α → Ordering} {key : α → K} (keyed : Keyed cmp key) :
    TotalPreorder cmp where
  refl a := keyed.eq_eq.mpr rfl
  swap a b := (keyed b a).inj (Ordering.compares_swap.mpr (keyed a b))
  total a b := by
    rw [keyed.isLE, keyed.isLE]
    exact le_total (key a) (key b)
  trans a b c first second := keyed.isLE.mpr ((keyed.isLE.mp first).trans (keyed.isLE.mp second))

end Preorders

end Bun.Foundation
