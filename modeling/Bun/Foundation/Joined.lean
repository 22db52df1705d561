/-
Segments joined by a separator.

Joining segments that hold no separator and splitting where separators stand undo each
other.  The join grows at its end by one segment at a time.
-/

import Mathlib.Data.Nat.Notation
import Bun.Foundation.Splits

set_option autoImplicit false

namespace Bun.Foundation

variable {α : Type}

def joined (separator : α) (segments : List (List α)) : List α :=
  [separator].intercalate segments

section

variable (separator : α)

@[simp]
theorem joined_nil : joined separator [] = [] :=
  rfl

@[simp]
theorem joined_singleton (segment : List α) : joined separator [segment] = segment :=
  List.intercalate_singleton

theorem joined_cons {segments : List (List α)} (segment : List α) (notEmpty : segments ≠ []) :
    joined separator (segment :: segments) = segment ++ separator :: joined separator segments := by
  unfold joined
  rw [List.intercalate_cons_of_ne_nil notEmpty, List.append_assoc, List.singleton_append]

theorem joined_append {front back : List (List α)} (frontNotEmpty : front ≠ [])
    (backNotEmpty : back ≠ []) :
    joined separator (front ++ back) =
      joined separator front ++ separator :: joined separator back := by
  induction front with
  | nil => exact absurd rfl frontNotEmpty
  | cons segment rest ih =>
      cases rest with
      | nil =>
          rw [List.singleton_append, joined_singleton]
          exact joined_cons separator segment backNotEmpty
      | cons next rest =>
          rw [List.cons_append, joined_cons separator segment (by simp), ih (by simp),
            joined_cons separator segment (List.cons_ne_nil _ _), List.append_assoc,
            List.cons_append]

theorem joined_concat {front : List (List α)} (notEmpty : front ≠ []) (segment : List α) :
    joined separator (front ++ [segment]) = joined separator front ++ separator :: segment := by
  rw [joined_append separator notEmpty (List.cons_ne_nil _ _), joined_singleton]

end

variable {separator : α}

theorem joined_eq_nil_iff {segments : List (List α)} (each : ∀ segment ∈ segments, segment ≠ []) :
    joined separator segments = [] ↔ segments = [] := by
  constructor
  · intro isNil
    cases segments with
    | nil => rfl
    | cons segment rest =>
        have notEmpty := each segment List.mem_cons_self
        cases rest with
        | nil =>
            rw [joined_singleton] at isNil
            exact absurd isNil notEmpty
        | cons next rest =>
            rw [joined_cons separator segment (List.cons_ne_nil _ _), List.append_eq_nil_iff] at isNil
            exact absurd isNil.1 notEmpty
  · rintro rfl
    rfl

theorem splitOnP_joined {p : α → Bool} (isSeparator : p separator = true)
    {segments : List (List α)} (notEmpty : segments ≠ [])
    (plain : ∀ segment ∈ segments, ∀ a ∈ segment, p a = false) :
    (joined separator segments).splitOnP p = segments := by
  induction segments with
  | nil => exact absurd rfl notEmpty
  | cons segment rest ih =>
      have first := plain segment List.mem_cons_self
      cases rest with
      | nil =>
          rw [joined_singleton]
          exact List.splitOnP_eq_singleton first
      | cons next rest =>
          rw [joined_cons separator segment (List.cons_ne_nil _ _),
            List.splitOnP_append_cons _ _ isSeparator,
            ih (List.cons_ne_nil _ _) fun later isIn => plain later (List.mem_cons_of_mem _ isIn),
            List.splitOnP_eq_singleton first, List.singleton_append]

theorem getLast?_joined {segments : List (List α)} {last : List α}
    (isLast : segments.getLast? = some last) (notEmpty : last ≠ []) :
    (joined separator segments).getLast? = last.getLast? := by
  obtain ⟨front, rfl⟩ := List.getLast?_eq_some_iff.mp isLast
  by_cases noFront : front = []
  · rw [noFront, List.nil_append, joined_singleton]
  · rw [joined_concat separator noFront, List.getLast?_append,
      List.getLast?_cons, List.getLast?_eq_some_getLast notEmpty]
    rfl

end Bun.Foundation
