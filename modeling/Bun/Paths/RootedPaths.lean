/-
Normalized absolute paths.

The text of one begins with the separator, and its separators stand one by one between names
and perhaps behind the last.
-/

import Mathlib.Data.List.Chain
import Bun.Paths.NormalizedOutput

set_option autoImplicit false

namespace Bun.Paths

open Bun.Foundation

/-- A normalized absolute path, which may end in a separator. -/
structure RootedPath (units : PathUnits UInt8) where
  names : List (List UInt8)
  trailing : Bool
  plain : ∀ name ∈ names, PlainName units name

variable {units : PathUnits UInt8}

def RootedPath.text (path : RootedPath units) : List UInt8 :=
  0x2f :: (joined 0x2f path.names ++ if path.trailing ∧ path.names ≠ [] then [0x2f] else [])

/-- The names with a separator before and behind each. -/
def directoryText : List (List UInt8) → List UInt8
  | [] => [0x2f]
  | name :: names => 0x2f :: (name ++ directoryText names)

theorem directoryText_eq (names : List (List UInt8)) :
    directoryText names =
      0x2f :: (joined 0x2f names ++ if names ≠ [] then [0x2f] else []) := by
  induction names with
  | nil => rfl
  | cons name names ih =>
      rw [directoryText, ih, if_pos (List.cons_ne_nil _ _)]
      cases names with
      | nil => rw [if_neg (fun someNames => someNames rfl), joined_singleton, joined_nil, List.nil_append]
      | cons next names =>
          rw [if_pos (List.cons_ne_nil _ _), joined_cons 0x2f name (List.cons_ne_nil _ _),
            List.append_assoc, List.cons_append]

theorem directoryText_cons_tail (names : List (List UInt8)) :
    ∃ rest, directoryText names = 0x2f :: rest := by
  cases names with
  | nil => exact ⟨_, rfl⟩
  | cons name names => exact ⟨_, rfl⟩

theorem getLast?_directoryText (names : List (List UInt8)) :
    (directoryText names).getLast? = some 0x2f := by
  induction names with
  | nil => rfl
  | cons name names ih =>
      rw [directoryText, ← List.cons_append, List.getLast?_append, ih]
      rfl

/-- A path goes on with its separator behind its text, if not in it. -/
theorem RootedPath.text_cases (path : RootedPath units) :
    directoryText path.names = path.text ∧ (path.trailing = true ∨ path.names = []) ∨
      directoryText path.names = path.text ++ [0x2f] ∧ path.trailing = false ∧ path.names ≠ [] := by
  rw [directoryText_eq]
  unfold RootedPath.text
  by_cases noNames : path.names = []
  · rw [noNames]
    exact Or.inl ⟨by simp, Or.inr rfl⟩
  · cases trailing : path.trailing with
    | true => exact Or.inl ⟨by rw [if_pos noNames, if_pos ⟨rfl, noNames⟩], Or.inl rfl⟩
    | false =>
        refine Or.inr ⟨?_, rfl, noNames⟩
        rw [if_pos noNames, if_neg (fun both => absurd both.1 Bool.false_ne_true), List.append_nil,
          List.cons_append]

/-! ### The shape of a text -/

/-- A text that begins with a separator, where no two separators stand together. -/
structure Rooted (text : List UInt8) : Prop where
  starts : text.head? = some 0x2f
  apart : text.IsChain fun first second => ¬ (first = 0x2f ∧ second = 0x2f)

theorem plainName_slash {name : List UInt8} (isSlash : units.isSeparator 0x2f = true)
    (plain : PlainName units name) {c : UInt8} (isIn : c ∈ name) : c ≠ 0x2f := by
  rintro rfl
  have notSeparator := plain.noSeparator _ isIn
  rw [isSlash] at notSeparator
  cases notSeparator

theorem directoryText_rooted (isSlash : units.isSeparator 0x2f = true) {names : List (List UInt8)}
    (plain : ∀ name ∈ names, PlainName units name) : Rooted (directoryText names) := by
  induction names with
  | nil => exact ⟨rfl, List.isChain_singleton _⟩
  | cons name names ih =>
      have namePlain := plain name List.mem_cons_self
      have later := ih fun other isIn => plain other (List.mem_cons_of_mem _ isIn)
      have notSlash (c : UInt8) (isIn : c ∈ name) : c ≠ 0x2f :=
        plainName_slash isSlash namePlain isIn
      refine ⟨rfl, ?_⟩
      -- only the first of the name's cells is a separator
      have nameApart : (0x2f :: name).IsChain fun first second : UInt8 =>
          ¬ (first = 0x2f ∧ second = 0x2f) := by
        apply List.Pairwise.isChain
        rw [List.pairwise_cons]
        exact ⟨fun c isIn both => notSlash c isIn both.2,
          List.pairwise_of_forall_mem_list fun c _ d isIn both => notSlash d isIn both.2⟩
      rw [directoryText, ← List.cons_append, List.isChain_append]
      refine ⟨nameApart, later.apart, ?_⟩
      intro c isLast d _ both
      rw [List.getLast?_cons, List.getLast?_eq_some_getLast namePlain.notEmpty] at isLast
      have isEnd : name.getLast namePlain.notEmpty = c := Option.some.inj isLast
      rw [← isEnd] at both
      exact notSlash _ (List.getLast_mem namePlain.notEmpty) both.1

theorem Rooted.front {text longer : List UInt8} (rooted : Rooted longer) (isFront : text <+: longer)
    (notEmpty : text ≠ []) : Rooted text := by
  refine ⟨?_, List.IsChain.prefix rooted.apart isFront⟩
  obtain ⟨rest, rfl⟩ := isFront
  rw [← rooted.starts, List.head?_append_of_ne_nil _ notEmpty]

theorem RootedPath.rooted (isSlash : units.isSeparator 0x2f = true) (path : RootedPath units) :
    Rooted path.text := by
  have isFront : path.text <+: directoryText path.names := by
    rcases path.text_cases with ⟨isText, -⟩ | ⟨isText, -⟩
    · rw [isText]
    · rw [isText]
      exact List.prefix_append _ _
  exact (directoryText_rooted isSlash path.plain).front isFront (List.cons_ne_nil _ _)

end Bun.Paths
