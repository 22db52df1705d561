/-
Texts as lists of lines, each with or without its separator.

Splitting a text at its separators and joining the pieces again only shows where the
separators stood.  Here every line says whether its separator follows it, so that a text
whose last line is cut short is told apart from one that is whole.
-/

set_option autoImplicit false

namespace Bun.Foundation

/-- A line of a text, and whether its separator follows. -/
structure TextLine (α : Type) where
  text : List α
  terminated : Bool
deriving DecidableEq, Repr

namespace TextLine

variable {α : Type}

def render (separator : α) (line : TextLine α) : List α :=
  if line.terminated then line.text ++ [separator] else line.text

def endsTerminated (lines : List (TextLine α)) : Bool :=
  lines.getLast?.all (·.terminated)

def Whole (lines : List (TextLine α)) : Prop :=
  ∀ line ∈ lines.dropLast, line.terminated = true

instance (lines : List (TextLine α)) : Decidable (Whole lines) :=
  inferInstanceAs (Decidable (∀ line ∈ lines.dropLast, line.terminated = true))

def ofTexts (texts : List (List α)) (terminated : Bool) : List (TextLine α) :=
  match texts with
  | [] => []
  | [last] => [⟨last, terminated⟩]
  | first :: second :: rest => ⟨first, true⟩ :: ofTexts (second :: rest) terminated

section

variable (separator : α)

/-- Joining the texts, with an empty one behind the last separator, writes the lines. -/
theorem intercalate_texts {lines : List (TextLine α)} (whole : Whole lines) :
    [separator].intercalate (lines.map (·.text) ++ if endsTerminated lines then [[]] else []) =
      lines.flatMap (render separator) := by
  induction lines with
  | nil => rfl
  | cons first rest ih =>
      cases rest with
      | nil =>
          obtain ⟨text, terminated⟩ := first
          cases terminated with
          | true => simp [endsTerminated, render]
          | false => simp [endsTerminated, render]
      | cons second rest =>
          have terminated : first.terminated = true :=
            whole first (by rw [List.dropLast_cons_of_ne_nil (by simp)]; exact List.mem_cons_self)
          have later : Whole (second :: rest) := fun line isIn =>
            whole line (by
              rw [List.dropLast_cons_of_ne_nil (by simp)]
              exact List.mem_cons_of_mem _ isIn)
          have sameEnd : endsTerminated (first :: second :: rest) =
              endsTerminated (second :: rest) := by
            unfold endsTerminated
            rw [List.getLast?_cons_cons]
          rw [List.flatMap_cons, ← ih later, sameEnd, List.map_cons, List.map_cons,
            List.cons_append, List.cons_append, List.intercalate_cons_cons]
          simp [render, terminated]

end

@[simp]
theorem ofTexts_texts (texts : List (List α)) (terminated : Bool) :
    (ofTexts texts terminated).map (·.text) = texts := by
  fun_induction ofTexts with
  | case1 => rfl
  | case2 => rfl
  | case3 first second rest ih => rw [List.map_cons, ih]

@[simp]
theorem ofTexts_length (texts : List (List α)) (terminated : Bool) :
    (ofTexts texts terminated).length = texts.length := by
  rw [← List.length_map (·.text), ofTexts_texts]

theorem ofTexts_whole (texts : List (List α)) (terminated : Bool) :
    Whole (ofTexts texts terminated) := by
  fun_induction ofTexts with
  | case1 => intro line isIn; cases isIn
  | case2 => intro line isIn; cases isIn
  | case3 first second rest ih =>
      have notEmpty : ofTexts (second :: rest) terminated ≠ [] := by
        intro isEmpty
        have noLines := congrArg List.length isEmpty
        rw [ofTexts_length] at noLines
        cases noLines
      intro line isIn
      rw [List.dropLast_cons_of_ne_nil notEmpty] at isIn
      rcases List.mem_cons.mp isIn with rfl | later
      · rfl
      · exact ih line later

theorem endsTerminated_ofTexts {texts : List (List α)} (notEmpty : texts ≠ [])
    (terminated : Bool) : endsTerminated (ofTexts texts terminated) = terminated := by
  fun_induction ofTexts with
  | case1 => exact absurd rfl notEmpty
  | case2 => simp [endsTerminated]
  | case3 first second rest ih =>
      have here := ih (by simp)
      unfold endsTerminated at here ⊢
      rw [List.getLast?_cons, List.getLast?_eq_some_getLast (by
        intro isEmpty
        have noLines := congrArg List.length isEmpty
        rw [ofTexts_length] at noLines
        cases noLines)] at *
      simpa using here

theorem Whole.eq_nil_of_unterminated {front back : List (TextLine α)} {line : TextLine α}
    (whole : Whole (front ++ back)) (isIn : line ∈ front) (cut : line.terminated = false) :
    back = [] := by
  cases back with
  | nil => rfl
  | cons next rest =>
      have notLast : line ∈ (front ++ next :: rest).dropLast := by
        rw [List.dropLast_append_of_ne_nil (by simp)]
        exact List.mem_append_left _ isIn
      rw [whole line notLast] at cut
      cases cut

theorem Whole.of_append_right {front back : List (TextLine α)} (whole : Whole (front ++ back)) :
    Whole back := by
  intro line isIn
  refine whole line ?_
  rw [List.dropLast_append_of_ne_nil (List.ne_nil_of_mem (List.dropLast_subset _ isIn))]
  exact List.mem_append_right _ isIn

theorem exists_unterminated_ofTexts {texts : List (List α)} (notEmpty : texts ≠ []) :
    ∃ line ∈ ofTexts texts false, line.terminated = false := by
  have cut := endsTerminated_ofTexts notEmpty false
  cases isLast : (ofTexts texts false).getLast? with
  | none =>
      unfold endsTerminated at cut
      rw [isLast] at cut
      cases cut
  | some last =>
      refine ⟨last, List.mem_of_getLast? isLast, ?_⟩
      unfold endsTerminated at cut
      rw [isLast] at cut
      exact cut

theorem endsTerminated_append {front back : List (TextLine α)} (notEmpty : back ≠ []) :
    endsTerminated (front ++ back) = endsTerminated back := by
  unfold endsTerminated
  rw [List.getLast?_append, List.getLast?_eq_some_getLast notEmpty, Option.some_or]

end TextLine

end Bun.Foundation
