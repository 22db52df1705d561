/-
Lists that are split where a predicate holds.

The first piece of a list ends where the predicate first holds.  What holds of every piece
of two lists holds of every piece when they are put together with a separator.
-/

set_option autoImplicit false

namespace Bun.Foundation

variable {α : Type} {p : α → Bool}

theorem splitOnP_cases (list : List α) :
    (list.dropWhile (!p ·) = [] ∧ list.takeWhile (!p ·) = list ∧ list.splitOnP p = [list]) ∨
      ∃ separator rest, p separator = true ∧ list.dropWhile (!p ·) = separator :: rest ∧
        list = list.takeWhile (!p ·) ++ separator :: rest ∧
        list.splitOnP p = list.takeWhile (!p ·) :: rest.splitOnP p := by
  induction list with
  | nil => exact Or.inl ⟨rfl, rfl, rfl⟩
  | cons first rest ih =>
      by_cases isSeparator : p first = true
      · refine Or.inr ⟨first, rest, isSeparator, ?_, ?_, ?_⟩
        · rw [List.dropWhile_cons_of_neg (by simp [isSeparator])]
        · rw [List.takeWhile_cons_of_neg (by simp [isSeparator]), List.nil_append]
        · rw [List.takeWhile_cons_of_neg (by simp [isSeparator]), List.splitOnP_cons_eq_if_modifyHead,
            if_pos isSeparator]
      · have keep : (!p first) = true := by simp [isSeparator]
        rw [List.dropWhile_cons_of_pos (p := (!p ·)) keep,
          List.takeWhile_cons_of_pos (p := (!p ·)) keep, List.splitOnP_cons_eq_if_modifyHead,
          if_neg isSeparator]
        rcases ih with ⟨none, all, single⟩ | ⟨separator, tail, isSep, dropped, isRest, split⟩
        · refine Or.inl ⟨none, ?_, ?_⟩
          · rw [all]
          · rw [single]
            rfl
        · refine Or.inr ⟨separator, tail, isSep, dropped, ?_, ?_⟩
          · rw [List.cons_append, ← isRest]
          · rw [split]
            rfl

theorem length_splitOnP (p : α → Bool) (list : List α) :
    (list.splitOnP p).length = list.countP p + 1 := by
  induction list with
  | nil => rfl
  | cons first rest ih =>
      rw [List.splitOnP_cons_eq_if_modifyHead, List.countP_cons]
      split
      · rw [List.length_cons, ih]
      · rw [List.length_modifyHead, ih, Nat.add_zero]

theorem mem_of_mem_splitOnP {list piece : List α} (isPiece : piece ∈ list.splitOnP p) {a : α}
    (isIn : a ∈ piece) : a ∈ list := by
  rcases splitOnP_cases (p := p) list with ⟨_, _, single⟩ | ⟨separator, rest, _, _, isList, split⟩
  · rw [single, List.mem_singleton] at isPiece
    rw [← isPiece]
    exact isIn
  · have shorter : rest.length < list.length := by
      have length := congrArg List.length isList
      rw [List.length_append, List.length_cons] at length
      omega
    rw [split] at isPiece
    rw [isList]
    rcases List.mem_cons.mp isPiece with rfl | later
    · exact List.mem_append_left _ isIn
    · exact List.mem_append_right _ (List.mem_cons_of_mem _ (mem_of_mem_splitOnP later isIn))
termination_by list.length

theorem not_of_mem_splitOnP {list piece : List α} (isPiece : piece ∈ list.splitOnP p) :
    ∀ a ∈ piece, p a = false := by
  have first : ∀ a ∈ list.takeWhile (!p ·), p a = false := by
    intro a isIn
    have all := List.all_eq_true.mp (List.all_takeWhile (p := (!p ·)) (l := list)) a isIn
    simpa using all
  rcases splitOnP_cases (p := p) list with ⟨_, all, single⟩ | ⟨separator, rest, _, _, isList, split⟩
  · rw [single, List.mem_singleton] at isPiece
    rw [isPiece]
    rw [all] at first
    exact first
  · have shorter : rest.length < list.length := by
      have length := congrArg List.length isList
      rw [List.length_append, List.length_cons] at length
      omega
    rw [split] at isPiece
    rcases List.mem_cons.mp isPiece with rfl | later
    · exact first
    · exact not_of_mem_splitOnP later
termination_by list.length

def EachPiece (p : α → Bool) (property : List α → Prop) (list : List α) : Prop :=
  ∀ piece ∈ list.splitOnP p, property piece

section

variable {property : List α → Prop}

theorem eachPiece_nil (empty : property []) : EachPiece p property [] := by
  intro piece isIn
  rw [List.splitOnP_nil, List.mem_singleton] at isIn
  rw [isIn]
  exact empty

theorem eachPiece_append_cons {front rest : List α} {separator : α}
    (isSeparator : p separator = true) :
    EachPiece p property (front ++ separator :: rest) ↔
      EachPiece p property front ∧ EachPiece p property rest := by
  unfold EachPiece
  rw [List.splitOnP_append_cons front rest isSeparator]
  constructor
  · intro each
    exact ⟨fun piece isIn => each piece (List.mem_append_left _ isIn),
      fun piece isIn => each piece (List.mem_append_right _ isIn)⟩
  · rintro ⟨first, second⟩ piece isIn
    rcases List.mem_append.mp isIn with inFront | inRest
    · exact first piece inFront
    · exact second piece inRest

theorem eachPiece_cons {separator : α} {rest : List α} (isSeparator : p separator = true)
    (empty : property []) :
    EachPiece p property (separator :: rest) ↔ EachPiece p property rest := by
  have split : EachPiece p property ([] ++ separator :: rest) ↔ _ := eachPiece_append_cons isSeparator
  rw [List.nil_append] at split
  rw [split]
  exact ⟨fun both => both.2, fun each => ⟨eachPiece_nil empty, each⟩⟩

theorem eachPiece_iff (list : List α) (empty : property []) :
    EachPiece p property list ↔ property (list.takeWhile (!p ·)) ∧
      EachPiece p property ((list.dropWhile (!p ·)).drop 1) := by
  rcases splitOnP_cases (p := p) list with ⟨dropped, all, single⟩ | ⟨separator, rest, _, dropped, _, split⟩
  · rw [dropped, all, List.drop_nil]
    unfold EachPiece
    rw [single]
    constructor
    · intro each
      exact ⟨each list List.mem_cons_self, eachPiece_nil empty⟩
    · rintro ⟨whole, _⟩ piece isIn
      rw [List.mem_singleton.mp isIn]
      exact whole
  · rw [dropped, List.drop_one, List.tail_cons]
    unfold EachPiece
    rw [split]
    constructor
    · intro each
      exact ⟨each _ List.mem_cons_self, fun piece isIn => each piece (List.mem_cons_of_mem _ isIn)⟩
    · rintro ⟨first, later⟩ piece isIn
      rcases List.mem_cons.mp isIn with rfl | isLater
      · exact first
      · exact later piece isLater

theorem eachPiece_of_coarser {coarse : α → Bool}
    (coarser : ∀ a, coarse a = true → p a = true) {list : List α}
    (each : EachPiece p property list) : EachPiece coarse (EachPiece p property) list := by
  rcases splitOnP_cases (p := coarse) list with ⟨_, _, single⟩ | ⟨separator, rest, isSep, _, isList, split⟩
  · intro piece isIn
    rw [single, List.mem_singleton] at isIn
    rw [isIn]
    exact each
  · have shorter : rest.length < list.length := by
      have length := congrArg List.length isList
      rw [List.length_append, List.length_cons] at length
      omega
    rw [isList] at each
    obtain ⟨first, later⟩ := (eachPiece_append_cons (coarser separator isSep)).mp each
    intro piece isIn
    rw [split] at isIn
    rcases List.mem_cons.mp isIn with rfl | isLater
    · exact first
    · exact eachPiece_of_coarser coarser later piece isLater
termination_by list.length

end

end Bun.Foundation
