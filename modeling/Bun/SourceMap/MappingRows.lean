/-
The rows of a mapping list, with and without names, and what sorting does to them.

The parser sorts only when a column delta was negative.  Rows that were read without
one are in order already, so an accepted string gives sorted rows either way.
-/

import Mathlib.Data.List.Chain
import Bun.SourceMap.MappingText

set_option autoImplicit false

namespace Bun.SourceMap

def ListValue.rows (list : ListValue) : List MappingWithoutName :=
  list.toMappings.map Mapping.withoutName

@[simp] theorem ListValue.rows_withoutNames (rows : List MappingWithoutName) :
    (ListValue.withoutNames rows).rows = rows := by
  unfold ListValue.rows ListValue.toMappings
  rw [List.map_map]
  exact List.map_id rows

@[simp] theorem ListValue.rows_append (list : ListValue) (mapping : Mapping) :
    (list.append mapping).rows = list.rows ++ [mapping.withoutName] := by
  cases list with
  | withoutNames rows => simp [ListValue.append]
  | withNames rows => simp [ListValue.append, ListValue.rows, ListValue.toMappings]

theorem ListValue.rows_foldl_append (nameIndex : Int32) (rows : List MappingWithoutName) :
    ∀ list : ListValue,
      (rows.foldl (fun mapping row => mapping.append { row.toNamed with nameIndex := nameIndex })
        list).rows = list.rows ++ rows := by
  induction rows with
  | nil => intro list; simp
  | cons row rows ih =>
      intro list
      rw [List.foldl_cons, ih, ListValue.rows_append, List.append_assoc]
      rfl

/-! ### Sorting -/

section Sorting

variable {α β : Type} (generated : α → LineColumnOffset) (position : β → LineColumnOffset)

theorem sinkRow_map (convert : α → β) (keeps : ∀ row, position (convert row) = generated row)
    (row : α) (sorted : List α) :
    (sinkRow generated row sorted).map convert =
      sinkRow position (convert row) (sorted.map convert) := by
  induction sorted with
  | nil => rfl
  | cons before earlier ih =>
      rw [sinkRow, List.map_cons, sinkRow, keeps, keeps, apply_ite (List.map convert), List.map_cons,
        ih, List.map_cons, List.map_cons]

theorem sortRows_map (convert : α → β) (keeps : ∀ row, position (convert row) = generated row)
    (rows : List α) :
    (sortRows generated rows).map convert = sortRows position (rows.map convert) := by
  have folded : ∀ sorted : List α,
      (rows.foldl (fun sorted row => sinkRow generated row sorted) sorted).map convert =
        (rows.map convert).foldl (fun sorted row => sinkRow position row sorted)
          (sorted.map convert) := by
    induction rows with
    | nil => intro sorted; rfl
    | cons row rows ih =>
        intro sorted
        rw [List.foldl_cons, ih, sinkRow_map generated position convert keeps, List.map_cons,
          List.foldl_cons]
  unfold sortRows
  rw [List.map_reverse, folded, List.map_nil]

def InOrder (rows : List α) : Prop :=
  rows.IsChain fun before row => (generated row).lessThan (generated before) = false

theorem sortRows_of_inOrder (rows : List α) (ordered : InOrder generated rows) :
    sortRows generated rows = rows := by
  have folded : ∀ front : List α, InOrder generated (front.reverse ++ rows) →
      rows.foldl (fun sorted row => sinkRow generated row sorted) front = rows.reverse ++ front := by
    clear ordered
    induction rows with
    | nil => intro front _; rfl
    | cons row rows ih =>
        intro front ordered
        have sunk : sinkRow generated row front = row :: front := by
          cases front with
          | nil => rfl
          | cons before earlier =>
              have linked : (generated row).lessThan (generated before) = false := by
                have adjacent := List.isChain_append.mp ordered
                exact adjacent.2.2 before (by simp) row (by simp)
              rw [sinkRow, linked]
              rfl
        rw [List.foldl_cons, sunk, ih (row :: front) (by simpa using ordered)]
        simp
  rw [sortRows, folded [] (by simpa using ordered), List.append_nil, List.reverse_reverse]

end Sorting

theorem ListValue.rows_sort (list : ListValue) :
    list.sort.rows = sortRows MappingWithoutName.generated list.rows := by
  cases list with
  | withoutNames rows => simp [ListValue.sort]
  | withNames rows =>
      exact sortRows_map Mapping.generated MappingWithoutName.generated Mapping.withoutName
        (fun _ => rfl) rows

theorem LineColumnOffset.lessThan_eq_false_iff (a b : LineColumnOffset) :
    a.lessThan b = false ↔ b.lines < a.lines ∨ b.lines = a.lines ∧ b.columns ≤ a.columns := by
  unfold LineColumnOffset.lessThan
  by_cases sameLine : a.lines = b.lines
  · by_cases sameColumn : a.columns = b.columns
    · simp [sameLine, sameColumn]
    · simp [sameLine, sameColumn, Int32.not_lt]
  · have otherLine : ¬b.lines = a.lines := fun same => sameLine same.symm
    simp only [ne_eq, sameLine, not_false_eq_true, if_true, decide_eq_false_iff_not, otherLine,
      false_and, or_false, Int32.not_lt]
    rw [Int32.lt_iff_toInt_lt, Int32.le_iff_toInt_le]
    have distinct : b.lines.toInt ≠ a.lines.toInt := fun same => otherLine (Int32.toInt_inj.mp same)
    omega

/-! ### Reading a string step by step -/

theorem parseLoop_nil (total : Nat) (sourcesCount : Int32) (options : ParseOptions)
    (state : ParseState) : parseLoop total sourcesCount options state [] = .ok state := by
  rw [parseLoop, skipLines, if_pos rfl]

theorem parseLoop_other (total : Nat) (sourcesCount : Int32) (options : ParseOptions)
    (state : ParseState) {byte : UInt8} {rest : List UInt8} (other : byte ≠ Vlq.semicolon) :
    parseLoop total sourcesCount options state (byte :: rest) =
      match parseSegment total sourcesCount options state (byte :: rest) with
      | .error failure => .error failure
      | .ok (next, rest) => parseLoop total sourcesCount options next rest := by
  rw [parseLoop, skipLines_other state other, if_neg (List.cons_ne_nil _ _)]
  split
  · rename_i failed
    rw [failed]
  · rename_i parsed
    rw [parsed]

theorem parse_render (sourcesCount : Int32) (options : ParseOptions) (items : List Item)
    (readable : Readable sourcesCount .start items) :
    ∃ list, parse (render false items) sourcesCount options = .ok list ∧
      list.rows = if items.any descends && options.sort then
        sortRows MappingWithoutName.generated (rowsOf .start items) else rowsOf .start items := by
  have rows : (ParseState.init.after items).mapping.rows = rowsOf .start items := by
    unfold ParseState.after
    dsimp only
    rw [ListValue.rows_foldl_append]
    rfl
  have loop := parseLoop_render (render false items).length sourcesCount options items .init readable
  have sortNeeded : (ParseState.init.after items).needsSort = items.any descends := by
    simp [ParseState.after, ParseState.init]
  unfold parse
  rw [loop]
  simp only [bind, Except.bind, sortNeeded]
  split
  · exact ⟨_, rfl, by rw [ListValue.rows_sort, rows]⟩
  · exact ⟨_, rfl, rows⟩

end Bun.SourceMap
