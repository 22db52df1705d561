/-
Writers of `mappings` strings.

A writer keeps the state of its last segment and emits differences.  As long as the
states are not negative, the bytes it appends are one more item of a rendering.
-/

import Bun.SourceMap.MappingRows

set_option autoImplicit false

namespace Bun.SourceMap

structure SourceMapState.Nonneg (state : SourceMapState) : Prop where
  generatedColumn : 0 ≤ state.generatedColumn
  sourceIndex : 0 ≤ state.sourceIndex
  originalLine : 0 ≤ state.originalLine
  originalColumn : 0 ≤ state.originalColumn

def SourceMapState.cursor (state : SourceMapState) : TextCursor :=
  { generated := ⟨state.generatedLine, state.generatedColumn⟩
    original := ⟨state.originalLine, state.originalColumn⟩
    sourceIndex := state.sourceIndex }

def Segment.between (previous current : SourceMapState) : Segment :=
  { generatedColumn := current.generatedColumn - previous.generatedColumn
    sourceIndex := current.sourceIndex - previous.sourceIndex
    originalLine := current.originalLine - previous.originalLine
    originalColumn := current.originalColumn - previous.originalColumn }

theorem toInt_sub_of_nonneg {a b : Int32} (aNonneg : 0 ≤ a) (bNonneg : 0 ≤ b) :
    (a - b).toInt = a.toInt - b.toInt := by
  have aMax := a.toInt_lt
  have bMax := b.toInt_lt
  rw [Int32.le_iff_toInt_le, Int32.toInt_zero] at aNonneg bNonneg
  rw [Int32.toInt_sub, Int.bmod_def]
  omega

theorem saturatingSub_eq {a b : Int32} (aNonneg : 0 ≤ a) (bNonneg : 0 ≤ b) :
    Vlq.saturatingSub a b = a - b := by
  have aMax := a.toInt_lt
  have bMax := b.toInt_lt
  rw [Int32.le_iff_toInt_le, Int32.toInt_zero] at aNonneg bNonneg
  unfold Vlq.saturatingSub
  rw [if_neg (by omega), if_neg (by omega)]

theorem sub_ne_minValue {a b : Int32} (aNonneg : 0 ≤ a) (bNonneg : 0 ≤ b) :
    a - b ≠ Int32.minValue := by
  intro smallest
  have difference := toInt_sub_of_nonneg aNonneg bNonneg
  have bMax := b.toInt_lt
  rw [smallest] at difference
  rw [Int32.le_iff_toInt_le, Int32.toInt_zero] at aNonneg
  have value : Int32.minValue.toInt = -2147483648 := rfl
  omega

theorem Segment.between_representable {previous current : SourceMapState}
    (previousNonneg : previous.Nonneg) (currentNonneg : current.Nonneg) :
    (Segment.between previous current).Representable :=
  ⟨sub_ne_minValue currentNonneg.generatedColumn previousNonneg.generatedColumn,
    sub_ne_minValue currentNonneg.sourceIndex previousNonneg.sourceIndex,
    sub_ne_minValue currentNonneg.originalLine previousNonneg.originalLine,
    sub_ne_minValue currentNonneg.originalColumn previousNonneg.originalColumn⟩

theorem descends_between {previous current : SourceMapState} (previousNonneg : previous.Nonneg)
    (currentNonneg : current.Nonneg) :
    descends (.segment (Segment.between previous current)) = false ↔
      previous.generatedColumn.toInt ≤ current.generatedColumn.toInt := by
  have difference := toInt_sub_of_nonneg currentNonneg.generatedColumn previousNonneg.generatedColumn
  have negative : current.generatedColumn - previous.generatedColumn < 0 ↔
      current.generatedColumn.toInt - previous.generatedColumn.toInt < 0 := by
    rw [Int32.lt_iff_toInt_lt, difference, Int32.toInt_zero]
  change decide (current.generatedColumn - previous.generatedColumn < 0) = false ↔ _
  rw [decide_eq_false_iff_not, negative]
  omega

theorem add_sub_self (a b : Int32) : a + (b - a) = b := by grind

theorem TextCursor.apply_between (previous current : SourceMapState)
    (sameLine : previous.generatedLine = current.generatedLine) :
    previous.cursor.apply (Segment.between previous current) = current.cursor := by
  simp [TextCursor.apply, Segment.between, SourceMapState.cursor, add_sub_self, sameLine]

/-! ### Appending to a text -/

/-- Whether `append_mapping_to_buffer` puts a comma after a byte. -/
def needsComma (lastByte : UInt8) : Prop :=
  lastByte ≠ 0 ∧ lastByte ≠ Vlq.semicolon ∧ lastByte ≠ Vlq.doubleQuote

instance (lastByte : UInt8) : Decidable (needsComma lastByte) :=
  inferInstanceAs (Decidable (_ ∧ _))

theorem needsComma_render (items : List Item) :
    needsComma ((render false items).getLast?.getD 0) ↔ endsWithSegment false items = true := by
  rcases List.eq_nil_or_concat items with rfl | ⟨front, last, rfl⟩
  · simp [render, endsWithSegment, needsComma]
  · rw [List.concat_eq_append, render_append]
    cases last with
    | lineBreak => simp [render, endsWithSegment, needsComma]
    | segment deltas =>
        have nonempty := Vlq.encode_ne_nil deltas.originalColumn
        obtain ⟨byte, atEnd⟩ : ∃ byte, (Vlq.encode deltas.originalColumn).getLast? = some byte :=
          ⟨_, List.getLast?_eq_some_getLast nonempty⟩
        have lastOf : ((render false front ++ render (endsWithSegment false front)
            [Item.segment deltas]).getLast?) = some byte := by
          simp [render, Segment.encoded, List.getLast?_append, atEnd]
        have digit := encode_bytes deltas.originalColumn byte (List.mem_of_getLast? atEnd)
        rw [lastOf, Option.getD_some]
        simp [endsWithSegment, needsComma, digit]

theorem mappingSegment_eq (lastByte : UInt8) {previous current : SourceMapState}
    (previousNonneg : previous.Nonneg) (currentNonneg : current.Nonneg) :
    Vlq.mappingSegment lastByte previous current =
      (if needsComma lastByte then [Vlq.comma] else []) ++
        (Segment.between previous current).encoded := by
  unfold Vlq.mappingSegment
  rw [saturatingSub_eq currentNonneg.generatedColumn previousNonneg.generatedColumn,
    saturatingSub_eq currentNonneg.sourceIndex previousNonneg.sourceIndex,
    saturatingSub_eq currentNonneg.originalLine previousNonneg.originalLine,
    saturatingSub_eq currentNonneg.originalColumn previousNonneg.originalColumn]
  rfl

theorem appendMappingToBuffer_render (items : List Item) {previous current : SourceMapState}
    (previousNonneg : previous.Nonneg) (currentNonneg : current.Nonneg) :
    Vlq.appendMappingToBuffer (render false items) ((render false items).getLast?.getD 0) previous
        current =
      render false (items ++ [.segment (Segment.between previous current)]) := by
  rw [Vlq.appendMappingToBuffer, mappingSegment_eq _ previousNonneg currentNonneg, render_append]
  simp only [needsComma_render, render, List.append_nil]

theorem render_lineBreaks (count : Nat) :
    ∀ afterSegment, render afterSegment (List.replicate count Item.lineBreak) =
      List.replicate count Vlq.semicolon := by
  induction count with
  | zero => intro afterSegment; rfl
  | succ count ih =>
      intro afterSegment
      rw [List.replicate_succ, render, ih, List.replicate_succ]

theorem render_append_lineBreaks (items : List Item) (count : Nat) :
    render false (items ++ List.replicate count Item.lineBreak) =
      render false items ++ List.replicate count Vlq.semicolon := by
  rw [render_append, render_lineBreaks]

theorem add_one_add_ofNat (value : Int32) (count : Nat) :
    value + 1 + Int32.ofNat (count + 1) = value + Int32.ofNat (count + 1 + 1) := by
  have one : Int32.ofNat 1 = 1 := rfl
  rw [Int32.ofNat_add (count + 1) 1]
  grind

theorem foldl_move_lineBreaks (count : Nat) :
    ∀ cursor : TextCursor, (List.replicate (count + 1) Item.lineBreak).foldl TextCursor.move cursor =
      { cursor with generated := ⟨cursor.generated.lines + Int32.ofNat (count + 1), 0⟩ } := by
  induction count with
  | zero => intro cursor; rfl
  | succ count ih =>
      intro cursor
      rw [List.replicate_succ, List.foldl_cons, ih]
      simp only [TextCursor.move, TextCursor.nextLine, add_one_add_ofNat]

theorem rowsOf_lineBreaks (count : Nat) :
    ∀ cursor : TextCursor, rowsOf cursor (List.replicate count Item.lineBreak) = [] := by
  induction count with
  | zero => intro cursor; rfl
  | succ count ih =>
      intro cursor
      rw [List.replicate_succ, rowsOf, ih]

end Bun.SourceMap
