/-
One chunk of the join, on items: the joined text stays a rendering, and the items of
the chunk after its first segment are copied.
-/

import Bun.SourceMap.ChunkJoin

set_option autoImplicit false

namespace Bun.SourceMap

open Bun.SourceMap.InternalSourceMap (Trap)

/-! ### The first segment -/

def SourceMapState.applyFirst (state : SourceMapState) (deltas : Segment) : SourceMapState :=
  { state with
    sourceIndex := state.sourceIndex + deltas.sourceIndex
    generatedColumn := state.generatedColumn + deltas.generatedColumn
    originalLine := state.originalLine + deltas.originalLine
    originalColumn := state.originalColumn + deltas.originalColumn }

theorem pushFirstMapping_encoded (j : List UInt8) (prevEndState startState : SourceMapState)
    (deltas : Segment) (tail : List UInt8) (representable : deltas.Representable) :
    pushFirstMapping j prevEndState startState (deltas.encoded ++ tail) =
      j ++ Vlq.appendMappingToBuffer [] (lastByte j) prevEndState (startState.applyFirst deltas) ++
        tail := by
  obtain ⟨columnFits, sourceFits, lineFits, originalFits⟩ := representable
  have column := Vlq.decode_encode_front
    (Vlq.encode deltas.sourceIndex ++ (Vlq.encode deltas.originalLine ++
      (Vlq.encode deltas.originalColumn ++ tail))) deltas.generatedColumn columnFits
  have source := Vlq.decode_encode_at (Vlq.encode deltas.generatedColumn)
    (Vlq.encode deltas.originalLine ++ (Vlq.encode deltas.originalColumn ++ tail))
    deltas.sourceIndex sourceFits
  have line := Vlq.decode_encode_at (Vlq.encode deltas.generatedColumn ++ Vlq.encode deltas.sourceIndex)
    (Vlq.encode deltas.originalColumn ++ tail) deltas.originalLine lineFits
  have original := Vlq.decode_encode_at
    (Vlq.encode deltas.generatedColumn ++ Vlq.encode deltas.sourceIndex ++
      Vlq.encode deltas.originalLine) tail deltas.originalColumn originalFits
  simp only [List.append_assoc] at line original
  have whole : deltas.encoded ++ tail = Vlq.encode deltas.generatedColumn ++
      (Vlq.encode deltas.sourceIndex ++ (Vlq.encode deltas.originalLine ++
        (Vlq.encode deltas.originalColumn ++ tail))) := by
    simp only [Segment.encoded, List.append_assoc]
  have dropped : (deltas.encoded ++ tail).drop
      (Vlq.encode deltas.generatedColumn ++ (Vlq.encode deltas.sourceIndex ++
        (Vlq.encode deltas.originalLine ++ Vlq.encode deltas.originalColumn))).length = tail :=
    List.drop_left
  unfold pushFirstMapping
  rw [whole] at dropped ⊢
  rw [column]
  dsimp only
  rw [source]
  dsimp only
  rw [line]
  dsimp only
  rw [original]
  dsimp only
  rw [dropped]
  rfl

/-! ### The text -/

theorem render_eq_nil {items : List Item} (empty : render false items = []) : items = [] := by
  cases items with
  | nil => rfl
  | cons item items =>
      cases item with
      | lineBreak => cases empty
      | segment deltas =>
          rw [render, List.append_eq_nil_iff, List.append_eq_nil_iff, Segment.encoded,
            List.append_eq_nil_iff] at empty
          exact absurd empty.2.1.1 (Vlq.encode_ne_nil _)

theorem needsComma_lastByte {header : List UInt8} (opened : ¬needsComma (lastByte header))
    (items : List Item) :
    needsComma (lastByte (header ++ render false items)) ↔ endsWithSegment false items = true := by
  unfold lastByte
  cases empty : render false items with
  | nil =>
      obtain rfl := render_eq_nil empty
      rw [List.append_nil]
      exact ⟨fun comma => absurd comma opened, fun never => by cases never⟩
  | cons byte bytes =>
      rw [← needsComma_render items, empty, List.getLast?_append_of_ne_nil _ (List.cons_ne_nil _ _)]

theorem comma_lastByte {header : List UInt8} (opened : ¬needsComma (lastByte header))
    (items : List Item) :
    (if needsComma (lastByte (header ++ render false items)) then [Vlq.comma] else []) =
      if endsWithSegment false items then [Vlq.comma] else [] := by
  have comma := needsComma_lastByte opened items
  cases ends : endsWithSegment false items with
  | false =>
      have absent : ¬needsComma (lastByte (header ++ render false items)) := by
        rw [comma, ends]
        exact Bool.false_ne_true
      rw [if_neg absent, if_neg Bool.false_ne_true]
  | true => rw [if_pos (comma.mpr ends), if_pos rfl]

theorem render_append_segment (items rest : List Item) (deltas : Segment) :
    render false (items ++ .segment deltas :: rest) =
      render false items ++ ((if endsWithSegment false items then [Vlq.comma] else []) ++
        (deltas.encoded ++ render true rest)) := by
  rw [render_append, render]

theorem render_joined {header : List UInt8} (opened : ¬needsComma (lastByte header))
    (items rest : List Item) {previous current : SourceMapState}
    (previousNonneg : previous.Nonneg) (currentNonneg : current.Nonneg) :
    header ++ render false items ++ Vlq.appendMappingToBuffer []
        (lastByte (header ++ render false items)) previous current ++ render true rest =
      header ++ render false (items ++ .segment (Segment.between previous current) :: rest) := by
  have written : Vlq.appendMappingToBuffer [] (lastByte (header ++ render false items)) previous
      current = (if endsWithSegment false items then [Vlq.comma] else []) ++
        (Segment.between previous current).encoded := by
    rw [Vlq.appendMappingToBuffer, mappingSegment_eq _ previousNonneg currentNonneg,
      comma_lastByte opened, List.nil_append]
  rw [written, render_append_segment]
  simp only [List.append_assoc]

theorem render_leading (count : Nat) (items : List Item) :
    render false (List.replicate count Item.lineBreak ++ items) =
      List.replicate count Vlq.semicolon ++ render false items := by
  induction count with
  | zero => rfl
  | succ count ih =>
      rw [List.replicate_succ, List.cons_append, render, ih, List.replicate_succ, List.cons_append]

theorem indexOfNotChar_leading (count : Nat) {byte : UInt8} {rest : List UInt8}
    (other : byte ≠ Vlq.semicolon) :
    indexOfNotChar (List.replicate count Vlq.semicolon ++ byte :: rest) Vlq.semicolon =
      some count := by
  unfold indexOfNotChar
  induction count with
  | zero => simp [List.findIdx?_cons, other]
  | succ count ih =>
      rw [List.replicate_succ, List.cons_append, List.findIdx?_cons, ih]
      simp

theorem encoded_head (deltas : Segment) :
    ∃ byte rest, deltas.encoded = byte :: rest ∧ byte ≠ Vlq.semicolon := by
  obtain ⟨byte, rest, cons, -, notSemicolon⟩ := encode_head deltas.generatedColumn
  have whole : deltas.encoded = byte :: (rest ++ (Vlq.encode deltas.sourceIndex ++
      (Vlq.encode deltas.originalLine ++ Vlq.encode deltas.originalColumn))) := by
    rw [Segment.encoded, cons, List.cons_append]
  exact ⟨byte, _, whole, notSemicolon⟩

/-- The state before the first segment, once line breaks were pushed. -/
def SourceMapState.afterBreaks (state : SourceMapState) (count : Nat) : SourceMapState :=
  if 0 < count then { state with generatedColumn := 0 } else state

theorem SourceMapState.Nonneg.afterBreaks {state : SourceMapState} (nonneg : state.Nonneg)
    (count : Nat) : (state.afterBreaks count).Nonneg := by
  unfold SourceMapState.afterBreaks
  split
  · exact { nonneg with generatedColumn := Int32.le_refl _ }
  · exact nonneg

theorem SourceMapState.afterBreaks_afterBreaks (state : SourceMapState) (first second : Nat) :
    (state.afterBreaks first).afterBreaks second = state.afterBreaks (first + second) := by
  unfold SourceMapState.afterBreaks
  by_cases some : 0 < first
  · rw [if_pos some, if_pos (by omega : 0 < first + second)]
    split <;> rfl
  · have none : first = 0 := by omega
    subst none
    rw [if_neg some, Nat.zero_add]

theorem pushLineBreaks_eq (j : List UInt8) (prevEndState startState : SourceMapState)
    (nonneg : 0 ≤ startState.generatedLine) :
    pushLineBreaks j prevEndState startState =
      .ok (j ++ List.replicate startState.generatedLine.toInt.toNat Vlq.semicolon,
        prevEndState.afterBreaks startState.generatedLine.toInt.toNat) := by
  unfold pushLineBreaks expectUsize SourceMapState.afterBreaks
  by_cases sameLine : startState.generatedLine = 0
  · rw [if_neg (by simpa using sameLine), sameLine, Int32.toInt_zero]
    simp
  · have lines : 0 < startState.generatedLine.toInt.toNat := by
      rw [Int32.le_iff_toInt_le, Int32.toInt_zero] at nonneg
      have distinct : startState.generatedLine.toInt ≠ 0 := by
        intro zero
        exact sameLine (Int32.toInt_inj.mp (by rw [zero, Int32.toInt_zero]))
      omega
    rw [if_pos sameLine, if_pos nonneg, if_pos lines]
    rfl

theorem appendSourceMapChunk_render {header : List UInt8} (opened : ¬needsComma (lastByte header))
    (items rest : List Item) (leading : Nat) (deltas : Segment)
    {prevEndState startState : SourceMapState} (prevNonneg : prevEndState.Nonneg)
    (lineNonneg : 0 ≤ startState.generatedLine) (representable : deltas.Representable)
    (targetNonneg : ((startState.afterBreaks leading).applyFirst deltas).Nonneg) :
    appendSourceMapChunk (header ++ render false items) prevEndState startState
        (render false (List.replicate leading .lineBreak ++ .segment deltas :: rest)) =
      .ok (header ++ render false (items ++
        List.replicate (startState.generatedLine.toInt.toNat + leading) .lineBreak ++
          .segment (Segment.between
            (prevEndState.afterBreaks (startState.generatedLine.toInt.toNat + leading))
            ((startState.afterBreaks leading).applyFirst deltas)) :: rest)) := by
  obtain ⟨byte, tail, head, notSemicolon⟩ := encoded_head deltas
  generalize breaksEq : startState.generatedLine.toInt.toNat = breaks
  have sourceMapEq : render false (List.replicate leading .lineBreak ++ .segment deltas :: rest) =
      List.replicate leading Vlq.semicolon ++ (deltas.encoded ++ render true rest) :=
    render_leading leading (.segment deltas :: rest)
  have index : indexOfNotChar (List.replicate leading Vlq.semicolon ++
      (deltas.encoded ++ render true rest)) Vlq.semicolon = some leading := by
    rw [head, List.cons_append]
    exact indexOfNotChar_leading leading notSemicolon
  have joined := render_joined opened
    (items ++ List.replicate (breaks + leading) Item.lineBreak) rest
    (prevNonneg.afterBreaks (breaks + leading)) targetNonneg
  have front : header ++ render false (items ++ List.replicate (breaks + leading) Item.lineBreak) =
      header ++ render false items ++ List.replicate breaks Vlq.semicolon ++
        List.replicate leading Vlq.semicolon := by
    rw [render_append_lineBreaks, ← List.replicate_append_replicate]
    simp only [List.append_assoc]
  unfold appendSourceMapChunk
  rw [pushLineBreaks_eq _ _ _ lineNonneg, sourceMapEq]
  simp only [bind, Except.bind, index, breaksEq]
  rw [← joined, front]
  by_cases some : 0 < leading
  · rw [if_pos some, List.take_left' (List.length_replicate), List.drop_left' (List.length_replicate)]
    rw [pushFirstMapping_encoded _ _ _ _ _ representable]
    rw [← SourceMapState.afterBreaks_afterBreaks]
    unfold SourceMapState.afterBreaks
    rw [if_pos some, if_pos some]
    rfl
  · have none : leading = 0 := by omega
    subst none
    rw [if_neg some, List.replicate_zero, List.nil_append, List.append_nil,
      pushFirstMapping_encoded _ _ _ _ _ representable]
    rfl

end Bun.SourceMap
