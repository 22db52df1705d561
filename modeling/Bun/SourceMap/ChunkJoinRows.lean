/-
The rows of a joined map: the mappings of every chunk, moved to where the chunk
starts.

The join follows the end positions the printer's builder maintains.  They are the
true ends of the texts when the builder counts the line terminators of a text as
`advance` does.
-/

import Bun.SourceMap.ChunkJoinItems

set_option autoImplicit false

namespace Bun.SourceMap

open Bun.Core
open Bun.SourceMap.InternalSourceMap (Trap)
open Bun.SourceMap.Printer (PrintStep printedText Written OwnRow)

/-! ### Printed chunks -/

/-- A run of the printer, where its text goes, and its source. -/
structure PrintedChunk where
  steps : List PrintStep
  coverLinesWithoutMappings : Bool
  generatedOffset : LineColumnOffset
  sourceIndex : UInt32
deriving Repr

namespace PrintedChunk

def output (printed : PrintedChunk) : List UInt8 := encodeText (printedText printed.steps)

def builder (printed : PrintedChunk) : Printer.Builder :=
  (Printer.Builder.init printed.coverLinesWithoutMappings false).print [] printed.steps

def chunk (printed : PrintedChunk) : Except Trap Printer.Chunk :=
  printed.builder.generateChunk printed.output

def result (printed : PrintedChunk) : Except Trap CompileResultForSourceMap := do
  let chunk ← printed.chunk
  return {
    sourceMapChunk := chunk
    generatedOffset := printed.generatedOffset
    sourceIndex := printed.sourceIndex }

def mappings (printed : PrintedChunk) : List MappingWithoutName :=
  match printed.chunk with
  | .error _ => []
  | .ok chunk =>
      match parse chunk.buffer 1 ⟨false, false⟩ with
      | .error _ => []
      | .ok list => list.rows

/-- A bound for the part of the output up to the end of the chunk's text. -/
def size (printed : PrintedChunk) : Nat :=
  printed.output.length + printed.generatedOffset.lines.toInt.toNat +
    printed.generatedOffset.columns.toInt.toNat

end PrintedChunk

/-- A mapping of a chunk that starts at `start` and has the source `index`. -/
def MappingWithoutName.moveTo (row : MappingWithoutName) (start : LineColumnOffset) (index : Int32) :
    MappingWithoutName :=
  { generated := start.add row.generated
    original := row.original
    sourceIndex := index }

/-- The mappings of all chunks, from `position` on.  `textEnd` is the end of a chunk's
text, counted from the start of the text. -/
def movedMappings (textEnd : PrintedChunk → LineColumnOffset) (indexOf : UInt32 → Int32) :
    LineColumnOffset → List PrintedChunk → List MappingWithoutName
  | _, [] => []
  | position, printed :: rest =>
      printed.mappings.map
          (·.moveTo (position.add printed.generatedOffset) (indexOf printed.sourceIndex)) ++
        movedMappings textEnd indexOf
          ((position.add printed.generatedOffset).add (textEnd printed)) rest

/-! ### Positions -/

theorem LineColumnOffset.add_lines (a b : LineColumnOffset) : (a.add b).lines = a.lines + b.lines := by
  unfold LineColumnOffset.add
  split
  · rename_i sameLine
    rw [sameLine, Int32.add_zero]
  · rfl

theorem toInt_add_of_within {a b : Int32} {first second : Nat} (aNonneg : 0 ≤ a.toInt)
    (aBound : a.toInt ≤ first) (bNonneg : 0 ≤ b.toInt) (bBound : b.toInt ≤ second)
    (fits : first + second < 2 ^ 31) : (a + b).toInt = a.toInt + b.toInt := by
  rw [Int32.toInt_add, Int.bmod_def]
  omega

theorem LineColumnOffset.Within.add {a b : LineColumnOffset} {first second : Nat}
    (aWithin : a.Within first) (bWithin : b.Within second) (fits : first + second < 2 ^ 31) :
    (a.add b).Within (first + second) := by
  obtain ⟨aLinesNonneg, aLines, aColumnsNonneg, aColumns⟩ := aWithin
  obtain ⟨bLinesNonneg, bLines, bColumnsNonneg, bColumns⟩ := bWithin
  have lines := toInt_add_of_within aLinesNonneg aLines bLinesNonneg bLines fits
  have columns := toInt_add_of_within aColumnsNonneg aColumns bColumnsNonneg bColumns fits
  unfold LineColumnOffset.add
  split
  · exact ⟨aLinesNonneg, by dsimp only; omega, by dsimp only; omega, by dsimp only; omega⟩
  · exact ⟨by dsimp only; omega, by dsimp only; omega, bColumnsNonneg, by dsimp only; omega⟩

/-! ### Moving the items of a chunk -/

structure Moved (start : LineColumnOffset) (index : Int32) (cursor moved : TextCursor) : Prop where
  generated : moved.generated = start.add cursor.generated
  original : moved.original = cursor.original
  sourceIndex : moved.sourceIndex = index + cursor.sourceIndex

theorem Moved.nextLine {start : LineColumnOffset} {index : Int32} {cursor moved : TextCursor}
    (related : Moved start index cursor moved) (later : cursor.generated.lines + 1 ≠ 0) :
    Moved start index cursor.nextLine moved.nextLine := by
  refine ⟨?_, related.original, related.sourceIndex⟩
  dsimp only [TextCursor.nextLine]
  rw [related.generated, LineColumnOffset.add_lines]
  unfold LineColumnOffset.add
  rw [if_neg later, Int32.add_assoc]

theorem Moved.apply {start : LineColumnOffset} {index : Int32} {cursor moved : TextCursor}
    (related : Moved start index cursor moved) (deltas : Segment) :
    Moved start index (cursor.apply deltas) (moved.apply deltas) := by
  constructor
  · dsimp only [TextCursor.apply]
    rw [related.generated]
    unfold LineColumnOffset.add
    dsimp only
    split
    · simp only [Int32.add_assoc]
    · rfl
  · dsimp only [TextCursor.apply]
    rw [related.original]
  · dsimp only [TextCursor.apply]
    rw [related.sourceIndex, Int32.add_assoc]

theorem ofNat_succ_ne_zero {n : Nat} (fits : n + 1 < 2 ^ 31) : Int32.ofNat n + 1 ≠ 0 := by
  intro zero
  have value := congrArg Int32.toInt zero
  rw [show Int32.ofNat n + 1 = Int32.ofNat (n + 1) from (Int32.ofNat_add n 1).symm,
    Int32.toInt_ofNat_of_lt fits, Int32.toInt_zero] at value
  omega

theorem Moved.rows {start : LineColumnOffset} {index : Int32} (items : List Item) :
    ∀ {cursor moved : TextCursor} {n : Nat}, Moved start index cursor moved →
      cursor.generated.lines = Int32.ofNat n → n + items.count .lineBreak < 2 ^ 31 →
      rowsOf moved items = (rowsOf cursor items).map
          (fun row => row.moveTo start (index + row.sourceIndex)) ∧
        Moved start index (items.foldl TextCursor.move cursor) (items.foldl TextCursor.move moved) := by
  induction items with
  | nil =>
      intro cursor moved n related _ _
      exact ⟨rfl, related⟩
  | cons item items ih =>
      intro cursor moved n related lines fits
      cases item with
      | lineBreak =>
          rw [List.count_cons_self] at fits
          rw [rowsOf, rowsOf, List.foldl_cons, List.foldl_cons]
          apply ih (related.nextLine (by rw [lines]; exact ofNat_succ_ne_zero (by omega)))
          · change cursor.generated.lines + 1 = Int32.ofNat (n + 1)
            rw [lines, Int32.ofNat_add]
            rfl
          · omega
      | segment deltas =>
          have applied := related.apply deltas
          have same : (Item.segment deltas :: items).count .lineBreak = items.count .lineBreak := by
            rw [List.count_cons_of_ne (by simp)]
          rw [same] at fits
          obtain ⟨later, final⟩ := ih applied lines fits
          refine ⟨?_, final⟩
          rw [rowsOf, rowsOf, later, List.map_cons]
          congr 1
          dsimp only [TextCursor.row, MappingWithoutName.moveTo]
          rw [applied.generated, applied.original, applied.sourceIndex]

theorem items_split {items : List Item} (mapped : rowsOf .start items ≠ []) :
    ∃ leading deltas rest, items = List.replicate leading .lineBreak ++ .segment deltas :: rest := by
  have general : ∀ cursor : TextCursor, rowsOf cursor items ≠ [] →
      ∃ leading deltas rest, items = List.replicate leading .lineBreak ++ .segment deltas :: rest := by
    clear mapped
    induction items with
    | nil =>
        intro cursor mapped
        exact absurd rfl mapped
    | cons item items ih =>
        intro cursor mapped
        cases item with
        | lineBreak =>
            obtain ⟨leading, deltas, rest, itemsEq⟩ := ih cursor.nextLine mapped
            exact ⟨leading + 1, deltas, rest, by rw [itemsEq, List.replicate_succ]; rfl⟩
        | segment deltas => exact ⟨0, deltas, items, rfl⟩
  exact general .start mapped

/-! ### The chunk of a run -/

theorem PrintedChunk.written (printed : PrintedChunk) (fits : printed.output.length < 2 ^ 31) :
    ∃ items, Written printed.builder printed.output.length items ∧
      printed.mappings = rowsOf .start items ∧
      printed.chunk = .ok
        { buffer := render false items
          endState := printed.builder.prevState
          finalGeneratedColumn := printed.builder.generatedColumn
          shouldIgnore := (rowsOf .start items).isEmpty } := by
  obtain ⟨items, builder, written, printedEq, generated⟩ :=
    Printer.generateChunk_written printed.coverLinesWithoutMappings printed.steps fits
  obtain rfl : printed.builder = builder := printedEq
  have chunkEq : printed.chunk = _ := generated
  refine ⟨items, written, ?_, chunkEq⟩
  have readable : Readable 1 .start items := by
    refine ⟨written.representable, ?_⟩
    intro row member
    obtain ⟨within, source, line, column⟩ := written.rows row member
    refine ⟨?_, ?_, ?_, line, column⟩
    · rw [Int32.le_iff_toInt_le, Int32.toInt_zero]
      exact within.columnsNonneg
    · rw [source]
      exact Int32.le_refl _
    · rw [source]
      decide
  obtain ⟨list, parsed, rows⟩ := parse_render 1 ⟨false, false⟩ items readable
  unfold PrintedChunk.mappings
  rw [chunkEq]
  dsimp only
  rw [parsed]
  dsimp only
  rw [rows]
  simp

/-! ### The loop -/

/-- The join after some chunks: its text, and the place of the next text. -/
structure Joined (header : List UInt8) (sourcesCount : Int32) (state : JoinState)
    (position : LineColumnOffset) (size : Nat) (items : List Item) : Prop where
  text : state.j = header ++ render false items
  cursor : items.foldl TextCursor.move .start =
    { state.prevEndState with generatedLine := position.lines : SourceMapState }.cursor
  column : state.prevColumnOffset = position.columns
  within : position.Within size
  nonneg : state.prevEndState.Nonneg
  behind : state.prevEndState.generatedColumn.toInt ≤ position.columns.toInt
  representable : ∀ deltas, Item.segment deltas ∈ items → deltas.Representable
  accepted : ∀ row ∈ rowsOf .start items, row.Accepted sourcesCount
  ascending : items.any descends = false

theorem Joined.init (header : List UInt8) (sourcesCount : Int32) :
    Joined header sourcesCount { j := header, prevEndState := .zero, prevColumnOffset := 0 } .start 0
      [] := by
  constructor
  case text => rw [render, List.append_nil]
  case within => exact ⟨Int.le_refl _, Int.le_refl _, Int.le_refl _, Int.le_refl _⟩
  case nonneg => exact ⟨Int32.le_refl _, Int32.le_refl _, Int32.le_refl _, Int32.le_refl _⟩
  case behind => exact Int.le_refl _
  case representable =>
    intro deltas member
    cases member
  case accepted =>
    intro row member
    cases member
  all_goals rfl

theorem start_within {position offset : LineColumnOffset} {size : Nat} (within : position.Within size)
    (lines : 0 ≤ offset.lines) (columns : 0 ≤ offset.columns)
    (fits : size + (offset.lines.toInt.toNat + offset.columns.toInt.toNat) < 2 ^ 31) :
    (position.add offset).Within
      (size + (offset.lines.toInt.toNat + offset.columns.toInt.toNat)) := by
  rw [Int32.le_iff_toInt_le, Int32.toInt_zero] at lines columns
  exact within.add ⟨lines, by omega, columns, by omega⟩ fits

/-! ### The first segment of a chunk -/

theorem foldl_breaks_start (count : Nat) :
    (List.replicate count Item.lineBreak).foldl TextCursor.move .start =
      { TextCursor.start with generated := ⟨Int32.ofNat count, 0⟩ } := by
  cases count with
  | zero => rfl
  | succ count =>
      rw [foldl_move_lineBreaks]
      simp [TextCursor.start, LineColumnOffset.start]

theorem foldl_breaks_state (state : SourceMapState) (count : Nat) :
    (List.replicate count Item.lineBreak).foldl TextCursor.move state.cursor =
      { state.afterBreaks count with
        generatedLine := state.generatedLine + Int32.ofNat count : SourceMapState }.cursor := by
  cases count with
  | zero =>
      unfold SourceMapState.afterBreaks
      simp [SourceMapState.cursor]
  | succ count =>
      rw [foldl_move_lineBreaks]
      unfold SourceMapState.afterBreaks
      rw [if_pos (Nat.zero_lt_succ count)]
      rfl

/-- The start state the loop makes for a chunk that starts at `start`. -/
def startState (offset start : LineColumnOffset) (index : Int32) : SourceMapState :=
  { generatedLine := offset.lines
    generatedColumn := start.columns
    sourceIndex := index
    originalLine := 0
    originalColumn := 0 }

theorem moved_first (position offset : LineColumnOffset) (index : Int32) (leading : Nat)
    (deltas : Segment) (lines : 0 ≤ offset.lines) (fits : leading < 2 ^ 31) :
    Moved (position.add offset) index
      (TextCursor.apply { TextCursor.start with generated := ⟨Int32.ofNat leading, 0⟩ } deltas)
      { ((startState offset (position.add offset) index).afterBreaks leading).applyFirst deltas with
        generatedLine := position.lines + Int32.ofNat (offset.lines.toInt.toNat + leading) :
          SourceMapState }.cursor := by
  have offsetLines : Int32.ofNat offset.lines.toInt.toNat = offset.lines := by
    rw [Int32.le_iff_toInt_le, Int32.toInt_zero] at lines
    have bounded := offset.lines.toInt_lt
    apply Int32.toInt_inj.mp
    rw [Int32.toInt_ofNat_of_lt (by omega)]
    omega
  have lineEq : position.lines + Int32.ofNat (offset.lines.toInt.toNat + leading) =
      (position.add offset).lines + Int32.ofNat leading := by
    rw [Int32.ofNat_add, offsetLines, LineColumnOffset.add_lines, Int32.add_assoc]
  rw [lineEq]
  generalize position.add offset = start
  unfold SourceMapState.afterBreaks
  constructor
  · by_cases some : 0 < leading
    · have nonzero : Int32.ofNat leading ≠ 0 := by
        intro zero
        have value := congrArg Int32.toInt zero
        rw [Int32.toInt_ofNat_of_lt fits, Int32.toInt_zero] at value
        omega
      rw [if_pos some]
      simp [SourceMapState.cursor, SourceMapState.applyFirst, TextCursor.apply,
        LineColumnOffset.add, nonzero]
    · have none : leading = 0 := by omega
      subst none
      rw [if_neg some]
      simp [SourceMapState.cursor, SourceMapState.applyFirst, TextCursor.apply,
        LineColumnOffset.add, startState]
  · split <;> rfl
  · split <;> simp [SourceMapState.cursor, SourceMapState.applyFirst, TextCursor.apply, startState,
      TextCursor.start]

def joinedItems (prevEndState target : SourceMapState) (breaks : Nat) (rest : List Item) : List Item :=
  List.replicate breaks .lineBreak ++
    .segment (Segment.between (prevEndState.afterBreaks breaks) target) :: rest

theorem joinedItems_rows {position offset : LineColumnOffset} {prevEndState : SourceMapState}
    {items rest own more : List Item} {leading : Nat} {deltas : Segment} {target : SourceMapState}
    (index : Int32)
    (cursor : items.foldl TextCursor.move .start =
      { prevEndState with generatedLine := position.lines : SourceMapState }.cursor)
    (lines : 0 ≤ offset.lines) (fits : leading + rest.count .lineBreak < 2 ^ 31)
    (ownEq : own = List.replicate leading Item.lineBreak ++ .segment deltas :: rest)
    (targetEq : target =
      ((startState offset (position.add offset) index).afterBreaks leading).applyFirst deltas)
    (moreEq : more = joinedItems prevEndState target (offset.lines.toInt.toNat + leading) rest) :
    rowsOf .start (items ++ more) = rowsOf .start items ++ (rowsOf .start own).map
        (fun row => row.moveTo (position.add offset) (index + row.sourceIndex)) ∧
      Moved (position.add offset) index (own.foldl TextCursor.move .start)
        ((items ++ more).foldl TextCursor.move .start) := by
  have first : Moved (position.add offset) index _ _ :=
    moved_first position offset index leading deltas lines (by omega)
  rw [← targetEq] at first
  obtain ⟨restRows, final⟩ := first.rows rest rfl fits
  have broken : (List.replicate (offset.lines.toInt.toNat + leading) Item.lineBreak).foldl
      TextCursor.move (items.foldl TextCursor.move .start) =
        { prevEndState.afterBreaks (offset.lines.toInt.toNat + leading) with
          generatedLine := position.lines + Int32.ofNat (offset.lines.toInt.toNat + leading) :
            SourceMapState }.cursor := by
    rw [cursor, foldl_breaks_state]
    unfold SourceMapState.afterBreaks
    split <;> rfl
  have applied := TextCursor.apply_between
    { prevEndState.afterBreaks (offset.lines.toInt.toNat + leading) with
      generatedLine := position.lines + Int32.ofNat (offset.lines.toInt.toNat + leading) }
    { target with
      generatedLine := position.lines + Int32.ofNat (offset.lines.toInt.toNat + leading) } rfl
  have segmentEq : Segment.between
      { prevEndState.afterBreaks (offset.lines.toInt.toNat + leading) with
        generatedLine := position.lines + Int32.ofNat (offset.lines.toInt.toNat + leading) }
      { target with
        generatedLine := position.lines + Int32.ofNat (offset.lines.toInt.toNat + leading) } =
      Segment.between (prevEndState.afterBreaks (offset.lines.toInt.toNat + leading)) target := rfl
  rw [segmentEq] at applied
  rw [ownEq, moreEq, joinedItems]
  constructor
  · rw [rowsOf_append, rowsOf_append, rowsOf_lineBreaks, rowsOf_append, rowsOf_lineBreaks, broken,
      foldl_breaks_start]
    rw [rowsOf, rowsOf, applied, restRows, List.nil_append, List.nil_append, List.map_cons]
    congr 2
    dsimp only [TextCursor.row, MappingWithoutName.moveTo]
    rw [first.generated, first.original, first.sourceIndex]
  · rw [List.foldl_append, List.foldl_append, List.foldl_append, broken, foldl_breaks_start,
      List.foldl_cons, List.foldl_cons, TextCursor.move, TextCursor.move, applied]
    exact final

/-! ### One chunk of the loop -/

/-- What the loop keeps after a chunk that starts at `start`. -/
def joinedState (j : List UInt8) (start : LineColumnOffset) (index : Int32)
    (builder : Printer.Builder) : JoinState :=
  if builder.prevState.generatedLine = 0 then
    { j := j
      prevEndState :=
        { builder.prevState with
          sourceIndex := index
          generatedColumn := builder.prevState.generatedColumn + start.columns }
      prevColumnOffset := builder.generatedColumn + start.columns }
  else
    { j := j
      prevEndState := { builder.prevState with sourceIndex := index }
      prevColumnOffset := builder.generatedColumn }

theorem joinChunk_eq {ids : List (UInt32 × Int32)} {state : JoinState}
    {result : CompileResultForSourceMap} {index : Int32} {position : LineColumnOffset}
    {builder : Printer.Builder} {j : List UInt8}
    (found : ids.lookup result.sourceIndex = some index)
    (column : state.prevColumnOffset = position.columns)
    (endState : result.sourceMapChunk.endState = builder.prevState)
    (final : result.sourceMapChunk.finalGeneratedColumn = builder.generatedColumn)
    (appended : appendSourceMapChunk state.j state.prevEndState
      (startState result.generatedOffset (position.add result.generatedOffset) index)
      result.sourceMapChunk.buffer = .ok j) :
    joinChunk ids state result =
      .ok (joinedState j (position.add result.generatedOffset) index builder) := by
  have startColumn : (if result.generatedOffset.lines = 0 then
      result.generatedOffset.columns + state.prevColumnOffset else result.generatedOffset.columns) =
        (position.add result.generatedOffset).columns := by
    unfold LineColumnOffset.add
    split
    · rw [column, Int32.add_comm]
    · rfl
  have started : SourceMapState.mk result.generatedOffset.lines
      (if result.generatedOffset.lines = 0 then
        result.generatedOffset.columns + state.prevColumnOffset else result.generatedOffset.columns)
      index 0 0 =
      startState result.generatedOffset (position.add result.generatedOffset) index := by
    rw [startColumn]
    rfl
  unfold joinChunk joinedState
  rw [found]
  dsimp only
  rw [started, appended, endState, final, startColumn]
  simp only [bind, Except.bind]
  split <;> rfl

theorem joinedState_j (j : List UInt8) (start : LineColumnOffset) (index : Int32)
    (builder : Printer.Builder) : (joinedState j start index builder).j = j := by
  unfold joinedState
  split <;> rfl

theorem joinedState_place {start : LineColumnOffset} {index : Int32} {builder : Printer.Builder}
    {moved : TextCursor} (j : List UInt8) (source : builder.prevState.sourceIndex = 0)
    (related : Moved start index builder.prevState.cursor moved) :
    moved = { (joinedState j start index builder).prevEndState with
        generatedLine := (start.add builder.position).lines : SourceMapState }.cursor ∧
      (joinedState j start index builder).prevColumnOffset = (start.add builder.position).columns := by
  obtain ⟨generated, original, sourceIndex⟩ := related
  have sourceEq : moved.sourceIndex = index := by
    rw [sourceIndex]
    dsimp only [SourceMapState.cursor]
    rw [source, Int32.add_zero]
  obtain ⟨movedGenerated, movedOriginal, movedSource⟩ := moved
  dsimp only at generated original sourceEq
  subst generated original sourceEq
  unfold joinedState
  by_cases firstLine : builder.prevState.generatedLine = 0
  · rw [if_pos firstLine]
    simp [SourceMapState.cursor, LineColumnOffset.add, Printer.Builder.position, firstLine,
      Int32.add_comm]
  · rw [if_neg firstLine]
    simp [SourceMapState.cursor, LineColumnOffset.add, Printer.Builder.position, firstLine]

theorem joinedState_nonneg {start : LineColumnOffset} {index : Int32} {builder : Printer.Builder}
    {own : List Item} {first second : Nat} (j : List UInt8) (written : Written builder second own)
    (startWithin : start.Within first) (indexNonneg : 0 ≤ index) (fits : first + second < 2 ^ 31) :
    (joinedState j start index builder).prevEndState.Nonneg ∧
      (joinedState j start index builder).prevEndState.generatedColumn.toInt ≤
        (joinedState j start index builder).prevColumnOffset.toInt := by
  obtain ⟨columnNonneg, -, lineNonneg, originalNonneg⟩ := written.nonneg
  have columnNonneg' : 0 ≤ builder.prevState.generatedColumn.toInt := by
    rwa [Int32.le_iff_toInt_le, Int32.toInt_zero] at columnNonneg
  have behind := written.behind
  have reachedNonneg : 0 ≤ builder.generatedColumn.toInt := written.within.columnsNonneg
  have reached : builder.generatedColumn.toInt ≤ second := written.within.columns
  unfold joinedState
  split
  · have kept := toInt_add_of_within columnNonneg' (Int.le_trans behind reached)
      startWithin.columnsNonneg startWithin.columns (by omega)
    have moved := toInt_add_of_within reachedNonneg reached
      startWithin.columnsNonneg startWithin.columns (by omega)
    have startNonneg := startWithin.columnsNonneg
    refine ⟨⟨?_, indexNonneg, lineNonneg, originalNonneg⟩, ?_⟩
    · rw [Int32.le_iff_toInt_le, Int32.toInt_zero]
      dsimp only
      omega
    · dsimp only
      omega
  · exact ⟨⟨columnNonneg, indexNonneg, lineNonneg, originalNonneg⟩, behind⟩

theorem OwnRow.accepted {row : MappingWithoutName} {start : LineColumnOffset} {first second : Nat}
    {index sourcesCount : Int32} (own : OwnRow row second) (startWithin : start.Within first)
    (fits : first + second < 2 ^ 31) (indexNonneg : 0 ≤ index) (indexBelow : index < sourcesCount) :
    (row.moveTo start index).Accepted sourcesCount := by
  have within := startWithin.add own.generated fits
  refine ⟨?_, indexNonneg, indexBelow, own.originalLine, own.originalColumn⟩
  rw [Int32.le_iff_toInt_le, Int32.toInt_zero]
  exact within.columnsNonneg

def firstCursor (leading : Nat) (deltas : Segment) : TextCursor :=
  TextCursor.apply { TextCursor.start with generated := ⟨Int32.ofNat leading, 0⟩ } deltas

theorem target_forward {position offset : LineColumnOffset} {prevEndState : SourceMapState}
    {index : Int32} {leading first second : Nat} {deltas : Segment}
    (own : OwnRow (firstCursor leading deltas).row second)
    (within : position.Within first) (behind : prevEndState.generatedColumn.toInt ≤ position.columns.toInt)
    (lines : 0 ≤ offset.lines) (columns : 0 ≤ offset.columns)
    (fits : first + (offset.lines.toInt.toNat + offset.columns.toInt.toNat) + second < 2 ^ 31)
    (indexNonneg : 0 ≤ index) :
    let target :=
      ((startState offset (position.add offset) index).afterBreaks leading).applyFirst deltas
    target.Nonneg ∧
      (prevEndState.afterBreaks (offset.lines.toInt.toNat + leading)).generatedColumn.toInt ≤
        target.generatedColumn.toInt := by
  obtain ⟨firstWithin, source, line, column⟩ := own
  have startWithin := start_within within lines columns (by omega)
  have columnNonneg : 0 ≤ deltas.generatedColumn.toInt := by
    simpa [firstCursor, TextCursor.apply, TextCursor.row] using firstWithin.columnsNonneg
  have columnBound : deltas.generatedColumn.toInt ≤ second := by
    simpa [firstCursor, TextCursor.apply, TextCursor.row] using firstWithin.columns
  have sourceZero : deltas.sourceIndex = 0 := by
    simpa [firstCursor, TextCursor.apply, TextCursor.row, TextCursor.start] using source
  have lineNonneg : 0 ≤ deltas.originalLine := by
    simpa [firstCursor, TextCursor.apply, TextCursor.row, TextCursor.start,
      LineColumnOffset.start] using line
  have originalNonneg : 0 ≤ deltas.originalColumn := by
    simpa [firstCursor, TextCursor.apply, TextCursor.row, TextCursor.start,
      LineColumnOffset.start] using column
  have moved := toInt_add_of_within startWithin.columnsNonneg startWithin.columns columnNonneg
    columnBound fits
  have startNonneg := startWithin.columnsNonneg
  intro target
  have targetColumn : target.generatedColumn =
      (if 0 < leading then 0 else (position.add offset).columns) + deltas.generatedColumn := by
    dsimp only [target, SourceMapState.applyFirst, SourceMapState.afterBreaks]
    split <;> rfl
  have targetNonneg : 0 ≤ target.generatedColumn.toInt := by
    rw [targetColumn]
    split
    · rw [Int32.zero_add]
      exact columnNonneg
    · omega
  refine ⟨⟨?_, ?_, ?_, ?_⟩, ?_⟩
  · rw [Int32.le_iff_toInt_le, Int32.toInt_zero]
    exact targetNonneg
  · dsimp only [target, SourceMapState.applyFirst, SourceMapState.afterBreaks]
    split <;> simpa [startState, sourceZero] using indexNonneg
  · dsimp only [target, SourceMapState.applyFirst, SourceMapState.afterBreaks]
    split <;> simpa [startState] using lineNonneg
  · dsimp only [target, SourceMapState.applyFirst, SourceMapState.afterBreaks]
    split <;> simpa [startState] using originalNonneg
  · by_cases broken : 0 < offset.lines.toInt.toNat + leading
    · unfold SourceMapState.afterBreaks
      rw [if_pos broken]
      exact targetNonneg
    · have sameLine : offset.lines = 0 := by
        rw [Int32.le_iff_toInt_le, Int32.toInt_zero] at lines
        exact Int32.toInt_inj.mp (by rw [Int32.toInt_zero]; omega)
      have startColumns : (position.add offset).columns.toInt =
          position.columns.toInt + offset.columns.toInt := by
        rw [Int32.le_iff_toInt_le, Int32.toInt_zero] at columns
        unfold LineColumnOffset.add
        rw [if_pos sameLine]
        exact toInt_add_of_within within.columnsNonneg within.columns columns
          (Int.self_le_toNat _) (by omega)
      rw [Int32.le_iff_toInt_le, Int32.toInt_zero] at columns
      unfold SourceMapState.afterBreaks
      rw [if_neg broken, targetColumn, if_neg (by omega)]
      omega

theorem Joined.chunk {header : List UInt8} {sourcesCount : Int32} {state : JoinState}
    {position : LineColumnOffset} {size : Nat} {items : List Item}
    (joined : Joined header sourcesCount state position size items)
    (opened : ¬needsComma (lastByte header)) (printed : PrintedChunk) {ids : List (UInt32 × Int32)}
    {index : Int32} (found : ids.lookup printed.sourceIndex = some index) (indexNonneg : 0 ≤ index)
    (indexBelow : index < sourcesCount) (lines : 0 ≤ printed.generatedOffset.lines)
    (columns : 0 ≤ printed.generatedOffset.columns) (fits : size + printed.size < 2 ^ 31)
    (mapped : printed.mappings ≠ []) :
    ∃ result next more, printed.result = .ok result ∧ joinChunk ids state result = .ok next ∧
      Joined header sourcesCount next
        ((position.add printed.generatedOffset).add printed.builder.position) (size + printed.size)
        (items ++ more) ∧
      rowsOf .start (items ++ more) = rowsOf .start items ++ printed.mappings.map
        (·.moveTo (position.add printed.generatedOffset) index) := by
  unfold PrintedChunk.size at fits
  obtain ⟨own, written, mappingsEq, chunkEq⟩ := printed.written (by omega)
  obtain ⟨leading, deltas, rest, ownEq⟩ := items_split (mappingsEq ▸ mapped)
  have startWithin := start_within joined.within lines columns (by omega)
  have breaks : leading + rest.count .lineBreak ≤ printed.output.length := by
    have counted := written.breaks
    rw [ownEq, List.count_append, List.count_replicate_self, List.count_cons_of_ne (by simp)] at counted
    exact counted
  have firstOwn : OwnRow (firstCursor leading deltas).row printed.output.length := by
    apply written.rows
    rw [ownEq, rowsOf_append, rowsOf_lineBreaks, foldl_breaks_start]
    exact List.mem_cons_self
  obtain ⟨targetNonneg, forward⟩ := target_forward firstOwn joined.within joined.behind lines columns
    (by omega) indexNonneg
  have representable : deltas.Representable :=
    written.representable deltas (by rw [ownEq]; exact List.mem_append_right _ List.mem_cons_self)
  obtain ⟨rows, related⟩ := joinedItems_rows index joined.cursor lines (by omega) ownEq rfl rfl
  have appended := appendSourceMapChunk_render opened items rest leading deltas joined.nonneg lines
    representable targetNonneg
  generalize targetEq : ((startState printed.generatedOffset (position.add printed.generatedOffset)
    index).afterBreaks leading).applyFirst deltas = target at targetNonneg forward rows related appended
  rw [List.append_assoc] at appended
  rw [written.cursor] at related
  have ownRows : (rowsOf .start own).map
      (fun row => row.moveTo (position.add printed.generatedOffset) (index + row.sourceIndex)) =
        printed.mappings.map (·.moveTo (position.add printed.generatedOffset) index) := by
    rw [mappingsEq]
    apply List.map_congr_left
    intro row member
    rw [(written.rows row member).sourceIndex, Int32.add_zero]
  rw [ownRows] at rows
  obtain ⟨place, columnPlace⟩ := joinedState_place
    (header ++ render false (items ++ joinedItems state.prevEndState target
      (printed.generatedOffset.lines.toInt.toNat + leading) rest)) written.sourceIndex related
  obtain ⟨keptNonneg, keptBehind⟩ := joinedState_nonneg
    (header ++ render false (items ++ joinedItems state.prevEndState target
      (printed.generatedOffset.lines.toInt.toNat + leading) rest)) written startWithin indexNonneg
    (by omega)
  have resultEq : printed.result = .ok
      { sourceMapChunk :=
          { buffer := render false own
            endState := printed.builder.prevState
            finalGeneratedColumn := printed.builder.generatedColumn
            shouldIgnore := (rowsOf .start own).isEmpty }
        generatedOffset := printed.generatedOffset
        sourceIndex := printed.sourceIndex } := by
    unfold PrintedChunk.result
    rw [chunkEq]
    rfl
  rw [← joined.text, ← ownEq] at appended
  refine ⟨_, _, _, resultEq, joinChunk_eq found joined.column rfl rfl appended, ?_, rows⟩
  · constructor
    case text => exact joinedState_j _ _ _ _
    case cursor => exact place
    case column => exact columnPlace
    case within =>
      have ended := startWithin.add written.within (by omega)
      exact ended.mono (by unfold PrintedChunk.size; omega)
    case nonneg => exact keptNonneg
    case behind =>
      rw [← columnPlace]
      exact keptBehind
    case representable =>
      intro deltas' member
      rcases List.mem_append.mp member with earlier | later
      · exact joined.representable deltas' earlier
      · rcases List.mem_append.mp later with lineBreak | copied
        · cases (List.mem_replicate.mp lineBreak).2
        · rcases List.mem_cons.mp copied with isFirst | inRest
          · cases isFirst
            exact Segment.between_representable (joined.nonneg.afterBreaks _) targetNonneg
          · exact written.representable deltas' (by
              rw [ownEq]
              exact List.mem_append_right _ (List.mem_cons_of_mem _ inRest))
    case accepted =>
      intro row member
      rw [rows] at member
      rcases List.mem_append.mp member with earlier | later
      · exact joined.accepted row earlier
      · obtain ⟨ownRow, isOwn, rfl⟩ := List.mem_map.mp later
        rw [mappingsEq] at isOwn
        exact OwnRow.accepted (written.rows ownRow isOwn) startWithin (by omega) indexNonneg indexBelow
    case ascending =>
      have ownAscending := written.ascending
      rw [ownEq, List.any_append, List.any_cons, Bool.or_eq_false_iff, Bool.or_eq_false_iff]
        at ownAscending
      have breaksAscend : ∀ count, (List.replicate count Item.lineBreak).any descends = false := by
        intro count
        simp [descends]
      have firstAscends := (descends_between
        (joined.nonneg.afterBreaks (printed.generatedOffset.lines.toInt.toNat + leading))
        targetNonneg).mpr forward
      rw [List.any_append, joined.ascending, joinedItems, List.any_append, breaksAscend, List.any_cons,
        firstAscends, ownAscending.2.2]
      rfl

end Bun.SourceMap
