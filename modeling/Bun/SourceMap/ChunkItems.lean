/-
What the printer's builder writes: its data is the rendering of line breaks and
segments that lead from the zero state to the builder's state.

Positions are bounded by the bytes that were scanned, so nothing wraps in a text
below 2 GiB, and the columns of one line never descend.
-/

import Bun.SourceMap.MappingWriter
import Bun.SourceMap.PositionAgreement

set_option autoImplicit false

namespace Bun.SourceMap

structure LineColumnOffset.Within (position : LineColumnOffset) (size : Nat) : Prop where
  linesNonneg : 0 ≤ position.lines.toInt
  lines : position.lines.toInt ≤ size
  columnsNonneg : 0 ≤ position.columns.toInt
  columns : position.columns.toInt ≤ size

theorem LineColumnOffset.Within.mono {position : LineColumnOffset} {size larger : Nat}
    (within : position.Within size) (le : size ≤ larger) : position.Within larger := by
  obtain ⟨linesNonneg, lines, columnsNonneg, columns⟩ := within
  exact ⟨linesNonneg, by omega, columnsNonneg, by omega⟩

theorem toInt_add_ofNat {value : Int32} {size : Nat} (more : Nat) (nonneg : 0 ≤ value.toInt)
    (bounded : value.toInt ≤ size) (fits : size + more < 2 ^ 31) :
    (value + Int32.ofNat more).toInt = value.toInt + more := by
  rw [Int32.toInt_add, Int32.toInt_ofNat_of_lt (by omega), Int.bmod_def]
  omega

namespace Printer

open Bun.Core
open Bun.SourceMap.InternalSourceMap (Trap)

/-- A mapping of a chunk on its own: in its text, of the chunk's only source. -/
structure OwnRow (row : MappingWithoutName) (scanned : Nat) : Prop where
  generated : row.generated.Within scanned
  sourceIndex : row.sourceIndex = 0
  originalLine : 0 ≤ row.original.lines
  originalColumn : 0 ≤ row.original.columns

/-- The builder has written `items` after `scanned` bytes. -/
structure Written (builder : Builder) (scanned : Nat) (items : List Item) : Prop where
  prependCount : builder.prependCount = false
  internal : builder.sourceMap.internal = none
  offset : builder.sourceMap.offset = 0
  text : builder.sourceMap.data = render false items
  count : builder.sourceMap.count = (rowsOf .start items).length
  cursor : items.foldl TextCursor.move .start = builder.prevState.cursor
  nonneg : builder.prevState.Nonneg
  sourceIndex : builder.prevState.sourceIndex = 0
  representable : ∀ deltas, Item.segment deltas ∈ items → deltas.Representable
  rows : ∀ row ∈ rowsOf .start items, OwnRow row scanned
  within : builder.position.Within scanned
  behind : builder.prevState.generatedColumn.toInt ≤ builder.generatedColumn.toInt
  fresh : builder.lineStartsWithMapping = false → builder.prevState.generatedColumn = 0
  ascending : items.any descends = false
  breaks : items.count .lineBreak ≤ scanned

theorem Written.init (coverLinesWithoutMappings : Bool) :
    Written (Builder.init coverLinesWithoutMappings false) 0 [] := by
  constructor
  case nonneg => exact ⟨Int32.le_refl _, Int32.le_refl _, Int32.le_refl _, Int32.le_refl _⟩
  case representable =>
    intro deltas member
    cases member
  case rows =>
    intro row member
    cases member
  case within => exact ⟨Int.le_refl _, Int.le_refl _, Int.le_refl _, Int.le_refl _⟩
  case behind => exact Int.le_refl _
  case fresh =>
    intro _
    rfl
  case breaks => exact Nat.le_refl _
  all_goals rfl

theorem Written.mono {self : Builder} {scanned more : Nat} {items : List Item}
    (written : Written self scanned items) (le : scanned ≤ more) : Written self more items := by
  refine { written with
    rows := ?_, within := written.within.mono le, breaks := Nat.le_trans written.breaks le }
  intro row member
  have own := written.rows row member
  exact { own with generated := own.generated.mono le }

theorem Written.addColumns {self : Builder} {scanned : Nat} {items : List Item}
    (written : Written self scanned items) (columns : Nat) (fits : scanned + columns < 2 ^ 31) :
    Written (self.addColumns columns) (scanned + columns) items := by
  have within := written.within
  have moved : (self.generatedColumn + Int32.ofNat columns).toInt =
      self.generatedColumn.toInt + columns :=
    toInt_add_ofNat columns within.columnsNonneg within.columns fits
  have wider := written.mono (Nat.le_add_right scanned columns)
  obtain ⟨linesNonneg, lines, columnsNonneg, columnsBound⟩ := within
  have behind := written.behind
  refine { wider with within := ?_, behind := ?_ }
  · refine ⟨linesNonneg, wider.within.lines, ?_, ?_⟩
    · change 0 ≤ (self.generatedColumn + Int32.ofNat columns).toInt
      change 0 ≤ self.generatedColumn.toInt at columnsNonneg
      omega
    · change (self.generatedColumn + Int32.ofNat columns).toInt ≤ _
      change self.generatedColumn.toInt ≤ _ at columnsBound
      omega
  · change self.prevState.generatedColumn.toInt ≤ (self.generatedColumn + Int32.ofNat columns).toInt
    omega

theorem Written.append {self : Builder} {scanned : Nat} {items : List Item}
    (written : Written self scanned items) (current : SourceMapState) (nonneg : current.Nonneg)
    (source : current.sourceIndex = 0)
    (sameLine : self.prevState.generatedLine = current.generatedLine)
    (after : self.prevState.generatedColumn.toInt ≤ current.generatedColumn.toInt)
    (reached : current.generatedColumn.toInt ≤ self.generatedColumn.toInt)
    (fresh : self.lineStartsWithMapping = false → current.generatedColumn = 0) :
    Written (self.appendMappingWithoutRemapping current) scanned
      (items ++ [.segment (Segment.between self.prevState current)]) := by
  have applied := TextCursor.apply_between self.prevState current sameLine
  have within := written.within
  have rowsEq : rowsOf .start (items ++ [.segment (Segment.between self.prevState current)]) =
      rowsOf .start items ++ [current.cursor.row] := by
    rw [rowsOf_append, written.cursor, rowsOf, applied, rowsOf]
  have appendEq : self.sourceMap.append current self.prevState =
      { data := Vlq.appendMappingToBuffer self.sourceMap.data (self.sourceMap.data.getLast?.getD 0)
          self.prevState current
        internal := none
        count := self.sourceMap.count + 1
        offset := 0 } := by
    unfold VlqSourceMap.append
    rw [written.internal, written.offset]
    dsimp only
    split
    · rfl
    · rename_i empty
      have nothing : self.sourceMap.data = [] := List.length_eq_zero_iff.mp (by omega)
      rw [nothing]
      rfl
  constructor
  case prependCount => exact written.prependCount
  case internal => exact congrArg VlqSourceMap.internal appendEq
  case offset => exact congrArg VlqSourceMap.offset appendEq
  case text =>
    dsimp only [Builder.appendMappingWithoutRemapping]
    rw [appendEq, written.text]
    exact appendMappingToBuffer_render items written.nonneg nonneg
  case count =>
    dsimp only [Builder.appendMappingWithoutRemapping]
    rw [appendEq, rowsEq, List.length_append, ← written.count]
    rfl
  case cursor =>
    rw [List.foldl_append, written.cursor]
    exact applied
  case nonneg => exact nonneg
  case sourceIndex => exact source
  case representable =>
    intro deltas member
    rcases List.mem_append.mp member with earlier | atEnd
    · exact written.representable deltas earlier
    · obtain rfl : deltas = _ := by simpa using atEnd
      exact Segment.between_representable written.nonneg nonneg
  case rows =>
    intro row member
    rw [rowsEq, List.mem_append, List.mem_singleton] at member
    rcases member with earlier | rfl
    · exact written.rows row earlier
    · refine ⟨?_, source, nonneg.originalLine, nonneg.originalColumn⟩
      have columnNonneg := nonneg.generatedColumn
      rw [Int32.le_iff_toInt_le, Int32.toInt_zero] at columnNonneg
      have linesNonneg := within.linesNonneg
      have lines := within.lines
      have columns := within.columns
      change 0 ≤ self.prevState.generatedLine.toInt at linesNonneg
      change self.prevState.generatedLine.toInt ≤ _ at lines
      change self.generatedColumn.toInt ≤ _ at columns
      rw [sameLine] at linesNonneg lines
      exact ⟨linesNonneg, lines, columnNonneg, Int.le_trans reached columns⟩
  case within =>
    refine { within with linesNonneg := ?_, lines := ?_ }
    · change 0 ≤ current.generatedLine.toInt
      rw [← sameLine]
      exact within.linesNonneg
    · change current.generatedLine.toInt ≤ _
      rw [← sameLine]
      exact within.lines
  case behind => exact reached
  case fresh => exact fresh
  case ascending =>
    rw [List.any_append, written.ascending, List.any_cons, List.any_nil,
      (descends_between written.nonneg nonneg).mpr after]
    rfl
  case breaks =>
    have none : List.count Item.lineBreak [Item.segment (Segment.between self.prevState current)] = 0 :=
      rfl
    rw [List.count_append, none]
    exact written.breaks

/-! ### Along a text -/

theorem Written.coverLine {self : Builder} {scanned : Nat} {items : List Item}
    (written : Written self scanned items) (free : self.lineStartsWithMapping = false) :
    ∃ more, Written self.coverLine scanned (items ++ more) := by
  have atStart := written.fresh free
  have behind := written.behind
  refine ⟨_, written.append { self.prevState with generatedColumn := 0 } ?_
    written.sourceIndex rfl ?_ ?_ (fun _ => rfl)⟩
  · exact { written.nonneg with generatedColumn := Int32.le_refl _ }
  · rw [atStart]
  · rw [atStart] at behind
    exact behind

theorem Written.lineBreak {self : Builder} {scanned : Nat} {items : List Item}
    (written : Written self scanned items) (fits : scanned + 1 < 2 ^ 31) :
    Written (self.newLine false) (scanned + 1) (items ++ [.lineBreak]) := by
  have within := written.within
  have rowsEq : rowsOf .start (items ++ [.lineBreak]) = rowsOf .start items := by
    rw [rowsOf_append, rowsOf, rowsOf, List.append_nil]
  have separated : self.sourceMap.appendLineSeparator =
      { self.sourceMap with
        data := self.sourceMap.data ++ [Vlq.semicolon]
        internal := none } := by
    unfold VlqSourceMap.appendLineSeparator
    rw [written.internal]
  have lines : (self.prevState.generatedLine + 1).toInt = self.prevState.generatedLine.toInt + 1 := by
    exact toInt_add_ofNat 1 within.linesNonneg within.lines fits
  have wider := written.mono (Nat.le_add_right scanned 1)
  constructor
  case prependCount => exact written.prependCount
  case internal => exact congrArg VlqSourceMap.internal separated
  case offset => exact (congrArg VlqSourceMap.offset separated).trans written.offset
  case text =>
    have data := congrArg VlqSourceMap.data separated
    rw [render_append, ← written.text]
    exact data
  case count =>
    rw [rowsEq]
    exact (congrArg VlqSourceMap.count separated).trans written.count
  case cursor =>
    rw [List.foldl_append, written.cursor]
    rfl
  case nonneg => exact { written.nonneg with generatedColumn := Int32.le_refl _ }
  case sourceIndex => exact written.sourceIndex
  case representable =>
    intro deltas member
    rcases List.mem_append.mp member with earlier | atEnd
    · exact written.representable deltas earlier
    · cases List.mem_singleton.mp atEnd
  case rows =>
    rw [rowsEq]
    exact wider.rows
  case within =>
    obtain ⟨linesNonneg, linesBound, -, -⟩ := within
    change 0 ≤ self.prevState.generatedLine.toInt at linesNonneg
    change self.prevState.generatedLine.toInt ≤ _ at linesBound
    refine ⟨?_, ?_, Int.le_refl _, Int.natCast_nonneg _⟩
    · change 0 ≤ (self.prevState.generatedLine + 1).toInt
      omega
    · change (self.prevState.generatedLine + 1).toInt ≤ _
      omega
  case behind => exact Int.le_refl _
  case fresh =>
    intro _
    rfl
  case ascending =>
    rw [List.any_append, written.ascending]
    rfl
  case breaks =>
    rw [List.count_append, List.count_singleton_self]
    exact Nat.succ_le_succ written.breaks

theorem Written.newLine {self : Builder} {scanned : Nat} {items : List Item}
    (written : Written self scanned items) (fits : scanned + 1 < 2 ^ 31) :
    ∃ more, Written (self.newLine self.needsMapping) (scanned + 1) (items ++ more) := by
  cases needed : self.needsMapping with
  | false => exact ⟨_, written.lineBreak fits⟩
  | true =>
      have free : self.lineStartsWithMapping = false := by
        simp only [Builder.needsMapping, Bool.and_eq_true, Bool.not_eq_true'] at needed
        exact needed.1.2
      obtain ⟨more, covered⟩ := written.coverLine free
      refine ⟨more ++ [.lineBreak], ?_⟩
      rw [← List.append_assoc]
      exact covered.lineBreak fits

theorem utf16Units_le_length (c : Char) : utf16Units c ≤ (String.utf8EncodeChar c).length := by
  have positive := encode_length_pos c
  have shape := encoded_utf8EncodeChar c
  unfold utf16Units
  split
  · rename_i astral
    generalize String.utf8EncodeChar c = encoded at shape positive
    cases shape with
    | one ascii => omega
    | two => exact Nat.le_refl 2
    | three => exact Nat.le_succ 2
    | four => exact Nat.le_add_right 2 2
  · exact positive

theorem Written.scanText (window : List Char) :
    ∀ {self : Builder} {scanned : Nat} {items : List Item}, Written self scanned items →
      scanned + (encodeText window).length < 2 ^ 31 →
      ∃ more, Written (self.scanText self.needsMapping window)
        (scanned + (encodeText window).length) (items ++ more) := by
  induction window with
  | nil =>
      intro self scanned items written _
      exact ⟨[], by rw [List.append_nil]; exact written⟩
  | cons c rest ih =>
      intro self scanned items written fits
      have width := encode_length_pos c
      have units := utf16Units_le_length c
      rw [encodeText_cons, List.length_append] at fits ⊢
      rw [Builder.scanText]
      split
      · split
        · obtain ⟨more, final⟩ := ih written (by omega)
          exact ⟨more, final.mono (by omega)⟩
        · obtain ⟨first, broken⟩ := written.newLine (by omega)
          obtain ⟨more, final⟩ := ih broken (by omega)
          refine ⟨first ++ more, ?_⟩
          rw [← List.append_assoc]
          exact final.mono (by omega)
      · have moved := written.addColumns (utf16Units c) (by omega)
        obtain ⟨more, final⟩ := ih moved (by omega)
        exact ⟨more, final.mono (by omega)⟩

theorem nonneg_max_zero (value : Int32) : 0 ≤ max value 0 := by
  change 0 ≤ if value ≤ 0 then 0 else value
  split
  · exact Int32.le_refl _
  · rename_i positive
    rw [Int32.le_iff_toInt_le] at positive ⊢
    omega

theorem max_zero_eq {value : Int32} (nonneg : 0 ≤ value.toInt) : max value 0 = value := by
  change (if value ≤ 0 then 0 else value) = value
  split
  · rename_i small
    rw [Int32.le_iff_toInt_le, Int32.toInt_zero] at small
    exact Int32.toInt_inj.mp (by rw [Int32.toInt_zero]; omega)
  · rfl

theorem Written.recordMapping {self updated : Builder} {output : List UInt8} {scanned : Nat}
    {items : List Item} (update : self.updateGeneratedLineAndColumn output = updated)
    (written : Written updated scanned items) (originalLine originalColumn : Int32) :
    ∃ more, Written (self.recordMapping originalLine originalColumn output) scanned
      (items ++ more) := by
  obtain ⟨first, covered⟩ : ∃ first, Written
      (if updated.coverLinesWithoutMappings && !updated.lineStartsWithMapping &&
        decide (updated.generatedColumn > 0) && updated.hasPrevState then updated.coverLine
      else updated) scanned (items ++ first) := by
    split
    · rename_i needed
      simp only [Bool.and_eq_true, Bool.not_eq_true'] at needed
      exact written.coverLine needed.1.1.2
    · exact ⟨[], by rw [List.append_nil]; exact written⟩
  unfold Builder.recordMapping
  rw [update]
  dsimp only
  generalize (if updated.coverLinesWithoutMappings && !updated.lineStartsWithMapping &&
    decide (updated.generatedColumn > 0) && updated.hasPrevState then updated.coverLine
    else updated) = current at covered ⊢
  have started : Written { current with lineStartsWithMapping := true } scanned (items ++ first) :=
    { covered with fresh := fun never => absurd never (by simp) }
  have column : max current.generatedColumn 0 = current.generatedColumn :=
    max_zero_eq covered.within.columnsNonneg
  have nonneg : SourceMapState.Nonneg
      { generatedLine := current.prevState.generatedLine
        generatedColumn := max current.generatedColumn 0
        sourceIndex := current.prevState.sourceIndex
        originalLine := max originalLine 0
        originalColumn := max originalColumn 0 } :=
    ⟨nonneg_max_zero _, covered.nonneg.sourceIndex, nonneg_max_zero _, nonneg_max_zero _⟩
  have appended := started.append _ nonneg covered.sourceIndex rfl
    (by rw [column]; exact covered.behind) (by rw [column]) (fun never => absurd never (by simp))
  rw [List.append_assoc] at appended
  exact ⟨_, appended⟩

theorem Written.print (steps : List PrintStep) :
    ∀ {self : Builder} {front : List UInt8} {items : List Item},
      Written self front.length items → self.lastGeneratedUpdate.toNat = front.length →
      (front ++ encodeText (printedText steps)).length < 2 ^ 31 →
      ∃ more, Written (self.print front steps) (front ++ encodeText (printedText steps)).length
        (items ++ more) ∧
        (self.print front steps).lastGeneratedUpdate.toNat =
          (front ++ encodeText (printedText steps)).length := by
  induction steps with
  | nil =>
      intro self front items written start _
      refine ⟨[], ?_, ?_⟩
      · rw [List.append_nil]
        simpa [Builder.print, printedText, encodeText] using written
      · simpa [Builder.print, printedText, encodeText] using start
  | cons step steps ih =>
      intro self front items written start fits
      have textEq : printedText (step :: steps) = step.window ++ printedText steps := rfl
      rw [textEq, encodeText_append, ← List.append_assoc] at fits ⊢
      have windowFits : (front ++ encodeText step.window).length < 2 ^ 31 := by
        rw [List.length_append] at fits
        omega
      have updated := Builder.update_encodeText self front step.window start
      obtain ⟨first, scanned⟩ := written.scanText step.window (by rwa [List.length_append] at windowFits)
      rw [← List.length_append] at scanned
      have moved : Written { self.scanText self.needsMapping step.window with
          lastGeneratedUpdate := UInt32.ofNat (front ++ encodeText step.window).length }
          (front ++ encodeText step.window).length (items ++ first) := { scanned with }
      have startEq := (printStep_spec self front step start (by omega)).2
      obtain ⟨second, stepped⟩ : ∃ second, Written (self.printStep front step)
          (front ++ encodeText step.window).length (items ++ first ++ second) := by
        unfold Builder.printStep
        cases step.original with
        | none =>
            refine ⟨[], ?_⟩
            rw [List.append_nil]
            dsimp only
            rw [updated]
            exact moved
        | some original => exact moved.recordMapping updated original.1 original.2
      obtain ⟨more, printed, finalStart⟩ := ih stepped startEq fits
      refine ⟨first ++ second ++ more, ?_, finalStart⟩
      rw [Builder.print]
      simpa only [List.append_assoc] using printed

theorem generateChunk_written (coverLinesWithoutMappings : Bool) (steps : List PrintStep)
    (fits : (encodeText (printedText steps)).length < 2 ^ 31) :
    ∃ items builder, Written builder (encodeText (printedText steps)).length items ∧
      (Builder.init coverLinesWithoutMappings false).print [] steps = builder ∧
      builder.generateChunk (encodeText (printedText steps)) =
        .ok
          { buffer := render false items
            endState := builder.prevState
            finalGeneratedColumn := builder.generatedColumn
            shouldIgnore := (rowsOf .start items).isEmpty } := by
  have empty : Written (Builder.init coverLinesWithoutMappings false) ([] : List UInt8).length [] :=
    Written.init coverLinesWithoutMappings
  obtain ⟨items, printed, start⟩ := Written.print steps empty rfl (by rwa [List.nil_append])
  rw [List.nil_append] at printed start
  rw [List.nil_append] at printed
  refine ⟨items, _, printed, rfl, ?_⟩
  generalize (Builder.init coverLinesWithoutMappings false).print [] steps = builder at printed start
  have updated := Builder.update_encodeText builder (encodeText (printedText steps)) [] start
  have nothing : encodeText [] = [] := rfl
  rw [nothing, List.append_nil] at updated
  unfold Builder.generateChunk
  rw [updated]
  simp only [Builder.scanText, VlqSourceMap.getBuffer, printed.internal, printed.prependCount,
    VlqSourceMap.shouldIgnore, printed.text, printed.count, bind, Except.bind]
  congr 2
  cases rowsOf .start items <;> rfl

end Printer

end Bun.SourceMap
