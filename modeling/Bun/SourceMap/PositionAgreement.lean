/-
When the builder's generated position is the one `advance` computes.

The columns of the two scans agree on every text: they can only part at a carriage
return that one of them passes over, and then a line feed that resets both is still
to come.  The lines differ by the carriage returns passed over, so they agree when
the builder passes over as many as there are CRLF pairs.
-/

import Bun.SourceMap.GeneratedPosition

set_option autoImplicit false

namespace Bun.SourceMap.Printer

open Bun.Core

/-! ### Printing in windows -/

/-- A window of text, and the original position the printer maps at its end, if it
maps one there. -/
structure PrintStep where
  window : List Char
  original : Option (Int32 × Int32)
deriving Repr

def printedText (steps : List PrintStep) : List Char :=
  steps.flatMap PrintStep.window

def Builder.printStep (self : Builder) (front : List UInt8) (step : PrintStep) : Builder :=
  let output := front ++ encodeText step.window
  match step.original with
  | none => self.updateGeneratedLineAndColumn output
  | some (originalLine, originalColumn) => self.recordMapping originalLine originalColumn output

/-- The calls of the builder along a text that starts after `front`. -/
def Builder.print (self : Builder) (front : List UInt8) : List PrintStep → Builder
  | [] => self
  | step :: steps =>
      (self.printStep front step).print (front ++ encodeText step.window) steps

def Builder.position (self : Builder) : LineColumnOffset :=
  { lines := self.prevState.generatedLine, columns := self.generatedColumn }

/-- No cut separates a carriage return from a line feed after it. -/
def CleanCuts : List (List Char) → Prop
  | [] => True
  | window :: windows =>
      ¬((∃ c, window.getLast? = some c ∧ c.toNat = 0x0D) ∧
        startsWithLineFeed windows.flatten = true) ∧ CleanCuts windows

def crlfPairs : List Char → Nat
  | [] => 0
  | c :: rest => (if c.toNat = 0x0D ∧ startsWithLineFeed rest then 1 else 0) + crlfPairs rest

/-- The carriage returns of a window that have a line feed two bytes later. -/
def skippedReturns : List Char → Nat
  | [] => 0
  | c :: rest => (if c.toNat = 0x0D ∧ secondByteIsLineFeed rest then 1 else 0) + skippedReturns rest

def terminators (text : List Char) : Nat := text.countP isTerminator

/-! ### Lines -/

def printedColumn (column : Int32) : List Char → Int32
  | [] => column
  | c :: rest =>
      if isTerminator c then
        if c.toNat = 0x0D ∧ secondByteIsLineFeed rest then printedColumn column rest
        else printedColumn 0 rest
      else printedColumn (column + Int32.ofNat (utf16Units c)) rest

def advancedColumn (column : Int32) : List Char → Int32
  | [] => column
  | c :: rest =>
      if isTerminator c then
        if c.toNat = 0x0D ∧ startsWithLineFeed rest then advancedColumn (column + 1) rest
        else advancedColumn 0 rest
      else advancedColumn (column + Int32.ofNat (utf16Units c)) rest

theorem carriageReturn_terminator {c : Char} (isReturn : c.toNat = 0x0D) : isTerminator c = true := by
  rw [isTerminator_iff]
  omega

@[simp] theorem newLine_generatedLine (self : Builder) (needsMapping : Bool) :
    (self.newLine needsMapping).prevState.generatedLine = self.prevState.generatedLine + 1 := by
  unfold Builder.newLine
  cases needsMapping <;> rfl

theorem scanText_position (window : List Char) :
    ∀ (self : Builder) (needsMapping : Bool),
      (self.scanText needsMapping window).prevState.generatedLine + Int32.ofNat (skippedReturns window)
          = self.prevState.generatedLine + Int32.ofNat (terminators window) ∧
        (self.scanText needsMapping window).generatedColumn =
          printedColumn self.generatedColumn window := by
  induction window with
  | nil =>
      intro self needsMapping
      exact ⟨rfl, rfl⟩
  | cons c rest ih =>
      intro self needsMapping
      unfold terminators
      rw [Builder.scanText, skippedReturns, printedColumn, List.countP_cons]
      by_cases terminator : isTerminator c = true
      · rw [if_pos terminator, if_pos terminator, if_pos terminator]
        by_cases passed : c.toNat = 0x0D ∧ secondByteIsLineFeed rest = true
        · obtain ⟨lines, columns⟩ := ih self needsMapping
          rw [if_pos passed, if_pos passed, if_pos passed]
          refine ⟨?_, columns⟩
          unfold terminators at lines
          simp only [Int32.ofNat_add]
          grind
        · obtain ⟨lines, columns⟩ := ih (self.newLine needsMapping)
            (self.newLine needsMapping).needsMapping
          rw [if_neg passed, if_neg passed, if_neg passed]
          refine ⟨?_, columns⟩
          unfold terminators at lines
          rw [newLine_generatedLine] at lines
          simp only [Int32.ofNat_add]
          grind
      · have notPassed : ¬(c.toNat = 0x0D ∧ secondByteIsLineFeed rest = true) :=
          fun passed => terminator (carriageReturn_terminator passed.1)
        obtain ⟨lines, columns⟩ := ih (self.addColumns (utf16Units c)) needsMapping
        rw [if_neg terminator, if_neg terminator, if_neg terminator, if_neg notPassed]
        refine ⟨?_, columns⟩
        unfold terminators at lines
        rw [Nat.add_zero, Nat.zero_add]
        exact lines

theorem advanceText_position (text : List Char) :
    ∀ this : LineColumnOffset,
      (advanceText this text).lines + Int32.ofNat (crlfPairs text) =
          this.lines + Int32.ofNat (terminators text) ∧
        (advanceText this text).columns = advancedColumn this.columns text := by
  induction text with
  | nil =>
      intro this
      exact ⟨rfl, rfl⟩
  | cons c rest ih =>
      intro this
      unfold terminators
      rw [advanceText, crlfPairs, advancedColumn, List.countP_cons]
      by_cases terminator : isTerminator c = true
      · rw [if_pos terminator, if_pos terminator, if_pos terminator]
        by_cases paired : c.toNat = 0x0D ∧ startsWithLineFeed rest = true
        · obtain ⟨lines, columns⟩ := ih (this.addColumns 1)
          rw [if_pos paired, if_pos paired, if_pos paired]
          refine ⟨?_, columns⟩
          unfold terminators at lines
          simp only [Int32.ofNat_add]
          change (advanceText (this.addColumns 1) rest).lines + _ = this.lines + _ at lines
          grind
        · obtain ⟨lines, columns⟩ := ih this.nextLine
          rw [if_neg paired, if_neg paired, if_neg paired]
          refine ⟨?_, columns⟩
          unfold terminators at lines
          change (advanceText this.nextLine rest).lines + _ = this.lines + 1 + _ at lines
          simp only [Int32.ofNat_add]
          grind
      · have notPaired : ¬(c.toNat = 0x0D ∧ startsWithLineFeed rest = true) :=
          fun paired => terminator (carriageReturn_terminator paired.1)
        obtain ⟨lines, columns⟩ := ih (this.addColumns (utf16Units c))
        rw [if_neg terminator, if_neg terminator, if_neg terminator, if_neg notPaired]
        refine ⟨?_, columns⟩
        unfold terminators at lines
        rw [Nat.add_zero, Nat.zero_add]
        exact lines

/-! ### Columns -/

def hasLineFeed (text : List Char) : Bool := text.any fun c => c.toNat = 0x0A

theorem advancedColumn_reset (text : List Char) (lineFeed : hasLineFeed text = true) :
    ∀ first second, advancedColumn first text = advancedColumn second text := by
  induction text with
  | nil => cases lineFeed
  | cons c rest ih =>
      intro first second
      rw [advancedColumn, advancedColumn]
      by_cases here : c.toNat = 0x0A
      · have terminator : isTerminator c = true := by
          rw [isTerminator_iff]
          omega
        have notReturn : ¬(c.toNat = 0x0D ∧ startsWithLineFeed rest = true) := by omega
        rw [if_pos terminator, if_pos terminator, if_neg notReturn, if_neg notReturn]
      · have later : hasLineFeed rest = true := by simpa [hasLineFeed, here] using lineFeed
        split
        · split
          · exact ih later _ _
          · rfl
        · exact ih later _ _

theorem hasLineFeed_of_starts {rest : List Char} (starts : startsWithLineFeed rest = true) :
    hasLineFeed rest = true := by
  cases rest with
  | nil => cases starts
  | cons c rest =>
      have here : c.toNat = 0x0A := by simpa [startsWithLineFeed] using starts
      simp [hasLineFeed, here]

theorem hasLineFeed_of_byte (text : List Char) (member : (0x0A : UInt8) ∈ encodeText text) :
    hasLineFeed text = true := by
  obtain ⟨c, inText, inEncoding⟩ := List.mem_flatMap.mp member
  have value : c.toNat = 0x0A := by
    have shape := encoded_utf8EncodeChar c
    generalize String.utf8EncodeChar c = encoded at shape inEncoding
    have continuationByte : ∀ low : Fin 64, (0x0A : UInt8) ≠ UInt8.ofNat (low.val + 0x80) := by
      decide +kernel
    have leadTwo : ∀ high : Fin 32, (0x0A : UInt8) ≠ UInt8.ofNat (high.val + 0xC0) := by
      decide +kernel
    have leadThree : ∀ high : Fin 16, (0x0A : UInt8) ≠ UInt8.ofNat (high.val + 0xE0) := by
      decide +kernel
    have leadFour : ∀ high : Fin 8, (0x0A : UInt8) ≠ UInt8.ofNat (high.val + 0xF0) := by
      decide +kernel
    cases shape with
    | one ascii =>
        have same := congrArg UInt8.toNat (List.mem_singleton.mp inEncoding)
        rw [UInt8.toNat_ofNat'] at same
        change 10 = _ at same
        omega
    | two high low =>
        simp only [List.mem_cons, List.not_mem_nil, continuationByte low, leadTwo high,
          or_self] at inEncoding
    | three high middle low =>
        simp only [List.mem_cons, List.not_mem_nil, continuationByte low, continuationByte middle,
          leadThree high, or_self] at inEncoding
    | four high upper middle low =>
        simp only [List.mem_cons, List.not_mem_nil, continuationByte low, continuationByte middle,
          continuationByte upper, leadFour high, or_self] at inEncoding
  exact List.any_eq_true.mpr ⟨c, inText, by simpa using value⟩

theorem hasLineFeed_of_second {rest : List Char} (second : secondByteIsLineFeed rest = true) :
    hasLineFeed rest = true := by
  apply hasLineFeed_of_byte
  have found : (encodeText rest)[1]? = some 0x0A := by simpa [secondByteIsLineFeed] using second
  exact List.mem_of_getElem? found

theorem printedColumn_eq_advancedColumn (window : List Char) :
    ∀ column, printedColumn column window = advancedColumn column window := by
  induction window with
  | nil => intro column; rfl
  | cons c rest ih =>
      intro column
      rw [printedColumn, advancedColumn]
      by_cases terminator : isTerminator c = true
      · rw [if_pos terminator, if_pos terminator]
        by_cases resets : hasLineFeed rest = true
        · split <;> split <;> rw [ih] <;> exact advancedColumn_reset rest resets _ _
        · have notPassed : ¬(c.toNat = 0x0D ∧ secondByteIsLineFeed rest = true) :=
            fun passed => resets (hasLineFeed_of_second passed.2)
          have notPaired : ¬(c.toNat = 0x0D ∧ startsWithLineFeed rest = true) :=
            fun paired => resets (hasLineFeed_of_starts paired.2)
          rw [if_neg notPassed, if_neg notPaired]
          exact ih 0
      · rw [if_neg terminator, if_neg terminator]
        exact ih _

/-! ### Whole texts -/

/-- The column of `advance` over a text, from its parts.  A cut within a CRLF pair does
no harm: the line feed resets the column. -/
theorem advancedColumn_append (window rest : List Char) :
    ∀ column, advancedColumn column (window ++ rest) =
      advancedColumn (advancedColumn column window) rest := by
  induction window with
  | nil => intro column; rfl
  | cons c window ih =>
      intro column
      rw [List.cons_append, advancedColumn, advancedColumn]
      by_cases terminator : isTerminator c = true
      · rw [if_pos terminator, if_pos terminator]
        cases window with
        | nil =>
            have alone : ¬(c.toNat = 0x0D ∧ startsWithLineFeed [] = true) := by
              rintro ⟨-, starts⟩
              cases starts
            rw [if_neg alone, List.nil_append]
            split
            · rename_i paired
              exact advancedColumn_reset rest (hasLineFeed_of_starts paired.2) _ _
            · rfl
        | cons next window =>
            have lookahead : startsWithLineFeed (next :: window ++ rest) =
                startsWithLineFeed (next :: window) := rfl
            rw [lookahead]
            split
            · exact ih _
            · exact ih _
      · rw [if_neg terminator, if_neg terminator]
        exact ih _

theorem crlfPairs_append (window rest : List Char)
    (clean : ¬((∃ c, window.getLast? = some c ∧ c.toNat = 0x0D) ∧ startsWithLineFeed rest = true)) :
    crlfPairs (window ++ rest) = crlfPairs window + crlfPairs rest := by
  induction window with
  | nil => rw [List.nil_append, crlfPairs, Nat.zero_add]
  | cons c window ih =>
      have laterClean : ¬((∃ c, window.getLast? = some c ∧ c.toNat = 0x0D) ∧
          startsWithLineFeed rest = true) := by
        rintro ⟨⟨last, atEnd, isReturn⟩, starts⟩
        apply clean
        refine ⟨⟨last, ?_, isReturn⟩, starts⟩
        rw [List.getLast?_cons, atEnd]
        rfl
      have lookahead : (c.toNat = 0x0D ∧ startsWithLineFeed (window ++ rest) = true) ↔
          (c.toNat = 0x0D ∧ startsWithLineFeed window = true) := by
        cases window with
        | nil =>
            constructor
            · rintro ⟨isReturn, starts⟩
              exact absurd ⟨⟨c, rfl, isReturn⟩, starts⟩ clean
            · rintro ⟨-, starts⟩
              cases starts
        | cons next window => exact Iff.rfl
      rw [List.cons_append, crlfPairs, crlfPairs, ih laterClean, Nat.add_assoc]
      simp only [lookahead]

theorem crlfPairs_printedText (steps : List PrintStep)
    (clean : CleanCuts (steps.map PrintStep.window)) :
    crlfPairs (printedText steps) = (steps.map fun step => crlfPairs step.window).sum := by
  induction steps with
  | nil => rfl
  | cons step steps ih =>
      have flat : (steps.map PrintStep.window).flatten = printedText steps := by
        rw [printedText, List.flatMap_def]
      have cut : ¬((∃ c, step.window.getLast? = some c ∧ c.toNat = 0x0D) ∧
          startsWithLineFeed (printedText steps) = true) := by
        rw [← flat]
        exact clean.1
      have textEq : printedText (step :: steps) = step.window ++ printedText steps := rfl
      rw [textEq, crlfPairs_append _ _ cut, ih clean.2, List.map_cons, List.sum_cons]

theorem printStep_spec (self : Builder) (front : List UInt8) (step : PrintStep)
    (start : self.lastGeneratedUpdate.toNat = front.length)
    (fits : (front ++ encodeText step.window).length < 2 ^ 32) :
    (self.printStep front step).position = (self.scanText self.needsMapping step.window).position ∧
      (self.printStep front step).lastGeneratedUpdate.toNat =
        (front ++ encodeText step.window).length := by
  have updated := Builder.update_encodeText self front step.window start
  have counted : (UInt32.ofNat (front ++ encodeText step.window).length).toNat =
      (front ++ encodeText step.window).length := by
    rw [UInt32.toNat_ofNat', Nat.mod_eq_of_lt fits]
  unfold Builder.printStep
  cases step.original with
  | none =>
      dsimp only
      rw [updated]
      exact ⟨rfl, counted⟩
  | some original =>
      dsimp only
      unfold Builder.recordMapping
      rw [updated]
      dsimp only
      split
      · exact ⟨rfl, counted⟩
      · exact ⟨rfl, counted⟩

/-- The builder along a text: it is short of the terminators by the carriage returns it
passes over, and its column is that of `advance`. -/
theorem print_position (steps : List PrintStep) :
    ∀ (self : Builder) (front : List UInt8),
      self.lastGeneratedUpdate.toNat = front.length →
      (front ++ encodeText (printedText steps)).length < 2 ^ 32 →
      (self.print front steps).position.lines +
          Int32.ofNat (steps.map fun step => skippedReturns step.window).sum =
        self.position.lines + Int32.ofNat (terminators (printedText steps)) ∧
        (self.print front steps).position.columns =
          advancedColumn self.position.columns (printedText steps) := by
  induction steps with
  | nil =>
      intro self front start fits
      exact ⟨rfl, rfl⟩
  | cons step steps ih =>
      intro self front start fits
      have textEq : printedText (step :: steps) = step.window ++ printedText steps := rfl
      rw [textEq, encodeText_append, ← List.append_assoc, List.length_append] at fits
      obtain ⟨positionEq, startEq⟩ := printStep_spec self front step start (by omega)
      obtain ⟨lineEq, columnEq⟩ := scanText_position step.window self self.needsMapping
      obtain ⟨lines, columns⟩ := ih (self.printStep front step) (front ++ encodeText step.window)
        startEq (by rw [List.length_append]; exact fits)
      rw [Builder.print, textEq]
      constructor
      · have positionLines : (self.printStep front step).position.lines =
            (self.scanText self.needsMapping step.window).prevState.generatedLine := by
          rw [positionEq]
          rfl
        have counted : terminators (step.window ++ printedText steps) =
            terminators step.window + terminators (printedText steps) := List.countP_append
        rw [positionLines] at lines
        rw [counted]
        simp only [List.map_cons, List.sum_cons, Int32.ofNat_add]
        change _ = self.prevState.generatedLine + _ at lineEq
        change _ = self.prevState.generatedLine + _
        grind
      · rw [columns, positionEq, advancedColumn_append]
        congr 1
        exact columnEq.trans (printedColumn_eq_advancedColumn step.window _)

theorem crlfPairs_le_length (text : List Char) : crlfPairs text ≤ (encodeText text).length := by
  induction text with
  | nil => exact Nat.le_refl 0
  | cons c rest ih =>
      have here := encode_length_pos c
      rw [crlfPairs, encodeText_cons, List.length_append]
      split <;> omega

theorem skippedReturns_le_length (text : List Char) :
    skippedReturns text ≤ (encodeText text).length := by
  induction text with
  | nil => exact Nat.le_refl 0
  | cons c rest ih =>
      have here := encode_length_pos c
      rw [skippedReturns, encodeText_cons, List.length_append]
      split <;> omega

theorem sum_le_encodeText (count : List Char → Nat)
    (bounded : ∀ text, count text ≤ (encodeText text).length) (steps : List PrintStep) :
    (steps.map fun step => count step.window).sum ≤ (encodeText (printedText steps)).length := by
  induction steps with
  | nil => exact Nat.zero_le _
  | cons step steps ih =>
      have here := bounded step.window
      rw [List.map_cons, List.sum_cons, show printedText (step :: steps) =
        step.window ++ printedText steps from rfl, encodeText_append, List.length_append]
      omega

/-- The agreement for any cuts: the carriage returns the builder passes over against the
CRLF pairs of the text. -/
theorem print_position_eq_iff (coverLinesWithoutMappings prependCount : Bool)
    (steps : List PrintStep) (fits : (encodeText (printedText steps)).length < 2 ^ 31) :
    LineColumnOffset.start.advance (encodeText (printedText steps)) =
        some ((Builder.init coverLinesWithoutMappings prependCount).print [] steps).position ↔
      (steps.map fun step => skippedReturns step.window).sum = crlfPairs (printedText steps) := by
  obtain ⟨lines, columns⟩ := print_position steps
    (Builder.init coverLinesWithoutMappings prependCount) [] rfl
    (by rw [List.nil_append]; omega)
  obtain ⟨trueLines, trueColumns⟩ := advanceText_position (printedText steps) LineColumnOffset.start
  have skippedBound := sum_le_encodeText skippedReturns skippedReturns_le_length steps
  have pairedBound := crlfPairs_le_length (printedText steps)
  have columnsEq := columns.trans trueColumns.symm
  have linesEq := lines.trans trueLines.symm
  rw [advance_encodeText LineColumnOffset.start _ fits]
  generalize ((Builder.init coverLinesWithoutMappings prependCount).print [] steps).position =
    printed at linesEq columnsEq ⊢
  generalize advanceText LineColumnOffset.start (printedText steps) = advanced at linesEq columnsEq ⊢
  rcases printed with ⟨printedLines, printedColumns⟩
  rcases advanced with ⟨advancedLines, advancedColumns⟩
  dsimp only at linesEq columnsEq
  constructor
  · intro same
    obtain rfl : advancedLines = printedLines := congrArg LineColumnOffset.lines (Option.some.inj same)
    have counts := congrArg Int32.toInt ((Int32.add_right_inj _).mp linesEq)
    rw [Int32.toInt_ofNat_of_lt (by omega), Int32.toInt_ofNat_of_lt (by omega)] at counts
    omega
  · intro counts
    rw [counts] at linesEq
    rw [(Int32.add_left_inj _).mp linesEq, columnsEq]

/-- The position the builder maintains along a printed text, in whatever windows, is
the one `advance` computes exactly when the windows have as many carriage returns
with a line feed two bytes later as they have CRLF pairs. -/
theorem print_position_eq_advance_iff (coverLinesWithoutMappings prependCount : Bool)
    (steps : List PrintStep) (clean : CleanCuts (steps.map PrintStep.window))
    (fits : (encodeText (printedText steps)).length < 2 ^ 31) :
    LineColumnOffset.start.advance (encodeText (printedText steps)) =
        some ((Builder.init coverLinesWithoutMappings prependCount).print [] steps).position ↔
      (steps.map fun step => skippedReturns step.window).sum =
        (steps.map fun step => crlfPairs step.window).sum := by
  rw [← crlfPairs_printedText steps clean]
  exact print_position_eq_iff coverLinesWithoutMappings prependCount steps fits

/-- A text in two windows, with a mapping between them, on which they agree. -/
theorem print_position_eq_advance_two_windows :
    LineColumnOffset.start.advance
        (encodeText (printedText [⟨['a', '\u2028', 'b'], some (3, 4)⟩, ⟨['😀', '\n', 'c'], none⟩])) =
      some ((Builder.init true false).print []
        [⟨['a', '\u2028', 'b'], some (3, 4)⟩, ⟨['😀', '\n', 'c'], none⟩]).position :=
  (print_position_eq_advance_iff true false
    [⟨['a', '\u2028', 'b'], some (3, 4)⟩, ⟨['😀', '\n', 'c'], none⟩]
    (by simp [CleanCuts, startsWithLineFeed]) (by decide +kernel)).mpr (by decide +kernel)

/-- On a CRLF pair the builder counts two lines and `advance` one. -/
theorem print_position_ne_advance_crlf :
    ¬∀ (coverLinesWithoutMappings prependCount : Bool) (steps : List PrintStep),
      CleanCuts (steps.map PrintStep.window) →
      (encodeText (printedText steps)).length < 2 ^ 31 →
      LineColumnOffset.start.advance (encodeText (printedText steps)) =
        some ((Builder.init coverLinesWithoutMappings prependCount).print [] steps).position := by
  intro agree
  have crlf := agree false false [⟨['\r', '\n'], none⟩] (by simp [CleanCuts, startsWithLineFeed])
    (by decide +kernel)
  exact absurd crlf (by decide +kernel)

end Bun.SourceMap.Printer
