/-
`mappings` strings as items: line breaks and four-field segments.

A writer produces the rendering of a list of items; the parser reads a rendering
back as the rows its items describe.  Statements about writers are then statements
about items.
-/

import Bun.SourceMap.MappingParse

set_option autoImplicit false

namespace Bun.SourceMap

/-- The four deltas of a segment with an original position. -/
structure Segment where
  generatedColumn : Int32
  sourceIndex : Int32
  originalLine : Int32
  originalColumn : Int32
deriving DecidableEq, Repr

inductive Item where
  | lineBreak
  | segment (deltas : Segment)
deriving DecidableEq, Repr

def Segment.encoded (deltas : Segment) : List UInt8 :=
  Vlq.encode deltas.generatedColumn ++ (Vlq.encode deltas.sourceIndex ++
    (Vlq.encode deltas.originalLine ++ Vlq.encode deltas.originalColumn))

/-- The text of items, after a segment or not: two segments in a row are separated
by a comma. -/
def render : Bool → List Item → List UInt8
  | _, [] => []
  | _, .lineBreak :: items => Vlq.semicolon :: render false items
  | afterSegment, .segment deltas :: items =>
      (if afterSegment then [Vlq.comma] else []) ++ (deltas.encoded ++ render true items)

def endsWithSegment (afterSegment : Bool) (items : List Item) : Bool :=
  match items.getLast? with
  | none => afterSegment
  | some .lineBreak => false
  | some (.segment _) => true

theorem endsWithSegment_cons (afterSegment : Bool) (item : Item) (items : List Item) :
    endsWithSegment afterSegment (item :: items) =
      endsWithSegment (match item with | .lineBreak => false | .segment _ => true) items := by
  cases items with
  | nil => cases item <;> rfl
  | cons next items =>
      obtain ⟨last, atEnd⟩ : ∃ last, (next :: items).getLast? = some last :=
        ⟨_, List.getLast?_eq_some_getLast (List.cons_ne_nil _ _)⟩
      unfold endsWithSegment
      rw [List.getLast?_cons_cons, atEnd]
      cases last <;> rfl

theorem render_append (items later : List Item) :
    ∀ afterSegment, render afterSegment (items ++ later) =
      render afterSegment items ++ render (endsWithSegment afterSegment items) later := by
  induction items with
  | nil => intro afterSegment; rfl
  | cons item items ih =>
      intro afterSegment
      rw [endsWithSegment_cons]
      cases item with
      | lineBreak =>
          rw [List.cons_append, render, ih, render]
          rfl
      | segment deltas =>
          rw [List.cons_append, render, ih, render]
          simp only [List.append_assoc]

/-! ### Rows -/

structure TextCursor where
  generated : LineColumnOffset
  original : LineColumnOffset
  sourceIndex : Int32
deriving DecidableEq, Repr

namespace TextCursor

def start : TextCursor := ⟨.start, .start, 0⟩

def nextLine (self : TextCursor) : TextCursor :=
  { self with generated := ⟨self.generated.lines + 1, 0⟩ }

def apply (self : TextCursor) (deltas : Segment) : TextCursor :=
  { generated := { self.generated with columns := self.generated.columns + deltas.generatedColumn }
    original := ⟨self.original.lines + deltas.originalLine,
      self.original.columns + deltas.originalColumn⟩
    sourceIndex := self.sourceIndex + deltas.sourceIndex }

def row (self : TextCursor) : MappingWithoutName :=
  { generated := self.generated, original := self.original, sourceIndex := self.sourceIndex }

def move (self : TextCursor) : Item → TextCursor
  | .lineBreak => self.nextLine
  | .segment deltas => self.apply deltas

end TextCursor

def rowsOf : TextCursor → List Item → List MappingWithoutName
  | _, [] => []
  | cursor, .lineBreak :: items => rowsOf cursor.nextLine items
  | cursor, .segment deltas :: items =>
      (cursor.apply deltas).row :: rowsOf (cursor.apply deltas) items

theorem rowsOf_append (items later : List Item) :
    ∀ cursor, rowsOf cursor (items ++ later) =
      rowsOf cursor items ++ rowsOf (items.foldl TextCursor.move cursor) later := by
  induction items with
  | nil => intro cursor; rfl
  | cons item items ih =>
      intro cursor
      cases item with
      | lineBreak =>
          rw [List.cons_append, rowsOf, ih, rowsOf]
          rfl
      | segment deltas =>
          rw [List.cons_append, rowsOf, ih, rowsOf, List.cons_append]
          rfl

def Segment.Representable (deltas : Segment) : Prop :=
  deltas.generatedColumn ≠ Int32.minValue ∧ deltas.sourceIndex ≠ Int32.minValue ∧
    deltas.originalLine ≠ Int32.minValue ∧ deltas.originalColumn ≠ Int32.minValue

def MappingWithoutName.Accepted (row : MappingWithoutName) (sourcesCount : Int32) : Prop :=
  0 ≤ row.generated.columns ∧ 0 ≤ row.sourceIndex ∧ row.sourceIndex < sourcesCount ∧
    0 ≤ row.original.lines ∧ 0 ≤ row.original.columns

/-- Items the parser reads back: every segment has an encoding, and every row is
accepted. -/
def Readable (sourcesCount : Int32) (cursor : TextCursor) (items : List Item) : Prop :=
  (∀ deltas, Item.segment deltas ∈ items → deltas.Representable) ∧
    ∀ row ∈ rowsOf cursor items, row.Accepted sourcesCount

def descends : Item → Bool
  | .lineBreak => false
  | .segment deltas => deltas.generatedColumn < 0

/-! ### Line breaks -/

theorem skipSemicolons_skipSemicolonRuns (lines : Int32) (remain : List UInt8) :
    skipSemicolons (skipSemicolonRuns lines remain).1 (skipSemicolonRuns lines remain).2 =
      skipSemicolons lines remain := by
  fun_induction skipSemicolonRuns lines remain with
  | case1 lines rest a b c d allSemicolons ih =>
      obtain ⟨rfl, rfl, rfl, rfl⟩ := allSemicolons
      rw [ih]
      simp only [skipSemicolons, if_true]
      congr 1
      grind
  | case2 => rfl
  | case3 => rfl

def ParseState.nextLine (state : ParseState) : ParseState :=
  { state with generated := ⟨state.generated.lines + 1, 0⟩ }

theorem skipLines_semicolon (state : ParseState) (rest : List UInt8) :
    skipLines state (Vlq.semicolon :: rest) = skipLines state.nextLine rest := by
  have collected : skipLines state (Vlq.semicolon :: rest) =
      ({ state with generated := ⟨(skipSemicolons (state.generated.lines + 1) rest).1, 0⟩ },
        (skipSemicolons (state.generated.lines + 1) rest).2) := by
    rw [skipLines, if_pos rfl]
    dsimp only
    rw [skipSemicolons_skipSemicolonRuns, skipSemicolons, if_pos rfl]
  rw [collected]
  cases rest with
  | nil => rfl
  | cons byte rest =>
      rw [skipLines]
      split
      · dsimp only [ParseState.nextLine]
        rw [skipSemicolons_skipSemicolonRuns]
      · rename_i other
        rw [skipSemicolons, if_neg other]
        rfl

theorem parseLoop_semicolon (total : Nat) (sourcesCount : Int32) (options : ParseOptions)
    (state : ParseState) (rest : List UInt8) :
    parseLoop total sourcesCount options state (Vlq.semicolon :: rest) =
      parseLoop total sourcesCount options state.nextLine rest := by
  rw [parseLoop, parseLoop, skipLines_semicolon]

theorem skipLines_other (state : ParseState) {byte : UInt8} {rest : List UInt8}
    (other : byte ≠ Vlq.semicolon) : skipLines state (byte :: rest) = (state, byte :: rest) := by
  rw [skipLines, if_neg other]

/-! ### Segments -/

theorem encode_bytes (value : Int32) :
    ∀ byte ∈ Vlq.encode value,
      byte ≠ 0 ∧ byte ≠ Vlq.comma ∧ byte ≠ Vlq.semicolon ∧ byte ≠ Vlq.doubleQuote := by
  have digitBytes : ∀ digit : Fin 64,
      Vlq.digitByte digit.val ≠ 0 ∧ Vlq.digitByte digit.val ≠ Vlq.comma ∧
        Vlq.digitByte digit.val ≠ Vlq.semicolon ∧ Vlq.digitByte digit.val ≠ Vlq.doubleQuote := by
    decide +kernel
  intro byte member
  rw [Vlq.encode_digits] at member
  obtain ⟨digit, isDigit, rfl⟩ := List.mem_map.mp member
  exact digitBytes ⟨digit, Vlq.encodedDigits_lt value digit isDigit⟩

theorem encode_head (value : Int32) :
    ∃ byte rest, Vlq.encode value = byte :: rest ∧ byte ≠ Vlq.comma ∧ byte ≠ Vlq.semicolon := by
  obtain ⟨byte, rest, cons⟩ := List.exists_cons_of_ne_nil (Vlq.encode_ne_nil value)
  obtain ⟨-, notComma, notSemicolon, -⟩ := encode_bytes value byte (cons ▸ List.mem_cons_self)
  exact ⟨byte, rest, cons, notComma, notSemicolon⟩

theorem readDelta_encode (total : Nat) (value : Int32) (representable : value ≠ Int32.minValue)
    (tail : List UInt8) (missing : ParseError) :
    readDelta total (Vlq.encode value ++ tail) missing = .ok (value, tail) := by
  have nonempty : (Vlq.encode value).length ≠ 0 := by
    intro empty
    exact Vlq.encode_ne_nil value (List.length_eq_zero_iff.mp empty)
  unfold readDelta
  rw [Vlq.decode_encode_front tail value representable]
  dsimp only
  rw [if_neg nonempty, List.drop_left]

def ParseState.cursor (state : ParseState) : TextCursor :=
  { generated := state.generated, original := state.original, sourceIndex := state.sourceIndex }

/-- The parser after items without names: its cursor has moved, and it has the rows
of the items. -/
def ParseState.after (state : ParseState) (items : List Item) : ParseState :=
  let cursor := items.foldl TextCursor.move state.cursor
  { state with
    generated := cursor.generated
    original := cursor.original
    sourceIndex := cursor.sourceIndex
    needsSort := state.needsSort || items.any descends
    mapping := (rowsOf state.cursor items).foldl
      (fun mapping row => mapping.append
        { row.toNamed with nameIndex := if state.hasNames then state.nameIndex else -1 })
      state.mapping }

theorem ParseState.after_cons (state : ParseState) (item : Item) (items : List Item) :
    state.after (item :: items) = (state.after [item]).after items := by
  cases item with
  | lineBreak => simp [ParseState.after, ParseState.cursor, rowsOf, TextCursor.move, descends]
  | segment deltas =>
      simp [ParseState.after, ParseState.cursor, rowsOf, TextCursor.move, descends, Bool.or_assoc]

theorem ParseState.after_cursor (state : ParseState) (items : List Item) :
    (state.after items).cursor = items.foldl TextCursor.move state.cursor := rfl

theorem ParseState.after_lineBreak (state : ParseState) :
    state.after [.lineBreak] = state.nextLine := by
  simp [ParseState.after, ParseState.nextLine, ParseState.cursor, rowsOf, TextCursor.move,
    TextCursor.nextLine, descends]

def Separated (tail : List UInt8) : Prop :=
  tail = [] ∨ ∃ rest, tail = Vlq.comma :: rest ∨ tail = Vlq.semicolon :: rest

theorem parseName_separated (total : Nat) (options : ParseOptions) (state : ParseState)
    {tail : List UInt8} (separated : Separated tail) :
    parseName total options state tail = .ok (state, skipComma tail) := by
  rcases separated with rfl | ⟨rest, rfl | rfl⟩
  · rfl
  · rfl
  · rfl

theorem parseOriginal_encoded (total : Nat) (sourcesCount : Int32) (options : ParseOptions)
    (state : ParseState) (deltas : Segment) (tail : List UInt8)
    (representable : deltas.Representable) (separated : Separated tail)
    (source : 0 ≤ state.sourceIndex + deltas.sourceIndex ∧
      state.sourceIndex + deltas.sourceIndex < sourcesCount)
    (line : 0 ≤ state.original.lines + deltas.originalLine)
    (column : 0 ≤ state.original.columns + deltas.originalColumn) :
    parseOriginal total sourcesCount options state
        (Vlq.encode deltas.sourceIndex ++ (Vlq.encode deltas.originalLine ++
          (Vlq.encode deltas.originalColumn ++ tail))) =
      .ok (ParseState.appendMapping { state with
        sourceIndex := state.sourceIndex + deltas.sourceIndex
        original := ⟨state.original.lines + deltas.originalLine,
          state.original.columns + deltas.originalColumn⟩ }, skipComma tail) := by
  obtain ⟨-, sourceFits, lineFits, columnFits⟩ := representable
  have sourceOk : ¬(state.sourceIndex + deltas.sourceIndex < 0 ∨
      state.sourceIndex + deltas.sourceIndex ≥ sourcesCount) := by
    rintro (negative | beyond)
    · exact absurd source.1 (Int32.not_le.mpr negative)
    · exact absurd source.2 (Int32.not_lt.mpr beyond)
  unfold parseOriginal
  rw [readDelta_encode total _ sourceFits]
  simp only [bind, Except.bind, if_neg sourceOk]
  rw [readDelta_encode total _ lineFits]
  simp only [if_neg (Int32.not_lt.mpr line)]
  rw [readDelta_encode total _ columnFits]
  simp only [if_neg (Int32.not_lt.mpr column), parseName_separated total options _ separated]
  rfl

theorem parseSegment_encoded (total : Nat) (sourcesCount : Int32) (options : ParseOptions)
    (state : ParseState) (deltas : Segment) (tail : List UInt8)
    (representable : deltas.Representable) (separated : Separated tail)
    (accepted : (state.cursor.apply deltas).row.Accepted sourcesCount) :
    parseSegment total sourcesCount options state (deltas.encoded ++ tail) =
      .ok (state.after [.segment deltas], skipComma tail) := by
  obtain ⟨generatedOk, sourceNonneg, sourceBelow, lineOk, columnOk⟩ := accepted
  have original := parseOriginal_encoded total sourcesCount options
    { state with
      needsSort := state.needsSort || decide (deltas.generatedColumn < 0)
      generated :=
        { state.generated with columns := state.generated.columns + deltas.generatedColumn } }
    deltas tail representable separated ⟨sourceNonneg, sourceBelow⟩ lineOk columnOk
  obtain ⟨byte, rest, cons, notComma, notSemicolon⟩ := encode_head deltas.sourceIndex
  unfold parseSegment Segment.encoded
  simp only [List.append_assoc]
  rw [readDelta_encode total _ representable.1]
  simp only [bind, Except.bind]
  have generatedOk' : ¬state.generated.columns + deltas.generatedColumn < 0 :=
    Int32.not_lt.mpr generatedOk
  rw [if_neg generatedOk']
  rw [cons, List.cons_append] at original ⊢
  dsimp only
  rw [if_neg notComma, if_neg notSemicolon, original]
  simp [ParseState.after, ParseState.appendMapping, ParseState.cursor, rowsOf, TextCursor.move,
    TextCursor.apply, TextCursor.row, MappingWithoutName.toNamed, descends]

theorem render_separated (items : List Item) :
    Separated (render true items) ∧ skipComma (render true items) = render false items := by
  cases items with
  | nil => exact ⟨Or.inl rfl, rfl⟩
  | cons item items =>
      cases item with
      | lineBreak => exact ⟨Or.inr ⟨_, Or.inr rfl⟩, rfl⟩
      | segment deltas => exact ⟨Or.inr ⟨_, Or.inl rfl⟩, rfl⟩

theorem parseLoop_render (total : Nat) (sourcesCount : Int32) (options : ParseOptions)
    (items : List Item) :
    ∀ state : ParseState, Readable sourcesCount state.cursor items →
      parseLoop total sourcesCount options state (render false items) = .ok (state.after items) := by
  induction items with
  | nil =>
      intro state readable
      rw [render, parseLoop, skipLines, if_pos rfl]
      simp [ParseState.after, ParseState.cursor, rowsOf]
  | cons item items ih =>
      intro state readable
      obtain ⟨representable, accepted⟩ := readable
      rw [ParseState.after_cons]
      cases item with
      | lineBreak =>
          rw [render, parseLoop_semicolon, ← ParseState.after_lineBreak]
          apply ih
          refine ⟨fun deltas member => representable deltas (List.mem_cons_of_mem _ member), ?_⟩
          rw [ParseState.after_cursor]
          exact accepted
      | segment deltas =>
          obtain ⟨separated, skipped⟩ := render_separated items
          obtain ⟨byte, rest, cons, notComma, notSemicolon⟩ := encode_head deltas.generatedColumn
          have segment := parseSegment_encoded total sourcesCount options state deltas
            (render true items) (representable deltas List.mem_cons_self) separated
            (accepted _ List.mem_cons_self)
          have textEq : render false (.segment deltas :: items) =
              deltas.encoded ++ render true items := rfl
          have start : ∃ rest, deltas.encoded ++ render true items = byte :: rest := by
            refine ⟨rest ++ (Vlq.encode deltas.sourceIndex ++ (Vlq.encode deltas.originalLine ++
              Vlq.encode deltas.originalColumn)) ++ render true items, ?_⟩
            rw [Segment.encoded, cons]
            simp
          obtain ⟨restEq, startEq⟩ := start
          rw [textEq, parseLoop]
          rw [startEq, skipLines_other state notSemicolon, ← startEq]
          dsimp only
          rw [if_neg (by rw [startEq]; exact List.cons_ne_nil _ _)]
          split
          · rename_i failed
            rw [segment] at failed
            cases failed
          · rename_i next rest' parsed
            rw [segment] at parsed
            obtain ⟨rfl, rfl⟩ := Prod.mk.inj (Except.ok.inj parsed)
            rw [skipped]
            apply ih
            refine ⟨fun later member => representable later (List.mem_cons_of_mem _ member), ?_⟩
            rw [ParseState.after_cursor]
            intro row member
            exact accepted row (List.mem_cons_of_mem _ member)

end Bun.SourceMap
