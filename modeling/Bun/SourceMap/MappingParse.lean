/-
The scalar parser of a `mappings` string into a flat mapping list.

Fields accumulate with wrapping addition and are rejected when they become
negative.  A failure carries its kind and the offset where the field starts.
-/

import Bun.SourceMap.VlqRoundTrip

set_option autoImplicit false

namespace Bun.SourceMap

inductive ParseError where
  | missingGeneratedColumnValue
  | invalidGeneratedColumnValue
  | invalidSourceIndexDelta
  | invalidSourceIndexValue
  | missingOriginalLine
  | invalidOriginalLineValue
  | missingOriginalColumnValue
  | invalidOriginalColumnValue
  | invalidNameIndexDelta
deriving DecidableEq, Repr

structure ParseFail where
  err : ParseError
  loc : Int32
deriving DecidableEq, Repr

structure ParseOptions where
  allowNames : Bool
  sort : Bool
deriving DecidableEq, Repr

/-! ### Sorting -/

/-- The comparison of two neighbouring rows.  Equal positions compare by index, and
the later row is never the smaller one. -/
def LineColumnOffset.lessThan (a b : LineColumnOffset) : Bool :=
  if a.lines ≠ b.lines then a.lines < b.lines
  else if a.columns ≠ b.columns then a.columns < b.columns
  else false

section Rows

variable {α : Type} (generated : α → LineColumnOffset)

/-- Swap a row down past the rows before it, nearest first, while it is smaller. -/
def sinkRow (row : α) : List α → List α
  | [] => [row]
  | before :: earlier =>
      if (generated row).lessThan (generated before) then before :: sinkRow row earlier
      else row :: before :: earlier

/-- The insertion sort of `MultiArrayList::sort`, on the reversed sorted prefix. -/
def sortRows (rows : List α) : List α :=
  (rows.foldl (fun sorted row => sinkRow generated row sorted) []).reverse

end Rows

def ListValue.sort : ListValue → ListValue
  | .withoutNames rows => .withoutNames (sortRows MappingWithoutName.generated rows)
  | .withNames rows => .withNames (sortRows Mapping.generated rows)

/-! ### One segment -/

structure ParseState where
  generated : LineColumnOffset
  original : LineColumnOffset
  nameIndex : Int32
  sourceIndex : Int32
  needsSort : Bool
  hasNames : Bool
  mapping : ListValue
deriving DecidableEq, Repr

def ParseState.init : ParseState :=
  { generated := .start
    original := .start
    nameIndex := 0
    sourceIndex := 0
    needsSort := false
    hasNames := false
    mapping := .withoutNames [] }

def failAt (total : Nat) (remain : List UInt8) (err : ParseError) : ParseFail :=
  let offset := total - remain.length
  { err := err, loc := if offset < 2 ^ 31 then Int32.ofNat offset else Int32.maxValue }

def readDelta (total : Nat) (remain : List UInt8) (missing : ParseError) :
    Except ParseFail (Int32 × List UInt8) :=
  let result := Vlq.decode remain 0
  if result.start = 0 then .error (failAt total remain missing)
  else .ok (result.value, remain.drop result.start)

def skipComma : List UInt8 → List UInt8
  | [] => []
  | byte :: rest => if byte = Vlq.comma then rest else byte :: rest

/-- The end of a segment after its fourth field: a separator, or the name. -/
def parseName (total : Nat) (options : ParseOptions) (state : ParseState) (remain : List UInt8) :
    Except ParseFail (ParseState × List UInt8) :=
  match remain with
  | [] => .ok (state, [])
  | byte :: rest =>
      if byte = Vlq.comma then .ok (state, rest)
      else if byte = Vlq.semicolon then .ok (state, byte :: rest)
      else do
        let (nameIndexDelta, remain) ← readDelta total (byte :: rest) .invalidNameIndexDelta
        let state :=
          if options.allowNames then
            { state with
              nameIndex := state.nameIndex + nameIndexDelta
              mapping := if state.hasNames then state.mapping else state.mapping.ensureWithNames
              hasNames := true }
          else state
        return (state, skipComma remain)

def ParseState.appendMapping (state : ParseState) : ParseState :=
  { state with
    mapping := state.mapping.append
      { generated := state.generated
        original := state.original
        sourceIndex := state.sourceIndex
        nameIndex := if state.hasNames then state.nameIndex else -1 } }

def parseOriginal (total : Nat) (sourcesCount : Int32) (options : ParseOptions) (state : ParseState)
    (remain : List UInt8) : Except ParseFail (ParseState × List UInt8) := do
  let (sourceIndexDelta, afterSource) ← readDelta total remain .invalidSourceIndexDelta
  let sourceIndex := state.sourceIndex + sourceIndexDelta
  if sourceIndex < 0 ∨ sourceIndex ≥ sourcesCount then
    throw (failAt total remain .invalidSourceIndexValue)
  let (originalLineDelta, afterLine) ← readDelta total afterSource .missingOriginalLine
  let originalLine := state.original.lines + originalLineDelta
  if originalLine < 0 then throw (failAt total afterSource .invalidOriginalLineValue)
  let (originalColumnDelta, afterColumn) ← readDelta total afterLine .missingOriginalColumnValue
  let originalColumn := state.original.columns + originalColumnDelta
  if originalColumn < 0 then throw (failAt total afterLine .invalidOriginalColumnValue)
  let (state, remain) ← parseName total options
    { state with
      sourceIndex := sourceIndex
      original := ⟨originalLine, originalColumn⟩ }
    afterColumn
  return (state.appendMapping, remain)

/-- One segment, from its generated column on.  A segment of one field has no
original position and is dropped. -/
def parseSegment (total : Nat) (sourcesCount : Int32) (options : ParseOptions) (state : ParseState)
    (remain : List UInt8) : Except ParseFail (ParseState × List UInt8) := do
  let (generatedColumnDelta, rest) ← readDelta total remain .missingGeneratedColumnValue
  let generatedColumn := state.generated.columns + generatedColumnDelta
  if generatedColumn < 0 then throw (failAt total remain .invalidGeneratedColumnValue)
  let state :=
    { state with
      needsSort := state.needsSort || generatedColumnDelta < 0
      generated := { state.generated with columns := generatedColumn } }
  match rest with
  | [] => return (state, [])
  | byte :: after =>
      if byte = Vlq.comma then return (state, after)
      else if byte = Vlq.semicolon then return (state, byte :: after)
      else parseOriginal total sourcesCount options state (byte :: after)

/-! ### Line separators -/

def skipSemicolonRuns (lines : Int32) : List UInt8 → Int32 × List UInt8
  | a :: b :: c :: d :: rest =>
      if a = Vlq.semicolon ∧ b = Vlq.semicolon ∧ c = Vlq.semicolon ∧ d = Vlq.semicolon then
        skipSemicolonRuns (lines + 4) rest
      else (lines, a :: b :: c :: d :: rest)
  | remain => (lines, remain)

def skipSemicolons (lines : Int32) : List UInt8 → Int32 × List UInt8
  | [] => (lines, [])
  | byte :: rest =>
      if byte = Vlq.semicolon then skipSemicolons (lines + 1) rest else (lines, byte :: rest)

/-- The start of an iteration: separators move to a later line and its first column. -/
def skipLines (state : ParseState) (remain : List UInt8) : ParseState × List UInt8 :=
  match remain with
  | [] => (state, [])
  | byte :: rest =>
      if byte = Vlq.semicolon then
        let (lines, remain) := skipSemicolonRuns state.generated.lines (byte :: rest)
        let (lines, remain) := skipSemicolons lines remain
        ({ state with generated := ⟨lines, 0⟩ }, remain)
      else (state, byte :: rest)

/-! ### Progress -/

theorem decodeLoop_taken {bytes : List UInt8} :
    ∀ {shift taken : Nat} {word : UInt32} {value : Int32} {after : Nat},
      Vlq.decodeLoop bytes shift word taken = some (value, after) →
        taken < after ∧ after ≤ taken + bytes.length := by
  induction bytes with
  | nil =>
      intro shift taken word value after decoded
      cases decoded
  | cons byte rest ih =>
      intro shift taken word value after decoded
      rw [Vlq.decodeLoop] at decoded
      rw [List.length_cons]
      split at decoded
      · have afterEq := congrArg Prod.snd (Option.some.inj decoded)
        dsimp only at afterEq
        omega
      · have later := ih decoded
        omega

theorem decode_start_le (remain : List UInt8) : (Vlq.decode remain 0).start ≤ remain.length := by
  unfold Vlq.decode
  split
  · exact Nat.zero_le _
  · rename_i value taken decoded
    have bound := (decodeLoop_taken decoded).2
    rw [List.length_take, List.drop_zero] at bound
    dsimp only
    omega

theorem readDelta_shrinks {total : Nat} {remain rest : List UInt8} {missing : ParseError}
    {delta : Int32} (read : readDelta total remain missing = .ok (delta, rest)) :
    rest.length < remain.length := by
  have inside := decode_start_le remain
  unfold readDelta at read
  dsimp only at read
  split at read
  · cases read
  · rename_i progress
    have restEq := congrArg Prod.snd (Except.ok.inj read)
    dsimp only at restEq
    rw [← restEq, List.length_drop]
    omega

theorem skipComma_length_le (remain : List UInt8) : (skipComma remain).length ≤ remain.length := by
  cases remain with
  | nil => exact Nat.le_refl _
  | cons byte rest =>
      rw [skipComma]
      split <;> simp

theorem ok_of_bind {ε α β : Type} {first : Except ε α} {next : α → Except ε β} {result : β}
    (bound : first >>= next = .ok result) : ∃ value, first = .ok value ∧ next value = .ok result := by
  cases first with
  | error failure => cases bound
  | ok value => exact ⟨value, rfl, bound⟩

theorem parseName_length_le {total : Nat} {options : ParseOptions} {state after : ParseState}
    {remain rest : List UInt8}
    (parsed : parseName total options state remain = .ok (after, rest)) :
    rest.length ≤ remain.length := by
  unfold parseName at parsed
  split at parsed
  · have restEq := congrArg Prod.snd (Except.ok.inj parsed)
    dsimp only at restEq
    exact Nat.le_of_eq (by rw [← restEq])
  · split at parsed
    · have restEq := congrArg Prod.snd (Except.ok.inj parsed)
      dsimp only at restEq
      rw [← restEq, List.length_cons]
      omega
    · split at parsed
      · have restEq := congrArg Prod.snd (Except.ok.inj parsed)
        dsimp only at restEq
        exact Nat.le_of_eq (by rw [← restEq])
      · obtain ⟨⟨delta, remain'⟩, read, finished⟩ := ok_of_bind parsed
        have shorter := readDelta_shrinks read
        have restEq := congrArg Prod.snd (Except.ok.inj finished)
        dsimp only at restEq
        have skipped := skipComma_length_le remain'
        rw [← restEq]
        omega

theorem parseOriginal_length_lt {total : Nat} {sourcesCount : Int32} {options : ParseOptions}
    {state after : ParseState} {remain rest : List UInt8}
    (parsed : parseOriginal total sourcesCount options state remain = .ok (after, rest)) :
    rest.length < remain.length := by
  unfold parseOriginal at parsed
  obtain ⟨⟨sourceIndexDelta, afterSource⟩, readSource, parsed⟩ := ok_of_bind parsed
  dsimp only at parsed
  split at parsed
  · cases parsed
  · obtain ⟨⟨originalLineDelta, afterLine⟩, readLine, parsed⟩ := ok_of_bind parsed
    dsimp only at parsed
    split at parsed
    · cases parsed
    · obtain ⟨⟨originalColumnDelta, afterColumn⟩, readColumn, parsed⟩ := ok_of_bind parsed
      dsimp only at parsed
      split at parsed
      · cases parsed
      · obtain ⟨⟨named, remain'⟩, readName, finished⟩ := ok_of_bind parsed
        have restEq := congrArg Prod.snd (Except.ok.inj finished)
        dsimp only at restEq
        have shorter := readDelta_shrinks readSource
        have lineShorter := readDelta_shrinks readLine
        have columnShorter := readDelta_shrinks readColumn
        have nameShorter := parseName_length_le readName
        rw [← restEq]
        omega

theorem parseSegment_length_lt {total : Nat} {sourcesCount : Int32} {options : ParseOptions}
    {state after : ParseState} {remain rest : List UInt8}
    (parsed : parseSegment total sourcesCount options state remain = .ok (after, rest)) :
    rest.length < remain.length := by
  unfold parseSegment at parsed
  obtain ⟨⟨generatedColumnDelta, afterColumn⟩, readColumn, parsed⟩ := ok_of_bind parsed
  have shorter := readDelta_shrinks readColumn
  dsimp only at parsed
  split at parsed
  · cases parsed
  · split at parsed
    · have restEq := congrArg Prod.snd (Except.ok.inj parsed)
      dsimp only at restEq
      rw [← restEq]
      exact shorter
    · rw [List.length_cons] at shorter
      split at parsed
      · have restEq := congrArg Prod.snd (Except.ok.inj parsed)
        dsimp only at restEq
        rw [← restEq]
        omega
      · split at parsed
        · have restEq := congrArg Prod.snd (Except.ok.inj parsed)
          dsimp only at restEq
          rw [← restEq, List.length_cons]
          exact shorter
        · have later := parseOriginal_length_lt parsed
          rw [List.length_cons] at later
          omega

theorem skipSemicolonRuns_length_le (lines : Int32) (remain : List UInt8) :
    (skipSemicolonRuns lines remain).2.length ≤ remain.length := by
  fun_induction skipSemicolonRuns lines remain with
  | case1 => simp only [List.length_cons]; omega
  | case2 => exact Nat.le_refl _
  | case3 => exact Nat.le_refl _

theorem skipSemicolons_length_le (lines : Int32) (remain : List UInt8) :
    (skipSemicolons lines remain).2.length ≤ remain.length := by
  fun_induction skipSemicolons lines remain with
  | case1 => exact Nat.le_refl _
  | case2 => simp only [List.length_cons]; omega
  | case3 => exact Nat.le_refl _

theorem skipLines_length_le (state : ParseState) (remain : List UInt8) :
    (skipLines state remain).2.length ≤ remain.length := by
  unfold skipLines
  split
  · exact Nat.le_refl _
  · split
    · exact Nat.le_trans (skipSemicolons_length_le _ _) (skipSemicolonRuns_length_le _ _)
    · exact Nat.le_refl _

/-! ### The whole string -/

def parseLoop (total : Nat) (sourcesCount : Int32) (options : ParseOptions) (state : ParseState)
    (remain : List UInt8) : Except ParseFail ParseState :=
  if (skipLines state remain).2 = [] then .ok (skipLines state remain).1
  else
    match _segment : parseSegment total sourcesCount options (skipLines state remain).1
      (skipLines state remain).2 with
    | .error failure => .error failure
    | .ok (next, rest) => parseLoop total sourcesCount options next rest
termination_by remain.length
decreasing_by
  have skippedLength := skipLines_length_le state remain
  have shorter := parseSegment_length_lt _segment
  omega

/-- `mapping::parse` without its vectorised first pass. -/
def parse (bytes : List UInt8) (sourcesCount : Int32) (options : ParseOptions) :
    Except ParseFail ListValue := do
  let state ← parseLoop bytes.length sourcesCount options .init bytes
  if state.needsSort && options.sort then return state.mapping.sort
  return state.mapping

end Bun.SourceMap
