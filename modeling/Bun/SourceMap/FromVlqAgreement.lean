/-
The string loops of `parse` and `from_vlq` side by side.

The two loops read the same fields.  They differ where a source index is the largest
`i32`: `parse` compares it with its source count and fails, `from_vlq` has no count.
-/

import Bun.SourceMap.FromVlq

set_option autoImplicit false

namespace Bun.SourceMap.InternalSourceMap

/-! ### Calls -/

def separators (calls : List BuilderCall) : Nat :=
  calls.count .appendLineSeparator

theorem appended_append (calls more : List BuilderCall) :
    ∀ line, appended line (calls ++ more) =
      appended line calls ++ appended (line + separators calls) more := by
  induction calls with
  | nil => intro line; rfl
  | cons call calls ih =>
      intro line
      cases call with
      | appendLineSeparator =>
          rw [List.cons_append, appended, ih, appended]
          rw [separators, separators, List.count_cons_self, Nat.add_assoc, Nat.add_comm 1]
      | appendMapping current =>
          rw [List.cons_append, appended, ih, appended]
          simp [separators]

theorem run_append (builder : Builder) (calls more : List BuilderCall) :
    builder.run (calls ++ more) = (builder.run calls).run more := List.foldl_append

def State.row (state : State) : MappingWithoutName :=
  { generated := ⟨state.generatedLine, state.generatedColumn⟩
    original := ⟨state.originalLine, state.originalColumn⟩
    sourceIndex := state.sourceIndex }

/-! ### Fields -/

theorem readDelta_eq (total : Nat) (remain : List UInt8) (missing : ParseError) :
    readDelta total remain missing =
      match readField remain with
      | .error _ => .error (failAt total remain missing)
      | .ok read => .ok read := by
  unfold readDelta readField
  dsimp only
  split <;> rfl

/-- From a value that is not negative, the checked sum and the wrapped one are
rejected together: a wrapped sum is negative. -/
theorem accumulate_eq (absolute delta : Int32) (nonneg : 0 ≤ absolute) :
    accumulate absolute delta =
      if absolute + delta < 0 then .error .invalidSourceMap else .ok (absolute + delta) := by
  have nonnegInt : 0 ≤ absolute.toInt := by simpa using Int32.le_iff_toInt_le.mp nonneg
  have absoluteMax := absolute.toInt_lt
  have deltaMin := delta.le_toInt
  have deltaMax := delta.toInt_lt
  have negative : absolute + delta < 0 ↔ (absolute.toInt + delta.toInt).bmod (2 ^ 32) < 0 := by
    rw [Int32.lt_iff_toInt_lt, Int32.toInt_add]
    rfl
  unfold accumulate checkedAdd
  by_cases fits : -2147483648 ≤ absolute.toInt + delta.toInt ∧
      absolute.toInt + delta.toInt ≤ 2147483647
  · rw [if_pos fits, Option.filter_some]
    by_cases below : absolute + delta < 0
    · rw [if_pos below, if_neg (by simpa using below)]
    · rw [if_neg below, if_pos (by simpa using below)]
  · have wrapped : absolute + delta < 0 := by
      rw [negative]
      have beyond : 2147483647 < absolute.toInt + delta.toInt := by omega
      rw [Int.bmod_def]
      omega
    rw [if_neg fits, if_pos wrapped]
    rfl

theorem le_add_of_nonneg {value delta : Int32} (delta_nonneg : ¬delta < 0)
    (sum_nonneg : ¬value + delta < 0) (value_nonneg : 0 ≤ value) : value ≤ value + delta := by
  have valueMax := value.toInt_lt
  have deltaMax := delta.toInt_lt
  have sum := Int32.toInt_add value delta
  rw [Int32.lt_iff_toInt_lt] at delta_nonneg sum_nonneg
  rw [Int32.le_iff_toInt_le] at value_nonneg ⊢
  rw [sum] at sum_nonneg ⊢
  simp only [Int32.toInt_zero] at delta_nonneg sum_nonneg value_nonneg
  rw [Int.bmod_def] at sum_nonneg ⊢
  omega

/-! ### The relation -/

def OrderedUpTo (rows : List MappingWithoutName) (position : LineColumnOffset) : Prop :=
  InOrder MappingWithoutName.generated rows ∧
    ∀ last ∈ rows.getLast?, position.lessThan last.generated = false

theorem OrderedUpTo.later {rows : List MappingWithoutName} {position next : LineColumnOffset}
    (ordered : OrderedUpTo rows position)
    (after : position.lines < next.lines ∨
      position.lines = next.lines ∧ position.columns ≤ next.columns) :
    OrderedUpTo rows next := by
  refine ⟨ordered.1, fun last member => ?_⟩
  have before := ordered.2 last member
  rw [LineColumnOffset.lessThan_eq_false_iff] at before ⊢
  simp only [Int32.lt_iff_toInt_lt, Int32.le_iff_toInt_le, ← Int32.toInt_inj] at before after ⊢
  omega

theorem OrderedUpTo.append {rows : List MappingWithoutName} {row : MappingWithoutName}
    (ordered : OrderedUpTo rows row.generated) : OrderedUpTo (rows ++ [row]) row.generated := by
  constructor
  · refine List.isChain_append.mpr ⟨ordered.1, List.isChain_singleton _, ?_⟩
    intro last member next isNext
    obtain rfl : row = next := by simpa using isNext
    exact ordered.2 last member
  · intro last member
    obtain rfl : row = last := by simpa using member
    rw [LineColumnOffset.lessThan_eq_false_iff]
    exact Or.inr ⟨rfl, Int32.le_refl _⟩

/-- The parser and the reader at the same place of a string, after the reader has made
`calls`. -/
structure Matches (parser : ParseState) (reader : VlqReader) (calls : List BuilderCall) : Prop where
  generatedColumn : reader.generatedColumn = parser.generated.columns
  sourceIndex : reader.sourceIndex = parser.sourceIndex
  originalLine : reader.originalLine = parser.original.lines
  originalColumn : reader.originalColumn = parser.original.columns
  nonneg : 0 ≤ parser.generated.columns ∧ 0 ≤ parser.sourceIndex ∧ 0 ≤ parser.original.lines ∧
    0 ≤ parser.original.columns
  builder : reader.builder = Builder.init.run calls
  lines : parser.generated.lines = Int32.ofNat (separators calls)
  rows : parser.mapping.rows = (appended 0 calls).map State.row
  accepted : ∀ row ∈ parser.mapping.rows, row.Accepted Int32.maxValue
  ordered : separators calls < 2 ^ 31 → parser.needsSort = false →
    OrderedUpTo parser.mapping.rows parser.generated

theorem Matches.init : Matches .init .init [] := by
  constructor
  case nonneg => decide
  case accepted =>
    intro row member
    cases member
  case ordered =>
    intro _ _
    refine ⟨List.isChain_nil, ?_⟩
    intro last member
    cases member
  all_goals rfl

theorem Matches.nextLine {parser : ParseState} {reader : VlqReader} {calls : List BuilderCall}
    (matched : Matches parser reader calls) :
    Matches parser.nextLine reader.nextLine (calls ++ [.appendLineSeparator]) := by
  have counted : separators (calls ++ [.appendLineSeparator]) = separators calls + 1 := by
    simp [separators]
  have next : parser.nextLine.generated.lines = Int32.ofNat (separators calls + 1) := by
    dsimp only [ParseState.nextLine]
    rw [matched.lines, Int32.ofNat_add]
    rfl
  constructor
  case generatedColumn => rfl
  case sourceIndex => exact matched.sourceIndex
  case originalLine => exact matched.originalLine
  case originalColumn => exact matched.originalColumn
  case nonneg => exact ⟨Int32.le_refl _, matched.nonneg.2⟩
  case builder =>
    rw [run_append, ← matched.builder]
    rfl
  case lines => rw [counted, next]
  case rows =>
    rw [appended_append]
    simpa [appended, ParseState.nextLine] using matched.rows
  case accepted => exact matched.accepted
  case ordered =>
    intro bounded inOrder
    rw [counted] at bounded
    refine (matched.ordered (by omega) inOrder).later (Or.inl ?_)
    rw [next, matched.lines, Int32.lt_iff_toInt_lt, Int32.toInt_ofNat_of_lt (by omega),
      Int32.toInt_ofNat_of_lt (by omega)]
    omega

theorem Matches.moveColumn {parser : ParseState} {reader : VlqReader} {calls : List BuilderCall}
    (matched : Matches parser reader calls) {delta : Int32}
    (accepted : ¬parser.generated.columns + delta < 0) :
    Matches
      { parser with
        needsSort := parser.needsSort || delta < 0
        generated := { parser.generated with columns := parser.generated.columns + delta } }
      { reader with generatedColumn := parser.generated.columns + delta } calls := by
  constructor
  case nonneg => exact ⟨Int32.not_lt.mp accepted, matched.nonneg.2⟩
  case ordered =>
    intro bounded inOrder
    rw [Bool.or_eq_false_iff] at inOrder
    have ascending : ¬delta < 0 := by simpa using inOrder.2
    refine (matched.ordered bounded inOrder.1).later (Or.inr ⟨rfl, ?_⟩)
    exact le_add_of_nonneg ascending accepted matched.nonneg.1
  case generatedColumn => rfl
  case sourceIndex => exact matched.sourceIndex
  case originalLine => exact matched.originalLine
  case originalColumn => exact matched.originalColumn
  case builder => exact matched.builder
  case lines => exact matched.lines
  case rows => exact matched.rows
  case accepted => exact matched.accepted

/-- A name changes neither the position of the parser nor its rows. -/
structure SameRows (state named : ParseState) : Prop where
  generated : named.generated = state.generated
  original : named.original = state.original
  sourceIndex : named.sourceIndex = state.sourceIndex
  needsSort : named.needsSort = state.needsSort
  rows : named.mapping.rows = state.mapping.rows

theorem Matches.appendMapping {parser named : ParseState} {reader next : VlqReader}
    {calls : List BuilderCall} (matched : Matches parser reader calls)
    (same : SameRows { parser with
      sourceIndex := next.sourceIndex
      original := ⟨next.originalLine, next.originalColumn⟩ } named)
    (column : next.generatedColumn = reader.generatedColumn)
    (builder : next.builder = reader.builder.appendMapping next.current)
    (source : 0 ≤ next.sourceIndex ∧ next.sourceIndex < Int32.maxValue)
    (line : 0 ≤ next.originalLine) (originalColumn : 0 ≤ next.originalColumn) :
    Matches named.appendMapping next (calls ++ [.appendMapping next.current]) := by
  have counted : separators (calls ++ [.appendMapping next.current]) = separators calls := by
    simp [separators]
  have generated : named.generated = parser.generated := same.generated
  have position : named.generated.columns = next.generatedColumn := by
    rw [generated, column, matched.generatedColumn]
  have rowEq : (⟨named.generated, named.original, named.sourceIndex⟩ : MappingWithoutName) =
      (State.ofMapping (Int32.ofNat (separators calls)) next.current).row := by
    have lines : named.generated.lines = Int32.ofNat (separators calls) := by
      rw [generated, matched.lines]
    rw [same.original, same.sourceIndex, ← lines]
    dsimp only [State.ofMapping, State.row, VlqReader.current]
    rw [← position]
  have rows : named.appendMapping.mapping.rows = parser.mapping.rows ++
      [(State.ofMapping (Int32.ofNat (separators calls)) next.current).row] := by
    dsimp only [ParseState.appendMapping]
    rw [ListValue.rows_append, same.rows, ← rowEq]
    rfl
  constructor
  case generatedColumn => exact position.symm
  case sourceIndex => exact same.sourceIndex.symm
  case originalLine => exact (congrArg LineColumnOffset.lines same.original).symm
  case originalColumn => exact (congrArg LineColumnOffset.columns same.original).symm
  case nonneg =>
    dsimp only [ParseState.appendMapping]
    rw [generated, same.original, same.sourceIndex]
    exact ⟨matched.nonneg.1, source.1, line, originalColumn⟩
  case builder =>
    rw [builder, run_append, matched.builder]
    rfl
  case lines =>
    rw [counted, ← matched.lines, ← generated]
    rfl
  case rows =>
    rw [rows, matched.rows, appended_append, List.map_append, Nat.zero_add]
    rfl
  case accepted =>
    intro row member
    rw [rows, List.mem_append, List.mem_singleton] at member
    rcases member with earlier | rfl
    · exact matched.accepted row earlier
    · refine ⟨?_, source.1, source.2, line, originalColumn⟩
      change 0 ≤ next.generatedColumn
      rw [column, matched.generatedColumn]
      exact matched.nonneg.1
  case ordered =>
    intro bounded inOrder
    rw [counted] at bounded
    have before := matched.ordered bounded (by rw [← inOrder]; exact same.needsSort.symm)
    rw [← generated] at before
    rw [rows, ← rowEq]
    exact OrderedUpTo.append before

/-! ### Segments -/

theorem parseName_discardName (total : Nat) (options : ParseOptions) (state : ParseState)
    (remain : List UInt8) :
    match discardName remain with
    | .error _ => ∃ failure, parseName total options state remain = .error failure
    | .ok after => ∃ named, parseName total options state remain = .ok (named, skipComma after) ∧
        SameRows state named := by
  cases remain with
  | nil => exact ⟨state, rfl, ⟨rfl, rfl, rfl, rfl, rfl⟩⟩
  | cons byte rest =>
      unfold discardName parseName
      dsimp only
      by_cases isComma : byte = Vlq.comma
      · rw [if_neg (fun both => both.1 isComma), if_pos isComma]
        dsimp only
        rw [skipComma, if_pos isComma]
        exact ⟨state, rfl, ⟨rfl, rfl, rfl, rfl, rfl⟩⟩
      · by_cases isSemicolon : byte = Vlq.semicolon
        · rw [if_neg (fun both => both.2 isSemicolon), if_neg isComma, if_pos isSemicolon]
          dsimp only
          rw [skipComma, if_neg isComma]
          exact ⟨state, rfl, ⟨rfl, rfl, rfl, rfl, rfl⟩⟩
        · rw [if_pos ⟨isComma, isSemicolon⟩, if_neg isComma, if_neg isSemicolon, readDelta_eq]
          cases readField (byte :: rest) with
          | error error => exact ⟨_, rfl⟩
          | ok read =>
              refine ⟨_, rfl, ?_⟩
              split
              · refine ⟨rfl, rfl, rfl, rfl, ?_⟩
                dsimp only
                split <;> rfl
              · exact ⟨rfl, rfl, rfl, rfl, rfl⟩

/-- One segment on both sides, after `calls`. -/
inductive Lockstep (calls : List BuilderCall) :
    Except ParseFail (ParseState × List UInt8) → Except FromVlqError (VlqReader × List UInt8) → Prop
  | agree {parser : ParseState} {reader : VlqReader} {rest : List UInt8}
      (more : List BuilderCall) (sameLine : separators more = 0)
      (matched : Matches parser reader (calls ++ more)) :
      Lockstep calls (.ok (parser, rest)) (.ok (reader, rest))
  | reject {failure : ParseFail} {error : FromVlqError} :
      Lockstep calls (.error failure) (.error error)
  | beyond {failure : ParseFail} {reader : VlqReader} {rest : List UInt8}
      (builder : reader.builder = Builder.init.run (calls ++ [.appendMapping reader.current]))
      (largest : reader.sourceIndex = Int32.maxValue) :
      Lockstep calls (.error failure) (.ok (reader, rest))

theorem eq_maxValue_of_ge {value : Int32} (beyond : value ≥ Int32.maxValue) :
    value = Int32.maxValue := by
  have bounded := value.toInt_lt
  have largest : Int32.maxValue.toInt = 2147483647 := rfl
  rw [ge_iff_le, Int32.le_iff_toInt_le] at beyond
  exact Int32.toInt_inj.mp (by omega)

theorem Matches.original {parser : ParseState} {reader : VlqReader} {calls : List BuilderCall}
    (matched : Matches parser reader calls) (total : Nat) (options : ParseOptions)
    (remain : List UInt8) :
    Lockstep calls (parseOriginal total Int32.maxValue options parser remain)
      (reader.readOriginal remain) := by
  obtain ⟨-, sourceNonneg, lineNonneg, columnNonneg⟩ := matched.nonneg
  unfold parseOriginal VlqReader.readOriginal
  simp only [readDelta_eq, matched.sourceIndex, matched.originalLine, matched.originalColumn,
    accumulate_eq _ _ sourceNonneg, accumulate_eq _ _ lineNonneg, accumulate_eq _ _ columnNonneg]
  cases readField remain with
  | error error => exact .reject
  | ok source =>
      obtain ⟨sourceIndexDelta, afterSource⟩ := source
      simp only [bind, Except.bind]
      by_cases sourceNegative : parser.sourceIndex + sourceIndexDelta < 0
      · rw [if_pos (Or.inl sourceNegative), if_pos sourceNegative]
        exact .reject
      · simp only [if_neg sourceNegative]
        cases readField afterSource with
        | error error =>
            dsimp only
            split <;> exact .reject
        | ok line =>
            obtain ⟨originalLineDelta, afterLine⟩ := line
            dsimp only
            by_cases lineNegative : parser.original.lines + originalLineDelta < 0
            · simp only [if_pos lineNegative]
              split <;> exact .reject
            · simp only [if_neg lineNegative]
              cases readField afterLine with
              | error error =>
                  dsimp only
                  split <;> exact .reject
              | ok column =>
                  obtain ⟨originalColumnDelta, afterColumn⟩ := column
                  dsimp only
                  by_cases columnNegative : parser.original.columns + originalColumnDelta < 0
                  · simp only [if_pos columnNegative]
                    split <;> exact .reject
                  · simp only [if_neg columnNegative]
                    have names := parseName_discardName total options
                      { parser with
                        sourceIndex := parser.sourceIndex + sourceIndexDelta
                        original := ⟨parser.original.lines + originalLineDelta,
                          parser.original.columns + originalColumnDelta⟩ }
                      afterColumn
                    cases discarded : discardName afterColumn with
                    | error error =>
                        rw [discarded] at names
                        obtain ⟨failure, failed⟩ := names
                        rw [failed]
                        dsimp only
                        split <;> exact .reject
                    | ok after =>
                        rw [discarded] at names
                        obtain ⟨named, parsed, same⟩ := names
                        rw [parsed]
                        dsimp only
                        split
                        · rename_i outside
                          refine .beyond ?_ ?_
                          · rw [run_append, ← matched.builder]
                            rfl
                          · rcases outside with negative | beyond
                            · exact absurd negative sourceNegative
                            · exact eq_maxValue_of_ge beyond
                        · rename_i inside
                          obtain ⟨-, below⟩ := not_or.mp inside
                          refine .agree [.appendMapping _] rfl
                            (matched.appendMapping same rfl rfl
                              ⟨Int32.not_lt.mp sourceNegative, Int32.not_le.mp below⟩
                              (Int32.not_lt.mp lineNegative) (Int32.not_lt.mp columnNegative))

theorem Matches.segment {parser : ParseState} {reader : VlqReader} {calls : List BuilderCall}
    (matched : Matches parser reader calls) (total : Nat) (options : ParseOptions)
    (remain : List UInt8) :
    Lockstep calls (parseSegment total Int32.maxValue options parser remain)
      (reader.readSegment remain) := by
  unfold parseSegment VlqReader.readSegment
  simp only [readDelta_eq, matched.generatedColumn, accumulate_eq _ _ matched.nonneg.1]
  cases readField remain with
  | error error => exact .reject
  | ok read =>
      obtain ⟨generatedColumnDelta, rest⟩ := read
      simp only [bind, Except.bind]
      by_cases negative : parser.generated.columns + generatedColumnDelta < 0
      · rw [if_pos negative, if_pos negative]
        exact .reject
      · rw [if_neg negative, if_neg negative]
        have moved := matched.moveColumn negative
        have unchanged : calls = calls ++ [] := (List.append_nil calls).symm
        cases rest with
        | nil => exact .agree [] rfl (unchanged ▸ moved)
        | cons byte after =>
            dsimp only
            split
            · exact .agree [] rfl (unchanged ▸ moved)
            · split
              · exact .agree [] rfl (unchanged ▸ moved)
              · exact moved.original total options (byte :: after)

/-! ### The whole string -/

theorem fromVlqLoop_builder (reader : VlqReader) (remain : List UInt8) :
    ∀ final, fromVlqLoop reader remain = .ok final →
      ∃ more, final.builder = reader.builder.run more := by
  induction size : remain.length using Nat.strongRecOn generalizing reader remain with
  | ind size ih =>
      intro final finished
      cases remain with
      | nil =>
          rw [fromVlqLoop_nil] at finished
          obtain rfl := Except.ok.inj finished
          exact ⟨[], rfl⟩
      | cons byte rest =>
          by_cases separator : byte = Vlq.semicolon
          · rw [separator, fromVlqLoop_semicolon] at finished
            obtain ⟨more, builder⟩ := ih rest.length (by rw [← size]; exact Nat.lt_succ_self _)
              reader.nextLine rest rfl final finished
            exact ⟨.appendLineSeparator :: more, builder⟩
          · rw [fromVlqLoop_other reader separator] at finished
            cases read : reader.readSegment (byte :: rest) with
            | error error =>
                rw [read] at finished
                cases finished
            | ok result =>
                obtain ⟨next, after⟩ := result
                rw [read] at finished
                obtain ⟨-, shorter, kept | appended⟩ := VlqReader.readSegment_ok read
                · obtain ⟨more, builder⟩ := ih after.length (size ▸ shorter) next after rfl final
                    finished
                  exact ⟨more, kept ▸ builder⟩
                · obtain ⟨more, builder⟩ := ih after.length (size ▸ shorter) next after rfl final
                    finished
                  refine ⟨.appendMapping next.current :: more, ?_⟩
                  rw [builder, appended]
                  rfl

/-- A whole string on both sides.  `lines` bounds the separators the reader has made. -/
inductive Outcome (lines : Nat) : Except ParseFail ParseState → Except FromVlqError VlqReader → Prop
  | agree {parser : ParseState} {reader : VlqReader} (calls : List BuilderCall)
      (bounded : separators calls ≤ lines) (matched : Matches parser reader calls) :
      Outcome lines (.ok parser) (.ok reader)
  | reject {failure : ParseFail} {error : FromVlqError} :
      Outcome lines (.error failure) (.error error)
  | beyond {failure : ParseFail} {reader : VlqReader} (calls : List BuilderCall)
      (builder : reader.builder = Builder.init.run calls)
      (largest : ∃ state ∈ appended 0 calls, state.sourceIndex = Int32.maxValue) :
      Outcome lines (.error failure) (.ok reader)

theorem Outcome.weaken {lines more : Nat} {parsed : Except ParseFail ParseState}
    {read : Except FromVlqError VlqReader} (outcome : Outcome lines parsed read)
    (wider : lines ≤ more) : Outcome more parsed read := by
  cases outcome with
  | agree calls bounded matched => exact .agree calls (Nat.le_trans bounded wider) matched
  | reject => exact .reject
  | beyond calls builder largest => exact .beyond calls builder largest

theorem Matches.loop (total : Nat) (options : ParseOptions) (remain : List UInt8) :
    ∀ {parser : ParseState} {reader : VlqReader} {calls : List BuilderCall},
      Matches parser reader calls →
      Outcome (separators calls + remain.count Vlq.semicolon)
        (parseLoop total Int32.maxValue options parser remain) (fromVlqLoop reader remain) := by
  induction size : remain.length using Nat.strongRecOn generalizing remain with
  | ind size ih =>
      intro parser reader calls matched
      cases remain with
      | nil =>
          rw [parseLoop_nil, fromVlqLoop_nil]
          exact .agree calls (Nat.le_add_right _ _) matched
      | cons byte rest =>
          by_cases separator : byte = Vlq.semicolon
          · subst separator
            rw [parseLoop_semicolon, fromVlqLoop_semicolon, List.count_cons_self]
            have later := ih rest.length (by rw [← size]; exact Nat.lt_succ_self _) rest rfl
              matched.nextLine
            refine later.weaken ?_
            simp only [separators, List.count_append, List.count_singleton_self]
            omega
          · have step := matched.segment total options (byte :: rest)
            rw [parseLoop_other total Int32.maxValue options parser separator,
              fromVlqLoop_other reader separator]
            generalize segmentEq : parseSegment total Int32.maxValue options parser (byte :: rest) =
              parsed at step
            generalize readEq : reader.readSegment (byte :: rest) = read at step
            cases step with
            | agree more sameLine moved =>
                rename_i parser' reader' after
                obtain ⟨suffix, shorter, -⟩ := VlqReader.readSegment_ok readEq
                have fewer : after.count Vlq.semicolon ≤ (byte :: rest).count Vlq.semicolon :=
                  suffix.sublist.count_le Vlq.semicolon
                refine (ih after.length (size ▸ shorter) after rfl moved).weaken ?_
                simp only [separators, List.count_append] at sameLine ⊢
                omega
            | reject => exact .reject
            | beyond builder largest =>
                rename_i failure reader' after
                dsimp only
                cases finished : fromVlqLoop reader' after with
                | error error => exact .reject
                | ok final =>
                    obtain ⟨more, extended⟩ := fromVlqLoop_builder reader' after final finished
                    refine .beyond (calls ++ [.appendMapping reader'.current] ++ more) ?_
                      ⟨State.ofMapping (Int32.ofNat (0 + separators calls)) reader'.current, ?_,
                        largest⟩
                    · rw [run_append, ← builder, extended]
                    · rw [appended_append, appended_append]
                      exact List.mem_append_left _ (List.mem_append_right _ List.mem_cons_self)

end Bun.SourceMap.InternalSourceMap
