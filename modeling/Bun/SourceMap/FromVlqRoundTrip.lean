/-
Converting a `mappings` string to a blob and back.

The string written from the blob of an accepted string is accepted, and gives the
same mappings.  Two limits of the blob show: windows have 32-bit offsets, and a line
is an `i32`.
-/

import Bun.SourceMap.FromVlqAgreement
import Bun.SourceMap.InternalRoundTrip
import Bun.SourceMap.MappingWriter

set_option autoImplicit false

namespace Bun.SourceMap.InternalSourceMap

/-! ### Writing -/

def VlqOutput.cursor (output : VlqOutput) : TextCursor :=
  { output.prev with generatedLine := output.generatedLine : SourceMapState }.cursor

/-- The writer has written `states` as `items`. -/
structure Emitted (output : VlqOutput) (items : List Item) (states : List State) : Prop where
  text : output.out = render false items
  cursor : items.foldl TextCursor.move .start = output.cursor
  nonneg : output.prev.Nonneg
  line : 0 ≤ output.generatedLine
  representable : ∀ deltas, Item.segment deltas ∈ items → deltas.Representable
  rows : rowsOf .start items = states.map State.row
  ordered : items.any descends = false →
    OrderedUpTo (states.map State.row) output.cursor.generated

theorem Emitted.init : Emitted { out := [], prev := .zero, generatedLine := 0 } [] [] := by
  constructor
  case nonneg => exact ⟨Int32.le_refl _, Int32.le_refl _, Int32.le_refl _, Int32.le_refl _⟩
  case line => exact Int32.le_refl _
  case representable =>
    intro deltas member
    cases member
  case ordered =>
    intro _
    refine ⟨List.isChain_nil, ?_⟩
    intro last member
    cases member
  all_goals rfl

structure State.Follows (state : State) (line : Int32) : Prop where
  nonneg : state.toSourceMapState.Nonneg
  later : line ≤ state.generatedLine

theorem Emitted.lineBreaks {output : VlqOutput} {items : List Item} {states : List State}
    (emitted : Emitted output items states) {state : State}
    (follows : state.Follows output.generatedLine) :
    ∃ next breaks, emitLineBreaks output state = .ok next ∧ next.generatedLine = state.generatedLine ∧
      Emitted next (items ++ breaks) states := by
  have line := emitted.line
  have lineMax := state.generatedLine.toInt_lt
  unfold emitLineBreaks
  by_cases further : output.generatedLine < state.generatedLine
  · rw [if_pos further]
    rw [Int32.lt_iff_toInt_lt] at further
    rw [Int32.le_iff_toInt_le, Int32.toInt_zero] at line
    obtain ⟨gap, gapEq⟩ : ∃ gap : Nat,
        state.generatedLine.toInt - output.generatedLine.toInt = (gap + 1 : Nat) :=
      ⟨(state.generatedLine.toInt - output.generatedLine.toInt - 1).toNat, by omega⟩
    have lineEq : output.generatedLine + Int32.ofNat (gap + 1) = state.generatedLine := by
      apply Int32.toInt_inj.mp
      rw [Int32.toInt_add, Int32.toInt_ofNat_of_lt (by omega), Int.bmod_def]
      omega
    rw [gapEq]
    dsimp only
    rw [Int.toNat_natCast, if_neg (by omega)]
    refine ⟨_, List.replicate (gap + 1) .lineBreak, rfl, rfl, ?_⟩
    have moved : (items ++ List.replicate (gap + 1) Item.lineBreak).foldl TextCursor.move .start =
        { output.cursor with generated := ⟨state.generatedLine, 0⟩ } := by
      rw [List.foldl_append, emitted.cursor, foldl_move_lineBreaks]
      dsimp only [VlqOutput.cursor, SourceMapState.cursor]
      rw [lineEq]
    constructor
    case text =>
      rw [render_append_lineBreaks, ← emitted.text]
    case cursor => exact moved
    case nonneg =>
      obtain ⟨-, source, originalLine, originalColumn⟩ := emitted.nonneg
      exact ⟨Int32.le_refl _, source, originalLine, originalColumn⟩
    case line =>
      rw [Int32.le_iff_toInt_le, Int32.toInt_zero]
      dsimp only
      omega
    case representable =>
      intro deltas member
      rcases List.mem_append.mp member with earlier | lineBreak
      · exact emitted.representable deltas earlier
      · cases (List.mem_replicate.mp lineBreak).2
    case rows => rw [rowsOf_append, rowsOf_lineBreaks, List.append_nil, emitted.rows]
    case ordered =>
      intro inOrder
      rw [List.any_append, Bool.or_eq_false_iff] at inOrder
      refine (emitted.ordered inOrder.1).later (Or.inl ?_)
      rw [Int32.lt_iff_toInt_lt]
      exact further
  · rw [if_neg further]
    have same : output.generatedLine = state.generatedLine := by
      have later := follows.later
      rw [Int32.lt_iff_toInt_lt] at further
      rw [Int32.le_iff_toInt_le] at later
      exact Int32.toInt_inj.mp (by omega)
    exact ⟨output, [], rfl, same, by rwa [List.append_nil]⟩

theorem Emitted.segment {output : VlqOutput} {items : List Item} {states : List State}
    (emitted : Emitted output items states) {state : State}
    (nonneg : state.toSourceMapState.Nonneg) (sameLine : output.generatedLine = state.generatedLine) :
    Emitted
      { output with
        out := Vlq.appendMappingToBuffer output.out (output.out.getLast?.getD 0) output.prev
          state.toSourceMapState
        prev := state.toSourceMapState }
      (items ++ [.segment (Segment.between output.prev state.toSourceMapState)])
      (states ++ [state]) := by
  have applied : output.cursor.apply (Segment.between output.prev state.toSourceMapState) =
      state.toSourceMapState.cursor := by
    exact TextCursor.apply_between
      { output.prev with generatedLine := output.generatedLine } state.toSourceMapState sameLine
  have line : output.generatedLine = state.toSourceMapState.generatedLine := sameLine
  constructor
  case text =>
    dsimp only
    rw [emitted.text]
    exact appendMappingToBuffer_render items emitted.nonneg nonneg
  case cursor =>
    rw [List.foldl_append, emitted.cursor, List.foldl_cons, List.foldl_nil, TextCursor.move, applied]
    dsimp only [VlqOutput.cursor]
    rw [line]
  case nonneg => exact nonneg
  case line => exact emitted.line
  case representable =>
    intro deltas member
    rcases List.mem_append.mp member with earlier | atEnd
    · exact emitted.representable deltas earlier
    · obtain rfl : deltas = _ := by simpa using atEnd
      exact Segment.between_representable emitted.nonneg nonneg
  case rows =>
    rw [rowsOf_append, emitted.rows, emitted.cursor, List.map_append]
    simp only [rowsOf, applied]
    rfl
  case ordered =>
    intro inOrder
    rw [List.any_append, Bool.or_eq_false_iff] at inOrder
    have ascending : descends (.segment (Segment.between output.prev state.toSourceMapState)) =
        false := by simpa using inOrder.2
    have columns : output.prev.generatedColumn ≤ state.generatedColumn := by
      rw [Int32.le_iff_toInt_le]
      exact (descends_between emitted.nonneg nonneg).mp ascending
    have reached : OrderedUpTo (states.map State.row) state.row.generated :=
      (emitted.ordered inOrder.1).later (Or.inr ⟨sameLine, columns⟩)
    have position : (⟨output.generatedLine, state.generatedColumn⟩ : LineColumnOffset) =
        state.row.generated := by
      rw [sameLine]
      rfl
    rw [List.map_append]
    change OrderedUpTo _ (⟨output.generatedLine, state.generatedColumn⟩ : LineColumnOffset)
    rw [position]
    exact reached.append

theorem Emitted.step {output : VlqOutput} {items : List Item} {states : List State}
    (emitted : Emitted output items states) {state : State}
    (follows : state.Follows output.generatedLine) :
    ∃ next more, emitVlq output state = .ok next ∧ next.generatedLine = state.generatedLine ∧
      Emitted next (items ++ more) (states ++ [state]) := by
  obtain ⟨moved, breaks, broke, sameLine, onLine⟩ := emitted.lineBreaks follows
  have written := onLine.segment follows.nonneg sameLine
  rw [List.append_assoc] at written
  refine ⟨_, _, ?_, ?_, written⟩
  · unfold emitVlq
    rw [broke]
    rfl
  · exact sameLine

theorem Emitted.run (states : List State) :
    ∀ {output : VlqOutput} {items : List Item} {done : List State},
      Emitted output items done →
      (∀ state ∈ states, state.toSourceMapState.Nonneg) →
      (output.generatedLine :: states.map State.generatedLine).IsChain (· ≤ ·) →
      ∃ final more, states.foldlM emitVlq output = .ok final ∧
        Emitted final (items ++ more) (done ++ states) := by
  induction states with
  | nil =>
      intro output items done emitted _ _
      exact ⟨output, [], rfl, by simpa using emitted⟩
  | cons state states ih =>
      intro output items done emitted nonneg lines
      rw [List.map_cons, List.isChain_cons_cons] at lines
      obtain ⟨next, breaks, wrote, sameLine, emittedNext⟩ :=
        emitted.step ⟨nonneg state List.mem_cons_self, lines.1⟩
      obtain ⟨final, more, ran, emittedFinal⟩ := ih emittedNext
        (fun later member => nonneg later (List.mem_cons_of_mem _ member))
        (by rw [sameLine]; exact lines.2)
      refine ⟨final, breaks ++ more, ?_, by simpa using emittedFinal⟩
      rw [List.foldlM_cons, wrote]
      exact ran

/-! ### Lines of appended mappings -/

theorem appended_lines (calls : List BuilderCall) :
    ∀ line, line + separators calls < 2 ^ 31 →
      (Int32.ofNat line :: (appended line calls).map State.generatedLine).IsChain (· ≤ ·) := by
  induction calls with
  | nil =>
      intro line _
      exact List.isChain_singleton _
  | cons call calls ih =>
      intro line bounded
      cases call with
      | appendLineSeparator =>
          rw [separators, List.count_cons_self] at bounded
          have later := ih (line + 1) (by rw [separators]; omega)
          rw [appended]
          refine later.imp_head ?_
          intro next reached
          refine Int32.le_trans ?_ reached
          rw [Int32.le_iff_toInt_le, Int32.toInt_ofNat_of_lt (by omega),
            Int32.toInt_ofNat_of_lt (by omega)]
          omega
      | appendMapping current =>
          have same : separators (.appendMapping current :: calls) = separators calls := by
            simp [separators]
          rw [same] at bounded
          rw [appended, List.map_cons, List.isChain_cons_cons]
          exact ⟨Int32.le_refl _, ih line bounded⟩

/-! ### Sorting -/

theorem sort_if_needed (rows : List MappingWithoutName) (needsSort sort : Bool)
    (ordered : needsSort = false → InOrder MappingWithoutName.generated rows) :
    (if needsSort && sort then sortRows MappingWithoutName.generated rows else rows) =
      if sort then sortRows MappingWithoutName.generated rows else rows := by
  cases needsSort with
  | true => cases sort <;> rfl
  | false =>
      cases sort with
      | false => rfl
      | true => exact (sortRows_of_inOrder MappingWithoutName.generated rows (ordered rfl)).symm

theorem parseLoop_sort (total : Nat) (sourcesCount : Int32) (options : ParseOptions) (sort : Bool)
    (remain : List UInt8) :
    ∀ state, parseLoop total sourcesCount { options with sort := sort } state remain =
      parseLoop total sourcesCount options state remain := by
  induction size : remain.length using Nat.strongRecOn generalizing remain with
  | ind size ih =>
      intro state
      cases remain with
      | nil => rw [parseLoop_nil, parseLoop_nil]
      | cons byte rest =>
          by_cases separator : byte = Vlq.semicolon
          · subst separator
            rw [parseLoop_semicolon, parseLoop_semicolon]
            exact ih rest.length (by rw [← size]; exact Nat.lt_succ_self _) rest rfl _
          · have segment : parseSegment total sourcesCount { options with sort := sort } state
                (byte :: rest) = parseSegment total sourcesCount options state (byte :: rest) := rfl
            rw [parseLoop_other _ _ _ _ separator, parseLoop_other _ _ _ _ separator, segment]
            cases parsed : parseSegment total sourcesCount options state (byte :: rest) with
            | error failure => rfl
            | ok result =>
                exact ih result.2.length (size ▸ parseSegment_length_lt parsed) result.2 rfl result.1

/-! ### The round trip -/

def State.ofRow (row : MappingWithoutName) : State :=
  { generatedLine := row.generated.lines
    generatedColumn := row.generated.columns
    sourceIndex := row.sourceIndex
    originalLine := row.original.lines
    originalColumn := row.original.columns }

def stringMappings (vlq : List UInt8) (options : ParseOptions) : List State :=
  match parse vlq Int32.maxValue { options with sort := false } with
  | .error _ => []
  | .ok list => list.rows.map State.ofRow

theorem stringMappings_eq {vlq : List UInt8} {options : ParseOptions} {parser : ParseState}
    (parsed : parseLoop vlq.length Int32.maxValue options .init vlq = .ok parser) :
    stringMappings vlq options = parser.mapping.rows.map State.ofRow := by
  unfold stringMappings parse
  rw [parseLoop_sort, parsed]
  simp [bind, Except.bind, pure, Except.pure]

theorem parse_rows {vlq : List UInt8} {options : ParseOptions} {parser : ParseState}
    (parsed : parseLoop vlq.length Int32.maxValue options .init vlq = .ok parser) :
    ∃ list, parse vlq Int32.maxValue options = .ok list ∧
      list.rows = if parser.needsSort && options.sort then
        sortRows MappingWithoutName.generated parser.mapping.rows else parser.mapping.rows := by
  unfold parse
  rw [parsed]
  simp only [bind, Except.bind]
  split
  · exact ⟨_, rfl, parser.mapping.rows_sort⟩
  · exact ⟨_, rfl, rfl⟩

/-- The string written from a blob of accepted mappings gives these mappings again. -/
theorem parse_appendVlqTo {blob : List UInt8} {states : List State} (options : ParseOptions)
    (stored : Stored blob (windowsOf states))
    (accepted : ∀ state ∈ states, state.row.Accepted Int32.maxValue)
    (lines : ((0 : Int32) :: states.map State.generatedLine).IsChain (· ≤ ·)) :
    ∃ out list, appendVlqTo blob [] = .ok out ∧ parse out Int32.maxValue options = .ok list ∧
      list.rows = if options.sort then
        sortRows MappingWithoutName.generated (states.map State.row) else states.map State.row := by
  have nonneg : ∀ state ∈ states, state.toSourceMapState.Nonneg := by
    intro state member
    obtain ⟨column, source, -, originalLine, originalColumn⟩ := accepted state member
    exact ⟨column, source, originalLine, originalColumn⟩
  obtain ⟨final, items, ran, emitted⟩ := Emitted.init.run states nonneg lines
  rw [List.nil_append, List.nil_append] at emitted
  have readable : Readable Int32.maxValue .start items := by
    refine ⟨emitted.representable, ?_⟩
    intro row member
    rw [emitted.rows] at member
    obtain ⟨state, isState, rfl⟩ := List.mem_map.mp member
    exact accepted state isState
  obtain ⟨list, parsed, rows⟩ := parse_render Int32.maxValue options items readable
  rw [← emitted.text] at parsed
  refine ⟨final.out, list, ?_, parsed, ?_⟩
  · obtain ⟨count, counted⟩ := stored.mappingCount
    unfold appendVlqTo
    rw [counted, visited_stored stored]
    simp only [bind, Except.bind, ran]
    rfl
  · rw [rows, emitted.rows]
    exact sort_if_needed _ _ _ fun inOrder => (emitted.ordered inOrder).1

/-- `from_vlq` takes every string `parse` accepts, and the string written back gives
the same mappings.  What `parse` rejects it rejects too, unless a mapping has the
largest source index. -/
theorem fromVlq_agrees_parse (vlq : List UInt8) (options : ParseOptions) :
    (∀ list, parse vlq Int32.maxValue options = .ok list →
      vlq.count Vlq.semicolon < 2 ^ 31 → OffsetsFit (stringMappings vlq options) →
      ∃ blob out reread, fromVlq vlq = .ok (.ok blob) ∧ appendVlqTo blob [] = .ok out ∧
        parse out Int32.maxValue options = .ok reread ∧ reread.rows = list.rows) ∧
    (∀ failure, parse vlq Int32.maxValue options = .error failure →
      fromVlq vlq = .ok (.error .invalidSourceMap) ∨
        ∃ calls, fromVlqBuilder vlq = .ok (Builder.init.run calls) ∧
          ∃ state ∈ appended 0 calls, state.sourceIndex = Int32.maxValue) := by
  have outcome := Matches.init.loop vlq.length options vlq
  generalize parsedEq : parseLoop vlq.length Int32.maxValue options .init vlq = parsed at outcome
  generalize readEq : fromVlqLoop .init vlq = read at outcome
  cases outcome with
  | agree calls bounded matched =>
      rename_i parser reader
      obtain ⟨list, listParsed, listRows⟩ := parse_rows parsedEq
      constructor
      · intro list' accepted few fits
        obtain rfl : list = list' := Except.ok.inj (listParsed.symm.trans accepted)
        have separatorsBound : separators calls < 2 ^ 31 := by
          have none : separators [] = 0 := rfl
          omega
        have mappings : stringMappings vlq options = appended 0 calls := by
          rw [stringMappings_eq parsedEq, matched.rows, List.map_map]
          exact List.map_id _
        rw [mappings] at fits
        obtain ⟨blob, finished, stored⟩ := stored_of_calls calls fits
        obtain ⟨out, reread, written, rereadParsed, rereadRows⟩ := parse_appendVlqTo options stored
          (fun state member => matched.accepted _ (by
            rw [matched.rows]
            exact List.mem_map_of_mem member))
          (appended_lines calls 0 (by omega))
        refine ⟨blob, out, reread, ?_, written, rereadParsed, ?_⟩
        · unfold fromVlq fromVlqBuilder
          rw [readEq]
          simp only [Except.map, matched.builder, finished]
          rfl
        · rw [rereadRows, listRows, ← matched.rows]
          exact (sort_if_needed _ _ _ fun inOrder =>
            (matched.ordered separatorsBound inOrder).1).symm
      · intro failure rejected
        rw [listParsed] at rejected
        cases rejected
  | reject =>
      rename_i failure error
      constructor
      · intro list accepted
        unfold parse at accepted
        rw [parsedEq] at accepted
        cases accepted
      · intro _ _
        refine Or.inl ?_
        unfold fromVlq fromVlqBuilder
        rw [readEq]
        cases error with
        | invalidSourceMap => rfl
  | beyond calls builder largest =>
      constructor
      · intro list accepted
        unfold parse at accepted
        rw [parsedEq] at accepted
        cases accepted
      · intro _ _
        refine Or.inr ⟨calls, ?_, largest⟩
        unfold fromVlqBuilder
        rw [readEq, ← builder]
        rfl

/-- `AAAA;;CCCC,EDCA` has three mappings on two lines. -/
theorem fromVlq_agrees_parse_three_mappings :
    ∃ blob out reread,
      fromVlq [65, 65, 65, 65, 59, 59, 67, 67, 67, 67, 44, 69, 68, 67, 65] = .ok (.ok blob) ∧
        appendVlqTo blob [] = .ok out ∧ parse out Int32.maxValue ⟨true, true⟩ = .ok reread ∧
        reread.rows =
          [⟨⟨0, 0⟩, ⟨0, 0⟩, 0⟩, ⟨⟨2, 1⟩, ⟨1, 1⟩, 1⟩, ⟨⟨2, 3⟩, ⟨2, 1⟩, 0⟩] :=
  (fromVlq_agrees_parse [65, 65, 65, 65, 59, 59, 67, 67, 67, 67, 44, 69, 68, 67, 65]
    ⟨true, true⟩).1
    (.withoutNames [⟨⟨0, 0⟩, ⟨0, 0⟩, 0⟩, ⟨⟨2, 1⟩, ⟨1, 1⟩, 1⟩, ⟨⟨2, 3⟩, ⟨2, 1⟩, 0⟩])
    (by decide +kernel) (by decide +kernel) (by decide +kernel)

/-! ### Where the two disagree -/

/-- A segment whose source index is the largest `i32`. -/
def largestSourceIndex : List UInt8 := [65, 43, 47, 47, 47, 47, 47, 68, 65, 65]

def zeroAfterLines (count : Nat) : List UInt8 :=
  List.replicate count Vlq.semicolon ++ [65, 65, 65, 65]

theorem parseLoop_lineBreaks (total : Nat) (sourcesCount : Int32) (options : ParseOptions)
    (rest : List UInt8) (count : Nat) :
    ∀ state : ParseState,
      parseLoop total sourcesCount options state (List.replicate (count + 1) Vlq.semicolon ++ rest) =
        parseLoop total sourcesCount options
          { state with generated := ⟨state.generated.lines + Int32.ofNat (count + 1), 0⟩ } rest := by
  induction count with
  | zero =>
      intro state
      exact parseLoop_semicolon total sourcesCount options state rest
  | succ count ih =>
      intro state
      rw [List.replicate_succ, List.cons_append, parseLoop_semicolon, ih]
      simp only [ParseState.nextLine, add_one_add_ofNat]

theorem fromVlqLoop_lineBreaks (rest : List UInt8) (count : Nat) :
    ∀ reader : VlqReader,
      fromVlqLoop reader (List.replicate (count + 1) Vlq.semicolon ++ rest) =
        fromVlqLoop
          { reader with
            generatedColumn := 0
            builder := { reader.builder with
              pendingGeneratedLineDelta :=
                reader.builder.pendingGeneratedLineDelta + Int32.ofNat (count + 1) } } rest := by
  induction count with
  | zero =>
      intro reader
      exact fromVlqLoop_semicolon reader rest
  | succ count ih =>
      intro reader
      rw [List.replicate_succ, List.cons_append, fromVlqLoop_semicolon, ih]
      simp only [VlqReader.nextLine, Builder.appendLineSeparator, add_one_add_ofNat]

theorem exists_fromVlq {vlq out : List UInt8} {reader : VlqReader}
    (read : fromVlqLoop .init vlq = .ok reader)
    (written : (reader.builder.toBlob >>= fun blob => appendVlqTo blob []) = .ok out) :
    ∃ blob, fromVlq vlq = .ok (.ok blob) ∧ appendVlqTo blob [] = .ok out := by
  obtain ⟨blob, finished, appended⟩ := ok_of_bind written
  refine ⟨blob, ?_, appended⟩
  unfold fromVlq fromVlqBuilder
  rw [read]
  simp only [Except.map, finished]
  rfl

/-- The blob of `zeroAfterLines 2147483648`: the line wraps to the least `i32`, and no
line break is written back. -/
theorem zeroAfterLines_wraps :
    parse (zeroAfterLines (2147483647 + 1)) Int32.maxValue ⟨true, true⟩ =
        .ok (.withoutNames [⟨⟨Int32.minValue, 0⟩, ⟨0, 0⟩, 0⟩]) ∧
      ∃ blob, fromVlq (zeroAfterLines (2147483647 + 1)) = .ok (.ok blob) ∧
        appendVlqTo blob [] = .ok [65, 65, 65, 65] := by
  constructor
  · unfold parse zeroAfterLines
    rw [parseLoop_lineBreaks, List.length_append, List.length_replicate]
    decide +kernel
  · have builder : fromVlqLoop .init (zeroAfterLines (2147483647 + 1)) =
        .ok { VlqReader.init with
          builder := Builder.appendMapping { Builder.init with
            pendingGeneratedLineDelta := Int32.minValue } .zero } := by
      unfold zeroAfterLines
      rw [fromVlqLoop_lineBreaks]
      decide +kernel
    apply exists_fromVlq builder
    decide +kernel

/-- A string with the largest source index is rejected by `parse` only, and a mapping
after 2^31 line breaks comes back on the first line. -/
theorem fromVlq_disagrees_parse :
    ((∃ failure, parse largestSourceIndex Int32.maxValue ⟨true, true⟩ = .error failure) ∧
      ∃ blob, fromVlq largestSourceIndex = .ok (.ok blob)) ∧
    ∃ list blob out reread,
      parse (zeroAfterLines (2147483647 + 1)) Int32.maxValue ⟨true, true⟩ = .ok list ∧
        fromVlq (zeroAfterLines (2147483647 + 1)) = .ok (.ok blob) ∧
        appendVlqTo blob [] = .ok out ∧ parse out Int32.maxValue ⟨true, true⟩ = .ok reread ∧
        reread.rows ≠ list.rows := by
  constructor
  · constructor
    · exact ⟨⟨.invalidSourceIndexValue, 1⟩, by decide +kernel⟩
    · have read : fromVlqLoop .init largestSourceIndex =
          .ok { VlqReader.init with
            sourceIndex := Int32.maxValue
            builder := Builder.init.appendMapping { SourceMapState.zero with
              sourceIndex := Int32.maxValue } } := by decide +kernel
      obtain ⟨blob, converted, -⟩ := exists_fromVlq read
        (by decide +kernel : _ = Except.ok largestSourceIndex)
      exact ⟨blob, converted⟩
  · obtain ⟨parsed, blob, converted, written⟩ := zeroAfterLines_wraps
    refine ⟨_, blob, [65, 65, 65, 65], .withoutNames [⟨⟨0, 0⟩, ⟨0, 0⟩, 0⟩], parsed, converted, written,
      by decide +kernel, ?_⟩
    rw [ListValue.rows_withoutNames, ListValue.rows_withoutNames]
    decide

end Bun.SourceMap.InternalSourceMap
