/-
The join against the true starts of the chunks in the whole output.

The text between two chunks is measured by `advance`, the text of a chunk by the
printer's builder.  The mappings of a bundle are where they should be when the two
measure every chunk but the last alike.
-/

import Mathlib.Algebra.Order.BigOperators.Group.List
import Bun.SourceMap.ChunkJoinRows

set_option autoImplicit false

namespace Bun.SourceMap

open Bun.Core
open Bun.SourceMap.InternalSourceMap (Trap)
open Bun.SourceMap.Printer (PrintStep printedText skippedReturns crlfPairs)

def sourceIndexIn (chunks : List PrintedChunk) (source : UInt32) : Int32 :=
  Int32.ofNat ((sources (chunks.map PrintedChunk.sourceIndex)).idxOf source)

def sourcesCount (chunks : List PrintedChunk) : Int32 :=
  Int32.ofNat (sources (chunks.map PrintedChunk.sourceIndex)).length

def joinPrinted (front : List UInt8) (chunks : List PrintedChunk) : Except Trap (List UInt8) := do
  let results ← chunks.mapM PrintedChunk.result
  joinMappings front results

def PrintedChunk.textEnd (printed : PrintedChunk) : LineColumnOffset :=
  (LineColumnOffset.start.advance printed.output).getD .start

def PrintedChunk.builderEnd (printed : PrintedChunk) : LineColumnOffset :=
  printed.builder.position

/-- A chunk that is joined: it has a mapping, and its text starts at or after the end of
the text before it. -/
structure PrintedChunk.Joinable (printed : PrintedChunk) : Prop where
  lines : 0 ≤ printed.generatedOffset.lines
  columns : 0 ≤ printed.generatedOffset.columns
  notIgnored : printed.chunk.map Printer.Chunk.shouldIgnore = .ok false

theorem PrintedChunk.Joinable.mapped {printed : PrintedChunk} (joinable : printed.Joinable)
    (fits : printed.output.length < 2 ^ 31) : printed.mappings ≠ [] := by
  obtain ⟨items, -, mappingsEq, chunkEq⟩ := printed.written fits
  have kept := joinable.notIgnored
  intro none
  rw [chunkEq, ← mappingsEq, none] at kept
  cases kept

/-! ### The loop over all chunks -/

theorem Joined.run {header : List UInt8} {count : Int32} (opened : ¬needsComma (lastByte header))
    {ids : List (UInt32 × Int32)} {indexOf : UInt32 → Int32} (chunks : List PrintedChunk) :
    ∀ {state : JoinState} {position : LineColumnOffset} {size : Nat} {items : List Item},
      Joined header count state position size items →
      (∀ printed ∈ chunks, printed.Joinable) →
      (∀ printed ∈ chunks, ids.lookup printed.sourceIndex = some (indexOf printed.sourceIndex) ∧
        0 ≤ indexOf printed.sourceIndex ∧ indexOf printed.sourceIndex < count) →
      size + (chunks.map PrintedChunk.size).sum < 2 ^ 31 →
      ∃ results final position' size' more, chunks.mapM PrintedChunk.result = .ok results ∧
        results.map CompileResultForSourceMap.sourceIndex = chunks.map PrintedChunk.sourceIndex ∧
        results.foldlM (joinChunk ids) state = .ok final ∧
        Joined header count final position' size' (items ++ more) ∧
        rowsOf .start (items ++ more) =
          rowsOf .start items ++ movedMappings PrintedChunk.builderEnd indexOf position chunks := by
  induction chunks with
  | nil =>
      intro state position size items joined _ _ _
      refine ⟨[], state, position, size, [], rfl, rfl, rfl, ?_, ?_⟩
      · rwa [List.append_nil]
      · rw [List.append_nil, movedMappings, List.append_nil]
  | cons printed chunks ih =>
      intro state position size items joined joinable indexed fits
      rw [List.map_cons, List.sum_cons] at fits
      have here := joinable printed List.mem_cons_self
      obtain ⟨found, indexNonneg, indexBelow⟩ := indexed printed List.mem_cons_self
      have outputFits : printed.output.length < 2 ^ 31 := by
        unfold PrintedChunk.size at fits
        omega
      obtain ⟨result, next, first, made, ran, joinedNext, rows⟩ := joined.chunk opened printed found
        indexNonneg indexBelow here.lines here.columns (by omega) (here.mapped outputFits)
      obtain ⟨results, final, position', size', more, all, sourcesEq, finished, joinedFinal,
        finalRows⟩ := ih joinedNext (fun later member => joinable later (List.mem_cons_of_mem _ member))
        (fun later member => indexed later (List.mem_cons_of_mem _ member)) (by omega)
      refine ⟨result :: results, final, position', size', first ++ more, ?_, ?_, ?_, ?_, ?_⟩
      · rw [List.mapM_cons, made, all]
        rfl
      · have source : result.sourceIndex = printed.sourceIndex := by
          unfold PrintedChunk.result at made
          obtain ⟨chunk, -, finishedResult⟩ := ok_of_bind made
          rw [← Except.ok.inj finishedResult]
        rw [List.map_cons, List.map_cons, source, sourcesEq]
      · rw [List.foldlM_cons, ran]
        exact finished
      · rwa [← List.append_assoc]
      · rw [← List.append_assoc, finalRows, rows, movedMappings, List.append_assoc]
        rfl

theorem sourceIndexIn_bounds {chunks : List PrintedChunk} {printed : PrintedChunk}
    (member : printed ∈ chunks) (few : chunks.length < 2 ^ 31) :
    0 ≤ sourceIndexIn chunks printed.sourceIndex ∧
      sourceIndexIn chunks printed.sourceIndex < sourcesCount chunks := by
  obtain ⟨-, listed, short⟩ := sourceIdMap_indexed (chunks.map PrintedChunk.sourceIndex)
  have inside := List.idxOf_lt_length_of_mem
    (listed printed.sourceIndex (List.mem_map_of_mem member))
  rw [List.length_map] at short
  unfold sourceIndexIn sourcesCount
  rw [Int32.le_iff_toInt_le, Int32.lt_iff_toInt_lt, Int32.toInt_ofNat_of_lt (by omega),
    Int32.toInt_ofNat_of_lt (by omega), Int32.toInt_zero]
  omega

/-- The joined mappings decode to the mappings of the chunks, moved along the ends the
builder maintains. -/
theorem parse_joinPrinted (front : List UInt8) (chunks : List PrintedChunk) (options : ParseOptions)
    (joinable : ∀ printed ∈ chunks, printed.Joinable)
    (fits : (chunks.map PrintedChunk.size).sum < 2 ^ 31) (few : chunks.length < 2 ^ 31) :
    ∃ text list, joinPrinted front chunks = .ok text ∧
      parse text (sourcesCount chunks) options = .ok list ∧
      list.rows = movedMappings PrintedChunk.builderEnd (sourceIndexIn chunks) .start chunks := by
  have opened : ¬needsComma (lastByte (front ++ mappingsKey)) := by
    have quote : lastByte (front ++ mappingsKey) = Vlq.doubleQuote := by
      have ends : mappingsKey.getLast? = some Vlq.doubleQuote := by decide +kernel
      unfold lastByte
      rw [List.getLast?_append, ends]
      rfl
    rw [quote]
    exact fun comma => comma.2.2 rfl
  obtain ⟨results, final, position, size, items, made, sourcesEq, ran, joined, rows⟩ :=
    (Joined.init (front ++ mappingsKey) (sourcesCount chunks)).run opened chunks joinable
      (fun printed member => ⟨lookup_sourceIdMap (List.mem_map_of_mem member),
        sourceIndexIn_bounds member few⟩) (by rwa [Nat.zero_add])
  rw [List.nil_append] at joined rows
  obtain ⟨list, parsed, listRows⟩ := parse_render (sourcesCount chunks) options items
    ⟨joined.representable, joined.accepted⟩
  refine ⟨render false items, list, ?_, parsed, ?_⟩
  · unfold joinPrinted joinMappings
    rw [made]
    simp only [bind, Except.bind]
    rw [sourcesEq, ran]
    dsimp only
    rw [joined.text, List.drop_left]
    rfl
  · rw [listRows, joined.ascending, rows]
    rfl

/-! ### True starts -/

theorem moveTo_line (row : MappingWithoutName) (position offset : LineColumnOffset) (index : Int32) :
    (row.moveTo (position.add offset) index).generated.lines =
      position.lines + offset.lines + row.generated.lines := by
  unfold MappingWithoutName.moveTo
  rw [LineColumnOffset.add_lines, LineColumnOffset.add_lines]

/-- Two measures of the texts that agree on columns put every mapping on the same line
exactly when they agree on all texts with a chunk after them. -/
theorem movedMappings_eq_iff {first second : PrintedChunk → LineColumnOffset}
    {indexOf : UInt32 → Int32} (chunks : List PrintedChunk) :
    (∀ printed ∈ chunks, printed.mappings ≠ []) →
      (∀ printed ∈ chunks, (first printed).columns = (second printed).columns) →
      ∀ position, movedMappings first indexOf position chunks =
          movedMappings second indexOf position chunks ↔
        ∀ printed ∈ chunks.dropLast, first printed = second printed := by
  induction chunks with
  | nil =>
      intro _ _ position
      constructor
      · intro _ printed member
        cases member
      · intro _
        rfl
  | cons printed chunks ih =>
      intro mapped columns position
      have later := ih (fun next member => mapped next (List.mem_cons_of_mem _ member))
        (fun next member => columns next (List.mem_cons_of_mem _ member))
      rw [movedMappings, movedMappings, List.append_cancel_left_eq]
      cases chunks with
      | nil =>
          constructor
          · intro _ chunk member
            cases member
          · intro _
            rfl
      | cons next chunks =>
          rw [List.dropLast_cons_of_ne_nil (List.cons_ne_nil _ _)]
          constructor
          · intro same
            obtain ⟨row, rows, rowsEq⟩ := List.exists_cons_of_ne_nil
              (mapped next (List.mem_cons_of_mem _ List.mem_cons_self))
            have heads := congrArg List.head? same
            rw [movedMappings, movedMappings, rowsEq, List.map_cons, List.map_cons, List.cons_append,
              List.cons_append, List.head?_cons, List.head?_cons] at heads
            have lines := congrArg (fun row => row.generated.lines) (Option.some.inj heads)
            simp only [moveTo_line, LineColumnOffset.add_lines] at lines
            have linesEq : (first printed).lines = (second printed).lines := by grind
            have endsEq : first printed = second printed := by
              have columnsEq := columns printed List.mem_cons_self
              generalize first printed = a at linesEq columnsEq ⊢
              generalize second printed = b at linesEq columnsEq ⊢
              obtain ⟨aLines, aColumns⟩ := a
              obtain ⟨bLines, bColumns⟩ := b
              exact LineColumnOffset.mk.injEq .. ▸ ⟨linesEq, columnsEq⟩
            rw [endsEq] at same
            have rest := (later _).mp same
            intro chunk member
            rcases List.mem_cons.mp member with rfl | inRest
            · exact endsEq
            · exact rest chunk inRest
          · intro all
            rw [all printed List.mem_cons_self]
            exact (later _).mpr fun chunk member => all chunk (List.mem_cons_of_mem _ member)

/-- The builder and `advance` end a text in the same column, and agree when the builder
passes over as many carriage returns as the text has CRLF pairs. -/
theorem builderEnd_spec (printed : PrintedChunk) (fits : printed.output.length < 2 ^ 31) :
    printed.builderEnd.columns = printed.textEnd.columns ∧
      (printed.builderEnd = printed.textEnd ↔
        (printed.steps.map fun step => skippedReturns step.window).sum =
          crlfPairs (printedText printed.steps)) := by
  have advanced : LineColumnOffset.start.advance printed.output =
      some (advanceText LineColumnOffset.start (printedText printed.steps)) :=
    advance_encodeText LineColumnOffset.start _ fits
  have agreed := Printer.print_position_eq_iff printed.coverLinesWithoutMappings false printed.steps fits
  obtain ⟨-, columns⟩ := Printer.print_position printed.steps
    (Printer.Builder.init printed.coverLinesWithoutMappings false) [] rfl
    (Nat.lt_trans fits (by decide))
  obtain ⟨-, trueColumns⟩ := Printer.advanceText_position (printedText printed.steps)
    LineColumnOffset.start
  have textEnd : printed.textEnd =
      advanceText LineColumnOffset.start (printedText printed.steps) := by
    rw [PrintedChunk.textEnd, advanced]
    rfl
  constructor
  · rw [textEnd]
    exact columns.trans trueColumns.symm
  · rw [← agreed, textEnd]
    change _ ↔ LineColumnOffset.start.advance printed.output = some printed.builderEnd
    rw [advanced]
    exact ⟨fun same => by rw [same], fun same => (Option.some.inj same).symm⟩

/-- The joined mappings decode to the mappings of the chunks, each moved to the start of
its chunk in the whole output and given its chunk's source, exactly when in every
chunk but the last the builder passes over as many carriage returns as the text has
CRLF pairs. -/
theorem joinPrinted_at_starts_iff (front : List UInt8) (chunks : List PrintedChunk)
    (options : ParseOptions) (joinable : ∀ printed ∈ chunks, printed.Joinable)
    (fits : (chunks.map PrintedChunk.size).sum < 2 ^ 31) (few : chunks.length < 2 ^ 31) :
    (∃ text list, joinPrinted front chunks = .ok text ∧
        parse text (sourcesCount chunks) options = .ok list ∧
        list.rows = movedMappings PrintedChunk.textEnd (sourceIndexIn chunks) .start chunks) ↔
      ∀ printed ∈ chunks.dropLast,
        (printed.steps.map fun step => skippedReturns step.window).sum =
          crlfPairs (printedText printed.steps) := by
  have outputFits : ∀ printed ∈ chunks, printed.output.length < 2 ^ 31 := by
    intro printed member
    have part : printed.size ≤ (chunks.map PrintedChunk.size).sum :=
      List.single_le_sum (fun _ _ => Nat.zero_le _) _ (List.mem_map_of_mem member)
    have output : printed.output.length ≤ printed.size := by
      unfold PrintedChunk.size
      omega
    omega
  have mapped : ∀ printed ∈ chunks, printed.mappings ≠ [] := fun printed member =>
    (joinable printed member).mapped (outputFits printed member)
  have measured : movedMappings PrintedChunk.builderEnd (sourceIndexIn chunks) .start chunks =
      movedMappings PrintedChunk.textEnd (sourceIndexIn chunks) .start chunks ↔ _ :=
    movedMappings_eq_iff chunks mapped
      (fun printed member => (builderEnd_spec printed (outputFits printed member)).1) .start
  obtain ⟨text, list, joined, parsed, rows⟩ := parse_joinPrinted front chunks options joinable fits few
  have ends : (∀ printed ∈ chunks.dropLast, printed.builderEnd = printed.textEnd) ↔
      ∀ printed ∈ chunks.dropLast,
        (printed.steps.map fun step => skippedReturns step.window).sum =
          crlfPairs (printedText printed.steps) := by
    have inAll : ∀ printed ∈ chunks.dropLast, printed ∈ chunks := 
      fun _ member => List.dropLast_subset chunks member
    constructor
    · intro same printed member
      exact (builderEnd_spec printed (outputFits printed (inAll printed member))).2.mp
        (same printed member)
    · intro counts printed member
      exact (builderEnd_spec printed (outputFits printed (inAll printed member))).2.mpr
        (counts printed member)
  rw [← ends, ← measured, ← rows]
  constructor
  · rintro ⟨text', list', joined', parsed', rows'⟩
    obtain rfl : text = text' := Except.ok.inj (joined.symm.trans joined')
    obtain rfl : list = list' := Except.ok.inj (parsed.symm.trans parsed')
    exact rows'
  · intro same
    exact ⟨text, list, joined, parsed, same⟩

/-- Two chunks on one line after a line of text: the second text starts where the first
ends. -/
def twoChunks : List PrintedChunk :=
  [⟨[⟨['a'], some (0, 0)⟩, ⟨['\n', 'b'], some (1, 2)⟩], false, ⟨1, 0⟩, 7⟩,
    ⟨[⟨['c'], some (4, 0)⟩], true, ⟨0, 2⟩, 3⟩]

theorem joinPrinted_at_starts_twoChunks :
    ∃ text list, joinPrinted [] twoChunks = .ok text ∧
      parse text (sourcesCount twoChunks) ⟨true, true⟩ = .ok list ∧
      list.rows = [⟨⟨1, 1⟩, ⟨0, 0⟩, 0⟩, ⟨⟨2, 1⟩, ⟨1, 2⟩, 0⟩, ⟨⟨2, 4⟩, ⟨4, 0⟩, 1⟩] := by
  have joinable : ∀ printed ∈ twoChunks, printed.Joinable := by
    intro printed member
    rcases List.mem_cons.mp member with rfl | later
    · exact ⟨by decide, by decide, by decide +kernel⟩
    · obtain rfl := List.mem_singleton.mp later
      exact ⟨by decide, by decide, by decide +kernel⟩
  have moved : movedMappings PrintedChunk.textEnd (sourceIndexIn twoChunks) .start twoChunks =
      [⟨⟨1, 1⟩, ⟨0, 0⟩, 0⟩, ⟨⟨2, 1⟩, ⟨1, 2⟩, 0⟩, ⟨⟨2, 4⟩, ⟨4, 0⟩, 1⟩] := by decide +kernel
  rw [← moved]
  exact (joinPrinted_at_starts_iff [] twoChunks ⟨true, true⟩ joinable (by decide +kernel)
    (by decide)).mpr (by decide +kernel)

/-- A text with a carriage return, a letter and a line feed, and a second chunk after it. -/
def returnChunks : List PrintedChunk :=
  [⟨[⟨[], some (0, 0)⟩, ⟨['\r', 'x', '\n'], none⟩], false, ⟨0, 0⟩, 0⟩,
    ⟨[⟨[], some (0, 0)⟩], false, ⟨0, 0⟩, 0⟩]

/-- The second chunk starts on the third line, and is mapped on the second. -/
theorem joinPrinted_not_at_starts :
    ¬∀ (front : List UInt8) (chunks : List PrintedChunk) (options : ParseOptions),
      (∀ printed ∈ chunks, printed.Joinable) → (chunks.map PrintedChunk.size).sum < 2 ^ 31 →
      chunks.length < 2 ^ 31 →
      ∃ text list, joinPrinted front chunks = .ok text ∧
        parse text (sourcesCount chunks) options = .ok list ∧
        list.rows = movedMappings PrintedChunk.textEnd (sourceIndexIn chunks) .start chunks := by
  intro atStarts
  have joinable : ∀ printed ∈ returnChunks, printed.Joinable := by
    intro printed member
    rcases List.mem_cons.mp member with rfl | later
    · exact ⟨by decide, by decide, by decide +kernel⟩
    · obtain rfl := List.mem_singleton.mp later
      exact ⟨by decide, by decide, by decide +kernel⟩
  obtain ⟨text, list, joined, parsed, rows⟩ := atStarts [] returnChunks ⟨true, true⟩ joinable
    (by decide +kernel) (by decide)
  have joinedEq : joinPrinted [] returnChunks = .ok [65, 65, 65, 65, 59, 65, 65, 65, 65] := by
    decide +kernel
  obtain rfl := Except.ok.inj (joinedEq.symm.trans joined)
  have parsedEq : parse [65, 65, 65, 65, 59, 65, 65, 65, 65] (sourcesCount returnChunks) ⟨true, true⟩ =
      .ok (.withoutNames [⟨⟨0, 0⟩, ⟨0, 0⟩, 0⟩, ⟨⟨1, 0⟩, ⟨0, 0⟩, 0⟩]) := by decide +kernel
  obtain rfl := Except.ok.inj (parsedEq.symm.trans parsed)
  exact absurd rows (by decide +kernel)

end Bun.SourceMap
