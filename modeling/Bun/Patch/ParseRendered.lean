/-
Reading a printed patch.

The lines of a hunk are counted against its header, so a line of the body is never taken for
a header before the hunk is complete.  Each printed piece leads the parser from one known
state to the next: the lines of a part, the parts of a hunk, the hunks and header of a
section, the sections of a file.
-/

import Mathlib.Data.List.Chain
import Bun.Patch.Offsets
import Bun.Patch.RenderPatch

set_option autoImplicit false

namespace Bun.Patch

namespace PatchLinesParser

theorem run_nil (parser : PatchLinesParser) : parser.run [] = .ok parser :=
  rfl

theorem run_append {parser middle : PatchLinesParser} {front back : List (List UInt8)}
    (isFront : parser.run front = .ok middle) :
    parser.run (front ++ back) = middle.run back := by
  unfold run at isFront ⊢
  rw [List.foldlM_append, isFront]
  rfl

theorem run_cons {parser next : PatchLinesParser} {line : List UInt8} {rest : List (List UInt8)}
    (isStep : parser.step line = .ok next) : parser.run (line :: rest) = next.run rest := by
  unfold run
  rw [List.foldlM_cons, isStep]
  rfl

theorem step_of_read {parser next : PatchLinesParser} {line : List UInt8}
    (isRead : parser.readLine line = .ok (next, false)) : parser.step line = .ok next := by
  unfold step
  rw [isRead]
  rfl

theorem step_of_read_again {parser next last : PatchLinesParser} {line : List UInt8} {again : Bool}
    (isRead : parser.readLine line = .ok (next, true))
    (isReadAgain : next.readLine line = .ok (last, again)) : parser.step line = .ok last := by
  unfold step
  rw [isRead]
  simp only [bind, Except.bind, if_true, isReadAgain]
  rfl

/-! ### The body of a hunk -/

def originalCount (parts : List PatchMutationPart) : ℕ :=
  (parts.map (·.originalLength)).sum

theorem originalCount_append (front back : List PatchMutationPart) :
    originalCount (front ++ back) = originalCount front + originalCount back := by
  unfold originalCount
  rw [List.map_append, List.sum_append]

theorem verifyIntegrity_of_lt {hunk : Hunk} {pending : Option PatchMutationPart}
    (wants : originalCount (hunk.parts ++ pending.toList) < hunk.header.original.len.toNat) :
    hunk.verifyIntegrity pending = false := by
  unfold Hunk.verifyIntegrity
  rw [Bool.and_eq_false_iff]
  refine Or.inl (beq_eq_false_iff_ne.mpr ?_)
  unfold originalCount at wants
  omega

theorem readLine_hunks {parser : PatchLinesParser} (isState : parser.state = .parsingHunks)
    (line : List UInt8) : parser.readLine line = parser.readHunkLine line := by
  unfold readLine
  rw [isState]

theorem readLine_header {parser : PatchLinesParser} (isState : parser.state = .parsingHeader)
    (line : List UInt8) : parser.readLine line = parser.readHeaderLine line := by
  unfold readLine
  rw [isState]

theorem readHunkLine_mark {parser : PatchLinesParser} {hunk : Hunk}
    (isHunk : parser.currentHunk = some hunk) {ty : PartType} {text : List UInt8}
    (open_ : ty = .deletion → hunk.verifyIntegrity parser.currentHunkMutationPart = false) :
    parser.readHunkLine (ty.mark :: text) =
      (parser.pushHunkLine ty (ty.mark :: text)).map (·, false) := by
  unfold readHunkLine
  have notHeader : ¬ (startsWith (ty.mark :: text) "--- a/" = true ∧
      parser.currentHunk.any (·.verifyIntegrity parser.currentHunkMutationPart) = true) := by
    rintro ⟨isHeader, complete⟩
    cases ty with
    | context => cases isHeader
    | insertion => cases isHeader
    | deletion =>
        rw [isHunk, Option.any_some, open_ rfl] at complete
        cases complete
  rw [if_neg notHeader]
  cases ty with
  | context => rfl
  | insertion => rfl
  | deletion => rfl

theorem run_texts (parser : PatchLinesParser) {hunk : Hunk} (part : PatchMutationPart)
    (isState : parser.state = .parsingHunks) (isHunk : parser.currentHunk = some hunk)
    (isPart : parser.currentHunkMutationPart = some part) (texts : List (List UInt8))
    (room : part.ty = .deletion → originalCount hunk.parts + part.lines.length + texts.length ≤
      hunk.header.original.len.toNat) :
    parser.run (texts.map (part.ty.mark :: ·)) =
      .ok { parser with
        currentHunkMutationPart := some { part with lines := part.lines ++ texts } } := by
  induction texts generalizing parser part with
  | nil =>
      rw [List.map_nil, run_nil, List.append_nil, ← isPart]
  | cons text rest ih =>
      have isStep : parser.step (part.ty.mark :: text) =
          .ok { parser with
            currentHunkMutationPart := some { part with lines := part.lines ++ [text] } } := by
        refine step_of_read ?_
        rw [readLine_hunks isState, readHunkLine_mark isHunk (by
          intro deleted
          refine verifyIntegrity_of_lt ?_
          have fits := room deleted
          have here : originalCount [part] = part.lines.length := by
            unfold originalCount PatchMutationPart.originalLength
            rw [List.map_singleton, deleted]
            rfl
          rw [isPart, Option.toList_some, originalCount_append, here]
          rw [List.length_cons] at fits
          omega)]
        obtain ⟨result, deets, state, current, pending, offset⟩ := parser
        dsimp only at isHunk isPart
        rw [isHunk, isPart]
        unfold pushHunkLine
        dsimp only
        rw [if_pos rfl]
        rfl
      rw [List.map_cons, run_cons isStep]
      have later := ih
        { parser with
          currentHunkMutationPart := some { part with lines := part.lines ++ [text] } }
        { part with lines := part.lines ++ [text] } isState isHunk rfl (by
          intro deleted
          have fits := room deleted
          rw [List.length_cons] at fits
          rw [List.length_append, List.length_singleton]
          omega)
      rw [List.append_assoc, List.singleton_append] at later
      exact later

theorem step_marker (parser : PatchLinesParser) (part : PatchMutationPart)
    (isState : parser.state = .parsingHunks)
    (isPart : parser.currentHunkMutationPart = some part) :
    parser.step (ascii "\\ No newline at end of file") =
      .ok { parser with
        currentHunkMutationPart := some { part with noNewlineAtEndOfFile := true } } := by
  refine step_of_read ?_
  rw [readLine_hunks isState]
  obtain ⟨result, deets, state, current, pending, offset⟩ := parser
  dsimp only at isPart
  rw [isPart]
  rfl

theorem run_part {parser : PatchLinesParser} {hunk : Hunk} {part : PatchMutationPart}
    (isState : parser.state = .parsingHunks) (isHunk : parser.currentHunk = some hunk)
    (notEmpty : part.lines ≠ [])
    (differs : ∀ last ∈ parser.currentHunkMutationPart, last.ty ≠ part.ty)
    (room : originalCount (hunk.parts ++ parser.currentHunkMutationPart.toList ++ [part]) ≤
      hunk.header.original.len.toNat) :
    parser.run part.render =
      .ok { parser with
        currentHunk := some { hunk with
          parts := hunk.parts ++ parser.currentHunkMutationPart.toList }
        currentHunkMutationPart := some part } := by
  obtain ⟨ty, lines, marked⟩ := part
  cases lines with
  | nil => exact absurd rfl notEmpty
  | cons first rest =>
      have roomDeleted (deleted : ty = .deletion) :
          originalCount (hunk.parts ++ parser.currentHunkMutationPart.toList) + 1 + rest.length ≤
            hunk.header.original.len.toNat := by
        rw [originalCount_append] at room
        have here : originalCount [⟨ty, first :: rest, marked⟩] = rest.length + 1 := by
          unfold originalCount PatchMutationPart.originalLength
          rw [List.map_singleton, deleted]
          rfl
        omega
      have isStep : parser.step (ty.mark :: first) =
          .ok { parser with
            currentHunk := some { hunk with
              parts := hunk.parts ++ parser.currentHunkMutationPart.toList }
            currentHunkMutationPart := some { ty, lines := [first] } } := by
        refine step_of_read ?_
        rw [readLine_hunks isState, readHunkLine_mark isHunk (by
          intro deleted
          refine verifyIntegrity_of_lt ?_
          have fits := roomDeleted deleted
          omega)]
        obtain ⟨result, deets, state, current, pending, offset⟩ := parser
        dsimp only at isHunk differs
        rw [isHunk]
        unfold pushHunkLine
        cases pending with
        | none =>
            rw [Option.toList_none, List.append_nil]
            rfl
        | some last =>
            dsimp only
            rw [if_neg (differs last rfl)]
            rfl
      have grown := run_texts
        { parser with
          currentHunk := some { hunk with
            parts := hunk.parts ++ parser.currentHunkMutationPart.toList }
          currentHunkMutationPart := some { ty, lines := [first] } }
        { ty, lines := [first] } isState rfl rfl rest roomDeleted
      have texts := (run_cons isStep).trans grown
      unfold PatchMutationPart.render
      refine (run_append texts).trans ?_
      cases marked with
      | false => rfl
      | true =>
          refine (run_cons (step_marker _ _ ?_ rfl)).trans rfl
          exact isState

theorem run_parts (parser : PatchLinesParser) (hunk : Hunk) (parts : List PatchMutationPart)
    (isState : parser.state = .parsingHunks) (isHunk : parser.currentHunk = some hunk)
    (notEmpty : ∀ part ∈ parts, part.lines ≠ [])
    (runs : (parser.currentHunkMutationPart.toList ++ parts).IsChain
      fun part next => part.ty ≠ next.ty)
    (room : originalCount (hunk.parts ++ parser.currentHunkMutationPart.toList ++ parts) ≤
      hunk.header.original.len.toNat) :
    ∃ done last, parser.run (parts.flatMap (·.render)) =
        .ok { parser with
          currentHunk := some { hunk with parts := done }
          currentHunkMutationPart := last } ∧
      done ++ last.toList = hunk.parts ++ parser.currentHunkMutationPart.toList ++ parts := by
  induction parts generalizing parser hunk with
  | nil =>
      refine ⟨hunk.parts, parser.currentHunkMutationPart, ?_, ?_⟩
      · rw [List.flatMap_nil, run_nil, ← isHunk]
      · rw [List.append_nil]
  | cons part rest ih =>
      have split : hunk.parts ++ parser.currentHunkMutationPart.toList ++ part :: rest =
          hunk.parts ++ parser.currentHunkMutationPart.toList ++ [part] ++ rest := by
        rw [List.append_assoc _ [part], List.singleton_append]
      rw [split] at room ⊢
      have first := run_part isState isHunk (notEmpty part List.mem_cons_self)
        (by
          intro last isLast
          rw [Option.mem_def.mp isLast, Option.toList_some, List.singleton_append] at runs
          exact (List.isChain_cons_cons.mp runs).1)
        (by
          rw [originalCount_append] at room
          omega)
      rw [List.flatMap_cons, run_append first]
      exact ih _ { hunk with parts := hunk.parts ++ parser.currentHunkMutationPart.toList }
        isState rfl (fun next isIn => notEmpty next (List.mem_cons_of_mem _ isIn))
        runs.right_of_append room

/-! ### Hunks -/

structure Settled (parser : PatchLinesParser) : Prop where
  noPart : parser.currentHunk = none → parser.currentHunkMutationPart = none
  offset : parser.offset = 0

def withHunks (parser : PatchLinesParser) (hunks : List Hunk) : PatchLinesParser :=
  { parser with currentFilePatch := { parser.currentFilePatch with hunks } }

theorem commitHunk_settled {parser : PatchLinesParser} (settled : parser.Settled) :
    parser.commitHunk.currentHunk = none ∧ parser.commitHunk.currentHunkMutationPart = none := by
  unfold commitHunk
  split
  · rename_i noHunk
    exact ⟨noHunk, settled.noPart noHunk⟩
  · exact ⟨rfl, rfl⟩

theorem commitHunk_state (parser : PatchLinesParser) :
    parser.commitHunk.state = parser.state := by
  unfold commitHunk
  split
  · rfl
  · rfl

theorem readHunkLine_header (parser : PatchLinesParser) (header : Header) (heading : List UInt8) :
    parser.readHunkLine (header.line heading) =
      .ok ({ parser.commitHunk with currentHunk := some { header, offset := parser.offset } },
        false) := by
  have isRead : parser.readHunkLine (header.line heading) =
      (parseHunkHeaderLine (header.line heading)).map fun hunk =>
        ({ parser.commitHunk with currentHunk := some { hunk with offset := parser.offset } },
          false) := by
    unfold readHunkLine Header.line
    rw [if_neg (fun isHeader => by cases isHeader.1)]
    rfl
  rw [isRead, parseHunkHeaderLine_line]
  rfl

theorem run_hunk {parser : PatchLinesParser} (isState : parser.state = .parsingHunks)
    (settled : parser.Settled) (headings : Hunk → List UInt8) {hunk : Hunk}
    (printable : hunk.Printable) :
    ∃ next, parser.run (hunk.render headings) = .ok next ∧ next.state = .parsingHunks ∧
      next.Settled ∧ next.currentHunk.isSome ∧
      next.commitHunk = parser.commitHunk.withHunks
        (parser.commitHunk.currentFilePatch.hunks ++ [hunk.unplaced]) := by
  obtain ⟨noHunk, noPart⟩ := commitHunk_settled settled
  have isStep := step_of_read ((readLine_hunks isState _).trans
    (readHunkLine_header parser hunk.header (headings hunk)))
  obtain ⟨done, last, isRun, isParts⟩ := run_parts
    { parser.commitHunk with
      currentHunk := some { header := hunk.header, offset := parser.offset } }
    { header := hunk.header, offset := parser.offset } hunk.parts
    ((commitHunk_state parser).trans isState) rfl printable.notEmpty
    (by
      rw [noPart]
      exact printable.runs)
    (by
      have counts := printable.counts
      unfold Hunk.verifyIntegrity at counts
      simp only [Option.toList_none, List.append_nil, Bool.and_eq_true, beq_iff_eq] at counts
      rw [noPart]
      exact Nat.le_of_eq counts.1)
  refine ⟨_, (run_cons isStep).trans isRun, (commitHunk_state parser).trans isState, ⟨?_, ?_⟩, rfl,
    ?_⟩
  · intro noHunk
    cases noHunk
  · exact (commitHunk_offset parser).trans settled.offset
  · rw [noPart] at isParts
    have whole : done ++ last.toList = hunk.parts := isParts
    rw [commitHunk]
    dsimp only
    rw [whole, settled.offset]
    unfold withHunks Hunk.unplaced
    rw [← noHunk, ← noPart]

theorem run_hunks {parser : PatchLinesParser} (isState : parser.state = .parsingHunks)
    (settled : parser.Settled) (headings : Hunk → List UInt8) (hunks : List Hunk)
    (printable : ∀ hunk ∈ hunks, hunk.Printable) :
    ∃ next, parser.run (hunks.flatMap (Hunk.render headings)) = .ok next ∧
      next.state = .parsingHunks ∧ next.Settled ∧
      (parser.currentHunk.isSome ∨ hunks ≠ [] → next.currentHunk.isSome) ∧
      next.commitHunk = parser.commitHunk.withHunks
        (parser.commitHunk.currentFilePatch.hunks ++ hunks.map (·.unplaced)) := by
  induction hunks generalizing parser with
  | nil =>
      refine ⟨parser, rfl, isState, settled, ?_, ?_⟩
      · rintro (isSome | notEmpty)
        · exact isSome
        · exact absurd rfl notEmpty
      · rw [List.map_nil, List.append_nil]
        rfl
  | cons hunk rest ih =>
      obtain ⟨middle, isFirst, middleState, middleSettled, isSome, committed⟩ :=
        run_hunk isState settled headings (printable hunk List.mem_cons_self)
      obtain ⟨next, isRun, nextState, nextSettled, nextSome, nextCommitted⟩ :=
        ih middleState middleSettled fun later isIn => printable later (List.mem_cons_of_mem _ isIn)
      refine ⟨next, ?_, nextState, nextSettled, fun _ => nextSome (Or.inl isSome), ?_⟩
      · rw [List.flatMap_cons, run_append isFirst]
        exact isRun
      · rw [nextCommitted, committed, List.map_cons]
        unfold withHunks
        dsimp only
        rw [List.append_assoc, List.singleton_append]

theorem run_hunks_of_header {parser : PatchLinesParser} (isState : parser.state = .parsingHeader)
    (headings : Hunk → List UInt8) {hunks : List Hunk} (notEmpty : hunks ≠ []) :
    parser.run (hunks.flatMap (Hunk.render headings)) =
      ({ parser with state := .parsingHunks }.withHunks []).run
        (hunks.flatMap (Hunk.render headings)) := by
  cases hunks with
  | nil => exact absurd rfl notEmpty
  | cons hunk rest =>
      have isHunk := (readLine_hunks rfl _).trans (readHunkLine_header
        ({ parser with state := .parsingHunks }.withHunks []) hunk.header (headings hunk))
      have again : parser.readLine (hunk.header.line (headings hunk)) =
          .ok ({ parser with state := .parsingHunks }.withHunks [], true) := by
        rw [readLine_header isState]
        rfl
      rw [List.flatMap_cons, Hunk.render, List.cons_append,
        run_cons (step_of_read_again again isHunk), run_cons (step_of_read isHunk)]

end PatchLinesParser

end Bun.Patch
