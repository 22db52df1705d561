/-
The hunks of a patch that was read.

A part is begun by the line it holds, so no part that is collected is without lines, and the
counts of every hunk are checked before the second pass.
-/

import Bun.Patch.PatchedContent

set_option autoImplicit false

namespace Bun.Patch

def Hunk.HasLines (hunk : Hunk) : Prop :=
  ∀ part ∈ hunk.parts, part.lines ≠ []

namespace PatchLinesParser

/-- The parts collected so far have lines, and so has the one that is being read. -/
structure HasLines (parser : PatchLinesParser) : Prop where
  result : ∀ deets ∈ parser.result, ∀ hunk ∈ deets.hunks, hunk.HasLines
  committed : ∀ hunk ∈ parser.currentFilePatch.hunks, hunk.HasLines
  current : ∀ hunk, parser.currentHunk = some hunk → hunk.HasLines
  pending : ∀ part, parser.currentHunkMutationPart = some part → part.lines ≠ []

variable {parser : PatchLinesParser}

theorem HasLines.commitHunk (hasLines : parser.HasLines) : parser.commitHunk.HasLines := by
  unfold PatchLinesParser.commitHunk
  cases isHunk : parser.currentHunk with
  | none => exact hasLines
  | some hunk =>
      refine ⟨hasLines.result, fun other isIn => ?_, nofun, nofun⟩
      rcases List.mem_append.mp isIn with earlier | isLast
      · exact hasLines.committed other earlier
      · rw [List.mem_singleton.mp isLast]
        intro part inParts
        rcases List.mem_append.mp inParts with inHunk | isPending
        · exact hasLines.current hunk isHunk part inHunk
        · exact hasLines.pending part (Option.mem_toList.mp isPending)

theorem HasLines.commitFilePatch (hasLines : parser.HasLines) :
    parser.commitFilePatch.HasLines := by
  have committed := hasLines.commitHunk
  refine ⟨fun deets isIn => ?_, nofun, committed.current, committed.pending⟩
  rcases List.mem_append.mp isIn with earlier | isLast
  · exact committed.result deets earlier
  · rw [List.mem_singleton.mp isLast]
    exact committed.committed

/-- Where the line can be read, the parser after it has the property. -/
def Keeps (read : Except ParseErr (PatchLinesParser × Bool)) : Prop :=
  ∀ next again, read = .ok (next, again) → next.HasLines

namespace Keeps

theorem ok {next : PatchLinesParser} {again : Bool} (hasLines : next.HasLines) :
    Keeps (.ok (next, again)) := by
  intro _ _ isRead
  cases isRead
  exact hasLines

theorem error (err : ParseErr) : Keeps (.error err) := by
  intro _ _ isRead
  cases isRead

theorem ite {c : Prop} [Decidable c] {first second : Except ParseErr (PatchLinesParser × Bool)}
    (keepsFirst : Keeps first) (keepsSecond : Keeps second) :
    Keeps (if c then first else second) := by
  split
  · exact keepsFirst
  · exact keepsSecond

theorem collect (hasLines : parser.HasLines) {update : FileDeets → FileDeets}
    (kept : ∀ deets, (update deets).hunks = deets.hunks) : Keeps (parser.collect update) :=
  ok ⟨hasLines.result, kept parser.currentFilePatch ▸ hasLines.committed, hasLines.current,
    hasLines.pending⟩

end Keeps

theorem readHeaderLine_keeps (hasLines : parser.HasLines) (line : List UInt8) :
    Keeps (parser.readHeaderLine line) := by
  have ended : parser.endSection.HasLines := by
    unfold endSection
    split
    · exact hasLines.commitFilePatch
    · exact hasLines
  unfold readHeaderLine
  refine .ite (.ok ⟨hasLines.result, nofun, hasLines.current, hasLines.pending⟩) (.ite ?_ ?_)
  · cases parseDiffLinePaths line with
    | none => exact .error _
    | some paths => exact .collect ended fun _ => rfl
  iterate 6
    refine .ite (.collect hasLines fun _ => rfl) ?_
  refine .ite ?_ ?_
  · cases parseDiffHashes (line.drop (ascii "index ").length) with
    | none => exact .ok hasLines
    | some hashes => exact .collect hasLines fun _ => rfl
  iterate 3
    refine .ite (.collect hasLines fun _ => rfl) ?_
  exact .ite (.error _) (.ok hasLines)

/-- A part begins with the line that is pushed. -/
theorem pushHunkLine_keeps (hasLines : parser.HasLines) (ty : PartType) (line : List UInt8) :
    Keeps ((parser.pushHunkLine ty line).map (·, false)) := by
  unfold pushHunkLine
  cases isHunk : parser.currentHunk with
  | none => exact .error _
  | some hunk =>
      have begun : ∀ part : PatchMutationPart, some { ty, lines := [line.drop 1] } = some part →
          part.lines ≠ [] := by
        intro part isPart
        cases isPart
        exact List.cons_ne_nil _ _
      have current (other : Hunk) (same : some hunk = some other) : other.HasLines :=
        Option.some.inj same ▸ hasLines.current hunk isHunk
      dsimp only
      cases isPart : parser.currentHunkMutationPart with
      | none =>
          exact .ok ⟨hasLines.result, hasLines.committed, current, begun⟩
      | some part =>
          dsimp only
          split
          · refine .ok ⟨hasLines.result, hasLines.committed, current, ?_⟩
            intro longer isLonger
            cases isLonger
            exact List.append_ne_nil_of_right_ne_nil _ (List.cons_ne_nil _ _)
          · refine .ok ⟨hasLines.result, hasLines.committed, ?_, begun⟩
            intro other isOther earlier inParts
            cases isOther
            rcases List.mem_append.mp inParts with inHunk | isLast
            · exact hasLines.current hunk isHunk earlier inHunk
            · rw [List.mem_singleton.mp isLast]
              exact hasLines.pending part isPart

theorem parseHunkHeaderLine_parts {line : List UInt8} {hunk : Hunk}
    (parsed : parseHunkHeaderLine line = .ok hunk) : hunk.parts = [] := by
  unfold parseHunkHeaderLine at parsed
  simp only [bind, Except.bind, pure, Except.pure, throw, throwThe, MonadExceptOf.throw] at parsed
  repeat' split at parsed
  all_goals cases parsed
  rfl

theorem readHunkLine_keeps (hasLines : parser.HasLines) (line : List UInt8) :
    Keeps (parser.readHunkLine line) := by
  have left : parser.leaveHunks.1.HasLines := HasLines.commitFilePatch
    ⟨hasLines.result, hasLines.committed, hasLines.current, hasLines.pending⟩
  have pushed (ty : PartType) := pushHunkLine_keeps hasLines ty line
  unfold readHunkLine
  refine .ite (.ok left) ?_
  cases line.head? with
  | none => exact pushed .context
  | some c =>
      refine .ite (pushed .context) (.ite (pushed .deletion) (.ite (pushed .insertion)
        (.ite ?_ (.ite (.ite (.error _) ?_) (.ok left)))))
      · cases isHeader : parseHunkHeaderLine line with
        | error _ => exact .error _
        | ok hunk =>
            have committed := hasLines.commitHunk
            refine .ok ⟨committed.result, committed.committed, ?_, committed.pending⟩
            intro begun isBegun
            cases isBegun
            intro part inParts
            rw [parseHunkHeaderLine_parts isHeader] at inParts
            exact absurd inParts List.not_mem_nil
      · cases isPart : parser.currentHunkMutationPart with
        | none => exact .error _
        | some part =>
            refine .ok ⟨hasLines.result, hasLines.committed, hasLines.current, ?_⟩
            intro marked isMarked
            cases isMarked
            exact hasLines.pending part isPart

theorem readLine_keeps (hasLines : parser.HasLines) (line : List UInt8) :
    Keeps (parser.readLine line) := by
  unfold readLine
  cases parser.state with
  | parsingHeader => exact readHeaderLine_keeps hasLines line
  | parsingHunks => exact readHunkLine_keeps hasLines line

theorem HasLines.step (hasLines : parser.HasLines) {line : List UInt8} {last : PatchLinesParser}
    (isStep : parser.step line = .ok last) : last.HasLines := by
  unfold PatchLinesParser.step at isStep
  cases isRead : parser.readLine line with
  | error _ =>
      rw [isRead] at isStep
      cases isStep
  | ok read =>
      obtain ⟨next, again⟩ := read
      have nextHasLines := readLine_keeps hasLines line next again isRead
      rw [isRead] at isStep
      cases again with
      | false =>
          cases isStep
          exact nextHasLines
      | true =>
          cases isSecond : next.readLine line with
          | error _ => simp [bind, Except.bind, isSecond] at isStep
          | ok second =>
              simp only [bind, Except.bind, isSecond, if_true, pure, Except.pure] at isStep
              cases isStep
              exact readLine_keeps nextHasLines line _ _ isSecond

theorem HasLines.parseLines (hasLines : parser.HasLines) {lines : List (List UInt8)} {offset : ℕ}
    {last : PatchLinesParser} (parsed : parser.parseLines offset lines = .ok last) :
    last.HasLines := by
  induction lines generalizing parser offset with
  | nil =>
      cases parsed
      exact hasLines
  | cons line rest ih =>
      unfold PatchLinesParser.parseLines at parsed
      cases isStep : PatchLinesParser.step { parser with offset } line with
      | error _ =>
          rw [isStep] at parsed
          cases parsed
      | ok next =>
          rw [isStep] at parsed
          have here : HasLines { parser with offset } :=
            ⟨hasLines.result, hasLines.committed, hasLines.current, hasLines.pending⟩
          exact ih (here.step isStep) parsed

theorem start_hasLines : HasLines {} where
  result _ isIn := absurd isIn List.not_mem_nil
  committed _ isIn := absurd isIn List.not_mem_nil
  current _ isHunk := absurd isHunk.symm (Option.some_ne_none _)
  pending _ isPart := absurd isPart.symm (Option.some_ne_none _)

theorem parse_wellFormed {file : List UInt8} (parsed : parse file = .ok parser) :
    ∀ deets ∈ parser.result, ∀ hunk ∈ deets.hunks, hunk.WellFormed := by
  unfold parse at parsed
  dsimp only at parsed
  split at parsed
  · cases parsed
    exact fun deets isIn => absurd isIn List.not_mem_nil
  · cases isParsed : parseLines {} 0 (patchLines file) with
    | error _ =>
        rw [isParsed] at parsed
        cases parsed
    | ok last =>
        simp only [isParsed, bind, Except.bind] at parsed
        split at parsed
        · cases parsed
        · rename_i noneWrong
          cases parsed
          have hasLines := (start_hasLines.parseLines isParsed).commitFilePatch
          intro deets isIn hunk inHunks
          refine ⟨?_, hasLines.result deets isIn hunk inHunks⟩
          have counts := List.find?_eq_none.mp noneWrong hunk
            (List.mem_flatMap.mpr ⟨deets, isIn, inHunks⟩)
          simpa using counts

end PatchLinesParser

/-! ### The parts of the file -/

def PatchFilePart.hunks : PatchFilePart → List Hunk
  | .filePatch patch => patch.hunks
  | .fileDeletion deletion => deletion.hunk.toList
  | .fileCreation creation => creation.hunk.toList
  | .fileRename _ | .fileModeChange _ => []

def WellFormedParts (parts : List PatchFilePart) : Prop :=
  ∀ part ∈ parts, ∀ hunk ∈ part.hunks, hunk.WellFormed

theorem WellFormedParts.append {front back : List PatchFilePart}
    (isFront : WellFormedParts front) (isBack : WellFormedParts back) :
    WellFormedParts (front ++ back) := by
  intro part isIn
  rcases List.mem_append.mp isIn with inFront | inBack
  · exact isFront part inFront
  · exact isBack part inBack

theorem wellFormedParts_nil : WellFormedParts [] :=
  fun _ isIn => absurd isIn List.not_mem_nil

theorem wellFormedParts_single {part : PatchFilePart}
    (wellFormed : ∀ hunk ∈ part.hunks, hunk.WellFormed) : WellFormedParts [part] := by
  intro other isIn
  rw [List.mem_singleton.mp isIn]
  exact wellFormed

variable {file : FileDeets}

theorem firstPart_wellFormed (wellFormed : ∀ hunk ∈ file.hunks, hunk.WellFormed)
    {first : List PatchFilePart} {destination : Option (List UInt8)} {hunks : List Hunk}
    (isFirst : file.firstPart = .ok (first, destination, hunks)) :
    WellFormedParts first ∧ ∀ hunk ∈ hunks, hunk.WellFormed := by
  have head : ∀ hunk ∈ file.hunks.head?.toList, hunk.WellFormed := fun hunk isHead =>
    wellFormed hunk (List.mem_of_mem_head? (Option.mem_toList.mp isHead))
  unfold FileDeets.firstPart at isFirst
  extract_lets hunksLeft at isFirst
  have left : ∀ hunk ∈ hunksLeft, hunk.WellFormed := by
    unfold hunksLeft
    cases isHunks : file.hunks with
    | nil => exact fun hunk isIn => absurd isIn List.not_mem_nil
    | cons firstHunk rest =>
        intro hunk isIn
        rcases List.mem_cons.mp isIn with rfl | inRest
        · exact ⟨rfl, fun part inParts => absurd inParts List.not_mem_nil⟩
        · exact wellFormed hunk (isHunks ▸ List.mem_cons_of_mem _ inRest)
  clear_value hunksLeft
  simp only [pure, Except.pure, throw, throwThe, MonadExceptOf.throw] at isFirst
  repeat' split at isFirst
  all_goals cases isFirst
  all_goals first
    | exact ⟨wellFormedParts_nil, wellFormed⟩
    | exact ⟨wellFormedParts_single head, left⟩
    | exact ⟨wellFormedParts_single fun _ isIn => absurd isIn List.not_mem_nil, wellFormed⟩

theorem modeChange_hunks {destination : Option (List UInt8)} {change : List PatchFilePart}
    (isChange : file.modeChange destination = .ok change) : WellFormedParts change := by
  unfold FileDeets.modeChange at isChange
  repeat' split at isChange
  all_goals cases isChange
  all_goals first
    | exact wellFormedParts_nil
    | exact wellFormedParts_single fun _ isIn => absurd isIn List.not_mem_nil

theorem secondPass_wellFormed (wellFormed : ∀ hunk ∈ file.hunks, hunk.WellFormed)
    {patchFile : PatchFile} (isSecond : file.secondPass = .ok patchFile) :
    WellFormedParts patchFile.parts := by
  unfold FileDeets.secondPass at isSecond
  cases isFirst : file.firstPart with
  | error _ => simp [isFirst, bind, Except.bind, Except.mapError] at isSecond
  | ok firstPart =>
      obtain ⟨first, destination, hunks⟩ := firstPart
      obtain ⟨isFirstPart, isHunks⟩ := firstPart_wellFormed wellFormed isFirst
      cases isChange : file.modeChange destination with
      | error _ => simp [isFirst, isChange, bind, Except.bind, Except.mapError] at isSecond
      | ok change =>
          simp only [isFirst, isChange, bind, Except.bind, Except.mapError, pure, Except.pure,
            throw, throwThe, MonadExceptOf.throw] at isSecond
          have before := isFirstPart.append (modeChange_hunks isChange)
          repeat' split at isSecond
          all_goals cases isSecond
          all_goals first
            | exact before.append wellFormedParts_nil
            | exact before.append (wellFormedParts_single isHunks)

theorem secondPasses_wellFormed {files : List FileDeets}
    (wellFormed : ∀ file ∈ files, ∀ hunk ∈ file.hunks, hunk.WellFormed) {before last : PatchFile}
    (isBefore : WellFormedParts before.parts)
    (isLast : files.foldlM (fun (result : PatchFile) file => do
      let added ← file.secondPass
      return { parts := result.parts ++ added.parts
               skipped := result.skipped ++ added.skipped : PatchFile }) before = .ok last) :
    WellFormedParts last.parts := by
  induction files generalizing before with
  | nil =>
      cases isLast
      exact isBefore
  | cons file files ih =>
      rw [List.foldlM_cons] at isLast
      cases isSecond : file.secondPass with
      | error _ => simp [isSecond, bind, Except.bind] at isLast
      | ok added =>
          simp only [isSecond, bind, Except.bind, pure, Except.pure] at isLast
          have isAdded := secondPass_wellFormed (wellFormed file List.mem_cons_self) isSecond
          exact ih (fun other isIn => wellFormed other (List.mem_cons_of_mem _ isIn))
            (isBefore.append isAdded) isLast

/-- Every hunk of a patch that was read is well formed. -/
theorem parsePatchFile_wellFormed {text : List UInt8} {patchFile : PatchFile}
    (parsed : parsePatchFile text = .ok patchFile) : WellFormedParts patchFile.parts := by
  unfold parsePatchFile at parsed
  cases isParsed : PatchLinesParser.parse text with
  | error _ => simp [isParsed, bind, Except.bind] at parsed
  | ok parser =>
      simp only [isParsed, bind, Except.bind] at parsed
      exact secondPasses_wellFormed (PatchLinesParser.parse_wellFormed isParsed)
        wellFormedParts_nil parsed

theorem parsePatchFile_wellFormed_insertion : ∃ patchFile,
    parsePatchFile (ascii "diff --git a/f b/f\n@@ -1 +1,2 @@\n a\n+b\n") = .ok patchFile ∧
      WellFormedParts patchFile.parts :=
  have parsed : parsePatchFile (ascii "diff --git a/f b/f\n@@ -1 +1,2 @@\n a\n+b\n") = .ok _ :=
    rfl
  ⟨_, parsed, parsePatchFile_wellFormed parsed⟩

end Bun.Patch
