/-
Offsets in what the parser collects.

The parser notes where sections and hunks begin so that an error can name the line.  No
decision depends on it: with the offsets set to zero the parser does the same.
-/

import Bun.Patch.ParsePatch

set_option autoImplicit false

namespace Bun.Patch

def Hunk.unplaced (hunk : Hunk) : Hunk :=
  { hunk with offset := 0 }

def FileDeets.unplaced (deets : FileDeets) : FileDeets :=
  { deets with hunks := deets.hunks.map (·.unplaced), offset := 0 }

def PatchFilePart.unplaced : PatchFilePart → PatchFilePart
  | .filePatch patch => .filePatch { patch with hunks := patch.hunks.map (·.unplaced) }
  | .fileDeletion deletion => .fileDeletion { deletion with hunk := deletion.hunk.map (·.unplaced) }
  | .fileCreation creation => .fileCreation { creation with hunk := creation.hunk.map (·.unplaced) }
  | .fileRename rename => .fileRename rename
  | .fileModeChange change => .fileModeChange change

@[simp]
theorem Hunk.verifyIntegrity_unplaced (hunk : Hunk) (pending : Option PatchMutationPart) :
    hunk.unplaced.verifyIntegrity pending = hunk.verifyIntegrity pending :=
  rfl

namespace PatchLinesParser

def unplaced (parser : PatchLinesParser) : PatchLinesParser :=
  { parser with
    result := parser.result.map (·.unplaced)
    currentFilePatch := parser.currentFilePatch.unplaced
    currentHunk := parser.currentHunk.map (·.unplaced)
    offset := 0 }

theorem commitHunk_unplaced (parser : PatchLinesParser) :
    parser.commitHunk.unplaced = parser.unplaced.commitHunk := by
  cases isHunk : parser.currentHunk with
  | none => simp [commitHunk, unplaced, isHunk]
  | some hunk => simp [commitHunk, unplaced, isHunk, FileDeets.unplaced, Hunk.unplaced]

theorem commitHunk_offset (parser : PatchLinesParser) :
    parser.commitHunk.offset = parser.offset := by
  unfold commitHunk
  split
  · rfl
  · rfl

theorem commitFilePatch_unplaced (parser : PatchLinesParser) :
    parser.commitFilePatch.unplaced = parser.unplaced.commitFilePatch := by
  have committed := commitHunk_unplaced parser
  unfold commitFilePatch
  dsimp only
  rw [← committed]
  unfold unplaced
  dsimp only
  rw [List.map_append]
  rfl

/-- The parser after a line, wherever the line stood. -/
def unplacedNext (next : PatchLinesParser × Bool) : PatchLinesParser × Bool :=
  (next.1.unplaced, next.2)

theorem endSection_unplaced (parser : PatchLinesParser) :
    parser.endSection.unplaced = parser.unplaced.endSection := by
  have same : parser.unplaced.currentFilePatch.diffLineFromPath =
      parser.currentFilePatch.diffLineFromPath := rfl
  unfold endSection
  rw [same]
  split
  · exact commitFilePatch_unplaced parser
  · rfl

theorem collect_unplaced (parser : PatchLinesParser) {update : FileDeets → FileDeets}
    (commutes : ∀ deets, (update deets).unplaced = update deets.unplaced) :
    (parser.collect update).map unplacedNext = parser.unplaced.collect update := by
  have same : parser.unplaced.currentFilePatch = parser.currentFilePatch.unplaced := rfl
  unfold collect
  rw [same, ← commutes]
  rfl

theorem map_ite {α β : Type} {f : α → β} {c : Prop} [Decidable c] {first second : Except ParseErr α}
    {first' second' : Except ParseErr β} (isFirst : first.map f = first')
    (isSecond : second.map f = second') :
    (if c then first else second).map f = if c then first' else second' := by
  split
  · exact isFirst
  · exact isSecond

theorem readHeaderLine_unplaced (parser : PatchLinesParser) (line : List UInt8) :
    (parser.readHeaderLine line).map unplacedNext = parser.unplaced.readHeaderLine line := by
  unfold readHeaderLine
  refine map_ite rfl (map_ite ?_ ?_)
  · cases parseDiffLinePaths line with
    | none => rfl
    | some paths =>
        rw [← endSection_unplaced]
        exact collect_unplaced _ fun _ => rfl
  iterate 6
    refine map_ite (collect_unplaced _ fun _ => rfl) ?_
  refine map_ite ?_ ?_
  · cases parseDiffHashes (line.drop (ascii "index ").length) with
    | none => rfl
    | some hashes => exact collect_unplaced _ fun _ => rfl
  iterate 3
    refine map_ite (collect_unplaced _ fun _ => rfl) ?_
  exact map_ite rfl rfl

theorem pushHunkLine_unplaced (parser : PatchLinesParser) (ty : PartType) (line : List UInt8) :
    (parser.pushHunkLine ty line).map unplaced = parser.unplaced.pushHunkLine ty line := by
  have samePart : parser.unplaced.currentHunkMutationPart = parser.currentHunkMutationPart := rfl
  unfold pushHunkLine
  rw [samePart]
  cases isHunk : parser.currentHunk with
  | none =>
      have noHunk : parser.unplaced.currentHunk = none := by
        unfold unplaced
        rw [isHunk]
        rfl
      rw [noHunk]
      rfl
  | some hunk =>
      have sameHunk : parser.unplaced.currentHunk = some hunk.unplaced := by
        unfold unplaced
        rw [isHunk]
        rfl
      rw [sameHunk]
      dsimp only
      split
      · simp [Except.map, unplaced, isHunk]
      · split
        · simp [Except.map, unplaced, isHunk]
        · rfl

theorem leaveHunks_unplaced (parser : PatchLinesParser) :
    unplacedNext parser.leaveHunks = parser.unplaced.leaveHunks := by
  unfold leaveHunks unplacedNext
  rw [commitFilePatch_unplaced]
  rfl

theorem readHunkLine_unplaced (parser : PatchLinesParser) (line : List UInt8) :
    (parser.readHunkLine line).map unplacedNext = parser.unplaced.readHunkLine line := by
  have sameComplete : parser.unplaced.currentHunk.any
      (·.verifyIntegrity parser.unplaced.currentHunkMutationPart) =
        parser.currentHunk.any (·.verifyIntegrity parser.currentHunkMutationPart) := by
    unfold unplaced
    cases parser.currentHunk with
    | none => rfl
    | some hunk => rfl
  have pushed (ty : PartType) :
      ((parser.pushHunkLine ty line).map fun next => (next, false)).map unplacedNext =
        (parser.unplaced.pushHunkLine ty line).map fun next => (next, false) := by
    rw [← pushHunkLine_unplaced]
    cases parser.pushHunkLine ty line with
    | error _ => rfl
    | ok _ => rfl
  unfold readHunkLine
  rw [sameComplete]
  split
  · exact congrArg Except.ok (leaveHunks_unplaced parser)
  split
  · exact pushed .context
  split
  · exact pushed .context
  split
  · exact pushed .deletion
  split
  · exact pushed .insertion
  split
  · cases parseHunkHeaderLine line with
    | error _ => rfl
    | ok hunk =>
        simp only [Except.map, unplacedNext]
        rw [← commitHunk_unplaced]
        rfl
  split
  · split
    · rfl
    · have samePart : parser.unplaced.currentHunkMutationPart = parser.currentHunkMutationPart := rfl
      rw [samePart]
      split
      · rfl
      · rfl
  · exact congrArg Except.ok (leaveHunks_unplaced parser)

theorem readLine_unplaced (parser : PatchLinesParser) (line : List UInt8) :
    (parser.readLine line).map unplacedNext = parser.unplaced.readLine line := by
  unfold readLine
  have sameState : parser.unplaced.state = parser.state := rfl
  rw [sameState]
  cases parser.state with
  | parsingHeader => exact readHeaderLine_unplaced parser line
  | parsingHunks => exact readHunkLine_unplaced parser line

theorem step_unplaced (parser : PatchLinesParser) (line : List UInt8) :
    (parser.step line).map unplaced = parser.unplaced.step line := by
  unfold step
  rw [← readLine_unplaced]
  cases parser.readLine line with
  | error _ => rfl
  | ok next =>
      obtain ⟨next, again⟩ := next
      cases again with
      | false => rfl
      | true =>
          simp only [Except.map, unplacedNext, bind, Except.bind]
          rw [← readLine_unplaced]
          cases next.readLine line with
          | error _ => rfl
          | ok _ => rfl

def run (parser : PatchLinesParser) (lines : List (List UInt8)) :
    Except ParseErr PatchLinesParser :=
  lines.foldlM step parser

theorem parseLines_of_run {lines : List (List UInt8)} {parser : PatchLinesParser}
    {reached : PatchLinesParser} (isRun : parser.unplaced.run lines = .ok reached) (offset : ℕ) :
    ∃ last, parser.parseLines offset lines = .ok last ∧ last.unplaced = reached := by
  induction lines generalizing parser offset with
  | nil =>
      cases isRun
      exact ⟨parser, rfl, rfl⟩
  | cons line rest ih =>
      have same : { parser with offset }.unplaced = parser.unplaced := rfl
      unfold run at isRun
      rw [List.foldlM_cons, ← same, ← step_unplaced] at isRun
      unfold parseLines
      cases isStep : step { parser with offset } line with
      | error err =>
          rw [isStep] at isRun
          cases isRun
      | ok next =>
          rw [isStep] at isRun
          exact ih isRun _

theorem collect_ne (parser next : PatchLinesParser) (update : FileDeets → FileDeets) :
    parser.collect update ≠ .ok (next, true) := by
  intro isRead
  cases isRead

theorem readHeaderLine_again {parser next : PatchLinesParser} {line : List UInt8}
    (isRead : parser.readHeaderLine line = .ok (next, true)) :
    line.head? = some 0x40 ∧ next.state = .parsingHunks := by
  have other {c : Prop} [Decidable c] {first second : Except ParseErr (PatchLinesParser × Bool)}
      (notFirst : first ≠ .ok (next, true))
      (isEither : (if c then first else second) = .ok (next, true)) :
      second = .ok (next, true) := by
    split at isEither
    · exact absurd isEither notFirst
    · exact isEither
  unfold readHeaderLine at isRead
  by_cases startsHunk : startsWith line "@@" = true
  · rw [if_pos startsHunk] at isRead
    cases isRead
    obtain ⟨rest, rfl⟩ := List.isPrefixOf_iff_prefix.mp startsHunk
    exact ⟨rfl, rfl⟩
  · rw [if_neg startsHunk] at isRead
    replace isRead := other (by
      cases parseDiffLinePaths line with
      | none => exact nofun
      | some paths => exact collect_ne _ _ _) isRead
    iterate 6
      replace isRead := other (collect_ne _ _ _) isRead
    replace isRead := other (by
      cases parseDiffHashes (line.drop (ascii "index ").length) with
      | none => exact nofun
      | some hashes => exact collect_ne _ _ _) isRead
    iterate 3
      replace isRead := other (collect_ne _ _ _) isRead
    split at isRead
    · cases isRead
    · cases isRead

theorem readHunkLine_again {parser next : PatchLinesParser} {line : List UInt8}
    (isRead : parser.readHunkLine line = .ok (next, true)) :
    line.head? ≠ some 0x40 ∧ next.state = .parsingHeader := by
  have committed (other : PatchLinesParser) : other.commitFilePatch.state = other.state := by
    unfold commitFilePatch commitHunk
    split
    · rfl
    · rfl
  have notAgain {result : Except ParseErr PatchLinesParser}
      (isMapped : (result.map fun next => (next, false)) = .ok (next, true)) : False := by
    cases result with
    | error _ => cases isMapped
    | ok _ => cases isMapped
  unfold readHunkLine at isRead
  split at isRead
  · rename_i isHeader
    obtain ⟨rest, rfl⟩ := List.isPrefixOf_iff_prefix.mp isHeader.1
    cases isRead
    refine ⟨?_, committed _⟩
    intro isAt
    cases isAt
  · split at isRead
    · exact (notAgain isRead).elim
    · rename_i c isHead
      iterate 3
        split at isRead
        · exact (notAgain isRead).elim
      split at isRead
      · cases isHunk : parseHunkHeaderLine line with
        | error _ =>
            rw [isHunk] at isRead
            cases isRead
        | ok _ =>
            rw [isHunk] at isRead
            cases isRead
      · rename_i notAt
        refine ⟨fun isAt => notAt (Option.some.inj (isHead.symm.trans isAt)), ?_⟩
        repeat' split at isRead
        all_goals cases isRead
        exact committed _

theorem readLine_twice {parser next last : PatchLinesParser} {line : List UInt8} {again : Bool}
    (first : parser.readLine line = .ok (next, true))
    (second : next.readLine line = .ok (last, again)) : again = false := by
  cases again with
  | false => rfl
  | true =>
      unfold readLine at first second
      split at first
      · obtain ⟨isAt, isState⟩ := readHeaderLine_again first
        rw [isState] at second
        exact absurd isAt (readHunkLine_again second).1
      · obtain ⟨notAt, isState⟩ := readHunkLine_again first
        rw [isState] at second
        exact absurd (readHeaderLine_again second).1 notAt

theorem readLine_twice_hunk : ∃ next last again,
    readLine {} (ascii "@@ -1 +1 @@") = .ok (next, true) ∧
      next.readLine (ascii "@@ -1 +1 @@") = .ok (last, again) ∧ again = false := by
  have first : readLine {} (ascii "@@ -1 +1 @@") = .ok (_, true) := rfl
  exact ⟨_, _, _, first, rfl, readLine_twice first rfl⟩

end PatchLinesParser

end Bun.Patch
