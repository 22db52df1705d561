/-
The text of a printed patch.

No printed line has a newline in it, so the lines of the text are the printed lines, and
reading the text gives the sections back.
-/

import Bun.Patch.PatchRoundTrip

set_option autoImplicit false

namespace Bun.Patch

/-! ### Lines -/

theorem not_mem_decimalText (n : ℕ) : (0x0a : UInt8) ∉ decimalText n := by
  intro isIn
  have digit := List.all_eq_true.mp (Semver.decimalText_digits n) _ isIn
  exact absurd digit (by decide)

theorem not_mem_word {word : List UInt8} (isWord : word.all isWordByte = true) :
    (0x0a : UInt8) ∉ word := by
  intro isIn
  have digit := List.all_eq_true.mp isWord _ isIn
  exact absurd digit (by decide)

theorem FileMode.not_mem_text (mode : FileMode) : (0x0a : UInt8) ∉ mode.text := by
  cases mode with
  | nonExecutable => decide
  | executable => decide

theorem HeaderRange.not_mem_text (range : HeaderRange) : (0x0a : UInt8) ∉ range.text := by
  unfold HeaderRange.text
  split
  · exact not_mem_decimalText _
  · have comma : (0x0a : UInt8) ∉ ascii "," := by decide
    simp [not_mem_decimalText, comma]

theorem Header.not_mem_line (header : Header) {heading : List UInt8}
    (oneLine : (0x0a : UInt8) ∉ heading) : (0x0a : UInt8) ∉ header.line heading := by
  have opens : (0x0a : UInt8) ∉ ascii "@@ -" := by decide
  have plus : (0x0a : UInt8) ∉ ascii " +" := by decide
  have closes : (0x0a : UInt8) ∉ ascii " @@" := by decide
  unfold Header.line
  simp [HeaderRange.not_mem_text, opens, plus, closes, oneLine]

theorem PatchMutationPart.render_oneLine {part : PatchMutationPart}
    (oneLine : ∀ line ∈ part.lines, (0x0a : UInt8) ∉ line) :
    ∀ line ∈ part.render, (0x0a : UInt8) ∉ line := by
  intro line isIn
  unfold PatchMutationPart.render at isIn
  rcases List.mem_append.mp isIn with isText | isMarker
  · obtain ⟨text, inLines, rfl⟩ := List.mem_map.mp isText
    have notMark : (0x0a : UInt8) ≠ part.ty.mark := by
      cases part.ty <;> decide
    rw [List.mem_cons, not_or]
    exact ⟨notMark, oneLine text inLines⟩
  · split at isMarker
    · rw [List.mem_singleton.mp isMarker]
      decide
    · cases isMarker

theorem Hunk.render_oneLine {headings : Hunk → List UInt8}
    (headingLines : ∀ hunk, (0x0a : UInt8) ∉ headings hunk) {hunk : Hunk}
    (printable : hunk.Printable) : ∀ line ∈ hunk.render headings, (0x0a : UInt8) ∉ line := by
  intro line isIn
  unfold Hunk.render at isIn
  rcases List.mem_cons.mp isIn with rfl | inParts
  · exact hunk.header.not_mem_line (headingLines hunk)
  · obtain ⟨part, inHunk, inPart⟩ := List.mem_flatMap.mp inParts
    exact PatchMutationPart.render_oneLine (printable.oneLine part inHunk) line inPart

theorem Modes.render_oneLine (modes : Modes) : ∀ line ∈ modes.render, (0x0a : UInt8) ∉ line := by
  intro line isIn
  cases modes with
  | kept mode => cases isIn
  | changed oldMode newMode =>
      have oldWords : (0x0a : UInt8) ∉ ascii "old mode " := by decide
      have newWords : (0x0a : UInt8) ∉ ascii "new mode " := by decide
      simp only [Modes.render, List.mem_cons, List.not_mem_nil, or_false] at isIn
      rcases isIn with rfl | rfl
      · simp [oldWords, FileMode.not_mem_text]
      · simp [newWords, FileMode.not_mem_text]

theorem indexLine_oneLine {hashes : Option Hashes}
    (hashWords : ∀ words, hashes = some words → words.WellFormed) {rest : List UInt8}
    (oneLine : (0x0a : UInt8) ∉ rest) :
    ∀ line ∈ indexLine hashes rest, (0x0a : UInt8) ∉ line := by
  intro line isIn
  cases hashes with
  | none => cases isIn
  | some words =>
      have indexWord : (0x0a : UInt8) ∉ ascii "index " := by decide
      have dots : (0x0a : UInt8) ∉ ascii ".." := by decide
      rw [show indexLine (some words) rest = [_] from rfl, List.mem_singleton] at isIn
      rw [isIn]
      simp [indexWord, dots, oneLine, not_mem_word (hashWords words rfl).beforeWord.2,
        not_mem_word (hashWords words rfl).afterWord.2]

theorem Modes.not_mem_hashEnd (modes : Modes) : (0x0a : UInt8) ∉ modes.hashEnd := by
  cases modes with
  | kept mode => simp [Modes.hashEnd, FileMode.not_mem_text]
  | changed oldMode newMode => exact List.not_mem_nil

theorem PlainPath.not_mem_end {path : List UInt8} (plain : PlainPath path) :
    (0x0a : UInt8) ∉ path ++ pathEnd path := by
  have noEnd : (0x0a : UInt8) ∉ pathEnd path := by
    unfold pathEnd
    split
    · decide
    · exact List.not_mem_nil
  simp [plain.oneLine, noEnd]

theorem PlainPath.paths_oneLine {fromPath toPath : List UInt8} (fromPlain : PlainPath fromPath)
    (toPlain : PlainPath toPath) :
    (0x0a : UInt8) ∉ diffLine fromPath toPath ∧ (0x0a : UInt8) ∉ fromLine fromPath ∧
      (0x0a : UInt8) ∉ toLine toPath := by
  have diff : (0x0a : UInt8) ∉ ascii "diff --git a/" := by decide
  have middle : (0x0a : UInt8) ∉ ascii " b/" := by decide
  have minus : (0x0a : UInt8) ∉ ascii "--- a/" := by decide
  have plus : (0x0a : UInt8) ∉ ascii "+++ b/" := by decide
  refine ⟨?_, ?_, ?_⟩
  · simp [diffLine, diff, middle, fromPlain.oneLine, toPlain.oneLine]
  · have rest := fromPlain.not_mem_end
    rw [fromLine, List.mem_append, not_or]
    exact ⟨minus, rest⟩
  · have rest := toPlain.not_mem_end
    rw [toLine, List.mem_append, not_or]
    exact ⟨plus, rest⟩

theorem FileSection.render_oneLine {headings : Hunk → List UInt8}
    (headingLines : ∀ hunk, (0x0a : UInt8) ∉ headings hunk) {section_ : FileSection}
    (wellFormed : section_.WellFormed) (plain : ∀ path ∈ section_.paths, PlainPath path) :
    ∀ line ∈ section_.render headings, (0x0a : UInt8) ∉ line := by
  have hunkLines : ∀ line ∈ section_.hunks.flatMap (Hunk.render headings), (0x0a : UInt8) ∉ line := by
    intro line isIn
    obtain ⟨hunk, inHunks, inHunk⟩ := List.mem_flatMap.mp isIn
    exact Hunk.render_oneLine headingLines (wellFormed.printable hunk inHunks) line inHunk
  have hashWords := wellFormed.hashWords
  have created : (0x0a : UInt8) ∉ ascii "new file mode " := by decide
  have deleted : (0x0a : UInt8) ∉ ascii "deleted file mode " := by decide
  have noFrom : (0x0a : UInt8) ∉ ascii "--- /dev/null" := by decide
  have noTo : (0x0a : UInt8) ∉ ascii "+++ /dev/null" := by decide
  have similar : (0x0a : UInt8) ∉ ascii "similarity index " := by decide
  have percent : (0x0a : UInt8) ∉ ascii "%" := by decide
  have renamedFrom : (0x0a : UInt8) ∉ ascii "rename from " := by decide
  have renamedTo : (0x0a : UInt8) ∉ ascii "rename to " := by decide
  rw [PatchLinesParser.render_eq]
  intro line isIn
  rcases List.mem_cons.mp isIn with rfl | later
  · cases section_ with
    | patch path _ _ _ =>
        have isPlain := plain path List.mem_cons_self
        exact (isPlain.paths_oneLine isPlain).1
    | modeChange path _ _ =>
        have isPlain := plain path List.mem_cons_self
        exact (isPlain.paths_oneLine isPlain).1
    | creation path _ _ _ =>
        have isPlain := plain path List.mem_cons_self
        exact (isPlain.paths_oneLine isPlain).1
    | deletion path _ _ _ =>
        have isPlain := plain path List.mem_cons_self
        exact (isPlain.paths_oneLine isPlain).1
    | rename fromPath toPath _ _ _ _ =>
        exact ((plain fromPath List.mem_cons_self).paths_oneLine
          (plain toPath (List.mem_cons_of_mem _ List.mem_cons_self))).1
  · rcases List.mem_append.mp later with inHeader | inHunks
    · cases section_ with
      | patch path modes hashes hunks =>
          have isPlain := plain path List.mem_cons_self
          obtain ⟨_, isFrom, isTo⟩ := isPlain.paths_oneLine isPlain
          simp only [PatchLinesParser.headerLines, List.mem_append, List.mem_cons, List.not_mem_nil,
            or_false] at inHeader
          rcases inHeader with inModes | inIndex | rfl | rfl
          · exact modes.render_oneLine line inModes
          · exact indexLine_oneLine hashWords modes.not_mem_hashEnd line inIndex
          · exact isFrom
          · exact isTo
      | modeChange path oldMode newMode =>
          exact (Modes.changed oldMode newMode).render_oneLine line inHeader
      | creation path mode hashes hunk =>
          have isPlain := plain path List.mem_cons_self
          obtain ⟨_, isFrom, isTo⟩ := isPlain.paths_oneLine isPlain
          simp only [PatchLinesParser.headerLines, List.mem_append, List.mem_cons] at inHeader
          rcases inHeader with rfl | inIndex | inPaths
          · simp [created, FileMode.not_mem_text]
          · exact indexLine_oneLine hashWords List.not_mem_nil line inIndex
          · split at inPaths
            · simp only [List.mem_cons, List.not_mem_nil, or_false] at inPaths
              rcases inPaths with rfl | rfl
              · exact noFrom
              · exact isTo
            · cases inPaths
      | deletion path mode hashes hunk =>
          have isPlain := plain path List.mem_cons_self
          obtain ⟨_, isFrom, isTo⟩ := isPlain.paths_oneLine isPlain
          simp only [PatchLinesParser.headerLines, List.mem_append, List.mem_cons] at inHeader
          rcases inHeader with rfl | inIndex | inPaths
          · simp [deleted, FileMode.not_mem_text]
          · exact indexLine_oneLine hashWords List.not_mem_nil line inIndex
          · split at inPaths
            · simp only [List.mem_cons, List.not_mem_nil, or_false] at inPaths
              rcases inPaths with rfl | rfl
              · exact isFrom
              · exact noTo
            · cases inPaths
      | rename fromPath toPath similarity modes hashes hunks =>
          have fromPlain := plain fromPath List.mem_cons_self
          have toPlain := plain toPath (List.mem_cons_of_mem _ List.mem_cons_self)
          obtain ⟨_, isFrom, isTo⟩ := fromPlain.paths_oneLine toPlain
          simp only [PatchLinesParser.headerLines, List.mem_append, List.mem_cons, List.not_mem_nil,
            or_false] at inHeader
          rcases inHeader with inModes | (rfl | rfl | rfl) | inRest
          · exact modes.render_oneLine line inModes
          · simp [similar, percent, not_mem_decimalText]
          · simp [renamedFrom, fromPlain.oneLine]
          · simp [renamedTo, toPlain.oneLine]
          · split at inRest
            · cases inRest
            · rcases List.mem_append.mp inRest with inIndex | inPaths
              · exact indexLine_oneLine hashWords modes.not_mem_hashEnd line inIndex
              · simp only [List.mem_cons, List.not_mem_nil, or_false] at inPaths
                rcases inPaths with rfl | rfl
                · exact isFrom
                · exact isTo
    · exact hunkLines line inHunks

theorem patchLines_flatMap {lines : List (List UInt8)} (oneLine : ∀ line ∈ lines, 0x0a ∉ line)
    {first : List UInt8} (isFirst : lines.head? = some first) (notEmpty : first ≠ []) :
    patchLines (lines.flatMap (· ++ [0x0a])) = lines := by
  have joined (lines : List (List UInt8)) (someLine : lines ≠ []) :
      lines.flatMap (· ++ [(0x0a : UInt8)]) = [0x0a].intercalate lines ++ [0x0a] := by
    induction lines with
    | nil => exact absurd rfl someLine
    | cons line rest ih =>
        cases rest with
        | nil => simp
        | cons next rest =>
            rw [List.flatMap_cons, ih (List.cons_ne_nil _ _), List.intercalate_cons_cons]
            simp
  have someLine : lines ≠ [] := by
    rintro rfl
    cases isFirst
  have notBlank : [0x0a].intercalate lines ≠ [] := by
    cases lines with
    | nil => exact absurd rfl someLine
    | cons line rest =>
        cases isFirst
        cases rest with
        | nil =>
            rw [List.intercalate_singleton]
            exact notEmpty
        | cons next rest =>
            rw [List.intercalate_cons_cons]
            simp [notEmpty]
  unfold patchLines
  rw [joined lines someLine, List.getLast?_concat, if_pos rfl, List.dropLast_concat]
  dsimp only
  rw [if_neg (by simpa using notBlank), List.splitOn_intercalate 0x0a oneLine someLine]

/-! ### The round trip -/

theorem render_head (headings : Hunk → List UInt8) (section_ : FileSection) :
    ∃ first rest, section_.render headings = first :: rest ∧ first ≠ [] := by
  rw [PatchLinesParser.render_eq]
  exact ⟨_, _, rfl, List.cons_ne_nil _ _⟩

theorem patchLines_renderSections {headings : Hunk → List UInt8}
    (headingLines : ∀ hunk, (0x0a : UInt8) ∉ headings hunk) {sections : List FileSection}
    (notEmpty : sections ≠ []) (wellFormed : ∀ section_ ∈ sections, section_.WellFormed)
    (plain : ∀ section_ ∈ sections, ∀ path ∈ section_.paths, PlainPath path) :
    patchLines (renderSections headings sections) =
      sections.flatMap (FileSection.render headings) := by
  have oneLine : ∀ line ∈ sections.flatMap (FileSection.render headings), 0x0a ∉ line := by
    intro line isIn
    obtain ⟨section_, inSections, inSection⟩ := List.mem_flatMap.mp isIn
    exact FileSection.render_oneLine headingLines (wellFormed section_ inSections)
      (plain section_ inSections) line inSection
  cases sections with
  | nil => exact absurd rfl notEmpty
  | cons section_ rest =>
      obtain ⟨first, later, isRender, someText⟩ := render_head headings section_
      refine patchLines_flatMap oneLine ?_ someText
      rw [List.flatMap_cons, isRender]
      rfl

theorem collected_hunks {section_ : FileSection} {file : FileDeets}
    (collected : PatchLinesParser.Collected section_ file.unplaced) :
    file.hunks.map (·.unplaced) = section_.hunks.map (·.unplaced) := by
  obtain ⟨paths, _, isFile⟩ := collected
  exact congrArg FileDeets.hunks isFile

/-- What was collected passes the check at the end and makes the parts of the sections. -/
theorem secondPass_sections {sections : List FileSection} {files : List FileDeets}
    (wellFormed : ∀ section_ ∈ sections, section_.WellFormed)
    (plain : ∀ section_ ∈ sections, ∀ path ∈ section_.paths, PlainPath path)
    (each : List.Forall₂ PatchLinesParser.Collected sections (files.map (·.unplaced)))
    (before : PatchFile) :
    (∀ hunk ∈ files.flatMap (·.hunks), hunk.verifyIntegrity none = true) ∧
      ∃ result, files.foldlM (fun result file => do
          let added ← file.secondPass
          return { parts := result.parts ++ added.parts
                   skipped := result.skipped ++ added.skipped }) before = .ok result ∧
        result.skipped = before.skipped ∧
        result.parts.map (·.unplaced) =
          before.parts.map (·.unplaced) ++ (sections.flatMap (·.parts)).map (·.unplaced) := by
  induction sections generalizing files before with
  | nil =>
      cases files with
      | nil =>
          refine ⟨nofun, before, rfl, rfl, ?_⟩
          rw [List.flatMap_nil, List.map_nil, List.append_nil]
      | cons _ _ => cases each
  | cons section_ rest ih =>
      cases files with
      | nil => cases each
      | cons file later =>
          rw [List.map_cons] at each
          cases each with
          | cons isCollected others =>
              have formed := wellFormed section_ List.mem_cons_self
              obtain ⟨added, isAdded, noneSkipped, isParts⟩ := secondPass_collected isCollected rfl
                formed (plain section_ List.mem_cons_self)
              obtain ⟨verified, result, isResult, sameSkipped, allParts⟩ := ih
                (fun next isIn => wellFormed next (List.mem_cons_of_mem _ isIn))
                (fun next isIn => plain next (List.mem_cons_of_mem _ isIn)) others
                { parts := before.parts ++ added.parts, skipped := before.skipped ++ added.skipped }
              refine ⟨?_, result, ?_, ?_, ?_⟩
              · intro hunk isIn
                rw [List.flatMap_cons, List.mem_append] at isIn
                rcases isIn with here | isLater
                · have isHunk : hunk.unplaced ∈ section_.hunks.map (·.unplaced) := by
                    rw [← collected_hunks isCollected]
                    exact List.mem_map_of_mem here
                  obtain ⟨printed, inSection, same⟩ := List.mem_map.mp isHunk
                  rw [← hunk.verifyIntegrity_unplaced, ← same, printed.verifyIntegrity_unplaced]
                  exact (formed.printable printed inSection).counts
                · exact verified hunk isLater
              · rw [List.foldlM_cons, isAdded]
                exact isResult
              · rw [sameSkipped, noneSkipped, List.append_nil]
              · rw [allParts, List.map_append, isParts, List.flatMap_cons, List.map_append,
                  List.append_assoc]

/-- Reading a printed patch gives its sections back: their paths, modes and hashes, and their
hunks with header, parts, lines and markers. -/
theorem parsePatchFile_renderSections (headings : Hunk → List UInt8)
    (headingLines : ∀ hunk, (0x0a : UInt8) ∉ headings hunk) (sections : List FileSection)
    (wellFormed : ∀ section_ ∈ sections, section_.WellFormed)
    (plain : ∀ section_ ∈ sections, ∀ path ∈ section_.paths, PlainPath path) :
    ∃ result, parsePatchFile (renderSections headings sections) = .ok result ∧
      result.skipped = [] ∧
      result.parts.map (·.unplaced) = (sections.flatMap (·.parts)).map (·.unplaced) := by
  by_cases notEmpty : sections = []
  · rw [notEmpty]
    exact ⟨{}, rfl, rfl, rfl⟩
  · obtain ⟨reached, collected, isRun, ends, each⟩ := PatchLinesParser.run_sections
      PatchLinesParser.ready_start headings sections notEmpty wellFormed plain
    have fromStart : ({} : PatchLinesParser).unplaced.run
        (sections.flatMap (FileSection.render headings)) = .ok reached := isRun
    obtain ⟨last, isParse, isReached⟩ := PatchLinesParser.parseLines_of_run fromStart 0
    have isFiles : last.commitFilePatch.result.map (·.unplaced) = collected := by
      have committed := ends.committed
      rw [← isReached, ← PatchLinesParser.commitFilePatch_unplaced] at committed
      exact committed
    rw [← isFiles] at each
    obtain ⟨verified, result, isResult, noneSkipped, isParts⟩ :=
      secondPass_sections wellFormed plain each {}
    refine ⟨result, ?_, noneSkipped, isParts⟩
    have isLines := patchLines_renderSections headingLines notEmpty wellFormed plain
    have someLine : (sections.flatMap (FileSection.render headings)).isEmpty = false := by
      cases sections with
      | nil => exact absurd rfl notEmpty
      | cons section_ rest =>
          obtain ⟨first, more, isRender, _⟩ := render_head headings section_
          rw [List.flatMap_cons, isRender]
          rfl
    have allVerified : (last.commitFilePatch.result.flatMap (·.hunks)).find?
        (fun hunk => !hunk.verifyIntegrity none) = none := by
      rw [List.find?_eq_none]
      intro hunk isIn
      rw [verified hunk isIn]
      exact Bool.false_ne_true
    unfold parsePatchFile PatchLinesParser.parse
    dsimp only
    rw [isLines, someLine]
    simp only [Bool.false_eq_true, if_false, bind, Except.bind]
    rw [isParse]
    dsimp only
    rw [allVerified]
    exact isResult

/-- A deleted and an inserted line that are printed like the paths of a header. -/
def headerLookalikes : FileSection :=
  .patch (ascii "a.js") (.kept .nonExecutable) none [{
    header := ⟨⟨1, 1⟩, ⟨1, 1⟩⟩
    parts := [⟨.deletion, [ascii "-- a/x"], true⟩, ⟨.insertion, [ascii "++ b/x"], true⟩] }]

theorem headerLookalikes_wellFormed : headerLookalikes.WellFormed where
  meaningful := ⟨trivial, List.cons_ne_nil _ _⟩
  hashWords := nofun
  printable := by
    intro hunk isIn
    simp only [headerLookalikes, FileSection.hunks, List.mem_cons, List.not_mem_nil,
      or_false] at isIn
    rw [isIn]
    exact ⟨by decide, by decide, by decide, by decide⟩

theorem plainPath_of_ends {path : List UInt8} (notEmpty : path ≠ []) (oneLine : 0x0a ∉ path)
    (start : path.head?.all (!isWhitespace ·) = true)
    (stop : path.getLast?.all (!isWhitespace ·) = true) : PlainPath path where
  notEmpty := notEmpty
  oneLine := oneLine
  start := by
    intro c isHead
    simpa [isHead] using start
  stop := by
    intro c isLast
    simpa [isLast] using stop

theorem headerLookalikes_readBack :
    ∃ result, parsePatchFile (renderSections (fun _ => []) [headerLookalikes]) = .ok result ∧
      result.skipped = [] ∧
      result.parts.map (·.unplaced) = headerLookalikes.parts.map (·.unplaced) := by
  refine parsePatchFile_renderSections (fun _ => []) (fun _ => List.not_mem_nil)
    [headerLookalikes] ?_ ?_
  · intro section_ isIn
    rw [List.mem_singleton.mp isIn]
    exact headerLookalikes_wellFormed
  · intro section_ isIn path isPath
    rw [List.mem_singleton.mp isIn] at isPath
    rw [List.mem_singleton.mp isPath]
    exact plainPath_of_ends (by decide) (by decide) (by decide) (by decide)

def spacedName : FileSection :=
  .patch (ascii "a.js ") (.kept .nonExecutable) none headerLookalikes.hunks

theorem spacedName_notReadBack :
    ¬ ∀ sections : List FileSection, (∀ section_ ∈ sections, section_.WellFormed) →
      (∀ section_ ∈ sections, ∀ path ∈ section_.paths, path ≠ [] ∧ 0x0a ∉ path) →
      ∃ result, parsePatchFile (renderSections (fun _ => []) sections) = .ok result ∧
        result.parts.map (·.unplaced) = (sections.flatMap (·.parts)).map (·.unplaced) := by
  intro always
  obtain ⟨result, isResult, isParts⟩ := always [spacedName]
    (by
      intro section_ isIn
      rw [List.mem_singleton.mp isIn]
      exact ⟨headerLookalikes_wellFormed.meaningful, nofun, headerLookalikes_wellFormed.printable⟩)
    (by
      intro section_ isIn path isPath
      rw [List.mem_singleton.mp isIn] at isPath
      rw [List.mem_singleton.mp isPath]
      decide)
  have trimmed : (parsePatchFile (renderSections (fun _ => []) [spacedName])).map
      (fun result => result.parts.map (·.unplaced)) =
        .ok [.filePatch ⟨ascii "a.js", headerLookalikes.hunks, none, none⟩] := by
    decide +kernel
  rw [isResult] at trimmed
  have same : result.parts.map (·.unplaced) = _ := Except.ok.inj trimmed
  rw [isParts] at same
  revert same
  decide +kernel

end Bun.Patch
