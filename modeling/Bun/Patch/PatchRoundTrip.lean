/-
A printed patch file is read back.

Every section leaves the parser ready for the next one, with what its header says and its
hunks collected.  The second pass then makes of each section the parts it stands for.
-/

import Bun.Patch.ParseRendered

set_option autoImplicit false

namespace Bun.Patch

/-! ### What the header of a section collects -/

def Modes.collect (modes : Modes) (deets : FileDeets) : FileDeets :=
  match modes with
  | .kept _ => deets
  | .changed oldMode newMode =>
      { deets with oldMode := some oldMode.text, newMode := some newMode.text }

def collectHashes (hashes : Option Hashes) (deets : FileDeets) : FileDeets :=
  match hashes with
  | none => deets
  | some hashes => { deets with beforeHash := some hashes.before, afterHash := some hashes.after }

def firstLine (paths : List UInt8 × List UInt8) : FileDeets :=
  { diffLineFromPath := some paths.1, diffLineToPath := some paths.2 }

/-- What the lines of a section's header say, from what the first says on. -/
def FileSection.header (section_ : FileSection) (deets : FileDeets) : FileDeets :=
  match section_ with
  | .patch path modes hashes _ =>
      { collectHashes hashes (modes.collect deets) with fromPath := some path, toPath := some path }
  | .modeChange _ oldMode newMode => (Modes.changed oldMode newMode).collect deets
  | .creation path mode hashes hunk =>
      let deets := collectHashes hashes { deets with newFileMode := some mode.text }
      if hunk.isSome then
        { deets with fromPath := some (ascii "ev/null"), toPath := some path }
      else deets
  | .deletion path mode hashes hunk =>
      let deets := collectHashes hashes { deets with deletedFileMode := some mode.text }
      if hunk.isSome then
        { deets with fromPath := some path, toPath := some (ascii "ev/null") }
      else deets
  | .rename fromPath toPath _ modes hashes hunks =>
      let deets := { modes.collect deets with
        renameFrom := some fromPath, renameTo := some toPath }
      if hunks.isEmpty then deets
      else
        { collectHashes hashes deets with fromPath := some fromPath, toPath := some toPath }

def FileSection.firstPaths : FileSection → List UInt8 × List UInt8
  | .patch path _ _ _ => (path, path)
  | .modeChange path _ _ => (path, path)
  | .creation path _ _ _ => (path, path)
  | .deletion path _ _ _ => (path, path)
  | .rename fromPath toPath _ _ _ _ => (fromPath, toPath)

def FileSection.deets (section_ : FileSection) (paths : List UInt8 × List UInt8) : FileDeets :=
  { section_.header (firstLine paths) with hunks := section_.hunks.map (·.unplaced) }

namespace PatchLinesParser

def collecting (parser : PatchLinesParser) (deets : FileDeets) : PatchLinesParser :=
  { parser with currentFilePatch := deets }

structure InHeader (parser : PatchLinesParser) : Prop where
  state : parser.state = .parsingHeader
  noHunk : parser.currentHunk = none
  noPart : parser.currentHunkMutationPart = none
  offset : parser.offset = 0
  hunks : parser.currentFilePatch.hunks = []

section

variable {parser : PatchLinesParser} (isState : parser.state = .parsingHeader)

include isState

theorem step_header {line : List UInt8} {deets : FileDeets}
    (isRead : parser.readHeaderLine line = .ok (parser.collecting deets, false)) :
    parser.step line = .ok (parser.collecting deets) :=
  step_of_read ((readLine_header isState line).trans isRead)

theorem run_field (keyword : String) (update : FileDeets → Option (List UInt8) → FileDeets)
    {text trimmed : List UInt8} (isTrimmed : trim text = trimmed)
    (isRead : parser.readHeaderLine (ascii keyword ++ text) =
      .ok (parser.collecting (update parser.currentFilePatch (some (trim text))), false))
    (rest : List (List UInt8)) :
    parser.run ((ascii keyword ++ text) :: rest) =
      (parser.collecting (update parser.currentFilePatch (some trimmed))).run rest := by
  rw [isTrimmed] at isRead
  exact run_cons (step_header isState isRead)

theorem run_modes (modes : Modes) :
    parser.run modes.render = .ok (parser.collecting (modes.collect parser.currentFilePatch)) := by
  cases modes with
  | kept mode => rfl
  | changed oldMode newMode =>
      refine (run_field isState "old mode " (fun deets mode => { deets with oldMode := mode })
        oldMode.trim_text rfl _).trans ?_
      exact run_field (by exact isState) "new mode " (fun deets mode => { deets with newMode := mode })
        newMode.trim_text rfl []

/-- What the header loop does with the hashes of an index line. -/
def collectIndex (parser : PatchLinesParser) :
    Option (List UInt8 × List UInt8) → Except ParseErr (PatchLinesParser × Bool)
  | none => .ok (parser, false)
  | some (before, after) =>
      parser.collect ({ · with beforeHash := some before, afterHash := some after })

theorem run_indexLine {hashes : Option Hashes}
    (wellFormed : ∀ words, hashes = some words → words.WellFormed) {rest : List UInt8}
    (ends : ∀ c, rest.head? = some c → isWhitespace c = true) :
    parser.run (indexLine hashes rest) =
      .ok (parser.collecting (collectHashes hashes parser.currentFilePatch)) := by
  cases hashes with
  | none => rfl
  | some words =>
      refine (run_cons (step_header isState ?_)).trans rfl
      have isHashes := parseDiffHashes_eq (wellFormed words rfl) ends
      have isRead (text : List UInt8) : parser.readHeaderLine (ascii "index " ++ text) =
          parser.collectIndex (parseDiffHashes text) := rfl
      rw [isRead, isHashes]
      rfl

theorem run_paths {fromPath toPath : List UInt8} (fromPlain : PlainPath fromPath)
    (toPlain : PlainPath toPath) :
    parser.run [fromLine fromPath, toLine toPath] =
      .ok (parser.collecting { parser.currentFilePatch with
        fromPath := some fromPath, toPath := some toPath }) := by
  refine (run_field isState "--- a/" (fun deets path => { deets with fromPath := path })
    fromPlain.trim_pathEnd rfl _).trans ?_
  exact run_field (by exact isState) "+++ b/" (fun deets path => { deets with toPath := path })
    toPlain.trim_pathEnd rfl []

end

/-! ### The end of a section -/

/-- A section is read to its end, and with it these are the sections so far. -/
structure Ends (parser : PatchLinesParser) (files : List FileDeets) : Prop where
  committed : parser.commitFilePatch.result = files
  offset : parser.offset = 0
  idle : parser.state = .parsingHeader ∧ parser.currentHunk = none ∧
      parser.currentHunkMutationPart = none ∧ parser.currentFilePatch.diffLineFromPath.isSome ∨
    parser.state = .parsingHunks ∧ parser.currentHunk.isSome

def begun (files : List FileDeets) (paths : List UInt8 × List UInt8) : PatchLinesParser :=
  { result := files, currentFilePatch := firstLine paths }

/-- The first line of a section, wherever it comes, ends the sections before it. -/
def Ready (parser : PatchLinesParser) (files : List FileDeets) : Prop :=
  ∀ fromPath toPath paths, parseDiffLinePaths (diffLine fromPath toPath) = some paths →
    parser.step (diffLine fromPath toPath) = .ok (begun files paths)

theorem readHeaderLine_diffLine (parser : PatchLinesParser) (fromPath toPath : List UInt8) :
    parser.readHeaderLine (diffLine fromPath toPath) =
      match parseDiffLinePaths (diffLine fromPath toPath) with
      | none => .error .badDiffLine
      | some (fromPath, toPath) =>
          parser.endSection.collect ({ · with
            diffLineFromPath := some fromPath, diffLineToPath := some toPath }) := by
  rfl

theorem ready_start : Ready {} [] := by
  intro fromPath toPath paths isPaths
  refine step_of_read ?_
  rw [readLine_header rfl, readHeaderLine_diffLine, isPaths]
  rfl

theorem commitFilePatch_eq {parser : PatchLinesParser} {files : List FileDeets}
    (ends : parser.Ends files) :
    parser.commitFilePatch = { result := files, state := parser.state } := by
  have committed := ends.committed
  have offset := ends.offset
  unfold commitFilePatch commitHunk at *
  rcases ends.idle with ⟨_, noHunk, noPart, _⟩ | ⟨_, isSome⟩
  · rw [noHunk] at committed ⊢
    dsimp only at committed ⊢
    rw [committed, offset, noPart, noHunk]
  · obtain ⟨hunk, isHunk⟩ := Option.isSome_iff_exists.mp isSome
    rw [isHunk] at committed ⊢
    dsimp only at committed ⊢
    rw [committed, offset]

theorem Ends.ready {parser : PatchLinesParser} {files : List FileDeets}
    (ends : parser.Ends files) : parser.Ready files := by
  intro fromPath toPath paths isPaths
  have committed := commitFilePatch_eq ends
  rcases ends.idle with ⟨isState, _, _, isSome⟩ | ⟨isState, isHunk⟩
  · refine step_of_read ?_
    rw [readLine_header isState, readHeaderLine_diffLine, isPaths]
    unfold endSection
    rw [if_pos isSome, committed, isState]
    rfl
  · have left : parser.readLine (diffLine fromPath toPath) =
        .ok ({ result := files }, true) := by
      have isRead : parser.readHunkLine (diffLine fromPath toPath) = .ok parser.leaveHunks := by
        unfold readHunkLine
        rw [if_neg (fun isHeader => by cases isHeader.1)]
        rfl
      have moved : { parser with state := .parsingHeader }.commitFilePatch =
          { parser.commitFilePatch with state := .parsingHeader } := by
        obtain ⟨hunk, isSome⟩ := Option.isSome_iff_exists.mp isHunk
        unfold commitFilePatch commitHunk
        rw [isSome]
      rw [readLine_hunks isState, isRead]
      unfold leaveHunks
      rw [moved, committed]
    have isRead : ({ result := files } : PatchLinesParser).readLine (diffLine fromPath toPath) =
        .ok (begun files paths, false) := by
      rw [readLine_header rfl, readHeaderLine_diffLine, isPaths]
      rfl
    exact step_of_read_again left isRead

theorem run_hunks_ends {parser : PatchLinesParser} (inHeader : parser.InHeader)
    (isSome : parser.currentFilePatch.diffLineFromPath.isSome) (headings : Hunk → List UInt8)
    (hunks : List Hunk) (printable : ∀ hunk ∈ hunks, hunk.Printable) :
    ∃ last, parser.run (hunks.flatMap (Hunk.render headings)) = .ok last ∧
      last.Ends (parser.result ++ [{ parser.currentFilePatch with
        hunks := hunks.map Hunk.unplaced }.nullifyEmptyStrings]) := by
  by_cases noHunks : hunks = []
  · refine ⟨parser, ?_, ⟨?_, inHeader.offset, Or.inl ⟨inHeader.state, inHeader.noHunk,
      inHeader.noPart, isSome⟩⟩⟩
    · rw [noHunks]
      rfl
    · unfold commitFilePatch commitHunk
      rw [inHeader.noHunk, noHunks, List.map_nil, ← inHeader.hunks]
  · have settled : ({ parser with state := .parsingHunks }.withHunks []).Settled :=
      ⟨fun _ => inHeader.noPart, inHeader.offset⟩
    obtain ⟨last, isRun, lastState, lastSettled, lastSome, committed⟩ :=
      run_hunks rfl settled headings hunks printable
    refine ⟨last, (run_hunks_of_header inHeader.state headings noHunks).trans isRun, ⟨?_,
      lastSettled.offset, Or.inr ⟨lastState, lastSome (Or.inr noHunks)⟩⟩⟩
    unfold commitFilePatch
    rw [committed]
    unfold commitHunk withHunks
    rw [inHeader.noHunk]
    rfl

theorem begun_inHeader (files : List FileDeets) (paths : List UInt8 × List UInt8) :
    (begun files paths).InHeader :=
  ⟨rfl, rfl, rfl, rfl, rfl⟩

theorem InHeader.collecting {parser : PatchLinesParser} (inHeader : parser.InHeader)
    {deets : FileDeets} (hunks : deets.hunks = []) : (parser.collecting deets).InHeader :=
  ⟨inHeader.state, inHeader.noHunk, inHeader.noPart, inHeader.offset, hunks⟩

/-! ### Sections -/

theorem run_trans {parser middle last : PatchLinesParser} {front back : List (List UInt8)}
    (isFront : parser.run front = .ok middle) (isBack : middle.run back = .ok last) :
    parser.run (front ++ back) = .ok last :=
  (run_append isFront).trans isBack

def headerLines : FileSection → List (List UInt8)
  | .patch path modes hashes _ =>
      modes.render ++ (indexLine hashes modes.hashEnd ++ [fromLine path, toLine path])
  | .modeChange _ oldMode newMode => (Modes.changed oldMode newMode).render
  | .creation path mode hashes hunk =>
      (ascii "new file mode " ++ mode.text) ::
        (indexLine hashes [] ++ if hunk.isSome then [ascii "--- /dev/null", toLine path] else [])
  | .deletion path mode hashes hunk =>
      (ascii "deleted file mode " ++ mode.text) ::
        (indexLine hashes [] ++ if hunk.isSome then [fromLine path, ascii "+++ /dev/null"] else [])
  | .rename fromPath toPath similarity modes hashes hunks =>
      modes.render ++
        ([ascii "similarity index " ++ (decimalText similarity ++ ascii "%"),
          ascii "rename from " ++ fromPath, ascii "rename to " ++ toPath] ++
        if hunks.isEmpty then []
        else indexLine hashes modes.hashEnd ++ [fromLine fromPath, toLine toPath])

theorem render_eq (headings : Hunk → List UInt8) (section_ : FileSection) :
    section_.render headings =
      diffLine section_.firstPaths.1 section_.firstPaths.2 ::
        (headerLines section_ ++ section_.hunks.flatMap (Hunk.render headings)) := by
  cases section_ with
  | patch path modes hashes hunks =>
      simp only [FileSection.render, headerLines, FileSection.hunks, FileSection.firstPaths,
        List.cons_append, List.append_assoc]
  | modeChange path oldMode newMode =>
      simp only [FileSection.render, headerLines, FileSection.hunks, FileSection.firstPaths,
        List.flatMap_nil, List.append_nil]
  | creation path mode hashes hunk =>
      cases hunk with
      | none => simp [FileSection.render, headerLines, FileSection.hunks, FileSection.firstPaths]
      | some hunk => simp [FileSection.render, headerLines, FileSection.hunks, FileSection.firstPaths]
  | deletion path mode hashes hunk =>
      cases hunk with
      | none => simp [FileSection.render, headerLines, FileSection.hunks, FileSection.firstPaths]
      | some hunk => simp [FileSection.render, headerLines, FileSection.hunks, FileSection.firstPaths]
  | rename fromPath toPath similarity modes hashes hunks =>
      cases hunks with
      | nil => simp [FileSection.render, headerLines, FileSection.hunks, FileSection.firstPaths]
      | cons _ _ => simp [FileSection.render, headerLines, FileSection.hunks, FileSection.firstPaths]

section

variable {parser : PatchLinesParser} (isState : parser.state = .parsingHeader)

include isState

theorem run_similarity (similarity : ℕ) {fromPath toPath : List UInt8}
    (fromPlain : PlainPath fromPath) (toPlain : PlainPath toPath) :
    parser.run [ascii "similarity index " ++ (decimalText similarity ++ ascii "%"),
        ascii "rename from " ++ fromPath, ascii "rename to " ++ toPath] =
      .ok (parser.collecting { parser.currentFilePatch with
        renameFrom := some fromPath, renameTo := some toPath }) := by
  have ignored : parser.step (ascii "similarity index " ++ (decimalText similarity ++ ascii "%")) =
      .ok (parser.collecting parser.currentFilePatch) := step_header isState rfl
  refine (run_cons ignored).trans ?_
  refine (run_field (by exact isState) "rename from "
    (fun deets path => { deets with renameFrom := path }) fromPlain.trim_eq rfl _).trans ?_
  exact run_field (by exact isState) "rename to "
    (fun deets path => { deets with renameTo := path }) toPlain.trim_eq rfl []

theorem run_created {path : List UInt8} (plain : PlainPath path) :
    parser.run [ascii "--- /dev/null", toLine path] =
      .ok (parser.collecting { parser.currentFilePatch with
        fromPath := some (ascii "ev/null"), toPath := some path }) := by
  have isTrimmed : trim (ascii "ev/null") = ascii "ev/null" := by decide
  refine (run_field isState "--- /d" (fun deets path => { deets with fromPath := path })
    isTrimmed rfl _).trans ?_
  exact run_field (by exact isState) "+++ b/" (fun deets path => { deets with toPath := path })
    plain.trim_pathEnd rfl []

theorem run_deleted {path : List UInt8} (plain : PlainPath path) :
    parser.run [fromLine path, ascii "+++ /dev/null"] =
      .ok (parser.collecting { parser.currentFilePatch with
        fromPath := some path, toPath := some (ascii "ev/null") }) := by
  have isTrimmed : trim (ascii "ev/null") = ascii "ev/null" := by decide
  refine (run_field isState "--- a/" (fun deets path => { deets with fromPath := path })
    plain.trim_pathEnd rfl _).trans ?_
  exact run_field (by exact isState) "+++ /d" (fun deets path => { deets with toPath := path })
    isTrimmed rfl []

end

theorem run_headerLines {parser : PatchLinesParser} (isState : parser.state = .parsingHeader)
    {section_ : FileSection} (wellFormed : section_.WellFormed)
    (plain : ∀ path ∈ section_.paths, PlainPath path) :
    parser.run (headerLines section_) =
      .ok (parser.collecting (section_.header parser.currentFilePatch)) := by
  have noEnd : ∀ c, ([] : List UInt8).head? = some c → isWhitespace c = true := by
    intro c isHead
    cases isHead
  have modesEnd (modes : Modes) : ∀ c, modes.hashEnd.head? = some c → isWhitespace c = true := by
    intro c isHead
    cases modes with
    | kept mode =>
        cases isHead
        rfl
    | changed oldMode newMode => cases isHead
  have hashWords := wellFormed.hashWords
  cases section_ with
  | patch path modes hashes hunks =>
      have isPlain := plain path List.mem_cons_self
      exact run_trans (run_modes isState modes)
        (run_trans (run_indexLine (by exact isState) hashWords (modesEnd modes))
          (run_paths (by exact isState) isPlain isPlain))
  | modeChange path oldMode newMode => exact run_modes isState (.changed oldMode newMode)
  | creation path mode hashes hunk =>
      have isPlain := plain path List.mem_cons_self
      refine (run_field isState "new file mode "
        (fun deets mode => { deets with newFileMode := mode }) mode.trim_text rfl _).trans ?_
      refine run_trans (run_indexLine (by exact isState) hashWords noEnd) ?_
      cases hunk with
      | none => rfl
      | some hunk => exact run_created (by exact isState) isPlain
  | deletion path mode hashes hunk =>
      have isPlain := plain path List.mem_cons_self
      refine (run_field isState "deleted file mode "
        (fun deets mode => { deets with deletedFileMode := mode }) mode.trim_text rfl _).trans ?_
      refine run_trans (run_indexLine (by exact isState) hashWords noEnd) ?_
      cases hunk with
      | none => rfl
      | some hunk => exact run_deleted (by exact isState) isPlain
  | rename fromPath toPath similarity modes hashes hunks =>
      have fromPlain := plain fromPath List.mem_cons_self
      have toPlain := plain toPath (List.mem_cons_of_mem _ List.mem_cons_self)
      refine run_trans (run_modes isState modes)
        (run_trans (run_similarity (by exact isState) similarity fromPlain toPlain) ?_)
      cases hunks with
      | nil => rfl
      | cons hunk rest =>
          exact run_trans (run_indexLine (by exact isState) hashWords (modesEnd modes))
            (run_paths (by exact isState) fromPlain toPlain)

def Collected (section_ : FileSection) (deets : FileDeets) : Prop :=
  ∃ paths, parseDiffLinePaths (diffLine section_.firstPaths.1 section_.firstPaths.2) = some paths ∧
    deets = (section_.deets paths).nullifyEmptyStrings

theorem header_keeps (section_ : FileSection) (deets : FileDeets) :
    (section_.header deets).hunks = deets.hunks ∧
      (section_.header deets).diffLineFromPath = deets.diffLineFromPath := by
  cases section_ with
  | patch path modes hashes hunks => cases modes <;> cases hashes <;> exact ⟨rfl, rfl⟩
  | modeChange path oldMode newMode => exact ⟨rfl, rfl⟩
  | creation path mode hashes hunk => cases hashes <;> cases hunk <;> exact ⟨rfl, rfl⟩
  | deletion path mode hashes hunk => cases hashes <;> cases hunk <;> exact ⟨rfl, rfl⟩
  | rename fromPath toPath similarity modes hashes hunks =>
      cases modes <;> cases hashes <;> cases hunks <;> exact ⟨rfl, rfl⟩

theorem firstPaths_plain {section_ : FileSection}
    (plain : ∀ path ∈ section_.paths, PlainPath path) : PlainPath section_.firstPaths.2 := by
  cases section_ with
  | patch path _ _ _ => exact plain path List.mem_cons_self
  | modeChange path _ _ => exact plain path List.mem_cons_self
  | creation path _ _ _ => exact plain path List.mem_cons_self
  | deletion path _ _ _ => exact plain path List.mem_cons_self
  | rename fromPath toPath _ _ _ _ =>
      exact plain toPath (List.mem_cons_of_mem _ List.mem_cons_self)

theorem run_section {parser : PatchLinesParser} {files : List FileDeets} (ready : parser.Ready files)
    (headings : Hunk → List UInt8) {section_ : FileSection} (wellFormed : section_.WellFormed)
    (plain : ∀ path ∈ section_.paths, PlainPath path) :
    ∃ last deets, parser.run (section_.render headings) = .ok last ∧
      last.Ends (files ++ [deets]) ∧ Collected section_ deets := by
  obtain ⟨paths, isPaths⟩ := parseDiffLinePaths_isSome section_.firstPaths.1
    (firstPaths_plain plain)
  have isState : (begun files paths).state = .parsingHeader := rfl
  have isHeader := run_headerLines isState wellFormed plain
  have keeps := header_keeps section_ (begun files paths).currentFilePatch
  have inHeader := (begun_inHeader files paths).collecting keeps.1
  obtain ⟨last, isRun, ends⟩ := run_hunks_ends inHeader
    (by
      change (section_.header _).diffLineFromPath.isSome = true
      rw [keeps.2]
      rfl)
    headings section_.hunks wellFormed.printable
  refine ⟨last, _, ?_, ends, paths, isPaths, rfl⟩
  rw [render_eq, run_cons (ready _ _ _ isPaths)]
  exact run_trans isHeader isRun

theorem run_sections {parser : PatchLinesParser} {files : List FileDeets}
    (ready : parser.Ready files) (headings : Hunk → List UInt8) (sections : List FileSection)
    (notEmpty : sections ≠ []) (wellFormed : ∀ section_ ∈ sections, section_.WellFormed)
    (plain : ∀ section_ ∈ sections, ∀ path ∈ section_.paths, PlainPath path) :
    ∃ last collected, parser.run (sections.flatMap (FileSection.render headings)) = .ok last ∧
      last.Ends (files ++ collected) ∧ List.Forall₂ Collected sections collected := by
  induction sections generalizing parser files with
  | nil => exact absurd rfl notEmpty
  | cons section_ rest ih =>
      obtain ⟨middle, deets, isFirst, ends, isCollected⟩ := run_section ready headings
        (wellFormed section_ List.mem_cons_self) (plain section_ List.mem_cons_self)
      cases rest with
      | nil =>
          refine ⟨middle, [deets], ?_, ends, .cons isCollected .nil⟩
          rw [List.flatMap_singleton]
          exact isFirst
      | cons next rest =>
          obtain ⟨last, collected, isRun, lastEnds, each⟩ := ih ends.ready (List.cons_ne_nil _ _)
            (fun later isIn => wellFormed later (List.mem_cons_of_mem _ isIn))
            (fun later isIn => plain later (List.mem_cons_of_mem _ isIn))
          refine ⟨last, deets :: collected, ?_, ?_, .cons isCollected each⟩
          · rw [List.flatMap_cons]
            exact run_trans isFirst isRun
          · rw [List.append_assoc, List.singleton_append] at lastEnds
            exact lastEnds

end PatchLinesParser

/-! ### The second pass -/

theorem nullify_some {text : List UInt8} (notEmpty : text ≠ []) :
    nullify (some text) = some text := by
  cases text with
  | nil => exact absurd rfl notEmpty
  | cons _ _ => rfl

theorem FileMode.text_ne_nil (mode : FileMode) : mode.text ≠ [] := by
  cases mode <;> decide

theorem modeChange_collect {file : FileDeets} {modes : Modes} (wellFormed : modes.WellFormed)
    (isOld : file.oldMode = (modes.collect {}).oldMode)
    (isNew : file.newMode = (modes.collect {}).newMode) (path : List UInt8) :
    file.modeChange (some path) = .ok (modes.parts path) := by
  unfold FileDeets.modeChange
  rw [isOld, isNew]
  cases modes with
  | kept mode => rfl
  | changed oldMode newMode =>
      have differs : oldMode.text ≠ newMode.text := fun same =>
        wellFormed (FileMode.text_injective same)
      change (if oldMode.text = newMode.text then _ else _) = _
      rw [if_neg differs, parseFileMode_text, parseFileMode_text]
      rfl

theorem secondPass_destination {file : FileDeets} {first : List PatchFilePart} {path : List UInt8}
    {modes : Modes} (notBinary : file.isBinary = false)
    (isFirst : file.firstPart = .ok (first, some path, file.hunks))
    (wellFormed : modes.WellFormed) (isOld : file.oldMode = (modes.collect {}).oldMode)
    (isNew : file.newMode = (modes.collect {}).newMode)
    (notEmpty : first ++ modes.parts path ≠ [] ∨ file.hunks ≠ []) :
    file.secondPass = .ok {
      parts := first ++ modes.parts path ++
        if file.hunks.isEmpty then []
        else [.filePatch ⟨path, file.hunks, file.beforeHash, file.afterHash⟩] } := by
  unfold FileDeets.secondPass
  rw [isFirst, notBinary]
  simp only [Except.mapError, bind, Except.bind, pure, Except.pure, Bool.false_and, Bool.or_false,
    modeChange_collect wellFormed isOld isNew]
  cases isHunks : file.hunks with
  | nil =>
      rw [isHunks] at notEmpty
      have someParts : first ++ modes.parts path ≠ [] := notEmpty.resolve_right (by simp)
      simp [someParts]
  | cons hunk rest => simp
theorem secondPass_whole {file : FileDeets} {part : PatchFilePart} {hunks : List Hunk}
    (notBinary : file.isBinary = false) (isFirst : file.firstPart = .ok ([part], none, hunks)) :
    file.secondPass = .ok { parts := [part] } := by
  unfold FileDeets.secondPass
  rw [isFirst, notBinary]
  rfl

theorem collectHashes_before {hashes : Option Hashes} (deets : FileDeets)
    (wellFormed : ∀ words, hashes = some words → words.WellFormed)
    (noHash : deets.beforeHash = none ∧ deets.afterHash = none) :
    nullify (collectHashes hashes deets).beforeHash = hashes.map (·.before) ∧
      nullify (collectHashes hashes deets).afterHash = hashes.map (·.after) := by
  cases hashes with
  | none =>
      unfold collectHashes
      dsimp only
      rw [noHash.1, noHash.2]
      exact ⟨rfl, rfl⟩
  | some words =>
      exact ⟨nullify_some (wellFormed words rfl).beforeWord.1,
        nullify_some (wellFormed words rfl).afterWord.1⟩

theorem nullify_modes (modes : Modes) (deets : FileDeets)
    (noMode : deets.oldMode = none ∧ deets.newMode = none) :
    nullify (modes.collect deets).oldMode = (modes.collect {}).oldMode ∧
      nullify (modes.collect deets).newMode = (modes.collect {}).newMode := by
  cases modes with
  | kept mode =>
      unfold Modes.collect
      dsimp only
      rw [noMode.1, noMode.2]
      exact ⟨rfl, rfl⟩
  | changed oldMode newMode =>
      exact ⟨nullify_some oldMode.text_ne_nil, nullify_some newMode.text_ne_nil⟩

section

variable {file : FileDeets} {paths : List UInt8 × List UInt8}

theorem secondPass_patch {path : List UInt8} {modes : Modes} {hashes : Option Hashes}
    {hunks : List Hunk}
    (isFile : file.unplaced =
      ((FileSection.patch path modes hashes hunks).deets paths).nullifyEmptyStrings)
    (wellFormed : (FileSection.patch path modes hashes hunks).WellFormed)
    (plain : PlainPath path) :
    ∃ result, file.secondPass = .ok result ∧ result.skipped = [] ∧
      result.parts.map (·.unplaced) =
        (FileSection.patch path modes hashes hunks).parts.map (·.unplaced) := by
  obtain ⟨modesFormed, someHunks⟩ := wellFormed.meaningful
  have isHunks : file.hunks.map (·.unplaced) = hunks.map (·.unplaced) :=
    congrArg FileDeets.hunks isFile
  have notEmpty : file.hunks ≠ [] := by
    intro noHunks
    rw [noHunks, List.map_nil, eq_comm, List.map_eq_nil_iff] at isHunks
    exact someHunks isHunks
  have noRename : file.renameFrom = none :=
    (congrArg FileDeets.renameFrom isFile).trans (by cases modes <;> cases hashes <;> rfl)
  have noDeletion : file.deletedFileMode = none :=
    (congrArg FileDeets.deletedFileMode isFile).trans (by cases modes <;> cases hashes <;> rfl)
  have noCreation : file.newFileMode = none :=
    (congrArg FileDeets.newFileMode isFile).trans (by cases modes <;> cases hashes <;> rfl)
  have notBinary : file.isBinary = false :=
    (congrArg FileDeets.isBinary isFile).trans (by cases modes <;> cases hashes <;> rfl)
  have isPath : file.toPath = some path :=
    (congrArg FileDeets.toPath isFile).trans (nullify_some plain.notEmpty)
  have isKind : file.kind = .filePatch := by
    unfold FileDeets.kind
    rw [noRename, noDeletion, noCreation]
    simp [notEmpty]
  have isFirst : file.firstPart = .ok ([], some path, file.hunks) := by
    unfold FileDeets.firstPart
    rw [isKind, isPath]
    rfl
  have modeTexts := nullify_modes modes (firstLine paths) ⟨rfl, rfl⟩
  have isOld : file.oldMode = (modes.collect {}).oldMode :=
    (congrArg FileDeets.oldMode isFile).trans (by cases hashes <;> exact modeTexts.1)
  have isNew : file.newMode = (modes.collect {}).newMode :=
    (congrArg FileDeets.newMode isFile).trans (by cases hashes <;> exact modeTexts.2)
  have hashTexts := collectHashes_before (modes.collect (firstLine paths)) wellFormed.hashWords
    (by cases modes <;> exact ⟨rfl, rfl⟩)
  have isBefore : file.beforeHash = hashes.map (·.before) :=
    (congrArg FileDeets.beforeHash isFile).trans hashTexts.1
  have isAfter : file.afterHash = hashes.map (·.after) :=
    (congrArg FileDeets.afterHash isFile).trans hashTexts.2
  refine ⟨_, secondPass_destination notBinary isFirst modesFormed isOld isNew (Or.inr notEmpty),
    rfl, ?_⟩
  simp [FileSection.parts, hunkParts, notEmpty, someHunks, isBefore, isAfter, isHunks,
    PatchFilePart.unplaced]

theorem secondPass_modeChange {path : List UInt8} {oldMode newMode : FileMode}
    (isFile : file.unplaced =
      ((FileSection.modeChange path oldMode newMode).deets (path, path)).nullifyEmptyStrings)
    (differs : oldMode ≠ newMode) (plain : PlainPath path) :
    ∃ result, file.secondPass = .ok result ∧ result.skipped = [] ∧
      result.parts.map (·.unplaced) =
        (FileSection.modeChange path oldMode newMode).parts.map (·.unplaced) := by
  have noHunks : file.hunks = [] := List.map_eq_nil_iff.mp (congrArg FileDeets.hunks isFile)
  have noRename : file.renameFrom = none := congrArg FileDeets.renameFrom isFile
  have noDeletion : file.deletedFileMode = none := congrArg FileDeets.deletedFileMode isFile
  have noCreation : file.newFileMode = none := congrArg FileDeets.newFileMode isFile
  have notBinary : file.isBinary = false := congrArg FileDeets.isBinary isFile
  have noTo : file.toPath = none := congrArg FileDeets.toPath isFile
  have isPath : file.diffLineToPath = some path :=
    (congrArg FileDeets.diffLineToPath isFile).trans (nullify_some plain.notEmpty)
  have isFirst : file.firstPart = .ok ([], some path, file.hunks) := by
    unfold FileDeets.firstPart FileDeets.kind
    rw [noRename, noDeletion, noCreation, noHunks, noTo, isPath]
    rfl
  have modeTexts := nullify_modes (.changed oldMode newMode) (firstLine (path, path)) ⟨rfl, rfl⟩
  have isOld : file.oldMode = some oldMode.text :=
    (congrArg FileDeets.oldMode isFile).trans modeTexts.1
  have isNew : file.newMode = some newMode.text :=
    (congrArg FileDeets.newMode isFile).trans modeTexts.2
  have isChange : (Modes.changed oldMode newMode).WellFormed := differs
  refine ⟨_, secondPass_destination notBinary isFirst isChange isOld isNew
    (Or.inl (List.cons_ne_nil _ _)), rfl, ?_⟩
  rw [noHunks]
  rfl

theorem secondPass_creation {path : List UInt8} {mode : FileMode} {hashes : Option Hashes}
    {hunk : Option Hunk}
    (isFile : file.unplaced =
      ((FileSection.creation path mode hashes hunk).deets (path, path)).nullifyEmptyStrings)
    (hashWords : ∀ words, hashes = some words → words.WellFormed) (plain : PlainPath path) :
    ∃ result, file.secondPass = .ok result ∧ result.skipped = [] ∧
      result.parts.map (·.unplaced) =
        (FileSection.creation path mode hashes hunk).parts.map (·.unplaced) := by
  have isHunk : file.hunks.head?.map (·.unplaced) = hunk.map (·.unplaced) := by
    have isHunks : file.hunks.map (·.unplaced) = hunk.toList.map (·.unplaced) :=
      congrArg FileDeets.hunks isFile
    rw [← List.head?_map, isHunks, List.head?_map]
    cases hunk <;> rfl
  have noRename : file.renameFrom = none :=
    (congrArg FileDeets.renameFrom isFile).trans (by cases hunk <;> cases hashes <;> rfl)
  have noDeletion : file.deletedFileMode = none :=
    (congrArg FileDeets.deletedFileMode isFile).trans (by cases hunk <;> cases hashes <;> rfl)
  have isMode : file.newFileMode = some mode.text :=
    (congrArg FileDeets.newFileMode isFile).trans (by
      rw [← nullify_some mode.text_ne_nil]
      cases hunk <;> cases hashes <;> rfl)
  have notBinary : file.isBinary = false :=
    (congrArg FileDeets.isBinary isFile).trans (by cases hunk <;> cases hashes <;> rfl)
  have isPath : file.toPath.or file.diffLineToPath = some path := by
    cases hunk with
    | none =>
        have noTo : file.toPath = none :=
          (congrArg FileDeets.toPath isFile).trans (by cases hashes <;> rfl)
        have isDiff : file.diffLineToPath = some path :=
          (congrArg FileDeets.diffLineToPath isFile).trans
            (by cases hashes <;> exact nullify_some plain.notEmpty)
        rw [noTo, isDiff]
        rfl
    | some hunk =>
        have isTo : file.toPath = some path :=
          (congrArg FileDeets.toPath isFile).trans (nullify_some plain.notEmpty)
        rw [isTo]
        rfl
  have isAfter : file.afterHash = hashes.map (·.after) :=
    (congrArg FileDeets.afterHash isFile).trans (by
      cases hunk <;> exact (collectHashes_before _ hashWords ⟨rfl, rfl⟩).2)
  have someMode : (some mode.text).any (!·.isEmpty) = true := by cases mode <;> rfl
  have isKind : file.kind = .fileCreation := by
    unfold FileDeets.kind
    rw [noRename, noDeletion, isMode, someMode]
    rfl
  have isFirst : ∃ hunks, file.firstPart =
      .ok ([.fileCreation ⟨path, mode, file.hunks.head?, file.afterHash⟩], none, hunks) := by
    unfold FileDeets.firstPart
    rw [isKind, isPath, isMode, notBinary]
    dsimp only
    rw [Option.getD_some, parseFileMode_text]
    exact ⟨_, rfl⟩
  obtain ⟨hunks, isFirst⟩ := isFirst
  refine ⟨_, secondPass_whole notBinary isFirst, rfl, ?_⟩
  simp [FileSection.parts, PatchFilePart.unplaced, isHunk, isAfter]

theorem secondPass_deletion {path : List UInt8} {mode : FileMode} {hashes : Option Hashes}
    {hunk : Option Hunk}
    (isFile : file.unplaced =
      ((FileSection.deletion path mode hashes hunk).deets (path, path)).nullifyEmptyStrings)
    (hashWords : ∀ words, hashes = some words → words.WellFormed) (plain : PlainPath path) :
    ∃ result, file.secondPass = .ok result ∧ result.skipped = [] ∧
      result.parts.map (·.unplaced) =
        (FileSection.deletion path mode hashes hunk).parts.map (·.unplaced) := by
  have isHunk : file.hunks.head?.map (·.unplaced) = hunk.map (·.unplaced) := by
    have isHunks : file.hunks.map (·.unplaced) = hunk.toList.map (·.unplaced) :=
      congrArg FileDeets.hunks isFile
    rw [← List.head?_map, isHunks, List.head?_map]
    cases hunk <;> rfl
  have noRename : file.renameFrom = none :=
    (congrArg FileDeets.renameFrom isFile).trans (by cases hunk <;> cases hashes <;> rfl)
  have isMode : file.deletedFileMode = some mode.text :=
    (congrArg FileDeets.deletedFileMode isFile).trans (by
      rw [← nullify_some mode.text_ne_nil]
      cases hunk <;> cases hashes <;> rfl)
  have notBinary : file.isBinary = false :=
    (congrArg FileDeets.isBinary isFile).trans (by cases hunk <;> cases hashes <;> rfl)
  have isPath : file.fromPath.or file.diffLineFromPath = some path := by
    cases hunk with
    | none =>
        have noFrom : file.fromPath = none :=
          (congrArg FileDeets.fromPath isFile).trans (by cases hashes <;> rfl)
        have isDiff : file.diffLineFromPath = some path :=
          (congrArg FileDeets.diffLineFromPath isFile).trans
            (by cases hashes <;> exact nullify_some plain.notEmpty)
        rw [noFrom, isDiff]
        rfl
    | some hunk =>
        have isFrom : file.fromPath = some path :=
          (congrArg FileDeets.fromPath isFile).trans (nullify_some plain.notEmpty)
        rw [isFrom]
        rfl
  have isBefore : file.beforeHash = hashes.map (·.before) :=
    (congrArg FileDeets.beforeHash isFile).trans (by
      cases hunk <;> exact (collectHashes_before _ hashWords ⟨rfl, rfl⟩).1)
  have someMode : (some mode.text).any (!·.isEmpty) = true := by cases mode <;> rfl
  have isKind : file.kind = .fileDeletion := by
    unfold FileDeets.kind
    rw [noRename, isMode, someMode]
    rfl
  have isFirst : ∃ hunks, file.firstPart =
      .ok ([.fileDeletion ⟨path, mode, file.hunks.head?, file.beforeHash⟩], none, hunks) := by
    unfold FileDeets.firstPart
    rw [isKind, isPath, isMode]
    dsimp only
    rw [Option.getD_some, parseFileMode_text]
    exact ⟨_, rfl⟩
  obtain ⟨hunks, isFirst⟩ := isFirst
  refine ⟨_, secondPass_whole notBinary isFirst, rfl, ?_⟩
  simp [FileSection.parts, PatchFilePart.unplaced, isHunk, isBefore]

theorem secondPass_rename {fromPath toPath : List UInt8} {similarity : ℕ} {modes : Modes}
    {hashes : Option Hashes} {hunks : List Hunk}
    (isFile : file.unplaced = ((FileSection.rename fromPath toPath similarity modes hashes
      hunks).deets paths).nullifyEmptyStrings)
    (wellFormed : (FileSection.rename fromPath toPath similarity modes hashes hunks).WellFormed)
    (fromPlain : PlainPath fromPath) (toPlain : PlainPath toPath) :
    ∃ result, file.secondPass = .ok result ∧ result.skipped = [] ∧
      result.parts.map (·.unplaced) =
        (FileSection.rename fromPath toPath similarity modes hashes hunks).parts.map
          (·.unplaced) := by
  have isHunks : file.hunks.map (·.unplaced) = hunks.map (·.unplaced) :=
    congrArg FileDeets.hunks isFile
  have isFrom : file.renameFrom = some fromPath :=
    (congrArg FileDeets.renameFrom isFile).trans (by
      rw [← nullify_some fromPlain.notEmpty]
      cases hunks <;> cases hashes <;> rfl)
  have isTo : file.renameTo = some toPath :=
    (congrArg FileDeets.renameTo isFile).trans (by
      rw [← nullify_some toPlain.notEmpty]
      cases hunks <;> cases hashes <;> rfl)
  have notBinary : file.isBinary = false :=
    (congrArg FileDeets.isBinary isFile).trans (by
      cases hunks <;> cases modes <;> cases hashes <;> rfl)
  have modeTexts := nullify_modes modes (firstLine paths) ⟨rfl, rfl⟩
  have isOld : file.oldMode = (modes.collect {}).oldMode :=
    (congrArg FileDeets.oldMode isFile).trans (by
      cases hunks <;> cases hashes <;> exact modeTexts.1)
  have isNew : file.newMode = (modes.collect {}).newMode :=
    (congrArg FileDeets.newMode isFile).trans (by
      cases hunks <;> cases hashes <;> exact modeTexts.2)
  have isFirst : file.firstPart =
      .ok ([.fileRename ⟨fromPath, toPath⟩], some toPath, file.hunks) := by
    have someFrom : (some fromPath).any (!·.isEmpty) = true := by
      simpa using fromPlain.notEmpty
    have isKind : file.kind = .fileRename := by
      unfold FileDeets.kind
      rw [isFrom, if_pos someFrom]
    unfold FileDeets.firstPart
    rw [isKind, isFrom, isTo]
  refine ⟨_, secondPass_destination notBinary isFirst wellFormed.meaningful isOld isNew
    (Or.inl (List.cons_ne_nil _ _)), rfl, ?_⟩
  cases hunks with
  | nil =>
      have noHunks : file.hunks = [] := List.map_eq_nil_iff.mp isHunks
      simp [FileSection.parts, hunkParts, noHunks]
  | cons hunk rest =>
      have notEmpty : file.hunks ≠ [] := by
        intro noHunks
        rw [noHunks] at isHunks
        cases isHunks
      have hashTexts := collectHashes_before
        { modes.collect (firstLine paths) with
          renameFrom := some fromPath, renameTo := some toPath } wellFormed.hashWords
        (by cases modes <;> exact ⟨rfl, rfl⟩)
      have isBefore : file.beforeHash = hashes.map (·.before) :=
        (congrArg FileDeets.beforeHash isFile).trans hashTexts.1
      have isAfter : file.afterHash = hashes.map (·.after) :=
        (congrArg FileDeets.afterHash isFile).trans hashTexts.2
      rw [List.map_cons] at isHunks
      simp [FileSection.parts, hunkParts, notEmpty, isBefore, isAfter, isHunks,
        PatchFilePart.unplaced]

end

theorem secondPass_collected {section_ : FileSection} {deets file : FileDeets}
    (collected : PatchLinesParser.Collected section_ deets) (isFile : file.unplaced = deets)
    (wellFormed : section_.WellFormed) (plain : ∀ path ∈ section_.paths, PlainPath path) :
    ∃ result, file.secondPass = .ok result ∧ result.skipped = [] ∧
      result.parts.map (·.unplaced) = section_.parts.map (·.unplaced) := by
  obtain ⟨paths, isPaths, isDeets⟩ := collected
  rw [isDeets] at isFile
  cases section_ with
  | patch path modes hashes hunks =>
      exact secondPass_patch isFile wellFormed (plain path List.mem_cons_self)
  | modeChange path oldMode newMode =>
      have isPlain := plain path List.mem_cons_self
      obtain rfl := Option.some.inj ((parseDiffLinePaths_same isPlain).symm.trans isPaths)
      exact secondPass_modeChange isFile wellFormed.meaningful isPlain
  | creation path mode hashes hunk =>
      have isPlain := plain path List.mem_cons_self
      obtain rfl := Option.some.inj ((parseDiffLinePaths_same isPlain).symm.trans isPaths)
      exact secondPass_creation isFile wellFormed.hashWords isPlain
  | deletion path mode hashes hunk =>
      have isPlain := plain path List.mem_cons_self
      obtain rfl := Option.some.inj ((parseDiffLinePaths_same isPlain).symm.trans isPaths)
      exact secondPass_deletion isFile wellFormed.hashWords isPlain
  | rename fromPath toPath similarity modes hashes hunks =>
      exact secondPass_rename isFile wellFormed (plain fromPath List.mem_cons_self)
        (plain toPath (List.mem_cons_of_mem _ List.mem_cons_self))

end Bun.Patch
