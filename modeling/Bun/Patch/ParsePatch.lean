/-
What a patch file says, and how one is read.

A hunk is a header, which counts the lines of its two sides, and a body of parts.  A part is
a run of lines that are all context, all inserted or all deleted.

The lines are read one after another, in one of two states: in the header of a section, or
in its hunks.  A line that belongs to the other state is read a second time there.  A second
pass turns what was collected about each section into its parts.
-/

import Bun.Core.AsciiText
import Bun.Semver.Decimal
import Mathlib.Algebra.GroupWithZero.Nat
import Mathlib.Data.Nat.Notation
import Mathlib.Data.List.DropRight

set_option autoImplicit false

namespace Bun.Patch

inductive PartType where
  | context
  | insertion
  | deletion
deriving DecidableEq, Repr

structure PatchMutationPart where
  ty : PartType := .context
  lines : List (List UInt8) := []
  noNewlineAtEndOfFile : Bool := false
deriving DecidableEq, Repr

structure HeaderRange where
  start : UInt32 := 1
  len : UInt32 := 0
deriving DecidableEq, Repr

structure Header where
  original : HeaderRange := {}
  patched : HeaderRange := {}
deriving DecidableEq, Repr

structure Hunk where
  header : Header := {}
  parts : List PatchMutationPart := []
  /-- Where the `@@` line begins in the patch file. -/
  offset : ℕ := 0
deriving DecidableEq, Repr

namespace PatchMutationPart

def originalLength (part : PatchMutationPart) : ℕ :=
  match part.ty with
  | .context => part.lines.length
  | .insertion => 0
  | .deletion => part.lines.length

def patchedLength (part : PatchMutationPart) : ℕ :=
  match part.ty with
  | .context => part.lines.length
  | .insertion => part.lines.length
  | .deletion => 0

end PatchMutationPart

namespace Hunk

def verifyIntegrity (hunk : Hunk) (pending : Option PatchMutationPart) : Bool :=
  let parts := hunk.parts ++ pending.toList
  (parts.map (·.originalLength)).sum == hunk.header.original.len.toNat &&
    (parts.map (·.patchedLength)).sum == hunk.header.patched.len.toNat

end Hunk

inductive FileMode where
  | nonExecutable
  | executable
deriving DecidableEq, Repr

structure FilePatch where
  path : List UInt8
  hunks : List Hunk
  beforeHash : Option (List UInt8)
  afterHash : Option (List UInt8)
deriving DecidableEq, Repr

structure FileRename where
  fromPath : List UInt8
  toPath : List UInt8
deriving DecidableEq, Repr

structure FileModeChange where
  path : List UInt8
  oldMode : FileMode
  newMode : FileMode
deriving DecidableEq, Repr

structure FileDeletion where
  path : List UInt8
  mode : FileMode
  hunk : Option Hunk
  hash : Option (List UInt8)
deriving DecidableEq, Repr

structure FileCreation where
  path : List UInt8
  mode : FileMode
  hunk : Option Hunk
  hash : Option (List UInt8)
deriving DecidableEq, Repr

inductive PatchFilePart where
  | filePatch (patch : FilePatch)
  | fileDeletion (deletion : FileDeletion)
  | fileCreation (creation : FileCreation)
  | fileRename (rename : FileRename)
  | fileModeChange (change : FileModeChange)
deriving DecidableEq, Repr

structure SkippedSection where
  offset : ℕ
  path : Option (List UInt8)
  isBinary : Bool
deriving DecidableEq, Repr

structure PatchFile where
  parts : List PatchFilePart := []
  skipped : List SkippedSection := []
deriving DecidableEq, Repr

/-- The bytes that are trimmed: space, tab, newline, carriage return. -/
def isWhitespace (c : UInt8) : Bool :=
  c == 0x20 || c == 0x09 || c == 0x0a || c == 0x0d

def trimRight (text : List UInt8) : List UInt8 :=
  text.rdropWhile isWhitespace

def trim (text : List UInt8) : List UInt8 :=
  trimRight (text.dropWhile isWhitespace)

open Bun.Semver (ParseIntError parseWithSign isAsciiDigit)

inductive ParseErr where
  | unrecognizedPragma
  | noNewlineAtEofPragmaEncounteredWithoutContext
  | hunkLinesEncounteredBeforeHunkHeader
  | hunkHeaderIntegrityCheckFailed
  | badDiffLine
  | badHeaderLine
  | renameFromAndToNotGive
  | noPathGivenForFileDeletion
  | noPathGivenForFileCreation
  | badFileMode
  | gitBinaryPatchNotSupported
  | noPathGivenForHunk
deriving DecidableEq, Repr

structure ParseErrAt where
  err : ParseErr
  offset : ℕ
deriving DecidableEq, Repr

structure FileDeets where
  diffLineFromPath : Option (List UInt8) := none
  diffLineToPath : Option (List UInt8) := none
  oldMode : Option (List UInt8) := none
  newMode : Option (List UInt8) := none
  deletedFileMode : Option (List UInt8) := none
  newFileMode : Option (List UInt8) := none
  renameFrom : Option (List UInt8) := none
  renameTo : Option (List UInt8) := none
  beforeHash : Option (List UInt8) := none
  afterHash : Option (List UInt8) := none
  fromPath : Option (List UInt8) := none
  toPath : Option (List UInt8) := none
  hunks : List Hunk := []
  isBinary : Bool := false
  offset : ℕ := 0
deriving DecidableEq, Repr

def nullify (text : Option (List UInt8)) : Option (List UInt8) :=
  text.filter (!·.isEmpty)

def FileDeets.nullifyEmptyStrings (deets : FileDeets) : FileDeets :=
  { deets with
    diffLineFromPath := nullify deets.diffLineFromPath
    diffLineToPath := nullify deets.diffLineToPath
    oldMode := nullify deets.oldMode
    newMode := nullify deets.newMode
    deletedFileMode := nullify deets.deletedFileMode
    newFileMode := nullify deets.newFileMode
    renameFrom := nullify deets.renameFrom
    renameTo := nullify deets.renameTo
    beforeHash := nullify deets.beforeHash
    afterHash := nullify deets.afterHash
    fromPath := nullify deets.fromPath
    toPath := nullify deets.toPath }

/-! ### Numbers and header lines -/

/-- The 32-bit instance of `parse_int`, for an explicit radix. -/
def parseInt (buf : List UInt8) (radix : ℕ) : Except ParseIntError UInt32 :=
  match buf with
  | [] => .error .invalidCharacter
  | first :: rest => do
      let negative := first = 0x2d
      let digits := if first = 0x2b ∨ first = 0x2d then rest else first :: rest
      let acc ← parseWithSign digits radix
      if negative ∧ acc ≠ 0 then .error .overflow
      else if acc < 2 ^ 32 then .ok (UInt32.ofNat acc) else .error .overflow

def parseDecimal (buf : List UInt8) : Option UInt32 :=
  (parseInt buf 10).toOption

def FileMode.fromU32 (mode : UInt32) : Option FileMode :=
  if mode = 0o644 then some .nonExecutable
  else if mode = 0o755 then some .executable
  else none

def parseFileMode (mode : List UInt8) : Option FileMode := do
  let parsed ← (parseInt mode 8).toOption
  FileMode.fromU32 (parsed &&& 0o777)

def startsWith (line : List UInt8) (text : String) : Bool :=
  (ascii text).isPrefixOf line

def stripPrefix (line : List UInt8) (text : String) : Option (List UInt8) :=
  if startsWith line text then some (line.drop (ascii text).length) else none

def splitAsciiDigits (text : List UInt8) : List UInt8 × List UInt8 :=
  (text.takeWhile isAsciiDigit, text.dropWhile isAsciiDigit)

/-- Reads `100,32 ` or `100 ` and returns the rest from the space on. -/
def parseHeaderRange (text : List UInt8) : Except ParseErr (HeaderRange × List UInt8) := do
  let (start, rest) := splitAsciiDigits text
  if rest.length < 2 then throw .badHeaderLine
  let (len, rest) :=
    match stripPrefix rest "," with
    | some afterComma => splitAsciiDigits afterComma
    | none => (ascii "1", rest)
  if !startsWith rest " " then throw .badHeaderLine
  match parseDecimal start, parseDecimal len with
  | some start, some len => return (⟨start, len⟩, rest)
  | _, _ => throw .badHeaderLine

def parseHunkHeaderLine (line : List UInt8) : Except ParseErr Hunk := do
  let some line := stripPrefix (trim line) "@@ -" | throw .badHeaderLine
  let (original, line) ← parseHeaderRange line
  let some line := stripPrefix line " +" | throw .badHeaderLine
  let (patched, line) ← parseHeaderRange line
  if !startsWith line " @@" then throw .badHeaderLine
  return { header := { original, patched } }

/-! ### The other lines of a header -/

/-- `\w` of a regular expression. -/
def isWordByte (c : UInt8) : Bool :=
  (0x30 ≤ c && c ≤ 0x39) || (0x41 ≤ c && c ≤ 0x5a) || (0x61 ≤ c && c ≤ 0x7a) || c == 0x5f

/-- The first position of `needle`. -/
def indexOf (text needle : List UInt8) : Option ℕ :=
  (List.range (text.length + 1)).find? fun i => needle.isPrefixOf (text.drop i)

def parseDiffHashes (line : List UInt8) : Option (List UInt8 × List UInt8) := do
  let delimiterStart ← indexOf line (ascii "..")
  let aPart := line.take delimiterStart
  if !aPart.all isWordByte then none
  let bPartStart := delimiterStart + 2
  if bPartStart ≥ line.length then none
  let bPart := (line.drop bPartStart).takeWhile (!isWhitespace ·)
  if bPart.all isWordByte then some (aPart, bPart) else none

/-- The first ` b/` that has something before it; the position is that of the `b`. -/
def findPartB (rest : List UInt8) : Option ℕ :=
  (List.range rest.length).find? fun i =>
    rest[i]? = some 0x62 && 0 < i && rest[i - 1]? = some 0x20 && rest[i + 1]? = some 0x2f

def parseDiffLinePaths (line : List UInt8) : Option (List UInt8 × List UInt8) := do
  let rest ← stripPrefix line "diff --git a/"
  let rest := trimRight rest
  if rest.isEmpty then none
  let middle := (rest.length - 3) / 2
  -- Without a rename the two paths are the same and ` b/` is in the middle.
  if stripPrefix (rest.drop middle) " b/" = some (rest.take middle) then
    some (rest.take middle, rest.take middle)
  else
    let i ← findPartB rest
    some (rest.take (i - 1), trimRight (rest.drop (i + 2)))

/-! ### The first pass -/

inductive ParserState where
  | parsingHeader
  | parsingHunks
deriving DecidableEq, Repr

structure PatchLinesParser where
  result : List FileDeets := []
  currentFilePatch : FileDeets := {}
  state : ParserState := .parsingHeader
  currentHunk : Option Hunk := none
  currentHunkMutationPart : Option PatchMutationPart := none
  offset : ℕ := 0
deriving DecidableEq, Repr

namespace PatchLinesParser

def commitHunk (parser : PatchLinesParser) : PatchLinesParser :=
  match parser.currentHunk with
  | none => parser
  | some hunk =>
      let parts := hunk.parts ++ parser.currentHunkMutationPart.toList
      { parser with
        currentHunk := none
        currentHunkMutationPart := none
        currentFilePatch :=
          { parser.currentFilePatch with
            hunks := parser.currentFilePatch.hunks ++ [{ hunk with parts }] } }

def commitFilePatch (parser : PatchLinesParser) : PatchLinesParser :=
  let parser := parser.commitHunk
  { parser with
    result := parser.result ++ [parser.currentFilePatch.nullifyEmptyStrings]
    currentFilePatch := { offset := parser.offset } }

def field (line : List UInt8) (keyword : String) : Option (List UInt8) :=
  some (trim (line.drop (ascii keyword).length))

def collect (parser : PatchLinesParser) (update : FileDeets → FileDeets) :
    Except ParseErr (PatchLinesParser × Bool) :=
  .ok ({ parser with currentFilePatch := update parser.currentFilePatch }, false)

/-- A `diff --git` line ends the section before it. -/
def endSection (parser : PatchLinesParser) : PatchLinesParser :=
  if parser.currentFilePatch.diffLineFromPath.isSome then parser.commitFilePatch else parser

/-- A line of a section's header, and whether it has to be read again. -/
def readHeaderLine (parser : PatchLinesParser) (line : List UInt8) :
    Except ParseErr (PatchLinesParser × Bool) :=
  if startsWith line "@@" then
    .ok ({ parser with
      state := .parsingHunks
      currentFilePatch := { parser.currentFilePatch with hunks := [] } }, true)
  else if startsWith line "diff --git " then
    match parseDiffLinePaths line with
    | none => .error .badDiffLine
    | some (fromPath, toPath) =>
        parser.endSection.collect ({ · with
          diffLineFromPath := some fromPath, diffLineToPath := some toPath })
  else if startsWith line "old mode " then
    parser.collect ({ · with oldMode := field line "old mode " })
  else if startsWith line "new mode " then
    parser.collect ({ · with newMode := field line "new mode " })
  else if startsWith line "deleted file mode " then
    parser.collect ({ · with deletedFileMode := field line "deleted file mode " })
  else if startsWith line "new file mode " then
    parser.collect ({ · with newFileMode := field line "new file mode " })
  else if startsWith line "rename from " then
    parser.collect ({ · with renameFrom := field line "rename from " })
  else if startsWith line "rename to " then
    parser.collect ({ · with renameTo := field line "rename to " })
  else if startsWith line "index " then
    match parseDiffHashes (line.drop (ascii "index ").length) with
    | none => .ok (parser, false)
    | some (before, after) =>
        parser.collect ({ · with beforeHash := some before, afterHash := some after })
  else if startsWith line "--- " then
    parser.collect ({ · with fromPath := field line "--- a/" })
  else if startsWith line "+++ " then
    parser.collect ({ · with toPath := field line "+++ b/" })
  else if startsWith line "Binary files " then
    parser.collect ({ · with isBinary := true })
  else if startsWith line "GIT binary patch" ∧ parser.currentFilePatch.deletedFileMode.isNone then
    .error .gitBinaryPatchNotSupported
  else .ok (parser, false)

def pushHunkLine (parser : PatchLinesParser) (ty : PartType) (line : List UInt8) :
    Except ParseErr PatchLinesParser :=
  match parser.currentHunk with
  | none => .error .hunkLinesEncounteredBeforeHunkHeader
  | some hunk =>
      let text := line.drop 1
      match parser.currentHunkMutationPart with
      | none => .ok { parser with currentHunkMutationPart := some { ty, lines := [text] } }
      | some part =>
          if part.ty = ty then
            .ok { parser with
              currentHunkMutationPart := some { part with lines := part.lines ++ [text] } }
          else
            .ok { parser with
              currentHunk := some { hunk with parts := hunk.parts ++ [part] }
              currentHunkMutationPart := some { ty, lines := [text] } }

def leaveHunks (parser : PatchLinesParser) : PatchLinesParser × Bool :=
  ({ parser with state := .parsingHeader }.commitFilePatch, true)

def readHunkLine (parser : PatchLinesParser) (line : List UInt8) :
    Except ParseErr (PatchLinesParser × Bool) :=
  -- The header of a section of an older kind, unless the hunk still wants lines.
  if startsWith line "--- a/" ∧
      parser.currentHunk.any (·.verifyIntegrity parser.currentHunkMutationPart) then
    .ok parser.leaveHunks
  else
    match line.head? with
    | none => (parser.pushHunkLine .context line).map (·, false)
    | some c =>
        if c = 0x20 ∨ c = 0x0d then (parser.pushHunkLine .context line).map (·, false)
        else if c = 0x2d then (parser.pushHunkLine .deletion line).map (·, false)
        else if c = 0x2b then (parser.pushHunkLine .insertion line).map (·, false)
        else if c = 0x40 then
          (parseHunkHeaderLine line).map fun hunk =>
            ({ parser.commitHunk with
              currentHunk := some { hunk with offset := parser.offset } }, false)
        else if c = 0x5c then
          if !startsWith line "\\ No newline at end of file" then .error .unrecognizedPragma
          else
            match parser.currentHunkMutationPart with
            | none => .error .noNewlineAtEofPragmaEncounteredWithoutContext
            | some part =>
                .ok ({ parser with
                  currentHunkMutationPart := some { part with noNewlineAtEndOfFile := true } },
                  false)
        else .ok parser.leaveHunks

def readLine (parser : PatchLinesParser) (line : List UInt8) :
    Except ParseErr (PatchLinesParser × Bool) :=
  match parser.state with
  | .parsingHeader => parser.readHeaderLine line
  | .parsingHunks => parser.readHunkLine line

def step (parser : PatchLinesParser) (line : List UInt8) : Except ParseErr PatchLinesParser := do
  let (next, again) ← parser.readLine line
  if again then
    let (last, _) ← next.readLine line
    return last
  else return next

def parseLines (parser : PatchLinesParser) (offset : ℕ) :
    List (List UInt8) → Except ParseErrAt PatchLinesParser
  | [] => .ok parser
  | line :: rest =>
      match { parser with offset }.step line with
      | .error err => .error ⟨err, offset⟩
      | .ok next => next.parseLines (offset + line.length + 1) rest

end PatchLinesParser

/-- The lines of the patch; a newline at the end ends the last one. -/
def patchLines (file : List UInt8) : List (List UInt8) :=
  let file := if file.getLast? = some 0x0a then file.dropLast else file
  if file.isEmpty then [] else file.splitOn 0x0a

def PatchLinesParser.parse (file : List UInt8) : Except ParseErrAt PatchLinesParser := do
  let lines := patchLines file
  if lines.isEmpty then return {}
  let parser ← PatchLinesParser.parseLines {} 0 lines
  let parser := parser.commitFilePatch
  match (parser.result.flatMap (·.hunks)).find? fun hunk => !hunk.verifyIntegrity none with
  | some hunk => throw ⟨.hunkHeaderIntegrityCheckFailed, hunk.offset⟩
  | none => return parser

/-! ### The second pass -/

inductive PatchFilePartKind where
  | filePatch
  | fileDeletion
  | fileCreation
  | fileRename
  | fileModeChange
deriving DecidableEq, Repr

def FileDeets.kind (file : FileDeets) : PatchFilePartKind :=
  if file.renameFrom.any (!·.isEmpty) then .fileRename
  else if file.deletedFileMode.any (!·.isEmpty) then .fileDeletion
  else if file.newFileMode.any (!·.isEmpty) then .fileCreation
  else if !file.hunks.isEmpty then .filePatch
  else .fileModeChange

/-- The part that the kind of the section asks for, the destination the other parts go to, and
the hunks that are left. -/
def FileDeets.firstPart (file : FileDeets) :
    Except ParseErr (List PatchFilePart × Option (List UInt8) × List Hunk) :=
  -- The first hunk is moved out and an empty one stays in its place.
  let hunksLeft := match file.hunks with
    | [] => []
    | _ :: rest => {} :: rest
  match file.kind with
  | .fileRename =>
      match file.renameFrom, file.renameTo with
      | some fromPath, some toPath =>
          .ok ([.fileRename ⟨fromPath, toPath⟩], some toPath, file.hunks)
      | _, _ => .error .renameFromAndToNotGive
  | .fileDeletion => do
      let some path := file.fromPath.or file.diffLineFromPath
        | throw .noPathGivenForFileDeletion
      let some mode := parseFileMode (file.deletedFileMode.getD []) | throw .badFileMode
      return ([.fileDeletion ⟨path, mode, file.hunks.head?, file.beforeHash⟩], none, hunksLeft)
  | .fileCreation => do
      if file.isBinary then return ([], none, file.hunks)
      let some path := file.toPath.or file.diffLineToPath | throw .noPathGivenForFileCreation
      let some mode := parseFileMode (file.newFileMode.getD []) | throw .badFileMode
      return ([.fileCreation ⟨path, mode, file.hunks.head?, file.afterHash⟩], none, hunksLeft)
  | .filePatch | .fileModeChange =>
      .ok ([], file.toPath.or file.diffLineToPath, file.hunks)

def FileDeets.modeChange (file : FileDeets) (destination : Option (List UInt8)) :
    Except ParseErr (List PatchFilePart) :=
  match destination, file.oldMode, file.newMode with
  | some path, some oldMode, some newMode =>
      if oldMode = newMode then .ok []
      else
        match parseFileMode oldMode, parseFileMode newMode with
        | some oldMode, some newMode => .ok [.fileModeChange ⟨path, oldMode, newMode⟩]
        | _, _ => .error .badFileMode
  | _, _, _ => .ok []

def FileDeets.secondPass (file : FileDeets) : Except ParseErrAt PatchFile := do
  let located {α : Type} (result : Except ParseErr α) : Except ParseErrAt α :=
    result.mapError fun err => ⟨err, file.offset⟩
  let (first, destination, hunks) ← located file.firstPart
  let change ← located (file.modeChange destination)
  let (patch, hunks) :=
    match destination with
    | some path =>
        if hunks.isEmpty then (([] : List PatchFilePart), hunks)
        else ([.filePatch ⟨path, hunks, file.beforeHash, file.afterHash⟩], [])
    | none => ([], hunks)
  let parts := first ++ change ++ patch
  if parts.isEmpty then
    match hunks.head? with
    | some hunk => throw ⟨.noPathGivenForHunk, hunk.offset⟩
    | none => pure ()
  let isBinary := file.isBinary && file.kind != .fileDeletion
  let skipped : List SkippedSection :=
    if parts.isEmpty || isBinary then [⟨file.offset, file.toPath.or file.diffLineToPath, isBinary⟩]
    else []
  return { parts, skipped }

def patchFileSecondPass (files : List FileDeets) : Except ParseErrAt PatchFile :=
  files.foldlM (fun result file => do
    let added ← file.secondPass
    return { parts := result.parts ++ added.parts, skipped := result.skipped ++ added.skipped }) {}

def parsePatchFile (file : List UInt8) : Except ParseErrAt PatchFile := do
  let parser ← PatchLinesParser.parse file
  patchFileSecondPass parser.result

end Bun.Patch
