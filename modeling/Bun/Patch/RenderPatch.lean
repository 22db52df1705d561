/-
Patch files as git prints them.

A section is printed as its header, with the paths unquoted, and its hunks.  Reading the
texts of the header back gives what was printed: paths that neither begin nor end in
whitespace, the words of the hashes, and the numbers of a hunk.
-/

import Bun.Core.AsciiText
import Bun.Patch.ParsePatch

set_option autoImplicit false

namespace Bun.Patch

open Bun.Semver (ParseIntError parseWithSign isAsciiDigit)

/-! ### Printing -/

def FileMode.text : FileMode → List UInt8
  | .nonExecutable => ascii "100644"
  | .executable => ascii "100755"

def HeaderRange.text (range : HeaderRange) : List UInt8 :=
  if range.len = 1 then decimalText range.start.toNat
  else decimalText range.start.toNat ++ ascii "," ++ decimalText range.len.toNat

/-- The `@@` line; git adds a heading taken from the file. -/
def Header.line (header : Header) (heading : List UInt8) : List UInt8 :=
  ascii "@@ -" ++ header.original.text ++ ascii " +" ++ header.patched.text ++ ascii " @@" ++ heading

def PartType.mark : PartType → UInt8
  | .context => 0x20
  | .insertion => 0x2b
  | .deletion => 0x2d

def PatchMutationPart.render (part : PatchMutationPart) : List (List UInt8) :=
  part.lines.map (part.ty.mark :: ·) ++
    if part.noNewlineAtEndOfFile then [ascii "\\ No newline at end of file"] else []

def Hunk.render (headings : Hunk → List UInt8) (hunk : Hunk) : List (List UInt8) :=
  hunk.header.line (headings hunk) :: hunk.parts.flatMap (·.render)

/-- The modes of a file that stays: unchanged, printed with the hashes, or changed. -/
inductive Modes where
  | kept (mode : FileMode)
  | changed (oldMode newMode : FileMode)
deriving DecidableEq, Repr

structure Hashes where
  before : List UInt8
  after : List UInt8
deriving DecidableEq, Repr

inductive FileSection where
  | patch (path : List UInt8) (modes : Modes) (hashes : Option Hashes) (hunks : List Hunk)
  | modeChange (path : List UInt8) (oldMode newMode : FileMode)
  | creation (path : List UInt8) (mode : FileMode) (hashes : Option Hashes) (hunk : Option Hunk)
  | deletion (path : List UInt8) (mode : FileMode) (hashes : Option Hashes) (hunk : Option Hunk)
  | rename (fromPath toPath : List UInt8) (similarity : ℕ) (modes : Modes)
      (hashes : Option Hashes) (hunks : List Hunk)
deriving DecidableEq, Repr

def diffLine (fromPath toPath : List UInt8) : List UInt8 :=
  ascii "diff --git a/" ++ fromPath ++ ascii " b/" ++ toPath

def pathEnd (path : List UInt8) : List UInt8 :=
  if 0x20 ∈ path then [0x09] else []

def fromLine (path : List UInt8) : List UInt8 :=
  ascii "--- a/" ++ (path ++ pathEnd path)

def toLine (path : List UInt8) : List UInt8 :=
  ascii "+++ b/" ++ (path ++ pathEnd path)

def Modes.render : Modes → List (List UInt8)
  | .kept _ => []
  | .changed oldMode newMode => [ascii "old mode " ++ oldMode.text, ascii "new mode " ++ newMode.text]

def Modes.hashEnd : Modes → List UInt8
  | .kept mode => 0x20 :: mode.text
  | .changed _ _ => []

def indexLine (hashes : Option Hashes) (rest : List UInt8) : List (List UInt8) :=
  hashes.toList.map fun hashes => ascii "index " ++ (hashes.before ++ ascii ".." ++ hashes.after ++ rest)

def FileSection.render (headings : Hunk → List UInt8) : FileSection → List (List UInt8)
  | .patch path modes hashes hunks =>
      diffLine path path :: modes.render ++ indexLine hashes modes.hashEnd ++
        [fromLine path, toLine path] ++ hunks.flatMap (·.render headings)
  | .modeChange path oldMode newMode =>
      diffLine path path :: (Modes.changed oldMode newMode).render
  | .creation path mode hashes hunk =>
      [diffLine path path, ascii "new file mode " ++ mode.text] ++ indexLine hashes [] ++
        match hunk with
        | none => []
        | some hunk => [ascii "--- /dev/null", toLine path] ++ hunk.render headings
  | .deletion path mode hashes hunk =>
      [diffLine path path, ascii "deleted file mode " ++ mode.text] ++ indexLine hashes [] ++
        match hunk with
        | none => []
        | some hunk => [fromLine path, ascii "+++ /dev/null"] ++ hunk.render headings
  | .rename fromPath toPath similarity modes hashes hunks =>
      diffLine fromPath toPath :: modes.render ++
        [ascii "similarity index " ++ (decimalText similarity ++ ascii "%"),
          ascii "rename from " ++ fromPath, ascii "rename to " ++ toPath] ++
        if hunks.isEmpty then []
        else
          indexLine hashes modes.hashEnd ++ [fromLine fromPath, toLine toPath] ++
            hunks.flatMap (·.render headings)

def renderSections (headings : Hunk → List UInt8) (sections : List FileSection) : List UInt8 :=
  (sections.flatMap (·.render headings)).flatMap (· ++ [0x0a])

/-! ### What a section says -/

def Modes.parts (path : List UInt8) : Modes → List PatchFilePart
  | .kept _ => []
  | .changed oldMode newMode => [.fileModeChange ⟨path, oldMode, newMode⟩]

def hunkParts (path : List UInt8) (hashes : Option Hashes) (hunks : List Hunk) :
    List PatchFilePart :=
  if hunks.isEmpty then []
  else [.filePatch ⟨path, hunks, hashes.map (·.before), hashes.map (·.after)⟩]

def FileSection.parts : FileSection → List PatchFilePart
  | .patch path modes hashes hunks => modes.parts path ++ hunkParts path hashes hunks
  | .modeChange path oldMode newMode => [.fileModeChange ⟨path, oldMode, newMode⟩]
  | .creation path mode hashes hunk => [.fileCreation ⟨path, mode, hunk, hashes.map (·.after)⟩]
  | .deletion path mode hashes hunk => [.fileDeletion ⟨path, mode, hunk, hashes.map (·.before)⟩]
  | .rename fromPath toPath _ modes hashes hunks =>
      .fileRename ⟨fromPath, toPath⟩ :: (modes.parts toPath ++ hunkParts toPath hashes hunks)

/-! ### Sections that can be printed -/

/-- A path git prints as it is and that keeps its ends when it is trimmed. -/
structure PlainPath (path : List UInt8) : Prop where
  notEmpty : path ≠ []
  oneLine : 0x0a ∉ path
  start : ∀ c, path.head? = some c → isWhitespace c = false
  stop : ∀ c, path.getLast? = some c → isWhitespace c = false

structure Hashes.WellFormed (hashes : Hashes) : Prop where
  beforeWord : hashes.before ≠ [] ∧ hashes.before.all isWordByte = true
  afterWord : hashes.after ≠ [] ∧ hashes.after.all isWordByte = true

/-- A hunk that can be printed: its header counts its lines, and its parts are the runs of its
lines. -/
structure Hunk.Printable (hunk : Hunk) : Prop where
  counts : hunk.verifyIntegrity none = true
  notEmpty : ∀ part ∈ hunk.parts, part.lines ≠ []
  runs : hunk.parts.IsChain fun part next => part.ty ≠ next.ty
  oneLine : ∀ part ∈ hunk.parts, ∀ line ∈ part.lines, 0x0a ∉ line

def Modes.WellFormed : Modes → Prop
  | .kept _ => True
  | .changed oldMode newMode => oldMode ≠ newMode

def FileSection.hashes : FileSection → Option Hashes
  | .patch _ _ hashes _ => hashes
  | .modeChange _ _ _ => none
  | .creation _ _ hashes _ => hashes
  | .deletion _ _ hashes _ => hashes
  | .rename _ _ _ _ hashes _ => hashes

def FileSection.hunks : FileSection → List Hunk
  | .patch _ _ _ hunks => hunks
  | .modeChange _ _ _ => []
  | .creation _ _ _ hunk => hunk.toList
  | .deletion _ _ _ hunk => hunk.toList
  | .rename _ _ _ _ _ hunks => hunks

def FileSection.paths : FileSection → List (List UInt8)
  | .patch path _ _ _ => [path]
  | .modeChange path _ _ => [path]
  | .creation path _ _ _ => [path]
  | .deletion path _ _ _ => [path]
  | .rename fromPath toPath _ _ _ _ => [fromPath, toPath]

def FileSection.Meaningful : FileSection → Prop
  | .patch _ modes _ hunks => modes.WellFormed ∧ hunks ≠ []
  | .modeChange _ oldMode newMode => oldMode ≠ newMode
  | .creation _ _ _ _ => True
  | .deletion _ _ _ _ => True
  | .rename _ _ _ modes _ _ => modes.WellFormed

structure FileSection.WellFormed (section_ : FileSection) : Prop where
  meaningful : section_.Meaningful
  hashWords : ∀ hashes, section_.hashes = some hashes → hashes.WellFormed
  printable : ∀ hunk ∈ section_.hunks, hunk.Printable

/-! ### Trimming -/

theorem trimRight_append_cons (front back : List UInt8) {c : UInt8}
    (notSpace : isWhitespace c = false) :
    trimRight (front ++ c :: back) = front ++ c :: trimRight back := by
  unfold trimRight List.rdropWhile
  rw [List.reverse_append, List.reverse_cons, List.append_assoc, List.dropWhile_append]
  split
  · rename_i noRest
    rw [List.isEmpty_iff] at noRest
    rw [noRest, List.singleton_append, List.dropWhile_cons_of_neg (by simp [notSpace]),
      List.reverse_cons, List.reverse_reverse]
    rfl
  · rw [List.reverse_append, List.reverse_append, List.reverse_reverse, List.reverse_singleton,
      List.append_assoc]
    rfl

theorem trimRight_spaces {spaces : List UInt8} (blank : spaces.all isWhitespace = true) :
    trimRight spaces = [] := by
  unfold trimRight
  rw [List.rdropWhile_eq_nil_iff]
  exact List.all_eq_true.mp blank

theorem trimRight_append_spaces {text : List UInt8} (spaces : List UInt8)
    (blank : spaces.all isWhitespace = true)
    (notEmpty : text ≠ []) (stop : ∀ c, text.getLast? = some c → isWhitespace c = false) :
    trimRight (text ++ spaces) = text := by
  have isText := List.dropLast_append_getLast notEmpty
  have last := stop _ (List.getLast?_eq_some_getLast notEmpty)
  conv_lhs => rw [← isText, List.append_assoc, List.singleton_append]
  rw [trimRight_append_cons _ _ last, trimRight_spaces blank, isText]

theorem trim_append_spaces {text : List UInt8} (spaces : List UInt8)
    (blank : spaces.all isWhitespace = true)
    (notEmpty : text ≠ []) (start : ∀ c, text.head? = some c → isWhitespace c = false)
    (stop : ∀ c, text.getLast? = some c → isWhitespace c = false) :
    trim (text ++ spaces) = text := by
  unfold trim
  cases text with
  | nil => exact absurd rfl notEmpty
  | cons first rest =>
      rw [List.cons_append, List.dropWhile_cons_of_neg (by simp [start first rfl]),
        ← List.cons_append]
      exact trimRight_append_spaces spaces blank notEmpty stop

namespace PlainPath

variable {path : List UInt8}

theorem trim_eq (plain : PlainPath path) : trim path = path := by
  have trimmed := trim_append_spaces [] rfl plain.notEmpty plain.start plain.stop
  rw [List.append_nil] at trimmed
  exact trimmed

theorem trim_pathEnd (plain : PlainPath path) : trim (path ++ pathEnd path) = path := by
  refine trim_append_spaces _ ?_ plain.notEmpty plain.start plain.stop
  unfold pathEnd
  split
  · rfl
  · rfl

end PlainPath

/-! ### The paths of the first line -/

theorem stripPrefix_append (text : String) (rest : List UInt8) :
    stripPrefix (ascii text ++ rest) text = some rest := by
  have starts : startsWith (ascii text ++ rest) text = true :=
    List.isPrefixOf_iff_prefix.mpr (List.prefix_append _ _)
  unfold stripPrefix
  rw [if_pos starts, List.drop_left]

theorem trimRight_diffLine {toPath : List UInt8} (plain : PlainPath toPath)
    (front : List UInt8) : trimRight (front ++ toPath) = front ++ toPath := by
  have isPath := List.dropLast_append_getLast plain.notEmpty
  have last := plain.stop _ (List.getLast?_eq_some_getLast plain.notEmpty)
  rw [← isPath, ← List.append_assoc, trimRight_append_cons _ [] last]
  rfl

theorem parseDiffLinePaths_same {path : List UInt8} (plain : PlainPath path) :
    parseDiffLinePaths (diffLine path path) = some (path, path) := by
  unfold parseDiffLinePaths diffLine
  rw [List.append_assoc, List.append_assoc, stripPrefix_append]
  have isMiddle : (path ++ (ascii " b/" ++ path)).length - 3 = 2 * path.length := by
    rw [List.length_append, List.length_append, show (ascii " b/").length = 3 from rfl]
    omega
  have trimmed : trimRight (path ++ (ascii " b/" ++ path)) = path ++ (ascii " b/" ++ path) := by
    rw [← List.append_assoc]
    exact trimRight_diffLine plain _
  simp only [Option.bind_eq_bind, Option.bind_some, trimmed, isMiddle,
    Nat.mul_div_cancel_left path.length (Nat.zero_lt_two), List.drop_left, List.take_left,
    stripPrefix_append, if_true]
  cases path with
  | nil => exact absurd rfl plain.notEmpty
  | cons first rest => rfl

theorem parseDiffLinePaths_isSome (fromPath : List UInt8) {toPath : List UInt8}
    (plain : PlainPath toPath) :
    ∃ paths, parseDiffLinePaths (diffLine fromPath toPath) = some paths := by
  unfold parseDiffLinePaths diffLine
  rw [List.append_assoc, List.append_assoc, stripPrefix_append]
  have trimmed : trimRight (fromPath ++ (ascii " b/" ++ toPath)) =
      fromPath ++ (ascii " b/" ++ toPath) := by
    rw [← List.append_assoc]
    exact trimRight_diffLine plain _
  have notEmpty : (fromPath ++ (ascii " b/" ++ toPath)).isEmpty = false := by
    cases fromPath with
    | nil => rfl
    | cons _ _ => rfl
  have isSome : (findPartB (fromPath ++ (ascii " b/" ++ toPath))).isSome = true := by
    unfold findPartB
    rw [List.find?_isSome]
    refine ⟨fromPath.length + 1, ?_, ?_⟩
    · rw [List.mem_range, List.length_append, List.length_append,
        show (ascii " b/").length = 3 from rfl]
      omega
    · have at_ (k : ℕ) : (fromPath ++ (ascii " b/" ++ toPath))[fromPath.length + k]? =
          (ascii " b/" ++ toPath)[k]? := by
        rw [List.getElem?_append_right (Nat.le_add_right _ _), Nat.add_sub_cancel_left]
      rw [at_ 1, Nat.add_assoc, at_ 2, Nat.add_sub_cancel]
      have first := at_ 0
      rw [Nat.add_zero] at first
      rw [first, show ascii " b/" = [0x20, 0x62, 0x2f] from rfl]
      simp
  obtain ⟨i, isB⟩ := Option.isSome_iff_exists.mp isSome
  simp only [Option.bind_eq_bind, Option.bind_some, trimmed, notEmpty,
    Bool.false_eq_true, if_false, isB]
  split
  · exact ⟨_, rfl⟩
  · exact ⟨_, rfl⟩

/-! ### Hashes -/

theorem isWordByte_ne_dot {c : UInt8} (word : isWordByte c = true) : c ≠ 0x2e := by
  rintro rfl
  exact absurd word (by decide)

theorem isWhitespace_of_isWordByte {c : UInt8} (word : isWordByte c = true) :
    isWhitespace c = false := by
  rw [Bool.eq_false_iff]
  intro space
  unfold isWhitespace at space
  simp only [Bool.or_eq_true, beq_iff_eq] at space
  rcases space with ((rfl | rfl) | rfl) | rfl
  · exact absurd word (by decide)
  · exact absurd word (by decide)
  · exact absurd word (by decide)
  · exact absurd word (by decide)

theorem indexOf_dots {word : List UInt8} (isWord : word.all isWordByte = true)
    (rest : List UInt8) : indexOf (word ++ (ascii ".." ++ rest)) (ascii "..") = some word.length := by
  unfold indexOf
  rw [List.find?_range_eq_some]
  refine ⟨?_, ?_, ?_⟩
  · rw [List.drop_left]
    exact List.isPrefixOf_iff_prefix.mpr (List.prefix_append _ _)
  · rw [List.mem_range, List.length_append]
    omega
  · intro i inWord
    rw [List.drop_append_of_le_length inWord.le, List.drop_eq_getElem_cons inWord, List.cons_append]
    have notDot := isWordByte_ne_dot (List.all_eq_true.mp isWord _ (List.getElem_mem inWord))
    have isAscii : ascii ".." = [0x2e, 0x2e] := rfl
    rw [isAscii, List.isPrefixOf]
    have differs : (0x2e == word[i]) = false := by
      rw [beq_eq_false_iff_ne]
      exact notDot.symm
    rw [differs]
    rfl

theorem parseDiffHashes_eq {hashes : Hashes} (wellFormed : hashes.WellFormed)
    {rest : List UInt8} (ends : ∀ c, rest.head? = some c → isWhitespace c = true) :
    parseDiffHashes (hashes.before ++ ascii ".." ++ hashes.after ++ rest) =
      some (hashes.before, hashes.after) := by
  obtain ⟨⟨-, beforeWord⟩, ⟨notEmpty, afterWord⟩⟩ := wellFormed
  have taken : (hashes.after ++ rest).takeWhile (!isWhitespace ·) = hashes.after := by
    rw [List.takeWhile_append_of_pos fun c isIn => by
      rw [isWhitespace_of_isWordByte (List.all_eq_true.mp afterWord c isIn)]
      rfl]
    cases rest with
    | nil => rw [List.takeWhile_nil, List.append_nil]
    | cons c rest => rw [List.takeWhile_cons_of_neg (by simp [ends c rfl]), List.append_nil]
  unfold parseDiffHashes
  rw [List.append_assoc, List.append_assoc, indexOf_dots beforeWord]
  have inside : ¬ hashes.before.length + 2 ≥
      (hashes.before ++ (ascii ".." ++ (hashes.after ++ rest))).length := by
    have := List.length_pos_of_ne_nil notEmpty
    rw [List.length_append, List.length_append, List.length_append,
      show (ascii "..").length = 2 from rfl]
    omega
  have behind : (hashes.before ++ (ascii ".." ++ (hashes.after ++ rest))).drop
      (hashes.before.length + 2) = hashes.after ++ rest := by
    rw [← List.drop_drop, List.drop_left]
    rfl
  simp only [Option.bind_eq_bind, Option.bind_some, List.take_left, beforeWord, Bool.not_true,
    Bool.false_eq_true, if_false, if_neg inside, behind, taken, afterWord, if_true]

/-! ### Numbers -/

theorem parseDecimal_decimalText (n : UInt32) : parseDecimal (decimalText n.toNat) = some n := by
  have digits := Semver.decimalText_digits n.toNat
  have notEmpty := decimalText_ne_nil n.toNat
  have value := decimalValue_decimalText n.toNat
  have bound := n.toNat_lt
  unfold parseDecimal parseInt
  cases isText : decimalText n.toNat with
  | nil => exact absurd isText notEmpty
  | cons first rest =>
      rw [isText] at digits value
      have isDigit := (Semver.isAsciiDigit_iff first).mp (List.all_eq_true.mp digits first
        List.mem_cons_self)
      have notSign : ¬ (first = 0x2b ∨ first = 0x2d) := by
        rintro (rfl | rfl)
        · exact absurd isDigit (by decide)
        · exact absurd isDigit (by decide)
      have noUnderscore : Semver.underscore ∉ first :: rest := fun isIn =>
        Semver.isAsciiDigit_ne_underscore (List.all_eq_true.mp digits _ isIn) rfl
      unfold decimalValue at value
      have parsed : parseWithSign (first :: rest) 10 = .ok n.toNat := by
        rw [Semver.parseWithSign_eq_parseDigits _ (List.cons_ne_nil _ _) noUnderscore,
          Semver.parseDigits_decimal _ 0 (by omega) digits, value, if_pos (by omega)]
      dsimp only
      rw [if_neg notSign, parsed]
      have notNegative : ¬ (first = 0x2d ∧ n.toNat ≠ 0) := fun negative => notSign (Or.inr negative.1)
      change (if first = 0x2d ∧ n.toNat ≠ 0 then _ else _ : Except ParseIntError UInt32).toOption = _
      rw [if_neg notNegative, if_pos bound, UInt32.ofNat_toNat]
      rfl

theorem splitAsciiDigits_append {digits rest : List UInt8}
    (numeric : digits.all isAsciiDigit = true)
    (ends : ∀ c, rest.head? = some c → isAsciiDigit c = false) :
    splitAsciiDigits (digits ++ rest) = (digits, rest) := by
  have each := List.all_eq_true.mp numeric
  unfold splitAsciiDigits
  rw [List.takeWhile_append_of_pos each, List.dropWhile_append_of_pos each]
  cases rest with
  | nil => rw [List.takeWhile_nil, List.dropWhile_nil, List.append_nil]
  | cons c rest =>
      have notDigit := ends c rfl
      rw [List.takeWhile_cons_of_neg (by simp [notDigit]),
        List.dropWhile_cons_of_neg (by simp [notDigit]), List.append_nil]

theorem parseHeaderRange_text (range : HeaderRange) (c : UInt8) (rest : List UInt8) :
    parseHeaderRange (range.text ++ 0x20 :: c :: rest) = .ok (range, 0x20 :: c :: rest) := by
  have spaceEnds : ∀ d, (0x20 :: c :: rest).head? = some d → isAsciiDigit d = false := by
    intro d isHead
    cases isHead
    rfl
  have startsSpace : startsWith (0x20 :: c :: rest) " " = true := rfl
  unfold parseHeaderRange HeaderRange.text
  by_cases single : range.len = 1
  · have noComma : stripPrefix (0x20 :: c :: rest) "," = none := rfl
    rw [if_pos single, splitAsciiDigits_append (Semver.decimalText_digits _) spaceEnds]
    have one : parseDecimal (ascii "1") = some range.len := by
      rw [single]
      decide +kernel
    simp only [List.length_cons, noComma, startsSpace, parseDecimal_decimalText, one,
      Bool.not_true, Bool.false_eq_true, if_false]
    rfl
  · have commaEnds : ∀ d, (ascii "," ++ (decimalText range.len.toNat ++ 0x20 :: c :: rest)).head? =
        some d → isAsciiDigit d = false := by
      intro d isHead
      cases isHead
      rfl
    have long : ¬ (ascii "," ++ (decimalText range.len.toNat ++ 0x20 :: c :: rest)).length < 2 := by
      rw [List.length_append, List.length_append, List.length_cons, List.length_cons,
        show (ascii ",").length = 1 from rfl]
      omega
    rw [if_neg single, List.append_assoc, List.append_assoc,
      splitAsciiDigits_append (Semver.decimalText_digits _) commaEnds]
    simp only [if_neg long, stripPrefix_append,
      splitAsciiDigits_append (Semver.decimalText_digits _) spaceEnds, startsSpace,
      parseDecimal_decimalText, Bool.not_true, Bool.false_eq_true, if_false]
    rfl

/-- A printed `@@` line is read back. -/
theorem parseHunkHeaderLine_line (header : Header) (heading : List UInt8) :
    parseHunkHeaderLine (header.line heading) = .ok { header } := by
  have trimmed : trim (header.line heading) =
      ascii "@@ -" ++ (header.original.text ++ 0x20 :: 0x2b ::
        (header.patched.text ++ 0x20 :: 0x40 :: 0x40 :: trimRight heading)) := by
    unfold trim Header.line
    have notSpace : isWhitespace 0x40 = false := rfl
    have shape : ascii "@@ -" ++ header.original.text ++ ascii " +" ++ header.patched.text ++
        ascii " @@" ++ heading =
          0x40 :: (ascii "@ -" ++ header.original.text ++ ascii " +" ++ header.patched.text ++
            [0x20, 0x40]) ++ 0x40 :: heading := by
      simp only [List.append_assoc, show ascii "@@ -" = 0x40 :: ascii "@ -" from rfl,
        show ascii " @@" = [0x20, 0x40, 0x40] from rfl, List.cons_append, List.nil_append]
    rw [shape, List.cons_append, List.dropWhile_cons_of_neg (by simp [notSpace]),
      ← List.cons_append, trimRight_append_cons _ _ notSpace]
    simp only [List.append_assoc, show ascii "@@ -" = 0x40 :: ascii "@ -" from rfl,
      show ascii " +" = [0x20, 0x2b] from rfl, List.cons_append, List.nil_append]
  unfold parseHunkHeaderLine
  rw [trimmed, stripPrefix_append]
  have plus (rest : List UInt8) : stripPrefix (0x20 :: 0x2b :: rest) " +" = some rest :=
    stripPrefix_append " +" rest
  have closes (rest : List UInt8) : startsWith (0x20 :: 0x40 :: 0x40 :: rest) " @@" = true := rfl
  simp only [parseHeaderRange_text, bind, Except.bind, plus, closes, Bool.not_true,
    Bool.false_eq_true, if_false]
  rfl

/-! ### Modes -/

theorem parseFileMode_text (mode : FileMode) : parseFileMode mode.text = some mode := by
  cases mode with
  | nonExecutable => decide +kernel
  | executable => decide +kernel

theorem FileMode.trim_text (mode : FileMode) : trim mode.text = mode.text := by
  cases mode with
  | nonExecutable => decide
  | executable => decide

theorem FileMode.text_injective {first second : FileMode} (same : first.text = second.text) :
    first = second := by
  have parsed := parseFileMode_text first
  rw [same, parseFileMode_text] at parsed
  exact (Option.some.inj parsed).symm

end Bun.Patch
