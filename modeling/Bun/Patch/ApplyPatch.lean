/-
Patching one file.

Every hunk is placed at or behind the line the one before it reached, as close to where its
header says as its old side matches.  The new lines are collected and the file is written
once, after the last hunk; so a hunk that does not apply leaves the file alone.
-/

import Mathlib.Data.List.Sort
import Mathlib.Algebra.Order.Group.Int
import Bun.Foundation.TextLines
import Bun.Patch.ParsePatch

set_option autoImplicit false

namespace Bun.Patch

open Bun.Foundation

inductive ApplyError where
  /-- `EINVAL` of the read. -/
  | sys
  | hunkDoesNotApply (path : List UInt8) (hunk : ℕ) (line : UInt32)
deriving DecidableEq, Repr

def maxPatchTargetBytes : ℕ := 4 * 1024 * 1024 * 1024

/-! ### Where a hunk matches -/

/-- Compares old lines from the cursor on, without their trailing whitespace, and says where
they end. -/
def matchLines (lines : List (List UInt8)) : List (List UInt8) → ℕ → Option ℕ
  | [], cursor => some cursor
  | patchLine :: rest, cursor =>
      match lines[cursor]? with
      | none => none
      | some fileLine =>
          if trimRight fileLine ≠ trimRight patchLine then none
          else matchLines lines rest (cursor + 1)

def matchParts (lines : List (List UInt8)) : List PatchMutationPart → ℕ → Bool
  | [], _ => true
  | part :: rest, cursor =>
      match part.ty with
      | .insertion => matchParts lines rest cursor
      | .context | .deletion =>
          match matchLines lines part.lines cursor with
          | none => false
          | some next => matchParts lines rest next

def hunkMatchesAt (hunk : Hunk) (lines : List (List UInt8)) (start : ℕ) : Bool :=
  matchParts lines hunk.parts start

/-- One round after another, further away on both sides, forward first. -/
def findHunkPositionFrom (hunk : Hunk) (lines : List (List UInt8)) (expected : ℤ)
    (offset : ℕ) : Option ℕ :=
  let last : ℤ := lines.length
  let forward := expected + offset
  let backward := expected - offset
  if forward > last ∧ backward < 0 then none
  else if (0 ≤ forward ∧ forward ≤ last) ∧ hunkMatchesAt hunk lines forward.toNat then
    some forward.toNat
  else if offset ≠ 0 ∧ (0 ≤ backward ∧ backward ≤ last) ∧
      hunkMatchesAt hunk lines backward.toNat then
    some backward.toNat
  else findHunkPositionFrom hunk lines expected (offset + 1)
termination_by (max (lines.length - expected) expected + 1 - offset).toNat
decreasing_by omega

/-- The index nearest to `expected` where the hunk's old side matches, forward first. -/
def findHunkPosition (hunk : Hunk) (lines : List (List UInt8)) (expected : ℤ) : Option ℕ :=
  findHunkPositionFrom hunk lines (max 0 (min expected lines.length)) 0

/-! ### The hunks, one after another -/

/-- A marker ends its side of the file, so only insertions may follow; a marker on context is
exempt. -/
def misplacedMarker (hunk : Hunk) : Bool :=
  match hunk.parts.findIdx? fun part => part.noNewlineAtEndOfFile && part.ty != .context with
  | none => false
  | some i => (hunk.parts.drop (i + 1)).any (·.ty != .insertion)

def hunkStart (hunk : Hunk) (lines : List (List UInt8)) (lineCursor : ℕ) : Option ℕ :=
  let originalStart := hunk.header.original.start.toNat
  if hunk.header.original.len = 0 then
    if originalStart < lineCursor ∨ originalStart > lines.length then none
    else some originalStart
  else
    (findHunkPosition hunk (lines.drop lineCursor)
      ((originalStart : ℤ) - 1 - lineCursor)).map (lineCursor + ·)

structure Progress where
  patched : List (List UInt8)
  /-- The first old line that is neither copied nor deleted yet. -/
  lineCursor : ℕ
  finalNewline : Bool
deriving DecidableEq, Repr

def applyParts (lines : List (List UInt8)) :
    List PatchMutationPart → List (List UInt8) → ℕ → Option (List (List UInt8) × ℕ)
  | [], patched, lineCursor => some (patched, lineCursor)
  | part :: rest, patched, lineCursor =>
      if part.ty = .insertion then applyParts lines rest (patched ++ part.lines) lineCursor
      else if lineCursor + part.lines.length > lines.length then none
      else
        let old := (lines.drop lineCursor).take part.lines.length
        applyParts lines rest (if part.ty = .context then patched ++ old else patched)
          (lineCursor + old.length)

def endingNewline (hunk : Hunk) : Bool :=
  match hunk.parts.reverse.find? (·.ty != .deletion) with
  | some lastKept => !lastKept.noNewlineAtEndOfFile
  | none => true

def applyHunk (lines : List (List UInt8)) (progress : Progress) (hunk : Hunk) :
    Option Progress := do
  if misplacedMarker hunk then none
  let start ← hunkStart hunk lines progress.lineCursor
  let copied := progress.patched ++
    (lines.drop progress.lineCursor).take (start - progress.lineCursor)
  let (patched, lineCursor) ← applyParts lines hunk.parts copied start
  some {
    patched
    lineCursor
    finalNewline :=
      if lineCursor = lines.length then endingNewline hunk else progress.finalNewline }

def applyHunks (path : List UInt8) (lines : List (List UInt8)) :
    List (Hunk × ℕ) → Progress → Except ApplyError Progress
  | [], progress => .ok progress
  | (hunk, hunkIndex) :: rest, progress =>
      match applyHunk lines progress hunk with
      | none => .error (.hunkDoesNotApply path (hunkIndex + 1) hunk.header.original.start)
      | some next => applyHunks path lines rest next

/-- The lines of a file and whether it ends in a newline: the empty text behind the last
newline is not a line. -/
def splitLines (content : List UInt8) : List (List UInt8) × Bool :=
  let lines := content.splitOn 0x0a
  if lines.getLast? = some [] then (lines.dropLast, true) else (lines, false)

/-- What the function returns and what the file holds afterwards. -/
def applyPatch (patch : FilePatch) (content : List UInt8) :
    Except ApplyError Unit × List UInt8 :=
  if content.length > maxPatchTargetBytes then (.error .sys, content)
  else
    let (lines, finalNewline) := splitLines content
    let hunks := patch.hunks.zipIdx.insertionSort
      fun a b => a.1.header.original.start ≤ b.1.header.original.start
    match applyHunks patch.path lines hunks ⟨[], 0, finalNewline⟩ with
    | .error error => (.error error, content)
    | .ok progress =>
        let patched := progress.patched ++ lines.drop progress.lineCursor
        (.ok (), [0x0a].intercalate (if progress.finalNewline then patched ++ [[]] else patched))

/-! ### Finding the place of a hunk -/

/-- `p` is nearer to the expected line than `q`, or as near and further forward. -/
def Nearer (expected : ℤ) (p q : ℕ) : Prop :=
  ((p : ℤ) - expected).natAbs < ((q : ℤ) - expected).natAbs ∨
    ((p : ℤ) - expected).natAbs = ((q : ℤ) - expected).natAbs ∧ q ≤ p

/-- The search goes outwards, so it ends at the nearest match if there is one. -/
theorem findHunkPositionFrom_nearest (hunk : Hunk) (lines : List (List UInt8)) (expected : ℤ)
    (inside : 0 ≤ expected ∧ expected ≤ lines.length) (offset : ℕ)
    (tried : ∀ q ≤ lines.length, ((q : ℤ) - expected).natAbs < offset →
      hunkMatchesAt hunk lines q = false) :
    match findHunkPositionFrom hunk lines expected offset with
    | some p => p ≤ lines.length ∧ hunkMatchesAt hunk lines p = true ∧
        ∀ q ≤ lines.length, hunkMatchesAt hunk lines q = true → Nearer expected p q
    | none => ∀ q ≤ lines.length, hunkMatchesAt hunk lines q = false := by
  fun_induction findHunkPositionFrom hunk lines expected offset with
  | case1 offset last forward backward outside =>
      intro q isIn
      exact tried q isIn (by omega)
  | case2 offset last forward backward notOutside found =>
      refine ⟨by omega, found.2, ?_⟩
      intro q isIn isMatch
      unfold Nearer
      have notNearer : ¬ ((q : ℤ) - expected).natAbs < offset := fun near => by
        rw [tried q isIn near] at isMatch
        cases isMatch
      omega
  | case3 offset last forward backward notOutside notForward found =>
      refine ⟨by omega, found.2.2, ?_⟩
      intro q isIn isMatch
      unfold Nearer
      have notNearer : ¬ ((q : ℤ) - expected).natAbs < offset := fun near => by
        rw [tried q isIn near] at isMatch
        cases isMatch
      have notThere : q ≠ forward.toNat := by
        rintro rfl
        exact notForward ⟨by omega, isMatch⟩
      omega
  | case4 offset last forward backward notOutside notForward notBackward ih =>
      refine ih ?_
      intro q isIn near
      by_cases before : ((q : ℤ) - expected).natAbs < offset
      · exact tried q isIn before
      · rw [Bool.eq_false_iff]
        intro isMatch
        have here : q = forward.toNat ∨ offset ≠ 0 ∧ q = backward.toNat := by omega
        rcases here with rfl | ⟨notFirst, rfl⟩
        · exact notForward ⟨by omega, isMatch⟩
        · exact notBackward ⟨notFirst, by omega, isMatch⟩

/-! ### The old side of parts -/

def originalLength (parts : List PatchMutationPart) : ℕ :=
  (parts.map (·.originalLength)).sum

theorem matchLines_drop (lines : List (List UInt8)) (cursor : ℕ) (patchLines : List (List UInt8))
    (start : ℕ) : matchLines (lines.drop cursor) patchLines start =
      (matchLines lines patchLines (cursor + start)).map (· - cursor) := by
  induction patchLines generalizing start with
  | nil => simp [matchLines]
  | cons patchLine rest ih =>
      unfold matchLines
      rw [List.getElem?_drop]
      cases lines[cursor + start]? with
      | none => rfl
      | some fileLine =>
          dsimp only
          split
          · rfl
          · exact ih (start + 1)

theorem matchLines_some {lines patchLines : List (List UInt8)} {start next : ℕ}
    (isMatch : matchLines lines patchLines start = some next) :
    next = start + patchLines.length ∧ (patchLines ≠ [] → next ≤ lines.length) := by
  induction patchLines generalizing start with
  | nil =>
      unfold matchLines at isMatch
      cases isMatch
      exact ⟨rfl, fun notEmpty => absurd rfl notEmpty⟩
  | cons patchLine rest ih =>
      unfold matchLines at isMatch
      cases isLine : lines[start]? with
      | none =>
          rw [isLine] at isMatch
          cases isMatch
      | some fileLine =>
          rw [isLine] at isMatch
          dsimp only at isMatch
          split at isMatch
          · cases isMatch
          · obtain ⟨isNext, fits⟩ := ih isMatch
            have inside := (List.getElem?_eq_some_iff.mp isLine).1
            rw [List.length_cons]
            refine ⟨by omega, fun _ => ?_⟩
            cases rest with
            | nil =>
                rw [List.length_nil] at isNext
                omega
            | cons _ _ => exact fits (by simp)

theorem matchParts_drop (lines : List (List UInt8)) (cursor : ℕ)
    (parts : List PatchMutationPart) (start : ℕ) :
    matchParts (lines.drop cursor) parts start = matchParts lines parts (cursor + start) := by
  induction parts generalizing start with
  | nil => rfl
  | cons part rest ih =>
      have compared : (match matchLines (lines.drop cursor) part.lines start with
          | none => false
          | some next => matchParts (lines.drop cursor) rest next) =
          match matchLines lines part.lines (cursor + start) with
          | none => false
          | some next => matchParts lines rest next := by
        rw [matchLines_drop]
        cases isMatch : matchLines lines part.lines (cursor + start) with
        | none => rfl
        | some next =>
            have isNext := (matchLines_some isMatch).1
            rw [Option.map_some]
            dsimp only
            rw [ih, Nat.add_sub_cancel' (by omega)]
      unfold matchParts
      cases part.ty with
      | insertion => exact ih start
      | context => exact compared
      | deletion => exact compared

theorem fits_of_matchParts {lines : List (List UInt8)} {parts : List PatchMutationPart}
    {start : ℕ} (isMatch : matchParts lines parts start = true)
    (inside : start ≤ lines.length) : start + originalLength parts ≤ lines.length := by
  induction parts generalizing start with
  | nil => exact inside
  | cons part rest ih =>
      have compared (matched : (match matchLines lines part.lines start with
          | none => false
          | some next => matchParts lines rest next) = true) :
          start + (part.lines.length + originalLength rest) ≤ lines.length := by
        cases isNext : matchLines lines part.lines start with
        | none =>
            rw [isNext] at matched
            cases matched
        | some next =>
            rw [isNext] at matched
            obtain ⟨nextEq, fits⟩ := matchLines_some isNext
            have nextInside : next ≤ lines.length := by
              cases noLines : part.lines with
              | nil =>
                  rw [noLines, List.length_nil] at nextEq
                  omega
              | cons _ _ => exact fits (by simp [noLines])
            have later := ih matched nextInside
            omega
      unfold matchParts at isMatch
      unfold originalLength at compared ⊢
      rw [List.map_cons, List.sum_cons]
      unfold PatchMutationPart.originalLength
      cases isType : part.ty with
      | insertion =>
          rw [isType] at isMatch
          have later := ih isMatch inside
          unfold originalLength at later
          dsimp only
          rw [Nat.zero_add]
          exact later
      | context =>
          rw [isType] at isMatch
          exact compared isMatch
      | deletion =>
          rw [isType] at isMatch
          exact compared isMatch

theorem matchLines_of_front {lines patchLines : List (List UInt8)} {start : ℕ}
    (same : patchLines <+: lines.drop start) :
    matchLines lines patchLines start = some (start + patchLines.length) := by
  induction patchLines generalizing start with
  | nil => rfl
  | cons patchLine rest ih =>
      obtain ⟨behind, isLines⟩ := same
      have here : lines[start]? = some patchLine := by
        rw [← Nat.add_zero start, ← List.getElem?_drop, ← isLines]
        rfl
      have later : rest <+: lines.drop (start + 1) := by
        refine ⟨behind, ?_⟩
        rw [← List.drop_drop, ← isLines]
        rfl
      unfold matchLines
      rw [here, ih later, List.length_cons]
      dsimp only
      rw [if_neg (by simp)]
      congr 1
      omega

def originalTexts (parts : List PatchMutationPart) : List (List UInt8) :=
  parts.flatMap fun part => if part.ty = .insertion then [] else part.lines

theorem originalTexts_length (parts : List PatchMutationPart) :
    (originalTexts parts).length = originalLength parts := by
  induction parts with
  | nil => rfl
  | cons part rest ih =>
      unfold originalTexts originalLength at ih ⊢
      rw [List.flatMap_cons, List.length_append, ih, List.map_cons, List.sum_cons]
      unfold PatchMutationPart.originalLength
      cases part.ty with
      | insertion => rfl
      | context => rfl
      | deletion => rfl

theorem matchParts_of_prefix {lines : List (List UInt8)} {parts : List PatchMutationPart}
    {start : ℕ} (same : originalTexts parts <+: lines.drop start) :
    matchParts lines parts start = true := by
  induction parts generalizing start with
  | nil => rfl
  | cons part rest ih =>
      have compared (old : part.lines ++ originalTexts rest <+: lines.drop start) :
          (match matchLines lines part.lines start with
          | none => false
          | some next => matchParts lines rest next) = true := by
        rw [matchLines_of_front ((List.prefix_append _ _).trans old)]
        refine ih ?_
        obtain ⟨behind, isLines⟩ := old
        rw [← List.drop_drop, ← isLines, List.append_assoc, List.drop_left]
        exact List.prefix_append _ _
      unfold originalTexts at same compared
      rw [List.flatMap_cons] at same
      unfold matchParts
      cases isType : part.ty with
      | insertion =>
          rw [isType] at same
          exact ih same
      | context =>
          rw [isType] at same
          exact compared same
      | deletion =>
          rw [isType] at same
          exact compared same

/-! ### Applying parts -/

/-- The texts of the new side, where context is copied from the old file. -/
theorem applyParts_of_fits {lines : List (List UInt8)} {parts : List PatchMutationPart}
    {cursor : ℕ} (fits : cursor + originalLength parts ≤ lines.length)
    (patched : List (List UInt8)) :
    ∃ added, applyParts lines parts patched cursor =
      some (patched ++ added, cursor + originalLength parts) := by
  induction parts generalizing cursor patched with
  | nil => exact ⟨[], by simp [applyParts, originalLength]⟩
  | cons part rest ih =>
      unfold originalLength at fits ih ⊢
      rw [List.map_cons, List.sum_cons] at fits ⊢
      unfold applyParts
      by_cases inserted : part.ty = .insertion
      · have noOld : part.originalLength = 0 := by
          unfold PatchMutationPart.originalLength
          rw [inserted]
        rw [if_pos inserted]
        have later : cursor + (rest.map (·.originalLength)).sum ≤ lines.length := by omega
        obtain ⟨added, isAdded⟩ := ih later (patched ++ part.lines)
        refine ⟨part.lines ++ added, ?_⟩
        rw [isAdded, noOld, Nat.zero_add, List.append_assoc]
      · have old : part.originalLength = part.lines.length := by
          unfold PatchMutationPart.originalLength
          cases isType : part.ty with
          | insertion => exact absurd isType inserted
          | context => rfl
          | deletion => rfl
        have taken : ((lines.drop cursor).take part.lines.length).length = part.lines.length := by
          rw [List.length_take, List.length_drop]
          omega
        have later : cursor + part.lines.length + (rest.map (·.originalLength)).sum ≤
            lines.length := by omega
        rw [if_neg inserted, if_neg (by omega)]
        dsimp only
        rw [taken, old, ← Nat.add_assoc]
        by_cases kept : part.ty = .context
        · rw [if_pos kept]
          obtain ⟨added, isAdded⟩ :=
            ih later (patched ++ (lines.drop cursor).take part.lines.length)
          refine ⟨(lines.drop cursor).take part.lines.length ++ added, ?_⟩
          rw [isAdded, List.append_assoc]
        · rw [if_neg kept]
          exact ih later patched

def patchedTexts (parts : List PatchMutationPart) : List (List UInt8) :=
  parts.flatMap fun part => if part.ty = .deletion then [] else part.lines

theorem applyParts_of_prefix {lines : List (List UInt8)} {parts : List PatchMutationPart}
    {cursor : ℕ} (inside : cursor ≤ lines.length)
    (same : originalTexts parts <+: lines.drop cursor) (patched : List (List UInt8)) :
    applyParts lines parts patched cursor =
      some (patched ++ patchedTexts parts, cursor + originalLength parts) := by
  induction parts generalizing cursor patched with
  | nil => simp [applyParts, patchedTexts, originalLength]
  | cons part rest ih =>
      unfold applyParts
      unfold originalTexts patchedTexts originalLength at *
      rw [List.flatMap_cons] at same ⊢
      rw [List.map_cons, List.sum_cons]
      by_cases inserted : part.ty = .insertion
      · rw [if_pos inserted, List.nil_append] at same
        rw [if_pos inserted, ih inside same, if_neg (by rw [inserted]; decide), List.append_assoc]
        unfold PatchMutationPart.originalLength
        rw [inserted, Nat.zero_add]
      · rw [if_neg inserted] at same
        have old : part.originalLength = part.lines.length := by
          unfold PatchMutationPart.originalLength
          cases isType : part.ty with
          | insertion => exact absurd isType inserted
          | context => rfl
          | deletion => rfl
        have fits := same.length_le
        rw [List.length_append, List.length_drop] at fits
        obtain ⟨behind, isLines⟩ := same
        have taken : (lines.drop cursor).take part.lines.length = part.lines := by
          rw [← isLines, List.append_assoc, List.take_left]
        have insideLater : cursor + part.lines.length ≤ lines.length := by omega
        have later := ih insideLater ⟨behind, by
          rw [← List.drop_drop, ← isLines, List.append_assoc, List.drop_left]⟩
        rw [if_neg inserted, if_neg (by omega)]
        dsimp only
        rw [taken, later, old]
        by_cases kept : part.ty = .context
        · rw [if_pos kept, if_neg (by rw [kept]; decide), List.append_assoc, Nat.add_assoc]
        · have deleted : part.ty = .deletion := by
            cases isType : part.ty with
            | insertion => exact absurd isType inserted
            | context => exact absurd isType kept
            | deletion => rfl
          rw [if_neg kept, if_pos deleted, List.nil_append, Nat.add_assoc]

end Bun.Patch
