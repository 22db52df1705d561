/-
What a patch says the new file holds.

A patch is read against the lines of the old file: every hunk covers the lines its old side
lists and puts its new side in their place, and everything between the hunks is kept.  Lines
carry whether a newline follows them, so a marker is part of what a side says.
-/

import Bun.Patch.ApplyPatch

set_option autoImplicit false

namespace Bun.Patch

open Bun.Foundation

def fileLines (content : List UInt8) : List (TextLine UInt8) :=
  TextLine.ofTexts (splitLines content).1 (splitLines content).2

theorem fileLines_texts (content : List UInt8) :
    (fileLines content).map (·.text) = (splitLines content).1 :=
  TextLine.ofTexts_texts _ _

theorem fileLines_whole (content : List UInt8) : TextLine.Whole (fileLines content) :=
  TextLine.ofTexts_whole _ _

theorem endsTerminated_fileLines (content : List UInt8) :
    TextLine.endsTerminated (fileLines content) = (splitLines content).2 := by
  unfold fileLines
  by_cases noLines : (splitLines content).1 = []
  · have isTerminated : (splitLines content).2 = true := by
      unfold splitLines at noLines ⊢
      dsimp only at noLines ⊢
      split
      · rfl
      · rename_i notEmpty
        rw [if_neg notEmpty] at noLines
        exact absurd noLines (List.splitOn_ne_nil _ _)
    rw [noLines, isTerminated]
    rfl
  · exact TextLine.endsTerminated_ofTexts noLines _

/-! ### The two sides of a hunk -/

namespace PatchMutationPart

/-- The lines of a part; a marker takes the newline from the last one. -/
def textLines (part : PatchMutationPart) : List (TextLine UInt8) :=
  TextLine.ofTexts part.lines (!part.noNewlineAtEndOfFile)

def oldSide (part : PatchMutationPart) : List (TextLine UInt8) :=
  if part.ty = .insertion then [] else part.textLines

def newSide (part : PatchMutationPart) : List (TextLine UInt8) :=
  if part.ty = .deletion then [] else part.textLines

end PatchMutationPart

namespace Hunk

def oldSide (hunk : Hunk) : List (TextLine UInt8) :=
  hunk.parts.flatMap (·.oldSide)

def newSide (hunk : Hunk) : List (TextLine UInt8) :=
  hunk.parts.flatMap (·.newSide)

/-- How many old lines stand before the hunk: a header counts lines from one, and a side
without lines is named by the line before it. -/
def place (hunk : Hunk) : ℕ :=
  if hunk.header.original.len = 0 then hunk.header.original.start.toNat
  else hunk.header.original.start.toNat - 1

/-- How many old lines stand before what follows the hunk. -/
def placeBehind (hunk : Hunk) : ℕ :=
  hunk.place + hunk.oldSide.length

structure WellFormed (hunk : Hunk) : Prop where
  counts : hunk.verifyIntegrity none = true
  notEmpty : ∀ part ∈ hunk.parts, part.lines ≠ []

end Hunk

/-- From line `cursor` of the old file on, the hunks describe these new lines: they stand in
order, do not overlap, and each finds its old side at its place. -/
inductive Describes (old : List (TextLine UInt8)) :
    ℕ → List Hunk → List (TextLine UInt8) → Prop
  | done (cursor : ℕ) : Describes old cursor [] (old.drop cursor)
  | hunk {cursor : ℕ} {hunk : Hunk} {rest : List Hunk} {new : List (TextLine UInt8)}
      (inOrder : cursor ≤ hunk.place)
      (inside : hunk.place ≤ old.length)
      (same : hunk.oldSide <+: old.drop hunk.place)
      (later : Describes old hunk.placeBehind rest new) :
      Describes old cursor (hunk :: rest)
        ((old.drop cursor).take (hunk.place - cursor) ++ (hunk.newSide ++ new))

/-! ### Sides and counts -/

theorem originalTexts_eq (hunk : Hunk) :
    originalTexts hunk.parts = hunk.oldSide.map (·.text) := by
  unfold originalTexts Hunk.oldSide
  rw [List.map_flatMap]
  congr 1
  funext part
  unfold PatchMutationPart.oldSide PatchMutationPart.textLines
  split
  · rfl
  · rw [TextLine.ofTexts_texts]

theorem patchedTexts_eq (hunk : Hunk) :
    patchedTexts hunk.parts = hunk.newSide.map (·.text) := by
  unfold patchedTexts Hunk.newSide
  rw [List.map_flatMap]
  congr 1
  funext part
  unfold PatchMutationPart.newSide PatchMutationPart.textLines
  split
  · rfl
  · rw [TextLine.ofTexts_texts]

theorem originalLength_eq (hunk : Hunk) : originalLength hunk.parts = hunk.oldSide.length := by
  rw [← originalTexts_length, originalTexts_eq, List.length_map]

theorem Hunk.WellFormed.originalLength_eq_len {hunk : Hunk} (wellFormed : hunk.WellFormed) :
    originalLength hunk.parts = hunk.header.original.len.toNat := by
  have counts := wellFormed.counts
  unfold Hunk.verifyIntegrity at counts
  simp only [Option.toList_none, List.append_nil, Bool.and_eq_true, beq_iff_eq] at counts
  exact counts.1

theorem hunkStart_of_same {hunk : Hunk} {lines : List (List UInt8)} {cursor : ℕ}
    (inOrder : cursor ≤ hunk.place) (inside : hunk.place ≤ lines.length)
    (same : originalTexts hunk.parts <+: lines.drop hunk.place) :
    hunkStart hunk lines cursor = some hunk.place := by
  unfold hunkStart
  unfold Hunk.place at *
  dsimp only
  by_cases noOld : hunk.header.original.len = 0
  · rw [if_pos noOld] at inOrder inside
    rw [if_pos noOld, if_neg (by omega), if_pos noOld]
  · rw [if_neg noOld] at inOrder inside same
    rw [if_neg noOld, if_neg noOld]
    have here : hunkMatchesAt hunk (lines.drop cursor)
        (hunk.header.original.start.toNat - 1 - cursor) = true := by
      unfold hunkMatchesAt
      rw [matchParts_drop, Nat.add_sub_cancel' inOrder]
      exact matchParts_of_prefix same
    unfold findHunkPosition
    rw [List.length_drop]
    have expected : max 0 (min ((hunk.header.original.start.toNat : ℤ) - 1 - cursor)
        ((lines.length - cursor : ℕ) : ℤ)) =
          ((hunk.header.original.start.toNat - 1 - cursor : ℕ) : ℤ) := by
      omega
    rw [expected, findHunkPositionFrom]
    rw [List.length_drop, show ((0 : ℕ) : ℤ) = 0 from rfl, Int.add_zero, Int.toNat_natCast,
      if_neg (by omega), if_pos ⟨by omega, here⟩, Option.map_some,
      Nat.add_sub_cancel' inOrder]

/-! ### Markers -/

def Hunk.DeletesBehindEnd (hunk : Hunk) : Prop :=
  ∃ before part after, hunk.parts = before ++ part :: after ∧ part.ty = .insertion ∧
    part.noNewlineAtEndOfFile = true ∧ ∃ later ∈ after, later.ty = .deletion

theorem sides_behind {α : Type} {parts : List α} {side : α → List (TextLine UInt8)}
    {lines behind : List (TextLine UInt8)} (whole : TextLine.Whole (lines ++ behind))
    {front after : List α} {part : α} (isParts : parts = front ++ part :: after)
    (isLines : lines = parts.flatMap side) {line : TextLine UInt8}
    (isIn : line ∈ side part) (cut : line.terminated = false) :
    behind = [] ∧ ∀ later ∈ after, side later = [] := by
  rw [isLines, isParts, List.flatMap_append, List.flatMap_cons, List.append_assoc,
    List.append_assoc, ← List.append_assoc] at whole
  have nothing := whole.eq_nil_of_unterminated (List.mem_append_right _ isIn) cut
  rw [List.append_eq_nil_iff] at nothing
  exact ⟨nothing.2, fun later inAfter => List.flatMap_eq_nil_iff.mp nothing.1 later inAfter⟩

theorem exists_cut {part : PatchMutationPart} (notEmpty : part.lines ≠ [])
    (marked : part.noNewlineAtEndOfFile = true) :
    ∃ line ∈ part.textLines, line.terminated = false := by
  unfold PatchMutationPart.textLines
  rw [marked]
  exact TextLine.exists_unterminated_ofTexts notEmpty

theorem textLines_ne_nil {part : PatchMutationPart} (notEmpty : part.lines ≠ []) :
    part.textLines ≠ [] := by
  intro noLines
  have texts := TextLine.ofTexts_texts part.lines (!part.noNewlineAtEndOfFile)
  unfold PatchMutationPart.textLines at noLines
  rw [noLines] at texts
  exact notEmpty texts.symm

/-- The markers of a hunk that lies at its place are where they belong, unless an inserted
line ends the file before a deletion. -/
theorem misplacedMarker_of_described {hunk : Hunk} (wellFormed : hunk.WellFormed)
    {oldBefore oldBehind newBefore newBehind : List (TextLine UInt8)}
    (oldWhole : TextLine.Whole (oldBefore ++ (hunk.oldSide ++ oldBehind)))
    (newWhole : TextLine.Whole (newBefore ++ (hunk.newSide ++ newBehind)))
    (inOrder : ¬ hunk.DeletesBehindEnd) : misplacedMarker hunk = false := by
  unfold misplacedMarker
  split
  · rfl
  · rename_i i isMarked
    rw [List.findIdx?_eq_some_iff_getElem] at isMarked
    obtain ⟨inside, isMarked, _⟩ := isMarked
    rw [Bool.and_eq_true, bne_iff_ne] at isMarked
    have isParts : hunk.parts = hunk.parts.take i ++ hunk.parts[i] :: hunk.parts.drop (i + 1) := by
      rw [List.getElem_cons_drop, List.take_append_drop]
    have notEmpty := wellFormed.notEmpty _ (List.getElem_mem inside)
    obtain ⟨line, isIn, cut⟩ := exists_cut notEmpty isMarked.1
    rw [List.any_eq_false]
    intro later inAfter
    have laterNotEmpty := textLines_ne_nil
      (wellFormed.notEmpty later (List.mem_of_mem_drop inAfter))
    cases isType : hunk.parts[i].ty with
    | context => exact absurd isType isMarked.2
    | deletion =>
        have onOld : line ∈ hunk.parts[i].oldSide := by
          unfold PatchMutationPart.oldSide
          rw [isType, if_neg (by decide)]
          exact isIn
        have noOld := (sides_behind oldWhole.of_append_right isParts rfl onOld cut).2 later inAfter
        unfold PatchMutationPart.oldSide at noOld
        intro notInserted
        rw [if_neg (by simpa using notInserted)] at noOld
        exact laterNotEmpty noOld
    | insertion =>
        have onNew : line ∈ hunk.parts[i].newSide := by
          unfold PatchMutationPart.newSide
          rw [isType, if_neg (by decide)]
          exact isIn
        have noNew := (sides_behind newWhole.of_append_right isParts rfl onNew cut).2 later inAfter
        unfold PatchMutationPart.newSide at noNew
        by_cases deleted : later.ty = .deletion
        · exact absurd ⟨_, _, _, isParts, isType, isMarked.1, later, inAfter, deleted⟩ inOrder
        · rw [if_neg deleted] at noNew
          exact absurd noNew laterNotEmpty

theorem endingNewline_eq {hunk : Hunk} (notEmpty : ∀ part ∈ hunk.parts, part.lines ≠ []) :
    endingNewline hunk = TextLine.endsTerminated hunk.newSide := by
  unfold endingNewline Hunk.newSide
  generalize hunk.parts = parts at notEmpty
  induction parts using List.reverseRecOn with
  | nil => rfl
  | append_singleton front part ih =>
      rw [List.reverse_append, List.reverse_singleton, List.singleton_append, List.flatMap_append,
        List.flatMap_singleton]
      by_cases deleted : part.ty = .deletion
      · rw [List.find?_cons_of_neg (by simp [deleted])]
        unfold PatchMutationPart.newSide at ih ⊢
        rw [if_pos deleted, List.append_nil]
        exact ih fun earlier isIn => notEmpty earlier (List.mem_append_left _ isIn)
      · have here := notEmpty part (List.mem_append_right _ List.mem_cons_self)
        have isNew : part.newSide = part.textLines := if_neg deleted
        rw [List.find?_cons_of_pos (by simp [deleted]), isNew,
          TextLine.endsTerminated_append (textLines_ne_nil here)]
        exact (TextLine.endsTerminated_ofTexts here _).symm

/-! ### Whole patches -/

namespace Describes

variable {old : List (TextLine UInt8)}

theorem placeBehind_le {hunk : Hunk} (inside : hunk.place ≤ old.length)
    (same : hunk.oldSide <+: old.drop hunk.place) : hunk.placeBehind ≤ old.length := by
  have fits := same.length_le
  rw [List.length_drop] at fits
  unfold Hunk.placeBehind
  omega

theorem le_placeBehind {cursor : ℕ} {hunks : List Hunk} {new : List (TextLine UInt8)}
    (described : Describes old cursor hunks new) {hunk : Hunk} (isIn : hunk ∈ hunks) :
    cursor ≤ hunk.placeBehind ∧ hunk.placeBehind ≤ old.length := by
  induction described with
  | done => cases isIn
  | hunk inOrder inside same later ih =>
      rcases List.mem_cons.mp isIn with rfl | isLater
      · refine ⟨?_, placeBehind_le inside same⟩
        unfold Hunk.placeBehind
        omega
      · have behind := ih isLater
        unfold Hunk.placeBehind at behind ⊢
        omega

theorem ends {cursor : ℕ} {hunks : List Hunk} {new : List (TextLine UInt8)}
    (described : Describes old cursor hunks new) {last : Hunk} (isLast : hunks.getLast? = some last) :
    ∃ front, new = front ++ (last.newSide ++ old.drop last.placeBehind) := by
  induction described with
  | done => cases isLast
  | @hunk cursor hunk rest new inOrder inside same later ih =>
      cases later with
      | done =>
          rw [List.getLast?_singleton] at isLast
          cases isLast
          exact ⟨_, rfl⟩
      | hunk inOrder' inside' same' later' =>
          rw [List.getLast?_cons_cons] at isLast
          obtain ⟨front, isNew⟩ := ih isLast
          rw [isNew, ← List.append_assoc, ← List.append_assoc _ front]
          exact ⟨_, rfl⟩

theorem pairwise_start {cursor : ℕ} {hunks : List Hunk} {new : List (TextLine UInt8)}
    (described : Describes old cursor hunks new)
    (wellFormed : ∀ hunk ∈ hunks, hunk.WellFormed) :
    (∀ hunk ∈ hunks, cursor ≤ hunk.header.original.start.toNat) ∧
      hunks.Pairwise fun a b => a.header.original.start ≤ b.header.original.start := by
  induction described with
  | done =>
      refine ⟨?_, List.Pairwise.nil⟩
      intro hunk isIn
      cases isIn
  | @hunk cursor hunk rest new inOrder inside same later ih =>
      obtain ⟨behind, ordered⟩ := ih fun next isIn => wellFormed next (List.mem_cons_of_mem _ isIn)
      have counts := (wellFormed hunk List.mem_cons_self).originalLength_eq_len
      rw [originalLength_eq] at counts
      have reaches : cursor ≤ hunk.header.original.start.toNat ∧
          hunk.header.original.start.toNat ≤ hunk.placeBehind := by
        unfold Hunk.placeBehind
        unfold Hunk.place at inOrder ⊢
        by_cases noOld : hunk.header.original.len = 0
        · rw [if_pos noOld] at inOrder ⊢
          omega
        · have someOld : hunk.header.original.len.toNat ≠ 0 := fun isZero =>
            noOld (UInt32.toNat_inj.mp isZero)
          rw [if_neg noOld] at inOrder ⊢
          omega
      refine ⟨?_, List.pairwise_cons.mpr ⟨?_, ordered⟩⟩
      · intro next isIn
        rcases List.mem_cons.mp isIn with rfl | isLater
        · exact reaches.1
        · have := behind next isLater
          omega
      · intro next isLater
        exact UInt32.le_iff_toNat_le.mpr (reaches.2.trans (behind next isLater))

end Describes

theorem applyHunk_of_described {old : List (TextLine UInt8)} {hunk : Hunk} {progress : Progress}
    (inOrder : progress.lineCursor ≤ hunk.place) (inside : hunk.place ≤ old.length)
    (same : hunk.oldSide <+: old.drop hunk.place) (marked : misplacedMarker hunk = false) :
    applyHunk (old.map (·.text)) progress hunk =
      some {
        patched := progress.patched ++ (((old.drop progress.lineCursor).take
          (hunk.place - progress.lineCursor) ++ hunk.newSide).map (·.text))
        lineCursor := hunk.placeBehind
        finalNewline :=
          if hunk.placeBehind = old.length then endingNewline hunk
          else progress.finalNewline } := by
  have texts : originalTexts hunk.parts <+: (old.map (·.text)).drop hunk.place := by
    rw [originalTexts_eq, ← List.map_drop]
    exact same.map _
  have insideTexts : hunk.place ≤ (old.map (·.text)).length := by
    rw [List.length_map]
    exact inside
  unfold applyHunk
  rw [marked, hunkStart_of_same inOrder insideTexts texts]
  simp only [Bool.false_eq_true, if_false, Option.bind_eq_bind, Option.bind_some,
    applyParts_of_prefix insideTexts texts]
  rw [patchedTexts_eq, originalLength_eq, List.length_map, ← List.map_drop, ← List.map_take,
    List.map_append, List.append_assoc]
  rfl

/-- All the hunks of a described patch: what they write, and the newline they leave. -/
theorem applyHunks_of_described {old : List (TextLine UInt8)} (oldWhole : TextLine.Whole old)
    (path : List UInt8) (hunks : List (Hunk × ℕ)) {new : List (TextLine UInt8)}
    (progress : Progress) (described : Describes old progress.lineCursor (hunks.map (·.1)) new)
    (wellFormed : ∀ hunk ∈ hunks.map (·.1), hunk.WellFormed)
    (newBefore : List (TextLine UInt8)) (newWhole : TextLine.Whole (newBefore ++ new))
    (inOrder : ∀ hunk ∈ hunks.map (·.1), ¬ hunk.DeletesBehindEnd) :
    ∃ last, applyHunks path (old.map (·.text)) hunks progress = .ok last ∧
      last.patched ++ (old.map (·.text)).drop last.lineCursor =
        progress.patched ++ new.map (·.text) ∧
      last.finalNewline =
        match (hunks.map (·.1)).getLast? with
        | none => progress.finalNewline
        | some hunk =>
            if hunk.placeBehind = old.length then endingNewline hunk
            else progress.finalNewline := by
  induction hunks generalizing progress new newBefore with
  | nil =>
      cases described
      exact ⟨progress, rfl, by rw [← List.map_drop], rfl⟩
  | cons entry rest ih =>
      obtain ⟨hunk, index⟩ := entry
      rw [List.map_cons] at described wellFormed inOrder
      cases described with
      | @hunk _ _ _ new following inside same later =>
          have oldSplit : old = old.take hunk.place ++
              (hunk.oldSide ++ old.drop hunk.placeBehind) := by
            obtain ⟨behind, isOld⟩ := same
            unfold Hunk.placeBehind
            rw [← List.drop_drop, ← isOld, List.drop_left, isOld, List.take_append_drop]
          have marked : misplacedMarker hunk = false := by
            rw [oldSplit] at oldWhole
            rw [← List.append_assoc] at newWhole
            exact misplacedMarker_of_described (wellFormed hunk List.mem_cons_self) oldWhole
              newWhole (inOrder hunk List.mem_cons_self)
          have first := applyHunk_of_described following inside same marked
          rw [← List.append_assoc, ← List.append_assoc, List.append_assoc newBefore] at newWhole
          obtain ⟨last, isRun, writes, leaves⟩ := ih ⟨_, hunk.placeBehind, _⟩ later
            (fun next isIn => wellFormed next (List.mem_cons_of_mem _ isIn)) _ newWhole
            (fun next isIn => inOrder next (List.mem_cons_of_mem _ isIn))
          refine ⟨last, ?_, ?_, ?_⟩
          · unfold applyHunks
            rw [first]
            exact isRun
          · rw [writes, List.append_assoc, ← List.map_append, List.append_assoc]
          · rw [leaves, List.map_cons]
            cases isLast : (rest.map (·.1)).getLast? with
            | none =>
                rw [List.getLast?_eq_none_iff] at isLast
                rw [isLast, List.getLast?_singleton]
            | some lastHunk =>
                have isIn := List.mem_of_getLast? isLast
                have bounds : hunk.placeBehind ≤ lastHunk.placeBehind ∧
                    lastHunk.placeBehind ≤ old.length := later.le_placeBehind isIn
                rw [List.getLast?_cons, isLast, Option.getD_some]
                dsimp only
                by_cases atEnd : lastHunk.placeBehind = old.length
                · rw [if_pos atEnd, if_pos atEnd]
                · rw [if_neg atEnd, if_neg atEnd, if_neg (by omega)]

theorem applyPatch_of_described {patch : FilePatch} {content : List UInt8}
    (fits : content.length ≤ maxPatchTargetBytes)
    (wellFormed : ∀ hunk ∈ patch.hunks, hunk.WellFormed) {new : List (TextLine UInt8)}
    (described : Describes (fileLines content) 0 patch.hunks new) (newWhole : TextLine.Whole new)
    (inOrder : ∀ hunk ∈ patch.hunks, ¬ hunk.DeletesBehindEnd)
    (endKept : ∀ last, patch.hunks.getLast? = some last →
      last.placeBehind = (fileLines content).length → last.newSide = [] →
        TextLine.endsTerminated new = true) :
    applyPatch patch content = (.ok (), new.flatMap (TextLine.render 0x0a)) := by
  have sorted : patch.hunks.zipIdx.insertionSort
      (fun a b => a.1.header.original.start ≤ b.1.header.original.start) =
        patch.hunks.zipIdx := by
    refine List.Pairwise.insertionSort_eq ?_
    have starts := (described.pairwise_start wellFormed).2
    rw [← List.zipIdx_map_fst 0 patch.hunks, List.pairwise_map] at starts
    exact starts
  have isHunks : patch.hunks.zipIdx.map (·.1) = patch.hunks := List.zipIdx_map_fst 0 patch.hunks
  obtain ⟨last, isRun, writes, leaves⟩ := applyHunks_of_described (fileLines_whole content)
    patch.path patch.hunks.zipIdx ⟨[], 0, (splitLines content).2⟩
    (by rw [isHunks]; exact described) (by rw [isHunks]; exact wellFormed) []
    (by rw [List.nil_append]; exact newWhole) (by rw [isHunks]; exact inOrder)
  have newline : last.finalNewline = TextLine.endsTerminated new := by
    rw [leaves, isHunks]
    cases isLast : patch.hunks.getLast? with
    | none =>
        rw [List.getLast?_eq_none_iff] at isLast
        rw [isLast] at described
        cases described
        exact (endsTerminated_fileLines content).symm
    | some hunk =>
        obtain ⟨front, isNew⟩ := described.ends isLast
        have isIn := List.mem_of_getLast? isLast
        have bounds := described.le_placeBehind isIn
        dsimp only
        by_cases atEnd : hunk.placeBehind = (fileLines content).length
        · rw [if_pos atEnd, endingNewline_eq (wellFormed hunk isIn).notEmpty]
          by_cases noNew : hunk.newSide = []
          · rw [endKept hunk isLast atEnd noNew, noNew]
            rfl
          · rw [isNew, atEnd, List.drop_length, List.append_nil,
              TextLine.endsTerminated_append noNew]
        · rw [if_neg atEnd, isNew, ← List.append_assoc, ← endsTerminated_fileLines]
          have behind : (fileLines content).drop hunk.placeBehind ≠ [] := by
            rw [Ne, List.drop_eq_nil_iff]
            omega
          rw [TextLine.endsTerminated_append behind]
          conv_lhs => rw [← List.take_append_drop hunk.placeBehind (fileLines content)]
          exact TextLine.endsTerminated_append behind
  rw [fileLines_texts] at isRun writes
  unfold applyPatch
  rw [if_neg (by omega)]
  dsimp only
  rw [sorted, isRun]
  dsimp only
  rw [writes, List.nil_append, newline, ← TextLine.intercalate_texts 0x0a newWhole]
  cases TextLine.endsTerminated new with
  | true => rfl
  | false => rw [if_neg (by simp), if_neg (by simp), List.append_nil]

end Bun.Patch
