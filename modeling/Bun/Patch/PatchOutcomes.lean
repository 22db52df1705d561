/-
What patching a file can come to.

The hunks are placed one after another.  If each finds a place the new file is written;
the first that finds none is reported and the old file stays.
-/

import Mathlib.Tactic.IntervalCases
import Bun.Core.AsciiText
import Bun.Patch.PatchedContent

set_option autoImplicit false

namespace Bun.Patch

open Bun.Foundation

def Hunk.expectedLine (hunk : Hunk) : ℤ :=
  (hunk.header.original.start.toNat : ℤ) - 1

/-- The hunk can go to line `p`, with the lines before `cursor` taken: its markers are where
they belong, and its old side matches there up to trailing whitespace.  Without an old side
only the line its header names will do. -/
structure AppliesAt (hunk : Hunk) (lines : List (List UInt8)) (cursor p : ℕ) : Prop where
  marked : misplacedMarker hunk = false
  behind : cursor ≤ p
  inside : p ≤ lines.length
  isMatch : if hunk.header.original.len = 0 then p = hunk.header.original.start.toNat
    else hunkMatchesAt hunk lines p = true

/-- The hunk goes to the place nearest to where its header says. -/
def PlacedAt (hunk : Hunk) (lines : List (List UInt8)) (cursor p : ℕ) : Prop :=
  AppliesAt hunk lines cursor p ∧
    ∀ q, AppliesAt hunk lines cursor q → Nearer hunk.expectedLine p q

inductive Reaches (lines : List (List UInt8)) : List Hunk → ℕ → ℕ → Prop
  | done (cursor : ℕ) : Reaches lines [] cursor cursor
  | hunk {hunk : Hunk} {rest : List Hunk} {cursor p next : ℕ}
      (placed : PlacedAt hunk lines cursor p)
      (later : Reaches lines rest (p + originalLength hunk.parts) next) :
      Reaches lines (hunk :: rest) cursor next

/-- The hunks by the lines their headers name, with their places in the patch. -/
def FilePatch.sortedHunks (patch : FilePatch) : List (Hunk × ℕ) :=
  patch.hunks.zipIdx.insertionSort
    fun a b => a.1.header.original.start ≤ b.1.header.original.start

/-- The hunks before this one find their places, and this one finds none. -/
def DoesNotApply (patch : FilePatch) (content : List UInt8) (hunk : Hunk) (index : ℕ) : Prop :=
  ∃ front back cursor, patch.sortedHunks = front ++ (hunk, index) :: back ∧
    Reaches (splitLines content).1 (front.map (·.1)) 0 cursor ∧
    ∀ p, ¬ AppliesAt hunk (splitLines content).1 cursor p

theorem nearer_of_clamped {expected : ℤ} (low high p q : ℕ) (pIn : low ≤ p ∧ p ≤ high)
    (qIn : low ≤ q ∧ q ≤ high)
    (nearer : Nearer (max 0 (min (expected - low) ((high - low : ℕ) : ℤ))) (p - low) (q - low)) :
    Nearer expected p q := by
  unfold Nearer at *
  omega

theorem PlacedAt.unique {hunk : Hunk} {lines : List (List UInt8)} {cursor p q : ℕ}
    (first : PlacedAt hunk lines cursor p) (second : PlacedAt hunk lines cursor q) : p = q := by
  have toSecond := first.2 q second.1
  have toFirst := second.2 p first.1
  unfold Nearer at toSecond toFirst
  omega

theorem hunkStart_placed {hunk : Hunk} {lines : List (List UInt8)} {cursor : ℕ}
    (marked : misplacedMarker hunk = false) (inside : cursor ≤ lines.length) :
    match hunkStart hunk lines cursor with
    | some p => PlacedAt hunk lines cursor p
    | none => ∀ p, ¬ AppliesAt hunk lines cursor p := by
  unfold hunkStart
  dsimp only
  by_cases noOld : hunk.header.original.len = 0
  · rw [if_pos noOld]
    by_cases outside : hunk.header.original.start.toNat < cursor ∨
        hunk.header.original.start.toNat > lines.length
    · rw [if_pos outside]
      intro p applies
      have same := applies.isMatch
      rw [if_pos noOld] at same
      have := applies.behind
      have := applies.inside
      omega
    · rw [if_neg outside]
      refine ⟨⟨marked, by omega, by omega, by rw [if_pos noOld]⟩, ?_⟩
      intro q applies
      have same := applies.isMatch
      rw [if_pos noOld] at same
      rw [same]
      exact Or.inr ⟨rfl, Nat.le_refl _⟩
  · have moved (q : ℕ) (applies : AppliesAt hunk lines cursor q) :
        q - cursor ≤ lines.length - cursor ∧
          hunkMatchesAt hunk (lines.drop cursor) (q - cursor) = true := by
      have isMatch := applies.isMatch
      have inside := applies.inside
      rw [if_neg noOld] at isMatch
      refine ⟨by omega, ?_⟩
      unfold hunkMatchesAt at isMatch ⊢
      rw [matchParts_drop, Nat.add_sub_cancel' applies.behind]
      exact isMatch
    have nearest := findHunkPositionFrom_nearest hunk (lines.drop cursor)
      (max 0 (min ((hunk.header.original.start.toNat : ℤ) - 1 - cursor)
        (lines.drop cursor).length)) (by omega) 0 (by omega)
    rw [if_neg noOld]
    unfold findHunkPosition
    split at nearest
    · rename_i index isIndex
      obtain ⟨indexIn, isMatch, least⟩ := nearest
      rw [isIndex, Option.map_some]
      rw [List.length_drop] at indexIn least
      refine ⟨⟨marked, by omega, by omega, ?_⟩, ?_⟩
      · rw [if_neg noOld]
        unfold hunkMatchesAt at isMatch ⊢
        rw [matchParts_drop] at isMatch
        exact isMatch
      · intro q applies
        obtain ⟨qIn, qMatch⟩ := moved q applies
        refine nearer_of_clamped cursor lines.length _ q ⟨by omega, by omega⟩
          ⟨applies.behind, applies.inside⟩ ?_
        rw [Nat.add_sub_cancel_left]
        exact least (q - cursor) qIn qMatch
    · rename_i isNone
      rw [isNone, Option.map_none]
      intro p applies
      obtain ⟨pIn, pMatch⟩ := moved p applies
      have noMatch := nearest (p - cursor) (by rw [List.length_drop]; exact pIn)
      rw [noMatch] at pMatch
      cases pMatch

theorem applyHunk_outcome {hunk : Hunk} (counts : hunk.verifyIntegrity none = true)
    {lines : List (List UInt8)} {progress : Progress} (inside : progress.lineCursor ≤ lines.length) :
    match applyHunk lines progress hunk with
    | some next => ∃ p, PlacedAt hunk lines progress.lineCursor p ∧
        next.lineCursor = p + originalLength hunk.parts ∧ next.lineCursor ≤ lines.length
    | none => ∀ p, ¬ AppliesAt hunk lines progress.lineCursor p := by
  unfold applyHunk
  cases marked : misplacedMarker hunk with
  | true =>
      simp only [if_true, Option.bind_eq_bind, Option.bind_none]
      intro p applies
      rw [applies.marked] at marked
      cases marked
  | false =>
      have placed := hunkStart_placed marked inside
      simp only [Bool.false_eq_true, if_false, Option.bind_eq_bind]
      cases isStart : hunkStart hunk lines progress.lineCursor with
      | none =>
          rw [isStart] at placed
          exact placed
      | some start =>
          rw [isStart] at placed
          have fits : start + originalLength hunk.parts ≤ lines.length := by
            have applies := placed.1.isMatch
            by_cases noOld : hunk.header.original.len = 0
            · unfold Hunk.verifyIntegrity at counts
              simp only [Option.toList_none, List.append_nil, Bool.and_eq_true, beq_iff_eq,
                noOld] at counts
              have noLines : originalLength hunk.parts = 0 := counts.1
              rw [noLines]
              exact placed.1.inside
            · rw [if_neg noOld] at applies
              exact fits_of_matchParts applies placed.1.inside
          obtain ⟨added, isAdded⟩ := applyParts_of_fits fits (progress.patched ++
            (lines.drop progress.lineCursor).take (start - progress.lineCursor))
          simp only [Option.bind_some, isAdded]
          exact ⟨start, placed, rfl, fits⟩

theorem applyHunks_stops {lines : List (List UInt8)} (path : List UInt8)
    {front back : List (Hunk × ℕ)} {hunk : Hunk} {index cursor : ℕ} (progress : Progress)
    (counts : ∀ next ∈ (front ++ (hunk, index) :: back).map (·.1),
      next.verifyIntegrity none = true)
    (inside : progress.lineCursor ≤ lines.length)
    (reaches : Reaches lines (front.map (·.1)) progress.lineCursor cursor)
    (noPlace : ∀ p, ¬ AppliesAt hunk lines cursor p) :
    applyHunks path lines (front ++ (hunk, index) :: back) progress =
      .error (.hunkDoesNotApply path (index + 1) hunk.header.original.start) := by
  induction front generalizing progress with
  | nil =>
      have isCursor : progress.lineCursor = cursor := by
        cases reaches
        rfl
      have outcome := applyHunk_outcome (counts hunk (by simp)) inside
      rw [List.nil_append]
      unfold applyHunks
      split at outcome
      · obtain ⟨p, placed, _⟩ := outcome
        rw [isCursor] at placed
        exact absurd placed.1 (noPlace p)
      · rename_i isNone
        rw [isNone]
  | cons entry rest ih =>
      obtain ⟨first, firstIndex⟩ := entry
      have outcome := applyHunk_outcome (counts first (by simp)) inside
      rw [List.map_cons] at reaches
      cases reaches with
      | hunk placed later =>
          rw [List.cons_append]
          unfold applyHunks
          split at outcome
          · rename_i next isNext
            obtain ⟨p, isPlaced, nextCursor, nextInside⟩ := outcome
            rw [placed.unique isPlaced, ← nextCursor] at later
            rw [isNext]
            exact ih next (fun hunk isIn => counts hunk (List.mem_cons_of_mem _ isIn)) nextInside
              later
          · exact absurd placed.1 (outcome _)

theorem applyPatch_of_doesNotApply {patch : FilePatch} {content : List UInt8}
    (fits : content.length ≤ maxPatchTargetBytes)
    (counts : ∀ hunk ∈ patch.hunks, hunk.verifyIntegrity none = true) {hunk : Hunk} {index : ℕ}
    (noPlace : DoesNotApply patch content hunk index) :
    applyPatch patch content =
      (.error (.hunkDoesNotApply patch.path (index + 1) hunk.header.original.start), content) := by
  obtain ⟨front, back, cursor, isSorted, reaches, nowhere⟩ := noPlace
  have sortedCounts : ∀ hunk ∈ patch.sortedHunks.map (·.1), hunk.verifyIntegrity none = true := by
    intro next isIn
    obtain ⟨entry, inSorted, rfl⟩ := List.mem_map.mp isIn
    have inPatch : entry ∈ patch.hunks.zipIdx := (List.perm_insertionSort _ _).mem_iff.mp inSorted
    exact counts entry.1 (List.fst_mem_of_mem_zipIdx inPatch)
  rw [isSorted] at sortedCounts
  have stops := applyHunks_stops patch.path ⟨[], 0, (splitLines content).2⟩ sortedCounts
    (Nat.zero_le _) reaches nowhere
  unfold applyPatch
  rw [if_neg (by omega)]
  dsimp only
  unfold FilePatch.sortedHunks at isSorted
  rw [isSorted, stops]

/-- A patch that describes a new file makes it, and a patch with a hunk that finds no place
leaves the file alone and says so. -/
theorem applyPatch_writes_or_keeps (patch : FilePatch) (content : List UInt8)
    (wellFormed : ∀ hunk ∈ patch.hunks, hunk.WellFormed) :
    (content.length ≤ maxPatchTargetBytes → ∀ new,
      Describes (fileLines content) 0 patch.hunks new → TextLine.Whole new →
      (∀ hunk ∈ patch.hunks, ¬ hunk.DeletesBehindEnd) →
      (∀ last, patch.hunks.getLast? = some last →
        last.placeBehind = (fileLines content).length → last.newSide = [] →
          TextLine.endsTerminated new = true) →
      applyPatch patch content = (.ok (), new.flatMap (TextLine.render 0x0a))) ∧
    (content.length ≤ maxPatchTargetBytes → ∀ hunk index,
      DoesNotApply patch content hunk index →
      applyPatch patch content =
        (.error (.hunkDoesNotApply patch.path (index + 1) hunk.header.original.start),
          content)) ∧
    (maxPatchTargetBytes < content.length →
      applyPatch patch content = (.error .sys, content)) := by
  refine ⟨?_, ?_, ?_⟩
  · intro fits new described newWhole inOrder endKept
    exact applyPatch_of_described fits wellFormed described newWhole inOrder endKept
  · intro fits hunk index noPlace
    exact applyPatch_of_doesNotApply fits (fun hunk isIn => (wellFormed hunk isIn).counts) noPlace
  · intro tooLarge
    unfold applyPatch
    rw [if_pos tooLarge]

/-- A line on top, and another last line without a newline. -/
def twoEdits : FilePatch where
  path := ascii "index.js"
  hunks := [
    { header := ⟨⟨0, 0⟩, ⟨1, 1⟩⟩, parts := [⟨.insertion, [ascii "x"], false⟩] },
    { header := ⟨⟨2, 1⟩, ⟨3, 1⟩⟩
      parts := [⟨.deletion, [ascii "b"], true⟩, ⟨.insertion, [ascii "c"], true⟩] }]
  beforeHash := none
  afterHash := none

theorem twoEdits_written_or_kept :
    applyPatch twoEdits (ascii "a\nb") = (.ok (), ascii "x\na\nc") ∧
      applyPatch twoEdits (ascii "a\nz") =
        (.error (.hunkDoesNotApply (ascii "index.js") 2 2), ascii "a\nz") := by
  have wellFormed : ∀ hunk ∈ twoEdits.hunks, hunk.WellFormed := by
    intro hunk isIn
    simp only [twoEdits, List.mem_cons, List.not_mem_nil, or_false] at isIn
    rcases isIn with rfl | rfl
    · exact ⟨by decide, by decide⟩
    · exact ⟨by decide, by decide⟩
  constructor
  · refine (applyPatch_writes_or_keeps twoEdits (ascii "a\nb") wellFormed).1 (by decide)
      [⟨ascii "x", true⟩, ⟨ascii "a", true⟩, ⟨ascii "c", false⟩] ?_ (by decide) ?_ ?_
    · exact .hunk (by decide) (by decide) (by decide)
        (.hunk (by decide) (by decide) (by decide) (.done 2))
    · intro hunk isIn
      simp only [twoEdits, List.mem_cons, List.not_mem_nil, or_false] at isIn
      rintro ⟨before, part, after, isParts, isType, marked, later, inAfter, deleted⟩
      rcases isIn with rfl | rfl
      · cases before with
        | nil =>
            cases isParts
            cases inAfter
        | cons _ before => cases before <;> cases isParts
      · rcases before with _ | ⟨first, _ | ⟨second, _ | ⟨third, before⟩⟩⟩
        · cases isParts
          cases isType
        · cases isParts
          cases inAfter
        · cases isParts
        · cases isParts
    · intro last isLast _ noNew
      cases isLast
      cases noNew
  · refine (applyPatch_writes_or_keeps twoEdits (ascii "a\nz") wellFormed).2.1 (by decide)
      _ 1 ⟨[(_, 0)], [], 0, rfl, .hunk ⟨⟨by decide, Nat.le_refl _, by decide, rfl⟩, ?_⟩ (.done _),
        ?_⟩
    · intro q applies
      have isTop : q = 0 := applies.isMatch
      rw [isTop]
      exact Or.inr ⟨rfl, Nat.le_refl _⟩
    · intro p applies
      have inside : p ≤ 2 := applies.inside
      have isMatch := applies.isMatch
      rw [if_neg (by decide)] at isMatch
      revert isMatch
      interval_cases p <;> decide

/-- A last line that is inserted before the old one is deleted. -/
def insertsFirst : FilePatch where
  path := ascii "index.js"
  hunks := [
    { header := ⟨⟨1, 1⟩, ⟨1, 1⟩⟩
      parts := [⟨.insertion, [ascii "x"], true⟩, ⟨.deletion, [ascii "b"], true⟩] }]
  beforeHash := none
  afterHash := none

theorem insertsFirst_refused :
    ¬ ∀ (patch : FilePatch) (content : List UInt8) (new : List (TextLine UInt8)),
      (∀ hunk ∈ patch.hunks, hunk.WellFormed) →
      Describes (fileLines content) 0 patch.hunks new → TextLine.Whole new →
      applyPatch patch content = (.ok (), new.flatMap (TextLine.render 0x0a)) := by
  intro always
  have written := always insertsFirst (ascii "b") [⟨ascii "x", false⟩] (by
    intro hunk isIn
    simp only [insertsFirst, List.mem_cons, List.not_mem_nil, or_false] at isIn
    rw [isIn]
    exact ⟨by decide, by decide⟩) (.hunk (by decide) (by decide) (by decide) (.done 1))
    (by decide)
  revert written
  decide +kernel

end Bun.Patch
