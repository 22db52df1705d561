/-
Where a hunk is placed.

A hunk matches at a place of a file if its context and deleted lines, put together, are the
file's lines from there on, up to whitespace at their ends.  The search for a place goes
outwards from the expected one and finds the nearest match, the forward one of two.
-/

import Bun.Patch.ApplyPatch

set_option autoImplicit false

namespace Bun.Patch

/-- The old lines stand in the file from `p` on. -/
def OldLinesAt (hunk : Hunk) (lines : List (List UInt8)) (p : ℕ) : Prop :=
  (originalTexts hunk.parts).map trimRight <+: (lines.drop p).map trimRight

/-- `p` is a place for the hunk at or behind `low`, and no other one is nearer to where the
hunk is expected; a place further forward goes before one as near further back. -/
structure NearestPlace (hunk : Hunk) (lines : List (List UInt8)) (low : ℕ) (expected : ℤ)
    (p : ℕ) : Prop where
  behind : low ≤ p
  inside : p ≤ lines.length
  isMatch : OldLinesAt hunk lines p
  nearest : ∀ q, low ≤ q → q ≤ lines.length → OldLinesAt hunk lines q →
    Nearer (max low (min expected lines.length)) p q

/-! ### Matching -/

theorem append_prefix_iff {α : Type} (front back list : List α) :
    front ++ back <+: list ↔ front <+: list ∧ back <+: list.drop front.length := by
  constructor
  · rintro ⟨rest, rfl⟩
    rw [List.append_assoc, List.drop_left]
    exact ⟨List.prefix_append _ _, List.prefix_append _ _⟩
  · rintro ⟨⟨rest, rfl⟩, isFront⟩
    rw [List.drop_left] at isFront
    exact (List.prefix_append_right_inj front).mpr isFront

theorem matchLines_iff {lines patchLines : List (List UInt8)} {start next : ℕ} :
    matchLines lines patchLines start = some next ↔
      patchLines.map trimRight <+: (lines.drop start).map trimRight ∧
        next = start + patchLines.length := by
  induction patchLines generalizing start with
  | nil =>
      unfold matchLines
      rw [Option.some_inj]
      exact ⟨fun same => ⟨List.nil_prefix, same.symm⟩, fun both => both.2.symm⟩
  | cons patchLine rest ih =>
      unfold matchLines
      cases isLine : lines[start]? with
      | none =>
          have isEnd : lines.drop start = [] :=
            List.drop_eq_nil_iff.mpr (List.getElem?_eq_none_iff.mp isLine)
          rw [isEnd]
          constructor
          · intro same
            cases same
          · rintro ⟨isFront, _⟩
            exact absurd (List.prefix_nil.mp isFront) (by simp)
      | some fileLine =>
          obtain ⟨inside, same⟩ := List.getElem?_eq_some_iff.mp isLine
          dsimp only
          rw [List.drop_eq_getElem_cons inside, same, List.map_cons, List.map_cons,
            List.cons_prefix_cons, List.length_cons]
          by_cases sameLine : trimRight fileLine = trimRight patchLine
          · rw [if_neg (fun other => other sameLine), ih]
            constructor
            · rintro ⟨isFront, rfl⟩
              exact ⟨⟨sameLine.symm, isFront⟩, by omega⟩
            · rintro ⟨⟨_, isFront⟩, rfl⟩
              exact ⟨isFront, by omega⟩
          · rw [if_pos sameLine]
            constructor
            · intro same
              cases same
            · rintro ⟨⟨sameAgain, _⟩, _⟩
              exact absurd sameAgain.symm sameLine

theorem matchParts_iff {lines : List (List UInt8)} {parts : List PatchMutationPart} {start : ℕ} :
    matchParts lines parts start = true ↔
      (originalTexts parts).map trimRight <+: (lines.drop start).map trimRight := by
  induction parts generalizing start with
  | nil => exact ⟨fun _ => List.nil_prefix, fun _ => rfl⟩
  | cons part rest ih =>
      have compared : (matchLines lines part.lines start).elim false (matchParts lines rest) =
          true ↔
          (part.lines ++ originalTexts rest).map trimRight <+:
            (lines.drop start).map trimRight := by
        rw [List.map_append, append_prefix_iff, List.length_map, ← List.map_drop, List.drop_drop]
        cases isMatch : matchLines lines part.lines start with
        | none =>
            constructor
            · intro same
              cases same
            · rintro ⟨isFront, _⟩
              rw [matchLines_iff.mpr ⟨isFront, rfl⟩] at isMatch
              cases isMatch
        | some next =>
            obtain ⟨isFront, rfl⟩ := matchLines_iff.mp isMatch
            rw [Option.elim_some, ih]
            exact ⟨fun later => ⟨isFront, later⟩, fun both => both.2⟩
      have texts : originalTexts (part :: rest) =
          (if part.ty = .insertion then [] else part.lines) ++ originalTexts rest := rfl
      have goesOn (isOld : part.ty ≠ .insertion) : matchParts lines (part :: rest) start =
          (matchLines lines part.lines start).elim false (matchParts lines rest) := by
        rw [matchParts]
        cases isType : part.ty with
        | insertion => exact absurd isType isOld
        | context => cases matchLines lines part.lines start <;> rfl
        | deletion => cases matchLines lines part.lines start <;> rfl
      rw [texts]
      by_cases isInsertion : part.ty = .insertion
      · rw [if_pos isInsertion, List.nil_append, matchParts, isInsertion]
        exact ih
      · rw [if_neg isInsertion, goesOn isInsertion]
        exact compared

theorem hunkMatchesAt_iff {hunk : Hunk} {lines : List (List UInt8)} {p : ℕ} :
    hunkMatchesAt hunk lines p = true ↔ OldLinesAt hunk lines p :=
  matchParts_iff

/-- The place behind the last line does as well as any place behind it. -/
theorem OldLinesAt.beyond {hunk : Hunk} {lines : List (List UInt8)} {p : ℕ}
    (isMatch : OldLinesAt hunk lines p) (beyond : lines.length ≤ p) :
    OldLinesAt hunk lines lines.length := by
  unfold OldLinesAt at *
  rw [List.drop_eq_nil_of_le beyond] at isMatch
  rw [List.drop_length]
  exact isMatch

/-! ### Searching -/

/-- The search through the lines from `low` on finds the nearest place there, and if it finds
none then the hunk matches nowhere. -/
theorem findHunkPosition_nearest (hunk : Hunk) (lines : List (List UInt8)) (low : ℕ)
    (inside : low ≤ lines.length) (expected : ℤ) :
    (∀ p, findHunkPosition hunk (lines.drop low) (expected - low) = some p →
      NearestPlace hunk lines low expected (low + p)) ∧
    (findHunkPosition hunk (lines.drop low) (expected - low) = none ↔
      ∀ q, low ≤ q → ¬ OldLinesAt hunk lines q) := by
  have moved (q : ℕ) : hunkMatchesAt hunk (lines.drop low) q = true ↔
      OldLinesAt hunk lines (low + q) := by
    rw [hunkMatchesAt_iff]
    unfold OldLinesAt
    rw [List.drop_drop]
  have nearest := findHunkPositionFrom_nearest hunk (lines.drop low)
    (max 0 (min (expected - low) (lines.drop low).length)) (by omega) 0 (by omega)
  have clamped : max (0 : ℤ) (min (expected - low) (lines.drop low).length) + low =
      max (low : ℤ) (min expected lines.length) := by
    rw [List.length_drop]
    omega
  rw [← findHunkPosition] at nearest
  cases isFound : findHunkPosition hunk (lines.drop low) (expected - low) with
  | some place =>
      rw [isFound] at nearest
      obtain ⟨placeInside, isMatch, least⟩ := nearest
      rw [List.length_drop] at placeInside
      constructor
      · intro p same
        obtain rfl := Option.some.inj same
        refine ⟨by omega, by omega, (moved place).mp isMatch, ?_⟩
        intro q behind qInside qMatch
        have shifted : low + (q - low) = q := by omega
        have near := least (q - low) (by rw [List.length_drop]; omega)
          ((moved (q - low)).mpr (by rw [shifted]; exact qMatch))
        rw [← clamped]
        unfold Nearer at near ⊢
        omega
      · constructor
        · intro same
          cases same
        · intro nowhere
          exact absurd ((moved place).mp isMatch) (nowhere _ (by omega))
  | none =>
      rw [isFound] at nearest
      constructor
      · intro p same
        cases same
      · refine ⟨fun _ q behind isMatch => ?_, fun _ => rfl⟩
        have atMost (q : ℕ) (behind : low ≤ q) (qInside : q ≤ lines.length) :
            ¬ OldLinesAt hunk lines q := by
          intro isMatch
          have shifted : low + (q - low) = q := by omega
          have notThere := nearest (q - low) (by rw [List.length_drop]; omega)
          rw [(moved (q - low)).mpr (by rw [shifted]; exact isMatch)] at notThere
          cases notThere
        by_cases qInside : q ≤ lines.length
        · exact atMost q behind qInside isMatch
        · exact atMost lines.length inside (le_refl _) (isMatch.beyond (by omega))

/-- A hunk that deletes `b` is expected far behind a file of three lines. -/
theorem findHunkPosition_nearest_far :
    (∀ p, findHunkPosition { parts := [{ ty := .deletion, lines := [[0x62]] }] }
        ([[0x61], [0x62], [0x62, 0x20]].drop 1) (1000 - 1) = some p →
      NearestPlace { parts := [{ ty := .deletion, lines := [[0x62]] }] }
        [[0x61], [0x62], [0x62, 0x20]] 1 1000 (1 + p)) ∧
    (findHunkPosition { parts := [{ ty := .deletion, lines := [[0x62]] }] }
        ([[0x61], [0x62], [0x62, 0x20]].drop 1) (1000 - 1) = none ↔
      ∀ q, 1 ≤ q → ¬ OldLinesAt { parts := [{ ty := .deletion, lines := [[0x62]] }] }
        [[0x61], [0x62], [0x62, 0x20]] q) :=
  findHunkPosition_nearest { parts := [{ ty := .deletion, lines := [[0x62]] }] }
    [[0x61], [0x62], [0x62, 0x20]] 1 (by decide) 1000

end Bun.Patch
