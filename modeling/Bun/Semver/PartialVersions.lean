/-
Partial versions as they are written.

A wildcard is noted at the first component that is not a number, so the components before it
are known, and it is itself missing, whatever is written behind it.
-/

import Bun.Semver.VersionRoundTrip

set_option autoImplicit false

namespace Bun.Semver

def Partial.firstMissing (version : Partial) : Wildcard :=
  if version.major.isNone then .major
  else if version.minor.isNone then .minor
  else if version.patch.isNone then .patch
  else .none

/-- What is known of the components when some of them have been read. -/
def Partial.Counted (version : Partial) (partI : ℕ) : Wildcard → Prop
  | .none => partI ≤ 3 ∧ (version.major.isSome ↔ 1 ≤ partI) ∧ (version.minor.isSome ↔ 2 ≤ partI) ∧
      (version.patch.isSome ↔ 3 ≤ partI)
  | .major => version.major = none ∧ 1 ≤ partI
  | .minor => version.major.isSome ∧ version.minor = none ∧ 2 ≤ partI
  | .patch => version.major.isSome ∧ version.minor.isSome ∧ version.patch = none ∧ 3 ≤ partI

theorem Partial.Counted.setPart {version : Partial} {partI : ℕ} {wildcard : Wildcard}
    (counted : version.Counted partI wildcard) (inside : partI < 3) {number : Option UInt64}
    (isNumber : number.isSome = true) :
    (version.setPart partI number).Counted (partI + 1) wildcard := by
  have isPart : partI = 0 ∨ partI = 1 ∨ partI = 2 := by
    omega
  cases wildcard with
  | none =>
      obtain ⟨-, major, minor, patch⟩ := counted
      rcases isPart with rfl | rfl | rfl
      · simp_all [Partial.setPart, Partial.Counted]
      · simp_all [Partial.setPart, Partial.Counted]
      · simp_all [Partial.setPart, Partial.Counted]
  | major =>
      obtain ⟨missing, above⟩ := counted
      rcases isPart with rfl | rfl | rfl
      · omega
      · exact ⟨missing, by omega⟩
      · exact ⟨missing, by omega⟩
  | minor =>
      obtain ⟨known, missing, above⟩ := counted
      rcases isPart with rfl | rfl | rfl
      · omega
      · omega
      · exact ⟨known, missing, by omega⟩
  | patch =>
      obtain ⟨-, -, -, above⟩ := counted
      omega

namespace Version

def InOrder (cursor : ParseCursor) : Prop :=
  cursor.result.valid = true →
    cursor.result.version.Counted cursor.partI cursor.result.wildcard

theorem skipDot_inOrder {cursor : ParseCursor} (inOrder : InOrder cursor) (rest : List UInt8) :
    InOrder (skipDot cursor rest).1 := by
  unfold skipDot
  split
  · split
    · exact inOrder
    · exact inOrder
  · exact inOrder

theorem takeNumber_inOrder {cursor : ParseCursor} (inOrder : InOrder cursor)
    (inside : cursor.partI < 3) (digits after : List UInt8) :
    InOrder (takeNumber cursor digits after).1 := by
  have next : InOrder (pass { cursor with
      result := { cursor.result with
        valid := cursor.result.valid && (parseVersionNumber digits).isSome
        version := cursor.result.version.setPart cursor.partI (parseVersionNumber digits) }
      partI := cursor.partI + 1 } digits) := by
    intro valid
    obtain ⟨wasValid, isNumber⟩ := Bool.and_eq_true_iff.mp valid
    exact (inOrder wasValid).setPart inside isNumber
  unfold takeNumber
  dsimp only
  split
  · exact skipDot_inOrder next after
  · exact next

theorem meetWildcard_inOrder {cursor : ParseCursor} (inOrder : InOrder cursor) :
    InOrder (meetWildcard cursor) := by
  unfold meetWildcard
  split
  · rename_i noWildcard
    split
    · rename_i isFirst
      intro valid
      have counted := inOrder valid
      rw [noWildcard, isFirst] at counted
      exact ⟨by simpa using counted.2.1, Nat.le_refl 1⟩
    · rename_i isSecond
      intro valid
      have counted := inOrder valid
      rw [noWildcard, isSecond] at counted
      exact ⟨counted.2.1.mpr (Nat.le_refl 1), by simpa using counted.2.2.1, Nat.le_refl 2⟩
    · rename_i isThird
      intro valid
      have counted := inOrder valid
      rw [noWildcard, isThird] at counted
      exact ⟨counted.2.1.mpr (by decide), counted.2.2.1.mpr (Nat.le_refl 2),
        by simpa using counted.2.2.2, Nat.le_refl 3⟩
    · exact inOrder
  · exact inOrder

theorem parseLoop_inOrder (cursor : ParseCursor) (input : List UInt8) (inOrder : InOrder cursor) :
    InOrder (parseLoop cursor input) := by
  fun_induction parseLoop cursor input with
  | case1 | case2 | case3 => exact inOrder
  | case4 | case7 | case8 | case12 => exact fun valid => absurd valid Bool.false_ne_true
  | case5 cursor c rest _ _ _ digits after inside _ ih =>
      exact ih (takeNumber_inOrder inOrder inside digits after)
  | case6 cursor c rest _ _ _ digits after _ ih => exact ih inOrder
  | case9 cursor c rest => exact inOrder
  | case10 cursor c rest _ _ _ _ _ _ run valid read ih =>
      have passed : InOrder (pass { cursor with result := { cursor.result with valid } } run) :=
        fun isValid => inOrder (Bool.and_eq_true_iff.mp isValid).1
      exact ih (meetWildcard_inOrder (skipDot_inOrder passed _))
  | case11 cursor c rest => exact inOrder

theorem finish_firstMissing {cursor : ParseCursor} (inOrder : InOrder cursor)
    (valid : (finish cursor).valid = true) :
    (finish cursor).wildcard = (finish cursor).version.firstMissing := by
  have isVersion := (finish_version cursor).1
  unfold Partial.firstMissing
  rw [isVersion]
  dsimp only [finish] at valid ⊢
  cases isWildcard : cursor.result.wildcard with
  | none =>
      rw [isWildcard, if_pos rfl] at valid
      rw [if_pos rfl]
      have counted : cursor.result.valid = true →
          cursor.result.version.Counted cursor.partI .none := by
        rw [← isWildcard]
        exact inOrder
      split at valid
      · cases valid
      · rename_i isPart
        rw [isPart] at counted
        obtain ⟨-, major, minor, -⟩ := counted valid
        simp_all [Option.isSome_iff_ne_none]
      · rename_i isPart
        rw [isPart] at counted
        obtain ⟨-, major, minor, patch⟩ := counted valid
        simp_all [Option.isSome_iff_ne_none]
      · rename_i notFirst notSecond notThird
        obtain ⟨isBelow, major, minor, patch⟩ := counted valid
        have isPart : cursor.partI = 3 := by
          have first : cursor.partI ≠ 0 := notFirst
          have second : cursor.partI ≠ 1 := notSecond
          have third : cursor.partI ≠ 2 := notThird
          omega
        rw [isPart] at major minor patch
        simp_all [Option.isSome_iff_ne_none]
  | major =>
      rw [isWildcard, if_neg Wildcard.noConfusion] at valid
      rw [if_neg Wildcard.noConfusion]
      have counted := inOrder valid
      rw [isWildcard] at counted
      simp [counted.1]
  | minor =>
      rw [isWildcard, if_neg Wildcard.noConfusion] at valid
      rw [if_neg Wildcard.noConfusion]
      have counted := inOrder valid
      rw [isWildcard] at counted
      obtain ⟨major, minor, -⟩ := counted
      simp [Option.isNone_eq_false_iff.mpr major, minor]
  | patch =>
      rw [isWildcard, if_neg Wildcard.noConfusion] at valid
      rw [if_neg Wildcard.noConfusion]
      have counted := inOrder valid
      rw [isWildcard] at counted
      obtain ⟨major, minor, patch, -⟩ := counted
      simp [Option.isNone_eq_false_iff.mpr major, Option.isNone_eq_false_iff.mpr minor, patch]

theorem parse_firstMissing {input : List UInt8} (valid : (parse input).valid = true) :
    (parse input).wildcard = (parse input).version.firstMissing := by
  dsimp only [parse] at valid ⊢
  split at valid
  · cases valid
  · split at valid
    · cases valid
    · rename_i notEmpty someRest
      rw [if_neg notEmpty, if_neg someRest]
      refine finish_firstMissing (parseLoop_inOrder _ _ ?_) valid
      intro _
      exact ⟨Nat.zero_le 3, by simp, by simp, by simp⟩

end Version

end Bun.Semver
