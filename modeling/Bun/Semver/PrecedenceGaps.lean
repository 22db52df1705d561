/-
Where prereleases lie among the precedences.

The prereleases of three numbers are exactly the versions from their `-0` up to
their release, and nothing lies between `major.minor.MAX` and the `-0` of the
version that follows it.
-/

import Bun.Semver.Intersects
import Bun.Semver.Precedence

set_option autoImplicit false

namespace Bun.Semver

open Bun.Foundation

/-- The key of `-0`. -/
def floorKey (core : ℕ ×ₗ ℕ ×ₗ ℕ) : Precedence :=
  toLex (core, (([Identifier.number 0] : List Identifier) : WithTop (List Identifier)))

def releaseKey (core : ℕ ×ₗ ℕ ×ₗ ℕ) : Precedence :=
  toLex (core, ⊤)

def sameNumbers (a b : Version) : Bool :=
  a.major == b.major && a.minor == b.minor && a.patch == b.patch

theorem sameNumbers_iff (a b : Version) : sameNumbers a b = true ↔ a.core = b.core := by
  unfold sameNumbers Version.core
  rw [Bool.and_eq_true, Bool.and_eq_true, beq_iff_eq, beq_iff_eq, beq_iff_eq]
  constructor
  · rintro ⟨⟨majors, minors⟩, patches⟩
    rw [majors, minors, patches]
  · intro same
    have first := congrArg (fun core => (ofLex core).1) same
    have second := congrArg (fun core => (ofLex (ofLex core).2).1) same
    have third := congrArg (fun core => (ofLex (ofLex core).2).2) same
    exact ⟨⟨UInt64.toNat_inj.mp first, UInt64.toNat_inj.mp second⟩, UInt64.toNat_inj.mp third⟩

theorem precedence_release (version : Version) (release : version.tag.hasPre = false) :
    version.precedence = releaseKey version.core := by
  unfold Version.precedence Tag.precedence releaseKey
  rw [release]
  rfl

theorem precedence_pre_lt (version : Version) (pre : version.tag.hasPre = true) :
    version.precedence < releaseKey version.core := by
  unfold Version.precedence Tag.precedence releaseKey
  rw [pre, Prod.Lex.toLex_lt_toLex]
  exact Or.inr ⟨rfl, WithTop.coe_lt_top _⟩

theorem precedence_le_release (version : Version) :
    version.precedence ≤ releaseKey version.core := by
  cases pre : version.tag.hasPre with
  | false => exact (precedence_release version pre).le
  | true => exact (precedence_pre_lt version pre).le

theorem precedence_zeroPre (version : Version) :
    ({ version with tag := .zeroPre } : Version).precedence = floorKey version.core := by
  have identifiers : Tag.zeroPre.identifiers = [Identifier.number 0] := by
    decide +kernel
  unfold Version.precedence Tag.precedence floorKey
  rw [if_pos (by rfl), identifiers]
  rfl

theorem number_zero_le (identifier : Identifier) : Identifier.number 0 ≤ identifier := by
  cases shape : ofLex identifier with
  | inl value =>
      have same : identifier = toLex (Sum.inl value) := by
        rw [← shape]
        rfl
      rw [same]
      exact Sum.Lex.inl_le_inl_iff.mpr (Nat.zero_le value)
  | inr text =>
      have same : identifier = toLex (Sum.inr text) := by
        rw [← shape]
        rfl
      rw [same]
      exact Sum.Lex.inl_le_inr 0 text

theorem zero_le_identifiers (tag : Tag) : [Identifier.number 0] ≤ tag.identifiers := by
  unfold Tag.identifiers
  cases split : tag.pre.splitOn dot with
  | nil => exact absurd split (List.splitOn_ne_nil dot tag.pre)
  | cons first rest =>
      rw [List.map_cons, ← not_lt]
      intro less
      rcases List.cons_lt_cons_iff.mp less with lessHead | ⟨_, lessTail⟩
      · exact absurd lessHead (not_lt.mpr (number_zero_le _))
      · exact absurd lessTail (List.not_lt_nil _)

theorem floorKey_le (version : Version) : floorKey version.core ≤ version.precedence := by
  unfold floorKey Version.precedence
  rw [Prod.Lex.toLex_le_toLex]
  refine Or.inr ⟨rfl, ?_⟩
  unfold Tag.precedence
  split
  · exact WithTop.coe_le_coe.mpr (zero_le_identifiers version.tag)
  · exact le_top

theorem floorKey_lt_releaseKey (core : ℕ ×ₗ ℕ ×ₗ ℕ) : floorKey core < releaseKey core := by
  unfold floorKey releaseKey
  rw [Prod.Lex.toLex_lt_toLex]
  exact Or.inr ⟨rfl, WithTop.coe_lt_top _⟩

theorem floorKey_le_floorKey {a b : ℕ ×ₗ ℕ ×ₗ ℕ} (le : a ≤ b) : floorKey a ≤ floorKey b := by
  unfold floorKey
  rw [Prod.Lex.toLex_le_toLex]
  rcases le.lt_or_eq with less | same
  · exact Or.inl less
  · exact Or.inr ⟨same, le_refl _⟩

theorem releaseKey_le_releaseKey {a b : ℕ ×ₗ ℕ ×ₗ ℕ} (le : a ≤ b) :
    releaseKey a ≤ releaseKey b := by
  unfold releaseKey
  rw [Prod.Lex.toLex_le_toLex]
  rcases le.lt_or_eq with less | same
  · exact Or.inl less
  · exact Or.inr ⟨same, le_refl _⟩

theorem releaseKey_lt_floorKey {a b : ℕ ×ₗ ℕ ×ₗ ℕ} : releaseKey a < floorKey b ↔ a < b := by
  unfold releaseKey floorKey
  rw [Prod.Lex.toLex_lt_toLex]
  constructor
  · rintro (less | ⟨_, top⟩)
    · exact less
    · exact absurd top not_top_lt
  · exact Or.inl

theorem releaseKey_lt_precedence {core : ℕ ×ₗ ℕ ×ₗ ℕ} {version : Version} :
    releaseKey core < version.precedence ↔ core < version.core := by
  unfold releaseKey Version.precedence
  rw [Prod.Lex.toLex_lt_toLex]
  constructor
  · rintro (less | ⟨_, top⟩)
    · exact less
    · exact absurd top not_top_lt
  · exact Or.inl

theorem core_le_of_floorKey_le {core : ℕ ×ₗ ℕ ×ₗ ℕ} {version : Version}
    (fromFloor : floorKey core ≤ version.precedence) : core ≤ version.core := by
  by_contra less
  rw [not_le] at less
  have above := releaseKey_lt_floorKey.mpr less
  exact absurd fromFloor (not_le.mpr ((precedence_le_release version).trans_lt above))

/-- A version between the `-0` and the release of three numbers is one of their
prereleases. -/
theorem core_eq_of_between {core : ℕ ×ₗ ℕ ×ₗ ℕ} {version : Version}
    (from_floor : floorKey core ≤ version.precedence)
    (below_release : version.precedence < releaseKey core) :
    version.core = core ∧ version.tag.hasPre = true := by
  have upward : core ≤ version.core := core_le_of_floorKey_le from_floor
  have downward : version.core ≤ core := by
    by_contra less
    rw [not_le] at less
    exact absurd below_release (not_lt.mpr (releaseKey_lt_precedence.mpr less).le)
  have same := le_antisymm downward upward
  refine ⟨same, ?_⟩
  by_contra release
  rw [Bool.not_eq_true] at release
  rw [precedence_release version release, same] at below_release
  exact absurd below_release (lt_irrefl _)

/-! ### The last patch -/

theorem checkedAddOne_some {n next : UInt64} (added : checkedAddOne n = some next) :
    next.toNat = n.toNat + 1 := by
  unfold checkedAddOne at added
  split at added
  · exact absurd added (by simp)
  · rename_i notMax
    obtain rfl := Option.some_inj.mp added
    have small : n.toNat ≠ 2 ^ 64 - 1 := fun same => notMax (UInt64.toNat_inj.mp same)
    have bound := n.toNat_lt
    rw [UInt64.toNat_add]
    change (n.toNat + 1) % 2 ^ 64 = n.toNat + 1
    exact Nat.mod_eq_of_lt (by omega)

theorem checkedAddOne_none {n : UInt64} (overflows : checkedAddOne n = none) :
    n.toNat = 2 ^ 64 - 1 := by
  unfold checkedAddOne at overflows
  split at overflows
  · rename_i isMax
    rw [isMax]
    rfl
  · exact absurd overflows (by simp)

theorem core_lt_iff (a b : Version) :
    a.core < b.core ↔ a.major.toNat < b.major.toNat ∨ a.major.toNat = b.major.toNat ∧
      (a.minor.toNat < b.minor.toNat ∨ a.minor.toNat = b.minor.toNat ∧
        a.patch.toNat < b.patch.toNat) := by
  unfold Version.core
  rw [Prod.Lex.toLex_lt_toLex, Prod.Lex.toLex_lt_toLex]

/-- `next` follows `version` without a gap. -/
theorem afterLastPatch_core {version next : Version} (last : isLastPatch version = true)
    (after : afterLastPatch version = some next) :
    next.tag.hasPre = false ∧ version.core < next.core ∧
      ∀ other : Version, version.core < other.core → next.core ≤ other.core := by
  have patch : version.patch.toNat = 2 ^ 64 - 1 := by
    unfold isLastPatch at last
    rw [Bool.and_eq_true, beq_iff_eq] at last
    rw [last.1]
    rfl
  unfold afterLastPatch at after
  split at after
  · rename_i minor added
    obtain rfl := Option.some_inj.mp after
    have successor := checkedAddOne_some added
    refine ⟨rfl, ?_, ?_⟩
    · rw [core_lt_iff]
      exact Or.inr ⟨rfl, Or.inl (by change version.minor.toNat < minor.toNat; omega)⟩
    · intro other less
      rw [← not_lt, core_lt_iff]
      rw [core_lt_iff] at less
      have bound := other.patch.toNat_lt
      change ¬ (other.major.toNat < version.major.toNat ∨ other.major.toNat = version.major.toNat ∧
        (other.minor.toNat < minor.toNat ∨ other.minor.toNat = minor.toNat ∧
          other.patch.toNat < 0))
      omega
  · rename_i overflows
    have minorMax := checkedAddOne_none overflows
    obtain ⟨major, added, rfl⟩ := Option.map_eq_some_iff.mp after
    have successor := checkedAddOne_some added
    refine ⟨rfl, ?_, ?_⟩
    · rw [core_lt_iff]
      exact Or.inl (by change version.major.toNat < major.toNat; omega)
    · intro other less
      rw [← not_lt, core_lt_iff]
      rw [core_lt_iff] at less
      have minorBound := other.minor.toNat_lt
      have patchBound := other.patch.toNat_lt
      change ¬ (other.major.toNat < major.toNat ∨ other.major.toNat = major.toNat ∧
        (other.minor.toNat < 0 ∨ other.minor.toNat = 0 ∧ other.patch.toNat < 0))
      omega

theorem afterLastPatch_none {version : Version} (last : isLastPatch version = true)
    (after : afterLastPatch version = none) (other : Version) : other.core ≤ version.core := by
  have patch : version.patch.toNat = 2 ^ 64 - 1 := by
    unfold isLastPatch at last
    rw [Bool.and_eq_true, beq_iff_eq] at last
    rw [last.1]
    rfl
  unfold afterLastPatch at after
  split at after
  · exact absurd after (by simp)
  · rename_i overflows
    have minorMax := checkedAddOne_none overflows
    have majorMax := checkedAddOne_none (Option.map_eq_none_iff.mp after)
    have majorBound := other.major.toNat_lt
    have minorBound := other.minor.toNat_lt
    have patchBound := other.patch.toNat_lt
    rw [← not_lt, core_lt_iff]
    omega

theorem isLastPatch_release {version : Version} (last : isLastPatch version = true) :
    version.tag.hasPre = false := by
  unfold isLastPatch at last
  rw [Bool.and_eq_true, Bool.not_eq_true'] at last
  exact last.2

/-- A version above the last patch is the `-0` of the next version or above it. -/
theorem floorKey_next_le {version next other : Version} (last : isLastPatch version = true)
    (after : afterLastPatch version = some next) (above : version.precedence < other.precedence) :
    floorKey next.core ≤ other.precedence := by
  rw [precedence_release version (isLastPatch_release last), releaseKey_lt_precedence] at above
  exact (floorKey_le_floorKey ((afterLastPatch_core last after).2.2 other above)).trans
    (floorKey_le other)

theorem lt_floorKey_next {version next : Version} (last : isLastPatch version = true)
    (after : afterLastPatch version = some next) : version.precedence < floorKey next.core := by
  rw [precedence_release version (isLastPatch_release last), releaseKey_lt_floorKey]
  exact (afterLastPatch_core last after).2.1

/-! ### The lowest version -/

def lowest : Version :=
  { tag := .zeroPre }

theorem zero_core_le (version : Version) : ({} : Version).core ≤ version.core := by
  rw [← not_lt, core_lt_iff]
  change ¬ (version.major.toNat < 0 ∨ version.major.toNat = 0 ∧ (version.minor.toNat < 0 ∨
    version.minor.toNat = 0 ∧ version.patch.toNat < 0))
  omega

theorem lowest_precedence : lowest.precedence = floorKey ({} : Version).core :=
  precedence_zeroPre {}

theorem lowest_le (version : Version) : lowest.precedence ≤ version.precedence := by
  rw [lowest_precedence]
  exact (floorKey_le_floorKey (zero_core_le version)).trans (floorKey_le version)

theorem isZero_iff (version : Version) : version.isZero = true ↔ version.core = ({} : Version).core := by
  rw [← sameNumbers_iff]
  unfold Version.isZero sameNumbers
  simp only [Bool.and_eq_true, beq_iff_eq]
  tauto

end Bun.Semver
