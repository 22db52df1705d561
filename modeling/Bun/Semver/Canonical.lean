/-
What the canonical form of an interval can be.

Each side is kept, dropped or moved to another bound, and the two lemmas on the sides
list every case with the reason for it.
-/

import Bun.Semver.IntervalCuts

set_option autoImplicit false

namespace Bun.Semver

open Bun.Foundation

namespace Comparator

/-- `=`, `>` and `>=`. -/
def boundsBelow (c : Comparator) : Bool :=
  c.op = .eql || c.op = .gt || c.op = .gte

/-- `=`, `<` and `<=`. -/
def boundsAbove (c : Comparator) : Bool :=
  c.op = .eql || c.op = .lt || c.op = .lte

theorem lowerBound_some {c : Comparator} {b : Bound} (bound : c.lowerBound = some b) :
    c.boundsBelow = true ∧ b.version = c.version ∧ (b.inclusive = false ↔ c.op = .gt) := by
  unfold lowerBound at bound
  unfold boundsBelow
  cases op : c.op with
  | unset | lt | lte =>
      rw [op] at bound
      exact absurd bound (by simp)
  | eql | gt | gte =>
      rw [op] at bound
      obtain rfl := Option.some_inj.mp bound
      exact ⟨by simp, rfl, by simp⟩

theorem upperBound_some {c : Comparator} {b : Bound} (bound : c.upperBound = some b) :
    c.boundsAbove = true ∧ b.version = c.version ∧ (b.inclusive = false ↔ c.op = .lt) := by
  unfold upperBound at bound
  unfold boundsAbove
  cases op : c.op with
  | unset | gt | gte =>
      rw [op] at bound
      exact absurd bound (by simp)
  | eql | lt | lte =>
      rw [op] at bound
      obtain rfl := Option.some_inj.mp bound
      exact ⟨by simp, rfl, by simp⟩

theorem lowerBound_isSome {c : Comparator} (below : c.boundsBelow = true) :
    c.lowerBound.isSome = true := by
  unfold boundsBelow at below
  unfold lowerBound
  cases op : c.op <;> rw [op] at below <;> first | rfl | exact absurd below (by decide)

theorem upperBound_isSome {c : Comparator} (above : c.boundsAbove = true) :
    c.upperBound.isSome = true := by
  unfold boundsAbove at above
  unfold upperBound
  cases op : c.op <;> rw [op] at above <;> first | rfl | exact absurd above (by decide)

theorem isPreOf_iff (c : Comparator) (version : Version) :
    c.isPreOf version = true ↔
      c.op ≠ .unset ∧ c.version.tag.hasPre = true ∧ c.version.core = version.core := by
  unfold isPreOf
  rw [Bool.and_eq_true, Bool.and_eq_true, decide_eq_true_iff, sameNumbers_iff, and_assoc]

theorem isFloor_iff (c : Comparator) :
    c.isFloor = true ↔
      c.op = .gte ∧ c.version.core = ({} : Version).core ∧ c.version.tag.hasPre = false := by
  unfold isFloor
  rw [Bool.and_eq_true, Bool.and_eq_true, decide_eq_true_iff, isZero_iff, Bool.not_eq_true',
    and_assoc]

theorem bounds_of_set {c : Comparator} (set : c.op ≠ .unset) :
    c.boundsBelow = true ∨ c.boundsAbove = true := by
  unfold boundsBelow boundsAbove
  cases op : c.op with
  | unset => exact absurd op set
  | eql | gt | gte => exact Or.inl (by simp)
  | lt | lte => exact Or.inr (by simp)

end Comparator

theorem pre_zero_precedence {version : Version} (pre : version.tag.hasPre = true)
    (zero : version.tag.pre = ascii "0") : version.precedence = floorKey version.core := by
  have identifiers : Tag.zeroPre.identifiers = [Identifier.number 0] := by
    decide +kernel
  have same : version.tag.identifiers = Tag.zeroPre.identifiers := by
    unfold Tag.identifiers
    rw [zero]
    rfl
  unfold Version.precedence Tag.precedence floorKey
  rw [if_pos pre, same, identifiers]

namespace Interval

/-! ### The lower side -/

def canonicalLower (lower : Option Bound) : Option Bound :=
  canonicalZero (canonicalExclusive lower)

theorem canonical_lower (interval : Interval) :
    interval.canonical.lower = canonicalLower interval.lower :=
  rfl

theorem isZero_eq_false_of_lt {a b : Version} (less : a.core < b.core) : b.isZero = false := by
  by_contra zero
  rw [Bool.not_eq_false, isZero_iff] at zero
  rw [zero] at less
  exact absurd less (not_lt.mpr (zero_core_le a))

/-- The bound `>major.minor.MAX` moves to the next version, `>=0.0.0` is dropped, and
every other bound stays. -/
theorem canonicalLower_cases (b : Bound) :
    (b.inclusive = false ∧ isLastPatch b.version = true ∧
        ∃ next, afterLastPatch b.version = some next ∧
          canonicalLower (some b) = some { version := next, inclusive := true }) ∨
      (b.inclusive = true ∧ b.version.core = ({} : Version).core ∧
        b.version.tag.hasPre = false ∧ canonicalLower (some b) = none) ∨
      (¬ (b.inclusive = true ∧ b.version.core = ({} : Version).core ∧
          b.version.tag.hasPre = false) ∧
        canonicalLower (some b) = some b) := by
  unfold canonicalLower canonicalExclusive
  rw [Option.map_some]
  cases moved : (!b.inclusive && isLastPatch b.version) with
  | true =>
      rw [Bool.and_eq_true, Bool.not_eq_true'] at moved
      cases after : afterLastPatch b.version with
      | none =>
          refine Or.inr (Or.inr ⟨fun zero => ?_, ?_⟩)
          · rw [moved.1] at zero
            exact absurd zero.1 Bool.false_ne_true
          · unfold canonicalZero
            rw [if_pos rfl, Option.any_some, moved.1]
            rfl
      | some next =>
          refine Or.inl ⟨moved.1, moved.2, next, rfl, ?_⟩
          have notZero := isZero_eq_false_of_lt (afterLastPatch_core moved.2 after).2.1
          unfold canonicalZero
          rw [if_pos rfl, Option.any_some, notZero]
          rfl
  | false =>
      rw [if_neg Bool.false_ne_true]
      unfold canonicalZero
      rw [Option.any_some]
      split
      · rename_i dropped
        rw [Bool.and_eq_true, Bool.and_eq_true, Bool.not_eq_true', isZero_iff] at dropped
        exact Or.inr (Or.inl ⟨dropped.1.1, dropped.1.2, dropped.2, rfl⟩)
      · rename_i stays
        rw [Bool.and_eq_true, Bool.and_eq_true, Bool.not_eq_true', isZero_iff, and_assoc] at stays
        exact Or.inr (Or.inr ⟨stays, rfl⟩)

theorem canonicalLower_pre {b : Bound} (pre : b.version.tag.hasPre = true) :
    canonicalLower (some b) = some b := by
  rcases canonicalLower_cases b with ⟨_, last, _⟩ | ⟨_, _, release, _⟩ | ⟨_, kept⟩
  · rw [isLastPatch_release last] at pre
    exact absurd pre Bool.false_ne_true
  · rw [release] at pre
    exact absurd pre Bool.false_ne_true
  · exact kept

/-! ### The upper side -/

def StartsInPre (lower : Option Bound) (version : Version) : Prop :=
  ∃ l, lower = some l ∧ l.version.tag.hasPre = true ∧ l.version.core = version.core

theorem startsInPre_iff (lower : Option Bound) (version : Version) :
    lower.any (fun lower => lower.version.tag.hasPre && lower.version.major == version.major &&
        lower.version.minor == version.minor && lower.version.patch == version.patch) = true ↔
      StartsInPre lower version := by
  unfold StartsInPre
  cases lower with
  | none =>
      rw [Option.any_none]
      simp
  | some l =>
      rw [Option.any_some]
      have numbers := sameNumbers_iff l.version version
      unfold sameNumbers at numbers
      simp only [Bool.and_eq_true, Option.some.injEq, exists_eq_left'] at numbers ⊢
      rw [← numbers]
      tauto

theorem canonicalRelease_cases (lower : Option Bound) (b : Bound) :
    (b.inclusive = false ∧ b.version.tag.hasPre = false ∧ ¬ StartsInPre lower b.version ∧
        canonicalRelease lower (some b) =
          some { b with version := { b.version with tag := .zeroPre } }) ∨
      ((b.inclusive = true ∨ b.version.tag.hasPre = true ∨ StartsInPre lower b.version) ∧
        canonicalRelease lower (some b) = some b) := by
  unfold canonicalRelease
  rw [Option.map_some]
  cases lowered : (!b.inclusive && !b.version.tag.hasPre &&
      !lower.any (fun lower => lower.version.tag.hasPre &&
        lower.version.major == b.version.major && lower.version.minor == b.version.minor &&
        lower.version.patch == b.version.patch)) with
  | true =>
      rw [Bool.and_eq_true, Bool.and_eq_true, Bool.not_eq_true', Bool.not_eq_true',
        Bool.not_eq_true'] at lowered
      refine Or.inl ⟨lowered.1.1, lowered.1.2, fun starts => ?_, by rw [if_pos rfl]⟩
      rw [(startsInPre_iff lower b.version).mpr starts] at lowered
      exact absurd lowered.2 (by decide)
  | false =>
      refine Or.inr ⟨?_, by rw [if_neg Bool.false_ne_true]⟩
      rw [Bool.and_eq_false_iff, Bool.and_eq_false_iff, Bool.not_eq_false', Bool.not_eq_false',
        Bool.not_eq_false', startsInPre_iff, or_assoc] at lowered
      exact lowered

def canonicalUpper (lower upper : Option Bound) : Option Bound :=
  canonicalRelease lower (canonicalInclusive upper)

theorem canonical_upper (interval : Interval) :
    interval.canonical.upper = canonicalUpper (canonicalLower interval.lower) interval.upper :=
  rfl

/-- The bound `<=major.minor.MAX` moves up to the version that follows, and an open bound at
a release moves down to its `-0`. -/
theorem canonicalUpper_cases (lower : Option Bound) (b : Bound) :
    (b.inclusive = true ∧ isLastPatch b.version = true ∧ afterLastPatch b.version = none ∧
        canonicalUpper lower (some b) = none) ∨
      (b.inclusive = true ∧ isLastPatch b.version = true ∧
        ∃ next, afterLastPatch b.version = some next ∧
          (canonicalUpper lower (some b) =
              some { version := { next with tag := .zeroPre }, inclusive := false } ∨
            StartsInPre lower next ∧
              canonicalUpper lower (some b) = some { version := next, inclusive := false })) ∨
      (b.inclusive = false ∧ b.version.tag.hasPre = false ∧ ¬ StartsInPre lower b.version ∧
        canonicalUpper lower (some b) =
          some { version := { b.version with tag := .zeroPre }, inclusive := false }) ∨
      ((b.inclusive = true ∨ b.version.tag.hasPre = true ∨ StartsInPre lower b.version) ∧
        canonicalUpper lower (some b) = some b) := by
  unfold canonicalUpper canonicalInclusive
  rw [Option.bind_some]
  cases moved : (b.inclusive && isLastPatch b.version) with
  | true =>
      rw [Bool.and_eq_true] at moved
      rw [if_pos rfl]
      cases after : afterLastPatch b.version with
      | none => exact Or.inl ⟨moved.1, moved.2, rfl, rfl⟩
      | some next =>
          refine Or.inr (Or.inl ⟨moved.1, moved.2, next, rfl, ?_⟩)
          rw [Option.map_some]
          have release := (afterLastPatch_core moved.2 after).1
          rcases canonicalRelease_cases lower { version := next, inclusive := false } with
            ⟨_, _, _, lowered⟩ | ⟨reason, kept⟩
          · exact Or.inl lowered
          · refine Or.inr ⟨?_, kept⟩
            rcases reason with closed | pre | starts
            · exact absurd closed Bool.false_ne_true
            · rw [release] at pre
              exact absurd pre Bool.false_ne_true
            · exact starts
  | false =>
      rw [if_neg Bool.false_ne_true]
      rcases canonicalRelease_cases lower b with ⟨opened, release, apart, lowered⟩ | kept
      · rw [opened] at lowered
        exact Or.inr (Or.inr (Or.inl ⟨opened, release, apart, lowered⟩))
      · exact Or.inr (Or.inr (Or.inr kept))

theorem canonicalUpper_pre {lower : Option Bound} {b : Bound}
    (pre : b.version.tag.hasPre = true) : canonicalUpper lower (some b) = some b := by
  rcases canonicalUpper_cases lower b with ⟨_, last, _⟩ | ⟨_, last, _⟩ | ⟨_, release, _⟩ | ⟨_, kept⟩
  · rw [isLastPatch_release last] at pre
    exact absurd pre Bool.false_ne_true
  · rw [isLastPatch_release last] at pre
    exact absurd pre Bool.false_ne_true
  · rw [release] at pre
    exact absurd pre Bool.false_ne_true
  · exact kept

/-! ### The prerelease bounds -/

/-- The bounds that `prereleasesCanSatisfy` looks at. -/
def preBounds (interval : Interval) : List Bound :=
  (interval.lower.filter fun it => it.version.tag.hasPre).toList ++
    (interval.upper.filter fun it =>
      it.version.tag.hasPre && (it.inclusive || it.version.tag.pre != ascii "0")).toList

theorem mem_preBounds_lower {interval : Interval} {b : Bound} (isLower : interval.lower = some b)
    (pre : b.version.tag.hasPre = true) : b ∈ interval.preBounds := by
  unfold preBounds
  rw [List.mem_append, Option.mem_toList, Option.mem_toList, isLower]
  exact Or.inl (Option.filter_eq_some_iff.mpr ⟨rfl, pre⟩)

theorem mem_preBounds_upper {interval : Interval} {b : Bound} (isUpper : interval.upper = some b)
    (pre : b.version.tag.hasPre = true)
    (counts : b.inclusive = true ∨ b.version.tag.pre ≠ ascii "0") : b ∈ interval.preBounds := by
  unfold preBounds
  rw [List.mem_append, Option.mem_toList, Option.mem_toList, isUpper]
  refine Or.inr (Option.filter_eq_some_iff.mpr ⟨rfl, ?_⟩)
  rw [Bool.and_eq_true, Bool.or_eq_true, bne_iff_ne]
  exact ⟨pre, counts⟩

theorem isPrereleaseOf_eq (bound : Bound) (c : Comparator) :
    isPrereleaseOf bound c = c.isPreOf bound.version := by
  unfold isPrereleaseOf Comparator.isPreOf sameNumbers
  simp only [Bool.and_assoc]

theorem prereleasesCanSatisfy_iff (interval : Interval) (query : Query) :
    interval.prereleasesCanSatisfy query = true ↔
      ∀ bound ∈ interval.preBounds, ∃ c ∈ query.comparators, c.isPreOf bound.version = true := by
  unfold prereleasesCanSatisfy preBounds
  rw [List.all_eq_true]
  refine forall₂_congr fun bound _ => ?_
  simp only [isPrereleaseOf_eq]
  exact query.matched_iff bound.version

end Interval

end Bun.Semver
