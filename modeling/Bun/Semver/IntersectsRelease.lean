/-
The intersection test is symmetric and finds every release that two groups share.

The order of the two groups does not matter to the bounds that an interval ends with,
and a release satisfies a chain of comparators only from inside their interval.
-/

import Bun.Semver.IntervalCuts
import Bun.Semver.QueryParse

set_option autoImplicit false

namespace Bun.Semver

open Bun.Foundation

/-! ### Precedence decides -/

theorem Comparator.satisfies_congr {a b : Version} (same : a.precedence = b.precedence)
    (c : Comparator) : c.satisfies a = c.satisfies b := by
  rw [Bool.eq_iff_iff, c.satisfies_eq, c.satisfies_eq, same]

theorem Query.Holds.congr {query : Query} {a b : Version} (holds : query.Holds a)
    (same : a.precedence = b.precedence) : query.Holds b := by
  intro c member set
  rw [← c.satisfies_congr same]
  exact holds c member set

/-- A chain of one `=version` holds of that precedence only. -/
theorem Query.exactVersion_spec {query : Query} {wanted version : Version}
    (isExact : query.exactVersion = some wanted) (holds : query.Holds version) :
    version.precedence = wanted.precedence := by
  unfold Query.exactVersion at isExact
  split at isExact
  · rename_i shape
    rw [Bool.and_eq_true, Bool.and_eq_true, decide_eq_true_iff] at shape
    obtain rfl := Option.some_inj.mp isExact
    have op := shape.1.2
    have member : query.range.left ∈ query.comparators :=
      (query.mem_comparators _).mpr ⟨query.range, List.mem_cons_self, Or.inl rfl⟩
    have satisfied := holds query.range.left member (by rw [op]; decide)
    rw [Comparator.satisfies_eq, op] at satisfied
    exact satisfied
  · exact absurd isExact (by simp)

/-! ### Ranges against ranges -/

def Apart (comparators : List Comparator) : Prop :=
  ∀ l ∈ comparators, ∀ u ∈ comparators,
    ((l.lowerCut : Cut Precedence) : WithTop (Cut Precedence)) < u.upperCut

theorem Apart.of_subset {part whole : List Comparator} (apart : Apart whole)
    (subset : part ⊆ whole) : Apart part :=
  fun l inLower u inUpper => apart l (subset inLower) u (subset inUpper)

def Meets (group other : Group) : Prop :=
  ∃ a ∈ group.alternatives, a.exactVersion = none ∧
    ∃ b ∈ other.alternatives, b.exactVersion = none ∧ Apart (a.comparators ++ b.comparators)

theorem Meets.symm {group other : Group} (meets : Meets group other) : Meets other group := by
  obtain ⟨a, inGroup, aRange, b, inOther, bRange, apart⟩ := meets
  refine ⟨b, inOther, bRange, a, inGroup, aRange, apart.of_subset ?_⟩
  intro c member
  exact List.mem_append.mpr (List.mem_append.mp member).symm

theorem Group.intersects_iff (group other : Group) :
    group.intersects other = true ↔
      group.admitsAnExactVersionOf other = true ∨ other.admitsAnExactVersionOf group = true ∨
        Meets group other := by
  unfold Group.intersects Meets
  rw [Bool.or_eq_true, Bool.or_eq_true, or_assoc, List.any_eq_true]
  refine or_congr Iff.rfl (or_congr Iff.rfl ?_)
  simp only [Group.isRange, List.mem_filter, Option.isNone_iff_eq_none, Bool.and_eq_true,
    List.any_eq_true, Interval.andQuery_eq]
  constructor
  · rintro ⟨a, ⟨inGroup, aRange⟩, _, b, ⟨inOther, bRange⟩, room⟩
    unfold Interval.narrowAll at room
    rw [← List.foldl_append] at room
    exact ⟨a, inGroup, aRange, b, inOther, bRange,
      (Interval.isNonEmpty_narrowAll_iff _).mp room⟩
  · rintro ⟨a, inGroup, aRange, b, inOther, bRange, apart⟩
    refine ⟨a, ⟨inGroup, aRange⟩, ?_, b, ⟨inOther, bRange⟩, ?_⟩
    · exact (Interval.isNonEmpty_narrowAll_iff _).mpr
        (apart.of_subset (List.subset_append_left _ _))
    · unfold Interval.narrowAll
      rw [← List.foldl_append]
      exact (Interval.isNonEmpty_narrowAll_iff _).mpr apart

theorem Group.intersects_comm (group other : Group) :
    group.intersects other = other.intersects group := by
  rw [Bool.eq_iff_iff, Group.intersects_iff, Group.intersects_iff]
  constructor
  · rintro (left | right | meets)
    · exact Or.inr (Or.inl left)
    · exact Or.inl right
    · exact Or.inr (Or.inr meets.symm)
  · rintro (left | right | meets)
    · exact Or.inr (Or.inl left)
    · exact Or.inl right
    · exact Or.inr (Or.inr meets.symm)

/-! ### Releases in common -/

/-- For a release `>=0.0.0` is no exception. -/
theorem Comparator.spans_of_release {c : Comparator} {version : Version}
    (release : version.tag.hasPre = false) (holds : c.op ≠ .unset → c.satisfies version = true) :
    c.Spans version := by
  by_cases set : c.op = .unset
  · unfold Comparator.Spans Comparator.lowerCut Comparator.upperCut
    rw [set]
    exact ⟨Comparator.lowest_cut_le version, le_top⟩
  · rcases (c.satisfies_iff version set).mp (holds set) with floor | spans
    · have op := Comparator.isFloor_op floor
      unfold Comparator.isFloor at floor
      rw [Bool.and_eq_true, Bool.and_eq_true, Bool.not_eq_true', isZero_iff] at floor
      obtain ⟨⟨_, zero⟩, noPre⟩ := floor
      unfold Comparator.Spans Comparator.lowerCut Comparator.upperCut
      rw [op]
      refine ⟨Cut.below_le_below.mpr ?_, le_top⟩
      rw [precedence_release _ noPre, precedence_release _ release, zero]
      exact releaseKey_le_releaseKey (zero_core_le version)
    · exact spans

theorem apart_of_spans {comparators : List Comparator} {version : Version}
    (spans : ∀ c ∈ comparators, c.Spans version) : Apart comparators := by
  intro l inLower u inUpper
  have inside : Cut.below version.precedence < Cut.above version.precedence :=
    Cut.below_lt_above.mpr (le_refl _)
  calc ((l.lowerCut : Cut Precedence) : WithTop (Cut Precedence))
      ≤ (Cut.below version.precedence : Cut Precedence) :=
        WithTop.coe_le_coe.mpr (spans l inLower).1
    _ < (Cut.above version.precedence : Cut Precedence) := WithTop.coe_lt_coe.mpr inside
    _ ≤ u.upperCut := (spans u inUpper).2

theorem Group.admitsAnExactVersionOf_of_holds {group other : Group}
    (wellFormed : group.WellFormed) {a b : Query} (inGroup : a ∈ group.alternatives)
    (inOther : b ∈ other.alternatives) {wanted version : Version}
    (release : version.tag.hasPre = false) (isExact : b.exactVersion = some wanted)
    (left : a.Holds version) (right : b.Holds version) :
    group.admitsAnExactVersionOf other = true := by
  have same := Query.exactVersion_spec isExact right
  unfold Group.admitsAnExactVersionOf
  rw [List.any_eq_true]
  refine ⟨wanted, List.mem_filterMap.mpr ⟨b, inOther, isExact⟩, ?_⟩
  unfold Group.admits
  rw [Bool.or_eq_true, group.satisfies_iff wellFormed]
  refine Or.inl ⟨a, inGroup, left.congr same, fun pre => ?_⟩
  rw [← Version.hasPre_eq_of_precedence_eq same, release] at pre
  exact absurd pre Bool.false_ne_true

theorem Group.intersects_of_release {group other : Group} (groupFormed : group.WellFormed)
    (otherFormed : other.WellFormed) {version : Version} (release : version.tag.hasPre = false)
    (left : group.satisfies version = true) (right : other.satisfies version = true) :
    group.intersects other = true := by
  obtain ⟨a, inGroup, aHolds, _⟩ := (group.satisfies_iff groupFormed version).mp left
  obtain ⟨b, inOther, bHolds, _⟩ := (other.satisfies_iff otherFormed version).mp right
  rw [Group.intersects_iff]
  cases aExact : a.exactVersion with
  | some wanted =>
      exact Or.inr (Or.inl (Group.admitsAnExactVersionOf_of_holds otherFormed inOther inGroup
        release aExact bHolds aHolds))
  | none =>
      cases bExact : b.exactVersion with
      | some wanted =>
          exact Or.inl (Group.admitsAnExactVersionOf_of_holds groupFormed inGroup inOther
            release bExact aHolds bHolds)
      | none =>
          have spans : ∀ c ∈ a.comparators ++ b.comparators, c.Spans version := by
            intro c member
            rcases List.mem_append.mp member with inA | inB
            · exact Comparator.spans_of_release release (aHolds c inA)
            · exact Comparator.spans_of_release release (bHolds c inB)
          exact Or.inr (Or.inr ⟨a, inGroup, aExact, b, inOther, bExact, apart_of_spans spans⟩)

/-- The test gives the same answer from either side, and it finds every release that
satisfies both range expressions. -/
theorem Group.intersects_comm_and_complete (left right : List UInt8) :
    (Query.parse left).intersects (Query.parse right) =
        (Query.parse right).intersects (Query.parse left) ∧
      ∀ version : Version, version.tag.hasPre = false →
        (Query.parse left).satisfies version = true →
        (Query.parse right).satisfies version = true →
        (Query.parse left).intersects (Query.parse right) = true :=
  ⟨Group.intersects_comm _ _, fun _ release satisfiesLeft satisfiesRight =>
    Group.intersects_of_release (Query.parse_wellFormed left) (Query.parse_wellFormed right) release
      satisfiesLeft satisfiesRight⟩

/-- Two ranges that meet at one release, and an exact version inside a range. -/
theorem Group.intersects_at_shared_release :
    (Query.parse (ascii "<=1.2.3")).intersects (Query.parse (ascii ">=1.2.3")) = true ∧
      (Query.parse (ascii "1.2.3")).intersects (Query.parse (ascii "^1.2.0")) = true :=
  ⟨(Group.intersects_comm_and_complete (ascii "<=1.2.3") (ascii ">=1.2.3")).2
      { major := 1, minor := 2, patch := 3 } rfl (by decide +kernel) (by decide +kernel),
    (Group.intersects_comm_and_complete (ascii "1.2.3") (ascii "^1.2.0")).2
      { major := 1, minor := 2, patch := 3 } rfl (by decide +kernel) (by decide +kernel)⟩

end Bun.Semver
