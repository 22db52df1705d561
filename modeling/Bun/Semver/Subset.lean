/-
When the subset test may be trusted.

The test compares canonical intervals.  A canonical interval is the set of versions
that an alternative accepts, except at the prereleases of `0.0.0` and of the version
that follows a bound `major.minor.MAX`.  What two groups accept of those changes only
at the prereleases that their comparators name, so a few of them tell whether the test
is right.
-/

import Bun.Semver.Canonical
import Bun.Semver.QueryParse

set_option autoImplicit false

namespace Bun.Semver

open Bun.Foundation

/-! ### The prereleases at the edges -/

/-- `1.2.3-alpha.0` for `1.2.3-alpha`: nothing is between the two. -/
def Version.follower (version : Version) : Version :=
  { version with tag := { pre := version.tag.pre ++ ascii ".0" } }

/-- The versions after `>major.minor.MAX`. -/
def Query.skipped (query : Query) : List Version :=
  query.comparators.filterMap fun c =>
    if c.op = .gt ∧ isLastPatch c.version = true then afterLastPatch c.version else none

/-- The versions after `<=major.minor.MAX` and `=major.minor.MAX`. -/
def Query.grown (query : Query) : List Version :=
  query.comparators.filterMap fun c =>
    if (c.op = .lte ∨ c.op = .eql) ∧ isLastPatch c.version = true then afterLastPatch c.version
    else none

namespace Group

def comparators (group : Group) : List Comparator :=
  group.alternatives.flatMap Query.comparators

/-- The versions whose prereleases the test may get wrong. -/
def edgeNumbers (group other : Group) : List Version :=
  {} :: (group.alternatives.flatMap Query.skipped ++ other.alternatives.flatMap Query.grown)

/-- The lowest prerelease of a version, and each one that a comparator names, with the one that
follows it. -/
def edgesOf (comparators : List Comparator) (numbers : Version) : List Version :=
  { numbers with tag := .zeroPre } ::
    ((comparators.filter (·.isPreOf numbers)).map (·.version)).flatMap fun m => [m, m.follower]

def edges (group other : Group) : List Version :=
  (group.edgeNumbers other).flatMap (edgesOf (group.comparators ++ other.comparators))

end Group

namespace Query

def interval (query : Query) : Interval :=
  ({} : Interval).narrowAll query.comparators

theorem andQuery_interval (query : Query) : ({} : Interval).andQuery query = query.interval :=
  Interval.andQuery_eq {} query

/-! ### The strongest comparators -/

theorem strongest_lower {query : Query} {b : Bound} (found : query.interval.lower = some b) :
    ∃ c ∈ query.comparators, c.lowerBound = some b ∧
      ∀ d ∈ query.comparators, d.lowerCut ≤ b.lowerCut := by
  obtain ⟨c, member, bound⟩ := Interval.lower_source found
  refine ⟨c, member, bound, fun d inQuery => ?_⟩
  have le := Interval.lowerCut_le inQuery
  unfold Interval.lowerCut at le
  rw [show (({} : Interval).narrowAll query.comparators).lower = some b from found] at le
  exact le

theorem strongest_upper {query : Query} {b : Bound} (found : query.interval.upper = some b) :
    ∃ c ∈ query.comparators, c.upperBound = some b ∧
      ∀ d ∈ query.comparators, ((b.upperCut : Cut Precedence) : WithTop (Cut Precedence)) ≤ d.upperCut := by
  obtain ⟨c, member, bound⟩ := Interval.upper_source found
  refine ⟨c, member, bound, fun d inQuery => ?_⟩
  have le := Interval.upperCut_le inQuery
  unfold Interval.upperCut at le
  rw [show (({} : Interval).narrowAll query.comparators).upper = some b from found] at le
  exact le

end Query

namespace Comparator

theorem lowerCut_of_bound {c : Comparator} {b : Bound} (bound : c.lowerBound = some b) :
    c.lowerCut = b.lowerCut := by
  rw [c.lowerCut_eq, bound]
  rfl

theorem upperCut_of_bound {c : Comparator} {b : Bound} (bound : c.upperBound = some b) :
    c.upperCut = (b.upperCut : Cut Precedence) := by
  rw [c.upperCut_eq, bound]
  rfl

theorem version_le_of_lowerCut {c : Comparator} {point : Precedence} (below : c.boundsBelow = true)
    (le : c.lowerCut ≤ Cut.below point) : c.version.precedence ≤ point := by
  obtain ⟨b, bound⟩ := Option.isSome_iff_exists.mp (lowerBound_isSome below)
  rw [lowerCut_of_bound bound] at le
  rw [← (lowerBound_some bound).2.1]
  exact Cut.point_le le

theorem le_version_of_upperCut {c : Comparator} {point : Precedence} (above : c.boundsAbove = true)
    (le : ((Cut.above point : Cut Precedence) : WithTop (Cut Precedence)) ≤ c.upperCut) :
    point ≤ c.version.precedence := by
  obtain ⟨b, bound⟩ := Option.isSome_iff_exists.mp (upperBound_isSome above)
  rw [upperCut_of_bound bound, WithTop.coe_le_coe] at le
  rw [← (upperBound_some bound).2.1]
  exact Cut.point_le le

theorem set_of_below {c : Comparator} (below : c.boundsBelow = true) : c.op ≠ .unset := by
  intro unset
  unfold boundsBelow at below
  rw [unset] at below
  exact absurd below (by decide)

theorem set_of_above {c : Comparator} (above : c.boundsAbove = true) : c.op ≠ .unset := by
  intro unset
  unfold boundsAbove at above
  rw [unset] at above
  exact absurd above (by decide)

theorem spans_of_above {c : Comparator} {version : Version} (above : c.boundsAbove = true)
    (satisfied : c.op ≠ .unset → c.satisfies version = true) : c.Spans version := by
  have set := set_of_above above
  rcases (c.satisfies_iff version set).mp (satisfied set) with floor | spans
  · unfold boundsAbove at above
    rw [isFloor_op floor] at above
    exact absurd above (by decide)
  · exact spans

theorem isPreOf_congr {c : Comparator} {a b : Version} (isPre : c.isPreOf a = true)
    (same : a.core = b.core) : c.isPreOf b = true := by
  rw [isPreOf_iff] at isPre ⊢
  exact ⟨isPre.1, isPre.2.1, isPre.2.2.trans same⟩

end Comparator

/-! ### The left side of the test -/

namespace Query

variable {query : Query} {version : Version}

/-- What a chain that bounds a version from below by one of its prereleases makes of the
strongest lower bound: another of them, or `>=0.0.0`. -/
theorem starts_in_pre (holds : query.Holds version) (preVersion : version.tag.hasPre = true)
    {d : Comparator} (member : d ∈ query.comparators) (below : d.boundsBelow = true)
    (isPre : d.isPreOf version = true) :
    Interval.StartsInPre query.interval.lower version ∨
      (∃ c ∈ query.comparators, c.isFloor = true) ∧ version.isZero = true := by
  obtain ⟨_, _, numbers⟩ := (d.isPreOf_iff version).mp isPre
  obtain ⟨b, found⟩ := Interval.exists_lower member (Comparator.lowerBound_isSome below)
  obtain ⟨c, inQuery, bound, strongest⟩ := strongest_lower found
  obtain ⟨cBelow, same, _⟩ := Comparator.lowerBound_some bound
  have fromFloor : floorKey version.core ≤ c.version.precedence := by
    rw [← numbers, ← same]
    have le : d.lowerCut ≤ b.lowerCut := strongest d member
    obtain ⟨dBound, isBound⟩ := Option.isSome_iff_exists.mp (Comparator.lowerBound_isSome below)
    rw [Comparator.lowerCut_of_bound isBound] at le
    have versions := Cut.point_le le
    rw [(Comparator.lowerBound_some isBound).2.1] at versions
    exact (floorKey_le d.version).trans versions
  have set := Comparator.set_of_below cBelow
  rcases (c.satisfies_iff version set).mp (holds c inQuery set) with floor | spans
  · refine Or.inr ⟨⟨c, inQuery, floor⟩, ?_⟩
    obtain ⟨_, zero, _⟩ := c.isFloor_iff.mp floor
    rw [isZero_iff]
    refine le_antisymm ?_ (zero_core_le version)
    rw [← zero]
    exact core_le_of_floorKey_le fromFloor
  · have belowRelease : c.version.precedence < releaseKey version.core :=
      (Comparator.version_le_of_lowerCut cBelow spans.1).trans_lt
        (precedence_pre_lt version preVersion)
    obtain ⟨core, pre⟩ := core_eq_of_between fromFloor belowRelease
    exact Or.inl ⟨b, found, by rw [same]; exact pre, by rw [same]; exact core⟩

/-- An upper bound at a prerelease of the version's numbers makes the strongest one such a
prerelease, and one that lets some version in. -/
theorem ends_in_pre (holds : query.Holds version) {d : Comparator}
    (member : d ∈ query.comparators) (above : d.boundsAbove = true)
    (isPre : d.isPreOf version = true) :
    ∃ u, query.interval.upper = some u ∧ u.version.tag.hasPre = true ∧
      u.version.core = version.core ∧ (u.inclusive = true ∨ u.version.tag.pre ≠ ascii "0") := by
  obtain ⟨_, dPre, numbers⟩ := (d.isPreOf_iff version).mp isPre
  obtain ⟨u, found⟩ := Interval.exists_upper member (Comparator.upperBound_isSome above)
  obtain ⟨c, inQuery, bound, strongest⟩ := strongest_upper found
  obtain ⟨cAbove, same, _⟩ := Comparator.upperBound_some bound
  have spans := Comparator.spans_of_above cAbove (holds c inQuery)
  have fromVersion : version.precedence ≤ c.version.precedence :=
    Comparator.le_version_of_upperCut cAbove spans.2
  have belowRelease : c.version.precedence < releaseKey version.core := by
    rw [← numbers, ← same]
    have le := strongest d member
    obtain ⟨dBound, isBound⟩ := Option.isSome_iff_exists.mp (Comparator.upperBound_isSome above)
    rw [Comparator.upperCut_of_bound isBound, WithTop.coe_le_coe] at le
    have versions := Cut.point_le le
    rw [(Comparator.upperBound_some isBound).2.1] at versions
    exact versions.trans_lt (precedence_pre_lt d.version dPre)
  obtain ⟨core, pre⟩ := core_eq_of_between ((floorKey_le version).trans fromVersion) belowRelease
  refine ⟨u, found, by rw [same]; exact pre, by rw [same]; exact core, ?_⟩
  by_contra neither
  rw [not_or, not_not, Bool.not_eq_true] at neither
  obtain ⟨opened, zero⟩ := neither
  have inside := spans.2
  rw [Comparator.upperCut_of_bound bound, WithTop.coe_le_coe] at inside
  unfold Bound.upperCut at inside
  rw [opened] at inside
  have less : version.precedence < u.version.precedence := Cut.above_le_below.mp inside
  rw [same] at less zero
  rw [pre_zero_precedence pre zero, core] at less
  exact absurd (floorKey_le version) (not_le.mpr less)

/-- A version below the canonical interval is a prerelease of the version after
`>major.minor.MAX`. -/
theorem canonical_lower_le (accepts : query.Accepts version)
    (ordinary : version.tag.hasPre = true → ∀ next ∈ query.skipped, version.core ≠ next.core) :
    query.interval.canonical.lowerCut ≤ Cut.below version.precedence := by
  unfold Interval.lowerCut
  rw [Interval.canonical_lower]
  cases found : query.interval.lower with
  | none => exact Comparator.lowest_cut_le version
  | some b =>
      obtain ⟨c, inQuery, bound, _⟩ := strongest_lower found
      obtain ⟨cBelow, same, opened⟩ := Comparator.lowerBound_some bound
      have set := Comparator.set_of_below cBelow
      rcases Interval.canonicalLower_cases b with
        ⟨exclusive, last, next, after, moved⟩ | ⟨_, _, _, dropped⟩ | ⟨notZero, kept⟩
      · rw [moved]
        refine Cut.below_le_below.mpr ?_
        by_contra above
        change ¬ next.precedence ≤ version.precedence at above
        rw [not_le, precedence_release next (afterLastPatch_core last after).1] at above
        rw [same] at last after
        have op := opened.mp exclusive
        have greater := (c.satisfies_eq version).mp (accepts.1 c inQuery set)
        rw [op] at greater
        obtain ⟨core, pre⟩ := core_eq_of_between (floorKey_next_le last after greater) above
        refine ordinary pre next (List.mem_filterMap.mpr ⟨c, inQuery, ?_⟩) core
        rw [if_pos ⟨op, last⟩]
        exact after
      · rw [dropped]
        exact Comparator.lowest_cut_le version
      · rw [kept]
        rcases (c.satisfies_iff version set).mp (accepts.1 c inQuery set) with floor | spans
        · obtain ⟨op, zero, release⟩ := c.isFloor_iff.mp floor
          refine absurd ⟨?_, ?_, ?_⟩ notZero
          · by_contra exclusive
            rw [Bool.not_eq_true, opened, op] at exclusive
            exact absurd exclusive (by decide)
          · rw [same]
            exact zero
          · rw [same]
            exact release
        · change b.lowerCut ≤ _
          rw [← Comparator.lowerCut_of_bound bound]
          exact spans.1

theorem le_canonical_upper (accepts : query.Accepts version)
    (ordinary : version.tag.hasPre = true → version.isZero = false) :
    ((Cut.above version.precedence : Cut Precedence) : WithTop (Cut Precedence)) ≤
      query.interval.canonical.upperCut := by
  unfold Interval.upperCut
  rw [Interval.canonical_upper]
  cases found : query.interval.upper with
  | none => exact le_top
  | some b =>
      obtain ⟨c, inQuery, bound, _⟩ := strongest_upper found
      obtain ⟨cAbove, same, _⟩ := Comparator.upperBound_some bound
      have spans := Comparator.spans_of_above cAbove (accepts.1 c inQuery)
      have atMost := Comparator.le_version_of_upperCut cAbove spans.2
      rw [← same] at atMost
      rcases Interval.canonicalUpper_cases (Interval.canonicalLower query.interval.lower) b with
        ⟨_, _, _, dropped⟩ | ⟨_, last, next, after, moved⟩ | ⟨opened, release, apart, lowered⟩ |
          ⟨_, kept⟩
      · rw [dropped]
        exact le_top
      · have less := atMost.trans_lt (lt_floorKey_next last after)
        rcases moved with toFloor | ⟨_, toNext⟩
        · rw [toFloor]
          refine WithTop.coe_le_coe.mpr (Cut.above_le_below.mpr ?_)
          rw [precedence_zeroPre]
          exact less
        · rw [toNext]
          refine WithTop.coe_le_coe.mpr (Cut.above_le_below.mpr ?_)
          rw [precedence_release next (afterLastPatch_core last after).1]
          exact less.trans (floorKey_lt_releaseKey next.core)
      · rw [lowered]
        refine WithTop.coe_le_coe.mpr (Cut.above_le_below.mpr ?_)
        rw [precedence_zeroPre]
        by_contra fromFloor
        rw [not_lt] at fromFloor
        have inside := spans.2
        rw [Comparator.upperCut_of_bound bound, WithTop.coe_le_coe] at inside
        unfold Bound.upperCut at inside
        rw [opened] at inside
        have less : version.precedence < b.version.precedence := Cut.above_le_below.mp inside
        rw [precedence_release b.version release] at less
        obtain ⟨core, preVersion⟩ := core_eq_of_between fromFloor less
        obtain ⟨d, member, isPre⟩ := accepts.2 preVersion
        rcases Comparator.bounds_of_set ((d.isPreOf_iff version).mp isPre).1 with below | above
        · rcases starts_in_pre accepts.1 preVersion member below isPre with
            ⟨l, isLower, pre, numbers⟩ | ⟨_, zero⟩
          · refine apart ⟨l, ?_, pre, numbers.trans core⟩
            rw [isLower]
            exact Interval.canonicalLower_pre pre
          · rw [ordinary preVersion] at zero
            exact absurd zero Bool.false_ne_true
        · -- an upper bound at a prerelease of the version would be stronger than `b`
          obtain ⟨u, isUpper, pre, _⟩ := ends_in_pre accepts.1 member above isPre
          obtain rfl := Option.some_inj.mp (found.symm.trans isUpper)
          rw [release] at pre
          exact absurd pre Bool.false_ne_true
      · rw [kept]
        have inside := spans.2
        rw [Comparator.upperCut_of_bound bound] at inside
        exact inside

theorem canonical_pre_bound (accepts : query.Accepts version)
    (preVersion : version.tag.hasPre = true) (ordinary : version.isZero = false) :
    ∃ bound ∈ query.interval.canonical.preBounds, bound.version.core = version.core := by
  obtain ⟨d, member, isPre⟩ := accepts.2 preVersion
  rcases Comparator.bounds_of_set ((d.isPreOf_iff version).mp isPre).1 with below | above
  · rcases starts_in_pre accepts.1 preVersion member below isPre with
      ⟨l, isLower, pre, numbers⟩ | ⟨_, zero⟩
    · refine ⟨l, Interval.mem_preBounds_lower ?_ pre, numbers⟩
      rw [Interval.canonical_lower, isLower]
      exact Interval.canonicalLower_pre pre
    · rw [ordinary] at zero
      exact absurd zero Bool.false_ne_true
  · obtain ⟨u, isUpper, pre, numbers, counts⟩ := ends_in_pre accepts.1 member above isPre
    refine ⟨u, Interval.mem_preBounds_upper ?_ pre counts, numbers⟩
    rw [Interval.canonical_upper, isUpper]
    exact Interval.canonicalUpper_pre pre

/-! ### The right side of the test -/

theorem mem_grown {b : Bound} {next : Version} (found : query.interval.upper = some b)
    (closed : b.inclusive = true) (last : isLastPatch b.version = true)
    (after : afterLastPatch b.version = some next) : next ∈ query.grown := by
  obtain ⟨c, inQuery, bound, _⟩ := strongest_upper found
  obtain ⟨cAbove, same, opened⟩ := Comparator.upperBound_some bound
  have op : c.op = .lte ∨ c.op = .eql := by
    have notLt : c.op ≠ .lt := by
      intro lt
      rw [opened.mpr lt] at closed
      exact absurd closed Bool.false_ne_true
    unfold Comparator.boundsAbove at cAbove
    cases op : c.op <;> rw [op] at cAbove notLt <;> simp_all
  rw [same] at last after
  refine List.mem_filterMap.mpr ⟨c, inQuery, ?_⟩
  rw [if_pos ⟨op, last⟩]
  exact after

theorem le_upper_of_canonical (contains : query.interval.canonical.Contains version)
    (ordinary : version.tag.hasPre = true → ∀ next ∈ query.grown, version.core ≠ next.core) :
    ((Cut.above version.precedence : Cut Precedence) : WithTop (Cut Precedence)) ≤
      query.interval.upperCut := by
  have inside := contains.2
  unfold Interval.upperCut at inside ⊢
  rw [Interval.canonical_upper] at inside
  cases found : query.interval.upper with
  | none => exact le_top
  | some b =>
      rw [found] at inside
      change _ ≤ ((b.upperCut : Cut Precedence) : WithTop (Cut Precedence))
      rw [WithTop.coe_le_coe]
      rcases Interval.canonicalUpper_cases (Interval.canonicalLower query.interval.lower) b with
        ⟨closed, last, after, _⟩ | ⟨closed, last, next, after, moved⟩ |
          ⟨opened, release, _, lowered⟩ | ⟨_, kept⟩
      · have cores := releaseKey_le_releaseKey (afterLastPatch_none last after version)
        rw [← precedence_release b.version (isLastPatch_release last)] at cores
        unfold Bound.upperCut
        rw [closed]
        exact Cut.above_le_above.mpr ((precedence_le_release version).trans cores)
      · unfold Bound.upperCut
        rw [closed]
        refine Cut.above_le_above.mpr ?_
        by_contra above
        rw [not_le] at above
        have fromFloor := floorKey_next_le last after above
        rcases moved with toFloor | ⟨_, toNext⟩
        · rw [toFloor] at inside
          have less := Cut.above_le_below.mp (WithTop.coe_le_coe.mp inside)
          rw [precedence_zeroPre] at less
          exact absurd less (not_lt.mpr fromFloor)
        · rw [toNext] at inside
          have less : version.precedence < next.precedence :=
            Cut.above_le_below.mp (WithTop.coe_le_coe.mp inside)
          rw [precedence_release next (afterLastPatch_core last after).1] at less
          obtain ⟨core, pre⟩ := core_eq_of_between fromFloor less
          exact ordinary pre next (mem_grown found closed last after) core
      · rw [lowered] at inside
        have less := Cut.above_le_below.mp (WithTop.coe_le_coe.mp inside)
        rw [precedence_zeroPre] at less
        unfold Bound.upperCut
        rw [opened]
        refine Cut.above_le_below.mpr ?_
        rw [precedence_release b.version release]
        exact less.trans (floorKey_lt_releaseKey b.version.core)
      · rw [kept] at inside
        exact WithTop.coe_le_coe.mp inside

/-- A comparator of the chain is `>=0.0.0` or bounds from below what is in the canonical
interval. -/
theorem lowerCut_le_of_canonical (contains : query.interval.canonical.Contains version)
    (ordinary : version.tag.hasPre = true → version.isZero = false) {d : Comparator}
    (member : d ∈ query.comparators) (below : d.boundsBelow = true) :
    d.isFloor = true ∨ d.lowerCut ≤ Cut.below version.precedence := by
  have inside := contains.1
  unfold Interval.lowerCut at inside
  rw [Interval.canonical_lower] at inside
  obtain ⟨b, found⟩ := Interval.exists_lower member (Comparator.lowerBound_isSome below)
  obtain ⟨c, inQuery, bound, strongest⟩ := strongest_lower found
  rw [show query.interval.lower = some b from found] at inside
  rcases Interval.canonicalLower_cases b with
    ⟨exclusive, last, next, after, moved⟩ | ⟨closed, zeroBound, release, dropped⟩ | ⟨_, kept⟩
  · rw [moved] at inside
    have atLeast := Cut.point_le inside
    have less : b.version.precedence < next.precedence := by
      rw [precedence_release next (afterLastPatch_core last after).1]
      exact (lt_floorKey_next last after).trans (floorKey_lt_releaseKey next.core)
    refine Or.inr ((strongest d member).trans ?_)
    unfold Bound.lowerCut
    rw [exclusive]
    exact Cut.above_le_below.mpr (less.trans_le atLeast)
  · rcases le_or_gt (releaseKey ({} : Version).core) version.precedence with atLeast | less
    · refine Or.inr ((strongest d member).trans ?_)
      unfold Bound.lowerCut
      rw [closed]
      refine Cut.below_le_below.mpr ?_
      rw [precedence_release b.version release, zeroBound]
      exact atLeast
    · have fromFloor := lowest_le version
      rw [lowest_precedence] at fromFloor
      obtain ⟨zero, preVersion⟩ := core_eq_of_between fromFloor less
      rw [← isZero_iff, ordinary preVersion] at zero
      exact absurd zero Bool.false_ne_true
  · rw [kept] at inside
    exact Or.inr ((strongest d member).trans inside)

theorem accepts_of_canonical (contains : query.interval.canonical.Contains version)
    (matched : version.tag.hasPre = true → ∃ c ∈ query.comparators, c.isPreOf version = true)
    (notZero : version.tag.hasPre = true → version.isZero = false)
    (notGrown : version.tag.hasPre = true → ∀ next ∈ query.grown, version.core ≠ next.core) :
    query.Accepts version := by
  refine ⟨fun d member set => ?_, matched⟩
  rw [d.satisfies_iff version set]
  have upper := (le_upper_of_canonical contains notGrown).trans (Interval.upperCut_le member)
  by_cases below : d.boundsBelow = true
  · rcases lowerCut_le_of_canonical contains notZero member below with floor | lower
    · exact Or.inl floor
    · exact Or.inr ⟨lower, upper⟩
  · refine Or.inr ⟨?_, upper⟩
    have unbounded : d.lowerCut = Cut.below lowest.precedence := by
      unfold Comparator.boundsBelow at below
      unfold Comparator.lowerCut
      cases op : d.op <;> rw [op] at below <;> first | rfl | exact absurd below (by decide)
    rw [unbounded]
    exact Comparator.lowest_cut_le version

end Query

/-! ### Prereleases with the same place -/

theorem Version.follower_precedence (version : Version) :
    version.follower.precedence = toLex (version.core,
      ((version.tag.identifiers ++ [Identifier.number 0] : List Identifier) :
        WithTop (List Identifier))) := by
  have someText : version.follower.tag.hasPre = true := by
    rw [← Bool.not_eq_false, Tag.hasPre_eq_false_iff]
    exact List.append_ne_nil_of_right_ne_nil _ (List.cons_ne_nil _ _)
  have parts : version.follower.tag.identifiers =
      version.tag.identifiers ++ [Identifier.number 0] := by
    have zero : [ascii "0"].map Identifier.ofPart = [Identifier.number 0] := by decide +kernel
    unfold Tag.identifiers
    rw [← zero, ← List.map_append, show version.follower.tag.pre =
      version.tag.pre ++ dot :: ascii "0" from rfl, List.splitOn_append_cons_self]
    rfl
  unfold Version.precedence Tag.precedence
  rw [if_pos someText, parts]
  rfl

theorem lt_append_zero (parts : List Identifier) : parts < parts ++ [Identifier.number 0] := by
  induction parts with
  | nil => exact List.nil_lt_cons _ _
  | cons part parts ih => exact List.cons_lt_cons_iff.mpr (Or.inr ⟨rfl, ih⟩)

theorem append_zero_le {left right : List Identifier} (less : left < right) :
    left ++ [Identifier.number 0] ≤ right := by
  induction left generalizing right with
  | nil =>
      cases right with
      | nil => exact absurd less (List.not_lt_nil _)
      | cons first rest =>
          rw [List.nil_append, ← not_lt]
          intro below
          rcases List.cons_lt_cons_iff.mp below with lessHead | ⟨_, lessTail⟩
          · exact absurd lessHead (not_lt.mpr (number_zero_le _))
          · exact absurd lessTail (List.not_lt_nil _)
  | cons a left ih =>
      cases right with
      | nil => exact absurd less (List.not_lt_nil _)
      | cons first rest =>
          rw [List.cons_append, ← not_lt]
          intro below
          rcases List.cons_lt_cons_iff.mp less with isHead | ⟨rfl, isTail⟩
          · rcases List.cons_lt_cons_iff.mp below with lessHead | ⟨same, _⟩
            · exact absurd lessHead (not_lt.mpr isHead.le)
            · exact absurd same isHead.ne'
          · rcases List.cons_lt_cons_iff.mp below with lessHead | ⟨_, lessTail⟩
            · exact absurd lessHead (lt_irrefl _)
            · exact absurd lessTail (not_lt.mpr (ih isTail))

theorem Version.follower_follows {m version : Version} (mPre : m.tag.hasPre = true)
    (pre : version.tag.hasPre = true) (core : m.core = version.core)
    (less : m.precedence < version.precedence) :
    m.precedence < m.follower.precedence ∧ m.follower.precedence ≤ version.precedence := by
  rw [Version.follower_precedence m]
  unfold Version.precedence Tag.precedence at less ⊢
  rw [if_pos mPre, if_pos pre, core, Prod.Lex.toLex_lt_toLex] at less
  rw [if_pos mPre, if_pos pre, core, Prod.Lex.toLex_lt_toLex, Prod.Lex.toLex_le_toLex]
  rcases less with impossible | ⟨_, less⟩
  · exact absurd impossible (lt_irrefl _)
  · refine ⟨Or.inr ⟨rfl, WithTop.coe_lt_coe.mpr ?_⟩,
      Or.inr ⟨rfl, WithTop.coe_le_coe.mpr (append_zero_le (WithTop.coe_lt_coe.mp less))⟩⟩
    exact lt_append_zero m.tag.identifiers

/-- Two versions that a third one cannot tell apart. -/
structure SamePlace (a b mark : Version) : Prop where
  under : mark.precedence ≤ a.precedence ↔ mark.precedence ≤ b.precedence
  above : a.precedence ≤ mark.precedence ↔ b.precedence ≤ mark.precedence

theorem SamePlace.symm {a b mark : Version} (same : SamePlace a b mark) : SamePlace b a mark :=
  ⟨same.under.symm, same.above.symm⟩

theorem SamePlace.ofNumbers {a b mark : Version} (aPre : a.tag.hasPre = true)
    (bPre : b.tag.hasPre = true) (core : a.core = b.core)
    (other : mark.tag.hasPre = true → mark.core ≠ b.core) : SamePlace a b mark := by
  rcases lt_trichotomy mark.core b.core with below | same | above
  · have under (v : Version) (isCore : v.core = b.core) : mark.precedence < v.precedence :=
      (precedence_le_release mark).trans_lt
        (releaseKey_lt_precedence.mpr (isCore.symm ▸ below))
    exact ⟨⟨fun _ => (under b rfl).le, fun _ => (under a core).le⟩,
      ⟨fun le => absurd le (not_le.mpr (under a core)),
        fun le => absurd le (not_le.mpr (under b rfl))⟩⟩
  · have release : mark.tag.hasPre = false := by
      rw [← Bool.not_eq_true]
      exact fun pre => other pre same
    have exceeded (v : Version) (pre : v.tag.hasPre = true) (isCore : v.core = b.core) :
        v.precedence < mark.precedence := by
      rw [precedence_release mark release, same, ← isCore]
      exact precedence_pre_lt v pre
    exact ⟨⟨fun le => absurd le (not_le.mpr (exceeded a aPre core)),
        fun le => absurd le (not_le.mpr (exceeded b bPre rfl))⟩,
      ⟨fun _ => (exceeded b bPre rfl).le, fun _ => (exceeded a aPre core).le⟩⟩
  · have exceeded (v : Version) (isCore : v.core = b.core) : v.precedence < mark.precedence :=
      (precedence_le_release v).trans_lt (releaseKey_lt_precedence.mpr (isCore.symm ▸ above))
    exact ⟨⟨fun le => absurd le (not_le.mpr (exceeded a core)),
        fun le => absurd le (not_le.mpr (exceeded b rfl))⟩,
      ⟨fun _ => (exceeded b rfl).le, fun _ => (exceeded a core).le⟩⟩

theorem Comparator.satisfies_of_samePlace {a b : Version} {c : Comparator}
    (same : SamePlace a b c.version) (satisfied : c.satisfies a = true) : c.satisfies b = true := by
  rw [satisfies_eq] at satisfied ⊢
  cases op : c.op with
  | unset =>
      rw [op] at satisfied
      exact satisfied
  | eql =>
      rw [op] at satisfied
      exact le_antisymm (same.above.mp satisfied.le) (same.under.mp satisfied.ge)
  | gt =>
      rw [op] at satisfied
      exact not_le.mp fun le => absurd satisfied (not_lt.mpr (same.above.mpr le))
  | gte =>
      rw [op] at satisfied
      exact satisfied.imp_right same.under.mp
  | lt =>
      rw [op] at satisfied
      exact not_le.mp fun le => absurd satisfied (not_lt.mpr (same.under.mpr le))
  | lte =>
      rw [op] at satisfied
      exact same.above.mp satisfied

namespace Group

theorem satisfies_of_samePlace {group : Group} (wellFormed : group.WellFormed) {a b : Version}
    (core : a.core = b.core) (aPre : a.tag.hasPre = true)
    (same : ∀ c ∈ group.comparators, c.op ≠ .unset → SamePlace a b c.version)
    (satisfied : group.satisfies a = true) : group.satisfies b = true := by
  rw [Group.satisfies_iff _ wellFormed] at satisfied ⊢
  obtain ⟨query, member, holds, matched⟩ := satisfied
  refine ⟨query, member, fun c inQuery set => ?_, fun _ => ?_⟩
  · exact Comparator.satisfies_of_samePlace (same c (List.mem_flatMap.mpr ⟨query, member, inQuery⟩) set)
      (holds c inQuery set)
  · obtain ⟨c, inQuery, isPre⟩ := matched aPre
    exact ⟨c, inQuery, Comparator.isPreOf_congr isPre core⟩

theorem exists_edge (comparators : List Comparator) {numbers version : Version}
    (pre : version.tag.hasPre = true) (core : version.core = numbers.core) :
    ∃ edge ∈ edgesOf comparators numbers, edge.tag.hasPre = true ∧ edge.core = version.core ∧
      ∀ c ∈ comparators, c.op ≠ .unset → SamePlace edge version c.version := by
  have named {m : Version}
      (isMark : m ∈ (comparators.filter (·.isPreOf numbers)).map (·.version)) :
      m.tag.hasPre = true ∧ m.core = version.core := by
    obtain ⟨c, member, rfl⟩ := List.mem_map.mp isMark
    obtain ⟨_, isPre, isCore⟩ := (c.isPreOf_iff numbers).mp (List.mem_filter.mp member).2
    exact ⟨isPre, isCore.trans core.symm⟩
  have floor : Version.precedence { numbers with tag := .zeroPre } ≤ version.precedence := by
    rw [precedence_zeroPre, ← core]
    exact floorKey_le version
  obtain ⟨edge, isEdge, _, same⟩ := exists_samePlace Version.precedence Version.follower
    ((comparators.filter (·.isPreOf numbers)).map (·.version)) floor fun m isMark less =>
      Version.follower_follows (named isMark).1 pre (named isMark).2 less
  have edgePre : edge.tag.hasPre = true ∧ edge.core = version.core := by
    rcases List.mem_cons.mp isEdge with rfl | isLater
    · exact ⟨rfl, core.symm⟩
    · obtain ⟨m, isMark, isOne⟩ := List.mem_flatMap.mp isLater
      rcases List.mem_cons.mp isOne with rfl | isFollower
      · exact named isMark
      · rw [List.mem_singleton.mp isFollower]
        refine ⟨?_, (named isMark).2⟩
        rw [← Bool.not_eq_false, Tag.hasPre_eq_false_iff]
        exact List.append_ne_nil_of_right_ne_nil _ (List.cons_ne_nil _ _)
  refine ⟨edge, isEdge, edgePre.1, edgePre.2, fun c member set => ?_⟩
  by_cases isMark : c.isPreOf numbers = true
  · obtain ⟨under, above⟩ := same c.version
      (List.mem_map.mpr ⟨c, List.mem_filter.mpr ⟨member, isMark⟩, rfl⟩)
    exact ⟨under, above⟩
  · refine SamePlace.ofNumbers edgePre.1 pre edgePre.2 fun cPre same => isMark ?_
    exact (c.isPreOf_iff numbers).mpr ⟨set, cPre, same.trans core⟩

end Group

/-! ### The test -/

namespace Group

/-- Some alternative that is not empty is inside no alternative of the other group. -/
def LeavesOut (group other : Group) : Prop :=
  ∃ a ∈ group.alternatives, a.interval.canonical.isNonEmpty = true ∧
    ∀ b ∈ other.alternatives, a.interval.canonical.isWithin b.interval.canonical = true →
      a.interval.canonical.prereleasesCanSatisfy b = false

theorem isSubsetOf_iff (group other : Group) :
    group.isSubsetOf other = true ↔ ¬ group.LeavesOut other := by
  unfold isSubsetOf LeavesOut
  simp only [List.all_eq_true, Query.andQuery_interval, Bool.or_eq_true, Bool.not_eq_true',
    List.any_eq_true, Bool.and_eq_true]
  constructor
  · rintro inside ⟨a, member, notEmpty, outside⟩
    rcases inside a member with isEmpty | ⟨b, inOther, isWithin, canSatisfy⟩
    · rw [isEmpty] at notEmpty
      exact absurd notEmpty Bool.false_ne_true
    · rw [outside b inOther isWithin] at canSatisfy
      exact absurd canSatisfy Bool.false_ne_true
  · intro none a member
    by_contra outside
    rw [not_or] at outside
    refine none ⟨a, member, Bool.not_eq_false _ ▸ outside.1, fun b inOther isWithin => ?_⟩
    rw [← Bool.not_eq_true]
    exact fun canSatisfy => outside.2 ⟨b, inOther, isWithin, canSatisfy⟩

/-- A version that the test gets wrong is a prerelease of the numbers of an edge. -/
theorem satisfies_of_isSubsetOf {group other : Group} (otherFormed : other.WellFormed)
    (wellFormed : group.WellFormed) (subset : group.isSubsetOf other = true) {version : Version}
    (ordinary : version.tag.hasPre = true →
      ∀ numbers ∈ group.edgeNumbers other, version.core ≠ numbers.core)
    (satisfied : group.satisfies version = true) : other.satisfies version = true := by
  rw [Group.satisfies_iff _ wellFormed] at satisfied
  rw [Group.satisfies_iff _ otherFormed]
  obtain ⟨a, inGroup, accepts⟩ := satisfied
  have notZero : version.tag.hasPre = true → version.isZero = false := by
    intro pre
    rw [← Bool.not_eq_true, isZero_iff]
    exact ordinary pre {} List.mem_cons_self
  have contains : a.interval.canonical.Contains version := by
    refine ⟨Query.canonical_lower_le accepts fun pre next isNext => ?_,
      Query.le_canonical_upper accepts notZero⟩
    exact ordinary pre next (List.mem_cons_of_mem _ (List.mem_append_left _
      (List.mem_flatMap.mpr ⟨a, inGroup, isNext⟩)))
  unfold Group.isSubsetOf at subset
  have within := List.all_eq_true.mp subset a inGroup
  simp only [Query.andQuery_interval, Interval.isNonEmpty_of_contains contains, Bool.not_true,
    Bool.false_or, List.any_eq_true, Bool.and_eq_true] at within
  obtain ⟨b, inOther, isWithin, matching⟩ := within
  refine ⟨b, inOther, Query.accepts_of_canonical (contains.mono isWithin) (fun pre => ?_) notZero
    fun pre next isNext => ?_⟩
  · obtain ⟨bound, isBound, numbers⟩ := Query.canonical_pre_bound accepts pre (notZero pre)
    obtain ⟨c, member, isPre⟩ := (Interval.prereleasesCanSatisfy_iff _ _).mp matching bound isBound
    exact ⟨c, member, Comparator.isPreOf_congr isPre numbers⟩
  · exact ordinary pre next (List.mem_cons_of_mem _ (List.mem_append_right _
      (List.mem_flatMap.mpr ⟨b, inOther, isNext⟩)))

/-- The test is right about every version, release or prerelease, exactly when it answers no for
an alternative that is left out, or the other group accepts the edges that the group accepts. -/
theorem isSubsetOf_satisfies_iff (left right : List UInt8) :
    ((Query.parse left).isSubsetOf (Query.parse right) = true → ∀ version : Version,
      (Query.parse left).satisfies version = true →
        (Query.parse right).satisfies version = true) ↔
      (Query.parse left).LeavesOut (Query.parse right) ∨
        ∀ edge ∈ (Query.parse left).edges (Query.parse right),
          (Query.parse left).satisfies edge = true →
            (Query.parse right).satisfies edge = true := by
  have leftFormed := Query.parse_wellFormed left
  have rightFormed := Query.parse_wellFormed right
  rw [isSubsetOf_iff]
  constructor
  · intro holds
    by_cases leavesOut : (Query.parse left).LeavesOut (Query.parse right)
    · exact Or.inl leavesOut
    · exact Or.inr fun edge _ => holds leavesOut edge
  · rintro (leavesOut | atEdges) inside version satisfied
    · exact absurd leavesOut inside
    · by_cases ordinary : version.tag.hasPre = true →
          ∀ numbers ∈ (Query.parse left).edgeNumbers (Query.parse right),
            version.core ≠ numbers.core
      · exact satisfies_of_isSubsetOf rightFormed leftFormed ((isSubsetOf_iff _ _).mpr inside)
          ordinary satisfied
      · push Not at ordinary
        obtain ⟨pre, numbers, member, core⟩ := ordinary
        obtain ⟨edge, isEdge, edgePre, edgeCore, same⟩ := exists_edge
          ((Query.parse left).comparators ++ (Query.parse right).comparators) pre core
        have atEdge := satisfies_of_samePlace leftFormed edgeCore.symm pre
          (fun c isIn set => (same c (List.mem_append_left _ isIn) set).symm) satisfied
        have accepted := atEdges edge (List.mem_flatMap.mpr ⟨numbers, member, isEdge⟩) atEdge
        exact satisfies_of_samePlace rightFormed edgeCore edgePre
          (fun c isIn set => same c (List.mem_append_right _ isIn) set) accepted

/-- What the second alternative on the right makes of its bounds does no harm. -/
theorem isSubsetOf_satisfies_first :
    (Query.parse (ascii "^5.0.0-beta || >=1.3.0-alpha <=1.2.18446744073709551615")).satisfies
      { major := 5, tag := { pre := ascii "rc" } } = true :=
  (isSubsetOf_satisfies_iff (ascii "^5.0.0-beta") _).mpr (Or.inr (by decide +kernel))
    (by decide +kernel) { major := 5, tag := { pre := ascii "rc" } } (by decide +kernel)

end Group

/-- Each way to lose a version: a forgotten prerelease of `0.0.0`, a skipped one of the next version,
a dropped bound and a bound that has grown. -/
theorem Group.isSubsetOf_loses_prereleases :
    ((Query.parse (ascii ">=0.0.0 >=0.0.0-a")).isSubsetOf (Query.parse (ascii "*")) = true ∧
      (Query.parse (ascii ">=0.0.0 >=0.0.0-a")).satisfies { tag := { pre := ascii "b" } } = true ∧
      (Query.parse (ascii "*")).satisfies { tag := { pre := ascii "b" } } = false) ∧
    ((Query.parse (ascii ">1.2.18446744073709551615 <1.3.0-beta")).isSubsetOf
        (Query.parse (ascii "5.0.0")) = true ∧
      (Query.parse (ascii ">1.2.18446744073709551615 <1.3.0-beta")).satisfies
        { major := 1, minor := 3, tag := { pre := ascii "alpha" } } = true ∧
      (Query.parse (ascii "5.0.0")).satisfies
        { major := 1, minor := 3, tag := { pre := ascii "alpha" } } = false) ∧
    ((Query.parse (ascii ">=0.0.0-beta <=0.0.0")).isSubsetOf
        (Query.parse (ascii "=0.0.0 >=0.0.0-alpha")) = true ∧
      (Query.parse (ascii ">=0.0.0-beta <=0.0.0")).satisfies
        { tag := { pre := ascii "beta" } } = true ∧
      (Query.parse (ascii "=0.0.0 >=0.0.0-alpha")).satisfies
        { tag := { pre := ascii "beta" } } = false) ∧
    ((Query.parse (ascii ">=1.3.0-alpha <1.3.0")).isSubsetOf
        (Query.parse (ascii ">=1.3.0-alpha <=1.2.18446744073709551615")) = true ∧
      (Query.parse (ascii ">=1.3.0-alpha <1.3.0")).satisfies
        { major := 1, minor := 3, tag := { pre := ascii "alpha" } } = true ∧
      (Query.parse (ascii ">=1.3.0-alpha <=1.2.18446744073709551615")).satisfies
        { major := 1, minor := 3, tag := { pre := ascii "alpha" } } = false) := by
  decide +kernel

end Bun.Semver
