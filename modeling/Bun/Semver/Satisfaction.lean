/-
What it takes to satisfy a query.

A comparator bounds the precedence of a version from below, from above or on both
sides.  The one exception is `>=0.0.0`, which the prereleases of `0.0.0` satisfy as
well.
-/

import Bun.Foundation.Cuts
import Bun.Semver.PrecedenceGaps

set_option autoImplicit false

namespace Bun.Semver

open Bun.Foundation

namespace Comparator

def lowerCut (c : Comparator) : Cut Precedence :=
  match c.op with
  | .eql | .gte => Cut.below c.version.precedence
  | .gt => Cut.above c.version.precedence
  | .unset | .lt | .lte => Cut.below lowest.precedence

def upperCut (c : Comparator) : WithTop (Cut Precedence) :=
  match c.op with
  | .eql | .lte => (Cut.above c.version.precedence : Cut Precedence)
  | .lt => (Cut.below c.version.precedence : Cut Precedence)
  | .unset | .gt | .gte => ⊤

/-- `>=0.0.0`. -/
def isFloor (c : Comparator) : Bool :=
  c.op = .gte && c.version.isZero && !c.version.tag.hasPre

/-- A comparator that is a prerelease of the numbers of `version`. -/
def isPreOf (c : Comparator) (version : Version) : Bool :=
  c.op ≠ .unset && c.version.tag.hasPre && sameNumbers c.version version

def Spans (c : Comparator) (version : Version) : Prop :=
  c.lowerCut ≤ Cut.below version.precedence ∧
    ((Cut.above version.precedence : Cut Precedence) : WithTop (Cut Precedence)) ≤ c.upperCut

theorem lowest_cut_le (version : Version) :
    Cut.below lowest.precedence ≤ Cut.below version.precedence :=
  Cut.below_le_below.mpr (lowest_le version)

theorem satisfies_eq (c : Comparator) (version : Version) :
    c.satisfies version = true ↔
      match c.op with
      | .unset => False
      | .eql => version.precedence = c.version.precedence
      | .gt => c.version.precedence < version.precedence
      | .gte => c.isFloor = true ∨ c.version.precedence ≤ version.precedence
      | .lt => version.precedence < c.version.precedence
      | .lte => version.precedence ≤ c.version.precedence := by
  obtain ⟨op, bound⟩ := c
  unfold satisfies isFloor
  cases order : version.orderWithoutBuild bound with
  | lt =>
      have less := Version.orderWithoutBuild_keyed.eq_lt.mp order
      cases op <;> simp [less, less.le, less.ne, not_lt.mpr less.le, not_le.mpr less]
  | eq =>
      have same := Version.orderWithoutBuild_keyed.eq_eq.mp order
      cases op <;> simp [same]
  | gt =>
      have greater := Version.orderWithoutBuild_keyed.eq_gt.mp order
      cases op <;> simp [greater, greater.le, greater.ne', not_lt.mpr greater.le, not_le.mpr greater]

theorem isFloor_op {c : Comparator} (floor : c.isFloor = true) : c.op = .gte := by
  unfold isFloor at floor
  rw [Bool.and_eq_true, Bool.and_eq_true, decide_eq_true_iff] at floor
  exact floor.1.1

theorem satisfies_iff (c : Comparator) (version : Version) (set : c.op ≠ .unset) :
    c.satisfies version = true ↔ c.isFloor = true ∨ c.Spans version := by
  rw [satisfies_eq]
  unfold Spans lowerCut upperCut
  have fromLowest := lowest_cut_le version
  have notFloor : c.op ≠ .gte → ¬ c.isFloor = true := fun other floor => other (isFloor_op floor)
  cases op : c.op with
  | unset => exact absurd op set
  | eql =>
      simp only [Cut.below_le_below, WithTop.coe_le_coe, Cut.above_le_above]
      rw [or_iff_right (notFloor (by rw [op]; decide))]
      constructor
      · intro same
        exact ⟨same.ge, same.le⟩
      · rintro ⟨atLeast, atMost⟩
        exact le_antisymm atMost atLeast
  | gt =>
      simp only [Cut.above_le_below, le_top, and_true]
      rw [or_iff_right (notFloor (by rw [op]; decide))]
  | gte => simp only [Cut.below_le_below, le_top, and_true]
  | lt =>
      simp only [fromLowest, true_and, WithTop.coe_le_coe, Cut.above_le_below]
      rw [or_iff_right (notFloor (by rw [op]; decide))]
  | lte =>
      simp only [fromLowest, true_and, WithTop.coe_le_coe, Cut.above_le_above]
      rw [or_iff_right (notFloor (by rw [op]; decide))]

end Comparator

/-! ### Ranges and queries -/

def Query.comparators (query : Query) : List Comparator :=
  query.ranges.flatMap fun range => [range.left, range.right]

def Query.Holds (query : Query) (version : Version) : Prop :=
  ∀ c ∈ query.comparators, c.op ≠ .unset → c.satisfies version = true

def Query.Accepts (query : Query) (version : Version) : Prop :=
  query.Holds version ∧
    (version.tag.hasPre = true → ∃ c ∈ query.comparators, c.isPreOf version = true)

theorem Query.mem_comparators (query : Query) (c : Comparator) :
    c ∈ query.comparators ↔ ∃ range ∈ query.ranges, c = range.left ∨ c = range.right := by
  unfold Query.comparators
  rw [List.mem_flatMap]
  simp only [List.mem_cons, List.not_mem_nil, or_false]

namespace Range

theorem satisfies_iff (range : Range) (wellFormed : range.WellFormed) (version : Version) :
    range.satisfies version = true ↔
      (range.left.op ≠ .unset → range.left.satisfies version = true) ∧
        (range.right.op ≠ .unset → range.right.satisfies version = true) := by
  rw [← hasLeft_iff, ← hasRight_iff]
  unfold satisfies
  unfold WellFormed at wellFormed
  cases left : range.hasLeft with
  | false =>
      have noRight : range.hasRight = false := by
        by_contra right
        rw [Bool.not_eq_false] at right
        rw [wellFormed right] at left
        exact absurd left (by decide)
      simp [noRight]
  | true =>
      cases range.left.satisfies version with
      | false => simp
      | true =>
          cases range.hasRight with
          | false => simp
          | true => simp

/-- Whether a range lets the prereleases of a version's numbers in. -/
def matched (range : Range) (version : Version) : Bool :=
  range.left.isPreOf version || range.right.isPreOf version

theorem matchesPre_eq (c : Comparator) (version : Version) (set : c.op ≠ .unset) :
    matchesPre c version = c.isPreOf version := by
  unfold matchesPre Comparator.isPreOf sameNumbers
  rw [decide_eq_true set, Bool.true_and]
  rw [Bool.eq_iff_iff]
  simp only [Bool.and_eq_true, beq_iff_eq]
  constructor
  · rintro ⟨⟨⟨pre, patch⟩, minor⟩, major⟩
    exact ⟨pre, ⟨major.symm, minor.symm⟩, patch.symm⟩
  · rintro ⟨pre, ⟨major, minor⟩, patch⟩
    exact ⟨⟨⟨pre, patch.symm⟩, minor.symm⟩, major.symm⟩

theorem isPreOf_unset {c : Comparator} (unset : c.op = .unset) (version : Version) :
    c.isPreOf version = false := by
  unfold Comparator.isPreOf
  rw [unset]
  rfl

/-- The result is that of `satisfies`, and an earlier match is kept.  A range that holds
adds its own. -/
theorem satisfiesPre_spec (range : Range) (wellFormed : range.WellFormed) (version : Version)
    (preMatched : Bool) :
    (range.satisfiesPre version preMatched).1 = range.satisfies version ∧
      (range.satisfiesPre version preMatched).2 = (preMatched || range.matched version) := by
  unfold satisfiesPre satisfies
  cases left : range.hasLeft with
  | false =>
      have noRight : ¬ range.hasRight = true := fun right => by
        rw [wellFormed right] at left
        exact absurd left (by decide)
      have leftUnset : range.left.op = .unset := by
        by_contra set
        rw [(hasLeft_iff range).mpr set] at left
        exact absurd left (by decide)
      have rightUnset : range.right.op = .unset := by
        by_contra set
        exact noRight ((hasRight_iff range).mpr set)
      refine ⟨rfl, ?_⟩
      unfold matched
      rw [isPreOf_unset leftUnset, isPreOf_unset rightUnset, Bool.or_false, Bool.or_false]
      rfl
  | true =>
      have leftSet := (hasLeft_iff range).mp left
      have step : (preMatched || matchesPre range.left version ||
          (range.hasRight && matchesPre range.right version)) =
            (preMatched || range.matched version) := by
        unfold matched
        rw [matchesPre_eq range.left version leftSet, Bool.or_assoc]
        cases right : range.hasRight with
        | false =>
            have rightUnset : range.right.op = .unset := by
              by_contra set
              rw [(hasRight_iff range).mpr set] at right
              exact absurd right (by decide)
            rw [isPreOf_unset rightUnset]
            rfl
        | true => rw [matchesPre_eq range.right version ((hasRight_iff range).mp right), Bool.true_and]
      simp only [Bool.not_true, Bool.false_eq_true, if_false]
      rw [step]
      split
      · exact ⟨rfl, rfl⟩
      · split
        · exact ⟨rfl, rfl⟩
        · exact ⟨rfl, rfl⟩

end Range

namespace Query

theorem satisfiesPreFrom_spec (version : Version) (ranges : List Range)
    (wellFormed : ∀ range ∈ ranges, range.WellFormed) (preMatched : Bool) :
    (satisfiesPreFrom version preMatched ranges).1 = ranges.all (·.satisfies version) ∧
      (ranges.all (·.satisfies version) = true →
        (satisfiesPreFrom version preMatched ranges).2 =
          (preMatched || ranges.any (·.matched version))) := by
  induction ranges generalizing preMatched with
  | nil => exact ⟨rfl, fun _ => (Bool.or_false preMatched).symm⟩
  | cons range rest ih =>
      obtain ⟨result, matches_⟩ := Range.satisfiesPre_spec range
        (wellFormed range List.mem_cons_self) version preMatched
      have next := ih (fun other member => wellFormed other (List.mem_cons_of_mem range member))
        (preMatched || range.matched version)
      rw [satisfiesPreFrom, List.all_cons, List.any_cons, ← Bool.or_assoc]
      cases pair : range.satisfiesPre version preMatched with
      | mk satisfied found =>
          rw [pair] at result matches_
          subst matches_
          cases satisfied with
          | false =>
              rw [← result]
              exact ⟨rfl, fun impossible => absurd impossible Bool.false_ne_true⟩
          | true =>
              rw [← result, Bool.true_and]
              exact next

theorem holds_iff (query : Query) (wellFormed : query.WellFormed) (version : Version) :
    query.satisfies version = true ↔ query.Holds version := by
  unfold satisfies Holds
  rw [List.all_eq_true]
  constructor
  · intro all c member set
    obtain ⟨range, inQuery, rfl | rfl⟩ := (query.mem_comparators c).mp member
    · exact ((Range.satisfies_iff range (wellFormed range inQuery) version).mp (all range inQuery)).1 set
    · exact ((Range.satisfies_iff range (wellFormed range inQuery) version).mp (all range inQuery)).2 set
  · intro holds range inQuery
    rw [Range.satisfies_iff range (wellFormed range inQuery) version]
    exact ⟨holds range.left ((query.mem_comparators _).mpr ⟨range, inQuery, Or.inl rfl⟩),
      holds range.right ((query.mem_comparators _).mpr ⟨range, inQuery, Or.inr rfl⟩)⟩

theorem matched_iff (query : Query) (version : Version) :
    query.ranges.any (·.matched version) = true ↔
      ∃ c ∈ query.comparators, c.isPreOf version = true := by
  rw [List.any_eq_true]
  constructor
  · rintro ⟨range, inQuery, found⟩
    unfold Range.matched at found
    rcases Bool.or_eq_true_iff.mp found with left | right
    · exact ⟨range.left, (query.mem_comparators _).mpr ⟨range, inQuery, Or.inl rfl⟩, left⟩
    · exact ⟨range.right, (query.mem_comparators _).mpr ⟨range, inQuery, Or.inr rfl⟩, right⟩
  · rintro ⟨c, member, found⟩
    obtain ⟨range, inQuery, rfl | rfl⟩ := (query.mem_comparators c).mp member
    · exact ⟨range, inQuery, Bool.or_eq_true_iff.mpr (Or.inl found)⟩
    · exact ⟨range, inQuery, Bool.or_eq_true_iff.mpr (Or.inr found)⟩

theorem satisfiedByPre_iff (query : Query) (wellFormed : query.WellFormed) (version : Version) :
    query.satisfiedByPre version = true ↔
      query.Holds version ∧ ∃ c ∈ query.comparators, c.isPreOf version = true := by
  have spec := satisfiesPreFrom_spec version query.ranges wellFormed false
  unfold satisfiedByPre satisfiesPre
  rw [← holds_iff query wellFormed version, ← matched_iff]
  unfold satisfies
  cases pair : satisfiesPreFrom version false query.ranges with
  | mk satisfied found =>
      rw [pair] at spec
      change (satisfied && found) = true ↔ _
      rw [Bool.and_eq_true, show satisfied = _ from spec.1]
      constructor
      · rintro ⟨all, isFound⟩
        rw [show found = _ from spec.2 all, Bool.false_or] at isFound
        exact ⟨all, isFound⟩
      · rintro ⟨all, any⟩
        refine ⟨all, ?_⟩
        rw [show found = _ from spec.2 all, Bool.false_or]
        exact any

end Query

theorem Group.satisfies_iff (group : Group) (wellFormed : group.WellFormed) (version : Version) :
    group.satisfies version = true ↔ ∃ query ∈ group.alternatives, query.Accepts version := by
  unfold Group.satisfies Query.Accepts
  cases pre : version.tag.hasPre with
  | false =>
      rw [if_neg Bool.false_ne_true, List.any_eq_true]
      constructor
      · rintro ⟨query, member, satisfied⟩
        exact ⟨query, member, (query.holds_iff (wellFormed query member) version).mp satisfied,
          fun impossible => absurd impossible (by decide)⟩
      · rintro ⟨query, member, holds, _⟩
        exact ⟨query, member, (query.holds_iff (wellFormed query member) version).mpr holds⟩
  | true =>
      rw [if_pos rfl]
      unfold Group.satisfiesPre
      rw [List.any_eq_true]
      constructor
      · rintro ⟨query, member, satisfied⟩
        obtain ⟨holds, found⟩ := (query.satisfiedByPre_iff (wellFormed query member) version).mp satisfied
        exact ⟨query, member, holds, fun _ => found⟩
      · rintro ⟨query, member, holds, found⟩
        exact ⟨query, member,
          (query.satisfiedByPre_iff (wellFormed query member) version).mpr ⟨holds, found rfl⟩⟩

end Bun.Semver
