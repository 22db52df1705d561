/-
The intervals of the intersection and subset tests as pairs of cuts.

Narrowing by a comparator takes the larger lower cut and the smaller upper cut, so
the interval of a chain is bounded by the strongest of its comparators.
-/

import Mathlib.Order.MinMax
import Bun.Semver.Satisfaction

set_option autoImplicit false

namespace Bun.Semver

open Bun.Foundation

def Bound.lowerCut (b : Bound) : Cut Precedence :=
  Cut.lower b.version.precedence b.inclusive

def Bound.upperCut (b : Bound) : Cut Precedence :=
  Cut.upper b.version.precedence b.inclusive

def lowerCutOf : Option Bound → Cut Precedence
  | none => Cut.below lowest.precedence
  | some b => b.lowerCut

def upperCutOf : Option Bound → WithTop (Cut Precedence)
  | none => ⊤
  | some b => (b.upperCut : Cut Precedence)

namespace Comparator

def lowerBound (c : Comparator) : Option Bound :=
  match c.op with
  | .eql | .gte => some { version := c.version, inclusive := true }
  | .gt => some { version := c.version, inclusive := false }
  | .unset | .lt | .lte => none

def upperBound (c : Comparator) : Option Bound :=
  match c.op with
  | .eql | .lte => some { version := c.version, inclusive := true }
  | .lt => some { version := c.version, inclusive := false }
  | .unset | .gt | .gte => none

theorem lowerCut_eq (c : Comparator) : c.lowerCut = lowerCutOf c.lowerBound := by
  unfold lowerCut lowerBound
  cases c.op <;> rfl

theorem upperCut_eq (c : Comparator) : c.upperCut = upperCutOf c.upperBound := by
  unfold upperCut upperBound
  cases c.op <;> rfl

end Comparator

namespace Interval

def lowerCut (interval : Interval) : Cut Precedence :=
  lowerCutOf interval.lower

def upperCut (interval : Interval) : WithTop (Cut Precedence) :=
  upperCutOf interval.upper

def Contains (interval : Interval) (version : Version) : Prop :=
  interval.lowerCut ≤ Cut.below version.precedence ∧
    ((Cut.above version.precedence : Cut Precedence) : WithTop (Cut Precedence)) ≤ interval.upperCut

theorem lowest_le_bound (b : Bound) : Cut.below lowest.precedence ≤ b.lowerCut := by
  unfold Cut.below Bound.lowerCut Cut.lower
  rw [Cut.le_iff]
  rcases (lowest_le b.version).lt_or_eq with less | same
  · exact Or.inl less
  · exact Or.inr ⟨same, Bool.false_le _⟩

theorem lowest_le_lowerCut (interval : Interval) :
    Cut.below lowest.precedence ≤ interval.lowerCut := by
  unfold lowerCut
  cases interval.lower with
  | none => exact le_refl _
  | some b => exact lowest_le_bound b

/-! ### Narrowing -/

theorem raises_spec (b cur : Bound) :
    (raises b (some cur) = true → cur.lowerCut ≤ b.lowerCut) ∧
      (raises b (some cur) = false → b.lowerCut ≤ cur.lowerCut) := by
  unfold raises Bound.lowerCut Cut.lower
  rw [Cut.le_iff, Cut.le_iff]
  dsimp only
  cases order : b.version.orderWithoutBuild cur.version with
  | gt => exact ⟨fun _ => Or.inl (Version.orderWithoutBuild_keyed.eq_gt.mp order), by simp⟩
  | lt => exact ⟨by simp, fun _ => Or.inl (Version.orderWithoutBuild_keyed.eq_lt.mp order)⟩
  | eq =>
      have same := Version.orderWithoutBuild_keyed.eq_eq.mp order
      cases b.inclusive with
      | false => exact ⟨fun _ => Or.inr ⟨same.symm, Bool.le_true _⟩, by simp⟩
      | true => exact ⟨by simp, fun _ => Or.inr ⟨same, Bool.false_le _⟩⟩

theorem caps_spec (b cur : Bound) :
    (caps b (some cur) = true → b.upperCut ≤ cur.upperCut) ∧
      (caps b (some cur) = false → cur.upperCut ≤ b.upperCut) := by
  unfold caps Bound.upperCut Cut.upper
  rw [Cut.le_iff, Cut.le_iff]
  dsimp only
  cases order : b.version.orderWithoutBuild cur.version with
  | lt => exact ⟨fun _ => Or.inl (Version.orderWithoutBuild_keyed.eq_lt.mp order), by simp⟩
  | gt => exact ⟨by simp, fun _ => Or.inl (Version.orderWithoutBuild_keyed.eq_gt.mp order)⟩
  | eq =>
      have same := Version.orderWithoutBuild_keyed.eq_eq.mp order
      cases b.inclusive with
      | false => exact ⟨fun _ => Or.inr ⟨same, Bool.false_le _⟩, by simp⟩
      | true => exact ⟨by simp, fun _ => Or.inr ⟨same.symm, Bool.le_true _⟩⟩

theorem raise_cuts (interval : Interval) (b : Bound) :
    (interval.raise b).lowerCut = max interval.lowerCut b.lowerCut ∧
      (interval.raise b).upperCut = interval.upperCut := by
  obtain ⟨lower, upper⟩ := interval
  unfold raise
  cases lower with
  | none => exact ⟨(max_eq_right (lowest_le_bound b)).symm, rfl⟩
  | some cur =>
      cases taken : raises b (some cur) with
      | true => exact ⟨(max_eq_right ((raises_spec b cur).1 taken)).symm, rfl⟩
      | false => exact ⟨(max_eq_left ((raises_spec b cur).2 taken)).symm, rfl⟩

theorem cap_cuts (interval : Interval) (b : Bound) :
    (interval.cap b).lowerCut = interval.lowerCut ∧
      (interval.cap b).upperCut = min interval.upperCut (b.upperCut : Cut Precedence) := by
  obtain ⟨lower, upper⟩ := interval
  unfold cap
  cases upper with
  | none => exact ⟨rfl, (min_eq_right le_top).symm⟩
  | some cur =>
      cases taken : caps b (some cur) with
      | true =>
          exact ⟨rfl, (min_eq_right (WithTop.coe_le_coe.mpr ((caps_spec b cur).1 taken))).symm⟩
      | false =>
          exact ⟨rfl, (min_eq_left (WithTop.coe_le_coe.mpr ((caps_spec b cur).2 taken))).symm⟩

theorem narrow_cuts (interval : Interval) (c : Comparator) :
    (interval.narrow c).lowerCut = max interval.lowerCut c.lowerCut ∧
      (interval.narrow c).upperCut = min interval.upperCut c.upperCut := by
  have keepsLower := max_eq_left (lowest_le_lowerCut interval)
  have keepsUpper : min interval.upperCut ⊤ = interval.upperCut := min_eq_left le_top
  unfold narrow Comparator.lowerCut Comparator.upperCut
  cases c.op with
  | unset => exact ⟨keepsLower.symm, keepsUpper.symm⟩
  | eql =>
      refine ⟨?_, ?_⟩
      · rw [(cap_cuts _ _).1, (raise_cuts _ _).1]
        rfl
      · rw [(cap_cuts _ _).2, (raise_cuts _ _).2]
        rfl
  | lt => exact ⟨(cap_cuts _ _).1.trans keepsLower.symm, (cap_cuts _ _).2⟩
  | lte => exact ⟨(cap_cuts _ _).1.trans keepsLower.symm, (cap_cuts _ _).2⟩
  | gt => exact ⟨(raise_cuts _ _).1, (raise_cuts _ _).2.trans keepsUpper.symm⟩
  | gte => exact ⟨(raise_cuts _ _).1, (raise_cuts _ _).2.trans keepsUpper.symm⟩

def narrowAll (interval : Interval) (comparators : List Comparator) : Interval :=
  comparators.foldl narrow interval

theorem andQuery_eq (interval : Interval) (query : Query) :
    interval.andQuery query = interval.narrowAll query.comparators := by
  unfold andQuery narrowAll Query.comparators
  induction query.ranges generalizing interval with
  | nil => rfl
  | cons range rest ih =>
      rw [List.foldl_cons, List.flatMap_cons, List.foldl_append]
      exact ih ((interval.narrow range.left).narrow range.right)

theorem narrowAll_lowerCut_le (interval : Interval) (comparators : List Comparator)
    (cut : Cut Precedence) :
    (interval.narrowAll comparators).lowerCut ≤ cut ↔
      interval.lowerCut ≤ cut ∧ ∀ c ∈ comparators, c.lowerCut ≤ cut := by
  induction comparators generalizing interval with
  | nil => simp [narrowAll]
  | cons c rest ih =>
      change ((interval.narrow c).narrowAll rest).lowerCut ≤ cut ↔ _
      rw [ih, (narrow_cuts interval c).1, max_le_iff, List.forall_mem_cons, and_assoc]

theorem le_narrowAll_upperCut (interval : Interval) (comparators : List Comparator)
    (cut : WithTop (Cut Precedence)) :
    cut ≤ (interval.narrowAll comparators).upperCut ↔
      cut ≤ interval.upperCut ∧ ∀ c ∈ comparators, cut ≤ c.upperCut := by
  induction comparators generalizing interval with
  | nil => simp [narrowAll]
  | cons c rest ih =>
      change cut ≤ ((interval.narrow c).narrowAll rest).upperCut ↔ _
      rw [ih, (narrow_cuts interval c).2, le_min_iff, List.forall_mem_cons, and_assoc]

/-! ### Where the bounds come from -/

theorem raise_lower (interval : Interval) (b : Bound) :
    (interval.raise b).upper = interval.upper ∧
      ((interval.raise b).lower = some b ∨
        (interval.raise b).lower = interval.lower ∧ interval.lower.isSome = true) := by
  obtain ⟨lower, upper⟩ := interval
  unfold raise
  cases lower with
  | none => exact ⟨rfl, Or.inl rfl⟩
  | some cur =>
      cases raises b (some cur) with
      | true => exact ⟨rfl, Or.inl rfl⟩
      | false => exact ⟨rfl, Or.inr ⟨rfl, rfl⟩⟩

theorem cap_upper (interval : Interval) (b : Bound) :
    (interval.cap b).lower = interval.lower ∧
      ((interval.cap b).upper = some b ∨
        (interval.cap b).upper = interval.upper ∧ interval.upper.isSome = true) := by
  obtain ⟨lower, upper⟩ := interval
  unfold cap
  cases upper with
  | none => exact ⟨rfl, Or.inl rfl⟩
  | some cur =>
      cases caps b (some cur) with
      | true => exact ⟨rfl, Or.inl rfl⟩
      | false => exact ⟨rfl, Or.inr ⟨rfl, rfl⟩⟩

theorem narrow_lower (interval : Interval) (c : Comparator) :
    (interval.narrow c).lower = interval.lower ∧ (c.lowerBound = none ∨ interval.lower.isSome = true) ∨
      c.lowerBound.isSome = true ∧ (interval.narrow c).lower = c.lowerBound := by
  unfold narrow Comparator.lowerBound
  cases c.op with
  | unset => exact Or.inl ⟨rfl, Or.inl rfl⟩
  | lt => exact Or.inl ⟨(cap_upper _ _).1, Or.inl rfl⟩
  | lte => exact Or.inl ⟨(cap_upper _ _).1, Or.inl rfl⟩
  | gt =>
      rcases (raise_lower interval ⟨c.version, false⟩).2 with taken | ⟨kept, present⟩
      · exact Or.inr ⟨rfl, taken⟩
      · exact Or.inl ⟨kept, Or.inr present⟩
  | gte =>
      rcases (raise_lower interval ⟨c.version, true⟩).2 with taken | ⟨kept, present⟩
      · exact Or.inr ⟨rfl, taken⟩
      · exact Or.inl ⟨kept, Or.inr present⟩
  | eql =>
      rcases (raise_lower interval ⟨c.version, true⟩).2 with taken | ⟨kept, present⟩
      · exact Or.inr ⟨rfl, (cap_upper _ _).1.trans taken⟩
      · exact Or.inl ⟨(cap_upper _ _).1.trans kept, Or.inr present⟩

theorem narrow_upper (interval : Interval) (c : Comparator) :
    (interval.narrow c).upper = interval.upper ∧ (c.upperBound = none ∨ interval.upper.isSome = true) ∨
      c.upperBound.isSome = true ∧ (interval.narrow c).upper = c.upperBound := by
  unfold narrow Comparator.upperBound
  cases c.op with
  | unset => exact Or.inl ⟨rfl, Or.inl rfl⟩
  | gt => exact Or.inl ⟨(raise_lower _ _).1, Or.inl rfl⟩
  | gte => exact Or.inl ⟨(raise_lower _ _).1, Or.inl rfl⟩
  | lt =>
      rcases (cap_upper interval ⟨c.version, false⟩).2 with taken | ⟨kept, present⟩
      · exact Or.inr ⟨rfl, taken⟩
      · exact Or.inl ⟨kept, Or.inr present⟩
  | lte =>
      rcases (cap_upper interval ⟨c.version, true⟩).2 with taken | ⟨kept, present⟩
      · exact Or.inr ⟨rfl, taken⟩
      · exact Or.inl ⟨kept, Or.inr present⟩
  | eql =>
      have same := (raise_lower interval ⟨c.version, true⟩).1
      rcases (cap_upper (interval.raise ⟨c.version, true⟩) ⟨c.version, true⟩).2 with
        taken | ⟨kept, present⟩
      · exact Or.inr ⟨rfl, taken⟩
      · rw [same] at kept present
        exact Or.inl ⟨kept, Or.inr present⟩

/-- A bound of the result is one of the comparators', and it is there as soon as one of
them has one.  This is said of either side of the interval. -/
theorem narrowAll_side (side : Interval → Option Bound) (boundOf : Comparator → Option Bound)
    (step : ∀ interval c, side (interval.narrow c) = side interval ∧
        (boundOf c = none ∨ (side interval).isSome = true) ∨
      (boundOf c).isSome = true ∧ side (interval.narrow c) = boundOf c)
    (comparators : List Comparator) (interval : Interval) :
    (∀ b, side (interval.narrowAll comparators) = some b →
        side interval = some b ∨ ∃ c ∈ comparators, boundOf c = some b) ∧
      ((side interval).isSome = true ∨ (∃ c ∈ comparators, (boundOf c).isSome = true) →
        (side (interval.narrowAll comparators)).isSome = true) := by
  induction comparators generalizing interval with
  | nil =>
      refine ⟨fun b found => Or.inl found, ?_⟩
      rintro (present | ⟨c, member, _⟩)
      · exact present
      · exact absurd member List.not_mem_nil
  | cons c rest ih =>
      obtain ⟨source, present⟩ := ih (interval.narrow c)
      refine ⟨fun b found => ?_, fun given => present ?_⟩
      · rcases source b found with here | ⟨d, member, bound⟩
        · rcases step interval c with ⟨kept, _⟩ | ⟨_, taken⟩
          · exact Or.inl (kept.symm.trans here)
          · exact Or.inr ⟨c, List.mem_cons_self, taken.symm.trans here⟩
        · exact Or.inr ⟨d, List.mem_cons_of_mem c member, bound⟩
      · rcases step interval c with ⟨kept, only⟩ | ⟨isBound, taken⟩
        · rcases given with before | ⟨d, member, bound⟩
          · exact Or.inl (by rw [kept]; exact before)
          · rcases List.mem_cons.mp member with rfl | later
            · rcases only with absent | before
              · rw [absent] at bound
                exact absurd bound (by decide)
              · exact Or.inl (by rw [kept]; exact before)
            · exact Or.inr ⟨d, later, bound⟩
        · exact Or.inl (by rw [taken]; exact isBound)

theorem lower_source {comparators : List Comparator} {b : Bound}
    (found : (({} : Interval).narrowAll comparators).lower = some b) :
    ∃ c ∈ comparators, c.lowerBound = some b := by
  rcases (narrowAll_side Interval.lower Comparator.lowerBound narrow_lower comparators {}).1 b
    found with start | source
  · exact absurd start (by simp)
  · exact source

theorem upper_source {comparators : List Comparator} {b : Bound}
    (found : (({} : Interval).narrowAll comparators).upper = some b) :
    ∃ c ∈ comparators, c.upperBound = some b := by
  rcases (narrowAll_side Interval.upper Comparator.upperBound narrow_upper comparators {}).1 b
    found with start | source
  · exact absurd start (by simp)
  · exact source

theorem exists_lower {comparators : List Comparator} {c : Comparator} (member : c ∈ comparators)
    (isBound : c.lowerBound.isSome = true) :
    ∃ b, (({} : Interval).narrowAll comparators).lower = some b :=
  Option.isSome_iff_exists.mp ((narrowAll_side Interval.lower Comparator.lowerBound narrow_lower
    comparators {}).2 (Or.inr ⟨c, member, isBound⟩))

theorem exists_upper {comparators : List Comparator} {c : Comparator} (member : c ∈ comparators)
    (isBound : c.upperBound.isSome = true) :
    ∃ b, (({} : Interval).narrowAll comparators).upper = some b :=
  Option.isSome_iff_exists.mp ((narrowAll_side Interval.upper Comparator.upperBound narrow_upper
    comparators {}).2 (Or.inr ⟨c, member, isBound⟩))

theorem lowerCut_le_iff (comparators : List Comparator) (cut : Cut Precedence)
    (fromLowest : Cut.below lowest.precedence ≤ cut) :
    (({} : Interval).narrowAll comparators).lowerCut ≤ cut ↔
      ∀ c ∈ comparators, c.lowerCut ≤ cut := by
  rw [narrowAll_lowerCut_le]
  exact and_iff_right fromLowest

theorem le_upperCut_iff (comparators : List Comparator) (cut : WithTop (Cut Precedence)) :
    cut ≤ (({} : Interval).narrowAll comparators).upperCut ↔
      ∀ c ∈ comparators, cut ≤ c.upperCut := by
  rw [le_narrowAll_upperCut]
  exact and_iff_right le_top

theorem lowerCut_le {comparators : List Comparator} {c : Comparator} (member : c ∈ comparators) :
    c.lowerCut ≤ (({} : Interval).narrowAll comparators).lowerCut :=
  (lowerCut_le_iff comparators _ (lowest_le_lowerCut _)).mp (le_refl _) c member

theorem upperCut_le {comparators : List Comparator} {c : Comparator} (member : c ∈ comparators) :
    (({} : Interval).narrowAll comparators).upperCut ≤ c.upperCut :=
  (le_upperCut_iff comparators _).mp (le_refl _) c member

/-! ### The tests on intervals -/

theorem isNonEmpty_iff (interval : Interval) :
    interval.isNonEmpty = true ↔
      ((interval.lowerCut : Cut Precedence) : WithTop (Cut Precedence)) < interval.upperCut := by
  obtain ⟨lower, upper⟩ := interval
  cases upper with
  | none => exact iff_of_true rfl (WithTop.coe_lt_top _)
  | some u =>
      have cut : lowerCut { lower, upper := some u } =
          (lower.getD { version := Comparator.nullSet.version, inclusive := true }).lowerCut := by
        cases lower with
        | none => rfl
        | some l => rfl
      rw [cut]
      change _ ↔ ((_ : Cut Precedence) : WithTop (Cut Precedence)) < (u.upperCut : Cut Precedence)
      unfold isNonEmpty
      dsimp only
      generalize lower.getD { version := Comparator.nullSet.version, inclusive := true } = l
      rw [WithTop.coe_lt_coe]
      unfold Bound.lowerCut Bound.upperCut Cut.lower Cut.upper
      rw [Cut.lt_iff]
      cases order : l.version.orderWithoutBuild u.version with
      | lt =>
          have less := Version.orderWithoutBuild_keyed.eq_lt.mp order
          simp [less]
      | eq =>
          have same := Version.orderWithoutBuild_keyed.eq_eq.mp order
          cases l.inclusive <;> cases u.inclusive <;> simp [same]
      | gt =>
          have greater := Version.orderWithoutBuild_keyed.eq_gt.mp order
          simp [greater.ne', not_lt.mpr greater.le]

theorem isNonEmpty_of_contains {interval : Interval} {version : Version}
    (contains : interval.Contains version) : interval.isNonEmpty = true := by
  rw [isNonEmpty_iff]
  have inside : Cut.below version.precedence < Cut.above version.precedence :=
    Cut.below_lt_above.mpr (le_refl _)
  exact (WithTop.coe_le_coe.mpr contains.1).trans_lt
    ((WithTop.coe_lt_coe.mpr inside).trans_le contains.2)

theorem isNonEmpty_narrowAll_iff (comparators : List Comparator) :
    (({} : Interval).narrowAll comparators).isNonEmpty = true ↔
      ∀ l ∈ comparators, ∀ u ∈ comparators,
        ((l.lowerCut : Cut Precedence) : WithTop (Cut Precedence)) < u.upperCut := by
  rw [isNonEmpty_iff]
  constructor
  · intro room l inLower u inUpper
    exact (WithTop.coe_le_coe.mpr (lowerCut_le inLower)).trans_lt
      (room.trans_le (upperCut_le inUpper))
  · intro apart
    cases up : (({} : Interval).narrowAll comparators).upper with
    | none =>
        unfold upperCut
        rw [up]
        exact WithTop.coe_lt_top _
    | some b =>
        obtain ⟨u, inUpper, bound⟩ := upper_source up
        have upperEq : (({} : Interval).narrowAll comparators).upperCut = u.upperCut := by
          rw [u.upperCut_eq, bound, ← up]
          rfl
        rw [upperEq]
        cases low : (({} : Interval).narrowAll comparators).lower with
        | none =>
            have start : (({} : Interval).narrowAll comparators).lowerCut ≤ u.lowerCut := by
              unfold lowerCut
              rw [low, u.lowerCut_eq]
              cases u.lowerBound with
              | none => exact le_refl _
              | some b => exact lowest_le_bound b
            exact (WithTop.coe_le_coe.mpr start).trans_lt (apart u inUpper u inUpper)
        | some b =>
            obtain ⟨l, inLower, bound⟩ := lower_source low
            have lowerEq : (({} : Interval).narrowAll comparators).lowerCut = l.lowerCut := by
              rw [l.lowerCut_eq, bound, ← low]
              rfl
            rw [lowerEq]
            exact apart l inLower u inUpper

theorem isWithinLower_le {lower other : Option Bound} (within : isWithinLower lower other = true) :
    lowerCutOf other ≤ lowerCutOf lower := by
  cases other with
  | none =>
      cases lower with
      | none => exact le_refl _
      | some a => exact lowest_le_bound a
  | some b =>
      cases lower with
      | none => exact absurd within Bool.false_ne_true
      | some a =>
          refine (Cut.le_iff _ _ _ _).mpr ?_
          unfold isWithinLower at within
          dsimp only at within
          cases order : a.version.orderWithoutBuild b.version with
          | gt => exact Or.inl (Version.orderWithoutBuild_keyed.eq_gt.mp order)
          | lt =>
              rw [order] at within
              exact absurd within Bool.false_ne_true
          | eq =>
              rw [order] at within
              refine Or.inr ⟨(Version.orderWithoutBuild_keyed.eq_eq.mp order).symm, ?_⟩
              rcases Bool.or_eq_true_iff.mp within with closed | opened
              · rw [closed]
                exact Bool.false_le _
              · rw [opened]
                exact Bool.le_true _

theorem isWithinUpper_le {upper other : Option Bound} (within : isWithinUpper upper other = true) :
    upperCutOf upper ≤ upperCutOf other := by
  cases other with
  | none => exact le_top
  | some b =>
      cases upper with
      | none => exact absurd within Bool.false_ne_true
      | some a =>
          refine WithTop.coe_le_coe.mpr ((Cut.le_iff _ _ _ _).mpr ?_)
          unfold isWithinUpper at within
          dsimp only at within
          cases order : a.version.orderWithoutBuild b.version with
          | lt => exact Or.inl (Version.orderWithoutBuild_keyed.eq_lt.mp order)
          | gt =>
              rw [order] at within
              exact absurd within Bool.false_ne_true
          | eq =>
              rw [order] at within
              refine Or.inr ⟨Version.orderWithoutBuild_keyed.eq_eq.mp order, ?_⟩
              rcases Bool.or_eq_true_iff.mp within with closed | opened
              · rw [closed]
                exact Bool.le_true _
              · rw [Bool.not_eq_true'] at opened
                rw [opened]
                exact Bool.false_le _

theorem Contains.mono {interval other : Interval} {version : Version}
    (contains : interval.Contains version) (within : interval.isWithin other = true) :
    other.Contains version := by
  unfold isWithin at within
  rw [Bool.and_eq_true] at within
  exact ⟨(isWithinLower_le within.1).trans contains.1,
    contains.2.trans (isWithinUpper_le within.2)⟩

end Interval

end Bun.Semver
