/-
The versions that a range operator stands for.

The components that a partial version specifies are compared with as many components of the
version.  A caret and a tilde keep the first of them fixed.
-/

import Bun.Semver.QueryParse
import Bun.Semver.PartialVersions
import Bun.Semver.Precedence

set_option autoImplicit false

namespace Bun.Semver

/-! ### The reference -/

def Partial.specified (version : Partial) : List ℕ :=
  match version.major, version.minor, version.patch with
  | none, _, _ => []
  | some major, none, _ => [major.toNat]
  | some major, some minor, none => [major.toNat, minor.toNat]
  | some major, some minor, some patch => [major.toNat, minor.toNat, patch.toNat]

def Version.numbers (version : Version) : List ℕ :=
  [version.major.toNat, version.minor.toNat, version.patch.toNat]

def Partial.isPre (version : Partial) : Bool :=
  version.specified.length = 3 && version.tag.hasPre

/-- How many components a caret keeps: those up to the left-most that is not zero. -/
def caretKept (specified : List ℕ) : ℕ :=
  (specified.takeWhile (· = 0)).length + 1

def InNpmRange (tag : TokenTag) (wanted : Partial) (version : Version) : Prop :=
  let specified := wanted.specified
  let numbers := version.numbers.take specified.length
  match tag with
  | .none => True
  | .version => numbers = specified ∧ wanted.isPre = false
  | .gt => specified < numbers ∨ numbers = specified ∧ wanted.isPre = true
  | .gte => specified < numbers ∨ numbers = specified
  | .lt => numbers < specified
  | .lte => numbers < specified ∨ numbers = specified ∧ wanted.isPre = false
  | .tilda =>
      (specified < numbers ∨ numbers = specified) ∧ numbers.take 2 = specified.take 2
  | .caret =>
      (specified < numbers ∨ numbers = specified) ∧
        numbers.take (caretKept specified) = specified.take (caretKept specified)

/-! ### Comparators and releases -/

theorem three_lt_iff (a b c d e f : ℕ) :
    [a, b, c] < [d, e, f] ↔ a < d ∨ a = d ∧ (b < e ∨ b = e ∧ c < f) := by
  simp [List.cons_lt_cons_iff]

theorem two_lt_iff (a b d e : ℕ) : [a, b] < [d, e] ↔ a < d ∨ a = d ∧ b < e := by
  simp [List.cons_lt_cons_iff]

theorem one_lt_iff (a d : ℕ) : [a] < [d] ↔ a < d := by
  simp [List.cons_lt_cons_iff]

theorem compare_then_iff (a d : ℕ) (next : Ordering) :
    ((compare a d).then next = .lt ↔ a < d ∨ a = d ∧ next = .lt) ∧
      ((compare a d).then next = .eq ↔ a = d ∧ next = .eq) ∧
      ((compare a d).then next = .gt ↔ d < a ∨ a = d ∧ next = .gt) := by
  rcases Nat.lt_trichotomy a d with less | same | greater
  · rw [Nat.compare_eq_lt.mpr less, Ordering.lt_then]
    simp [less, less.ne, less.not_gt]
  · rw [Nat.compare_eq_eq.mpr same, Ordering.eq_then]
    simp [same]
  · rw [Nat.compare_eq_gt.mpr greater, Ordering.gt_then]
    simp [greater, greater.ne', greater.not_gt]

theorem orderCore_iff (version wanted : Version) :
    (version.orderCore wanted = .lt ↔ version.numbers < wanted.numbers) ∧
      (version.orderCore wanted = .eq ↔ version.numbers = wanted.numbers) ∧
      (version.orderCore wanted = .gt ↔ wanted.numbers < version.numbers) := by
  unfold Version.orderCore Version.numbers
  obtain ⟨majorLt, majorEq, majorGt⟩ := compare_then_iff version.major.toNat wanted.major.toNat
    ((compare version.minor.toNat wanted.minor.toNat).then
      (compare version.patch.toNat wanted.patch.toNat))
  obtain ⟨minorLt, minorEq, minorGt⟩ := compare_then_iff version.minor.toNat wanted.minor.toNat
    (compare version.patch.toNat wanted.patch.toNat)
  refine ⟨?_, ?_, ?_⟩
  · rw [majorLt, minorLt, Nat.compare_eq_lt, three_lt_iff]
  · rw [majorEq, minorEq, Nat.compare_eq_eq]
    simp only [List.cons.injEq, and_true]
  · rw [majorGt, minorGt, Nat.compare_eq_gt, three_lt_iff]
    omega

theorem orderWithoutBuild_release {version : Version} (release : version.tag.hasPre = false)
    (wanted : Version) :
    version.orderWithoutBuild wanted =
      (version.orderCore wanted).then (if wanted.tag.hasPre then .gt else .eq) := by
  have noPre := (Tag.hasPre_eq_false_iff _).mp release
  rw [Version.orderWithoutBuild_eq, Version.orderWithoutTag_eq, Ordering.then_assoc]
  congr 1
  unfold Tag.orderPresence Tag.orderWithoutBuild
  rw [release, noPre]
  cases isPre : wanted.tag.hasPre with
  | false =>
      rw [(Tag.hasPre_eq_false_iff _).mp isPre]
      rfl
  | true => rfl

theorem satisfies_release {version : Version} (release : version.tag.hasPre = false) (op : Op)
    (wanted : Version) :
    Comparator.satisfies { op, version := wanted } version = true ↔
      match op with
      | .unset => False
      | .eql => version.numbers = wanted.numbers ∧ wanted.tag.hasPre = false
      | .lt => version.numbers < wanted.numbers
      | .lte => version.numbers < wanted.numbers ∨
          version.numbers = wanted.numbers ∧ wanted.tag.hasPre = false
      | .gt => wanted.numbers < version.numbers ∨
          version.numbers = wanted.numbers ∧ wanted.tag.hasPre = true
      | .gte => wanted.numbers < version.numbers ∨ version.numbers = wanted.numbers := by
  obtain ⟨isLt, isEq, isGt⟩ := orderCore_iff version wanted
  unfold Comparator.satisfies
  rw [orderWithoutBuild_release release]
  dsimp only
  cases order : version.orderCore wanted with
  | lt =>
      have less := isLt.mp order
      have notZero : wanted.isZero = false := by
        rw [Bool.eq_false_iff]
        intro isZero
        unfold Version.isZero at isZero
        simp only [Bool.and_eq_true, beq_iff_eq] at isZero
        unfold Version.numbers at less
        rw [three_lt_iff, isZero.2, isZero.1.2, isZero.1.1, UInt64.toNat_zero] at less
        omega
      have notSame := less.ne
      have notGreater := less.not_gt
      cases op with
      | unset => simp
      | eql => simp [notSame]
      | lt => simp [less]
      | lte => simp [less]
      | gt => simp [notSame, notGreater]
      | gte => simp [notSame, notGreater, notZero]
  | eq =>
      have same := isEq.mp order
      rw [same]
      cases isPre : wanted.tag.hasPre with
      | false =>
          cases op with
          | unset => simp
          | eql => simp
          | lt => simp
          | lte => simp
          | gt => simp
          | gte => simp
      | true =>
          cases op with
          | unset => simp
          | eql => simp
          | lt => simp
          | lte => simp
          | gt => simp
          | gte => simp
  | gt =>
      have greater := isGt.mp order
      have notSame := greater.ne'
      have notLess := greater.not_gt
      cases op with
      | unset => simp
      | eql => simp [notSame]
      | lt => simp [notLess]
      | lte => simp [notSame, notLess]
      | gt => simp [greater]
      | gte => simp [greater]

/-! ### The derived comparators -/

theorem checkedAddOne_cases (n : UInt64) :
    (checkedAddOne n = none ∧ n.toNat = 2 ^ 64 - 1) ∨
      ∃ m, checkedAddOne n = some m ∧ m.toNat = n.toNat + 1 := by
  unfold checkedAddOne
  by_cases isMax : n = u64Max
  · rw [if_pos isMax, isMax]
    exact Or.inl ⟨rfl, rfl⟩
  · have below := n.toNat_lt
    have notMax : n.toNat ≠ 2 ^ 64 - 1 := fun isMaxNat =>
      isMax (UInt64.toNat_inj.mp (isMaxNat.trans rfl))
    rw [if_neg isMax]
    refine Or.inr ⟨n + 1, rfl, ?_⟩
    rw [UInt64.toNat_add, UInt64.toNat_one]
    omega

theorem toNat_ne_zero {n : UInt64} (notZero : n ≠ 0) : n.toNat ≠ 0 :=
  fun isZero => notZero (UInt64.toNat_inj.mp isZero)

section

variable {version : Version} (release : version.tag.hasPre = false)

include release

theorem lt_release (major minor patch : UInt64) (tag : Tag) :
    Comparator.satisfies { op := .lt, version := ⟨major, minor, patch, tag⟩ } version = true ↔
      version.major.toNat < major.toNat ∨ version.major.toNat = major.toNat ∧
        (version.minor.toNat < minor.toNat ∨ version.minor.toNat = minor.toNat ∧
          version.patch.toNat < patch.toNat) := by
  rw [satisfies_release release]
  exact three_lt_iff _ _ _ _ _ _

theorem lte_release (major minor patch : UInt64) :
    Comparator.satisfies { op := .lte, version := ⟨major, minor, patch, {}⟩ } version = true ↔
      version.major.toNat < major.toNat ∨ version.major.toNat = major.toNat ∧
        (version.minor.toNat < minor.toNat ∨ version.minor.toNat = minor.toNat ∧
          version.patch.toNat ≤ patch.toNat) := by
  rw [satisfies_release release]
  dsimp only
  unfold Version.numbers
  rw [three_lt_iff]
  simp only [List.cons.injEq, and_true, show Tag.hasPre {} = false from rfl]
  omega

theorem gte_release (major minor patch : UInt64) (tag : Tag) :
    Comparator.satisfies { op := .gte, version := ⟨major, minor, patch, tag⟩ } version = true ↔
      major.toNat < version.major.toNat ∨ version.major.toNat = major.toNat ∧
        (minor.toNat < version.minor.toNat ∨ version.minor.toNat = minor.toNat ∧
          patch.toNat ≤ version.patch.toNat) := by
  rw [satisfies_release release]
  dsimp only
  unfold Version.numbers
  rw [three_lt_iff]
  simp only [List.cons.injEq, and_true]
  omega

theorem nullSet_release : Comparator.nullSet.satisfies version = true ↔ False := by
  unfold Comparator.nullSet
  rw [lt_release release]
  simp only [UInt64.toNat_zero, Nat.not_lt_zero, false_or, and_false]

theorem ltNextMajor_release (major : UInt64) :
    (Comparator.ltNextMajor major).satisfies version = true ↔
      version.major.toNat ≤ major.toNat := by
  have majorBelow := version.major.toNat_lt
  have minorBelow := version.minor.toNat_lt
  have patchBelow := version.patch.toNat_lt
  unfold Comparator.ltNextMajor
  rcases checkedAddOne_cases major with ⟨isNone, isMax⟩ | ⟨next, isNext, isSucc⟩
  · rw [isNone]
    dsimp only
    rw [lte_release release, show u64Max.toNat = 2 ^ 64 - 1 from rfl]
    omega
  · rw [isNext]
    dsimp only
    rw [lt_release release, UInt64.toNat_zero, isSucc]
    omega

theorem ltNextMinor_release (major minor : UInt64) :
    (Comparator.ltNextMinor major minor).satisfies version = true ↔
      version.major.toNat < major.toNat ∨ version.major.toNat = major.toNat ∧
        version.minor.toNat ≤ minor.toNat := by
  have minorBelow := version.minor.toNat_lt
  have patchBelow := version.patch.toNat_lt
  unfold Comparator.ltNextMinor
  rcases checkedAddOne_cases minor with ⟨isNone, isMax⟩ | ⟨next, isNext, isSucc⟩
  · rw [isNone]
    dsimp only
    rw [lte_release release, show u64Max.toNat = 2 ^ 64 - 1 from rfl]
    omega
  · rw [isNext]
    dsimp only
    rw [lt_release release, UInt64.toNat_zero, isSucc]
    omega

theorem ltNextPatch_release (major minor patch : UInt64) :
    (Comparator.ltNextPatch major minor patch).satisfies version = true ↔
      version.major.toNat < major.toNat ∨ version.major.toNat = major.toNat ∧
        (version.minor.toNat < minor.toNat ∨ version.minor.toNat = minor.toNat ∧
          version.patch.toNat ≤ patch.toNat) := by
  have patchBelow := version.patch.toNat_lt
  unfold Comparator.ltNextPatch
  rcases checkedAddOne_cases patch with ⟨isNone, isMax⟩ | ⟨next, isNext, isSucc⟩
  · rw [isNone]
    dsimp only
    rw [lte_release release, show u64Max.toNat = 2 ^ 64 - 1 from rfl]
    omega
  · rw [isNext]
    dsimp only
    rw [lt_release release, isSucc]
    omega

theorem gteNextMajor_release (major : UInt64) (tag : Tag) :
    (Comparator.gteNextMajor major tag).satisfies version = true ↔
      major.toNat < version.major.toNat := by
  have majorBelow := version.major.toNat_lt
  unfold Comparator.gteNextMajor
  rcases checkedAddOne_cases major with ⟨isNone, isMax⟩ | ⟨next, isNext, isSucc⟩
  · rw [isNone]
    dsimp only
    rw [nullSet_release release, false_iff]
    omega
  · rw [isNext]
    dsimp only
    rw [gte_release release, UInt64.toNat_zero, isSucc]
    omega

theorem gteNextMinor_release (major minor : UInt64) (tag : Tag) :
    (Comparator.gteNextMinor major minor tag).satisfies version = true ↔
      major.toNat < version.major.toNat ∨ version.major.toNat = major.toNat ∧
        minor.toNat < version.minor.toNat := by
  have minorBelow := version.minor.toNat_lt
  unfold Comparator.gteNextMinor
  rcases checkedAddOne_cases minor with ⟨isNone, isMax⟩ | ⟨next, isNext, isSucc⟩
  · rw [isNone]
    dsimp only
    rw [gteNextMajor_release release]
    omega
  · rw [isNext]
    dsimp only
    rw [gte_release release, UInt64.toNat_zero, isSucc]
    omega

end

/-! ### The ranges -/

theorem satisfies_single {left : Comparator} (set : left.op ≠ .unset) (version : Version) :
    Range.satisfies { left } version = true ↔ left.satisfies version = true := by
  unfold Range.satisfies Range.hasLeft Range.hasRight
  simp [set]

theorem satisfies_both {left right : Comparator} (leftSet : left.op ≠ .unset)
    (rightSet : right.op ≠ .unset) (version : Version) :
    Range.satisfies { left, right } version = true ↔
      left.satisfies version = true ∧ right.satisfies version = true := by
  unfold Range.satisfies Range.hasLeft Range.hasRight
  simp [leftSet, rightSet]

theorem ltNextMajor_set (major : UInt64) : (Comparator.ltNextMajor major).op ≠ .unset := by
  unfold Comparator.ltNextMajor
  split
  · exact Op.noConfusion
  · exact Op.noConfusion

theorem ltNextMinor_set (major minor : UInt64) :
    (Comparator.ltNextMinor major minor).op ≠ .unset := by
  unfold Comparator.ltNextMinor
  split
  · exact Op.noConfusion
  · exact Op.noConfusion

theorem ltNextPatch_set (major minor patch : UInt64) :
    (Comparator.ltNextPatch major minor patch).op ≠ .unset := by
  unfold Comparator.ltNextPatch
  split
  · exact Op.noConfusion
  · exact Op.noConfusion

theorem gteNextMajor_set (major : UInt64) (tag : Tag) :
    (Comparator.gteNextMajor major tag).op ≠ .unset := by
  unfold Comparator.gteNextMajor
  split
  · exact Op.noConfusion
  · exact Op.noConfusion

theorem gteNextMinor_set (major minor : UInt64) (tag : Tag) :
    (Comparator.gteNextMinor major minor tag).op ≠ .unset := by
  unfold Comparator.gteNextMinor
  split
  · exact Op.noConfusion
  · exact gteNextMajor_set major tag

section

variable {version : Version} (release : version.tag.hasPre = false)

include release

theorem anyMajor_release (wanted : Version) (floor : Tag) :
    (Range.initWildcard wanted .major floor).satisfies version = true := by
  unfold Range.initWildcard
  rw [satisfies_single Op.noConfusion, gte_release release]
  simp only [UInt64.toNat_zero]
  omega

theorem untilNextMajor_release (major minor patch : UInt64) (floor : Tag) :
    Range.satisfies
        { left := { op := .gte, version := ⟨major, minor, patch, floor⟩ }
          right := .ltNextMajor major } version = true ↔
      version.major.toNat = major.toNat ∧ (minor.toNat < version.minor.toNat ∨
        version.minor.toNat = minor.toNat ∧ patch.toNat ≤ version.patch.toNat) := by
  rw [satisfies_both Op.noConfusion (ltNextMajor_set major), gte_release release,
    ltNextMajor_release release]
  omega

theorem untilNextMinor_release (major minor patch : UInt64) (floor : Tag) :
    Range.satisfies
        { left := { op := .gte, version := ⟨major, minor, patch, floor⟩ }
          right := .ltNextMinor major minor } version = true ↔
      version.major.toNat = major.toNat ∧ version.minor.toNat = minor.toNat ∧
        patch.toNat ≤ version.patch.toNat := by
  rw [satisfies_both Op.noConfusion (ltNextMinor_set major minor), gte_release release,
    ltNextMinor_release release]
  omega

theorem untilNextPatch_release (major minor patch : UInt64) (floor : Tag) :
    Range.satisfies
        { left := { op := .gte, version := ⟨major, minor, patch, floor⟩ }
          right := .ltNextPatch major minor patch } version = true ↔
      version.major.toNat = major.toNat ∧ version.minor.toNat = minor.toNat ∧
        version.patch.toNat = patch.toNat := by
  rw [satisfies_both Op.noConfusion (ltNextPatch_set major minor patch), gte_release release,
    ltNextPatch_release release]
  omega

theorem tilda_release (parsed : ParseResult) (valid : parsed.valid = true) (floor : Tag) :
    (Token.tildaRange parsed floor).satisfies version = true ↔
      InNpmRange .tilda parsed.version version := by
  rcases isVersion : parsed.version with ⟨major, minor, patch, tag⟩
  unfold Token.tildaRange InNpmRange Partial.specified Version.numbers
  rw [isVersion, valid]
  dsimp only
  cases major with
  | none =>
      simp [anyMajor_release release]
  | some major =>
      cases minor with
      | none =>
          rw [untilNextMajor_release release]
          simp [one_lt_iff]
          omega
      | some minor =>
          cases patch with
          | none =>
              rw [untilNextMinor_release release]
              simp [two_lt_iff]
              omega
          | some patch =>
              rw [untilNextMinor_release release]
              simp [three_lt_iff]
              omega

theorem caret_release (parsed : ParseResult) (valid : parsed.valid = true) (floor : Tag) :
    (Token.caretRange parsed floor).satisfies version = true ↔
      InNpmRange .caret parsed.version version := by
  rcases isVersion : parsed.version with ⟨major, minor, patch, tag⟩
  unfold Token.caretRange InNpmRange Partial.specified Version.numbers caretKept
  rw [isVersion, valid]
  dsimp only
  cases major with
  | none =>
      simp [anyMajor_release release]
  | some major =>
      cases minor with
      | none =>
          rw [untilNextMajor_release release]
          by_cases noMajor : major = 0
          · simp [noMajor, one_lt_iff]
            omega
          · have notZero := toNat_ne_zero noMajor
            simp [notZero, one_lt_iff]
            omega
      | some minor =>
          cases patch with
          | none =>
              dsimp only
              by_cases noMajor : major = 0
              · rw [noMajor, if_pos rfl, untilNextMinor_release release]
                by_cases noMinor : minor = 0
                · simp [noMinor, two_lt_iff]
                  omega
                · have notZero := toNat_ne_zero noMinor
                  simp [notZero, two_lt_iff]
                  omega
              · have notZero := toNat_ne_zero noMajor
                rw [if_neg noMajor, untilNextMajor_release release]
                simp [notZero, two_lt_iff]
                omega
          | some patch =>
              dsimp only
              by_cases noMajor : major = 0
              · rw [noMajor, if_pos rfl]
                by_cases noMinor : minor = 0
                · rw [noMinor, if_pos rfl, untilNextPatch_release release]
                  by_cases noPatch : patch = 0
                  · simp [noPatch, three_lt_iff]
                    omega
                  · have notZero := toNat_ne_zero noPatch
                    simp [notZero, three_lt_iff]
                    omega
                · have notZero := toNat_ne_zero noMinor
                  rw [if_neg noMinor, untilNextMinor_release release]
                  simp [notZero, three_lt_iff]
                  omega
              · have notZero := toNat_ne_zero noMajor
                rw [if_neg noMajor, untilNextMajor_release release]
                simp [notZero, three_lt_iff]
                omega

theorem full_release (wanted : Version) :
    (Range.satisfies { left := { op := .eql, version := wanted } } version = true ↔
        version.numbers = wanted.numbers ∧ wanted.tag.hasPre = false) ∧
      (Range.satisfies { left := { op := .gt, version := wanted } } version = true ↔
        wanted.numbers < version.numbers ∨
          version.numbers = wanted.numbers ∧ wanted.tag.hasPre = true) ∧
      (Range.satisfies { left := { op := .gte, version := wanted } } version = true ↔
        wanted.numbers < version.numbers ∨ version.numbers = wanted.numbers) ∧
      (Range.satisfies { left := { op := .lt, version := wanted } } version = true ↔
        version.numbers < wanted.numbers) ∧
      (Range.satisfies { left := { op := .lte, version := wanted } } version = true ↔
        version.numbers < wanted.numbers ∨
          version.numbers = wanted.numbers ∧ wanted.tag.hasPre = false) := by
  refine ⟨?_, ?_, ?_, ?_, ?_⟩
  all_goals
    rw [satisfies_single Op.noConfusion, satisfies_release release]

theorem initWildcard_release (wanted : Version) (floor : Tag) :
    ((Range.initWildcard wanted .minor floor).satisfies version = true ↔
        version.major.toNat = wanted.major.toNat) ∧
      ((Range.initWildcard wanted .patch floor).satisfies version = true ↔
        version.major.toNat = wanted.major.toNat ∧ version.minor.toNat = wanted.minor.toNat) := by
  unfold Range.initWildcard
  dsimp only
  rw [satisfies_both (ltNextMajor_set _) Op.noConfusion, ltNextMajor_release release,
    satisfies_both (ltNextMinor_set _ _) Op.noConfusion, ltNextMinor_release release,
    gte_release release, gte_release release, UInt64.toNat_zero]
  omega

theorem bare_release (parsed : ParseResult) (floor : Tag) :
    (Token.toRange ⟨.version, parsed.version.firstMissing⟩ parsed floor).satisfies version = true ↔
      InNpmRange .version parsed.version version := by
  rcases isVersion : parsed.version with ⟨major, minor, patch, tag⟩
  unfold Token.toRange InNpmRange Partial.isPre
  dsimp only
  rw [isVersion]
  cases major with
  | none => simp [Partial.firstMissing, Partial.specified, anyMajor_release release]
  | some major =>
      cases minor with
      | none =>
          have isRange := (initWildcard_release release ⟨major, 0, patch.getD 0, tag⟩ floor).1
          simp [Partial.firstMissing, Partial.specified, isRange, Partial.min, Version.numbers]
      | some minor =>
          cases patch with
          | none =>
              have isRange := (initWildcard_release release ⟨major, minor, 0, tag⟩ floor).2
              simp [Partial.firstMissing, Partial.specified, isRange, Partial.min, Version.numbers]
          | some patch =>
              have isFull := (full_release release ⟨major, minor, patch, tag⟩).1
              simp [Partial.firstMissing, Partial.specified, isFull, Partial.min, Version.numbers]

theorem gt_operator_release (parsed : ParseResult) (valid : parsed.valid = true) (floor : Tag) :
    (Token.toRange ⟨.gt, parsed.version.firstMissing⟩ parsed floor).satisfies version = true ↔
      InNpmRange .gt parsed.version version := by
  rcases isVersion : parsed.version with ⟨major, minor, patch, tag⟩
  unfold Token.toRange Token.operatorRange InNpmRange Partial.isPre
  dsimp only
  rw [isVersion, valid]
  cases major with
  | none =>
      have isNull : Range.satisfies { left := .nullSet } version = false := by
        rw [Bool.eq_false_iff, ne_eq, satisfies_single Op.noConfusion, nullSet_release release]
        exact not_false
      simp [Partial.firstMissing, Partial.specified, isNull]
  | some major =>
      cases minor with
      | none =>
          have isNext := (satisfies_single (gteNextMajor_set major floor) version).trans
            (gteNextMajor_release release major floor)
          simp [Partial.firstMissing, Partial.specified, isNext, Version.numbers, one_lt_iff]
      | some minor =>
          cases patch with
          | none =>
              have isNext := (satisfies_single (gteNextMinor_set major minor floor) version).trans
                (gteNextMinor_release release major minor floor)
              simp [Partial.firstMissing, Partial.specified, isNext, Version.numbers, two_lt_iff]
              omega
          | some patch =>
              have isFull := (full_release release ⟨major, minor, patch, tag⟩).2.1
              simp [Partial.firstMissing, Partial.specified, isFull, Partial.min, Version.numbers]

theorem gte_operator_release (parsed : ParseResult) (floor : Tag) :
    (Token.toRange ⟨.gte, parsed.version.firstMissing⟩ parsed floor).satisfies version = true ↔
      InNpmRange .gte parsed.version version := by
  rcases isVersion : parsed.version with ⟨major, minor, patch, tag⟩
  unfold Token.toRange Token.operatorRange InNpmRange
  dsimp only
  rw [isVersion]
  cases major with
  | none => simp [Partial.firstMissing, Partial.specified, anyMajor_release release]
  | some major =>
      have isFloor (minor : UInt64) :=
        (satisfies_single (show Op.gte ≠ .unset from Op.noConfusion) version).trans
          (gte_release release major minor 0 floor)
      cases minor with
      | none =>
          simp [Partial.firstMissing, Partial.specified, isFloor, Version.numbers, one_lt_iff]
          omega
      | some minor =>
          cases patch with
          | none =>
              simp [Partial.firstMissing, Partial.specified, isFloor, Version.numbers, two_lt_iff]
              omega
          | some patch =>
              have isFull := (full_release release ⟨major, minor, patch, tag⟩).2.2.1
              simp [Partial.firstMissing, Partial.specified, isFull, Partial.min, Version.numbers]

theorem lt_operator_release (parsed : ParseResult) (valid : parsed.valid = true) (floor : Tag) :
    (Token.toRange ⟨.lt, parsed.version.firstMissing⟩ parsed floor).satisfies version = true ↔
      InNpmRange .lt parsed.version version := by
  rcases isVersion : parsed.version with ⟨major, minor, patch, tag⟩
  unfold Token.toRange Token.operatorRange InNpmRange
  dsimp only
  rw [isVersion, valid]
  cases major with
  | none =>
      have isNull : Range.satisfies { left := .nullSet } version = false := by
        rw [Bool.eq_false_iff, ne_eq, satisfies_single Op.noConfusion, nullSet_release release]
        exact not_false
      simp [Partial.firstMissing, Partial.specified, isNull]
  | some major =>
      have isCeiling (minor : UInt64) :=
        (satisfies_single (show Op.lt ≠ .unset from Op.noConfusion) version).trans
          (lt_release release major minor 0 .zeroPre)
      cases minor with
      | none =>
          simp [Partial.firstMissing, Partial.specified, isCeiling, Version.numbers, one_lt_iff]
      | some minor =>
          cases patch with
          | none =>
              simp [Partial.firstMissing, Partial.specified, isCeiling, Version.numbers, two_lt_iff]
          | some patch =>
              have isFull := (full_release release ⟨major, minor, patch, tag⟩).2.2.2.1
              simp [Partial.firstMissing, Partial.specified, isFull, Partial.min, Version.numbers]

theorem lte_operator_release (parsed : ParseResult) (floor : Tag) :
    (Token.toRange ⟨.lte, parsed.version.firstMissing⟩ parsed floor).satisfies version = true ↔
      InNpmRange .lte parsed.version version := by
  rcases isVersion : parsed.version with ⟨major, minor, patch, tag⟩
  unfold Token.toRange Token.operatorRange InNpmRange Partial.isPre
  dsimp only
  rw [isVersion]
  cases major with
  | none => simp [Partial.firstMissing, Partial.specified, anyMajor_release release]
  | some major =>
      cases minor with
      | none =>
          have isNext := (satisfies_single (ltNextMajor_set major) version).trans
            (ltNextMajor_release release major)
          simp [Partial.firstMissing, Partial.specified, isNext, Version.numbers, one_lt_iff]
          omega
      | some minor =>
          cases patch with
          | none =>
              have isNext := (satisfies_single (ltNextMinor_set major minor) version).trans
                (ltNextMinor_release release major minor)
              simp [Partial.firstMissing, Partial.specified, isNext, Version.numbers, two_lt_iff]
              omega
          | some patch =>
              have isFull := (full_release release ⟨major, minor, patch, tag⟩).2.2.2.2
              simp [Partial.firstMissing, Partial.specified, isFull, Partial.min, Version.numbers]

/-- What an operator or none accepts of the releases, for a partial version as it is written. -/
theorem toRange_release {tag : TokenTag} (written : tag ≠ .none) {parsed : ParseResult}
    (valid : parsed.valid = true) (isFirst : parsed.wildcard = parsed.version.firstMissing)
    (floor : Tag) :
    (Token.toRange ⟨tag, parsed.wildcard⟩ parsed floor).satisfies version = true ↔
      InNpmRange tag parsed.version version := by
  rw [isFirst]
  cases tag with
  | none => exact absurd rfl written
  | caret => exact caret_release release parsed valid floor
  | tilda => exact tilda_release release parsed valid floor
  | version => exact bare_release release parsed floor
  | gt => exact gt_operator_release release parsed valid floor
  | gte => exact gte_operator_release release parsed floor
  | lt => exact lt_operator_release release parsed valid floor
  | lte => exact lte_operator_release release parsed floor

end

/-- `>1.18446744073709551615` accepts `2.0.0`: the next minor version overflows. -/
theorem toRange_release_nextMinor :
    let parsed := Version.parse ("1.18446744073709551615".toUTF8.toList)
    (Token.toRange ⟨.gt, parsed.wildcard⟩ parsed {}).satisfies ⟨2, 0, 0, {}⟩ = true := by
  have valid : (Version.parse ("1.18446744073709551615".toUTF8.toList)).valid = true := by
    decide +kernel
  have release : Tag.hasPre (⟨2, 0, 0, {}⟩ : Version).tag = false := rfl
  refine (toRange_release release TokenTag.noConfusion valid (Version.parse_firstMissing valid)
    {}).mpr ?_
  left
  decide +kernel

end Bun.Semver
