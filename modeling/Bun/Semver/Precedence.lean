/-
The order of versions as a linear order of keys.

`order_without_build` compares the precedence of two versions: their numbers,
then their prerelease identifiers one by one.  `order` compares the build text as
well when neither version has a prerelease.
-/

import Bun.Foundation.KeyOrder
import Bun.Semver.Decimal

set_option autoImplicit false

namespace Bun.Semver

open Bun.Foundation

/-- An identifier of a prerelease: a number, or else the bytes of a text.  Numbers
come before texts. -/
abbrev Identifier := ℕ ⊕ₗ List ℕ

/-- The numbers, then the prerelease identifiers, where a version without a prerelease
comes after all of its prereleases. -/
abbrev Precedence := (ℕ ×ₗ ℕ ×ₗ ℕ) ×ₗ WithTop (List Identifier)

def textKey (text : List UInt8) : List ℕ :=
  text.map UInt8.toNat

def Identifier.number (value : ℕ) : Identifier :=
  toLex (Sum.inl value)

def Identifier.text (part : List UInt8) : Identifier :=
  toLex (Sum.inr (textKey part))

/-- The identifier that `order_pre` sees in a part. -/
def Identifier.ofPart (part : List UInt8) : Identifier :=
  match parseAscii part with
  | some value => .number value.toNat
  | none => .text part

def Tag.identifiers (tag : Tag) : List Identifier :=
  (tag.pre.splitOn dot).map Identifier.ofPart

def Tag.precedence (tag : Tag) : WithTop (List Identifier) :=
  if tag.hasPre then (tag.identifiers : WithTop (List Identifier)) else ⊤

def Version.core (version : Version) : ℕ ×ₗ ℕ ×ₗ ℕ :=
  toLex (version.major.toNat, toLex (version.minor.toNat, version.patch.toNat))

def Version.precedence (version : Version) : Precedence :=
  toLex (version.core, version.tag.precedence)

/-! ### Identifiers -/

theorem compare_byte_compares (c d : UInt8) : (compare c d).Compares c.toNat d.toNat :=
  compareOfLessAndEq_compares (fun _ _ => UInt8.lt_iff_toNat_lt) (fun _ _ => UInt8.toNat_inj.mp) c d

theorem compare_bytes_compares (a b : List UInt8) :
    (compare a b).Compares (textKey a) (textKey b) := by
  induction a generalizing b with
  | nil =>
      cases b with
      | nil => rfl
      | cons d ds => exact List.nil_lt_cons _ _
  | cons c cs ih =>
      cases b with
      | nil => exact List.nil_lt_cons _ _
      | cons d ds =>
          rw [List.compare_cons_cons]
          exact compares_cons (compare_byte_compares c d) (ih ds)

theorem orderPart_compares (lhsPart rhsPart : List UInt8) :
    (Tag.orderPart lhsPart rhsPart).Compares
      (Identifier.ofPart lhsPart) (Identifier.ofPart rhsPart) := by
  unfold Tag.orderPart Identifier.ofPart
  cases parseAscii lhsPart with
  | none =>
      cases parseAscii rhsPart with
      | none => exact compares_inr (compare_bytes_compares lhsPart rhsPart)
      | some rhsUint => exact Sum.Lex.inl_lt_inr _ _
  | some lhsUint =>
      cases parseAscii rhsPart with
      | none => exact Sum.Lex.inl_lt_inr _ _
      | some rhsUint =>
          exact compares_inl (compareOfLessAndEq_compares (fun _ _ => UInt64.lt_iff_toNat_lt)
            (fun _ _ => UInt64.toNat_inj.mp) lhsUint rhsUint)

theorem orderParts_compares (lhs rhs : List (List UInt8)) :
    (Tag.orderParts lhs rhs).Compares
      (lhs.map Identifier.ofPart) (rhs.map Identifier.ofPart) := by
  induction lhs generalizing rhs with
  | nil =>
      cases rhs with
      | nil => rfl
      | cons rhsPart rhs => exact List.nil_lt_cons _ _
  | cons lhsPart lhs ih =>
      cases rhs with
      | nil => exact List.nil_lt_cons _ _
      | cons rhsPart rhs =>
          have step : Tag.orderParts (lhsPart :: lhs) (rhsPart :: rhs) =
              (Tag.orderPart lhsPart rhsPart).then (Tag.orderParts lhs rhs) := by
            rw [Tag.orderParts]
            cases Tag.orderPart lhsPart rhsPart with
            | lt => rfl
            | eq => rfl
            | gt => rfl
          rw [step]
          exact compares_cons (orderPart_compares lhsPart rhsPart) (ih rhs)

/-! ### Tags and versions -/

theorem Tag.hasPre_eq_false_iff (tag : Tag) : tag.hasPre = false ↔ tag.pre = [] := by
  unfold Tag.hasPre
  rw [Bool.not_eq_false', List.isEmpty_iff]

/-- What `order_without_tag` decides about the tags alone. -/
def Tag.orderPresence (lhs rhs : Tag) : Ordering :=
  if lhs.hasPre then
    if !rhs.hasPre then .lt else .eq
  else if rhs.hasPre then .gt
  else .eq

theorem Tag.orderPresence_then_compares (lhs rhs : Tag) :
    ((lhs.orderPresence rhs).then (lhs.orderWithoutBuild rhs)).Compares
      lhs.precedence rhs.precedence := by
  unfold Tag.orderPresence Tag.precedence
  cases left : lhs.hasPre with
  | false =>
      cases right : rhs.hasPre with
      | false =>
          have same : lhs.orderWithoutBuild rhs = .eq := by
            unfold Tag.orderWithoutBuild
            rw [(Tag.hasPre_eq_false_iff lhs).mp left, (Tag.hasPre_eq_false_iff rhs).mp right]
            rfl
          rw [same]
          rfl
      | true => exact WithTop.coe_lt_top _
  | true =>
      cases right : rhs.hasPre with
      | false => exact WithTop.coe_lt_top _
      | true =>
          have byParts : lhs.orderWithoutBuild rhs = lhs.orderPre rhs := by
            unfold Tag.orderWithoutBuild
            exact if_pos (Bool.and_eq_true_iff.mpr ⟨left, right⟩)
          rw [byParts]
          exact compares_coe.mpr (orderParts_compares _ _)

theorem threeWay_eq (a b : UInt64) (next : Ordering) :
    (if a < b then Ordering.lt else if a > b then Ordering.gt else next) =
      (compare a.toNat b.toNat).then next := by
  rcases Nat.lt_trichotomy a.toNat b.toNat with less | same | greater
  · rw [if_pos (UInt64.lt_iff_toNat_lt.mpr less), Nat.compare_eq_lt.mpr less]
    rfl
  · obtain rfl := UInt64.toNat_inj.mp same
    rw [if_neg (UInt64.lt_irrefl a), if_neg (UInt64.lt_irrefl a), Nat.compare_eq_eq.mpr rfl]
    rfl
  · have notLess : ¬ a < b := fun less =>
      absurd (UInt64.lt_iff_toNat_lt.mp less) (Nat.not_lt.mpr greater.le)
    rw [if_neg notLess, if_pos (UInt64.lt_iff_toNat_lt.mpr greater),
      Nat.compare_eq_gt.mpr greater]
    rfl

namespace Version

def orderCore (lhs rhs : Version) : Ordering :=
  (compare lhs.major.toNat rhs.major.toNat).then
    ((compare lhs.minor.toNat rhs.minor.toNat).then (compare lhs.patch.toNat rhs.patch.toNat))

theorem orderCore_compares (lhs rhs : Version) :
    (orderCore lhs rhs).Compares lhs.core rhs.core :=
  compares_then (compares_compare _ _)
    (compares_then (compares_compare _ _) (compares_compare _ _))

theorem orderWithoutTag_eq (lhs rhs : Version) :
    orderWithoutTag lhs rhs =
      (orderCore lhs rhs).then (lhs.tag.orderPresence rhs.tag) := by
  unfold orderWithoutTag orderCore
  rw [threeWay_eq, threeWay_eq, threeWay_eq, Ordering.then_assoc, Ordering.then_assoc]
  rfl

theorem orderWithoutBuild_eq (lhs rhs : Version) :
    orderWithoutBuild lhs rhs =
      (orderWithoutTag lhs rhs).then (lhs.tag.orderWithoutBuild rhs.tag) := by
  unfold orderWithoutBuild
  cases orderWithoutTag lhs rhs with
  | lt => rfl
  | eq => rfl
  | gt => rfl

theorem order_eq (lhs rhs : Version) :
    order lhs rhs = (orderWithoutTag lhs rhs).then (lhs.tag.order rhs.tag) := by
  unfold order
  cases orderWithoutTag lhs rhs with
  | lt => rfl
  | eq => rfl
  | gt => rfl

theorem orderWithoutBuild_keyed : Keyed orderWithoutBuild precedence := by
  intro lhs rhs
  rw [orderWithoutBuild_eq, orderWithoutTag_eq, Ordering.then_assoc]
  exact compares_then (orderCore_compares lhs rhs) (Tag.orderPresence_then_compares lhs.tag rhs.tag)

/-! ### The order with build metadata -/

/-- The build text that `order` still looks at: none behind a prerelease. -/
def buildKey (version : Version) : List ℕ :=
  if version.tag.hasPre then [] else textKey version.tag.build

def fullKey (version : Version) : Precedence ×ₗ List ℕ :=
  toLex (version.precedence, version.buildKey)

def orderBuild (lhs rhs : Version) : Ordering :=
  if lhs.tag.hasPre || rhs.tag.hasPre then .eq
  else compare lhs.tag.build rhs.tag.build

theorem order_eq_orderWithoutBuild_then (lhs rhs : Version) :
    order lhs rhs = (orderWithoutBuild lhs rhs).then (orderBuild lhs rhs) := by
  rw [order_eq, orderWithoutBuild_eq, Ordering.then_assoc, orderWithoutTag_eq,
    Ordering.then_assoc, Ordering.then_assoc]
  congr 1
  unfold Tag.orderPresence Tag.order Tag.orderWithoutBuild orderBuild
  cases left : lhs.tag.hasPre with
  | false =>
      cases right : rhs.tag.hasPre with
      | false =>
          rw [(Tag.hasPre_eq_false_iff _).mp left, (Tag.hasPre_eq_false_iff _).mp right]
          rfl
      | true => rfl
  | true =>
      cases right : rhs.tag.hasPre with
      | false => rfl
      | true =>
          have both : (!lhs.tag.pre.isEmpty && !rhs.tag.pre.isEmpty) = true :=
            Bool.and_eq_true_iff.mpr ⟨left, right⟩
          rw [if_pos both, if_pos both]
          cases lhs.tag.orderPre rhs.tag with
          | lt => rfl
          | eq => rfl
          | gt => rfl

theorem hasPre_eq_of_precedence_eq {a b : Version} (same : a.precedence = b.precedence) :
    a.tag.hasPre = b.tag.hasPre := by
  have tags : a.tag.precedence = b.tag.precedence := congrArg (fun key => (ofLex key).2) same
  unfold Tag.precedence at tags
  cases left : a.tag.hasPre with
  | false =>
      cases right : b.tag.hasPre with
      | false => rfl
      | true =>
          rw [left, right] at tags
          exact absurd tags.symm (WithTop.coe_ne_top)
  | true =>
      cases right : b.tag.hasPre with
      | false =>
          rw [left, right] at tags
          exact absurd tags (WithTop.coe_ne_top)
      | true => rfl

theorem order_keyed : Keyed order fullKey := by
  intro lhs rhs
  rw [order_eq_orderWithoutBuild_then]
  cases base : orderWithoutBuild lhs rhs with
  | lt => exact Prod.Lex.toLex_lt_toLex.mpr (Or.inl (orderWithoutBuild_keyed.eq_lt.mp base))
  | gt => exact Prod.Lex.toLex_lt_toLex.mpr (Or.inl (orderWithoutBuild_keyed.eq_gt.mp base))
  | eq =>
      have same := orderWithoutBuild_keyed.eq_eq.mp base
      have builds : (orderBuild lhs rhs).Compares lhs.buildKey rhs.buildKey := by
        unfold orderBuild buildKey
        rw [hasPre_eq_of_precedence_eq same]
        cases rhs.tag.hasPre with
        | false => exact compare_bytes_compares _ _
        | true => rfl
      have samePrecedence : Ordering.eq.Compares lhs.precedence rhs.precedence := same
      exact compares_then samePrecedence builds

end Version

/-! ### Clause 11 of the specification -/

def Identifier.semver (part : List UInt8) : Identifier :=
  if isNumeric part then .number (decimalValue part) else .text part

/-- As `semver`, but a number above `u64::MAX` is compared by its bytes too. -/
def Identifier.semver64 (part : List UInt8) : Identifier :=
  if isNumeric part ∧ decimalValue part < 2 ^ 64 then .number (decimalValue part)
  else .text part

def Tag.semverIdentifiers (tag : Tag) : List Identifier :=
  (tag.pre.splitOn dot).map Identifier.semver

def Tag.semver64Identifiers (tag : Tag) : List Identifier :=
  (tag.pre.splitOn dot).map Identifier.semver64

/-- The texts consist of the characters that the tag parser lets through. -/
def Tag.AsParsed (tag : Tag) : Prop :=
  tag.pre.all validPreOrBuildTagCharacter = true ∧
    tag.build.all validPreOrBuildTagCharacter = true

theorem ofPart_eq_semver64 (part : List UInt8) (plain : underscore ∉ part) :
    Identifier.ofPart part = Identifier.semver64 part := by
  unfold Identifier.ofPart Identifier.semver64
  rw [parseAscii_eq part plain]
  by_cases fits : isNumeric part ∧ decimalValue part < 2 ^ 64
  · rw [if_pos fits, if_pos fits]
    change Identifier.number (UInt64.ofNat (decimalValue part)).toNat = _
    rw [UInt64.toNat_ofNat_of_lt' fits.2]
  · rw [if_neg fits, if_neg fits]

theorem Tag.AsParsed.underscore_notMem {tag : Tag} (parsed : tag.AsParsed) :
    underscore ∉ tag.pre := by
  intro member
  exact absurd (List.all_eq_true.mp parsed.1 underscore member) (by decide)

theorem mem_of_mem_splitOn {text part : List UInt8} {c : UInt8} (isPart : part ∈ text.splitOn dot)
    (inPart : c ∈ part) : c ∈ text := by
  induction text generalizing part with
  | nil =>
      rw [List.splitOn_nil, List.mem_singleton] at isPart
      exact isPart ▸ inPart
  | cons x xs ih =>
      rw [List.splitOn_cons_eq_if_modifyHead] at isPart
      split at isPart
      · rcases List.mem_cons.mp isPart with first | later
        · rw [first] at inPart
          exact absurd inPart List.not_mem_nil
        · exact List.mem_cons_of_mem x (ih later inPart)
      · cases split : xs.splitOn dot with
        | nil => exact absurd split (List.splitOn_ne_nil dot xs)
        | cons first rest =>
            rw [split, List.modifyHead_cons] at isPart
            rw [split] at ih
            rcases List.mem_cons.mp isPart with extended | later
            · rw [extended] at inPart
              rcases List.mem_cons.mp inPart with here | there
              · exact here ▸ List.mem_cons_self
              · exact List.mem_cons_of_mem x (ih List.mem_cons_self there)
            · exact List.mem_cons_of_mem x (ih (List.mem_cons_of_mem first later) inPart)

theorem identifiers_eq_semver64 (tag : Tag) (parsed : tag.AsParsed) :
    tag.identifiers = tag.semver64Identifiers := by
  unfold Tag.identifiers Tag.semver64Identifiers
  refine List.map_congr_left ?_
  intro part member
  refine ofPart_eq_semver64 part ?_
  intro inPart
  exact parsed.underscore_notMem (mem_of_mem_splitOn member inPart)

namespace Version

theorem order_eq_of_orderWithoutBuild_ne (a b : Version) (decided : a.orderWithoutBuild b ≠ .eq) :
    a.order b = a.orderWithoutBuild b := by
  rw [order_eq_orderWithoutBuild_then]
  cases base : a.orderWithoutBuild b with
  | lt => rfl
  | eq => exact absurd base decided
  | gt => rfl

theorem orderWithoutBuild_tags (version : Version) (lower upper : Tag) :
    ({ version with tag := lower }.orderWithoutBuild { version with tag := upper }).Compares
      lower.precedence upper.precedence := by
  have numbers : orderCore { version with tag := lower } { version with tag := upper } = .eq := by
    unfold orderCore
    rw [Nat.compare_eq_eq.mpr rfl, Nat.compare_eq_eq.mpr rfl, Nat.compare_eq_eq.mpr rfl]
    rfl
  rw [orderWithoutBuild_eq, orderWithoutTag_eq, numbers, Ordering.then_assoc]
  exact Tag.orderPresence_then_compares lower upper

theorem prerelease_lt_release (version : Version) (pre release : Tag) (hasPre : pre.hasPre = true)
    (isRelease : release.hasPre = false) :
    { version with tag := pre }.orderWithoutBuild { version with tag := release } = .lt := by
  refine (orderWithoutBuild_tags version pre release).inj ?_
  unfold Tag.precedence
  rw [hasPre, isRelease]
  exact WithTop.coe_lt_top _

theorem prereleases_compare_identifiers (version : Version) (lower upper : Tag)
    (lowerPre : lower.hasPre = true) (upperPre : upper.hasPre = true) :
    ({ version with tag := lower }.orderWithoutBuild { version with tag := upper }).Compares
      lower.identifiers upper.identifiers := by
  have compares := orderWithoutBuild_tags version lower upper
  unfold Tag.precedence at compares
  rw [if_pos lowerPre, if_pos upperPre] at compares
  exact compares_coe.mp compares

/-- Both orders are total preorders, the second refines the first, and prereleases
compare as the specification has it, with numbers above `u64::MAX` among the texts. -/
theorem order_precedence :
    TotalPreorder orderWithoutBuild ∧ TotalPreorder order ∧
      (∀ a b : Version, a.orderWithoutBuild b ≠ .eq → a.order b = a.orderWithoutBuild b) ∧
      (∀ (version : Version) (pre release : Tag), pre.hasPre = true → release.hasPre = false →
        { version with tag := pre }.orderWithoutBuild { version with tag := release } = .lt) ∧
      (∀ (version : Version) (lower upper : Tag), lower.hasPre = true → upper.hasPre = true →
        lower.AsParsed → upper.AsParsed →
        ({ version with tag := lower }.orderWithoutBuild { version with tag := upper }).Compares
          lower.semver64Identifiers upper.semver64Identifiers) := by
  refine ⟨orderWithoutBuild_keyed.totalPreorder, order_keyed.totalPreorder,
    order_eq_of_orderWithoutBuild_ne, prerelease_lt_release, ?_⟩
  intro version lower upper lowerPre upperPre lowerParsed upperParsed
  rw [← identifiers_eq_semver64 lower lowerParsed, ← identifiers_eq_semver64 upper upperParsed]
  exact prereleases_compare_identifiers version lower upper lowerPre upperPre

/-- `1.0.0-100000000000000000000` is below `1.0.0-99999999999999999999`: the numbers are
above `u64::MAX` and compare as texts. -/
theorem prereleases_not_by_unbounded_numbers :
    ¬ ∀ (version : Version) (lower upper : Tag), lower.hasPre = true → upper.hasPre = true →
      lower.AsParsed → upper.AsParsed →
      ({ version with tag := lower }.orderWithoutBuild { version with tag := upper }).Compares
        lower.semverIdentifiers upper.semverIdentifiers := by
  intro claimed
  have compares := claimed { major := 1 } { pre := ascii "100000000000000000000" }
    { pre := ascii "99999999999999999999" } (by decide) (by decide)
    ⟨by decide, by decide⟩ ⟨by decide, by decide⟩
  have below : orderWithoutBuild { major := 1, tag := { pre := ascii "100000000000000000000" } }
      { major := 1, tag := { pre := ascii "99999999999999999999" } } = .lt := by
    decide +kernel
  rw [below] at compares
  have first : Tag.semverIdentifiers { pre := ascii "100000000000000000000" } =
      [.number 100000000000000000000] := by
    decide +kernel
  have second : Tag.semverIdentifiers { pre := ascii "99999999999999999999" } =
      [.number 99999999999999999999] := by
    decide +kernel
  rw [first, second] at compares
  rcases List.cons_lt_cons_iff.mp compares with less | ⟨_, less⟩
  · exact absurd (Sum.Lex.inl_lt_inl_iff.mp less) (by decide)
  · exact absurd less (List.not_lt_nil [])

end Version

end Bun.Semver
