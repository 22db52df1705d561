/-
Keys of `exports` and `imports`, and the key that a specifier picks.

The specification orders the keys that may be expanded by how specific they are and takes
the first that matches.  The code admits more keys than the specification, and its order
differs where a `/` stands in the place of a `*`.  Keys that match the same specifier are
never equally specific, so that the order in which they are written does not matter.
-/

import Mathlib.Data.List.Nodup
import Bun.Resolver.PackageJson

set_option autoImplicit false

namespace Bun.Resolver

/-! ### The specification -/

/-- The longer base comes first, then the key with a `*`, then the longer key. -/
def compareKeys (base : List UInt8 → ℕ) (keyA keyB : List UInt8) : Ordering :=
  if base keyA > base keyB then .lt
  else if base keyB > base keyA then .gt
  else if (keyA.idxOf? 0x2a).isNone then .gt
  else if (keyB.idxOf? 0x2a).isNone then .lt
  else if keyA.length > keyB.length then .lt
  else if keyB.length > keyA.length then .gt
  else .eq

def patternBaseLength (key : List UInt8) : ℕ :=
  ((key.idxOf? 0x2a).map (· + 1)).getD key.length

def patternKeyCompare (keyA keyB : List UInt8) : Ordering :=
  compareKeys patternBaseLength keyA keyB

/-- A key that may be expanded: it ends in `/` or has a single `*`. -/
def isPatternKey (key : List UInt8) : Bool :=
  endsWithChar key 0x2f || key.count 0x2a = 1

def specifiedMatch (matchKey key : List UInt8) : Option (List UInt8) :=
  if !isPatternKey key then none
  else
    match key.idxOf? 0x2a with
    | some star =>
        let patternBase := key.take star
        let patternTrailer := key.drop (star + 1)
        if patternBase.isPrefixOf matchKey && patternBase ≠ matchKey &&
            (patternTrailer.isEmpty ||
              (patternTrailer.isSuffixOf matchKey && key.length ≤ matchKey.length)) then
          some ((matchKey.take (matchKey.length - patternTrailer.length)).drop patternBase.length)
        else none
    | none => if key.isPrefixOf matchKey then some (matchKey.drop key.length) else none

inductive Choice where
  | exact
  | expansion (key remainder : List UInt8)
deriving DecidableEq, Repr

def isExactKey (matchKey : List UInt8) (keys : List (List UInt8)) : Bool :=
  !endsWithChar matchKey 0x2f && !matchKey.contains 0x2a && keys.contains matchKey

/-- What `PACKAGE_IMPORTS_EXPORTS_RESOLVE` picks. -/
def Specified (matchKey : List UInt8) (keys : List (List UInt8)) : Option Choice → Prop
  | some .exact => isExactKey matchKey keys = true
  | some (.expansion key remainder) =>
      isExactKey matchKey keys = false ∧ key ∈ keys ∧ specifiedMatch matchKey key = some remainder ∧
        ∀ other ∈ keys, other ≠ key → (specifiedMatch matchKey other).isSome = true →
          patternKeyCompare key other = .lt
  | none => isExactKey matchKey keys = false ∧ ∀ key ∈ keys, specifiedMatch matchKey key = none

/-! ### The code -/

/-- The key that `resolve_imports_exports` picks. -/
def chosenKey (matchKey : List UInt8) (list : List (List UInt8 × Entry)) : Option Choice :=
  if isExactKey matchKey (list.map (·.1)) then some .exact
  else (findExpansion matchKey (expansionKeys list)).map fun found => .expansion found.1 found.2.2

theorem compareKeys_lt_iff (base : List UInt8 → ℕ) (keyA keyB : List UInt8) :
    compareKeys base keyA keyB = .lt ↔
      base keyB < base keyA ∨
        (base keyA = base keyB ∧ (keyA.idxOf? 0x2a).isSome = true ∧
          ((keyB.idxOf? 0x2a).isNone = true ∨ keyB.length < keyA.length)) := by
  unfold compareKeys
  cases keyA.idxOf? 0x2a with
  | none =>
      simp only [Option.isNone_none, Option.isSome_none, Bool.false_eq_true, false_and, and_false,
        or_false, reduceIte]
      repeat' split
      all_goals simp_all
  | some starA =>
      cases keyB.idxOf? 0x2a with
      | none =>
          simp only [Option.isNone_none, Option.isNone_some, Option.isSome_some, Bool.false_eq_true,
            true_or, and_true, reduceIte]
          repeat' split
          all_goals simp_all
          all_goals omega
      | some starB =>
          simp only [Option.isNone_some, Option.isSome_some, Bool.false_eq_true, true_and, false_or,
            reduceIte]
          repeat' split
          all_goals simp_all
          all_goals omega

/-- One key comes before another in the code's order. -/
def Before (keyA keyB : List UInt8) : Prop :=
  globLengthCompare keyA keyB = .lt

theorem before_iff (keyA keyB : List UInt8) :
    Before keyA keyB ↔ baseLength keyB < baseLength keyA ∨
      (baseLength keyA = baseLength keyB ∧ (keyA.idxOf? 0x2a).isSome = true ∧
        ((keyB.idxOf? 0x2a).isNone = true ∨ keyB.length < keyA.length)) :=
  compareKeys_lt_iff baseLength keyA keyB

theorem Before.asymm {keyA keyB : List UInt8} (before : Before keyA keyB) : ¬ Before keyB keyA := by
  rw [before_iff] at before ⊢
  rcases before with longer | ⟨same, starA, noStarB | longer⟩
  · omega
  · rintro (other | ⟨_, starB, _⟩)
    · omega
    · rw [Option.isNone_iff_eq_none.mp noStarB] at starB
      cases starB
  · rintro (other | ⟨_, _, noStarA | other⟩)
    · omega
    · rw [Option.isNone_iff_eq_none.mp noStarA] at starA
      cases starA
    · omega

theorem not_before_trans {keyA keyB keyC : List UInt8} (first : ¬ Before keyB keyA)
    (second : ¬ Before keyC keyB) : ¬ Before keyC keyA := by
  rw [before_iff] at first second ⊢
  cases starA : keyA.idxOf? 0x2a with
  | none =>
      rw [starA] at first
      cases starC : keyC.idxOf? 0x2a with
      | none =>
          simp_all
          omega
      | some c =>
          rw [starC] at second
          cases starB : keyB.idxOf? 0x2a with
          | none =>
              simp_all
              omega
          | some b =>
              simp_all
              omega
  | some a =>
      rw [starA] at first
      cases starC : keyC.idxOf? 0x2a with
      | none =>
          simp_all
          omega
      | some c =>
          rw [starC] at second
          cases starB : keyB.idxOf? 0x2a with
          | none =>
              simp_all
              omega
          | some b =>
              simp_all
              omega

/-! ### Keys that match -/

def Accepted (matchKey key : List UInt8) : Prop :=
  isExpansionKey key = true ∧ (matchExpansion matchKey key).isSome = true

theorem key_eq_of_star {key : List UInt8} {star : ℕ} (isStar : key.idxOf? 0x2a = some star) :
    key = key.take star ++ 0x2a :: key.drop (star + 1) ∧ star < key.length ∧
      baseLength key = star := by
  obtain ⟨inRange, isAt, _⟩ := List.idxOf?_eq_some_iff.mp isStar
  have isAt : key[star] = 0x2a := by simpa using isAt
  refine ⟨?_, inRange, ?_⟩
  · conv =>
      lhs
      rw [← List.take_append_drop star key]
    rw [List.drop_eq_getElem_cons inRange, isAt]
  · unfold baseLength
    rw [isStar, Option.getD_some]

theorem accepted_star {matchKey key : List UInt8} (accepted : Accepted matchKey key) {star : ℕ}
    (isStar : key.idxOf? 0x2a = some star) :
    key.take star <+: matchKey ∧
      (key.drop (star + 1) = [] ∨ key.drop (star + 1) <:+ matchKey) := by
  have matches_ := accepted.2
  unfold matchExpansion at matches_
  rw [isStar] at matches_
  dsimp only at matches_
  split at matches_
  · rename_i both
    rw [Bool.and_eq_true, Bool.or_eq_true, Bool.and_eq_true, List.isPrefixOf_iff_prefix,
      List.isEmpty_iff, List.isSuffixOf_iff_suffix] at both
    exact ⟨both.1, both.2.imp id And.left⟩
  · cases matches_

theorem accepted_slash {matchKey key : List UInt8} (accepted : Accepted matchKey key)
    (noStar : key.idxOf? 0x2a = none) : key <+: matchKey ∧ baseLength key = key.length := by
  have matches_ := accepted.2
  unfold matchExpansion at matches_
  rw [noStar] at matches_
  dsimp only at matches_
  split at matches_
  · rename_i isPrefix
    refine ⟨List.isPrefixOf_iff_prefix.mp isPrefix, ?_⟩
    unfold baseLength
    rw [noStar, Option.getD_none]
  · cases matches_

theorem prefix_unique {whole first second : List UInt8} (isFirst : first <+: whole)
    (isSecond : second <+: whole) (length : first.length = second.length) : first = second := by
  rw [List.prefix_iff_eq_take.mp isFirst, List.prefix_iff_eq_take.mp isSecond, length]

theorem suffix_unique {whole first second : List UInt8} (isFirst : first = [] ∨ first <:+ whole)
    (isSecond : second = [] ∨ second <:+ whole) (length : first.length = second.length) :
    first = second := by
  have suffix {part : List UInt8} (isPart : part = [] ∨ part <:+ whole) : part <:+ whole := by
    rcases isPart with rfl | isPart
    · exact List.nil_suffix
    · exact isPart
  rw [List.suffix_iff_eq_drop.mp (suffix isFirst), List.suffix_iff_eq_drop.mp (suffix isSecond),
    length]

theorem before_or_before {matchKey keyA keyB : List UInt8} (acceptedA : Accepted matchKey keyA)
    (acceptedB : Accepted matchKey keyB) (differ : keyA ≠ keyB) :
    Before keyA keyB ∨ Before keyB keyA := by
  rw [before_iff, before_iff]
  rcases Nat.lt_trichotomy (baseLength keyA) (baseLength keyB) with less | same | more
  · exact Or.inr (Or.inl less)
  · cases starA : keyA.idxOf? 0x2a with
    | none =>
        obtain ⟨prefixA, baseA⟩ := accepted_slash acceptedA starA
        cases starB : keyB.idxOf? 0x2a with
        | none =>
            obtain ⟨prefixB, baseB⟩ := accepted_slash acceptedB starB
            exact absurd (prefix_unique prefixA prefixB (by omega)) differ
        | some b => exact Or.inr (Or.inr ⟨same.symm, rfl, Or.inl rfl⟩)
    | some a =>
        obtain ⟨splitA, inRangeA, baseA⟩ := key_eq_of_star starA
        obtain ⟨prefixA, suffixA⟩ := accepted_star acceptedA starA
        cases starB : keyB.idxOf? 0x2a with
        | none => exact Or.inl (Or.inr ⟨same, rfl, Or.inl rfl⟩)
        | some b =>
            obtain ⟨splitB, inRangeB, baseB⟩ := key_eq_of_star starB
            obtain ⟨prefixB, suffixB⟩ := accepted_star acceptedB starB
            rcases Nat.lt_trichotomy keyA.length keyB.length with less | length | more
            · exact Or.inr (Or.inr ⟨same.symm, rfl, Or.inr less⟩)
            · refine absurd ?_ differ
              have sameBase : keyA.take a = keyB.take b := by
                refine prefix_unique prefixA prefixB ?_
                rw [List.length_take, List.length_take]
                omega
              have sameTrailer : keyA.drop (a + 1) = keyB.drop (b + 1) := by
                refine suffix_unique suffixA suffixB ?_
                rw [List.length_drop, List.length_drop]
                omega
              rw [splitA, splitB, sameBase, sameTrailer]
            · exact Or.inl (Or.inr ⟨same, rfl, Or.inr more⟩)
  · exact Or.inl (Or.inl more)

/-! ### The first key -/

theorem expansionKeys_sorted (list : List (List UInt8 × Entry)) :
    (expansionKeys list).Pairwise fun a b => ¬ Before b.1 a.1 := by
  have transitive (a b c : List UInt8 × Entry) (first : (globLengthCompare b.1 a.1 != .lt) = true)
      (second : (globLengthCompare c.1 b.1 != .lt) = true) :
      (globLengthCompare c.1 a.1 != .lt) = true := by
    rw [bne_iff_ne] at first second ⊢
    exact not_before_trans first second
  have total (a b : List UInt8 × Entry) :
      ((globLengthCompare b.1 a.1 != .lt) || (globLengthCompare a.1 b.1 != .lt)) = true := by
    rw [Bool.or_eq_true, bne_iff_ne, bne_iff_ne]
    by_cases before : Before b.1 a.1
    · exact Or.inr before.asymm
    · exact Or.inl before
  have sorted : (expansionKeys list).Pairwise fun a b =>
      (globLengthCompare b.1 a.1 != .lt) = true :=
    List.pairwise_mergeSort transitive total _
  exact sorted.imp fun isLe => bne_iff_ne.mp isLe

theorem mem_expansionKeys {list : List (List UInt8 × Entry)} {item : List UInt8 × Entry} :
    item ∈ expansionKeys list ↔ item ∈ list ∧ isExpansionKey item.1 = true := by
  unfold expansionKeys
  rw [List.mem_mergeSort, List.mem_filter]

theorem findExpansion_eq_none {matchKey : List UInt8} {items : List (List UInt8 × Entry)}
    (none_found : findExpansion matchKey items = none) :
    ∀ item ∈ items, matchExpansion matchKey item.1 = none := by
  induction items with
  | nil => exact fun _ isIn => by cases isIn
  | cons first rest ih =>
      unfold findExpansion at none_found
      cases isMatch : matchExpansion matchKey first.1 with
      | some subpath =>
          rw [isMatch] at none_found
          cases none_found
      | none =>
          rw [isMatch] at none_found
          intro item isIn
          rcases List.mem_cons.mp isIn with rfl | later
          · exact isMatch
          · exact ih none_found item later

/-- The key that is found: it matches, and none that matches comes before it. -/
structure IsFirst (matchKey : List UInt8) (list : List (List UInt8 × Entry))
    (key : List UInt8) (value : Entry) (remainder : List UInt8) : Prop where
  mem : (key, value) ∈ list
  expands : isExpansionKey key = true
  matches_ : matchExpansion matchKey key = some remainder
  first : ∀ item ∈ list, Accepted matchKey item.1 → ¬ Before item.1 key

theorem isFirst_of_findExpansion {matchKey : List UInt8} {list : List (List UInt8 × Entry)}
    {key : List UInt8} {value : Entry} {remainder : List UInt8}
    (found : findExpansion matchKey (expansionKeys list) = some (key, value, remainder)) :
    IsFirst matchKey list key value remainder := by
  have sorted := expansionKeys_sorted list
  have general (items : List (List UInt8 × Entry))
      (sorted : items.Pairwise fun a b => ¬ Before b.1 a.1)
      (found : findExpansion matchKey items = some (key, value, remainder)) :
      (key, value) ∈ items ∧ matchExpansion matchKey key = some remainder ∧
        ∀ item ∈ items, (matchExpansion matchKey item.1).isSome = true → ¬ Before item.1 key := by
    induction items with
    | nil => cases found
    | cons first rest ih =>
        obtain ⟨ordered, restSorted⟩ := List.pairwise_cons.mp sorted
        unfold findExpansion at found
        cases isMatch : matchExpansion matchKey first.1 with
        | some subpath =>
            rw [isMatch] at found
            cases found
            refine ⟨List.mem_cons_self, isMatch, fun item isIn _ => ?_⟩
            rcases List.mem_cons.mp isIn with rfl | later
            · exact fun before => before.asymm before
            · exact ordered item later
        | none =>
            rw [isMatch] at found
            obtain ⟨isIn, isKey, isFirst⟩ := ih restSorted found
            refine ⟨List.mem_cons_of_mem _ isIn, isKey, fun item inAll matches_ => ?_⟩
            rcases List.mem_cons.mp inAll with rfl | later
            · rw [isMatch] at matches_
              cases matches_
            · exact isFirst item later matches_
  obtain ⟨isIn, isKey, isFirst⟩ := general _ sorted found
  have inList := mem_expansionKeys.mp isIn
  exact ⟨inList.1, inList.2, isKey, fun item inItem accepted =>
    isFirst item (mem_expansionKeys.mpr ⟨inItem, accepted.1⟩) accepted.2⟩

/-! ### Agreement -/

theorem isExpansionKey_of_isPatternKey {key : List UInt8} (isPattern : isPatternKey key = true) :
    isExpansionKey key = true := by
  unfold isPatternKey at isPattern
  unfold isExpansionKey
  rw [Bool.or_eq_true] at isPattern ⊢
  rcases isPattern with slash | single
  · exact Or.inl slash
  · refine Or.inr (List.contains_iff_mem.mpr (List.count_pos_iff.mp ?_))
    rw [decide_eq_true_eq] at single
    omega

theorem matchExpansion_of_specified {matchKey key remainder : List UInt8}
    (specified : specifiedMatch matchKey key = some remainder) :
    isExpansionKey key = true ∧ matchExpansion matchKey key = some remainder := by
  unfold specifiedMatch at specified
  split at specified
  · cases specified
  · rename_i isPattern
    refine ⟨isExpansionKey_of_isPatternKey (by simpa using isPattern), ?_⟩
    unfold matchExpansion
    cases isStar : key.idxOf? 0x2a with
    | some star =>
        simp only [isStar] at specified ⊢
        split at specified
        · rename_i conditions
          rw [Bool.and_eq_true, Bool.and_eq_true] at conditions
          rw [if_pos (Bool.and_eq_true_iff.mpr ⟨conditions.1.1, conditions.2⟩)]
          exact specified
        · cases specified
    | none =>
        simp only [isStar] at specified ⊢
        exact specified

theorem accepted_of_specified {matchKey key : List UInt8}
    (specified : (specifiedMatch matchKey key).isSome = true) : Accepted matchKey key := by
  obtain ⟨remainder, isRemainder⟩ := Option.isSome_iff_exists.mp specified
  obtain ⟨expands, matches_⟩ := matchExpansion_of_specified isRemainder
  exact ⟨expands, Option.isSome_of_eq_some matches_⟩

/-- A key that the code may pick against the specification: one that the specification does
not expand, or one whose `/` stands where another has its `*`. -/
def Strays (matchKey : List UInt8) (keys : List (List UInt8)) (key : List UInt8) : Prop :=
  specifiedMatch matchKey key = none ∨
    (key.idxOf? 0x2a = none ∧ ∃ other ∈ keys, (specifiedMatch matchKey other).isSome = true ∧
      ∃ star, other.idxOf? 0x2a = some star ∧ star + 1 = key.length)

def Agrees (matchKey : List UInt8) (keys : List (List UInt8)) : Prop :=
  isExactKey matchKey keys = true ∨
    ∀ key ∈ keys, Accepted matchKey key → Strays matchKey keys key →
      ∃ other ∈ keys, Accepted matchKey other ∧ Before other key

/-- The two orders differ for a `/` in the place of a `*` only. -/
theorem patternKeyCompare_of_before {key other : List UInt8} (before : Before key other)
    (apart : ∀ star, key.idxOf? 0x2a = none → other.idxOf? 0x2a = some star →
      star + 1 ≠ key.length) : patternKeyCompare key other = .lt := by
  unfold patternKeyCompare
  rw [compareKeys_lt_iff]
  rw [before_iff] at before
  unfold patternBaseLength
  unfold baseLength at before
  cases isKey : key.idxOf? 0x2a with
  | none =>
      cases isOther : other.idxOf? 0x2a with
      | none =>
          simp_all
      | some star =>
          have apart := apart star isKey isOther
          simp_all
          omega
  | some star =>
      cases isOther : other.idxOf? 0x2a with
      | none =>
          simp_all
          omega
      | some otherStar =>
          simp_all

theorem patternKeyCompare_slash {key other : List UInt8} {star : ℕ}
    (noStar : key.idxOf? 0x2a = none) (isStar : other.idxOf? 0x2a = some star)
    (place : star + 1 = key.length) : patternKeyCompare key other ≠ .lt := by
  unfold patternKeyCompare
  rw [ne_eq, compareKeys_lt_iff]
  unfold patternBaseLength
  rw [noStar, isStar, Option.map_some, Option.map_none, Option.getD_some, Option.getD_none]
  rintro (less | ⟨_, some_star, _⟩)
  · omega
  · cases some_star

theorem IsFirst.accepted {matchKey : List UInt8} {list : List (List UInt8 × Entry)}
    {key : List UInt8} {value : Entry} {remainder : List UInt8}
    (isFirst : IsFirst matchKey list key value remainder) : Accepted matchKey key :=
  ⟨isFirst.expands, Option.isSome_of_eq_some isFirst.matches_⟩

theorem IsFirst.before {matchKey : List UInt8} {list : List (List UInt8 × Entry)}
    {key : List UInt8} {value : Entry} {remainder : List UInt8}
    (isFirst : IsFirst matchKey list key value remainder) {other : List UInt8}
    (isKey : other ∈ list.map (·.1)) (accepted : Accepted matchKey other) (differs : other ≠ key) :
    Before key other := by
  obtain ⟨item, isIn, rfl⟩ := List.mem_map.mp isKey
  exact (before_or_before isFirst.accepted accepted (Ne.symm differs)).resolve_right
    (isFirst.first item isIn accepted)

theorem IsFirst.specified_iff {matchKey : List UInt8} {list : List (List UInt8 × Entry)}
    {key : List UInt8} {value : Entry} {remainder : List UInt8}
    (isFirst : IsFirst matchKey list key value remainder)
    (notExact : isExactKey matchKey (list.map (·.1)) = false) :
    Specified matchKey (list.map (·.1)) (some (.expansion key remainder)) ↔
      (false = true ∨ ∀ key ∈ list.map (·.1), Accepted matchKey key →
        Strays matchKey (list.map (·.1)) key →
          ∃ other ∈ list.map (·.1), Accepted matchKey other ∧ Before other key) := by
  have isKey : key ∈ list.map (·.1) := List.mem_map_of_mem isFirst.mem
  constructor
  · rintro ⟨_, _, specified, most⟩
    refine Or.inr fun other isOther accepted strays => ?_
    by_cases same : other = key
    · subst same
      rcases strays with unspecified | ⟨noStar, starred, isStarred, isSpecified, star, isStar, place⟩
      · rw [specified] at unspecified
        cases unspecified
      · have differs : starred ≠ other := by
          rintro rfl
          rw [noStar] at isStar
          cases isStar
        exact absurd (most starred isStarred differs isSpecified)
          (patternKeyCompare_slash noStar isStar place)
    · exact ⟨key, isKey, isFirst.accepted, isFirst.before isOther accepted same⟩
  · intro agrees
    have agrees := agrees.resolve_left Bool.false_ne_true
    have straight : ¬ Strays matchKey (list.map (·.1)) key := by
      intro strays
      obtain ⟨other, isOther, accepted, before⟩ := agrees key isKey isFirst.accepted strays
      obtain ⟨item, isIn, rfl⟩ := List.mem_map.mp isOther
      exact isFirst.first item isIn accepted before
    unfold Strays at straight
    rw [not_or] at straight
    obtain ⟨specified, apart⟩ := straight
    obtain ⟨specifiedRemainder, isSpecified⟩ := Option.ne_none_iff_exists'.mp specified
    have same := (matchExpansion_of_specified isSpecified).2
    rw [isFirst.matches_, Option.some.injEq] at same
    rw [← same] at isSpecified
    refine ⟨notExact, isKey, isSpecified, fun other isOther differs otherSpecified => ?_⟩
    refine patternKeyCompare_of_before
      (isFirst.before isOther (accepted_of_specified otherSpecified) differs) ?_
    exact fun star noStar isStar place =>
      apart ⟨noStar, other, isOther, otherSpecified, star, isStar, place⟩

theorem specified_iff_agrees (matchKey : List UInt8) (list : List (List UInt8 × Entry)) :
    Specified matchKey (list.map (·.1)) (chosenKey matchKey list) ↔
      Agrees matchKey (list.map (·.1)) := by
  unfold chosenKey Agrees
  cases isExact : isExactKey matchKey (list.map (·.1)) with
  | true =>
      rw [if_pos rfl]
      exact ⟨fun _ => Or.inl rfl, fun _ => isExact⟩
  | false =>
      rw [if_neg Bool.false_ne_true]
      cases isFound : findExpansion matchKey (expansionKeys list) with
      | none =>
          have unmatched := findExpansion_eq_none isFound
          have noneAccepted : ∀ key ∈ list.map (·.1), ¬ Accepted matchKey key := by
            intro key isKey accepted
            obtain ⟨item, isIn, rfl⟩ := List.mem_map.mp isKey
            have noMatch := unmatched item (mem_expansionKeys.mpr ⟨isIn, accepted.1⟩)
            have matches_ := accepted.2
            rw [noMatch] at matches_
            cases matches_
          constructor
          · exact fun _ => Or.inr fun key isKey accepted => absurd accepted (noneAccepted key isKey)
          · refine fun _ => ⟨isExact, fun key isKey => ?_⟩
            cases specified : specifiedMatch matchKey key with
            | none => rfl
            | some remainder =>
                exact absurd (accepted_of_specified (Option.isSome_of_eq_some specified))
                  (noneAccepted key isKey)
      | some found =>
          obtain ⟨key, value, remainder⟩ := found
          rw [Option.map_some]
          have isFirst := isFirst_of_findExpansion isFound
          exact isFirst.specified_iff isExact

/-! ### The order of the keys -/

theorem find?_key_iff {list : List (List UInt8 × Entry)} (distinct : (list.map (·.1)).Nodup)
    {key : List UInt8} {value : Entry} :
    (list.find? fun item => item.1 == key).map (·.2) = some value ↔ (key, value) ∈ list := by
  constructor
  · intro found
    obtain ⟨item, isFound, rfl⟩ := Option.map_eq_some_iff.mp found
    have isKey : item.1 = key := by simpa using List.find?_some isFound
    rw [← isKey]
    exact List.mem_of_find?_eq_some isFound
  · intro isIn
    cases isFound : list.find? fun item => item.1 == key with
    | none =>
        have absent := List.find?_eq_none.mp isFound _ isIn
        simp at absent
    | some item =>
        have isKey : item.1 = key := by simpa using List.find?_some isFound
        have same := List.inj_on_of_nodup_map distinct (List.mem_of_find?_eq_some isFound) isIn isKey
        rw [same]
        rfl

theorem IsFirst.unique {matchKey : List UInt8} {list other : List (List UInt8 × Entry)}
    (perm : other.Perm list) (distinct : (list.map (·.1)).Nodup)
    {keyA keyB : List UInt8} {valueA valueB : Entry} {remainderA remainderB : List UInt8}
    (first : IsFirst matchKey list keyA valueA remainderA)
    (second : IsFirst matchKey other keyB valueB remainderB) :
    keyA = keyB ∧ valueA = valueB ∧ remainderA = remainderB := by
  have inList := perm.mem_iff.mp second.mem
  have inOther := perm.mem_iff.mpr first.mem
  have same : keyA = keyB := by
    by_cases same : keyA = keyB
    · exact same
    · rcases before_or_before first.accepted second.accepted same with before | before
      · exact absurd before (second.first _ inOther first.accepted)
      · exact absurd before (first.first _ inList second.accepted)
  subst same
  have pairs := List.inj_on_of_nodup_map distinct first.mem inList rfl
  rw [Prod.mk.injEq] at pairs
  have remainders := first.matches_.symm.trans second.matches_
  rw [Option.some.injEq] at remainders
  exact ⟨rfl, pairs.2, remainders⟩

theorem findExpansion_perm {matchKey : List UInt8} {list other : List (List UInt8 × Entry)}
    (perm : other.Perm list) (distinct : (list.map (·.1)).Nodup) :
    findExpansion matchKey (expansionKeys other) = findExpansion matchKey (expansionKeys list) := by
  have none_of_none {one another : List (List UInt8 × Entry)} (perm : another.Perm one)
      (isNone : findExpansion matchKey (expansionKeys one) = none) :
      findExpansion matchKey (expansionKeys another) = none := by
    cases isFound : findExpansion matchKey (expansionKeys another) with
    | none => rfl
    | some found =>
        obtain ⟨key, value, remainder⟩ := found
        have first := isFirst_of_findExpansion isFound
        have noMatch := findExpansion_eq_none isNone (key, value)
          (mem_expansionKeys.mpr ⟨perm.mem_iff.mp first.mem, first.expands⟩)
        rw [first.matches_] at noMatch
        cases noMatch
  cases isList : findExpansion matchKey (expansionKeys list) with
  | none => exact none_of_none perm isList
  | some found =>
      cases isOther : findExpansion matchKey (expansionKeys other) with
      | none =>
          rw [none_of_none perm.symm isOther] at isList
          cases isList
      | some otherFound =>
          obtain ⟨key, value, remainder⟩ := found
          obtain ⟨otherKey, otherValue, otherRemainder⟩ := otherFound
          obtain ⟨rfl, rfl, rfl⟩ := IsFirst.unique perm distinct (isFirst_of_findExpansion isList)
            (isFirst_of_findExpansion isOther)
          rfl

theorem resolveImportsExports_perm (module : ESModule) (matchKey : List UInt8)
    {list other : List (List UInt8 × Entry)} (perm : other.Perm list)
    (distinct : (list.map (·.1)).Nodup) (isImports : Bool) (packageUrl : List UInt8) :
    resolveImportsExports module matchKey (.map other) isImports packageUrl =
      resolveImportsExports module matchKey (.map list) isImports packageUrl := by
  have distinctOther : (other.map (·.1)).Nodup := (perm.map _).nodup_iff.mpr distinct
  have value : (Entry.map other).valueForKey matchKey = (Entry.map list).valueForKey matchKey := by
    refine Option.ext fun value => ?_
    exact (find?_key_iff distinctOther).trans
      (perm.mem_iff.trans (find?_key_iff distinct).symm)
  unfold resolveImportsExports
  rw [value]
  dsimp only
  rw [findExpansion_perm perm distinct]

def ResolvesChoice (module : ESModule) (matchKey : List UInt8) (list : List (List UInt8 × Entry))
    (isImports : Bool) (packageUrl : List UInt8) : Option Choice → Prop
  | some .exact => ∃ target, (matchKey, target) ∈ list ∧
      resolveImportsExports module matchKey (.map list) isImports packageUrl =
        attachFailureKey (resolveTarget module false packageUrl [] isImports false 0 target) matchKey
  | some (.expansion key remainder) => ∃ target, (key, target) ∈ list ∧
      resolveImportsExports module matchKey (.map list) isImports packageUrl =
        resolveExpansion module packageUrl isImports key target remainder
  | none => resolveImportsExports module matchKey (.map list) isImports packageUrl =
      { status := .null }

theorem resolvesChoice_chosenKey (module : ESModule) (matchKey : List UInt8)
    (list : List (List UInt8 × Entry)) (isImports : Bool) (packageUrl : List UInt8) :
    ResolvesChoice module matchKey list isImports packageUrl (chosenKey matchKey list) := by
  unfold chosenKey
  cases isExact : isExactKey matchKey (list.map (·.1)) with
  | true =>
      unfold isExactKey at isExact
      rw [Bool.and_eq_true] at isExact
      obtain ⟨item, isIn, isKey⟩ := List.mem_map.mp (List.contains_iff_mem.mp isExact.2)
      have isSome : (list.find? fun item => item.1 == matchKey).isSome = true :=
        List.find?_isSome.mpr ⟨item, isIn, beq_iff_eq.mpr isKey⟩
      obtain ⟨found, isFound⟩ := Option.isSome_iff_exists.mp isSome
      have foundKey : found.1 = matchKey := by simpa using List.find?_some isFound
      rw [if_pos rfl]
      refine ⟨found.2, foundKey ▸ List.mem_of_find?_eq_some isFound, ?_⟩
      have value : (Entry.map list).valueForKey matchKey = some found.2 := by
        unfold Entry.valueForKey
        dsimp only
        rw [isFound, Option.map_some]
      unfold resolveImportsExports
      rw [if_pos isExact.1, value]
  | false =>
      have value : (if (!endsWithChar matchKey 0x2f && !matchKey.contains 0x2a) = true then
          (Entry.map list).valueForKey matchKey else none) = none := by
        split
        · rename_i mayBe
          unfold isExactKey at isExact
          rw [mayBe, Bool.true_and] at isExact
          unfold Entry.valueForKey
          rw [Option.map_eq_none_iff, List.find?_eq_none]
          intro item isIn isKey
          have isKey : item.1 = matchKey := by simpa using isKey
          rw [List.contains_iff_mem.mpr (List.mem_map.mpr ⟨item, isIn, isKey⟩)] at isExact
          cases isExact
        · rfl
      have resolved : resolveImportsExports module matchKey (.map list) isImports packageUrl =
          (findExpansion matchKey (expansionKeys list)).elim { status := .null } fun found =>
            resolveExpansion module packageUrl isImports found.1 found.2.1 found.2.2 := by
        unfold resolveImportsExports
        rewrite [value]
        dsimp only
        cases findExpansion matchKey (expansionKeys list) with
        | none => rfl
        | some found => rfl
      rw [if_neg Bool.false_ne_true]
      cases isFound : findExpansion matchKey (expansionKeys list) with
      | none =>
          rw [isFound] at resolved
          exact resolved
      | some found =>
          rw [isFound] at resolved
          exact ⟨found.2.1, (isFirst_of_findExpansion isFound).mem, resolved⟩

/-- The key and the remainder are the specified ones, and the order of the keys does not
matter, exactly if every key that strays comes after another that matches. -/
theorem resolveImportsExports_specified_iff (matchKey : List UInt8)
    (list : List (List UInt8 × Entry)) (distinct : (list.map (·.1)).Nodup) :
    (∃ choice, Specified matchKey (list.map (·.1)) choice ∧ choice = chosenKey matchKey list ∧
      ∀ module isImports packageUrl,
        ResolvesChoice module matchKey list isImports packageUrl choice ∧
          ∀ other, other.Perm list →
            resolveImportsExports module matchKey (.map other) isImports packageUrl =
              resolveImportsExports module matchKey (.map list) isImports packageUrl) ↔
      Agrees matchKey (list.map (·.1)) := by
  rw [← specified_iff_agrees]
  constructor
  · rintro ⟨_, specified, rfl, _⟩
    exact specified
  · intro specified
    refine ⟨chosenKey matchKey list, specified, rfl, fun module isImports packageUrl => ?_⟩
    exact ⟨resolvesChoice_chosenKey module matchKey list isImports packageUrl,
      fun other perm => resolveImportsExports_perm module matchKey perm distinct isImports packageUrl⟩

def nestedKeys : List (List UInt8 × Entry) :=
  [(ascii "./a/b/*", .null), (ascii "./a/*", .null)]

theorem resolveImportsExports_specified_nested :
    chosenKey (ascii "./a/b/c") nestedKeys = some (.expansion (ascii "./a/b/*") (ascii "c")) ∧
      Specified (ascii "./a/b/c") [ascii "./a/b/*", ascii "./a/*"]
        (some (.expansion (ascii "./a/b/*") (ascii "c"))) := by
  have isChosen : chosenKey (ascii "./a/b/c") nestedKeys =
      some (.expansion (ascii "./a/b/*") (ascii "c")) := by
    unfold chosenKey expansionKeys
    rw [List.mergeSort_of_pairwise (by decide +kernel)]
    decide +kernel
  have agrees : Agrees (ascii "./a/b/c") (nestedKeys.map (·.1)) := by
    have specified : ∀ key ∈ nestedKeys.map (·.1), specifiedMatch (ascii "./a/b/c") key ≠ none ∧
        key.idxOf? 0x2a ≠ none := by decide +kernel
    refine Or.inr fun key isKey _ strays => ?_
    rcases strays with unspecified | ⟨noStar, _⟩
    · exact absurd unspecified (specified key isKey).1
    · exact absurd noStar (specified key isKey).2
  obtain ⟨choice, isSpecified, isChoice, _⟩ :=
    (resolveImportsExports_specified_iff (ascii "./a/b/c") nestedKeys (by decide +kernel)).mpr agrees
  rw [isChoice, isChosen] at isSpecified
  exact ⟨isChosen, isSpecified⟩

def emptyRemainder : List (List UInt8 × Entry) :=
  [(ascii "./a/*", .null)]

theorem emptyRemainder_unspecified :
    (emptyRemainder.map (·.1)).Nodup ∧
      chosenKey (ascii "./a/") emptyRemainder = some (.expansion (ascii "./a/*") []) ∧
      Specified (ascii "./a/") (emptyRemainder.map (·.1)) none ∧
      ¬ Specified (ascii "./a/") (emptyRemainder.map (·.1))
        (chosenKey (ascii "./a/") emptyRemainder) := by
  have isChosen : chosenKey (ascii "./a/") emptyRemainder =
      some (.expansion (ascii "./a/*") []) := by decide +kernel
  have unspecified : specifiedMatch (ascii "./a/") (ascii "./a/*") = none := by decide +kernel
  refine ⟨by decide +kernel, isChosen, ⟨by decide +kernel, by decide +kernel⟩, ?_⟩
  rw [isChosen]
  rintro ⟨_, _, specified, _⟩
  rw [unspecified] at specified
  cases specified

end Bun.Resolver
