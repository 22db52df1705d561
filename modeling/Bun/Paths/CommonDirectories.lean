/-
The longest common directory of at most eight paths.

Up to where the paths part they are the same, so a common directory ends at a separator of
that common part, or right behind it when every path that is longer goes on with a separator.
-/

import Bun.Paths.RelativePath
import Bun.Paths.RootedPaths

set_option autoImplicit false

namespace Bun.Paths

/-! ### The shortest path -/

theorem foldl_min (paths : List (List UInt8)) (length : ℕ) :
    (paths.foldl (fun length str => min str.length length) length ≤ length ∧
      ∀ path ∈ paths, paths.foldl (fun length str => min str.length length) length ≤ path.length) ∧
    (paths.foldl (fun length str => min str.length length) length = length ∨
      ∃ path ∈ paths, path.length = paths.foldl (fun length str => min str.length length) length) := by
  induction paths generalizing length with
  | nil => exact ⟨⟨Nat.le_refl _, fun path isIn => absurd isIn List.not_mem_nil⟩, Or.inl rfl⟩
  | cons path paths ih =>
      obtain ⟨⟨isBelow, each⟩, isOne⟩ := ih (min path.length length)
      rw [List.foldl_cons]
      refine ⟨⟨isBelow.trans (Nat.min_le_right _ _), ?_⟩, ?_⟩
      · intro other isIn
        rcases List.mem_cons.mp isIn with rfl | isLater
        · exact isBelow.trans (Nat.min_le_left _ _)
        · exact each other isLater
      · rcases isOne with isStart | ⟨other, isIn, isOther⟩
        · rcases Nat.le_total path.length length with shorter | longer
          · rw [Nat.min_eq_left shorter] at isStart ⊢
            exact Or.inr ⟨path, List.mem_cons_self, isStart.symm⟩
          · rw [Nat.min_eq_right longer] at isStart ⊢
            exact Or.inl isStart
        · exact Or.inr ⟨other, List.mem_cons_of_mem _ isIn, isOther⟩

theorem minLength_le {paths : List (List UInt8)} {path : List UInt8} (isIn : path ∈ paths) :
    minLength paths ≤ path.length := by
  cases paths with
  | nil => exact absurd isIn List.not_mem_nil
  | cons first others =>
      obtain ⟨⟨isBelow, each⟩, -⟩ := foldl_min others first.length
      rcases List.mem_cons.mp isIn with rfl | isLater
      · exact isBelow
      · exact each path isLater

theorem exists_minLength {paths : List (List UInt8)} (notEmpty : paths ≠ []) :
    ∃ path ∈ paths, path.length = minLength paths := by
  cases paths with
  | nil => exact absurd rfl notEmpty
  | cons first others =>
      obtain ⟨-, isStart | ⟨path, isIn, isPath⟩⟩ := foldl_min others first.length
      · exact ⟨first, List.mem_cons_self, isStart.symm⟩
      · exact ⟨path, List.mem_cons_of_mem _ isIn, isPath⟩

/-! ### What comes behind the common part -/

section

variable {isSeparator : UInt8 → Bool}

theorem endsBehind_eq_some {index : ℕ} {paths : List (List UInt8)} {found : Option (List UInt8)}
    {str : List UInt8} (isFound : endsBehind isSeparator index paths found = some str) :
    (∀ path ∈ paths, ∀ c, path[index]? = some c → isSeparator c = true) ∧
      (found = some str ∨ str ∈ paths ∧ index < str.length) := by
  induction paths generalizing found with
  | nil => exact ⟨fun path isIn => absurd isIn List.not_mem_nil, Or.inl isFound⟩
  | cons path paths ih =>
      unfold endsBehind at isFound
      cases isCell : path[index]? with
      | none =>
          rw [isCell] at isFound
          obtain ⟨each, isOne⟩ := ih isFound
          refine ⟨?_, isOne.imp_right fun ⟨isIn, longer⟩ => ⟨List.mem_cons_of_mem _ isIn, longer⟩⟩
          intro other isIn c isOther
          rcases List.mem_cons.mp isIn with rfl | isLater
          · rw [isCell] at isOther
            cases isOther
          · exact each other isLater c isOther
      | some c =>
          rw [isCell] at isFound
          dsimp only at isFound
          by_cases isSep : isSeparator c = true
          · rw [if_pos isSep] at isFound
            obtain ⟨each, isOne⟩ := ih isFound
            refine ⟨?_, Or.inr ?_⟩
            · intro other isIn d isOther
              rcases List.mem_cons.mp isIn with rfl | isLater
              · rw [isCell] at isOther
                rw [← Option.some.inj isOther]
                exact isSep
              · exact each other isLater d isOther
            · rcases isOne with isPath | ⟨isIn, longer⟩
              · rw [← Option.some.inj isPath]
                exact ⟨List.mem_cons_self, (List.getElem?_eq_some_iff.mp isCell).1⟩
              · exact ⟨List.mem_cons_of_mem _ isIn, longer⟩
          · rw [if_neg isSep] at isFound
            cases isFound

theorem endsBehind_eq_none {index : ℕ} {paths : List (List UInt8)} {found : Option (List UInt8)}
    (isNone : endsBehind isSeparator index paths found = none) :
    (found = none ∧ ∀ path ∈ paths, path[index]? = none) ∨
      ∃ path ∈ paths, ∃ c, path[index]? = some c ∧ isSeparator c = false := by
  induction paths generalizing found with
  | nil => exact Or.inl ⟨isNone, fun path isIn => absurd isIn List.not_mem_nil⟩
  | cons path paths ih =>
      unfold endsBehind at isNone
      cases isCell : path[index]? with
      | none =>
          rw [isCell] at isNone
          rcases ih isNone with ⟨notFound, each⟩ | ⟨other, isIn, isOther⟩
          · refine Or.inl ⟨notFound, fun other isIn => ?_⟩
            rcases List.mem_cons.mp isIn with rfl | isLater
            · exact isCell
            · exact each other isLater
          · exact Or.inr ⟨other, List.mem_cons_of_mem _ isIn, isOther⟩
      | some c =>
          rw [isCell] at isNone
          dsimp only at isNone
          by_cases isSep : isSeparator c = true
          · rw [if_pos isSep] at isNone
            rcases ih isNone with ⟨isPath, -⟩ | ⟨other, isIn, isOther⟩
            · cases isPath
            · exact Or.inr ⟨other, List.mem_cons_of_mem _ isIn, isOther⟩
          · exact Or.inr ⟨path, List.mem_cons_self, c, isCell, Bool.eq_false_iff.mpr isSep⟩

/-! ### Comparing index by index -/

theorem nqlAtIndex_eq_false {index : ℕ} {first : List UInt8} {others : List (List UInt8)} :
    nqlAtIndex index first others = false ↔ ∀ other ∈ others, first[index]? = other[index]? := by
  unfold nqlAtIndex
  rw [List.any_eq_false]
  simp only [bne_iff_ne, ne_eq, not_not]

/-- What is known when the comparison from one index on has come to its end. -/
structure Compared (isSeparator : UInt8 → Bool) (first : List UInt8) (others : List (List UInt8))
    (start bound known stop found : ℕ) : Prop where
  above : start ≤ stop
  below : stop ≤ bound
  same : ∀ j, start ≤ j → j < stop → ∀ other ∈ others, first[j]? = other[j]?
  parts : stop = bound ∨ ∃ other ∈ others, first[stop]? ≠ other[stop]?
  isSep : found = known ∨ start ≤ found ∧ found < stop ∧ separatorAt isSeparator found first = true
  noneBehind : ∀ j, start ≤ j → found < j → j < stop → separatorAt isSeparator j first = false

theorem compareIndices_compared {first : List UInt8} {others : List (List UInt8)}
    (remaining index known : ℕ) {stop found : ℕ}
    (ends : compareIndices isSeparator first others remaining index known = (stop, found)) :
    Compared isSeparator first others index (index + remaining) known stop found := by
  induction remaining generalizing index known with
  | zero =>
      obtain ⟨rfl, rfl⟩ := Prod.mk.inj ends
      exact ⟨Nat.le_refl _, Nat.le_refl _, fun j above isBelow => absurd isBelow (by omega),
        Or.inl rfl, Or.inl rfl, fun j above _ isBelow => absurd isBelow (by omega)⟩
  | succ remaining ih =>
      unfold compareIndices at ends
      by_cases nql : nqlAtIndex index first others = true
      · rw [if_pos nql] at ends
        obtain ⟨rfl, rfl⟩ := Prod.mk.inj ends
        have isParting : ∃ other ∈ others, first[index]? ≠ other[index]? := by
          unfold nqlAtIndex at nql
          obtain ⟨other, isIn, differs⟩ := List.any_eq_true.mp nql
          exact ⟨other, isIn, bne_iff_ne.mp differs⟩
        exact ⟨Nat.le_refl _, Nat.le_add_right _ _, fun j above isBelow => absurd isBelow (by omega),
          Or.inr isParting, Or.inl rfl, fun j above _ isBelow => absurd isBelow (by omega)⟩
      · rw [if_neg nql] at ends
        have here := nqlAtIndex_eq_false.mp (Bool.eq_false_iff.mpr nql)
        have later := ih _ _ ends
        have isAbove := later.above
        refine ⟨by omega, by have isBelow := later.below; omega, ?_, ?_, ?_, ?_⟩
        · intro j above isBelow other isIn
          rcases Nat.eq_or_lt_of_le above with rfl | isLater
          · exact here other isIn
          · exact later.same j isLater isBelow other isIn
        · rw [show index + (remaining + 1) = index + 1 + remaining by omega]
          exact later.parts
        · rcases later.isSep with isKnown | isFound
          · by_cases isSep : separatorAt isSeparator index first = true
            · rw [if_pos isSep] at isKnown
              rw [isKnown]
              exact Or.inr ⟨Nat.le_refl _, by omega, isSep⟩
            · rw [if_neg isSep] at isKnown
              exact Or.inl isKnown
          · exact Or.inr ⟨by omega, isFound.2⟩
        · intro j above behind isBelow
          rcases Nat.eq_or_lt_of_le above with rfl | isLater
          · by_cases isSep : separatorAt isSeparator index first = true
            · have noneBefore := later.isSep
              rw [if_pos isSep] at noneBefore
              omega
            · exact Bool.eq_false_iff.mpr isSep
          · exact later.noneBehind j isLater behind isBelow

end

/-! ### Common directories -/

/-- The paths as the comparison finds them: they are the same before an index, where one of them
parts from the first or the shortest ends. -/
structure PartsAt (first : List UInt8) (others : List (List UInt8)) (stop : ℕ) : Prop where
  inside : ∀ path ∈ first :: others, stop ≤ path.length
  same : ∀ path ∈ first :: others, first.take stop = path.take stop
  parts : (∃ path ∈ first :: others, path.length = stop) ∨
    ∃ other ∈ others, first[stop]? ≠ other[stop]?

variable {first : List UInt8} {others : List (List UInt8)} {stop : ℕ}

theorem Compared.partsAt {isSeparator : UInt8 → Bool} {found : ℕ}
    (compared : Compared isSeparator first others 0 (minLength (first :: others)) 0 stop found) :
    PartsAt first others stop := by
  refine ⟨fun path isIn => compared.below.trans (minLength_le isIn), ?_, ?_⟩
  · intro path isIn
    rcases List.mem_cons.mp isIn with rfl | isOther
    · rfl
    · apply List.ext_getElem?
      intro j
      rw [List.getElem?_take, List.getElem?_take]
      split
      · exact compared.same j (Nat.zero_le _) ‹_› path isOther
      · rfl
  · rcases compared.parts with isEnd | isParting
    · obtain ⟨path, isIn, isShortest⟩ := exists_minLength (List.cons_ne_nil first others)
      exact Or.inl ⟨path, isIn, isShortest.trans isEnd.symm⟩
    · exact Or.inr isParting

theorem PartsAt.take_prefix (partsAt : PartsAt first others stop) {path : List UInt8}
    (isIn : path ∈ first :: others) {length : ℕ} (isBelow : length ≤ stop) :
    first.take length <+: path := by
  have taken := congrArg (List.take length) (partsAt.same path isIn)
  rw [List.take_take, List.take_take, Nat.min_eq_left isBelow] at taken
  rw [taken]
  exact List.take_prefix _ _

/-- A cell of a common directory is a cell of every path that is long enough. -/
theorem IsCommonDirectory.getElem? {paths : List (List UInt8)} {directory path : List UInt8}
    (common : IsCommonDirectory paths directory) (isIn : path ∈ paths) {j : ℕ}
    (inDirectory : j < directory.length) (inPath : j < path.length) :
    path[j]? = directory[j]? := by
  obtain ⟨rest, isWhole⟩ := common.common path isIn
  have cells := congrArg (·[j]?) isWhole
  rw [List.getElem?_append_left inDirectory, List.getElem?_append_left inPath] at cells
  exact cells.symm

theorem PartsAt.length_le (partsAt : PartsAt first others stop) {directory : List UInt8}
    (common : IsCommonDirectory (first :: others) directory) : directory.length ≤ stop + 1 := by
  by_contra tooLong
  have longer (path : List UInt8) (isIn : path ∈ first :: others) : stop < path.length := by
    have isBelow := (common.common path isIn).length_le
    rw [List.length_append, List.length_singleton] at isBelow
    omega
  rcases partsAt.parts with ⟨path, isIn, ends⟩ | ⟨other, isIn, differs⟩
  · have isLonger := longer path isIn
    omega
  · have otherIn : other ∈ first :: others := List.mem_cons_of_mem _ isIn
    apply differs
    rw [common.getElem? List.mem_cons_self (by omega) (longer first List.mem_cons_self),
      common.getElem? otherIn (by omega) (longer other otherIn)]

def Slashes (isSeparator : UInt8 → Bool) (paths : List (List UInt8)) : Prop :=
  ∀ path ∈ paths, ∀ c ∈ path, isSeparator c = true ↔ c = 0x2f

theorem take_succ_getLast? {path : List UInt8} {stop : ℕ} {c : UInt8} (isCell : path[stop]? = some c) :
    path.take (stop + 1) = path.take stop ++ [c] := by
  rw [List.take_add_one, isCell]
  rfl

/-- The paths that are longer all go on with a slash where they part. -/
theorem PartsAt.longest_of_some {isSeparator : UInt8 → Bool}
    (partsAt : PartsAt first others stop)
    (goesOn : ∀ path ∈ first :: others, ∀ c, path[stop]? = some c → c = 0x2f)
    {str : List UInt8} (isFound : endsBehind isSeparator stop (first :: others) none = some str) :
    IsLongestCommonDirectory (first :: others) (str.take (stop + 1)) := by
  obtain ⟨-, isNone | ⟨isIn, longer⟩⟩ := endsBehind_eq_some isFound
  · cases isNone
  · have isDirectory (path : List UInt8) (isIn : path ∈ first :: others) (c : UInt8)
        (isCell : path[stop]? = some c) : path.take (stop + 1) = first.take stop ++ [0x2f] := by
      rw [take_succ_getLast? isCell, goesOn path isIn c isCell, partsAt.same path isIn]
    have strCell := List.getElem?_eq_getElem longer
    rw [isDirectory str isIn _ strCell]
    refine ⟨⟨List.getLast?_concat, ⟨str, isIn, ?_⟩, ?_⟩, ?_⟩
    · rw [← isDirectory str isIn _ strCell]
      exact List.take_prefix _ _
    · intro path pathIn
      cases isCell : path[stop]? with
      | some c =>
          rw [← isDirectory path pathIn c isCell]
          exact (List.take_prefix _ _).trans (List.prefix_append _ _)
      | none =>
          rw [partsAt.same path pathIn,
            List.take_of_length_le (List.getElem?_eq_none_iff.mp isCell)]
    · intro directory common
      have firstInside := partsAt.inside first List.mem_cons_self
      rw [List.length_append, List.length_take, List.length_singleton]
      have isBelow := partsAt.length_le common
      omega

/-- When not all paths go on with a separator, no common directory goes on behind the stop. -/
theorem PartsAt.length_le_of_none {isSeparator : UInt8 → Bool}
    (partsAt : PartsAt first others stop) (isSlash : isSeparator 0x2f = true)
    (isNone : endsBehind isSeparator stop (first :: others) none = none) {directory : List UInt8}
    (common : IsCommonDirectory (first :: others) directory) : directory.length ≤ stop := by
  have isBelow := partsAt.length_le common
  obtain ⟨front, isConcat⟩ := List.getLast?_eq_some_iff.mp common.ends
  have endCell : directory[front.length]? = some 0x2f := by
    rw [isConcat, List.getElem?_append_right (Nat.le_refl _), Nat.sub_self]
    rfl
  have length := congrArg List.length isConcat
  rw [List.length_append, List.length_singleton] at length
  by_contra tooLong
  have atStop : front.length = stop := by omega
  -- a path that shows the directory goes on with a separator, and so do all others
  obtain ⟨path, isIn, isFront⟩ := common.shown
  have inPath := isFront.length_le
  have isCell := common.getElem? isIn (j := stop) (by omega) (by omega)
  rw [← atStop, endCell] at isCell
  rcases endsBehind_eq_none isNone with ⟨-, each⟩ | ⟨other, otherIn, c, otherCell, notSep⟩
  · have noCell := each path isIn
    rw [← atStop, isCell] at noCell
    cases noCell
  · have otherInside := (List.getElem?_eq_some_iff.mp otherCell).1
    have isSame := common.getElem? otherIn (j := stop) (by omega) otherInside
    rw [otherCell, ← atStop, endCell] at isSame
    rw [Option.some.inj isSame, isSlash] at notSep
    cases notSep

/-- Otherwise the common directory ends at the last separator before. -/
theorem PartsAt.longest_of_none {isSeparator : UInt8 → Bool}
    (partsAt : PartsAt first others stop) (isSeparator_slash : isSeparator 0x2f = true)
    (isNone : endsBehind isSeparator stop (first :: others) none = none) {found : ℕ}
    (isBefore : found < stop) (isSlash : first[found]? = some 0x2f)
    (noneBehind : ∀ j, found < j → j < stop → first[j]? ≠ some 0x2f) :
    IsLongestCommonDirectory (first :: others) (first.take (found + 1)) := by
  have firstInside := partsAt.inside first List.mem_cons_self
  have inEach (path : List UInt8) (isIn : path ∈ first :: others) :
      first.take (found + 1) <+: path := partsAt.take_prefix isIn (Nat.succ_le_of_lt isBefore)
  refine ⟨⟨?_, ⟨first, List.mem_cons_self, inEach first List.mem_cons_self⟩, ?_⟩, ?_⟩
  · rw [take_succ_getLast? isSlash, List.getLast?_concat]
  · exact fun path isIn => (inEach path isIn).trans (List.prefix_append _ _)
  · intro directory common
    rw [List.length_take]
    have isBelow := partsAt.length_le_of_none isSeparator_slash isNone common
    obtain ⟨front, isConcat⟩ := List.getLast?_eq_some_iff.mp common.ends
    have endCell : directory[front.length]? = some 0x2f := by
      rw [isConcat, List.getElem?_append_right (Nat.le_refl _), Nat.sub_self]
      rfl
    have length := congrArg List.length isConcat
    rw [List.length_append, List.length_singleton] at length
    by_contra tooLong
    have isSame := common.getElem? List.mem_cons_self (j := front.length) (by omega) (by omega)
    rw [endCell] at isSame
    exact noneBehind front.length (by omega) (by omega) isSame

theorem separatorAt_iff {isSeparator : UInt8 → Bool} {paths : List (List UInt8)}
    (slashes : Slashes isSeparator paths) {path : List UInt8} (isIn : path ∈ paths) (j : ℕ) :
    separatorAt isSeparator j path = true ↔ path[j]? = some 0x2f := by
  unfold separatorAt
  cases isCell : path[j]? with
  | none => simp
  | some c =>
      rw [Option.any_some, slashes path isIn c (List.mem_of_getElem? isCell), Option.some.injEq]

theorem not_isSeparator_of_cell {isSeparator : UInt8 → Bool} {j : ℕ} {path : List UInt8} {c : UInt8}
    (notSep : separatorAt isSeparator j path = false) (isCell : path[j]? = some c) :
    isSeparator c = false := by
  unfold separatorAt at notSep
  rw [isCell] at notSep
  exact notSep

theorem Rooted.getElem?_zero {text : List UInt8} (rooted : Rooted text) : text[0]? = some 0x2f := by
  rw [← List.head?_eq_getElem?]
  exact rooted.starts

theorem minLength_pos (rooted : ∀ path ∈ first :: others, Rooted path) :
    0 < minLength (first :: others) := by
  obtain ⟨path, isIn, isShortest⟩ := exists_minLength (List.cons_ne_nil first others)
  rw [← isShortest]
  exact (List.getElem?_eq_some_iff.mp (rooted path isIn).getElem?_zero).1

theorem longestCommonPathGeneric_eq {isSeparator : UInt8 → Bool} (several : others ≠ [])
    {found : ℕ} (ends :
      (if (first :: others).length ≤ 8 then
        compareIndices isSeparator first others (minLength (first :: others)) 0 0
      else if 0 < minLength (first :: others) then
        others.foldl (compareString isSeparator first (minLength (first :: others))) (0, 0)
      else (0, 0)) = (stop, found)) :
    longestCommonPathGeneric isSeparator (first :: others) =
      if stop = 0 then [0x2f]
      else ((endsBehind isSeparator stop (first :: others) none).map (List.take (stop + 1))).getD
        (first.take (found + 1)) := by
  cases others with
  | nil => exact absurd rfl several
  | cons second others =>
      unfold longestCommonPathGeneric
      dsimp only
      rw [ends]
      dsimp only
      split
      · rfl
      · cases endsBehind isSeparator stop (first :: second :: others) none with
        | none => rfl
        | some str => rfl

/-- What is known of what is returned for at most eight paths. -/
theorem longestCommonPathGeneric_few {isSeparator : UInt8 → Bool} (several : others ≠ [])
    (few : (first :: others).length ≤ 8) (rooted : ∀ path ∈ first :: others, Rooted path)
    (isSlash : isSeparator 0x2f = true) :
    ∃ stop found, PartsAt first others stop ∧ found < stop ∧
      separatorAt isSeparator found first = true ∧
      (∀ j, found < j → j < stop → separatorAt isSeparator j first = false) ∧
      longestCommonPathGeneric isSeparator (first :: others) =
        ((endsBehind isSeparator stop (first :: others) none).map (List.take (stop + 1))).getD
          (first.take (found + 1)) := by
  obtain ⟨stop, found, ends⟩ : ∃ stop found, compareIndices isSeparator first others
      (minLength (first :: others)) 0 0 = (stop, found) := ⟨_, _, rfl⟩
  have compared := compareIndices_compared _ _ _ ends
  rw [Nat.zero_add] at compared
  have firstStarts := (rooted first List.mem_cons_self).getElem?_zero
  have stopPos : stop ≠ 0 := by
    rintro rfl
    rcases compared.parts with isEnd | ⟨other, isIn, differs⟩
    · exact absurd isEnd (minLength_pos rooted).ne
    · rw [firstStarts, (rooted other (List.mem_cons_of_mem _ isIn)).getElem?_zero] at differs
      exact differs rfl
  refine ⟨stop, found, compared.partsAt, ?_, ?_,
    fun j => compared.noneBehind j (Nat.zero_le _), ?_⟩
  · rcases compared.isSep with rfl | ⟨-, isBefore, -⟩
    · exact Nat.pos_of_ne_zero stopPos
    · exact isBefore
  · rcases compared.isSep with rfl | ⟨-, -, isSep⟩
    · unfold separatorAt
      rw [firstStarts]
      exact isSlash
    · exact isSep
  · rw [longestCommonPathGeneric_eq several ((if_pos few).trans ends), if_neg stopPos]

theorem longestCommonPathGeneric_of_few {isSeparator : UInt8 → Bool} (several : others ≠ [])
    (few : (first :: others).length ≤ 8) (rooted : ∀ path ∈ first :: others, Rooted path)
    (isSlash : isSeparator 0x2f = true) (slashes : Slashes isSeparator (first :: others)) :
    IsLongestCommonDirectory (first :: others)
      (longestCommonPathGeneric isSeparator (first :: others)) := by
  obtain ⟨stop, found, partsAt, isBefore, isSep, noneBehind, isResult⟩ :=
    longestCommonPathGeneric_few several few rooted isSlash
  rw [isResult]
  cases isFound : endsBehind isSeparator stop (first :: others) none with
  | some str =>
      refine partsAt.longest_of_some (fun path isIn c isCell => ?_) isFound
      exact (slashes path isIn c (List.mem_of_getElem? isCell)).mp
        ((endsBehind_eq_some isFound).1 path isIn c isCell)
  | none =>
      refine partsAt.longest_of_none isSlash isFound isBefore
        ((separatorAt_iff slashes List.mem_cons_self found).mp isSep) fun j behind before => ?_
      rw [ne_eq, ← separatorAt_iff slashes List.mem_cons_self]
      exact Bool.eq_false_iff.mp (noneBehind j behind before)

end Bun.Paths
