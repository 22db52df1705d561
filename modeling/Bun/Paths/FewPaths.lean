/-
At most eight paths whose names may have backslashes in them.

The comparison takes a backslash for a separator, as on other platforms.  So the common directory
is found unless what the paths have in common ends behind it with a backslash, or they go on with
separators of both kinds.
-/

import Bun.Paths.CommonDirectories

set_option autoImplicit false

namespace Bun.Paths

def backslash : UInt8 := 0x5c

theorem isSepAny_iff (c : UInt8) : isSepAny c = true ↔ c = 0x2f ∨ c = backslash := by
  unfold isSepAny backslash
  rw [Bool.or_eq_true, beq_iff_eq, beq_iff_eq]

/-- No backslash of what the paths have in common is taken for the end of their directory. -/
structure BackslashesInside (paths : List (List UInt8)) : Prop where
  /-- A common front that ends in a backslash is inside a common directory. -/
  inside : ∀ front, (∀ path ∈ paths, front <+: path) → front.getLast? = some backslash →
    ∃ directory, IsCommonDirectory paths directory ∧ front.length ≤ directory.length
  /-- When all paths end or go on with a separator, either all go on with a backslash or none. -/
  alike : ∀ front, (∀ path ∈ paths, path = front ∨ front ++ [0x2f] <+: path ∨
      front ++ [backslash] <+: path) →
    (∃ path ∈ paths, front ++ [backslash] <+: path) → ∀ path ∈ paths, front ++ [backslash] <+: path

variable {first : List UInt8} {others : List (List UInt8)} {stop : ℕ}

/-- What all paths begin with ends where they part. -/
theorem PartsAt.front_le (partsAt : PartsAt first others stop) {front : List UInt8}
    (begins : ∀ path ∈ first :: others, front <+: path) : front.length ≤ stop := by
  by_contra longer
  have cell (path : List UInt8) (isIn : path ∈ first :: others) : path[stop]? = front[stop]? := by
    obtain ⟨rest, rfl⟩ := begins path isIn
    exact List.getElem?_append_left (by omega)
  rcases partsAt.parts with ⟨path, isIn, ends⟩ | ⟨other, isIn, differs⟩
  · have isBelow := (begins path isIn).length_le
    omega
  · rw [cell first List.mem_cons_self, cell other (List.mem_cons_of_mem _ isIn)] at differs
    exact absurd rfl differs

theorem getElem?_of_goesOn {front path : List UInt8} {c : UInt8} (goesOn : front ++ [c] <+: path) :
    path[front.length]? = some c := by
  obtain ⟨rest, rfl⟩ := goesOn
  rw [List.append_assoc, List.getElem?_append_right (Nat.le_refl _), Nat.sub_self]
  rfl

theorem PartsAt.goesOn (partsAt : PartsAt first others stop) {path : List UInt8}
    (isIn : path ∈ first :: others) {c : UInt8} (isCell : path[stop]? = some c) :
    first.take stop ++ [c] <+: path := by
  rw [partsAt.same path isIn, ← take_succ_getLast? isCell]
  exact List.take_prefix _ _

/-- Before the paths part, a path that goes on with a backslash shows that all do. -/
theorem PartsAt.alike_of_lt (partsAt : PartsAt first others stop) {front shown : List UInt8}
    (shorter : front.length < stop) (isIn : shown ∈ first :: others) {c : UInt8}
    (goesOn : front ++ [c] <+: shown) :
    ∀ path ∈ first :: others, front ++ [c] <+: path := by
  have isTaken (path : List UInt8) (pathIn : path ∈ first :: others) :
      first.take (front.length + 1) <+: path := partsAt.take_prefix pathIn (Nat.succ_le_of_lt shorter)
  have isFront : front ++ [c] = first.take (front.length + 1) := by
    have firstInside := partsAt.inside first List.mem_cons_self
    apply (List.prefix_of_prefix_length_le goesOn (isTaken shown isIn) (by
      rw [List.length_append, List.length_singleton, List.length_take]
      omega)).eq_of_length
    rw [List.length_append, List.length_singleton, List.length_take]
    omega
  rw [isFront]
  exact isTaken

theorem front_of_alike {paths : List (List UInt8)} {front : List UInt8}
    (ends : ∀ path ∈ paths, path = front ∨ front ++ [0x2f] <+: path ∨
      front ++ [backslash] <+: path) : ∀ path ∈ paths, front <+: path := by
  intro path isIn
  rcases ends path isIn with rfl | goesOn | goesOn
  · exact List.prefix_rfl
  · exact (List.prefix_append _ _).trans goesOn
  · exact (List.prefix_append _ _).trans goesOn

theorem isSepAny_of_alike {path front : List UInt8}
    (ends : path = front ∨ front ++ [0x2f] <+: path ∨ front ++ [backslash] <+: path) {c : UInt8}
    (isCell : path[front.length]? = some c) : isSepAny c = true := by
  rw [isSepAny_iff]
  rcases ends with rfl | goesOn | goesOn
  · rw [List.getElem?_eq_none (Nat.le_refl _)] at isCell
    cases isCell
  · exact Or.inl (Option.some.inj (isCell.symm.trans (getElem?_of_goesOn goesOn)))
  · exact Or.inr (Option.some.inj (isCell.symm.trans (getElem?_of_goesOn goesOn)))

/-- When all longer paths go on with a separator, the directory is right if no backslash is among
these separators. -/
theorem PartsAt.longest_some_iff (partsAt : PartsAt first others stop) {str : List UInt8}
    (isFound : endsBehind isSepAny stop (first :: others) none = some str) :
    IsLongestCommonDirectory (first :: others) (str.take (stop + 1)) ↔
      BackslashesInside (first :: others) := by
  obtain ⟨each, isNone | ⟨strIn, longer⟩⟩ := endsBehind_eq_some isFound
  · cases isNone
  have firstInside := partsAt.inside first List.mem_cons_self
  have length : (first.take stop).length = stop := by
    rw [List.length_take]
    omega
  constructor
  · intro longest
    have isLength : (str.take (stop + 1)).length = stop + 1 := by
      rw [List.length_take]
      omega
    -- the directory ends in a slash, so every longer path goes on with one
    have endCell : (str.take (stop + 1))[stop]? = some 0x2f := by
      rw [← longest.isCommon.ends, List.getLast?_eq_getElem?, isLength]
      rfl
    have goesOn (path : List UInt8) (isIn : path ∈ first :: others) (c : UInt8)
        (isCell : path[stop]? = some c) : c = 0x2f := by
      have inPath := (List.getElem?_eq_some_iff.mp isCell).1
      have isSame := longest.isCommon.getElem? isIn (j := stop) (by omega) inPath
      rw [isCell, endCell] at isSame
      exact Option.some.inj isSame
    refine ⟨fun front begins _ => ⟨_, longest.isCommon, ?_⟩, fun front ends shown => ?_⟩
    · rw [isLength]
      exact (partsAt.front_le begins).trans (Nat.le_succ _)
    · obtain ⟨path, isIn, isShown⟩ := shown
      have begins := front_of_alike ends
      rcases (partsAt.front_le begins).lt_or_eq with before | atStop
      · exact partsAt.alike_of_lt before isIn isShown
      · have isCell := getElem?_of_goesOn isShown
        rw [atStop] at isCell
        exact absurd (goesOn path isIn _ isCell) (by decide)
  · intro within
    refine partsAt.longest_of_some (fun path isIn c isCell => ?_) isFound
    rcases (isSepAny_iff c).mp (each path isIn c isCell) with isSlash | rfl
    · exact isSlash
    · -- a longer path with a backslash makes all paths go on with one, so they do not part
      have alike := within.alike (first.take stop) (fun other otherIn => ?_)
        ⟨path, isIn, partsAt.goesOn isIn isCell⟩
      · have isBelow := partsAt.front_le alike
        rw [List.length_append, List.length_singleton, length] at isBelow
        exact absurd isBelow (Nat.not_succ_le_self _)
      · cases otherCell : other[stop]? with
        | none =>
            left
            rw [partsAt.same other otherIn]
            exact (List.take_of_length_le (List.getElem?_eq_none_iff.mp otherCell)).symm
        | some d =>
            rcases (isSepAny_iff d).mp (each other otherIn d otherCell) with rfl | rfl
            · exact Or.inr (Or.inl (partsAt.goesOn otherIn otherCell))
            · exact Or.inr (Or.inr (partsAt.goesOn otherIn otherCell))

/-- Otherwise it is right if the last separator before is a slash. -/
theorem PartsAt.longest_none_iff (partsAt : PartsAt first others stop)
    (isNone : endsBehind isSepAny stop (first :: others) none = none) {found : ℕ}
    (isBefore : found < stop) (isSep : separatorAt isSepAny found first = true)
    (noneBehind : ∀ j, found < j → j < stop → separatorAt isSepAny j first = false) :
    IsLongestCommonDirectory (first :: others) (first.take (found + 1)) ↔
      BackslashesInside (first :: others) := by
  have firstInside := partsAt.inside first List.mem_cons_self
  have length : (first.take (found + 1)).length = found + 1 := by
    rw [List.length_take]
    omega
  have noSlash (j : ℕ) (behind : found < j) (before : j < stop) : first[j]? ≠ some 0x2f := by
    intro isSlash
    exact absurd (not_isSeparator_of_cell (noneBehind j behind before) isSlash) (by decide)
  constructor
  · intro longest
    refine ⟨fun front begins ends => ⟨_, longest.isCommon, ?_⟩, fun front ends shown => ?_⟩
    · rw [length]
      by_contra longer
      have isBelow := partsAt.front_le begins
      have isCell : first[front.length - 1]? = some backslash := by
        obtain ⟨rest, isWhole⟩ := begins first List.mem_cons_self
        rw [← ends, List.getLast?_eq_getElem?, ← isWhole]
        exact List.getElem?_append_left (by omega)
      have notSep := noneBehind (front.length - 1) (by omega) (by omega)
      exact absurd (not_isSeparator_of_cell notSep isCell) (by decide)
    · obtain ⟨path, isIn, isShown⟩ := shown
      have begins := front_of_alike ends
      rcases (partsAt.front_le begins).lt_or_eq with before | atStop
      · exact partsAt.alike_of_lt before isIn isShown
      · rcases endsBehind_eq_none isNone with ⟨-, each⟩ | ⟨other, otherIn, c, isCell, notSep⟩
        · have isCell := getElem?_of_goesOn isShown
          rw [atStop, each path isIn] at isCell
          cases isCell
        · exfalso
          rw [isSepAny_of_alike (ends other otherIn) (atStop.symm ▸ isCell)] at notSep
          cases notSep
  · intro within
    refine partsAt.longest_of_none rfl isNone isBefore ?_ noSlash
    have inFirst : found < first.length := by omega
    have isCell := List.getElem?_eq_getElem inFirst
    unfold separatorAt at isSep
    rw [isCell, Option.any_some, isSepAny_iff] at isSep
    rcases isSep with isSlash | isBackslash
    · rw [isCell, isSlash]
    · -- a common directory around the backslash would end behind it
      exfalso
      rw [isBackslash] at isCell
      obtain ⟨directory, common, isBelow⟩ := within.inside (first.take (found + 1))
        (fun path isIn => partsAt.take_prefix isIn (Nat.succ_le_of_lt isBefore))
        (by rw [take_succ_getLast? isCell, List.getLast?_concat])
      have upTo := partsAt.length_le_of_none rfl isNone common
      obtain ⟨front, rfl⟩ := List.getLast?_eq_some_iff.mp common.ends
      rw [length, List.length_append, List.length_singleton] at isBelow
      rw [List.length_append, List.length_singleton] at upTo
      have endCell : (front ++ [(0x2f : UInt8)])[front.length]? = some 0x2f := by
        rw [List.getElem?_append_right (Nat.le_refl _), Nat.sub_self]
        rfl
      have isSame := common.getElem? List.mem_cons_self (j := front.length)
        (by rw [List.length_append, List.length_singleton]; omega) (by omega)
      rw [endCell] at isSame
      rcases Nat.eq_or_lt_of_le (Nat.le_of_succ_le_succ isBelow) with atFound | behind
      · rw [← atFound, isCell] at isSame
        exact absurd (Option.some.inj isSame) (by decide)
      · exact noSlash front.length behind (by omega) isSame

/-- Of at most eight paths, the longest common directory is returned exactly when no backslash is
taken for the end of a directory. -/
theorem longestCommonPath_few_iff (several : others ≠ []) (few : (first :: others).length ≤ 8)
    (rooted : ∀ path ∈ first :: others, Rooted path) :
    IsLongestCommonDirectory (first :: others) (longestCommonPath (first :: others)) ↔
      BackslashesInside (first :: others) := by
  obtain ⟨stop, found, partsAt, isBefore, isSep, noneBehind, isResult⟩ :=
    longestCommonPathGeneric_few several few rooted (show isSepAny 0x2f = true from rfl)
  unfold longestCommonPath
  rw [isResult]
  cases isFound : endsBehind isSepAny stop (first :: others) none with
  | some str => exact partsAt.longest_some_iff isFound
  | none => exact partsAt.longest_none_iff isFound isBefore isSep noneBehind

end Bun.Paths
