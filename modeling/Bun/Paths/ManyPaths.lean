/-
More than eight paths.

Each path is compared with the first from where the comparison before stopped, and a common
separator is only noticed when a comparison stops at it.  So the common directory is found
when one of the paths is that directory, and hardly ever else.
-/

import Mathlib.Order.Monotone.Basic
import Bun.Core.AsciiText
import Bun.Paths.FewPaths

set_option autoImplicit false

namespace Bun.Paths

variable {first : List UInt8} {others : List (List UInt8)} {isSeparator : UInt8 → Bool}

/-! ### Where the comparisons stop -/

def sameLength {α : Type} [DecidableEq α] : List α → List α → ℕ
  | a :: left, b :: right => if a = b then sameLength left right + 1 else 0
  | _, _ => 0

def partsFrom (first other : List UInt8) (start limit : ℕ) : ℕ :=
  min limit (start + sameLength (first.drop start) (other.drop start))

/-- Where each path parts from the first, when each is compared from where the one before it
parted. -/
def partings (first : List UInt8) (limit : ℕ) : ℕ → List (List UInt8) → List ℕ
  | _, [] => []
  | start, other :: others =>
      partsFrom first other start limit ::
        partings first limit (partsFrom first other start limit) others

theorem sameLength_spec {α : Type} [DecidableEq α] (left right : List α) :
    (∀ j, j < sameLength left right → left[j]? = right[j]?) ∧
      (sameLength left right < left.length → sameLength left right < right.length →
        left[sameLength left right]? ≠ right[sameLength left right]?) := by
  induction left generalizing right with
  | nil => exact ⟨fun j isBelow => absurd isBelow (Nat.not_lt_zero j), fun isIn => absurd isIn (Nat.not_lt_zero _)⟩
  | cons a left ih =>
      cases right with
      | nil => exact ⟨fun j isBelow => absurd isBelow (Nat.not_lt_zero j), fun _ isIn => absurd isIn (Nat.not_lt_zero _)⟩
      | cons b right =>
          unfold sameLength
          by_cases same : a = b
          · rw [if_pos same]
            obtain ⟨before, parts⟩ := ih right
            refine ⟨?_, ?_⟩
            · intro j isBelow
              cases j with
              | zero => exact congrArg some same
              | succ j => exact before j (by omega)
            · intro inLeft inRight
              rw [List.length_cons] at inLeft inRight
              exact parts (by omega) (by omega)
          · rw [if_neg same]
            exact ⟨fun j isBelow => absurd isBelow (Nat.not_lt_zero j),
              fun _ _ isSame => same (Option.some.inj isSame)⟩

structure Parting (first other : List UInt8) (start limit stop : ℕ) : Prop where
  above : start ≤ stop
  below : stop ≤ limit
  same : ∀ j, start ≤ j → j < stop → first[j]? = other[j]?
  parts : stop = limit ∨ first[stop]? ≠ other[stop]?

theorem partsFrom_parting {other : List UInt8} {start limit : ℕ} (isBelow : start ≤ limit)
    (inFirst : limit ≤ first.length) (inOther : limit ≤ other.length) :
    Parting first other start limit (partsFrom first other start limit) := by
  obtain ⟨before, parts⟩ := sameLength_spec (first.drop start) (other.drop start)
  unfold partsFrom
  refine ⟨by omega, Nat.min_le_left _ _, ?_, ?_⟩
  · intro j above isBelow
    have isSame := before (j - start) (by omega)
    rw [List.getElem?_drop, List.getElem?_drop, Nat.add_sub_cancel' above] at isSame
    exact isSame
  · rw [List.length_drop, List.length_drop, List.getElem?_drop, List.getElem?_drop] at parts
    rcases Nat.lt_or_ge (start + sameLength (first.drop start) (other.drop start)) limit with
      inside | outside
    · rw [Nat.min_eq_right inside.le]
      exact Or.inr (parts (by omega) (by omega))
    · exact Or.inl (Nat.min_eq_left outside)

theorem advance_eq {other : List UInt8} (remaining start : ℕ)
    (inFirst : start + remaining ≤ first.length) (inOther : start + remaining ≤ other.length) :
    advance first other remaining start = partsFrom first other start (start + remaining) := by
  unfold partsFrom
  induction remaining generalizing start with
  | zero =>
      unfold advance
      omega
  | succ remaining ih =>
      have firstCell := List.getElem?_eq_getElem (show start < first.length by omega)
      have otherCell := List.getElem?_eq_getElem (show start < other.length by omega)
      rw [List.drop_eq_getElem_cons (show start < first.length by omega),
        List.drop_eq_getElem_cons (show start < other.length by omega)]
      unfold advance sameLength
      rw [firstCell, otherCell]
      by_cases same : first[start] = other[start]
      · rw [if_neg (fun differs => differs (congrArg some same)), if_pos same,
          ih (start + 1) (by omega) (by omega)]
        omega
      · rw [if_pos (fun isSame => same (Option.some.inj isSame)), if_neg same]
        omega

theorem compareString_eq {other : List UInt8} {shortest start known : ℕ} (isBelow : start < shortest)
    (inFirst : shortest ≤ first.length) (inOther : shortest ≤ other.length) :
    compareString isSeparator first shortest (start, known) other =
      (partsFrom first other start (shortest - 1),
        if separatorAt isSeparator (partsFrom first other start (shortest - 1)) first then
          partsFrom first other start (shortest - 1)
        else known) := by
  have isAdvance := advance_eq (shortest - start) start
    (show start + (shortest - start) ≤ first.length by omega)
    (show start + (shortest - start) ≤ other.length by omega)
  have isStop : (if advance first other (shortest - start) start = shortest then
      advance first other (shortest - start) start - 1
      else advance first other (shortest - start) start) =
        partsFrom first other start (shortest - 1) := by
    rw [isAdvance]
    unfold partsFrom
    split
    · omega
    · omega
  unfold compareString
  dsimp only
  rw [isStop]

theorem foldl_compareString {shortest start known : ℕ} (isBelow : start < shortest)
    (inFirst : shortest ≤ first.length) (inOthers : ∀ other ∈ others, shortest ≤ other.length) :
    others.foldl (compareString isSeparator first shortest) (start, known) =
      ((partings first (shortest - 1) start others).getLastD start,
        ((partings first (shortest - 1) start others).filter
          (separatorAt isSeparator · first)).getLastD known) := by
  induction others generalizing start known with
  | nil => rfl
  | cons other others ih =>
      have inOther := inOthers other List.mem_cons_self
      have parting := partsFrom_parting (show start ≤ shortest - 1 by omega)
        (show shortest - 1 ≤ first.length by omega) (show shortest - 1 ≤ other.length by omega)
      have stopBelow := parting.below
      rw [List.foldl_cons, compareString_eq isBelow inFirst inOther,
        ih (by omega) fun later isIn => inOthers later (List.mem_cons_of_mem _ isIn)]
      rw [partings, List.getLastD_cons, List.filter_cons]
      by_cases isSep : separatorAt isSeparator (partsFrom first other start (shortest - 1)) first = true
      · simp only [isSep, if_true, List.getLastD_cons]
      · simp only [isSep, Bool.false_eq_true, if_false]

theorem start_le_last {limit start : ℕ} (isBelow : start ≤ limit) (inFirst : limit ≤ first.length)
    (inOthers : ∀ other ∈ others, limit ≤ other.length) :
    start ≤ (partings first limit start others).getLastD start ∧
      (partings first limit start others).getLastD start ≤ limit := by
  induction others generalizing start with
  | nil => exact ⟨Nat.le_refl _, isBelow⟩
  | cons other others ih =>
      have parting := partsFrom_parting isBelow inFirst (inOthers other List.mem_cons_self)
      obtain ⟨above, isLimited⟩ := ih parting.below fun later isIn =>
        inOthers later (List.mem_cons_of_mem _ isIn)
      rw [partings, List.getLastD_cons]
      exact ⟨parting.above.trans above, isLimited⟩

theorem partings_parting {limit start stop : ℕ} (isBelow : start ≤ limit)
    (inFirst : limit ≤ first.length) (inOthers : ∀ other ∈ others, limit ≤ other.length)
    (isStop : stop ∈ partings first limit start others) :
    start ≤ stop ∧ stop ≤ (partings first limit start others).getLastD start ∧
      (stop = limit ∨ ∃ other ∈ others, first[stop]? ≠ other[stop]?) := by
  induction others generalizing start with
  | nil => exact absurd isStop List.not_mem_nil
  | cons other others ih =>
      have parting := partsFrom_parting isBelow inFirst (inOthers other List.mem_cons_self)
      have inLater (later : List UInt8) (isIn : later ∈ others) : limit ≤ later.length :=
        inOthers later (List.mem_cons_of_mem _ isIn)
      rw [partings] at isStop
      rw [partings, List.getLastD_cons]
      rcases List.mem_cons.mp isStop with rfl | isLater
      · exact ⟨parting.above, (start_le_last parting.below inFirst inLater).1,
          parting.parts.imp_right fun differs => ⟨other, List.mem_cons_self, differs⟩⟩
      · obtain ⟨above, upTo, parts⟩ := ih parting.below inLater isLater
        exact ⟨parting.above.trans above, upTo, parts.imp_right fun ⟨later, isIn, differs⟩ =>
          ⟨later, List.mem_cons_of_mem _ isIn, differs⟩⟩

theorem partings_ne_nil (first : List UInt8) (limit start : ℕ) (several : others ≠ []) :
    partings first limit start others ≠ [] := by
  cases others with
  | nil => exact absurd rfl several
  | cons other others => exact List.cons_ne_nil _ _

/-! ### Directories among the paths -/

theorem isCommonDirectory_root (rooted : ∀ path ∈ first :: others, Rooted path) :
    IsCommonDirectory (first :: others) [0x2f] := by
  have starts (path : List UInt8) (isIn : path ∈ first :: others) : [0x2f] <+: path := by
    obtain ⟨rest, isPath⟩ := List.head?_eq_some_iff.mp (rooted path isIn).starts
    rw [isPath]
    exact ⟨rest, rfl⟩
  exact ⟨rfl, ⟨first, List.mem_cons_self, starts first List.mem_cons_self⟩,
    fun path isIn => (starts path isIn).trans (List.prefix_append _ _)⟩

theorem isLongest_of_member (rooted : ∀ path ∈ first :: others, Rooted path) {path : List UInt8}
    (isIn : path ∈ first :: others) (ends : path.getLast? = some 0x2f)
    (begins : ∀ other ∈ first :: others, path <+: other) :
    IsLongestCommonDirectory (first :: others) path := by
  refine ⟨⟨ends, ⟨path, isIn, List.prefix_rfl⟩, fun other otherIn =>
    (begins other otherIn).trans (List.prefix_append _ _)⟩, ?_⟩
  intro directory common
  by_contra tooLong
  have isBelow := (common.common path isIn).length_le
  rw [List.length_append, List.length_singleton] at isBelow
  have isLonger : directory = path ++ [0x2f] :=
    (common.common path isIn).eq_of_length (by
      rw [List.length_append, List.length_singleton]
      omega)
  -- no path goes on with a second separator
  obtain ⟨shown, shownIn, isFront⟩ := common.shown
  have apart := List.IsChain.prefix (rooted shown shownIn).apart isFront
  rw [isLonger, List.isChain_append] at apart
  exact apart.2.2 _ ends _ rfl ⟨rfl, rfl⟩

theorem IsCommonDirectory.begins {directory : List UInt8}
    (common : IsCommonDirectory (first :: others) directory)
    (shorter : directory.length ≤ minLength (first :: others)) {path : List UInt8}
    (isIn : path ∈ first :: others) : directory <+: path :=
  List.prefix_of_prefix_length_le (common.common path isIn) (List.prefix_append _ _)
    (shorter.trans (minLength_le isIn))

/-! ### What is returned -/

theorem longestCommonPathGeneric_of_many (several : others ≠ [])
    (many : ¬ (first :: others).length ≤ 8) (rooted : ∀ path ∈ first :: others, Rooted path) :
    longestCommonPathGeneric isSeparator (first :: others) =
      if (partings first (minLength (first :: others) - 1) 0 others).getLastD 0 = 0 then [0x2f]
      else ((endsBehind isSeparator
        ((partings first (minLength (first :: others) - 1) 0 others).getLastD 0)
        (first :: others) none).map (List.take
          ((partings first (minLength (first :: others) - 1) 0 others).getLastD 0 + 1))).getD
        (first.take (((partings first (minLength (first :: others) - 1) 0 others).filter
          (separatorAt isSeparator · first)).getLastD 0 + 1)) := by
  have isPos := minLength_pos rooted
  apply longestCommonPathGeneric_eq several
  rw [if_neg many, if_pos isPos]
  exact foldl_compareString isPos (minLength_le List.mem_cons_self) fun other isIn =>
    minLength_le (List.mem_cons_of_mem _ isIn)

theorem take_one_of_rooted {path : List UInt8} (rooted : Rooted path) : path.take (0 + 1) = [0x2f] := by
  rw [take_succ_getLast? rooted.getElem?_zero]
  rfl

theorem eq_root {path : List UInt8} (ends : path.getLast? = some 0x2f) (short : path.length ≤ 1) :
    path = [0x2f] := by
  obtain ⟨front, rfl⟩ := List.getLast?_eq_some_iff.mp ends
  rw [List.length_append, List.length_singleton] at short
  rw [List.length_eq_zero_iff.mp (show front.length = 0 by omega), List.nil_append]

theorem stop_parts {stop : ℕ}
    (isStop : stop ∈ partings first (minLength (first :: others) - 1) 0 others) :
    stop ≤ (partings first (minLength (first :: others) - 1) 0 others).getLastD 0 ∧
      (stop = minLength (first :: others) - 1 ∨
        ∃ other ∈ others, first[stop]? ≠ other[stop]?) := by
  have inFirst : minLength (first :: others) - 1 ≤ first.length :=
    (Nat.sub_le _ _).trans (minLength_le List.mem_cons_self)
  exact (partings_parting (Nat.zero_le _) inFirst (fun other isIn =>
    (Nat.sub_le _ _).trans (minLength_le (List.mem_cons_of_mem _ isIn))) isStop).2

theorem getLastD_mem {stops : List ℕ} (notEmpty : stops ≠ []) (start : ℕ) :
    stops.getLastD start ∈ stops := by
  rw [List.getLastD_eq_getLast?, List.getLast?_eq_some_getLast notEmpty]
  exact List.getLast_mem notEmpty

theorem last_parts (first : List UInt8) (several : others ≠ []) :
    (partings first (minLength (first :: others) - 1) 0 others).getLastD 0 ≤
        minLength (first :: others) - 1 ∧
      ((partings first (minLength (first :: others) - 1) 0 others).getLastD 0 =
          minLength (first :: others) - 1 ∨
        ∃ other ∈ others,
          first[(partings first (minLength (first :: others) - 1) 0 others).getLastD 0]? ≠
            other[(partings first (minLength (first :: others) - 1) 0 others).getLastD 0]?) := by
  have isShorter {path : List UInt8} (isIn : path ∈ first :: others) :
      minLength (first :: others) - 1 ≤ path.length :=
    (Nat.sub_le _ _).trans (minLength_le isIn)
  exact ⟨(start_le_last (Nat.zero_le _) (isShorter List.mem_cons_self) fun other isIn =>
      isShorter (List.mem_cons_of_mem _ isIn)).2,
    (stop_parts (getLastD_mem (partings_ne_nil first _ 0 several) 0)).2⟩

/-- When a common directory reaches behind a stop, the stop is the end of the shortest path. -/
theorem eq_limit_of_begins {stop : ℕ} {directory : List UInt8}
    (parts : stop = minLength (first :: others) - 1 ∨ ∃ other ∈ others, first[stop]? ≠ other[stop]?)
    (begins : ∀ path ∈ first :: others, directory <+: path) (longer : stop < directory.length) :
    stop = minLength (first :: others) - 1 := by
  rcases parts with isLimit | ⟨other, isIn, differs⟩
  · exact isLimit
  · have cell (path : List UInt8) (pathIn : path ∈ first :: others) :
        path[stop]? = directory[stop]? := by
      obtain ⟨rest, rfl⟩ := begins path pathIn
      exact List.getElem?_append_left longer
    rw [cell first List.mem_cons_self, cell other (List.mem_cons_of_mem _ isIn)] at differs
    exact absurd rfl differs

/-- A path is a directory in which all paths lie. -/
def HasDirectory (paths : List (List UInt8)) : Prop :=
  ∃ path ∈ paths, path.getLast? = some 0x2f ∧ ∀ other ∈ paths, path <+: other

def OnlyRoot (paths : List (List UInt8)) : Prop :=
  ∀ directory, IsCommonDirectory paths directory → directory = [0x2f]

/-- No path parts from the first at one of its separators. -/
def NoStop (isSeparator : UInt8 → Bool) (first : List UInt8) (others : List (List UInt8)) : Prop :=
  ∀ stop ∈ partings first (minLength (first :: others) - 1) 0 others,
    stop ≠ 0 → separatorAt isSeparator stop first = false

theorem take_succ_ends {path : List UInt8} {found : ℕ} (inside : found < path.length)
    (ends : (path.take (found + 1)).getLast? = some 0x2f) : path[found]? = some 0x2f := by
  rw [take_succ_getLast? (List.getElem?_eq_getElem inside), List.getLast?_concat] at ends
  rw [List.getElem?_eq_getElem inside]
  exact ends

/-- What is returned for many paths is wrong unless one of them is the directory, or nothing is
noticed where there is nothing to notice. -/
theorem noStop_of_longest (several : others ≠ []) (many : ¬ (first :: others).length ≤ 8)
    (rooted : ∀ path ∈ first :: others, Rooted path) (isSlash : isSeparator 0x2f = true)
    (longest : IsLongestCommonDirectory (first :: others)
      (longestCommonPathGeneric isSeparator (first :: others))) :
    HasDirectory (first :: others) ∨
      OnlyRoot (first :: others) ∧ NoStop isSeparator first others := by
  have isPos := minLength_pos rooted
  obtain ⟨shortestPath, shortestIn, isShortest⟩ := exists_minLength (List.cons_ne_nil first others)
  -- a directory of the shortest length is the shortest path
  have ofLength {directory : List UInt8} (common : IsCommonDirectory (first :: others) directory)
      (isLength : directory.length = minLength (first :: others)) :
      HasDirectory (first :: others) := by
    have begins {path : List UInt8} (isIn : path ∈ first :: others) : directory <+: path :=
      common.begins isLength.le isIn
    have isPath : directory = shortestPath :=
      (begins shortestIn).eq_of_length (isLength.trans isShortest.symm)
    rw [isPath] at begins
    exact ⟨shortestPath, shortestIn, isPath ▸ common.ends, fun other isIn => begins isIn⟩
  obtain ⟨lastBelow, lastParts⟩ := last_parts first several
  have stopUpTo {stop : ℕ} (isStop : stop ∈ partings first (minLength (first :: others) - 1) 0 others) :=
    stop_parts isStop
  rw [longestCommonPathGeneric_of_many several many rooted] at longest
  generalize (partings first (minLength (first :: others) - 1) 0 others).getLastD 0 = last
    at lastParts lastBelow stopUpTo longest
  by_cases isStart : last = 0
  · rw [if_pos isStart] at longest
    refine Or.inl (ofLength longest.isCommon ?_)
    rw [isStart] at lastParts
    rcases lastParts with isLimit | ⟨other, isIn, differs⟩
    · rw [List.length_singleton]
      omega
    · rw [(rooted first List.mem_cons_self).getElem?_zero,
        (rooted other (List.mem_cons_of_mem _ isIn)).getElem?_zero] at differs
      exact absurd rfl differs
  · rw [if_neg isStart] at longest
    cases isFound : endsBehind isSeparator last (first :: others) none with
    | some str =>
        rw [isFound, Option.map_some, Option.getD_some] at longest
        obtain ⟨-, isNone | ⟨strIn, longer⟩⟩ := endsBehind_eq_some isFound
        · cases isNone
        · have isLength : (str.take (last + 1)).length = last + 1 := by
            rw [List.length_take]
            omega
          have isLimit := eq_limit_of_begins lastParts
            (fun path isIn => longest.isCommon.begins (by omega) isIn) (by omega)
          exact Or.inl (ofLength longest.isCommon (by omega))
    | none =>
        rw [isFound, Option.map_none, Option.getD_none] at longest
        by_cases noStop : (partings first (minLength (first :: others) - 1) 0 others).filter
            (separatorAt isSeparator · first) = []
        · rw [noStop, List.getLastD_nil, take_one_of_rooted (rooted first List.mem_cons_self)] at longest
          refine Or.inr ⟨fun directory common => eq_root common.ends (longest.isLongest _ common), ?_⟩
          intro stop isStop _
          exact Bool.eq_false_iff.mpr (List.filter_eq_nil_iff.mp noStop stop isStop)
        · -- the stop at a separator is at the end of the shortest path, where all go on alike
          exfalso
          obtain ⟨foundIn, isSep⟩ := List.mem_filter.mp (getLastD_mem noStop 0)
          generalize ((partings first (minLength (first :: others) - 1) 0 others).filter
            (separatorAt isSeparator · first)).getLastD 0 = found at longest foundIn isSep
          obtain ⟨upTo, parts⟩ := stopUpTo foundIn
          have inFirst : found < first.length := by
            have isAbove := minLength_le (List.mem_cons_self (a := first) (l := others))
            omega
          have foundSlash := take_succ_ends inFirst longest.isCommon.ends
          have isLength : (first.take (found + 1)).length = found + 1 := by
            rw [List.length_take]
            omega
          have begins (path : List UInt8) (isIn : path ∈ first :: others) :
              first.take (found + 1) <+: path :=
            longest.isCommon.begins (by omega) isIn
          have isLimit := eq_limit_of_begins parts begins (by omega)
          have isLast : last = found := by omega
          have goesOn (path : List UInt8) (isIn : path ∈ first :: others) :
              path[last]? = some 0x2f := by
            obtain ⟨rest, isPath⟩ := begins path isIn
            rw [← isPath, isLast, List.getElem?_append_left (by omega), List.getElem?_take,
              if_pos (Nat.lt_succ_self _)]
            exact foundSlash
          rcases endsBehind_eq_none isFound with ⟨-, each⟩ | ⟨path, isIn, c, isCell, notSep⟩
          · have noCell := each first List.mem_cons_self
            rw [goesOn first List.mem_cons_self] at noCell
            cases noCell
          · have isSame := goesOn path isIn
            rw [isCell] at isSame
            rw [Option.some.inj isSame, isSlash] at notSep
            cases notSep

theorem longest_of_hasDirectory (several : others ≠ []) (many : ¬ (first :: others).length ≤ 8)
    (rooted : ∀ path ∈ first :: others, Rooted path) (isSlash : isSeparator 0x2f = true)
    (has : HasDirectory (first :: others)) :
    IsLongestCommonDirectory (first :: others)
      (longestCommonPathGeneric isSeparator (first :: others)) := by
  obtain ⟨path, isIn, ends, begins⟩ := has
  have isPos := minLength_pos rooted
  obtain ⟨lastBelow, lastParts⟩ := last_parts first several
  rw [longestCommonPathGeneric_of_many several many rooted]
  have isLongest := isLongest_of_member rooted isIn ends begins
  have isLength : path.length = minLength (first :: others) := by
    obtain ⟨shortestPath, shortestIn, isShortest⟩ :=
      exists_minLength (List.cons_ne_nil first others)
    have isBelow := (begins shortestPath shortestIn).length_le
    have isAbove := minLength_le isIn
    omega
  generalize (partings first (minLength (first :: others) - 1) 0 others).getLastD 0 = last
    at lastParts lastBelow ⊢
  have isLimit := eq_limit_of_begins lastParts begins (by omega)
  by_cases isStart : last = 0
  · rw [if_pos isStart, ← eq_root ends (by omega)]
    exact isLongest
  · have endCell : path[last]? = some 0x2f := by
      rw [List.getLast?_eq_getElem?, isLength, ← isLimit] at ends
      exact ends
    rw [if_neg isStart]
    cases isFound : endsBehind isSeparator last (first :: others) none with
    | some str =>
        obtain ⟨-, isNone | ⟨strIn, -⟩⟩ := endsBehind_eq_some isFound
        · cases isNone
        · obtain ⟨rest, isStr⟩ := begins str strIn
          rw [Option.map_some, Option.getD_some, ← isStr,
            List.take_left' (show path.length = last + 1 by omega)]
          exact isLongest
    | none =>
        have goesOn {other : List UInt8} (otherIn : other ∈ first :: others) :
            other[last]? = some 0x2f := by
          obtain ⟨rest, isOther⟩ := begins other otherIn
          rw [← isOther, List.getElem?_append_left (by omega)]
          exact endCell
        rcases endsBehind_eq_none isFound with ⟨-, each⟩ | ⟨other, otherIn, c, isCell, notSep⟩
        · have noCell := each first List.mem_cons_self
          rw [goesOn List.mem_cons_self] at noCell
          cases noCell
        · have isSame := goesOn otherIn
          rw [isCell] at isSame
          rw [Option.some.inj isSame, isSlash] at notSep
          cases notSep

theorem longest_of_noStop (several : others ≠ []) (many : ¬ (first :: others).length ≤ 8)
    (rooted : ∀ path ∈ first :: others, Rooted path) (onlyRoot : OnlyRoot (first :: others))
    (noStop : NoStop isSeparator first others) :
    IsLongestCommonDirectory (first :: others)
      (longestCommonPathGeneric isSeparator (first :: others)) := by
  have isPos := minLength_pos rooted
  obtain ⟨lastBelow, lastParts⟩ := last_parts first several
  have isLongest : IsLongestCommonDirectory (first :: others) [0x2f] :=
    ⟨isCommonDirectory_root rooted, fun directory common => by rw [onlyRoot directory common]⟩
  have noneFound : ((partings first (minLength (first :: others) - 1) 0 others).filter
      (separatorAt isSeparator · first)).getLastD 0 = 0 := by
    by_contra found
    by_cases noStops : (partings first (minLength (first :: others) - 1) 0 others).filter
        (separatorAt isSeparator · first) = []
    · rw [noStops] at found
      exact found rfl
    · obtain ⟨isStop, isSep⟩ := List.mem_filter.mp (getLastD_mem noStops 0)
      rw [noStop _ isStop found] at isSep
      cases isSep
  rw [longestCommonPathGeneric_of_many several many rooted, noneFound,
    take_one_of_rooted (rooted first List.mem_cons_self)]
  have lastStop := noStop _ (getLastD_mem (partings_ne_nil first _ 0 several) 0)
  generalize (partings first (minLength (first :: others) - 1) 0 others).getLastD 0 = last
    at lastBelow lastStop ⊢
  by_cases isStart : last = 0
  · rw [if_pos isStart]
    exact isLongest
  · rw [if_neg isStart]
    cases isFound : endsBehind isSeparator last (first :: others) none with
    | none =>
        rw [Option.map_none, Option.getD_none]
        exact isLongest
    | some str =>
        have inFirst : last < first.length := by
          have isAbove := minLength_le (List.mem_cons_self (a := first) (l := others))
          omega
        have isCell := List.getElem?_eq_getElem inFirst
        have isSep := (endsBehind_eq_some isFound).1 first List.mem_cons_self _ isCell
        exact absurd isSep (Bool.eq_false_iff.mp (not_isSeparator_of_cell (lastStop isStart) isCell))

/-! ### The stops as places of the paths -/

/-- The bytes of a front from a place on are found at their places in the paths, each one in the
path of the byte before or in a later path. -/
def ReadAlong (paths : List (List UInt8)) (front : List UInt8) (start : ℕ) : Prop :=
  ∃ source : ℕ → ℕ, Monotone source ∧ ∀ j, start ≤ j → j < front.length →
    ∃ path, paths[source j]? = some path ∧ path[j]? = front[j]?

/-- No separator of the first path before the end of the shortest is reached without being
passed. -/
def PassesSeparators (isSeparator : UInt8 → Bool) (first : List UInt8)
    (others : List (List UInt8)) : Prop :=
  ∀ count j, j ≠ 0 → j < minLength (first :: others) → separatorAt isSeparator j first = true →
    ReadAlong (others.take count) (first.take j) 0 →
      j + 1 < minLength (first :: others) ∧ ReadAlong (others.take count) (first.take (j + 1)) 0

/-- The last stop is how far the first path can be read along the others. -/
theorem le_last_iff {limit start j : ℕ} (isBelow : start ≤ limit) (inFirst : limit ≤ first.length)
    (inOthers : ∀ other ∈ others, limit ≤ other.length) (above : start ≤ j) (upTo : j ≤ limit) :
    j ≤ (partings first limit start others).getLastD start ↔
      ReadAlong others (first.take j) start := by
  have length : (first.take j).length = j := by
    rw [List.length_take]
    omega
  have cell {i : ℕ} (before : i < j) : (first.take j)[i]? = first[i]? := by
    rw [List.getElem?_take, if_pos before]
  induction others generalizing start with
  | nil =>
      constructor
      · intro isEnd
        have isStart : j = start := Nat.le_antisymm isEnd above
        refine ⟨id, monotone_id, fun i isAbove before => ?_⟩
        omega
      · rintro ⟨source, -, each⟩
        by_contra later
        obtain ⟨path, isPath, -⟩ := each start (Nat.le_refl _) (by rw [length]; exact not_le.mp later)
        rw [List.getElem?_nil] at isPath
        cases isPath
  | cons other others ih =>
      have parting := partsFrom_parting isBelow inFirst (inOthers other List.mem_cons_self)
      have inLater (later : List UInt8) (isIn : later ∈ others) : limit ≤ later.length :=
        inOthers later (List.mem_cons_of_mem _ isIn)
      have reached := (start_le_last parting.below inFirst inLater).1
      rw [partings, List.getLastD_cons]
      generalize partsFrom first other start limit = stop at parting reached ⊢
      rcases Nat.lt_or_ge stop j with later | earlier
      · refine (ih parting.below inLater later.le).trans ?_
        constructor
        · rintro ⟨source, monotone, each⟩
          -- the bytes before the stop are those of this path
          refine ⟨fun i => if i < stop then 0 else source i + 1, ?_, fun i isAbove before => ?_⟩
          · intro i k isBelow
            dsimp only
            have rises := monotone isBelow
            split
            · exact Nat.zero_le _
            · rw [if_neg (by omega)]
              omega
          · rw [length] at before
            rw [cell before]
            dsimp only
            rcases Nat.lt_or_ge i stop with inThis | inLaterOnes
            · exact ⟨other, by rw [if_pos inThis]; rfl, (parting.same i isAbove inThis).symm⟩
            · obtain ⟨path, isPath, isSame⟩ := each i inLaterOnes (by rw [length]; exact before)
              rw [cell before] at isSame
              exact ⟨path, by rw [if_neg (by omega)]; exact isPath, isSame⟩
        · rintro ⟨source, monotone, each⟩
          have differs : first[stop]? ≠ other[stop]? := by
            rcases parting.parts with isLimit | differs
            · omega
            · exact differs
          -- the byte at the stop is in a later path, and so are all behind it
          have positive : 1 ≤ source stop := by
            obtain ⟨path, isPath, isSame⟩ := each stop parting.above (by rw [length]; exact later)
            rw [cell later] at isSame
            by_contra isZero
            rw [show source stop = 0 by omega] at isPath
            obtain rfl := Option.some.inj isPath
            exact differs isSame.symm
          refine ⟨fun i => source i - 1, fun i k isBelow => Nat.sub_le_sub_right (monotone isBelow) 1,
            fun i isAbove before => ?_⟩
          obtain ⟨path, isPath, isSame⟩ := each i (parting.above.trans isAbove) before
          have rises := monotone isAbove
          rw [show source i = source i - 1 + 1 by omega, List.getElem?_cons_succ] at isPath
          exact ⟨path, isPath, isSame⟩
      · constructor
        · intro _
          refine ⟨fun _ => 0, monotone_const, fun i isAbove before => ?_⟩
          rw [length] at before
          exact ⟨other, rfl, (cell before).trans (parting.same i isAbove (by omega)) |>.symm⟩
        · intro _
          exact earlier.trans reached

theorem mem_partings_iff {limit start stop : ℕ} :
    stop ∈ partings first limit start others ↔
      ∃ count, count < others.length ∧
        stop = (partings first limit start (others.take (count + 1))).getLastD start := by
  induction others generalizing start with
  | nil => simp [partings]
  | cons other others ih =>
      rw [partings, List.mem_cons, ih]
      constructor
      · rintro (rfl | ⟨count, inside, isLast⟩)
        · exact ⟨0, Nat.zero_lt_succ _, rfl⟩
        · refine ⟨count + 1, Nat.succ_lt_succ inside, ?_⟩
          rw [List.take_succ_cons, partings, List.getLastD_cons]
          exact isLast
      · rintro ⟨count, inside, isLast⟩
        rw [List.take_succ_cons, partings, List.getLastD_cons] at isLast
        cases count with
        | zero => exact Or.inl isLast
        | succ count => exact Or.inr ⟨count, Nat.lt_of_succ_lt_succ inside, isLast⟩

theorem noStop_iff (rooted : ∀ path ∈ first :: others, Rooted path) :
    NoStop isSeparator first others ↔ PassesSeparators isSeparator first others := by
  have isPos := minLength_pos rooted
  have firstAbove := minLength_le (List.mem_cons_self (a := first) (l := others))
  have inTaken (count : ℕ) (other : List UInt8) (isIn : other ∈ others.take count) :
      minLength (first :: others) - 1 ≤ other.length :=
    (Nat.sub_le _ _).trans (minLength_le (List.mem_cons_of_mem _ (List.mem_of_mem_take isIn)))
  have along (count : ℕ) {j : ℕ} (upTo : j ≤ minLength (first :: others) - 1) :
      j ≤ (partings first (minLength (first :: others) - 1) 0 (others.take count)).getLastD 0 ↔
        ReadAlong (others.take count) (first.take j) 0 :=
    le_last_iff (Nat.zero_le _) (by omega) (inTaken count) (Nat.zero_le j) upTo
  constructor
  · intro noStop count j notStart inside isSep isRead
    have reached := (along count (by omega)).mpr isRead
    have isStop : (partings first (minLength (first :: others) - 1) 0 (others.take count)).getLastD 0 ∈
        partings first (minLength (first :: others) - 1) 0 others := by
      cases count with
      | zero =>
          rw [List.take_zero, partings, List.getLastD_nil] at reached
          omega
      | succ count =>
          rw [mem_partings_iff]
          rcases Nat.lt_or_ge count others.length with within | beyond
          · exact ⟨count, within, rfl⟩
          · rw [List.take_of_length_le (by omega)] at reached ⊢
            cases others with
            | nil =>
                rw [partings, List.getLastD_nil] at reached
                omega
            | cons other others =>
                exact ⟨others.length, Nat.lt_succ_self _, by
                  rw [List.take_succ_cons, List.take_length]⟩
    have isBelow := (start_le_last (Nat.zero_le (minLength (first :: others) - 1))
      (show minLength (first :: others) - 1 ≤ first.length by omega) (inTaken count)).2
    have passed := noStop _ isStop (by omega)
    have beyond : j + 1 ≤ (partings first (minLength (first :: others) - 1) 0
        (others.take count)).getLastD 0 := by
      rcases reached.eq_or_lt with isHere | later
      · rw [← isHere, isSep] at passed
        cases passed
      · exact later
    exact ⟨by omega, (along count (by omega)).mp beyond⟩
  · intro passes stop isStop notStart
    obtain ⟨count, inside, isLast⟩ := mem_partings_iff.mp isStop
    have isBelow := (start_le_last (Nat.zero_le (minLength (first :: others) - 1))
      (show minLength (first :: others) - 1 ≤ first.length by omega) (inTaken (count + 1))).2
    rw [← isLast] at isBelow
    rw [Bool.eq_false_iff]
    intro isSep
    obtain ⟨shorter, isRead⟩ := passes (count + 1) stop notStart (by omega) isSep
      ((along (count + 1) isBelow).mp isLast.le)
    have beyond := (along (count + 1) (by omega)).mpr isRead
    omega

/-! ### Normalized paths -/

/-- When the longest common directory is returned: a few paths have no backslash at the end of
what they have in common, and of many one is the directory, or only the root is common and no
separator is met. -/
def FindsDirectory (first : List UInt8) (others : List (List UInt8)) : Prop :=
  if (first :: others).length ≤ 8 then BackslashesInside (first :: others)
  else HasDirectory (first :: others) ∨
    OnlyRoot (first :: others) ∧ PassesSeparators isSepAny first others

/-- Of two or more normalized paths, the longest common directory is returned exactly under the
condition. -/
theorem longestCommonPath_isLongest_iff (first second : RootedPath posixUnits)
    (others : List (RootedPath posixUnits)) :
    IsLongestCommonDirectory ((first :: second :: others).map RootedPath.text)
        (longestCommonPath ((first :: second :: others).map RootedPath.text)) ↔
      FindsDirectory first.text ((second :: others).map RootedPath.text) := by
  have rooted : ∀ path ∈ first.text :: (second :: others).map RootedPath.text, Rooted path := by
    intro path isIn
    rw [← List.map_cons] at isIn
    obtain ⟨source, -, rfl⟩ := List.mem_map.mp isIn
    exact source.rooted rfl
  have several : (second :: others).map RootedPath.text ≠ [] := List.cons_ne_nil _ _
  rw [List.map_cons]
  generalize (second :: others).map RootedPath.text = others at rooted several
  generalize first.text = first at rooted
  unfold FindsDirectory
  split
  · exact longestCommonPath_few_iff several ‹_› rooted
  · rw [← noStop_iff rooted]
    constructor
    · exact noStop_of_longest several ‹_› rooted rfl
    · rintro (has | ⟨onlyRoot, noStop⟩)
      · exact longest_of_hasDirectory several ‹_› rooted rfl has
      · exact longest_of_noStop several ‹_› rooted onlyRoot noStop

/-- Two files of the root, the names of which begin alike up to a backslash. -/
example : longestCommonPath [ascii "/a\\b", ascii "/a\\c"] = ascii "/a\\" := by decide

def numbered (digit : Fin 9) : RootedPath posixUnits where
  names := [[0x61], [UInt8.ofNat (0x31 + digit)]]
  trailing := false
  plain := by
    intro name isIn
    rcases List.mem_cons.mp isIn with rfl | isLast
    · exact ⟨by decide, by decide +kernel, by decide +kernel, by decide +kernel⟩
    · rw [List.mem_singleton.mp isLast]
      clear isLast isIn
      refine ⟨List.cons_ne_nil _ _, ?_, ?_, ?_⟩
      all_goals
        revert digit
        decide +kernel

/-- Nine files of a directory have only the root in common for the second loop. -/
theorem longestCommonPath_nineFiles :
    ¬ ∀ (first second : RootedPath posixUnits) (others : List (RootedPath posixUnits)),
      IsLongestCommonDirectory ((first :: second :: others).map RootedPath.text)
        (longestCommonPath ((first :: second :: others).map RootedPath.text)) := by
  intro every
  have longest := every (numbered 0) (numbered 1)
    [numbered 2, numbered 3, numbered 4, numbered 5, numbered 6, numbered 7, numbered 8]
  have isCommon : IsCommonDirectory (([numbered 0, numbered 1, numbered 2, numbered 3, numbered 4,
      numbered 5, numbered 6, numbered 7, numbered 8] : List (RootedPath posixUnits)).map RootedPath.text)
      [0x2f, 0x61, 0x2f] :=
    ⟨rfl, by decide, by decide⟩
  have tooLong := longest.isLongest _ isCommon
  revert tooLong
  decide

end Bun.Paths
