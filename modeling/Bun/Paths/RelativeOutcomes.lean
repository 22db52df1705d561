/-
What a relative path leads to.

It is the text of some `..` and of names.  Read behind the first path, each `..` takes back
one of the names that the second path does not have, and the names are those it has instead.
-/

import Bun.Paths.RelativeWriting

set_option autoImplicit false

namespace Bun.Paths

open Bun.Foundation

variable {size : ℕ}

/-! ### The operands -/

/-- No `..` of the path climbs above the root. -/
def AbsolutePath.BelowRoot (operand : AbsolutePath) : Prop :=
  (keptPath looseUnits true operand.path).ups = 0

def AbsolutePath.rooted (operand : AbsolutePath) : RootedPath looseUnits where
  names := (keptPath looseUnits true operand.path).names
  trailing := operand.path.getLast? == some 0x2f
  plain := (keptPath_wellFormed looseUnits true operand.path).plain

theorem AbsolutePath.text_rooted {operand : AbsolutePath} (belowRoot : operand.BelowRoot) :
    operand.rooted.text = 0x2f :: normalized looseUnits ⟨true, true, false⟩ operand.path := by
  have isSegments : (keptPath looseUnits true operand.path).segments looseUnits =
      (keptPath looseUnits true operand.path).names := by
    unfold KeptPath.segments
    rw [belowRoot]
    rfl
  have someText : joined 0x2f (keptPath looseUnits true operand.path).names = [] ↔
      (keptPath looseUnits true operand.path).names = [] :=
    joined_eq_nil_iff fun name isIn =>
      ((keptPath_wellFormed looseUnits true operand.path).plain name isIn).notEmpty
  unfold RootedPath.text normalized
  dsimp only
  rw [isSegments, show looseUnits.separator = 0x2f from rfl]
  unfold AbsolutePath.rooted
  dsimp only
  by_cases ends : operand.path.getLast? = some 0x2f
  · by_cases noNames : (keptPath looseUnits true operand.path).names = []
    · rw [if_neg (fun both => both.2 noNames),
        if_neg (fun all => all.2.1 (someText.mpr noNames)), List.append_nil]
    · rw [if_pos ⟨beq_iff_eq.mpr ends, noNames⟩,
        if_pos ⟨rfl, fun noText => noNames (someText.mp noText), ends⟩]
  · rw [if_neg (fun both => ends (beq_iff_eq.mp both.1)), if_neg (fun all => ends all.2.2),
      List.append_nil]

theorem normalizeOperand_eq {operand : AbsolutePath} (belowRoot : operand.BelowRoot)
    (buf : FixedArray UInt8 size) (fits : operand.path.length + 1 ≤ size) :
    normalizeOperand operand buf = some operand.rooted.text ∧
      operand.rooted.text.length ≤ operand.path.length + 1 := by
  unfold normalizeOperand normalizeStringLooseBuf
  obtain ⟨last, isLast, isOutput, length, -⟩ := normalizeStringGenericTz_eq looseUnits
    ⟨true, true, false⟩ operand.path
    (⟨buf.items.tail, by rw [List.length_tail, buf.length_items]⟩ : FixedArray UInt8 (size - 1))
    (by
      rw [if_neg Bool.false_ne_true]
      omega)
  rw [if_neg (by omega)]
  dsimp only
  rw [isLast, Option.bind_eq_bind, Option.bind_some, isOutput, AbsolutePath.text_rooted belowRoot]
  refine ⟨rfl, ?_⟩
  have outputLength : last.output.length = last.bufI := Holds.length_output (by omega)
  rw [List.length_cons, ← isOutput, outputLength]
  omega

/-! ### How many names there are -/

theorem length_names_foldl (allowAboveRoot : Bool) (segments : List (List UInt8))
    (kept : KeptPath UInt8) :
    (segments.foldl (KeptPath.step looseUnits allowAboveRoot) kept).names.length ≤
      kept.names.length + segments.length := by
  induction segments generalizing kept with
  | nil => exact Nat.le_refl _
  | cons segment segments ih =>
      have oneMore : (kept.step looseUnits allowAboveRoot segment).names.length ≤
          kept.names.length + 1 := by
        unfold KeptPath.step
        split
        · exact Nat.le_succ _
        · split
          · split
            · rw [List.length_dropLast]
              omega
            · split
              · exact Nat.le_succ _
              · exact Nat.le_succ _
          · rw [List.length_append, List.length_singleton]
      have later := ih (kept.step looseUnits allowAboveRoot segment)
      rw [List.foldl_cons, List.length_cons]
      omega

theorem countSeparators_eq (path : List UInt8) : countSeparators path = path.countP isSepAny := by
  unfold countSeparators
  induction path with
  | nil => rfl
  | cons c path ih =>
      rw [List.count_cons, List.count_cons, List.countP_cons, ← ih]
      unfold isSepAny
      by_cases isSlash : c = 0x2f
      · simp [isSlash]
        omega
      · by_cases isBackslash : c = 0x5c
        · simp [isBackslash]
          omega
        · simp [isSlash, isBackslash]

theorem AbsolutePath.path_eq (operand : AbsolutePath) :
    ∃ rest, operand.path = 0x2f :: rest := by
  have starts : operand.path.head? = some 0x2f := beq_iff_eq.mp operand.isAbsolute
  exact ⟨_, (List.head?_eq_some_iff.mp starts).choose_spec⟩

theorem AbsolutePath.length_names (operand : AbsolutePath) :
    operand.rooted.names.length ≤ countSeparators operand.path ∧
      countSeparators operand.path ≤ operand.path.length := by
  rw [countSeparators_eq]
  refine ⟨?_, List.countP_le_length⟩
  obtain ⟨rest, isPath⟩ := operand.path_eq
  unfold AbsolutePath.rooted
  dsimp only
  rw [isPath, keptPath_separator, List.countP_cons_of_pos rfl]
  unfold keptPath
  have isBelow := length_names_foldl true (rest.splitOnP looseUnits.isSeparator)
    ⟨0, []⟩
  rw [length_splitOnP, List.length_nil, Nat.zero_add] at isBelow
  exact isBelow

/-! ### The result -/

theorem relativeNormalizedBuf_eq (alwaysCopy : Bool) (buf : FixedArray UInt8 size)
    (start target : RootedPath looseUnits) (fits : 3 * start.names.length + target.text.length ≤ size + 1) :
    ∃ relative common fromRest toRest,
      relativeNormalizedBuf alwaysCopy buf start.text target.text = some relative ∧
      CommonNames start target common fromRest toRest ∧
      RelativeText fromRest.length toRest relative ∧
      (start.names = target.names → fromRest = [] ∧ toRest = []) := by
  unfold relativeNormalizedBuf
  by_cases same : start.text = target.text
  · have sameKept := congrArg (keptPath looseUnits true) same
    rw [start.keptPath_text, target.keptPath_text] at sameKept
    have sameNames : start.names = target.names := congrArg KeptPath.names sameKept
    rw [if_pos same]
    exact ⟨[], start.names, [], [], rfl, ⟨(List.append_nil _).symm, sameNames ▸ (List.append_nil _).symm⟩,
      ⟨Or.inl rfl⟩, fun _ => ⟨rfl, rfl⟩⟩
  · obtain ⟨common, fromRest, toRest, names, isCommon, whenSame⟩ := longestCommonPath_names same
    have isBelow : fromRest.length ≤ start.names.length := by
      rw [names.isStart, List.length_append]
      exact Nat.le_add_left _ _
    obtain ⟨relative, isRelative, isText⟩ :=
      relativeToCommonPath_writes names alwaysCopy buf (by omega)
    rw [if_neg same, isCommon]
    exact ⟨relative, common, fromRest, toRest, isRelative, names, isText, whenSame⟩

/-! ### Reading the result -/

theorem RelativeText.pieces {ups : ℕ} {names : List (List UInt8)} {relative : List UInt8}
    (isRelative : RelativeText ups names relative)
    (plain : ∀ name ∈ names, PlainName looseUnits name) (isSeparator : UInt8 → Bool)
    (isSlash : isSeparator 0x2f = true)
    (onlyLoose : ∀ c, isSeparator c = true → isSepAny c = true) :
    ∃ behind, (behind = names ∨ behind = names ++ [[]]) ∧
      relative.splitOnP isSeparator = List.replicate ups [0x2e, 0x2e] ++ behind := by
  have isPlain : KeptPath.Plain looseUnits ⟨ups, names⟩ := plain
  have noSeparator : ∀ segment ∈ KeptPath.segments looseUnits ⟨ups, names⟩, ∀ c ∈ segment,
      isSeparator c = false := by
    intro segment isIn c inSegment
    have notLoose : isSepAny c = false := (isPlain.segments segment isIn).2 c inSegment
    rw [Bool.eq_false_iff]
    intro isSep
    rw [onlyLoose c isSep] at notLoose
    cases notLoose
  by_cases noSegments : KeptPath.segments looseUnits ⟨ups, names⟩ = []
  · have isNothing : relative = [] := by
      rcases isRelative.isText with isJoin | ⟨someSegments, -⟩
      · rw [isJoin, noSegments]
        rfl
      · exact absurd noSegments someSegments
    obtain ⟨noUps, noNames⟩ := List.append_eq_nil_iff.mp noSegments
    refine ⟨names ++ [[]], Or.inr rfl, ?_⟩
    rw [isNothing, List.splitOnP_nil, ← List.append_assoc]
    exact (congrArg (· ++ [[]]) noSegments).symm
  · rcases isRelative.isText with isJoin | ⟨-, isJoin⟩
    · refine ⟨names, Or.inl rfl, ?_⟩
      rw [isJoin, splitOnP_joined isSlash noSegments noSeparator]
      rfl
    · refine ⟨names ++ [[]], Or.inr rfl, ?_⟩
      rw [isJoin, List.splitOnP_append_cons _ _ isSlash, splitOnP_joined isSlash noSegments noSeparator,
        List.splitOnP_nil, ← List.append_assoc]
      rfl

/-- Each `..` takes a name back. -/
theorem foldl_takeBack (front taken : List (List UInt8)) :
    (List.replicate taken.length [looseUnits.dot, looseUnits.dot]).foldl
      (KeptPath.step looseUnits true) ⟨0, front ++ taken⟩ = ⟨0, front⟩ := by
  induction taken using List.reverseRecOn with
  | nil => rw [List.append_nil]; rfl
  | append_singleton taken name ih =>
      have isStep : KeptPath.step looseUnits true ⟨0, front ++ (taken ++ [name])⟩
          [looseUnits.dot, looseUnits.dot] = ⟨0, front ++ taken⟩ := by
        unfold KeptPath.step
        rw [if_neg (by simp), if_pos rfl, ← List.append_assoc, if_pos (by simp), List.dropLast_concat]
      rw [List.length_append, List.length_singleton, List.replicate_succ, List.foldl_cons, isStep]
      exact ih

theorem step_nil (allowAboveRoot : Bool) (kept : KeptPath UInt8) :
    kept.step looseUnits allowAboveRoot [] = kept := by
  unfold KeptPath.step
  rw [if_pos (Or.inl rfl)]

theorem AbsolutePath.keptPath_eq {operand : AbsolutePath} (belowRoot : operand.BelowRoot)
    {names : List (List UInt8)} (isNames : operand.rooted.names = names) :
    keptPath looseUnits true operand.path = ⟨0, names⟩ := by
  have isKept : (keptPath looseUnits true operand.path).names = names := isNames
  rw [← belowRoot, ← isKept]

theorem keptPath_relative {start target : AbsolutePath} (startBelow : start.BelowRoot)
    (targetBelow : target.BelowRoot) {common fromRest toRest : List (List UInt8)}
    (names : CommonNames start.rooted target.rooted common fromRest toRest) {relative : List UInt8}
    (isRelative : RelativeText fromRest.length toRest relative) :
    keptPath looseUnits true (start.path ++ 0x2f :: relative) =
      keptPath looseUnits true target.path := by
  have isStart := AbsolutePath.keptPath_eq startBelow names.isStart
  have isTarget := AbsolutePath.keptPath_eq targetBelow names.isTarget
  obtain ⟨behind, isBehind, pieces⟩ := isRelative.pieces names.toRest_plain isSepAny rfl
    fun c isSep => isSep
  have skipped : behind.foldl (KeptPath.step looseUnits true) ⟨0, common⟩ = ⟨0, common ++ toRest⟩ := by
    rcases isBehind with rfl | rfl
    · exact foldl_names true names.toRest_plain _
    · rw [List.foldl_append, foldl_names true names.toRest_plain]
      exact step_nil true _
  rw [isTarget, ← skipped]
  unfold keptPath at isStart ⊢
  have isSlash : looseUnits.isSeparator 0x2f = true := looseUnits.isSeparator_separator
  rw [List.splitOnP_append_cons _ _ isSlash, List.foldl_append, isStart]
  have isPieces : relative.splitOnP looseUnits.isSeparator =
      List.replicate fromRest.length [looseUnits.dot, looseUnits.dot] ++ behind := pieces
  rw [isPieces, List.foldl_append, foldl_takeBack]

def normalizedAbsolute (path : List UInt8) : List UInt8 :=
  0x2f :: normalized looseUnits ⟨true, false, false⟩ path

theorem normalizedAbsolute_eq (path : List UInt8) :
    normalizedAbsolute path =
      0x2f :: joined 0x2f ((keptPath looseUnits true path).segments looseUnits) := by
  unfold normalizedAbsolute normalized
  dsimp only
  rw [if_neg fun all => absurd all.1 Bool.false_ne_true]
  rfl

theorem normalizedAbsolute_inj {left right : List UInt8} :
    normalizedAbsolute left = normalizedAbsolute right ↔
      keptPath looseUnits true left = keptPath looseUnits true right := by
  rw [normalizedAbsolute_eq, normalizedAbsolute_eq]
  constructor
  · intro same
    have isSame := congrArg (keptPath looseUnits true) (List.cons.inj same).2
    have leftKept := keptPath_joined (keptPath_wellFormed looseUnits true left)
    have rightKept := keptPath_joined (keptPath_wellFormed looseUnits true right)
    exact leftKept.symm.trans (isSame.trans rightKept)
  · intro same
    rw [same]

theorem RelativeText.eq_nil_iff {ups : ℕ} {names : List (List UInt8)} {relative : List UInt8}
    (isRelative : RelativeText ups names relative)
    (plain : ∀ name ∈ names, PlainName looseUnits name) :
    relative = [] ↔ ups = 0 ∧ names = [] := by
  have isPlain : KeptPath.Plain looseUnits ⟨ups, names⟩ := plain
  have noText : joined 0x2f (KeptPath.segments looseUnits ⟨ups, names⟩) = [] ↔
      KeptPath.segments looseUnits ⟨ups, names⟩ = [] :=
    joined_eq_nil_iff fun segment isIn => (isPlain.segments segment isIn).1
  have noSegments : KeptPath.segments looseUnits ⟨ups, names⟩ = [] ↔ ups = 0 ∧ names = [] := by
    unfold KeptPath.segments
    rw [List.append_eq_nil_iff, List.replicate_eq_nil_iff]
  rw [← noSegments]
  rcases isRelative.isText with isJoin | ⟨someSegments, isJoin⟩
  · rw [isJoin, noText]
  · rw [isJoin]
    constructor
    · intro isNil
      exact absurd isNil (List.append_ne_nil_of_right_ne_nil _ (List.cons_ne_nil _ _))
    · intro isNil
      exact absurd isNil someSegments

theorem isSepAny_of_posix (c : UInt8) (isSep : isSepPosix c = true) : isSepAny c = true := by
  unfold isSepAny
  rw [show (c == 0x2f) = true from isSep, Bool.true_or]

theorem RelativeText.head?_ne {ups : ℕ} {names : List (List UInt8)} {relative : List UInt8}
    (isRelative : RelativeText ups names relative)
    (plain : ∀ name ∈ names, PlainName looseUnits name) : relative.head? ≠ some 0x2f := by
  intro starts
  obtain ⟨rest, rfl⟩ := List.head?_eq_some_iff.mp starts
  obtain ⟨behind, isBehind, pieces⟩ := isRelative.pieces plain isSepPosix rfl isSepAny_of_posix
  rw [List.splitOnP_cons_eq_if_modifyHead, if_pos (show isSepPosix 0x2f = true from rfl)] at pieces
  cases ups with
  | succ ups => cases (List.cons.inj pieces).1
  | zero =>
      rw [List.replicate_zero, List.nil_append] at pieces
      cases names with
      | nil =>
          -- a text with a separator has two pieces
          rcases isBehind with rfl | rfl
          · cases pieces
          · exact List.splitOnP_ne_nil _ rest (List.cons.inj pieces).2
      | cons name names =>
          have notEmpty := (plain name List.mem_cons_self).notEmpty
          rcases isBehind with rfl | rfl
          · exact notEmpty (List.cons.inj pieces).1.symm
          · exact notEmpty (List.cons.inj pieces).1.symm

structure LeadsTo (start target : AbsolutePath) (relative : List UInt8) : Prop where
  isRelative : relative.head? ≠ some 0x2f
  arrives : normalizedAbsolute (start.path ++ 0x2f :: relative) = normalizedAbsolute target.path
  empty_iff : relative = [] ↔ normalizedAbsolute start.path = normalizedAbsolute target.path
  upsFirst : ∃ ups names, relative.splitOnP isSepPosix =
    List.replicate ups [0x2e, 0x2e] ++ names ∧ [0x2e, 0x2e] ∉ names

theorem relativePlatformIn_leads {fromSize toSize : ℕ} (alwaysCopy : Bool)
    (buf : FixedArray UInt8 size) (relativeFromBuf : FixedArray UInt8 fromSize)
    (relativeToBuf : FixedArray UInt8 toSize) {start target : AbsolutePath}
    (startBelow : start.BelowRoot) (targetBelow : target.BelowRoot)
    (fits : 3 * start.rooted.names.length + target.path.length ≤ size)
    (fromFits : start.path.length + 1 ≤ fromSize) (toFits : target.path.length + 1 ≤ toSize) :
    ∃ relative, relativePlatformIn alwaysCopy buf relativeFromBuf relativeToBuf start target =
      some relative ∧ LeadsTo start target relative := by
  obtain ⟨isFrom, -⟩ := normalizeOperand_eq startBelow relativeFromBuf fromFits
  obtain ⟨isTo, length⟩ := normalizeOperand_eq targetBelow relativeToBuf toFits
  obtain ⟨relative, common, fromRest, toRest, isRelative, names, isText, whenSame⟩ :=
    relativeNormalizedBuf_eq alwaysCopy buf start.rooted target.rooted (by omega)
  unfold relativePlatformIn
  rw [isFrom, Option.bind_eq_bind, Option.bind_some, isTo, Option.bind_some, isRelative]
  refine ⟨relative, rfl, isText.head?_ne names.toRest_plain, ?_, ?_, ?_⟩
  · rw [normalizedAbsolute_inj]
    exact keptPath_relative startBelow targetBelow names isText
  · rw [isText.eq_nil_iff names.toRest_plain, List.length_eq_zero_iff, normalizedAbsolute_inj]
    constructor
    · rintro ⟨noFrom, noTo⟩
      rw [AbsolutePath.keptPath_eq startBelow names.isStart,
        AbsolutePath.keptPath_eq targetBelow names.isTarget, noFrom, noTo]
    · intro same
      exact whenSame (congrArg KeptPath.names same)
  · obtain ⟨behind, isBehind, pieces⟩ := isText.pieces names.toRest_plain isSepPosix rfl
      isSepAny_of_posix
    refine ⟨fromRest.length, behind, pieces, ?_⟩
    have notDotdot : [0x2e, 0x2e] ∉ toRest := fun isIn => (names.toRest_plain _ isIn).notDotdot rfl
    rcases isBehind with rfl | rfl
    · exact notDotdot
    · rw [List.mem_append, not_or]
      exact ⟨notDotdot, by decide⟩

/-- The relative path of absolute paths that stay below the root, in buffers that are large
enough whichever are taken. -/
theorem relativePlatform_leads {maxPathBytes : ℕ} (alwaysCopy : Bool)
    (commonPathBuf relativeFromBuf relativeToBuf : FixedArray UInt8 maxPathBytes)
    {start target : AbsolutePath} (startBelow : start.BelowRoot)
    (targetBelow : target.BelowRoot) :
    ∃ relative, relativePlatform alwaysCopy commonPathBuf relativeFromBuf relativeToBuf start target =
      some relative ∧ LeadsTo start target relative := by
  obtain ⟨fewNames, fewSeparators⟩ := start.length_names
  have isNeeded : 3 * start.rooted.names.length + target.path.length ≤
        relativeNeeded maxPathBytes start target ∧
      start.path.length + 1 ≤ relativeNeeded maxPathBytes start target ∧
      target.path.length + 1 ≤ relativeNeeded maxPathBytes start target := by
    unfold relativeNeeded relativeResultCapacity relativeOperandNeeded relativeOperandSeparators
    dsimp only
    split
    · refine ⟨?_, ?_, ?_⟩
      all_goals omega
    · refine ⟨?_, ?_, ?_⟩
      all_goals omega
  obtain ⟨resultFits, fromFits, toFits⟩ := isNeeded
  unfold relativePlatform
  dsimp only
  by_cases isLong : maxPathBytes < relativeNeeded maxPathBytes start target
  · rw [if_pos isLong]
    unfold relativeOperandNeeded
    exact relativePlatformIn_leads true _ _ _ startBelow targetBelow resultFits (Nat.le_refl _)
      (by omega)
  · rw [if_neg isLong]
    exact relativePlatformIn_leads alwaysCopy _ _ _ startBelow targetBelow (by omega) (by omega)
      (by omega)

/-- A name that the other begins with is not taken for a part of the path. -/
theorem relativePlatform_leads_siblings :
    ∃ relative, relativePlatform false (FixedArray.fill 16 0) (FixedArray.fill 16 0)
        (FixedArray.fill 16 0) ⟨[0x2f, 0x61, 0x62], rfl⟩ ⟨[0x2f, 0x61, 0x2f], rfl⟩ = some relative ∧
      LeadsTo ⟨[0x2f, 0x61, 0x62], rfl⟩ ⟨[0x2f, 0x61, 0x2f], rfl⟩ relative :=
  relativePlatform_leads false _ _ _ (by unfold AbsolutePath.BelowRoot; decide +kernel)
    (by unfold AbsolutePath.BelowRoot; decide +kernel)

/-- The relative path is also empty when only one of the normalized paths keeps its separator at
the end. -/
theorem relativePlatform_trailingSlash :
    ¬ ∀ (start target : AbsolutePath) (relative : List UInt8), start.BelowRoot → target.BelowRoot →
      relativePlatform false (FixedArray.fill 16 0) (FixedArray.fill 16 0) (FixedArray.fill 16 0)
          start target = some relative →
        (relative = [] ↔ normalized looseUnits ⟨true, true, false⟩ start.path =
          normalized looseUnits ⟨true, true, false⟩ target.path) := by
  intro every
  have isEmpty_iff := every ⟨[0x2f, 0x61], rfl⟩ ⟨[0x2f, 0x61, 0x2f], rfl⟩ []
    (by unfold AbsolutePath.BelowRoot; decide +kernel)
    (by unfold AbsolutePath.BelowRoot; decide +kernel) (by decide +kernel)
  have same := isEmpty_iff.mp rfl
  revert same
  decide +kernel

end Bun.Paths
