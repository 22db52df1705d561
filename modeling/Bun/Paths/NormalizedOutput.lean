/-
Normalizing a whole path.

The written part never outgrows what was read of the path: a name needs a separator before it
only when one was read before it.
-/

import Mathlib.Data.List.TakeWhile
import Bun.Paths.NormalizedPaths

set_option autoImplicit false

namespace Bun.Paths

open Bun.Foundation

variable {T : Type} {units : PathUnits T} {size : ℕ}

/-! ### The room -/

/-- The written part is empty, or there is room for a separator behind it, or the last element
that was read has just been written. -/
def Fits (units : PathUnits T) (consumed rest : List T) (length : ℕ) : Prop :=
  length = 0 ∨ length + 1 ≤ consumed.length ∨
    length ≤ consumed.length ∧ AtBoundary units rest ∧
      consumed.getLast?.all (!units.isSeparator ·) = true

theorem Fits.le {consumed rest : List T} {length : ℕ} (fits : Fits units consumed rest length) :
    length ≤ consumed.length := by
  rcases fits with isZero | isBelow | ⟨isBelow, -⟩
  · omega
  · omega
  · exact isBelow

theorem Fits.room {consumed rest : List T} {length : ℕ} {c : T}
    (fits : Fits units consumed (c :: rest) length) (notSeparator : ¬ units.isSeparator c = true) :
    length = 0 ∨ length + 1 ≤ consumed.length := by
  rcases fits with isZero | isBelow | ⟨-, boundary, -⟩
  · exact Or.inl isZero
  · exact Or.inr isBelow
  · exact absurd boundary notSeparator

variable [DecidableEq T]

/-! ### Reading the path -/

theorem foldl_separator {allowAboveRoot : Bool} {c : T} (isSeparator : units.isSeparator c = true)
    (rest : List T) (kept : KeptPath T) :
    ((c :: rest).splitOnP units.isSeparator).foldl (KeptPath.step units allowAboveRoot) kept =
      (rest.splitOnP units.isSeparator).foldl (KeptPath.step units allowAboveRoot) kept := by
  rw [← List.nil_append (c :: rest), List.splitOnP_append_cons _ _ isSeparator, List.splitOnP_nil,
    List.singleton_append, List.foldl_cons]
  congr 1

theorem step_name (allowAboveRoot : Bool) {name : List T} (plain : PlainName units name)
    (kept : KeptPath T) :
    kept.step units allowAboveRoot name = { kept with names := kept.names ++ [name] } := by
  unfold KeptPath.step
  rw [if_neg (not_or.mpr ⟨plain.notEmpty, plain.notDot⟩), if_neg plain.notDotdot]

theorem step_plain {kept : KeptPath T} (keptPlain : kept.Plain units) {segment : List T}
    (noSeparator : ∀ c ∈ segment, units.isSeparator c = false) (allowAboveRoot : Bool) :
    (kept.step units allowAboveRoot segment).Plain units := by
  unfold KeptPath.step
  split
  · exact keptPlain
  · rename_i notDropped
    obtain ⟨notEmpty, notDot⟩ := not_or.mp notDropped
    split
    · split
      · exact fun name isIn => keptPlain name (List.dropLast_subset _ isIn)
      · split
        · exact keptPlain
        · exact keptPlain
    · rename_i notDotdot
      intro name isIn
      rcases List.mem_append.mp isIn with inNames | isSegment
      · exact keptPlain name inNames
      · rw [List.mem_singleton.mp isSegment]
        exact ⟨notEmpty, noSeparator, notDot, notDotdot⟩

/-- The element at the start of a path, when it is neither empty nor `.` nor `..`. -/
theorem firstElement_plain {c : T} {rest : List T} (notSeparator : ¬ units.isSeparator c = true)
    (notDot : ¬ nextIs units [units.dot] (c :: rest) = true)
    (notDotdot : ¬ nextIs units [units.dot, units.dot] (c :: rest) = true) :
    PlainName units (c :: rest.takeWhile (!units.isSeparator ·)) ∧
      AtBoundary units (rest.dropWhile (!units.isSeparator ·)) := by
  have isWhole : c :: rest = (c :: rest.takeWhile (!units.isSeparator ·)) ++
      rest.dropWhile (!units.isSeparator ·) := by
    rw [List.cons_append, List.takeWhile_append_dropWhile]
  have boundary : AtBoundary units (rest.dropWhile (!units.isSeparator ·)) := by
    unfold AtBoundary
    cases isRest : rest.dropWhile (!units.isSeparator ·) with
    | nil => rfl
    | cons d more =>
        have isHead := List.head?_dropWhile_not (!units.isSeparator ·) rest
        rw [isRest] at isHead
        simpa using isHead
  refine ⟨⟨List.cons_ne_nil _ _, ?_, ?_, ?_⟩, boundary⟩
  · intro d isIn
    rcases List.mem_cons.mp isIn with isFirst | isLater
    · rw [isFirst]
      exact Bool.eq_false_iff.mpr notSeparator
    · simpa using List.mem_takeWhile_imp isLater
  · intro isDot
    rw [isDot] at isWhole
    exact notDot (nextIs_iff.mpr ⟨_, isWhole, boundary⟩)
  · intro isDotdot
    rw [isDotdot] at isWhole
    exact notDotdot (nextIs_iff.mpr ⟨_, isWhole, boundary⟩)

/-! ### The loop -/

/-- A `..` element, whatever is before it. -/
theorem parent_holds {state : Normalizing T size} {kept : KeptPath T}
    (holds : Holds units state kept) (keptPlain : kept.Plain units) (options : NormalizeOptions)
    (fits : state.bufI = 0 ∧ 2 ≤ size ∨ state.bufI + 3 ≤ size) :
    ∃ next, state.parent units options = some next ∧
      Holds units next (kept.step units options.allowAboveRoot [units.dot, units.dot]) ∧
      (next.bufI ≤ state.bufI ∨ state.bufI = 0 ∧ next.bufI = 2 ∨
        state.bufI ≠ 0 ∧ next.bufI = state.bufI + 3) := by
  obtain ⟨ups, names⟩ := kept
  have isStep : KeptPath.step units options.allowAboveRoot ⟨ups, names⟩ [units.dot, units.dot] =
      if names ≠ [] then ⟨ups, names.dropLast⟩
      else if options.allowAboveRoot then ⟨ups + 1, names⟩ else ⟨ups, names⟩ := by
    unfold KeptPath.step
    rw [if_neg (by simp), if_pos rfl]
  rw [isStep]
  rcases List.eq_nil_or_concat' names with noNames | ⟨front, name, isConcat⟩
  · subst noNames
    obtain ⟨next, isNext, isHeld, length⟩ := parent_of_noName holds options fits
    rw [if_neg (fun someNames => someNames rfl)]
    refine ⟨next, isNext, ?_, length.imp_left (·.le)⟩
    cases above : options.allowAboveRoot with
    | false =>
        rw [above] at isHeld
        exact isHeld
    | true =>
        rw [above] at isHeld
        exact isHeld
  · subst isConcat
    obtain ⟨next, isNext, isHeld, shorter⟩ :=
      parent_of_name holds (keptPlain name (List.mem_append_right _ List.mem_cons_self)) options
    rw [if_pos (List.append_ne_nil_of_right_ne_nil _ (List.cons_ne_nil _ _)),
      List.dropLast_concat]
    exact ⟨next, isNext, isHeld, Or.inl shorter.le⟩

/-- From any point of the path on, the loop ends with what the reference keeps. -/
theorem normalizeLoop_holds (options : NormalizeOptions) (consumed rest : List T)
    (state : Normalizing T size) (kept : KeptPath T) (holds : Holds units state kept)
    (keptPlain : kept.Plain units) (fits : Fits units consumed rest state.bufI)
    (room : consumed.length + rest.length ≤ size) :
    ∃ last, normalizeLoop units options rest state = some last ∧
      Holds units last ((rest.splitOnP units.isSeparator).foldl
        (KeptPath.step units options.allowAboveRoot) kept) ∧
      Fits units (consumed ++ rest) [] last.bufI := by
  induction rest, state using normalizeLoop.induct units options generalizing consumed kept with
  | case1 state =>
      unfold normalizeLoop
      rw [List.append_nil]
      exact ⟨state, rfl, by simpa [KeptPath.step] using holds, fits⟩
  | case2 state c rest isSeparator ih =>
      have isBelow := fits.le
      rw [List.length_cons] at room
      obtain ⟨last, isLast, isHeld, lastFits⟩ := ih (consumed ++ [c]) kept holds keptPlain
        (Or.inr (Or.inl (by rw [List.length_append, List.length_singleton]; omega)))
        (by rw [List.length_append, List.length_singleton]; omega)
      rw [List.append_assoc, List.singleton_append] at lastFits
      unfold normalizeLoop
      rw [if_pos isSeparator, foldl_separator isSeparator]
      exact ⟨last, isLast, isHeld, lastFits⟩
  | case3 state c rest notSeparator isDot ih =>
      have before := fits.room notSeparator
      obtain ⟨behind, isBehind, boundary⟩ := nextIs_iff.mp isDot
      obtain ⟨rfl, rfl⟩ := List.cons.inj isBehind
      rw [List.length_cons] at room
      obtain ⟨last, isLast, isHeld, lastFits⟩ := ih (consumed ++ [units.dot]) kept holds keptPlain
        (before.imp_right fun isBelow => Or.inl (by
          rw [List.length_append, List.length_singleton]
          omega))
        (by rw [List.length_append, List.length_singleton]; omega)
      have isStep : kept.step units options.allowAboveRoot [units.dot] = kept := by
        unfold KeptPath.step
        rw [if_pos (Or.inr rfl)]
      have isElement := foldl_element options.allowAboveRoot [units.dot]
        (fun c isIn => by
          rw [List.mem_singleton.mp isIn]
          exact units.isSeparator_dot) boundary kept
      rw [isStep, List.singleton_append] at isElement
      rw [List.append_assoc, List.singleton_append] at lastFits
      unfold normalizeLoop
      rw [if_neg notSeparator, if_pos isDot, isElement]
      exact ⟨last, isLast, isHeld, lastFits⟩
  | case4 state c rest notSeparator notDot isDotdot isNone =>
      have before := fits.room notSeparator
      obtain ⟨behind, isBehind, -⟩ := nextIs_iff.mp isDotdot
      rw [isBehind, List.length_append, List.length_cons, List.length_singleton] at room
      obtain ⟨next, isNext, -⟩ := parent_holds holds keptPlain options (by omega)
      rw [isNone] at isNext
      cases isNext
  | case5 state c rest notSeparator notDot isDotdot next isNext ih =>
      have before := fits.room notSeparator
      obtain ⟨behind, isBehind, boundary⟩ := nextIs_iff.mp isDotdot
      have isRest : rest.drop 1 = behind := congrArg (List.drop 2) isBehind
      rw [isBehind, List.length_append, List.length_cons, List.length_singleton] at room
      obtain ⟨found, isFound, isHeld, length⟩ := parent_holds holds keptPlain options (by omega)
      obtain rfl := Option.some.inj (isNext.symm.trans isFound)
      have longer : (consumed ++ [units.dot, units.dot]).length = consumed.length + 2 := by
        rw [List.length_append]
        rfl
      have nextFits : Fits units (consumed ++ [units.dot, units.dot]) behind next.bufI := by
        unfold Fits
        rw [longer]
        rcases length with shorter | ⟨-, isTwo⟩ | ⟨notStart, isThree⟩
        · exact Or.inr (Or.inl (by omega))
        · refine Or.inr (Or.inr ⟨by omega, boundary, ?_⟩)
          simp [units.isSeparator_dot]
        · refine Or.inr (Or.inr ⟨by omega, boundary, ?_⟩)
          simp [units.isSeparator_dot]
      rw [isRest] at ih
      obtain ⟨last, isLast, lastHeld, lastFits⟩ := ih (consumed ++ [units.dot, units.dot]) _ isHeld
        (step_plain keptPlain (dotdot_noSeparator units) _) nextFits (by rw [longer]; omega)
      rw [List.append_assoc, ← isBehind] at lastFits
      rw [← foldl_element _ _ (dotdot_noSeparator units) boundary, ← isBehind] at lastHeld
      unfold normalizeLoop
      rw [if_neg notSeparator, if_neg notDot, if_pos isDotdot, isNext]
      dsimp only
      rw [isRest]
      exact ⟨last, isLast, lastHeld, lastFits⟩
  | case6 state c rest notSeparator notDot notDotdot isNone =>
      have before := fits.room notSeparator
      have isBelow := (List.takeWhile_prefix (!units.isSeparator ·) (l := rest)).length_le
      rw [List.length_cons] at room
      obtain ⟨next, isNext, -⟩ := element_of_plain holds keptPlain
        (c :: rest.takeWhile (!units.isSeparator ·)) (by rw [List.length_cons]; omega)
      rw [isNone] at isNext
      cases isNext
  | case7 state c rest notSeparator notDot notDotdot next isNext ih =>
      have before := fits.room notSeparator
      obtain ⟨namePlain, boundary⟩ := firstElement_plain notSeparator notDot notDotdot
      have isWhole : c :: rest = (c :: rest.takeWhile (!units.isSeparator ·)) ++
          rest.dropWhile (!units.isSeparator ·) := by
        rw [List.cons_append, List.takeWhile_append_dropWhile]
      rw [isWhole, List.length_append] at room
      obtain ⟨found, isFound, isHeld, length⟩ := element_of_plain holds keptPlain
        (c :: rest.takeWhile (!units.isSeparator ·)) (by omega)
      obtain rfl := Option.some.inj (isNext.symm.trans isFound)
      have nextFits : Fits units (consumed ++ c :: rest.takeWhile (!units.isSeparator ·))
          (rest.dropWhile (!units.isSeparator ·)) next.bufI := by
        refine Or.inr (Or.inr ⟨?_, boundary, ?_⟩)
        · rw [List.length_append]
          omega
        · rw [List.getLast?_append, List.getLast?_eq_some_getLast (List.cons_ne_nil _ _)]
          simpa using namePlain.noSeparator _ (List.getLast_mem (List.cons_ne_nil _ _))
      rw [← step_name options.allowAboveRoot namePlain] at isHeld
      obtain ⟨last, isLast, lastHeld, lastFits⟩ := ih _ _ isHeld
        (step_plain keptPlain namePlain.noSeparator _) nextFits (by
          rw [List.length_append]
          omega)
      rw [List.append_assoc, ← isWhole] at lastFits
      rw [← foldl_element _ _ namePlain.noSeparator boundary, ← isWhole] at lastHeld
      unfold normalizeLoop
      rw [if_neg notSeparator, if_neg notDot, if_neg notDotdot, isNext]
      exact ⟨last, isLast, lastHeld, lastFits⟩

/-! ### The whole function -/

theorem normalizeLoop_keptPath (units : PathUnits T) (options : NormalizeOptions) {path : List T}
    (buf : FixedArray T size) (room : path.length ≤ size) :
    ∃ last, normalizeLoop units options path ⟨buf, 0, 0⟩ = some last ∧
      Holds units last (keptPath units options.allowAboveRoot path) ∧
      Fits units path [] last.bufI := by
  have isStart : Holds units (⟨buf, 0, 0⟩ : Normalizing T size) ⟨0, []⟩ :=
    ⟨Nat.zero_le _, rfl, rfl⟩
  have noNames : KeptPath.Plain units ⟨0, []⟩ := fun name isIn => absurd isIn List.not_mem_nil
  exact normalizeLoop_holds options [] path _ _ isStart noNames (Or.inl rfl)
    (by rw [List.length_nil, Nat.zero_add]; exact room)

/-- What a `..` that may not go above the start keeps out. -/
structure KeptPath.WellFormed (units : PathUnits T) (allowAboveRoot : Bool) (kept : KeptPath T) :
    Prop where
  plain : kept.Plain units
  belowStart : allowAboveRoot = false → kept.ups = 0

theorem step_wellFormed {allowAboveRoot : Bool} {kept : KeptPath T}
    (wellFormed : kept.WellFormed units allowAboveRoot) {segment : List T}
    (noSeparator : ∀ c ∈ segment, units.isSeparator c = false) :
    (kept.step units allowAboveRoot segment).WellFormed units allowAboveRoot := by
  refine ⟨step_plain wellFormed.plain noSeparator allowAboveRoot, ?_⟩
  intro notAbove
  have isStart := wellFormed.belowStart notAbove
  unfold KeptPath.step
  rw [notAbove]
  split
  · exact isStart
  · split
    · split
      · exact isStart
      · exact isStart
    · exact isStart

theorem foldl_step_wellFormed {allowAboveRoot : Bool} {segments : List (List T)}
    (noSeparators : ∀ segment ∈ segments, ∀ c ∈ segment, units.isSeparator c = false)
    (kept : KeptPath T) (wellFormed : kept.WellFormed units allowAboveRoot) :
    (segments.foldl (KeptPath.step units allowAboveRoot) kept).WellFormed units allowAboveRoot := by
  induction segments generalizing kept with
  | nil => exact wellFormed
  | cons segment segments ih =>
      rw [List.foldl_cons]
      exact ih (fun later isIn => noSeparators later (List.mem_cons_of_mem _ isIn)) _
        (step_wellFormed wellFormed (noSeparators segment List.mem_cons_self))

theorem keptPath_wellFormed (units : PathUnits T) (allowAboveRoot : Bool) (path : List T) :
    (keptPath units allowAboveRoot path).WellFormed units allowAboveRoot :=
  foldl_step_wellFormed (fun _ isPiece => not_of_mem_splitOnP isPiece) _
    ⟨fun _ isIn => absurd isIn List.not_mem_nil, fun _ => rfl⟩

omit [DecidableEq T] in
theorem getLast?_joined_segments {kept : KeptPath T} (keptPlain : kept.Plain units) {c : T}
    (isLast : (joined units.separator (kept.segments units)).getLast? = some c) :
    units.isSeparator c = false := by
  by_cases noSegments : kept.segments units = []
  · rw [noSegments] at isLast
    cases isLast
  · obtain ⟨lastNotEmpty, noSeparator⟩ := keptPlain.segments _ (List.getLast_mem noSegments)
    rw [getLast?_joined (List.getLast?_eq_some_getLast noSegments) lastNotEmpty] at isLast
    exact noSeparator c (List.mem_of_getLast? isLast)

theorem keepTrailingSlash_holds {options : NormalizeOptions} {path : List T} {state : Normalizing T size}
    (holds : Holds units state (keptPath units options.allowAboveRoot path))
    (fits : Fits units path [] state.bufI) (room : path.length ≤ size) :
    ∃ last, state.keepTrailingSlash units options path = some last ∧
      last.output = normalized units options path ∧ last.bufI ≤ path.length := by
  have keptPlain := (keptPath_wellFormed units options.allowAboveRoot path).plain
  have isSome_iff : 0 < state.bufI ↔
      joined units.separator ((keptPath units options.allowAboveRoot path).segments units) ≠ [] := by
    rw [holds.bufI_eq, List.length_pos_iff]
  unfold Normalizing.keepTrailingSlash normalized
  dsimp only
  by_cases ends : options.preserveTrailingSlash = true ∧ 0 < state.bufI ∧
      path.getLast? = some units.separator
  · obtain ⟨preserve, notStart, isTrailing⟩ := ends
    -- the last element was not just written, for the path ends in a separator
    have shorter : state.bufI + 1 ≤ path.length := by
      rcases fits with isZero | isBelow | ⟨-, -, notTrailing⟩
      · omega
      · exact isBelow
      · rw [isTrailing, Option.all_some, units.isSeparator_separator] at notTrailing
        cases notTrailing
    obtain ⟨c, isCell, notSeparator⟩ : ∃ c, state.buf.items[state.bufI - 1]? = some c ∧
        units.isSeparator c = false := by
      have isLast := List.getLast?_eq_some_getLast (isSome_iff.mp notStart)
      refine ⟨_, ?_, getLast?_joined_segments keptPlain isLast⟩
      rw [← isLast, List.getLast?_eq_getElem?, ← holds.bufI_eq]
      exact holds.getElem? (by omega)
    obtain ⟨last, isLast, length, -, isOutput⟩ :=
      push_of_fits (show state.bufI + [units.separator].length ≤ size by
        rw [List.length_singleton]
        omega)
    rw [if_pos ⟨preserve, notStart, isTrailing⟩,
      if_pos ⟨preserve, isSome_iff.mp notStart, isTrailing⟩, isCell]
    dsimp only
    rw [if_pos (by
      rintro rfl
      rw [units.isSeparator_separator] at notSeparator
      cases notSeparator)]
    refine ⟨last, isLast, ?_, ?_⟩
    · rw [isOutput, holds.written]
    · rw [length, List.length_singleton]
      exact shorter
  · rw [if_neg ends, if_neg (by rw [← isSome_iff]; exact ends)]
    exact ⟨state, rfl, holds.written, fits.le⟩

theorem normalizeStringGenericTz_eq (units : PathUnits T) (options : NormalizeOptions)
    (path : List T) (buf : FixedArray T size)
    (room : path.length + (if options.zeroTerminate then 1 else 0) ≤ size) :
    ∃ last, normalizeStringGenericTz units options path buf = some last ∧
      last.output = normalized units options path ∧ last.bufI ≤ path.length ∧
      (options.zeroTerminate = true → last.buf.items[last.bufI]? = some units.nul) := by
  have smaller : path.length ≤ size := (Nat.le_add_right _ _).trans room
  obtain ⟨state, isState, holds, fits⟩ := normalizeLoop_keptPath units options buf smaller
  obtain ⟨last, isLast, isOutput, length⟩ := keepTrailingSlash_holds holds fits smaller
  unfold normalizeStringGenericTz
  rw [isState, Option.bind_eq_bind, Option.bind_some, isLast, Option.bind_eq_bind, Option.bind_some]
  cases terminate : options.zeroTerminate with
  | false =>
      rw [if_neg Bool.false_ne_true]
      exact ⟨last, rfl, isOutput, length, fun isTrue => absurd isTrue Bool.false_ne_true⟩
  | true =>
      rw [terminate, if_pos rfl] at room
      obtain ⟨written, isWritten, isFront⟩ := last.buf.copyFromSlice_of_fits last.bufI [units.nul] (by
        rw [List.length_singleton]
        omega)
      rw [List.length_singleton] at isFront
      have frontLength : (last.buf.items.take last.bufI).length = last.bufI :=
        Holds.length_output (length.trans smaller)
      rw [if_pos rfl, isWritten]
      refine ⟨_, rfl, ?_, length, fun _ => ?_⟩
      · rw [← isOutput]
        unfold Normalizing.output
        have isTaken := congrArg (List.take last.bufI) isFront
        rw [List.take_take, Nat.min_eq_left (Nat.le_succ _),
          List.take_append_of_le_length frontLength.ge, List.take_take, Nat.min_self] at isTaken
        exact isTaken
      · have isCell := congrArg (·[last.bufI]?) isFront
        rw [List.getElem?_take_of_lt (Nat.lt_succ_self _),
          List.getElem?_append_right frontLength.le, frontLength, Nat.sub_self] at isCell
        exact isCell

/-! ### Normalizing again -/

theorem foldl_replicate_dotdot {allowAboveRoot : Bool} {ups : ℕ}
    (belowStart : allowAboveRoot = false → ups = 0) (start : ℕ) :
    (List.replicate ups [units.dot, units.dot]).foldl (KeptPath.step units allowAboveRoot)
      ⟨start, []⟩ = ⟨start + ups, []⟩ := by
  induction ups generalizing start with
  | zero => rfl
  | succ ups ih =>
      have above : allowAboveRoot = true := by
        cases isAbove : allowAboveRoot with
        | false => exact absurd (belowStart isAbove) (Nat.succ_ne_zero _)
        | true => rfl
      have isStep : KeptPath.step units allowAboveRoot ⟨start, []⟩ [units.dot, units.dot] =
          ⟨start + 1, []⟩ := by
        unfold KeptPath.step
        rw [if_neg (by simp), if_pos rfl, if_neg (fun someNames => someNames rfl), if_pos above]
      rw [List.replicate_succ, List.foldl_cons, isStep,
        ih (fun isFalse => absurd (above.symm.trans isFalse) (by decide)),
        Nat.add_assoc, Nat.add_comm 1]

theorem foldl_names (allowAboveRoot : Bool) {names : List (List T)}
    (plain : ∀ name ∈ names, PlainName units name) (kept : KeptPath T) :
    names.foldl (KeptPath.step units allowAboveRoot) kept =
      { kept with names := kept.names ++ names } := by
  induction names generalizing kept with
  | nil => rw [List.foldl_nil, List.append_nil]
  | cons name names ih =>
      rw [List.foldl_cons, step_name allowAboveRoot (plain name List.mem_cons_self),
        ih fun later isIn => plain later (List.mem_cons_of_mem _ isIn)]
      dsimp only
      rw [List.append_assoc, List.singleton_append]

theorem keptPath_joined {allowAboveRoot : Bool} {kept : KeptPath T}
    (wellFormed : kept.WellFormed units allowAboveRoot) :
    keptPath units allowAboveRoot (joined units.separator (kept.segments units)) = kept := by
  unfold keptPath
  by_cases noSegments : kept.segments units = []
  · rw [noSegments]
    obtain ⟨ups, names⟩ := kept
    obtain ⟨noUps, noNames⟩ := List.append_eq_nil_iff.mp noSegments
    rw [List.replicate_eq_nil_iff] at noUps
    subst noUps noNames
    rfl
  · rw [splitOnP_joined units.isSeparator_separator noSegments
      fun segment isIn => (wellFormed.plain.segments segment isIn).2]
    unfold KeptPath.segments
    rw [List.foldl_append, foldl_replicate_dotdot wellFormed.belowStart, Nat.zero_add,
      foldl_names allowAboveRoot wellFormed.plain]
    rfl

theorem keptPath_append_separator (allowAboveRoot : Bool) (path : List T) :
    keptPath units allowAboveRoot (path ++ [units.separator]) =
      keptPath units allowAboveRoot path := by
  unfold keptPath
  rw [List.splitOnP_append_cons _ _ units.isSeparator_separator, List.splitOnP_nil,
    List.foldl_append, List.foldl_cons, List.foldl_nil]
  unfold KeptPath.step
  rw [if_pos (Or.inl rfl)]

theorem normalized_normalized (units : PathUnits T) (options : NormalizeOptions) (path : List T) :
    normalized units options (normalized units options path) = normalized units options path := by
  have wellFormed := keptPath_wellFormed units options.allowAboveRoot path
  have again := keptPath_joined wellFormed
  unfold normalized
  dsimp only
  by_cases ends : options.preserveTrailingSlash = true ∧
      joined units.separator ((keptPath units options.allowAboveRoot path).segments units) ≠ [] ∧
      path.getLast? = some units.separator
  · rw [if_pos ends, keptPath_append_separator, again, List.getLast?_concat,
      if_pos ⟨ends.1, ends.2.1, rfl⟩]
  · rw [if_neg ends, again, if_neg ?_]
    rintro ⟨-, -, isTrailing⟩
    have notSeparator := getLast?_joined_segments wellFormed.plain isTrailing
    rw [units.isSeparator_separator] at notSeparator
    cases notSeparator

/-- Normalizing a path gives the kept elements joined, in no more room than the path, and
normalizing what it gives changes nothing. -/
theorem normalizeStringGenericTz_normalized (units : PathUnits T) (options : NormalizeOptions)
    (path : List T) (buf : FixedArray T size)
    (room : path.length + (if options.zeroTerminate then 1 else 0) ≤ size) :
    (∃ last, normalizeStringGenericTz units options path buf = some last ∧
      last.output = normalized units options path ∧ last.output.length ≤ path.length ∧
      (options.zeroTerminate = true → last.buf.items[last.output.length]? = some units.nul)) ∧
    ∀ buf : FixedArray T size, ∃ again,
      normalizeStringGenericTz units options (normalized units options path) buf = some again ∧
        again.output = normalized units options path := by
  obtain ⟨last, isLast, isOutput, length, isNul⟩ :=
    normalizeStringGenericTz_eq units options path buf room
  have smaller : path.length ≤ size := (Nat.le_add_right _ _).trans room
  have outputLength := Holds.length_output (length.trans smaller)
  rw [← outputLength] at length isNul
  refine ⟨⟨last, isLast, isOutput, length, isNul⟩, fun buf => ?_⟩
  rw [isOutput] at length
  obtain ⟨again, isAgain, isSame, -⟩ := normalizeStringGenericTz_eq units options
    (normalized units options path) buf ((Nat.add_le_add_right length _).trans room)
  exact ⟨again, isAgain, isSame.trans (normalized_normalized units options path)⟩

/-- The elements in between are taken back, and the `..` above the start is kept. -/
theorem normalizeStringGenericTz_aboveStart :
    (∃ last, normalizeStringGenericTz posixUnits ⟨true, true, true⟩
        [0x61, 0x2f, 0x2e, 0x2f, 0x2e, 0x2e, 0x2f, 0x2f, 0x2e, 0x2e, 0x2f, 0x62, 0x2f]
        (FixedArray.fill 14 0x7a) = some last ∧
      last.output = [0x2e, 0x2e, 0x2f, 0x62, 0x2f] ∧ last.output.length ≤ 13 ∧
      (true = true → last.buf.items[last.output.length]? = some 0)) ∧
    ∀ buf : FixedArray UInt8 14, ∃ again,
      normalizeStringGenericTz posixUnits ⟨true, true, true⟩ [0x2e, 0x2e, 0x2f, 0x62, 0x2f] buf =
          some again ∧
        again.output = [0x2e, 0x2e, 0x2f, 0x62, 0x2f] := by
  have isNormalized : normalized posixUnits ⟨true, true, true⟩
      [0x61, 0x2f, 0x2e, 0x2f, 0x2e, 0x2e, 0x2f, 0x2f, 0x2e, 0x2e, 0x2f, 0x62, 0x2f] =
        [0x2e, 0x2e, 0x2f, 0x62, 0x2f] := by
    decide +kernel
  rw [← isNormalized]
  exact normalizeStringGenericTz_normalized posixUnits ⟨true, true, true⟩ _ _ (by decide)

theorem normalizeBuf_eq (path : List UInt8) (buf : FixedArray UInt8 size) (room : path.length ≤ size)
    (notEmpty : 1 ≤ size) :
    normalizeBuf path buf = some (if path = [] then [0x2e] else
      normalized looseUnits
        ⟨Platform.posix.isAbsolute path, path.getLast? == some 0x2f, false⟩ path) := by
  unfold normalizeBuf
  cases path with
  | nil =>
      obtain ⟨written, isWritten, isFront⟩ := buf.copyFromSlice_of_fits 0 [0x2e] (by
        rw [List.length_singleton, Nat.zero_add]
        exact notEmpty)
      rw [if_pos rfl, if_pos List.isEmpty_nil, isWritten]
      exact congrArg some isFront
  | cons c rest =>
      obtain ⟨last, isLast, isOutput, -⟩ := normalizeStringGenericTz_eq looseUnits
        ⟨Platform.posix.isAbsolute (c :: rest), (c :: rest).getLast? == some 0x2f, false⟩
        (c :: rest) buf (by rw [if_neg Bool.false_ne_true]; exact room)
      rw [if_neg (by simp), if_neg (List.cons_ne_nil _ _)]
      unfold normalizeStringLooseBuf
      dsimp only
      rw [isLast, Option.map_some, isOutput]

end Bun.Paths
