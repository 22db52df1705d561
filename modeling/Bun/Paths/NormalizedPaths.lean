/-
What normalizing in place writes.

While a path is read, the written part of the buffer is the join of the elements kept so
far, and it is never longer than what was read.  So a buffer of the path's size is enough,
and what is returned is what the reference keeps.
-/

import Bun.Paths.NormalizeString

set_option autoImplicit false

namespace Bun.Paths

open Bun.Foundation

variable {T : Type} {units : PathUnits T} {size : ℕ}

/-! ### Elements -/

structure PlainName (units : PathUnits T) (name : List T) : Prop where
  notEmpty : name ≠ []
  noSeparator : ∀ c ∈ name, units.isSeparator c = false
  notDot : name ≠ [units.dot]
  notDotdot : name ≠ [units.dot, units.dot]

def KeptPath.Plain (units : PathUnits T) (kept : KeptPath T) : Prop :=
  ∀ name ∈ kept.names, PlainName units name

theorem dotdot_noSeparator (units : PathUnits T) :
    ∀ c ∈ [units.dot, units.dot], units.isSeparator c = false := by
  intro c isIn
  simp only [List.mem_cons, List.not_mem_nil, or_false, or_self] at isIn
  rw [isIn]
  exact units.isSeparator_dot

theorem KeptPath.Plain.segments {kept : KeptPath T} (plain : kept.Plain units) :
    ∀ segment ∈ kept.segments units,
      segment ≠ [] ∧ ∀ c ∈ segment, units.isSeparator c = false := by
  intro segment isIn
  rcases List.mem_append.mp isIn with inUps | inNames
  · rw [List.eq_of_mem_replicate inUps]
    exact ⟨List.cons_ne_nil _ _, dotdot_noSeparator units⟩
  · exact ⟨(plain segment inNames).notEmpty, (plain segment inNames).noSeparator⟩

def AtBoundary (units : PathUnits T) (rest : List T) : Prop :=
  rest.head?.all units.isSeparator = true

theorem foldl_element [DecidableEq T] (allowAboveRoot : Bool) (element : List T) {rest : List T}
    (noSeparator : ∀ c ∈ element, units.isSeparator c = false) (boundary : AtBoundary units rest)
    (kept : KeptPath T) :
    ((element ++ rest).splitOnP units.isSeparator).foldl (KeptPath.step units allowAboveRoot) kept =
      (rest.splitOnP units.isSeparator).foldl (KeptPath.step units allowAboveRoot)
        (kept.step units allowAboveRoot element) := by
  have skipped (kept : KeptPath T) : kept.step units allowAboveRoot [] = kept := by
    unfold KeptPath.step
    rw [if_pos (Or.inl rfl)]
  cases rest with
  | nil =>
      rw [List.append_nil, List.splitOnP_eq_singleton noSeparator, List.splitOnP_nil,
        List.foldl_cons, List.foldl_nil, List.foldl_cons, List.foldl_nil, skipped]
  | cons c rest =>
      have isSeparator : units.isSeparator c = true := boundary
      rw [List.splitOnP_append_cons _ _ isSeparator, List.splitOnP_eq_singleton noSeparator,
        List.singleton_append, List.foldl_cons, ← List.nil_append (c :: rest),
        List.splitOnP_append_cons _ _ isSeparator, List.splitOnP_nil, List.singleton_append,
        List.foldl_cons, skipped]

theorem nextIs_iff [DecidableEq T] {name path : List T} :
    nextIs units name path = true ↔ ∃ rest, path = name ++ rest ∧ AtBoundary units rest := by
  unfold nextIs AtBoundary
  rw [Bool.and_eq_true]
  constructor
  · rintro ⟨isPrefix, boundary⟩
    obtain ⟨rest, rfl⟩ := List.isPrefixOf_iff_prefix.mp isPrefix
    rw [List.drop_left] at boundary
    exact ⟨rest, rfl, boundary⟩
  · rintro ⟨rest, rfl, boundary⟩
    rw [List.drop_left]
    exact ⟨List.isPrefixOf_iff_prefix.mpr (List.prefix_append _ _), boundary⟩

/-! ### The written part -/

/-- The written part of the buffer is the join of what is kept, and the mark stands behind
the `..` elements. -/
structure Holds (units : PathUnits T) (state : Normalizing T size) (kept : KeptPath T) : Prop where
  inside : state.bufI ≤ size
  written : state.output = joined units.separator (kept.segments units)
  mark : state.dotdot =
    (joined units.separator (List.replicate kept.ups [units.dot, units.dot])).length

namespace Holds

variable {state : Normalizing T size} {kept : KeptPath T}

theorem length_output {state : Normalizing T size} (inside : state.bufI ≤ size) :
    state.output.length = state.bufI := by
  unfold Normalizing.output
  rw [List.length_take, state.buf.length_items]
  omega

theorem bufI_eq (holds : Holds units state kept) :
    state.bufI = (joined units.separator (kept.segments units)).length := by
  rw [← holds.written, length_output holds.inside]

theorem bufI_eq_zero_iff (holds : Holds units state kept) (plain : kept.Plain units) :
    state.bufI = 0 ↔ kept.segments units = [] := by
  rw [holds.bufI_eq, List.length_eq_zero_iff]
  exact joined_eq_nil_iff fun segment isIn => (plain.segments segment isIn).1

theorem getElem? (holds : Holds units state kept) {index : ℕ} (isIn : index < state.bufI) :
    state.buf.items[index]? = (joined units.separator (kept.segments units))[index]? := by
  rw [← holds.written]
  unfold Normalizing.output
  rw [List.getElem?_take_of_lt isIn]

end Holds

theorem push_of_fits {state : Normalizing T size} {source : List T}
    (fits : state.bufI + source.length ≤ size) :
    ∃ next, state.push source = some next ∧ next.bufI = state.bufI + source.length ∧
      next.dotdot = state.dotdot ∧ next.output = state.output ++ source := by
  obtain ⟨written, isWritten, isFront⟩ := state.buf.copyFromSlice_of_fits state.bufI source fits
  refine ⟨{ state with buf := written, bufI := state.bufI + source.length }, ?_, rfl, rfl, isFront⟩
  unfold Normalizing.push
  rw [isWritten]
  rfl

theorem walkBack_eq {state : Normalizing T size} {stop index : ℕ} (below : stop ≤ index)
    (name : ∀ j, stop < j → j ≤ index →
      state.dotdot < j ∧ ∃ c, state.buf.items[j]? = some c ∧ units.isSeparator c = false)
    (stops : stop ≤ state.dotdot ∨
      ∃ c, state.buf.items[stop]? = some c ∧ units.isSeparator c = true) :
    state.walkBack units index = some stop := by
  induction index with
  | zero =>
      unfold Normalizing.walkBack
      rw [Nat.le_zero.mp below]
  | succ index ih =>
      unfold Normalizing.walkBack
      by_cases atStop : stop = index + 1
      · rw [← atStop]
        rcases stops with isMark | ⟨c, isCell, isSeparator⟩
        · rw [if_neg (by omega)]
        · rw [isCell]
          dsimp only
          rw [if_pos isSeparator]
          split
          · rfl
          · rfl
      · obtain ⟨above, c, isCell, notSeparator⟩ := name (index + 1) (by omega) (Nat.le_refl _)
        rw [if_pos above, isCell]
        dsimp only
        rw [if_neg (by rw [notSeparator]; exact Bool.false_ne_true)]
        exact ih (by omega) fun j above isBelow => name j above (by omega)

/-! ### One element -/

theorem Holds.shortened {state : Normalizing T size} {ups : ℕ} {front : List (List T)}
    {name : List T} (holds : Holds units state ⟨ups, front ++ [name]⟩) :
    Holds units
      { state with bufI := (joined units.separator (KeptPath.segments units ⟨ups, front⟩)).length }
      ⟨ups, front⟩ := by
  have isPrefix : joined units.separator (KeptPath.segments units ⟨ups, front⟩) <+:
      joined units.separator (KeptPath.segments units ⟨ups, front ++ [name]⟩) := by
    unfold KeptPath.segments
    rw [← List.append_assoc]
    by_cases noFront : List.replicate ups [units.dot, units.dot] ++ front = []
    · rw [noFront]
      exact List.nil_prefix
    · rw [joined_concat units.separator noFront]
      exact List.prefix_append _ _
  have shorter := isPrefix.length_le
  rw [← holds.bufI_eq] at shorter
  refine ⟨shorter.trans holds.inside, ?_, holds.mark⟩
  rw [List.prefix_iff_eq_take, ← holds.written] at isPrefix
  unfold Normalizing.output at isPrefix ⊢
  rw [List.take_take, Nat.min_eq_left shorter] at isPrefix
  exact isPrefix.symm

theorem Holds.mark_le {state : Normalizing T size} {ups : ℕ} {names : List (List T)}
    (holds : Holds units state ⟨ups, names⟩) :
    state.dotdot ≤ (joined units.separator (KeptPath.segments units ⟨ups, names⟩)).length := by
  rw [holds.mark]
  unfold KeptPath.segments
  by_cases noUps : List.replicate ups [units.dot, units.dot] = []
  · rw [noUps]
    exact Nat.zero_le _
  · by_cases noNames : names = []
    · rw [noNames, List.append_nil]
    · rw [joined_append units.separator noUps noNames, List.length_append]
      exact Nat.le_add_right _ _

/-- The cells behind what is left when the last name is taken back: a separator unless nothing
is left, and the name. -/
theorem joined_segments_concat (units : PathUnits T) (ups : ℕ) (front : List (List T)) (name : List T) :
    joined units.separator (KeptPath.segments units ⟨ups, front ++ [name]⟩) =
        joined units.separator (KeptPath.segments units ⟨ups, front⟩) ++ units.separator :: name ∨
      KeptPath.segments units ⟨ups, front⟩ = [] ∧
        joined units.separator (KeptPath.segments units ⟨ups, front ++ [name]⟩) = name := by
  have isAppend : KeptPath.segments units ⟨ups, front ++ [name]⟩ =
      KeptPath.segments units ⟨ups, front⟩ ++ [name] := by
    unfold KeptPath.segments
    rw [← List.append_assoc]
  rw [isAppend]
  by_cases noFront : KeptPath.segments units ⟨ups, front⟩ = []
  · rw [noFront, List.nil_append, joined_singleton]
    exact Or.inr ⟨rfl, rfl⟩
  · exact Or.inl (joined_concat units.separator noFront name)

/-- A `..` behind a name takes the name back. -/
theorem parent_of_name {state : Normalizing T size} {ups : ℕ} {front : List (List T)}
    {name : List T} (holds : Holds units state ⟨ups, front ++ [name]⟩) (plain : PlainName units name)
    (options : NormalizeOptions) :
    ∃ next, state.parent units options = some next ∧ Holds units next ⟨ups, front⟩ ∧
      next.bufI < state.bufI := by
  have nameLength := List.length_pos_iff.mpr plain.notEmpty
  have markBelow : state.dotdot ≤
      (joined units.separator (KeptPath.segments units ⟨ups, front⟩)).length :=
    holds.shortened.mark_le
  have whole := holds.bufI_eq
  -- the name's own cells hold no separator, and the cell before them does
  have isBack : state.walkBack units (state.bufI - 1) =
      some (joined units.separator (KeptPath.segments units ⟨ups, front⟩)).length := by
    rcases joined_segments_concat units ups front name with isLonger | ⟨noFront, isName⟩
    · rw [isLonger, List.length_append, List.length_cons] at whole
      apply walkBack_eq
      · omega
      · intro j above isBelow
        refine ⟨markBelow.trans_lt above, ?_⟩
        rw [holds.getElem? (by omega), isLonger, List.getElem?_append_right above.le,
          show j - (joined units.separator (KeptPath.segments units ⟨ups, front⟩)).length =
            (j - (joined units.separator (KeptPath.segments units ⟨ups, front⟩)).length - 1) + 1 by
              omega, List.getElem?_cons_succ]
        have isIn : j - (joined units.separator (KeptPath.segments units ⟨ups, front⟩)).length - 1 <
            name.length := by
          omega
        exact ⟨_, List.getElem?_eq_getElem isIn, plain.noSeparator _ (List.getElem_mem isIn)⟩
      · refine Or.inr ⟨units.separator, ?_, units.isSeparator_separator⟩
        rw [holds.getElem? (by omega), isLonger, List.getElem?_append_right (Nat.le_refl _),
          Nat.sub_self, List.getElem?_cons_zero]
    · rw [isName] at whole
      rw [noFront, joined_nil, List.length_nil] at markBelow ⊢
      apply walkBack_eq (Nat.zero_le _)
      · intro j above isBelow
        have isIn : j < name.length := by
          omega
        refine ⟨by omega, _, ?_, plain.noSeparator _ (List.getElem_mem isIn)⟩
        rw [holds.getElem? (by omega), isName, List.getElem?_eq_getElem isIn]
      · exact Or.inl (Nat.zero_le _)
  have shorter : (joined units.separator (KeptPath.segments units ⟨ups, front⟩)).length <
      state.bufI := by
    rcases joined_segments_concat units ups front name with isLonger | ⟨noFront, isName⟩
    · rw [whole, isLonger, List.length_append, List.length_cons]
      omega
    · rw [whole, isName, noFront]
      exact nameLength
  refine ⟨_, ?_, holds.shortened, shorter⟩
  unfold Normalizing.parent
  rw [if_pos (by omega), isBack]
  rfl

/-- A `..` behind no name is kept in front if the path may go above its start. -/
theorem parent_of_noName {state : Normalizing T size} {ups : ℕ}
    (holds : Holds units state ⟨ups, []⟩) (options : NormalizeOptions)
    (fits : state.bufI = 0 ∧ 2 ≤ size ∨ state.bufI + 3 ≤ size) :
    ∃ next, state.parent units options = some next ∧
      Holds units next ⟨if options.allowAboveRoot then ups + 1 else ups, []⟩ ∧
      (next.bufI = state.bufI ∨ state.bufI = 0 ∧ next.bufI = 2 ∨
        state.bufI ≠ 0 ∧ next.bufI = state.bufI + 3) := by
  have atMark : state.bufI = state.dotdot := by
    rw [holds.bufI_eq, holds.mark]
    unfold KeptPath.segments
    rw [List.append_nil]
  unfold Normalizing.parent
  rw [if_neg (by omega)]
  by_cases above : options.allowAboveRoot = true
  · rw [if_pos above, if_pos above]
    have written (next : Normalizing T size) (inside : next.bufI ≤ size)
        (isWritten : next.output =
          joined units.separator (List.replicate (ups + 1) [units.dot, units.dot])) :
        Holds units { next with dotdot := next.bufI } ⟨ups + 1, []⟩ := by
      refine ⟨inside, ?_, ?_⟩
      · unfold KeptPath.segments
        rw [List.append_nil]
        exact isWritten
      · rw [← isWritten]
        exact (Holds.length_output inside).symm
    have before : state.output =
        joined units.separator (List.replicate ups [units.dot, units.dot]) := by
      rw [holds.written]
      unfold KeptPath.segments
      rw [List.append_nil]
    have isStart_iff : state.bufI = 0 ↔ List.replicate ups [units.dot, units.dot] = [] := by
      rw [← Holds.length_output holds.inside, before, List.length_eq_zero_iff]
      exact joined_eq_nil_iff fun segment isIn => by
        rw [List.eq_of_mem_replicate isIn]
        exact List.cons_ne_nil _ _
    rw [List.replicate_succ'] at written
    by_cases isStart : state.bufI = 0
    · have noUps := isStart_iff.mp isStart
      obtain ⟨next, isNext, length, -, isOutput⟩ :=
        push_of_fits (show state.bufI + [units.dot, units.dot].length ≤ size by
          rw [List.length_cons, List.length_singleton]
          omega)
      rw [if_neg (by omega), isNext]
      rw [isStart, Nat.zero_add] at length
      refine ⟨_, rfl, written next ?_ ?_, Or.inr (Or.inl ⟨isStart, length⟩)⟩
      · rw [length, List.length_cons, List.length_singleton]
        omega
      · rw [isOutput, before, noUps, List.nil_append, joined_singleton]
        rfl
    · obtain ⟨next, isNext, length, -, isOutput⟩ :=
        push_of_fits (show state.bufI + [units.separator, units.dot, units.dot].length ≤ size by
          rw [List.length_cons, List.length_cons, List.length_singleton]
          omega)
      rw [if_pos (by omega), isNext]
      refine ⟨_, rfl, written next ?_ ?_, Or.inr (Or.inr ⟨isStart, length⟩)⟩
      · rw [length, List.length_cons, List.length_cons, List.length_singleton]
        omega
      · rw [isOutput, before, joined_concat units.separator fun noUps => isStart (isStart_iff.mpr noUps)]
  · rw [if_neg above, if_neg above]
    exact ⟨state, rfl, holds, Or.inl rfl⟩

theorem element_of_plain {state : Normalizing T size} {kept : KeptPath T}
    (holds : Holds units state kept) (keptPlain : kept.Plain units) (name : List T)
    (fits : state.bufI = 0 ∧ name.length ≤ size ∨ state.bufI + 1 + name.length ≤ size) :
    ∃ next, state.element units name = some next ∧
      Holds units next { kept with names := kept.names ++ [name] } ∧
      (state.bufI = 0 ∧ next.bufI = name.length ∨
        state.bufI ≠ 0 ∧ next.bufI = state.bufI + 1 + name.length) := by
  have isAppend : KeptPath.segments units { kept with names := kept.names ++ [name] } =
      kept.segments units ++ [name] := by
    unfold KeptPath.segments
    rw [← List.append_assoc]
  have finish (ready : Normalizing T size) (isMark : ready.dotdot = state.dotdot)
      (readyFits : ready.bufI + name.length ≤ size)
      (isReady : ready.output ++ name = joined units.separator (kept.segments units ++ [name])) :
      ∃ next, ready.push name = some next ∧
        Holds units next { kept with names := kept.names ++ [name] } ∧
        next.bufI = ready.bufI + name.length := by
    obtain ⟨next, isNext, length, mark, isOutput⟩ := push_of_fits readyFits
    refine ⟨next, isNext, ⟨?_, ?_, ?_⟩, length⟩
    · rw [length]
      exact readyFits
    · rw [isOutput, isAppend]
      exact isReady
    · rw [mark, isMark]
      exact holds.mark
  unfold Normalizing.element
  by_cases isStart : state.bufI = 0
  · have noSegments := (holds.bufI_eq_zero_iff keptPlain).mp isStart
    obtain ⟨next, isNext, isHeld, length⟩ := finish state rfl (by omega) (by
      rw [holds.written, noSegments, joined_nil, List.nil_append, List.nil_append,
        joined_singleton])
    rw [if_neg (fun notStart => notStart isStart)]
    exact ⟨next, isNext, isHeld, Or.inl ⟨isStart, by rw [length, isStart, Nat.zero_add]⟩⟩
  · have someSegments : kept.segments units ≠ [] := fun noSegments =>
      isStart ((holds.bufI_eq_zero_iff keptPlain).mpr noSegments)
    obtain ⟨c, isCell, notSeparator⟩ : ∃ c, state.buf.items[state.bufI - 1]? = some c ∧
        units.isSeparator c = false := by
      obtain ⟨lastNotEmpty, noSeparator⟩ := keptPlain.segments _ (List.getLast_mem someSegments)
      refine ⟨_, ?_, noSeparator _ (List.getLast_mem lastNotEmpty)⟩
      rw [holds.getElem? (by omega), holds.bufI_eq, ← List.getLast?_eq_getElem?,
        getLast?_joined (List.getLast?_eq_some_getLast someSegments) lastNotEmpty]
      exact List.getLast?_eq_some_getLast lastNotEmpty
    obtain ⟨ready, isReady, length, mark, isOutput⟩ :=
      push_of_fits (show state.bufI + [units.separator].length ≤ size by
        rw [List.length_singleton]
        omega)
    rw [List.length_singleton] at length
    obtain ⟨next, isNext, isHeld, nextLength⟩ := finish ready mark (by omega) (by
      rw [isOutput, holds.written, joined_concat units.separator someSegments,
        List.append_assoc, List.singleton_append])
    rw [if_pos isStart, isCell]
    dsimp only
    rw [if_pos (by rw [notSeparator]; rfl), isReady]
    exact ⟨next, isNext, isHeld, Or.inr ⟨isStart, by omega⟩⟩

end Bun.Paths
