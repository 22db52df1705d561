/-
What sorting by insertion and merging runs in passes comes to, whatever is asked.

A property of what a sort is given and what it makes of it holds in the end if it survives
an item's insertion and the merge of two runs.  The comparison's answers enter by what it may
answer: an answer that is always the same is the only one it may give.
-/

import Bun.Collections.IndexSort

set_option autoImplicit false

namespace Bun.Collections.IndexSort

open Bun.Foundation

variable {α σ : Type} {cmp : Comparison α σ}

/-! ### Answers -/

def MayBeLess (cmp : Comparison α σ) (a b : α) : Prop :=
  ∃ s, (cmp a b s).1 = .lt

def MayBeNotLess (cmp : Comparison α σ) (a b : α) : Prop :=
  ∃ s, (cmp a b s).1 ≠ .lt

def Answers (cmp : Comparison α σ) (order : α → α → Ordering) : Prop :=
  ∀ a b s, (cmp a b s).1 = order a b

theorem MayBeLess.of_answers {order : α → α → Ordering} (answers : Answers cmp order) {a b : α}
    (less : MayBeLess cmp a b) : order a b = .lt := by
  obtain ⟨s, isLess⟩ := less
  rw [← isLess, answers]

theorem MayBeNotLess.of_answers {order : α → α → Ordering} (answers : Answers cmp order) {a b : α}
    (notLess : MayBeNotLess cmp a b) : order a b ≠ .lt := by
  obtain ⟨s, isNotLess⟩ := notLess
  rwa [answers] at isNotLess

theorem compareBy_yields (a b : α) :
    Yields (compareBy cmp a b) fun answer =>
      (answer = .lt → MayBeLess cmp a b) ∧ (answer ≠ .lt → MayBeNotLess cmp a b) :=
  fun s => ⟨(cmp a b s).1, (cmp a b s).2, rfl, fun isLess => ⟨s, isLess⟩, fun notLess => ⟨s, notLess⟩⟩

/-! ### Accesses -/

theorem readAt_yields {items : List α} {i : ℕ} {item : α} (isItem : items[i]? = some item) :
    Yields (readAt items i : Run σ α) fun value => value = item :=
  Yields.lift ⟨item, isItem, rfl⟩

theorem writeAt_yields {items : List α} {i : ℕ} (inside : i < items.length) (item : α) :
    Yields (writeAt items i item : Run σ (List α)) fun value => value = items.set i item :=
  Yields.lift ⟨_, if_pos inside, rfl⟩

theorem subtract_yields {a b : ℕ} (atMost : b ≤ a) :
    Yields (subtract a b : Run σ ℕ) fun value => value = a - b :=
  Yields.lift ⟨_, if_pos atMost, rfl⟩

theorem changeSlice_yields {front slice back changed : List α}
    {change : List α → Option (List α)} (isChanged : change slice = some changed) :
    Yields (changeSlice (front ++ (slice ++ back)) front.length (front.length + slice.length)
      change : Run σ (List α)) fun value => value = front ++ (changed ++ back) := by
  refine Yields.lift ⟨_, ?_, rfl⟩
  have slices : ((front ++ (slice ++ back)).take (front.length + slice.length)).drop
      front.length = slice := by
    rw [List.take_length_add_append, List.drop_left, List.take_left]
  have behind : (front ++ (slice ++ back)).drop (front.length + slice.length) = back := by
    rw [← List.drop_drop, List.drop_left, List.drop_left]
  rw [slices, isChanged, behind, List.take_left, if_pos]
  · rfl
  · rw [List.length_append, List.length_append]
    omega

theorem rotateLeft_append (front back : List α) :
    rotateLeft front.length (front ++ back) = some (back ++ front) := by
  unfold rotateLeft
  rw [if_pos (by rw [List.length_append]; omega), List.drop_left, List.take_left]

theorem rotateRight_append (front : List α) (item : α) :
    rotateRight 1 (front ++ [item]) = some (item :: front) := by
  have length : (front ++ [item]).length - 1 = front.length := by
    rw [List.length_append, List.length_singleton]
    omega
  unfold rotateRight
  rw [if_pos (by rw [List.length_append, List.length_singleton]; omega), length,
    rotateLeft_append]
  rfl

/-! ### Insertion -/

structure InsertedAt (cmp : Comparison α σ) (item : α) (front back : List α) : Prop where
  lessThan : ∀ b ∈ back, MayBeLess cmp item b
  notLessThan : ∀ a ∈ front.getLast?, MayBeNotLess cmp item a

theorem insertionPoint_yields {front rest : List α} {item : α} {place : ℕ}
    (inside : place ≤ front.length)
    (lessThan : ∀ b ∈ front.drop place, MayBeLess cmp item b) :
    Yields (insertionPoint cmp (front ++ item :: rest) front.length place) fun found =>
      found ≤ front.length ∧ InsertedAt cmp item (front.take found) (front.drop found) := by
  induction place with
  | zero =>
      refine Yields.pure ⟨Nat.zero_le _, lessThan, ?_⟩
      rw [List.take_zero]
      exact fun a isLast => nomatch isLast
  | succ place ih =>
      have isBefore : (front ++ item :: rest)[place]? = some front[place] := by
        rw [List.getElem?_append_left (by omega), List.getElem?_eq_getElem]
      have isItem : (front ++ item :: rest)[front.length]? = some item := by
        rw [List.getElem?_append_right (Nat.le_refl _), Nat.sub_self]
        rfl
      unfold insertionPoint
      refine Yields.bind (readAt_yields isItem) ?_
      rintro _ rfl
      refine Yields.bind (readAt_yields isBefore) ?_
      rintro _ rfl
      refine Yields.bind (compareBy_yields _ _) ?_
      intro answer possible
      split
      · rename_i less
        refine ih (by omega) ?_
        rw [List.drop_eq_getElem_cons (by omega)]
        exact List.forall_mem_cons.mpr ⟨possible.1 less, lessThan⟩
      · rename_i notLess
        refine Yields.pure ⟨inside, lessThan, ?_⟩
        intro a isLast
        rw [List.take_succ_eq_append_getElem (by omega), List.getLast?_concat] at isLast
        obtain rfl := Option.some.inj isLast
        exact possible.2 notLess

theorem insertItem_yields (front rest : List α) (item : α) :
    Yields (insertItem cmp (front ++ item :: rest) front.length) fun changed =>
      ∃ before behind, front = before ++ behind ∧ InsertedAt cmp item before behind ∧
        changed = before ++ (item :: behind) ++ rest := by
  unfold insertItem
  refine Yields.bind (insertionPoint_yields (Nat.le_refl _) ?_) ?_
  · rw [List.drop_length]
    exact fun b isIn => nomatch isIn
  · rintro place ⟨inside, isInserted⟩
    have run : front ++ item :: rest =
        front.take place ++ ((front.drop place ++ [item]) ++ rest) := by
      rw [List.append_assoc, ← List.append_assoc, List.take_append_drop]
      rfl
    have start : place = (front.take place).length := by
      rw [List.length_take]
      omega
    have stop : front.length + 1 =
        (front.take place).length + (front.drop place ++ [item]).length := by
      rw [List.length_append, List.length_take, List.length_drop, List.length_singleton]
      omega
    have changed := @changeSlice_yields _ σ (front.take place) _ rest _ _
      (rotateRight_append (front.drop place) item)
    rw [← run, ← stop, ← start] at changed
    refine changed.mono ?_
    rintro value rfl
    refine ⟨front.take place, front.drop place, (List.take_append_drop _ _).symm, isInserted, ?_⟩
    rw [List.append_assoc]

/-- What holds of nothing, and still holds when an item has been inserted. -/
structure SurvivesInsertion (cmp : Comparison α σ) (P : List α → List α → Prop) : Prop where
  nil : P [] []
  insert : ∀ {input before behind : List α} {item : α}, P input (before ++ behind) →
    InsertedAt cmp item before behind → P (input ++ [item]) (before ++ item :: behind)

section

variable {P : List α → List α → Prop}

theorem insertItems_yields (survives : SurvivesInsertion cmp P) {input front : List α}
    (holds : P input front) (rest : List α) :
    Yields (insertItems cmp front.length rest.length (front ++ rest)) fun sorted =>
      sorted.length = front.length + rest.length ∧ P (input ++ rest) sorted := by
  induction rest generalizing input front with
  | nil =>
      refine Yields.pure ?_
      rw [List.append_nil, List.append_nil]
      exact ⟨rfl, holds⟩
  | cons item rest ih =>
      rw [List.length_cons, insertItems]
      refine Yields.bind (insertItem_yields front rest item) ?_
      rintro changed ⟨before, behind, rfl, isInserted, rfl⟩
      have length : (before ++ behind).length + 1 = (before ++ item :: behind).length := by
        rw [List.length_append, List.length_append, List.length_cons]
        omega
      rw [length]
      refine (ih (survives.insert holds isInserted)).mono ?_
      rintro sorted ⟨sortedLength, isSorted⟩
      rw [List.append_assoc] at isSorted
      exact ⟨by omega, isSorted⟩

theorem insertionSort_yields (survives : SurvivesInsertion cmp P) (run : List α) :
    Yields (insertionSort cmp run) fun sorted => sorted.length = run.length ∧ P run sorted := by
  unfold insertionSort
  cases run with
  | nil => exact Yields.pure ⟨rfl, survives.nil⟩
  | cons item rest =>
      have single : P [item] [item] := by
        have inserted : InsertedAt cmp item [] [] :=
          ⟨fun b isIn => (nomatch isIn), fun a isLast => (nomatch isLast)⟩
        exact @SurvivesInsertion.insert _ _ _ _ survives [] [] [] item survives.nil inserted
      refine (insertItems_yields survives single rest).mono ?_
      rintro sorted ⟨length, isSorted⟩
      refine ⟨?_, isSorted⟩
      rw [length, List.length_cons, List.length_cons, List.length_nil]
      omega

/-! ### Blocks -/

/-- Two lists, cut into blocks of a width and a last one that may be shorter, with the
property for each block. -/
inductive Blocks (P : List α → List α → Prop) (width : ℕ) : List α → List α → Prop
  | last {input output : List α} (short : output.length ≤ width)
      (length : output.length = input.length) (holds : P input output) : Blocks P width input output
  | block {input output inputs outputs : List α} (full : output.length = width)
      (length : output.length = input.length) (holds : P input output)
      (later : Blocks P width inputs outputs) :
      Blocks P width (input ++ inputs) (output ++ outputs)

theorem Blocks.length_eq {width : ℕ} {input output : List α} (blocks : Blocks P width input output) :
    output.length = input.length := by
  induction blocks with
  | last short length holds => exact length
  | block full length holds later ih =>
      rw [List.length_append, List.length_append, length, ih]

theorem Blocks.whole {width : ℕ} {input output : List α}
    (blocks : Blocks P width input output) (wide : output.length ≤ width) : P input output := by
  cases blocks with
  | last short length holds => exact holds
  | @block input output inputs outputs full length holds later =>
      have lengths := later.length_eq
      rw [List.length_append] at wide
      obtain rfl : outputs = [] := List.length_eq_zero_iff.mp (by omega)
      obtain rfl : inputs = [] := List.length_eq_zero_iff.mp lengths.symm
      rw [List.append_nil, List.append_nil]
      exact holds

theorem changeChunks_done {size : ℕ} {change : List α → Run σ (List α)} :
    changeChunks size change [] = pure [] := by
  unfold changeChunks
  exact if_pos (Or.inl rfl)

theorem changeChunks_append {size : ℕ} {change : List α → Run σ (List α)} {first rest : List α}
    (notEmpty : first ≠ []) (positive : 0 < size)
    (isChunk : first.length = size ∨ first.length ≤ size ∧ rest = []) :
    changeChunks size change (first ++ rest) = (do
      let changed ← change first
      let later ← changeChunks size change rest
      return changed ++ later) := by
  have both : (first ++ rest).take size = first ∧ (first ++ rest).drop size = rest := by
    rcases isChunk with rfl | ⟨short, rfl⟩
    · exact ⟨List.take_left, List.drop_left⟩
    · rw [List.append_nil]
      exact ⟨List.take_of_length_le short, List.drop_eq_nil_of_le short⟩
  rw [changeChunks, if_neg, both.1, both.2]
  rintro (isEmpty | isZero)
  · exact notEmpty (List.append_eq_nil_iff.mp isEmpty).1
  · omega

/-- Chunks that are changed so that a property holds of each one are blocks. -/
theorem changeChunks_yields {size : ℕ} {change : List α → Run σ (List α)} (positive : 0 < size)
    (nil : P [] [])
    (changes : ∀ chunk, Yields (change chunk) fun changed =>
      changed.length = chunk.length ∧ P chunk changed) (items : List α) :
    Yields (changeChunks size change items) (Blocks P size items) := by
  induction isLength : items.length using Nat.strongRecOn generalizing items with
  | ind length ih =>
      by_cases isEmpty : items = []
      · rw [isEmpty, changeChunks_done]
        exact Yields.pure (Blocks.last (Nat.zero_le _) rfl nil)
      · have notEmpty : 0 < items.length := List.length_pos_iff.mpr isEmpty
        have firstNotEmpty : items.take size ≠ [] := by
          rw [← List.length_pos_iff, List.length_take]
          omega
        have isChunk : (items.take size).length = size ∨
            (items.take size).length ≤ size ∧ items.drop size = [] := by
          rw [List.drop_eq_nil_iff, List.length_take]
          omega
        have later := ih (items.drop size).length (by rw [List.length_drop]; omega)
          (items.drop size) rfl
        have parts := @changeChunks_append _ _ _ change _ _ firstNotEmpty positive isChunk
        rw [List.take_append_drop] at parts
        rw [parts]
        refine Yields.bind (changes _) ?_
        rintro changed ⟨changedLength, holds⟩
        refine Yields.bind later ?_
        intro rest blocks
        refine Yields.pure ?_
        have front := List.take_append_drop size items
        rcases isChunk with full | ⟨short, isLast⟩
        · have made := Blocks.block (changedLength.trans full) changedLength holds blocks
          rwa [front] at made
        · have lengths := blocks.length_eq
          rw [isLast] at lengths
          obtain rfl := List.length_eq_zero_iff.mp lengths
          rw [isLast, List.append_nil] at front
          rw [List.append_nil, ← front]
          exact Blocks.last (by omega) changedLength holds

/-- A pass that puts two blocks together where there are two. -/
structure Joins (P : List α → List α → Prop) (pass : ℕ → List α → Run σ (List α)) : Prop where
  nil : P [] []
  single : ∀ {width : ℕ} {input output : List α}, output.length ≤ width → P input output →
    Yields (pass width output) fun changed => changed.length = output.length ∧ P input changed
  pair : ∀ {width : ℕ} {leftIn left rightIn right : List α}, 0 < width → left.length = width →
    0 < right.length → right.length ≤ width → P leftIn left → P rightIn right →
    Yields (pass width (left ++ right)) fun changed =>
      changed.length = left.length + right.length ∧ P (leftIn ++ rightIn) changed

variable {pass : ℕ → List α → Run σ (List α)}

theorem Joins.blocks (joins : Joins P pass) {width : ℕ} (positive : 0 < width)
    {input items : List α} (blocks : Blocks P width input items) :
    Yields (changeChunks (2 * width) (pass width) items) (Blocks P (2 * width) input) := by
  have single {input output : List α} (short : output.length ≤ width)
      (length : output.length = input.length) (holds : P input output) :
      Yields (changeChunks (2 * width) (pass width) output) (Blocks P (2 * width) input) := by
    by_cases isEmpty : output = []
    · subst isEmpty
      rw [changeChunks_done]
      exact Yields.pure (Blocks.last (Nat.zero_le _) length holds)
    · rw [← List.append_nil output, changeChunks_append isEmpty (by omega)
        (Or.inr ⟨by omega, rfl⟩), changeChunks_done]
      refine Yields.bind (joins.single short holds) ?_
      rintro changed ⟨changedLength, holds⟩
      refine Yields.bind (Yields.pure rfl) ?_
      rintro _ rfl
      refine Yields.pure ?_
      rw [List.append_nil]
      exact Blocks.last (by omega) (by omega) holds
  induction isLength : items.length using Nat.strongRecOn generalizing input items with
  | ind length ih =>
      cases blocks with
      | last short length holds => exact single short length holds
      | @block leftIn left inputs outputs full leftLength leftHolds later =>
          have leftNotEmpty : left ≠ [] := by
            rw [← List.length_pos_iff]
            omega
          cases later with
          | last short rightLength rightHolds =>
              by_cases isEmpty : outputs = []
              · subst isEmpty
                obtain rfl : inputs = [] := List.length_eq_zero_iff.mp rightLength.symm
                rw [List.append_nil, List.append_nil]
                exact single (by omega) leftLength leftHolds
              · have rightNotEmpty := List.length_pos_iff.mpr isEmpty
                rw [← List.append_nil (left ++ outputs), changeChunks_append
                  (by simp [leftNotEmpty]) (by omega)
                  (Or.inr ⟨by rw [List.length_append]; omega, rfl⟩), changeChunks_done]
                refine Yields.bind (joins.pair positive full rightNotEmpty short leftHolds
                  rightHolds) ?_
                rintro changed ⟨changedLength, holds⟩
                refine Yields.bind (Yields.pure rfl) ?_
                rintro _ rfl
                refine Yields.pure ?_
                rw [List.append_nil]
                exact Blocks.last (by omega) (by rw [List.length_append]; omega) holds
          | @block rightIn right inputs outputs rightFull rightLength rightHolds later =>
              have notEmpty : left ++ right ≠ [] := by simp [leftNotEmpty]
              have isChunk : (left ++ right).length = 2 * width := by
                rw [List.length_append]
                omega
              rw [← List.append_assoc, ← List.append_assoc, changeChunks_append notEmpty (by omega)
                (Or.inl isChunk)]
              refine Yields.bind (joins.pair positive full (by omega) (by omega) leftHolds
                rightHolds) ?_
              rintro changed ⟨changedLength, holds⟩
              have shorter : outputs.length < length := by
                rw [← isLength, List.length_append, List.length_append]
                omega
              refine Yields.bind (ih outputs.length shorter later rfl) ?_
              intro rest blocks
              exact Yields.pure (Blocks.block (by omega) (by rw [List.length_append]; omega) holds
                blocks)

theorem mergePasses_yields (joins : Joins P pass) {len width : ℕ} (positive : 0 < width)
    {input items : List α} (blocks : Blocks P width input items) (isLength : items.length = len) :
    Yields (mergePasses len pass width items) (P input) := by
  induction isLeft : len - width using Nat.strongRecOn generalizing width items with
  | ind left ih =>
      unfold mergePasses
      by_cases more : 0 < width ∧ width < len
      · rw [if_pos more]
        refine Yields.bind (joins.blocks positive blocks) ?_
        intro changed later
        have lengths := blocks.length_eq
        have laterLengths := later.length_eq
        exact ih (len - 2 * width) (by omega) (by omega) later (by omega) rfl
      · rw [if_neg more]
        exact Yields.pure (blocks.whole (by omega))

theorem sortInPasses_yields (survives : SurvivesInsertion cmp P) (joins : Joins P pass)
    {size : ℕ} (positive : 0 < size) (indices : List α) :
    Yields (do
      let sorted ← changeChunks size (insertionSort cmp) indices
      mergePasses indices.length pass size sorted) (P indices) := by
  refine Yields.bind (changeChunks_yields positive survives.nil
    (fun chunk => insertionSort_yields survives chunk) indices) ?_
  intro sorted blocks
  exact mergePasses_yields joins positive blocks blocks.length_eq

end

end Bun.Collections.IndexSort
