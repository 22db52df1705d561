/-
The merge by rotations.

Two runs are cut so that what comes before the cuts is as long as half of both together, and
so that the answers at the cuts put everything before them in front of everything behind.
The parts between change places, and both halves are merged the same way.  An item that is
alone in its run goes to its place at once.
-/

import Bun.Collections.MergeSort

set_option autoImplicit false

namespace Bun.Collections.IndexSort

open Bun.Foundation

variable {α σ : Type} {cmp : Comparison α σ}

/-! ### The trace of a merge by rotations -/

inductive SymMerged (cmp : Comparison α σ) : List α → List α → List α → Prop
  | leftNil (right : List α) : SymMerged cmp [] right right
  | rightNil (left : List α) : SymMerged cmp left [] left
  | first {item : α} {before behind : List α}
      (less : ∀ b ∈ before.getLast?, MayBeLess cmp b item)
      (notLess : ∀ a ∈ behind.head?, MayBeNotLess cmp a item) :
      SymMerged cmp [item] (before ++ behind) (before ++ item :: behind)
  | last {item : α} {before behind : List α}
      (notLess : ∀ b ∈ before.getLast?, MayBeNotLess cmp item b)
      (less : ∀ a ∈ behind.head?, MayBeLess cmp item a) :
      SymMerged cmp (before ++ behind) [item] (before ++ item :: behind)
  | halves {left₁ left₂ right₁ right₂ merged₁ merged₂ : List α}
      (notLess : ∀ l ∈ left₁.getLast?, ∀ r ∈ right₂.head?, MayBeNotLess cmp r l)
      (less : ∀ r ∈ right₁.getLast?, ∀ l ∈ left₂.head?, MayBeLess cmp r l)
      (isFirst : SymMerged cmp left₁ right₁ merged₁)
      (isSecond : SymMerged cmp left₂ right₂ merged₂) :
      SymMerged cmp (left₁ ++ left₂) (right₁ ++ right₂) (merged₁ ++ merged₂)

theorem SymMerged.perm {left right merged : List α} (isMerged : SymMerged cmp left right merged) :
    merged.Perm (left ++ right) := by
  induction isMerged with
  | leftNil right => exact List.Perm.refl _
  | rightNil left => rw [List.append_nil]
  | first less notLess => exact List.perm_middle
  | last notLess less =>
      exact List.perm_middle.trans (List.perm_append_singleton _ _).symm
  | halves notLess less isFirst isSecond ihFirst ihSecond =>
      refine (ihFirst.append ihSecond).trans ?_
      rw [List.append_assoc, List.append_assoc]
      refine List.Perm.append_left _ ?_
      rw [← List.append_assoc, ← List.append_assoc]
      exact List.Perm.append_right _ List.perm_append_comm

section

variable {order : α → α → Ordering}

theorem not_le_of_lt_between (preorder : TotalPreorder order) {low high : List α}
    (lowOrdered : low.Pairwise fun a b => (order a b).isLE = true)
    (highOrdered : high.Pairwise fun a b => (order a b).isLE = true)
    (less : ∀ a ∈ low.getLast?, ∀ b ∈ high.head?, order a b = .lt) :
    ∀ b ∈ high, ∀ a ∈ low, (order b a).isLE = false := by
  intro b inHigh a inLow
  rw [Bool.eq_false_iff]
  intro notAbove
  cases high with
  | nil => exact nomatch inHigh
  | cons head rest =>
      obtain ⟨front, last, isLow⟩ := List.eq_nil_or_concat low |>.resolve_left
        (List.ne_nil_of_mem inLow)
      rw [List.concat_eq_append] at isLow
      subst isLow
      have isLess := less last (by rw [List.getLast?_concat]; rfl) head rfl
      have headLe : (order head b).isLE = true := by
        refine le_of_le_head preorder highOrdered ?_ b inHigh
        intro c isHead
        obtain rfl := Option.some.inj isHead
        rw [preorder.refl head]
        rfl
      have leLast : (order a last).isLE = true := by
        refine le_of_last_le preorder lowOrdered ?_ a inLow
        intro c isLast
        rw [List.getLast?_concat] at isLast
        obtain rfl := Option.some.inj isLast
        rw [preorder.refl last]
        rfl
      have turned := preorder.trans head a last (preorder.trans head b a headLe notAbove) leLast
      rw [preorder.swap last head, isLess] at turned
      exact nomatch turned

theorem le_of_not_le (preorder : TotalPreorder order) {a b : α}
    (notLe : (order b a).isLE = false) : (order a b).isLE = true := by
  rcases preorder.total a b with le | le
  · exact le
  · rw [notLe] at le
    exact nomatch le

theorem SymMerged.stable (answers : Answers cmp order) (preorder : TotalPreorder order)
    {left right merged : List α} (isMerged : SymMerged cmp left right merged)
    (leftOrdered : left.Pairwise fun a b => (order a b).isLE = true)
    (rightOrdered : right.Pairwise fun a b => (order a b).isLE = true) :
    StablySorted order (left ++ right) merged := by
  induction isMerged with
  | leftNil right => exact ⟨rightOrdered, fun _ => rfl⟩
  | rightNil left => exact ⟨leftOrdered, fun _ => by rw [List.append_nil]⟩
  | @first item before behind less notLess =>
      have ⟨beforeOrdered, behindOrdered, between⟩ := List.pairwise_append.mp rightOrdered
      have apart := @not_le_of_lt_between _ _ preorder _ [item] beforeOrdered
        (List.pairwise_singleton _ _) (by
          intro a isLast b isItem
          obtain rfl := Option.some.inj isItem
          exact (less a isLast).of_answers answers)
      have behindAbove := @le_of_le_head _ _ preorder _ behindOrdered item
        (fun b isHead => isLE_of_not_lt preorder ((notLess b isHead).of_answers answers))
      refine @StablySorted.swap _ _ preorder [] [item] before _ _ apart
        ⟨?_, fun _ => rfl⟩
      refine List.pairwise_append.mpr ⟨beforeOrdered, List.pairwise_cons.mpr
        ⟨behindAbove, behindOrdered⟩, ?_⟩
      intro a inBefore b isIn
      rcases List.mem_cons.mp isIn with rfl | inBehind
      · exact le_of_not_le preorder (apart b (List.mem_singleton_self _) a inBefore)
      · exact between a inBefore b inBehind
  | @last item before behind notLess less =>
      have ⟨beforeOrdered, behindOrdered, _⟩ := List.pairwise_append.mp leftOrdered
      have apart := @not_le_of_lt_between _ _ preorder [item] _
        (List.pairwise_singleton _ _) behindOrdered (by
          intro a isItem b isHead
          obtain rfl := Option.some.inj isItem
          exact (less b isHead).of_answers answers)
      have isSorted : StablySorted order (before ++ behind) (before ++ behind) :=
        ⟨leftOrdered, fun _ => rfl⟩
      refine isSorted.insert preorder ?_ ?_
      · intro b isIn
        have notLe := apart b isIn item (List.mem_singleton_self _)
        rw [preorder.swap item b] at notLe
        cases isOrder : order item b with
        | lt => rfl
        | eq =>
            rw [isOrder] at notLe
            exact nomatch notLe
        | gt =>
            rw [isOrder] at notLe
            exact nomatch notLe
      · exact le_of_last_le preorder beforeOrdered
          (fun a isLast => isLE_of_not_lt preorder ((notLess a isLast).of_answers answers))
  | @halves left₁ left₂ right₁ right₂ merged₁ merged₂ notLess less isFirst isSecond ihFirst
      ihSecond =>
      have ⟨left₁Ordered, left₂Ordered, leftBetween⟩ := List.pairwise_append.mp leftOrdered
      have ⟨right₁Ordered, right₂Ordered, rightBetween⟩ := List.pairwise_append.mp rightOrdered
      have apart := not_le_of_lt_between preorder right₁Ordered left₂Ordered
        (fun r isLast l isHead => (less r isLast l isHead).of_answers answers)
      have outer : ∀ l ∈ left₁, ∀ r ∈ right₂, (order l r).isLE = true := by
        intro l inLeft r inRight
        refine le_of_le_head preorder right₂Ordered ?_ r inRight
        intro head isHead
        refine le_of_last_le preorder left₁Ordered ?_ l inLeft
        intro last isLast
        exact isLE_of_not_lt preorder ((notLess last isLast head isHead).of_answers answers)
      refine StablySorted.swap preorder apart ?_
      refine (ihFirst left₁Ordered right₁Ordered).append (ihSecond left₂Ordered right₂Ordered) ?_
      intro a inFirst b inSecond
      have aPart := List.mem_append.mp (isFirst.perm.mem_iff.mp inFirst)
      have bPart := List.mem_append.mp (isSecond.perm.mem_iff.mp inSecond)
      rcases aPart with aLeft | aRight
      · rcases bPart with bLeft | bRight
        · exact leftBetween a aLeft b bLeft
        · exact outer a aLeft b bRight
      · rcases bPart with bLeft | bRight
        · exact le_of_not_le preorder (apart b bLeft a aRight)
        · exact rightBetween a aRight b bRight

end

/-! ### Searching -/

/-- Where a search ends, the answers on both sides of the place are known, if there are
places. -/
theorem bisectBy_yields {goesBehind : ℕ → Run σ Bool} {answered : ℕ → Bool → Prop} {low high : ℕ}
    (ordered : low ≤ high)
    (asks : ∀ place, low ≤ place → place < high → Yields (goesBehind place) (answered place)) :
    Yields (bisectBy goesBehind low high) fun place =>
      low ≤ place ∧ place ≤ high ∧ (low < place → answered (place - 1) true) ∧
        (place < high → answered place false) := by
  induction isSize : high - low using Nat.strongRecOn generalizing low high with
  | ind size ih =>
      rw [bisectBy]
      by_cases more : low < high
      · rw [if_pos more]
        refine Yields.bind (asks ((low + high) / 2) (by omega) (by omega)) ?_
        intro behind answer
        cases behind with
        | true =>
            rw [if_pos rfl]
            refine (ih (high - ((low + high) / 2 + 1)) (by omega) (by omega)
              (fun place above below => asks place (by omega) below) rfl).mono ?_
            rintro place ⟨above, below, before, after⟩
            refine ⟨by omega, below, ?_, after⟩
            intro _
            by_cases further : (low + high) / 2 + 1 < place
            · exact before further
            · obtain rfl : place = (low + high) / 2 + 1 := by omega
              exact answer
        | false =>
            rw [if_neg Bool.false_ne_true]
            refine (ih ((low + high) / 2 - low) (by omega) (by omega)
              (fun place above below => asks place above (by omega)) rfl).mono ?_
            rintro place ⟨above, below, before, after⟩
            refine ⟨above, by omega, before, ?_⟩
            intro _
            by_cases further : place < (low + high) / 2
            · exact after further
            · obtain rfl : place = (low + high) / 2 := by omega
              exact answer
      · rw [if_neg more]
        exact Yields.pure ⟨Nat.le_refl _, ordered, fun is => absurd is (by omega),
          fun is => absurd is (by omega)⟩

theorem isLess_yields {both : List α} {i j : ℕ} {x y : α} (isFirst : both[i]? = some x)
    (isSecond : both[j]? = some y) :
    Yields (isLess cmp both i j) fun less =>
      (less = true → MayBeLess cmp x y) ∧ (less = false → MayBeNotLess cmp x y) := by
  unfold isLess
  refine Yields.bind (readAt_yields isFirst) ?_
  rintro x rfl
  refine Yields.bind (readAt_yields isSecond) ?_
  rintro y rfl
  refine Yields.bind (compareBy_yields _ _) ?_
  intro answer possible
  refine Yields.pure ⟨?_, ?_⟩
  · intro isLess
    exact possible.1 (eq_of_beq isLess)
  · intro isNot
    exact possible.2 (by simpa using isNot)

/-! ### One item on a side -/

theorem mergeFirst_yields (item : α) (right : List α) :
    Yields (mergeFirst cmp (right.length + 1) (item :: right)) (SymMerged cmp [item] right) := by
  unfold mergeFirst
  have asks (place : ℕ) (above : 1 ≤ place) (below : place < right.length + 1) :
      Yields (isLess cmp (item :: right) place 0) fun less => ∀ other ∈ right[place - 1]?,
        (less = true → MayBeLess cmp other item) ∧ (less = false → MayBeNotLess cmp other item) := by
    have isOther : (item :: right)[place]? = some right[place - 1] := by
      rw [List.getElem?_cons, if_neg (by omega), List.getElem?_eq_getElem (by omega)]
    refine (isLess_yields isOther (y := item) rfl).mono ?_
    intro less possible other isIt
    rw [List.getElem?_eq_getElem (by omega)] at isIt
    obtain rfl := Option.some.inj isIt
    exact possible
  refine Yields.bind (bisectBy_yields (by omega) asks) ?_
  rintro place ⟨above, below, before, after⟩
  have parts := List.take_append_drop (place - 1) right
  have beforeLength : (right.take (place - 1)).length = place - 1 := by
    rw [List.length_take]
    omega
  have changed := @changeSlice_yields _ σ [] _ (right.drop (place - 1)) _ _
    (rotateLeft_append [item] (right.take (place - 1)))
  have stop : ([] : List α).length + ([item] ++ right.take (place - 1)).length = place := by
    rw [List.length_append, beforeLength, List.length_singleton, List.length_nil]
    omega
  rw [stop, List.append_assoc, parts] at changed
  refine changed.mono ?_
  rintro merged rfl
  have isMerged := @SymMerged.first _ _ cmp item (right.take (place - 1))
    (right.drop (place - 1)) ?_ ?_
  · rw [parts] at isMerged
    rw [List.nil_append, List.append_assoc]
    exact isMerged
  · intro b isLast
    have some := List.length_pos_iff.mpr (List.ne_nil_of_mem (List.mem_of_getLast? isLast))
    refine (before (by omega) b ?_).1 rfl
    rw [List.getLast?_eq_getElem?, List.getElem?_take, beforeLength, if_pos (by omega)] at isLast
    exact isLast
  · intro a isHead
    rw [List.head?_drop] at isHead
    have inside := (List.getElem?_eq_some_iff.mp isHead).1
    exact (after (by omega) a isHead).2 rfl

theorem mergeLast_yields (left : List α) (item : α) :
    Yields (mergeLast cmp (left.length + 1) left.length (left ++ [item]))
      (SymMerged cmp left [item]) := by
  unfold mergeLast
  have asks (place : ℕ) (above : 0 ≤ place) (below : place < left.length) :
      Yields (do return !(← isLess cmp (left ++ [item]) left.length place) : Run σ Bool)
        fun behind => ∀ other ∈ left[place]?,
          (behind = true → MayBeNotLess cmp item other) ∧
            (behind = false → MayBeLess cmp item other) := by
    have isOther : (left ++ [item])[place]? = some left[place] := by
      rw [List.getElem?_append_left below, List.getElem?_eq_getElem below]
    have isItem : (left ++ [item])[left.length]? = some item := by
      rw [List.getElem?_append_right (Nat.le_refl _), Nat.sub_self]
      rfl
    refine Yields.bind (isLess_yields isItem isOther) ?_
    intro less possible
    refine Yields.pure ?_
    intro other isIt
    rw [List.getElem?_eq_getElem below] at isIt
    obtain rfl := Option.some.inj isIt
    exact ⟨fun is => possible.2 (by simpa using is), fun is => possible.1 (by simpa using is)⟩
  refine Yields.bind (bisectBy_yields (Nat.zero_le _) asks) ?_
  rintro place ⟨_, below, before, after⟩
  have parts := List.take_append_drop place left
  have beforeLength : (left.take place).length = place := by
    rw [List.length_take]
    omega
  have changed := @changeSlice_yields _ σ (left.take place) _ [] _ _
    (rotateRight_append (left.drop place) item)
  have stop : (left.take place).length + (left.drop place ++ [item]).length = left.length + 1 := by
    rw [List.length_append, beforeLength, List.length_singleton, List.length_drop]
    omega
  rw [stop, beforeLength, List.append_nil, ← List.append_assoc, parts] at changed
  refine changed.mono ?_
  rintro merged rfl
  have isMerged := @SymMerged.last _ _ cmp item (left.take place)
    (left.drop place) ?_ ?_
  · rw [parts] at isMerged
    rw [List.append_nil]
    exact isMerged
  · intro b isLast
    have some := List.length_pos_iff.mpr (List.ne_nil_of_mem (List.mem_of_getLast? isLast))
    refine (before (by omega) b ?_).1 rfl
    rw [List.getLast?_eq_getElem?, List.getElem?_take, beforeLength, if_pos (by omega)] at isLast
    exact isLast
  · intro a isHead
    rw [List.head?_drop] at isHead
    have inside := (List.getElem?_eq_some_iff.mp isHead).1
    exact (after inside a isHead).2 rfl

/-! ### Both halves -/

/-- Where both runs are cut: `start` items of the left one go to the first half, and as many
of the right one as the half is longer. -/
structure CutAt (cmp : Comparison α σ) (left right : List α) (half start : ℕ) : Prop where
  inLeft : start ≤ left.length
  inHalf : start ≤ half
  inRight : half - start ≤ right.length
  notLess : ∀ l ∈ (left.take start).getLast?, ∀ r ∈ (right.drop (half - start)).head?,
    MayBeNotLess cmp r l
  less : ∀ r ∈ (right.take (half - start)).getLast?, ∀ l ∈ (left.drop start).head?,
    MayBeLess cmp r l

theorem rotationStart_yields {left right : List α} {len : ℕ}
    (isLength : len = left.length + right.length) (leftSome : 0 < left.length)
    (rightSome : 0 < right.length) :
    Yields (rotationStart cmp len left.length (left ++ right))
      (CutAt cmp left right (len / 2)) := by
  -- The bounds of the search, with what is true at each of them.
  have ⟨low, high, isLow, isHigh, ordered, highLeft, highHalf, lowRight, atLow, atHigh⟩ :
      ∃ low high,
        Yields ((if left.length > len / 2 then subtract (len / 2 + left.length) len else pure 0) :
          Run σ ℕ) (fun start => start = low) ∧
        (if left.length > len / 2 then len / 2 else left.length) = high ∧
        low ≤ high ∧ high ≤ left.length ∧ high ≤ len / 2 ∧ len / 2 - low ≤ right.length ∧
        (low = 0 ∨ len / 2 - low = right.length) ∧ (high = len / 2 ∨ high = left.length) := by
    by_cases isLong : left.length > len / 2
    · refine ⟨len / 2 + left.length - len, len / 2, ?_, if_pos isLong, by omega, by omega,
        Nat.le_refl _, by omega, Or.inr (by omega), Or.inl rfl⟩
      rw [if_pos isLong]
      exact subtract_yields (by omega)
    · refine ⟨0, left.length, ?_, if_neg isLong, Nat.zero_le _, Nat.le_refl _, by omega, by omega,
        Or.inl rfl, Or.inr rfl⟩
      rw [if_neg isLong]
      exact Yields.pure rfl
  have asks (place : ℕ) (above : low ≤ place) (below : place < high) :
      Yields (do
        let last ← subtract (len / 2 + left.length) 1
        let opposite ← subtract last place
        return !(← isLess cmp (left ++ right) opposite place) : Run σ Bool) fun behind =>
        ∀ l ∈ left[place]?, ∀ r ∈ right[len / 2 - 1 - place]?,
          (behind = true → MayBeNotLess cmp r l) ∧ (behind = false → MayBeLess cmp r l) := by
    have inRight : len / 2 - 1 - place < right.length := by omega
    have inLeft : place < left.length := by omega
    have isLeft : (left ++ right)[place]? = some left[place] := by
      rw [List.getElem?_append_left inLeft, List.getElem?_eq_getElem inLeft]
    have isRight : (left ++ right)[len / 2 + left.length - 1 - place]? =
        some right[len / 2 - 1 - place] := by
      have shift : len / 2 + left.length - 1 - place - left.length = len / 2 - 1 - place := by omega
      rw [List.getElem?_append_right (by omega), shift, List.getElem?_eq_getElem inRight]
    refine Yields.bind (subtract_yields (by omega)) ?_
    rintro _ rfl
    refine Yields.bind (subtract_yields (by omega)) ?_
    rintro _ rfl
    refine Yields.bind (isLess_yields isRight isLeft) ?_
    intro less possible
    refine Yields.pure ?_
    intro l isL r isR
    rw [List.getElem?_eq_getElem inLeft] at isL
    rw [List.getElem?_eq_getElem inRight] at isR
    obtain rfl := Option.some.inj isL
    obtain rfl := Option.some.inj isR
    exact ⟨fun is => possible.2 (by simpa using is), fun is => possible.1 (by simpa using is)⟩
  unfold rotationStart
  dsimp only
  refine Yields.bind isLow ?_
  rintro _ rfl
  rw [isHigh]
  refine (bisectBy_yields ordered asks).mono ?_
  rintro start ⟨above, below, before, after⟩
  refine ⟨by omega, by omega, by omega, ?_, ?_⟩
  · intro l isLast r isHead
    have someLeft := List.length_pos_iff.mpr (List.ne_nil_of_mem (List.mem_of_getLast? isLast))
    have someRight := List.length_pos_iff.mpr (List.ne_nil_of_mem (List.mem_of_mem_head? isHead))
    rw [List.length_take] at someLeft
    rw [List.length_drop] at someRight
    have opposite : len / 2 - 1 - (start - 1) = len / 2 - start := by omega
    refine (before (by omega) l ?_ r ?_).1 rfl
    · rw [List.getLast?_eq_getElem?, List.getElem?_take, List.length_take,
        if_pos (by omega)] at isLast
      have last : min start left.length - 1 = start - 1 := by omega
      rwa [last] at isLast
    · rw [opposite, ← List.head?_drop]
      exact isHead
  · intro r isLast l isHead
    have someRight := List.length_pos_iff.mpr (List.ne_nil_of_mem (List.mem_of_getLast? isLast))
    have someLeft := List.length_pos_iff.mpr (List.ne_nil_of_mem (List.mem_of_mem_head? isHead))
    rw [List.length_take] at someRight
    rw [List.length_drop] at someLeft
    refine (after (by omega) l ?_ r ?_).2 rfl
    · rw [← List.head?_drop]
      exact isHead
    · rw [List.getLast?_eq_getElem?, List.getElem?_take, List.length_take,
        if_pos (by omega)] at isLast
      have last : min (len / 2 - start) right.length - 1 = len / 2 - 1 - start := by omega
      rwa [last] at isLast

theorem rotation_yields {left right : List α} {half start : ℕ}
    (isCut : CutAt cmp left right half start) :
    Yields ((if start < left.length ∧ left.length < half + left.length - start then
        changeSlice (left ++ right) start (half + left.length - start)
          (rotateLeft (left.length - start))
      else pure (left ++ right)) : Run σ (List α)) fun both =>
      both = (left.take start ++ right.take (half - start)) ++
        (left.drop start ++ right.drop (half - start)) := by
  have inLeft := isCut.inLeft
  have inHalf := isCut.inHalf
  have inRight := isCut.inRight
  have startLength : (left.take start).length = start := by
    rw [List.length_take]
    omega
  by_cases moves : start < left.length ∧ left.length < half + left.length - start
  · rw [if_pos moves]
    have changed := @changeSlice_yields _ σ (left.take start) _
      (right.drop (half - start)) _ _
      (rotateLeft_append (left.drop start) (right.take (half - start)))
    have stop : (left.take start).length + (left.drop start ++ right.take (half - start)).length =
        half + left.length - start := by
      rw [List.length_append, startLength, List.length_drop, List.length_take]
      omega
    have both : left.take start ++ (left.drop start ++ right.take (half - start) ++
        right.drop (half - start)) = left ++ right := by
      rw [List.append_assoc, List.take_append_drop, ← List.append_assoc, List.take_append_drop]
    rw [stop, startLength, List.length_drop, both] at changed
    refine changed.mono ?_
    rintro value rfl
    rw [List.append_assoc, List.append_assoc]
  · rw [if_neg moves]
    refine Yields.pure ?_
    by_cases leftEmpty : left.drop start = []
    · have whole : left.take start = left := by
        rw [← List.take_append_drop start left, leftEmpty, List.append_nil, List.take_take, Nat.min_self]
      rw [leftEmpty, List.nil_append, List.append_assoc, List.take_append_drop, whole]
    · rw [List.drop_eq_nil_iff] at leftEmpty
      have none : half - start = 0 := by omega
      rw [none, List.take_zero, List.append_nil, List.drop_zero, ← List.append_assoc,
        List.take_append_drop]

theorem symMergeOf_yields {len : ℕ} {left right : List α}
    (isLength : len = left.length + right.length) (leftSome : left ≠ []) (rightSome : right ≠ []) :
    Yields (symMergeOf cmp len (left ++ right) left.length) (SymMerged cmp left right) := by
  induction len using Nat.strongRecOn generalizing left right with
  | ind len ih =>
      have leftPositive := List.length_pos_iff.mpr leftSome
      have rightPositive := List.length_pos_iff.mpr rightSome
      rw [symMergeOf]
      by_cases oneLeft : left.length = 1
      · rw [if_pos oneLeft]
        obtain ⟨item, rfl⟩ := List.length_eq_one_iff.mp oneLeft
        rw [isLength, oneLeft, Nat.add_comm]
        exact mergeFirst_yields item right
      · rw [if_neg oneLeft]
        by_cases oneRight : left.length + 1 = len
        · rw [if_pos oneRight, ← oneRight]
          obtain ⟨item, rfl⟩ := List.length_eq_one_iff.mp (by omega : right.length = 1)
          exact mergeLast_yields left item
        · rw [if_neg oneRight]
          refine Yields.bind (rotationStart_yields isLength leftPositive rightPositive) ?_
          intro start isCut
          have inLeft := isCut.inLeft
          have inHalf := isCut.inHalf
          have inRight := isCut.inRight
          refine Yields.bind (subtract_yields (by omega)) ?_
          rintro _ rfl
          refine Yields.bind (rotation_yields isCut) ?_
          rintro _ rfl
          have leftLength : (left.take start).length = start := by
            rw [List.length_take]
            omega
          have rightLength : (right.take (len / 2 - start)).length = len / 2 - start := by
            rw [List.length_take]
            omega
          have firstLength : (left.take start ++ right.take (len / 2 - start)).length = len / 2 := by
            rw [List.length_append, leftLength, rightLength]
            omega
          dsimp only
          rw [List.take_left' firstLength, List.drop_left' firstLength]
          -- Either half is merged again, unless one of its parts is empty.
          have mergesFirst : Yields
              ((if _inFirst : 0 < start ∧ start < len / 2 then
                symMergeOf cmp (len / 2) (left.take start ++ right.take (len / 2 - start)) start
              else pure (left.take start ++ right.take (len / 2 - start))) : Run σ (List α))
              (SymMerged cmp (left.take start) (right.take (len / 2 - start))) := by
            by_cases inFirst : 0 < start ∧ start < len / 2
            · rw [dif_pos inFirst]
              have merges := @ih (len / 2) (by omega) (left.take start)
                (right.take (len / 2 - start)) (by omega)
                (by rw [← List.length_pos_iff]; omega) (by rw [← List.length_pos_iff]; omega)
              rwa [leftLength] at merges
            · rw [dif_neg inFirst]
              refine Yields.pure ?_
              by_cases isZero : start = 0
              · rw [isZero, List.take_zero, List.nil_append]
                exact SymMerged.leftNil _
              · have none : len / 2 - start = 0 := by omega
                rw [none, List.take_zero, List.append_nil]
                exact SymMerged.rightNil _
          have mergesSecond : Yields
              ((if _inSecond : len / 2 < len / 2 + left.length - start ∧
                  len / 2 + left.length - start < len then
                symMergeOf cmp (len - len / 2) (left.drop start ++ right.drop (len / 2 - start))
                  (len / 2 + left.length - start - len / 2)
              else pure (left.drop start ++ right.drop (len / 2 - start))) : Run σ (List α))
              (SymMerged cmp (left.drop start) (right.drop (len / 2 - start))) := by
            have leftRest : (left.drop start).length = len / 2 + left.length - start - len / 2 := by
              rw [List.length_drop]
              omega
            have rightRest : (right.drop (len / 2 - start)).length =
                right.length - (len / 2 - start) := List.length_drop
            by_cases inSecond : len / 2 < len / 2 + left.length - start ∧
                len / 2 + left.length - start < len
            · rw [dif_pos inSecond]
              have merges := @ih (len - len / 2) (by omega) (left.drop start)
                (right.drop (len / 2 - start)) (by omega)
                (by rw [← List.length_pos_iff]; omega) (by rw [← List.length_pos_iff]; omega)
              rwa [leftRest] at merges
            · rw [dif_neg inSecond]
              refine Yields.pure ?_
              by_cases noLeft : left.drop start = []
              · rw [noLeft, List.nil_append]
                exact SymMerged.leftNil _
              · have someLeft := List.length_pos_iff.mpr noLeft
                have noRight : right.drop (len / 2 - start) = [] :=
                  List.length_eq_zero_iff.mp (by omega)
                rw [noRight, List.append_nil]
                exact SymMerged.rightNil _
          refine Yields.bind mergesFirst ?_
          intro merged₁ isFirst
          refine Yields.bind mergesSecond ?_
          intro merged₂ isSecond
          refine Yields.pure ?_
          have isMerged := SymMerged.halves isCut.notLess isCut.less isFirst isSecond
          rwa [List.take_append_drop, List.take_append_drop] at isMerged

/-! ### The sort -/

/-- A property that survives merging by rotations holds of what the passes join. -/
theorem symMerge_joins {P : List α → List α → Prop} (nil : P [] [])
    (survives : ∀ {leftIn left rightIn right merged : List α}, P leftIn left → P rightIn right →
      SymMerged cmp left right merged → P (leftIn ++ rightIn) merged) :
    Joins P fun width (both : List α) =>
      if width < both.length then symMerge cmp width both else pure both where
  nil := nil
  single := by
    intro width input output short holds
    rw [if_neg (by omega)]
    exact Yields.pure ⟨rfl, holds⟩
  pair := by
    intro width leftIn left rightIn right positive full rightSome _ leftHolds rightHolds
    subst full
    rw [if_pos (by rw [List.length_append]; omega)]
    unfold symMerge
    refine (symMergeOf_yields List.length_append (List.length_pos_iff.mp positive)
      (List.length_pos_iff.mp rightSome)).mono ?_
    intro merged isMerged
    refine ⟨?_, survives leftHolds rightHolds isMerged⟩
    rw [isMerged.perm.length_eq, List.length_append]

/-- Whatever the comparison answers, the sort ends with the items it was given, and it is the
stable sort by a total preorder. -/
theorem goStableSort_sorts (cmp : Comparison α σ) (indices : List α) :
    Yields (goStableSort cmp indices) (fun sorted => sorted.Perm indices) ∧
    ∀ order, Answers cmp order → TotalPreorder order →
      Yields (goStableSort cmp indices) fun sorted =>
        sorted = indices.mergeSort fun a b => (order a b).isLE := by
  constructor
  · refine sortInPasses_yields survivesInsertion_perm (symMerge_joins (List.Perm.refl _) ?_)
      (by decide) indices
    intro leftIn left rightIn right merged leftPerm rightPerm isMerged
    exact isMerged.perm.trans (leftPerm.append rightPerm)
  · intro order answers preorder
    have sorts : Yields (goStableSort cmp indices) (StablySorted order indices) := by
      refine sortInPasses_yields (survivesInsertion_stable answers preorder)
        (symMerge_joins StablySorted.nil ?_) (by decide) indices
      intro leftIn left rightIn right merged leftSorted rightSorted isMerged
      exact leftSorted.of_parts rightSorted
        (isMerged.stable answers preorder leftSorted.ordered rightSorted.ordered)
    refine sorts.mono ?_
    intro sorted isSorted
    exact isSorted.eq_mergeSort preorder

/-- A comparison by value alone sorts more numbers than one run of insertions takes. -/
theorem goStableSort_sorts_descending :
    Yields (goStableSort (fun a b (s : ℕ) => (compare a b, s + 1)) (List.range 64).reverse)
      fun sorted => sorted = (List.range 64).reverse.mergeSort fun a b : ℕ => (compare a b).isLE :=
  (goStableSort_sorts (fun a b (s : ℕ) => (compare a b, s + 1)) (List.range 64).reverse).2
    compare (fun _ _ _ => rfl)
    (@Keyed.totalPreorder _ _ _ _ id fun a b => compares_compare a b)

end Bun.Collections.IndexSort
