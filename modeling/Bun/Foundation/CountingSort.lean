/-
Sorting into buckets by counting.

The members of every bucket are counted, the counts are summed up to the ends of the buckets, and
every bucket is filled from its end.  Each placed member moves the end of its bucket down by one,
so in the end all of them have become starts.  `Filled` says how far they are on the way.

The keys are natural numbers below a bound; the values are of any type.
-/

import Mathlib.Data.Nat.Notation
import Mathlib.Tactic.Common

set_option autoImplicit false

namespace Bun.Foundation.CountingSort

variable {β : Type}

/-! ### The loops -/

def countKeys (points : List (ℕ × β)) (offsets : List ℕ) : List ℕ :=
  points.foldl (fun offsets point => offsets.modify point.1 (· + 1)) offsets

/-- Adds to each of the first `count` offsets behind the first one the offset before it. -/
def sumUp (count : ℕ) (offsets : List ℕ) : List ℕ :=
  (List.range count).foldl
    (fun offsets i => offsets.set (i + 1) (offsets.getD (i + 1) 0 + offsets.getD i 0)) offsets

def place (point : ℕ × β) (state : List ℕ × List β) : List ℕ × List β :=
  (state.1.set point.1 (state.1.getD point.1 0 - 1),
    state.2.set (state.1.getD point.1 0 - 1) point.2)

def fill (points : List (ℕ × β)) (state : List ℕ × List β) : List ℕ × List β :=
  points.foldr place state

/-- The values `[start, start + count)`. -/
def segment (values : List β) (start count : ℕ) : List β :=
  (values.drop start).take count

/-- Rearranges the values `[start, stop)` in place. -/
def sortRange (rearrange : List β → List β) (values : List β) (start stop : ℕ) : List β :=
  values.take start ++ (rearrange (segment values start (stop - start)) ++ values.drop stop)

def sortBuckets (rearrange : List β → List β) (offsets : List ℕ) (count : ℕ) (values : List β) :
    List β :=
  (List.range count).foldl
    (fun values key => sortRange rearrange values (offsets.getD key 0) (offsets.getD (key + 1) 0))
    values

/-! ### Buckets -/

def bucket (points : List (ℕ × β)) (key : ℕ) : List β :=
  (points.filter fun point => point.1 = key).map Prod.snd

def startOf (points : List (ℕ × β)) (key : ℕ) : ℕ :=
  points.countP fun point => point.1 < key

theorem mem_bucket {points : List (ℕ × β)} {key : ℕ} {value : β} :
    value ∈ bucket points key ↔ (key, value) ∈ points := by
  unfold bucket
  rw [List.mem_map]
  constructor
  · rintro ⟨point, member, rfl⟩
    rw [List.mem_filter, decide_eq_true_eq] at member
    rw [← member.2]
    exact member.1
  · intro member
    exact ⟨(key, value), List.mem_filter.mpr ⟨member, decide_eq_true rfl⟩, rfl⟩

theorem bucket_append (before after : List (ℕ × β)) (key : ℕ) :
    bucket (before ++ after) key = bucket before key ++ bucket after key := by
  unfold bucket
  rw [List.filter_append, List.map_append]

theorem bucket_cons_same (point : ℕ × β) (rest : List (ℕ × β)) :
    bucket (point :: rest) point.1 = point.2 :: bucket rest point.1 := by
  unfold bucket
  rw [List.filter_cons_of_pos (by simp), List.map_cons]

theorem bucket_cons_other (point : ℕ × β) (rest : List (ℕ × β)) {key : ℕ}
    (different : point.1 ≠ key) : bucket (point :: rest) key = bucket rest key := by
  unfold bucket
  rw [List.filter_cons_of_neg (by simpa using different)]

@[simp] theorem startOf_zero (points : List (ℕ × β)) : startOf points 0 = 0 := by
  unfold startOf
  rw [List.countP_eq_zero]
  intro point _
  simp

theorem startOf_succ (points : List (ℕ × β)) (key : ℕ) :
    startOf points (key + 1) = startOf points key + (bucket points key).length := by
  unfold startOf
  induction points with
  | nil => rfl
  | cons point rest ih =>
      rw [List.countP_cons, List.countP_cons, ih]
      by_cases same : point.1 = key
      · subst same
        rw [bucket_cons_same, List.length_cons, if_pos (by simp), if_neg (by simp)]
        omega
      · rw [bucket_cons_other point rest same]
        by_cases below : point.1 < key
        · rw [if_pos (by simp; omega), if_pos (by simpa using below)]
          omega
        · rw [if_neg (by simp; omega), if_neg (by simpa using below)]
          omega

theorem startOf_mono (points : List (ℕ × β)) {key other : ℕ} (ordered : key ≤ other) :
    startOf points key ≤ startOf points other := by
  unfold startOf
  apply List.countP_mono_left
  intro point _ below
  rw [decide_eq_true_eq] at below ⊢
  omega

theorem startOf_le_length (points : List (ℕ × β)) (key : ℕ) :
    startOf points key ≤ points.length :=
  List.countP_le_length

theorem bucket_apart (points : List (ℕ × β)) {key other : ℕ} (different : key ≠ other) :
    startOf points key + (bucket points key).length ≤ startOf points other ∨
      startOf points other + (bucket points other).length ≤ startOf points key := by
  rw [← startOf_succ, ← startOf_succ]
  rcases Nat.lt_or_gt_of_ne different with below | above
  · exact Or.inl (startOf_mono points below)
  · exact Or.inr (startOf_mono points above)

/-! ### Segments -/

theorem segment_set_other (values : List β) {start count slot : ℕ} (value : β)
    (outside : slot < start ∨ start + count ≤ slot) :
    segment (values.set slot value) start count = segment values start count := by
  unfold segment
  rw [List.drop_set]
  by_cases before : slot < start
  · rw [if_pos before]
  · rw [if_neg before, List.take_set_of_le]
    omega

theorem segment_set_first (values : List β) {slot : ℕ} (count : ℕ) (value : β)
    (inside : slot < values.length) :
    segment (values.set slot value) slot (count + 1) = value :: segment values (slot + 1) count := by
  unfold segment
  rw [List.drop_set, if_neg (Nat.lt_irrefl slot), Nat.sub_self, List.drop_eq_getElem_cons inside,
    List.set_cons_zero, List.take_succ_cons]

theorem segment_length (values : List β) {start count : ℕ}
    (fits : start + count ≤ values.length) : (segment values start count).length = count := by
  unfold segment
  rw [List.length_take, List.length_drop]
  omega

/-! ### The ends of the buckets -/

@[simp] theorem countKeys_length (points : List (ℕ × β)) (offsets : List ℕ) :
    (countKeys points offsets).length = offsets.length := by
  unfold countKeys
  induction points generalizing offsets with
  | nil => rfl
  | cons point rest ih => rw [List.foldl_cons, ih, List.length_modify]

theorem getD_modify (offsets : List ℕ) (change : ℕ → ℕ) {key other : ℕ}
    (inside : other < offsets.length) :
    (offsets.modify key change).getD other 0
      = if key = other then change (offsets.getD other 0) else offsets.getD other 0 := by
  rw [List.getD_eq_getElem?_getD, List.getD_eq_getElem?_getD, List.getElem?_modify,
    List.getElem?_eq_getElem inside]
  rfl

theorem countKeys_getD (points : List (ℕ × β)) (offsets : List ℕ) {key : ℕ}
    (inside : key < offsets.length) :
    (countKeys points offsets).getD key 0 = offsets.getD key 0 + (bucket points key).length := by
  unfold countKeys
  induction points generalizing offsets with
  | nil => rfl
  | cons point rest ih =>
      rw [List.foldl_cons, ih _ (by rwa [List.length_modify]), getD_modify offsets _ inside]
      by_cases same : point.1 = key
      · subst same
        rw [if_pos rfl, bucket_cons_same, List.length_cons]
        omega
      · rw [if_neg same, bucket_cons_other point rest same]

@[simp] theorem sumUp_length (count : ℕ) (offsets : List ℕ) :
    (sumUp count offsets).length = offsets.length := by
  induction count with
  | zero => rfl
  | succ count ih =>
      unfold sumUp at ih ⊢
      rw [List.range_succ, List.foldl_append, List.foldl_cons, List.foldl_nil, List.length_set, ih]

theorem getD_set (offsets : List ℕ) (value : ℕ) {key other : ℕ} (inside : key < offsets.length) :
    (offsets.set key value).getD other 0 = if other = key then value else offsets.getD other 0 := by
  rw [List.getD_eq_getElem?_getD, List.getD_eq_getElem?_getD, List.getElem?_set]
  by_cases same : other = key
  · rw [if_pos same.symm, if_pos same, if_pos inside, Option.getD_some]
  · rw [if_neg (Ne.symm same), if_neg same]

/-- After `count` steps the first `count + 1` offsets are ends, the others still counts. -/
theorem sumUp_getD (points : List (ℕ × β)) (offsets : List ℕ) (count key : ℕ)
    (counted : ∀ key, offsets.getD key 0 = (bucket points key).length)
    (inside : count < offsets.length) :
    (sumUp count offsets).getD key 0
      = if key ≤ count then startOf points (key + 1) else (bucket points key).length := by
  induction count generalizing key with
  | zero =>
      change offsets.getD key 0 = _
      rw [counted key]
      by_cases first : key = 0
      · rw [if_pos (Nat.le_of_eq first), startOf_succ, first, startOf_zero, Nat.zero_add]
      · rw [if_neg (by omega)]
  | succ count ih =>
      have step : sumUp (count + 1) offsets
          = (sumUp count offsets).set (count + 1)
            ((sumUp count offsets).getD (count + 1) 0 + (sumUp count offsets).getD count 0) := by
        unfold sumUp
        rw [List.range_succ, List.foldl_append, List.foldl_cons, List.foldl_nil]
      have before := fun other => ih other (by omega)
      rw [step, getD_set _ _ (by rwa [sumUp_length]), before, before, before]
      by_cases now : key = count + 1
      · rw [if_pos now, if_neg (by omega), if_pos (Nat.le_refl count),
          if_pos (Nat.le_of_eq now), now, startOf_succ points (count + 1)]
        omega
      · rw [if_neg now]
        by_cases earlier : key ≤ count
        · rw [if_pos earlier, if_pos (by omega)]
        · rw [if_neg earlier, if_neg (by omega)]

/-! ### Filling the buckets from their ends -/

/-- The points behind `before` are in their places, and each offset is where the next point of
its bucket comes to lie behind. -/
structure Filled (count : ℕ) (before processed : List (ℕ × β)) (state : List ℕ × List β) : Prop
    where
  offsets_length : state.1.length = count + 1
  values_length : state.2.length = (before ++ processed).length
  next : ∀ key, key ≤ count → state.1.getD key 0
    = startOf (before ++ processed) key + (bucket before key).length
  placed : ∀ key, key ≤ count →
    segment state.2 (startOf (before ++ processed) key + (bucket before key).length)
        (bucket processed key).length
      = bucket processed key

theorem Filled.place {count : ℕ} {before processed : List (ℕ × β)} {point : ℕ × β}
    {state : List ℕ × List β} (filled : Filled count (before ++ [point]) processed state)
    (inside : point.1 < count) : Filled count before (point :: processed) (place point state) := by
  have all : before ++ [point] ++ processed = before ++ point :: processed := by
    rw [List.append_assoc, List.singleton_append]
  have here : bucket (before ++ [point]) point.1 = bucket before point.1 ++ [point.2] := by
    rw [bucket_append, bucket_cons_same]
    rfl
  have next := filled.next
  have placed := filled.placed
  rw [all] at next placed
  have whole (key : ℕ) : bucket (before ++ point :: processed) key
      = bucket (before ++ [point]) key ++ bucket processed key := by
    rw [← all, bucket_append]
  have elsewhere {key : ℕ} (different : point.1 ≠ key) :
      bucket (before ++ [point]) key = bucket before key := by
    rw [bucket_append, bucket_cons_other point [] different]
    exact List.append_nil _
  have slot : state.1.getD point.1 0 - 1
      = startOf (before ++ point :: processed) point.1 + (bucket before point.1).length := by
    rw [next point.1 (Nat.le_of_lt inside), here, List.length_append, List.length_singleton]
    omega
  have ends (key : ℕ) : startOf (before ++ point :: processed) key
      + (bucket (before ++ point :: processed) key).length
        ≤ (before ++ point :: processed).length := by
    rw [← startOf_succ]
    exact startOf_le_length _ _
  refine ⟨?_, ?_, fun key within => ?_, fun key within => ?_⟩
  · exact List.length_set.trans filled.offsets_length
  · exact List.length_set.trans (filled.values_length.trans (congrArg List.length all))
  · have bound : point.1 < state.1.length := by
      rw [filled.offsets_length]
      omega
    dsimp only [CountingSort.place]
    rw [getD_set _ _ bound]
    by_cases same : key = point.1
    · rw [if_pos same, slot, same]
    · rw [if_neg same, next key within, elsewhere (Ne.symm same)]
  · dsimp only [CountingSort.place]
    rw [slot]
    by_cases same : point.1 = key
    · subst same
      have fits : startOf (before ++ point :: processed) point.1 + (bucket before point.1).length
          < state.2.length := by
        have bound := ends point.1
        rw [whole, here] at bound
        rw [filled.values_length, all]
        simp only [List.length_append, List.length_singleton] at bound ⊢
        omega
      have rest := placed point.1 within
      rw [here, List.length_append, List.length_singleton, ← Nat.add_assoc] at rest
      rw [bucket_cons_same, List.length_cons, segment_set_first _ _ _ fits, rest]
    · have rest := placed key within
      rw [elsewhere same] at rest
      rw [bucket_cons_other point processed same, segment_set_other, rest]
      have apart := bucket_apart (before ++ point :: processed) same
      rw [whole, whole, here, elsewhere same] at apart
      simp only [List.length_append, List.length_singleton] at apart
      omega

theorem Filled.fill {count : ℕ} (before : List (ℕ × β)) {processed : List (ℕ × β)}
    {state : List ℕ × List β} (filled : Filled count (before ++ processed) [] state)
    (inside : ∀ point ∈ processed, point.1 < count) :
    Filled count before processed (fill processed state) := by
  induction processed generalizing before with
  | nil =>
      rw [List.append_nil] at filled
      exact filled
  | cons point rest ih =>
      have split : before ++ point :: rest = before ++ [point] ++ rest := by
        rw [List.append_assoc, List.singleton_append]
      rw [split] at filled
      have later := ih (before ++ [point]) filled
        (fun other member => inside other (List.mem_cons_of_mem _ member))
      exact later.place (inside point List.mem_cons_self)

/-! ### All points in their buckets -/

def intoBuckets (count : ℕ) (blank : β) (points : List (ℕ × β)) : List ℕ × List β :=
  fill points
    (sumUp count (countKeys points (List.replicate (count + 1) 0)),
      List.replicate points.length blank)

theorem bucket_eq_nil {points : List (ℕ × β)} {count key : ℕ}
    (inside : ∀ point ∈ points, point.1 < count) (outside : count ≤ key) :
    bucket points key = [] := by
  apply List.eq_nil_iff_forall_not_mem.mpr
  intro value member
  have below := inside _ (mem_bucket.mp member)
  exact absurd below (Nat.not_lt_of_le outside)

theorem countKeys_replicate {points : List (ℕ × β)} {count : ℕ}
    (inside : ∀ point ∈ points, point.1 < count) (key : ℕ) :
    (countKeys points (List.replicate (count + 1) 0)).getD key 0
      = (bucket points key).length := by
  by_cases within : key < (List.replicate (count + 1) 0).length
  · rw [countKeys_getD points _ within, List.getD_eq_getElem?_getD, List.getElem?_replicate]
    split
    · exact Nat.zero_add _
    · exact Nat.zero_add _
  · have beyond := Nat.le_of_not_lt within
    rw [List.getD_eq_getElem?_getD, List.getElem?_eq_none (by rwa [countKeys_length])]
    rw [List.length_replicate] at beyond
    rw [bucket_eq_nil inside (by omega), List.length_nil, Option.getD_none]

/-- Each offset is the start of a bucket, which holds the values of its key. -/
theorem intoBuckets_filled {points : List (ℕ × β)} {count : ℕ} (blank : β)
    (inside : ∀ point ∈ points, point.1 < count) :
    Filled count [] points (intoBuckets count blank points) := by
  apply Filled.fill [] _ inside
  refine ⟨?_, ?_, fun key within => ?_, fun key within => ?_⟩
  · rw [sumUp_length, countKeys_length, List.length_replicate]
  · rw [List.length_replicate, List.nil_append, List.append_nil]
  · rw [sumUp_getD points _ count key (countKeys_replicate inside)
      (by rw [countKeys_length, List.length_replicate]; exact Nat.lt_succ_self count),
      if_pos within, startOf_succ, List.nil_append, List.append_nil]
  · exact List.take_zero

/-! ### Sorting every bucket in place -/

variable {rearrange : List β → List β}

theorem sortRange_length (keeps : ∀ values, (rearrange values).length = values.length)
    (values : List β) {start stop : ℕ} (ordered : start ≤ stop) (fits : stop ≤ values.length) :
    (sortRange rearrange values start stop).length = values.length := by
  unfold sortRange
  rw [List.length_append, List.length_append, keeps, segment_length values (by omega),
    List.length_take, List.length_drop]
  omega

theorem segment_sortRange_same (keeps : ∀ values, (rearrange values).length = values.length)
    (values : List β) {start stop : ℕ} (ordered : start ≤ stop) (fits : stop ≤ values.length) :
    segment (sortRange rearrange values start stop) start (stop - start)
      = rearrange (segment values start (stop - start)) := by
  have front : (values.take start).length = start := by
    rw [List.length_take]
    omega
  have middle : (rearrange (segment values start (stop - start))).length = stop - start := by
    rw [keeps, segment_length values (by omega)]
  unfold sortRange
  rw [segment, List.drop_left' front, List.take_left' middle]

theorem segment_sortRange_other (keeps : ∀ values, (rearrange values).length = values.length)
    (values : List β) {start stop low count : ℕ} (ordered : start ≤ stop)
    (fits : stop ≤ values.length) (apart : low + count ≤ start ∨ stop ≤ low) :
    segment (sortRange rearrange values start stop) low count = segment values low count := by
  have middle : (rearrange (segment values start (stop - start))).length = stop - start := by
    rw [keeps, segment_length values (by omega)]
  apply List.ext_getElem?
  intro position
  unfold segment sortRange
  rw [List.getElem?_take, List.getElem?_take]
  by_cases within : position < count
  · rw [if_pos within, if_pos within, List.getElem?_drop, List.getElem?_drop,
      List.getElem?_append, List.length_take, List.getElem?_append, middle, List.getElem?_drop,
      List.getElem?_take]
    cases apart with
    | inl below => rw [if_pos (by omega), if_pos (by omega)]
    | inr above =>
        rw [if_neg (by omega), if_neg (by omega)]
        congr 1
        omega
  · rw [if_neg within, if_neg within]

/-- The buckets below `sorted` are rearranged, the others are as they were. -/
theorem sortBuckets_segment (keeps : ∀ values, (rearrange values).length = values.length)
    {points : List (ℕ × β)} {count : ℕ} {state : List ℕ × List β}
    (filled : Filled count [] points state) (sorted : ℕ) (within : sorted ≤ count) :
    (sortBuckets rearrange state.1 sorted state.2).length = points.length ∧
      ∀ key, key ≤ count →
        segment (sortBuckets rearrange state.1 sorted state.2) (startOf points key)
            (bucket points key).length
          = if key < sorted then rearrange (bucket points key) else bucket points key := by
  induction sorted with
  | zero => exact ⟨filled.values_length, fun key inside => filled.placed key inside⟩
  | succ sorted ih =>
      obtain ⟨sized, buckets⟩ := ih (Nat.le_of_succ_le within)
      have starts (key : ℕ) (inside : key ≤ count) : state.1.getD key 0 = startOf points key :=
        filled.next key inside
      have step : sortBuckets rearrange state.1 (sorted + 1) state.2
          = sortRange rearrange (sortBuckets rearrange state.1 sorted state.2)
            (startOf points sorted) (startOf points sorted + (bucket points sorted).length) := by
        rw [← startOf_succ, ← starts sorted (Nat.le_of_succ_le within),
          ← starts (sorted + 1) within]
        unfold sortBuckets
        rw [List.range_succ, List.foldl_append, List.foldl_cons, List.foldl_nil]
      have ordered := Nat.le_add_right (startOf points sorted) (bucket points sorted).length
      have fits : startOf points sorted + (bucket points sorted).length
          ≤ (sortBuckets rearrange state.1 sorted state.2).length := by
        rw [sized, ← startOf_succ]
        exact startOf_le_length _ _
      rw [step]
      refine ⟨(sortRange_length keeps _ ordered fits).trans sized, fun key inside => ?_⟩
      by_cases now : key = sorted
      · have same := segment_sortRange_same keeps _ ordered fits
        rw [Nat.add_sub_cancel_left] at same
        rw [now, same, buckets sorted (Nat.le_of_succ_le within),
          if_neg (Nat.lt_irrefl sorted), if_pos (Nat.lt_succ_self sorted)]
      · rw [segment_sortRange_other keeps _ ordered fits (bucket_apart points now),
          buckets key inside]
        by_cases earlier : key < sorted
        · rw [if_pos earlier, if_pos (Nat.lt_succ_of_lt earlier)]
        · rw [if_neg earlier, if_neg (by omega)]

end Bun.Foundation.CountingSort
