/-
What each entry may still gain in bytes while small chunks are folded.

Besides the headroom of every entry, the budget keeps for each power of two the entries that
have at least that much left.  These levels answer most questions about a whole mask of entries
with one comparison per word; the entries between two levels are asked one by one.
`Budget.Exact` is what keeps the levels in step with the headroom.
-/

import Bun.Bundler.ChunkGroups
import Bun.Collections.AutoBitSet
import Mathlib.Data.List.FinRange

set_option autoImplicit false

namespace Bun.Bundler

open Bun.Foundation
open Bun.Collections (AutoBitSet Word wordBits)

structure Budget (entries : ℕ) where
  headroom : List ℕ
  levels : List (AutoBitSet entries)

namespace Budget

variable {entries : ℕ}

def levelCount : ℕ := 48

/-! ### The operations -/

def headroomOf (budget : Budget entries) (entryId : ℕ) : ℕ :=
  budget.headroom.getD entryId 0

def set (budget : Budget entries) (entryId : Fin entries) (headroom : ℕ) : Budget entries where
  headroom := budget.headroom.set entryId.val headroom
  levels := budget.levels.mapIdx fun k level =>
    if headroom >>> k ≠ 0 then level.set entryId else level.unset entryId

def empty (entries : ℕ) : Budget entries where
  headroom := List.replicate entries 0
  levels := List.replicate levelCount (AutoBitSet.initEmpty entries)

def new (entries : ℕ) (initial : ℕ → ℕ) : Budget entries :=
  (List.finRange entries).foldl (fun budget entryId => budget.set entryId (initial entryId.val))
    (empty entries)

def charge (budget : Budget entries) (entryId : Fin entries) (bytes : ℕ) : Budget entries :=
  budget.set entryId (budget.headroomOf entryId.val - bytes)

def surelyWord (surely : Option (AutoBitSet entries)) (position : ℕ) : Word :=
  match surely with
  | none => 0
  | some level => level.words.getD position 0

/-- Everybody in the level above `most` can pay; the rest of the mask is asked. -/
def allAffordEach (budget : Budget entries) (mask : List Word) (most : ℕ) (price : ℕ → ℕ) :
    Bool :=
  mask.zipIdx.all fun entry =>
    BitWords.allBits
      (entry.1 &&& ~~~surelyWord budget.levels[Nat.log2 (max most 1) + 1]? entry.2)
      fun bit =>
        !decide (budget.headroomOf (entry.2 * wordBits + bit) < price (entry.2 * wordBits + bit))

/-- Nothing when part of the mask is outside the lower level, else whether part of it is
outside the upper one. -/
def scanLevels : Bool → List Word → List Word → List Word → Option Bool
  | between, m :: mask, lo :: maybe, hi :: surely =>
      if m &&& ~~~lo ≠ 0 then none
      else scanLevels (between || m &&& ~~~hi != 0) mask maybe surely
  | between, _, _, _ => some between

def allAfford (budget : Budget entries) (mask : List Word) (bytes : ℕ) : Bool :=
  if bytes = 0 then true
  else
    match budget.levels[Nat.log2 bytes]?, budget.levels[Nat.log2 bytes + 1]? with
    | some maybe, some surely =>
        match scanLevels false mask maybe.words surely.words with
        | none => false
        | some between => !between || budget.allAffordEach mask bytes fun _ => bytes
    | _, _ => budget.allAffordEach mask bytes fun _ => bytes

def spend (budget : Budget entries) (charges : List (Fin entries × ℕ)) : Budget entries :=
  charges.foldl (fun budget owed => budget.charge owed.1 owed.2) budget

def paysEach (budget : Budget entries) (mask : AutoBitSet entries) (price : ℕ → ℕ) : Bool :=
  (List.range entries).all fun entryId =>
    !mask.isSet entryId || decide (price entryId ≤ budget.headroomOf entryId)

theorem paysEach_iff (budget : Budget entries) (mask : AutoBitSet entries) (price : ℕ → ℕ) :
    budget.paysEach mask price = true ↔
      ∀ entryId, mask.isSet entryId = true → price entryId ≤ budget.headroomOf entryId := by
  unfold paysEach
  rw [List.all_eq_true]
  constructor
  · intro each entryId payer
    have answer := each entryId (List.mem_range.mpr (mask.padded entryId payer))
    rw [payer, Bool.not_true, Bool.false_or] at answer
    exact of_decide_eq_true answer
  · intro each entryId _
    cases payer : mask.isSet entryId with
    | false => rfl
    | true => exact decide_eq_true (each entryId payer)

/-! ### The levels follow the headroom -/

/-- Level `k` holds the entries with at least `2 ^ k` bytes left, and no others. -/
structure Exact (budget : Budget entries) : Prop where
  sized : budget.headroom.length = entries
  levelled : budget.levels.length = levelCount
  atLevel : ∀ k level, budget.levels[k]? = some level → ∀ entryId,
    level.isSet entryId = decide (2 ^ k ≤ budget.headroomOf entryId)

theorem exact_empty (entries : ℕ) : (empty entries).Exact where
  sized := List.length_replicate
  levelled := List.length_replicate
  atLevel := by
    intro k level found entryId
    have none_left : (empty entries).headroomOf entryId = 0 := by
      unfold headroomOf empty
      rw [List.getD_eq_getElem?_getD, List.getElem?_replicate]
      split <;> rfl
    have same := List.eq_of_mem_replicate (List.mem_of_getElem? found)
    have positive := Nat.two_pow_pos k
    rw [same, none_left, AutoBitSet.isSet_initEmpty, eq_comm, decide_eq_false_iff_not]
    omega

theorem headroomOf_set (budget : Budget entries) (sized : budget.headroom.length = entries)
    (entryId : Fin entries) (headroom other : ℕ) :
    (budget.set entryId headroom).headroomOf other
      = if other = entryId.val then headroom else budget.headroomOf other := by
  unfold headroomOf set
  rw [List.getD_eq_getElem?_getD, List.getD_eq_getElem?_getD, List.getElem?_set, sized]
  by_cases same : other = entryId.val
  · rw [if_pos same.symm, if_pos same, if_pos entryId.isLt, Option.getD_some]
  · rw [if_neg (Ne.symm same), if_neg same]

theorem shiftRight_ne_zero_iff (headroom k : ℕ) : headroom >>> k ≠ 0 ↔ 2 ^ k ≤ headroom := by
  rw [Nat.shiftRight_eq_div_pow, Nat.ne_zero_iff_zero_lt, Nat.div_pos_iff]
  constructor
  · intro both
    exact both.2
  · intro enough
    exact ⟨Nat.two_pow_pos k, enough⟩

theorem Exact.set {budget : Budget entries} (inStep : budget.Exact) (entryId : Fin entries)
    (headroom : ℕ) : (budget.set entryId headroom).Exact where
  sized := List.length_set.trans inStep.sized
  levelled := List.length_mapIdx.trans inStep.levelled
  atLevel := by
    intro k level found other
    unfold Budget.set at found
    rw [List.getElem?_mapIdx] at found
    obtain ⟨before, present, changed⟩ := Option.map_eq_some_iff.mp found
    have kept := inStep.atLevel k before present other
    rw [headroomOf_set budget inStep.sized, ← changed]
    by_cases enough : headroom >>> k ≠ 0
    · rw [if_pos enough, AutoBitSet.isSet_set, kept]
      rw [shiftRight_ne_zero_iff] at enough
      by_cases same : other = entryId.val
      · simp [same, enough]
      · simp [same]
    · rw [if_neg enough, AutoBitSet.isSet_unset, kept]
      rw [shiftRight_ne_zero_iff] at enough
      by_cases same : other = entryId.val
      · simp [same, Nat.lt_of_not_le enough]
      · simp [same]

theorem Exact.foldl_set {budget : Budget entries} (inStep : budget.Exact)
    (entryIds : List (Fin entries)) (initial : ℕ → ℕ) :
    (entryIds.foldl (fun budget entryId => budget.set entryId (initial entryId.val)) budget).Exact
    := by
  induction entryIds generalizing budget with
  | nil => exact inStep
  | cons entryId rest ih => exact ih (inStep.set entryId _)

theorem exact_new (entries : ℕ) (initial : ℕ → ℕ) : (new entries initial).Exact :=
  (exact_empty entries).foldl_set _ _

theorem Exact.spend {budget : Budget entries} (inStep : budget.Exact)
    (charges : List (Fin entries × ℕ)) : (budget.spend charges).Exact := by
  induction charges generalizing budget with
  | nil => exact inStep
  | cons owed rest ih => exact ih (inStep.set owed.1 _)

/-! ### The answers are those of asking every entry -/

theorem isSet_masks (mask : List Word) (entryId : ℕ) :
    BitWords.isSet mask entryId = true ↔
      ∃ position word bit, mask[position]? = some word ∧ word.getLsbD bit = true ∧
        entryId = position * wordBits + bit := by
  constructor
  · intro present
    have inside := BitWords.index_lt_of_isSet mask entryId present
    refine ⟨entryId / wordBits, mask[entryId / wordBits], entryId % wordBits,
      List.getElem?_eq_getElem inside, ?_, (Nat.div_add_mod' entryId wordBits).symm⟩
    unfold BitWords.isSet at present
    rwa [List.getD_eq_getElem?_getD, List.getElem?_eq_getElem inside] at present
  · rintro ⟨position, word, bit, found, present, rfl⟩
    rw [BitWords.isSet_eq mask position bit (BitVec.lt_of_getLsbD present),
      List.getD_eq_getElem?_getD, found]
    exact present

/-- Whoever is in the level above `most` has more than that left. -/
theorem lt_headroom_of_surely {budget : Budget entries} (inStep : budget.Exact)
    (most position bit : ℕ) (low : bit < wordBits)
    (above : (surelyWord budget.levels[Nat.log2 (max most 1) + 1]? position).getLsbD bit = true) :
    most < budget.headroomOf (position * wordBits + bit) := by
  cases known : budget.levels[Nat.log2 (max most 1) + 1]? with
  | none =>
      rw [known] at above
      simp [surelyWord] at above
  | some level =>
      rw [known] at above
      have inLevel : level.isSet (position * wordBits + bit) = true :=
        (BitWords.isSet_eq level.words position bit low).trans above
      rw [inStep.atLevel _ level known, decide_eq_true_eq] at inLevel
      calc most
          ≤ max most 1 := Nat.le_max_left _ _
        _ < 2 ^ (Nat.log2 (max most 1) + 1) := Nat.lt_log2_self
        _ ≤ budget.headroomOf (position * wordBits + bit) := inLevel

/-- An entry above `most` is not asked, and can pay. -/
theorem allAffordEach_iff {budget : Budget entries} (inStep : budget.Exact)
    (mask : AutoBitSet entries) (most : ℕ) (price : ℕ → ℕ)
    (bounded : ∀ entryId, mask.isSet entryId = true → price entryId ≤ most) :
    budget.allAffordEach mask.words most price = true ↔
      ∀ entryId, mask.isSet entryId = true → price entryId ≤ budget.headroomOf entryId := by
  unfold allAffordEach
  rw [List.all_eq_true]
  constructor
  · intro each entryId payer
    obtain ⟨position, word, bit, found, present, rfl⟩ := (isSet_masks _ _).mp payer
    have low := BitVec.lt_of_getLsbD present
    have asked := each (word, position) (List.mem_zipIdx_iff_getElem?.mpr found)
    rw [BitWords.allBits_iff] at asked
    cases above : (surelyWord budget.levels[Nat.log2 (max most 1) + 1]? position).getLsbD bit with
    | false =>
        have answer := asked bit (by
          rw [BitVec.getLsbD_and, BitVec.getLsbD_not, present, above, decide_eq_true low]
          rfl)
        rw [Bool.not_eq_true', decide_eq_false_iff_not] at answer
        exact Nat.le_of_not_lt answer
    | true =>
        have enough := lt_headroom_of_surely inStep most position bit low above
        exact Nat.le_trans (bounded _ payer) (Nat.le_of_lt enough)
  · intro each entry member
    have found := List.mem_zipIdx_iff_getElem?.mp member
    rw [BitWords.allBits_iff]
    intro bit remains
    rw [BitVec.getLsbD_and, Bool.and_eq_true] at remains
    have payer : mask.isSet (entry.2 * wordBits + bit) = true :=
      (isSet_masks _ _).mpr ⟨entry.2, entry.1, bit, found, remains.1, rfl⟩
    rw [Bool.not_eq_true', decide_eq_false_iff_not]
    exact Nat.not_lt_of_le (each _ payer)

theorem scanLevels_spec (between : Bool) (mask maybe surely : List Word)
    (lower : maybe.length = mask.length) (upper : surely.length = mask.length) :
    (scanLevels between mask maybe surely = none → ¬BitWords.Within mask maybe) ∧
      ∀ rest, scanLevels between mask maybe surely = some rest →
        BitWords.Within mask maybe ∧
          (rest = false → between = false ∧ BitWords.Within mask surely) := by
  induction mask generalizing between maybe surely with
  | nil =>
      have empty (outer : List Word) : BitWords.Within [] outer := by
        intro index present
        have inside := BitWords.index_lt_of_isSet [] index present
        exact absurd inside (Nat.not_lt_zero _)
      refine ⟨fun impossible => ?_, fun rest done => ⟨empty maybe, fun clear => ⟨?_, empty surely⟩⟩⟩
      · cases maybe <;> cases impossible
      · cases maybe with
        | nil =>
            cases done
            exact clear
        | cons lo maybe => cases lower
  | cons m mask ih =>
      obtain ⟨lo, maybe, rfl⟩ := List.exists_cons_of_length_eq_add_one lower
      obtain ⟨hi, surely, rfl⟩ := List.exists_cons_of_length_eq_add_one upper
      have rest := ih (between || m &&& ~~~hi != 0) maybe surely
        (Nat.succ.inj lower) (Nat.succ.inj upper)
      rw [BitWords.within_cons_iff _ _ _ _ (by decide),
        BitWords.within_cons_iff _ _ _ _ (by decide)]
      unfold scanLevels
      by_cases outside : m &&& ~~~lo ≠ 0
      · rw [if_pos outside]
        refine ⟨fun _ both => outside both.1, fun rest impossible => ?_⟩
        cases impossible
      · rw [if_neg outside]
        constructor
        · intro missing both
          exact rest.1 missing both.2
        · intro after done
          obtain ⟨within, clear⟩ := rest.2 after done
          refine ⟨⟨Decidable.not_not.mp outside, within⟩, fun none_between => ?_⟩
          obtain ⟨before, inside⟩ := clear none_between
          rw [Bool.or_eq_false_iff, bne_eq_false_iff_eq] at before
          exact ⟨before.1, before.2, inside⟩

theorem allAfford_iff {budget : Budget entries} (inStep : budget.Exact)
    (mask : AutoBitSet entries) (bytes : ℕ) :
    budget.allAfford mask.words bytes = true ↔
      ∀ entryId, mask.isSet entryId = true → bytes ≤ budget.headroomOf entryId := by
  have asked := allAffordEach_iff inStep mask bytes (fun _ => bytes) (fun _ _ => Nat.le_refl _)
  unfold allAfford
  by_cases free : bytes = 0
  · rw [if_pos free, free]
    exact ⟨fun _ _ _ => Nat.zero_le _, fun _ => rfl⟩
  · rw [if_neg free]
    cases lower : budget.levels[Nat.log2 bytes]? with
    | none => exact asked
    | some maybe =>
        cases upper : budget.levels[Nat.log2 bytes + 1]? with
        | none => exact asked
        | some surely =>
            have scan := scanLevels_spec false mask.words maybe.words surely.words
              (maybe.sized.trans mask.sized.symm) (surely.sized.trans mask.sized.symm)
            dsimp only
            cases result : scanLevels false mask.words maybe.words surely.words with
            | none =>
                refine ⟨fun impossible => ?_, fun each => absurd ?_ (scan.1 result)⟩
                · cases impossible
                · intro entryId payer
                  have enough := each entryId payer
                  have inLevel := inStep.atLevel _ maybe lower entryId
                  rw [decide_eq_true (Nat.le_trans (Nat.log2_self_le free) enough)] at inLevel
                  exact inLevel
            | some between =>
                cases between with
                | true => exact asked
                | false =>
                    have inside := ((scan.2 false result).2 rfl).2
                    refine ⟨fun _ entryId payer => ?_, fun _ => rfl⟩
                    have inLevel : surely.isSet entryId = true := inside entryId payer
                    rw [inStep.atLevel _ surely upper, decide_eq_true_eq] at inLevel
                    exact Nat.le_of_lt (Nat.lt_of_lt_of_le Nat.lt_log2_self inLevel)

/-- Whatever was spent before, asking about a mask of entries as a whole gives the same answer
as asking every entry of it. -/
theorem spend_affords (initial : ℕ → ℕ) (charges : List (Fin entries × ℕ))
    (mask : AutoBitSet entries) (bytes most : ℕ) (price : ℕ → ℕ)
    (bounded : ∀ entryId, mask.isSet entryId = true → price entryId ≤ most) :
    ((new entries initial).spend charges).allAfford mask.words bytes
        = ((new entries initial).spend charges).paysEach mask (fun _ => bytes) ∧
      ((new entries initial).spend charges).allAffordEach mask.words most price
        = ((new entries initial).spend charges).paysEach mask price := by
  have inStep := (exact_new entries initial).spend charges
  constructor
  · rw [Bool.eq_iff_iff, paysEach_iff]
    exact allAfford_iff inStep mask bytes
  · rw [Bool.eq_iff_iff, paysEach_iff]
    exact allAffordEach_iff inStep mask most price bounded

/-- Two entries with 40 bytes each, of which the first spent 30: 20 bytes are too many for both,
while 10 and 20 are not. -/
theorem spend_affords_two :
    ((new 2 fun _ => 40).spend [(⟨0, by decide⟩, 30)]).allAfford
        (((AutoBitSet.initEmpty 2).set ⟨0, by decide⟩).set ⟨1, by decide⟩).words 20 = false ∧
      ((new 2 fun _ => 40).spend [(⟨0, by decide⟩, 30)]).allAffordEach
        (((AutoBitSet.initEmpty 2).set ⟨0, by decide⟩).set ⟨1, by decide⟩).words 20
        (fun entryId => if entryId = 0 then 10 else 20) = true := by
  have answers := spend_affords (fun _ => 40) [(⟨0, by decide⟩, 30)]
    (((AutoBitSet.initEmpty 2).set ⟨0, by decide⟩).set ⟨1, by decide⟩) 20 20
    (fun entryId => if entryId = 0 then 10 else 20)
    (by intro entryId _; split <;> decide)
  exact ⟨answers.1.trans (by decide), answers.2.trans (by decide)⟩

/-! ### Who may afford a price -/

/-- The entries with at least the highest power of two left that is not above `bytes`. -/
def canAfford (budget : Budget entries) (bytes : ℕ) : AutoBitSet entries :=
  budget.levels.getD (min (Nat.log2 (max bytes 1)) (levelCount - 1)) (AutoBitSet.initEmpty entries)

def owedBy (charges : List (Fin entries × ℕ)) (entryId : Fin entries) : ℕ :=
  ((charges.filter (·.1 = entryId)).map (·.2)).sum

theorem headroomOf_foldl_set {budget : Budget entries} (inStep : budget.Exact)
    (entryIds : List (Fin entries)) (initial : ℕ → ℕ) (other : Fin entries) :
    (entryIds.foldl (fun budget entryId => budget.set entryId (initial entryId.val))
        budget).headroomOf other.val
      = if other ∈ entryIds then initial other.val else budget.headroomOf other.val := by
  induction entryIds generalizing budget with
  | nil => rfl
  | cons entryId rest ih =>
      rw [List.foldl_cons, ih (inStep.set entryId _), headroomOf_set budget inStep.sized]
      by_cases later : other ∈ rest
      · rw [if_pos later, if_pos (List.mem_cons_of_mem _ later)]
      · rw [if_neg later]
        by_cases now : other = entryId
        · rw [if_pos (congrArg Fin.val now), if_pos (now ▸ List.mem_cons_self), now]
        · have absent : other ∉ entryId :: rest := by
            rw [List.mem_cons, not_or]
            exact ⟨now, later⟩
          rw [if_neg (fun same => now (Fin.ext same)), if_neg absent]

theorem headroomOf_new (initial : ℕ → ℕ) (entryId : Fin entries) :
    (new entries initial).headroomOf entryId.val = initial entryId.val := by
  unfold new
  rw [headroomOf_foldl_set (exact_empty entries), if_pos (List.mem_finRange entryId)]

theorem headroomOf_spend {budget : Budget entries} (inStep : budget.Exact)
    (charges : List (Fin entries × ℕ)) (entryId : Fin entries) :
    (budget.spend charges).headroomOf entryId.val
      = budget.headroomOf entryId.val - owedBy charges entryId := by
  induction charges generalizing budget with
  | nil => rfl
  | cons owed rest ih =>
      have later := ih (inStep.set owed.1 (budget.headroomOf owed.1.val - owed.2))
      apply later.trans
      unfold owedBy
      rw [headroomOf_set budget inStep.sized, List.filter_cons]
      by_cases same : owed.1 = entryId
      · rw [if_pos (congrArg Fin.val same.symm), if_pos (decide_eq_true same), List.map_cons,
          List.sum_cons, same, Nat.sub_sub]
      · rw [if_neg fun equal => same (Fin.ext equal.symm), if_neg (by simpa using same)]

/-- Whatever was spent before, those who may afford a price are exactly those with at least the
highest power of two left that is not above it, or that of the last level. -/
theorem isSet_canAfford (initial : ℕ → ℕ) (charges : List (Fin entries × ℕ)) (bytes : ℕ)
    (entryId : Fin entries) :
    (((new entries initial).spend charges).canAfford bytes).isSet entryId.val =
      decide (2 ^ min (Nat.log2 (max bytes 1)) (levelCount - 1) ≤
        initial entryId.val - owedBy charges entryId) := by
  have inStep := (exact_new entries initial).spend charges
  have inside : min (Nat.log2 (max bytes 1)) (levelCount - 1) <
      ((new entries initial).spend charges).levels.length := by
    rw [inStep.levelled]
    exact Nat.lt_of_le_of_lt (Nat.min_le_right _ _) (by decide)
  unfold canAfford
  rw [List.getD_eq_getElem?_getD, List.getElem?_eq_getElem inside, Option.getD_some,
    inStep.atLevel _ _ (List.getElem?_eq_getElem inside),
    headroomOf_spend (exact_new entries initial), headroomOf_new]

end Budget

end Bun.Bundler
