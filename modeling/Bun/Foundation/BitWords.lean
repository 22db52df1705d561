/-
Sets of numbers kept as bits in a list of machine words, and the loop that visits
the set bits of a word by clearing the lowest one at a time.

The word width is a parameter.  An instance says how many words there are, and which
bits of the last word may be set.
-/

import Mathlib.Algebra.Group.Nat.Defs
import Mathlib.Data.Nat.Bitwise
import Mathlib.Tactic.Common

set_option autoImplicit false

namespace Bun.Foundation.BitWords

variable {w : ℕ}

/-! ### Single bits -/

def wordMaskIndex (w index : ℕ) : ℕ :=
  index / w

def wordMaskBit (w index : ℕ) : BitVec w :=
  BitVec.twoPow w (index % w)

/-- Whether bit `index` is set, where bits behind the last word are not. -/
def isSet (words : List (BitVec w)) (index : ℕ) : Bool :=
  (words.getD (wordMaskIndex w index) 0).getLsbD (index % w)

def set (words : List (BitVec w)) (index : ℕ) : List (BitVec w) :=
  words.modify (wordMaskIndex w index) (· ||| wordMaskBit w index)

def unset (words : List (BitVec w)) (index : ℕ) : List (BitVec w) :=
  words.modify (wordMaskIndex w index) (· &&& ~~~ wordMaskBit w index)

@[simp] theorem set_length (words : List (BitVec w)) (index : ℕ) :
    (set words index).length = words.length :=
  List.length_modify _ _ _

@[simp] theorem unset_length (words : List (BitVec w)) (index : ℕ) :
    (unset words index).length = words.length :=
  List.length_modify _ _ _

theorem isSet_replicate_zero (count index : ℕ) :
    isSet (List.replicate count (0 : BitVec w)) index = false := by
  unfold isSet
  rw [List.getD_eq_getElem?_getD, List.getElem?_replicate]
  split <;> simp

theorem isSet_modify_same (words : List (BitVec w)) (change : BitVec w → BitVec w) (index : ℕ)
    (inside : wordMaskIndex w index < words.length) :
    isSet (words.modify (wordMaskIndex w index) change) index
      = (change (words.getD (wordMaskIndex w index) 0)).getLsbD (index % w) := by
  unfold isSet
  rw [List.getD_eq_getElem?_getD, List.getElem?_modify_eq, List.getD_eq_getElem?_getD,
    List.getElem?_eq_getElem inside]
  rfl

theorem isSet_modify_other (words : List (BitVec w)) (change : BitVec w → BitVec w)
    (index other : ℕ)
    (kept : wordMaskIndex w other = wordMaskIndex w index →
      ∀ word, (change word).getLsbD (other % w) = word.getLsbD (other % w)) :
    isSet (words.modify (wordMaskIndex w index) change) other = isSet words other := by
  unfold isSet
  rw [List.getD_eq_getElem?_getD, List.getD_eq_getElem?_getD, List.getElem?_modify]
  by_cases same : wordMaskIndex w index = wordMaskIndex w other
  · simp only [if_pos same]
    cases words[wordMaskIndex w other]? with
    | none => rfl
    | some word => exact kept same.symm word
  · simp only [if_neg same]
    cases words[wordMaskIndex w other]? <;> rfl

theorem mod_ne_of_ne {index other : ℕ} (different : other ≠ index)
    (same : wordMaskIndex w other = wordMaskIndex w index) : other % w ≠ index % w := by
  intro equal
  apply different
  rw [← Nat.div_add_mod other w, ← Nat.div_add_mod index w, equal]
  exact congrArg (w * · + index % w) same

theorem isSet_set (words : List (BitVec w)) (index other : ℕ) (positive : 0 < w)
    (inside : wordMaskIndex w index < words.length) :
    isSet (set words index) other = (decide (other = index) || isSet words other) := by
  have low := Nat.mod_lt index positive
  by_cases same : other = index
  · subst same
    unfold set
    rw [isSet_modify_same _ _ _ inside]
    simp [wordMaskBit, low]
  · unfold set
    rw [isSet_modify_other _ _ _ _ (fun sameWord word => ?_)]
    · simp [same]
    · have apart := mod_ne_of_ne same sameWord
      simp [wordMaskBit, Ne.symm apart]

theorem isSet_unset (words : List (BitVec w)) (index other : ℕ) (positive : 0 < w)
    (inside : wordMaskIndex w index < words.length) :
    isSet (unset words index) other = (!decide (other = index) && isSet words other) := by
  have low := Nat.mod_lt index positive
  by_cases same : other = index
  · subst same
    unfold unset
    rw [isSet_modify_same _ _ _ inside]
    simp [wordMaskBit, low]
  · unfold unset
    rw [isSet_modify_other _ _ _ _ (fun sameWord word => ?_)]
    · simp [same]
    · have apart := mod_ne_of_ne same sameWord
      have range := Nat.mod_lt other positive
      simp only [BitVec.getLsbD_and, BitVec.getLsbD_not, range, decide_true,
        wordMaskBit, BitVec.getLsbD_twoPow, decide_eq_false (Ne.symm apart), Bool.and_false,
        Bool.not_false, Bool.and_true]

theorem isSet_eq (words : List (BitVec w)) (position bit : ℕ) (low : bit < w) :
    isSet words (position * w + bit) = (words.getD position 0).getLsbD bit := by
  have positive : 0 < w := Nat.zero_lt_of_lt low
  unfold isSet wordMaskIndex
  rw [Nat.mul_comm, Nat.mul_add_div positive, Nat.mul_add_mod, Nat.div_eq_of_lt low,
    Nat.mod_eq_of_lt low, Nat.add_zero]

theorem index_lt_of_isSet (words : List (BitVec w)) (index : ℕ) (present : isSet words index) :
    wordMaskIndex w index < words.length := by
  apply Nat.lt_of_not_le
  intro beyond
  unfold isSet at present
  rw [List.getD_eq_default _ _ beyond] at present
  simp at present

/-! ### Inclusion, one word at a time -/

def Within (inner outer : List (BitVec w)) : Prop :=
  ∀ index, isSet inner index = true → isSet outer index = true

theorem and_not_eq_zero_iff (inner outer : BitVec w) :
    inner &&& ~~~outer = 0 ↔
      ∀ bit, inner.getLsbD bit = true → outer.getLsbD bit = true := by
  constructor
  · intro empty bit present
    have clear := congrArg (BitVec.getLsbD · bit) empty
    have low := BitVec.lt_of_getLsbD present
    simpa [present, low] using clear
  · intro included
    apply BitVec.eq_of_getLsbD_eq
    intro bit low
    cases present : inner.getLsbD bit with
    | false => simp [present]
    | true => simp [included bit present]

theorem isSet_cons_low (word : BitVec w) (rest : List (BitVec w)) (bit : ℕ) (low : bit < w) :
    isSet (word :: rest) bit = word.getLsbD bit := by
  have first := isSet_eq (word :: rest) 0 bit low
  rwa [Nat.zero_mul, Nat.zero_add] at first

theorem isSet_cons_high (word : BitVec w) (rest : List (BitVec w)) (index : ℕ)
    (positive : 0 < w) : isSet (word :: rest) (index + w) = isSet rest index := by
  unfold isSet wordMaskIndex
  rw [Nat.add_div_right _ positive, Nat.add_mod_right, List.getD_cons_succ]

theorem within_cons_iff (inner outer : BitVec w) (inners outers : List (BitVec w))
    (positive : 0 < w) :
    Within (inner :: inners) (outer :: outers) ↔
      inner &&& ~~~outer = 0 ∧ Within inners outers := by
  rw [and_not_eq_zero_iff]
  constructor
  · intro included
    constructor
    · intro bit present
      have low := BitVec.lt_of_getLsbD present
      have image := included bit
      rw [isSet_cons_low _ _ _ low, isSet_cons_low _ _ _ low] at image
      exact image present
    · intro index present
      have image := included (index + w)
      rw [isSet_cons_high _ _ _ positive, isSet_cons_high _ _ _ positive] at image
      exact image present
  · intro included index
    obtain ⟨first, rest⟩ := included
    by_cases low : index < w
    · rw [isSet_cons_low _ _ _ low, isSet_cons_low _ _ _ low]
      exact first index
    · obtain ⟨above, rfl⟩ := Nat.exists_eq_add_of_le' (Nat.le_of_not_lt low)
      rw [isSet_cons_high _ _ _ positive, isSet_cons_high _ _ _ positive]
      exact rest above

/-! ### The set bits of a word -/

def clearLowest (word : BitVec w) : BitVec w :=
  word &&& (word - 1)

/-- Below the lowest set bit a number and its predecessor share no bit, above it all. -/
theorem testBit_and_pred (low high bit : ℕ) :
    ((2 ^ low * (2 * high + 1)).testBit bit && (2 ^ low * (2 * high + 1) - 1).testBit bit)
      = ((2 ^ low * (2 * high + 1)).testBit bit && !decide (bit = low)) := by
  have ones : 2 ^ low - 1 < 2 ^ low := Nat.sub_one_lt (Nat.two_pow_pos low).ne'
  have upper : 2 ^ low * (2 * high + 1) = 2 ^ low * (2 * high + 1) + 0 := rfl
  have lower : 2 ^ low * (2 * high + 1) - 1 = 2 ^ low * (2 * high) + (2 ^ low - 1) := by
    rw [Nat.mul_add, Nat.mul_one, Nat.add_sub_assoc (Nat.two_pow_pos low)]
  rw [lower, upper, Nat.testBit_two_pow_mul_add _ (Nat.two_pow_pos low),
    Nat.testBit_two_pow_mul_add _ ones]
  by_cases below : bit < low
  · simp [below]
  · rw [if_neg below, if_neg below]
    obtain ⟨above, rfl⟩ := Nat.exists_eq_add_of_le (Nat.le_of_not_lt below)
    rw [Nat.add_sub_cancel_left]
    cases above with
    | zero => simp
    | succ above => simp [Nat.testBit_succ, Nat.mul_add_div]

theorem toNat_eq_of_ne_zero (word : BitVec w) (nonzero : word ≠ 0) :
    ∃ high, word.toNat = 2 ^ word.ctz.toNat * (2 * high + 1) := by
  have zeros : word.toNat % 2 ^ word.ctz.toNat = 0 := by
    apply Nat.eq_of_testBit_eq
    intro bit
    rw [Nat.testBit_mod_two_pow, Nat.zero_testBit]
    by_cases below : bit < word.ctz.toNat
    · have clear : word.toNat.testBit bit = false := BitVec.getLsbD_false_of_lt_ctz below
      rw [clear, Bool.and_false]
    · rw [decide_eq_false below, Bool.false_and]
  have lowest : (word.toNat / 2 ^ word.ctz.toNat) % 2 = 1 := by
    have one : word.toNat.testBit word.ctz.toNat = true :=
      BitVec.getLsbD_true_ctz_of_ne_zero nonzero
    rw [Nat.testBit_eq_decide_div_mod_eq] at one
    exact of_decide_eq_true one
  refine ⟨word.toNat / 2 ^ word.ctz.toNat / 2, ?_⟩
  calc word.toNat
      = 2 ^ word.ctz.toNat * (word.toNat / 2 ^ word.ctz.toNat) := by
        rw [Nat.mul_div_cancel' (Nat.dvd_of_mod_eq_zero zeros)]
    _ = _ := by
        congr 1
        omega

theorem toNat_pos (word : BitVec w) (nonzero : word ≠ 0) : 0 < word.toNat := by
  rw [Nat.pos_iff_ne_zero]
  intro zero
  exact nonzero (BitVec.eq_of_toNat_eq (by simpa using zero))

theorem toNat_sub_one (word : BitVec w) (nonzero : word ≠ 0) :
    (word - 1).toNat = word.toNat - 1 := by
  have positive := toNat_pos word nonzero
  have fits := word.isLt
  have one : (1 : BitVec w).toNat = 1 := by
    change 1 % 2 ^ w = 1
    exact Nat.mod_eq_of_lt (by omega)
  have wrapped : 2 ^ w - 1 + word.toNat = word.toNat - 1 + 2 ^ w := by omega
  rw [BitVec.toNat_sub, one, wrapped, Nat.add_mod_right]
  exact Nat.mod_eq_of_lt (by omega)

theorem getLsbD_clearLowest (word : BitVec w) (nonzero : word ≠ 0) (bit : ℕ) :
    (clearLowest word).getLsbD bit
      = (word.getLsbD bit && !decide (bit = word.ctz.toNat)) := by
  obtain ⟨high, split⟩ := toNat_eq_of_ne_zero word nonzero
  unfold clearLowest
  rw [BitVec.getLsbD_and]
  change (word.toNat.testBit bit && (word - 1).toNat.testBit bit)
    = (word.toNat.testBit bit && !decide (bit = word.ctz.toNat))
  rw [toNat_sub_one word nonzero, split]
  exact testBit_and_pred _ _ _

theorem clearLowest_lt (word : BitVec w) (nonzero : word ≠ 0) :
    (clearLowest word).toNat < word.toNat := by
  unfold clearLowest
  rw [BitVec.toNat_and, toNat_sub_one word nonzero]
  exact Nat.lt_of_le_of_lt Nat.and_le_right (Nat.sub_one_lt (toNat_pos word nonzero).ne')

/-- Asks `holds` of every set bit, from the lowest on, until one of them fails. -/
def allBits (word : BitVec w) (holds : ℕ → Bool) : Bool :=
  if _nonzero : word ≠ 0 then
    if holds word.ctz.toNat then allBits (clearLowest word) holds else false
  else true
termination_by word.toNat
decreasing_by exact clearLowest_lt word _nonzero

theorem allBits_iff (word : BitVec w) (holds : ℕ → Bool) :
    allBits word holds = true ↔ ∀ bit, word.getLsbD bit = true → holds bit = true := by
  fun_induction allBits word holds with
  | case1 word nonzero lowest ih =>
      rw [ih]
      constructor
      · intro rest bit present
        by_cases first : bit = word.ctz.toNat
        · exact first ▸ lowest
        · apply rest bit
          rw [getLsbD_clearLowest word nonzero, present, decide_eq_false first]
          rfl
      · intro all bit present
        rw [getLsbD_clearLowest word nonzero, Bool.and_eq_true] at present
        exact all bit present.1
  | case2 word nonzero lowest =>
      constructor
      · intro impossible
        cases impossible
      · intro all
        exact absurd (all _ (BitVec.getLsbD_true_ctz_of_ne_zero nonzero)) lowest
  | case3 word zero =>
      have empty : word = 0 := Decidable.not_not.mp zero
      constructor
      · intro _ bit present
        simp [empty] at present
      · intro _
        rfl

end Bun.Foundation.BitWords
