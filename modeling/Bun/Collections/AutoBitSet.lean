/-
Bit sets whose length is fixed when they are made.

A short set is an array of two words, a longer one has as many words as its length needs.
Bits past the length are never set, so two sets of one length can be compared word by word.
-/

import Bun.Foundation.BitWords

set_option autoImplicit false

namespace Bun.Collections

open Bun.Foundation

abbrev wordBits : ℕ := 64

abbrev Word : Type := BitVec wordBits

/-- One less than the size in bits of a length and a pointer. -/
def autoStaticBits : ℕ := 127

def numMasksFor (bitLength : ℕ) : ℕ :=
  (bitLength + (wordBits - 1)) / wordBits

def wordCount (bitLength : ℕ) : ℕ :=
  if bitLength ≤ autoStaticBits then numMasksFor autoStaticBits else numMasksFor bitLength

theorem wordMaskIndex_lt_wordCount {bitLength index : ℕ} (inside : index < bitLength) :
    BitWords.wordMaskIndex wordBits index < wordCount bitLength := by
  unfold wordCount numMasksFor autoStaticBits BitWords.wordMaskIndex wordBits
  split <;> omega

structure AutoBitSet (bitLength : ℕ) where
  words : List Word
  sized : words.length = wordCount bitLength
  padded : ∀ index, BitWords.isSet words index = true → index < bitLength

namespace AutoBitSet

variable {bitLength : ℕ}

def isSet (bits : AutoBitSet bitLength) (index : ℕ) : Bool :=
  BitWords.isSet bits.words index

theorem initEmpty_padded (bitLength index : ℕ)
    (present : BitWords.isSet (List.replicate (wordCount bitLength) (0 : Word)) index = true) :
    index < bitLength := by
  rw [BitWords.isSet_replicate_zero] at present
  cases present

def initEmpty (bitLength : ℕ) : AutoBitSet bitLength where
  words := List.replicate (wordCount bitLength) 0
  sized := List.length_replicate
  padded := initEmpty_padded bitLength

theorem words_isSet_set (bits : AutoBitSet bitLength) (index : Fin bitLength) (other : ℕ) :
    BitWords.isSet (BitWords.set bits.words index.val) other
      = (decide (other = index.val) || bits.isSet other) := by
  apply BitWords.isSet_set _ _ _ (by decide)
  rw [bits.sized]
  exact wordMaskIndex_lt_wordCount index.isLt

theorem words_isSet_unset (bits : AutoBitSet bitLength) (index : Fin bitLength) (other : ℕ) :
    BitWords.isSet (BitWords.unset bits.words index.val) other
      = (!decide (other = index.val) && bits.isSet other) := by
  apply BitWords.isSet_unset _ _ _ (by decide)
  rw [bits.sized]
  exact wordMaskIndex_lt_wordCount index.isLt

theorem set_padded (bits : AutoBitSet bitLength) (index : Fin bitLength) (other : ℕ)
    (present : BitWords.isSet (BitWords.set bits.words index.val) other = true) :
    other < bitLength := by
  rw [words_isSet_set, Bool.or_eq_true, decide_eq_true_eq] at present
  cases present with
  | inl same => exact same ▸ index.isLt
  | inr before => exact bits.padded other before

theorem unset_padded (bits : AutoBitSet bitLength) (index : Fin bitLength) (other : ℕ)
    (present : BitWords.isSet (BitWords.unset bits.words index.val) other = true) :
    other < bitLength := by
  rw [words_isSet_unset, Bool.and_eq_true] at present
  exact bits.padded other present.2

def set (bits : AutoBitSet bitLength) (index : Fin bitLength) : AutoBitSet bitLength where
  words := BitWords.set bits.words index.val
  sized := (BitWords.set_length _ _).trans bits.sized
  padded := set_padded bits index

def unset (bits : AutoBitSet bitLength) (index : Fin bitLength) : AutoBitSet bitLength where
  words := BitWords.unset bits.words index.val
  sized := (BitWords.unset_length _ _).trans bits.sized
  padded := unset_padded bits index

@[simp] theorem isSet_initEmpty (index : ℕ) : (initEmpty bitLength).isSet index = false :=
  BitWords.isSet_replicate_zero _ _

@[simp] theorem isSet_set (bits : AutoBitSet bitLength) (index : Fin bitLength) (other : ℕ) :
    (bits.set index).isSet other = (decide (other = index.val) || bits.isSet other) :=
  words_isSet_set bits index other

@[simp] theorem isSet_unset (bits : AutoBitSet bitLength) (index : Fin bitLength) (other : ℕ) :
    (bits.unset index).isSet other = (!decide (other = index.val) && bits.isSet other) :=
  words_isSet_unset bits index other

end AutoBitSet

end Bun.Collections
