/-
The enumeration of minified names.

The number of a name is written with one digit out of 54 and then as many as needed
out of 64, without a digit for zero at the end.  The digits are the characters of
identifiers, the most frequent first, so different numbers give different names.
-/

import Mathlib.Data.List.GetD
import Mathlib.Data.List.Nodup
import Mathlib.Order.Basic
import Bun.Core.AsciiText

set_option autoImplicit false

namespace Bun.Renamer

structure NameMinifier where
  head : List UInt8 := []
  tail : List UInt8 := []

def charFreqCount : ℕ := 64

namespace NameMinifier

def defaultHead : List UInt8 :=
  ascii "abcdefghijklmnopqrstuvwxyzABCDEFGHIJKLMNOPQRSTUVWXYZ_$"

def defaultTail : List UInt8 :=
  ascii "abcdefghijklmnopqrstuvwxyzABCDEFGHIJKLMNOPQRSTUVWXYZ0123456789_$"

/-- The `while` loop of `numberToMinifiedName`. -/
def tailOf (tail : List UInt8) (i : ℕ) : List UInt8 :=
  if i = 0 then []
  else tail.getD ((i - 1) % charFreqCount) 0 :: tailOf tail ((i - 1) / charFreqCount)
termination_by i
decreasing_by
  rename_i positive
  exact Nat.lt_of_le_of_lt (Nat.div_le_self (i - 1) charFreqCount) (Nat.pred_lt positive)

def numberToMinifiedName (minifier : NameMinifier) (i : ℕ) : List UInt8 :=
  minifier.head.getD (i % 54) 0 :: tailOf minifier.tail (i / 54)

end NameMinifier

/-! ### Frequencies -/

structure CharAndCount where
  char : UInt8
  index : ℕ
  count : Int

def CharAndCount.order (a b : CharAndCount) : Ordering :=
  (compare b.count a.count).then ((compare a.index b.index).then (compare a.char b.char))

structure CharFreq where
  freqs : Fin charFreqCount → Int

namespace CharFreq

def counts (freq : CharFreq) : List CharAndCount :=
  (NameMinifier.defaultTail.zip (List.finRange charFreqCount)).map fun (char, i) =>
    { char, index := i, count := freq.freqs i }

def compile (freq : CharFreq) : NameMinifier :=
  let sorted := freq.counts.mergeSort fun a b => (a.order b).isLE
  { head := (sorted.map (·.char)).filter fun c => c < 0x30 || c > 0x39
    tail := sorted.map (·.char) }

end CharFreq

/-! ### Different numbers give different names -/

theorem CharFreq.counts_chars (freq : CharFreq) :
    freq.counts.map (·.char) = NameMinifier.defaultTail := by
  unfold CharFreq.counts
  rw [List.map_map]
  exact List.map_fst_zip (by decide)

theorem NameMinifier.defaultTail_filter :
    (NameMinifier.defaultTail.filter fun c => c < 0x30 || c > 0x39) = NameMinifier.defaultHead := by
  decide +kernel

theorem CharFreq.compile_zero :
    CharFreq.compile ⟨fun _ => 0⟩ = ⟨NameMinifier.defaultHead, NameMinifier.defaultTail⟩ := by
  have ordered : (CharFreq.counts ⟨fun _ => 0⟩).Pairwise fun a b => (a.order b).isLE = true := by
    decide +kernel
  unfold CharFreq.compile
  rw [List.mergeSort_of_pairwise ordered]
  dsimp only
  rw [CharFreq.counts_chars, NameMinifier.defaultTail_filter]

namespace NameMinifier

/-- The characters are those of the default tables, in some order. -/
structure WellFormed (minifier : NameMinifier) : Prop where
  head_perm : minifier.head.Perm defaultHead
  tail_perm : minifier.tail.Perm defaultTail

theorem compile_wellFormed (freq : CharFreq) : freq.compile.WellFormed := by
  have tail : (CharFreq.compile freq).tail.Perm defaultTail := by
    have sorted := List.mergeSort_perm freq.counts fun a b => (a.order b).isLE
    rw [← freq.counts_chars]
    exact sorted.map (·.char)
  refine ⟨?_, tail⟩
  rw [← defaultTail_filter]
  exact tail.filter _

variable {minifier : NameMinifier}

theorem WellFormed.head_length (wellFormed : minifier.WellFormed) : minifier.head.length = 54 :=
  wellFormed.head_perm.length_eq

theorem WellFormed.tail_length (wellFormed : minifier.WellFormed) :
    minifier.tail.length = charFreqCount :=
  wellFormed.tail_perm.length_eq

theorem getD_inj {items : List UInt8} (nodup : items.Nodup) {i j : ℕ} (iBound : i < items.length)
    (jBound : j < items.length) (same : items.getD i 0 = items.getD j 0) : i = j := by
  rw [List.getD_eq_getElem _ _ iBound, List.getD_eq_getElem _ _ jBound] at same
  exact (nodup.getElem_inj_iff).mp same

theorem tailOf_injective {tail : List UInt8} (nodup : tail.Nodup)
    (length : tail.length = charFreqCount) (i j : ℕ) (same : tailOf tail i = tailOf tail j) :
    i = j := by
  induction i using Nat.strongRecOn generalizing j with
  | ind i ih =>
      rw [tailOf.eq_def tail i, tailOf.eq_def tail j] at same
      split at same
      · split at same
        · omega
        · exact absurd same (by simp)
      · split at same
        · exact absurd same (by simp)
        · have positive : 0 < charFreqCount := by decide
          obtain ⟨digit, rest⟩ := List.cons_eq_cons.mp same
          have digits := getD_inj nodup (by rw [length]; exact Nat.mod_lt _ positive)
            (by rw [length]; exact Nat.mod_lt _ positive) digit
          have quotients := ih ((i - 1) / charFreqCount)
            (Nat.lt_of_le_of_lt (Nat.div_le_self (i - 1) charFreqCount) (by omega)) _ rest
          have left := Nat.div_add_mod (i - 1) charFreqCount
          have right := Nat.div_add_mod (j - 1) charFreqCount
          rw [digits, quotients] at left
          omega

theorem numberToMinifiedName_injective (wellFormed : minifier.WellFormed) :
    Function.Injective minifier.numberToMinifiedName := by
  intro i j same
  obtain ⟨first, rest⟩ := List.cons_eq_cons.mp same
  have headNodup : minifier.head.Nodup := wellFormed.head_perm.nodup_iff.mpr (by decide +kernel)
  have tailNodup : minifier.tail.Nodup := wellFormed.tail_perm.nodup_iff.mpr (by decide +kernel)
  have digits := getD_inj headNodup
    (by rw [wellFormed.head_length]; exact Nat.mod_lt _ (by decide))
    (by rw [wellFormed.head_length]; exact Nat.mod_lt _ (by decide)) first
  have quotients := tailOf_injective tailNodup wellFormed.tail_length _ _ rest
  omega

/-! ### Capitals -/

def isLowercase (c : UInt8) : Bool :=
  c ≥ 0x61 && c ≤ 0x7a

/-- What the test `name_buf[0] >= b'a' && name_buf[0] <= b'z'` says of a name. -/
def startsLowercase (name : List UInt8) : Bool :=
  isLowercase (name.headD 0)

/-- Names that do not start with a lower-case letter come up again and again. -/
theorem exists_not_lowercase (wellFormed : minifier.WellFormed) (start : ℕ) :
    ∃ n, start ≤ n ∧ startsLowercase (minifier.numberToMinifiedName n) = false := by
  have member : (0x24 : UInt8) ∈ minifier.head :=
    wellFormed.head_perm.mem_iff.mpr (by decide +kernel)
  obtain ⟨i, bound, found⟩ := List.getElem_of_mem member
  rw [wellFormed.head_length] at bound
  refine ⟨i + 54 * start, by omega, ?_⟩
  unfold startsLowercase numberToMinifiedName
  rw [List.headD_cons, show (i + 54 * start) % 54 = i by omega,
    List.getD_eq_getElem _ _ (by rw [wellFormed.head_length]; exact bound), found]
  rfl

end NameMinifier

end Bun.Renamer
