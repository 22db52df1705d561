/-
Strings that keep a short text inside and a longer one as its place in a buffer.

A handle is eight bytes, the least significant first.  The top bit of the last byte says that
the other bits are an offset and a length; without it the bytes are the text itself, up to its
first NUL.  The length of such a text is found by arithmetic on all eight bytes at once.
-/

import Bun.Core.AsciiText
import Bun.Foundation.Endian
import Mathlib.Data.List.Basic

set_option autoImplicit false

namespace Bun.Semver

open Bun.Foundation.LittleEndian

structure SemverString where
  bytes : List UInt8
  sized : bytes.length = 8

structure Pointer where
  off : UInt32
  len : UInt32

namespace Pointer

/-- The place of a text that starts `offset` bytes behind the start of its buffer. -/
def init (offset : ℕ) (text : List UInt8) : Pointer where
  off := UInt32.ofNat offset
  len := UInt32.ofNat text.length

def toBits (pointer : Pointer) : UInt64 :=
  UInt64.ofNat (ofBytes (toBytes 4 pointer.off.toNat ++ toBytes 4 pointer.len.toNat))

def fromBits (bits : UInt64) : Pointer where
  off := UInt32.ofNat (ofBytes ((toBytes 8 bits.toNat).take 4))
  len := UInt32.ofNat (ofBytes ((toBytes 8 bits.toNat).drop 4))

/-- `buf.get(off..off + len)`. -/
def get? (pointer : Pointer) (buf : List UInt8) : Option (List UInt8) :=
  slice? buf pointer.off.toNat pointer.len.toNat

end Pointer

namespace SemverString

def maxInlineLen : ℕ := 8

def maxAddressableSpaceMask : UInt64 := ((1 : UInt64) <<< (63 : UInt64)) - 1

/-- `u64::from_ne_bytes(self.bytes)`. -/
def bits (self : SemverString) : UInt64 :=
  UInt64.ofNat (ofBytes self.bytes)

/-- `bits.to_ne_bytes()`. -/
def ofBits (bits : UInt64) : SemverString where
  bytes := toBytes 8 bits.toNat
  sized := toBytes_length 8 bits.toNat

def lastByte (self : SemverString) : UInt8 :=
  self.bytes.getD (maxInlineLen - 1) 0

def canInline (text : List UInt8) : Bool :=
  if text.length ≤ maxInlineLen - 1 then true
  else if text.length = maxInlineLen then text.getD (maxInlineLen - 1) 0 &&& 0x80 == 0
  else false

def isInline (self : SemverString) : Bool :=
  self.lastByte &&& 0x80 == 0

/-- The bytes of a text with zeros behind it, as `init` and `init_inline` write them out for
each length. -/
def initInline (text : List UInt8) (short : text.length ≤ maxInlineLen) : SemverString where
  bytes := text ++ List.replicate (maxInlineLen - text.length) 0
  sized := by
    rw [List.length_append, List.length_replicate, Nat.add_sub_cancel' short]
    rfl

def pack (pointer : Pointer) : SemverString :=
  ofBits ((pointer.toBits &&& maxAddressableSpaceMask) ||| ((1 : UInt64) <<< (63 : UInt64)))

/-- `init` of a text that starts `offset` bytes behind the start of its buffer. -/
def init (offset : ℕ) (text : List UInt8) : SemverString :=
  if short : text.length ≤ maxInlineLen then
    if text.length = maxInlineLen ∧ text.getD (maxInlineLen - 1) 0 ≥ 128 then
      pack (Pointer.init offset text)
    else initInline text short
  else pack (Pointer.init offset text)

def trailingZeros (bits : UInt64) : ℕ :=
  bits.toBitVec.ctz.toNat

def inlineLen (self : SemverString) : ℕ :=
  let bits := self.bits
  let zeroBytes := (bits - 0x0101010101010101) &&& ~~~bits &&& 0x8080808080808080
  trailingZeros zeroBytes / 8

def ptr (self : SemverString) : Pointer :=
  Pointer.fromBits (self.bits &&& maxAddressableSpaceMask)

def slice (self : SemverString) (buf : List UInt8) : List UInt8 :=
  if self.lastByte &&& 128 = 0 then self.bytes.take self.inlineLen
  else (self.ptr.get? buf).getD []

def eql (self that : SemverString) (thisBuf thatBuf : List UInt8) : Bool :=
  if self.isInline && that.isInline then self.bits == that.bits
  else if self.isInline != that.isInline then false
  else
    match self.ptr.get? thisBuf, that.ptr.get? thatBuf with
    | some a, some b => a == b
    | _, _ => false

/-! ### Marks of zero bytes -/

def ones (bytes : List UInt8) : ℕ :=
  ofBytes (List.replicate bytes.length 1)

def highBits (bytes : List UInt8) : ℕ :=
  ofBytes (List.replicate bytes.length 128)

def withoutOnes (bytes : List UInt8) : ℕ :=
  (256 ^ bytes.length - ones bytes + ofBytes bytes) % 256 ^ bytes.length

/-- Bit `place` of the arithmetic that `inline_len` does, for a text of any length. -/
def isMarked (bytes : List UInt8) (place : ℕ) : Bool :=
  (withoutOnes bytes).testBit place && !(ofBytes bytes).testBit place &&
    (highBits bytes).testBit place

theorem ones_lt (bytes : List UInt8) : ones bytes < 256 ^ bytes.length := by
  have small := ofBytes_lt (List.replicate bytes.length 1)
  rwa [List.length_replicate] at small

theorem withoutOnes_cons_of_pos {byte : UInt8} (bytes : List UInt8) (positive : byte ≠ 0) :
    withoutOnes (byte :: bytes) = 2 ^ 8 * withoutOnes bytes + (byte.toNat - 1) := by
  have isPositive : 0 < byte.toNat := Nat.pos_of_ne_zero fun isZero =>
    positive (UInt8.toNat_inj.mp isZero)
  have small := byte.toNat_lt
  have limit := ones_lt bytes
  have unit : ones (byte :: bytes) = 1 + 256 * ones bytes := rfl
  have power : 256 ^ (byte :: bytes).length = 256 * 256 ^ bytes.length := by
    rw [List.length_cons, pow_succ, Nat.mul_comm]
  have split : 256 * 256 ^ bytes.length - (1 + 256 * ones bytes) +
      (byte.toNat + 256 * ofBytes bytes) =
      (byte.toNat - 1) + 256 * (256 ^ bytes.length - ones bytes + ofBytes bytes) := by
    omega
  rw [withoutOnes, withoutOnes, power, unit, ofBytes, split, Nat.mod_mul,
    Nat.add_mul_mod_self_left, Nat.add_mul_div_left _ _ (by decide),
    Nat.mod_eq_of_lt (by omega : byte.toNat - 1 < 256), Nat.div_eq_of_lt (by omega), Nat.zero_add]
  omega

theorem exists_withoutOnes_cons_zero (bytes : List UInt8) :
    ∃ rest, withoutOnes (0 :: bytes) = 2 ^ 8 * rest + 255 := by
  have limit := ones_lt bytes
  have unit : ones (0 :: bytes) = 1 + 256 * ones bytes := rfl
  have power : 256 ^ ((0 : UInt8) :: bytes).length = 256 * 256 ^ bytes.length := by
    rw [List.length_cons, pow_succ, Nat.mul_comm]
  have isZero : (0 : UInt8).toNat = 0 := rfl
  have split : 256 * 256 ^ bytes.length - (1 + 256 * ones bytes) +
      ((0 : UInt8).toNat + 256 * ofBytes bytes) =
      255 + 256 * (256 ^ bytes.length - ones bytes - 1 + ofBytes bytes) := by
    omega
  refine ⟨(256 ^ bytes.length - ones bytes - 1 + ofBytes bytes) % 256 ^ bytes.length, ?_⟩
  rw [withoutOnes, power, unit, ofBytes, split, Nat.mod_mul, Nat.add_mul_mod_self_left,
    Nat.add_mul_div_left _ _ (by decide), Nat.div_eq_of_lt (by decide), Nat.zero_add]
  omega

theorem highBits_cons (byte : UInt8) (bytes : List UInt8) :
    highBits (byte :: bytes) = 2 ^ 8 * highBits bytes + 128 := by
  rw [highBits, List.length_cons, List.replicate_succ, ofBytes]
  exact Nat.add_comm _ _

private theorem low_marks : ∀ byte : Fin 256, 0 < byte.val → ∀ place : Fin 8,
    ((byte.val - 1).testBit place && !byte.val.testBit place && (128 : ℕ).testBit place) =
      false := by
  decide +kernel

theorem ofBytes_cons (byte : UInt8) (bytes : List UInt8) :
    ofBytes (byte :: bytes) = 2 ^ 8 * ofBytes bytes + byte.toNat := by
  rw [ofBytes]
  exact Nat.add_comm _ _

theorem isMarked_cons_of_pos {byte : UInt8} (bytes : List UInt8) (positive : byte ≠ 0)
    (place : ℕ) :
    isMarked (byte :: bytes) place = (decide (8 ≤ place) && isMarked bytes (place - 8)) := by
  have isPositive : 0 < byte.toNat := Nat.pos_of_ne_zero fun isZero =>
    positive (UInt8.toNat_inj.mp isZero)
  have small : byte.toNat < 2 ^ 8 := byte.toNat_lt
  rw [isMarked, withoutOnes_cons_of_pos bytes positive, ofBytes_cons, highBits_cons,
    Nat.testBit_two_pow_mul_add _ (by omega), Nat.testBit_two_pow_mul_add _ small,
    Nat.testBit_two_pow_mul_add _ (by decide)]
  by_cases low : place < 8
  · rw [if_pos low, if_pos low, if_pos low, decide_eq_false (by omega), Bool.false_and]
    exact low_marks ⟨byte.toNat, small⟩ isPositive ⟨place, low⟩
  · rw [if_neg low, if_neg low, if_neg low, decide_eq_true (by omega), Bool.true_and]
    rfl

private theorem zero_marks : ∀ place : Fin 8,
    ((255 : ℕ).testBit place && !(0 : ℕ).testBit place && (128 : ℕ).testBit place) =
      decide (place.val = 7) := by
  decide

theorem isMarked_cons_zero (bytes : List UInt8) {place : ℕ} (low : place < 8) :
    isMarked (0 :: bytes) place = decide (place = 7) := by
  obtain ⟨rest, isRest⟩ := exists_withoutOnes_cons_zero bytes
  have isZero : (0 : UInt8).toNat = 0 := rfl
  rw [isMarked, isRest, ofBytes_cons, highBits_cons, isZero,
    Nat.testBit_two_pow_mul_add _ (by decide), Nat.testBit_two_pow_mul_add _ (by decide),
    Nat.testBit_two_pow_mul_add _ (by decide), if_pos low, if_pos low, if_pos low]
  exact zero_marks ⟨place, low⟩

theorem isMarked_below (bytes : List UInt8) {place : ℕ}
    (isBelow : place < 8 * bytes.idxOf 0 + 7) : isMarked bytes place = false := by
  induction bytes generalizing place with
  | nil =>
      rw [isMarked, withoutOnes]
      simp [ones, ofBytes]
  | cons byte bytes ih =>
      by_cases isZero : byte = 0
      · subst isZero
        rw [List.idxOf_cons_self] at isBelow
        rw [isMarked_cons_zero bytes (by omega)]
        exact decide_eq_false (by omega)
      · rw [List.idxOf_cons_ne bytes isZero] at isBelow
        rw [isMarked_cons_of_pos bytes isZero]
        by_cases low : 8 ≤ place
        · rw [ih (by omega), Bool.and_false]
        · rw [decide_eq_false low, Bool.false_and]

theorem isMarked_first (bytes : List UInt8) (isIn : 0 ∈ bytes) :
    isMarked bytes (8 * bytes.idxOf 0 + 7) = true := by
  induction bytes with
  | nil => exact nomatch isIn
  | cons byte bytes ih =>
      by_cases isZero : byte = 0
      · subst isZero
        rw [List.idxOf_cons_self, isMarked_cons_zero bytes (by decide)]
        rfl
      · have isLater := (List.mem_cons.mp isIn).resolve_left (Ne.symm isZero)
        have shift : 8 * (bytes.idxOf 0 + 1) + 7 - 8 = 8 * bytes.idxOf 0 + 7 := by omega
        rw [List.idxOf_cons_ne bytes isZero, isMarked_cons_of_pos bytes isZero, shift,
          ih isLater, decide_eq_true (by omega), Bool.true_and]

theorem trailingZeros_eq {bits : UInt64} {place : ℕ} (isSet : bits.toBitVec.getLsbD place = true)
    (isFirst : ∀ lower < place, bits.toBitVec.getLsbD lower = false) :
    trailingZeros bits = place := by
  have notZero : bits.toBitVec ≠ 0#64 := by
    intro isZero
    rw [isZero, BitVec.getLsbD_zero] at isSet
    exact nomatch isSet
  rcases Nat.lt_trichotomy (trailingZeros bits) place with below | same | above
  · have isLow := isFirst _ below
    rw [trailingZeros, BitVec.getLsbD_true_ctz_of_ne_zero notZero] at isLow
    exact nomatch isLow
  · exact same
  · have isLow := BitVec.getLsbD_false_of_lt_ctz above
    rw [isSet] at isLow
    exact nomatch isLow

theorem trailingZeros_zero : trailingZeros 0 = 64 := by
  decide +kernel

def zeroBytes (self : SemverString) : UInt64 :=
  (self.bits - 0x0101010101010101) &&& ~~~self.bits &&& 0x8080808080808080

theorem toNat_bits (self : SemverString) : self.bits.toNat = ofBytes self.bytes := by
  have small := ofBytes_lt self.bytes
  rw [self.sized] at small
  exact UInt64.toNat_ofNat_of_lt' small

theorem getLsbD_zeroBytes (self : SemverString) {place : ℕ} (inside : place < 64) :
    self.zeroBytes.toBitVec.getLsbD place = isMarked self.bytes place := by
  have small := ofBytes_lt self.bytes
  have isOnes : ones self.bytes = 0x0101010101010101 := by
    rw [ones, self.sized]
    decide
  have isHigh : highBits self.bytes = 0x8080808080808080 := by
    rw [highBits, self.sized]
    decide
  rw [self.sized] at small
  have difference : (self.bits - 0x0101010101010101).toNat = withoutOnes self.bytes := by
    rw [UInt64.toNat_sub, toNat_bits, withoutOnes, isOnes, self.sized]
    rfl
  rw [zeroBytes, UInt64.toBitVec_and, UInt64.toBitVec_and, UInt64.toBitVec_not,
    BitVec.getLsbD_and, BitVec.getLsbD_and, BitVec.getLsbD_not, decide_eq_true inside,
    Bool.true_and, isMarked, isHigh, ← difference, ← toNat_bits]
  rfl

theorem inlineLen_eq (self : SemverString) : self.inlineLen = self.bytes.idxOf 0 := by
  have isLen : self.inlineLen = trailingZeros self.zeroBytes / 8 := rfl
  rw [isLen]
  by_cases isIn : 0 ∈ self.bytes
  · have inside : self.bytes.idxOf 0 < 8 := self.sized ▸ List.idxOf_lt_length_of_mem isIn
    have first : trailingZeros self.zeroBytes = 8 * self.bytes.idxOf 0 + 7 := by
      apply trailingZeros_eq
      · rw [getLsbD_zeroBytes self (by omega)]
        exact isMarked_first self.bytes isIn
      · intro lower isLower
        rw [getLsbD_zeroBytes self (by omega)]
        exact isMarked_below self.bytes isLower
    rw [first]
    omega
  · have isEnd : self.bytes.idxOf 0 = 8 := by
      rw [List.idxOf_eq_length isIn, self.sized]
    have noMark : self.zeroBytes = 0 := by
      apply UInt64.toBitVec_inj.mp
      apply BitVec.eq_of_getLsbD_eq
      intro place inside
      rw [getLsbD_zeroBytes self inside, isMarked_below self.bytes (by omega)]
      exact BitVec.getLsbD_zero.symm
    rw [noMark, trailingZeros_zero, isEnd]

/-! ### Places in a buffer -/

theorem toNat_toBits (pointer : Pointer) :
    pointer.toBits.toNat = pointer.off.toNat + 2 ^ 32 * pointer.len.toNat := by
  have offSmall : pointer.off.toNat < 2 ^ 32 := pointer.off.toNat_lt
  have lenSmall : pointer.len.toNat < 2 ^ 32 := pointer.len.toNat_lt
  have isSum : ofBytes (toBytes 4 pointer.off.toNat ++ toBytes 4 pointer.len.toNat) =
      pointer.off.toNat + 2 ^ 32 * pointer.len.toNat := by
    rw [ofBytes_append, toBytes_length, ofBytes_toBytes _ _ offSmall, ofBytes_toBytes _ _ lenSmall]
    rfl
  rw [Pointer.toBits, isSum]
  refine UInt64.toNat_ofNat_of_lt' ?_
  change _ < 2 ^ 64
  omega

theorem toNat_and_mask (bits : UInt64) :
    (bits &&& maxAddressableSpaceMask).toNat = bits.toNat % 2 ^ 63 := by
  have isMask : maxAddressableSpaceMask.toNat = 2 ^ 63 - 1 := by decide
  rw [UInt64.toNat_and, isMask, Nat.and_two_pow_sub_one_eq_mod]

theorem toNat_or_top {bits : UInt64} (small : bits.toNat < 2 ^ 63) :
    (bits ||| ((1 : UInt64) <<< (63 : UInt64))).toNat = 2 ^ 63 + bits.toNat := by
  have isTop : ((1 : UInt64) <<< (63 : UInt64)).toNat = 2 ^ 63 := by decide
  rw [UInt64.toNat_or, isTop, Nat.or_comm]
  exact (Nat.two_pow_add_eq_or_of_lt small 1).symm

theorem ofBytes_take_toBytes (bits : ℕ) :
    ofBytes ((toBytes 8 bits).take 4) = bits % 2 ^ 32 := by
  simp only [toBytes, List.take_succ_cons, List.take_zero, ofBytes, UInt8.toNat_ofNat']
  omega

theorem ofBytes_drop_toBytes (bits : ℕ) :
    ofBytes ((toBytes 8 bits).drop 4) = bits / 2 ^ 32 % 2 ^ 32 := by
  simp only [toBytes, List.drop_succ_cons, List.drop_zero, ofBytes, UInt8.toNat_ofNat']
  omega

theorem toNat_pack (pointer : Pointer) :
    (pack pointer).bits.toNat =
      2 ^ 63 + (pointer.off.toNat + 2 ^ 32 * (pointer.len.toNat % 2 ^ 31)) := by
  have offSmall : pointer.off.toNat < 2 ^ 32 := pointer.off.toNat_lt
  have masked : (pointer.toBits &&& maxAddressableSpaceMask).toNat =
      pointer.off.toNat + 2 ^ 32 * (pointer.len.toNat % 2 ^ 31) := by
    rw [toNat_and_mask, toNat_toBits]
    omega
  rw [toNat_bits, pack, ofBits, ofBytes_toBytes _ _ (UInt64.toNat_lt _),
    toNat_or_top (by omega), masked]

theorem ptr_pack (pointer : Pointer) :
    (pack pointer).ptr =
      { off := pointer.off, len := UInt32.ofNat (pointer.len.toNat % 2 ^ 31) } := by
  have offSmall : pointer.off.toNat < 2 ^ 32 := pointer.off.toNat_lt
  have isBits : ((pack pointer).bits &&& maxAddressableSpaceMask).toNat =
      pointer.off.toNat + 2 ^ 32 * (pointer.len.toNat % 2 ^ 31) := by
    rw [toNat_and_mask, toNat_pack]
    omega
  have isOff : (pointer.off.toNat + 2 ^ 32 * (pointer.len.toNat % 2 ^ 31)) % 2 ^ 32 =
      pointer.off.toNat := by
    omega
  have isLen : (pointer.off.toNat + 2 ^ 32 * (pointer.len.toNat % 2 ^ 31)) / 2 ^ 32 % 2 ^ 32 =
      pointer.len.toNat % 2 ^ 31 := by
    omega
  rw [ptr, Pointer.fromBits, ofBytes_take_toBytes, ofBytes_drop_toBytes, isBits, isOff, isLen,
    UInt32.ofNat_toNat]

theorem lastByte_ofBits (bits : UInt64) :
    (ofBits bits).lastByte = UInt8.ofNat (bits.toNat / 2 ^ 56) := by
  have shift : bits.toNat / 256 / 256 / 256 / 256 / 256 / 256 / 256 = bits.toNat / 2 ^ 56 := by
    omega
  rw [← shift]
  rfl

private theorem top_bit : ∀ byte : Fin 256, (UInt8.ofNat byte.val &&& 128 = 0) ↔ byte.val < 128 := by
  decide +kernel

theorem and_top_eq_zero_iff (byte : UInt8) : byte &&& 128 = 0 ↔ byte.toNat < 128 := by
  have all := top_bit ⟨byte.toNat, byte.toNat_lt⟩
  rwa [UInt8.ofNat_toNat] at all

theorem isInline_iff (self : SemverString) : self.isInline = true ↔ self.lastByte &&& 128 = 0 := by
  exact beq_iff_eq

theorem isInline_pack (pointer : Pointer) : (pack pointer).isInline = false := by
  have isBits := toNat_pack pointer
  rw [toNat_bits, pack, ofBits, ofBytes_toBytes _ _ (UInt64.toNat_lt _)] at isBits
  have offSmall : pointer.off.toNat < 2 ^ 32 := pointer.off.toNat_lt
  rw [← Bool.not_eq_true, isInline_iff, pack, lastByte_ofBits, isBits, and_top_eq_zero_iff,
    UInt8.toNat_ofNat']
  omega

/-! ### What a handle gives back -/

theorem canInline_short {text : List UInt8} (inlined : canInline text = true) :
    text.length ≤ maxInlineLen := by
  unfold canInline at inlined
  split at inlined
  · rename_i short
    exact Nat.le_trans short (by decide)
  · split at inlined
    · rename_i exact'
      exact Nat.le_of_eq exact'
    · exact nomatch inlined

theorem canInline_iff (text : List UInt8) :
    canInline text = true ↔ text.length < maxInlineLen ∨
      text.length = maxInlineLen ∧ text.getD (maxInlineLen - 1) 0 < 128 := by
  have limit : maxInlineLen = 8 := rfl
  rw [canInline]
  split
  · rename_i short
    exact iff_of_true rfl (Or.inl (by omega))
  · rename_i long
    split
    · rename_i exact'
      rw [beq_iff_eq, and_top_eq_zero_iff, UInt8.lt_iff_toNat_lt]
      exact ⟨fun low => Or.inr ⟨exact', low⟩, fun either =>
        either.elim (fun shorter => absurd shorter (by omega)) And.right⟩
    · rename_i other
      refine iff_of_false (by decide) ?_
      rintro (shorter | ⟨exact', -⟩)
      · omega
      · exact other exact'

theorem init_of_canInline {text : List UInt8} (offset : ℕ) (inlined : canInline text = true) :
    init offset text = initInline text (canInline_short inlined) := by
  have short := canInline_short inlined
  rw [init, dif_pos short, if_neg]
  rintro ⟨exact', high⟩
  rw [canInline, if_neg (by rw [exact']; decide), if_pos exact', beq_iff_eq,
    and_top_eq_zero_iff] at inlined
  exact absurd (UInt8.le_iff_toNat_le.mp high) (Nat.not_le_of_lt inlined)

theorem init_of_not_canInline {text : List UInt8} (offset : ℕ) (long : canInline text = false) :
    init offset text = pack (Pointer.init offset text) := by
  rw [init]
  by_cases short : text.length ≤ maxInlineLen
  · rw [dif_pos short, if_pos]
    rw [canInline] at long
    split at long
    · exact nomatch long
    · rename_i notShort
      have exact' : text.length = maxInlineLen := by
        have limit : maxInlineLen = 8 := rfl
        omega
      rw [if_pos exact', ← Bool.not_eq_true, beq_iff_eq, and_top_eq_zero_iff] at long
      exact ⟨exact', UInt8.le_iff_toNat_le.mpr (Nat.le_of_not_lt long)⟩
  · rw [dif_neg short]

theorem lastByte_initInline (text : List UInt8) (short : text.length ≤ maxInlineLen) :
    (initInline text short).lastByte = text.getD (maxInlineLen - 1) 0 := by
  rw [lastByte, initInline, List.getD_eq_getElem?_getD, List.getD_eq_getElem?_getD]
  dsimp only
  by_cases inside : maxInlineLen - 1 < text.length
  · rw [List.getElem?_append_left inside]
  · have outside : text.length ≤ maxInlineLen - 1 := Nat.le_of_not_lt inside
    rw [List.getElem?_append_right outside, List.getElem?_eq_none outside,
      List.getElem?_replicate]
    split <;> rfl

theorem isInline_initInline {text : List UInt8} (inlined : canInline text = true) :
    (initInline text (canInline_short inlined)).isInline = true := by
  rw [isInline_iff, lastByte_initInline, and_top_eq_zero_iff]
  have short := canInline_short inlined
  by_cases exact' : text.length = maxInlineLen
  · rw [canInline, if_neg (by rw [exact']; decide), if_pos exact', beq_iff_eq,
      and_top_eq_zero_iff] at inlined
    exact inlined
  · have outside : text.length ≤ maxInlineLen - 1 :=
      Nat.le_sub_one_of_lt (Nat.lt_of_le_of_ne short exact')
    rw [List.getD_eq_getElem?_getD, List.getElem?_eq_none outside]
    decide

theorem slice_initInline {text : List UInt8} (inlined : canInline text = true)
    (buf : List UInt8) :
    (initInline text (canInline_short inlined)).slice buf = text.take (text.idxOf 0) := by
  have isShort := (isInline_iff _).mp (isInline_initInline inlined)
  rw [slice, if_pos isShort, inlineLen_eq, initInline]
  dsimp only
  by_cases isIn : 0 ∈ text
  · rw [List.idxOf_append_of_mem isIn,
      List.take_append_of_le_length (List.idxOf_lt_length_of_mem isIn).le]
  · rw [List.idxOf_append_of_notMem isIn, List.idxOf_eq_length isIn, List.take_length]
    cases left : maxInlineLen - text.length with
    | zero => simp
    | succ more => simp [List.replicate_succ]

theorem slice_initInline_of_nulFree {text : List UInt8} (inlined : canInline text = true)
    (nulFree : 0 ∉ text) (buf : List UInt8) :
    (initInline text (canInline_short inlined)).slice buf = text := by
  rw [slice_initInline inlined, List.idxOf_eq_length nulFree, List.take_length]

theorem slice_of_pointer {self : SemverString} (isPointer : self.isInline = false)
    (buf : List UInt8) : self.slice buf = (self.ptr.get? buf).getD [] := by
  rw [slice, if_neg]
  rw [← isInline_iff, isPointer]
  decide

theorem get?_pack_init {buf text : List UInt8} {offset : ℕ}
    (isThere : slice? buf offset text.length = some text) (offsetFits : offset < 2 ^ 32)
    (lengthFits : text.length < 2 ^ 31) :
    (pack (Pointer.init offset text)).ptr.get? buf = some text := by
  have offset' : (UInt32.ofNat offset).toNat = offset := UInt32.toNat_ofNat_of_lt' offsetFits
  have length' : (UInt32.ofNat text.length).toNat = text.length :=
    UInt32.toNat_ofNat_of_lt' (Nat.lt_trans lengthFits (by decide))
  rw [ptr_pack, Pointer.get?]
  dsimp only [Pointer.init]
  rw [offset', length', Nat.mod_eq_of_lt lengthFits, length']
  exact isThere

theorem eq_of_bits {self that : SemverString} (same : self.bits = that.bits) : self = that := by
  have sameNumber := congrArg UInt64.toNat same
  rw [toNat_bits, toNat_bits] at sameNumber
  obtain ⟨bytes, sized⟩ := self
  obtain ⟨others, otherSized⟩ := that
  congr 1
  rw [← toBytes_ofBytes bytes, ← toBytes_ofBytes others, sized, otherSized]
  exact congrArg (toBytes 8) sameNumber

theorem isInline_init (offset : ℕ) (text : List UInt8) :
    (init offset text).isInline = canInline text := by
  cases inlined : canInline text with
  | true =>
      rw [init_of_canInline offset inlined]
      exact isInline_initInline inlined
  | false =>
      rw [init_of_not_canInline offset inlined]
      exact isInline_pack _

/-- What callers give to `init`: a part of a buffer that can be addressed, without NULs. -/
structure Embedded (buf : List UInt8) (offset : ℕ) (text : List UInt8) : Prop where
  isThere : slice? buf offset text.length = some text
  addressable : buf.length < 2 ^ 32
  short : text.length < 2 ^ 31
  nulFree : 0 ∉ text

namespace Embedded

variable {buf otherBuf text other : List UInt8} {offset otherOffset : ℕ}

theorem offset_lt (embedded : Embedded buf offset text) : offset < 2 ^ 32 := by
  have isThere := embedded.isThere
  have addressable := embedded.addressable
  unfold slice? at isThere
  split at isThere
  · omega
  · exact nomatch isThere

theorem get? (embedded : Embedded buf offset text) (long : canInline text = false) :
    (init offset text).ptr.get? buf = some text := by
  rw [init_of_not_canInline offset long]
  exact get?_pack_init embedded.isThere embedded.offset_lt embedded.short

theorem slice (embedded : Embedded buf offset text) : (init offset text).slice buf = text := by
  cases inlined : canInline text with
  | true =>
      rw [init_of_canInline offset inlined]
      exact slice_initInline_of_nulFree inlined embedded.nulFree buf
  | false =>
      rw [slice_of_pointer ((isInline_init offset text).trans inlined), embedded.get? inlined]
      rfl

theorem eql_iff (embedded : Embedded buf offset text)
    (embeddedOther : Embedded otherBuf otherOffset other) :
    (init offset text).eql (init otherOffset other) buf otherBuf = true ↔ text = other := by
  rw [eql, isInline_init, isInline_init]
  cases inlined : canInline text with
  | true =>
      cases inlinedOther : canInline other with
      | true =>
          rw [Bool.and_true, if_pos rfl]
          constructor
          · intro same
            have sameHandle := eq_of_bits (eq_of_beq same)
            rw [← embedded.slice, ← embeddedOther.slice, sameHandle,
              init_of_canInline otherOffset inlinedOther,
              slice_initInline inlinedOther, slice_initInline inlinedOther]
          · rintro rfl
            rw [init_of_canInline offset inlined, init_of_canInline otherOffset inlined]
            exact beq_self_eq_true _
      | false =>
          constructor
          · intro impossible
            exact nomatch impossible
          · rintro rfl
            rw [inlined] at inlinedOther
            exact nomatch inlinedOther
  | false =>
      cases inlinedOther : canInline other with
      | true =>
          constructor
          · intro impossible
            exact nomatch impossible
          · rintro rfl
            rw [inlined] at inlinedOther
            exact nomatch inlinedOther
      | false =>
          rw [embedded.get? inlined, embeddedOther.get? inlinedOther]
          exact beq_iff_eq

end Embedded

/-- A handle gives its text back, and handles are equal exactly when their texts are. -/
theorem init_faithful {thisBuf thatBuf thisText thatText : List UInt8} {thisOffset thatOffset : ℕ}
    (isThis : Embedded thisBuf thisOffset thisText)
    (isThat : Embedded thatBuf thatOffset thatText) :
    (init thisOffset thisText).slice thisBuf = thisText ∧
    ((init thisOffset thisText).isInline = true ↔
      thisText.length < maxInlineLen ∨
        thisText.length = maxInlineLen ∧ thisText.getD (maxInlineLen - 1) 0 < 128) ∧
    ((init thisOffset thisText).eql (init thatOffset thatText) thisBuf thatBuf = true ↔
      thisText = thatText) := by
  refine ⟨isThis.slice, ?_, isThis.eql_iff isThat⟩
  rw [isInline_init, canInline_iff]

/-- A text of eight bytes and another one from a longer buffer. -/
theorem init_faithful_reactDom :
    (init 0 (ascii "react-19")).slice (ascii "react-19") = ascii "react-19" ∧
    ((init 0 (ascii "react-19")).isInline = true ↔
      (ascii "react-19").length < maxInlineLen ∨ (ascii "react-19").length = maxInlineLen ∧
        (ascii "react-19").getD (maxInlineLen - 1) 0 < 128) ∧
    ((init 0 (ascii "react-19")).eql (init 2 (ascii "react-19-dom"))
      (ascii "react-19") (ascii "a/react-19-dom") = true ↔
        ascii "react-19" = ascii "react-19-dom") :=
  init_faithful ⟨by decide, by decide, by decide, by decide⟩
    ⟨by decide, by decide, by decide, by decide⟩

/-- A text of eight bytes that ends with a letter outside ASCII is not kept inside. -/
theorem init_points_at_eightBytes :
    ¬ ∀ (buf text : List UInt8) (offset : ℕ), Embedded buf offset text →
      text.length ≤ maxInlineLen → (init offset text).isInline = true := by
  intro every
  have isInside := every (ascii "tables" ++ [0xc3, 0xa9]) (ascii "tables" ++ [0xc3, 0xa9]) 0
    ⟨by decide, by decide, by decide, by decide⟩ (by decide)
  rw [isInline_init] at isInside
  revert isInside
  decide

end SemverString
end Bun.Semver
