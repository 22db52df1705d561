/-
Copying Latin-1 and UTF-16 text into a UTF-8 buffer.

The vectorised conversions of `simdutf` are parameters with their documented results.
The scalar loops around them, which also handle unpaired surrogates and buffers that
are too small, are those of the string library.  A copy is given by the bytes it
writes at the front of the buffer.
-/

import Bun.Core.Wtf8
import Mathlib.Data.List.TakeWhile

set_option autoImplicit false

namespace Bun.Core

/-! ### The texts -/

def latin1Text (latin1 : List UInt8) : List Char :=
  latin1.map fun byte => Char.ofNat byte.toNat

def u16IsLead (c : UInt16) : Bool :=
  c &&& 0xFC00 == 0xD800

def u16IsTrail (c : UInt16) : Bool :=
  c &&& 0xFC00 == 0xDC00

/-- The text of a single unit: an unpaired surrogate is replaced. -/
def unitChar (unit : UInt16) : Char :=
  if u16IsLead unit || u16IsTrail unit then Char.ofNat 0xFFFD else Char.ofNat unit.toNat

def pairChar (lead trail : UInt16) : Char :=
  Char.ofNat (0x10000 + (lead.toNat - 0xD800) * 0x400 + (trail.toNat - 0xDC00))

def utf16Text : List UInt16 → List Char
  | [] => []
  | [unit] => [unitChar unit]
  | first :: second :: rest =>
      if u16IsLead first && u16IsTrail second then pairChar first second :: utf16Text rest
      else unitChar first :: utf16Text (second :: rest)

/-- Whether every surrogate of a text is part of a pair. -/
def isPaired : List UInt16 → Bool
  | [] => true
  | [unit] => !(u16IsLead unit || u16IsTrail unit)
  | first :: second :: rest =>
      if u16IsLead first && u16IsTrail second then isPaired rest
      else !(u16IsLead first || u16IsTrail first) && isPaired (second :: rest)

/-! ### The vectorised conversions -/

structure Simdutf where
  utf8LengthFromLatin1 : List UInt8 → Nat
  utf8LengthFromUtf16le : List UInt16 → Nat
  utf8LengthFromUtf16leWithReplacement : List UInt16 → Nat
  /-- `none` is the status `SURROGATE`. -/
  convertUtf16leToUtf8WithErrors : List UInt16 → Option (List UInt8)

structure Simdutf.Documented (simdutf : Simdutf) : Prop where
  latin1Length : ∀ latin1,
    simdutf.utf8LengthFromLatin1 latin1 = (encodeText (latin1Text latin1)).length
  replacedLength : ∀ utf16,
    simdutf.utf8LengthFromUtf16leWithReplacement utf16 = (encodeText (utf16Text utf16)).length
  converts : ∀ utf16,
    simdutf.convertUtf16leToUtf8WithErrors utf16 =
      if isPaired utf16 then some (encodeText (utf16Text utf16)) else none

/-! ### The string library -/

def elementLengthUtf16IntoUtf8 (simdutf : Simdutf) (utf16 : List UInt16) : Nat :=
  simdutf.utf8LengthFromUtf16leWithReplacement utf16

def elementLengthLatin1IntoUtf8 (simdutf : Simdutf) (latin1 : List UInt8) : Nat :=
  if latin1.length ≤ 32 then latin1.length + latin1.countP (fun c => decide (0x80 ≤ c))
  else simdutf.utf8LengthFromLatin1 latin1

def markedByte (mark : UInt8) (bits : Nat) : UInt8 :=
  mark ||| UInt8.ofNat bits

def latin1ToCodepointBytesAssumeNotAscii (c : UInt8) : List UInt8 :=
  [markedByte 0xC0 (c.toNat >>> 6), markedByte 0x80 (c.toNat &&& 0x3F)]

/-- The ASCII bytes at the front, which `copy_ascii_prefix` copies. -/
def asciiFront (bytes : List UInt8) : List UInt8 :=
  bytes.takeWhile fun byte => decide (byte < 0x80)

/-- `copy_latin1_into_utf8` with `room` bytes of buffer left. -/
def copyLatin1IntoUtf8 (room : Nat) (latin1 : List UInt8) : List UInt8 :=
  if room = 0 ∨ latin1 = [] then []
  else
    let n := min room latin1.length
    let front := asciiFront (latin1.take n)
    if front.length = n then front
    else
      match _found : latin1.drop front.length with
      | [] => front
      | c :: rest =>
          if room - front.length < 2 then front
          else
            front ++ latin1ToCodepointBytesAssumeNotAscii c ++
              copyLatin1IntoUtf8 (room - front.length - 2) rest
termination_by latin1.length
decreasing_by
  have shorter : (latin1.drop front.length).length = (c :: rest).length := by rw [_found]
  rw [List.length_drop, List.length_cons] at shorter
  omega

def u16SurrogateOffset : Nat := (0xD800 <<< 10) + 0xDC00 - 0x10000

def u16GetSupplementary (lead trail : UInt16) : Nat :=
  (lead.toNat <<< 10) + trail.toNat - u16SurrogateOffset

/-- The code point at the front and the number of its units. -/
def utf16CodepointWithFffd (char : UInt16) (rest : List UInt16) : Nat × Nat :=
  if u16IsLead char then
    match rest with
    | [] => (0xFFFD, 1)
    | c1 :: _ => if !u16IsTrail c1 then (0xFFFD, 1) else (u16GetSupplementary char c1, 2)
  else if u16IsTrail char then (0xFFFD, 1)
  else (char.toNat, 1)

def encodeWtf8Rune (cp : Nat) : List UInt8 :=
  if cp < 0x80 then [UInt8.ofNat cp]
  else if cp < 0x800 then
    [markedByte 0xC0 (cp >>> 6), markedByte 0x80 (cp &&& 0x3F)]
  else if cp < 0x10000 then
    [markedByte 0xE0 (cp >>> 12), markedByte 0x80 ((cp >>> 6) &&& 0x3F),
      markedByte 0x80 (cp &&& 0x3F)]
  else
    [markedByte 0xF0 (cp >>> 18), markedByte 0x80 ((cp >>> 12) &&& 0x3F),
      markedByte 0x80 ((cp >>> 6) &&& 0x3F), markedByte 0x80 (cp &&& 0x3F)]

def firstNonAscii16 (units : List UInt16) : Option Nat :=
  (units.findIdx? fun unit => decide (unit > 127)).map (· % 2 ^ 32)

def copyU16IntoU8 (units : List UInt16) : List UInt8 :=
  units.map UInt16.toUInt8

/-- The scalar loop of `copy_utf16_into_utf8_with_buffer_impl`.  A sequence that does not
fit is cut, as truncated sequences are allowed. -/
def copyUtf16IntoUtf8Scalar (room : Nat) (utf16 : List UInt16) : List UInt8 :=
  match firstNonAscii16 utf16 with
  | none => copyU16IntoU8 (utf16.take room)
  | some i =>
      let stop := min i room
      let front := copyU16IntoU8 (utf16.take stop)
      match _found : utf16.drop stop with
      | [] => front
      | char :: rest =>
          if room - stop = 0 then front
          else
            let replacement := utf16CodepointWithFffd char rest
            let encoded := encodeWtf8Rune replacement.1
            if encoded.length > room - stop then front ++ encoded.take (room - stop)
            else
              front ++ encoded ++
                copyUtf16IntoUtf8Scalar (room - stop - encoded.length)
                  (rest.drop (replacement.2 - 1))
termination_by utf16.length
decreasing_by
  have shorter : (utf16.drop stop).length = (char :: rest).length := by rw [_found]
  rw [List.length_drop, List.length_cons] at shorter
  rw [List.length_drop]
  omega

/-- `copy_utf16_into_utf8_impl` with truncated sequences allowed. -/
def copyUtf16IntoUtf8 (simdutf : Simdutf) (room : Nat) (utf16 : List UInt16) : List UInt8 :=
  if utf16 = [] then []
  else
    let outLen := if room ≤ utf16.length * 3 then simdutf.utf8LengthFromUtf16le utf16 else room
    if room ≥ outLen then
      match simdutf.convertUtf16leToUtf8WithErrors utf16 with
      | some converted => converted
      | none => copyUtf16IntoUtf8Scalar room utf16
    else copyUtf16IntoUtf8Scalar room utf16

/-! ### One code point -/

private theorem marked_two : ∀ high : Fin 32,
    markedByte 0xC0 high.val = UInt8.ofNat (high.val + 0xC0) := by
  decide

private theorem marked_three : ∀ high : Fin 16,
    markedByte 0xE0 high.val = UInt8.ofNat (high.val + 0xE0) := by
  decide

private theorem marked_four : ∀ high : Fin 8,
    markedByte 0xF0 high.val = UInt8.ofNat (high.val + 0xF0) := by
  decide

private theorem marked_low : ∀ low : Fin 64,
    markedByte 0x80 low.val = UInt8.ofNat (low.val + 0x80) := by
  decide +kernel

private theorem markedLow_eq (bits : Nat) :
    markedByte 0x80 (bits &&& 0x3F) = UInt8.ofNat (bits % 0x40 + 0x80) := by
  have low : bits &&& 0x3F = bits % 64 := by simpa using Nat.and_two_pow_sub_one_eq_mod bits 6
  rw [low]
  exact marked_low ⟨bits % 64, Nat.mod_lt _ (by decide)⟩

theorem toNat_ofNat {cp : Nat} (valid : cp.isValidChar) : (Char.ofNat cp).toNat = cp := by
  rw [Char.ofNat, dif_pos valid]
  rfl

/-- The library's encoding of a scalar value is its UTF-8 encoding. -/
theorem encodeWtf8Rune_eq {cp : Nat} (valid : cp.isValidChar) :
    encodeWtf8Rune cp = String.utf8EncodeChar (Char.ofNat cp) := by
  have bounded : cp ≤ 0x10FFFF := by
    have below := char_toNat_le (Char.ofNat cp)
    rwa [toNat_ofNat valid] at below
  have shift (width : Nat) : cp >>> width = cp / 2 ^ width := Nat.shiftRight_eq_div_pow cp width
  unfold encodeWtf8Rune String.utf8EncodeChar
  change _ = if (Char.ofNat cp).toNat ≤ 0x7f then [UInt8.ofNat (Char.ofNat cp).toNat]
    else if (Char.ofNat cp).toNat ≤ 0x7ff then
      [UInt8.ofNat ((Char.ofNat cp).toNat / 64 % 0x20 + 0xC0),
        UInt8.ofNat ((Char.ofNat cp).toNat % 0x40 + 0x80)]
    else if (Char.ofNat cp).toNat ≤ 0xffff then
      [UInt8.ofNat ((Char.ofNat cp).toNat / 4096 % 0x10 + 0xE0),
        UInt8.ofNat ((Char.ofNat cp).toNat / 64 % 0x40 + 0x80),
        UInt8.ofNat ((Char.ofNat cp).toNat % 0x40 + 0x80)]
    else
      [UInt8.ofNat ((Char.ofNat cp).toNat / 262144 % 0x08 + 0xF0),
        UInt8.ofNat ((Char.ofNat cp).toNat / 4096 % 0x40 + 0x80),
        UInt8.ofNat ((Char.ofNat cp).toNat / 64 % 0x40 + 0x80),
        UInt8.ofNat ((Char.ofNat cp).toNat % 0x40 + 0x80)]
  rw [toNat_ofNat valid]
  simp only [markedLow_eq, shift]
  by_cases one : cp < 0x80
  · rw [if_pos one, if_pos (show cp ≤ 0x7f by omega)]
  · rw [if_neg one, if_neg (show ¬cp ≤ 0x7f by omega)]
    by_cases two : cp < 0x800
    · rw [if_pos two, if_pos (show cp ≤ 0x7ff by omega)]
      have high := marked_two ⟨cp / 64, by omega⟩
      rw [show cp / 2 ^ 6 = cp / 64 from rfl, high, Nat.mod_eq_of_lt (show cp / 64 < 0x20 by omega)]
    · rw [if_neg two, if_neg (show ¬cp ≤ 0x7ff by omega)]
      by_cases three : cp < 0x10000
      · rw [if_pos three, if_pos (show cp ≤ 0xffff by omega)]
        have high := marked_three ⟨cp / 4096, by omega⟩
        rw [show cp / 2 ^ 12 = cp / 4096 from rfl, high,
          Nat.mod_eq_of_lt (show cp / 4096 < 0x10 by omega)]
        rfl
      · rw [if_neg three, if_neg (show ¬cp ≤ 0xffff by omega)]
        have high := marked_four ⟨cp / 262144, by omega⟩
        rw [show cp / 2 ^ 18 = cp / 262144 from rfl, high,
          Nat.mod_eq_of_lt (show cp / 262144 < 0x08 by omega)]
        rfl

private theorem highBits_eq (c : UInt16) : (c &&& 0xFC00).toNat = c.toNat / 1024 * 1024 := by
  have bounded := c.toNat_lt
  rw [UInt16.toNat_and]
  change c.toNat &&& 0xFC00 = _
  have high : (c.toNat &&& 0xFC00) / 1024 = c.toNat / 1024 := by
    have shifted := Nat.shiftRight_and_distrib (a := c.toNat) (b := 0xFC00) (i := 10)
    simp only [Nat.shiftRight_eq_div_pow] at shifted
    change (c.toNat &&& 0xFC00) / 1024 = c.toNat / 1024 &&& 2 ^ 6 - 1 at shifted
    rw [shifted, Nat.and_two_pow_sub_one_eq_mod]
    omega
  have low : (c.toNat &&& 0xFC00) % 1024 = 0 := by
    have masked := Nat.and_two_pow_sub_one_eq_mod (c.toNat &&& 0xFC00) 10
    rw [Nat.and_assoc] at masked
    change c.toNat &&& 0 = _ at masked
    rw [Nat.and_zero] at masked
    exact masked.symm
  omega

theorem u16IsLead_iff (c : UInt16) :
    u16IsLead c = true ↔ 0xD800 ≤ c.toNat ∧ c.toNat < 0xDC00 := by
  rw [u16IsLead, beq_iff_eq, ← UInt16.toNat_inj, highBits_eq]
  change _ = 0xD800 ↔ _
  omega

theorem u16IsTrail_iff (c : UInt16) :
    u16IsTrail c = true ↔ 0xDC00 ≤ c.toNat ∧ c.toNat < 0xE000 := by
  rw [u16IsTrail, beq_iff_eq, ← UInt16.toNat_inj, highBits_eq]
  change _ = 0xDC00 ↔ _
  omega

theorem supplementary_eq {lead trail : UInt16} (isLead : u16IsLead lead = true)
    (isTrail : u16IsTrail trail = true) :
    u16GetSupplementary lead trail =
      0x10000 + (lead.toNat - 0xD800) * 0x400 + (trail.toNat - 0xDC00) := by
  rw [u16IsLead_iff] at isLead
  rw [u16IsTrail_iff] at isTrail
  rw [u16GetSupplementary, Nat.shiftLeft_eq]
  change _ - 0x35FDC00 = _
  omega

theorem isValidChar_unit {unit : UInt16}
    (single : (u16IsLead unit || u16IsTrail unit) = false) : unit.toNat.isValidChar := by
  rw [Bool.or_eq_false_iff] at single
  have bounded := unit.toNat_lt
  have notLead : ¬(0xD800 ≤ unit.toNat ∧ unit.toNat < 0xDC00) := by
    rw [← u16IsLead_iff, single.1]
    decide
  have notTrail : ¬(0xDC00 ≤ unit.toNat ∧ unit.toNat < 0xE000) := by
    rw [← u16IsTrail_iff, single.2]
    decide
  unfold Nat.isValidChar
  omega

theorem isValidChar_replacement : Nat.isValidChar 0xFFFD := by
  decide

theorem utf16Text_cons (char : UInt16) (rest : List UInt16) :
    (utf16CodepointWithFffd char rest).1.isValidChar ∧
      utf16Text (char :: rest) =
        Char.ofNat (utf16CodepointWithFffd char rest).1 ::
          utf16Text (rest.drop ((utf16CodepointWithFffd char rest).2 - 1)) := by
  have single : ∀ rest,
      utf16CodepointWithFffd char rest = (if u16IsLead char || u16IsTrail char then 0xFFFD
        else char.toNat, 1) →
      (utf16CodepointWithFffd char rest).1.isValidChar ∧
        unitChar char = Char.ofNat (utf16CodepointWithFffd char rest).1 := by
    intro rest codepointEq
    rw [codepointEq, unitChar]
    cases surrogate : u16IsLead char || u16IsTrail char with
    | true => exact ⟨isValidChar_replacement, rfl⟩
    | false => exact ⟨isValidChar_unit surrogate, rfl⟩
  cases rest with
  | nil =>
      have codepointEq : utf16CodepointWithFffd char [] =
          (if u16IsLead char || u16IsTrail char then 0xFFFD else char.toNat, 1) := by
        unfold utf16CodepointWithFffd
        cases u16IsLead char <;> cases u16IsTrail char <;> rfl
      obtain ⟨valid, charEq⟩ := single [] codepointEq
      refine ⟨valid, ?_⟩
      rw [utf16Text, charEq, codepointEq]
      rfl
  | cons second rest =>
      cases pair : u16IsLead char && u16IsTrail second with
      | true =>
          obtain ⟨isLead, isTrail⟩ := Bool.and_eq_true_iff.mp pair
          have codepointEq : utf16CodepointWithFffd char (second :: rest) =
              (u16GetSupplementary char second, 2) := by
            unfold utf16CodepointWithFffd
            rw [if_pos isLead]
            simp [isTrail]
          rw [codepointEq, utf16Text, if_pos pair, supplementary_eq isLead isTrail]
          refine ⟨?_, rfl⟩
          rw [u16IsLead_iff] at isLead
          rw [u16IsTrail_iff] at isTrail
          unfold Nat.isValidChar
          dsimp only
          omega
      | false =>
          have codepointEq : utf16CodepointWithFffd char (second :: rest) =
              (if u16IsLead char || u16IsTrail char then 0xFFFD else char.toNat, 1) := by
            unfold utf16CodepointWithFffd
            cases isLead : u16IsLead char with
            | true =>
                rw [isLead, Bool.true_and] at pair
                simp [pair]
            | false => cases u16IsTrail char <;> rfl
          obtain ⟨valid, charEq⟩ := single _ codepointEq
          refine ⟨valid, ?_⟩
          rw [utf16Text, if_neg (by rw [pair]; decide), charEq, codepointEq]
          rfl

/-! ### The copies fill their buffer -/

theorem isValidChar_byte (byte : UInt8) : byte.toNat.isValidChar := by
  have bounded := byte.toNat_lt
  unfold Nat.isValidChar
  omega

theorem encode_byte (byte : UInt8) :
    String.utf8EncodeChar (Char.ofNat byte.toNat) =
      if byte < 0x80 then [byte] else latin1ToCodepointBytesAssumeNotAscii byte := by
  have bounded := byte.toNat_lt
  rw [← encodeWtf8Rune_eq (isValidChar_byte byte), encodeWtf8Rune]
  by_cases ascii : byte < 0x80
  · have small : byte.toNat < 0x80 := UInt8.lt_iff_toNat_lt.mp ascii
    rw [if_pos ascii, if_pos small, UInt8.ofNat_toNat]
  · have large : ¬byte.toNat < 0x80 := fun small => ascii (UInt8.lt_iff_toNat_lt.mpr small)
    rw [if_neg ascii, if_neg large, if_pos (by omega)]
    rfl

theorem encodeText_latin1_cons (byte : UInt8) (latin1 : List UInt8) :
    encodeText (latin1Text (byte :: latin1)) =
      (if byte < 0x80 then [byte] else latin1ToCodepointBytesAssumeNotAscii byte) ++
        encodeText (latin1Text latin1) := by
  rw [latin1Text, List.map_cons, encodeText_cons, encode_byte]
  rfl

theorem encodeText_latin1_append (front back : List UInt8) :
    encodeText (latin1Text (front ++ back)) =
      encodeText (latin1Text front) ++ encodeText (latin1Text back) := by
  rw [latin1Text, List.map_append, encodeText_append]
  rfl

theorem encodeText_ascii {latin1 : List UInt8} (ascii : ∀ byte ∈ latin1, byte < 0x80) :
    encodeText (latin1Text latin1) = latin1 := by
  induction latin1 with
  | nil => rfl
  | cons byte latin1 rest =>
      rw [encodeText_latin1_cons, if_pos (ascii byte List.mem_cons_self),
        rest fun later isIn => ascii later (List.mem_cons_of_mem _ isIn)]
      rfl

theorem encodeText_latin1_length (latin1 : List UInt8) :
    (encodeText (latin1Text latin1)).length =
      latin1.length + latin1.countP (fun c => decide (0x80 ≤ c)) := by
  induction latin1 with
  | nil => rfl
  | cons byte latin1 rest =>
      rw [encodeText_latin1_cons, List.length_append, rest, List.length_cons, List.countP_cons]
      by_cases ascii : byte < 0x80
      · rw [if_pos ascii, if_neg (by simpa using ascii)]
        simp only [List.length_singleton]
        omega
      · rw [if_neg ascii, if_pos (by simpa using ascii)]
        simp only [latin1ToCodepointBytesAssumeNotAscii, List.length_cons, List.length_nil]
        omega

theorem asciiFront_ascii (bytes : List UInt8) : ∀ byte ∈ asciiFront bytes, byte < 0x80 := by
  intro byte isIn
  have inFront := List.mem_takeWhile_imp (p := fun byte => decide (byte < (0x80 : UInt8))) isIn
  exact of_decide_eq_true inFront

theorem drop_asciiFront (bytes : List UInt8) :
    bytes.drop (asciiFront bytes).length = bytes.dropWhile fun byte => decide (byte < 0x80) := by
  have dropped : (asciiFront bytes ++ bytes.dropWhile fun byte => decide (byte < 0x80)).drop
      (asciiFront bytes).length = bytes.dropWhile fun byte => decide (byte < 0x80) :=
    List.drop_left
  rw [asciiFront, List.takeWhile_append_dropWhile] at dropped
  exact dropped

theorem copyLatin1IntoUtf8_eq (latin1 : List UInt8) :
    copyLatin1IntoUtf8 (encodeText (latin1Text latin1)).length latin1 =
      encodeText (latin1Text latin1) := by
  induction sizeEq : latin1.length using Nat.strong_induction_on generalizing latin1 with
  | _ size shorter =>
      have roomy : latin1.length ≤ (encodeText (latin1Text latin1)).length := by
        rw [encodeText_latin1_length]
        omega
      rw [copyLatin1IntoUtf8]
      by_cases empty : latin1 = []
      · rw [if_pos (Or.inr empty), empty]
        rfl
      · have nonempty : 0 < latin1.length := List.length_pos_iff.mpr empty
        rw [if_neg (by rintro (noRoom | isEmpty); exacts [by omega, empty isEmpty])]
        have count : min (encodeText (latin1Text latin1)).length latin1.length = latin1.length := by
          omega
        dsimp only
        rw [count, List.take_length]
        have ascii := asciiFront_ascii latin1
        have splits : asciiFront latin1 ++ latin1.drop (asciiFront latin1).length = latin1 := by
          rw [drop_asciiFront]
          exact List.takeWhile_append_dropWhile
        have frontEq := encodeText_ascii ascii
        by_cases whole : (asciiFront latin1).length = latin1.length
        · rw [if_pos whole]
          rw [whole, List.drop_length, List.append_nil] at splits
          rw [splits] at frontEq ⊢
          exact frontEq.symm
        · rw [if_neg whole]
          have encodedEq : encodeText (latin1Text latin1) =
              asciiFront latin1 ++
                encodeText (latin1Text (latin1.drop (asciiFront latin1).length)) := by
            conv => lhs; rw [← splits]
            rw [encodeText_latin1_append, frontEq]
          split
          · rename_i found
            rw [found] at splits
            rw [List.append_nil] at splits
            rw [splits] at whole
            exact absurd rfl whole
          · rename_i c rest found
            have notAscii : ¬c < 0x80 := by
              intro isAscii
              have stop : (latin1.drop (asciiFront latin1).length).head? = some c := by
                rw [found]
                rfl
              rw [drop_asciiFront] at stop
              have failing := List.head?_dropWhile_not (fun byte => decide (byte < (0x80 : UInt8)))
                latin1
              rw [stop] at failing
              simp [isAscii] at failing
            have restLength : rest.length < size := by
              have shortened : (latin1.drop (asciiFront latin1).length).length =
                  (c :: rest).length := by rw [found]
              rw [List.length_drop, List.length_cons] at shortened
              omega
            rw [found, encodeText_latin1_cons, if_neg notAscii] at encodedEq
            have twoBytes : (latin1ToCodepointBytesAssumeNotAscii c).length = 2 := rfl
            have lengthEq : (encodeText (latin1Text latin1)).length =
                (asciiFront latin1).length + (2 + (encodeText (latin1Text rest)).length) := by
              rw [encodedEq, List.length_append, List.length_append, twoBytes]
            rw [lengthEq, if_neg (by omega),
              show (asciiFront latin1).length + (2 + (encodeText (latin1Text rest)).length) -
                (asciiFront latin1).length - 2 = (encodeText (latin1Text rest)).length by omega,
              shorter rest.length restLength rest rfl, encodedEq, List.append_assoc]

theorem elementLengthLatin1IntoUtf8_eq {simdutf : Simdutf} (documented : simdutf.Documented)
    (latin1 : List UInt8) :
    elementLengthLatin1IntoUtf8 simdutf latin1 = (encodeText (latin1Text latin1)).length := by
  unfold elementLengthLatin1IntoUtf8
  split
  · exact (encodeText_latin1_length latin1).symm
  · exact documented.latin1Length latin1

theorem codepoint_ascii {unit : UInt16} (ascii : unit ≤ 127) (rest : List UInt16) :
    utf16CodepointWithFffd unit rest = (unit.toNat, 1) := by
  have small : unit.toNat ≤ 127 := UInt16.le_iff_toNat_le.mp ascii
  have notLead : ¬u16IsLead unit = true := by
    rw [u16IsLead_iff]
    omega
  have notTrail : ¬u16IsTrail unit = true := by
    rw [u16IsTrail_iff]
    omega
  unfold utf16CodepointWithFffd
  rw [if_neg notLead, if_neg notTrail]

theorem encodeText_utf16_cons (char : UInt16) (rest : List UInt16) :
    encodeText (utf16Text (char :: rest)) =
      encodeWtf8Rune (utf16CodepointWithFffd char rest).1 ++
        encodeText (utf16Text (rest.drop ((utf16CodepointWithFffd char rest).2 - 1))) := by
  obtain ⟨valid, textEq⟩ := utf16Text_cons char rest
  rw [textEq, encodeText_cons, encodeWtf8Rune_eq valid]

theorem encodeText_utf16_append {front : List UInt16} (ascii : ∀ unit ∈ front, unit ≤ 127)
    (back : List UInt16) :
    encodeText (utf16Text (front ++ back)) =
      copyU16IntoU8 front ++ encodeText (utf16Text back) := by
  induction front with
  | nil => rfl
  | cons unit front rest =>
      have small := ascii unit List.mem_cons_self
      have smallNat : unit.toNat ≤ 127 := UInt16.le_iff_toNat_le.mp small
      rw [List.cons_append, encodeText_utf16_cons, codepoint_ascii small, encodeWtf8Rune,
        if_pos (by dsimp only; omega), Nat.sub_self, List.drop_zero,
        rest fun later isIn => ascii later (List.mem_cons_of_mem _ isIn)]
      rfl

theorem firstNonAscii16_cases (utf16 : List UInt16) :
    (firstNonAscii16 utf16 = none ∧ ∀ unit ∈ utf16, unit ≤ 127) ∨
      ∃ i, firstNonAscii16 utf16 = some i ∧ i < utf16.length ∧
        ∀ unit ∈ utf16.take i, unit ≤ 127 := by
  unfold firstNonAscii16
  cases found : utf16.findIdx? fun unit => decide (unit > 127) with
  | none =>
      refine Or.inl ⟨rfl, ?_⟩
      rw [List.findIdx?_eq_none_iff] at found
      intro unit isIn
      have notAbove := found unit isIn
      simpa using notAbove
  | some index =>
      rw [List.findIdx?_eq_some_iff_getElem] at found
      obtain ⟨inside, -, before⟩ := found
      have truncated : index % 2 ^ 32 ≤ index := Nat.mod_le _ _
      refine Or.inr ⟨index % 2 ^ 32, rfl, by omega, ?_⟩
      intro unit isIn
      obtain ⟨place, placeLt, rfl⟩ := List.mem_iff_getElem.mp isIn
      rw [List.length_take] at placeLt
      rw [List.getElem_take]
      have notAbove := before place (by omega)
      simpa using notAbove

theorem length_copyU16IntoU8 (units : List UInt16) :
    (copyU16IntoU8 units).length = units.length := List.length_map _

theorem copyUtf16IntoUtf8Scalar_eq (utf16 : List UInt16) :
    copyUtf16IntoUtf8Scalar (encodeText (utf16Text utf16)).length utf16 =
      encodeText (utf16Text utf16) := by
  induction sizeEq : utf16.length using Nat.strong_induction_on generalizing utf16 with
  | _ size shorter =>
      rw [copyUtf16IntoUtf8Scalar]
      rcases firstNonAscii16_cases utf16 with ⟨notFound, ascii⟩ | ⟨i, found, inside, ascii⟩
      · have encodedEq := encodeText_utf16_append ascii []
        rw [List.append_nil] at encodedEq
        have encodedAscii : encodeText (utf16Text utf16) = copyU16IntoU8 utf16 :=
          encodedEq.trans (List.append_nil _)
        rw [notFound]
        dsimp only
        rw [encodedAscii, length_copyU16IntoU8, List.take_length]
      · have encodedEq := encodeText_utf16_append ascii (utf16.drop i)
        rw [List.take_append_drop] at encodedEq
        have takenLength : (copyU16IntoU8 (utf16.take i)).length = i := by
          rw [length_copyU16IntoU8, List.length_take_of_le (Nat.le_of_lt inside)]
        have roomEq : (encodeText (utf16Text utf16)).length =
            i + (encodeText (utf16Text (utf16.drop i))).length := by
          rw [encodedEq, List.length_append, takenLength]
        have stopEq : min i (encodeText (utf16Text utf16)).length = i := by omega
        rw [found]
        dsimp only
        rw [stopEq]
        split
        · rename_i droppedEq
          have noneLeft := congrArg List.length droppedEq
          rw [List.length_drop, List.length_nil] at noneLeft
          omega
        · rename_i char rest droppedEq
          have restLength : rest.length < size := by
            have dropped := congrArg List.length droppedEq
            rw [List.length_drop, List.length_cons] at dropped
            omega
          rw [droppedEq, encodeText_utf16_cons] at encodedEq roomEq
          rw [List.length_append] at roomEq
          have encodedPos : 0 < (encodeWtf8Rune (utf16CodepointWithFffd char rest).1).length := by
            unfold encodeWtf8Rune
            split
            · exact Nat.succ_pos _
            · split
              · exact Nat.succ_pos _
              · split <;> exact Nat.succ_pos _
          rw [if_neg (by omega), if_neg (by omega)]
          have later := shorter _ (by rw [List.length_drop]; omega)
            (rest.drop ((utf16CodepointWithFffd char rest).2 - 1)) rfl
          rw [roomEq, Nat.add_sub_cancel_left, Nat.add_sub_cancel_left, later, encodedEq,
            List.append_assoc]

theorem copyUtf16IntoUtf8_eq {simdutf : Simdutf} (documented : simdutf.Documented)
    (utf16 : List UInt16) :
    copyUtf16IntoUtf8 simdutf (encodeText (utf16Text utf16)).length utf16 =
      encodeText (utf16Text utf16) := by
  unfold copyUtf16IntoUtf8
  by_cases empty : utf16 = []
  · rw [if_pos empty, empty]
    rfl
  · rw [if_neg empty]
    dsimp only
    generalize (if (encodeText (utf16Text utf16)).length ≤ utf16.length * 3 then
      simdutf.utf8LengthFromUtf16le utf16 else (encodeText (utf16Text utf16)).length) = outLen
    split
    · rw [documented.converts]
      cases isPaired utf16 with
      | true => rfl
      | false => exact copyUtf16IntoUtf8Scalar_eq utf16
    · exact copyUtf16IntoUtf8Scalar_eq utf16

end Bun.Core
