/-
WTF-8 decoding and the byte scan for line terminators and non-ASCII text.

The decoder is the table-driven one of the string library, with its replacement
value for malformed input.  On the encoding of a character it returns the
character, which is all that a scan over printed text uses.
-/

import Mathlib.Data.List.Basic
import Mathlib.Data.Nat.Bitwise

set_option autoImplicit false

namespace Bun.Core

def wtf8ByteSequenceLength (firstByte : UInt8) : Nat :=
  if firstByte ≤ 0x7F then 1
  else if 0xC0 ≤ firstByte ∧ firstByte ≤ 0xDF then 2
  else if 0xE0 ≤ firstByte ∧ firstByte ≤ 0xEF then 3
  else if 0xF0 ≤ firstByte ∧ firstByte ≤ 0xF7 then 4
  else 1

/-- The four-byte buffer is zero-padded, so a missing byte reads as zero. -/
def decodeWtf8RuneTMultibyte (p : List UInt8) (len : Nat) (zero : Int) : Int :=
  let s0 := p.getD 0 0
  let s1 := p.getD 1 0
  let s2 := p.getD 2 0
  let s3 := p.getD 3 0
  if s1 &&& 0xC0 ≠ 0x80 then zero
  else if len = 2 then
    let cp := ((s0 &&& 0x1F).toNat <<< 6) ||| (s1 &&& 0x3F).toNat
    if cp < 0x80 then zero else cp
  else if s2 &&& 0xC0 ≠ 0x80 then zero
  else if len = 3 then
    let cp := ((s0 &&& 0x0F).toNat <<< 12) ||| ((s1 &&& 0x3F).toNat <<< 6) |||
      (s2 &&& 0x3F).toNat
    if cp < 0x800 then zero else cp
  else if s3 &&& 0xC0 ≠ 0x80 then zero
  else
    let cp := ((s0 &&& 0x07).toNat <<< 18) ||| ((s1 &&& 0x3F).toNat <<< 12) |||
      ((s2 &&& 0x3F).toNat <<< 6) ||| (s3 &&& 0x3F).toNat
    if cp < 0x10000 ∨ cp > 0x10FFFF then zero else cp

def decodeWtf8RuneT (p : List UInt8) (len : Nat) (zero : Int) : Int :=
  if len = 0 then zero
  else if len = 1 then (p.getD 0 0).toNat
  else decodeWtf8RuneTMultibyte p len zero

def unicodeReplacement : Int := 0xFFFD

structure Cursor where
  i : Nat
  width : Nat
  c : Int
deriving DecidableEq, Repr

/-- `CodepointIterator::next`: whether there was a code point, and the cursor on it. -/
def codepointNext (bytes : List UInt8) (cursor : Cursor) : Bool × Cursor :=
  let pos := cursor.i + cursor.width
  match bytes.drop pos with
  | [] => (false, cursor)
  | first :: rest =>
      if first < 0x80 then (true, { i := pos, width := 1, c := first.toNat })
      else
        let len := wtf8ByteSequenceLength first
        let cp := decodeWtf8RuneT ((first :: rest).take len) len (-1)
        if cp = -1 then (true, { i := pos, width := 1, c := unicodeReplacement })
        else (true, { i := pos, width := len, c := cp })

def isNewlineOrNonAscii (byte : UInt8) : Bool :=
  byte > 127 || byte < 0x20

/-- `index_of_newline_or_non_ascii`: its first test leaves a tab to the scan, which
stops at it as well. -/
def indexOfNewlineOrNonAscii (slice : List UInt8) (offset : Nat) : Option Nat :=
  match slice.drop offset with
  | [] => none
  | first :: rest =>
      if first > 127 ∨ (first < 0x20 ∧ first ≠ 0x09) then some offset
      else ((first :: rest).findIdx? isNewlineOrNonAscii).map (· + offset)

theorem indexOfNewlineOrNonAscii_eq (slice : List UInt8) (offset : Nat) :
    indexOfNewlineOrNonAscii slice offset =
      ((slice.drop offset).findIdx? isNewlineOrNonAscii).map (· + offset) := by
  unfold indexOfNewlineOrNonAscii
  cases slice.drop offset with
  | nil => rfl
  | cons first rest =>
      dsimp only
      split
      · rename_i stops
        have here : isNewlineOrNonAscii first = true := by
          unfold isNewlineOrNonAscii
          rcases stops with above | ⟨below, -⟩
          · simp [above]
          · simp [below]
        rw [List.findIdx?_cons, here]
        simp
      · rfl

theorem le_of_indexOfNewlineOrNonAscii {slice : List UInt8} {offset found : Nat}
    (here : indexOfNewlineOrNonAscii slice offset = some found) : offset ≤ found := by
  rw [indexOfNewlineOrNonAscii_eq, Option.map_eq_some_iff] at here
  obtain ⟨index, -, rfl⟩ := here
  omega

/-! ### Decoding an encoded character -/

def encodeText (text : List Char) : List UInt8 :=
  text.flatMap String.utf8EncodeChar

theorem encodeText_cons (c : Char) (text : List Char) :
    encodeText (c :: text) = String.utf8EncodeChar c ++ encodeText text := rfl

theorem encodeText_append (front back : List Char) :
    encodeText (front ++ back) = encodeText front ++ encodeText back := List.flatMap_append

private theorem lead_two : ∀ high : Fin 32,
    wtf8ByteSequenceLength (UInt8.ofNat (high.val + 0xC0)) = 2 ∧
      ((UInt8.ofNat (high.val + 0xC0)) &&& 0x1F).toNat = high.val ∧
      ¬(UInt8.ofNat (high.val + 0xC0)) < 0x80 := by
  decide +kernel

private theorem lead_three : ∀ high : Fin 16,
    wtf8ByteSequenceLength (UInt8.ofNat (high.val + 0xE0)) = 3 ∧
      ((UInt8.ofNat (high.val + 0xE0)) &&& 0x0F).toNat = high.val ∧
      ¬(UInt8.ofNat (high.val + 0xE0)) < 0x80 := by
  decide +kernel

private theorem lead_four : ∀ high : Fin 8,
    wtf8ByteSequenceLength (UInt8.ofNat (high.val + 0xF0)) = 4 ∧
      ((UInt8.ofNat (high.val + 0xF0)) &&& 0x07).toNat = high.val ∧
      ¬(UInt8.ofNat (high.val + 0xF0)) < 0x80 := by
  decide +kernel

private theorem continuation : ∀ low : Fin 64,
    (UInt8.ofNat (low.val + 0x80)) &&& 0xC0 = 0x80 ∧
      ((UInt8.ofNat (low.val + 0x80)) &&& 0x3F).toNat = low.val := by
  decide +kernel

private theorem or_low (high low width : Nat) (small : low < 2 ^ width) :
    (high <<< width) ||| low = high * 2 ^ width + low := by
  rw [← Nat.shiftLeft_add_eq_or_of_lt small, Nat.shiftLeft_eq]

/-- What the decoder sees of a character, by the length of its encoding. -/
inductive Encoded (c : Char) : List UInt8 → Prop
  | one (ascii : c.toNat ≤ 0x7F) : Encoded c [UInt8.ofNat c.toNat]
  | two (high : Fin 32) (low : Fin 64) (value : c.toNat = high.val * 64 + low.val)
      (wide : 0x80 ≤ c.toNat) :
      Encoded c [UInt8.ofNat (high.val + 0xC0), UInt8.ofNat (low.val + 0x80)]
  | three (high : Fin 16) (middle low : Fin 64)
      (value : c.toNat = high.val * 4096 + middle.val * 64 + low.val) (wide : 0x800 ≤ c.toNat) :
      Encoded c [UInt8.ofNat (high.val + 0xE0), UInt8.ofNat (middle.val + 0x80),
        UInt8.ofNat (low.val + 0x80)]
  | four (high : Fin 8) (upper middle low : Fin 64)
      (value : c.toNat =
        high.val * 262144 + upper.val * 4096 + middle.val * 64 + low.val)
      (wide : 0x10000 ≤ c.toNat) :
      Encoded c [UInt8.ofNat (high.val + 0xF0), UInt8.ofNat (upper.val + 0x80),
        UInt8.ofNat (middle.val + 0x80), UInt8.ofNat (low.val + 0x80)]

theorem char_toNat_le (c : Char) : c.toNat ≤ 0x10FFFF := by
  rcases c.valid with below | ⟨-, within⟩
  · change c.toNat < _ at below
    omega
  · change c.toNat < _ at within
    omega

theorem encoded_utf8EncodeChar (c : Char) : Encoded c (String.utf8EncodeChar c) := by
  have bounded := char_toNat_le c
  unfold String.utf8EncodeChar
  change Encoded c (if c.toNat ≤ 0x7f then _ else if c.toNat ≤ 0x7ff then _ else
    if c.toNat ≤ 0xffff then _ else _)
  by_cases ascii : c.toNat ≤ 0x7F
  · rw [if_pos ascii]
    exact .one ascii
  · rw [if_neg ascii]
    by_cases twoBytes : c.toNat ≤ 0x7ff
    · rw [if_pos twoBytes]
      exact .two ⟨c.toNat / 64 % 0x20, by omega⟩ ⟨c.toNat % 0x40, by omega⟩
        (by dsimp only; omega) (by omega)
    · rw [if_neg twoBytes]
      by_cases threeBytes : c.toNat ≤ 0xffff
      · rw [if_pos threeBytes]
        exact .three ⟨c.toNat / 4096 % 0x10, by omega⟩ ⟨c.toNat / 64 % 0x40, by omega⟩
          ⟨c.toNat % 0x40, by omega⟩ (by dsimp only; omega) (by omega)
      · rw [if_neg threeBytes]
        exact .four ⟨c.toNat / 262144 % 0x08, by omega⟩ ⟨c.toNat / 4096 % 0x40, by omega⟩
          ⟨c.toNat / 64 % 0x40, by omega⟩ ⟨c.toNat % 0x40, by omega⟩ (by dsimp only; omega)
          (by omega)

/-- The first byte of a character gives the length of its encoding, and decoding
that many bytes gives the character. -/
theorem decode_utf8EncodeChar (c : Char) (zero : Int) :
    ∃ first rest, String.utf8EncodeChar c = first :: rest ∧
      wtf8ByteSequenceLength first = (String.utf8EncodeChar c).length ∧
      decodeWtf8RuneT (String.utf8EncodeChar c) (String.utf8EncodeChar c).length zero = c.toNat ∧
      (first < 0x80 ↔ c.toNat < 0x80) ∧
      (first < 0x80 → rest = [] ∧ first.toNat = c.toNat) := by
  have bounded := char_toNat_le c
  generalize encodedEq : String.utf8EncodeChar c = encoded
  have shape := encoded_utf8EncodeChar c
  rw [encodedEq] at shape
  cases shape with
  | one ascii =>
      have value : (UInt8.ofNat c.toNat).toNat = c.toNat := by
        rw [UInt8.toNat_ofNat']
        omega
      have small : UInt8.ofNat c.toNat < 0x80 := by
        rw [UInt8.lt_iff_toNat_lt, value]
        change c.toNat < 128
        omega
      refine ⟨_, _, rfl, ?_, ?_, ?_, ?_⟩
      · have below : UInt8.ofNat c.toNat ≤ 0x7F := by
          rw [UInt8.le_iff_toNat_le, value]
          exact ascii
        rw [wtf8ByteSequenceLength, if_pos below]
        rfl
      · rw [decodeWtf8RuneT]
        simp [value]
      · exact ⟨fun _ => by omega, fun _ => small⟩
      · intro _
        exact ⟨rfl, value⟩
  | two high low value wide =>
      obtain ⟨lengthEq, highEq, notAscii⟩ := lead_two high
      obtain ⟨marker, lowEq⟩ := continuation low
      refine ⟨_, _, rfl, lengthEq, ?_, ?_, ?_⟩
      · rw [decodeWtf8RuneT]
        simp only [List.length_cons, List.length_nil]
        rw [if_neg (by decide), if_neg (by decide), decodeWtf8RuneTMultibyte]
        simp only [List.getD_cons_zero, List.getD_cons_succ, marker, highEq, lowEq]
        rw [or_low _ _ 6 low.isLt]
        simp
        omega
      · exact ⟨fun small => absurd small notAscii, fun small => by omega⟩
      · intro small
        exact absurd small notAscii
  | three high middle low value wide =>
      obtain ⟨lengthEq, highEq, notAscii⟩ := lead_three high
      obtain ⟨middleMarker, middleEq⟩ := continuation middle
      obtain ⟨lowMarker, lowEq⟩ := continuation low
      have combined : ((high.val <<< 12) ||| (middle.val <<< 6) ||| low.val) = c.toNat := by
        have middleBound := middle.isLt
        rw [Nat.or_assoc, or_low middle.val low.val 6 low.isLt,
          or_low high.val _ 12 (by have := low.isLt; omega)]
        omega
      refine ⟨_, _, rfl, lengthEq, ?_, ?_, ?_⟩
      · rw [decodeWtf8RuneT]
        simp only [List.length_cons, List.length_nil]
        rw [if_neg (by decide), if_neg (by decide), decodeWtf8RuneTMultibyte]
        simp only [List.getD_cons_zero, List.getD_cons_succ, middleMarker, lowMarker, highEq,
          middleEq, lowEq, combined]
        simp
        omega
      · exact ⟨fun small => absurd small notAscii, fun small => by omega⟩
      · intro small
        exact absurd small notAscii
  | four high upper middle low value wide =>
      obtain ⟨lengthEq, highEq, notAscii⟩ := lead_four high
      obtain ⟨upperMarker, upperEq⟩ := continuation upper
      obtain ⟨middleMarker, middleEq⟩ := continuation middle
      obtain ⟨lowMarker, lowEq⟩ := continuation low
      have combined : ((high.val <<< 18) ||| (upper.val <<< 12) ||| (middle.val <<< 6) |||
          low.val) = c.toNat := by
        have lowBound := low.isLt
        have middleBound := middle.isLt
        have upperBound := upper.isLt
        rw [Nat.or_assoc, Nat.or_assoc, or_low middle.val low.val 6 low.isLt,
          or_low upper.val _ 12 (by omega), or_low high.val _ 18 (by omega)]
        omega
      refine ⟨_, _, rfl, lengthEq, ?_, ?_, ?_⟩
      · rw [decodeWtf8RuneT]
        simp only [List.length_cons, List.length_nil]
        rw [if_neg (by decide), if_neg (by decide), decodeWtf8RuneTMultibyte]
        simp only [List.getD_cons_zero, List.getD_cons_succ, upperMarker, middleMarker, lowMarker,
          highEq, upperEq, middleEq, lowEq, combined]
        simp
        omega
      · exact ⟨fun small => absurd small notAscii, fun small => by omega⟩
      · intro small
        exact absurd small notAscii

end Bun.Core
