/-
Base64 over an alphabet of 64 characters, with a padding character or without one.

Both directions collect bits in a 16-bit accumulator that is never cleared: `acc_len` says how
many of its low bits are still to be used.  A write outside the destination is a panic of the
encoder and undefined behaviour of the decoder; it is no result here.
-/

import Bun.Core.AsciiText
import Mathlib.Algebra.Group.Nat.Defs
import Mathlib.Logic.Function.Basic

set_option autoImplicit false

namespace Bun.Base64

inductive Error where
  | invalidCharacter
  | invalidPadding
  | noSpaceLeft
deriving DecidableEq, Repr

def writeAt (dest : List UInt8) (i : ℕ) (byte : UInt8) : Option (List UInt8) :=
  if i < dest.length then some (dest.set i byte) else none

/-! ### The encoder -/

structure Base64Encoder where
  alphabetChars : List UInt8
  padChar : Option UInt8

/-- What the loop of `encode_without_size_check` changes. -/
structure Encoding where
  dest : List UInt8
  acc : ℕ := 0
  accLen : ℕ := 0
  outIdx : ℕ := 0

namespace Base64Encoder

def divCeil (a b : ℕ) : ℕ :=
  (a + (b - 1)) / b

def calcSize (encoder : Base64Encoder) (sourceLen : ℕ) : ℕ :=
  if encoder.padChar.isSome then divCeil sourceLen 3 * 4
  else sourceLen / 3 * 4 + divCeil (sourceLen % 3 * 4) 3

def charAt (encoder : Base64Encoder) (bits : ℕ) : UInt8 :=
  encoder.alphabetChars.getD (bits &&& 0x3f) 0

/-- `while acc_len >= 6`. -/
def writeDigits (encoder : Base64Encoder) (now : Encoding) : Option Encoding :=
  if 6 ≤ now.accLen then do
    let accLen := now.accLen - 6
    let dest ← writeAt now.dest now.outIdx (encoder.charAt (now.acc >>> accLen))
    encoder.writeDigits { now with dest, accLen, outIdx := now.outIdx + 1 }
  else some now
termination_by now.accLen
decreasing_by
  omega

def encodeByte (encoder : Base64Encoder) (now : Encoding) (v : UInt8) : Option Encoding :=
  encoder.writeDigits
    { now with acc := (now.acc <<< 8) % 2 ^ 16 + v.toNat, accLen := now.accLen + 8 }

/-- What stands behind the loop: the bits that are left over make one more character. -/
def writeRest (encoder : Base64Encoder) (now : Encoding) : Option (List UInt8 × ℕ) :=
  if now.accLen > 0 then do
    let bits := (now.acc <<< (6 - now.accLen)) % 2 ^ 16
    let dest ← writeAt now.dest now.outIdx (encoder.charAt bits)
    return (dest, now.outIdx + 1)
  else some (now.dest, now.outIdx)

/-- The destination and `out_idx`. -/
def encodeWithoutSizeCheck (encoder : Base64Encoder) (dest source : List UInt8) :
    Option (List UInt8 × ℕ) := do
  let now ← source.foldlM encoder.encodeByte { dest }
  encoder.writeRest now

/-- `&mut dest[start..stop]`, filled with one byte. -/
def fill (dest : List UInt8) (start stop : ℕ) (byte : UInt8) : Option (List UInt8) :=
  if start ≤ stop ∧ stop ≤ dest.length then
    some (dest.take start ++ (List.replicate (stop - start) byte ++ dest.drop stop))
  else none

def encode (encoder : Base64Encoder) (dest source : List UInt8) : Option (List UInt8) := do
  let outLen := encoder.calcSize source.length
  let (dest, outIdx) ← encoder.encodeWithoutSizeCheck dest source
  let dest ←
    match encoder.padChar with
    | some padChar => fill dest outIdx outLen padChar
    | none => some dest
  if outLen ≤ dest.length then return dest.take outLen else none

end Base64Encoder

/-! ### The decoder -/

structure Base64Decoder where
  charToIndex : UInt8 → UInt8
  padChar : Option UInt8

/-- What the loop of `decode` changes. -/
structure Decoding where
  dest : List UInt8
  acc : ℕ := 0
  accLen : ℕ := 0
  destIdx : ℕ := 0

namespace Base64Decoder

def invalidChar : UInt8 := 0xff

def init (alphabetChars : List UInt8) (padChar : Option UInt8) : Base64Decoder where
  charToIndex := alphabetChars.zipIdx.foldl
    (fun table entry => Function.update table entry.1 (UInt8.ofNat entry.2)) fun _ => invalidChar
  padChar

def calcSizeUpperBound (decoder : Base64Decoder) (sourceLen : ℕ) : Except Error ℕ :=
  let result := sourceLen / 4 * 3
  let leftover := sourceLen % 4
  if decoder.padChar.isSome then
    if leftover % 4 ≠ 0 then .error .invalidPadding else .ok result
  else if leftover % 4 = 1 then .error .invalidPadding
  else .ok (result + leftover * 3 / 4)

def calcSizeForSlice (decoder : Base64Decoder) (source : List UInt8) : Except Error ℕ := do
  let result ← decoder.calcSizeUpperBound source.length
  match decoder.padChar with
  | none => return result
  | some padChar =>
      let result := if source.length ≥ 1 ∧ source[source.length - 1]? = some padChar then
        result - 1 else result
      return if source.length ≥ 2 ∧ source[source.length - 2]? = some padChar then
        result - 1 else result

/-- The loop from the place `srcIdx` on.  The last part is `leftover_idx`, or the error with
which the loop returns. -/
def decodeLoop (decoder : Base64Decoder) :
    List UInt8 → ℕ → Decoding → Option (Decoding × Except Error (Option ℕ))
  | [], _, now => some (now, .ok none)
  | c :: rest, srcIdx, now =>
      let d := decoder.charToIndex c
      if d = invalidChar then
        if decoder.padChar = some c then some (now, .ok (some srcIdx))
        else some (now, .error .invalidCharacter)
      else
        let acc := (now.acc <<< 6) % 2 ^ 16 + d.toNat
        let accLen := now.accLen + 6
        if accLen ≥ 8 then do
          let accLen := accLen - 8
          let dest ← writeAt now.dest now.destIdx (UInt8.ofNat (acc >>> accLen))
          decoder.decodeLoop rest (srcIdx + 1) { dest, acc, accLen, destIdx := now.destIdx + 1 }
        else decoder.decodeLoop rest (srcIdx + 1) { now with acc, accLen }

/-- How many padding characters are left over, if there is nothing else. -/
def countPadding (padChar : UInt8) : List UInt8 → ℕ → Except Error ℕ
  | [], paddingChars => .ok paddingChars
  | c :: rest, paddingChars =>
      if c ≠ padChar then
        .error (if c = invalidChar then .invalidCharacter else .invalidPadding)
      else countPadding padChar rest (paddingChars + 1)

def checkPadding (decoder : Base64Decoder) (accLen : ℕ) (leftover : List UInt8) :
    Except Error Unit :=
  match decoder.padChar with
  | none => .ok ()
  | some padChar => do
      let paddingLen := accLen / 2
      let paddingChars ← countPadding padChar leftover 0
      if paddingChars ≠ paddingLen then .error .invalidPadding else .ok ()

def finish (decoder : Base64Decoder) (source : List UInt8) (now : Decoding)
    (leftoverIdx : Option ℕ) : Except Error Unit :=
  if now.accLen > 4 ∨ now.acc &&& ((1 <<< now.accLen) - 1) ≠ 0 then .error .invalidPadding
  else
    match leftoverIdx with
    | none => .ok ()
    | some idx => decoder.checkPadding now.accLen (source.drop idx)

def decode (decoder : Base64Decoder) (dest source : List UInt8) :
    Option (Except Error Unit × List UInt8) :=
  if decoder.padChar.isSome ∧ source.length % 4 ≠ 0 then some (.error .invalidPadding, dest)
  else do
    let (now, stopped) ← decoder.decodeLoop source 0 { dest }
    match stopped with
    | .error error => return (.error error, now.dest)
    | .ok leftoverIdx => return (decoder.finish source now leftoverIdx, now.dest)

end Base64Decoder

/-! ### Codecs -/

structure Codecs where
  encoder : Base64Encoder
  decoder : Base64Decoder

/-- What `init` asserts of its arguments. -/
structure Alphabet where
  chars : List UInt8
  padChar : Option UInt8
  sized : chars.length = 64
  distinct : chars.Nodup
  apart : ∀ pad ∈ padChar, pad ∉ chars

def Alphabet.codecs (alphabet : Alphabet) : Codecs where
  encoder := { alphabetChars := alphabet.chars, padChar := alphabet.padChar }
  decoder := .init alphabet.chars alphabet.padChar

def standardAlphabetChars : List UInt8 :=
  ascii "ABCDEFGHIJKLMNOPQRSTUVWXYZabcdefghijklmnopqrstuvwxyz0123456789+/"

def standardAlphabet : Alphabet where
  chars := standardAlphabetChars
  padChar := some 0x3d
  sized := by decide
  distinct := by decide +kernel
  apart := by decide +kernel

def standardAlphabetNoPad : Alphabet where
  chars := standardAlphabetChars
  padChar := none
  sized := by decide
  distinct := by decide +kernel
  apart := by decide +kernel

def standard : Codecs := standardAlphabet.codecs

def standardNoPad : Codecs := standardAlphabetNoPad.codecs

end Bun.Base64
