/-
Segments of package paths.

A target and what a specifier puts in place of its `*` may not have segments that leave the
package.  A segment is decoded before it is compared, since the path is decoded after it has
been put together.
-/

import Bun.Paths.ResolvePath

set_option autoImplicit false

namespace Bun.Resolver

open Bun.Paths

/-! ### Percent encoding -/

def hexDigitValue (c : UInt8) : Option UInt8 :=
  if 0x30 ≤ c && c ≤ 0x39 then some (c - 0x30)
  else if 0x61 ≤ c && c ≤ 0x66 then some (c - 0x61 + 10)
  else if 0x41 ≤ c && c ≤ 0x46 then some (c - 0x41 + 10)
  else none

def hexPairValue (high low : UInt8) : Option UInt8 :=
  match hexDigitValue high, hexDigitValue low with
  | some high, some low => some (high <<< 4 ||| low)
  | _, _ => none

/-- `PercentEncoding::decode`: every `%` is followed by two digits. -/
def decodePercent : List UInt8 → Option (List UInt8)
  | [] => some []
  | c :: rest =>
      if c = 0x25 then
        match rest with
        | high :: low :: rest =>
            match hexPairValue high low, decodePercent rest with
            | some byte, some decoded => some (byte :: decoded)
            | _, _ => none
        | _ => none
      else (decodePercent rest).map (c :: ·)

def decodeInto (size : ℕ) (input : List UInt8) : Option (List UInt8) :=
  match decodePercent input with
  | some decoded => if decoded.length ≤ size then some decoded else none
  | none => none

/-! ### Invalid segments -/

def toAsciiLowercase (c : UInt8) : UInt8 :=
  if 0x41 ≤ c && c ≤ 0x5a then c + 0x20 else c

/-- The next byte of a segment, decoded if it can be, and what follows. -/
def nextByte (c : UInt8) (rest : List UInt8) : UInt8 × List UInt8 :=
  if c = 0x25 then
    match rest with
    | high :: low :: after =>
        match hexPairValue high low with
        | some byte => (byte, after)
        | none => (c, rest)
    | _ => (c, rest)
  else (c, rest)

theorem nextByte_length (c : UInt8) (rest : List UInt8) :
    (nextByte c rest).2.length ≤ rest.length := by
  unfold nextByte
  split
  · split
    · split
      · dsimp only
        rw [List.length_cons, List.length_cons]
        omega
      · exact Nat.le_refl _
    · exact Nat.le_refl _
  · exact Nat.le_refl _

def invalidSegments : List (List UInt8) :=
  [".", "..", "node_modules"].map ascii

def isInvalidSegmentLoop (segment decoded : List UInt8) : Bool :=
  match segment with
  | [] => invalidSegments.contains decoded
  | c :: rest =>
      if decoded.length = 12 then false
      else
        isInvalidSegmentLoop (nextByte c rest).2 (decoded ++ [toAsciiLowercase (nextByte c rest).1])
termination_by segment.length
decreasing_by
  have less := nextByte_length c rest
  rw [List.length_cons]
  omega

def isInvalidSegment (segment : List UInt8) : Bool :=
  isInvalidSegmentLoop segment []

def findInvalidSubpathSegment (path : List UInt8) : Option (List UInt8) :=
  match path with
  | [] => none
  | c :: rest =>
      let segment := (c :: rest).takeWhile (!isSepAny ·)
      if isInvalidSegment segment then some segment
      else findInvalidSubpathSegment (((c :: rest).dropWhile (!isSepAny ·)).drop 1)
termination_by path.length
decreasing_by
  rw [List.length_drop]
  have less := (List.dropWhile_suffix (!isSepAny ·) (l := c :: rest)).length_le
  rw [List.length_cons] at less ⊢
  omega

def findInvalidSegment (path : List UInt8) : Option (List UInt8) :=
  if path.any isSepAny then findInvalidSubpathSegment ((path.dropWhile (!isSepAny ·)).drop 1)
  else some []

end Bun.Resolver
