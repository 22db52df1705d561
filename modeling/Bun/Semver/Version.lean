/-
Versions and their order.

A version is three 64-bit numbers and a tag.  The tag's prerelease and build
metadata are stored as their texts.
-/

import Mathlib.Algebra.Group.Nat.Defs
import Mathlib.Data.List.Basic
import Bun.Core.AsciiText

set_option autoImplicit false

namespace Bun.Semver

def space : UInt8 := 0x20

def plus : UInt8 := 0x2b

def hyphen : UInt8 := 0x2d

def dot : UInt8 := 0x2e

def underscore : UInt8 := 0x5f

def isAsciiDigit (c : UInt8) : Bool :=
  0x30 ≤ c ∧ c ≤ 0x39

def isAsciiLowercase (c : UInt8) : Bool :=
  0x61 ≤ c ∧ c ≤ 0x7a

def isAsciiUppercase (c : UInt8) : Bool :=
  0x41 ≤ c ∧ c ≤ 0x5a

def isAsciiAlphabetic (c : UInt8) : Bool :=
  isAsciiLowercase c || isAsciiUppercase c

def validPreOrBuildTagCharacter (c : UInt8) : Bool :=
  c == hyphen || c == plus || c == dot || isAsciiUppercase c || isAsciiLowercase c || isAsciiDigit c

/-! ### Unsigned integers -/

inductive ParseIntError where
  | overflow
  | invalidCharacter
deriving DecidableEq, Repr

def digitValue (c : UInt8) : Except ParseIntError Nat :=
  if isAsciiDigit c then .ok (c.toNat - 0x30)
  else if isAsciiLowercase c then .ok (c.toNat - 0x61 + 10)
  else if isAsciiUppercase c then .ok (c.toNat - 0x41 + 10)
  else .error .invalidCharacter

/-- One digit onto a `u128` accumulator, with both of its overflow checks. -/
def pushDigit (radix acc d : Nat) : Except ParseIntError Nat :=
  if d ≥ radix then .error .invalidCharacter
  else if acc * radix ≥ 2 ^ 128 then .error .overflow
  else if acc * radix + d ≥ 2 ^ 128 then .error .overflow
  else .ok (acc * radix + d)

def parseDigits (radix : Nat) : Nat → List UInt8 → Except ParseIntError Nat
  | acc, [] => .ok acc
  | acc, c :: rest =>
      if c = underscore then parseDigits radix acc rest
      else do
        let d ← digitValue c
        let next ← pushDigit radix acc d
        parseDigits radix next rest

def parseWithSign (digits : List UInt8) (radix : Nat) : Except ParseIntError Nat :=
  if digits.isEmpty ∨ digits.head? = some underscore ∨ digits.getLast? = some underscore then
    .error .invalidCharacter
  else parseDigits radix 0 digits

/-- The 64-bit instance of `parse_unsigned`, for an explicit radix. -/
def parseUnsigned (buf : List UInt8) (radix : Nat) : Except ParseIntError UInt64 := do
  let acc ← parseWithSign buf radix
  if acc < 2 ^ 64 then .ok (UInt64.ofNat acc) else .error .overflow

/-- `None` for empty text, any byte that is not a digit, or overflow. -/
def parseAscii (s : List UInt8) : Option UInt64 :=
  (parseUnsigned s 10).toOption

/-! ### Tags and versions -/

structure Tag where
  pre : List UInt8 := []
  build : List UInt8 := []
deriving DecidableEq, Repr, Inhabited

structure Version where
  major : UInt64 := 0
  minor : UInt64 := 0
  patch : UInt64 := 0
  tag : Tag := {}
deriving DecidableEq, Repr, Inhabited

namespace Tag

/-- `-0`, the lowest prerelease. -/
def zeroPre : Tag := { pre := ascii "0" }

def hasPre (tag : Tag) : Bool :=
  !tag.pre.isEmpty

def hasBuild (tag : Tag) : Bool :=
  !tag.build.isEmpty

/-- One round of `order_pre` on the parts that both sides still have. -/
def orderPart (lhsPart rhsPart : List UInt8) : Ordering :=
  match parseAscii lhsPart, parseAscii rhsPart with
  | some _, none => .lt
  | none, some _ => .gt
  | none, none => compare lhsPart rhsPart
  | some lhsUint, some rhsUint => compare lhsUint rhsUint

/-- The loop of `order_pre` over what the two splits still have to yield. -/
def orderParts : List (List UInt8) → List (List UInt8) → Ordering
  | [], [] => .eq
  | _ :: _, [] => .gt
  | [], _ :: _ => .lt
  | lhsPart :: lhs, rhsPart :: rhs =>
      match orderPart lhsPart rhsPart with
      | .eq => orderParts lhs rhs
      | notEqual => notEqual

def orderPre (lhs rhs : Tag) : Ordering :=
  orderParts (lhs.pre.splitOn dot) (rhs.pre.splitOn dot)

def order (lhs rhs : Tag) : Ordering :=
  if !lhs.pre.isEmpty && !rhs.pre.isEmpty then orderPre lhs rhs
  else
    match compare lhs.pre rhs.pre with
    | .eq => compare lhs.build rhs.build
    | preOrder => preOrder

def orderWithoutBuild (lhs rhs : Tag) : Ordering :=
  if !lhs.pre.isEmpty && !rhs.pre.isEmpty then orderPre lhs rhs
  else compare lhs.pre rhs.pre

end Tag

namespace Version

def isZero (version : Version) : Bool :=
  version.patch == 0 && version.minor == 0 && version.major == 0

def orderWithoutTag (lhs rhs : Version) : Ordering :=
  if lhs.major < rhs.major then .lt
  else if lhs.major > rhs.major then .gt
  else if lhs.minor < rhs.minor then .lt
  else if lhs.minor > rhs.minor then .gt
  else if lhs.patch < rhs.patch then .lt
  else if lhs.patch > rhs.patch then .gt
  else if lhs.tag.hasPre then
    if !rhs.tag.hasPre then .lt else .eq
  else if rhs.tag.hasPre then .gt
  else .eq

def order (lhs rhs : Version) : Ordering :=
  match orderWithoutTag lhs rhs with
  | .eq => lhs.tag.order rhs.tag
  | withoutTag => withoutTag

def orderWithoutBuild (lhs rhs : Version) : Ordering :=
  match orderWithoutTag lhs rhs with
  | .eq => lhs.tag.orderWithoutBuild rhs.tag
  | withoutTag => withoutTag

end Version

end Bun.Semver
