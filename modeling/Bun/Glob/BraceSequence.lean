/-
Brace sequences in a glob, such as the inside of `{1..3}`, `{01..10}`, `{9..1..2}` and
`{a..e}`.

A sequence is read from its text once.  A pattern's nodes for it are the last bytes up to
its closing brace, as many as its longest word has, and membership of a word is decided
from the word's value and the way it is written.
-/

import Bun.Semver.Decimal
import Mathlib.Algebra.Order.Ring.Int
import Mathlib.Algebra.Order.Group.Unbundled.Int

set_option autoImplicit false

namespace Bun.Glob

open Semver (isAsciiDigit isAsciiAlphabetic isNumeric hyphen dot plus)

def backslash : UInt8 := 0x5c

def zeroDigit : UInt8 := 0x30

def openBrace : UInt8 := 0x7b

def closeBrace : UInt8 := 0x7d

def openBracket : UInt8 := 0x5b

/-! ### Numbers -/

def IsI64 (value : ℤ) : Prop :=
  -2 ^ 63 ≤ value ∧ value < 2 ^ 63

instance (value : ℤ) : Decidable (IsI64 value) :=
  inferInstanceAs (Decidable (_ ∧ _))

def fitI64 (value : ℤ) : Option ℤ :=
  if IsI64 value then some value else none

/-- `str::parse::<i64>`: digits, behind an optional sign. -/
def parseI64 (text : List UInt8) : Option ℤ :=
  match text with
  | [] => none
  | c :: digits =>
      if c = hyphen then
        if isNumeric digits then fitI64 (-(decimalValue digits : ℤ)) else none
      else if c = plus then
        if isNumeric digits then fitI64 (decimalValue digits) else none
      else if isNumeric text then fitI64 (decimalValue text) else none

def stripMinus (text : List UInt8) : List UInt8 :=
  match text with
  | [] => []
  | c :: rest => if c = hyphen then rest else text

def number (text : List UInt8) : Option ℤ :=
  if isNumeric (stripMinus text) then parseI64 text else none

def isPadded (text : List UInt8) : Bool :=
  match stripMinus text with
  | first :: next :: _ => first == zeroDigit && isAsciiDigit next
  | _ => false

def checkedAbs (value : ℤ) : Option ℤ :=
  fitI64 |value|

/-! ### Sequences -/

inductive SequenceOf where
  | letters
  | numbers (width longest : ℕ)
deriving DecidableEq, Repr

structure Sequence where
  fromValue : ℤ
  toValue : ℤ
  step : ℤ
  of : SequenceOf
deriving DecidableEq, Repr

/-- What stands between the occurrences of `..`, which are found from the left. -/
def splitDots : List UInt8 → List (List UInt8)
  | [] => [[]]
  | [c] => [[c]]
  | c :: d :: rest =>
      if c = dot ∧ d = dot then [] :: splitDots rest
      else (splitDots (d :: rest)).modifyHead (c :: ·)

namespace Sequence

def longest (sequence : Sequence) : ℕ :=
  match sequence.of with
  | .letters => 1
  | .numbers _ longest => longest

def readStep : Option (List UInt8) → Option ℤ
  | none => some 1
  | some text => do
      let value ← number text
      let size ← checkedAbs value
      return max size 1

def readNumbers (start stop : List UInt8) (step : ℤ) : Option Sequence := do
  let fromValue ← number start
  let toValue ← number stop
  return {
    fromValue
    toValue
    step
    of := .numbers
      (if isPadded start || isPadded stop then max start.length stop.length else 0)
      (max start.length stop.length) }

def readParts (start stop : List UInt8) (stepText : Option (List UInt8)) : Option Sequence := do
  let step ← readStep stepText
  match start, stop with
  | [first], [last] =>
      if isAsciiAlphabetic first && isAsciiAlphabetic last then
        return { fromValue := first.toNat, toValue := last.toNat, step, of := .letters }
      else readNumbers start stop step
  | _, _ => readNumbers start stop step

def read (written : List UInt8) : Option Sequence :=
  match splitDots written with
  | [start, stop] => readParts start stop none
  | [start, stop, step] => readParts start stop (some step)
  | _ => none

def hasValue (sequence : Sequence) (value : ℤ) : Bool :=
  min sequence.fromValue sequence.toValue ≤ value ∧ value ≤ max sequence.fromValue sequence.toValue ∧
    |value - sequence.fromValue| % sequence.step = 0

/-- The `\` in a range of letters stands for nothing. -/
def hasNothing (sequence : Sequence) : Bool :=
  sequence.of == .letters && sequence.hasValue backslash.toNat

def leadingZeros (digits : List UInt8) : ℕ :=
  min (digits.takeWhile (· == zeroDigit)).length (digits.length - 1)

def hasNumber (sequence : Sequence) (width : ℕ) (text : List UInt8) : Bool :=
  let digits := stripMinus text
  if digits.isEmpty ||
      digits.head? == some zeroDigit && decide (1 < digits.length) && text.length != width then
    false
  else
    match parseI64 text with
    | none => false
    | some value =>
        sequence.hasValue value && !(value == 0 && decide (digits.length < text.length)) &&
          match leadingZeros digits with
          | 0 => decide (width ≤ text.length)
          | _ => text.length == width

/-- Whether a text that is not empty is spelled like one of the values. -/
def has (sequence : Sequence) (text : List UInt8) : Bool :=
  match sequence.of with
  | .letters =>
      match text with
      | [] => false
      | c :: _ => c != backslash && sequence.hasValue c.toNat
  | .numbers width _ => sequence.hasNumber width text

end Sequence

/-! ### Nodes -/

/-- The bytes that a digit's node takes, which rules out most bytes. -/
def isDigitByte (byte : UInt8) : Bool :=
  isAsciiDigit byte || byte == hyphen || decide (0x41 ≤ byte ∧ byte ≤ 0x7a)

/-- What a node takes that is an escape, a class or a digit; `takesOther` is for the first
two. -/
def takes (pattern : List UInt8) (takesOther : ℕ → UInt8 → Bool) (node : ℕ) (byte : UInt8) : Bool :=
  match pattern[node]? with
  | none => false
  | some c => if c = backslash ∨ c = openBracket then takesOther node byte else isDigitByte byte

/-- The digits' nodes that `Reader::sequence` lays down, from the first to the one before
`after`. -/
def Sequence.firstDigit (sequence : Sequence) (after : ℕ) : ℕ :=
  after - sequence.longest

/-- The set of nodes for a place in the path, as far as a sequence's digits go: the node
`after` it is in the set where it goes on with the rest of the path, and a digit where it
takes the next byte and the node behind it is in the next place's set. -/
def nodesAt (pattern : List UInt8) (takesOther : ℕ → UInt8 → Bool) (firstDigit after : ℕ)
    (goesOn : List UInt8 → Bool) : List UInt8 → ℕ → Bool
  | [], node => node == after && goesOn []
  | byte :: rest, node =>
      if node = after then goesOn (byte :: rest)
      else decide (firstDigit ≤ node ∧ node < after) && takes pattern takesOther node byte &&
        nodesAt pattern takesOther firstDigit after goesOn rest (node + 1)

def indexOfCharPos (text : List UInt8) (byte : UInt8) (position : ℕ) : Option ℕ :=
  ((text.drop position).findIdx? (· == byte)).map (position + ·)

def hasSequence (sequence : Sequence) (pattern : List UInt8) (set : ℕ → Bool) (rest : List UInt8)
    (node : ℕ) : Bool :=
  let close := (indexOfCharPos pattern closeBrace node).getD node
  sequence.hasNothing && set (close + 1) ||
    (List.range (min rest.length sequence.longest)).any fun shorter =>
      set (close + 1 - (shorter + 1)) && sequence.has (rest.take (shorter + 1))

/-- Whether the sequence that stands at `{` in a pattern, with `written` between its braces,
matches the front of `rest` so that the pattern goes on behind it. -/
def matchesSequence (sequence : Sequence) (before written behind : List UInt8)
    (takesOther : ℕ → UInt8 → Bool) (goesOn : List UInt8 → Bool) (rest : List UInt8) : Bool :=
  let pattern := before ++ openBrace :: (written ++ closeBrace :: behind)
  let after := before.length + written.length + 2
  hasSequence sequence pattern
    (nodesAt pattern takesOther (sequence.firstDigit after) after goesOn rest) rest before.length

end Bun.Glob
