/-
The tag and version parsers, and the version formatter.

The cursor of each loop is the text that it still has to read, next to the number
of bytes it has read.
-/

import Bun.Core.AsciiText
import Bun.Semver.Version

set_option autoImplicit false

namespace Bun.Semver

def isWhitespaceChar (c : UInt8) : Bool :=
  c == space || c == 0x09 || c == 0x0a || c == 0x0d || c == 0x0b || c == 0x0c

def trim (slice : List UInt8) : List UInt8 :=
  ((slice.dropWhile isWhitespaceChar).reverse.dropWhile isWhitespaceChar).reverse

/-! ### Tags -/

structure TagResult where
  tag : Tag := {}
  len : Nat := 0
deriving DecidableEq, Repr

inductive TagState where
  | none
  | pre
  | build
deriving DecidableEq, Repr

/-- `text` is `input[start..i]` and `seen` is `input[..i]`. -/
structure TagCursor where
  state : TagState := .none
  text : List UInt8 := []
  seen : List UInt8 := []
  tag : Tag := {}
deriving DecidableEq, Repr

namespace Tag

def parseLoop (initialPreCount : Nat) (cursor : TagCursor) : List UInt8 → TagCursor
  | [] => cursor
  | c :: rest =>
      let seen := cursor.seen ++ [c]
      if c = plus then
        let tag :=
          if cursor.state = .pre ∨ cursor.state = .none ∧ initialPreCount > 0 then
            { cursor.tag with pre := cursor.text }
          else cursor.tag
        if cursor.state ≠ .build then
          parseLoop initialPreCount { state := .build, text := [], seen, tag } rest
        else
          parseLoop initialPreCount { cursor with text := cursor.text ++ [c], seen, tag } rest
      else if c = hyphen then
        if cursor.state = .none then
          parseLoop initialPreCount { cursor with state := .pre, text := [], seen } rest
        else
          parseLoop initialPreCount { cursor with text := cursor.text ++ [c], seen } rest
      else if isAsciiLowercase c || isAsciiUppercase c || isAsciiDigit c || c == dot then
        parseLoop initialPreCount { cursor with text := cursor.text ++ [c], seen } rest
      else
        match cursor.state with
        | .none => cursor
        | .pre => { cursor with state := .none, tag := { cursor.tag with pre := cursor.text } }
        | .build => { cursor with state := .none, tag := { cursor.tag with build := cursor.text } }

/-- A tag without a hyphen is a prerelease from its first byte. -/
def openPre (initialPreCount : Nat) (cursor : TagCursor) : TagCursor :=
  if cursor.state = .none ∧ initialPreCount > 0 then
    { cursor with state := .pre, text := cursor.seen }
  else cursor

/-- What the loop leaves open at its end goes to the part it is in. -/
def close (cursor : TagCursor) : TagResult :=
  match cursor.state with
  | .none => { tag := cursor.tag, len := cursor.seen.length }
  | .pre => { tag := { cursor.tag with pre := cursor.text }, len := cursor.seen.length }
  | .build => { tag := { cursor.tag with build := cursor.text }, len := cursor.seen.length }

def parseWithPreCount (input : List UInt8) (initialPreCount : Nat) : TagResult :=
  let head := input.takeWhile (· ≠ space)
  if head.count plus = 0 ∧ head.count hyphen + initialPreCount = 0 then {}
  else close (openPre initialPreCount (parseLoop initialPreCount {} input))

def parse (input : List UInt8) : TagResult :=
  parseWithPreCount input 0

end Tag

/-! ### Versions -/

inductive Wildcard where
  | none
  | major
  | minor
  | patch
deriving DecidableEq, Repr

structure Partial where
  major : Option UInt64 := none
  minor : Option UInt64 := none
  patch : Option UInt64 := none
  tag : Tag := {}
deriving DecidableEq, Repr

def Partial.min (version : Partial) : Version where
  major := version.major.getD 0
  minor := version.minor.getD 0
  patch := version.patch.getD 0
  tag := version.tag

/-- The component that `part_i` counts to next. -/
def Partial.setPart (version : Partial) (partI : Nat) (number : Option UInt64) : Partial :=
  match partI with
  | 0 => { version with major := number }
  | 1 => { version with minor := number }
  | _ => { version with patch := number }

structure ParseResult where
  wildcard : Wildcard := .none
  valid : Bool := true
  overflow : Bool := false
  version : Partial := {}
  len : Nat := 0
deriving DecidableEq, Repr

/-- `i` is the position in the input, and `previous` the byte before it. -/
structure ParseCursor where
  result : ParseResult := {}
  partI : Nat := 0
  i : Nat := 0
  previous : Option UInt8 := none
deriving DecidableEq, Repr

def isLeading (c : UInt8) : Bool :=
  isWhitespaceChar c || c == 0x76 || c == 0x3d

/-- The bytes `|`, `^`, `#`, `&`, `%` and `!`, which end a version before themselves. -/
def isStop (c : UInt8) : Bool :=
  c == 0x7c || c == 0x5e || c == 0x23 || c == 0x26 || c == 0x25 || c == 0x21

def isWildcardChar (c : UInt8) : Bool :=
  c == 0x78 || c == 0x2a || c == 0x58

namespace Version

def parseVersionNumber (input : List UInt8) : Option UInt64 :=
  parseAscii input

/-- Read a `.` that may follow a component. -/
def skipDot (cursor : ParseCursor) (rest : List UInt8) : ParseCursor × List UInt8 :=
  match rest with
  | c :: after =>
      if c = dot then ({ cursor with i := cursor.i + 1, previous := some c }, after)
      else (cursor, rest)
  | [] => (cursor, rest)

def pass (cursor : ParseCursor) (run : List UInt8) : ParseCursor :=
  { cursor with i := cursor.i + run.length, previous := run.getLast? }

def meetWildcard (cursor : ParseCursor) : ParseCursor :=
  if cursor.result.wildcard = .none then
    match cursor.partI with
    | 0 => { cursor with result := { cursor.result with wildcard := .major }, partI := 1 }
    | 1 => { cursor with result := { cursor.result with wildcard := .minor }, partI := 2 }
    | 2 => { cursor with result := { cursor.result with wildcard := .patch }, partI := 3 }
    | _ => cursor
  else cursor

theorem skipDot_length (cursor : ParseCursor) (rest : List UInt8) :
    (skipDot cursor rest).2.length ≤ rest.length := by
  unfold skipDot
  split
  · split
    · exact Nat.le_succ _
    · exact Nat.le_refl _
  · exact Nat.le_refl _

theorem length_dropWhile_lt {c : UInt8} {rest : List UInt8} {p : UInt8 → Bool} (first : p c = true) :
    ((c :: rest).dropWhile p).length < (c :: rest).length := by
  rw [List.dropWhile_cons_of_pos first]
  exact Nat.lt_succ_of_le (List.dropWhile_suffix p).length_le

/-- A component that was read, and whether its `.` may follow. -/
def takeNumber (cursor : ParseCursor) (digits after : List UInt8) : ParseCursor × List UInt8 :=
  let number := parseVersionNumber digits
  let result := { cursor.result with
    valid := cursor.result.valid && number.isSome
    version := cursor.result.version.setPart cursor.partI number }
  let next := pass { cursor with result, partI := cursor.partI + 1 } digits
  if cursor.partI + 1 ≠ 3 then skipDot next after else (next, after)

theorem takeNumber_length (cursor : ParseCursor) (digits after : List UInt8) :
    (takeNumber cursor digits after).2.length ≤ after.length := by
  dsimp only [takeNumber]
  split
  · exact skipDot_length _ _
  · exact Nat.le_refl _

def parseLoop (cursor : ParseCursor) : List UInt8 → ParseCursor
  | [] => cursor
  | c :: rest =>
      if c = space then cursor
      else if isStop c then { cursor with i := cursor.i - 1 }
      else if isAsciiDigit c then
        let digits := (c :: rest).takeWhile isAsciiDigit
        let after := (c :: rest).dropWhile isAsciiDigit
        if cursor.partI < 3 then
          if (parseVersionNumber digits).isNone ∧ cursor.result.wildcard = .none then
            { pass cursor digits with
              result := { cursor.result with valid := false, overflow := true } }
          else
            parseLoop (takeNumber cursor digits after).1 (takeNumber cursor digits after).2
        else parseLoop (pass cursor digits) after
      else if c = dot then { cursor with result := { cursor.result with valid := false } }
      else if c = hyphen ∨ c = plus then
        let fewestParts := if c = plus then 1 else 2
        if cursor.partI < fewestParts ∧ cursor.result.wildcard = .none then
          { cursor with result := { cursor.result with valid := false } }
        else
          let tagResult := Tag.parse (c :: rest)
          { cursor with
            result := { cursor.result with
              version := { cursor.result.version with tag := tagResult.tag } }
            i := cursor.i + tagResult.len }
      else if isWildcardChar c then
        let run := (c :: rest).takeWhile isWildcardChar
        let valid := cursor.result.valid && !cursor.previous.any isAsciiDigit
        let read := skipDot (pass { cursor with result := { cursor.result with valid } } run)
          ((c :: rest).dropWhile isWildcardChar)
        parseLoop (meetWildcard read.1) read.2
      else if cursor.result.wildcard = .none ∧ cursor.partI ≥ 2 ∧ isAsciiAlphabetic c then
        let tagResult := Tag.parseWithPreCount (c :: rest) 1
        { cursor with
          result := { cursor.result with
            version := { cursor.result.version with tag := tagResult.tag } }
          i := cursor.i + tagResult.len }
      else { cursor with result := { cursor.result with valid := false } }
termination_by rest => rest.length
decreasing_by
  · exact Nat.lt_of_le_of_lt (takeNumber_length _ _ _) (length_dropWhile_lt (by assumption))
  · exact length_dropWhile_lt (by assumption)
  · exact Nat.lt_of_le_of_lt (skipDot_length _ _) (length_dropWhile_lt (by assumption))

/-- The wildcard of a version with fewer than three components. -/
def finish (cursor : ParseCursor) : ParseResult :=
  let result := { cursor.result with len := cursor.i }
  if result.wildcard = .none then
    match cursor.partI with
    | 0 => { result with valid := false, wildcard := .major }
    | 1 => { result with wildcard := .minor }
    | 2 => { result with wildcard := .patch }
    | _ => result
  else result

def parse (input : List UInt8) : ParseResult :=
  if input.isEmpty then { valid := false }
  else
    let leading := input.takeWhile isLeading
    let rest := input.dropWhile isLeading
    if rest.isEmpty then { valid := false, wildcard := .major, len := input.length }
    else finish (parseLoop { i := leading.length, previous := leading.getLast? } rest)

def parseExact (slice : List UInt8) : Option Version :=
  let trimmed := trim slice
  let parsed := parse trimmed
  if parsed.valid ∧ parsed.wildcard = .none ∧ parsed.len = trimmed.length then
    some parsed.version.min
  else none

/-! ### The formatter -/

def fmt (version : Version) : List UInt8 :=
  decimalText version.major.toNat ++ dot :: (decimalText version.minor.toNat ++
    dot :: (decimalText version.patch.toNat ++
      ((if version.tag.hasPre then hyphen :: version.tag.pre else []) ++
        (if version.tag.hasBuild then plus :: version.tag.build else []))))

end Version

end Bun.Semver
