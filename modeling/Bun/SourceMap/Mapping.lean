/-
The mapping records every source-map component shares, the flat mapping list with its
two binary searches, and the base-64 variable-length quantities of `mappings` strings with
the writer that emits one four-field segment.

Line, column and index fields are `i32` in the source and `Int32` here, so the
wrapping arithmetic of a release build is the arithmetic of the model.

A quantity is a sign-magnitude word cut into five-bit digits.  `decode` masks its
input to seven bits, takes at most eight bytes, and treats a byte outside the
alphabet as a digit with its continuation bit set, as the lookup table does.
-/

import Bun.Foundation.ContinuationDigits
import Mathlib.Data.List.Basic

set_option autoImplicit false

namespace Bun.SourceMap

structure LineColumnOffset where
  lines : Int32
  columns : Int32
deriving DecidableEq, Repr

def LineColumnOffset.start : LineColumnOffset := ⟨0, 0⟩

/-- Move to `b` counted from here: a line break in `b` restarts the column. -/
def LineColumnOffset.add (self b : LineColumnOffset) : LineColumnOffset :=
  if b.lines = 0 then { self with columns := self.columns + b.columns }
  else { lines := self.lines + b.lines, columns := b.columns }

structure Mapping where
  generated : LineColumnOffset
  original : LineColumnOffset
  sourceIndex : Int32
  nameIndex : Int32
deriving DecidableEq, Repr

structure MappingWithoutName where
  generated : LineColumnOffset
  original : LineColumnOffset
  sourceIndex : Int32
deriving DecidableEq, Repr

def MappingWithoutName.toNamed (row : MappingWithoutName) : Mapping :=
  { generated := row.generated
    original := row.original
    sourceIndex := row.sourceIndex
    nameIndex := -1 }

def Mapping.withoutName (mapping : Mapping) : MappingWithoutName :=
  { generated := mapping.generated
    original := mapping.original
    sourceIndex := mapping.sourceIndex }

inductive ListValue where
  | withoutNames (rows : List MappingWithoutName)
  | withNames (rows : List Mapping)
deriving DecidableEq, Repr

namespace ListValue

def generated : ListValue → List LineColumnOffset
  | .withoutNames rows => rows.map MappingWithoutName.generated
  | .withNames rows => rows.map Mapping.generated

def get? : ListValue → Nat → Option Mapping
  | .withoutNames rows, index => (rows[index]?).map MappingWithoutName.toNamed
  | .withNames rows, index => rows[index]?

def toMappings : ListValue → List Mapping
  | .withoutNames rows => rows.map MappingWithoutName.toNamed
  | .withNames rows => rows

def ensureWithNames (list : ListValue) : ListValue :=
  .withNames list.toMappings

def append : ListValue → Mapping → ListValue
  | .withoutNames rows, mapping => .withoutNames (rows ++ [mapping.withoutName])
  | .withNames rows, mapping => .withNames (rows ++ [mapping])

end ListValue

/-- Relative coordinates of one mapping, as the VLQ writers carry them. -/
structure SourceMapState where
  generatedLine : Int32
  generatedColumn : Int32
  sourceIndex : Int32
  originalLine : Int32
  originalColumn : Int32
deriving DecidableEq, Repr

def SourceMapState.zero : SourceMapState := ⟨0, 0, 0, 0, 0⟩

/-- Generated position at or before `(line, column)`. -/
def LineColumnOffset.atOrBefore (self : LineColumnOffset) (line column : Int32) : Bool :=
  self.lines < line || (self.lines = line && self.columns ≤ column)

/-! ### The two binary searches of the flat list -/

/-- The loop both searches run: the number of leading offsets at or before the
query, narrowed from `[index, index + count)`. -/
def searchGenerated (offsets : List LineColumnOffset) (line column : Int32)
    (index count : Nat) : Nat :=
  if 0 < count then
    let step := count / 2
    let middle := index + step
    match offsets[middle]? with
    | none => index
    | some mapping =>
        if mapping.atOrBefore line column then
          searchGenerated offsets line column (middle + 1) (count - (step + 1))
        else
          searchGenerated offsets line column index step
  else index
termination_by count
decreasing_by all_goals omega

def findIndexFromGenerated (offsets : List LineColumnOffset) (line column : Int32) :
    Option Nat :=
  let index := searchGenerated offsets line column 0 offsets.length
  if 0 < index then
    match offsets[index - 1]? with
    | none => none
    | some mapping => if mapping.lines = line then some (index - 1) else none
  else none

def findClosestIndex (offsets : List LineColumnOffset) (line column : Int32) : Option Nat :=
  let index := searchGenerated offsets line column 0 offsets.length
  if index = 0 then none else some (index - 1)

def ListValue.find (list : ListValue) (line column : Int32) : Option Mapping :=
  (findIndexFromGenerated list.generated line column).bind list.get?

def ListValue.findClosest (list : ListValue) (line column : Int32) : Option Mapping :=
  (findClosestIndex list.generated line column).bind list.get?

end Bun.SourceMap

namespace Bun.SourceMap.Vlq

open Bun.Foundation.ContinuationDigits

def vlqMaxInBytes : Nat := 7

def base64 : List UInt8 :=
  ((List.range' 65 26) ++ (List.range' 97 26) ++ (List.range' 48 10) ++ [43, 47]).map UInt8.ofNat

def u7Max : Nat := 127

/-- The lookup table: the digit of a byte of the alphabet, `u7Max` for any other. -/
def base64Lut (byte : UInt8) : Nat :=
  (base64.idxOf? byte).getD u7Max

/-- The word of a value.  The magnitude of `i32::MIN` does not fit beside its sign,
so that value wraps to minus zero. -/
def vlqWord (value : Int32) : UInt32 :=
  if value ≥ 0 then (value <<< 1).toUInt32
  else (UInt32.ofNat value.toInt.natAbs <<< 1) ||| 1

/-- The digit loop of `encode_slow_path`, with the iterations it has left.  Running
out of them returns the empty encoding. -/
def encodeLoop : Nat → UInt32 → List UInt8 → List UInt8
  | 0, _, _ => []
  | iterations + 1, word, written =>
      let rest := word >>> 5
      let digit := if rest ≠ 0 then (word &&& 31) ||| 32 else word &&& 31
      let written := written ++ [base64.getD digit.toNat 0]
      if rest = 0 then written else encodeLoop iterations rest written

def encodeSlowPath (value : Int32) : List UInt8 :=
  encodeLoop vlqMaxInBytes (vlqWord value) []

def vlqLookupTable : List (List UInt8) :=
  (List.range 256).map fun index => encodeSlowPath (Int32.ofNat index)

def encode (value : Int32) : List UInt8 :=
  if value ≥ 0 ∧ value ≤ 255 then vlqLookupTable.getD value.toInt.toNat []
  else encodeSlowPath value

structure VlqResult where
  value : Int32
  start : Nat
deriving DecidableEq, Repr

def wordValue (word : UInt32) : Int32 :=
  if word &&& 1 = 0 then (word >>> 1).toInt32 else -(word >>> 1).toInt32

/-- The loop of `decode_impl` over the bytes it may take: the value, and how many
bytes it took.  Nothing when no byte ends the quantity. -/
def decodeLoop : List UInt8 → Nat → UInt32 → Nat → Option (Int32 × Nat)
  | [], _, _, _ => none
  | byte :: rest, shift, word, taken =>
      let index := base64Lut (byte &&& 0x7f)
      let word := word ||| (UInt32.ofNat (index &&& 31) <<< UInt32.ofNat (shift &&& 31))
      if index &&& 32 = 0 then some (wordValue word, taken + 1)
      else decodeLoop rest (shift + 5) word (taken + 1)

/-- `decode`.  A quantity that does not end returns `start` unchanged. -/
def decode (encoded : List UInt8) (start : Nat) : VlqResult :=
  match decodeLoop ((encoded.drop start).take (vlqMaxInBytes + 1)) 0 0 0 with
  | none => { value := 0, start := start }
  | some (value, taken) => { value := value, start := start + taken }

def saturatingSub (a b : Int32) : Int32 :=
  if a.toInt - b.toInt > 2147483647 then 2147483647
  else if a.toInt - b.toInt < -2147483648 then -2147483648
  else a - b

def comma : UInt8 := 44
def semicolon : UInt8 := 59
def doubleQuote : UInt8 := 34

/-- The bytes `append_mapping_to_buffer` appends. -/
def mappingSegment (lastByte : UInt8) (prevState currentState : SourceMapState) : List UInt8 :=
  let needsComma := lastByte ≠ 0 ∧ lastByte ≠ semicolon ∧ lastByte ≠ doubleQuote
  (if needsComma then [comma] else []) ++
    (encode (saturatingSub currentState.generatedColumn prevState.generatedColumn) ++
      (encode (saturatingSub currentState.sourceIndex prevState.sourceIndex) ++
        (encode (saturatingSub currentState.originalLine prevState.originalLine) ++
          encode (saturatingSub currentState.originalColumn prevState.originalColumn))))

def appendMappingToBuffer (buffer : List UInt8) (lastByte : UInt8)
    (prevState currentState : SourceMapState) : List UInt8 :=
  buffer ++ mappingSegment lastByte prevState currentState

end Bun.SourceMap.Vlq
