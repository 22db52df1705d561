/-
The longest path that paths have in common, and the relative path from one path to another.

Up to eight paths are compared index by index, all at once.  More are compared with the first
one after the other, each from where the one before it stopped.

For a relative path both paths are normalized, and the longest directory they have in common is
cut off.  There is a `..` for each name that is left of the first path, and then comes what is
left of the second.
-/

import Bun.Paths.ResolvePath
import Bun.Paths.NormalizeString

set_option autoImplicit false

namespace Bun.Paths

section

variable (isSeparator : UInt8 → Bool)

def minLength : List (List UInt8) → ℕ
  | [] => 0
  | path :: paths => paths.foldl (fun length str => min str.length length) path.length

def nqlAtIndex (index : ℕ) (first : List UInt8) (others : List (List UInt8)) : Bool :=
  others.any fun other => first[index]? != other[index]?

def separatorAt (index : ℕ) (path : List UInt8) : Bool :=
  path[index]?.any isSeparator

/-- Compares all paths index by index: where they part or the shortest ends, and their last
common separator. -/
def compareIndices (first : List UInt8) (others : List (List UInt8)) :
    (remaining index lastCommonSeparator : ℕ) → ℕ × ℕ
  | 0, index, lastCommonSeparator => (index, lastCommonSeparator)
  | remaining + 1, index, lastCommonSeparator =>
      if nqlAtIndex index first others then (index, lastCommonSeparator)
      else
        compareIndices first others remaining (index + 1)
          (if separatorAt isSeparator index first then index else lastCommonSeparator)

def advance (first other : List UInt8) : (remaining index : ℕ) → ℕ
  | 0, index => index
  | remaining + 1, index =>
      if first[index]? ≠ other[index]? then index else advance first other remaining (index + 1)

def compareString (first : List UInt8) (minLength : ℕ) (state : ℕ × ℕ) (other : List UInt8) :
    ℕ × ℕ :=
  let index := advance first other (minLength - state.1) state.1
  let index := if index = minLength then index - 1 else index
  (index, if separatorAt isSeparator index first then index else state.2)

/-- "Do one of you have a path separator after what we thought was the end?" -/
def endsBehind (index : ℕ) : List (List UInt8) → Option (List UInt8) → Option (List UInt8)
  | [], found => found
  | str :: paths, found =>
      match str[index]? with
      | none => endsBehind index paths found
      | some c => if isSeparator c then endsBehind index paths (some str) else none

/-- For a platform whose separator is `/`. -/
def longestCommonPathGeneric : List (List UInt8) → List UInt8
  | [] => []
  | [path] => path
  | first :: others =>
      let shortest := minLength (first :: others)
      let (index, lastCommonSeparator) :=
        if (first :: others).length ≤ 8 then compareIndices isSeparator first others shortest 0 0
        else if 0 < shortest then others.foldl (compareString isSeparator first shortest) (0, 0)
        else (0, 0)
      if index = 0 then [0x2f]
      else
        match endsBehind isSeparator index (first :: others) none with
        | some str => str.take (index + 1)
        | none => first.take (lastCommonSeparator + 1)

end

def longestCommonPath (input : List (List UInt8)) : List UInt8 :=
  longestCommonPathGeneric isSepAny input

/-! ### The reference -/

structure IsCommonDirectory (paths : List (List UInt8)) (directory : List UInt8) : Prop where
  ends : directory.getLast? = some 0x2f
  shown : ∃ path ∈ paths, directory <+: path
  common : ∀ path ∈ paths, directory <+: path ++ [0x2f]

structure IsLongestCommonDirectory (paths : List (List UInt8)) (directory : List UInt8) : Prop where
  isCommon : IsCommonDirectory paths directory
  isLongest : ∀ other, IsCommonDirectory paths other → other.length ≤ directory.length

open Bun.Foundation

variable {size : ℕ}

structure RelativeOutput (size : ℕ) where
  buf : FixedArray UInt8 size
  outLen : ℕ

namespace RelativeOutput

def push (out : RelativeOutput size) (source : List UInt8) : Option (RelativeOutput size) := do
  let buf ← out.buf.copyFromSlice out.outLen source
  some ⟨buf, out.outLen + source.length⟩

def parent (out : RelativeOutput size) : Option (RelativeOutput size) :=
  if out.outLen = 0 then out.push [0x2e, 0x2e]
  else out.push [0x2f, 0x2e, 0x2e]

def parents (out : RelativeOutput size) : List UInt8 → Option (RelativeOutput size)
  | [] => out.parent
  | c :: rest =>
      if c = 0x2f ∧ rest ≠ [] then
        match out.parent with
        | none => none
        | some next => next.parents rest
      else out.parents rest

/-- The part of the destination that comes after the common path. -/
def appendTail (out : RelativeOutput size) (tail : List UInt8) : Option (RelativeOutput size) :=
  match tail with
  | [] => none
  | c :: _ => do
      let out ← (
        if !isSepPosix c && 0 < out.outLen then
          match out.buf.items[out.outLen - 1]? with
          | none => none
          | some d => if !isSepPosix d then out.push [0x2f] else some out
        else some out)
      out.push tail

def finish (out : RelativeOutput size) : Option (List UInt8) :=
  if 3 < out.outLen then
    match out.buf.items[out.outLen - 1]? with
    | none => none
    | some c => some (out.buf.items.take (if c = 0x2f then out.outLen - 1 else out.outLen))
  else some (out.buf.items.take out.outLen)

end RelativeOutput

/-- Returns a part of `to`, or a copy of it. -/
def returned (alwaysCopy : Bool) (text : List UInt8) (buf : FixedArray UInt8 size) :
    Option (List UInt8) :=
  if alwaysCopy then (buf.copyFromSlice 0 text).map (·.items.take text.length) else some text

def lastIndexOfChar (text : List UInt8) (char : UInt8) : Option ℕ :=
  (text.reverse.idxOf? char).map (text.length - 1 - ·)

/-- Why an early part of `to` needs no `..`: `from` is the root, or the exact base path. -/
def baseOf (commonPath normalizedFrom normalizedTo : List UInt8) : Bool :=
  min normalizedFrom.length normalizedTo.length = commonPath.length &&
    normalizedFrom.length ≤ normalizedTo.length &&
    (commonPath.isEmpty || normalizedTo[commonPath.length - 1]? == some 0x2f)

def relativeToCommonPath (alwaysCopy : Bool) (commonPath normalizedFrom normalizedTo : List UInt8)
    (buf : FixedArray UInt8 size) : Option (List UInt8) :=
  let belowRoot := if commonPath.head? = some 0x2f then commonPath.drop 1 else commonPath
  if baseOf belowRoot normalizedFrom normalizedTo then
    returned alwaysCopy (normalizedTo.drop belowRoot.length) buf
  else do
    let lastCommonSeparator := (lastIndexOfChar commonPath 0x2f).getD 0
    let start := (if normalizedFrom.head?.any isSepPosix then 1 else 0) + 1 + lastCommonSeparator
    let out ← (
      if normalizedFrom ≠ [] ∧ start ≤ normalizedFrom.length then
        RelativeOutput.parents ⟨buf, 0⟩ (normalizedFrom.drop start)
      else some ⟨buf, 0⟩)
    let out ← (
      if lastCommonSeparator + 1 < normalizedTo.length then
        let tail := normalizedTo.drop lastCommonSeparator
        let wholeFrom := normalizedFrom ≠ [] ∧ (lastCommonSeparator = normalizedFrom.length ∨
          lastCommonSeparator = normalizedFrom.length - 1)
        out.appendTail (if wholeFrom ∧ tail.head?.any isSepPosix then tail.drop 1 else tail)
      else some out)
    out.finish

def relativeNormalizedBuf (alwaysCopy : Bool) (buf : FixedArray UInt8 size)
    (normalizedFrom normalizedTo : List UInt8) : Option (List UInt8) :=
  if normalizedFrom = normalizedTo then some []
  else
    relativeToCommonPath alwaysCopy
      (longestCommonPathGeneric isSepPosix [normalizedFrom, normalizedTo])
      normalizedFrom normalizedTo buf

/-! ### The buffers -/

structure AbsolutePath where
  path : List UInt8
  isAbsolute : Platform.posix.isAbsolute path = true

/-- Normalizes an operand behind the first byte of its buffer, which is the root. -/
def normalizeOperand (operand : AbsolutePath) (buf : FixedArray UInt8 size) :
    Option (List UInt8) :=
  if size = 0 then none
  else do
    let behindRoot : FixedArray UInt8 (size - 1) :=
      ⟨buf.items.tail, by rw [List.length_tail, buf.length_items]⟩
    let last ← normalizeStringLooseBuf true true operand.path behindRoot
    some (0x2f :: last.output)

def relativePlatformIn {fromSize toSize : ℕ} (alwaysCopy : Bool) (buf : FixedArray UInt8 size)
    (relativeFromBuf : FixedArray UInt8 fromSize) (relativeToBuf : FixedArray UInt8 toSize)
    (start target : AbsolutePath) : Option (List UInt8) := do
  let normalizedFrom ← normalizeOperand start relativeFromBuf
  let normalizedTo ← normalizeOperand target relativeToBuf
  relativeNormalizedBuf alwaysCopy buf normalizedFrom normalizedTo

/-- Normalizing turns a backslash into a separator on every platform. -/
def countSeparators (path : List UInt8) : ℕ :=
  path.count 0x2f + path.count 0x5c

/-- The most bytes of a buffer that are used for an operand. -/
def relativeOperandNeeded (operand : AbsolutePath) : ℕ :=
  operand.path.length

def relativeOperandSeparators (operand : AbsolutePath) : ℕ :=
  countSeparators operand.path + 1

def relativeResultCapacity (fromSeparators toLen : ℕ) : ℕ :=
  (fromSeparators + 1) * 3 + toLen

/-- What the result buffer needs, counting separators only when the lengths are too much. -/
def relativeNeeded (maxPathBytes : ℕ) (start target : AbsolutePath) : ℕ :=
  let needed :=
    relativeResultCapacity (relativeOperandNeeded start) (relativeOperandNeeded target)
  if maxPathBytes < needed then
    max (relativeResultCapacity (relativeOperandSeparators start) (relativeOperandNeeded target))
      (relativeOperandNeeded start + 1)
  else needed

/-- The relative path, in the thread's own buffers or, when these are too small, in new ones. -/
def relativePlatform {maxPathBytes : ℕ} (alwaysCopy : Bool)
    (commonPathBuf relativeFromBuf relativeToBuf : FixedArray UInt8 maxPathBytes)
    (start target : AbsolutePath) : Option (List UInt8) :=
  let needed := relativeNeeded maxPathBytes start target
  if maxPathBytes < needed then
    relativePlatformIn true (FixedArray.fill needed 0)
      (FixedArray.fill (relativeOperandNeeded start + 1) 0)
      (FixedArray.fill (max (relativeOperandNeeded target) (relativeOperandNeeded start) + 1) 0)
      start target
  else relativePlatformIn alwaysCopy commonPathBuf relativeFromBuf relativeToBuf start target

end Bun.Paths
