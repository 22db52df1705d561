/-
Normalizing a path in place.

The elements of the path are written one after another into a buffer.  A `..` walks back in
the buffer over the element before it, but never below the mark behind the `..` elements that
were kept.  What is written is always the join of the elements that are kept.
-/

import Bun.Foundation.FixedArray
import Bun.Foundation.Joined
import Bun.Paths.ResolvePath

set_option autoImplicit false

namespace Bun.Paths

open Bun.Foundation

/-- The units of a path: bytes, or the code units of a wide string. -/
structure PathUnits (T : Type) where
  dot : T
  separator : T
  nul : T
  isSeparator : T → Bool
  isSeparator_separator : isSeparator separator = true
  isSeparator_dot : isSeparator dot = false

def posixUnits : PathUnits UInt8 :=
  ⟨0x2e, 0x2f, 0, isSepPosix, rfl, rfl⟩

/-- Both kinds of slashes are read, and only one is written. -/
def looseUnits : PathUnits UInt8 :=
  ⟨0x2e, 0x2f, 0, isSepAny, rfl, rfl⟩

structure NormalizeOptions where
  allowAboveRoot : Bool
  preserveTrailingSlash : Bool
  zeroTerminate : Bool
deriving DecidableEq, Repr

/-- The buffer, how much of it is written, and the mark `..` does not go below. -/
structure Normalizing (T : Type) (size : ℕ) where
  buf : FixedArray T size
  bufI : ℕ
  dotdot : ℕ

section

variable {T : Type} [DecidableEq T] (units : PathUnits T) {size : ℕ}

namespace Normalizing

def push (state : Normalizing T size) (source : List T) : Option (Normalizing T size) := do
  let buf ← state.buf.copyFromSlice state.bufI source
  some { state with buf, bufI := state.bufI + source.length }

def walkBack (state : Normalizing T size) : ℕ → Option ℕ
  | 0 => some 0
  | index + 1 =>
      if state.dotdot < index + 1 then
        match state.buf.items[index + 1]? with
        | none => none
        | some c =>
            if units.isSeparator c then some (index + 1) else state.walkBack index
      else some (index + 1)

def parent (options : NormalizeOptions) (state : Normalizing T size) :
    Option (Normalizing T size) :=
  if state.dotdot < state.bufI then do
    let bufI ← state.walkBack units (state.bufI - 1)
    some { state with bufI }
  else if options.allowAboveRoot then do
    let state ←
      if 0 < state.bufI then state.push [units.separator, units.dot, units.dot]
      else state.push [units.dot, units.dot]
    some { state with dotdot := state.bufI }
  else some state

def element (state : Normalizing T size) (name : List T) : Option (Normalizing T size) := do
  let state ←
    if state.bufI ≠ 0 then
      match state.buf.items[state.bufI - 1]? with
      | none => none
      | some c => if !units.isSeparator c then state.push [units.separator] else some state
    else some state
  state.push name

end Normalizing

def nextIs (name path : List T) : Bool :=
  name.isPrefixOf path && (path.drop name.length).head?.all units.isSeparator

def normalizeLoop (options : NormalizeOptions) (path : List T) (state : Normalizing T size) :
    Option (Normalizing T size) :=
  match path with
  | [] => some state
  | c :: rest =>
      if units.isSeparator c then normalizeLoop options rest state
      else if nextIs units [units.dot] (c :: rest) then normalizeLoop options rest state
      else if nextIs units [units.dot, units.dot] (c :: rest) then
        match state.parent units options with
        | none => none
        | some next => normalizeLoop options (rest.drop 1) next
      else
        match state.element units (c :: rest.takeWhile (!units.isSeparator ·)) with
        | none => none
        | some next => normalizeLoop options (rest.dropWhile (!units.isSeparator ·)) next
termination_by path.length
decreasing_by
  · exact Nat.lt_succ_self _
  · exact Nat.lt_succ_self _
  · rw [List.length_drop, List.length_cons]
    omega
  · have less := (List.dropWhile_suffix (!units.isSeparator ·) (l := rest)).length_le
    rw [List.length_cons]
    omega

def Normalizing.keepTrailingSlash (options : NormalizeOptions) (path : List T)
    (state : Normalizing T size) : Option (Normalizing T size) :=
  if options.preserveTrailingSlash ∧ 0 < state.bufI ∧ path.getLast? = some units.separator then
    match state.buf.items[state.bufI - 1]? with
    | none => none
    | some c => if c ≠ units.separator then state.push [units.separator] else some state
  else some state

/-- Normalizes a path into the buffer, for a separator that is not the Windows one.  `none` is
an index outside the buffer. -/
def normalizeStringGenericTz (options : NormalizeOptions) (path : List T)
    (buf : FixedArray T size) : Option (Normalizing T size) := do
  let state ← normalizeLoop units options path ⟨buf, 0, 0⟩
  let state ← state.keepTrailingSlash units options path
  if options.zeroTerminate then
    let buf ← state.buf.copyFromSlice state.bufI [units.nul]
    some { state with buf }
  else some state

def Normalizing.output (state : Normalizing T size) : List T :=
  state.buf.items.take state.bufI

end

section

variable {size : ℕ}

def normalizeStringLooseBuf (allowAboveRoot preserveTrailingSlash : Bool) (path : List UInt8)
    (buf : FixedArray UInt8 size) : Option (Normalizing UInt8 size) :=
  normalizeStringGenericTz looseUnits ⟨allowAboveRoot, preserveTrailingSlash, false⟩ path buf

def normalizeBuf (path : List UInt8) (buf : FixedArray UInt8 size) : Option (List UInt8) :=
  if path.isEmpty then do
    let buf ← buf.copyFromSlice 0 [0x2e]
    some (buf.items.take 1)
  else
    let trailingSeparator := path.getLast? == some 0x2f
    (normalizeStringLooseBuf (Platform.posix.isAbsolute path) trailingSeparator path buf).map
      Normalizing.output

end

/-! ### The reference -/

/-- What is kept of a path: how far it goes above its start, and the names below. -/
structure KeptPath (T : Type) where
  ups : ℕ
  names : List (List T)

section

variable {T : Type} [DecidableEq T] (units : PathUnits T)

namespace KeptPath

/-- One element: empty and `.` elements are dropped, and `..` takes back the last name. -/
def step (allowAboveRoot : Bool) (kept : KeptPath T) (segment : List T) : KeptPath T :=
  if segment = [] ∨ segment = [units.dot] then kept
  else if segment = [units.dot, units.dot] then
    if kept.names ≠ [] then { kept with names := kept.names.dropLast }
    else if allowAboveRoot then { kept with ups := kept.ups + 1 }
    else kept
  else { kept with names := kept.names ++ [segment] }

def segments (kept : KeptPath T) : List (List T) :=
  List.replicate kept.ups [units.dot, units.dot] ++ kept.names

end KeptPath

def keptPath (allowAboveRoot : Bool) (path : List T) : KeptPath T :=
  (path.splitOnP units.isSeparator).foldl (KeptPath.step units allowAboveRoot) ⟨0, []⟩

def normalized (options : NormalizeOptions) (path : List T) : List T :=
  let text := joined units.separator ((keptPath units options.allowAboveRoot path).segments units)
  if options.preserveTrailingSlash ∧ text ≠ [] ∧ path.getLast? = some units.separator then
    text ++ [units.separator]
  else text

end

end Bun.Paths
