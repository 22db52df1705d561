/-
The ring buffer of `linear_fifo.rs`.

Storage cells are `MaybeUninit`, so a cell is `none` until something is written to it and
again once it is poisoned.  A failed assertion, a slice out of range, a subtraction below
zero, a remainder by zero or a read of an uninitialized cell is `none`: this is the build
with debug assertions.
-/

import Mathlib.Algebra.Group.Nat.Defs
import Mathlib.Data.Nat.Log
import Bun.Foundation.Ring

set_option autoImplicit false

namespace Bun.Collections

open Bun.Foundation

/-- The storage of a fifo: `StaticBuffer<T, N>` or `DynamicBuffer<T>`. -/
inductive Buffer where
  | static (size : Nat)
  | dynamic
deriving DecidableEq, Repr

namespace Buffer

def isPowerOfTwo (size : Nat) : Bool :=
  2 ^ Nat.log2 size == size

def powersOfTwo : Buffer → Bool
  | static size => isPowerOfTwo size
  | dynamic => true

def isDynamic : Buffer → Bool
  | static _ => false
  | dynamic => true

end Buffer

inductive AllocResult where
  | ok
  | allocError
deriving DecidableEq, Repr

/-! ### Machine words and slices -/

def usizeBits : Nat := 64

def checkedSub (left right : Nat) : Option Nat :=
  if right ≤ left then some (left - right) else none

def checkedRem (left right : Nat) : Option Nat :=
  if right = 0 then none else some (left % right)

def wrappingPred (length : Nat) : Nat :=
  if length = 0 then 2 ^ usizeBits - 1 else length - 1

def checkedAdd (left right : Nat) : Option Nat :=
  if left + right < 2 ^ usizeBits then some (left + right) else none

def checkedNextPowerOfTwo (size : Nat) : Option Nat :=
  if 2 ^ Nat.clog 2 size < 2 ^ usizeBits then some (2 ^ Nat.clog 2 size) else none

structure Slice where
  start : Nat
  stop : Nat
deriving DecidableEq, Repr

namespace Slice

def empty : Slice := ⟨0, 0⟩

def len (slice : Slice) : Nat := slice.stop - slice.start

end Slice

section Cells

variable {T : Type}

def subslice (buf : List (Option T)) (start stop : Nat) : Option Slice :=
  if start ≤ stop ∧ stop ≤ buf.length then some ⟨start, stop⟩ else none

/-- The cells from a place on, of a number that must be there. -/
def readAt (buf : List (Option T)) (start count : Nat) : Option (List (Option T)) :=
  if start + count ≤ buf.length then some ((buf.drop start).take count) else none

def writeAt (buf : List (Option T)) (start : Nat) (new : List (Option T)) :
    Option (List (Option T)) :=
  if start + new.length ≤ buf.length then some (overwrite buf start new) else none

def Slice.copyFrom (slice : Slice) (buf : List (Option T)) (src : List T) :
    Option (List (Option T)) :=
  if src.length ≤ slice.len then writeAt buf slice.start (src.map some) else none

/-- The first items of a slice, all of which must have been written. -/
def Slice.items (slice : Slice) (buf : List (Option T)) (count : Nat) : Option (List T) :=
  if count ≤ slice.len then (readAt buf slice.start count).bind fun cells => cells.mapM id
  else none

def poison (slice : Slice) (buf : List (Option T)) (count : Nat) : Option (List (Option T)) :=
  if count ≤ slice.len then writeAt buf slice.start (List.replicate count none) else none

def shiftDownOne (buf : List (Option T)) (start stop : Nat) : Option (List (Option T)) := do
  let slice ← subslice buf start stop
  if 1 < slice.len then
    let moved ← readAt buf (start + 1) (slice.len - 1)
    writeAt buf start moved
  else
    return buf

end Cells

/-! ### The fifo -/

structure LinearFifo (T : Type) where
  buf : List (Option T)
  head : Nat
  count : Nat
deriving DecidableEq, Repr

namespace LinearFifo

variable {T : Type}

def init (kind : Buffer) : LinearFifo T :=
  match kind with
  | .static size => { buf := List.replicate size none, head := 0, count := 0 }
  | .dynamic => { buf := [], head := 0, count := 0 }

def bufLen (fifo : LinearFifo T) : Nat :=
  fifo.buf.length

def wrapIndex (kind : Buffer) (index length : Nat) : Option Nat :=
  if kind.powersOfTwo then (checkedSub length 1).map (index &&& ·)
  else checkedRem index length

def realign (fifo : LinearFifo T) : Option (LinearFifo T) := do
  let behind ← checkedSub fifo.bufLen fifo.head
  let aligned ← (if fifo.count ≤ behind then
      (readAt fifo.buf fifo.head fifo.count).bind (writeAt fifo.buf 0 ·)
    else
      some (fifo.buf.rotate fifo.head))
  let unused ← subslice aligned fifo.count aligned.length
  let poisoned ← poison unused aligned unused.len
  return { fifo with buf := poisoned, head := 0 }

def ensureTotalCapacity (kind : Buffer) (fifo : LinearFifo T) (size : Nat) :
    Option (AllocResult × LinearFifo T) :=
  if size ≤ fifo.bufLen then some (.ok, fifo)
  else if kind.isDynamic then do
    let aligned ← fifo.realign
    match if kind.powersOfTwo then checkedNextPowerOfTwo size else some size with
    | none => return (.allocError, aligned)
    | some newSize =>
        let fresh := List.replicate newSize none
        let grown ← (if 0 < aligned.count then
            (readAt aligned.buf 0 aligned.count).bind (writeAt fresh 0 ·)
          else
            some fresh)
        return (.ok, { aligned with buf := grown, head := 0 })
  else
    some (.allocError, fifo)

def writableLength (fifo : LinearFifo T) : Option Nat :=
  checkedSub fifo.bufLen fifo.count

def ensureUnusedCapacity (kind : Buffer) (fifo : LinearFifo T) (size : Nat) :
    Option (AllocResult × LinearFifo T) := do
  let writable ← fifo.writableLength
  if size ≤ writable then
    return (.ok, fifo)
  else
    match checkedAdd fifo.count size with
    | none => return (.allocError, fifo)
    | some total => fifo.ensureTotalCapacity kind total

def readableSlice (fifo : LinearFifo T) (offset : Nat) : Option Slice :=
  if fifo.count < offset then some Slice.empty
  else if fifo.bufLen ≤ fifo.head + offset then
    let start := fifo.head + offset - fifo.bufLen
    subslice fifo.buf start (start + (fifo.count - offset))
  else
    subslice fifo.buf (fifo.head + offset) (min (fifo.head + fifo.count) fifo.bufLen)

/-- The cells that `discard` marks as undefined; they may be wrapped around. -/
def poisonFront (fifo : LinearFifo T) (count : Nat) : Option (List (Option T)) := do
  let first ← fifo.readableSlice 0
  if count ≤ first.len then
    poison first fifo.buf count
  else
    let poisoned ← poison first fifo.buf first.len
    let second ← { fifo with buf := poisoned }.readableSlice first.len
    poison second poisoned (count - first.len)

def discard (kind : Buffer) (fifo : LinearFifo T) (count : Nat) : Option (LinearFifo T) :=
  if count ≤ fifo.count then do
    let poisoned ← fifo.poisonFront count
    let head ← (if kind.powersOfTwo then
        some ((fifo.head + count) &&& wrappingPred fifo.bufLen)
      else
        checkedRem (fifo.head + count) fifo.bufLen)
    return { buf := poisoned, head := head, count := fifo.count - count }
  else none

def readItem (kind : Buffer) (fifo : LinearFifo T) : Option (Option T × LinearFifo T) :=
  if fifo.count = 0 then some (none, fifo)
  else do
    let cell ← fifo.buf[fifo.head]?
    let item ← cell
    let rest ← fifo.discard kind 1
    return (some item, rest)

/-- The loop of `read`: the items copied into the `left` places that are still free. -/
def readLoop (kind : Buffer) (fifo : LinearFifo T) (left : Nat) :
    Option (List T × LinearFifo T) :=
  if noneLeft : left = 0 then some ([], fifo)
  else
    match fifo.readableSlice 0 with
    | none => none
    | some slice =>
        if isEmpty : slice.len = 0 then some ([], fifo)
        else do
          let copied ← slice.items fifo.buf (min slice.len left)
          let rest ← fifo.discard kind (min slice.len left)
          let (others, final) ← readLoop kind rest (left - min slice.len left)
          return (copied ++ others, final)
termination_by left
decreasing_by omega

/-- The filled destination, the number of items copied, and what is left. -/
def read (kind : Buffer) (fifo : LinearFifo T) (dst : List T) :
    Option ((List T × Nat) × LinearFifo T) := do
  let (copied, rest) ← fifo.readLoop kind dst.length
  return ((copied ++ dst.drop copied.length, copied.length), rest)

def writableSlice (fifo : LinearFifo T) (offset : Nat) : Option Slice :=
  if fifo.bufLen < offset then some Slice.empty
  else do
    let writable ← checkedSub fifo.bufLen fifo.count
    let tail := fifo.head + offset + fifo.count
    if tail < fifo.bufLen then
      subslice fifo.buf tail fifo.bufLen
    else
      let room ← checkedSub writable offset
      subslice fifo.buf (tail - fifo.bufLen) (tail - fifo.bufLen + room)

def update (fifo : LinearFifo T) (count : Nat) : Option (LinearFifo T) :=
  if fifo.count + count ≤ fifo.bufLen then some { fifo with count := fifo.count + count }
  else none

/-- The slice that the caller may fill, or nothing on an allocation error. -/
def writableWithSize (kind : Buffer) (fifo : LinearFifo T) (size : Nat) :
    Option (Option Slice × LinearFifo T) := do
  let (result, roomy) ← fifo.ensureUnusedCapacity kind size
  match result with
  | .allocError => return (none, roomy)
  | .ok =>
      let first ← roomy.writableSlice 0
      let aligned ← (if first.len < size then roomy.realign else some roomy)
      let slice ← aligned.writableSlice 0
      if size ≤ slice.len then
        return (some ⟨slice.start, slice.start + size⟩, aligned)
      else
        none

def writeLoop (fifo : LinearFifo T) (src : List T) : Option (LinearFifo T) :=
  if done : src = [] then some fifo
  else
    match fifo.writableSlice 0 with
    | none => none
    | some slice =>
        if isEmpty : slice.len = 0 then none
        else do
          let n := min slice.len src.length
          let filled ← slice.copyFrom fifo.buf (src.take n)
          let longer ← { fifo with buf := filled }.update n
          writeLoop longer (src.drop n)
termination_by src.length
decreasing_by
  have some_left : 0 < src.length := List.length_pos_iff.mpr done
  rw [List.length_drop]
  omega

def writeAssumeCapacity (fifo : LinearFifo T) (src : List T) : Option (LinearFifo T) := do
  let writable ← fifo.writableLength
  if src.length ≤ writable then fifo.writeLoop src else none

def write (kind : Buffer) (fifo : LinearFifo T) (src : List T) :
    Option (AllocResult × LinearFifo T) := do
  let (result, roomy) ← fifo.ensureUnusedCapacity kind src.length
  match result with
  | .allocError => return (.allocError, roomy)
  | .ok =>
      let longer ← roomy.writeAssumeCapacity src
      return (.ok, longer)

def writeItemAssumeCapacity (kind : Buffer) (fifo : LinearFifo T) (item : T) :
    Option (LinearFifo T) := do
  let tail ← wrapIndex kind (fifo.head + fifo.count) fifo.bufLen
  let filled ← writeAt fifo.buf tail [some item]
  { fifo with buf := filled }.update 1

def writeItem (kind : Buffer) (fifo : LinearFifo T) (item : T) :
    Option (AllocResult × LinearFifo T) := do
  let (result, roomy) ← fifo.ensureUnusedCapacity kind 1
  match result with
  | .allocError => return (.allocError, roomy)
  | .ok =>
      let longer ← roomy.writeItemAssumeCapacity kind item
      return (.ok, longer)

/-- Make `count` items available before the current read location. -/
def rewind (kind : Buffer) (fifo : LinearFifo T) (count : Nat) : Option (LinearFifo T) := do
  let writable ← fifo.writableLength
  if count ≤ writable then
    let before ← checkedSub fifo.bufLen count
    let head ← wrapIndex kind (fifo.head + before) fifo.bufLen
    return { fifo with head := head, count := fifo.count + count }
  else
    none

/-- The copies of `unget` into the rewound front, in one piece or around the end. -/
def fillFront (fifo : LinearFifo T) (src : List T) : Option (LinearFifo T) := do
  let first ← fifo.readableSlice 0
  let n := min first.len src.length
  let filled ← first.copyFrom fifo.buf (src.take n)
  let half := { fifo with buf := filled }
  if first.len < src.length then
    let second ← half.readableSlice first.len
    let both ← second.copyFrom half.buf (src.drop first.len)
    return { half with buf := both }
  else
    return half

def unget (kind : Buffer) (fifo : LinearFifo T) (src : List T) :
    Option (AllocResult × LinearFifo T) := do
  let (result, roomy) ← fifo.ensureUnusedCapacity kind src.length
  match result with
  | .allocError => return (.allocError, roomy)
  | .ok =>
      let rewound ← roomy.rewind kind src.length
      let filled ← rewound.fillFront src
      return (.ok, filled)

def peekItem (kind : Buffer) (fifo : LinearFifo T) (offset : Nat) : Option T :=
  if offset < fifo.count then do
    let index ← wrapIndex kind (fifo.head + offset) fifo.bufLen
    let cell ← fifo.buf[index]?
    cell
  else none

/-- The buffer after the item at `offset` is taken out and the later ones move up. -/
def closeGap (kind : Buffer) (fifo : LinearFifo T) (offset : Nat) :
    Option (List (Option T)) := do
  let behind ← checkedSub fifo.bufLen fifo.head
  if fifo.count ≤ behind then
    shiftDownOne fifo.buf (fifo.head + offset) fifo.bufLen
  else
    let index ← wrapIndex kind (fifo.head + offset) fifo.bufLen
    let wrapLen ← checkedSub (fifo.head + fifo.count) fifo.bufLen
    if index < fifo.head then
      shiftDownOne fifo.buf index wrapLen
    else
      let wrap ← fifo.buf[0]?
      let shifted ← shiftDownOne fifo.buf index fifo.bufLen
      let last ← checkedSub fifo.bufLen 1
      let joined ← writeAt shifted last [wrap]
      shiftDownOne joined 0 wrapLen

def orderedRemoveItem (kind : Buffer) (fifo : LinearFifo T) (offset : Nat) :
    Option (LinearFifo T) :=
  if offset = 0 then fifo.discard kind 1
  else if offset < fifo.count then do
    let closed ← fifo.closeGap kind offset
    let count ← checkedSub fifo.count 1
    return { fifo with buf := closed, count := count }
  else none

end LinearFifo

end Bun.Collections
