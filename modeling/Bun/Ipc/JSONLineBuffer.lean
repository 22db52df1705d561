/-
A buffer for newline-delimited data.

What has been consumed stays in front of `head` until enough of it has gathered.  The positions
of the next newline and of the end of the scanned bytes are relative to `head`.  The 32-bit fields
are natural numbers; every value that the code casts to 32 bits is written down.  `none` stands
for a slice out of bounds.
-/

import Mathlib.Data.Nat.Notation

set_option autoImplicit false

namespace Bun.Ipc

def u32Max : ℕ := 4294967295

def asU32 (value : ℕ) : ℕ := value % (u32Max + 1)

def newline : UInt8 := 10

structure JSONLineBuffer where
  data : List UInt8
  /-- The capacity of the vector that holds `data`. -/
  capacity : ℕ
  head : ℕ
  newlinePos : Option ℕ
  scannedPos : ℕ
  maxLine : ℕ
  tooLong : Bool
  /-- The values that have been cast to 32 bits. -/
  casts : List ℕ

namespace JSONLineBuffer

def compactionThreshold : ℕ := 16 * 1024 * 1024

def new (maxLine : ℕ) : JSONLineBuffer where
  data := []
  capacity := 0
  head := 0
  newlinePos := none
  scannedPos := 0
  maxLine := asU32 (min maxLine (u32Max - 1))
  tooLong := false
  casts := [min maxLine (u32Max - 1)]

def activeSlice (buffer : JSONLineBuffer) : Option (List UInt8) :=
  if buffer.head ≤ buffer.data.length then some (buffer.data.drop buffer.head) else none

def isTooLong (buffer : JSONLineBuffer) : Bool :=
  buffer.tooLong

def scanned (buffer : JSONLineBuffer) (found : Option ℕ) (lineLen : ℕ) : JSONLineBuffer :=
  if lineLen > buffer.maxLine then
    { new buffer.maxLine with
      tooLong := true
      casts := (new buffer.maxLine).casts ++ buffer.casts }
  else
    match found with
    | some pos =>
        { buffer with
          newlinePos := some (asU32 pos)
          scannedPos := asU32 (asU32 pos + 1)
          casts := pos :: buffer.casts }
    | none => { buffer with scannedPos := asU32 lineLen, casts := lineLen :: buffer.casts }

def scanForNewline (buffer : JSONLineBuffer) : Option JSONLineBuffer :=
  if buffer.tooLong = true ∨ buffer.newlinePos.isSome = true then some buffer
  else
    match buffer.activeSlice with
    | none => none
    | some slice =>
        if buffer.scannedPos ≥ slice.length then some buffer
        else
          let found := ((slice.drop buffer.scannedPos).findIdx? (· == newline)).map
            (buffer.scannedPos + ·)
          some (buffer.scanned found (found.getD slice.length))

def compact (buffer : JSONLineBuffer) : JSONLineBuffer :=
  if buffer.head = 0 then buffer
  else { buffer with data := buffer.data.drop buffer.head, head := 0 }

/-- `grow` is the capacity that a vector of a capacity takes on for a length. -/
def append (grow : ℕ → ℕ → ℕ) (buffer : JSONLineBuffer) (bytes : List UInt8) :
    Option JSONLineBuffer :=
  if buffer.tooLong = true then some buffer
  else
    scanForNewline { buffer with
      data := buffer.data ++ bytes
      capacity := grow buffer.capacity (buffer.data.length + bytes.length) }

def next (buffer : JSONLineBuffer) : Option (Option (List UInt8 × ℕ)) :=
  match buffer.newlinePos with
  | none => some none
  | some pos =>
      match buffer.activeSlice with
      | none => none
      | some slice =>
          if pos + 1 ≤ slice.length then some (some (slice.take (pos + 1), pos)) else none

/-- The end of a consumption: everything may be consumed, or enough to compact. -/
def settled (buffer : JSONLineBuffer) : JSONLineBuffer :=
  if buffer.head ≥ buffer.data.length then
    { buffer with
      data := []
      capacity := if asU32 buffer.capacity ≥ compactionThreshold then 0 else buffer.capacity
      head := 0
      scannedPos := 0
      newlinePos := none
      casts := buffer.capacity :: buffer.casts }
  else if buffer.head ≥ compactionThreshold then buffer.compact
  else buffer

def consume (buffer : JSONLineBuffer) (bytes : ℕ) : Option JSONLineBuffer :=
  let advanced :=
    { buffer with
      head := min (buffer.head + bytes) u32Max
      scannedPos := buffer.scannedPos - bytes }
  match buffer.newlinePos with
  | none => some advanced.settled
  | some pos =>
      if bytes > pos then
        match scanForNewline { advanced with newlinePos := none } with
        | none => none
        | some after => some after.settled
      else some (settled { advanced with newlinePos := some (pos - bytes) })

end JSONLineBuffer

/-! ### Runs -/

/-- Bytes come in, or the next message is taken and consumed. -/
inductive Event
  | append (bytes : List UInt8)
  | take

/-- The buffer, all the bytes that have come in, and the messages that have been taken. -/
structure System where
  buffer : JSONLineBuffer
  stream : List UInt8
  taken : List (List UInt8)

def System.start (maxLine : ℕ) : System where
  buffer := JSONLineBuffer.new maxLine
  stream := []
  taken := []

def step (grow : ℕ → ℕ → ℕ) (system : System) : Event → Option System
  | .append bytes =>
      match system.buffer.append grow bytes with
      | none => none
      | some buffer => some { system with buffer := buffer, stream := system.stream ++ bytes }
  | .take =>
      match system.buffer.next with
      | none => none
      | some none => some system
      | some (some (message, pos)) =>
          match system.buffer.consume (pos + 1) with
          | none => none
          | some buffer =>
              some { system with buffer := buffer, taken := system.taken ++ [message] }

def run (grow : ℕ → ℕ → ℕ) : System → List Event → Option System
  | system, [] => some system
  | system, event :: events =>
      match step grow system event with
      | none => none
      | some after => run grow after events

end Bun.Ipc
