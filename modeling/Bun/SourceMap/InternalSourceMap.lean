/-
The reader of the internal source-map blob.

The blob is a byte list.  Reads through its raw pointer go through `rawRead`, which
traps outside the blob, so that reading in bounds is a statement about the model;
reads that the source bounds-checks return an option.  Native byte order is little
endian on every target.
-/

import Bun.Foundation.Endian
import Bun.SourceMap.Mapping
import Bun.SourceMap.Varint

set_option autoImplicit false

namespace Bun.SourceMap.InternalSourceMap

open Bun.Foundation

inductive Trap where
  | outOfBounds
  | arithmeticOverflow
  | intCast
  | unreachable
deriving DecidableEq, Repr

/-- A sync entry is emitted every `syncInterval` mappings. -/
def syncInterval : Nat := 64

def headerSize : Nat := 32

def streamTailPad : Nat := 1

def syncEntrySize : Nat := 24

def objectBraceSize : Nat := 16

structure SyncEntry where
  generatedLine : Int32
  generatedColumn : Int32
  byteOffset : UInt32
  originalLine : Int32
  originalColumn : Int32
  sourceIndex : Int32
deriving DecidableEq, Repr

/-- Absolute coordinates of one mapping while a window is walked. -/
structure State where
  generatedLine : Int32
  generatedColumn : Int32
  sourceIndex : Int32
  originalLine : Int32
  originalColumn : Int32
deriving DecidableEq, Repr

def State.zero : State := ⟨0, 0, 0, 0, 0⟩

def SyncEntry.lessOrEqual (self : SyncEntry) (line col : Int32) : Bool :=
  self.generatedLine < line || (self.generatedLine = line && self.generatedColumn ≤ col)

def SyncEntry.toState (self : SyncEntry) : State :=
  { generatedLine := self.generatedLine
    generatedColumn := self.generatedColumn
    sourceIndex := self.sourceIndex
    originalLine := self.originalLine
    originalColumn := self.originalColumn }

def State.lessOrEqual (self : State) (line col : Int32) : Bool :=
  self.generatedLine < line || (self.generatedLine = line && self.generatedColumn ≤ col)

def State.toMapping (self : State) : Mapping :=
  { generated := ⟨self.generatedLine, self.generatedColumn⟩
    original := ⟨self.originalLine, self.originalColumn⟩
    sourceIndex := self.sourceIndex
    nameIndex := -1 }

/-- The last part of `apply_next`, which cannot fail. -/
def State.advance (state : State) (dGenLine dGenCol dOrigLine dOrigCol : Int32) : State :=
  let state :=
    if dGenLine ≠ 0 then
      { state with
        generatedLine := state.generatedLine + dGenLine
        generatedColumn := dGenCol }
    else { state with generatedColumn := state.generatedColumn + dGenCol }
  { state with
    originalLine := state.originalLine + dOrigLine
    originalColumn := state.originalColumn + dOrigCol }

/-! ### Blob header and sync table -/

def i32FromBytes (bytes : List UInt8) : Int32 :=
  (UInt32.ofNat (LittleEndian.ofBytes bytes)).toInt32

def i32ToBytes (value : Int32) : List UInt8 :=
  LittleEndian.toBytes 4 value.toUInt32.toNat

def rawRead (blob : List UInt8) (offset count : Nat) : Except Trap (List UInt8) :=
  match LittleEndian.slice? blob offset count with
  | none => .error .outOfBounds
  | some bytes => .ok bytes

def rawNat (blob : List UInt8) (offset count : Nat) : Except Trap Nat :=
  (rawRead blob offset count).map LittleEndian.ofBytes

def totalLen (blob : List UInt8) : Except Trap Nat := rawNat blob 0 8

def mappingCount (blob : List UInt8) : Except Trap Nat := rawNat blob 8 8

def syncCount (blob : List UInt8) : Except Trap Nat := rawNat blob 24 4

def streamOffset (blob : List UInt8) : Except Trap Nat := rawNat blob 28 4

def decodeSyncEntry (bytes : List UInt8) : SyncEntry :=
  { generatedLine := i32FromBytes ((bytes.drop 0).take 4)
    generatedColumn := i32FromBytes ((bytes.drop 4).take 4)
    byteOffset := UInt32.ofNat (LittleEndian.ofBytes ((bytes.drop 8).take 4))
    originalLine := i32FromBytes ((bytes.drop 12).take 4)
    originalColumn := i32FromBytes ((bytes.drop 16).take 4)
    sourceIndex := i32FromBytes ((bytes.drop 20).take 4) }

def syncEntry (blob : List UInt8) (index : Nat) : Except Trap SyncEntry :=
  (rawRead blob (headerSize + index * syncEntrySize) syncEntrySize).map decodeSyncEntry

def stream (blob : List UInt8) : Except Trap (List UInt8) := do
  let offset ← streamOffset blob
  let total ← totalLen blob
  if total < offset then throw .arithmeticOverflow
  rawRead blob offset (total - offset)

/-- The outer header check.  It reads the header only once the blob is known to
hold one, so it never traps; a trap would be a rejection. -/
def isValidBlob (blob : List UInt8) : Bool :=
  if blob.length < headerSize then false
  else
    match totalLen blob, syncCount blob, streamOffset blob with
    | .ok total, .ok syncN, .ok streamOff =>
        if total ≠ blob.length then false
        else if streamOff < headerSize + syncN * syncEntrySize then false
        else if streamOff > total then false
        else if total < streamOff + streamTailPad then false
        else true
    | _, _, _ => false

/-! ### Window reader -/

/-- A 64-bit mask; bit `i` is bit `i % 8` of byte `pos + i / 8`. -/
def readU64Le (bytes : List UInt8) (pos : Nat) : Option Nat :=
  (LittleEndian.slice? bytes pos 8).map LittleEndian.ofBytes

def testBit (mask index : Nat) : Bool :=
  (mask >>> index) &&& 1 != 0

def flagHasGenLineExceptions : UInt8 := 4

def flagHasSrcIdx : UInt8 := 8

namespace WinHdr

def countOff : Nat := 0
def flagsOff : Nat := 1
def genColLenOff : Nat := 2
def origLineLenOff : Nat := 4
def origColLenOff : Nat := 6
def genLineMaskOff : Nat := 8
def origLineEqMaskOff : Nat := 16
def origColEqMaskOff : Nat := 24
def genColLaneOff : Nat := 32

end WinHdr

structure WindowReader where
  bytes : List UInt8
  genColPos : Nat
  origLineExcPos : Nat
  origColExcPos : Nat
  genLineExcPos : Nat
  srcIdxExcPos : Nat
  genLineMask : Nat
  origLineEqMask : Nat
  origColEqMask : Nat
  srcIdxEqMask : Nat
  count : Nat
  flags : UInt8
  genLineExcNextIdx : UInt8
  deltaIdx : Nat
deriving Repr

namespace WindowReader

def dangling : WindowReader :=
  { bytes := []
    genColPos := 0
    origLineExcPos := 0
    origColExcPos := 0
    genLineExcPos := 0
    srcIdxExcPos := 0
    genLineMask := 0
    origLineEqMask := 0
    origColEqMask := 0
    srcIdxEqMask := 0
    count := 0
    flags := 0
    genLineExcNextIdx := 0
    deltaIdx := 0 }

def hasFlag (self : WindowReader) (flag : UInt8) : Bool :=
  self.flags &&& flag != 0

/-- Skip the `(idx, varint)` pairs up to and with their terminator. -/
def skipGenLinePairs (bytes : List UInt8) (pos pairs : Nat) : Option Nat :=
  match bytes[pos]? with
  | none => none
  | some byte =>
      if byte = 0xFF then some (pos + 1)
      else if pairs < syncInterval - 1 then
        match readVarint bytes (pos + 1) with
        | none => none
        | some (_, pos) => skipGenLinePairs bytes pos (pairs + 1)
      else none
termination_by syncInterval - 1 - pairs

/-- The first half of `parse_flagged_sections`: the position after the gen-line
exceptions, with the reader that remembers where they start. -/
def parseGenLineExceptions (self : WindowReader) (bytes : List UInt8) (pos : Nat) :
    Option Nat × WindowReader :=
  if self.hasFlag flagHasGenLineExceptions then
    let self := { self with genLineExcPos := pos }
    match bytes[pos]? with
    | none => (none, self)
    | some next =>
        (skipGenLinePairs bytes pos 0, { self with genLineExcNextIdx := next })
  else (some pos, self)

def parseFlaggedSections (self : WindowReader) (bytes : List UInt8) (pos : Nat) :
    Option Unit × WindowReader :=
  match self.parseGenLineExceptions bytes pos with
  | (none, self) => (none, self)
  | (some pos, self) =>
      if self.hasFlag flagHasSrcIdx then
        match readU64Le bytes pos with
        | none => (none, self)
        | some mask => (some (), { self with srcIdxEqMask := mask, srcIdxExcPos := pos + 8 })
      else (some (), self)

/-- The section length stored at `offset` of the fixed part of the header. -/
def lenAt (fixed offset : Nat) : Nat :=
  (fixed >>> (8 * offset)) &&& 0xffff

/-- Parse the window at `start`.  The count stays zero until the whole window is
validated, so a reader whose parse failed is done. -/
def parse (self : WindowReader) (bytes : List UInt8) (start : Nat) :
    Option Unit × WindowReader :=
  let self := { self with count := 0, deltaIdx := 0 }
  match LittleEndian.slice? bytes start WinHdr.genColLaneOff with
  | none => (none, self)
  | some header =>
      match readU64Le header 0, readU64Le header WinHdr.genLineMaskOff,
        readU64Le header WinHdr.origLineEqMaskOff, readU64Le header WinHdr.origColEqMaskOff with
      | some fixed, some genLineMask, some origLineEqMask, some origColEqMask =>
          let flags := UInt8.ofNat (fixed >>> (8 * WinHdr.flagsOff))
          let genColPos := start + WinHdr.genColLaneOff
          let origLineExcPos := genColPos + lenAt fixed WinHdr.genColLenOff
          let origColExcPos := origLineExcPos + lenAt fixed WinHdr.origLineLenOff
          let count := min (UInt8.ofNat (fixed >>> (8 * WinHdr.countOff))).toNat syncInterval
          let self :=
            { self with
              bytes := bytes
              genColPos := genColPos
              origLineExcPos := origLineExcPos
              origColExcPos := origColExcPos
              genLineMask := genLineMask
              origLineEqMask := origLineEqMask
              origColEqMask := origColEqMask
              flags := flags
              genLineExcNextIdx := 0xFF }
          if flags ≠ 0 then
            match self.parseFlaggedSections bytes
              (origColExcPos + lenAt fixed WinHdr.origColLenOff) with
            | (none, self) => (none, self)
            | (some (), self) => (some (), { self with count := count })
          else (some (), { self with count := count })
      | _, _, _, _ => (none, self)

def done (self : WindowReader) : Bool :=
  self.count ≤ self.deltaIdx + 1

/-- The gen-line exception of this delta, if the next one is its: the delta lines,
and the reader past the exception.  On failure the reader is the one before. -/
def takeGenLineException (self : WindowReader) (deltaIdx : Nat) (dGenLine dOrigLine : Int32) :
    Option (Int32 × Int32) × WindowReader :=
  if self.genLineExcNextIdx.toNat = deltaIdx then
    match readVarint self.bytes (self.genLineExcPos + 1) with
    | none => (none, self)
    | some (exception, pos) =>
        let dOrigLine := if testBit self.origLineEqMask deltaIdx then exception else dOrigLine
        let self := { self with genLineExcPos := pos }
        match self.bytes[pos]? with
        | none => (none, self)
        | some next => (some (exception, dOrigLine), { self with genLineExcNextIdx := next })
  else (some (dGenLine, dOrigLine), self)

/-- `next_rare`: the lines after a gen-line exception, and the state after a source
index exception.  The source index is the only field it writes. -/
def nextRare (self : WindowReader) (deltaIdx : Nat) (dGenLine dOrigLine : Int32)
    (state : State) : Option (Int32 × Int32) × WindowReader × State :=
  match self.takeGenLineException deltaIdx dGenLine dOrigLine with
  | (none, self) => (none, self, state)
  | (some lines, self) =>
      if self.hasFlag flagHasSrcIdx && !testBit self.srcIdxEqMask deltaIdx then
        match readVarint self.bytes self.srcIdxExcPos with
        | none => (none, self, state)
        | some (dSrcIdx, pos) =>
            (some lines, { self with srcIdxExcPos := pos },
              { state with sourceIndex := state.sourceIndex + dSrcIdx })
      else (some lines, self, state)

/-- `apply_next`.  The reader and the state are what the source's mutable borrows
hold on return, on failure as well as on success. -/
def applyNext (self : WindowReader) (state : State) : Option Unit × WindowReader × State :=
  let deltaIdx := self.deltaIdx
  let self := { self with deltaIdx := deltaIdx + 1 }
  let dGenLine : Int32 := if testBit self.genLineMask deltaIdx then 1 else 0
  match readVarint self.bytes self.genColPos with
  | none => (none, self, state)
  | some (dGenCol, pos) =>
      let self := { self with genColPos := pos }
      let origLine :=
        if testBit self.origLineEqMask deltaIdx then some (dGenLine, self.origLineExcPos)
        else readVarint self.bytes self.origLineExcPos
      match origLine with
      | none => (none, self, state)
      | some (dOrigLine, pos) =>
          let self := { self with origLineExcPos := pos }
          let origCol :=
            if testBit self.origColEqMask deltaIdx then some (dGenCol, self.origColExcPos)
            else readVarint self.bytes self.origColExcPos
          match origCol with
          | none => (none, self, state)
          | some (dOrigCol, pos) =>
              let self := { self with origColExcPos := pos }
              if self.flags ≠ 0 then
                match self.nextRare deltaIdx dGenLine dOrigLine state with
                | (none, self, state) => (none, self, state)
                | (some (dGenLine, dOrigLine), self, state) =>
                    (some (), self, state.advance dGenLine dGenCol dOrigLine dOrigCol)
              else (some (), self, state.advance dGenLine dGenCol dOrigLine dOrigCol)

/-- `next`: a failed step empties the reader. -/
def next (self : WindowReader) (state : State) : WindowReader × State :=
  match self.applyNext state with
  | (none, self, state) => ({ self with count := 0 }, state)
  | (some (), self, state) => (self, state)

/-! ### Progress of the reader -/

theorem takeGenLineException_frame (self : WindowReader) (deltaIdx : Nat)
    (dGenLine dOrigLine : Int32) :
    (self.takeGenLineException deltaIdx dGenLine dOrigLine).2.count = self.count ∧
      (self.takeGenLineException deltaIdx dGenLine dOrigLine).2.deltaIdx = self.deltaIdx := by
  unfold takeGenLineException
  split
  · split
    · exact ⟨rfl, rfl⟩
    · dsimp only
      split <;> exact ⟨rfl, rfl⟩
  · exact ⟨rfl, rfl⟩

theorem nextRare_frame (self : WindowReader) (deltaIdx : Nat) (dGenLine dOrigLine : Int32)
    (state : State) :
    (self.nextRare deltaIdx dGenLine dOrigLine state).2.1.count = self.count ∧
      (self.nextRare deltaIdx dGenLine dOrigLine state).2.1.deltaIdx = self.deltaIdx := by
  have before := takeGenLineException_frame self deltaIdx dGenLine dOrigLine
  unfold nextRare
  generalize self.takeGenLineException deltaIdx dGenLine dOrigLine = taken at before
  rcases taken with ⟨lines, reader⟩
  cases lines with
  | none => exact before
  | some lines =>
      dsimp only
      split
      · split <;> exact before
      · exact before

/-- A step, failed or not, moves to the next delta index and keeps the count. -/
theorem applyNext_frame (self : WindowReader) (state : State) :
    (self.applyNext state).2.1.count = self.count ∧
      (self.applyNext state).2.1.deltaIdx = self.deltaIdx + 1 := by
  unfold applyNext
  dsimp only
  split
  · exact ⟨rfl, rfl⟩
  · split
    · exact ⟨rfl, rfl⟩
    · split
      · exact ⟨rfl, rfl⟩
      · split
        · rename_i dGenCol _ _ _ dOrigLine _ _ _ dOrigCol _ _ _
          split
          · rename_i rare
            have frame := congrArg (fun result => result.2.1) rare
            dsimp only at frame
            rw [← frame]
            exact nextRare_frame _ _ _ _ _
          · rename_i rare
            have frame := congrArg (fun result => result.2.1) rare
            dsimp only at frame
            rw [← frame]
            exact nextRare_frame _ _ _ _ _
        · exact ⟨rfl, rfl⟩

theorem next_frame (self : WindowReader) (state : State) :
    ((self.next state).1.count = 0 ∨ (self.next state).1.count = self.count) ∧
      (self.next state).1.deltaIdx = self.deltaIdx + 1 := by
  have step := applyNext_frame self state
  unfold next
  generalize self.applyNext state = applied at step
  rcases applied with ⟨outcome, reader, after⟩
  cases outcome with
  | none => exact ⟨Or.inl rfl, step.2⟩
  | some _ => exact ⟨Or.inr step.1, step.2⟩

theorem next_decreases (self : WindowReader) (state : State) (running : self.done = false) :
    (self.next state).1.count - (self.next state).1.deltaIdx < self.count - self.deltaIdx := by
  have frame := next_frame self state
  have more : self.deltaIdx + 1 < self.count := by simpa [done] using running
  omega

end WindowReader

/-! ### Lookups -/

/-- The loop of `locate_window`: the number of leading sync entries at or before
the target, narrowed from `[lo, hi)`. -/
def locateLoop (blob : List UInt8) (targetLine targetCol : Int32) (lo hi : Nat) :
    Except Trap Nat :=
  if lo < hi then
    let mid := lo + (hi - lo) / 2
    match syncEntry blob mid with
    | .error trap => .error trap
    | .ok entry =>
        if entry.lessOrEqual targetLine targetCol then
          locateLoop blob targetLine targetCol (mid + 1) hi
        else locateLoop blob targetLine targetCol lo mid
  else .ok lo
termination_by hi - lo
decreasing_by all_goals omega

def locateWindow (blob : List UInt8) (targetLine targetCol : Int32) :
    Except Trap (Option Nat) := do
  let nSync ← syncCount blob
  if nSync = 0 then return none
  let lo ← locateLoop blob targetLine targetCol 0 nSync
  if lo = 0 then return none
  if 2 ^ 32 ≤ lo - 1 then throw .intCast
  return some (lo - 1)

/-- `seed_window`: the state of the window's first mapping, and a reader over its
deltas, which is done when the window extends past the end of the stream. -/
def seedWindow (blob : List UInt8) (syncIdx : Nat) :
    Except Trap (Option Unit × State × WindowReader) := do
  let entry ← syncEntry blob syncIdx
  let bytes ← stream blob
  let (outcome, reader) := WindowReader.dangling.parse bytes entry.byteOffset.toNat
  return (outcome, entry.toState, reader)

/-- The loop `find` and `find_closest` share: advance while the next mapping is at
or before the target, and return the reader and the best mapping. -/
def scanWindow (reader : WindowReader) (state : State) (line col : Int32) :
    WindowReader × State :=
  if _running : reader.done = false then
    let step := reader.next state
    if step.2.lessOrEqual line col then scanWindow step.1 step.2 line col
    else (step.1, state)
  else (reader, state)
termination_by reader.count - reader.deltaIdx
decreasing_by exact WindowReader.next_decreases reader state _running

def find (blob : List UInt8) (line column : Int32) : Except Trap (Option Mapping) := do
  match ← locateWindow blob line column with
  | none => return none
  | some syncIdx =>
      match ← seedWindow blob syncIdx with
      | (none, _, _) => return none
      | (some (), state, reader) =>
          let (reader, best) := scanWindow reader state line column
          -- A count of zero means the window is corrupt.
          if reader.count = 0 ∨ best.generatedLine ≠ line then return none
          return some best.toMapping

/-- `find_closest` does not look at the outcome of `seed_window`. -/
def findClosest (blob : List UInt8) (line column : Int32) : Except Trap (Option Mapping) := do
  match ← locateWindow blob line column with
  | none => return none
  | some syncIdx =>
      let (_, state, reader) ← seedWindow blob syncIdx
      return some (scanWindow reader state line column).2.toMapping

/-! ### Whole-blob traversals -/

/-- The mappings of a window after its first, and whether the walk reached the
window's end. -/
def walkWindow (reader : WindowReader) (state : State) : List State × Bool :=
  if _running : reader.done = false then
    let step := reader.next state
    if step.1.count = 0 then ([], false)
    else
      let rest := walkWindow step.1 step.2
      (step.2 :: rest.1, rest.2)
  else ([], true)
termination_by reader.count - reader.deltaIdx
decreasing_by exact WindowReader.next_decreases reader state _running

/-- The states the loops of `for_each` and `append_vlq_to` visit, from window `idx`
with `remaining` windows left.  A corrupt window ends the traversal. -/
def visitedFrom (blob : List UInt8) : Nat → Nat → Except Trap (List State)
  | _, 0 => .ok []
  | idx, remaining + 1 => do
      match ← seedWindow blob idx with
      | (none, _, _) => return []
      | (some (), state, reader) =>
          let (rest, complete) := walkWindow reader state
          if complete then return state :: rest ++ (← visitedFrom blob (idx + 1) remaining)
          else return state :: rest

def visited (blob : List UInt8) : Except Trap (List State) := do
  visitedFrom blob 0 (← syncCount blob)

/-- `for_each`: the mappings handed to the callback, in order. -/
def forEach (blob : List UInt8) : Except Trap (List Mapping) :=
  (visited blob).map (List.map State.toMapping)

/-- The output, the previous state and the line of `append_vlq_to`. -/
structure VlqOutput where
  out : List UInt8
  prev : SourceMapState
  generatedLine : Int32
deriving DecidableEq, Repr

def State.toSourceMapState (state : State) : SourceMapState :=
  { generatedLine := state.generatedLine
    generatedColumn := state.generatedColumn
    sourceIndex := state.sourceIndex
    originalLine := state.originalLine
    originalColumn := state.originalColumn }

/-- The line breaks `emit_vlq` writes first.  The gap is an `i32` subtraction, which
traps when it overflows. -/
def emitLineBreaks (output : VlqOutput) (state : State) : Except Trap VlqOutput :=
  if output.generatedLine < state.generatedLine then
    let gap := state.generatedLine.toInt - output.generatedLine.toInt
    if 2 ^ 31 ≤ gap then .error .arithmeticOverflow
    else
      .ok
        { out := output.out ++ List.replicate gap.toNat Vlq.semicolon
          prev := { output.prev with generatedColumn := 0 }
          generatedLine := state.generatedLine }
  else .ok output

def emitVlq (output : VlqOutput) (state : State) : Except Trap VlqOutput := do
  let output ← emitLineBreaks output state
  let current := state.toSourceMapState
  let lastByte := output.out.getLast?.getD 0
  return { output with
    out := Vlq.appendMappingToBuffer output.out lastByte output.prev current
    prev := current }

/-- `append_vlq_to`, appending to `out`.  The mapping count only sizes the buffer. -/
def appendVlqTo (blob : List UInt8) (out : List UInt8) : Except Trap (List UInt8) := do
  let _ ← mappingCount blob
  let states ← visited blob
  let output ← states.foldlM emitVlq { out := out, prev := .zero, generatedLine := 0 }
  return output.out

end Bun.SourceMap.InternalSourceMap
