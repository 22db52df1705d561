/-
The builder of the internal source-map blob: the pending window, the bytes a full
window becomes, and the blob they are collected into.

The five pending lanes of the source are one list of states here, and the reserved
sub-ranges its cursors write into are one byte list each; compaction is their
concatenation.
-/

import Bun.SourceMap.InternalSourceMap

set_option autoImplicit false

namespace Bun.SourceMap.InternalSourceMap

open Bun.Foundation

structure ObjectBrace where
  generated : LineColumnOffset
  original : LineColumnOffset
deriving DecidableEq, Repr

/-! ### Encoding one window -/

/-- The difference of two consecutive mappings, as `flush_window` computes it: a
new line makes the column absolute. -/
structure Delta where
  genLine : Int32
  genCol : Int32
  origLine : Int32
  origCol : Int32
  srcIdx : Int32
deriving DecidableEq, Repr

def Delta.between (previous current : State) : Delta :=
  let genLine := current.generatedLine - previous.generatedLine
  { genLine := genLine
    genCol :=
      if genLine ≠ 0 then current.generatedColumn
      else current.generatedColumn - previous.generatedColumn
    origLine := current.originalLine - previous.originalLine
    origCol := current.originalColumn - previous.originalColumn
    srcIdx := current.sourceIndex - previous.sourceIndex }

structure Lanes where
  genLineMask : List UInt8
  origLineEqMask : List UInt8
  origColEqMask : List UInt8
  srcIdxMask : List UInt8
  genCol : List UInt8
  origLine : List UInt8
  origCol : List UInt8
  genLine : List UInt8
  srcIdx : List UInt8
  flags : UInt8
deriving DecidableEq, Repr

def Lanes.empty : Lanes :=
  { genLineMask := List.replicate 8 0
    origLineEqMask := List.replicate 8 0
    origColEqMask := List.replicate 8 0
    srcIdxMask := List.replicate 8 0
    genCol := []
    origLine := []
    origCol := []
    genLine := []
    srcIdx := []
    flags := 0 }

/-- One round of the delta loop, for delta index `k`. -/
def Lanes.push (lanes : Lanes) (k : Nat) (delta : Delta) : Lanes :=
  let genLineMask :=
    if delta.genLine ≥ 1 then LittleEndian.setBit lanes.genLineMask k else lanes.genLineMask
  let genCol := lanes.genCol ++ writeVarint delta.genCol
  let (origLineEqMask, origLine) :=
    if delta.origLine = delta.genLine then
      (LittleEndian.setBit lanes.origLineEqMask k, lanes.origLine)
    else (lanes.origLineEqMask, lanes.origLine ++ writeVarint delta.origLine)
  let (origColEqMask, origCol) :=
    if delta.origCol = delta.genCol then
      (LittleEndian.setBit lanes.origColEqMask k, lanes.origCol)
    else (lanes.origColEqMask, lanes.origCol ++ writeVarint delta.origCol)
  let (flags, genLine) :=
    if delta.genLine > 1 ∨ delta.genLine < 0 then
      (lanes.flags ||| flagHasGenLineExceptions,
        lanes.genLine ++ (UInt8.ofNat k :: writeVarint delta.genLine))
    else (lanes.flags, lanes.genLine)
  let (srcIdxMask, flags, srcIdx) :=
    if delta.srcIdx = 0 then (LittleEndian.setBit lanes.srcIdxMask k, flags, lanes.srcIdx)
    else (lanes.srcIdxMask, flags ||| flagHasSrcIdx, lanes.srcIdx ++ writeVarint delta.srcIdx)
  { genLineMask, origLineEqMask, origColEqMask, srcIdxMask, genCol, origLine, origCol, genLine,
    srcIdx, flags }

/-- The delta loop from delta index `k` on, over the mappings after `previous`. -/
def Lanes.pushAll (lanes : Lanes) (k : Nat) (previous : State) : List State → Lanes
  | [] => lanes
  | current :: rest =>
      (lanes.push k (Delta.between previous current)).pushAll (k + 1) current rest

/-- The fixed header of a window of `n` mappings. -/
def Lanes.header (lanes : Lanes) (n : Nat) : List UInt8 :=
  ([UInt8.ofNat n, lanes.flags] ++ (LittleEndian.toBytes 2 lanes.genCol.length ++
    (LittleEndian.toBytes 2 lanes.origLine.length ++
      LittleEndian.toBytes 2 lanes.origCol.length))) ++
  (lanes.genLineMask ++ (lanes.origLineEqMask ++ lanes.origColEqMask))

def Lanes.genLineSection (lanes : Lanes) : List UInt8 :=
  if lanes.flags &&& flagHasGenLineExceptions ≠ 0 then lanes.genLine ++ [0xFF]
  else lanes.genLine

def Lanes.srcIdxSection (lanes : Lanes) : List UInt8 :=
  if lanes.flags &&& flagHasSrcIdx ≠ 0 then lanes.srcIdxMask ++ lanes.srcIdx else []

/-- The window of `n` mappings: the header, then the lanes back to back. -/
def Lanes.toWindow (lanes : Lanes) (n : Nat) : List UInt8 :=
  lanes.header n ++ (lanes.genCol ++ (lanes.origLine ++ (lanes.origCol ++
    (lanes.genLineSection ++ lanes.srcIdxSection))))

/-- The bytes `flush_window` appends for a window that starts at `first`. -/
def encodeWindow (first : State) (rest : List State) : List UInt8 :=
  (Lanes.empty.pushAll 0 first rest).toWindow (rest.length + 1)

/-! ### The builder -/

structure Builder where
  generatedLine : Int32
  pendingGeneratedLineDelta : Int32
  count : UInt32
  syncEntries : List SyncEntry
  winStream : List UInt8
  pending : List State
  objectBraces : List ObjectBrace
deriving DecidableEq, Repr

namespace Builder

def init : Builder :=
  { generatedLine := 0
    pendingGeneratedLineDelta := 0
    count := 0
    syncEntries := []
    winStream := []
    pending := []
    objectBraces := [] }

def appendLineSeparator (self : Builder) : Builder :=
  { self with pendingGeneratedLineDelta := self.pendingGeneratedLineDelta + 1 }

/-- `flush_window`.  The start offset is cut to 32 bits, as the cast in the source
does. -/
def flushWindow (self : Builder) : Builder :=
  match self.pending with
  | [] => self
  | first :: rest =>
      { self with
        syncEntries := self.syncEntries ++
          [{ generatedLine := first.generatedLine
             generatedColumn := first.generatedColumn
             byteOffset := UInt32.ofNat self.winStream.length
             originalLine := first.originalLine
             originalColumn := first.originalColumn
             sourceIndex := first.sourceIndex }]
        winStream := self.winStream ++ encodeWindow first rest
        pending := [] }

def appendMapping (self : Builder) (current : SourceMapState) : Builder :=
  let generatedLine := self.generatedLine + self.pendingGeneratedLineDelta
  let self :=
    { self with
      generatedLine := generatedLine
      pendingGeneratedLineDelta := 0
      pending := self.pending ++
        [{ generatedLine := generatedLine
           generatedColumn := current.generatedColumn
           sourceIndex := current.sourceIndex
           originalLine := current.originalLine
           originalColumn := current.originalColumn }]
      count := self.count + 1 }
  if self.pending.length = syncInterval then self.flushWindow else self

def syncEntryBytes (entry : SyncEntry) : List UInt8 :=
  i32ToBytes entry.generatedLine ++ (i32ToBytes entry.generatedColumn ++
    (LittleEndian.toBytes 4 entry.byteOffset.toNat ++ (i32ToBytes entry.originalLine ++
      (i32ToBytes entry.originalColumn ++ i32ToBytes entry.sourceIndex))))

def objectBraceBytes (brace : ObjectBrace) : List UInt8 :=
  i32ToBytes brace.generated.lines ++ (i32ToBytes brace.generated.columns ++
    (i32ToBytes brace.original.lines ++ i32ToBytes brace.original.columns))

def expectU32 (value : Nat) : Except Trap Nat :=
  if value < 2 ^ 32 then .ok value else .error .intCast

/-- `finalize`.  The first sixteen bytes are left for the caller. -/
def finalize (self : Builder) : Except Trap (List UInt8) := do
  let self := self.flushWindow
  let syncBytes := self.syncEntries.length * syncEntrySize
  let streamOffset ← expectU32 (headerSize + syncBytes)
  let objectBraceCount ← expectU32 self.objectBraces.length
  let syncCount ← expectU32 self.syncEntries.length
  return List.replicate 20 0 ++ (LittleEndian.toBytes 4 objectBraceCount ++
    (LittleEndian.toBytes 4 syncCount ++ (LittleEndian.toBytes 4 streamOffset ++
      (self.syncEntries.flatMap syncEntryBytes ++ (self.winStream ++
        (self.objectBraces.flatMap objectBraceBytes ++ List.replicate streamTailPad 0))))))

/-- The length and the mapping count that `generate_chunk` and `from_vlq` write into
the first sixteen bytes of a finalized blob. -/
def fillLengthAndCount (blob : List UInt8) (count : Nat) : List UInt8 :=
  LittleEndian.toBytes 8 blob.length ++ (LittleEndian.toBytes 8 count ++ blob.drop 16)

def toBlob (self : Builder) : Except Trap (List UInt8) := do
  let blob ← self.finalize
  return fillLengthAndCount blob self.count.toNat

end Builder

inductive BuilderCall where
  | appendLineSeparator
  | appendMapping (current : SourceMapState)
deriving DecidableEq, Repr

def Builder.call (self : Builder) : BuilderCall → Builder
  | .appendLineSeparator => self.appendLineSeparator
  | .appendMapping current => self.appendMapping current

def Builder.run (self : Builder) (calls : List BuilderCall) : Builder :=
  calls.foldl Builder.call self

end Bun.SourceMap.InternalSourceMap
