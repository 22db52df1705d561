/-
The source-map builder of the printer: it follows the printed text, and appends a
mapping when the printer asks for one.

The line-offset table of the source is a lookup parameter: it gives the original
position of a location, and nothing when there is no table.
-/

import Bun.Core.Wtf8
import Bun.SourceMap.InternalBuilder

set_option autoImplicit false

namespace Bun.SourceMap.Printer

open Bun.Core
open Bun.SourceMap.InternalSourceMap (Trap)

/-! ### The mapping writer -/

structure VlqSourceMap where
  data : List UInt8
  internal : Option InternalSourceMap.Builder
  count : Nat
  offset : Nat
deriving DecidableEq, Repr

namespace VlqSourceMap

def init (prependCount : Bool) : VlqSourceMap :=
  { data := []
    internal := if prependCount then some .init else none
    count := 0
    offset := 0 }

def appendLineSeparator (self : VlqSourceMap) : VlqSourceMap :=
  match self.internal with
  | some builder => { self with internal := some builder.appendLineSeparator }
  | none => { self with data := self.data ++ [Vlq.semicolon] }

def append (self : VlqSourceMap) (currentState prevState : SourceMapState) : VlqSourceMap :=
  match self.internal with
  | some builder =>
      { self with internal := some (builder.appendMapping currentState), count := self.count + 1 }
  | none =>
      let lastByte := if self.offset < self.data.length then self.data.getLast?.getD 0 else 0
      { self with
        data := Vlq.appendMappingToBuffer self.data lastByte prevState currentState
        count := self.count + 1 }

def shouldIgnore (self : VlqSourceMap) : Bool := self.count = 0

/-- `get_buffer` finalizes the internal builder into the data. -/
def getBuffer (self : VlqSourceMap) : Except Trap VlqSourceMap :=
  match self.internal with
  | some builder => do
      let data ← builder.finalize
      return { self with data := data, internal := none }
  | none => .ok self

end VlqSourceMap

/-! ### The builder -/

structure Loc where
  start : Int32
deriving DecidableEq, Repr

def Loc.empty : Loc := ⟨-1⟩

structure Builder where
  sourceMap : VlqSourceMap
  prevState : SourceMapState
  lastGeneratedUpdate : UInt32
  generatedColumn : Int32
  prevLoc : Loc
  hasPrevState : Bool
  lineStartsWithMapping : Bool
  coverLinesWithoutMappings : Bool
  prependCount : Bool
deriving DecidableEq, Repr

structure Chunk where
  buffer : List UInt8
  endState : SourceMapState
  finalGeneratedColumn : Int32
  shouldIgnore : Bool
deriving DecidableEq, Repr

namespace Builder

def init (coverLinesWithoutMappings prependCount : Bool) : Builder :=
  { sourceMap := .init prependCount
    prevState := .zero
    lastGeneratedUpdate := 0
    generatedColumn := 0
    prevLoc := .empty
    hasPrevState := false
    lineStartsWithMapping := false
    coverLinesWithoutMappings := coverLinesWithoutMappings
    prependCount := prependCount }

def appendMappingWithoutRemapping (self : Builder) (currentState : SourceMapState) : Builder :=
  { self with
    sourceMap := self.sourceMap.append currentState self.prevState
    prevState := currentState
    hasPrevState := true }

/-- The lazily replicated mapping at the start of the line. -/
def coverLine (self : Builder) : Builder :=
  self.appendMappingWithoutRemapping { self.prevState with generatedColumn := 0 }

def needsMapping (self : Builder) : Bool :=
  self.coverLinesWithoutMappings && !self.lineStartsWithMapping && self.hasPrevState

def newLine (self : Builder) (needsMapping : Bool) : Builder :=
  let self := if needsMapping then self.coverLine else self
  { self with
    prevState :=
      { self.prevState with
        generatedLine := self.prevState.generatedLine + 1
        generatedColumn := 0 }
    generatedColumn := 0
    sourceMap := self.sourceMap.appendLineSeparator
    lineStartsWithMapping := false }

def addColumns (self : Builder) (columns : Nat) : Builder :=
  { self with generatedColumn := self.generatedColumn + Int32.ofNat columns }

end Builder

theorem wtf8ByteSequenceLength_pos (byte : UInt8) : 0 < wtf8ByteSequenceLength byte := by
  unfold wtf8ByteSequenceLength
  repeat' split
  all_goals decide

namespace Builder

/-- The code point at `i` of the window, and the index after it. -/
def runeAt (slice : List UInt8) (i : Nat) (first : UInt8) : Int × Nat :=
  let len := wtf8ByteSequenceLength first
  (decodeWtf8RuneT ((slice.drop i).take len) len unicodeReplacement, i + len)

/-- The loop of `update_generated_line_and_column_slow` from index `i` of the window
`slice`, which is the end of `output`. -/
def slowLoop (self : Builder) (output slice : List UInt8) (needsMapping : Bool) (i : Nat) :
    Builder :=
  match _inside : slice[i]? with
  | none => self
  | some first =>
      let c := (runeAt slice i first).1
      let after := (runeAt slice i first).2
      if 14 ≤ c ∧ c ≤ 127 then
        match _found : indexOfNewlineOrNonAscii slice after with
        | some j => slowLoop (self.addColumns (j - after + 1)) output slice needsMapping j
        | none => self.addColumns (slice.length - after + 1)
      else if c = 0x0D ∨ c = 0x0A ∨ c = 0x2028 ∨ c = 0x2029 then
        let newlineCheck := self.lastGeneratedUpdate.toNat + after + 1
        if c = 0x0D ∧ output[newlineCheck]? = some 0x0A then
          slowLoop self output slice needsMapping after
        else
          let self := self.newLine needsMapping
          slowLoop self output slice self.needsMapping after
      else
        -- Columns count UTF-16 code units.
        slowLoop (self.addColumns (if c > 0xFFFF then 2 else 1)) output slice needsMapping after
termination_by slice.length - i
decreasing_by
  all_goals
    have inside := (List.getElem?_eq_some_iff.mp _inside).1
    have positive := wtf8ByteSequenceLength_pos first
    have afterEq : (runeAt slice i first).2 = i + wtf8ByteSequenceLength first := rfl
  · have beyond := le_of_indexOfNewlineOrNonAscii _found
    omega
  · omega
  · omega
  · omega

def updateSlow (self : Builder) (output : List UInt8) : Builder :=
  let slice := output.drop self.lastGeneratedUpdate.toNat
  { self.slowLoop output slice self.needsMapping 0 with
    lastGeneratedUpdate := UInt32.ofNat output.length }

/-- `update_generated_line_and_column`: a window of printable ASCII only moves the
column. -/
def updateGeneratedLineAndColumn (self : Builder) (output : List UInt8) : Builder :=
  let slice := output.drop self.lastGeneratedUpdate.toNat
  let pureAscii :=
    if slice.length < 16 then !slice.any isNewlineOrNonAscii
    else (indexOfNewlineOrNonAscii slice 0).isNone
  if pureAscii then
    { self with
      generatedColumn := self.generatedColumn + Int32.ofNat slice.length
      lastGeneratedUpdate := UInt32.ofNat output.length }
  else self.updateSlow output

/-- `add_source_mapping` once the original position is known. -/
def recordMapping (self : Builder) (originalLine originalColumn : Int32) (output : List UInt8) :
    Builder :=
  let self := self.updateGeneratedLineAndColumn output
  let self :=
    if self.coverLinesWithoutMappings && !self.lineStartsWithMapping &&
        decide (self.generatedColumn > 0) && self.hasPrevState then self.coverLine
    else self
  let self := self.appendMappingWithoutRemapping
    { generatedLine := self.prevState.generatedLine
      generatedColumn := max self.generatedColumn 0
      sourceIndex := self.prevState.sourceIndex
      originalLine := max originalLine 0
      originalColumn := max originalColumn 0 }
  { self with lineStartsWithMapping := true }

def generateChunk (self : Builder) (output : List UInt8) : Except Trap Chunk := do
  let self := self.updateGeneratedLineAndColumn output
  let sourceMap ← self.sourceMap.getBuffer
  let buffer :=
    if self.prependCount then
      InternalSourceMap.Builder.fillLengthAndCount sourceMap.data sourceMap.count
    else sourceMap.data
  return {
    buffer := buffer
    endState := self.prevState
    finalGeneratedColumn := self.generatedColumn
    shouldIgnore := sourceMap.shouldIgnore }

end Builder

end Bun.SourceMap.Printer
