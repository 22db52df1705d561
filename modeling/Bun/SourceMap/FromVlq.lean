/-
The conversion of a `mappings` string into an internal blob.

It reads the string with its own loop, checked additions in place of the wrapping
ones of `parse`, and hands every mapping with a source to the builder.
-/

import Bun.SourceMap.InternalLayout
import Bun.SourceMap.MappingRows

set_option autoImplicit false

namespace Bun.SourceMap.InternalSourceMap

inductive FromVlqError where
  | invalidSourceMap
deriving DecidableEq, Repr

/-- `i32::checked_add`. -/
def checkedAdd (a b : Int32) : Option Int32 :=
  if -2147483648 ≤ a.toInt + b.toInt ∧ a.toInt + b.toInt ≤ 2147483647 then some (a + b) else none

def accumulate (absolute delta : Int32) : Except FromVlqError Int32 :=
  match (checkedAdd absolute delta).filter (0 ≤ ·) with
  | none => .error .invalidSourceMap
  | some value => .ok value

structure VlqReader where
  builder : Builder
  generatedColumn : Int32
  sourceIndex : Int32
  originalLine : Int32
  originalColumn : Int32
deriving DecidableEq, Repr

def VlqReader.init : VlqReader :=
  { builder := .init
    generatedColumn := 0
    sourceIndex := 0
    originalLine := 0
    originalColumn := 0 }

def readField (remain : List UInt8) : Except FromVlqError (Int32 × List UInt8) :=
  let result := Vlq.decode remain 0
  if result.start = 0 then .error .invalidSourceMap
  else .ok (result.value, remain.drop result.start)

def discardName (remain : List UInt8) : Except FromVlqError (List UInt8) :=
  match remain with
  | [] => .ok []
  | byte :: rest =>
      if byte ≠ Vlq.comma ∧ byte ≠ Vlq.semicolon then do
        let (_, remain) ← readField (byte :: rest)
        return remain
      else .ok (byte :: rest)

namespace VlqReader

def current (reader : VlqReader) : SourceMapState :=
  { generatedLine := 0
    generatedColumn := reader.generatedColumn
    sourceIndex := reader.sourceIndex
    originalLine := reader.originalLine
    originalColumn := reader.originalColumn }

/-- The fields of a segment after its generated column. -/
def readOriginal (reader : VlqReader) (remain : List UInt8) :
    Except FromVlqError (VlqReader × List UInt8) := do
  let (sourceIndexDelta, afterSource) ← readField remain
  let sourceIndex ← accumulate reader.sourceIndex sourceIndexDelta
  let (originalLineDelta, afterLine) ← readField afterSource
  let originalLine ← accumulate reader.originalLine originalLineDelta
  let (originalColumnDelta, afterColumn) ← readField afterLine
  let originalColumn ← accumulate reader.originalColumn originalColumnDelta
  let afterName ← discardName afterColumn
  let reader := { reader with sourceIndex, originalLine, originalColumn }
  return ({ reader with builder := reader.builder.appendMapping reader.current },
    skipComma afterName)

def readSegment (reader : VlqReader) (remain : List UInt8) :
    Except FromVlqError (VlqReader × List UInt8) := do
  let (generatedColumnDelta, rest) ← readField remain
  let generatedColumn ← accumulate reader.generatedColumn generatedColumnDelta
  let reader := { reader with generatedColumn }
  match rest with
  | [] => return (reader, [])
  | byte :: after =>
      if byte = Vlq.comma then return (reader, after)
      else if byte = Vlq.semicolon then return (reader, byte :: after)
      else reader.readOriginal (byte :: after)

def appendSeparators (builder : Builder) : List UInt8 → Builder × List UInt8
  | [] => (builder, [])
  | byte :: rest =>
      if byte = Vlq.semicolon then appendSeparators builder.appendLineSeparator rest
      else (builder, byte :: rest)

def readLines (reader : VlqReader) (remain : List UInt8) : VlqReader × List UInt8 :=
  match remain with
  | [] => (reader, [])
  | byte :: rest =>
      if byte = Vlq.semicolon then
        let (builder, remain) := appendSeparators reader.builder (byte :: rest)
        ({ reader with generatedColumn := 0, builder }, remain)
      else (reader, byte :: rest)

end VlqReader

/-! ### What is left is an end of what there was -/

theorem readField_suffix {remain rest : List UInt8} {delta : Int32}
    (read : readField remain = .ok (delta, rest)) :
    rest <:+ remain ∧ rest.length < remain.length := by
  have inside := decode_start_le remain
  unfold readField at read
  dsimp only at read
  split at read
  · cases read
  · rename_i progress
    have restEq := congrArg Prod.snd (Except.ok.inj read)
    dsimp only at restEq
    rw [← restEq, List.length_drop]
    exact ⟨List.drop_suffix _ _, by omega⟩

theorem skipComma_suffix (remain : List UInt8) : skipComma remain <:+ remain := by
  cases remain with
  | nil => exact List.suffix_rfl
  | cons byte rest =>
      rw [skipComma]
      split
      · exact List.suffix_cons _ _
      · exact List.suffix_rfl

theorem discardName_suffix {remain rest : List UInt8} (discarded : discardName remain = .ok rest) :
    rest <:+ remain := by
  unfold discardName at discarded
  split at discarded
  · obtain rfl := Except.ok.inj discarded
    exact List.suffix_rfl
  · split at discarded
    · obtain ⟨⟨delta, after⟩, read, finished⟩ := ok_of_bind discarded
      obtain rfl := Except.ok.inj finished
      exact (readField_suffix read).1
    · obtain rfl := Except.ok.inj discarded
      exact List.suffix_rfl

theorem VlqReader.readOriginal_ok {reader next : VlqReader} {remain rest : List UInt8}
    (read : reader.readOriginal remain = .ok (next, rest)) :
    rest <:+ remain ∧ rest.length < remain.length ∧
      next.builder = reader.builder.appendMapping next.current := by
  unfold VlqReader.readOriginal at read
  obtain ⟨⟨sourceIndexDelta, afterSource⟩, readSource, read⟩ := ok_of_bind read
  obtain ⟨sourceIndex, -, read⟩ := ok_of_bind read
  obtain ⟨⟨originalLineDelta, afterLine⟩, readLine, read⟩ := ok_of_bind read
  obtain ⟨originalLine, -, read⟩ := ok_of_bind read
  obtain ⟨⟨originalColumnDelta, afterColumn⟩, readColumn, read⟩ := ok_of_bind read
  obtain ⟨originalColumn, -, read⟩ := ok_of_bind read
  obtain ⟨afterName, discarded, finished⟩ := ok_of_bind read
  obtain ⟨rfl, rfl⟩ := Prod.mk.inj (Except.ok.inj finished)
  obtain ⟨sourceSuffix, sourceShorter⟩ := readField_suffix readSource
  obtain ⟨lineSuffix, lineShorter⟩ := readField_suffix readLine
  obtain ⟨columnSuffix, columnShorter⟩ := readField_suffix readColumn
  have suffix : skipComma afterName <:+ afterColumn :=
    (skipComma_suffix afterName).trans (discardName_suffix discarded)
  have shorter := suffix.length_le
  refine ⟨suffix.trans (columnSuffix.trans (lineSuffix.trans sourceSuffix)), by omega, rfl⟩

theorem VlqReader.readSegment_ok {reader next : VlqReader} {remain rest : List UInt8}
    (read : reader.readSegment remain = .ok (next, rest)) :
    rest <:+ remain ∧ rest.length < remain.length ∧
      (next.builder = reader.builder ∨
        next.builder = reader.builder.appendMapping next.current) := by
  unfold VlqReader.readSegment at read
  obtain ⟨⟨generatedColumnDelta, afterColumn⟩, readColumn, read⟩ := ok_of_bind read
  obtain ⟨generatedColumn, -, read⟩ := ok_of_bind read
  obtain ⟨suffix, shorter⟩ := readField_suffix readColumn
  dsimp only at read
  split at read
  · obtain ⟨rfl, rfl⟩ := Prod.mk.inj (Except.ok.inj read)
    exact ⟨suffix, shorter, Or.inl rfl⟩
  · rename_i byte after _
    have afterSuffix : after <:+ byte :: after := List.suffix_cons _ _
    rw [List.length_cons] at shorter
    split at read
    · obtain ⟨rfl, rfl⟩ := Prod.mk.inj (Except.ok.inj read)
      exact ⟨afterSuffix.trans suffix, by omega, Or.inl rfl⟩
    · split at read
      · obtain ⟨rfl, rfl⟩ := Prod.mk.inj (Except.ok.inj read)
        exact ⟨suffix, by rw [List.length_cons]; exact shorter, Or.inl rfl⟩
      · obtain ⟨originalSuffix, originalShorter, appended⟩ := VlqReader.readOriginal_ok read
        rw [List.length_cons] at originalShorter
        exact ⟨originalSuffix.trans suffix, by omega, Or.inr appended⟩

theorem VlqReader.appendSeparators_length_le (builder : Builder) (remain : List UInt8) :
    (appendSeparators builder remain).2.length ≤ remain.length := by
  fun_induction appendSeparators builder remain with
  | case1 => exact Nat.le_refl _
  | case2 => simp only [List.length_cons]; omega
  | case3 => exact Nat.le_refl _

theorem VlqReader.readLines_length_le (reader : VlqReader) (remain : List UInt8) :
    (reader.readLines remain).2.length ≤ remain.length := by
  unfold VlqReader.readLines
  split
  · exact Nat.le_refl _
  · split
    · exact appendSeparators_length_le _ _
    · exact Nat.le_refl _

/-! ### The loop -/

def fromVlqLoop (reader : VlqReader) (remain : List UInt8) : Except FromVlqError VlqReader :=
  if (reader.readLines remain).2 = [] then .ok (reader.readLines remain).1
  else
    match _segment : (reader.readLines remain).1.readSegment (reader.readLines remain).2 with
    | .error error => .error error
    | .ok (next, rest) => fromVlqLoop next rest
termination_by remain.length
decreasing_by
  have linesLength := VlqReader.readLines_length_le reader remain
  have shorter := (VlqReader.readSegment_ok _segment).2.1
  omega

def fromVlqBuilder (vlq : List UInt8) : Except FromVlqError Builder :=
  (fromVlqLoop .init vlq).map VlqReader.builder

/-- `from_vlq`. -/
def fromVlq (vlq : List UInt8) : Except Trap (Except FromVlqError (List UInt8)) :=
  match fromVlqBuilder vlq with
  | .error error => .ok (.error error)
  | .ok builder => do
      let blob ← builder.toBlob
      return .ok blob

def VlqReader.nextLine (reader : VlqReader) : VlqReader :=
  { reader with generatedColumn := 0, builder := reader.builder.appendLineSeparator }

theorem fromVlqLoop_nil (reader : VlqReader) : fromVlqLoop reader [] = .ok reader := by
  rw [fromVlqLoop, VlqReader.readLines, if_pos rfl]

theorem VlqReader.readLines_semicolon (reader : VlqReader) (rest : List UInt8) :
    reader.readLines (Vlq.semicolon :: rest) = reader.nextLine.readLines rest := by
  rw [readLines, if_pos rfl, appendSeparators, if_pos rfl]
  cases rest with
  | nil => rfl
  | cons byte rest =>
      by_cases separator : byte = Vlq.semicolon
      · rw [readLines, if_pos separator]
        rfl
      · rw [readLines, if_neg separator, appendSeparators, if_neg separator]
        rfl

theorem fromVlqLoop_semicolon (reader : VlqReader) (rest : List UInt8) :
    fromVlqLoop reader (Vlq.semicolon :: rest) = fromVlqLoop reader.nextLine rest := by
  rw [fromVlqLoop, fromVlqLoop, VlqReader.readLines_semicolon]

theorem fromVlqLoop_other (reader : VlqReader) {byte : UInt8} {rest : List UInt8}
    (other : byte ≠ Vlq.semicolon) :
    fromVlqLoop reader (byte :: rest) =
      match reader.readSegment (byte :: rest) with
      | .error error => .error error
      | .ok (next, rest) => fromVlqLoop next rest := by
  have lines : reader.readLines (byte :: rest) = (reader, byte :: rest) := by
    rw [VlqReader.readLines, if_neg other]
  rw [fromVlqLoop, lines, if_neg (List.cons_ne_nil _ _)]
  split
  · rename_i failed
    rw [failed]
  · rename_i read
    rw [read]

end Bun.SourceMap.InternalSourceMap
