/-
Joining the source maps of printed chunks into the `mappings` of one output.

Every chunk is written relative to the zero state.  The join rewrites the first
segment of a chunk relative to the end of the chunk before it and copies the rest.
The string joiner is the text pushed so far.
-/

import Bun.SourceMap.ChunkItems

set_option autoImplicit false

namespace Bun.SourceMap

open Bun.SourceMap.InternalSourceMap (Trap)

/-! ### Appending one chunk -/

/-- `usize::try_from(value).expect("int cast")`. -/
def expectUsize (value : Int32) : Except Trap Nat :=
  if 0 ≤ value then .ok value.toInt.toNat else .error .intCast

def indexOfNotChar (slice : List UInt8) (char : UInt8) : Option Nat :=
  slice.findIdx? (· ≠ char)

/-- `StringJoiner::last_byte`. -/
def lastByte (j : List UInt8) : UInt8 := j.getLast?.getD 0

/-- The line breaks between the chunk and the text before it. -/
def pushLineBreaks (j : List UInt8) (prevEndState startState : SourceMapState) :
    Except Trap (List UInt8 × SourceMapState) :=
  if startState.generatedLine ≠ 0 then do
    let count ← expectUsize startState.generatedLine
    return (j ++ List.replicate count Vlq.semicolon, { prevEndState with generatedColumn := 0 })
  else .ok (j, prevEndState)

def pushFirstMapping (j : List UInt8) (prevEndState startState : SourceMapState)
    (sourceMap : List UInt8) : List UInt8 :=
  let generatedColumn := Vlq.decode sourceMap 0
  let sourceIndex := Vlq.decode sourceMap generatedColumn.start
  let originalLine := Vlq.decode sourceMap sourceIndex.start
  let originalColumn := Vlq.decode sourceMap originalLine.start
  let startState :=
    { startState with
      sourceIndex := startState.sourceIndex + sourceIndex.value
      generatedColumn := startState.generatedColumn + generatedColumn.value
      originalLine := startState.originalLine + originalLine.value
      originalColumn := startState.originalColumn + originalColumn.value }
  j ++ Vlq.appendMappingToBuffer [] (lastByte j) prevEndState startState ++
    sourceMap.drop originalColumn.start

def appendSourceMapChunk (j : List UInt8) (prevEndState startState : SourceMapState)
    (sourceMap : List UInt8) : Except Trap (List UInt8) := do
  let (j, prevEndState) ← pushLineBreaks j prevEndState startState
  match indexOfNotChar sourceMap Vlq.semicolon with
  | none => return pushFirstMapping j prevEndState startState sourceMap
  | some semicolons =>
      if semicolons > 0 then
        return pushFirstMapping (j ++ sourceMap.take semicolons)
          { prevEndState with generatedColumn := 0 } { startState with generatedColumn := 0 }
          (sourceMap.drop semicolons)
      else return pushFirstMapping j prevEndState startState sourceMap

/-! ### The join loop -/

structure CompileResultForSourceMap where
  sourceMapChunk : Printer.Chunk
  generatedOffset : LineColumnOffset
  sourceIndex : UInt32
deriving DecidableEq, Repr

/-- `source_id_map.get_or_put`, with the next index of the generated map. -/
def putSource (ids : List (UInt32 × Int32) × Int32) (index : UInt32) :
    List (UInt32 × Int32) × Int32 :=
  if (ids.1.lookup index).isSome then ids else (ids.1 ++ [(index, ids.2)], ids.2 + 1)

def sourceIdMap : List UInt32 → List (UInt32 × Int32)
  | [] => []
  | first :: rest => (rest.foldl putSource ([(first, 0)], 1)).1

structure JoinState where
  j : List UInt8
  prevEndState : SourceMapState
  prevColumnOffset : Int32
deriving DecidableEq, Repr

def joinChunk (ids : List (UInt32 × Int32)) (state : JoinState) (result : CompileResultForSourceMap) :
    Except Trap JoinState :=
  match ids.lookup result.sourceIndex with
  | none => .error .unreachable
  | some mappingSourceIndex => do
      let offset := result.generatedOffset
      let startState : SourceMapState :=
        { generatedLine := offset.lines
          generatedColumn :=
            if offset.lines = 0 then offset.columns + state.prevColumnOffset else offset.columns
          sourceIndex := mappingSourceIndex
          originalLine := 0
          originalColumn := 0 }
      let chunk := result.sourceMapChunk
      let j ← appendSourceMapChunk state.j state.prevEndState startState chunk.buffer
      if chunk.endState.generatedLine = 0 then
        return {
          j := j
          prevEndState :=
            { chunk.endState with
              sourceIndex := mappingSourceIndex
              generatedColumn := chunk.endState.generatedColumn + startState.generatedColumn }
          prevColumnOffset := chunk.finalGeneratedColumn + startState.generatedColumn }
      else
        return {
          j := j
          prevEndState := { chunk.endState with sourceIndex := mappingSourceIndex }
          prevColumnOffset := chunk.finalGeneratedColumn }

def mappingsKey : List UInt8 := "\n  ],\n  \"mappings\": \"".toUTF8.toList

/-- The mappings of the generated source map, after the `front` of its JSON. -/
def joinMappings (front : List UInt8) (results : List CompileResultForSourceMap) :
    Except Trap (List UInt8) := do
  let ids := sourceIdMap (results.map CompileResultForSourceMap.sourceIndex)
  let state ← results.foldlM (joinChunk ids)
    { j := front ++ mappingsKey, prevEndState := .zero, prevColumnOffset := 0 }
  return state.j.drop (front ++ mappingsKey).length

/-! ### Indices of sources -/

/-- The sources of the generated map, in the order of its `sources`. -/
def sources (indices : List UInt32) : List UInt32 := (sourceIdMap indices).map Prod.fst

def indexedFrom : Nat → List UInt32 → List (UInt32 × Int32)
  | _, [] => []
  | n, key :: keys => (key, Int32.ofNat n) :: indexedFrom (n + 1) keys

theorem indexedFrom_keys (keys : List UInt32) :
    ∀ n, (indexedFrom n keys).map Prod.fst = keys := by
  induction keys with
  | nil => intro n; rfl
  | cons key keys ih =>
      intro n
      rw [indexedFrom, List.map_cons, ih]

theorem indexedFrom_append (keys : List UInt32) (key : UInt32) :
    ∀ n, indexedFrom n (keys ++ [key]) = indexedFrom n keys ++ [(key, Int32.ofNat (n + keys.length))] := by
  induction keys with
  | nil => intro n; rfl
  | cons first keys ih =>
      intro n
      have shifted : n + 1 + keys.length = n + (keys.length + 1) := by omega
      rw [List.cons_append, indexedFrom, ih, indexedFrom, List.length_cons, List.cons_append, shifted]

theorem lookup_indexedFrom (keys : List UInt32) (index : UInt32) :
    ∀ n, (indexedFrom n keys).lookup index =
      if index ∈ keys then some (Int32.ofNat (n + keys.idxOf index)) else none := by
  induction keys with
  | nil => intro n; rfl
  | cons key keys ih =>
      intro n
      rw [indexedFrom, List.lookup_cons]
      by_cases same : index = key
      · subst same
        simp
      · have other : (index == key) = false := by simpa using same
        have swapped : (key == index) = false := by simpa using Ne.symm same
        simp only [other, ih, List.mem_cons, same, false_or, List.idxOf_cons, swapped, cond_false]
        simp only [Nat.add_assoc, Nat.add_comm 1]

/-- The map gives every source its place in `sources`. -/
theorem sourceIdMap_indexed (indices : List UInt32) :
    sourceIdMap indices = indexedFrom 0 (sources indices) ∧
      (∀ index ∈ indices, index ∈ sources indices) ∧ (sources indices).length ≤ indices.length := by
  have folded : ∀ (rest keys : List UInt32), ∃ more,
      rest.foldl putSource (indexedFrom 0 keys, Int32.ofNat keys.length) =
        (indexedFrom 0 more, Int32.ofNat more.length) ∧
      (∀ index, index ∈ keys ∨ index ∈ rest → index ∈ more) ∧
      more.length ≤ keys.length + rest.length := by
    intro rest
    induction rest with
    | nil =>
        intro keys
        refine ⟨keys, rfl, ?_, Nat.le_refl _⟩
        rintro index (present | absent)
        · exact present
        · cases absent
    | cons first rest ih =>
        intro keys
        rw [List.foldl_cons]
        unfold putSource
        dsimp only
        by_cases present : first ∈ keys
        · rw [if_pos (by rw [lookup_indexedFrom, if_pos present]; rfl)]
          obtain ⟨more, foldedEq, all, short⟩ := ih keys
          refine ⟨more, foldedEq, ?_, by rw [List.length_cons]; omega⟩
          rintro index (known | listed)
          · exact all index (Or.inl known)
          · cases List.mem_cons.mp listed with
            | inl isFirst => exact all index (Or.inl (isFirst ▸ present))
            | inr later => exact all index (Or.inr later)
        · have one : Int32.ofNat 1 = 1 := rfl
          rw [if_neg (by rw [lookup_indexedFrom, if_neg present]; simp)]
          obtain ⟨more, foldedEq, all, short⟩ := ih (keys ++ [first])
          rw [indexedFrom_append, Nat.zero_add, List.length_append, List.length_singleton,
            Int32.ofNat_add, one] at foldedEq
          rw [List.length_append, List.length_singleton] at short
          refine ⟨more, foldedEq, ?_, by rw [List.length_cons]; omega⟩
          rintro index (known | listed)
          · exact all index (Or.inl (List.mem_append_left _ known))
          · cases List.mem_cons.mp listed with
            | inl isFirst => exact all index (Or.inl (List.mem_append_right _ (by simp [isFirst])))
            | inr later => exact all index (Or.inr later)
  cases indices with
  | nil =>
      refine ⟨rfl, ?_, Nat.le_refl _⟩
      intro index absent
      cases absent
  | cons first rest =>
      obtain ⟨more, foldedEq, all, short⟩ := folded rest [first]
      have mapEq : sourceIdMap (first :: rest) = indexedFrom 0 more := congrArg Prod.fst foldedEq
      have sourcesEq : sources (first :: rest) = more := by
        rw [sources, mapEq, indexedFrom_keys]
      rw [sourcesEq]
      refine ⟨mapEq, ?_, ?_⟩
      · intro index listed
        cases List.mem_cons.mp listed with
        | inl isFirst => exact all index (Or.inl (by simp [isFirst]))
        | inr later => exact all index (Or.inr later)
      · rw [List.length_cons]
        rw [List.length_singleton] at short
        omega

theorem lookup_sourceIdMap {indices : List UInt32} {index : UInt32} (listed : index ∈ indices) :
    (sourceIdMap indices).lookup index = some (Int32.ofNat ((sources indices).idxOf index)) := by
  obtain ⟨indexed, present, -⟩ := sourceIdMap_indexed indices
  rw [indexed, lookup_indexedFrom, if_pos (present index listed), Nat.zero_add]

end Bun.SourceMap
