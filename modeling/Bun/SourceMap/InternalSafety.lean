/-
Reading a corrupt blob.

`isValidBlob` looks at the header alone.  That is enough for the raw reads of the
reader to stay inside the blob and for its checked casts and subtractions to
succeed, whatever the windows hold.
-/

import Bun.SourceMap.InternalRoundTrip

set_option autoImplicit false

namespace Bun.SourceMap.InternalSourceMap

open Bun.Foundation

/-! ### What the header check gives -/

theorem rawRead_ok (blob : List UInt8) (offset count : Nat)
    (inside : offset + count ≤ blob.length) :
    ∃ bytes, rawRead blob offset count = .ok bytes ∧ bytes.length = count := by
  refine ⟨(blob.drop offset).take count, ?_, ?_⟩
  · rw [rawRead, LittleEndian.slice?_of_le inside]
  · rw [List.length_take, List.length_drop]
    omega

theorem rawNat_ok (blob : List UInt8) (offset count : Nat)
    (inside : offset + count ≤ blob.length) :
    ∃ value, rawNat blob offset count = .ok value ∧ value < 256 ^ count := by
  obtain ⟨bytes, read, length⟩ := rawRead_ok blob offset count inside
  refine ⟨LittleEndian.ofBytes bytes, by rw [rawNat, read]; rfl, ?_⟩
  rw [← length]
  exact LittleEndian.ofBytes_lt bytes

structure ValidHeader (blob : List UInt8) (syncN streamOff : Nat) : Prop where
  header : headerSize ≤ blob.length
  totalLen : totalLen blob = .ok blob.length
  syncCount : syncCount blob = .ok syncN
  syncCountFits : syncN < 2 ^ 32
  streamOffset : streamOffset blob = .ok streamOff
  syncTable : headerSize + syncN * syncEntrySize ≤ streamOff
  stream : streamOff + streamTailPad ≤ blob.length

theorem validHeader_of_isValidBlob {blob : List UInt8} (valid : isValidBlob blob = true) :
    ∃ syncN streamOff, ValidHeader blob syncN streamOff := by
  unfold isValidBlob at valid
  split at valid
  · cases valid
  · rename_i long
    have header : headerSize ≤ blob.length := Nat.le_of_not_lt long
    have room : 32 ≤ blob.length := header
    obtain ⟨total, totalRead, -⟩ := rawNat_ok blob 0 8 (by omega)
    obtain ⟨syncN, syncRead, syncFits⟩ :=
      rawNat_ok blob 24 4 (by omega)
    obtain ⟨streamOff, streamRead, -⟩ :=
      rawNat_ok blob 28 4 (by omega)
    have totalLenEq : totalLen blob = .ok total := totalRead
    have syncCountEq : syncCount blob = .ok syncN := syncRead
    have streamOffsetEq : streamOffset blob = .ok streamOff := streamRead
    rw [totalLenEq, syncCountEq, streamOffsetEq] at valid
    dsimp only at valid
    split at valid
    · cases valid
    · rename_i totalEq
      split at valid
      · cases valid
      · split at valid
        · cases valid
        · split at valid
          · cases valid
          · refine ⟨syncN, streamOff, header, ?_, syncCountEq, syncFits, streamOffsetEq, ?_, ?_⟩
            · rw [totalLenEq]
              congr 1
              omega
            · omega
            · omega

/-! ### No read leaves the blob -/

section Reads

variable {blob : List UInt8} {syncN streamOff : Nat} (valid : ValidHeader blob syncN streamOff)

include valid

theorem syncEntry_ok {index : Nat} (inside : index < syncN) :
    ∃ entry, syncEntry blob index = .ok entry := by
  have table := valid.syncTable
  have tail := valid.stream
  simp only [headerSize, syncEntrySize] at table
  obtain ⟨bytes, read, -⟩ := rawRead_ok blob
    (headerSize + index * syncEntrySize) syncEntrySize (by
      simp only [headerSize, syncEntrySize]
      omega)
  exact ⟨decodeSyncEntry bytes, by rw [syncEntry, read]; rfl⟩

theorem stream_ok : ∃ bytes, stream blob = .ok bytes := by
  have tail := valid.stream
  obtain ⟨bytes, read, -⟩ := rawRead_ok blob streamOff
    (blob.length - streamOff) (by omega)
  refine ⟨bytes, ?_⟩
  unfold stream
  rw [valid.streamOffset, valid.totalLen]
  simp only [bind, Except.bind]
  rw [if_neg (by omega)]
  exact read

theorem seedWindow_ok {index : Nat} (inside : index < syncN) :
    ∃ seed, seedWindow blob index = .ok seed := by
  obtain ⟨entry, entryRead⟩ := syncEntry_ok valid inside
  obtain ⟨bytes, streamRead⟩ := stream_ok valid
  unfold seedWindow
  rw [entryRead, streamRead]
  exact ⟨_, rfl⟩

theorem locateLoop_ok (line column : Int32) (lo hi : Nat) (ordered : lo ≤ hi) (inside : hi ≤ syncN) :
    ∃ found, locateLoop blob line column lo hi = .ok found ∧ found ≤ hi := by
  induction size : hi - lo using Nat.strongRecOn generalizing lo hi with
  | ind distance ih =>
      rw [locateLoop]
      by_cases more : lo < hi
      · obtain ⟨entry, entryRead⟩ :=
          syncEntry_ok valid (show lo + (hi - lo) / 2 < syncN by omega)
        rw [if_pos more]
        dsimp only
        rw [entryRead]
        dsimp only
        split
        · exact ih _ (by omega) _ _ (by omega) inside rfl
        · obtain ⟨found, loop, below⟩ := ih (lo + (hi - lo) / 2 - lo) (by omega) lo
            (lo + (hi - lo) / 2) (by omega) (by omega) rfl
          exact ⟨found, loop, by omega⟩
      · rw [if_neg more]
        exact ⟨lo, rfl, ordered⟩

theorem locateWindow_ok (line column : Int32) :
    ∃ located, locateWindow blob line column = .ok located ∧
      ∀ index, located = some index → index < syncN := by
  obtain ⟨found, loop, below⟩ :=
    locateLoop_ok valid line column 0 syncN (Nat.zero_le _) (Nat.le_refl _)
  have fits := valid.syncCountFits
  unfold locateWindow
  rw [valid.syncCount]
  simp only [bind, Except.bind, loop]
  split
  · refine ⟨none, rfl, ?_⟩
    intro index impossible
    cases impossible
  · split
    · refine ⟨none, rfl, ?_⟩
      intro index impossible
      cases impossible
    · rw [if_neg (by omega)]
      refine ⟨some (found - 1), rfl, ?_⟩
      intro index same
      obtain rfl := Option.some.inj same
      omega

theorem find_ok (line column : Int32) : ∃ found, find blob line column = .ok found := by
  obtain ⟨located, locate, inside⟩ := locateWindow_ok valid line column
  unfold find
  rw [locate]
  cases located with
  | none => exact ⟨none, rfl⟩
  | some index =>
      obtain ⟨⟨outcome, state, reader⟩, seeded⟩ := seedWindow_ok valid (inside index rfl)
      simp only [bind, Except.bind, seeded]
      cases outcome with
      | none => exact ⟨none, rfl⟩
      | some _ =>
          dsimp only
          split
          · exact ⟨_, rfl⟩
          · exact ⟨_, rfl⟩

theorem visitedFrom_ok (remaining : Nat) :
    ∀ index, index + remaining ≤ syncN → ∃ states, visitedFrom blob index remaining = .ok states := by
  induction remaining with
  | zero =>
      intro index inside
      exact ⟨[], rfl⟩
  | succ remaining ih =>
      intro index inside
      obtain ⟨⟨outcome, state, reader⟩, seeded⟩ := seedWindow_ok valid (show index < syncN by omega)
      obtain ⟨later, visits⟩ := ih (index + 1) (by omega)
      rw [visitedFrom]
      simp only [bind, Except.bind, seeded]
      cases outcome with
      | none => exact ⟨[], rfl⟩
      | some _ =>
          dsimp only
          split
          · rw [visits]
            exact ⟨_, rfl⟩
          · exact ⟨_, rfl⟩

theorem visited_ok : ∃ states, visited blob = .ok states := by
  obtain ⟨states, visits⟩ := visitedFrom_ok valid syncN 0 (by omega)
  refine ⟨states, ?_⟩
  unfold visited
  rw [valid.syncCount]
  exact visits

end Reads

/-! ### The VLQ writer -/

theorem emitLineBreaks_ok {output : VlqOutput} (nonneg : 0 ≤ output.generatedLine.toInt)
    (state : State) :
    ∃ after, emitLineBreaks output state = .ok after ∧ 0 ≤ after.generatedLine.toInt := by
  have upper := state.generatedLine.toInt_lt
  unfold emitLineBreaks
  split
  · rename_i behind
    rw [Int32.lt_iff_toInt_lt] at behind
    dsimp only
    rw [if_neg (by omega)]
    exact ⟨_, rfl, by dsimp only; omega⟩
  · exact ⟨output, rfl, nonneg⟩

/-- The line of the writer starts at zero and only grows, so the gap to a later line
never overflows. -/
theorem emitVlq_ok {output : VlqOutput} (nonneg : 0 ≤ output.generatedLine.toInt) (state : State) :
    ∃ after, emitVlq output state = .ok after ∧ 0 ≤ after.generatedLine.toInt := by
  obtain ⟨broken, breaks, nonneg'⟩ := emitLineBreaks_ok nonneg state
  unfold emitVlq
  rw [breaks]
  exact ⟨_, rfl, nonneg'⟩

theorem foldlM_emitVlq_ok (states : List State) :
    ∀ output : VlqOutput, 0 ≤ output.generatedLine.toInt →
      ∃ after, states.foldlM emitVlq output = .ok after := by
  induction states with
  | nil =>
      intro output nonneg
      exact ⟨output, rfl⟩
  | cons state states ih =>
      intro output nonneg
      obtain ⟨after, emitted, nonneg'⟩ := emitVlq_ok nonneg state
      rw [List.foldlM_cons, emitted]
      exact ih after nonneg'

/-! ### A failed step -/

theorem nextRare_failed (reader : WindowReader) (deltaIdx : Nat) (dGenLine dOrigLine : Int32)
    (state : State) (failed : (reader.nextRare deltaIdx dGenLine dOrigLine state).1 = none) :
    (reader.nextRare deltaIdx dGenLine dOrigLine state).2.2 = state := by
  unfold WindowReader.nextRare at failed ⊢
  split
  · rfl
  · rename_i taken
    rw [taken] at failed
    dsimp only at failed ⊢
    split
    · rename_i flagged
      rw [if_pos flagged] at failed
      split
      · rfl
      · rename_i read
        rw [read] at failed
        cases failed
    · rfl

/-- The source index is written after the last read that can fail, so a failed step
leaves the state alone. -/
theorem applyNext_failed (reader : WindowReader) (state : State)
    (failed : (reader.applyNext state).1 = none) : (reader.applyNext state).2.2 = state := by
  unfold WindowReader.applyNext at failed ⊢
  dsimp only at failed ⊢
  split
  · rfl
  · rename_i genCol
    rw [genCol] at failed
    dsimp only at failed
    split
    · rfl
    · rename_i origLine
      rw [origLine] at failed
      dsimp only at failed
      split
      · rfl
      · rename_i origCol
        rw [origCol] at failed
        dsimp only at failed
        split
        · rename_i flagged
          rw [if_pos flagged] at failed
          split
          · rename_i rare
            have outcome := congrArg (fun result => result.1) rare
            have after := congrArg (fun result => result.2.2) rare
            dsimp only at outcome after
            rw [← after]
            exact nextRare_failed _ _ _ _ _ outcome
          · rename_i rare
            rw [rare] at failed
            cases failed
        · rename_i plain
          rw [if_neg plain] at failed
          cases failed

theorem next_failed (reader : WindowReader) (state : State) (running : reader.done = false)
    (failed : (reader.next state).1.count = 0) : (reader.next state).2 = state := by
  have frame := WindowReader.applyNext_frame reader state
  have unchanged := applyNext_failed reader state
  have more : reader.deltaIdx + 1 < reader.count := by simpa [WindowReader.done] using running
  unfold WindowReader.next at failed ⊢
  generalize reader.applyNext state = applied at frame unchanged failed ⊢
  rcases applied with ⟨outcome, after, moved⟩
  cases outcome with
  | none => exact unchanged rfl
  | some _ =>
      dsimp only at frame failed
      omega

/-- On every blob the header check accepts, the lookup and both traversals return
for every query without a trap, and a step of the reader that reports failure, by
its result or by an emptied reader, has not moved the state. -/
theorem isValidBlob_safe (blob : List UInt8) (valid : isValidBlob blob = true) :
    (∀ line column, ∃ found, find blob line column = .ok found) ∧
      (∃ mappings, forEach blob = .ok mappings) ∧
      (∀ out, ∃ vlq, appendVlqTo blob out = .ok vlq) ∧
      (∀ (reader : WindowReader) (state : State),
        ((reader.applyNext state).1 = none → (reader.applyNext state).2.2 = state) ∧
        (reader.done = false → (reader.next state).1.count = 0 →
          (reader.next state).2 = state)) := by
  obtain ⟨syncN, streamOff, header⟩ := validHeader_of_isValidBlob valid
  obtain ⟨states, visits⟩ := visited_ok header
  refine ⟨find_ok header, ?_, ?_, ?_⟩
  · exact ⟨states.map State.toMapping, by rw [forEach, visits]; rfl⟩
  · intro out
    have room := header.header
    simp only [headerSize] at room
    obtain ⟨count, countRead, -⟩ :=
      rawNat_ok blob 8 8 (by omega)
    obtain ⟨after, emitted⟩ := foldlM_emitVlq_ok states
      { out := out, prev := .zero, generatedLine := 0 } (Int.le_refl 0)
    refine ⟨after.out, ?_⟩
    unfold appendVlqTo
    rw [show mappingCount blob = .ok count from countRead, visits]
    simp only [bind, Except.bind]
    rw [emitted]
    rfl
  · intro reader state
    exact ⟨applyNext_failed reader state, next_failed reader state⟩

/-- A blob whose only sync entry is all ones: it points past the end of the stream. -/
def corruptBlob : List UInt8 :=
  57 :: List.replicate 23 0 ++ ([1, 0, 0, 0] ++ ([56, 0, 0, 0] ++ (List.replicate 24 255 ++ [0])))

theorem isValidBlob_safe_corruptBlob :
    (∀ line column, ∃ found, find corruptBlob line column = .ok found) ∧
      (∃ mappings, forEach corruptBlob = .ok mappings) ∧
      (∀ out, ∃ vlq, appendVlqTo corruptBlob out = .ok vlq) ∧
      (∀ (reader : WindowReader) (state : State),
        ((reader.applyNext state).1 = none → (reader.applyNext state).2.2 = state) ∧
        (reader.done = false → (reader.next state).1.count = 0 →
          (reader.next state).2 = state)) :=
  isValidBlob_safe corruptBlob (by decide +kernel)

end Bun.SourceMap.InternalSourceMap
