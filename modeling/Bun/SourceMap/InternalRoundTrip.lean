/-
A traversal of a finished blob visits the mappings that were appended.

The round trip needs the windows to start below 4 GiB: the sync entry keeps 32 bits
of the offset.  Past that bound an entry points into an earlier window, and
`forEach_drops_mappings` shows mappings lost that way.
-/

import Bun.SourceMap.InternalLayout

set_option autoImplicit false

namespace Bun.SourceMap.InternalSourceMap

open Bun.Foundation

/-! ### The traversal -/

theorem visitedFrom_stored {blob : List UInt8} {windows : List Window}
    (stored : Stored blob windows) (todo : List Window) :
    ∀ done, windows = done ++ todo →
      visitedFrom blob done.length todo.length = .ok (todo.flatMap Window.states) := by
  induction todo with
  | nil =>
      intro done split
      rfl
  | cons window todo ih =>
      intro done split
      have found : windows[done.length]? = some window := by
        rw [split, List.getElem?_append_right (Nat.le_refl _)]
        simp
      obtain ⟨reader, seeded, reads⟩ := stored.seed done.length window found
      have later := ih (done ++ [window]) (by rw [split, List.append_assoc]; rfl)
      rw [List.length_append, List.length_singleton] at later
      rw [List.length_cons, visitedFrom, seeded]
      simp only [bind, Except.bind]
      rw [walkWindow_reads window.rest reader 0 window.first reads, later]
      rfl

theorem visited_stored {blob : List UInt8} {states : List State}
    (stored : Stored blob (windowsOf states)) : visited blob = .ok states := by
  have all := visitedFrom_stored stored (windowsOf states) [] rfl
  rw [windowsOf_states] at all
  unfold visited
  rw [stored.syncCount]
  exact all

/-- Every run of calls whose windows start below 4 GiB is read back: the mappings of
the finished blob are the appended ones, in order. -/
theorem forEach_toBlob_run (calls : List BuilderCall) (fits : OffsetsFit (appended 0 calls)) :
    ∃ blob, (Builder.init.run calls).toBlob = .ok blob ∧
      forEach blob = .ok ((appended 0 calls).map State.toMapping) := by
  obtain ⟨blob, finished, stored⟩ := stored_of_calls calls fits
  refine ⟨blob, finished, ?_⟩
  unfold forEach
  rw [visited_stored stored]
  rfl

/-- Two mappings on different lines come back. -/
theorem forEach_toBlob_run_two_lines :
    ∃ blob, (Builder.init.run
        [.appendMapping ⟨0, 4, 0, 2, 7⟩, .appendLineSeparator, .appendMapping ⟨0, 1, 3, 0, 9⟩]).toBlob =
          .ok blob ∧
      forEach blob = .ok [⟨⟨0, 4⟩, ⟨2, 7⟩, 0, -1⟩, ⟨⟨1, 1⟩, ⟨0, 9⟩, 3, -1⟩] :=
  forEach_toBlob_run
    [.appendMapping ⟨0, 4, 0, 2, 7⟩, .appendLineSeparator, .appendMapping ⟨0, 1, 3, 0, 9⟩]
    (by decide +kernel)

/-! ### How much a traversal can visit -/

/-- The count of a parsed window is its first byte, cut to the window size. -/
theorem parse_count_le (self : WindowReader) (bytes : List UInt8) (start : Nat) :
    (self.parse bytes start).2.count ≤ min ((bytes[start]?).getD 0).toNat syncInterval := by
  have sections : ∀ (reader : WindowReader) (pos : Nat),
      (reader.parseFlaggedSections bytes pos).2.count = reader.count := by
    intro reader pos
    have exceptions : (reader.parseGenLineExceptions bytes pos).2.count = reader.count := by
      unfold WindowReader.parseGenLineExceptions
      split
      · dsimp only
        split <;> rfl
      · rfl
    unfold WindowReader.parseFlaggedSections
    generalize reader.parseGenLineExceptions bytes pos = parsed at exceptions
    rcases parsed with ⟨outcome, after⟩
    cases outcome with
    | none => exact exceptions
    | some pos =>
        dsimp only
        split
        · split <;> exact exceptions
        · exact exceptions
  unfold WindowReader.parse
  dsimp only
  split
  · exact Nat.zero_le _
  · rename_i header headerRead
    split
    · rename_i fixed _ _ _ fixedRead _ _ _
      have countEq : (UInt8.ofNat (fixed >>> (8 * WinHdr.countOff))).toNat =
          ((bytes[start]?).getD 0).toNat := by
        unfold LittleEndian.slice? at headerRead
        split at headerRead
        · rename_i inside
          simp only [WinHdr.genColLaneOff] at inside
          obtain ⟨byte, tail, dropped⟩ : ∃ byte tail, bytes.drop start = byte :: tail :=
            List.exists_cons_of_ne_nil (by
              intro empty
              have none := congrArg List.length empty
              rw [List.length_drop, List.length_nil] at none
              omega)
          have first : bytes[start]? = some byte := by
            have head : (bytes.drop start)[0]? = some byte := by rw [dropped]; rfl
            rwa [List.getElem?_drop, Nat.add_zero] at head
          obtain rfl := Option.some.inj headerRead
          unfold readU64Le LittleEndian.slice? at fixedRead
          rw [dropped] at fixedRead
          split at fixedRead
          · have fixedEq := Option.some.inj fixedRead
            rw [← fixedEq, first]
            simp only [WinHdr.genColLaneOff, WinHdr.countOff, List.take_succ_cons, List.drop_zero,
              LittleEndian.ofBytes, Option.getD_some, UInt8.toNat_ofNat', Nat.mul_zero,
              Nat.shiftRight_zero]
            have bounded := byte.toNat_lt
            omega
          · cases fixedRead
        · cases headerRead
      rw [countEq]
      split
      · split
        · rename_i failed
          have frame := congrArg (fun result => result.2.count) failed
          dsimp only at frame
          rw [← frame, sections]
          exact Nat.zero_le _
        · exact Nat.le_refl _
      · exact Nat.le_refl _
    · exact Nat.zero_le _

theorem walkWindow_length_le (reader : WindowReader) (state : State) :
    (walkWindow reader state).1.length ≤ reader.count - reader.deltaIdx - 1 := by
  induction reader, state using walkWindow.induct with
  | case1 reader state running step corrupt =>
      rw [walkWindow, dif_pos running]
      dsimp only
      rw [if_pos corrupt]
      exact Nat.zero_le _
  | case2 reader state running step notCorrupt ih =>
      have frame := WindowReader.next_frame reader state
      have more : reader.deltaIdx + 1 < reader.count := by
        simpa [WindowReader.done] using running
      rw [walkWindow, dif_pos running]
      dsimp only
      rw [if_neg notCorrupt, List.length_cons]
      simp only [step] at ih notCorrupt
      omega
  | case3 reader state atEnd =>
      rw [walkWindow, dif_neg atEnd]
      exact Nat.zero_le _

/-- A window is at most its count of mappings, and the sync entry is always one. -/
theorem seedWindow_count_le {blob : List UInt8} {index : Nat} {outcome : Option Unit}
    {state : State} {reader : WindowReader}
    (seeded : seedWindow blob index = .ok (outcome, state, reader)) :
    reader.count ≤ syncInterval := by
  unfold seedWindow at seeded
  cases entry : syncEntry blob index with
  | error trap =>
      rw [entry] at seeded
      cases seeded
  | ok entry' =>
      cases bytes : stream blob with
      | error trap =>
          rw [entry, bytes] at seeded
          cases seeded
      | ok bytes' =>
          rw [entry, bytes] at seeded
          have readerEq := congrArg (fun result => result.2.2) (Except.ok.inj seeded)
          dsimp only at readerEq
          rw [← readerEq]
          exact Nat.le_trans (parse_count_le _ _ _) (Nat.min_le_right _ _)

theorem visitedFrom_succ {blob : List UInt8} {index remaining : Nat} {states : List State}
    (visits : visitedFrom blob index (remaining + 1) = .ok states) :
    ∃ outcome state reader, seedWindow blob index = .ok (outcome, state, reader) ∧
      (states = [] ∨ states = state :: (walkWindow reader state).1 ∨
        ∃ later, visitedFrom blob (index + 1) remaining = .ok later ∧
          states = state :: (walkWindow reader state).1 ++ later) := by
  rw [visitedFrom] at visits
  cases seeded : seedWindow blob index with
  | error trap =>
      rw [seeded] at visits
      cases visits
  | ok seed =>
      obtain ⟨outcome, state, reader⟩ := seed
      refine ⟨outcome, state, reader, rfl, ?_⟩
      rw [seeded] at visits
      cases outcome with
      | none =>
          left
          exact (Except.ok.inj visits).symm
      | some _ =>
          right
          simp only [bind, Except.bind] at visits
          cases complete : (walkWindow reader state).2 with
          | false =>
              left
              rw [complete] at visits
              exact (Except.ok.inj visits).symm
          | true =>
              right
              rw [complete, if_pos rfl] at visits
              cases later : visitedFrom blob (index + 1) remaining with
              | error trap =>
                  rw [later] at visits
                  cases visits
              | ok rest =>
                  rw [later] at visits
                  exact ⟨rest, rfl, (Except.ok.inj visits).symm⟩

theorem visitedFrom_length_le {blob : List UInt8} (last : Nat)
    (emptyLast : ∀ outcome state reader, seedWindow blob last = .ok (outcome, state, reader) →
      reader.count = 0) (remaining : Nat) :
    ∀ index states, index + remaining = last →
      visitedFrom blob index (remaining + 1) = .ok states →
      states.length ≤ syncInterval * remaining + 1 := by
  induction remaining with
  | zero =>
      intro index states atLast visits
      obtain ⟨outcome, state, reader, seeded, cases⟩ := visitedFrom_succ visits
      rw [show index = last by omega] at seeded
      have walked := walkWindow_length_le reader state
      rw [emptyLast outcome state reader seeded] at walked
      rcases cases with rfl | rfl | ⟨later, none, rfl⟩
      · exact Nat.zero_le _
      · rw [List.length_cons]
        omega
      · rw [visitedFrom] at none
        obtain rfl := Except.ok.inj none
        rw [List.append_nil, List.length_cons]
        omega
  | succ remaining ih =>
      intro index states atLast visits
      obtain ⟨outcome, state, reader, seeded, cases⟩ := visitedFrom_succ visits
      have walked := walkWindow_length_le reader state
      have bounded := seedWindow_count_le seeded
      simp only [syncInterval] at bounded ⊢
      rcases cases with rfl | rfl | ⟨later, laterVisits, rfl⟩
      · exact Nat.zero_le _
      · rw [List.length_cons]
        omega
      · have rest := ih (index + 1) later (by omega) laterVisits
        simp only [syncInterval] at rest
        rw [List.length_append, List.length_cons]
        omega

/-! ### Past 4 GiB -/

def zeroWindow : Window := ⟨State.zero, List.replicate 63 State.zero⟩

theorem zeroWindow_bytes_length : zeroWindow.bytes.length = 95 := by decide +kernel

theorem zeroWindow_byte : zeroWindow.bytes[89]? = some 0 := by decide +kernel

theorem windowsOf_replicate_zero (n : Nat) :
    windowsOf (List.replicate (64 * n) State.zero) = List.replicate n zeroWindow := by
  have statesEq : List.replicate (64 * n) State.zero =
      (List.replicate n zeroWindow).flatMap Window.states := by
    induction n with
    | zero => rfl
    | succ n ih =>
        rw [Nat.mul_succ, Nat.add_comm, List.replicate_add, ih]
        rfl
  have full := windowsOf_full_append (List.replicate n zeroWindow) (by
    intro window member
    rw [List.eq_of_mem_replicate member]
    rfl) []
  rw [List.append_nil, windowsOf, List.append_nil] at full
  rw [statesEq, full]

theorem streamOf_replicate_zero_length (n : Nat) :
    (streamOf (List.replicate n zeroWindow)).length = 95 * n := by
  induction n with
  | zero => rfl
  | succ n ih =>
      rw [List.replicate_succ, streamOf_cons, List.length_append, ih, zeroWindow_bytes_length]
      omega

theorem appended_replicate_zero (n : Nat) :
    appended 0 (List.replicate n (.appendMapping SourceMapState.zero)) =
      List.replicate n State.zero := by
  induction n with
  | zero => rfl
  | succ n ih =>
      rw [List.replicate_succ, appended, ih, List.replicate_succ]
      rfl

/-- The calls that append `64 * n` mappings of the first position. -/
def zeroCalls (n : Nat) : List BuilderCall :=
  List.replicate (64 * n) (.appendMapping SourceMapState.zero)

/-- When the start of the last of `n` windows wraps to byte 89, which lies in the
first window's column lane, the last window reads as empty. -/
theorem zeroCalls_last_window (n : Nat) (wraps : 95 * n % 2 ^ 32 = 89) (small : n < 2 ^ 27) :
    ∃ blob, (Builder.init.run (zeroCalls (n + 1))).toBlob = .ok blob ∧
      Layout blob (entriesFrom 0 (List.replicate (n + 1) zeroWindow))
        (streamOf (List.replicate (n + 1) zeroWindow)) ∧
      ∃ outcome reader, seedWindow blob n = .ok (outcome, State.zero, reader) ∧
        reader.count = 0 := by
  obtain ⟨⟨windows, collected⟩, noBraces⟩ := calls_collected (zeroCalls (n + 1))
  rw [zeroCalls, appended_replicate_zero] at collected
  obtain ⟨blob, finished, layout⟩ := collected.layout noBraces
    (by
      rw [windowsOf_replicate_zero, List.length_replicate]
      simp only [headerSize, syncEntrySize]
      omega)
    (by
      rw [windowsOf_replicate_zero, streamOf_replicate_zero_length]
      omega)
  rw [windowsOf_replicate_zero] at layout
  refine ⟨blob, finished, layout, ?_⟩
  have entryAt : (entriesFrom 0 (List.replicate (n + 1) zeroWindow))[n]? =
      some (zeroWindow.entry (95 * n)) := by
    rw [List.replicate_succ', entriesFrom_append, streamOf_replicate_zero_length,
      List.getElem?_append_right (by simp), entriesFrom_length, List.length_replicate]
    simp [entriesFrom]
  have offsetEq : (zeroWindow.entry (95 * n)).byteOffset.toNat = 89 := by
    change (UInt32.ofNat (95 * n)).toNat = 89
    rw [UInt32.toNat_ofNat', wraps]
  obtain ⟨tail, streamEq⟩ := layout.stream
  have firstByte : (streamOf (List.replicate (n + 1) zeroWindow) ++ tail)[89]? = some 0 := by
    rw [List.replicate_succ, streamOf_cons, List.append_assoc,
      List.getElem?_append_left (by rw [zeroWindow_bytes_length]; decide)]
    exact zeroWindow_byte
  have parsedCount := parse_count_le WindowReader.dangling
    (streamOf (List.replicate (n + 1) zeroWindow) ++ tail) 89
  rw [firstByte] at parsedCount
  refine ⟨(WindowReader.dangling.parse
    (streamOf (List.replicate (n + 1) zeroWindow) ++ tail) 89).1, _, ?_, Nat.le_zero.mp parsedCount⟩
  unfold seedWindow
  rw [layout.syncEntry n _ entryAt, streamEq]
  simp only [bind, Except.bind, offsetEq]
  rfl

/-- Appending `64 * 45210184` mappings: the last window starts `95 * 45210183` bytes
into the stream, 89 beyond 4 GiB, and its mappings but the first are not visited. -/
theorem forEach_drops_mappings :
    ∃ blob, (Builder.init.run (zeroCalls 45210184)).toBlob = .ok blob ∧
      forEach blob ≠ .ok ((appended 0 (zeroCalls 45210184)).map State.toMapping) := by
  obtain ⟨blob, finished, layout, outcome, reader, seeded, empty⟩ :=
    zeroCalls_last_window 45210183 (by decide) (by decide)
  refine ⟨blob, finished, ?_⟩
  intro all
  unfold forEach visited at all
  rw [layout.syncCount, entriesFrom_length, List.length_replicate] at all
  simp only [bind, Except.bind] at all
  cases visits : visitedFrom blob 0 (45210183 + 1) with
  | error trap =>
      rw [visits] at all
      cases all
  | ok states =>
      rw [visits] at all
      have lengths := congrArg List.length (Except.ok.inj all)
      rw [zeroCalls, appended_replicate_zero, List.length_map, List.length_map,
        List.length_replicate] at lengths
      have bounded := visitedFrom_length_le 45210183
        (by
          intro outcome' state' reader' seeded'
          rw [seeded] at seeded'
          have readerEq := congrArg (fun result => result.2.2) (Except.ok.inj seeded')
          dsimp only at readerEq
          rw [← readerEq]
          exact empty)
        45210183 0 states (by omega) visits
      simp only [syncInterval] at bounded
      omega

end Bun.SourceMap.InternalSourceMap
