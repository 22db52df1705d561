/-
Where the builder puts what the reader looks for.

The builder's calls cut the mappings they append into windows of sixty-four; the
blob stores one sync entry a window, and the windows back to back.  `Stored` is
what the lookups and the traversals use of a blob, and `stored_of_calls` gives it
for every run of calls whose windows start within reach of a 32-bit offset.
-/

import Bun.SourceMap.InternalWindow

set_option autoImplicit false

namespace Bun.SourceMap.InternalSourceMap

open Bun.Foundation

/-! ### Windows -/

/-- A nonempty run of mappings that share a sync entry. -/
structure Window where
  first : State
  rest : List State
deriving DecidableEq, Repr

def Window.states (window : Window) : List State := window.first :: window.rest

def Window.bytes (window : Window) : List UInt8 := encodeWindow window.first window.rest

def windowsOf : List State → List Window
  | [] => []
  | first :: rest => ⟨first, rest.take 63⟩ :: windowsOf (rest.drop 63)
termination_by states => states.length
decreasing_by
  simp only [List.length_drop, List.length_cons]
  omega

def streamOf (windows : List Window) : List UInt8 := windows.flatMap Window.bytes

/-- The start of every window fits the 32-bit offset of its sync entry. -/
def OffsetsFit (states : List State) : Prop :=
  (streamOf (windowsOf states).dropLast).length < 2 ^ 32

instance (states : List State) : Decidable (OffsetsFit states) :=
  inferInstanceAs (Decidable (_ < _))

theorem windowsOf_states (states : List State) :
    (windowsOf states).flatMap Window.states = states := by
  induction states using windowsOf.induct with
  | case1 => rw [windowsOf, List.flatMap_nil]
  | case2 first rest ih =>
      rw [windowsOf, List.flatMap_cons, ih]
      simp [Window.states]

theorem windowsOf_rest_length (states : List State) :
    ∀ window ∈ windowsOf states, window.rest.length ≤ 63 := by
  induction states using windowsOf.induct with
  | case1 => simp [windowsOf]
  | case2 first rest ih =>
      intro window member
      rw [windowsOf] at member
      rcases List.mem_cons.mp member with rfl | later
      · exact List.length_take_le 63 rest
      · exact ih window later

theorem windowsOf_cons_append {first : State} {rest : List State} (full : rest.length = 63)
    (states : List State) :
    windowsOf (first :: (rest ++ states)) = ⟨first, rest⟩ :: windowsOf states := by
  rw [windowsOf, ← full, List.take_left, List.drop_left]

theorem windowsOf_short {first : State} {rest : List State} (short : rest.length ≤ 63) :
    windowsOf (first :: rest) = [⟨first, rest⟩] := by
  rw [windowsOf, List.take_of_length_le short, List.drop_of_length_le short, windowsOf]

theorem windowsOf_full_append (windows : List Window) (full : ∀ window ∈ windows, window.rest.length = 63)
    (states : List State) :
    windowsOf (windows.flatMap Window.states ++ states) = windows ++ windowsOf states := by
  induction windows with
  | nil => rfl
  | cons window windows ih =>
      have later := ih fun later member => full later (List.mem_cons_of_mem _ member)
      rw [List.flatMap_cons, List.append_assoc, Window.states, List.cons_append,
        windowsOf_cons_append (full window List.mem_cons_self), later]
      rfl

/-! ### What the builder collects -/

def Window.entry (window : Window) (offset : Nat) : SyncEntry :=
  { generatedLine := window.first.generatedLine
    generatedColumn := window.first.generatedColumn
    byteOffset := UInt32.ofNat offset
    originalLine := window.first.originalLine
    originalColumn := window.first.originalColumn
    sourceIndex := window.first.sourceIndex }

theorem Window.entry_toState (window : Window) (offset : Nat) :
    (window.entry offset).toState = window.first := rfl

/-- The sync entries of consecutive windows, the first of them at `offset`. -/
def entriesFrom (offset : Nat) : List Window → List SyncEntry
  | [] => []
  | window :: windows =>
      window.entry offset :: entriesFrom (offset + window.bytes.length) windows

@[simp] theorem entriesFrom_length (windows : List Window) :
    ∀ offset, (entriesFrom offset windows).length = windows.length := by
  induction windows with
  | nil => intro offset; rfl
  | cons window windows ih => intro offset; simp only [entriesFrom, List.length_cons, ih]

theorem streamOf_cons (window : Window) (windows : List Window) :
    streamOf (window :: windows) = window.bytes ++ streamOf windows := rfl

theorem streamOf_append (front back : List Window) :
    streamOf (front ++ back) = streamOf front ++ streamOf back := List.flatMap_append

theorem entriesFrom_append (front back : List Window) :
    ∀ offset, entriesFrom offset (front ++ back) =
      entriesFrom offset front ++ entriesFrom (offset + (streamOf front).length) back := by
  induction front with
  | nil => intro offset; simp [entriesFrom, streamOf]
  | cons window front ih =>
      intro offset
      simp only [List.cons_append, entriesFrom, ih, streamOf_cons, List.length_append, Nat.add_assoc]

structure Collected (builder : Builder) (states : List State) (windows : List Window) : Prop where
  states : states = windows.flatMap Window.states ++ builder.pending
  full : ∀ window ∈ windows, window.rest.length = 63
  pending : builder.pending.length < syncInterval
  winStream : builder.winStream = streamOf windows
  syncEntries : builder.syncEntries = entriesFrom 0 windows

theorem flushWindow_cons {self : Builder} {first : State} {rest : List State}
    (pending : self.pending = first :: rest) :
    self.flushWindow =
      { self with
        syncEntries := self.syncEntries ++ [Window.entry ⟨first, rest⟩ self.winStream.length]
        winStream := self.winStream ++ Window.bytes ⟨first, rest⟩
        pending := [] } := by
  unfold Builder.flushWindow
  rw [pending]
  rfl

/-- After the last flush the builder holds exactly the windows of its mappings. -/
theorem Collected.flush {self : Builder} {states : List State} {windows : List Window}
    (collected : Collected self states windows) :
    self.flushWindow.syncEntries = entriesFrom 0 (windowsOf states) ∧
      self.flushWindow.winStream = streamOf (windowsOf states) ∧
      self.flushWindow.objectBraces = self.objectBraces ∧ self.flushWindow.count = self.count := by
  have windowsEq := windowsOf_full_append windows collected.full self.pending
  rw [← collected.states] at windowsEq
  have short := collected.pending
  simp only [syncInterval] at short
  cases pending : self.pending with
  | nil =>
      rw [pending, windowsOf, List.append_nil] at windowsEq
      unfold Builder.flushWindow
      rw [pending, windowsEq]
      exact ⟨collected.syncEntries, collected.winStream, rfl, rfl⟩
  | cons first rest =>
      rw [pending, List.length_cons] at short
      rw [pending, windowsOf_short (by omega)] at windowsEq
      rw [flushWindow_cons pending, windowsEq, entriesFrom_append, streamOf_append,
        collected.syncEntries, collected.winStream, Nat.zero_add]
      simp [entriesFrom, streamOf]

def State.ofMapping (generatedLine : Int32) (current : SourceMapState) : State :=
  { generatedLine := generatedLine
    generatedColumn := current.generatedColumn
    sourceIndex := current.sourceIndex
    originalLine := current.originalLine
    originalColumn := current.originalColumn }

/-- The mappings a run of calls appends, after `line` line separators. -/
def appended (line : Nat) : List BuilderCall → List State
  | [] => []
  | .appendLineSeparator :: calls => appended (line + 1) calls
  | .appendMapping current :: calls =>
      State.ofMapping (Int32.ofNat line) current :: appended line calls

theorem Collected.appendMapping {self : Builder} {states : List State} {windows : List Window}
    (collected : Collected self states windows) (current : SourceMapState) :
    ∃ windows', Collected (self.appendMapping current)
      (states ++ [State.ofMapping (self.generatedLine + self.pendingGeneratedLineDelta) current])
      windows' := by
  have short := collected.pending
  have statesEq := collected.states
  simp only [syncInterval] at short
  unfold Builder.appendMapping
  dsimp only
  by_cases full : (self.pending ++ [State.ofMapping
      (self.generatedLine + self.pendingGeneratedLineDelta) current]).length = syncInterval
  · have fullEq := full
    unfold State.ofMapping at full
    rw [if_pos full]
    obtain ⟨first, rest, pending⟩ : ∃ first rest, self.pending ++ [State.ofMapping
        (self.generatedLine + self.pendingGeneratedLineDelta) current] = first :: rest :=
      List.exists_cons_of_ne_nil (by simp)
    rw [flushWindow_cons pending]
    rw [pending, List.length_cons] at fullEq
    simp only [syncInterval] at fullEq
    refine ⟨windows ++ [⟨first, rest⟩], ?_, ?_, ?_, ?_, ?_⟩
    · rw [statesEq, List.append_assoc, pending]
      simp [Window.states]
    · intro window member
      rcases List.mem_append.mp member with old | new
      · exact collected.full window old
      · rw [List.mem_singleton.mp new]
        change rest.length = 63
        omega
    · exact Nat.zero_lt_succ 63
    · simp only [streamOf_append, collected.winStream]
      simp [streamOf]
    · simp only [entriesFrom_append, collected.syncEntries, collected.winStream, Nat.zero_add]
      rfl
  · have notFull := full
    unfold State.ofMapping at full
    rw [if_neg full]
    refine ⟨windows, ?_, collected.full, ?_, collected.winStream, collected.syncEntries⟩
    · rw [statesEq, List.append_assoc]
      rfl
    · simp only [List.length_append, List.length_singleton, syncInterval] at notFull ⊢
      omega

theorem flushWindow_line (self : Builder) :
    self.flushWindow.generatedLine = self.generatedLine ∧
      self.flushWindow.pendingGeneratedLineDelta = self.pendingGeneratedLineDelta ∧
      self.flushWindow.objectBraces = self.objectBraces := by
  unfold Builder.flushWindow
  split <;> exact ⟨rfl, rfl, rfl⟩

theorem appendMapping_line (self : Builder) (current : SourceMapState) :
    (self.appendMapping current).generatedLine =
        self.generatedLine + self.pendingGeneratedLineDelta ∧
      (self.appendMapping current).pendingGeneratedLineDelta = 0 ∧
      (self.appendMapping current).objectBraces = self.objectBraces := by
  unfold Builder.appendMapping
  dsimp only
  split
  · exact flushWindow_line _
  · exact ⟨rfl, rfl, rfl⟩

theorem run_collected (calls : List BuilderCall) :
    ∀ (self : Builder) (states : List State) (windows : List Window) (line : Nat),
      Collected self states windows →
      self.generatedLine + self.pendingGeneratedLineDelta = Int32.ofNat line →
      (∃ windows', Collected (self.run calls) (states ++ appended line calls) windows') ∧
        (self.run calls).objectBraces = self.objectBraces := by
  induction calls with
  | nil =>
      intro self states windows line collected lineEq
      rw [appended, List.append_nil]
      exact ⟨⟨windows, collected⟩, rfl⟩
  | cons call calls ih =>
      intro self states windows line collected lineEq
      cases call with
      | appendLineSeparator =>
          have step : Collected self.appendLineSeparator states windows :=
            ⟨collected.states, collected.full, collected.pending, collected.winStream,
              collected.syncEntries⟩
          apply ih self.appendLineSeparator states windows (line + 1) step
          change self.generatedLine + (self.pendingGeneratedLineDelta + 1) = _
          have next : Int32.ofNat (line + 1) = Int32.ofNat line + 1 := Int32.ofNat_add line 1
          rw [next, ← lineEq]
          grind
      | appendMapping current =>
          obtain ⟨windows', step⟩ := collected.appendMapping current
          obtain ⟨lineAfter, deltaAfter, bracesAfter⟩ := appendMapping_line self current
          rw [lineEq] at step
          have later := ih (self.appendMapping current) _ windows' line step
            (by rw [lineAfter, deltaAfter, lineEq]; simp)
          rw [List.append_assoc, bracesAfter] at later
          exact later

/-! ### The finished blob -/

theorem i32FromBytes_i32ToBytes (value : Int32) : i32FromBytes (i32ToBytes value) = value := by
  unfold i32FromBytes i32ToBytes
  rw [LittleEndian.ofBytes_toBytes 4 _ value.toUInt32.toNat_lt, UInt32.ofNat_toNat]
  rfl

@[simp] theorem i32ToBytes_length (value : Int32) : (i32ToBytes value).length = 4 :=
  LittleEndian.toBytes_length 4 _

@[simp] theorem syncEntryBytes_length (entry : SyncEntry) :
    (Builder.syncEntryBytes entry).length = syncEntrySize := by
  simp [Builder.syncEntryBytes, syncEntrySize]

theorem decodeSyncEntry_syncEntryBytes (entry : SyncEntry) :
    decodeSyncEntry (Builder.syncEntryBytes entry) = entry := by
  have offset : UInt32.ofNat (LittleEndian.ofBytes
      (LittleEndian.toBytes 4 entry.byteOffset.toNat)) = entry.byteOffset := by
    rw [LittleEndian.ofBytes_toBytes 4 _ entry.byteOffset.toNat_lt, UInt32.ofNat_toNat]
  have field : ∀ (before middle after : List UInt8) (start : Nat), before.length = start →
      middle.length = 4 → ((before ++ (middle ++ after)).drop start).take 4 = middle := by
    intro before middle after start startEq four
    rw [← startEq, List.drop_left, ← four, List.take_left]
  unfold decodeSyncEntry Builder.syncEntryBytes
  have first := field [] (i32ToBytes entry.generatedLine) (i32ToBytes entry.generatedColumn ++
    (LittleEndian.toBytes 4 entry.byteOffset.toNat ++ (i32ToBytes entry.originalLine ++
      (i32ToBytes entry.originalColumn ++ i32ToBytes entry.sourceIndex)))) 0 rfl (by simp)
  have second := field (i32ToBytes entry.generatedLine) (i32ToBytes entry.generatedColumn)
    (LittleEndian.toBytes 4 entry.byteOffset.toNat ++ (i32ToBytes entry.originalLine ++
      (i32ToBytes entry.originalColumn ++ i32ToBytes entry.sourceIndex))) 4 (by simp) (by simp)
  have third := field (i32ToBytes entry.generatedLine ++ i32ToBytes entry.generatedColumn)
    (LittleEndian.toBytes 4 entry.byteOffset.toNat)
    (i32ToBytes entry.originalLine ++ (i32ToBytes entry.originalColumn ++
      i32ToBytes entry.sourceIndex)) 8 (by simp) (by simp)
  have fourth := field (i32ToBytes entry.generatedLine ++ (i32ToBytes entry.generatedColumn ++
      LittleEndian.toBytes 4 entry.byteOffset.toNat)) (i32ToBytes entry.originalLine)
    (i32ToBytes entry.originalColumn ++ i32ToBytes entry.sourceIndex) 12 (by simp) (by simp)
  have fifth := field (i32ToBytes entry.generatedLine ++ (i32ToBytes entry.generatedColumn ++
      (LittleEndian.toBytes 4 entry.byteOffset.toNat ++ i32ToBytes entry.originalLine)))
    (i32ToBytes entry.originalColumn) (i32ToBytes entry.sourceIndex) 16 (by simp) (by simp)
  have sixth := field (i32ToBytes entry.generatedLine ++ (i32ToBytes entry.generatedColumn ++
      (LittleEndian.toBytes 4 entry.byteOffset.toNat ++ (i32ToBytes entry.originalLine ++
        i32ToBytes entry.originalColumn)))) (i32ToBytes entry.sourceIndex) [] 20 (by simp) (by simp)
  simp only [List.nil_append, List.append_assoc, List.append_nil] at first third fourth fifth sixth
  rw [first, second, third, fourth, fifth, sixth]
  simp only [i32FromBytes_i32ToBytes, offset]

/-- What a reader finds in a blob of these sync entries and this window stream. -/
structure Layout (blob : List UInt8) (entries : List SyncEntry) (bytes : List UInt8) : Prop where
  mappingCount : ∃ count, mappingCount blob = .ok count
  syncCount : syncCount blob = .ok entries.length
  syncEntry : ∀ index entry, entries[index]? = some entry → syncEntry blob index = .ok entry
  stream : ∃ tail, stream blob = .ok (bytes ++ tail)

theorem rawRead_middle (before middle after : List UInt8) (offset count : Nat)
    (offsetEq : before.length = offset) (countEq : middle.length = count) :
    rawRead (before ++ (middle ++ after)) offset count = .ok middle := by
  rw [rawRead, ← offsetEq, ← countEq, LittleEndian.slice?_middle]

theorem rawNat_toBytes (before after : List UInt8) (offset count value : Nat)
    (offsetEq : before.length = offset) (fits : value < 256 ^ count) :
    rawNat (before ++ (LittleEndian.toBytes count value ++ after)) offset count = .ok value := by
  rw [rawNat, rawRead_middle before _ after offset count offsetEq
    (LittleEndian.toBytes_length count value)]
  change Except.ok (LittleEndian.ofBytes (LittleEndian.toBytes count value)) = _
  rw [LittleEndian.ofBytes_toBytes count value fits]

theorem flatMap_syncEntryBytes_length (entries : List SyncEntry) :
    (entries.flatMap Builder.syncEntryBytes).length = entries.length * syncEntrySize := by
  induction entries with
  | nil => rfl
  | cons entry entries ih =>
      rw [List.flatMap_cons, List.length_append, syncEntryBytes_length, ih, List.length_cons,
        Nat.succ_mul, Nat.add_comm]

theorem exists_append_of_getElem? {α : Type} {items : List α} {index : Nat} {item : α}
    (found : items[index]? = some item) :
    ∃ front back, items = front ++ item :: back ∧ front.length = index := by
  obtain ⟨inside, rfl⟩ := List.getElem?_eq_some_iff.mp found
  refine ⟨items.take index, items.drop (index + 1), ?_, by rw [List.length_take]; omega⟩
  rw [← List.drop_eq_getElem_cons inside, List.take_append_drop]

/-- The bytes `finalize` and its caller put together, in one row. -/
def blobBytes (entries : List SyncEntry) (winStream braces : List UInt8)
    (braceCount count : Nat) : List UInt8 :=
  let total := headerSize + entries.length * syncEntrySize + winStream.length + braces.length +
    streamTailPad
  LittleEndian.toBytes 8 total ++ (LittleEndian.toBytes 8 count ++ (List.replicate 4 0 ++
    (LittleEndian.toBytes 4 braceCount ++ (LittleEndian.toBytes 4 entries.length ++
      (LittleEndian.toBytes 4 (headerSize + entries.length * syncEntrySize) ++
        (entries.flatMap Builder.syncEntryBytes ++ (winStream ++
          (braces ++ List.replicate streamTailPad 0))))))))

theorem blobBytes_length (entries : List SyncEntry) (winStream braces : List UInt8)
    (braceCount count : Nat) :
    (blobBytes entries winStream braces braceCount count).length =
      headerSize + entries.length * syncEntrySize + winStream.length + braces.length +
        streamTailPad := by
  simp only [blobBytes, List.length_append, LittleEndian.toBytes_length, List.length_replicate,
    flatMap_syncEntryBytes_length, headerSize]
  omega

theorem blobBytes_layout (entries : List SyncEntry) (winStream braces : List UInt8)
    (braceCount count : Nat)
    (headerFits : headerSize + entries.length * syncEntrySize < 2 ^ 32)
    (countFits : count < 2 ^ 64)
    (totalFits : headerSize + entries.length * syncEntrySize + winStream.length + braces.length +
      streamTailPad < 2 ^ 64) :
    Layout (blobBytes entries winStream braces braceCount count) entries winStream := by
  have lengthEq := blobBytes_length entries winStream braces braceCount count
  have entriesFit : entries.length < 2 ^ 32 := by
    simp only [headerSize, syncEntrySize] at headerFits
    omega
  constructor
  · refine ⟨count, ?_⟩
    exact rawNat_toBytes (LittleEndian.toBytes 8 _) _ 8 8 count (by simp) countFits
  · have read := rawNat_toBytes (LittleEndian.toBytes 8 (headerSize + entries.length *
      syncEntrySize + winStream.length + braces.length + streamTailPad) ++
      (LittleEndian.toBytes 8 count ++ (List.replicate 4 0 ++ LittleEndian.toBytes 4 braceCount)))
      (LittleEndian.toBytes 4 (headerSize + entries.length * syncEntrySize) ++
        (entries.flatMap Builder.syncEntryBytes ++ (winStream ++
          (braces ++ List.replicate streamTailPad 0)))) 24 4 entries.length (by simp) entriesFit
    simp only [List.append_assoc] at read
    exact read
  · intro index entry found
    obtain ⟨front, back, entriesEq, frontLength⟩ := exists_append_of_getElem? found
    have read := rawRead_middle (LittleEndian.toBytes 8 (headerSize + entries.length *
      syncEntrySize + winStream.length + braces.length + streamTailPad) ++
      (LittleEndian.toBytes 8 count ++ (List.replicate 4 0 ++
        (LittleEndian.toBytes 4 braceCount ++ (LittleEndian.toBytes 4 entries.length ++
          (LittleEndian.toBytes 4 (headerSize + entries.length * syncEntrySize) ++
            front.flatMap Builder.syncEntryBytes))))))
      (Builder.syncEntryBytes entry)
      (back.flatMap Builder.syncEntryBytes ++ (winStream ++
        (braces ++ List.replicate streamTailPad 0)))
      (headerSize + index * syncEntrySize) syncEntrySize
      (by
        simp only [List.length_append, LittleEndian.toBytes_length, List.length_replicate,
          flatMap_syncEntryBytes_length, frontLength, headerSize]
        omega)
      (syncEntryBytes_length entry)
    have bytesEq : entries.flatMap Builder.syncEntryBytes =
        front.flatMap Builder.syncEntryBytes ++ (Builder.syncEntryBytes entry ++
          back.flatMap Builder.syncEntryBytes) := by
      rw [entriesEq, List.flatMap_append, List.flatMap_cons]
    unfold InternalSourceMap.syncEntry blobBytes
    simp only [List.append_assoc] at read
    simp only [bytesEq, List.append_assoc, read]
    change Except.ok (decodeSyncEntry (Builder.syncEntryBytes entry)) = _
    rw [decodeSyncEntry_syncEntryBytes]
  · have offsetRead : streamOffset (blobBytes entries winStream braces braceCount count) =
        .ok (headerSize + entries.length * syncEntrySize) := by
      have read := rawNat_toBytes (LittleEndian.toBytes 8 (headerSize + entries.length *
        syncEntrySize + winStream.length + braces.length + streamTailPad) ++
        (LittleEndian.toBytes 8 count ++ (List.replicate 4 0 ++
          (LittleEndian.toBytes 4 braceCount ++ LittleEndian.toBytes 4 entries.length))))
        (entries.flatMap Builder.syncEntryBytes ++ (winStream ++
            (braces ++ List.replicate streamTailPad 0))) 28 4
        (headerSize + entries.length * syncEntrySize) (by simp) headerFits
      simp only [List.append_assoc] at read
      exact read
    have totalRead : totalLen (blobBytes entries winStream braces braceCount count) =
        .ok (blobBytes entries winStream braces braceCount count).length := by
      rw [lengthEq]
      exact rawNat_toBytes [] _ 0 8 _ rfl totalFits
    refine ⟨braces ++ List.replicate streamTailPad 0, ?_⟩
    have read := rawRead_middle (LittleEndian.toBytes 8 (headerSize + entries.length *
      syncEntrySize + winStream.length + braces.length + streamTailPad) ++
      (LittleEndian.toBytes 8 count ++ (List.replicate 4 0 ++
        (LittleEndian.toBytes 4 braceCount ++ (LittleEndian.toBytes 4 entries.length ++
          (LittleEndian.toBytes 4 (headerSize + entries.length * syncEntrySize) ++
            entries.flatMap Builder.syncEntryBytes))))))
      (winStream ++ (braces ++ List.replicate streamTailPad 0)) []
      (headerSize + entries.length * syncEntrySize)
      ((blobBytes entries winStream braces braceCount count).length -
        (headerSize + entries.length * syncEntrySize))
      (by
        simp only [List.length_append, LittleEndian.toBytes_length, List.length_replicate,
          flatMap_syncEntryBytes_length, headerSize]
        omega)
      (by
        rw [lengthEq]
        simp only [List.length_append, List.length_replicate]
        omega)
    unfold InternalSourceMap.stream
    rw [offsetRead, totalRead]
    change (if _ then _ else _) = _
    rw [if_neg (by rw [lengthEq]; omega)]
    simp only [List.append_assoc, List.append_nil] at read
    exact read

theorem toBlob_eq (self : Builder)
    (headerFits : headerSize + self.flushWindow.syncEntries.length * syncEntrySize < 2 ^ 32)
    (bracesFit : self.flushWindow.objectBraces.length < 2 ^ 32) :
    self.toBlob = .ok (blobBytes self.flushWindow.syncEntries self.flushWindow.winStream
      (self.flushWindow.objectBraces.flatMap Builder.objectBraceBytes)
      self.flushWindow.objectBraces.length self.count.toNat) := by
  have entriesFit : self.flushWindow.syncEntries.length < 2 ^ 32 := by
    simp only [headerSize, syncEntrySize] at headerFits
    omega
  have zeros : List.replicate 20 (0 : UInt8) = List.replicate 16 0 ++ List.replicate 4 0 := rfl
  have bracesLength : ∀ braces : List ObjectBrace,
      (braces.flatMap Builder.objectBraceBytes).length = braces.length * objectBraceSize := by
    intro braces
    induction braces with
    | nil => rfl
    | cons brace braces ih =>
        simp only [List.flatMap_cons, List.length_append, ih, List.length_cons,
          Builder.objectBraceBytes, i32ToBytes_length, objectBraceSize]
        omega
  unfold Builder.toBlob Builder.finalize
  dsimp only
  simp only [Builder.expectU32, if_pos headerFits, if_pos bracesFit, if_pos entriesFit]
  change Except.ok (Builder.fillLengthAndCount _ _) = _
  unfold Builder.fillLengthAndCount blobBytes
  simp only [zeros, List.append_assoc]
  rw [List.drop_left' (by simp)]
  congr 3
  simp only [List.length_append, LittleEndian.toBytes_length, List.length_replicate,
    flatMap_syncEntryBytes_length, bracesLength, headerSize]
  omega

/-- What the lookups and traversals use of a blob of these windows. -/
structure Stored (blob : List UInt8) (windows : List Window) : Prop where
  mappingCount : ∃ count, mappingCount blob = .ok count
  syncCount : syncCount blob = .ok windows.length
  syncCountFits : windows.length < 2 ^ 32
  entry : ∀ index window, windows[index]? = some window →
    ∃ entry, syncEntry blob index = .ok entry ∧ entry.toState = window.first
  seed : ∀ index window, windows[index]? = some window →
    ∃ reader, seedWindow blob index = .ok (some (), window.first, reader) ∧
      Reads reader 0 (deltas window.first window.rest)

theorem entriesFrom_getElem? {windows : List Window} {index : Nat} {window : Window}
    (found : windows[index]? = some window) :
    ∃ front back, windows = front ++ window :: back ∧ front.length = index ∧
      (entriesFrom 0 windows)[index]? = some (window.entry (streamOf front).length) := by
  obtain ⟨front, back, windowsEq, frontLength⟩ := exists_append_of_getElem? found
  refine ⟨front, back, windowsEq, frontLength, ?_⟩
  rw [windowsEq, entriesFrom_append, Nat.zero_add, entriesFrom,
    List.getElem?_append_right (by simp [frontLength])]
  simp [frontLength]

theorem Layout.stored {blob : List UInt8} {windows : List Window}
    (layout : Layout blob (entriesFrom 0 windows) (streamOf windows))
    (fits : (streamOf windows.dropLast).length < 2 ^ 32) (countFits : windows.length < 2 ^ 32)
    (short : ∀ window ∈ windows, window.rest.length ≤ 63) :
    Stored blob windows := by
  constructor
  · exact layout.mappingCount
  · rw [layout.syncCount, entriesFrom_length]
  · exact countFits
  · intro index window found
    obtain ⟨front, back, windowsEq, frontLength, entryAt⟩ := entriesFrom_getElem? found
    exact ⟨_, layout.syncEntry index _ entryAt, Window.entry_toState window _⟩
  · intro index window found
    obtain ⟨front, back, windowsEq, frontLength, entryAt⟩ := entriesFrom_getElem? found
    obtain ⟨tail, streamEq⟩ := layout.stream
    have offsetFits : (streamOf front).length < 2 ^ 32 := by
      rw [windowsEq, List.dropLast_append_of_ne_nil (List.cons_ne_nil _ _), streamOf_append,
        List.length_append] at fits
      omega
    have here : HoldsAt (streamOf windows ++ tail) (streamOf front).length window.bytes := by
      refine ⟨streamOf back ++ tail, ?_⟩
      rw [windowsEq, streamOf_append, streamOf_cons, List.append_assoc, List.drop_left,
        List.append_assoc]
    have member : window ∈ windows := by
      rw [windowsEq]
      simp
    obtain ⟨reader, parsed, reads⟩ := parse_encodeWindow WindowReader.dangling
      (streamOf windows ++ tail) (streamOf front).length window.first window.rest
      (short window member) here
    refine ⟨reader, ?_, reads⟩
    have offsetEq : (window.entry (streamOf front).length).byteOffset.toNat =
        (streamOf front).length := by
      change (UInt32.ofNat (streamOf front).length).toNat = _
      rw [UInt32.toNat_ofNat', Nat.mod_eq_of_lt offsetFits]
    unfold seedWindow
    rw [layout.syncEntry index _ entryAt, streamEq]
    simp only [bind, Except.bind, offsetEq, parsed]
    rfl

/-! ### Sizes -/

theorem genLineLane_length_le (ds : List Delta) :
    ∀ k, (genLineLane k ds).length ≤ ds.length * (maxVarintLen + 1) := by
  induction ds with
  | nil => intro k; simp [genLineLane]
  | cons delta ds ih =>
      intro k
      have here := writeVarint_length_le delta.genLine
      have later := ih (k + 1)
      rw [genLineLane, List.length_append, List.length_cons, Nat.succ_mul]
      split
      · rw [List.length_cons]
        omega
      · rw [List.length_nil]
        omega

theorem Window.bytes_length_ge (window : Window) (short : window.rest.length ≤ 63) :
    32 ≤ window.bytes.length := by
  have written := encodeWindow_extends window.first window.rest short
  have header := (header_reads _ (window.rest.length + 1) written.masksWide).1
  rw [Window.bytes, encodeWindow, Lanes.toWindow, List.length_append, header]
  omega

theorem Window.bytes_length_le (window : Window) (short : window.rest.length ≤ 63) :
    window.bytes.length ≤ 2000 := by
  have written := encodeWindow_extends window.first window.rest short
  have wide := written.masksWide
  have header := (header_reads _ (window.rest.length + 1) wide).1
  have countEq := deltas_length window.first window.rest
  rw [Window.bytes, encodeWindow]
  generalize Lanes.empty.pushAll 0 window.first window.rest = lanes at written header wide
  generalize deltas window.first window.rest = ds at written countEq
  have lane : ∀ encode : Delta → List UInt8, (∀ delta, (encode delta).length ≤ maxVarintLen) →
      (ds.flatMap encode).length ≤ ds.length * maxVarintLen := by
    intro encode bounded
    exact flatMap_length_le ds encode maxVarintLen fun delta _ => bounded delta
  have optional : ∀ (same : Delta → Prop) [DecidablePred same] (value : Delta → Int32) (delta : Delta),
      (if same delta then [] else writeVarint (value delta)).length ≤ maxVarintLen := by
    intro same _ value delta
    split
    · exact Nat.zero_le _
    · exact writeVarint_length_le _
  have genCol := lane (fun delta => writeVarint delta.genCol) fun delta =>
    writeVarint_length_le delta.genCol
  have origLine := lane
    (fun delta => if delta.origLine = delta.genLine then [] else writeVarint delta.origLine)
    (optional (fun delta => delta.origLine = delta.genLine) Delta.origLine)
  have origCol := lane
    (fun delta => if delta.origCol = delta.genCol then [] else writeVarint delta.origCol)
    (optional (fun delta => delta.origCol = delta.genCol) Delta.origCol)
  have srcIdx := lane (fun delta => if delta.srcIdx = 0 then [] else writeVarint delta.srcIdx)
    (optional (fun delta => delta.srcIdx = 0) Delta.srcIdx)
  have genLine := genLineLane_length_le ds 0
  have genColEq : lanes.genCol = genColLane ds := written.genCol
  have origLineEq : lanes.origLine = origLineLane ds := written.origLine
  have origColEq : lanes.origCol = origColLane ds := written.origCol
  have genLineEq : lanes.genLine = genLineLane 0 ds := written.genLine
  have srcIdxEq : lanes.srcIdx = srcIdxLane ds := written.srcIdx
  have genLineSection : lanes.genLineSection.length ≤ lanes.genLine.length + 1 := by
    unfold Lanes.genLineSection
    split
    · simp
    · omega
  have srcIdxSection : lanes.srcIdxSection.length ≤ 8 + lanes.srcIdx.length := by
    unfold Lanes.srcIdxSection
    split
    · rw [List.length_append, wide.srcIdxMask]
    · exact Nat.zero_le _
  simp only [maxVarintLen] at genCol origLine origCol srcIdx genLine
  rw [genLineEq] at genLineSection
  rw [srcIdxEq] at srcIdxSection
  simp only [Lanes.toWindow, List.length_append, header, genColEq, origLineEq, origColEq]
  simp only [genColLane, origLineLane, origColLane, srcIdxLane] at *
  omega

theorem streamOf_length_ge (windows : List Window)
    (short : ∀ window ∈ windows, window.rest.length ≤ 63) :
    32 * windows.length ≤ (streamOf windows).length := by
  induction windows with
  | nil => exact Nat.zero_le _
  | cons window windows ih =>
      have here := window.bytes_length_ge (short window List.mem_cons_self)
      have later := ih fun later member => short later (List.mem_cons_of_mem _ member)
      rw [streamOf_cons, List.length_append, List.length_cons]
      omega

theorem streamOf_length_le_dropLast (windows : List Window)
    (short : ∀ window ∈ windows, window.rest.length ≤ 63) :
    (streamOf windows).length ≤ (streamOf windows.dropLast).length + 2000 ∧
      windows.length ≤ windows.dropLast.length + 1 := by
  rcases List.eq_nil_or_concat windows with rfl | ⟨front, last, rfl⟩
  · exact ⟨Nat.zero_le _, Nat.zero_le _⟩
  · have lastShort := short last (by simp)
    have bounded := last.bytes_length_le lastShort
    rw [List.concat_eq_append, List.dropLast_concat, streamOf_append, List.length_append]
    simp only [streamOf_cons, List.length_append, List.length_singleton]
    refine ⟨?_, Nat.le_refl _⟩
    simp only [streamOf, List.flatMap_nil, List.length_nil]
    omega

theorem Collected.layout {self : Builder} {states : List State} {windows : List Window}
    (collected : Collected self states windows) (noBraces : self.objectBraces = [])
    (headerFits : headerSize + (windowsOf states).length * syncEntrySize < 2 ^ 32)
    (streamFits : (streamOf (windowsOf states)).length < 2 ^ 63) :
    ∃ blob, self.toBlob = .ok blob ∧
      Layout blob (entriesFrom 0 (windowsOf states)) (streamOf (windowsOf states)) := by
  obtain ⟨entriesEq, streamEq, bracesEq, -⟩ := collected.flush
  rw [← entriesFrom_length (windowsOf states) 0] at headerFits
  have blobEq := toBlob_eq self (by rw [entriesEq]; exact headerFits)
    (by rw [bracesEq, noBraces]; decide)
  rw [entriesEq, streamEq, bracesEq, noBraces] at blobEq
  refine ⟨_, blobEq, blobBytes_layout _ _ _ _ _ headerFits ?_ ?_⟩
  · have bounded := self.count.toNat_lt
    omega
  · simp only [List.flatMap_nil, List.length_nil, streamTailPad]
    omega

theorem Collected.stored {self : Builder} {states : List State} {windows : List Window}
    (collected : Collected self states windows) (noBraces : self.objectBraces = [])
    (fits : OffsetsFit states) :
    ∃ blob, self.toBlob = .ok blob ∧ Stored blob (windowsOf states) := by
  have short := windowsOf_rest_length states
  unfold OffsetsFit at fits
  obtain ⟨streamBound, countBound⟩ := streamOf_length_le_dropLast (windowsOf states) short
  have frontBound := streamOf_length_ge (windowsOf states).dropLast
    fun window member => short window (List.dropLast_subset _ member)
  obtain ⟨blob, finished, layout⟩ := collected.layout noBraces
    (by simp only [headerSize, syncEntrySize]; omega) (by omega)
  exact ⟨blob, finished, layout.stored fits (by omega) short⟩

theorem calls_collected (calls : List BuilderCall) :
    (∃ windows, Collected (Builder.init.run calls) (appended 0 calls) windows) ∧
      (Builder.init.run calls).objectBraces = [] := by
  have start : Collected Builder.init [] [] := by
    constructor
    · rfl
    · intro window member
      cases member
    · decide
    · rfl
    · rfl
  exact run_collected calls Builder.init [] [] 0 start rfl

theorem stored_of_calls (calls : List BuilderCall) (fits : OffsetsFit (appended 0 calls)) :
    ∃ blob, (Builder.init.run calls).toBlob = .ok blob ∧
      Stored blob (windowsOf (appended 0 calls)) := by
  obtain ⟨⟨windows, collected⟩, noBraces⟩ := calls_collected calls
  exact collected.stored noBraces fits

end Bun.SourceMap.InternalSourceMap
