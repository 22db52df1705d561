/-
One window of the internal format reads back as the mappings it was written from.

`Lanes.pushAll` is first described lane by lane, then `Reads` relates a reader to
the deltas it has left.  `applyNext_reads` is the step, `parse_encodeWindow`
establishes the relation, and the two walks over a window follow by induction.
-/

import Bun.SourceMap.InternalBuilder

set_option autoImplicit false

namespace Bun.SourceMap.InternalSourceMap

open Bun.Foundation

/-! ### Deltas -/

def deltas (previous : State) : List State → List Delta
  | [] => []
  | current :: rest => Delta.between previous current :: deltas current rest

@[simp] theorem deltas_length (previous : State) (states : List State) :
    (deltas previous states).length = states.length := by
  induction states generalizing previous with
  | nil => rfl
  | cons current rest ih => simp only [deltas, List.length_cons, ih]

/-- What a decoded delta does to the state: `next_rare` adds the source index, then
the other fields move. -/
def State.apply (state : State) (delta : Delta) : State :=
  { state with sourceIndex := state.sourceIndex + delta.srcIdx }.advance
    delta.genLine delta.genCol delta.origLine delta.origCol

private theorem Int32.add_sub_self (a b : Int32) : b + (a - b) = a := by grind

/-- Applying the difference of two mappings to the first gives the second. -/
theorem State.apply_between (previous current : State) :
    previous.apply (Delta.between previous current) = current := by
  rcases previous with ⟨pgl, pgc, psi, pol, poc⟩
  rcases current with ⟨gl, gc, si, ol, oc⟩
  simp only [State.apply, Delta.between, State.advance]
  by_cases sameLine : gl - pgl = 0
  · have lineEq : gl = pgl := by
      have restored := Int32.add_sub_self gl pgl
      rw [sameLine] at restored
      simpa using restored.symm
    simp [lineEq, Int32.add_sub_self]
  · simp [sameLine, Int32.add_sub_self]

/-! ### What the delta loop writes -/

def Delta.isException (delta : Delta) : Bool :=
  delta.genLine > 1 ∨ delta.genLine < 0

def genColLane (ds : List Delta) : List UInt8 :=
  ds.flatMap fun delta => writeVarint delta.genCol

def origLineLane (ds : List Delta) : List UInt8 :=
  ds.flatMap fun delta =>
    if delta.origLine = delta.genLine then [] else writeVarint delta.origLine

def origColLane (ds : List Delta) : List UInt8 :=
  ds.flatMap fun delta =>
    if delta.origCol = delta.genCol then [] else writeVarint delta.origCol

def genLineLane : Nat → List Delta → List UInt8
  | _, [] => []
  | k, delta :: ds =>
      (if delta.isException then UInt8.ofNat k :: writeVarint delta.genLine else []) ++
        genLineLane (k + 1) ds

def srcIdxLane (ds : List Delta) : List UInt8 :=
  ds.flatMap fun delta => if delta.srcIdx = 0 then [] else writeVarint delta.srcIdx

def flagsOf (exceptions sources : Bool) : UInt8 :=
  (if exceptions then flagHasGenLineExceptions else 0) ||| (if sources then flagHasSrcIdx else 0)

theorem flagsOf_or : ∀ exceptions sources laterExceptions laterSources : Bool,
    flagsOf (exceptions || laterExceptions) (sources || laterSources) =
      flagsOf exceptions sources ||| flagsOf laterExceptions laterSources := by
  decide

def windowFlags (ds : List Delta) : UInt8 :=
  flagsOf (ds.any Delta.isException) (ds.any fun delta => delta.srcIdx ≠ 0)

theorem windowFlags_cons (delta : Delta) (ds : List Delta) :
    windowFlags (delta :: ds) =
      flagsOf delta.isException (delta.srcIdx ≠ 0) ||| windowFlags ds := by
  simp only [windowFlags, List.any_cons, flagsOf_or]

/-- A mask records a property of each delta from index `k` on, and keeps the bits
of `before` below. -/
def MaskExtends (before after : List UInt8) (k : Nat) (ds : List Delta)
    (property : Delta → Bool) : Prop :=
  after.length = before.length ∧
    ∀ index, (LittleEndian.ofBytes after).testBit index =
      ((LittleEndian.ofBytes before).testBit index ||
        (decide (k ≤ index) && (ds[index - k]?).any property))

theorem MaskExtends.nil (mask : List UInt8) (k : Nat) (property : Delta → Bool) :
    MaskExtends mask mask k [] property := by
  refine ⟨rfl, ?_⟩
  intro index
  simp

theorem MaskExtends.cons {before after : List UInt8} {k : Nat} {delta : Delta} {ds : List Delta}
    {property : Delta → Bool} (room : k / 8 < before.length)
    (rest : MaskExtends (if property delta then LittleEndian.setBit before k else before)
      after (k + 1) ds property) :
    MaskExtends before after k (delta :: ds) property := by
  refine ⟨?_, ?_⟩
  · rw [rest.1]
    split
    · exact LittleEndian.setBit_length before k
    · rfl
  · intro index
    have firstBit : (LittleEndian.ofBytes (if property delta then LittleEndian.setBit before k
        else before)).testBit index =
          ((LittleEndian.ofBytes before).testBit index ||
            (property delta && decide (index = k))) := by
      cases property delta with
      | false => simp
      | true => simpa using LittleEndian.testBit_ofBytes_setBit before k index room
    rw [rest.2 index, firstBit]
    by_cases here : index = k
    · subst here
      simp
    · by_cases above : k ≤ index
      · have step : index - k = (index - (k + 1)) + 1 := by omega
        have beyond : k + 1 ≤ index := by omega
        rw [step]
        simp [here, above, beyond]
      · have notBeyond : ¬k + 1 ≤ index := by omega
        simp [here, above, notBeyond]

structure Lanes.Extends (before after : Lanes) (k : Nat) (ds : List Delta) : Prop where
  genCol : after.genCol = before.genCol ++ genColLane ds
  origLine : after.origLine = before.origLine ++ origLineLane ds
  origCol : after.origCol = before.origCol ++ origColLane ds
  genLine : after.genLine = before.genLine ++ genLineLane k ds
  srcIdx : after.srcIdx = before.srcIdx ++ srcIdxLane ds
  flags : after.flags = before.flags ||| windowFlags ds
  genLineMask : MaskExtends before.genLineMask after.genLineMask k ds (fun d => d.genLine ≥ 1)
  origLineEqMask : MaskExtends before.origLineEqMask after.origLineEqMask k ds
    (fun d => d.origLine = d.genLine)
  origColEqMask : MaskExtends before.origColEqMask after.origColEqMask k ds
    (fun d => d.origCol = d.genCol)
  srcIdxMask : MaskExtends before.srcIdxMask after.srcIdxMask k ds (fun d => d.srcIdx = 0)

structure Lanes.MasksWide (lanes : Lanes) : Prop where
  genLineMask : lanes.genLineMask.length = 8
  origLineEqMask : lanes.origLineEqMask.length = 8
  origColEqMask : lanes.origColEqMask.length = 8
  srcIdxMask : lanes.srcIdxMask.length = 8

theorem Lanes.push_masksWide {lanes : Lanes} (wide : lanes.MasksWide) (k : Nat) (delta : Delta) :
    (lanes.push k delta).MasksWide := by
  rcases wide with ⟨genLine, origLine, origCol, srcIdx⟩
  unfold Lanes.push
  constructor
  all_goals
    dsimp only
    split <;> simp [genLine, origLine, origCol, srcIdx]

theorem Lanes.extends_push {lanes after : Lanes} {k : Nat} {delta : Delta} {ds : List Delta}
    (wide : lanes.MasksWide) (inside : k < 64) (rest : (lanes.push k delta).Extends after (k + 1) ds) :
    lanes.Extends after k (delta :: ds) := by
  have room : k / 8 < 8 := by omega
  constructor
  · rw [rest.genCol]
    simp [Lanes.push, genColLane]
  · rw [rest.origLine]
    by_cases same : delta.origLine = delta.genLine <;> simp [Lanes.push, origLineLane, same]
  · rw [rest.origCol]
    by_cases same : delta.origCol = delta.genCol <;> simp [Lanes.push, origColLane, same]
  · rw [rest.genLine]
    by_cases exception : delta.genLine > 1 ∨ delta.genLine < 0 <;>
      simp [Lanes.push, genLineLane, Delta.isException, exception]
  · rw [rest.srcIdx]
    by_cases same : delta.srcIdx = 0 <;> simp [Lanes.push, srcIdxLane, same]
  · rw [rest.flags, windowFlags_cons, ← UInt8.or_assoc]
    by_cases exception : delta.genLine > 1 ∨ delta.genLine < 0 <;>
      by_cases same : delta.srcIdx = 0 <;>
      simp [Lanes.push, Delta.isException, flagsOf, exception, same, UInt8.or_assoc]
  · apply MaskExtends.cons (by rw [wide.genLineMask]; exact room)
    have after := rest.genLineMask
    simpa [Lanes.push] using after
  · apply MaskExtends.cons (by rw [wide.origLineEqMask]; exact room)
    have after := rest.origLineEqMask
    by_cases same : delta.origLine = delta.genLine <;> simpa [Lanes.push, same] using after
  · apply MaskExtends.cons (by rw [wide.origColEqMask]; exact room)
    have after := rest.origColEqMask
    by_cases same : delta.origCol = delta.genCol <;> simpa [Lanes.push, same] using after
  · apply MaskExtends.cons (by rw [wide.srcIdxMask]; exact room)
    have after := rest.srcIdxMask
    by_cases same : delta.srcIdx = 0 <;> simpa [Lanes.push, same] using after

theorem Lanes.pushAll_extends (states : List State) :
    ∀ (lanes : Lanes) (k : Nat) (previous : State), lanes.MasksWide → k + states.length ≤ 64 →
      lanes.Extends (lanes.pushAll k previous states) k (deltas previous states) := by
  induction states with
  | nil =>
      intro lanes k previous wide room
      constructor <;>
        simp [Lanes.pushAll, deltas, genColLane, origLineLane, origColLane, genLineLane, srcIdxLane,
          windowFlags, flagsOf, MaskExtends.nil]
  | cons current rest ih =>
      intro lanes k previous wide room
      rw [List.length_cons] at room
      exact Lanes.extends_push wide (by omega)
        (ih (lanes.push k (Delta.between previous current)) (k + 1) current
          (Lanes.push_masksWide wide k _) (by omega))

/-! ### What a reader has left -/

/-- The bytes from `pos` on start with `lane`. -/
def HoldsAt (bytes : List UInt8) (pos : Nat) (lane : List UInt8) : Prop :=
  ∃ tail, bytes.drop pos = lane ++ tail

theorem HoldsAt.skip {bytes : List UInt8} {pos : Nat} {front lane : List UInt8}
    (here : HoldsAt bytes pos (front ++ lane)) : HoldsAt bytes (pos + front.length) lane := by
  obtain ⟨tail, dropped⟩ := here
  refine ⟨tail, ?_⟩
  rw [← List.drop_drop, dropped, List.append_assoc, List.drop_left]

theorem HoldsAt.tail {bytes : List UInt8} {pos : Nat} {byte : UInt8} {lane : List UInt8}
    (here : HoldsAt bytes pos (byte :: lane)) : HoldsAt bytes (pos + 1) lane := by
  have single : HoldsAt bytes pos ([byte] ++ lane) := here
  exact single.skip

theorem HoldsAt.front {bytes : List UInt8} {pos : Nat} {front lane : List UInt8}
    (here : HoldsAt bytes pos (front ++ lane)) : HoldsAt bytes pos front := by
  obtain ⟨tail, dropped⟩ := here
  exact ⟨lane ++ tail, by rw [dropped, List.append_assoc]⟩

theorem HoldsAt.readVarint {bytes lane : List UInt8} {pos : Nat} {value : Int32}
    (here : HoldsAt bytes pos (writeVarint value ++ lane)) :
    readVarint bytes pos = some (value, pos + (writeVarint value).length) := by
  obtain ⟨tail, dropped⟩ := here
  rw [List.append_assoc] at dropped
  exact readVarint_writeVarint value bytes (lane ++ tail) pos dropped

theorem HoldsAt.getElem? {bytes lane : List UInt8} {pos : Nat} {byte : UInt8}
    (here : HoldsAt bytes pos (byte :: lane)) : bytes[pos]? = some byte := by
  obtain ⟨tail, dropped⟩ := here
  have first : (bytes.drop pos)[0]? = some byte := by rw [dropped]; rfl
  rwa [List.getElem?_drop, Nat.add_zero] at first

/-- A value that is written only where it differs from the one the reader assumes. -/
theorem HoldsAt.readUnless {bytes lane : List UInt8} {pos : Nat} {value : Int32} {same : Prop}
    [Decidable same] (assumed : Int32)
    (here : HoldsAt bytes pos ((if same then [] else writeVarint value) ++ lane)) :
    ∃ after, (if same then some (assumed, pos) else SourceMap.readVarint bytes pos) =
        some (if same then assumed else value, after) ∧ HoldsAt bytes after lane := by
  by_cases equal : same
  · simp only [if_pos equal] at here ⊢
    exact ⟨pos, rfl, here⟩
  · simp only [if_neg equal] at here ⊢
    exact ⟨_, here.readVarint, here.skip⟩

theorem testBit_eq (mask index : Nat) : testBit mask index = mask.testBit index := by
  rw [testBit, Nat.testBit, Nat.and_comm]

/-- The mask answers `property` for each delta from index `k` on. -/
def MaskReads (mask k : Nat) (ds : List Delta) (property : Delta → Bool) : Prop :=
  ∀ index delta, ds[index]? = some delta → testBit mask (k + index) = property delta

theorem MaskReads.head {mask k : Nat} {delta : Delta} {ds : List Delta} {property : Delta → Bool}
    (reads : MaskReads mask k (delta :: ds) property) : testBit mask k = property delta :=
  reads 0 delta rfl

theorem MaskReads.tail {mask k : Nat} {delta : Delta} {ds : List Delta} {property : Delta → Bool}
    (reads : MaskReads mask k (delta :: ds) property) : MaskReads mask (k + 1) ds property := by
  intro index later found
  have shifted := reads (index + 1) later (by simpa using found)
  rwa [show k + (index + 1) = k + 1 + index by omega] at shifted

structure GenLineReads (reader : WindowReader) (k : Nat) (ds : List Delta) : Prop where
  next : reader.genLineExcNextIdx = (genLineLane k ds ++ [0xFF]).headD 0xFF
  lane : genLineLane k ds ≠ [] → reader.flags ≠ 0 ∧
    HoldsAt reader.bytes reader.genLineExcPos (genLineLane k ds ++ [0xFF])

structure SrcIdxReads (reader : WindowReader) (k : Nat) (ds : List Delta) : Prop where
  flagged : reader.hasFlag flagHasSrcIdx = true →
    MaskReads reader.srcIdxEqMask k ds (fun d => d.srcIdx = 0) ∧
      HoldsAt reader.bytes reader.srcIdxExcPos (srcIdxLane ds)
  plain : reader.hasFlag flagHasSrcIdx = false → ∀ d ∈ ds, d.srcIdx = 0

/-- The reader stands before delta `k` of a window, and `ds` are the deltas from
there to the window's end. -/
structure Reads (reader : WindowReader) (k : Nat) (ds : List Delta) : Prop where
  deltaIdx : reader.deltaIdx = k
  count : reader.count = k + ds.length + 1
  room : k + ds.length ≤ 63
  genCol : HoldsAt reader.bytes reader.genColPos (genColLane ds)
  origLine : HoldsAt reader.bytes reader.origLineExcPos (origLineLane ds)
  origCol : HoldsAt reader.bytes reader.origColExcPos (origColLane ds)
  genLineMask : MaskReads reader.genLineMask k ds (fun d => d.genLine ≥ 1)
  origLineEqMask : MaskReads reader.origLineEqMask k ds (fun d => d.origLine = d.genLine)
  origColEqMask : MaskReads reader.origColEqMask k ds (fun d => d.origCol = d.genCol)
  genLine : GenLineReads reader k ds
  srcIdx : SrcIdxReads reader k ds

/-! ### One step of the reader -/

theorem genLineLane_headD_ge (ds : List Delta) :
    ∀ k, k + ds.length ≤ 64 → k ≤ ((genLineLane k ds ++ [0xFF]).headD 0xFF).toNat := by
  induction ds with
  | nil =>
      intro k room
      simp only [genLineLane, List.nil_append, List.headD_cons]
      exact Nat.le_trans room (by decide)
  | cons delta ds ih =>
      intro k room
      rw [List.length_cons] at room
      unfold genLineLane
      by_cases exception : delta.isException
      · rw [if_pos exception]
        simp only [List.cons_append, List.headD_cons, UInt8.toNat_ofNat']
        omega
      · rw [if_neg exception]
        have later := ih (k + 1) (by omega)
        simp only [List.nil_append] at later ⊢
        omega

theorem genLine_of_plain {delta : Delta} (plain : delta.isException = false) :
    (if delta.genLine ≥ 1 then (1 : Int32) else 0) = delta.genLine := by
  have bounds : ¬(delta.genLine > 1 ∨ delta.genLine < 0) := by
    simpa [Delta.isException] using plain
  have upper : delta.genLine.toInt ≤ 1 := by
    have notAbove : ¬(1 : Int32) < delta.genLine := fun above => bounds (Or.inl above)
    rw [Int32.not_lt, Int32.le_iff_toInt_le] at notAbove
    exact notAbove
  have lower : 0 ≤ delta.genLine.toInt := by
    have notBelow : ¬delta.genLine < 0 := fun below => bounds (Or.inr below)
    rw [Int32.not_lt, Int32.le_iff_toInt_le] at notBelow
    exact notBelow
  by_cases positive : delta.genLine ≥ 1
  · rw [if_pos positive]
    have atLeast : (1 : Int) ≤ delta.genLine.toInt := Int32.le_iff_toInt_le.mp positive
    apply Int32.toInt_inj.mp
    change (1 : Int) = _
    omega
  · rw [if_neg positive]
    have below : delta.genLine.toInt < 1 := by
      rw [ge_iff_le, Int32.not_le, Int32.lt_iff_toInt_lt] at positive
      exact positive
    apply Int32.toInt_inj.mp
    change (0 : Int) = _
    omega

theorem takeGenLineException_reads {reader : WindowReader} {k : Nat} {delta : Delta}
    {ds : List Delta} (reads : GenLineReads reader k (delta :: ds)) (room : k + ds.length ≤ 62)
    (eqBit : testBit reader.origLineEqMask k = decide (delta.origLine = delta.genLine)) :
    ∃ pos next,
      reader.takeGenLineException k (if delta.genLine ≥ 1 then 1 else 0)
          (if delta.origLine = delta.genLine then (if delta.genLine ≥ 1 then 1 else 0)
            else delta.origLine) =
        (some (delta.genLine, delta.origLine),
          { reader with genLineExcPos := pos, genLineExcNextIdx := next }) ∧
      GenLineReads { reader with genLineExcPos := pos, genLineExcNextIdx := next } (k + 1) ds := by
  unfold WindowReader.takeGenLineException
  by_cases exception : delta.isException
  · have laneEq : genLineLane k (delta :: ds) =
        UInt8.ofNat k :: (writeVarint delta.genLine ++ genLineLane (k + 1) ds) := by
      rw [genLineLane, if_pos exception, List.cons_append]
    obtain ⟨flagged, here⟩ := reads.lane (by rw [laneEq]; exact List.cons_ne_nil _ _)
    have isNext : reader.genLineExcNextIdx.toNat = k := by
      rw [reads.next, laneEq, List.cons_append, List.headD_cons, UInt8.toNat_ofNat']
      omega
    rw [laneEq, List.cons_append, List.append_assoc] at here
    have body : HoldsAt reader.bytes (reader.genLineExcPos + 1)
        (writeVarint delta.genLine ++ (genLineLane (k + 1) ds ++ [0xFF])) :=
      here.tail
    have after := body.skip
    obtain ⟨byte, lane, laneCons⟩ : ∃ byte lane, genLineLane (k + 1) ds ++ [0xFF] = byte :: lane :=
      List.exists_cons_of_ne_nil (by simp)
    rw [laneCons] at after
    refine ⟨reader.genLineExcPos + 1 + (writeVarint delta.genLine).length, byte, ?_, ?_, ?_⟩
    · rw [if_pos isNext, body.readVarint]
      dsimp only
      rw [after.getElem?]
      dsimp only
      rw [eqBit]
      by_cases same : delta.origLine = delta.genLine <;> simp [same]
    · rw [laneCons]
      rfl
    · intro _
      rw [laneCons]
      exact ⟨flagged, after⟩
  · have laneEq : genLineLane k (delta :: ds) = genLineLane (k + 1) ds := by
      rw [genLineLane, if_neg exception, List.nil_append]
    have notNext : reader.genLineExcNextIdx.toNat ≠ k := by
      have later := genLineLane_headD_ge ds (k + 1) (by omega)
      rw [reads.next, laneEq]
      omega
    refine ⟨reader.genLineExcPos, reader.genLineExcNextIdx, ?_, ?_, ?_⟩
    · rw [if_neg notNext, genLine_of_plain (by simpa using exception)]
      by_cases same : delta.origLine = delta.genLine <;> simp [same]
    · rw [← laneEq]
      exact reads.next
    · rw [← laneEq]
      exact reads.lane

theorem nextRare_reads {reader : WindowReader} {k : Nat} {delta : Delta} {ds : List Delta}
    (genLine : GenLineReads reader k (delta :: ds)) (srcIdx : SrcIdxReads reader k (delta :: ds))
    (room : k + ds.length ≤ 62)
    (eqBit : testBit reader.origLineEqMask k = decide (delta.origLine = delta.genLine))
    (state : State) :
    ∃ pos next srcPos,
      reader.nextRare k (if delta.genLine ≥ 1 then 1 else 0)
          (if delta.origLine = delta.genLine then (if delta.genLine ≥ 1 then 1 else 0)
            else delta.origLine) state =
        (some (delta.genLine, delta.origLine),
          { reader with genLineExcPos := pos, genLineExcNextIdx := next, srcIdxExcPos := srcPos },
          { state with sourceIndex := state.sourceIndex + delta.srcIdx }) ∧
      GenLineReads
        { reader with genLineExcPos := pos, genLineExcNextIdx := next, srcIdxExcPos := srcPos }
        (k + 1) ds ∧
      SrcIdxReads
        { reader with genLineExcPos := pos, genLineExcNextIdx := next, srcIdxExcPos := srcPos }
        (k + 1) ds := by
  obtain ⟨pos, next, taken, left⟩ := takeGenLineException_reads genLine room eqBit
  unfold WindowReader.nextRare
  rw [taken]
  dsimp only
  cases flag : reader.hasFlag flagHasSrcIdx with
  | false =>
      have zero := srcIdx.plain flag delta List.mem_cons_self
      refine ⟨pos, next, reader.srcIdxExcPos, ?_, ⟨left.next, left.lane⟩, ?_, ?_⟩
      · have flag' : WindowReader.hasFlag
            { reader with genLineExcPos := pos, genLineExcNextIdx := next } flagHasSrcIdx = false :=
          flag
        simp [flag', zero]
      · intro flagged
        exact absurd (flagged.symm.trans flag) (by decide)
      · intro _ later member
        exact srcIdx.plain flag later (List.mem_cons_of_mem _ member)
  | true =>
      have flag' : WindowReader.hasFlag
          { reader with genLineExcPos := pos, genLineExcNextIdx := next } flagHasSrcIdx = true :=
        flag
      obtain ⟨mask, lane⟩ := srcIdx.flagged flag
      have bit : testBit reader.srcIdxEqMask k = decide (delta.srcIdx = 0) := mask.head
      by_cases zero : delta.srcIdx = 0
      · have restLane : HoldsAt reader.bytes reader.srcIdxExcPos (srcIdxLane ds) := by
          simpa [srcIdxLane, zero] using lane
        refine ⟨pos, next, reader.srcIdxExcPos, ?_, ⟨left.next, left.lane⟩, ?_, ?_⟩
        · simp [flag', bit, zero]
        · intro _
          exact ⟨mask.tail, restLane⟩
        · intro plain
          exact absurd (plain.symm.trans flag) (by decide)
      · have written : HoldsAt reader.bytes reader.srcIdxExcPos
            (writeVarint delta.srcIdx ++ srcIdxLane ds) := by
          simpa [srcIdxLane, zero] using lane
        refine ⟨pos, next, reader.srcIdxExcPos + (writeVarint delta.srcIdx).length, ?_,
          ⟨left.next, left.lane⟩, ?_, ?_⟩
        · rw [flag', bit]
          simp [zero, written.readVarint]
        · intro _
          exact ⟨mask.tail, written.skip⟩
        · intro plain
          exact absurd (plain.symm.trans flag) (by decide)

theorem plain_of_flags_eq_zero {reader : WindowReader} {k : Nat} {delta : Delta} {ds : List Delta}
    (genLine : GenLineReads reader k (delta :: ds)) (srcIdx : SrcIdxReads reader k (delta :: ds))
    (flags : reader.flags = 0) :
    delta.isException = false ∧ delta.srcIdx = 0 ∧
      genLineLane k (delta :: ds) = genLineLane (k + 1) ds := by
  have noLane : genLineLane k (delta :: ds) = [] := by
    by_contra lane
    exact (genLine.lane lane).1 flags
  have noException : delta.isException = false := by
    by_contra exception
    rw [Bool.not_eq_false] at exception
    rw [genLineLane, if_pos exception] at noLane
    exact List.cons_ne_nil _ _ noLane
  refine ⟨noException, ?_, ?_⟩
  · apply srcIdx.plain _ delta List.mem_cons_self
    simp [WindowReader.hasFlag, flags]
  · rw [genLineLane, if_neg (by simp [noException]), List.nil_append]

theorem applyRare_reads (reader : WindowReader) {k : Nat} {delta : Delta} {ds : List Delta}
    (genLine : GenLineReads reader k (delta :: ds)) (srcIdx : SrcIdxReads reader k (delta :: ds))
    (room : k + ds.length ≤ 62)
    (eqBit : testBit reader.origLineEqMask k = decide (delta.origLine = delta.genLine))
    (state : State) :
    ∃ pos next srcPos,
      (if reader.flags ≠ 0 then
        match reader.nextRare k (if delta.genLine ≥ 1 then 1 else 0)
          (if delta.origLine = delta.genLine then (if delta.genLine ≥ 1 then 1 else 0)
            else delta.origLine) state with
        | (none, self, state) => (none, self, state)
        | (some (dGenLine, dOrigLine), self, state) =>
            (some (), self, state.advance dGenLine delta.genCol dOrigLine delta.origCol)
      else
        (some (), reader, state.advance (if delta.genLine ≥ 1 then 1 else 0) delta.genCol
          (if delta.origLine = delta.genLine then (if delta.genLine ≥ 1 then 1 else 0)
            else delta.origLine) delta.origCol)) =
        (some (),
          { reader with genLineExcPos := pos, genLineExcNextIdx := next, srcIdxExcPos := srcPos },
          state.apply delta) ∧
      GenLineReads
        { reader with genLineExcPos := pos, genLineExcNextIdx := next, srcIdxExcPos := srcPos }
        (k + 1) ds ∧
      SrcIdxReads
        { reader with genLineExcPos := pos, genLineExcNextIdx := next, srcIdxExcPos := srcPos }
        (k + 1) ds := by
  by_cases flags : reader.flags = 0
  · obtain ⟨noException, sameSource, laneEq⟩ := plain_of_flags_eq_zero genLine srcIdx flags
    have lineValue : (if delta.origLine = delta.genLine then delta.genLine else delta.origLine) =
        delta.origLine := by
      split
      · rename_i same
        exact same.symm
      · rfl
    refine ⟨reader.genLineExcPos, reader.genLineExcNextIdx, reader.srcIdxExcPos, ?_, ?_, ?_⟩
    · rw [if_neg (by simpa using flags), genLine_of_plain noException, lineValue]
      simp [State.apply, sameSource]
    · constructor
      · rw [← laneEq]
        exact genLine.next
      · rw [← laneEq]
        exact genLine.lane
    · constructor
      · intro flagged
        obtain ⟨mask, lane⟩ := srcIdx.flagged flagged
        refine ⟨mask.tail, ?_⟩
        simpa [srcIdxLane, sameSource] using lane
      · intro plain later member
        exact srcIdx.plain plain later (List.mem_cons_of_mem _ member)
  · obtain ⟨pos, next, srcPos, rare, genLineLeft, srcIdxLeft⟩ :=
      nextRare_reads genLine srcIdx room eqBit state
    refine ⟨pos, next, srcPos, ?_, genLineLeft, srcIdxLeft⟩
    rw [if_pos (by simpa using flags), rare]
    rfl

theorem applyNext_reads {reader : WindowReader} {k : Nat} {delta : Delta} {ds : List Delta}
    (reads : Reads reader k (delta :: ds)) (state : State) :
    ∃ after, reader.applyNext state = (some (), after, state.apply delta) ∧
      Reads after (k + 1) ds := by
  have countEq := reads.count
  have room := reads.room
  rw [List.length_cons] at countEq room
  have genCol : HoldsAt reader.bytes reader.genColPos (writeVarint delta.genCol ++ genColLane ds) :=
    reads.genCol
  have origLine : HoldsAt reader.bytes reader.origLineExcPos
      ((if delta.origLine = delta.genLine then [] else writeVarint delta.origLine) ++
        origLineLane ds) := reads.origLine
  have origCol : HoldsAt reader.bytes reader.origColExcPos
      ((if delta.origCol = delta.genCol then [] else writeVarint delta.origCol) ++
        origColLane ds) := reads.origCol
  obtain ⟨linePos, lineRead, lineLane⟩ := origLine.readUnless
    (if delta.genLine ≥ 1 then 1 else 0)
  obtain ⟨colPos, colRead, colLane⟩ := origCol.readUnless delta.genCol
  have colValue : (if delta.origCol = delta.genCol then delta.genCol else delta.origCol) =
      delta.origCol := by
    split
    · rename_i same
      exact same.symm
    · rfl
  obtain ⟨pos, next, srcPos, rare, genLineLeft, srcIdxLeft⟩ :=
    applyRare_reads
      { reader with
        deltaIdx := k + 1
        genColPos := reader.genColPos + (writeVarint delta.genCol).length
        origLineExcPos := linePos
        origColExcPos := colPos }
      ⟨reads.genLine.next, reads.genLine.lane⟩ ⟨reads.srcIdx.flagged, reads.srcIdx.plain⟩
      (by omega) reads.origLineEqMask.head state
  unfold WindowReader.applyNext
  simp only [reads.deltaIdx, reads.genLineMask.head, reads.origLineEqMask.head,
    reads.origColEqMask.head, genCol.readVarint, decide_eq_true_eq]
  rw [lineRead]
  dsimp only
  rw [colRead, colValue]
  refine ⟨_, rare, ?_⟩
  constructor
  case deltaIdx => rfl
  case count => change reader.count = _; omega
  case room => omega
  case genCol => exact genCol.skip
  case origLine => exact lineLane
  case origCol => exact colLane
  case genLineMask => exact reads.genLineMask.tail
  case origLineEqMask => exact reads.origLineEqMask.tail
  case origColEqMask => exact reads.origColEqMask.tail
  case genLine => exact genLineLeft
  case srcIdx => exact srcIdxLeft

/-! ### The two walks over a window -/

theorem walkWindow_reads (states : List State) :
    ∀ (reader : WindowReader) (k : Nat) (state : State),
      Reads reader k (deltas state states) → walkWindow reader state = (states, true) := by
  induction states with
  | nil =>
      intro reader k state reads
      have atEnd : reader.done = true := by
        simp [WindowReader.done, reads.count, reads.deltaIdx, deltas]
      rw [walkWindow, dif_neg (by simp [atEnd])]
  | cons current rest ih =>
      intro reader k state reads
      have running : reader.done = false := by
        simp [WindowReader.done, reads.count, reads.deltaIdx, deltas]
      obtain ⟨after, applied, left⟩ := applyNext_reads reads state
      rw [State.apply_between] at applied
      have notCorrupt : after.count ≠ 0 := by
        rw [left.count]
        omega
      rw [walkWindow, dif_pos running]
      simp only [WindowReader.next, applied, if_neg notCorrupt, ih after (k + 1) current left]

/-- The scan stops at the last mapping of the leading ones at or before the target,
and a window that was written leaves it no corrupt reader. -/
theorem scanWindow_reads (line col : Int32) (states : List State) :
    ∀ (reader : WindowReader) (k : Nat) (state : State),
      Reads reader k (deltas state states) →
      (scanWindow reader state line col).2 =
          (states.takeWhile fun later => later.lessOrEqual line col).getLastD state ∧
        (scanWindow reader state line col).1.count ≠ 0 := by
  induction states with
  | nil =>
      intro reader k state reads
      have atEnd : reader.done = true := by
        simp [WindowReader.done, reads.count, reads.deltaIdx, deltas]
      have notCorrupt : reader.count ≠ 0 := by
        rw [reads.count]
        omega
      rw [scanWindow, dif_neg (by simp [atEnd])]
      exact ⟨rfl, notCorrupt⟩
  | cons current rest ih =>
      intro reader k state reads
      have running : reader.done = false := by
        simp [WindowReader.done, reads.count, reads.deltaIdx, deltas]
      obtain ⟨after, applied, left⟩ := applyNext_reads reads state
      rw [State.apply_between] at applied
      have notCorrupt : after.count ≠ 0 := by
        rw [left.count]
        omega
      rw [scanWindow, dif_pos running]
      simp only [WindowReader.next, applied]
      cases within : current.lessOrEqual line col with
      | false =>
          simp only [List.takeWhile_cons, within]
          exact ⟨rfl, notCorrupt⟩
      | true =>
          simp only [List.takeWhile_cons, within, if_true, List.getLastD_cons]
          exact ih after (k + 1) current left

/-! ### Parsing a written window -/

theorem flagsOf_exceptions : ∀ exceptions sources : Bool,
    (flagsOf exceptions sources &&& flagHasGenLineExceptions != 0) = exceptions := by
  decide

theorem flagsOf_sources : ∀ exceptions sources : Bool,
    (flagsOf exceptions sources &&& flagHasSrcIdx != 0) = sources := by
  decide

theorem genLineLane_eq_nil_iff (ds : List Delta) :
    ∀ k, genLineLane k ds = [] ↔ ds.any Delta.isException = false := by
  induction ds with
  | nil => simp [genLineLane]
  | cons delta ds ih =>
      intro k
      cases exception : delta.isException with
      | false => simp [genLineLane, exception, ih]
      | true => simp [genLineLane, exception]

/-- Skipping the exceptions of a written window ends after their terminator. -/
theorem skipGenLinePairs_lane (bytes lane : List UInt8) (ds : List Delta) :
    ∀ k pos pairs, k + ds.length ≤ 64 → pairs + ds.length ≤ 63 →
      HoldsAt bytes pos (genLineLane k ds ++ (0xFF :: lane)) →
      WindowReader.skipGenLinePairs bytes pos pairs =
        some (pos + (genLineLane k ds ++ [0xFF]).length) := by
  induction ds with
  | nil =>
      intro k pos pairs room budget here
      rw [WindowReader.skipGenLinePairs, HoldsAt.getElem? (by simpa [genLineLane] using here)]
      rfl
  | cons delta ds ih =>
      intro k pos pairs room budget here
      rw [List.length_cons] at room budget
      cases exception : delta.isException with
      | false =>
          rw [genLineLane, exception] at here ⊢
          exact ih (k + 1) pos pairs (by omega) (by omega) here
      | true =>
          rw [genLineLane, exception, if_pos rfl] at here ⊢
          simp only [List.cons_append, List.append_assoc] at here ⊢
          have notEnd : UInt8.ofNat k ≠ 0xFF := by
            intro same
            have value := congrArg UInt8.toNat same
            rw [UInt8.toNat_ofNat'] at value
            have limit : (0xFF : UInt8).toNat = 255 := rfl
            omega
          have body := here.tail
          have left : pairs < syncInterval - 1 := by
            simp only [syncInterval]
            omega
          rw [WindowReader.skipGenLinePairs, here.getElem?]
          dsimp only
          rw [if_neg notEnd, if_pos left, body.readVarint]
          dsimp only
          rw [ih (k + 1) _ (pairs + 1) (by omega) (by omega) body.skip]
          simp only [List.length_cons, List.length_append]
          congr 1
          omega

theorem encodeWindow_extends (first : State) (rest : List State) (full : rest.length ≤ 63) :
    Lanes.empty.Extends (Lanes.empty.pushAll 0 first rest) 0 (deltas first rest) := by
  apply Lanes.pushAll_extends
  · constructor <;> rfl
  · omega

theorem flatMap_length_le {α : Type} (items : List α) (encode : α → List UInt8) (bound : Nat)
    (bounded : ∀ item ∈ items, (encode item).length ≤ bound) :
    (items.flatMap encode).length ≤ items.length * bound := by
  induction items with
  | nil => simp
  | cons item items ih =>
      have here := bounded item List.mem_cons_self
      have later := ih fun later member => bounded later (List.mem_cons_of_mem _ member)
      rw [List.flatMap_cons, List.length_append, List.length_cons, Nat.succ_mul]
      omega

theorem maskReads_of_extends {mask : List UInt8} {ds : List Delta} {property : Delta → Bool}
    (written : MaskExtends (List.replicate 8 0) mask 0 ds property) :
    MaskReads (LittleEndian.ofBytes mask) 0 ds property := by
  intro index delta found
  rw [testBit_eq, Nat.zero_add, written.2 index, LittleEndian.testBit_ofBytes_replicate_zero]
  simp [found]

theorem HoldsAt.slice? {bytes middle lane : List UInt8} {pos : Nat}
    (here : HoldsAt bytes pos (middle ++ lane)) (nonempty : middle ≠ []) :
    LittleEndian.slice? bytes pos middle.length = some middle := by
  obtain ⟨tail, dropped⟩ := here
  rw [List.append_assoc] at dropped
  have lengths := congrArg List.length dropped
  rw [List.length_drop, List.length_append] at lengths
  have positive : 0 < middle.length := List.length_pos_iff.mpr nonempty
  rw [LittleEndian.slice?_of_le (by omega), dropped, List.take_left]

theorem ofBytes_fixed (n : Nat) (flags : UInt8) (genCol origLine origCol : Nat)
    (small : n < 256) (genColSmall : genCol < 65536) (origLineSmall : origLine < 65536)
    (origColSmall : origCol < 65536) :
    LittleEndian.ofBytes ([UInt8.ofNat n, flags] ++ (LittleEndian.toBytes 2 genCol ++
        (LittleEndian.toBytes 2 origLine ++ LittleEndian.toBytes 2 origCol))) =
      n + 2 ^ 8 * flags.toNat + 2 ^ 16 * genCol + 2 ^ 32 * origLine + 2 ^ 48 * origCol := by
  simp only [LittleEndian.ofBytes_append, LittleEndian.toBytes_length,
    LittleEndian.ofBytes_toBytes 2 genCol genColSmall,
    LittleEndian.ofBytes_toBytes 2 origLine origLineSmall,
    LittleEndian.ofBytes_toBytes 2 origCol origColSmall, LittleEndian.ofBytes,
    List.length_cons, List.length_nil, UInt8.toNat_ofNat']
  omega

theorem lenAt_eq (fixed offset : Nat) :
    WindowReader.lenAt fixed offset = fixed / 2 ^ (8 * offset) % 65536 := by
  rw [WindowReader.lenAt, Nat.shiftRight_eq_div_pow, show (0xffff : Nat) = 2 ^ 16 - 1 from rfl,
    Nat.and_two_pow_sub_one_eq_mod]

/-- What `parse` gets out of the fixed header. -/
theorem header_reads (lanes : Lanes) (n : Nat) (wide : lanes.MasksWide) :
    (lanes.header n).length = 32 ∧
    readU64Le (lanes.header n) 0 = some (LittleEndian.ofBytes ([UInt8.ofNat n, lanes.flags] ++
      (LittleEndian.toBytes 2 lanes.genCol.length ++
        (LittleEndian.toBytes 2 lanes.origLine.length ++
          LittleEndian.toBytes 2 lanes.origCol.length)))) ∧
    readU64Le (lanes.header n) WinHdr.genLineMaskOff =
      some (LittleEndian.ofBytes lanes.genLineMask) ∧
    readU64Le (lanes.header n) WinHdr.origLineEqMaskOff =
      some (LittleEndian.ofBytes lanes.origLineEqMask) ∧
    readU64Le (lanes.header n) WinHdr.origColEqMaskOff =
      some (LittleEndian.ofBytes lanes.origColEqMask) := by
  rcases wide with ⟨genLine, origLine, origCol, -⟩
  unfold Lanes.header
  generalize fixedEq : [UInt8.ofNat n, lanes.flags] ++ (LittleEndian.toBytes 2 lanes.genCol.length ++
    (LittleEndian.toBytes 2 lanes.origLine.length ++
      LittleEndian.toBytes 2 lanes.origCol.length)) = fixed
  have fixedLength : fixed.length = 8 := by
    rw [← fixedEq]
    simp
  have readAt : ∀ before middle after : List UInt8, middle.length = 8 →
      readU64Le (before ++ (middle ++ after)) before.length = some (LittleEndian.ofBytes middle) := by
    intro before middle after eight
    have read := LittleEndian.slice?_middle before middle after
    rw [eight] at read
    rw [readU64Le, read]
    rfl
  refine ⟨by simp [fixedLength, genLine, origLine, origCol], ?_, ?_, ?_, ?_⟩
  · exact readAt [] fixed _ fixedLength
  · have read := readAt fixed lanes.genLineMask (lanes.origLineEqMask ++ lanes.origColEqMask) genLine
    rwa [fixedLength] at read
  · have read := readAt (fixed ++ lanes.genLineMask) lanes.origLineEqMask lanes.origColEqMask
      origLine
    rwa [List.length_append, fixedLength, genLine, List.append_assoc] at read
  · have read := readAt (fixed ++ (lanes.genLineMask ++ lanes.origLineEqMask)) lanes.origColEqMask
      [] origCol
    rwa [List.length_append, List.length_append, fixedLength, genLine, origLine, List.append_assoc,
      List.append_assoc, List.append_nil] at read

theorem parseFlaggedSections_reads {reader : WindowReader} {pos : Nat} {ds : List Delta}
    {lanes : Lanes} (full : ds.length ≤ 63) (written : Lanes.empty.Extends lanes 0 ds)
    (wide : lanes.MasksWide) (flags : reader.flags = lanes.flags) (unset : reader.genLineExcNextIdx = 0xFF)
    (flagged : reader.flags ≠ 0)
    (here : HoldsAt reader.bytes pos (lanes.genLineSection ++ lanes.srcIdxSection)) :
    ∃ excPos next mask srcPos,
      reader.parseFlaggedSections reader.bytes pos =
        (some (), { reader with
          genLineExcPos := excPos
          genLineExcNextIdx := next
          srcIdxEqMask := mask
          srcIdxExcPos := srcPos }) ∧
      GenLineReads { reader with
          genLineExcPos := excPos
          genLineExcNextIdx := next
          srcIdxEqMask := mask
          srcIdxExcPos := srcPos } 0 ds ∧
      SrcIdxReads { reader with
          genLineExcPos := excPos
          genLineExcNextIdx := next
          srcIdxEqMask := mask
          srcIdxExcPos := srcPos } 0 ds := by
  have flagsEq : lanes.flags = windowFlags ds := by
    rw [written.flags]
    simp [Lanes.empty]
  have laneEq : lanes.genLine = genLineLane 0 ds := written.genLine
  have srcLaneEq : lanes.srcIdx = srcIdxLane ds := written.srcIdx
  have exceptionFlag : reader.hasFlag flagHasGenLineExceptions = ds.any Delta.isException := by
    rw [WindowReader.hasFlag, flags, flagsEq]
    exact flagsOf_exceptions _ _
  have sourceFlag : reader.hasFlag flagHasSrcIdx = ds.any fun delta => delta.srcIdx ≠ 0 := by
    rw [WindowReader.hasFlag, flags, flagsEq]
    exact flagsOf_sources _ _
  -- The exception section, then the source section from wherever the first one ends.
  have exceptions : ∃ excPos next after,
      reader.parseGenLineExceptions reader.bytes pos =
        (some after, { reader with genLineExcPos := excPos, genLineExcNextIdx := next }) ∧
      GenLineReads { reader with genLineExcPos := excPos, genLineExcNextIdx := next } 0 ds ∧
      HoldsAt reader.bytes after lanes.srcIdxSection := by
    unfold WindowReader.parseGenLineExceptions
    cases any : ds.any Delta.isException with
    | false =>
        have noLane : genLineLane 0 ds = [] := (genLineLane_eq_nil_iff ds 0).mpr any
        refine ⟨reader.genLineExcPos, reader.genLineExcNextIdx, pos, ?_, ?_, ?_⟩
        · rw [exceptionFlag, any]
          rfl
        · constructor
          · rw [noLane]
            exact unset
          · intro lane
            exact absurd noLane lane
        · have noSection : lanes.genLineSection = [] := by
            have noFlag : ¬(lanes.flags &&& flagHasGenLineExceptions ≠ 0) := by
              have bit := exceptionFlag
              rw [any, WindowReader.hasFlag, flags] at bit
              simpa using bit
            rw [Lanes.genLineSection, if_neg noFlag, laneEq, noLane]
          rw [noSection] at here
          exact here
    | true =>
        have sectionEq : lanes.genLineSection = genLineLane 0 ds ++ [0xFF] := by
          have hasFlag : lanes.flags &&& flagHasGenLineExceptions ≠ 0 := by
            have bit := exceptionFlag
            rw [any, WindowReader.hasFlag, flags] at bit
            simpa using bit
          rw [Lanes.genLineSection, if_pos hasFlag, laneEq]
        rw [sectionEq] at here
        have front : HoldsAt reader.bytes pos (genLineLane 0 ds ++ [0xFF]) := here.front
        obtain ⟨byte, lane, laneCons⟩ : ∃ byte lane, genLineLane 0 ds ++ [0xFF] = byte :: lane :=
          List.exists_cons_of_ne_nil (by simp)
        have firstByte : HoldsAt reader.bytes pos (byte :: lane) := by rwa [laneCons] at front
        have skipped := skipGenLinePairs_lane reader.bytes lanes.srcIdxSection ds 0 pos 0
          (by omega) (by omega) (by simpa using here)
        refine ⟨pos, byte, pos + (genLineLane 0 ds ++ [0xFF]).length, ?_, ?_, here.skip⟩
        · rw [exceptionFlag, any]
          dsimp only [if_true]
          rw [if_pos rfl, firstByte.getElem?]
          dsimp only
          rw [skipped]
        · constructor
          · rw [laneCons]
            rfl
          · intro _
            exact ⟨flagged, front⟩
  obtain ⟨excPos, next, after, parsed, genLineReads, srcHere⟩ := exceptions
  unfold WindowReader.parseFlaggedSections
  rw [parsed]
  dsimp only
  cases any : ds.any fun delta => decide (delta.srcIdx ≠ 0) with
  | false =>
      have noFlag : WindowReader.hasFlag
          { reader with genLineExcPos := excPos, genLineExcNextIdx := next } flagHasSrcIdx = false :=
        sourceFlag.trans any
      refine ⟨excPos, next, reader.srcIdxEqMask, reader.srcIdxExcPos, ?_,
        ⟨genLineReads.next, genLineReads.lane⟩, ?_, ?_⟩
      · rw [noFlag]
        rfl
      · intro flagged
        exact absurd (flagged.symm.trans noFlag) (by decide)
      · intro _ delta member
        simpa using List.any_eq_false.mp any delta member
  | true =>
      have hasFlag : WindowReader.hasFlag
          { reader with genLineExcPos := excPos, genLineExcNextIdx := next } flagHasSrcIdx = true :=
        sourceFlag.trans any
      have sectionEq : lanes.srcIdxSection = lanes.srcIdxMask ++ srcIdxLane ds := by
        have bit : lanes.flags &&& flagHasSrcIdx ≠ 0 := by
          have flag := sourceFlag.trans any
          rw [WindowReader.hasFlag, flags] at flag
          simpa using flag
        rw [Lanes.srcIdxSection, if_pos bit, srcLaneEq]
      rw [sectionEq] at srcHere
      have maskRead : readU64Le reader.bytes after = some (LittleEndian.ofBytes lanes.srcIdxMask) := by
        have slice := srcHere.slice? (by
          intro empty
          have eight := wide.srcIdxMask
          rw [empty] at eight
          cases eight)
        rw [wide.srcIdxMask] at slice
        rw [readU64Le, slice]
        rfl
      have lane := srcHere.skip
      rw [wide.srcIdxMask] at lane
      refine ⟨excPos, next, LittleEndian.ofBytes lanes.srcIdxMask, after + 8, ?_,
        ⟨genLineReads.next, genLineReads.lane⟩, ?_, ?_⟩
      · rw [hasFlag, if_pos rfl]
        simp only [maskRead]
      · intro _
        exact ⟨maskReads_of_extends written.srcIdxMask, lane⟩
      · intro plain
        exact absurd (plain.symm.trans hasFlag) (by decide)

/-- The end of `parse`, with or without flagged sections. -/
theorem parseSections_reads (count : Nat) (reader : WindowReader) {pos : Nat} {ds : List Delta}
    {lanes : Lanes} (full : ds.length ≤ 63) (written : Lanes.empty.Extends lanes 0 ds)
    (wide : lanes.MasksWide) (flags : reader.flags = lanes.flags)
    (unset : reader.genLineExcNextIdx = 0xFF)
    (here : HoldsAt reader.bytes pos (lanes.genLineSection ++ lanes.srcIdxSection)) :
    ∃ excPos next mask srcPos,
      (if reader.flags ≠ 0 then
        match reader.parseFlaggedSections reader.bytes pos with
        | (none, self) => (none, self)
        | (some (), self) => (some (), { self with count := count })
      else (some (), { reader with count := count })) =
        (some (), { reader with
          genLineExcPos := excPos
          genLineExcNextIdx := next
          srcIdxEqMask := mask
          srcIdxExcPos := srcPos
          count := count }) ∧
      GenLineReads { reader with
          genLineExcPos := excPos
          genLineExcNextIdx := next
          srcIdxEqMask := mask
          srcIdxExcPos := srcPos
          count := count } 0 ds ∧
      SrcIdxReads { reader with
          genLineExcPos := excPos
          genLineExcNextIdx := next
          srcIdxEqMask := mask
          srcIdxExcPos := srcPos
          count := count } 0 ds := by
  by_cases flagged : reader.flags = 0
  · have noFlags : flagsOf (ds.any Delta.isException) (ds.any fun delta => delta.srcIdx ≠ 0) = 0 := by
      have eq := written.flags
      rw [← flags, flagged] at eq
      simpa [Lanes.empty, windowFlags] using eq.symm
    have noException : ds.any Delta.isException = false := by
      have bit := flagsOf_exceptions (ds.any Delta.isException)
        (ds.any fun delta => delta.srcIdx ≠ 0)
      rw [noFlags] at bit
      exact bit.symm
    have noSource : (ds.any fun delta => delta.srcIdx ≠ 0) = false := by
      have bit := flagsOf_sources (ds.any Delta.isException)
        (ds.any fun delta => delta.srcIdx ≠ 0)
      rw [noFlags] at bit
      exact bit.symm
    have noLane := (genLineLane_eq_nil_iff ds 0).mpr noException
    refine ⟨reader.genLineExcPos, reader.genLineExcNextIdx, reader.srcIdxEqMask,
      reader.srcIdxExcPos, by rw [if_neg (by simpa using flagged)], ?_, ?_⟩
    · constructor
      · rw [noLane]
        exact unset
      · intro lane
        exact absurd noLane lane
    · constructor
      · intro hasFlag
        simp [WindowReader.hasFlag, flagged] at hasFlag
      · intro _ delta member
        simpa using List.any_eq_false.mp noSource delta member
  · obtain ⟨excPos, next, mask, srcPos, parsed, genLine, srcIdx⟩ :=
      parseFlaggedSections_reads full written wide flags unset flagged here
    refine ⟨excPos, next, mask, srcPos, ?_, ⟨genLine.next, genLine.lane⟩,
      ⟨srcIdx.flagged, srcIdx.plain⟩⟩
    rw [if_pos (by simpa using flagged), parsed]

theorem Lanes.Extends.masksWide {lanes : Lanes} {k : Nat} {ds : List Delta}
    (written : Lanes.empty.Extends lanes k ds) : lanes.MasksWide := by
  constructor
  · exact written.genLineMask.1
  · exact written.origLineEqMask.1
  · exact written.origColEqMask.1
  · exact written.srcIdxMask.1

/-- A varint lane of at most sixty-three values fits its sixteen-bit length. -/
theorem Lanes.Extends.lengths {lanes : Lanes} {ds : List Delta} (full : ds.length ≤ 63)
    (written : Lanes.empty.Extends lanes 0 ds) :
    lanes.genCol.length < 65536 ∧ lanes.origLine.length < 65536 ∧ lanes.origCol.length < 65536 := by
  have genCol := flatMap_length_le ds (fun delta => writeVarint delta.genCol) maxVarintLen
    fun delta _ => writeVarint_length_le delta.genCol
  have origLine := flatMap_length_le ds
    (fun delta => if delta.origLine = delta.genLine then [] else writeVarint delta.origLine)
    maxVarintLen (by
      intro delta _
      split
      · exact Nat.zero_le _
      · exact writeVarint_length_le delta.origLine)
  have origCol := flatMap_length_le ds
    (fun delta => if delta.origCol = delta.genCol then [] else writeVarint delta.origCol)
    maxVarintLen (by
      intro delta _
      split
      · exact Nat.zero_le _
      · exact writeVarint_length_le delta.origCol)
  rw [written.genCol, written.origLine, written.origCol]
  simp only [maxVarintLen] at genCol origLine origCol
  simp only [Lanes.empty, List.nil_append, genColLane, origLineLane, origColLane]
  omega

/-- Parsing where a window was written gives a reader over its deltas. -/
theorem parse_encodeWindow (self : WindowReader) (bytes : List UInt8) (start : Nat)
    (first : State) (rest : List State) (full : rest.length ≤ 63)
    (here : HoldsAt bytes start (encodeWindow first rest)) :
    ∃ reader, self.parse bytes start = (some (), reader) ∧ Reads reader 0 (deltas first rest) := by
  have written := encodeWindow_extends first rest full
  unfold encodeWindow Lanes.toWindow at here
  generalize Lanes.empty.pushAll 0 first rest = lanes at written here
  have countEq : (deltas first rest).length = rest.length := deltas_length first rest
  generalize deltas first rest = ds at written countEq ⊢
  have wide := written.masksWide
  obtain ⟨genColSmall, origLineSmall, origColSmall⟩ := written.lengths (by omega)
  obtain ⟨headerLength, fixedRead, genLineRead, origLineRead, origColRead⟩ :=
    header_reads lanes (rest.length + 1) wide
  have fixedValue := ofBytes_fixed (rest.length + 1) lanes.flags lanes.genCol.length
    lanes.origLine.length lanes.origCol.length (by omega) genColSmall origLineSmall origColSmall
  have headerRead := here.slice? (by
    intro empty
    rw [empty] at headerLength
    cases headerLength)
  rw [headerLength] at headerRead
  have genColHere := here.skip
  rw [headerLength] at genColHere
  have origLineHere := genColHere.skip
  have origColHere := origLineHere.skip
  have sectionsHere := origColHere.skip
  generalize LittleEndian.ofBytes _ = fixed at fixedRead fixedValue
  have flagsBound := lanes.flags.toNat_lt
  have flagsEq : UInt8.ofNat (fixed >>> (8 * WinHdr.flagsOff)) = lanes.flags := by
    apply UInt8.toNat_inj.mp
    rw [UInt8.toNat_ofNat', Nat.shiftRight_eq_div_pow]
    simp only [WinHdr.flagsOff]
    omega
  have countValue : min (UInt8.ofNat (fixed >>> (8 * WinHdr.countOff))).toNat syncInterval =
      0 + ds.length + 1 := by
    rw [UInt8.toNat_ofNat', Nat.shiftRight_eq_div_pow]
    simp only [WinHdr.countOff, syncInterval]
    omega
  have genColLen : WindowReader.lenAt fixed WinHdr.genColLenOff = lanes.genCol.length := by
    rw [lenAt_eq]
    simp only [WinHdr.genColLenOff]
    omega
  have origLineLen : WindowReader.lenAt fixed WinHdr.origLineLenOff = lanes.origLine.length := by
    rw [lenAt_eq]
    simp only [WinHdr.origLineLenOff]
    omega
  have origColLen : WindowReader.lenAt fixed WinHdr.origColLenOff = lanes.origCol.length := by
    rw [lenAt_eq]
    simp only [WinHdr.origColLenOff]
    omega
  have genColLaneEq : lanes.genCol = genColLane ds := written.genCol
  have origLineLaneEq : lanes.origLine = origLineLane ds := written.origLine
  have origColLaneEq : lanes.origCol = origColLane ds := written.origCol
  obtain ⟨excPos, next, mask, srcPos, parsed, genLine, srcIdx⟩ :=
    parseSections_reads (0 + ds.length + 1)
      { self with
        deltaIdx := 0
        bytes := bytes
        genColPos := start + 32
        origLineExcPos := start + 32 + lanes.genCol.length
        origColExcPos := start + 32 + lanes.genCol.length + lanes.origLine.length
        genLineMask := LittleEndian.ofBytes lanes.genLineMask
        origLineEqMask := LittleEndian.ofBytes lanes.origLineEqMask
        origColEqMask := LittleEndian.ofBytes lanes.origColEqMask
        flags := lanes.flags
        genLineExcNextIdx := 0xFF
        count := 0 }
      (by omega) written wide rfl rfl sectionsHere
  unfold WindowReader.parse
  simp only [WinHdr.genColLaneOff, headerRead, fixedRead, genLineRead, origLineRead, origColRead,
    flagsEq, countValue, genColLen, origLineLen, origColLen]
  refine ⟨_, parsed, ?_⟩
  constructor
  case deltaIdx => rfl
  case count => rfl
  case room => omega
  case genCol =>
    rw [← genColLaneEq]
    exact genColHere.front
  case origLine =>
    rw [← origLineLaneEq]
    exact origLineHere.front
  case origCol =>
    rw [← origColLaneEq]
    exact origColHere.front
  case genLineMask => exact maskReads_of_extends written.genLineMask
  case origLineEqMask => exact maskReads_of_extends written.origLineEqMask
  case origColEqMask => exact maskReads_of_extends written.origColEqMask
  case genLine => exact genLine
  case srcIdx => exact srcIdx

end Bun.SourceMap.InternalSourceMap
