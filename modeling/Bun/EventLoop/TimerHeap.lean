/-
The order of pending timers in `EventLoopTimer.rs`.

Timers of JavaScript are compared by the millisecond and then by the epoch, all others by
the nanosecond.  A timer that is none of JavaScript and due exactly at the start of a
millisecond ties with every JavaScript timer of that millisecond, whatever their epochs.
-/

import Mathlib.Tactic.Linarith
import Bun.Io.HeapRuns

set_option autoImplicit false

namespace Bun.EventLoop

open Bun.Foundation Bun.Io

structure Timespec where
  sec : Int
  nsec : Int
deriving DecidableEq, Repr

def epochBits : Nat := 25

/-- A timer with what `less` reads of it.  The epoch is there for the timers of JavaScript,
and is masked to 25 bits whenever it is read or written.  The address tells timers apart. -/
structure EventLoopTimer where
  address : Nat
  next : Timespec
  jsTimerEpoch : Option (Fin (2 ^ epochBits))
deriving DecidableEq, Repr

def nsPerMs : Int := 1000000

namespace EventLoopTimer

/-- The nanoseconds that are compared: whole milliseconds for the timers of JavaScript. -/
def comparedNs (timer : EventLoopTimer) : Int :=
  if timer.jsTimerEpoch.isSome then nsPerMs * timer.next.nsec.tdiv nsPerMs
  else timer.next.nsec

def u25Max : Nat := 2 ^ epochBits - 1

def epochDistance (a b : Fin (2 ^ epochBits)) : Nat :=
  (b - a).val

def less (a b : EventLoopTimer) : Bool :=
  if a.next.sec ≠ b.next.sec then decide (a.next.sec < b.next.sec)
  else
    match compare a.comparedNs b.comparedNs, a.jsTimerEpoch, b.jsTimerEpoch with
    | .eq, some aEpoch, some bEpoch => decide (epochDistance aEpoch bEpoch < u25Max / 2)
    | order, _, _ => order == .lt

def SameDeadline (a b : EventLoopTimer) : Prop :=
  a.next.sec = b.next.sec ∧ a.comparedNs = b.comparedNs

instance (a b : EventLoopTimer) : Decidable (SameDeadline a b) :=
  inferInstanceAs (Decidable (_ ∧ _))

def Earlier (a b : EventLoopTimer) : Prop :=
  a.next.sec < b.next.sec ∨ a.next.sec = b.next.sec ∧ a.comparedNs < b.comparedNs

/-! ### The comparison -/

theorem less_of_earlier {a b : EventLoopTimer} (earlier : Earlier a b) : less a b = true := by
  rcases earlier with sooner | ⟨sameSec, sooner⟩
  · simp [less, sooner, sooner.ne]
  · have order : compare a.comparedNs b.comparedNs = .lt := compare_lt_iff_lt.mpr sooner
    simp [less, sameSec, order]

theorem not_less_of_later {a b : EventLoopTimer} (later : Earlier b a) : less a b = false := by
  rcases later with sooner | ⟨sameSec, sooner⟩
  · simp [less, sooner.ne', Int.le_of_lt sooner]
  · have order : compare a.comparedNs b.comparedNs = .gt := compare_gt_iff_gt.mpr sooner
    simp [less, sameSec, order]

/-- At one deadline only two timers of JavaScript are told apart, by their epochs. -/
theorem less_of_sameDeadline {a b : EventLoopTimer} (same : SameDeadline a b) :
    less a b = true ↔ ∃ aEpoch bEpoch, a.jsTimerEpoch = some aEpoch ∧
      b.jsTimerEpoch = some bEpoch ∧ epochDistance aEpoch bEpoch < u25Max / 2 := by
  have order : compare a.comparedNs b.comparedNs = .eq := compare_eq_iff_eq.mpr same.2
  unfold less
  rw [if_neg (not_not_intro same.1), order]
  cases a.jsTimerEpoch with
  | none => simp
  | some aEpoch =>
      cases b.jsTimerEpoch with
      | none => simp
      | some bEpoch => simp

theorem trichotomy (a b : EventLoopTimer) : Earlier a b ∨ SameDeadline a b ∨ Earlier b a := by
  unfold Earlier SameDeadline
  omega

theorem sameDeadline_or_earlier {a b : EventLoopTimer} (notLess : less b a = false) :
    SameDeadline a b ∨ Earlier a b := by
  rcases trichotomy a b with earlier | same | later
  · exact Or.inr earlier
  · exact Or.inl same
  · rw [less_of_earlier later] at notLess
    cases notLess

/-! ### Epochs -/

/-- Going on from a third epoch, the distances add up, with or without a whole turn. -/
theorem epochDistance_add (base a b : Fin (2 ^ epochBits)) :
    epochDistance base a + epochDistance a b = epochDistance base b ∨
      epochDistance base a + epochDistance a b = epochDistance base b + 2 ^ 25 := by
  have distance (x y : Fin (2 ^ epochBits)) :
      epochDistance x y = (2 ^ 25 - x.val + y.val) % 2 ^ 25 := rfl
  have baseLt : base.val < 2 ^ 25 := base.isLt
  have aLt : a.val < 2 ^ 25 := a.isLt
  have bLt : b.val < 2 ^ 25 := b.isLt
  rw [distance base a, distance a b, distance base b]
  omega

theorem epochDistance_lt (a b : Fin (2 ^ epochBits)) : epochDistance a b < 2 ^ 25 :=
  (b - a).isLt

theorem epochDistance_self (a : Fin (2 ^ epochBits)) : epochDistance a a = 0 := by
  simp [epochDistance]

def EpochBefore (a b : Fin (2 ^ epochBits)) : Prop :=
  0 < epochDistance a b ∧ epochDistance a b < 2 ^ 24

def WithinHalf (timers : List EventLoopTimer) : Prop :=
  ∃ base, ∀ timer ∈ timers, ∀ epoch, timer.jsTimerEpoch = some epoch →
    epochDistance base epoch < 2 ^ 24

/-- Timers that `less` puts in one order. -/
structure Unambiguous (timers : List EventLoopTimer) : Prop where
  withinHalf : WithinHalf timers
  /-- at one deadline, epochs neither coincide nor lie as far apart as `less` never orders -/
  epochs_apart : ∀ a ∈ timers, ∀ b ∈ timers, a ≠ b → SameDeadline a b →
    ∀ aEpoch bEpoch, a.jsTimerEpoch = some aEpoch → b.jsTimerEpoch = some bEpoch →
      epochDistance aEpoch bEpoch ≠ 0 ∧ epochDistance aEpoch bEpoch ≠ 2 ^ 24 - 1
  /-- no other timer is due exactly at the millisecond of two timers of JavaScript -/
  ties_once : ∀ other ∈ timers, other.jsTimerEpoch = none → ∀ a ∈ timers, ∀ b ∈ timers,
    a ≠ b → a.jsTimerEpoch.isSome → b.jsTimerEpoch.isSome →
      SameDeadline other a → ¬ SameDeadline other b

theorem SameDeadline.symm {a b : EventLoopTimer} (same : SameDeadline a b) :
    SameDeadline b a :=
  ⟨same.1.symm, same.2.symm⟩

theorem SameDeadline.trans {a b c : EventLoopTimer} (same : SameDeadline a b)
    (also : SameDeadline b c) : SameDeadline a c :=
  ⟨same.1.trans also.1, same.2.trans also.2⟩

variable {timers : List EventLoopTimer}

theorem epochBefore_of_not_less (unambiguous : Unambiguous timers) {a b : EventLoopTimer}
    (aIn : a ∈ timers) (bIn : b ∈ timers) (different : a ≠ b) (same : SameDeadline a b)
    {aEpoch bEpoch : Fin (2 ^ epochBits)} (aJs : a.jsTimerEpoch = some aEpoch)
    (bJs : b.jsTimerEpoch = some bEpoch) (notLess : less b a = false) :
    EpochBefore aEpoch bEpoch := by
  obtain ⟨base, near⟩ := unambiguous.withinHalf
  have apart := unambiguous.epochs_apart a aIn b bIn different same aEpoch bEpoch aJs bJs
  have apartBack := unambiguous.epochs_apart b bIn a aIn different.symm same.symm bEpoch aEpoch
    bJs aJs
  have aNear := near a aIn aEpoch aJs
  have bNear := near b bIn bEpoch bJs
  have far : ¬ epochDistance bEpoch aEpoch < u25Max / 2 := by
    intro close
    have lesser := (less_of_sameDeadline same.symm).mpr ⟨bEpoch, aEpoch, bJs, aJs, close⟩
    rw [notLess] at lesser
    cases lesser
  have forth := epochDistance_add base aEpoch bEpoch
  have back := epochDistance_add base bEpoch aEpoch
  have forthLt := epochDistance_lt aEpoch bEpoch
  have backLt := epochDistance_lt bEpoch aEpoch
  unfold EpochBefore
  simp only [u25Max, epochBits] at far
  omega

theorem less_iff_epochBefore (unambiguous : Unambiguous timers) {a b : EventLoopTimer}
    (aIn : a ∈ timers) (bIn : b ∈ timers) (different : a ≠ b) (same : SameDeadline a b)
    {aEpoch bEpoch : Fin (2 ^ epochBits)} (aJs : a.jsTimerEpoch = some aEpoch)
    (bJs : b.jsTimerEpoch = some bEpoch) :
    less a b = true ↔ EpochBefore aEpoch bEpoch := by
  have apart := unambiguous.epochs_apart a aIn b bIn different same aEpoch bEpoch aJs bJs
  rw [less_of_sameDeadline same]
  unfold EpochBefore
  constructor
  · rintro ⟨aOther, bOther, aSame, bSame, close⟩
    obtain rfl := Option.some.inj (aJs.symm.trans aSame)
    obtain rfl := Option.some.inj (bJs.symm.trans bSame)
    simp only [u25Max, epochBits] at close
    omega
  · rintro ⟨_, close⟩
    refine ⟨aEpoch, bEpoch, aJs, bJs, ?_⟩
    simp only [u25Max, epochBits]
    omega

theorem ordersOn_of_unambiguous (unambiguous : Unambiguous timers) :
    OrdersOn less timers where
  asymm a aIn b bIn different lesser := by
    rcases trichotomy a b with earlier | same | later
    · exact not_less_of_later earlier
    · refine Bool.eq_false_iff.mpr fun greater => ?_
      obtain ⟨aEpoch, bEpoch, aJs, bJs, _⟩ := (less_of_sameDeadline same).mp lesser
      have forth := (less_iff_epochBefore unambiguous aIn bIn different same aJs bJs).mp lesser
      have back := (less_iff_epochBefore unambiguous bIn aIn different.symm same.symm bJs
        aJs).mp greater
      have turn := epochDistance_add aEpoch bEpoch aEpoch
      rw [epochDistance_self] at turn
      unfold EpochBefore at forth back
      omega
    · exact absurd lesser (Bool.eq_false_iff.mp (not_less_of_later later))
  not_less_trans a aIn b bIn c cIn ab bc ac notBA notCB := by
    rcases sameDeadline_or_earlier notBA with sameAB | earlierAB
    · rcases sameDeadline_or_earlier notCB with sameBC | earlierBC
      · refine Bool.eq_false_iff.mpr fun lesser => ?_
        have sameCA := (sameAB.trans sameBC).symm
        obtain ⟨cEpoch, aEpoch, cJs, aJs, _⟩ := (less_of_sameDeadline sameCA).mp lesser
        cases bJs : b.jsTimerEpoch with
        | none =>
            -- the middle timer would tie with two timers of JavaScript
            exact unambiguous.ties_once b bIn bJs a aIn c cIn ac (by rw [aJs]; rfl)
              (by rw [cJs]; rfl) sameAB.symm sameBC
        | some bEpoch =>
            have first := epochBefore_of_not_less unambiguous aIn bIn ab sameAB aJs bJs notBA
            have second := epochBefore_of_not_less unambiguous bIn cIn bc sameBC bJs cJs notCB
            have third := (less_iff_epochBefore unambiguous cIn aIn ac.symm sameCA cJs aJs).mp
              lesser
            obtain ⟨base, near⟩ := unambiguous.withinHalf
            have aNear := near a aIn aEpoch aJs
            have bNear := near b bIn bEpoch bJs
            have cNear := near c cIn cEpoch cJs
            have distanceAB := epochDistance_add base aEpoch bEpoch
            have distanceBC := epochDistance_add base bEpoch cEpoch
            have distanceCA := epochDistance_add base cEpoch aEpoch
            unfold EpochBefore at first second third
            omega
      · exact not_less_of_later (by unfold Earlier SameDeadline at *; omega)
    · rcases sameDeadline_or_earlier notCB with sameBC | earlierBC
      · exact not_less_of_later (by unfold Earlier SameDeadline at *; omega)
      · exact not_less_of_later (by unfold Earlier at *; omega)

theorem unambiguous_subset {fewer : List EventLoopTimer} (within : fewer ⊆ timers)
    (unambiguous : Unambiguous timers) : Unambiguous fewer where
  withinHalf := by
    obtain ⟨base, near⟩ := unambiguous.withinHalf
    exact ⟨base, fun timer inFewer => near timer (within inFewer)⟩
  epochs_apart a aIn b bIn := unambiguous.epochs_apart a (within aIn) b (within bIn)
  ties_once other otherIn noJs a aIn b bIn :=
    unambiguous.ties_once other (within otherIn) noJs a (within aIn) b (within bIn)

theorem unambiguous_nil : Unambiguous [] where
  withinHalf := ⟨0, fun _ inNone => absurd inNone List.not_mem_nil⟩
  epochs_apart _ inNone := absurd inNone List.not_mem_nil
  ties_once _ inNone := absurd inNone List.not_mem_nil

theorem admitsOrdered_unambiguous : HeapState.AdmitsOrdered Unambiguous less :=
  ⟨unambiguous_nil, fun _ _ => unambiguous_subset, fun _ => ordersOn_of_unambiguous⟩

/-! ### Runs -/

/-- In every state of a run, what `delete_min` takes is not after any timer that stays, and
comes before all those of its millisecond in the order of their epochs. -/
def LeavesInOrder (fuel : Nat) (state : HeapState EventLoopTimer) : Prop :=
  ∀ x next, state.heap.deleteMin less fuel = some (some x, next) →
    ∀ y ∈ state.members.erase x, less y x = false ∧
      ∀ xEpoch yEpoch, x.jsTimerEpoch = some xEpoch → y.jsTimerEpoch = some yEpoch →
        SameDeadline x y → EpochBefore xEpoch yEpoch

/-- As long as the pending timers are unambiguous, timers leave the heap in order. -/
theorem timers_leaveInOrder (ops : List (HeapOp EventLoopTimer)) (fuel : Nat)
    (enough : 4 * ops.length < fuel)
    (allowed : HeapState.AllAllowed Unambiguous less fuel .initial ops) :
    ∃ last, HeapState.run less fuel .initial ops = some last ∧ LeavesInOrder fuel last := by
  obtain ⟨last, runs, sound, unambiguous⟩ :=
    HeapState.run_sound admitsOrdered_unambiguous ops enough allowed
  refine ⟨last, runs, ?_⟩
  intro x next deletes y stays
  obtain ⟨other, deletesPeek⟩ := sound.deletes_least
  have isPeek : last.heap.peek = some x := by
    have samePair := Option.some.inj (deletesPeek.symm.trans deletes)
    exact congrArg Prod.fst samePair
  obtain ⟨xIn, least⟩ := sound.peek_least x isPeek
  obtain ⟨notX, yIn⟩ := (sound.members_nodup.mem_erase_iff).mp stays
  refine ⟨least y yIn notX, ?_⟩
  intro xEpoch yEpoch xJs yJs same
  exact epochBefore_of_not_less unambiguous xIn yIn notX.symm same xJs yJs (least y yIn notX)

/-! ### A tie between two epochs -/

/-- A tick due exactly at five milliseconds, two timeouts of that millisecond, and two earlier
ticks. -/
def tick : EventLoopTimer := ⟨0, ⟨1, 5000000⟩, none⟩
def firstTimeout : EventLoopTimer := ⟨1, ⟨1, 5200000⟩, some 1⟩
def cancelled : EventLoopTimer := ⟨2, ⟨1, 3000000⟩, none⟩
def sooner : EventLoopTimer := ⟨3, ⟨1, 1000000⟩, none⟩
def secondTimeout : EventLoopTimer := ⟨4, ⟨1, 5100000⟩, some 2⟩

def tiedOps : List (HeapOp EventLoopTimer) :=
  [.insert tick, .insert firstTimeout, .insert cancelled, .insert sooner,
    .insert secondTimeout, .remove cancelled, .deleteMin]

theorem withinHalf_tied {timers : List EventLoopTimer}
    (within : timers ⊆ [secondTimeout, sooner, cancelled, firstTimeout, tick]) :
    WithinHalf timers := by
  refine ⟨0, ?_⟩
  intro timer inTimers epoch isJs
  have member := within inTimers
  simp only [List.mem_cons, List.not_mem_nil, or_false] at member
  rcases member with rfl | rfl | rfl | rfl | rfl
  · obtain rfl := Option.some.inj isJs
    decide
  · cases isJs
  · cases isJs
  · obtain rfl := Option.some.inj isJs
    decide
  · cases isJs

theorem tiedOps_allowed : HeapState.AllAllowed WithinHalf less 29 .initial tiedOps := by
  refine ⟨⟨List.not_mem_nil, withinHalf_tied (by decide)⟩, fun s1 h1 => ?_⟩
  have m1 := HeapOp.members_insert h1
  refine ⟨by rw [HeapOp.Allowed, m1]; exact ⟨by decide, withinHalf_tied (by decide)⟩,
    fun s2 h2 => ?_⟩
  have m2 := HeapOp.members_insert h2
  rw [m1] at m2
  refine ⟨by rw [HeapOp.Allowed, m2]; exact ⟨by decide, withinHalf_tied (by decide)⟩,
    fun s3 h3 => ?_⟩
  have m3 := HeapOp.members_insert h3
  rw [m2] at m3
  refine ⟨by rw [HeapOp.Allowed, m3]; exact ⟨by decide, withinHalf_tied (by decide)⟩,
    fun s4 h4 => ?_⟩
  have m4 := HeapOp.members_insert h4
  rw [m3] at m4
  refine ⟨by rw [HeapOp.Allowed, m4]; exact ⟨by decide, withinHalf_tied (by decide)⟩,
    fun s5 h5 => ?_⟩
  have m5 := HeapOp.members_insert h5
  rw [m4] at m5
  refine ⟨by rw [HeapOp.Allowed, m5]; decide, fun s6 h6 => ⟨trivial, fun s7 h7 => trivial⟩⟩

/-- The timeout that was set second leaves while the first one stays: the tick between them
ties with both. -/
theorem secondTimeout_leavesFirst :
    ¬ ∀ (ops : List (HeapOp EventLoopTimer)) (fuel : Nat), 4 * ops.length < fuel →
      HeapState.AllAllowed WithinHalf less fuel .initial ops →
        ∃ last, HeapState.run less fuel .initial ops = some last ∧ LeavesInOrder fuel last := by
  intro claimed
  obtain ⟨last, runs, inOrder⟩ := claimed tiedOps 29 (by decide) tiedOps_allowed
  have evaluated : ((HeapState.run less 29 .initial tiedOps).bind fun state =>
      (state.heap.deleteMin less 29).map fun result => (result.1, state.members)) =
      some (some secondTimeout, [secondTimeout, firstTimeout, tick]) := by
    decide +kernel
  rw [runs, Option.bind_some] at evaluated
  obtain ⟨result, deletes, samePair⟩ := Option.map_eq_some_iff.mp evaluated
  obtain ⟨isSecond, members⟩ := Prod.mk.inj samePair
  have stays : firstTimeout ∈ last.members.erase secondTimeout := by
    rw [members]
    decide
  have notLess := (inOrder secondTimeout result.2 (by rw [← isSecond]; exact deletes)
    firstTimeout stays).1
  exact absurd notLess (by decide)

/-- Without the tick the two timeouts leave as they were set. -/
theorem twoTimeouts_leaveInOrder :
    ∃ last, HeapState.run less 9 .initial [.insert firstTimeout, .insert secondTimeout] =
        some last ∧ LeavesInOrder 9 last := by
  have pair : Unambiguous [secondTimeout, firstTimeout] := by
    refine ⟨withinHalf_tied (by decide), ?_, ?_⟩
    · intro a aIn b bIn different same aEpoch bEpoch aJs bJs
      simp only [List.mem_cons, List.not_mem_nil, or_false] at aIn bIn
      rcases aIn with rfl | rfl <;> rcases bIn with rfl | rfl
      · exact absurd rfl different
      · obtain rfl := Option.some.inj aJs
        obtain rfl := Option.some.inj bJs
        decide
      · obtain rfl := Option.some.inj aJs
        obtain rfl := Option.some.inj bJs
        decide
      · exact absurd rfl different
    · intro other otherIn noJs
      simp only [List.mem_cons, List.not_mem_nil, or_false] at otherIn
      rcases otherIn with rfl | rfl <;> cases noJs
  refine timers_leaveInOrder _ 9 (by decide) ⟨⟨List.not_mem_nil,
    unambiguous_subset (by decide) pair⟩, fun first inserts => ?_⟩
  have firstMembers := HeapOp.members_insert inserts
  refine ⟨?_, fun second _ => trivial⟩
  rw [HeapOp.Allowed, firstMembers]
  exact ⟨by decide, pair⟩

end EventLoopTimer

end Bun.EventLoop
