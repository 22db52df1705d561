/-
The ring buffer of `linear_fifo.rs` is a queue.

A fifo stands for the list of items that lie in its ring from `head` on.  Each operation
keeps that relation while the list changes as a queue does.
-/

import Bun.Collections.LinearFifo

set_option autoImplicit false

namespace Bun.Collections

open Bun.Foundation

namespace Buffer

def limit : Buffer → Nat
  | static size => size
  | dynamic => 2 ^ 63

def Sized : Buffer → Nat → Prop
  | static size, length => length = size
  | dynamic, length => length = 0 ∨ ∃ exponent, exponent ≤ 63 ∧ length = 2 ^ exponent

theorem Sized.le_limit {kind : Buffer} {length : Nat} (sized : kind.Sized length) :
    length ≤ kind.limit := by
  cases kind with
  | static size => exact le_of_eq sized
  | dynamic =>
      rcases sized with rfl | ⟨exponent, small, rfl⟩
      · exact Nat.zero_le _
      · exact Nat.pow_le_pow_right (by decide) small

theorem Sized.limit_lt {kind : Buffer} {length total : Nat} (sized : kind.Sized length)
    (short : length < total) (wide : 2 ^ usizeBits ≤ total) : kind.limit < total := by
  cases kind with
  | static size =>
      obtain rfl : length = size := sized
      exact short
  | dynamic => exact (by decide : 2 ^ 63 < 2 ^ usizeBits).trans_le wide

theorem Sized.powerOfTwo {kind : Buffer} {length : Nat} (sized : kind.Sized length)
    (masks : kind.powersOfTwo = true) (someRoom : 0 < length) :
    ∃ exponent, length = 2 ^ exponent := by
  cases kind with
  | static size =>
      obtain rfl : length = size := sized
      exact ⟨Nat.log2 length, (beq_iff_eq.mp masks).symm⟩
  | dynamic =>
      rcases sized with rfl | ⟨exponent, _, same⟩
      · exact absurd someRoom (Nat.lt_irrefl 0)
      · exact ⟨exponent, same⟩

end Buffer

/-! ### Wrapping -/

theorem checkedSub_of_le {left right : Nat} (le : right ≤ left) :
    checkedSub left right = some (left - right) :=
  if_pos le

theorem and_pred_of_powerOfTwo {length exponent : Nat} (same : length = 2 ^ exponent)
    (index : Nat) : index &&& (length - 1) = index % length := by
  subst same
  exact Nat.and_two_pow_sub_one_eq_mod index exponent

theorem wrapIndex_eq {kind : Buffer} {length : Nat} (sized : kind.Sized length)
    (someRoom : 0 < length) (index : Nat) :
    LinearFifo.wrapIndex kind index length = some (index % length) := by
  unfold LinearFifo.wrapIndex
  by_cases masks : kind.powersOfTwo = true
  · obtain ⟨exponent, same⟩ := sized.powerOfTwo masks someRoom
    rw [if_pos masks, checkedSub_of_le someRoom, Option.map_some, and_pred_of_powerOfTwo same]
  · rw [if_neg masks, checkedRem, if_neg (by omega)]

theorem wrapIndex_zero (kind : Buffer) (index : Nat) :
    LinearFifo.wrapIndex kind index 0 = none := by
  unfold LinearFifo.wrapIndex
  by_cases masks : kind.powersOfTwo = true
  · rw [if_pos masks]
    rfl
  · rw [if_neg masks]
    rfl

theorem checkedNextPowerOfTwo_of_le {size : Nat} (small : size ≤ 2 ^ 63) :
    ∃ exponent, exponent ≤ 63 ∧ size ≤ 2 ^ exponent ∧
      checkedNextPowerOfTwo size = some (2 ^ exponent) := by
  have bounded : Nat.clog 2 size ≤ 63 := Nat.clog_le_of_le_pow small
  refine ⟨Nat.clog 2 size, bounded, Nat.le_pow_clog (by decide) size, if_pos ?_⟩
  exact Nat.pow_lt_pow_right (by decide) (Nat.lt_succ_of_le bounded)

theorem checkedNextPowerOfTwo_of_lt {size : Nat} (large : 2 ^ 63 < size) :
    checkedNextPowerOfTwo size = none := by
  have reached := Nat.le_pow_clog (b := 2) (by decide) size
  refine if_neg ?_
  intro small
  have exponent : Nat.clog 2 size < usizeBits := (Nat.pow_lt_pow_iff_right (by decide)).mp small
  have bounded := Nat.pow_le_pow_right (n := 2) (by decide) (Nat.le_of_lt_succ exponent)
  exact absurd (large.trans_le (reached.trans bounded)) (Nat.lt_irrefl _)

/-! ### Cells -/

section Cells

variable {T : Type} {buf : List (Option T)}

theorem readAt_of_fits {start count : Nat} (fits : start + count ≤ buf.length) :
    readAt buf start count = some ((buf.drop start).take count) :=
  if_pos fits

theorem writeAt_of_fits {start : Nat} {new : List (Option T)}
    (fits : start + new.length ≤ buf.length) :
    writeAt buf start new = some (overwrite buf start new) :=
  if_pos fits

theorem subslice_of_fits {start stop : Nat} (ordered : start ≤ stop) (fits : stop ≤ buf.length) :
    subslice buf start stop = some ⟨start, stop⟩ :=
  if_pos ⟨ordered, fits⟩

theorem readAt_of_lies {start : Nat} {items : List T} (inPlace : Lies buf start items)
    (fits : start + items.length ≤ buf.length) :
    readAt buf start items.length = some (items.map some) := by
  rw [readAt_of_fits fits, inPlace.take_drop fits]

theorem mapM_id_some (items : List T) : (items.map some).mapM id = some items := by
  induction items with
  | nil => rfl
  | cons item rest ih => rw [List.map_cons, List.mapM_cons, ih]; rfl

end Cells

/-! ### Fifos that stand for a queue -/

namespace LinearFifo

variable {T : Type} {kind : Buffer} {fifo : LinearFifo T} {queue : List T}

/-- The fifo's items, from the next one to read on, are the queue. -/
structure Represents (kind : Buffer) (fifo : LinearFifo T) (queue : List T) : Prop where
  sized : kind.Sized fifo.bufLen
  count_eq : fifo.count = queue.length
  count_le : fifo.count ≤ fifo.bufLen
  head_in : fifo.head < fifo.bufLen ∨ fifo.bufLen = 0 ∧ fifo.head = 0
  lies : Lies fifo.buf fifo.head queue

theorem init_represents (kind : Buffer) : (init kind : LinearFifo T).Represents kind [] := by
  cases kind with
  | static size =>
      refine ⟨List.length_replicate, rfl, Nat.zero_le _, ?_, Lies.nil _ _⟩
      cases size with
      | zero => exact Or.inr ⟨rfl, rfl⟩
      | succ size => exact Or.inl (by simp [init, bufLen])
  | dynamic => exact ⟨Or.inl rfl, rfl, Nat.zero_le _, Or.inr ⟨rfl, rfl⟩, Lies.nil _ _⟩

namespace Represents

theorem head_le (represents : fifo.Represents kind queue) : fifo.head ≤ fifo.bufLen := by
  rcases represents.head_in with inside | ⟨_, atStart⟩
  · exact inside.le
  · rw [atStart]
    exact Nat.zero_le _

theorem head_lt (represents : fifo.Represents kind queue) (someRoom : 0 < fifo.bufLen) :
    fifo.head < fifo.bufLen := by
  rcases represents.head_in with inside | ⟨noRoom, _⟩
  · exact inside
  · omega

theorem length_le (represents : fifo.Represents kind queue) : queue.length ≤ fifo.bufLen :=
  represents.count_eq ▸ represents.count_le

theorem relaid (represents : fifo.Represents kind queue) {cells : List (Option T)} {head : Nat}
    {items : List T} (sameLength : cells.length = fifo.bufLen)
    (headIn : head < fifo.bufLen ∨ fifo.bufLen = 0 ∧ head = 0)
    (fits : items.length ≤ fifo.bufLen) (inPlace : Lies cells head items) :
    (LinearFifo.mk cells head items.length).Represents kind items where
  sized := by
    change kind.Sized cells.length
    rw [sameLength]
    exact represents.sized
  count_eq := rfl
  count_le := fits.trans_eq sameLength.symm
  head_in := by
    change head < cells.length ∨ cells.length = 0 ∧ head = 0
    rw [sameLength]
    exact headIn
  lies := inPlace

theorem zero_head_in (represents : fifo.Represents kind queue) :
    0 < fifo.bufLen ∨ fifo.bufLen = 0 ∧ 0 = 0 := by
  rcases represents.head_in with inside | ⟨noRoom, _⟩
  · exact Or.inl (Nat.zero_lt_of_lt inside)
  · exact Or.inr ⟨noRoom, rfl⟩

end Represents

/-! ### Moving the items -/

theorem lies_of_replicate_tail {cells : List (Option T)} {items : List T}
    (fits : items.length ≤ cells.length) (inPlace : Lies cells 0 items) :
    Lies (overwrite cells items.length (List.replicate (cells.length - items.length) none)) 0
      items := by
  refine inPlace.overwrite_apart (cells.length - items.length) ?_ ?_ ?_ ?_
  · rw [List.length_replicate]
    omega
  · rw [List.length_replicate]
  · omega
  · rw [Nat.add_sub_cancel' fits, Nat.mod_self, Nat.zero_mod]

theorem poison_tail {cells : List (Option T)} {items : List T}
    (fits : items.length ≤ cells.length) (inPlace : Lies cells 0 items) :
    ∃ poisoned, ((subslice cells items.length cells.length).bind fun unused =>
        poison unused cells unused.len) = some poisoned ∧
      poisoned.length = cells.length ∧ Lies poisoned 0 items := by
  have tailFits : items.length +
      (List.replicate (cells.length - items.length) (none : Option T)).length ≤
        cells.length := by
    rw [List.length_replicate]
    omega
  refine ⟨_, ?_, length_overwrite tailFits, lies_of_replicate_tail fits inPlace⟩
  rw [subslice_of_fits fits le_rfl, Option.bind_some, poison, if_pos le_rfl]
  exact writeAt_of_fits tailFits

theorem realign_spec (represents : fifo.Represents kind queue) :
    ∃ aligned, fifo.realign = some aligned ∧ aligned.Represents kind queue ∧
      aligned.head = 0 ∧ aligned.bufLen = fifo.bufLen := by
  have fits := represents.length_le
  have headLe := represents.head_le
  -- either way the items now begin at the first cell
  have moved : ∃ cells, (if fifo.count ≤ fifo.bufLen - fifo.head then
        (readAt fifo.buf fifo.head fifo.count).bind (writeAt fifo.buf 0 ·)
      else some (fifo.buf.rotate fifo.head)) = some cells ∧
      cells.length = fifo.bufLen ∧ Lies cells 0 queue := by
    by_cases straight : fifo.count ≤ fifo.bufLen - fifo.head
    · have readFits : fifo.head + queue.length ≤ fifo.buf.length := by
        rw [← represents.count_eq]
        change fifo.head + fifo.count ≤ fifo.bufLen
        omega
      have writeFits : 0 + (queue.map some).length ≤ fifo.buf.length := by
        rw [List.length_map, Nat.zero_add]
        exact fits
      refine ⟨_, ?_, length_overwrite writeFits,
        Lies.overwrite_self writeFits (List.prefix_refl _)⟩
      rw [if_pos straight, represents.count_eq, readAt_of_lies represents.lies readFits,
        Option.bind_some, writeAt_of_fits writeFits]
    · exact ⟨_, if_neg straight, List.length_rotate .., represents.lies.rotate fits⟩
  obtain ⟨cells, movedTo, sameLength, inPlace⟩ := moved
  obtain ⟨poisoned, poisons, poisonedLength, stays⟩ :=
    poison_tail (by rw [sameLength]; exact fits) inPlace
  refine ⟨⟨poisoned, 0, queue.length⟩, ?_, represents.relaid (poisonedLength.trans sameLength)
    represents.zero_head_in fits stays, rfl, poisonedLength.trans sameLength⟩
  rw [← represents.count_eq] at poisons
  simp only [realign, checkedSub_of_le headLe, movedTo, Option.bind_eq_bind, Option.bind_some,
    Option.pure_def]
  rw [← Option.bind_assoc, poisons, Option.bind_some, represents.count_eq]

/-! ### Capacity -/

theorem represents_grown {cells : List (Option T)} {exponent : Nat} (bounded : exponent ≤ 63)
    (fits : queue.length ≤ cells.length) (sameLength : cells.length = 2 ^ exponent)
    (inPlace : Lies cells 0 queue) :
    (LinearFifo.mk cells 0 queue.length).Represents .dynamic queue where
  sized := Or.inr ⟨exponent, bounded, sameLength⟩
  count_eq := rfl
  count_le := fits
  head_in := Or.inl (by
    change 0 < cells.length
    rw [sameLength]
    exact Nat.two_pow_pos exponent)
  lies := inPlace

theorem copy_to_fresh (represents : fifo.Represents kind queue) (atStart : fifo.head = 0)
    (newSize : Nat) (larger : fifo.bufLen ≤ newSize) :
    ∃ cells, (if 0 < fifo.count then
        (readAt fifo.buf 0 fifo.count).bind (writeAt (List.replicate newSize none) 0 ·)
      else some (List.replicate newSize none)) = some cells ∧
      cells.length = newSize ∧ Lies cells 0 queue := by
  have fits := represents.length_le
  by_cases someItems : 0 < fifo.count
  · have inPlace := represents.lies
    rw [atStart] at inPlace
    have readFits : 0 + queue.length ≤ fifo.buf.length := by
      rw [Nat.zero_add]
      exact fits
    have writeFits : 0 + (queue.map some).length ≤
        (List.replicate newSize (none : Option T)).length := by
      rw [List.length_map, List.length_replicate]
      omega
    refine ⟨_, ?_, (length_overwrite writeFits).trans List.length_replicate,
      Lies.overwrite_self writeFits (List.prefix_refl _)⟩
    rw [if_pos someItems, represents.count_eq, readAt_of_lies inPlace readFits,
      Option.bind_some, writeAt_of_fits writeFits]
  · refine ⟨_, if_neg someItems, List.length_replicate, ?_⟩
    have isEmpty : queue = [] := List.eq_nil_of_length_eq_zero (by
      rw [← represents.count_eq]
      omega)
    rw [isEmpty]
    exact Lies.nil _ _

/-- Growing succeeds up to the limit of the storage, and never changes the queue. -/
theorem ensureTotalCapacity_spec (represents : fifo.Represents kind queue) (size : Nat) :
    (size ≤ kind.limit ∧ ∃ next, fifo.ensureTotalCapacity kind size = some (.ok, next) ∧
      next.Represents kind queue ∧ size ≤ next.bufLen) ∨
    (kind.limit < size ∧ ∃ next,
      fifo.ensureTotalCapacity kind size = some (.allocError, next) ∧
      next.Represents kind queue) := by
  by_cases enough : size ≤ fifo.bufLen
  · exact Or.inl ⟨enough.trans represents.sized.le_limit, fifo, if_pos enough, represents,
      enough⟩
  · cases kind with
    | static room =>
        have same : fifo.bufLen = room := represents.sized
        refine Or.inr ⟨?_, fifo, ?_, represents⟩
        · change room < size
          omega
        · simp only [ensureTotalCapacity, if_neg enough, Buffer.isDynamic, Bool.false_eq_true,
            if_false]
    | dynamic =>
        obtain ⟨aligned, aligns, alignedRepresents, atStart, sameLength⟩ :=
          realign_spec represents
        by_cases small : size ≤ 2 ^ 63
        · obtain ⟨exponent, bounded, reached, found⟩ := checkedNextPowerOfTwo_of_le small
          obtain ⟨cells, copies, cellsLength, inPlace⟩ :=
            copy_to_fresh alignedRepresents atStart (2 ^ exponent) (by omega)
          rw [alignedRepresents.count_eq] at copies
          have fits : queue.length ≤ cells.length := by
            have before := represents.length_le
            omega
          refine Or.inl ⟨small, ⟨cells, 0, queue.length⟩, ?_,
            represents_grown bounded fits cellsLength inPlace, reached.trans_eq cellsLength.symm⟩
          simp only [ensureTotalCapacity, if_neg enough, Buffer.isDynamic, if_true, aligns,
            Buffer.powersOfTwo, found, copies, Option.bind_eq_bind, Option.bind_some,
            Option.pure_def, alignedRepresents.count_eq]
        · refine Or.inr ⟨Nat.not_le.mp small, aligned, ?_, alignedRepresents⟩
          simp only [ensureTotalCapacity, if_neg enough, Buffer.isDynamic, if_true, aligns,
            Buffer.powersOfTwo, checkedNextPowerOfTwo_of_lt (Nat.not_le.mp small),
            Option.bind_eq_bind, Option.bind_some, Option.pure_def]

theorem writableLength_eq (represents : fifo.Represents kind queue) :
    fifo.writableLength = some (fifo.bufLen - fifo.count) :=
  checkedSub_of_le represents.count_le

theorem ensureUnusedCapacity_of_fits (represents : fifo.Represents kind queue) {size : Nat}
    (enough : size ≤ fifo.bufLen - fifo.count) :
    fifo.ensureUnusedCapacity kind size = some (.ok, fifo) := by
  simp only [ensureUnusedCapacity, writableLength_eq represents, Option.bind_eq_bind,
    Option.bind_some, if_pos enough, Option.pure_def]

theorem ensureUnusedCapacity_spec (represents : fifo.Represents kind queue) (size : Nat) :
    (queue.length + size ≤ kind.limit ∧ ∃ next,
      fifo.ensureUnusedCapacity kind size = some (.ok, next) ∧
      next.Represents kind queue ∧ queue.length + size ≤ next.bufLen) ∨
    (kind.limit < queue.length + size ∧ ∃ next,
      fifo.ensureUnusedCapacity kind size = some (.allocError, next) ∧
      next.Represents kind queue) := by
  have counted := represents.count_eq
  have countLe := represents.count_le
  have bounded := represents.sized.le_limit
  by_cases enough : size ≤ fifo.bufLen - fifo.count
  · exact Or.inl ⟨by omega, fifo, ensureUnusedCapacity_of_fits represents enough, represents,
      by omega⟩
  · by_cases narrow : fifo.count + size < 2 ^ usizeBits
    · have unfolded : fifo.ensureUnusedCapacity kind size =
          fifo.ensureTotalCapacity kind (fifo.count + size) := by
        simp only [ensureUnusedCapacity, writableLength_eq represents, Option.bind_eq_bind,
          Option.bind_some, if_neg enough, checkedAdd, if_pos narrow]
      rw [unfolded, counted]
      exact ensureTotalCapacity_spec represents (queue.length + size)
    · refine Or.inr ⟨represents.sized.limit_lt (by omega) (by omega), fifo, ?_, represents⟩
      simp only [ensureUnusedCapacity, writableLength_eq represents, Option.bind_eq_bind,
        Option.bind_some, if_neg enough, checkedAdd, if_neg narrow, Option.pure_def]

/-! ### Reading -/

/-- The slice from the next item up to the last one or to the end of the buffer. -/
def firstSlice (fifo : LinearFifo T) : Slice :=
  ⟨fifo.head, min (fifo.head + fifo.count) fifo.bufLen⟩

theorem firstSlice_len (headLe : fifo.head ≤ fifo.bufLen) :
    fifo.firstSlice.len = min fifo.count (fifo.bufLen - fifo.head) := by
  change min (fifo.head + fifo.count) fifo.bufLen - fifo.head = _
  omega

theorem readableSlice_zero (countLe : fifo.count ≤ fifo.bufLen)
    (headIn : fifo.head < fifo.bufLen ∨ fifo.bufLen = 0 ∧ fifo.head = 0) :
    fifo.readableSlice 0 = some fifo.firstSlice := by
  unfold readableSlice firstSlice
  rw [if_neg (Nat.not_lt_zero _)]
  rcases headIn with inside | ⟨noRoom, atStart⟩
  · rw [if_neg (by omega), Nat.add_zero]
    exact subslice_of_fits (by omega) (Nat.min_le_right _ _)
  · have noItems : fifo.count = 0 := by omega
    rw [if_pos (by omega), atStart, noRoom, noItems]
    exact subslice_of_fits (Nat.zero_le _) (Nat.zero_le _)

theorem readableSlice_wrapped (fifo : LinearFifo T) (countLe : fifo.count ≤ fifo.bufLen)
    (headLe : fifo.head ≤ fifo.bufLen) (wraps : fifo.bufLen < fifo.head + fifo.count) :
    fifo.readableSlice (fifo.bufLen - fifo.head) =
      some ⟨0, fifo.head + fifo.count - fifo.bufLen⟩ := by
  unfold readableSlice
  rw [if_neg (by omega), if_pos (by omega), Nat.add_sub_cancel' headLe, Nat.sub_self]
  dsimp only
  rw [Nat.zero_add, show fifo.count - (fifo.bufLen - fifo.head) =
      fifo.head + fifo.count - fifo.bufLen by omega]
  exact subslice_of_fits (Nat.zero_le _) (by change _ ≤ fifo.bufLen; omega)

end LinearFifo

end Bun.Collections
