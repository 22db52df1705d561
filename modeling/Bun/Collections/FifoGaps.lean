/-
Putting items back at the front of a fifo, and taking one out of its middle.
-/

import Bun.Collections.FifoSteps

set_option autoImplicit false

namespace Bun.Collections

open Bun.Foundation

namespace LinearFifo

variable {T : Type} {kind : Buffer} {fifo : LinearFifo T} {queue front back : List T}

/-! ### Putting items back -/

/-- The cells in front of the queue are filled in one piece or around the end. -/
theorem fillFront_spec (fifo : LinearFifo T) {src : List T}
    (counted : fifo.count = src.length + queue.length)
    (countLe : fifo.count ≤ fifo.bufLen) (inside : fifo.head < fifo.bufLen)
    (inPlace : Lies fifo.buf (fifo.head + src.length) queue) :
    ∃ cells, fifo.fillFront src = some { fifo with buf := cells } ∧
      cells.length = fifo.bufLen ∧ Lies cells fifo.head (src ++ queue) := by
  have firstLen := firstSlice_len inside.le
  have within : src.length + queue.length ≤ fifo.buf.length := counted ▸ countLe
  by_cases straight : src.length ≤ fifo.firstSlice.len
  · have writes : fifo.head + (src.map some).length ≤ fifo.buf.length := by
      rw [List.length_map]
      change fifo.head + src.length ≤ fifo.bufLen
      omega
    have copies : fifo.firstSlice.copyFrom fifo.buf src =
        some (overwrite fifo.buf fifo.head (src.map some)) := by
      rw [Slice.copyFrom, if_pos straight]
      exact writeAt_of_fits writes
    refine ⟨_, ?_, length_overwrite writes, Lies.append_iff.mpr
      ⟨Lies.overwrite_self writes (List.prefix_refl _), inPlace.overwrite_other writes ?_ within⟩⟩
    · simp only [fillFront, readableSlice_zero countLe (Or.inl inside),
        Nat.min_eq_right straight, List.take_length, copies, if_neg (Nat.not_lt.mpr straight),
        Option.bind_eq_bind, Option.bind_some, Option.pure_def]
    · rw [List.length_map]
  · have wraps : fifo.bufLen < fifo.head + fifo.count := by omega
    have whole : fifo.firstSlice.len = fifo.bufLen - fifo.head := by omega
    have lengthTake : (src.take (fifo.bufLen - fifo.head)).length = fifo.bufLen - fifo.head := by
      rw [List.length_take]
      omega
    have firstWrites : fifo.head + ((src.take (fifo.bufLen - fifo.head)).map some).length ≤
        fifo.buf.length := by
      rw [List.length_map, lengthTake]
      exact (Nat.add_sub_cancel' inside.le).le
    have copiesFirst : fifo.firstSlice.copyFrom fifo.buf (src.take (fifo.bufLen - fifo.head)) =
        some (overwrite fifo.buf fifo.head
          ((src.take (fifo.bufLen - fifo.head)).map some)) := by
      rw [Slice.copyFrom, if_pos (by rw [lengthTake, whole])]
      exact writeAt_of_fits firstWrites
    have queueAfter := inPlace.overwrite_other firstWrites (by
      rw [List.length_map, lengthTake]
      omega) within
    have frontAfter := Lies.overwrite_self firstWrites (List.prefix_refl _)
    have sameLength := length_overwrite firstWrites
    generalize overwrite fifo.buf fifo.head ((src.take (fifo.bufLen - fifo.head)).map some) =
      half at copiesFirst queueAfter frontAfter sameLength
    have halfLength : half.length = fifo.bufLen := sameLength
    have second := readableSlice_wrapped ⟨half, fifo.head, fifo.count⟩
      (countLe.trans_eq halfLength.symm) (inside.le.trans_eq halfLength.symm)
      (halfLength.trans_lt wraps)
    simp only [bufLen, sameLength] at second
    have lengthDrop : ((src.drop (fifo.bufLen - fifo.head)).map some).length =
        src.length - (fifo.bufLen - fifo.head) := by
      rw [List.length_map, List.length_drop]
    have secondWrites : 0 + ((src.drop (fifo.bufLen - fifo.head)).map some).length ≤
        half.length := by
      rw [lengthDrop, halfLength]
      omega
    have copiesSecond : Slice.copyFrom ⟨0, fifo.head + fifo.count - fifo.bufLen⟩ half
        (src.drop (fifo.bufLen - fifo.head)) =
          some (overwrite half 0 ((src.drop (fifo.bufLen - fifo.head)).map some)) := by
      rw [Slice.copyFrom, if_pos, writeAt_of_fits secondWrites]
      rw [List.length_drop]
      change _ ≤ fifo.head + fifo.count - fifo.bufLen - 0
      omega
    refine ⟨_, ?_, (length_overwrite secondWrites).trans halfLength, ?_⟩
    · simp only [fillFront, readableSlice_zero countLe (Or.inl inside), whole,
        Nat.min_eq_left (by omega : fifo.bufLen - fifo.head ≤ src.length), copiesFirst,
        if_pos (by omega : fifo.bufLen - fifo.head < src.length), Option.bind_eq_bind,
        Option.bind_some, Option.pure_def]
      have secondSlice : readableSlice ⟨half, fifo.head, fifo.count⟩ (fifo.bufLen - fifo.head) =
          some ⟨0, fifo.head + fifo.count - fifo.bufLen⟩ := second
      rw [secondSlice, Option.bind_some, copiesSecond, Option.bind_some]
    · refine Lies.append_iff.mpr ⟨?_, ?_⟩
      · rw [← List.take_append_drop (fifo.bufLen - fifo.head) src, Lies.append_iff]
        rw [List.take_append_drop, lengthTake, Nat.add_sub_cancel' inside.le]
        refine ⟨frontAfter.overwrite_apart fifo.head secondWrites ?_ ?_ ?_, ?_⟩
        · rw [lengthDrop]
          omega
        · rw [lengthTake, halfLength]
          omega
        · rw [Nat.zero_add]
        · have atEnd := Lies.add_length_iff.mpr
            (Lies.overwrite_self secondWrites (List.prefix_refl _))
          rwa [Nat.zero_add, length_overwrite secondWrites, halfLength] at atEnd
      · refine queueAfter.overwrite_apart (src.length - (fifo.bufLen - fifo.head))
          secondWrites lengthDrop.le ?_ ?_
        · rw [halfLength]
          omega
        · rw [halfLength, Nat.zero_add, show fifo.head + src.length =
            src.length - (fifo.bufLen - fifo.head) + fifo.bufLen by omega, Nat.add_mod_right]

theorem rewind_fillFront (represents : fifo.Represents kind queue) (src : List T)
    (someRoom : 0 < fifo.bufLen) (enough : queue.length + src.length ≤ fifo.bufLen) :
    ∃ next, ((fifo.rewind kind src.length).bind fun rewound => rewound.fillFront src) =
        some next ∧ next.Represents kind (src ++ queue) := by
  have counted := represents.count_eq
  have rewinds : fifo.rewind kind src.length =
      some ⟨fifo.buf, (fifo.head + (fifo.bufLen - src.length)) % fifo.bufLen,
        src.length + queue.length⟩ := by
    simp only [rewind, writableLength_eq represents, counted,
      if_pos (by omega : src.length ≤ fifo.bufLen - queue.length),
      checkedSub_of_le (by omega : src.length ≤ fifo.bufLen),
      wrapIndex_eq represents.sized someRoom, Nat.add_comm queue.length,
      Option.bind_eq_bind, Option.bind_some, Option.pure_def]
  have inside := Nat.mod_lt (fifo.head + (fifo.bufLen - src.length)) someRoom
  have behind : Lies fifo.buf
      ((fifo.head + (fifo.bufLen - src.length)) % fifo.bufLen + src.length) queue := by
    have turned : ((fifo.head + (fifo.bufLen - src.length)) % fifo.bufLen + src.length) %
        fifo.bufLen = fifo.head % fifo.bufLen := by
      rw [Nat.mod_add_mod, show fifo.head + (fifo.bufLen - src.length) + src.length =
        fifo.head + fifo.bufLen by omega, Nat.add_mod_right]
    have here := represents.lies
    rw [← Lies.mod_iff] at here ⊢
    change Lies fifo.buf (_ % fifo.bufLen) queue
    rw [turned]
    exact here
  obtain ⟨cells, fills, sameLength, inPlace⟩ := fillFront_spec
    ⟨fifo.buf, (fifo.head + (fifo.bufLen - src.length)) % fifo.bufLen,
      src.length + queue.length⟩ rfl
    (by change src.length + queue.length ≤ fifo.bufLen; omega) inside behind
  refine ⟨_, by rw [rewinds, Option.bind_some]; exact fills, ?_⟩
  have laid := represents.relaid sameLength (Or.inl inside)
    (by rw [List.length_append]; omega) inPlace
  rwa [List.length_append] at laid

/-- `unget` puts all the items in front when the storage may hold them, else none. -/
theorem unget_spec (represents : fifo.Represents kind queue) (src : List T)
    (someRoom : src = [] → 0 < fifo.bufLen) :
    (queue.length + src.length ≤ kind.limit ∧ ∃ next,
      fifo.unget kind src = some (.ok, next) ∧ next.Represents kind (src ++ queue)) ∨
    (kind.limit < queue.length + src.length ∧ ∃ next,
      fifo.unget kind src = some (.allocError, next) ∧ next.Represents kind queue) := by
  rcases ensureUnusedCapacity_spec represents src.length with
    ⟨small, roomy, ensures, roomyRepresents, enough⟩ | ⟨large, same, ensures, sameRepresents⟩
  · have roomyRoom : 0 < roomy.bufLen := by
      by_cases nothing : src = []
      · subst nothing
        rw [List.length_nil, ensureUnusedCapacity_of_fits represents (Nat.zero_le _)] at ensures
        obtain rfl : fifo = roomy := by simpa using ensures
        exact someRoom rfl
      · have some_left : 0 < src.length := List.length_pos_iff.mpr nothing
        omega
    obtain ⟨next, fills, nextRepresents⟩ :=
      rewind_fillFront roomyRepresents src roomyRoom enough
    refine Or.inl ⟨small, next, ?_, nextRepresents⟩
    simp only [unget, ensures, Option.bind_eq_bind, Option.bind_some, Option.pure_def]
    rw [← Option.bind_assoc, fills, Option.bind_some]
  · refine Or.inr ⟨large, same, ?_, sameRepresents⟩
    simp only [unget, ensures, Option.bind_eq_bind, Option.bind_some, Option.pure_def]

/-- With no storage, putting nothing back computes the mask of an empty buffer. -/
theorem unget_nil_empty (represents : fifo.Represents kind queue)
    (noRoom : fifo.bufLen = 0) : fifo.unget kind [] = none := by
  simp only [unget, List.length_nil, ensureUnusedCapacity_of_fits represents (Nat.zero_le _),
    rewind, writableLength_eq represents, Nat.zero_le, if_true, checkedSub_of_le,
    noRoom, wrapIndex_zero, Option.bind_eq_bind, Option.bind_some, Option.bind_none,
    Option.pure_def]

/-! ### Taking an item out -/

theorem overwrite_nil (buf : List (Option T)) (start : Nat) : overwrite buf start [] = buf := by
  rw [overwrite, List.append_nil, List.length_nil, Nat.add_zero, List.take_append_drop]

def shiftedCells (buf : List (Option T)) (start stop : Nat) : List (Option T) :=
  (buf.drop (start + 1)).take (stop - start - 1)

theorem length_shiftedCells {buf : List (Option T)} {start stop : Nat}
    (fits : stop ≤ buf.length) : (shiftedCells buf start stop).length = stop - start - 1 := by
  rw [shiftedCells, List.length_take, List.length_drop]
  omega

theorem shiftDownOne_eq (buf : List (Option T)) {start stop : Nat} (ordered : start < stop)
    (fits : stop ≤ buf.length) :
    shiftDownOne buf start stop = some (overwrite buf start (shiftedCells buf start stop)) := by
  have length : (Slice.mk start stop).len = stop - start := rfl
  simp only [shiftDownOne, subslice_of_fits ordered.le fits, Option.bind_eq_bind,
    Option.bind_some, Option.pure_def]
  by_cases moves : 1 < (Slice.mk start stop).len
  · rw [if_pos moves, length, readAt_of_fits (by omega), Option.bind_some]
    exact writeAt_of_fits (by
      change start + (shiftedCells buf start stop).length ≤ buf.length
      rw [length_shiftedCells fits]
      omega)
  · rw [if_neg moves, shiftedCells, show stop - start - 1 = 0 by omega, List.take_zero,
      overwrite_nil]

section Shift

variable {buf : List (Option T)} {start stop : Nat} {items : List T}

theorem shift_fits (buf : List (Option T)) (ordered : start < stop) (fits : stop ≤ buf.length) :
    start + (shiftedCells buf start stop).length ≤ buf.length := by
  rw [length_shiftedCells fits]
  omega

theorem lies_shifted (inPlace : Lies buf (start + 1) items)
    (inRange : start + 1 + items.length ≤ stop) (fits : stop ≤ buf.length) :
    Lies (overwrite buf start (shiftedCells buf start stop)) start items := by
  refine Lies.overwrite_self (shift_fits _ (by omega) fits) (List.prefix_take_iff.mpr ⟨?_, ?_⟩)
  · exact (Lies.iff_isPrefix (by omega)).mp inPlace
  · rw [List.length_map]
    omega

theorem lies_unshifted {place : Nat} (inPlace : Lies buf place items) (gap : Nat)
    (ordered : start < stop) (fits : stop ≤ buf.length) (behind : stop - start - 1 ≤ gap)
    (ends : gap + items.length ≤ buf.length)
    (samePlace : (start + gap) % buf.length = place % buf.length) :
    Lies (overwrite buf start (shiftedCells buf start stop)) place items :=
  inPlace.overwrite_apart gap (shift_fits _ ordered fits)
    ((length_shiftedCells fits).trans_le behind) ends samePlace

end Shift

theorem closeGap_straight {item : T} (represents : fifo.Represents kind (front ++ item :: back))
    (straight : fifo.count ≤ fifo.bufLen - fifo.head) :
    ∃ cells, fifo.closeGap kind front.length = some cells ∧ cells.length = fifo.bufLen ∧
      Lies cells fifo.head (front ++ back) := by
  have headLe := represents.head_le
  have counted := represents.count_eq
  rw [List.length_append, List.length_cons] at counted
  obtain ⟨frontLies, rest⟩ := Lies.append_iff.mp represents.lies
  obtain ⟨_, backLies⟩ := Lies.cons_iff.mp rest
  have ordered : fifo.head + front.length < fifo.bufLen := by omega
  refine ⟨_, ?_, length_overwrite (shift_fits _ ordered le_rfl), Lies.append_iff.mpr ⟨?_, ?_⟩⟩
  · simp only [closeGap, checkedSub_of_le headLe, if_pos straight, Option.bind_eq_bind,
      Option.bind_some]
    exact shiftDownOne_eq _ ordered le_rfl
  · refine lies_unshifted frontLies (fifo.bufLen - front.length) ordered le_rfl ?_ ?_ ?_
    · omega
    · change _ ≤ fifo.bufLen
      omega
    · rw [show fifo.head + front.length + (fifo.bufLen - front.length) =
        fifo.head + fifo.buf.length by change _ = _ + fifo.bufLen; omega, Nat.add_mod_right]
  · exact lies_shifted backLies (by omega) le_rfl

/-- The items go around the end, and the one to remove is behind it. -/
theorem closeGap_wrapped_prefix {item : T}
    (represents : fifo.Represents kind (front ++ item :: back))
    (wraps : fifo.bufLen < fifo.head + fifo.count)
    (past : fifo.bufLen ≤ fifo.head + front.length) :
    ∃ cells, fifo.closeGap kind front.length = some cells ∧ cells.length = fifo.bufLen ∧
      Lies cells fifo.head (front ++ back) := by
  have headLe := represents.head_le
  have countLe := represents.count_le
  have counted := represents.count_eq
  rw [List.length_append, List.length_cons] at counted
  have inside := represents.head_lt (by omega)
  obtain ⟨frontLies, rest⟩ := Lies.append_iff.mp represents.lies
  obtain ⟨_, backLies⟩ := Lies.cons_iff.mp rest
  have index : (fifo.head + front.length) % fifo.bufLen =
      fifo.head + front.length - fifo.bufLen := by
    rw [Nat.mod_eq_sub_mod past, Nat.mod_eq_of_lt (by omega)]
  have ordered : fifo.head + front.length - fifo.bufLen <
      fifo.head + fifo.count - fifo.bufLen := by omega
  have fits : fifo.head + fifo.count - fifo.bufLen ≤ fifo.buf.length := by
    change _ ≤ fifo.bufLen
    omega
  have backHere : Lies fifo.buf (fifo.head + front.length - fifo.bufLen + 1) back := by
    rw [← Lies.add_length_iff]
    rwa [show fifo.head + front.length - fifo.bufLen + 1 + fifo.buf.length =
      fifo.head + front.length + 1 by change _ + fifo.bufLen = _; omega]
  refine ⟨_, ?_, length_overwrite (shift_fits _ ordered fits), Lies.append_iff.mpr ⟨?_, ?_⟩⟩
  · simp only [closeGap, checkedSub_of_le headLe, wrapIndex_eq represents.sized
      (by omega : 0 < fifo.bufLen), if_neg (by omega : ¬ fifo.count ≤ fifo.bufLen - fifo.head),
      checkedSub_of_le wraps.le, index,
      if_pos (by omega : fifo.head + front.length - fifo.bufLen < fifo.head),
      Option.bind_eq_bind, Option.bind_some]
    exact shiftDownOne_eq _ ordered fits
  · refine lies_unshifted frontLies (fifo.bufLen - front.length) ordered fits (by omega) ?_ ?_
    · change _ ≤ fifo.bufLen
      omega
    · rw [show fifo.head + front.length - fifo.bufLen + (fifo.bufLen - front.length) =
        fifo.head by omega]
  · have shifted := lies_shifted backHere (by omega) fits
    rw [← Lies.add_length_iff, length_overwrite (shift_fits _ ordered fits)] at shifted
    rwa [show fifo.head + front.length - fifo.bufLen + fifo.buf.length =
      fifo.head + front.length by change _ + fifo.bufLen = _; omega] at shifted

/-- The items go around the end, and the one to remove is before it: the first cell moves to
the last place. -/
theorem closeGap_wrapped_tail {item wrap : T} {before after : List T}
    (represents : fifo.Represents kind (front ++ item :: (before ++ wrap :: after)))
    (reaches : fifo.head + front.length + 1 + before.length = fifo.bufLen) :
    ∃ cells, fifo.closeGap kind front.length = some cells ∧ cells.length = fifo.bufLen ∧
      Lies cells fifo.head (front ++ (before ++ wrap :: after)) := by
  have headLe := represents.head_le
  have countLe := represents.count_le
  have counted := represents.count_eq
  simp only [List.length_append, List.length_cons] at counted
  have size : fifo.buf.length = fifo.bufLen := rfl
  obtain ⟨frontLies, rest⟩ := Lies.append_iff.mp represents.lies
  obtain ⟨_, backLies⟩ := Lies.cons_iff.mp rest
  obtain ⟨beforeLies, around⟩ := Lies.append_iff.mp backLies
  rw [show fifo.head + front.length + 1 + before.length = 0 + fifo.buf.length by omega,
    Lies.add_length_iff] at around
  obtain ⟨wrapHere, afterLies⟩ := Lies.cons_iff.mp around
  rw [Nat.zero_mod] at wrapHere
  have index : (fifo.head + front.length) % fifo.bufLen = fifo.head + front.length :=
    Nat.mod_eq_of_lt (by omega)
  -- the tail segment moves down
  have ordered : fifo.head + front.length < fifo.bufLen := by omega
  have frontOnce := lies_unshifted frontLies (fifo.bufLen - front.length) ordered le_rfl
    (by omega) (by omega) (by
      rw [show fifo.head + front.length + (fifo.bufLen - front.length) =
        fifo.head + fifo.buf.length by omega, Nat.add_mod_right])
  have beforeOnce := lies_shifted beforeLies (by omega) (le_refl fifo.bufLen)
  have afterOnce := lies_unshifted afterLies (fifo.bufLen - (fifo.head + front.length) + 1)
    ordered le_rfl (by omega) (by omega) (by
      rw [show fifo.head + front.length + (fifo.bufLen - (fifo.head + front.length) + 1) =
        0 + 1 + fifo.buf.length by omega, Nat.add_mod_right])
  have firstShift := shiftDownOne_eq fifo.buf ordered le_rfl
  have shiftedLength := length_overwrite (shift_fits fifo.buf ordered le_rfl)
  generalize overwrite fifo.buf (fifo.head + front.length)
    (shiftedCells fifo.buf (fifo.head + front.length) fifo.bufLen) = shifted
    at frontOnce beforeOnce afterOnce firstShift shiftedLength
  -- the first cell goes to the last place
  have lastFits : fifo.bufLen - 1 + [some wrap].length ≤ shifted.length := by
    rw [List.length_singleton]
    omega
  have frontTwice := frontOnce.overwrite_apart (fifo.head + 1) lastFits
    (by rw [List.length_singleton]; omega) (by omega) (by
      rw [shiftedLength, show fifo.bufLen - 1 + (fifo.head + 1) = fifo.head + fifo.buf.length by
        omega, Nat.add_mod_right])
  have beforeTwice := beforeOnce.overwrite_apart (fifo.head + front.length + 1) lastFits
    (by rw [List.length_singleton]; omega) (by omega) (by
      rw [shiftedLength, show fifo.bufLen - 1 + (fifo.head + front.length + 1) =
        fifo.head + front.length + fifo.buf.length by omega, Nat.add_mod_right])
  have afterTwice := afterOnce.overwrite_apart 2 lastFits
    (by rw [List.length_singleton]; omega) (by omega) (by
      rw [shiftedLength, show fifo.bufLen - 1 + 2 = 0 + 1 + fifo.buf.length by omega,
        Nat.add_mod_right])
  have wrapTwice : Lies (overwrite shifted (fifo.bufLen - 1) [some wrap]) (fifo.bufLen - 1)
      [wrap] := Lies.overwrite_self lastFits (List.prefix_refl _)
  have lastWrite := writeAt_of_fits lastFits
  have joinedLength := length_overwrite lastFits
  generalize overwrite shifted (fifo.bufLen - 1) [some wrap] = joined
    at frontTwice beforeTwice afterTwice wrapTwice lastWrite joinedLength
  -- the wrapped prefix moves down
  have prefixOrdered : 0 < fifo.head + fifo.count - fifo.bufLen := by omega
  have prefixFits : fifo.head + fifo.count - fifo.bufLen ≤ joined.length := by omega
  have frontLast := lies_unshifted frontTwice fifo.head prefixOrdered prefixFits (by omega)
    (by omega) (by rw [Nat.zero_add])
  have beforeLast := lies_unshifted beforeTwice (fifo.head + front.length) prefixOrdered
    prefixFits (by omega) (by omega) (by rw [Nat.zero_add])
  have wrapLast := lies_unshifted wrapTwice (fifo.bufLen - 1) prefixOrdered prefixFits
    (by omega) (by rw [List.length_singleton]; omega) (by rw [Nat.zero_add])
  have afterLast := lies_shifted afterTwice (by omega) prefixFits
  have lastShift := shiftDownOne_eq _ prefixOrdered prefixFits
  have finalLength := length_overwrite (shift_fits _ prefixOrdered prefixFits)
  refine ⟨_, ?_, finalLength.trans (joinedLength.trans (shiftedLength.trans size)),
    Lies.append_iff.mpr ⟨frontLast, Lies.append_iff.mpr ⟨beforeLast, ?_⟩⟩⟩
  · simp only [closeGap, checkedSub_of_le headLe, wrapIndex_eq represents.sized
      (by omega : 0 < fifo.bufLen), if_neg (by omega : ¬ fifo.count ≤ fifo.bufLen - fifo.head),
      checkedSub_of_le (by omega : fifo.bufLen ≤ fifo.head + fifo.count), index,
      if_neg (by omega : ¬ fifo.head + front.length < fifo.head), wrapHere, firstShift,
      checkedSub_of_le (by omega : 1 ≤ fifo.bufLen), lastWrite, lastShift, Option.bind_eq_bind,
      Option.bind_some]
  · rw [← List.singleton_append, Lies.append_iff]
    rw [← Lies.add_length_iff, finalLength, joinedLength, shiftedLength] at afterLast
    rw [show fifo.head + front.length + before.length = fifo.bufLen - 1 by omega]
    refine ⟨wrapLast, ?_⟩
    rwa [show fifo.bufLen - 1 + [wrap].length = 0 + fifo.buf.length by
      rw [List.length_singleton]
      omega]

theorem closeGap_spec {item : T} (represents : fifo.Represents kind (front ++ item :: back)) :
    ∃ cells, fifo.closeGap kind front.length = some cells ∧ cells.length = fifo.bufLen ∧
      Lies cells fifo.head (front ++ back) := by
  have counted := represents.count_eq
  rw [List.length_append, List.length_cons] at counted
  by_cases straight : fifo.count ≤ fifo.bufLen - fifo.head
  · exact closeGap_straight represents straight
  by_cases past : fifo.bufLen ≤ fifo.head + front.length
  · exact closeGap_wrapped_prefix represents (by omega) past
  -- the items behind the removed one up to the end, the first cell, and the others
  obtain ⟨before, wrap, after, rfl, reaches⟩ : ∃ before wrap after,
      back = before ++ wrap :: after ∧
        fifo.head + front.length + 1 + before.length = fifo.bufLen := by
    have inBack : fifo.bufLen - (fifo.head + front.length + 1) < back.length := by omega
    refine ⟨back.take (fifo.bufLen - (fifo.head + front.length + 1)),
      back[fifo.bufLen - (fifo.head + front.length + 1)],
      back.drop (fifo.bufLen - (fifo.head + front.length + 1) + 1), ?_, ?_⟩
    · rw [← List.drop_eq_getElem_cons inBack, List.take_append_drop]
    · rw [List.length_take]
      omega
  exact closeGap_wrapped_tail represents reaches

theorem orderedRemoveItem_spec {item : T}
    (represents : fifo.Represents kind (front ++ item :: back)) :
    ∃ next, fifo.orderedRemoveItem kind front.length = some next ∧
      next.Represents kind (front ++ back) := by
  have counted := represents.count_eq
  have countLe := represents.count_le
  rw [List.length_append, List.length_cons] at counted
  cases front with
  | nil =>
      have parted : fifo.Represents kind ([item] ++ back) := represents
      obtain ⟨next, discards, nextRepresents, _⟩ := discard_spec parted (by omega)
      exact ⟨next, discards, nextRepresents⟩
  | cons first others =>
      obtain ⟨cells, closes, sameLength, inPlace⟩ := closeGap_spec represents
      have fewer : fifo.count - 1 = (first :: others ++ back).length := by
        rw [List.length_append]
        omega
      refine ⟨⟨cells, fifo.head, fifo.count - 1⟩, ?_, ?_⟩
      · simp only [orderedRemoveItem, if_neg (by simp : ¬ (first :: others).length = 0),
          if_pos (by omega : (first :: others).length < fifo.count), closes,
          checkedSub_of_le (by omega : 1 ≤ fifo.count), Option.bind_eq_bind, Option.bind_some,
          Option.pure_def]
      · rw [fewer]
        exact represents.relaid sameLength represents.head_in (by omega) inPlace

end LinearFifo

end Bun.Collections
