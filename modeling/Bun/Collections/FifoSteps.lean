/-
What each operation of a fifo does to the queue that the fifo stands for.
-/

import Bun.Collections.FifoQueue

set_option autoImplicit false

namespace Bun.Collections

open Bun.Foundation

namespace LinearFifo

variable {T : Type} {kind : Buffer} {fifo : LinearFifo T} {queue front back : List T}

/-! ### Taking items from the front -/

theorem poison_of_fits (slice : Slice) {buf : List (Option T)} {count : Nat}
    (inSlice : count ≤ slice.len) (fits : slice.start + count ≤ buf.length) :
    poison slice buf count = some (overwrite buf slice.start (List.replicate count none)) := by
  rw [poison, if_pos inSlice]
  exact writeAt_of_fits (by rwa [List.length_replicate])

theorem poisonFront_spec (represents : fifo.Represents kind (front ++ back)) :
    ∃ cells, fifo.poisonFront front.length = some cells ∧ cells.length = fifo.bufLen ∧
      Lies cells (fifo.head + front.length) back := by
  have stays := (Lies.append_iff.mp represents.lies).2
  have counted := represents.count_eq
  have countLe := represents.count_le
  have headLe := represents.head_le
  have firstLen := firstSlice_len headLe
  rw [List.length_append] at counted
  have within : front.length + back.length ≤ fifo.buf.length := by
    change _ ≤ fifo.bufLen
    omega
  simp only [poisonFront, readableSlice_zero represents.count_le represents.head_in, Option.bind_eq_bind, Option.bind_some]
  by_cases straight : front.length ≤ fifo.firstSlice.len
  · have fits : fifo.head + front.length ≤ fifo.buf.length := by
      change fifo.head + front.length ≤ fifo.bufLen
      omega
    have writes : fifo.head + (List.replicate front.length (none : Option T)).length ≤
        fifo.buf.length := by
      rwa [List.length_replicate]
    refine ⟨_, ?_, length_overwrite writes, stays.overwrite_other writes ?_ within⟩
    · rw [if_pos straight]
      exact poison_of_fits _ straight fits
    · rw [List.length_replicate]
  · have wraps : fifo.bufLen < fifo.head + fifo.count := by omega
    have whole : fifo.firstSlice.len = fifo.bufLen - fifo.head := by omega
    have firstFits : fifo.head + (fifo.bufLen - fifo.head) ≤ fifo.buf.length :=
      (Nat.add_sub_cancel' headLe).le
    have firstWrites : fifo.head +
        (List.replicate (fifo.bufLen - fifo.head) (none : Option T)).length ≤
          fifo.buf.length := by
      rwa [List.length_replicate]
    have poisonsFirst : poison fifo.firstSlice fifo.buf (fifo.bufLen - fifo.head) =
        some (overwrite fifo.buf fifo.head
          (List.replicate (fifo.bufLen - fifo.head) none)) :=
      poison_of_fits fifo.firstSlice whole.ge firstFits
    have afterFirst := stays.overwrite_other firstWrites (by
      rw [List.length_replicate]
      omega) within
    have sameLength := length_overwrite firstWrites
    generalize overwrite fifo.buf fifo.head (List.replicate (fifo.bufLen - fifo.head) none) =
      cells at sameLength afterFirst poisonsFirst
    have second := readableSlice_wrapped ⟨cells, fifo.head, fifo.count⟩
      (countLe.trans_eq sameLength.symm) (headLe.trans_eq sameLength.symm)
      (sameLength.trans_lt wraps)
    simp only [bufLen, sameLength] at second
    have secondWrites : 0 + (List.replicate (front.length - (fifo.bufLen - fifo.head))
        (none : Option T)).length ≤ cells.length := by
      rw [List.length_replicate, sameLength]
      change _ ≤ fifo.bufLen
      omega
    refine ⟨_, ?_, (length_overwrite secondWrites).trans sameLength,
      afterFirst.overwrite_apart (front.length - (fifo.bufLen - fifo.head))
        secondWrites ?_ ?_ ?_⟩
    · rw [if_neg straight, whole, poisonsFirst, Option.bind_some]
      unfold bufLen
      rw [second, Option.bind_some]
      refine poison_of_fits _ ?_ ?_
      · change front.length - (fifo.bufLen - fifo.head) ≤ fifo.head + fifo.count - fifo.bufLen - 0
        omega
      · simpa only [List.length_replicate, bufLen] using secondWrites
    · rw [List.length_replicate]
    · rw [sameLength]
      change _ ≤ fifo.bufLen
      omega
    · rw [sameLength, Nat.zero_add,
        show fifo.head + front.length = front.length - (fifo.bufLen - fifo.head) +
          fifo.buf.length by change _ = _ + fifo.bufLen; omega, Nat.add_mod_right]

/-- The head after `discard`: the mask of an empty buffer is all ones. -/
theorem advanceHead_eq {length : Nat} (sized : kind.Sized length) (someRoom : 0 < length)
    (index : Nat) :
    (if kind.powersOfTwo = true then some (index &&& wrappingPred length)
      else checkedRem index length) = some (index % length) := by
  by_cases masks : kind.powersOfTwo = true
  · obtain ⟨exponent, same⟩ := sized.powerOfTwo masks someRoom
    rw [if_pos masks, wrappingPred, if_neg (by omega), and_pred_of_powerOfTwo same]
  · rw [if_neg masks, checkedRem, if_neg (by omega)]

theorem discard_spec (represents : fifo.Represents kind (front ++ back))
    (wrapsInto : fifo.bufLen = 0 → kind = .dynamic) :
    ∃ next, fifo.discard kind front.length = some next ∧ next.Represents kind back ∧
      next.bufLen = fifo.bufLen := by
  obtain ⟨cells, poisons, sameLength, stays⟩ := poisonFront_spec represents
  have counted := represents.count_eq
  have countLe := represents.count_le
  rw [List.length_append] at counted
  have enough : front.length ≤ fifo.count := by omega
  have rest : fifo.count - front.length = back.length := by omega
  rcases represents.head_in with inside | ⟨noRoom, atStart⟩
  · have someRoom : 0 < fifo.bufLen := by omega
    refine ⟨⟨cells, (fifo.head + front.length) % fifo.bufLen, back.length⟩, ?_,
      represents.relaid sameLength (Or.inl (Nat.mod_lt _ someRoom)) (by omega) ?_, sameLength⟩
    · simp only [discard, if_pos enough, poisons, advanceHead_eq represents.sized someRoom,
        Option.bind_eq_bind, Option.bind_some, Option.pure_def, rest]
    · rwa [← sameLength, Lies.mod_iff]
  · obtain rfl := wrapsInto noRoom
    have nothing : front.length = 0 := by omega
    refine ⟨⟨cells, 0, back.length⟩, ?_,
      represents.relaid sameLength (Or.inr ⟨noRoom, rfl⟩) (by omega) ?_, sameLength⟩
    · have maskedHead : (fifo.head + 0) &&& wrappingPred fifo.bufLen = 0 := by
        rw [atStart, Nat.zero_add, Nat.zero_and]
      rw [nothing] at enough poisons rest ⊢
      simp only [discard, if_pos enough, poisons, Buffer.powersOfTwo, if_true, maskedHead, rest,
        Option.bind_eq_bind, Option.bind_some, Option.pure_def]
    · rwa [atStart, nothing] at stays

theorem discard_static_empty (represents : fifo.Represents kind queue)
    (noRoom : fifo.bufLen = 0) (isStatic : kind ≠ .dynamic) (count : Nat) :
    fifo.discard kind count = none := by
  cases kind with
  | dynamic => exact absurd rfl isStatic
  | static size =>
      obtain rfl : size = 0 := represents.sized.symm.trans noRoom
      unfold discard
      by_cases enough : count ≤ fifo.count
      · have noMask : ¬ (Buffer.static 0).powersOfTwo = true := by decide
        simp only [if_pos enough, if_neg noMask, checkedRem, if_pos noRoom, Option.bind_eq_bind,
          Option.bind_none, Option.bind_fun_none]
      · rw [if_neg enough]

theorem readItem_spec (represents : fifo.Represents kind queue) :
    ∃ next, fifo.readItem kind = some (queue.head?, next) ∧ next.Represents kind queue.tail := by
  have counted := represents.count_eq
  have countLe := represents.count_le
  cases queue with
  | nil =>
      refine ⟨fifo, ?_, represents⟩
      have noItems : fifo.count = 0 := counted
      rw [readItem, if_pos noItems, List.head?_nil]
  | cons item rest =>
      rw [List.length_cons] at counted
      have inside := represents.head_lt (by omega)
      have atHead := (Lies.cons_iff.mp represents.lies).1
      have masked : fifo.head % fifo.buf.length = fifo.head := Nat.mod_eq_of_lt inside
      rw [masked] at atHead
      have parted : fifo.Represents kind ([item] ++ rest) := represents
      obtain ⟨next, discards, nextRepresents, _⟩ := discard_spec parted (by omega)
      have discardsOne : fifo.discard kind 1 = some next := discards
      refine ⟨next, ?_, nextRepresents⟩
      simp only [readItem, if_neg (by omega : ¬ fifo.count = 0), atHead, discardsOne,
        Option.bind_eq_bind, Option.bind_some, Option.pure_def, List.head?_cons]

theorem firstSlice_items (represents : fifo.Represents kind queue) {count : Nat}
    (inSlice : count ≤ fifo.firstSlice.len) :
    fifo.firstSlice.items fifo.buf count = some (queue.take count) := by
  have firstLen := firstSlice_len represents.head_le
  have headLe := represents.head_le
  have counted := represents.count_eq
  have lengthTake : (queue.take count).length = count := by
    rw [List.length_take]
    omega
  have split := represents.lies
  rw [← List.take_append_drop count queue, Lies.append_iff] at split
  have fits : fifo.head + (queue.take count).length ≤ fifo.buf.length := by
    rw [lengthTake]
    change fifo.head + count ≤ fifo.bufLen
    omega
  have cells := readAt_of_lies split.1 fits
  rw [lengthTake] at cells
  unfold Slice.items
  rw [if_pos inSlice]
  change (readAt fifo.buf fifo.head count).bind _ = _
  rw [cells, Option.bind_some, mapM_id_some]

/-- The loop of `read` takes the first items, as many as there are places. -/
theorem readLoop_spec (represents : fifo.Represents kind queue) (left : Nat) :
    ∃ next, fifo.readLoop kind left = some (queue.take left, next) ∧
      next.Represents kind (queue.drop left) := by
  induction left using Nat.strong_induction_on generalizing fifo queue with
  | _ left ih =>
      have counted := represents.count_eq
      have firstLen := firstSlice_len represents.head_le
      unfold readLoop
      by_cases noneLeft : left = 0
      · subst noneLeft
        exact ⟨fifo, dif_pos rfl, represents⟩
      rw [dif_neg noneLeft, readableSlice_zero represents.count_le represents.head_in]
      by_cases isEmpty : fifo.firstSlice.len = 0
      · have noItems : queue = [] := by
          refine List.eq_nil_of_length_eq_zero ?_
          have countLe := represents.count_le
          have inside := represents.head_in
          omega
        subst noItems
        exact ⟨fifo, by simp only [dif_pos isEmpty, List.take_nil], by
          rwa [List.drop_nil]⟩
      · have someItems : 0 < min fifo.firstSlice.len left := by omega
        have inSlice : min fifo.firstSlice.len left ≤ fifo.firstSlice.len := Nat.min_le_left _ _
        have inLeft : min fifo.firstSlice.len left ≤ left := Nat.min_le_right _ _
        have copies := firstSlice_items represents inSlice
        simp only [dif_neg isEmpty, Option.bind_eq_bind, Option.pure_def]
        generalize min fifo.firstSlice.len left = count at someItems inSlice inLeft copies ⊢
        have lengthTake : (queue.take count).length = count := by
          rw [List.length_take]
          omega
        have whole := represents
        rw [← List.take_append_drop count queue] at whole
        obtain ⟨rest, discards, restRepresents, _⟩ := discard_spec whole (by
          have countLe := represents.count_le
          omega)
        rw [lengthTake] at discards
        obtain ⟨final, reads, finalRepresents⟩ := ih (left - count) (by omega) restRepresents
        refine ⟨final, ?_, ?_⟩
        · simp only [copies, discards, reads, Option.bind_some]
          rw [← List.take_add, Nat.add_sub_cancel' inLeft]
        · rwa [List.drop_drop, Nat.add_sub_cancel' inLeft] at finalRepresents

theorem read_spec (represents : fifo.Represents kind queue) (dst : List T) :
    ∃ next, fifo.read kind dst =
        some ((queue.take dst.length ++ dst.drop (min dst.length queue.length),
          min dst.length queue.length), next) ∧
      next.Represents kind (queue.drop dst.length) := by
  obtain ⟨next, reads, nextRepresents⟩ := readLoop_spec represents dst.length
  refine ⟨next, ?_, nextRepresents⟩
  simp only [read, reads, Option.bind_eq_bind, Option.bind_some, Option.pure_def,
    List.length_take]

theorem peekItem_spec (represents : fifo.Represents kind queue) {offset : Nat}
    (inQueue : offset < queue.length) : fifo.peekItem kind offset = some queue[offset] := by
  have counted := represents.count_eq
  have countLe := represents.count_le
  have found := represents.lies offset inQueue
  change fifo.buf[(fifo.head + offset) % fifo.bufLen]? = _ at found
  simp only [peekItem, if_pos (counted ▸ inQueue), wrapIndex_eq represents.sized
    (by omega : 0 < fifo.bufLen), found, Option.bind_eq_bind, Option.bind_some]

/-! ### Adding items at the back -/

/-- The first writable slice: behind the last item up to the end of the buffer, or up to the
head when the items already go around the end. -/
def freeSlice (fifo : LinearFifo T) : Slice :=
  if fifo.head + fifo.count < fifo.bufLen then ⟨fifo.head + fifo.count, fifo.bufLen⟩
  else ⟨fifo.head + fifo.count - fifo.bufLen, fifo.head⟩

theorem writableSlice_zero (represents : fifo.Represents kind queue) :
    fifo.writableSlice 0 = some fifo.freeSlice := by
  have countLe := represents.count_le
  have headLe := represents.head_le
  simp only [writableSlice, if_neg (Nat.not_lt_zero _), checkedSub_of_le countLe,
    checkedSub_of_le (Nat.zero_le _), Nat.add_zero, Nat.sub_zero, Option.bind_eq_bind,
    Option.bind_some, freeSlice]
  by_cases straight : fifo.head + fifo.count < fifo.bufLen
  · rw [if_pos straight, if_pos straight]
    exact subslice_of_fits straight.le le_rfl
  · rw [if_neg straight, if_neg straight,
      show fifo.head + fifo.count - fifo.bufLen + (fifo.bufLen - fifo.count) = fifo.head by omega]
    exact subslice_of_fits (by omega) headLe

theorem freeSlice_start (represents : fifo.Represents kind queue) :
    (fifo.freeSlice.start) % fifo.bufLen = (fifo.head + queue.length) % fifo.bufLen := by
  have counted := represents.count_eq
  unfold freeSlice
  rw [← counted]
  by_cases straight : fifo.head + fifo.count < fifo.bufLen
  · rw [if_pos straight]
  · rw [if_neg straight]
    exact (Nat.mod_eq_sub_mod (Nat.not_lt.mp straight)).symm

theorem freeSlice_fits (represents : fifo.Represents kind queue) {count : Nat}
    (inSlice : count ≤ fifo.freeSlice.len) :
    fifo.freeSlice.start + count ≤ fifo.bufLen ∧ queue.length + count ≤ fifo.bufLen := by
  have counted := represents.count_eq
  have countLe := represents.count_le
  have headLe := represents.head_le
  unfold freeSlice Slice.len at inSlice
  unfold freeSlice
  by_cases straight : fifo.head + fifo.count < fifo.bufLen
  · rw [if_pos straight] at inSlice ⊢
    dsimp only at inSlice ⊢
    omega
  · rw [if_neg straight] at inSlice ⊢
    dsimp only at inSlice ⊢
    omega

theorem freeSlice_nonempty (represents : fifo.Represents kind queue)
    (someRoom : queue.length < fifo.bufLen) : 0 < fifo.freeSlice.len := by
  have counted := represents.count_eq
  have inside := represents.head_lt (by omega)
  unfold freeSlice Slice.len
  by_cases straight : fifo.head + fifo.count < fifo.bufLen
  · rw [if_pos straight]
    dsimp only
    omega
  · rw [if_neg straight]
    dsimp only
    omega

/-- Items written right behind the last one belong to the queue once they are counted. -/
theorem Represents.extend (represents : fifo.Represents kind queue) {start : Nat}
    (added : List T) (fits : start + added.length ≤ fifo.bufLen)
    (enough : queue.length + added.length ≤ fifo.bufLen)
    (behind : start % fifo.bufLen = (fifo.head + queue.length) % fifo.bufLen) :
    (LinearFifo.mk (overwrite fifo.buf start (added.map some)) fifo.head
      (queue.length + added.length)).Represents kind (queue ++ added) := by
  have writes : start + (added.map some).length ≤ fifo.buf.length := by
    rw [List.length_map]
    exact fits
  have sameLength := length_overwrite writes
  have headLe := represents.head_le
  have before : Lies (overwrite fifo.buf start (added.map some)) fifo.head queue := by
    refine represents.lies.overwrite_apart (fifo.buf.length - queue.length) writes ?_ ?_ ?_
    · rw [List.length_map]
      change added.length ≤ fifo.bufLen - queue.length
      omega
    · exact (Nat.sub_add_cancel represents.length_le).le
    · change (start + (fifo.bufLen - queue.length)) % fifo.bufLen = fifo.head % fifo.bufLen
      rw [← Nat.mod_add_mod, behind, Nat.mod_add_mod,
        show fifo.head + queue.length + (fifo.bufLen - queue.length) = fifo.head + fifo.bufLen by
          omega, Nat.add_mod_right]
  have after : Lies (overwrite fifo.buf start (added.map some)) (fifo.head + queue.length)
      added := by
    rw [← Lies.mod_iff, sameLength]
    change Lies _ ((fifo.head + queue.length) % fifo.bufLen) added
    rw [← behind]
    change Lies _ (start % fifo.buf.length) added
    rw [← sameLength, Lies.mod_iff]
    exact Lies.overwrite_self writes (List.prefix_refl _)
  have joined := represents.relaid sameLength represents.head_in
    (by rw [List.length_append]; exact enough) (Lies.append_iff.mpr ⟨before, after⟩)
  rwa [List.length_append] at joined

theorem fill_freeSlice (represents : fifo.Represents kind queue) (added : List T)
    (inSlice : added.length ≤ fifo.freeSlice.len) :
    ∃ filled next, fifo.freeSlice.copyFrom fifo.buf added = some filled ∧
      update { fifo with buf := filled } added.length = some next ∧
      next.Represents kind (queue ++ added) ∧ next.bufLen = fifo.bufLen := by
  obtain ⟨fits, enough⟩ := freeSlice_fits represents inSlice
  have writes : fifo.freeSlice.start + (added.map some).length ≤ fifo.buf.length := by
    rw [List.length_map]
    exact fits
  have sameLength := length_overwrite writes
  refine ⟨overwrite fifo.buf fifo.freeSlice.start (added.map some), _, ?_, ?_,
    represents.extend added fits enough (freeSlice_start represents), sameLength⟩
  · rw [Slice.copyFrom, if_pos inSlice, writeAt_of_fits writes]
  · have counted : fifo.count + added.length ≤
        (overwrite fifo.buf fifo.freeSlice.start (added.map some)).length := by
      rw [sameLength, represents.count_eq]
      exact enough
    rw [update]
    exact (if_pos counted).trans (by rw [represents.count_eq])

theorem writeLoop_spec (represents : fifo.Represents kind queue) (src : List T)
    (enough : queue.length + src.length ≤ fifo.bufLen) :
    ∃ next, fifo.writeLoop src = some next ∧ next.Represents kind (queue ++ src) := by
  induction size : src.length using Nat.strong_induction_on generalizing fifo queue src with
  | _ size ih =>
      unfold writeLoop
      by_cases done : src = []
      · subst done
        exact ⟨fifo, dif_pos rfl, by rwa [List.append_nil]⟩
      have someLeft : 0 < src.length := List.length_pos_iff.mpr done
      have someRoom := freeSlice_nonempty represents (by omega)
      rw [dif_neg done, writableSlice_zero represents]
      simp only [dif_neg someRoom.ne', Option.bind_eq_bind]
      have inSlice : min fifo.freeSlice.len src.length ≤ fifo.freeSlice.len :=
        Nat.min_le_left _ _
      have inSource : min fifo.freeSlice.len src.length ≤ src.length := Nat.min_le_right _ _
      have progress : 0 < min fifo.freeSlice.len src.length := by omega
      generalize min fifo.freeSlice.len src.length = count at inSlice inSource progress ⊢
      have lengthTake : (src.take count).length = count := by
        rw [List.length_take]
        omega
      obtain ⟨filled, longer, fills, updates, longerRepresents, sameLength⟩ :=
        fill_freeSlice represents (src.take count) (by omega)
      rw [lengthTake] at updates
      obtain ⟨next, writes, nextRepresents⟩ :=
        ih (src.drop count).length (by rw [List.length_drop]; omega) longerRepresents
          (src.drop count) (by
            rw [List.length_append, lengthTake, List.length_drop]
            omega) rfl
      rw [List.append_assoc, List.take_append_drop] at nextRepresents
      refine ⟨next, ?_, nextRepresents⟩
      simp only [fills, updates, writes, Option.bind_some]

/-- `write`: everything is appended when the storage may hold it, else nothing is. -/
theorem write_spec (represents : fifo.Represents kind queue) (src : List T) :
    (queue.length + src.length ≤ kind.limit ∧ ∃ next,
      fifo.write kind src = some (.ok, next) ∧ next.Represents kind (queue ++ src)) ∨
    (kind.limit < queue.length + src.length ∧ ∃ next,
      fifo.write kind src = some (.allocError, next) ∧ next.Represents kind queue) := by
  rcases ensureUnusedCapacity_spec represents src.length with
    ⟨small, roomy, ensures, roomyRepresents, enough⟩ | ⟨large, same, ensures, sameRepresents⟩
  · obtain ⟨next, writes, nextRepresents⟩ := writeLoop_spec roomyRepresents src enough
    refine Or.inl ⟨small, next, ?_, nextRepresents⟩
    have counted := roomyRepresents.count_eq
    simp only [write, ensures, writeAssumeCapacity, writableLength_eq roomyRepresents,
      if_pos (by omega : src.length ≤ roomy.bufLen - roomy.count), writes, Option.bind_eq_bind,
      Option.bind_some, Option.pure_def]
  · refine Or.inr ⟨large, same, ?_, sameRepresents⟩
    simp only [write, ensures, Option.bind_eq_bind, Option.bind_some, Option.pure_def]

theorem writeItemAssumeCapacity_spec (represents : fifo.Represents kind queue) (item : T)
    (enough : queue.length + 1 ≤ fifo.bufLen) :
    ∃ next, fifo.writeItemAssumeCapacity kind item = some next ∧
      next.Represents kind (queue ++ [item]) := by
  have someRoom : 0 < fifo.bufLen := by omega
  have inside := Nat.mod_lt (fifo.head + queue.length) someRoom
  have extended := represents.extend [item] inside enough (Nat.mod_mod _ _)
  refine ⟨_, ?_, extended⟩
  have counted := represents.count_eq
  have writes : (fifo.head + queue.length) % fifo.bufLen + [some item].length ≤
      fifo.buf.length := inside
  have sameLength := length_overwrite writes
  simp only [writeItemAssumeCapacity, counted, wrapIndex_eq represents.sized someRoom,
    writeAt_of_fits writes, Option.bind_eq_bind, Option.bind_some, update]
  exact if_pos (enough.trans_eq sameLength.symm)

theorem writeItem_spec (represents : fifo.Represents kind queue) (item : T) :
    (queue.length + 1 ≤ kind.limit ∧ ∃ next,
      fifo.writeItem kind item = some (.ok, next) ∧ next.Represents kind (queue ++ [item])) ∨
    (kind.limit < queue.length + 1 ∧ ∃ next,
      fifo.writeItem kind item = some (.allocError, next) ∧ next.Represents kind queue) := by
  rcases ensureUnusedCapacity_spec represents 1 with
    ⟨small, roomy, ensures, roomyRepresents, enough⟩ | ⟨large, same, ensures, sameRepresents⟩
  · obtain ⟨next, writes, nextRepresents⟩ :=
      writeItemAssumeCapacity_spec roomyRepresents item enough
    refine Or.inl ⟨small, next, ?_, nextRepresents⟩
    simp only [writeItem, ensures, writes, Option.bind_eq_bind, Option.bind_some,
      Option.pure_def]
  · refine Or.inr ⟨large, same, ?_, sameRepresents⟩
    simp only [writeItem, ensures, Option.bind_eq_bind, Option.bind_some, Option.pure_def]

theorem freeSlice_len_of_aligned (atStart : fifo.head = 0)
    (represents : fifo.Represents kind queue) :
    fifo.freeSlice.len = fifo.bufLen - queue.length := by
  have counted := represents.count_eq
  have countLe := represents.count_le
  unfold freeSlice Slice.len
  by_cases straight : fifo.head + fifo.count < fifo.bufLen
  · rw [if_pos straight]
    dsimp only
    omega
  · rw [if_neg straight]
    dsimp only
    omega

/-- The slice that `writable_with_size` hands out is the start of the free cells. -/
theorem writableWithSize_spec (represents : fifo.Represents kind queue) (size : Nat) :
    (queue.length + size ≤ kind.limit ∧ ∃ next,
      fifo.writableWithSize kind size =
        some (some ⟨next.freeSlice.start, next.freeSlice.start + size⟩, next) ∧
      next.Represents kind queue ∧ size ≤ next.freeSlice.len) ∨
    (kind.limit < queue.length + size ∧ ∃ next,
      fifo.writableWithSize kind size = some (none, next) ∧ next.Represents kind queue) := by
  rcases ensureUnusedCapacity_spec represents size with
    ⟨small, roomy, ensures, roomyRepresents, enough⟩ | ⟨large, same, ensures, sameRepresents⟩
  · -- realigned or not, the free cells begin with enough of them
    have aligned : ∃ next, (if roomy.freeSlice.len < size then roomy.realign else some roomy) =
        some next ∧ next.Represents kind queue ∧ size ≤ next.freeSlice.len := by
      by_cases short : roomy.freeSlice.len < size
      · obtain ⟨next, aligns, nextRepresents, atStart, sameLength⟩ :=
          realign_spec roomyRepresents
        refine ⟨next, (if_pos short).trans aligns, nextRepresents, ?_⟩
        rw [freeSlice_len_of_aligned atStart nextRepresents]
        omega
      · exact ⟨roomy, if_neg short, roomyRepresents, Nat.not_lt.mp short⟩
    obtain ⟨next, aligns, nextRepresents, fits⟩ := aligned
    refine Or.inl ⟨small, next, ?_, nextRepresents, fits⟩
    simp only [writableWithSize, ensures, writableSlice_zero roomyRepresents, aligns,
      writableSlice_zero nextRepresents, if_pos fits, Option.bind_eq_bind, Option.bind_some,
      Option.pure_def]
  · refine Or.inr ⟨large, same, ?_, sameRepresents⟩
    simp only [writableWithSize, ensures, Option.bind_eq_bind, Option.bind_some,
      Option.pure_def]

end LinearFifo

end Bun.Collections
