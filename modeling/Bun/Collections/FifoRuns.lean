/-
Sequences of operations on a fifo, next to the same operations on a plain queue.
-/

import Bun.Collections.FifoGaps

set_option autoImplicit false

namespace Bun.Collections

open Bun.Foundation

/-- An operation with its arguments.  `writableWithSize` is followed by the caller filling the
slice and by `update`. -/
inductive FifoOp (T : Type) where
  | write (src : List T)
  | writeItem (item : T)
  | read (dst : List T)
  | readItem
  | discard (count : Nat)
  | unget (src : List T)
  | orderedRemoveItem (offset : Nat)
  | peekItem (offset : Nat)
  | writableWithSize (filled : List T) (used : Nat)
  | ensureTotalCapacity (size : Nat)
  | ensureUnusedCapacity (size : Nat)
deriving DecidableEq, Repr

inductive FifoAnswer (T : Type) where
  | done
  | alloc (result : AllocResult)
  | item (item : Option T)
  | copied (dst : List T) (count : Nat)
deriving DecidableEq, Repr

namespace FifoOp

variable {T : Type}

/-- What the operation documents or asserts about its arguments. -/
def Allowed (queue : List T) : FifoOp T → Prop
  | discard count => count ≤ queue.length
  | orderedRemoveItem offset => offset < queue.length
  | peekItem offset => offset < queue.length
  | writableWithSize filled used => used ≤ filled.length
  | _ => True

def addTo (limit : Nat) (queue : List T) (size : Nat) (longer : List T) :
    FifoAnswer T × List T :=
  if queue.length + size ≤ limit then (.alloc .ok, longer) else (.alloc .allocError, queue)

/-- The operation on a plain list: items come in at the back and leave at the front. -/
def onQueue (limit : Nat) (queue : List T) : FifoOp T → FifoAnswer T × List T
  | write src => addTo limit queue src.length (queue ++ src)
  | writeItem item => addTo limit queue 1 (queue ++ [item])
  | read dst =>
      (.copied (queue.take dst.length ++ dst.drop (min dst.length queue.length))
        (min dst.length queue.length), queue.drop dst.length)
  | readItem => (.item queue.head?, queue.tail)
  | discard count => (.done, queue.drop count)
  | unget src => addTo limit queue src.length (src ++ queue)
  | orderedRemoveItem offset => (.done, queue.eraseIdx offset)
  | peekItem offset => (.item queue[offset]?, queue)
  | writableWithSize filled used => addTo limit queue filled.length (queue ++ filled.take used)
  | ensureTotalCapacity size =>
      (.alloc (if size ≤ limit then .ok else .allocError), queue)
  | ensureUnusedCapacity size => addTo limit queue size queue

def allocAnswer (outcome : AllocResult × LinearFifo T) : FifoAnswer T × LinearFifo T :=
  (.alloc outcome.1, outcome.2)

def onFifo (kind : Buffer) (fifo : LinearFifo T) :
    FifoOp T → Option (FifoAnswer T × LinearFifo T)
  | write src => (fifo.write kind src).map allocAnswer
  | writeItem item => (fifo.writeItem kind item).map allocAnswer
  | read dst =>
      (fifo.read kind dst).map fun ((filled, count), next) => (.copied filled count, next)
  | readItem => (fifo.readItem kind).map fun (item, next) => (.item item, next)
  | discard count => (fifo.discard kind count).map fun next => (.done, next)
  | unget src => (fifo.unget kind src).map allocAnswer
  | orderedRemoveItem offset =>
      (fifo.orderedRemoveItem kind offset).map fun next => (.done, next)
  | peekItem offset => (fifo.peekItem kind offset).map fun item => (.item (some item), fifo)
  | writableWithSize filled used => do
      match ← fifo.writableWithSize kind filled.length with
      | (none, next) => return (.alloc .allocError, next)
      | (some slice, next) =>
          let buf ← slice.copyFrom next.buf filled
          let longer ← { next with buf := buf }.update used
          return (.alloc .ok, longer)
  | ensureTotalCapacity size =>
      (fifo.ensureTotalCapacity kind size).map allocAnswer
  | ensureUnusedCapacity size =>
      (fifo.ensureUnusedCapacity kind size).map allocAnswer

/-- The operations that wrap an index into a buffer of no cells: putting nothing back, and
without a mask also discarding nothing. -/
def WrapsIntoNothing (kind : Buffer) (fifo : LinearFifo T) : FifoOp T → Prop
  | unget src => fifo.bufLen = 0 ∧ src = []
  | discard _ => fifo.bufLen = 0 ∧ kind ≠ .dynamic
  | _ => False

end FifoOp

namespace LinearFifo

variable {T : Type} {kind : Buffer} {fifo : LinearFifo T} {queue : List T}

/-! ### One operation -/

theorem fillUsed_spec (represents : fifo.Represents kind queue) {filled : List T} {used : Nat}
    (inSlice : filled.length ≤ fifo.freeSlice.len) (usedLe : used ≤ filled.length) :
    ∃ buf next, Slice.copyFrom ⟨fifo.freeSlice.start, fifo.freeSlice.start + filled.length⟩
        fifo.buf filled = some buf ∧
      update { fifo with buf := buf } used = some next ∧
      next.Represents kind (queue ++ filled.take used) := by
  obtain ⟨buf, next, copies, updates, nextRepresents, sameLength⟩ :=
    fill_freeSlice represents filled inSlice
  have copiesHere : Slice.copyFrom ⟨fifo.freeSlice.start, fifo.freeSlice.start + filled.length⟩
      fifo.buf filled = some buf := by
    rw [Slice.copyFrom, if_pos inSlice] at copies
    rw [Slice.copyFrom, if_pos (by simp only [Slice.len]; omega)]
    exact copies
  unfold update at updates
  by_cases fits : fifo.count + filled.length ≤ bufLen { fifo with buf := buf }
  · rw [if_pos fits, Option.some_inj] at updates
    subst updates
    have laid := nextRepresents.lies
    rw [← List.take_append_drop used filled, ← List.append_assoc, Lies.append_iff] at laid
    have lengthTake : (filled.take used).length = used := by
      rw [List.length_take]
      omega
    have counted := represents.count_eq
    have shorter := nextRepresents.relaid rfl nextRepresents.head_in (by
      rw [List.length_append, lengthTake]
      change _ ≤ buf.length
      change fifo.count + filled.length ≤ buf.length at fits
      omega) laid.1
    refine ⟨buf, _, copiesHere, if_pos (by dsimp only; omega), ?_⟩
    rw [List.length_append, lengthTake, ← counted] at shorter
    exact shorter
  · rw [if_neg fits] at updates
    exact absurd updates (by simp)

theorem addTo_spec {outcome : Option (AllocResult × LinearFifo T)} {size : Nat}
    {longer : List T}
    (spec : (queue.length + size ≤ kind.limit ∧ ∃ next,
        outcome = some (.ok, next) ∧ next.Represents kind longer) ∨
      (kind.limit < queue.length + size ∧ ∃ next,
        outcome = some (.allocError, next) ∧ next.Represents kind queue)) :
    ∃ next, outcome.map FifoOp.allocAnswer =
        some ((FifoOp.addTo kind.limit queue size longer).1, next) ∧
      next.Represents kind (FifoOp.addTo kind.limit queue size longer).2 := by
  unfold FifoOp.addTo
  rcases spec with ⟨small, next, rfl, after⟩ | ⟨large, next, rfl, after⟩
  · rw [if_pos small]
    exact ⟨next, rfl, after⟩
  · rw [if_neg large.not_ge]
    exact ⟨next, rfl, after⟩

theorem step_spec (represents : fifo.Represents kind queue) {op : FifoOp T}
    (allowed : op.Allowed queue) (wraps : ¬ op.WrapsIntoNothing kind fifo) :
    ∃ next, op.onFifo kind fifo = some ((op.onQueue kind.limit queue).1, next) ∧
      next.Represents kind (op.onQueue kind.limit queue).2 := by
  cases op with
  | write src => exact addTo_spec (write_spec represents src)
  | writeItem item => exact addTo_spec (writeItem_spec represents item)
  | read dst =>
      obtain ⟨next, reads, after⟩ := read_spec represents dst
      exact ⟨next, by rw [FifoOp.onFifo, reads]; rfl, after⟩
  | readItem =>
      obtain ⟨next, reads, after⟩ := readItem_spec represents
      exact ⟨next, by rw [FifoOp.onFifo, reads]; rfl, after⟩
  | discard count =>
      have inQueue : count ≤ queue.length := allowed
      have parted := represents
      rw [← List.take_append_drop count queue] at parted
      obtain ⟨next, discards, after, _⟩ := discard_spec parted (by
        intro noRoom
        by_contra isStatic
        exact wraps ⟨noRoom, isStatic⟩)
      rw [List.length_take, Nat.min_eq_left inQueue] at discards
      exact ⟨next, by rw [FifoOp.onFifo, discards]; rfl, after⟩
  | unget src =>
      refine addTo_spec (unget_spec represents src ?_)
      intro nothing
      by_contra noRoom
      exact wraps ⟨Nat.eq_zero_of_not_pos noRoom, nothing⟩
  | orderedRemoveItem offset =>
      have inQueue : offset < queue.length := allowed
      have parted := represents
      rw [← List.take_append_drop offset queue, List.drop_eq_getElem_cons inQueue] at parted
      obtain ⟨next, removes, after⟩ := orderedRemoveItem_spec parted
      rw [List.length_take, Nat.min_eq_left inQueue.le] at removes
      rw [← List.eraseIdx_eq_take_drop_succ] at after
      exact ⟨next, by rw [FifoOp.onFifo, removes]; rfl, after⟩
  | peekItem offset =>
      have inQueue : offset < queue.length := allowed
      refine ⟨fifo, ?_, represents⟩
      rw [FifoOp.onFifo, peekItem_spec represents inQueue, FifoOp.onQueue,
        List.getElem?_eq_getElem inQueue]
      rfl
  | writableWithSize filled used =>
      have usedLe : used ≤ filled.length := allowed
      simp only [FifoOp.onQueue, FifoOp.addTo]
      rcases writableWithSize_spec represents filled.length with
        ⟨small, next, hands, after, inSlice⟩ | ⟨large, next, hands, after⟩
      · obtain ⟨buf, longer, copies, updates, longerAfter⟩ :=
          fillUsed_spec after inSlice usedLe
        refine ⟨longer, ?_, by rwa [if_pos small]⟩
        simp only [FifoOp.onFifo, hands, copies, updates, if_pos small, Option.bind_eq_bind,
          Option.bind_some, Option.pure_def]
      · refine ⟨next, ?_, by rwa [if_neg large.not_ge]⟩
        simp only [FifoOp.onFifo, hands, if_neg large.not_ge, Option.bind_eq_bind,
          Option.bind_some, Option.pure_def]
  | ensureTotalCapacity size =>
      simp only [FifoOp.onQueue]
      rcases ensureTotalCapacity_spec represents size with
        ⟨small, next, ensures, after, _⟩ | ⟨large, next, ensures, after⟩
      · exact ⟨next, by rw [FifoOp.onFifo, ensures, if_pos small]; rfl, after⟩
      · exact ⟨next, by rw [FifoOp.onFifo, ensures, if_neg large.not_ge]; rfl, after⟩
  | ensureUnusedCapacity size =>
      refine addTo_spec ?_
      rcases ensureUnusedCapacity_spec represents size with
        ⟨small, next, ensures, after, _⟩ | refused
      · exact Or.inl ⟨small, next, ensures, after⟩
      · exact Or.inr refused

theorem step_wrapsIntoNothing (represents : fifo.Represents kind queue) {op : FifoOp T}
    (wraps : op.WrapsIntoNothing kind fifo) : op.onFifo kind fifo = none := by
  cases op with
  | unget src =>
      obtain ⟨noRoom, rfl⟩ := wraps
      rw [FifoOp.onFifo, unget_nil_empty represents noRoom, Option.map_none]
  | discard count =>
      obtain ⟨noRoom, isStatic⟩ := wraps
      rw [FifoOp.onFifo, discard_static_empty represents noRoom isStatic, Option.map_none]
  | _ => exact absurd wraps id

/-! ### Runs -/

def run (kind : Buffer) (fifo : LinearFifo T) :
    List (FifoOp T) → Option (List (FifoAnswer T) × LinearFifo T)
  | [] => some ([], fifo)
  | op :: ops => do
      let (answer, next) ← op.onFifo kind fifo
      let (answers, last) ← run kind next ops
      return (answer :: answers, last)

end LinearFifo

def runQueue {T : Type} (limit : Nat) (queue : List T) :
    List (FifoOp T) → List (FifoAnswer T) × List T
  | [] => ([], queue)
  | op :: ops =>
      let (answer, next) := op.onQueue limit queue
      let (answers, last) := runQueue limit next ops
      (answer :: answers, last)

def AllAllowed {T : Type} (limit : Nat) (queue : List T) : List (FifoOp T) → Prop
  | [] => True
  | op :: ops => op.Allowed queue ∧ AllAllowed limit (op.onQueue limit queue).2 ops

namespace LinearFifo

variable {T : Type} {kind : Buffer} {fifo : LinearFifo T} {queue : List T}

def NeverWrapsIntoNothing (kind : Buffer) (fifo : LinearFifo T) (ops : List (FifoOp T)) : Prop :=
  ∀ before op after answers reached, ops = before ++ op :: after →
    run kind fifo before = some (answers, reached) → ¬ op.WrapsIntoNothing kind reached

/-- The run answers as the queue does, ends with the same items, and keeps the counters in the
buffer. -/
def BehavesAsQueue (kind : Buffer) (fifo : LinearFifo T) (queue : List T)
    (ops : List (FifoOp T)) : Prop :=
  ∃ last, run kind fifo ops = some ((runQueue kind.limit queue ops).1, last) ∧
    last.Represents kind (runQueue kind.limit queue ops).2

theorem run_cons {op : FifoOp T} {answer : FifoAnswer T} {next : LinearFifo T}
    (steps : op.onFifo kind fifo = some (answer, next)) (ops : List (FifoOp T)) :
    run kind fifo (op :: ops) =
      (run kind next ops).map fun rest => (answer :: rest.1, rest.2) := by
  simp only [run, steps, Option.bind_eq_bind, Option.bind_some, Option.pure_def]
  cases run kind next ops <;> rfl

theorem neverWraps_cons {op : FifoOp T} {answer : FifoAnswer T} {next : LinearFifo T}
    (steps : op.onFifo kind fifo = some (answer, next)) (ops : List (FifoOp T)) :
    NeverWrapsIntoNothing kind fifo (op :: ops) ↔
      ¬ op.WrapsIntoNothing kind fifo ∧ NeverWrapsIntoNothing kind next ops := by
  constructor
  · intro never
    refine ⟨never [] op ops [] fifo rfl rfl, ?_⟩
    intro before later after answers reached same runs
    refine never (op :: before) later after (answer :: answers) reached (by rw [same]; rfl) ?_
    rw [run_cons steps, runs, Option.map_some]
  · rintro ⟨first, never⟩ before later after answers reached same runs
    cases before with
    | nil =>
        obtain ⟨rfl, rfl⟩ : op = later ∧ ops = after := by simpa using same
        obtain rfl : fifo = reached := by
          simpa [run] using congrArg (Option.map Prod.snd) runs
        exact first
    | cons other before =>
        obtain ⟨rfl, rfl⟩ : op = other ∧ ops = before ++ later :: after := by simpa using same
        rw [run_cons steps] at runs
        obtain ⟨⟨rest, last⟩, found, samePair⟩ := Option.map_eq_some_iff.mp runs
        obtain ⟨_, rfl⟩ := Prod.mk.inj samePair
        exact never before later after rest last rfl found

theorem run_behaves (represents : fifo.Represents kind queue) {ops : List (FifoOp T)}
    (allowed : AllAllowed kind.limit queue ops) :
    BehavesAsQueue kind fifo queue ops ↔ NeverWrapsIntoNothing kind fifo ops := by
  induction ops generalizing fifo queue with
  | nil =>
      constructor
      · intro _ before op after answers reached same _
        exact absurd same.symm (by simp)
      · intro _
        exact ⟨fifo, rfl, represents⟩
  | cons op ops ih =>
      obtain ⟨allowedNow, allowedLater⟩ := allowed
      by_cases wraps : op.WrapsIntoNothing kind fifo
      · constructor
        · rintro ⟨last, runs, _⟩
          rw [run, step_wrapsIntoNothing represents wraps] at runs
          exact absurd runs (by simp)
        · intro never
          exact absurd wraps (never [] op ops [] fifo rfl rfl)
      · obtain ⟨next, steps, after⟩ := step_spec represents allowedNow wraps
        rw [neverWraps_cons steps, and_iff_right wraps, ← ih after allowedLater]
        unfold BehavesAsQueue
        rw [run_cons steps]
        constructor
        · rintro ⟨last, runs, lastRepresents⟩
          obtain ⟨⟨rest, reached⟩, found, samePair⟩ := Option.map_eq_some_iff.mp runs
          obtain ⟨sameAnswers, rfl⟩ := Prod.mk.inj samePair
          have sameRest : rest =
              (runQueue kind.limit (op.onQueue kind.limit queue).2 ops).1 :=
            (List.cons.inj sameAnswers).2
          exact ⟨reached, by rw [found, sameRest], lastRepresents⟩
        · rintro ⟨last, runs, lastRepresents⟩
          exact ⟨last, by rw [runs]; rfl, lastRepresents⟩

/-- A fifo used as documented is a list queue, with its counters inside the buffer, in exactly
the runs that never put nothing back into a buffer without cells, nor discard nothing from a
static one. -/
theorem fifo_behavesAsQueue (kind : Buffer) (ops : List (FifoOp T))
    (allowed : AllAllowed kind.limit [] ops) :
    BehavesAsQueue kind (init kind) [] ops ↔ NeverWrapsIntoNothing kind (init kind) ops :=
  run_behaves (init_represents kind) allowed

theorem threeSlots_behavesAsQueue :
    BehavesAsQueue (.static 3) (init (.static 3)) []
      [FifoOp.write [1, 2, 3], .readItem, .writeItem 4, .orderedRemoveItem 1, .unget [5],
        .peekItem 2] := by
  refine (fifo_behavesAsQueue (.static 3) _ (by
    simp [AllAllowed, FifoOp.Allowed, FifoOp.onQueue, FifoOp.addTo, Buffer.limit])).mpr ?_
  intro before op after answers reached same _
  have member : op ∈ before ++ op :: after := by simp
  rw [← same] at member
  simp only [List.mem_cons, List.not_mem_nil, or_false] at member
  rcases member with rfl | rfl | rfl | rfl | rfl | rfl <;>
    simp [FifoOp.WrapsIntoNothing]

/-- Putting an empty slice back into a new growable fifo subtracts one from the length of the
empty buffer. -/
theorem ungetNothing_fails :
    AllAllowed Buffer.dynamic.limit [] [FifoOp.unget ([] : List Nat)] ∧
      ¬ BehavesAsQueue .dynamic (init .dynamic) [] [FifoOp.unget ([] : List Nat)] := by
  refine ⟨by simp [AllAllowed, FifoOp.Allowed], ?_⟩
  rintro ⟨last, runs, _⟩
  have fails : run .dynamic (init .dynamic) [FifoOp.unget ([] : List Nat)] = none := by decide
  rw [fails] at runs
  cases runs

end LinearFifo

end Bun.Collections
