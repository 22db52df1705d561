/-
Reads from an input that may still grow.

A read changes a state and gives a value or an error, and keeps the state in either case.  One
error says that the input was too short.  A read is tame if it only goes forward, and if more input
does not change what it gives, unless it gave that error.

A second read skips the first one if it succeeds wherever the first one does, in the same state,
and where it succeeds the first one does not find the input too short.
-/

import Mathlib.Data.Nat.Notation

set_option autoImplicit false

namespace Bun.Foundation

/-- A computation that keeps its state also when it fails. -/
def Read (σ ε α : Type) : Type :=
  σ → Except ε α × σ

namespace Read

variable {σ τ ε α β γ : Type}

protected def pure (value : α) : Read σ ε α :=
  fun state => (.ok value, state)

protected def bind (read : Read σ ε α) (next : α → Read σ ε β) : Read σ ε β :=
  fun state =>
    match read state with
    | (.ok value, state') => next value state'
    | (.error error, state') => (.error error, state')

instance : Monad (Read σ ε) where
  pure := Read.pure
  bind := Read.bind

def fail (error : ε) : Read σ ε α :=
  fun state => (.error error, state)

def ofExcept : Except ε α → Read σ ε α
  | .ok value => pure value
  | .error error => fail error

def times (read : Read σ ε α) : ℕ → Read σ ε (List α)
  | 0 => pure []
  | count + 1 => do
      let value ← read
      let values ← times read count
      pure (value :: values)

def pair (first : Read σ ε α) (second : Read σ ε β) : Read σ ε (α × β) := do
  let left ← first
  let right ← second
  pure (left, right)

theorem bind_ok {read : Read σ ε α} {next : α → Read σ ε β} {state state' : σ} {value : α}
    (isRead : read state = (.ok value, state')) : (read >>= next) state = next value state' := by
  change Read.bind read next state = _
  unfold Read.bind
  rw [isRead]

theorem bind_error {read : Read σ ε α} {next : α → Read σ ε β} {state state' : σ} {error : ε}
    (isRead : read state = (.error error, state')) :
    (read >>= next) state = (.error error, state') := by
  change Read.bind read next state = _
  unfold Read.bind
  rw [isRead]

/-- What two reads give comes from the second one, or is the error of the first. -/
theorem bind_cases (read : Read σ ε α) (next : α → Read σ ε β) (state : σ) :
    (∃ value state', read state = (.ok value, state') ∧
      (read >>= next) state = next value state') ∨
    ∃ error state', read state = (.error error, state') ∧
      (read >>= next) state = (.error error, state') := by
  cases isRead : read state with
  | mk result state' =>
      cases result with
      | ok value => exact .inl ⟨value, state', rfl, bind_ok isRead⟩
      | error error => exact .inr ⟨error, state', rfl, bind_error isRead⟩

theorem of_bind_ok {read : Read σ ε α} {next : α → Read σ ε β} {state state' : σ} {result : β}
    (isRead : (read >>= next) state = (.ok result, state')) :
    ∃ value between, read state = (.ok value, between) ∧
      next value between = (.ok result, state') := by
  cases bind_cases read next state with
  | inl succeeds =>
      obtain ⟨value, between, isFirst, isBoth⟩ := succeeds
      exact ⟨value, between, isFirst, isBoth.symm.trans isRead⟩
  | inr fails =>
      obtain ⟨error, between, -, isBoth⟩ := fails
      cases isBoth.symm.trans isRead

/-- What follows a read sees the state only through what the read leaves. -/
theorem bind_congr {read other : Read σ ε α} (next : α → Read σ ε β) {state state' : σ}
    (same : read state = other state') : (read >>= next) state = (other >>= next) state' := by
  change Read.bind read next state = Read.bind other next state'
  unfold Read.bind
  rw [same]

theorem bind_congr_right {read : Read σ ε α} {next other : α → Read σ ε β}
    (same : ∀ state state' value, read state = (.ok value, state') → next value = other value) :
    read >>= next = read >>= other := by
  funext state
  cases bind_cases read next state with
  | inl succeeds =>
      obtain ⟨value, state', isRead, isBoth⟩ := succeeds
      rw [isBoth, bind_ok isRead, same state state' value isRead]
  | inr fails =>
      obtain ⟨error, state', isRead, isBoth⟩ := fails
      rw [isBoth, bind_error isRead]

theorem bind_pure (read : Read σ ε α) : (read >>= pure) = read := by
  funext state
  cases bind_cases read pure state with
  | inl succeeds =>
      obtain ⟨value, state', isRead, isBoth⟩ := succeeds
      exact isBoth.trans isRead.symm
  | inr fails =>
      obtain ⟨error, state', isRead, isBoth⟩ := fails
      exact isBoth.trans isRead.symm

theorem bind_assoc (read : Read σ ε α) (next : α → Read σ ε β) (last : β → Read σ ε γ) :
    (read >>= next) >>= last = read >>= fun value => next value >>= last := by
  funext state
  cases bind_cases read next state with
  | inl succeeds =>
      obtain ⟨value, state', isRead, isBoth⟩ := succeeds
      rw [bind_ok isRead]
      exact bind_congr last isBoth
  | inr fails =>
      obtain ⟨error, state', isRead, isBoth⟩ := fails
      rw [bind_error isRead, bind_error isBoth]

theorem times_succ (read : Read σ ε α) (count : ℕ) :
    times read (count + 1) =
      read >>= fun value => times read count >>= fun values => pure (value :: values) :=
  rfl

theorem times_add (read : Read σ ε α) (count more : ℕ) :
    times read (count + more) =
      times read count >>= fun values =>
        times read more >>= fun others => pure (values ++ others) := by
  induction count with
  | zero =>
      rw [Nat.zero_add]
      exact (bind_pure (times read more)).symm
  | succ count ih =>
      rw [Nat.succ_add, times_succ, times_succ, ih, bind_assoc]
      apply congrArg (read >>= ·)
      funext value
      rw [bind_assoc, bind_assoc]
      apply congrArg (times read count >>= ·)
      funext values
      rw [bind_assoc]
      rfl

end Read

/-! ### More input -/

/-- States of an input that may grow, and the error that there is too little of it. -/
structure Growing (σ τ ε : Type) where
  grow : σ → τ → σ
  short : ε
  /-- What a read may do to a state. -/
  ahead : σ → σ → Prop
  refl : ∀ state, ahead state state
  trans : ∀ a b c, ahead a b → ahead b c → ahead a c
  valid : σ → Prop
  valid_ahead : ∀ state state', ahead state state' → valid state → valid state'

namespace Read

variable {σ τ ε α β γ : Type} {input : Growing σ τ ε}

/-- The read goes forward, and more input changes nothing, unless it found too little of it. -/
structure Tame (input : Growing σ τ ε) (read : Read σ ε α) : Prop where
  forward : ∀ state, input.ahead state (read state).2
  steady : ∀ state more, (read state).1 ≠ .error input.short →
    read (input.grow state more) = ((read state).1, input.grow (read state).2 more)

theorem Tame.ahead {read : Read σ ε α} (tame : Tame input read) {state state' : σ}
    {result : Except ε α} (isRead : read state = (result, state')) : input.ahead state state' := by
  have forward := tame.forward state
  rw [isRead] at forward
  exact forward

theorem Tame.ok {read : Read σ ε α} (tame : Tame input read) {state state' : σ} {value : α}
    (isRead : read state = (.ok value, state')) (more : τ) :
    read (input.grow state more) = (.ok value, input.grow state' more) := by
  have same := tame.steady state more
  rw [isRead] at same
  apply same
  intro isShort
  cases isShort

theorem Tame.error {read : Read σ ε α} (tame : Tame input read) {state state' : σ} {error : ε}
    (isRead : read state = (.error error, state')) (other : error ≠ input.short) (more : τ) :
    read (input.grow state more) = (.error error, input.grow state' more) := by
  have same := tame.steady state more
  rw [isRead] at same
  apply same
  intro isShort
  exact other (Except.error.inj isShort)

theorem tame_pure (value : α) : Tame input (pure value : Read σ ε α) :=
  ⟨input.refl, fun _ _ _ => rfl⟩

theorem tame_fail (error : ε) : Tame input (fail error : Read σ ε α) :=
  ⟨input.refl, fun _ _ _ => rfl⟩

theorem tame_ofExcept (result : Except ε α) : Tame input (ofExcept result : Read σ ε α) := by
  cases result with
  | ok value => exact tame_pure value
  | error error => exact tame_fail error

theorem tame_bind {read : Read σ ε α} {next : α → Read σ ε β} (first : Tame input read)
    (later : ∀ value, Tame input (next value)) : Tame input (read >>= next) where
  forward := by
    intro state
    cases bind_cases read next state with
    | inl succeeds =>
        obtain ⟨value, state', isRead, isBoth⟩ := succeeds
        rw [isBoth]
        exact input.trans _ _ _ (first.ahead isRead) ((later value).forward state')
    | inr fails =>
        obtain ⟨error, state', isRead, isBoth⟩ := fails
        rw [isBoth]
        exact first.ahead isRead
  steady := by
    intro state more notShort
    cases bind_cases read next state with
    | inl succeeds =>
        obtain ⟨value, state', isRead, isBoth⟩ := succeeds
        rw [isBoth] at notShort ⊢
        rw [bind_ok (first.ok isRead more)]
        exact (later value).steady state' more notShort
    | inr fails =>
        obtain ⟨error, state', isRead, isBoth⟩ := fails
        rw [isBoth] at notShort ⊢
        apply bind_error
        apply first.error isRead
        intro isShort
        exact notShort (congrArg Except.error isShort)

theorem tame_times {read : Read σ ε α} (tame : Tame input read) (count : ℕ) :
    Tame input (times read count) := by
  induction count with
  | zero => exact tame_pure []
  | succ count ih => exact tame_bind tame fun _ => tame_bind ih fun _ => tame_pure _

/-! ### Skipping -/

structure Skips (input : Growing σ τ ε) (skip : Read σ ε α) (read : Read σ ε β) : Prop where
  /-- Where the second read succeeds, the first one does, and ends in the same state. -/
  ofRead : ∀ state state' value, input.valid state → read state = (.ok value, state') →
    ∃ skipped, skip state = (.ok skipped, state')
  /-- Where the first one succeeds, the second one either does, and ends in the same state, or
  fails for another reason than too little input. -/
  ofSkip : ∀ state state' skipped, input.valid state → skip state = (.ok skipped, state') →
    (∃ value, read state = (.ok value, state')) ∨
      ∃ error between, read state = (.error error, between) ∧ error ≠ input.short

theorem skips_pure (skipped : α) (value : β) :
    Skips input (pure skipped : Read σ ε α) (pure value) where
  ofRead := by
    intro state state' read _ isRead
    cases isRead
    exact ⟨skipped, rfl⟩
  ofSkip := by
    intro state state' read _ isRead
    cases isRead
    exact .inl ⟨value, rfl⟩

theorem skips_self (read : Read σ ε α) : Skips input read read where
  ofRead := fun _ _ value _ isRead => ⟨value, isRead⟩
  ofSkip := fun _ _ value _ isRead => .inl ⟨value, isRead⟩

/-- The second read may go on to fail, if not for too little input. -/
theorem skips_fail {skip : Read σ ε α} {error : ε} (other : error ≠ input.short) :
    Skips input skip (fail error : Read σ ε β) where
  ofRead := by
    intro state state' read _ isRead
    cases isRead
  ofSkip := fun state _ _ _ _ => .inr ⟨error, state, rfl, other⟩

theorem skips_ofExcept (skipped : α) {result : Except ε β} (other : result ≠ .error input.short) :
    Skips input (pure skipped : Read σ ε α) (ofExcept result) := by
  cases result with
  | ok value => exact skips_pure skipped value
  | error error =>
      apply skips_fail
      intro isShort
      exact other (congrArg Except.error isShort)

theorem skips_fail_fail (error error' : ε) :
    Skips input (fail error : Read σ ε α) (fail error' : Read σ ε β) where
  ofRead := by
    intro state state' read _ isRead
    cases isRead
  ofSkip := by
    intro state state' read _ isRead
    cases isRead

theorem skips_bind {γ' : Type} {skip : Read σ ε α} {read : Read σ ε β} {skipNext : α → Read σ ε γ}
    {readNext : β → Read σ ε γ'} (tame : Tame input skip) (first : Skips input skip read)
    (later : ∀ state state' skipped value, skip state = (.ok skipped, state') →
      read state = (.ok value, state') → Skips input (skipNext skipped) (readNext value)) :
    Skips input (skip >>= skipNext) (read >>= readNext) where
  ofRead := by
    intro state state' result isValid isRead
    obtain ⟨value, between, isFirst, isNext⟩ := of_bind_ok isRead
    obtain ⟨skipped, isSkip⟩ := first.ofRead state between value isValid isFirst
    rw [bind_ok isSkip]
    apply (later state between skipped value isSkip isFirst).ofRead between state' result _ isNext
    exact input.valid_ahead state between (tame.ahead isSkip) isValid
  ofSkip := by
    intro state state' result isValid isSkip
    obtain ⟨skipped, between, isFirst, isNext⟩ := of_bind_ok isSkip
    cases first.ofSkip state between skipped isValid isFirst with
    | inl succeeds =>
        obtain ⟨value, isRead⟩ := succeeds
        rw [bind_ok isRead]
        apply (later state between skipped value isFirst isRead).ofSkip between state' result _ isNext
        exact input.valid_ahead state between (tame.ahead isFirst) isValid
    | inr fails =>
        obtain ⟨error, elsewhere, isRead, other⟩ := fails
        exact .inr ⟨error, elsewhere, bind_error isRead, other⟩

theorem skips_same {read : Read σ ε α} {skipNext : α → Read σ ε β} {readNext : α → Read σ ε γ}
    (tame : Tame input read)
    (later : ∀ state state' value, read state = (.ok value, state') →
      Skips input (skipNext value) (readNext value)) :
    Skips input (read >>= skipNext) (read >>= readNext) := by
  apply skips_bind tame (skips_self read)
  intro state state' skipped value isSkip isRead
  cases isSkip.symm.trans isRead
  exact later state state' skipped isSkip

theorem Skips.mapLeft {skip : Read σ ε α} {read : Read σ ε β} (skips : Skips input skip read)
    (image : α → γ) : Skips input (skip >>= fun skipped => pure (image skipped)) read where
  ofRead := by
    intro state state' value isValid isRead
    obtain ⟨skipped, isSkip⟩ := skips.ofRead state state' value isValid isRead
    exact ⟨image skipped, bind_ok isSkip⟩
  ofSkip := by
    intro state state' result isValid isSkip
    obtain ⟨skipped, between, isFirst, isNext⟩ := of_bind_ok isSkip
    cases isNext
    exact skips.ofSkip state state' skipped isValid isFirst

theorem Skips.mapRight {skip : Read σ ε α} {read : Read σ ε β} (skips : Skips input skip read)
    (image : β → γ) : Skips input skip (read >>= fun value => pure (image value)) where
  ofRead := by
    intro state state' value isValid isRead
    obtain ⟨value, between, isFirst, isNext⟩ := of_bind_ok isRead
    cases isNext
    exact skips.ofRead state state' value isValid isFirst
  ofSkip := by
    intro state state' skipped isValid isSkip
    cases skips.ofSkip state state' skipped isValid isSkip with
    | inl succeeds =>
        obtain ⟨value, isRead⟩ := succeeds
        exact .inl ⟨image value, bind_ok isRead⟩
    | inr fails =>
        obtain ⟨error, elsewhere, isRead, other⟩ := fails
        exact .inr ⟨error, elsewhere, bind_error isRead, other⟩

theorem skips_times_add {skip : Read σ ε α} {read : Read σ ε β} {next : β → Read σ ε γ}
    {count more : ℕ} (tame : Tame input skip) (first : Skips input (times skip count) read)
    (later : ∀ value, Skips input (times skip more) (next value)) :
    Skips input (times skip (count + more)) (read >>= next) := by
  rw [times_add]
  apply skips_bind (tame_times tame count) first
  intro _ _ values value _ _
  exact (later value).mapLeft fun others => values ++ others

theorem skips_times_one {skip : Read σ ε α} {read : Read σ ε β} (skips : Skips input skip read) :
    Skips input (times skip 1) read :=
  skips.mapLeft fun value => [value]

theorem skips_times {skip : Read σ ε α} {read : Read σ ε β} (tame : Tame input skip) {size : ℕ}
    (skips : Skips input (times skip size) read) (count : ℕ) :
    Skips input (times skip (count * size)) (times read count) := by
  induction count with
  | zero =>
      rw [Nat.zero_mul]
      exact skips_pure [] []
  | succ count ih =>
      rw [Nat.succ_mul, Nat.add_comm, times_succ]
      apply skips_times_add tame skips
      intro value
      exact ih.mapRight fun values => value :: values

theorem skips_times_pair {skip : Read σ ε α} {read : Read σ ε β} (tame : Tame input skip)
    (skips : Skips input skip read) : Skips input (times skip 2) (pair read read) := by
  change Skips input (times skip (1 + 1))
    (read >>= fun left => read >>= fun right => pure (left, right))
  apply skips_times_add tame (skips_times_one skips)
  intro left
  exact (skips_times_one skips).mapRight fun right => (left, right)

end Read

end Bun.Foundation
