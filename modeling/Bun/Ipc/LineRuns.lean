/-
Runs of a line buffer.

As long as the place behind the next message fits into 32 bits, and the capacity does when
everything is consumed, every step keeps what the buffer knows about the stream.  `Faithful` says
what the buffer then shows to its users.
-/

import Bun.Ipc.BufferedLines

set_option autoImplicit false

namespace Bun.Ipc

variable {grow : ℕ → ℕ → ℕ}

namespace JSONLineBuffer

def Knows (buffer : JSONLineBuffer) (rest : List UInt8) : Prop :=
  buffer.Rejects rest ∨ buffer.Buffers rest ∧ buffer.Positioned rest

structure Sound (buffer : JSONLineBuffer) (rest : List UInt8) : Prop where
  limit : buffer.maxLine < u32Max
  castsFit : buffer.CastsFit
  low : buffer.head < compactionThreshold
  knows : buffer.Knows rest

theorem zero_low : 0 < compactionThreshold := by
  decide

theorem new_sound (maxLine : ℕ) : (new maxLine).Sound [] := by
  have cap : min maxLine (u32Max - 1) < u32Max :=
    Nat.lt_of_le_of_lt (Nat.min_le_right _ _) (by decide)
  have sameCap : asU32 (min maxLine (u32Max - 1)) = min maxLine (u32Max - 1) :=
    asU32_of_le (Nat.le_of_lt cap)
  refine ⟨?_, ?_, zero_low, Or.inr ⟨⟨rfl, Nat.le_refl _, rfl⟩, nofun, Nat.zero_le _, rfl⟩⟩
  · exact Nat.lt_of_le_of_lt (Nat.le_of_eq sameCap) cap
  · intro value member
    rw [List.mem_singleton.mp member]
    exact Nat.le_of_lt cap

theorem Positioned.append {buffer : JSONLineBuffer} {rest : List UInt8} {pos : ℕ}
    (positioned : buffer.Positioned rest) (isPos : buffer.newlinePos = some pos)
    (bytes : List UInt8) : buffer.Positioned (rest ++ bytes) := by
  unfold Positioned at positioned ⊢
  rw [isPos] at positioned ⊢
  obtain ⟨text, later, rfl, isLine⟩ := positioned
  exact ⟨text, later ++ bytes, by rw [List.append_assoc, List.cons_append], isLine⟩

theorem append_sound (grow : ℕ → ℕ → ℕ) {buffer : JSONLineBuffer} {rest : List UInt8}
    (sound : buffer.Sound rest) (bytes : List UInt8) :
    ∃ after, buffer.append grow bytes = some after ∧ after.maxLine = buffer.maxLine ∧
      after.Sound (rest ++ bytes) := by
  obtain ⟨limit, castsFit, low, knows⟩ := sound
  unfold append
  rcases knows with rejects | ⟨buffers, positioned⟩
  · rw [if_pos rejects.tooLong]
    refine ⟨buffer, rfl, rfl, limit, castsFit, low, Or.inl { rejects with begins := ?_ }⟩
    exact rejects.begins.append bytes
  · rw [if_neg (by rw [buffers.live]; exact Bool.false_ne_true)]
    have isBuffers : Buffers { buffer with
        data := buffer.data ++ bytes
        capacity := grow buffer.capacity (buffer.data.length + bytes.length) } (rest ++ bytes) := by
      refine ⟨buffers.live, ?_, ?_⟩
      · have inside := buffers.inside
        dsimp only
        rw [List.length_append]
        omega
      · dsimp only
        rw [List.drop_append_of_le_length buffers.inside, buffers.active]
    cases isPos : buffer.newlinePos with
    | some pos =>
        have stays := positioned.append isPos bytes
        unfold Positioned at stays
        rw [isPos] at stays
        refine ⟨_, if_pos (Or.inr rfl), rfl, limit, castsFit, low, Or.inr ⟨?_, stays⟩⟩
        exact isPos ▸ isBuffers
    | none =>
        unfold Positioned at positioned
        rw [isPos] at positioned
        obtain ⟨noNewline, fits, isScanned⟩ := positioned
        obtain ⟨after, isAfter, sameLimit, afterFit, outcome⟩ :=
          scanForNewline_spec isBuffers limit castsFit isPos
          (by dsimp only; rw [isScanned, List.length_append]; omega)
          (by dsimp only; rw [isScanned]; exact fits)
          (by dsimp only; rw [isScanned, List.take_left]; exact noNewline)
        rw [← isPos]
        refine ⟨after, isAfter, sameLimit, ?_, afterFit, ?_, ?_⟩
        · rw [sameLimit]
          exact limit
        · rcases outcome with rejects | ⟨_, _, _, sameHead, _⟩
          · rw [rejects.atStart]
            exact zero_low
          · rw [sameHead]
            exact low
        · rcases outcome with rejects | ⟨isBuffered, isPositioned, _⟩
          · exact Or.inl rejects
          · exact Or.inr ⟨isBuffered, isPositioned⟩

/-- The end of a consumption, when the capacity fits or is not asked for. -/
theorem settled_sound {buffer : JSONLineBuffer} {rest : List UInt8}
    (limit : buffer.maxLine < u32Max) (castsFit : buffer.CastsFit) (knows : buffer.Knows rest)
    (capacityFits : buffer.data.length ≤ buffer.head → buffer.capacity ≤ u32Max) :
    buffer.settled.maxLine = buffer.maxLine ∧ buffer.settled.Sound rest := by
  unfold settled
  by_cases everything : buffer.head ≥ buffer.data.length
  · rw [if_pos everything]
    have isFit := capacityFits everything
    refine ⟨rfl, limit, ?_, zero_low, ?_⟩
    · intro value member
      rcases List.mem_cons.mp member with rfl | isEarlier
      · exact isFit
      · exact castsFit value isEarlier
    · rcases knows with rejects | ⟨buffers, positioned⟩
      · refine Or.inl ⟨rejects.tooLong, rfl, rfl, rfl, rfl, ?_, rejects.begins⟩
        dsimp only
        rw [rejects.freed]
        rfl
      · have noRest : rest = [] := by
          have := buffers.length_eq
          exact List.eq_nil_of_length_eq_zero (by omega)
        rw [noRest]
        exact Or.inr ⟨⟨buffers.live, Nat.le_refl _, rfl⟩, nofun, Nat.zero_le _, rfl⟩
  · rw [if_neg everything]
    rcases knows with rejects | ⟨buffers, positioned⟩
    · rw [rejects.empty, rejects.atStart] at everything
      exact absurd (Nat.le_refl 0) everything
    · by_cases high : buffer.head ≥ compactionThreshold
      · have notZero : buffer.head ≠ 0 := by
          have := zero_low
          omega
        rw [if_pos high]
        unfold compact
        rw [if_neg notZero]
        refine ⟨rfl, limit, castsFit, zero_low, Or.inr ⟨⟨buffers.live, Nat.zero_le _, ?_⟩, ?_⟩⟩
        · exact buffers.active
        · exact positioned
      · rw [if_neg high]
        exact ⟨rfl, limit, castsFit, Nat.lt_of_not_le high, Or.inr ⟨buffers, positioned⟩⟩

def Fits (buffer : JSONLineBuffer) : Prop :=
  ∀ pos, buffer.newlinePos = some pos → buffer.head + (pos + 1) ≤ u32Max ∧
    (buffer.head + (pos + 1) = buffer.data.length → buffer.capacity ≤ u32Max)

theorem consume_sound {buffer : JSONLineBuffer} {text later : List UInt8} {pos : ℕ}
    (limit : buffer.maxLine < u32Max) (castsFit : buffer.CastsFit)
    (buffers : buffer.Buffers (text ++ newline :: later)) (isLength : text.length = pos)
    (isPos : buffer.newlinePos = some pos) (isScanned : buffer.scannedPos = pos + 1)
    (fits : buffer.Fits) :
    ∃ after, buffer.consume (pos + 1) = some after ∧ after.maxLine = buffer.maxLine ∧
      after.Sound later := by
  obtain ⟨headFits, capacityFits⟩ := fits pos isPos
  have isHead : min (buffer.head + (pos + 1)) u32Max = buffer.head + (pos + 1) :=
    Nat.min_eq_left headFits
  have noneScanned : buffer.scannedPos - (pos + 1) = 0 := by omega
  have lengthEq := buffers.length_eq
  rw [List.length_append, List.length_cons, isLength] at lengthEq
  have isBuffers : Buffers { buffer with
      head := buffer.head + (pos + 1), scannedPos := 0, newlinePos := none } later := by
    refine ⟨buffers.live, ?_, ?_⟩
    · dsimp only
      omega
    · dsimp only
      rw [← List.drop_drop, buffers.active, ← isLength, List.drop_append, Nat.add_sub_cancel_left,
        List.drop_eq_nil_of_le (Nat.le_succ _)]
      rfl
  obtain ⟨scanned, isScan, sameLimit, scanFits, outcome⟩ :=
    scanForNewline_spec isBuffers limit castsFit rfl (Nat.zero_le _) (Nat.zero_le _) nofun
  unfold consume
  rw [isPos]
  dsimp only
  rw [if_pos (Nat.lt_succ_self pos), isHead, noneScanned, isScan]
  dsimp only
  have scanLimit : scanned.maxLine < u32Max := by
    rw [sameLimit]
    exact limit
  have knows : scanned.Knows later := by
    rcases outcome with rejects | ⟨isBuffered, isPositioned, _⟩
    · exact Or.inl rejects
    · exact Or.inr ⟨isBuffered, isPositioned⟩
  have scanCapacity : scanned.data.length ≤ scanned.head → scanned.capacity ≤ u32Max := by
    intro everything
    rcases outcome with rejects | ⟨_, _, sameData, sameHead, sameCapacity⟩
    · rw [rejects.freed]
      exact Nat.zero_le _
    · rw [sameData, sameHead] at everything
      rw [sameCapacity]
      refine capacityFits ?_
      dsimp only at everything
      omega
  obtain ⟨stillLimit, sound⟩ := settled_sound scanLimit scanFits knows scanCapacity
  exact ⟨_, rfl, stillLimit.trans sameLimit, sound⟩

theorem next_message {buffer : JSONLineBuffer} {text later : List UInt8} {pos : ℕ}
    (buffers : buffer.Buffers (text ++ newline :: later)) (isLength : text.length = pos)
    (isPos : buffer.newlinePos = some pos) :
    buffer.next = some (some (text ++ [newline], pos)) := by
  have isTaken : (text ++ newline :: later).take (pos + 1) = text ++ [newline] := by
    rw [← isLength, List.take_append, List.take_of_length_le (Nat.le_succ _),
      Nat.add_sub_cancel_left]
    rfl
  unfold next
  rw [isPos]
  dsimp only
  rw [buffers.activeSlice_eq]
  dsimp only
  rw [if_pos (by rw [List.length_append, List.length_cons]; omega), isTaken]

theorem next_none {buffer : JSONLineBuffer} (noPosition : buffer.newlinePos = none) :
    buffer.next = some none := by
  unfold next
  rw [noPosition]

end JSONLineBuffer

/-! ### Runs -/

structure Holds (system : System) : Prop where
  lines : ∃ rest, system.stream = system.taken.flatten ++ rest ∧
    (∀ message ∈ system.taken, Message system.buffer.maxLine message) ∧ system.buffer.Sound rest

/-- The step takes no message that goes beyond 32 bits. -/
def FitsStep (system : System) : Event → Prop
  | .append _ => True
  | .take => system.buffer.Fits

def FitsRun (grow : ℕ → ℕ → ℕ) : System → List Event → Prop
  | _, [] => True
  | system, event :: events => FitsStep system event ∧
      ∀ after, step grow system event = some after → FitsRun grow after events

instance (buffer : JSONLineBuffer) : Decidable buffer.Fits :=
  match isPos : buffer.newlinePos with
  | none => isTrue fun pos isOther => by
      rw [isPos] at isOther
      nomatch isOther
  | some pos =>
      decidable_of_iff (buffer.head + (pos + 1) ≤ u32Max ∧
        (buffer.head + (pos + 1) = buffer.data.length → buffer.capacity ≤ u32Max)) <| by
      constructor
      · intro fits other isOther
        rw [isPos] at isOther
        rw [← Option.some.inj isOther]
        exact fits
      · exact fun fits => fits pos isPos

instance (system : System) (event : Event) : Decidable (FitsStep system event) :=
  match event with
  | .append _ => isTrue trivial
  | .take => inferInstanceAs (Decidable system.buffer.Fits)

instance FitsRun.decidable (grow : ℕ → ℕ → ℕ) :
    ∀ system events, Decidable (FitsRun grow system events)
  | _, [] => isTrue trivial
  | system, event :: events =>
      match isStep : step grow system event with
      | none =>
          decidable_of_iff (FitsStep system event) <| by
          constructor
          · refine fun fits => ⟨fits, fun after isAfter => ?_⟩
            rw [isStep] at isAfter
            nomatch isAfter
          · exact fun fits => fits.1
      | some after =>
          have := FitsRun.decidable grow after events
          decidable_of_iff (FitsStep system event ∧ FitsRun grow after events) <| by
          constructor
          · refine fun fits => ⟨fits.1, fun other isOther => ?_⟩
            rw [isStep] at isOther
            rw [← Option.some.inj isOther]
            exact fits.2
          · exact fun fits => ⟨fits.1, fits.2 after isStep⟩

theorem step_holds (grow : ℕ → ℕ → ℕ) {system : System} (holds : Holds system) {event : Event}
    (fits : FitsStep system event) :
    ∃ after, step grow system event = some after ∧
      after.buffer.maxLine = system.buffer.maxLine ∧ Holds after := by
  obtain ⟨rest, isStream, messages, sound⟩ := holds.lines
  cases event with
  | append bytes =>
      obtain ⟨after, isAfter, sameLimit, afterSound⟩ := JSONLineBuffer.append_sound grow sound bytes
      unfold step
      dsimp only
      rw [isAfter]
      refine ⟨_, rfl, sameLimit, rest ++ bytes, ?_, ?_, afterSound⟩
      · dsimp only
        rw [isStream, List.append_assoc]
      · dsimp only
        rw [sameLimit]
        exact messages
  | take =>
      have fits : system.buffer.Fits := fits
      unfold step
      cases isPos : system.buffer.newlinePos with
      | none =>
          rw [JSONLineBuffer.next_none isPos]
          exact ⟨system, rfl, rfl, holds⟩
      | some pos =>
          rcases sound.knows with rejects | ⟨buffers, positioned⟩
          · rw [rejects.noNewline] at isPos
            nomatch isPos
          · unfold JSONLineBuffer.Positioned at positioned
            rw [isPos] at positioned
            obtain ⟨text, later, rfl, noNewline, isLength, atMost, isScanned⟩ := positioned
            obtain ⟨after, isAfter, sameLimit, afterSound⟩ := JSONLineBuffer.consume_sound
              sound.limit sound.castsFit buffers isLength isPos isScanned fits
            rw [JSONLineBuffer.next_message buffers isLength isPos]
            dsimp only
            rw [isAfter]
            refine ⟨_, rfl, sameLimit, later, ?_, ?_, afterSound⟩
            · dsimp only
              rw [isStream, List.flatten_append, List.flatten_singleton, List.append_assoc,
                List.append_assoc, List.singleton_append]
            · intro message member
              dsimp only at member ⊢
              rw [sameLimit]
              rcases List.mem_append.mp member with wasTaken | isLast
              · exact messages message wasTaken
              · rw [List.mem_singleton.mp isLast]
                exact ⟨text, rfl, noNewline, by omega⟩

theorem run_holds {system : System} (holds : Holds system) {events : List Event}
    (fits : FitsRun grow system events) :
    ∃ last, run grow system events = some last ∧
      last.buffer.maxLine = system.buffer.maxLine ∧ Holds last := by
  induction events generalizing system with
  | nil => exact ⟨system, rfl, rfl, holds⟩
  | cons event events ih =>
      obtain ⟨fitsStep, fitsRest⟩ := fits
      obtain ⟨after, isAfter, afterLimit, afterHolds⟩ := step_holds grow holds fitsStep
      obtain ⟨last, isLast, lastLimit, lastHolds⟩ := ih afterHolds (fitsRest after isAfter)
      unfold run
      rw [isAfter]
      exact ⟨last, isLast, lastLimit.trans afterLimit, lastHolds⟩

/-- A buffer that has met too long a line stays as it is, and shows nothing. -/
theorem run_tooLong {system last : System} (tooLong : system.buffer.tooLong = true)
    (noPosition : system.buffer.newlinePos = none) {events : List Event}
    (isLast : run grow system events = some last) :
    last.buffer = system.buffer ∧ last.taken = system.taken := by
  induction events generalizing system with
  | nil =>
      rw [← Option.some.inj isLast]
      exact ⟨rfl, rfl⟩
  | cons event events ih =>
      unfold run at isLast
      cases event with
      | append bytes =>
          have isStep : step grow system (.append bytes) =
              some { system with stream := system.stream ++ bytes } := by
            unfold step JSONLineBuffer.append
            dsimp only
            rw [if_pos tooLong]
          rw [isStep] at isLast
          dsimp only at isLast
          obtain ⟨sameBuffer, sameTaken⟩ := ih (by exact tooLong) (by exact noPosition) isLast
          exact ⟨sameBuffer, sameTaken⟩
      | take =>
          have isStep : step grow system .take = some system := by
            unfold step
            rw [JSONLineBuffer.next_none noPosition]
          rw [isStep] at isLast
          exact ih tooLong noPosition isLast

/-- What a buffer shows of the stream that has come in, and where its fields point. -/
structure Faithful (grow : ℕ → ℕ → ℕ) (system : System) : Prop where
  /-- The messages that were taken are the first lines of the stream. -/
  taken : system.taken =
    (allowed system.buffer.maxLine system.stream).take system.taken.length
  /-- The next message is the next line that has come in whole and is not too long. -/
  next : system.buffer.next =
    some ((allowed system.buffer.maxLine system.stream)[system.taken.length]?.map
      fun message => (message, message.length - 1))
  /-- A line is reported as too long when it is and everything in front of it was taken. -/
  tooLong_iff : system.buffer.isTooLong = true ↔
    system.taken = allowed system.buffer.maxLine system.stream ∧
      TooLongAt system.buffer.maxLine system.stream system.taken.length
  /-- Nothing changes after that. -/
  stays : system.buffer.isTooLong = true → ∀ events last, run grow system events = some last →
    last.buffer.isTooLong = true ∧ last.buffer.next = some none ∧ last.taken = system.taken
  headInside : system.buffer.head ≤ system.buffer.data.length
  scannedInside : system.buffer.head + system.buffer.scannedPos ≤ system.buffer.data.length
  newlineInside : ∀ pos, system.buffer.newlinePos = some pos →
    system.buffer.head + pos < system.buffer.data.length
  castsFit : ∀ value ∈ system.buffer.casts, value ≤ u32Max

theorem Holds.faithful {system : System} (holds : Holds system) : Faithful grow system := by
  obtain ⟨rest, isStream, messages, sound⟩ := holds.lines
  have isAllowed : allowed system.buffer.maxLine system.stream =
      system.taken ++ allowed system.buffer.maxLine rest := by
    rw [isStream, allowed_messages messages]
  have isPiece : (system.stream.splitOn newline)[system.taken.length]? =
      (rest.splitOn newline)[0]? := by
    rw [isStream, splitOn_messages messages]
  have isNext : (allowed system.buffer.maxLine system.stream)[system.taken.length]? =
      (allowed system.buffer.maxLine rest)[0]? := by
    rw [isAllowed, List.getElem?_append_right (Nat.le_refl _), Nat.sub_self]
  have isTaken : system.taken =
      (allowed system.buffer.maxLine system.stream).take system.taken.length := by
    rw [isAllowed, List.take_left]
  rcases sound.knows with rejects | ⟨buffers, positioned⟩
  · obtain ⟨line, more, isSplit, isLong⟩ := rejects.begins.first
    refine ⟨isTaken, ?_, ?_, ?_, ?_, ?_, ?_, sound.castsFit⟩
    · rw [JSONLineBuffer.next_none rejects.noNewline, isNext, rejects.begins.allowed_eq]
      rfl
    · refine ⟨fun _ => ⟨?_, line, ?_, isLong⟩, fun _ => rejects.tooLong⟩
      · rw [isAllowed, rejects.begins.allowed_eq, List.append_nil]
      · rw [isPiece, isSplit]
        rfl
    · intro _ events last isLast
      obtain ⟨sameBuffer, sameTaken⟩ := run_tooLong rejects.tooLong rejects.noNewline isLast
      rw [sameBuffer]
      exact ⟨rejects.tooLong, JSONLineBuffer.next_none rejects.noNewline, sameTaken⟩
    · rw [rejects.atStart]
      exact Nat.zero_le _
    · rw [rejects.atStart, rejects.unscanned]
      exact Nat.zero_le _
    · intro pos isPos
      rw [rejects.noNewline] at isPos
      nomatch isPos
  · have lengthEq := buffers.length_eq
    have notLong : system.buffer.isTooLong ≠ true := by
      unfold JSONLineBuffer.isTooLong
      rw [buffers.live]
      exact Bool.false_ne_true
    unfold JSONLineBuffer.Positioned at positioned
    cases isPos : system.buffer.newlinePos with
    | some pos =>
        rw [isPos] at positioned
        obtain ⟨text, later, rfl, noNewline, isLength, atMost, isScanned⟩ := positioned
        have fits : text.length ≤ system.buffer.maxLine := by omega
        have first := allowed_line noNewline fits later
        rw [List.length_append, List.length_cons] at lengthEq
        refine ⟨isTaken, ?_, ?_, fun isLong => absurd isLong notLong, buffers.inside, by omega, ?_,
          sound.castsFit⟩
        · rw [JSONLineBuffer.next_message buffers isLength isPos, isNext, first,
            List.getElem?_cons_zero, Option.map_some, List.length_append, List.length_singleton,
            Nat.add_sub_cancel, isLength]
        · refine ⟨fun isLong => absurd isLong notLong, ?_⟩
          rintro ⟨isAll, _⟩
          rw [isAllowed, first] at isAll
          have sameLength := congrArg List.length isAll
          rw [List.length_append, List.length_cons] at sameLength
          omega
        · intro other isOther
          rw [isPos] at isOther
          have same := Option.some.inj isOther
          omega
    | none =>
        rw [isPos] at positioned
        obtain ⟨noNewline, fits, isScanned⟩ := positioned
        refine ⟨isTaken, ?_, ?_, fun isLong => absurd isLong notLong, buffers.inside, by omega,
          fun pos isOther => ?_, sound.castsFit⟩
        · rw [JSONLineBuffer.next_none isPos, isNext, allowed_unfinished noNewline]
          rfl
        · refine ⟨fun isLong => absurd isLong notLong, ?_⟩
          rintro ⟨_, line, isLine, isLong⟩
          rw [isPiece, List.splitOn_eq_singleton noNewline, List.getElem?_cons_zero] at isLine
          rw [← Option.some.inj isLine] at isLong
          omega
        · rw [isPos] at isOther
          nomatch isOther

/-- The limit of a buffer is the one it was made with, or the largest one whose lines fit with
their newline. -/
theorem System.start_maxLine (maxLine : ℕ) :
    (System.start maxLine).buffer.maxLine = min maxLine (u32Max - 1) := by
  have isBelow : min maxLine (u32Max - 1) < u32Max + 1 :=
    Nat.lt_of_le_of_lt (Nat.min_le_right _ _) (by decide)
  exact Nat.mod_eq_of_lt isBelow

/-- However the stream is cut up and whenever messages are taken, the buffer shows the lines of
the stream, as long as each message that is taken ends within 32 bits of the buffer. -/
theorem run_faithful (grow : ℕ → ℕ → ℕ) (maxLine : ℕ) (events : List Event)
    (fits : FitsRun grow (System.start maxLine) events) :
    ∃ last, run grow (System.start maxLine) events = some last ∧
      last.buffer.maxLine = min maxLine (u32Max - 1) ∧ Faithful grow last := by
  have holds : Holds (System.start maxLine) :=
    ⟨[], rfl, nofun, JSONLineBuffer.new_sound maxLine⟩
  obtain ⟨last, isLast, isLimit, lastHolds⟩ := run_holds holds fits
  exact ⟨last, isLast, isLimit.trans (System.start_maxLine maxLine), lastHolds.faithful⟩

/-- Two lines in three parts, and a third one that is too long. -/
theorem run_faithful_three :
    ∃ last, run (fun _ needed => needed) (System.start 3)
        [.append [97, 10, 98], .take, .append [98, 10, 99, 99, 99], .take, .append [99, 10], .take] =
          some last ∧ last.buffer.maxLine = 3 ∧ Faithful (fun _ needed => needed) last :=
  run_faithful (fun _ needed => needed) 3
    [.append [97, 10, 98], .take, .append [98, 10, 99, 99, 99], .take, .append [99, 10], .take]
    (by decide)

/-! ### A line that fills 32 bits -/

theorem JSONLineBuffer.consume_line {buffer : JSONLineBuffer} {pos head : ℕ}
    {text later : List UInt8} (isPos : buffer.newlinePos = some pos)
    (isScanned : buffer.scannedPos = pos + 1) (isHead : min (buffer.head + (pos + 1)) u32Max = head)
    (live : buffer.tooLong = false) (inside : head ≤ buffer.data.length)
    (active : buffer.data.drop head = text ++ newline :: later)
    (limit : buffer.maxLine < u32Max) (noNewline : newline ∉ text)
    (fits : text.length ≤ buffer.maxLine) :
    buffer.consume (pos + 1) = some (settled { buffer with
      head := head
      newlinePos := some text.length
      scannedPos := text.length + 1
      casts := text.length :: buffer.casts }) := by
  have isBuffers : Buffers { buffer with
      head := head, scannedPos := 0, newlinePos := none } (text ++ newline :: later) :=
    ⟨live, inside, active⟩
  have isScan := scanForNewline_line isBuffers limit rfl noNewline (Nat.zero_le _) fits
  unfold consume
  rw [isPos]
  dsimp only
  rw [if_pos (Nat.lt_succ_self pos), isHead, isScanned, Nat.sub_self, isScan]

/-- A short line, and a longest one that ends with a byte of its own. -/
def twoLines (fill : List UInt8) : List UInt8 :=
  [97] ++ newline :: (fill ++ [120] ++ [newline])

theorem length_twoLines (fill : List UInt8) : (twoLines fill).length = fill.length + 4 := by
  simp [twoLines]

theorem drop_two_twoLines (fill : List UInt8) :
    (twoLines fill).drop 2 = fill ++ [120] ++ [newline] :=
  rfl

/-- The end of the second line saturates, and its last byte comes out as a line of its own. -/
theorem run_saturates {fill : List UInt8} (isLong : fill.length = u32Max - 2)
    (noNewline : newline ∉ fill) :
    ∃ last, run (fun _ needed => needed) (System.start (u32Max - 1))
        [.append (twoLines fill), .take, .take] = some last ∧
      last.stream = twoLines fill ∧ last.buffer.maxLine = u32Max - 1 ∧
      last.taken = allowed (u32Max - 1) (twoLines fill) ∧
      last.buffer.next = some (some ([120, newline], 1)) := by
  have cap : asU32 (min (u32Max - 1) (u32Max - 1)) = u32Max - 1 := by decide
  have limit : u32Max - 1 < u32Max := by decide
  have lowHead : 2 < JSONLineBuffer.compactionThreshold := by decide
  have highHead : JSONLineBuffer.compactionThreshold ≤ u32Max := by decide
  have isLength : (twoLines fill).length = u32Max + 2 := by
    rw [length_twoLines, isLong]
    decide
  have isSplit : twoLines fill = [97] ++ newline :: ((fill ++ [120]) ++ newline :: []) := rfl
  have notLong : newline ∉ fill ++ [120] := by
    rw [List.mem_append, not_or]
    exact ⟨noNewline, by decide⟩
  have long : (fill ++ [120]).length = u32Max - 1 := by
    rw [List.length_append, List.length_singleton, isLong]
    decide
  have notShort : newline ∉ [(97 : UInt8)] := by decide
  have isAllowed : allowed (u32Max - 1) (twoLines fill) =
      [[97] ++ [newline], (fill ++ [120]) ++ [newline]] := by
    rw [isSplit, allowed_line notShort (by decide), allowed_line notLong (Nat.le_of_eq long),
      allowed_unfinished List.not_mem_nil]
  -- All bytes come in, and the end of the first line is found.
  obtain ⟨first, isFirst, firstData, firstHead, firstPos, firstScanned, firstLimit, firstLive⟩ :
      ∃ first, (JSONLineBuffer.new (u32Max - 1)).append (fun _ needed => needed) (twoLines fill) =
          some first ∧ first.data = twoLines fill ∧ first.head = 0 ∧ first.newlinePos = some 1 ∧
        first.scannedPos = 2 ∧ first.maxLine = u32Max - 1 ∧ first.tooLong = false := by
    unfold JSONLineBuffer.append
    rw [if_neg (by exact Bool.false_ne_true)]
    apply Exists.intro
    constructor
    · exact JSONLineBuffer.scanForNewline_line ⟨rfl, Nat.zero_le _, isSplit⟩
        (Nat.lt_of_le_of_lt (Nat.le_of_eq cap) limit) rfl notShort (Nat.zero_le _)
        (show 1 ≤ _ from Nat.le_trans (by decide) (Nat.le_of_eq cap.symm))
    · exact ⟨rfl, rfl, rfl, rfl, cap, rfl⟩
  have firstBuffers : first.Buffers ([97] ++ newline :: ((fill ++ [120]) ++ newline :: [])) := by
    refine ⟨firstLive, ?_, ?_⟩
    · rw [firstHead]
      exact Nat.zero_le _
    · rw [firstHead, firstData]
      exact isSplit
  -- Taking the first line finds the end of the second one.
  obtain ⟨second, isSecond, secondData, secondHead, secondPos, secondScanned, secondLimit,
      secondLive⟩ :
      ∃ second, first.consume (1 + 1) = some second ∧ second.data = twoLines fill ∧
        second.head = 2 ∧ second.newlinePos = some (u32Max - 1) ∧
        second.scannedPos = u32Max - 1 + 1 ∧ second.maxLine = u32Max - 1 ∧
        second.tooLong = false := by
    have isHead : min (first.head + (1 + 1)) u32Max = 2 := by
      rw [firstHead]
      decide
    have isConsumed := JSONLineBuffer.consume_line firstPos firstScanned isHead firstLive
      (by rw [firstData, isLength]; exact Nat.le_add_left _ _)
      (by rw [firstData]; exact drop_two_twoLines fill)
      (by rw [firstLimit]; exact limit) notLong (Nat.le_of_eq (by rw [firstLimit, long]))
    rw [isConsumed]
    unfold JSONLineBuffer.settled
    dsimp only
    rw [firstData, isLength, if_neg (by decide), if_neg (Nat.not_le.mpr lowHead), long]
    exact ⟨_, rfl, rfl, rfl, rfl, rfl, firstLimit, firstLive⟩
  have secondBuffers : second.Buffers ((fill ++ [120]) ++ newline :: []) := by
    refine ⟨secondLive, ?_, ?_⟩
    · rw [secondHead, secondData, isLength]
      exact Nat.le_add_left _ _
    · rw [secondHead, secondData]
      exact drop_two_twoLines fill
  -- Behind the second line the head stops short, at its last byte.
  have isLastByte : second.data.drop u32Max = [120] ++ newline :: [] := by
    have isMax : u32Max = 2 + (u32Max - 2) := by decide
    rw [secondData, isMax, ← List.drop_drop, drop_two_twoLines, List.append_assoc, ← isLong,
      List.drop_left]
  obtain ⟨third, isThird, thirdData, thirdHead, thirdPos, thirdLimit, thirdLive⟩ :
      ∃ third, second.consume (u32Max - 1 + 1) = some third ∧
        third.data = [120] ++ newline :: [] ∧ third.head = 0 ∧ third.newlinePos = some 1 ∧
        third.maxLine = u32Max - 1 ∧ third.tooLong = false := by
    have isHead : min (second.head + (u32Max - 1 + 1)) u32Max = u32Max := by
      rw [secondHead]
      decide
    have isConsumed := JSONLineBuffer.consume_line secondPos secondScanned isHead secondLive
      (by rw [secondData, isLength]; exact Nat.le_add_right _ _) isLastByte
      (by rw [secondLimit]; exact limit)
      (by decide) (by rw [secondLimit]; decide)
    rw [isConsumed]
    unfold JSONLineBuffer.settled JSONLineBuffer.compact
    dsimp only
    rw [if_neg (by rw [secondData, isLength]; decide), if_pos highHead, if_neg (by decide),
      isLastByte]
    exact ⟨_, rfl, rfl, rfl, rfl, secondLimit, secondLive⟩
  refine ⟨⟨third, twoLines fill, [[97] ++ [newline], (fill ++ [120]) ++ [newline]]⟩, ?_, rfl,
    thirdLimit, isAllowed.symm, ?_⟩
  · unfold run step System.start
    dsimp only
    rw [isFirst]
    dsimp only
    unfold run step
    dsimp only
    rw [JSONLineBuffer.next_message firstBuffers (show [97].length = 1 from rfl) firstPos]
    dsimp only
    rw [isSecond]
    dsimp only
    unfold run step
    dsimp only
    rw [JSONLineBuffer.next_message secondBuffers long secondPos]
    dsimp only
    rw [isThird]
    dsimp only
    unfold run
    rw [List.nil_append, List.nil_append, List.singleton_append]
  · have thirdBuffers : third.Buffers ([120] ++ newline :: []) := by
      refine ⟨thirdLive, ?_, ?_⟩
      · rw [thirdHead]
        exact Nat.zero_le _
      · rw [thirdHead, thirdData]
        rfl
    exact JSONLineBuffer.next_message thirdBuffers rfl thirdPos

/-- Both lines have been taken, and still there is a next message. -/
theorem run_not_faithful :
    ∃ last, run (fun _ needed => needed) (System.start (u32Max - 1))
        [.append (twoLines (List.replicate (u32Max - 2) 120)), .take, .take] = some last ∧
      last.taken = allowed last.buffer.maxLine last.stream ∧
      last.buffer.next = some (some ([120, newline], 1)) ∧
      ¬ Faithful (fun _ needed => needed) last := by
  obtain ⟨last, isLast, isStream, isLimit, isTaken, isNext⟩ := run_saturates
    (show (List.replicate (u32Max - 2) (120 : UInt8)).length = _ from List.length_replicate)
    (fun member => absurd (List.eq_of_mem_replicate member) (by decide))
  have allTaken : last.taken = allowed last.buffer.maxLine last.stream := by
    rw [isLimit, isStream]
    exact isTaken
  refine ⟨last, isLast, allTaken, isNext, ?_⟩
  intro faithful
  have noMore := faithful.next
  rw [isNext, ← allTaken, List.getElem?_eq_none (Nat.le_refl _)] at noMore
  nomatch noMore

end Bun.Ipc
