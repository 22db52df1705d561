/-
Finding the end of a reply whose bytes come in one after another.

The scanner passes over one element after the other, and counts for each aggregate that it is
inside of how many elements are still to come.  Where the buffer ends, it keeps its place and the
counts, and goes on from there when there are more bytes.
-/

import Bun.Valkey.ReadValue
import Mathlib.Algebra.Order.Ring.Int
import Mathlib.Tactic.SplitIfs

set_option autoImplicit false

namespace Bun.Valkey

open Bun.Foundation
open Bun.Semver (ParseIntError parseWithSign)

inductive ScanResult where
  | complete
  | needMoreData
deriving DecidableEq, Repr

/-- The counts stand in the stack with that of the innermost aggregate first. -/
structure ReplyScanner where
  pos : ℕ := 0
  stack : List ℕ := []
  crlfSkip : ℕ := 0
deriving DecidableEq, Repr

def u64Max : ℕ := 2 ^ 64 - 1

def saturatingMul (a b : ℕ) : ℕ := min (a * b) u64Max

def saturatingAdd (a b : ℕ) : ℕ := min (a + b) u64Max

/-- Passes over a payload and its line end, both of which have to be there. -/
def skipPayload (invalid : RedisError) (len : ℕ) : ReadM Unit := fun reader =>
  if reader.buffer.length - reader.pos < len + 2 then (.error .invalidResponse, reader)
  else if reader.buffer[reader.pos + len]? ≠ some 0x0d ∨
      reader.buffer[reader.pos + len + 1]? ≠ some 0x0a then (.error invalid, reader)
  else (.ok (), { reader with pos := reader.pos + len + 2 })

/-- Passes over a blob; only a bulk string may have a negative length. -/
def skipBlob (ty : RESPType) (invalid : RedisError) : ReadM (Option ℕ) := do
  let len ← readInteger
  if len < 0 then
    if ty = .bulkString then pure none else Read.fail invalid
  else if len > maxBulkLen then Read.fail invalid
  else do
    skipPayload invalid len.toNat
    pure none

/-- The number of elements that an aggregate of a length has inside. -/
def countChildren (ty : RESPType) (len : ℤ) : ReadM (Option ℕ) :=
  match ty with
  | .array => if len < 0 then pure (some 0) else pure (some len.toNat)
  | .set => if len < 0 then Read.fail .invalidSet else pure (some len.toNat)
  | .push => if len ≤ 0 then Read.fail .invalidPush else pure (some len.toNat)
  | .map => if len < 0 then Read.fail .invalidMap else pure (some (saturatingMul len.toNat 2))
  | .attribute =>
      if len < 0 then Read.fail .invalidAttribute
      else pure (some (saturatingAdd (saturatingMul len.toNat 2) 1))
  | _ => Read.fail .invalidResponseType

/-- Passes over an element that has no others inside. -/
def skipScalar : RESPType → ReadM (Option ℕ)
  | .null => lineOf fun str => if str = [] then .ok none else .error .invalidNull
  | .bulkString => skipBlob .bulkString .invalidBulkString
  | .blobError => skipBlob .blobError .invalidBlobError
  | .verbatimString => skipBlob .verbatimString .invalidVerbatimString
  | _ => lineOf fun _ => .ok none

def scanBody (depth : ℕ) (typeByte : UInt8) : ReadM (Option ℕ) :=
  match RESPType.fromByte typeByte with
  | none => Read.fail .invalidResponseType
  | some ty =>
      if ty.isAggregate then
        if depth ≥ maxNestingDepth then Read.fail .nestingDepthExceeded
        else do
          let len ← readInteger
          countChildren ty len
      else skipScalar ty

def scanOne (depth : ℕ) : ReadM (Option ℕ) := do
  let typeByte ← readByte
  scanBody depth typeByte

/-- An element is over, and with it every aggregate whose last element it was. -/
def unwind : List ℕ → List ℕ
  | [] => []
  | remaining :: outer => if remaining - 1 > 0 then (remaining - 1) :: outer else unwind outer

/-- An element was passed over; the elements inside of it come next if there are any. -/
def afterElement (children : Option ℕ) (stack : List ℕ) : List ℕ :=
  match children with
  | some (count + 1) => (count + 1) :: stack
  | _ => unwind stack

/-! ### Line ends -/

theorem isCrlfAt_inside {buffer : List UInt8} {i : ℕ} (isCrlf : isCrlfAt buffer i = true) :
    i + 1 < buffer.length := by
  unfold isCrlfAt at isCrlf
  rw [Bool.and_eq_true, beq_iff_eq, beq_iff_eq] at isCrlf
  exact (List.getElem?_eq_some_iff.mp isCrlf.2).1

theorem isCrlfAt_append {buffer : List UInt8} {i : ℕ} (inside : i + 1 < buffer.length)
    (more : List UInt8) : isCrlfAt (buffer ++ more) i = isCrlfAt buffer i := by
  unfold isCrlfAt
  rw [List.getElem?_append_left (Nat.lt_of_succ_lt inside), List.getElem?_append_left inside]

theorem findCrlf_some {buffer : List UInt8} {start limit i : ℕ} :
    findCrlf buffer start limit = some i ↔
      start ≤ i ∧ i < limit ∧ isCrlfAt buffer i = true ∧
        ∀ j, start ≤ j → j < i → isCrlfAt buffer j = false := by
  unfold findCrlf
  rw [List.find?_range'_eq_some]
  simp only [List.mem_range'_1, Bool.not_eq_true']
  constructor
  · intro found
    exact ⟨found.2.1.1, by omega, found.1, found.2.2⟩
  · intro found
    exact ⟨found.2.2.1, ⟨found.1, by omega⟩, found.2.2.2⟩

theorem findCrlf_none {buffer : List UInt8} {start limit : ℕ} :
    findCrlf buffer start limit = none ↔
      ∀ j, start ≤ j → j < limit → isCrlfAt buffer j = false := by
  unfold findCrlf
  rw [List.find?_eq_none]
  simp only [List.mem_range'_1, Bool.not_eq_true]
  constructor
  · intro absent j isFrom isBelow
    exact absent j ⟨isFrom, by omega⟩
  · intro absent j isIn
    exact absent j isIn.1 (by omega)

/-- A line end that was found is found again, below a limit that is not lower. -/
theorem findCrlf_append {buffer : List UInt8} {start limit limit' i : ℕ} (more : List UInt8)
    (found : findCrlf buffer start limit = some i) (higher : limit ≤ limit') :
    findCrlf (buffer ++ more) start limit' = some i := by
  rw [findCrlf_some] at found ⊢
  have inside := isCrlfAt_inside found.2.2.1
  refine ⟨found.1, Nat.lt_of_lt_of_le found.2.1 higher, ?_, ?_⟩
  · rw [isCrlfAt_append inside]
    exact found.2.2.1
  · intro j isFrom isBefore
    rw [isCrlfAt_append (by omega)]
    exact found.2.2.2 j isFrom isBefore

def NoCrlfBelow (buffer : List UInt8) (bound : ℕ) : Prop :=
  ∀ i, i < bound → isCrlfAt buffer i = false

theorem findCrlf_skip {buffer : List UInt8} {start limit : ℕ} (none : NoCrlfBelow buffer start) :
    findCrlf buffer (min start limit) limit = findCrlf buffer 0 limit := by
  cases found : findCrlf buffer 0 limit with
  | none =>
      rw [findCrlf_none] at found ⊢
      intro j _ isBelow
      exact found j (Nat.zero_le j) isBelow
  | some i =>
      rw [findCrlf_some] at found ⊢
      refine ⟨?_, found.2.1, found.2.2.1, fun j _ isBefore =>
        found.2.2.2 j (Nat.zero_le j) isBefore⟩
      by_cases early : i < start
      · have isNot := none i early
        rw [found.2.2.1] at isNot
        cases isNot
      · omega

/-! ### The reads are tame -/

def ValkeyReader.grow (reader : ValkeyReader) (more : List UInt8) : ValkeyReader :=
  { reader with buffer := reader.buffer ++ more }

/-- A reader of the same buffer that is not behind the first one.  It does not skip anything if
the first one does not. -/
structure Ahead (reader reader' : ValkeyReader) : Prop where
  sameBuffer : reader'.buffer = reader.buffer
  forward : reader.pos ≤ reader'.pos
  noSkip : reader.crlfSkip = 0 → reader'.crlfSkip = 0

theorem ahead_refl (reader : ValkeyReader) : Ahead reader reader :=
  ⟨rfl, Nat.le_refl _, fun zero => zero⟩

def incoming : Growing ValkeyReader (List UInt8) RedisError where
  grow := ValkeyReader.grow
  short := .invalidResponse
  ahead := Ahead
  refl := ahead_refl
  trans := by
    intro a b c first second
    exact ⟨second.sameBuffer.trans first.sameBuffer, Nat.le_trans first.forward second.forward,
      fun zero => second.noSkip (first.noSkip zero)⟩
  valid := fun reader => reader.crlfSkip = 0
  valid_ahead := fun _ _ ahead => ahead.noSkip

abbrev Tame {α : Type} (read : ReadM α) : Prop :=
  Read.Tame incoming read

theorem drop_grow {reader : ValkeyReader} (more : List UInt8)
    (inside : reader.pos ≤ reader.buffer.length) :
    (reader.grow more).buffer.drop (reader.grow more).pos =
      reader.buffer.drop reader.pos ++ more := by
  change (reader.buffer ++ more).drop reader.pos = _
  rw [List.drop_append_of_le_length inside]

theorem readByte_none {reader : ValkeyReader} (isNone : reader.buffer[reader.pos]? = none) :
    readByte reader = (.error .invalidResponse, reader) := by
  unfold readByte
  rw [isNone]

theorem readByte_some {reader : ValkeyReader} {byte : UInt8}
    (isSome : reader.buffer[reader.pos]? = some byte) :
    readByte reader = (.ok byte, { reader with pos := reader.pos + 1 }) := by
  unfold readByte
  rw [isSome]

theorem readByte_tame : Tame readByte where
  forward := by
    intro reader
    cases isByte : reader.buffer[reader.pos]? with
    | none =>
        rw [readByte_none isByte]
        exact ahead_refl reader
    | some byte =>
        rw [readByte_some isByte]
        exact ⟨rfl, Nat.le_succ reader.pos, fun zero => zero⟩
  steady := by
    intro reader more notShort
    cases isByte : reader.buffer[reader.pos]? with
    | none =>
        rw [readByte_none isByte] at notShort
        exact absurd rfl notShort
    | some byte =>
        have isInside := (List.getElem?_eq_some_iff.mp isByte).1
        have isGrown : (reader.grow more).buffer[(reader.grow more).pos]? = some byte :=
          (List.getElem?_append_left isInside).trans isByte
        rw [readByte_some isByte]
        exact readByte_some isGrown

theorem readUntilCrlf_cases (reader : ValkeyReader) :
    let buffer := reader.buffer.drop reader.pos
    let limit := min buffer.length (maxLineLen + 1)
    (∃ i, findCrlf buffer (min reader.crlfSkip limit) limit = some i ∧
      readUntilCrlf reader = (.ok (buffer.take i), ⟨reader.buffer, reader.pos + i + 2, 0⟩)) ∨
    findCrlf buffer (min reader.crlfSkip limit) limit = none ∧
      readUntilCrlf reader =
        (.error (if buffer.length > maxLineLen + 1 then .lineTooLong else .invalidResponse),
          ⟨reader.buffer, reader.pos, 0⟩) := by
  intro buffer limit
  unfold readUntilCrlf
  dsimp only
  cases found : findCrlf buffer (min reader.crlfSkip limit) limit with
  | some i => exact .inl ⟨i, rfl, rfl⟩
  | none =>
      refine .inr ⟨rfl, ?_⟩
      dsimp only
      by_cases long : buffer.length > maxLineLen + 1
      · rw [if_pos long, if_pos long]
      · rw [if_neg long, if_neg long]

theorem readUntilCrlf_tame : Tame readUntilCrlf where
  forward := by
    intro reader
    cases readUntilCrlf_cases reader with
    | inl finds =>
        obtain ⟨i, -, isRead⟩ := finds
        rw [isRead]
        exact ⟨rfl, Nat.le_add_right_of_le (Nat.le_add_right reader.pos i), fun _ => rfl⟩
    | inr fails =>
        rw [fails.2]
        exact ⟨rfl, Nat.le_refl _, fun _ => rfl⟩
  steady := by
    intro reader more notShort
    have isCase := readUntilCrlf_cases reader
    have isGrown := readUntilCrlf_cases (reader.grow more)
    by_cases inside : reader.pos ≤ reader.buffer.length
    · rw [drop_grow more inside] at isGrown
      change readUntilCrlf (reader.grow more) = _
      generalize reader.buffer.drop reader.pos = buffer at isCase isGrown
      dsimp only at isCase isGrown
      rw [List.length_append] at isGrown
      cases isCase with
      | inl finds =>
          obtain ⟨i, found, isRead⟩ := finds
          have isFound := findCrlf_some.mp found
          have isInside := isCrlfAt_inside isFound.2.2.1
          have sameStart :
              min (reader.grow more).crlfSkip
                  (min (buffer.length + more.length) (maxLineLen + 1)) =
                min reader.crlfSkip (min buffer.length (maxLineLen + 1)) := by
            change min reader.crlfSkip _ = _
            omega
          have again := findCrlf_append more found
            (show _ ≤ min (buffer.length + more.length) (maxLineLen + 1) by omega)
          rw [sameStart, again] at isGrown
          obtain ⟨i', isSame, isRead'⟩ | ⟨isNone, -⟩ := isGrown
          · cases isSame
            rw [isRead, isRead', List.take_append_of_le_length (by omega)]
            rfl
          · cases isNone
      | inr fails =>
          rw [fails.2] at notShort
          by_cases long : buffer.length > maxLineLen + 1
          · have absent : findCrlf (buffer ++ more)
                (min (reader.grow more).crlfSkip
                  (min (buffer.length + more.length) (maxLineLen + 1)))
                (min (buffer.length + more.length) (maxLineLen + 1)) = none := by
              rw [findCrlf_none]
              intro j isFrom isBelow
              change min reader.crlfSkip _ ≤ j at isFrom
              rw [isCrlfAt_append (by omega)]
              exact findCrlf_none.mp fails.1 j (by omega) (by omega)
            rw [absent] at isGrown
            obtain ⟨i', isSame, -⟩ | ⟨-, isRead'⟩ := isGrown
            · cases isSame
            · rw [fails.2, isRead', if_pos long, if_pos (by omega)]
              rfl
          · rw [if_neg long] at notShort
            exact absurd rfl notShort
    · -- A reader behind the end finds no byte, so it asks for more.
      rw [List.drop_eq_nil_of_le (Nat.le_of_not_le inside)] at isCase
      obtain ⟨i, found, -⟩ | ⟨-, isRead⟩ := isCase
      · have isInside := isCrlfAt_inside (findCrlf_some.mp found).2.2.1
        exact absurd isInside (Nat.not_lt_zero _)
      · have notLong : ¬ ([] : List UInt8).length > maxLineLen + 1 := Nat.not_lt_zero _
        rw [isRead, if_neg notLong] at notShort
        exact absurd rfl notShort

theorem skipPayload_tame (invalid : RedisError) (len : ℕ) : Tame (skipPayload invalid len) where
  forward := by
    intro reader
    unfold skipPayload
    split_ifs with behind
    · exact ahead_refl reader
    · exact ahead_refl reader
    · exact ⟨rfl, Nat.le_add_right_of_le (Nat.le_add_right reader.pos len), fun zero => zero⟩
  steady := by
    intro reader more notShort
    unfold skipPayload at notShort ⊢
    by_cases behind : reader.buffer.length - reader.pos < len + 2
    · rw [if_pos behind] at notShort
      exact absurd rfl notShort
    · have stillNot : ¬ (reader.buffer ++ more).length - reader.pos < len + 2 := by
        rw [List.length_append]
        omega
      change (if (reader.buffer ++ more).length - reader.pos < len + 2 then _
        else if (reader.buffer ++ more)[reader.pos + len]? ≠ some 0x0d ∨
          (reader.buffer ++ more)[reader.pos + len + 1]? ≠ some 0x0a then _ else _) = _
      rw [if_neg behind, if_neg stillNot, List.getElem?_append_left (by omega),
        List.getElem?_append_left (by omega)]
      split_ifs
      · rfl
      · rfl

/-- A read that first looks for the end of a line, and then does what is tame. -/
def StartsWithLine {α : Type} (read : ReadM α) : Prop :=
  ∃ next : List UInt8 → ReadM α, (∀ str, Tame (next str)) ∧ read = readUntilCrlf >>= next

theorem StartsWithLine.tame {α : Type} {read : ReadM α} (starts : StartsWithLine read) :
    Tame read := by
  obtain ⟨next, isTame, rfl⟩ := starts
  exact Read.tame_bind readUntilCrlf_tame isTame

theorem StartsWithLine.bind {α β : Type} {read : ReadM α} {next : α → ReadM β}
    (starts : StartsWithLine read) (later : ∀ value, Tame (next value)) :
    StartsWithLine (read >>= next) := by
  obtain ⟨first, isTame, rfl⟩ := starts
  refine ⟨fun str => first str >>= next, ?_, Read.bind_assoc readUntilCrlf first next⟩
  intro str
  exact Read.tame_bind (isTame str) later

theorem lineOf_starts {α : Type} (parse : List UInt8 → Except RedisError α) :
    StartsWithLine (lineOf parse) :=
  ⟨_, fun str => Read.tame_ofExcept (parse str), rfl⟩

theorem readInteger_starts : StartsWithLine readInteger :=
  lineOf_starts _

theorem skipBlob_starts (ty : RESPType) (invalid : RedisError) :
    StartsWithLine (skipBlob ty invalid) := by
  apply readInteger_starts.bind
  intro len
  split_ifs
  · exact Read.tame_pure none
  · exact Read.tame_fail invalid
  · exact Read.tame_fail invalid
  · apply Read.tame_bind (skipPayload_tame invalid len.toNat)
    intro skipped
    exact Read.tame_pure none

theorem countChildren_tame (ty : RESPType) (len : ℤ) : Tame (countChildren ty len) := by
  unfold countChildren
  split
  all_goals first | exact Read.tame_fail _ | (split_ifs <;> constructor <;> intros)
  all_goals first | exact ahead_refl _ | rfl

theorem skipScalar_starts (ty : RESPType) : StartsWithLine (skipScalar ty) := by
  cases ty
  case bulkString => exact skipBlob_starts _ _
  case blobError => exact skipBlob_starts _ _
  case verbatimString => exact skipBlob_starts _ _
  all_goals exact lineOf_starts _

/-- Either the type of an element is an error, or a line comes next. -/
theorem scanBody_cases (depth : ℕ) (typeByte : UInt8) :
    (∃ error, error ≠ .invalidResponse ∧ scanBody depth typeByte = Read.fail error) ∨
      StartsWithLine (scanBody depth typeByte) := by
  unfold scanBody
  cases RESPType.fromByte typeByte with
  | none => exact .inl ⟨_, by decide, rfl⟩
  | some ty =>
      dsimp only
      split_ifs
      · exact .inl ⟨_, by decide, rfl⟩
      · exact .inr (readInteger_starts.bind (countChildren_tame ty))
      · exact .inr (skipScalar_starts ty)

theorem scanBody_tame (depth : ℕ) (typeByte : UInt8) : Tame (scanBody depth typeByte) := by
  cases scanBody_cases depth typeByte with
  | inl fails =>
      obtain ⟨error, -, isFail⟩ := fails
      rw [isFail]
      exact Read.tame_fail error
  | inr starts => exact starts.tame

theorem scanOne_tame (depth : ℕ) : Tame (scanOne depth) :=
  Read.tame_bind readByte_tame (scanBody_tame depth)

/-! ### The scan -/

theorem readByte_ok {reader reader' : ValkeyReader} {byte : UInt8}
    (isRead : readByte reader = (.ok byte, reader')) :
    reader.buffer[reader.pos]? = some byte ∧ reader' = { reader with pos := reader.pos + 1 } := by
  cases isByte : reader.buffer[reader.pos]? with
  | none => cases (readByte_none isByte).symm.trans isRead
  | some other =>
      cases (readByte_some isByte).symm.trans isRead
      exact ⟨rfl, rfl⟩

theorem scanOne_decreases {depth : ℕ} {reader reader' : ValkeyReader} {children : Option ℕ}
    (isScan : scanOne depth reader = (.ok children, reader')) :
    reader.buffer.length - reader'.pos < reader.buffer.length - reader.pos := by
  obtain ⟨byte, between, isByte, isBody⟩ := Read.of_bind_ok isScan
  obtain ⟨isAt, rfl⟩ := readByte_ok isByte
  have inside := (List.getElem?_eq_some_iff.mp isAt).1
  have ahead : reader.pos + 1 ≤ reader'.pos := ((scanBody_tame depth byte).ahead isBody).forward
  omega

def scan (scanner : ReplyScanner) (buffer : List UInt8) :
    Except RedisError ScanResult × ReplyScanner :=
  match isScan : scanOne scanner.stack.length
      { buffer := buffer, pos := scanner.pos, crlfSkip := scanner.crlfSkip } with
  | (.error err, reader) =>
      if err = .invalidResponse then
        let crlfSkip :=
          if reader.pos = scanner.pos + 1 then buffer.length - reader.pos - 1 else 0
        (.ok .needMoreData, { scanner with crlfSkip := crlfSkip })
      else (.error err, scanner)
  | (.ok children, reader) =>
      let stack := afterElement children scanner.stack
      if stack = [] then (.ok .complete, { pos := reader.pos, stack := [], crlfSkip := 0 })
      else scan { pos := reader.pos, stack := stack, crlfSkip := 0 } buffer
termination_by buffer.length - scanner.pos
decreasing_by exact scanOne_decreases isScan

end Bun.Valkey
