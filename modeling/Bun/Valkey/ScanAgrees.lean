/-
The scanner finds the replies that the reader reads.

Between the two stands a scan that calls itself for what an aggregate has inside.  It passes over
what the reader reads, level by level, and the stack of the scanner is what is left to do for the
calls that have not returned.
-/

import Bun.Valkey.ResumedScan

set_option autoImplicit false

namespace Bun.Valkey

open Bun.Foundation
open Bun.Semver (ParseIntError parseWithSign)

abbrev Skips {α β : Type} (skip : ReadM α) (read : ReadM β) : Prop :=
  Read.Skips incoming skip read

/-! ### Payloads -/

theorem takeBytes_ok {reader reader' : ValkeyReader} {len : ℕ} {str : List UInt8}
    (isTaken : takeBytes len reader = (.ok str, reader')) :
    reader.pos + len ≤ reader.buffer.length ∧
      reader' = { reader with pos := reader.pos + len } := by
  unfold takeBytes at isTaken
  by_cases behind : reader.pos + len > reader.buffer.length
  · rw [if_pos behind] at isTaken
    cases isTaken
  · rw [if_neg behind] at isTaken
    cases isTaken
    exact ⟨Nat.le_of_not_gt behind, rfl⟩

theorem readUntilCrlf_empty {buffer : List UInt8} {pos : ℕ} {reader' : ValkeyReader} :
    readUntilCrlf ⟨buffer, pos, 0⟩ = (.ok [], reader') ↔
      isCrlfAt (buffer.drop pos) 0 = true ∧ reader' = ⟨buffer, pos + 2, 0⟩ := by
  have isCase := readUntilCrlf_cases ⟨buffer, pos, 0⟩
  dsimp only at isCase
  rw [Nat.zero_min] at isCase
  constructor
  · intro isRead
    obtain ⟨i, found, isOther⟩ | ⟨-, isOther⟩ := isCase
    · obtain ⟨isEmpty, isReader⟩ := Prod.mk.inj (isOther.symm.trans isRead)
      have isFound := (findCrlf_some.mp found).2.2.1
      have inside := isCrlfAt_inside isFound
      have noBytes := congrArg List.length (Except.ok.inj isEmpty)
      rw [List.length_take, List.length_nil] at noBytes
      have isFirst : i = 0 := by omega
      subst isFirst
      exact ⟨isFound, isReader.symm⟩
    · cases isOther.symm.trans isRead
  · intro isThere
    obtain ⟨isCrlf, rfl⟩ := isThere
    have inside := isCrlfAt_inside isCrlf
    have here : findCrlf (buffer.drop pos) 0 (min (buffer.drop pos).length (maxLineLen + 1)) =
        some 0 := by
      rw [findCrlf_some]
      exact ⟨Nat.le_refl _, by omega, isCrlf, fun j _ isBelow => absurd isBelow (Nat.not_lt_zero j)⟩
    rw [here] at isCase
    obtain ⟨i, isSame, isRead⟩ | ⟨isNone, -⟩ := isCase
    · cases isSame
      exact isRead
    · cases isNone

theorem isCrlfAt_drop (buffer : List UInt8) (pos : ℕ) :
    isCrlfAt (buffer.drop pos) 0 = true ↔
      buffer[pos]? = some 0x0d ∧ buffer[pos + 1]? = some 0x0a := by
  unfold isCrlfAt
  rw [Bool.and_eq_true, beq_iff_eq, beq_iff_eq, List.getElem?_drop, List.getElem?_drop]
  exact Iff.rfl

theorem skipPayload_ok {reader reader' : ValkeyReader} {invalid : RedisError} {len : ℕ}
    {skipped : Unit} :
    skipPayload invalid len reader = (.ok skipped, reader') ↔
      reader.pos + len + 2 ≤ reader.buffer.length ∧
        isCrlfAt (reader.buffer.drop (reader.pos + len)) 0 = true ∧
        reader' = { reader with pos := reader.pos + len + 2 } := by
  rw [isCrlfAt_drop]
  unfold skipPayload
  split_ifs with behind invalidEnd
  · constructor
    · intro isSkip
      cases isSkip
    · intro isThere
      omega
  · constructor
    · intro isSkip
      cases isSkip
    · intro isThere
      cases invalidEnd with
      | inl first => exact absurd isThere.2.1.1 first
      | inr second => exact absurd isThere.2.1.2 second
  · rw [not_or, not_not, not_not] at invalidEnd
    constructor
    · intro isSkip
      cases isSkip
      exact ⟨by omega, invalidEnd, rfl⟩
    · intro isThere
      rw [isThere.2.2]

/-- A payload is read if there is a line end right behind it, as when it is skipped. -/
theorem skipPayload_skips (invalid : RedisError) (len : ℕ) :
    Skips (skipPayload invalid len) (readPayload invalid len) where
  ofRead := by
    intro reader reader' str noSkip isRead
    obtain ⟨buffer, pos, skip⟩ := reader
    obtain rfl : skip = 0 := noSkip
    obtain ⟨taken, between, isTaken, isEnd⟩ := Read.of_bind_ok isRead
    obtain ⟨-, rfl⟩ := takeBytes_ok isTaken
    obtain ⟨crlf, last, isLine, isChecked⟩ := Read.of_bind_ok isEnd
    by_cases isEmpty : crlf = []
    · subst isEmpty
      rw [if_pos rfl] at isChecked
      cases isChecked
      obtain ⟨isCrlf, rfl⟩ := readUntilCrlf_empty.mp isLine
      have inside := isCrlfAt_inside isCrlf
      rw [List.length_drop] at inside
      change 0 + 1 < buffer.length - (pos + len) at inside
      have enoughToSkip : pos + len + 2 ≤ buffer.length := by omega
      exact ⟨(), skipPayload_ok.mpr ⟨enoughToSkip, isCrlf, rfl⟩⟩
    · rw [if_neg isEmpty] at isChecked
      cases isChecked
  ofSkip := by
    intro reader reader' skipped noSkip isSkip
    obtain ⟨buffer, pos, skip⟩ := reader
    obtain rfl : skip = 0 := noSkip
    obtain ⟨inside, isCrlf, rfl⟩ := skipPayload_ok.mp isSkip
    change pos + len + 2 ≤ buffer.length at inside
    have isTaken : takeBytes len ⟨buffer, pos, 0⟩ =
        (.ok ((buffer.drop pos).take len), ⟨buffer, pos + len, 0⟩) := by
      unfold takeBytes
      rw [if_neg (Nat.not_lt_of_le (Nat.le_trans (Nat.le_add_right _ 2) inside))]
    have isLine := readUntilCrlf_empty.mpr ⟨isCrlf, rfl⟩
    refine .inl ⟨(buffer.drop pos).take len, ?_⟩
    unfold readPayload
    rw [Read.bind_ok isTaken, Read.bind_ok isLine, if_pos rfl]
    rfl

/-! ### Elements without others inside -/

theorem parseInt_lt {buf : List UInt8} {value : ℤ} (isParsed : parseInt buf = .ok value) :
    value < 2 ^ 63 := by
  cases buf with
  | nil => cases isParsed
  | cons first rest =>
      unfold parseInt at isParsed
      dsimp only at isParsed
      cases isAcc : parseWithSign (if first = 0x2b ∨ first = 0x2d then rest else first :: rest)
          10 with
      | error error =>
          rw [isAcc] at isParsed
          cases isParsed
      | ok acc =>
          rw [isAcc] at isParsed
          change (if first = 0x2d then _ else _) = _ at isParsed
          split_ifs at isParsed with negative small small
          · cases isParsed
            omega
          · cases isParsed
            omega

theorem readInteger_lt {reader reader' : ValkeyReader} {len : ℤ}
    (isRead : readInteger reader = (.ok len, reader')) : len < 2 ^ 63 := by
  obtain ⟨str, between, -, isParsed⟩ := Read.of_bind_ok isRead
  dsimp only at isParsed
  cases isInt : parseInt str with
  | error error =>
      rw [isInt] at isParsed
      cases isParsed
  | ok value =>
      rw [isInt] at isParsed
      cases isParsed
      exact parseInt_lt isInt

/-- A number that both read may be taken to be a signed 64-bit one. -/
theorem readInteger_skips {α β : Type} {skip : ℤ → ReadM α} {read : ℤ → ReadM β}
    (later : ∀ len, len < 2 ^ 63 → Skips (skip len) (read len)) :
    Skips (readInteger >>= skip) (readInteger >>= read) := by
  apply Read.skips_same readInteger_starts.tame
  intro _ _ len isLen
  exact later len (readInteger_lt isLen)

/-- A line is passed over whatever is made of it, if only that does not ask for more. -/
theorem lineOf_skips {α β : Type} (value : α) {parse : List UInt8 → Except RedisError β}
    (notShort : ∀ str, parse str ≠ .error .invalidResponse) :
    Skips (lineOf fun _ => .ok value) (lineOf parse) := by
  apply Read.skips_same readUntilCrlf_tame
  intro _ _ str _
  exact Read.skips_ofExcept value (notShort str)

theorem skipPayload_then {β : Type} (invalid : RedisError) (len : ℕ)
    {parse : List UInt8 → Except RedisError β}
    (notShort : ∀ str, parse str ≠ .error .invalidResponse) :
    Skips (skipPayload invalid len >>= fun _ => (pure none : ReadM (Option ℕ)))
      (readPayload invalid len >>= fun str => Read.ofExcept (parse str)) := by
  apply Read.skips_bind (skipPayload_tame invalid len) (skipPayload_skips invalid len)
  intro _ _ skipped str _ _
  exact Read.skips_ofExcept none (notShort str)

theorem skipBlob_skips {β : Type} {ty : RESPType} (notBulk : ty ≠ .bulkString)
    (invalid : RedisError) {parse : List UInt8 → Except RedisError β}
    (notShort : ∀ str, parse str ≠ .error .invalidResponse) :
    Skips (skipBlob ty invalid) (blobOf invalid parse) := by
  apply readInteger_skips
  intro len _
  by_cases negative : len < 0
  · rw [if_pos negative, if_neg notBulk, if_neg (by omega)]
    exact Read.skips_fail_fail _ _
  · by_cases long : len > maxBulkLen
    · rw [if_neg negative, if_pos long, if_neg (by omega)]
      exact Read.skips_fail_fail _ _
    · rw [if_neg negative, if_neg long, if_pos (by omega)]
      exact skipPayload_then invalid len.toNat notShort

section

variable {δ : Type} [Doubles δ]

theorem skipScalar_skips (ty : RESPType) (isScalar : ty.isAggregate = false) :
    Skips (skipScalar ty) (readScalar ty : ReadM (RESPValue δ)) := by
  cases ty
  case simpleString | error | bigNumber => exact lineOf_skips none (by grind)
  case integer =>
    apply (lineOf_skips none _).mapRight
    intro str
    cases parseInt str <;> simp [Except.mapError]
  case double | boolean =>
    apply (lineOf_skips none _).mapRight
    grind
  case null =>
    apply Read.skips_same readUntilCrlf_tame
    intro _ _ str _
    dsimp only
    split_ifs
    · exact Read.skips_pure none _
    · exact Read.skips_fail_fail _ _
  case bulkString =>
    apply readInteger_skips
    intro len _
    by_cases negative : len < 0
    · rw [if_pos negative, if_pos rfl, if_pos negative]
      exact Read.skips_pure none _
    · by_cases long : len > maxBulkLen
      · rw [if_neg negative, if_pos long, if_neg negative, if_pos long]
        exact Read.skips_fail_fail _ _
      · rw [if_neg negative, if_neg long, if_neg negative, if_neg long]
        exact skipPayload_then _ _ (by grind)
  case blobError => exact skipBlob_skips (by decide) _ (by grind)
  case verbatimString =>
    apply skipBlob_skips (by decide)
    grind
  all_goals cases isScalar

theorem lineOf_none {reader reader' : ValkeyReader} {children : Option ℕ}
    (isRead : lineOf (fun _ => .ok none) reader = (.ok children, reader')) : children = none := by
  obtain ⟨str, between, -, isNone⟩ := Read.of_bind_ok isRead
  cases isNone
  rfl

theorem skipBlob_none {ty : RESPType} {invalid : RedisError} {reader reader' : ValkeyReader}
    {children : Option ℕ} (isRead : skipBlob ty invalid reader = (.ok children, reader')) :
    children = none := by
  obtain ⟨len, between, -, isRest⟩ := Read.of_bind_ok isRead
  split_ifs at isRest
  · cases isRest
    rfl
  · cases isRest
  · cases isRest
  · obtain ⟨skipped, last, -, isNone⟩ := Read.of_bind_ok isRest
    cases isNone
    rfl

theorem skipScalar_none {ty : RESPType} {reader reader' : ValkeyReader} {children : Option ℕ}
    (isSkip : skipScalar ty reader = (.ok children, reader')) : children = none := by
  cases ty
  case null =>
    obtain ⟨str, between, -, isRest⟩ := Read.of_bind_ok isSkip
    dsimp only at isRest
    split_ifs at isRest
    · cases isRest
      rfl
    · cases isRest
  case bulkString => exact skipBlob_none isSkip
  case blobError => exact skipBlob_none isSkip
  case verbatimString => exact skipBlob_none isSkip
  all_goals exact lineOf_none isSkip

/-! ### Elements with others inside -/

def skipChildren (skip : ReadM Unit) : Option ℕ → ReadM Unit
  | none => pure ()
  | some count => do
      let _ ← skip.times count
      pure ()

theorem skipChildren_tame {skip : ReadM Unit} (tame : Tame skip) (children : Option ℕ) :
    Tame (skipChildren skip children) := by
  cases children with
  | none => exact Read.tame_pure ()
  | some count => exact Read.tame_bind (Read.tame_times tame count) fun _ => Read.tame_pure ()

theorem saturating_exact {len : ℤ} (small : len < 2 ^ 63) :
    saturatingMul len.toNat 2 = len.toNat * 2 ∧
      saturatingAdd (saturatingMul len.toNat 2) 1 = len.toNat * 2 + 1 := by
  unfold saturatingMul saturatingAdd u64Max
  omega

omit [Doubles δ] in
/-- Where an aggregate has a number of elements inside, the reader reads that many. -/
theorem skipChildren_skips {skip : ReadM Unit} {read : ReadM (RESPValue δ)} {count : ℕ}
    (skips : Skips (skip.times count) read) :
    Skips (pure (some count) >>= skipChildren skip) read :=
  skips.mapLeft fun _ => ()

omit [Doubles δ] in
theorem readAggregate_skips {skip : ReadM Unit} {readValue : ReadM (RESPValue δ)}
    (tame : Tame skip) (skips : Skips skip readValue) (ty : RESPType)
    (isAggregate : ty.isAggregate = true) :
    Skips (readInteger >>= fun len => countChildren ty len >>= skipChildren skip)
      (readAggregate readValue ty) := by
  have one := Read.skips_times_one skips
  have two := Read.skips_times_pair tame skips
  have many : ∀ count, Skips (skip.times count) (readValue.times count) := by
    intro count
    have each := Read.skips_times tame one count
    rw [Nat.mul_one] at each
    exact each
  cases ty
  case array =>
    apply readInteger_skips
    intro len _
    unfold countChildren
    dsimp only
    split_ifs
    · exact Read.skips_pure () _
    · exact skipChildren_skips ((many _).mapRight _)
  case set =>
    apply readInteger_skips
    intro len _
    unfold countChildren
    dsimp only
    split_ifs
    · exact Read.skips_fail_fail _ _
    · exact skipChildren_skips ((many _).mapRight _)
  case map =>
    apply readInteger_skips
    intro len small
    unfold countChildren
    dsimp only
    split_ifs
    · exact Read.skips_fail_fail _ _
    · rw [(saturating_exact small).1]
      exact skipChildren_skips ((Read.skips_times tame two _).mapRight _)
  case «attribute» =>
    apply readInteger_skips
    intro len small
    unfold countChildren
    dsimp only
    split_ifs
    · exact Read.skips_fail_fail _ _
    · rw [(saturating_exact small).2]
      apply skipChildren_skips
      apply Read.skips_times_add tame (Read.skips_times tame two _)
      intro entries
      exact one.mapRight _
  case push =>
    apply readInteger_skips
    intro len _
    unfold countChildren
    dsimp only
    split_ifs
    · exact Read.skips_fail_fail _ _
    · have isOneMore : len.toNat = 1 + (len - 1).toNat := by omega
      rw [isOneMore]
      apply skipChildren_skips
      apply Read.skips_times_add tame one
      intro pushType
      cases pushKind pushType with
      | none => exact Read.skips_fail (by decide)
      | some kind => exact (many _).mapRight _
  all_goals cases isAggregate

/-- A scan of a whole element that calls itself for the elements inside. -/
def skipValue (depth : ℕ) : ReadM Unit := do
  let children ← scanOne depth
  if shallow : depth < maxNestingDepth then skipChildren (skipValue (depth + 1)) children
  else pure ()
termination_by maxNestingDepth - depth
decreasing_by omega

def skipInside (depth : ℕ) (children : Option ℕ) : ReadM Unit :=
  if depth < maxNestingDepth then skipChildren (skipValue (depth + 1)) children else pure ()

theorem skipValue_eq (depth : ℕ) : skipValue depth = scanOne depth >>= skipInside depth := by
  rw [skipValue.eq_def]
  rfl

theorem skipInside_shallow {depth : ℕ} (shallow : depth < maxNestingDepth) :
    skipInside depth = skipChildren (skipValue (depth + 1)) :=
  funext fun _ => if_pos shallow

theorem skipInside_none (depth : ℕ) : skipInside depth none = pure () := by
  unfold skipInside
  split_ifs
  · rfl
  · rfl

theorem skipValue_tame (depth : ℕ) : Tame (skipValue depth) := by
  induction left : maxNestingDepth - depth using Nat.strongRecOn generalizing depth with
  | ind levels ih =>
      rw [skipValue_eq]
      apply Read.tame_bind (scanOne_tame depth)
      intro children
      unfold skipInside
      split_ifs with shallow
      · apply skipChildren_tame
        exact ih (maxNestingDepth - (depth + 1)) (by omega) (depth + 1) rfl
      · exact Read.tame_pure ()

theorem skipScalar_then {ty : RESPType} (isScalar : ty.isAggregate = false) (depth : ℕ) :
    Skips (skipScalar ty >>= skipInside depth) (readScalar ty : ReadM (RESPValue δ)) := by
  have same : skipScalar ty >>= skipInside depth = skipScalar ty >>= fun _ => pure () := by
    apply Read.bind_congr_right
    intro reader reader' children isSkip
    rw [skipScalar_none isSkip, skipInside_none]
  rw [same]
  exact (skipScalar_skips ty isScalar).mapLeft fun _ => ()

theorem skipValue_skips (depth : ℕ) :
    Skips (skipValue depth) (readValueWithDepth depth : ReadM (RESPValue δ)) := by
  induction left : maxNestingDepth - depth using Nat.strongRecOn generalizing depth with
  | ind levels ih =>
      rw [readValueWithDepth.eq_def, skipValue_eq]
      unfold scanOne
      rw [Read.bind_assoc]
      apply Read.skips_same readByte_tame
      intro _ _ typeByte _
      unfold scanBody
      cases RESPType.fromByte typeByte with
      | none => exact Read.skips_fail_fail _ _
      | some ty =>
          dsimp only
          cases isAggregate : ty.isAggregate with
          | false =>
              rw [if_neg Bool.false_ne_true, if_neg Bool.false_ne_true]
              exact skipScalar_then isAggregate depth
          | true =>
              rw [if_pos rfl, if_pos rfl]
              by_cases deep : depth ≥ maxNestingDepth
              · rw [if_pos deep, dif_pos deep]
                exact Read.skips_fail_fail _ _
              · rw [if_neg deep, dif_neg deep, Read.bind_assoc]
                rw [skipInside_shallow (Nat.lt_of_not_le deep)]
                apply readAggregate_skips (skipValue_tame (depth + 1)) _ ty isAggregate
                exact ih (maxNestingDepth - (depth + 1)) (by omega) (depth + 1) rfl

end

/-! ### The stack -/

/-- What is left to do when an element is over, inside of the aggregates of a stack. -/
def finish : List ℕ → ReadM Unit
  | [] => pure ()
  | remaining :: outer => do
      let _ ← (skipValue (outer.length + 1)).times (remaining - 1)
      finish outer

theorem finish_cons (remaining : ℕ) (outer : List ℕ) :
    finish (remaining :: outer) =
      (skipValue (outer.length + 1)).times (remaining - 1) >>= fun _ => finish outer :=
  rfl

/-- The next element, and what is left to do behind it. -/
def restOf (stack : List ℕ) : ReadM Unit := do
  skipValue stack.length
  finish stack

theorem times_then {α β : Type} (read : ReadM α) (count : ℕ) (next : ReadM β) :
    (read.times (count + 1) >>= fun _ => next) =
      read >>= fun _ => read.times count >>= fun _ => next := by
  rw [Read.times_succ, Read.bind_assoc]
  apply congrArg (read >>= ·)
  funext value
  rw [Read.bind_assoc]
  rfl

/-- What is left behind an element is the next one that the unwound stack asks for. -/
theorem finish_unwind (stack : List ℕ) :
    finish stack = if unwind stack = [] then pure () else restOf (unwind stack) := by
  induction stack with
  | nil => rfl
  | cons remaining outer ih =>
      unfold unwind
      cases count : remaining - 1 with
      | zero =>
          rw [if_neg (Nat.lt_irrefl 0), ← ih, finish_cons, count]
          rfl
      | succ more =>
          rw [if_pos (Nat.succ_pos more), if_neg (List.cons_ne_nil _ _), finish_cons, count,
            times_then]
          rfl

/-- After an element was passed over, the scanner has the stack of what is left to do. -/
theorem finish_afterElement {depth : ℕ} {children : Option ℕ} {stack : List ℕ}
    (isDepth : depth = stack.length) :
    (skipChildren (skipValue (depth + 1)) children >>= fun _ => finish stack) =
      if afterElement children stack = [] then pure () else restOf (afterElement children stack) := by
  subst isDepth
  cases children with
  | none => exact finish_unwind stack
  | some count =>
      cases count with
      | zero => exact finish_unwind stack
      | succ count =>
          unfold afterElement
          dsimp only
          rw [if_neg (List.cons_ne_nil _ _)]
          unfold skipChildren restOf
          rw [Read.bind_assoc]
          exact times_then (skipValue (stack.length + 1)) count (finish stack)

/-- At the deepest level an element that is passed over has no others inside. -/
theorem scanOne_deep {depth : ℕ} (deep : ¬ depth < maxNestingDepth) {reader reader' : ValkeyReader}
    {children : Option ℕ} (isOne : scanOne depth reader = (.ok children, reader')) :
    children = none := by
  obtain ⟨byte, between, -, isBody⟩ := Read.of_bind_ok isOne
  change scanBody depth byte between = _ at isBody
  unfold scanBody at isBody
  cases isType : RESPType.fromByte byte with
  | none =>
      rw [isType] at isBody
      cases isBody
  | some ty =>
      rw [isType] at isBody
      dsimp only at isBody
      split_ifs at isBody with isAggregate isDeep
      · cases isBody
      · omega
      · exact skipScalar_none isBody

theorem restOf_ok {stack : List ℕ} {reader reader' : ValkeyReader} {children : Option ℕ}
    (isOne : scanOne stack.length reader = (.ok children, reader')) :
    restOf stack reader =
      (if afterElement children stack = [] then pure () else restOf (afterElement children stack) :
        ReadM Unit) reader' := by
  unfold restOf
  rw [skipValue_eq, Read.bind_assoc, Read.bind_ok isOne]
  by_cases shallow : stack.length < maxNestingDepth
  · rw [skipInside_shallow shallow]
    exact congrFun (finish_afterElement rfl) reader'
  · rw [scanOne_deep shallow isOne, skipInside_none]
    exact congrFun (finish_unwind stack) reader'

theorem restOf_error {stack : List ℕ} {reader reader' : ValkeyReader} {error : RedisError}
    (isOne : scanOne stack.length reader = (.error error, reader')) :
    restOf stack reader = (.error error, reader') := by
  unfold restOf
  rw [skipValue_eq, Read.bind_assoc, Read.bind_error isOne]

theorem scanOne_ok_reader {scanner : ReplyScanner} {buffer : List UInt8} {depth : ℕ}
    {reader : ValkeyReader} {children : Option ℕ} (noSkip : scanner.crlfSkip = 0)
    (isOne : scanOne depth (scanner.reader buffer) = (.ok children, reader)) :
    reader = ⟨buffer, reader.pos, 0⟩ := by
  have ahead : Ahead (scanner.reader buffer) reader := (scanOne_tame depth).ahead isOne
  obtain ⟨buffer', pos', skip'⟩ := reader
  obtain rfl : buffer' = buffer := ahead.sameBuffer
  obtain rfl : skip' = 0 := ahead.noSkip noSkip
  rfl

def reported (error : RedisError) : Except RedisError ScanResult :=
  if error = .invalidResponse then .ok .needMoreData else .error error

/-- The scan does what is left to do for its stack, and says how that ended. -/
theorem scan_restOf (scanner : ReplyScanner) (buffer : List UInt8)
    (noSkip : scanner.crlfSkip = 0) :
    (∃ reader', restOf scanner.stack (scanner.reader buffer) = (.ok (), reader') ∧
      scan scanner buffer = (.ok .complete, ⟨reader'.pos, [], 0⟩)) ∨
    ∃ error reader', restOf scanner.stack (scanner.reader buffer) = (.error error, reader') ∧
      (scan scanner buffer).1 = reported error := by
  fun_induction scan scanner buffer with
  | case1 scanner reader _ isOne => exact .inr ⟨_, reader, restOf_error isOne, rfl⟩
  | case2 scanner err reader isOne notShort =>
      exact .inr ⟨err, reader, restOf_error isOne, (if_neg notShort).symm⟩
  | case3 scanner children reader isOne _ isOver =>
      rw [restOf_ok isOne, if_pos isOver]
      exact .inl ⟨reader, rfl, rfl⟩
  | case4 scanner children reader isOne _ notOver ih =>
      rw [restOf_ok isOne, if_neg notOver, scanOne_ok_reader noSkip isOne]
      exact ih rfl

theorem restOf_nil : restOf [] = skipValue 0 :=
  Read.bind_pure (skipValue 0)

section

variable {δ : Type} [Doubles δ]

/-- A reply that can be read is found by the scan, with the same end. -/
theorem scan_of_readValue {buffer : List UInt8} {value : RESPValue δ} {reader : ValkeyReader}
    (isRead : readValue (ValkeyReader.init buffer) = (.ok value, reader)) :
    scan {} buffer = (.ok .complete, { pos := reader.pos }) := by
  have skips := skipValue_skips (δ := δ) 0
  obtain ⟨skipped, isSkip⟩ := skips.ofRead (ValkeyReader.init buffer) reader value rfl isRead
  rw [← restOf_nil] at isSkip
  cases scan_restOf {} buffer rfl with
  | inl succeeds =>
      obtain ⟨reader', isRest, isScan⟩ := succeeds
      cases isSkip.symm.trans isRest
      exact isScan
  | inr fails =>
      obtain ⟨error, reader', isRest, -⟩ := fails
      cases isSkip.symm.trans isRest

/-- A reply that the scan finds can be read, with the same end, or is an error.  It is never too
short. -/
theorem readValue_of_scan {buffer : List UInt8} {scanner : ReplyScanner}
    (isScan : scan {} buffer = (.ok .complete, scanner)) :
    (∃ (value : RESPValue δ) (reader : ValkeyReader),
      readValue (ValkeyReader.init buffer) = (.ok value, reader) ∧ reader.pos = scanner.pos) ∨
    ∃ (error : RedisError) (reader : ValkeyReader),
      (readValue (ValkeyReader.init buffer) : Except RedisError (RESPValue δ) × ValkeyReader) =
        (.error error, reader) ∧ error ≠ .invalidResponse := by
  have skips := skipValue_skips (δ := δ) 0
  cases scan_restOf {} buffer rfl with
  | inl succeeds =>
      obtain ⟨reader', isRest, isScan'⟩ := succeeds
      cases isScan'.symm.trans isScan
      rw [restOf_nil] at isRest
      cases skips.ofSkip (ValkeyReader.init buffer) reader' () rfl isRest with
      | inl reads =>
          obtain ⟨value, isRead⟩ := reads
          exact .inl ⟨value, reader', isRead, rfl⟩
      | inr fails =>
          obtain ⟨error, between, isRead, notShort⟩ := fails
          exact .inr ⟨error, between, isRead, notShort⟩
  | inr fails =>
      obtain ⟨error, reader', -, isScan'⟩ := fails
      rw [isScan] at isScan'
      unfold reported at isScan'
      by_cases isShort : error = .invalidResponse
      · rw [if_pos isShort] at isScan'
        cases isScan'
      · rw [if_neg isShort] at isScan'
        cases isScan'

/-- However the bytes come in, the scans of them end as one scan of all of them.  A reply that they
find can be read, with the same end, or is an error that is not an incomplete response, and a reply
that can be read is found. -/
theorem scanChunks_agrees (chunks : List (List UInt8)) :
    outcome (scanChunks {} [] chunks) = outcome (scan {} chunks.flatten) ∧
    (∀ scanner : ReplyScanner, scanChunks {} [] chunks = (.ok .complete, scanner) →
      (∃ (value : RESPValue δ) (reader : ValkeyReader),
        readValue (ValkeyReader.init chunks.flatten) = (.ok value, reader) ∧
          reader.pos = scanner.pos) ∨
      ∃ (error : RedisError) (reader : ValkeyReader),
        (readValue (ValkeyReader.init chunks.flatten) :
          Except RedisError (RESPValue δ) × ValkeyReader) = (.error error, reader) ∧
          error ≠ .invalidResponse) ∧
    ∀ (value : RESPValue δ) (reader : ValkeyReader),
      readValue (ValkeyReader.init chunks.flatten) = (.ok value, reader) →
        scan {} chunks.flatten = (.ok .complete, { pos := reader.pos }) := by
  have resumed := scanChunks_eq_scan chunks
  refine ⟨resumed, ?_, fun value reader isRead => scan_of_readValue isRead⟩
  intro scanner isScan
  rw [isScan] at resumed
  exact readValue_of_scan (scan_of_outcome resumed.symm)

end

/-- A map with an array in it, cut inside a line end, behind a payload and behind a type. -/
theorem scanChunks_agrees_map :
    outcome (scanChunks {} [] [ascii "%1\r\n$1\r", ascii "\na\r\n*", ascii "1\r\n:5\r\n"]) =
      .ok (.complete, { pos := 19 }) := by
  let : Doubles Unit := ⟨(), (), (), fun _ => none⟩
  obtain ⟨resumed, -, ofRead⟩ := scanChunks_agrees (δ := Unit)
    [ascii "%1\r\n$1\r", ascii "\na\r\n*", ascii "1\r\n:5\r\n"]
  have isWhole : ((readValue (ValkeyReader.init (ascii "%1\r\n$1\r\na\r\n*1\r\n:5\r\n")) :
      Except RedisError (RESPValue Unit) × ValkeyReader).1.toBool = true) ∧
      (readValue (ValkeyReader.init (ascii "%1\r\n$1\r\na\r\n*1\r\n:5\r\n")) :
        Except RedisError (RESPValue Unit) × ValkeyReader).2.pos = 19 := by
    decide +kernel
  rw [show [ascii "%1\r\n$1\r", ascii "\na\r\n*", ascii "1\r\n:5\r\n"].flatten =
    ascii "%1\r\n$1\r\na\r\n*1\r\n:5\r\n" from by decide] at resumed ofRead
  cases isRead : (readValue (ValkeyReader.init (ascii "%1\r\n$1\r\na\r\n*1\r\n:5\r\n")) :
      Except RedisError (RESPValue Unit) × ValkeyReader) with
  | mk answer reader =>
      rw [isRead] at isWhole
      cases answer with
      | error err => cases isWhole.1
      | ok value =>
          rw [resumed, ofRead value reader isRead, show reader.pos = 19 from isWhole.2]
          rfl

end Bun.Valkey
