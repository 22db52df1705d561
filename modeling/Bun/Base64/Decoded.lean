/-
The decoder writes the bytes of the digits, and takes what the encoder writes and nothing else.
-/

import Bun.Base64.Encoded

set_option autoImplicit false

namespace Bun.Base64

open Base64Decoder (invalidChar)
open Base64Encoder (paddingOf)

/-! ### The table -/

theorem table_eq {chars : List UInt8} (distinct : chars.Nodup) (start : ℕ) (table : UInt8 → UInt8)
    (c : UInt8) :
    ((chars.zipIdx start).foldl
        (fun table entry => Function.update table entry.1 (UInt8.ofNat entry.2)) table) c =
      if c ∈ chars then UInt8.ofNat (start + chars.idxOf c) else table c := by
  induction chars generalizing start table with
  | nil => rfl
  | cons char chars ih =>
      rw [List.nodup_cons] at distinct
      rw [List.zipIdx_cons, List.foldl_cons, ih distinct.2]
      by_cases isLater : c ∈ chars
      · have other : char ≠ c := fun same => distinct.1 (same ▸ isLater)
        rw [if_pos isLater, if_pos (List.mem_cons_of_mem _ isLater), List.idxOf_cons_ne _ other,
          Nat.succ_eq_add_one, Nat.add_assoc, Nat.add_comm 1]
      · rw [if_neg isLater]
        by_cases same : c = char
        · rw [same, Function.update_self, if_pos List.mem_cons_self, List.idxOf_cons_self,
            Nat.add_zero]
        · rw [Function.update_of_ne same, if_neg]
          rw [List.mem_cons, not_or]
          exact ⟨same, isLater⟩

namespace Alphabet

variable (alphabet : Alphabet)

def charAt (digit : ℕ) : UInt8 :=
  alphabet.codecs.encoder.charAt digit

theorem charToIndex_eq (c : UInt8) :
    alphabet.codecs.decoder.charToIndex c =
      if c ∈ alphabet.chars then UInt8.ofNat (alphabet.chars.idxOf c) else invalidChar := by
  have isEntry := table_eq alphabet.distinct 0 (fun _ => invalidChar) c
  rw [Nat.zero_add] at isEntry
  exact isEntry

theorem charAt_of_small {digit : ℕ} (small : digit < 64) :
    ∃ inside : digit < alphabet.chars.length, alphabet.charAt digit = alphabet.chars[digit] := by
  have inside : digit < alphabet.chars.length := alphabet.sized ▸ small
  refine ⟨inside, ?_⟩
  rw [charAt, Base64Encoder.charAt, Base64Encoder.and_low, Nat.mod_eq_of_lt small,
    List.getD_eq_getElem?_getD]
  exact congrArg (fun found => Option.getD found 0) (List.getElem?_eq_getElem inside)

theorem charToIndex_charAt {digit : ℕ} (small : digit < 64) :
    alphabet.codecs.decoder.charToIndex (alphabet.charAt digit) = UInt8.ofNat digit := by
  obtain ⟨inside, isChar⟩ := alphabet.charAt_of_small small
  rw [charToIndex_eq, isChar, if_pos (List.getElem_mem inside),
    alphabet.distinct.idxOf_getElem]

theorem ofNat_ne_invalidChar {digit : ℕ} (small : digit < 64) :
    UInt8.ofNat digit ≠ invalidChar := by
  intro same
  have sameNumber := congrArg UInt8.toNat same
  rw [toNat_ofNat_of_small (by omega)] at sameNumber
  have limit : invalidChar.toNat = 255 := rfl
  omega

theorem exists_digit {c : UInt8} (isChar : c ∈ alphabet.chars) :
    ∃ digit < 64, alphabet.charAt digit = c := by
  have inside := List.idxOf_lt_length_of_mem isChar
  have small : alphabet.chars.idxOf c < 64 := alphabet.sized ▸ inside
  obtain ⟨_, isAt⟩ := alphabet.charAt_of_small small
  exact ⟨_, small, isAt.trans (List.getElem_idxOf inside)⟩

theorem charAt_mem {digit : ℕ} (small : digit < 64) : alphabet.charAt digit ∈ alphabet.chars := by
  obtain ⟨inside, isChar⟩ := alphabet.charAt_of_small small
  rw [isChar]
  exact List.getElem_mem inside

/-! ### The loop -/

def writing (out room : List UInt8) (acc accLen : ℕ) : Decoding :=
  { dest := out ++ room, acc, accLen, destIdx := out.length }

theorem decodeLoop_few {digit : ℕ} (small : digit < 64) (rest : List UInt8) (srcIdx : ℕ)
    (out room : List UInt8) (acc accLen : ℕ) (few : accLen + 6 < 8) :
    alphabet.codecs.decoder.decodeLoop (alphabet.charAt digit :: rest) srcIdx
        (writing out room acc accLen) =
      alphabet.codecs.decoder.decodeLoop rest (srcIdx + 1)
        (writing out room (acc * 64 % 65536 + digit) (accLen + 6)) := by
  have isFew : ¬ (writing out room acc accLen).accLen + 6 ≥ 8 := Nat.not_le_of_lt few
  rw [Base64Decoder.decodeLoop, alphabet.charToIndex_charAt small]
  dsimp only
  rw [if_neg (ofNat_ne_invalidChar small), if_neg isFew, toNat_ofNat_of_small (by omega)]
  dsimp only [writing]
  rw [Nat.shiftLeft_eq]
  rfl

theorem decodeLoop_byte {digit : ℕ} (small : digit < 64) (rest : List UInt8) (srcIdx : ℕ)
    (out room : List UInt8) (acc accLen byte : ℕ) (old : UInt8)
    (isByte : (acc * 64 % 65536 + digit) / 2 ^ accLen % 256 = byte % 256) :
    alphabet.codecs.decoder.decodeLoop (alphabet.charAt digit :: rest) srcIdx
        (writing out (old :: room) acc (accLen + 2)) =
      alphabet.codecs.decoder.decodeLoop rest (srcIdx + 1)
        (writing (out ++ [UInt8.ofNat byte]) room (acc * 64 % 65536 + digit) accLen) := by
  have enough : (writing out (old :: room) acc (accLen + 2)).accLen + 6 ≥ 8 :=
    Nat.le_add_left 8 accLen
  have sameByte : UInt8.ofNat ((acc * 64 % 65536 + digit) / 2 ^ accLen) = UInt8.ofNat byte := by
    apply UInt8.toNat_inj.mp
    rw [UInt8.toNat_ofNat', UInt8.toNat_ofNat', isByte]
  have less : accLen + 2 + 6 - 8 = accLen := by omega
  have wide : (2 : ℕ) ^ 16 = 65536 := rfl
  have six : (2 : ℕ) ^ 6 = 64 := rfl
  rw [Base64Decoder.decodeLoop, alphabet.charToIndex_charAt small]
  dsimp only
  rw [if_neg (ofNat_ne_invalidChar small), if_pos enough, toNat_ofNat_of_small (by omega)]
  dsimp only [writing]
  rw [Nat.shiftLeft_eq, Nat.shiftRight_eq_div_pow, less, wide, six, sameByte, writeAt_end,
    Option.bind_eq_bind, Option.bind_some, List.append_assoc, List.length_append]
  rfl

/-- What the loop says when it comes to bytes that begin outside the alphabet. -/
def stopped : List UInt8 → ℕ → Except Error (Option ℕ)
  | [], _ => .ok none
  | c :: _, srcIdx =>
      if alphabet.padChar = some c then .ok (some srcIdx) else .error .invalidCharacter

theorem decodeLoop_stops {tail : List UInt8} (outside : ∀ c ∈ tail.head?, c ∉ alphabet.chars)
    (srcIdx : ℕ) (now : Decoding) :
    alphabet.codecs.decoder.decodeLoop tail srcIdx now =
      some (now, alphabet.stopped tail srcIdx) := by
  cases tail with
  | nil => rfl
  | cons c rest =>
      have isOutside := outside c rfl
      rw [Base64Decoder.decodeLoop, charToIndex_eq, if_neg isOutside]
      dsimp only
      rw [if_pos rfl, stopped]
      change (if alphabet.padChar = some c then _ else _) = _
      split
      · rfl
      · rfl

theorem decodeLoop_digits {digits : List ℕ} (small : ∀ digit ∈ digits, digit < 64)
    {tail : List UInt8} (outside : ∀ c ∈ tail.head?, c ∉ alphabet.chars) (srcIdx : ℕ)
    (out : List UInt8) {room : List UInt8} (acc : ℕ)
    (fits : (bytesOf digits).length ≤ room.length) :
    ∃ last, alphabet.codecs.decoder.decodeLoop (digits.map alphabet.charAt ++ tail) srcIdx
        (writing out room acc 0) =
      some (writing (out ++ bytesOf digits) (room.drop (bytesOf digits).length) last
        (restLength digits), alphabet.stopped tail (srcIdx + digits.length)) ∧
      last % 2 ^ restLength digits = restBits digits := by
  fun_induction bytesOf digits generalizing srcIdx out room acc with
  | case1 a b c d rest ih =>
      simp only [List.mem_cons, forall_eq_or_imp] at small
      obtain ⟨smallA, smallB, smallC, smallD, smallRest⟩ := small
      obtain ⟨x, room, rfl, behindOne⟩ := exists_cons_of_le fits
      obtain ⟨y, room, rfl, behindTwo⟩ := exists_cons_of_le behindOne
      obtain ⟨z, more, rfl, behindThree⟩ := exists_cons_of_le behindTwo
      have first := alphabet.decodeLoop_few smallA
        (alphabet.charAt b :: alphabet.charAt c :: alphabet.charAt d ::
          (rest.map alphabet.charAt ++ tail)) srcIdx out (x :: y :: z :: more) acc 0 (by decide)
      have second := alphabet.decodeLoop_byte smallB
        (alphabet.charAt c :: alphabet.charAt d :: (rest.map alphabet.charAt ++ tail)) (srcIdx + 1)
        out (y :: z :: more) (acc * 64 % 65536 + a) 4 (a * 4 + b / 16) x (by omega)
      have third := alphabet.decodeLoop_byte smallC
        (alphabet.charAt d :: (rest.map alphabet.charAt ++ tail)) (srcIdx + 1 + 1)
        (out ++ [UInt8.ofNat (a * 4 + b / 16)]) (z :: more)
        ((acc * 64 % 65536 + a) * 64 % 65536 + b) 2 (b % 16 * 16 + c / 4) y (by omega)
      have fourth := alphabet.decodeLoop_byte smallD (rest.map alphabet.charAt ++ tail)
        (srcIdx + 1 + 1 + 1)
        (out ++ [UInt8.ofNat (a * 4 + b / 16)] ++ [UInt8.ofNat (b % 16 * 16 + c / 4)]) more
        (((acc * 64 % 65536 + a) * 64 % 65536 + b) * 64 % 65536 + c) 0 (c % 4 * 64 + d) z (by omega)
      obtain ⟨last, run, isRest⟩ := ih smallRest (srcIdx + 1 + 1 + 1 + 1)
        (out ++ [UInt8.ofNat (a * 4 + b / 16)] ++ [UInt8.ofNat (b % 16 * 16 + c / 4)] ++
          [UInt8.ofNat (c % 4 * 64 + d)])
        ((((acc * 64 % 65536 + a) * 64 % 65536 + b) * 64 % 65536 + c) * 64 % 65536 + d)
        (by simpa using fits)
      refine ⟨last, ?_, isRest⟩
      refine (first.trans (second.trans (third.trans (fourth.trans run)))).trans ?_
      have place : srcIdx + 1 + 1 + 1 + 1 + rest.length = srcIdx + (rest.length + 4) := by omega
      simp only [List.append_assoc, List.cons_append, List.nil_append, List.length_cons, restLength,
        List.drop_succ_cons, place]
  | case2 a b c =>
      simp only [List.mem_cons, forall_eq_or_imp] at small
      obtain ⟨smallA, smallB, smallC, -⟩ := small
      obtain ⟨x, room, rfl, behindOne⟩ := exists_cons_of_le fits
      obtain ⟨y, more, rfl, behindTwo⟩ := exists_cons_of_le behindOne
      have first := alphabet.decodeLoop_few smallA
        (alphabet.charAt b :: alphabet.charAt c :: tail) srcIdx out (x :: y :: more) acc 0
        (by decide)
      have second := alphabet.decodeLoop_byte smallB (alphabet.charAt c :: tail) (srcIdx + 1)
        out (y :: more) (acc * 64 % 65536 + a) 4 (a * 4 + b / 16) x (by omega)
      have third := alphabet.decodeLoop_byte smallC tail (srcIdx + 1 + 1)
        (out ++ [UInt8.ofNat (a * 4 + b / 16)]) more
        ((acc * 64 % 65536 + a) * 64 % 65536 + b) 2 (b % 16 * 16 + c / 4) y (by omega)
      have stop := alphabet.decodeLoop_stops outside (srcIdx + 1 + 1 + 1)
        (writing (out ++ [UInt8.ofNat (a * 4 + b / 16)] ++ [UInt8.ofNat (b % 16 * 16 + c / 4)]) more
          (((acc * 64 % 65536 + a) * 64 % 65536 + b) * 64 % 65536 + c) 2)
      refine ⟨((acc * 64 % 65536 + a) * 64 % 65536 + b) * 64 % 65536 + c,
        (first.trans (second.trans (third.trans stop))).trans ?_, ?_⟩
      · rw [List.append_assoc]
        rfl
      · simp only [restLength, restBits]
        omega
  | case3 a b =>
      simp only [List.mem_cons, forall_eq_or_imp] at small
      obtain ⟨smallA, smallB, -⟩ := small
      obtain ⟨x, more, rfl, behindOne⟩ := exists_cons_of_le fits
      have first := alphabet.decodeLoop_few smallA (alphabet.charAt b :: tail) srcIdx out
        (x :: more) acc 0 (by decide)
      have second := alphabet.decodeLoop_byte smallB tail (srcIdx + 1) out more
        (acc * 64 % 65536 + a) 4 (a * 4 + b / 16) x (by omega)
      have stop := alphabet.decodeLoop_stops outside (srcIdx + 1 + 1)
        (writing (out ++ [UInt8.ofNat (a * 4 + b / 16)]) more
          ((acc * 64 % 65536 + a) * 64 % 65536 + b) 4)
      refine ⟨(acc * 64 % 65536 + a) * 64 % 65536 + b, first.trans (second.trans stop), ?_⟩
      simp only [restLength, restBits]
      omega
  | case4 a =>
      simp only [List.mem_cons, forall_eq_or_imp] at small
      have first := alphabet.decodeLoop_few small.1 tail srcIdx out room acc 0 (by decide)
      have stop := alphabet.decodeLoop_stops outside (srcIdx + 1)
        (writing out room (acc * 64 % 65536 + a) 6)
      refine ⟨acc * 64 % 65536 + a, (first.trans stop).trans ?_, ?_⟩
      · rw [List.append_nil]
        rfl
      · simp only [restLength, restBits]
        omega
  | case5 =>
      refine ⟨acc, (alphabet.decodeLoop_stops outside srcIdx (writing out room acc 0)).trans ?_, ?_⟩
      · rw [List.append_nil]
        rfl
      · exact Nat.mod_one acc

/-! ### What the decoder takes -/

/-- The characters of a text, up to the first byte outside the alphabet. -/
structure Split (source : List UInt8) (digits : List ℕ) (tail : List UInt8) : Prop where
  whole : source = digits.map alphabet.charAt ++ tail
  small : ∀ digit ∈ digits, digit < 64
  outside : ∀ c ∈ tail.head?, c ∉ alphabet.chars

theorem exists_split (source : List UInt8) : ∃ digits tail, alphabet.Split source digits tail := by
  induction source with
  | nil =>
      refine ⟨[], [], rfl, fun _ member => absurd member List.not_mem_nil, ?_⟩
      intro c isHead
      cases isHead
  | cons c rest ih =>
      by_cases isChar : c ∈ alphabet.chars
      · obtain ⟨digits, tail, whole, small, outside⟩ := ih
        obtain ⟨digit, isSmall, isAt⟩ := alphabet.exists_digit isChar
        refine ⟨digit :: digits, tail, ?_, ?_, outside⟩
        · rw [List.map_cons, isAt, List.cons_append, ← whole]
        · simp only [List.mem_cons, forall_eq_or_imp]
          exact ⟨isSmall, small⟩
      · refine ⟨[], c :: rest, rfl, fun _ member => absurd member List.not_mem_nil, ?_⟩
        intro other isHead
        rw [← Option.some.inj isHead]
        exact isChar

variable {alphabet} {source tail : List UInt8} {digits : List ℕ}

theorem Split.length_le (split : alphabet.Split source digits tail) {pad : UInt8}
    (isPad : alphabet.padChar = some pad) {place : ℕ} (isThere : source[place]? = some pad) :
    digits.length ≤ place := by
  by_contra isBefore
  have inside : place < digits.length := Nat.lt_of_not_le isBefore
  have isDigit : digits[place] < 64 := split.small _ (List.getElem_mem inside)
  rw [split.whole, List.getElem?_append_left (by rw [List.length_map]; exact inside),
    List.getElem?_map, List.getElem?_eq_getElem inside, Option.map_some] at isThere
  have isChar := alphabet.charAt_mem isDigit
  rw [Option.some.inj isThere] at isChar
  exact alphabet.apart pad isPad isChar

theorem Split.length_eq (split : alphabet.Split source digits tail) :
    source.length = digits.length + tail.length := by
  rw [split.whole, List.length_append, List.length_map]

theorem calcSizeForSlice_none (isPad : alphabet.padChar = none) {size : ℕ}
    (isSize : alphabet.codecs.decoder.calcSizeForSlice source = .ok size) :
    source.length % 4 ≠ 1 ∧ size = 6 * source.length / 8 := by
  have isNone : alphabet.codecs.decoder.padChar = none := isPad
  rw [Base64Decoder.calcSizeForSlice, Base64Decoder.calcSizeUpperBound, isNone] at isSize
  dsimp only at isSize
  rw [if_neg (by decide), Nat.mod_mod] at isSize
  by_cases single : source.length % 4 = 1
  · rw [if_pos single] at isSize
    cases isSize
  · rw [if_neg single] at isSize
    have same := Except.ok.inj isSize
    exact ⟨single, by omega⟩

theorem calcSizeForSlice_some {pad : UInt8} (isPad : alphabet.padChar = some pad) {size : ℕ}
    (isSize : alphabet.codecs.decoder.calcSizeForSlice source = .ok size) :
    source.length % 4 = 0 ∧
      size = source.length / 4 * 3 -
        (if source.length ≥ 1 ∧ source[source.length - 1]? = some pad then 1 else 0) -
        (if source.length ≥ 2 ∧ source[source.length - 2]? = some pad then 1 else 0) := by
  have isSome : alphabet.codecs.decoder.padChar = some pad := isPad
  rw [Base64Decoder.calcSizeForSlice, Base64Decoder.calcSizeUpperBound, isSome] at isSize
  dsimp only at isSize
  rw [if_pos Option.isSome_some, Nat.mod_mod] at isSize
  by_cases isWhole : source.length % 4 = 0
  · rw [if_neg (not_not_intro isWhole)] at isSize
    refine ⟨isWhole, (Except.ok.inj isSize).symm.trans ?_⟩
    split
    · split
      · rfl
      · rfl
    · split
      · rfl
      · rfl
  · rw [if_pos isWhole] at isSize
    cases isSize

theorem getElem?_padding {pad : UInt8} {count place : ℕ}
    (whole : source = digits.map alphabet.charAt ++ List.replicate count pad)
    (behind : digits.length ≤ place) (inside : place < source.length) :
    source[place]? = some pad := by
  rw [whole, List.length_append, List.length_map, List.length_replicate] at inside
  rw [whole, List.getElem?_append_right (by rw [List.length_map]; exact behind), List.length_map,
    List.getElem?_replicate, if_pos (by omega)]

theorem Split.bytes_fit (split : alphabet.Split source digits tail) {size : ℕ}
    (isSize : alphabet.codecs.decoder.calcSizeForSlice source = .ok size) :
    (bytesOf digits).length ≤ size ∧
      (restLength digits ≤ 4 → tail = paddingOf alphabet.padChar digits →
        (bytesOf digits).length = size) := by
  have length := split.length_eq
  rw [length_bytesOf]
  cases isPad : alphabet.padChar with
  | none =>
      obtain ⟨-, rfl⟩ := calcSizeForSlice_none isPad isSize
      refine ⟨by omega, fun _ isTail => ?_⟩
      rw [isTail] at length
      change _ = digits.length + 0 at length
      omega
  | some pad =>
      obtain ⟨isWhole, isExact⟩ := calcSizeForSlice_some isPad isSize
      have last : source[source.length - 1]? = some pad → digits.length ≤ source.length - 1 :=
        split.length_le isPad
      have lastButOne : source[source.length - 2]? = some pad → digits.length ≤ source.length - 2 :=
        split.length_le isPad
      constructor
      · rw [isExact]
        split
        · rename_i isLast
          have atMost := last isLast.2
          split
          · rename_i isLastButOne
            have atMostTwo := lastButOne isLastButOne.2
            omega
          · omega
        · split
          · rename_i isLastButOne
            have atMostTwo := lastButOne isLastButOne.2
            omega
          · omega
      · intro short isTail
        have whole := split.whole
        rw [isTail] at whole length
        change _ = digits.map alphabet.charAt ++ List.replicate (restLength digits / 2) pad at whole
        change _ = digits.length + (List.replicate (restLength digits / 2) pad).length at length
        rw [List.length_replicate] at length
        have rest := restLength_eq digits
        rw [isExact]
        split
        · rename_i isLast
          have atMost := last isLast.2
          split
          · rename_i isLastButOne
            have atMostTwo := lastButOne isLastButOne.2
            omega
          · rename_i notLastButOne
            by_cases two : digits.length + 2 ≤ source.length
            · exact absurd ⟨by omega, getElem?_padding whole (by omega) (by omega)⟩ notLastButOne
            · omega
        · rename_i notLast
          by_cases one : digits.length + 1 ≤ source.length
          · exact absurd ⟨by omega, getElem?_padding whole (by omega) (by omega)⟩ notLast
          · split
            · rename_i isLastButOne
              have atMostTwo := lastButOne isLastButOne.2
              omega
            · omega

/-! ### The checks behind the loop -/

theorem countPadding_eq_ok {pad : UInt8} {count start : ℕ} :
    Base64Decoder.countPadding pad tail start = .ok count ↔
      ∃ more, tail = List.replicate more pad ∧ count = start + more := by
  induction tail generalizing start with
  | nil =>
      constructor
      · intro same
        exact ⟨0, rfl, (Except.ok.inj same).symm⟩
      · rintro ⟨more, isTail, rfl⟩
        cases more with
        | zero => rfl
        | succ more => cases isTail
  | cons c rest ih =>
      rw [Base64Decoder.countPadding]
      by_cases same : c = pad
      · rw [if_neg (not_not_intro same), ih]
        constructor
        · rintro ⟨more, rfl, rfl⟩
          exact ⟨more + 1, by rw [same, List.replicate_succ], by omega⟩
        · rintro ⟨more, isTail, rfl⟩
          cases more with
          | zero => cases isTail
          | succ more =>
              rw [List.replicate_succ, List.cons.injEq] at isTail
              exact ⟨more, isTail.2, by omega⟩
      · rw [if_pos same]
        constructor
        · intro isOk
          cases isOk
        · rintro ⟨more, isTail, rfl⟩
          cases more with
          | zero => cases isTail
          | succ more =>
              rw [List.replicate_succ, List.cons.injEq] at isTail
              exact absurd isTail.1 same

theorem checkPadding_eq_ok {pad : UInt8} (isPad : alphabet.padChar = some pad) {accLen : ℕ} :
    alphabet.codecs.decoder.checkPadding accLen tail = .ok () ↔
      tail = List.replicate (accLen / 2) pad := by
  have isSome : alphabet.codecs.decoder.padChar = some pad := isPad
  rw [Base64Decoder.checkPadding, isSome]
  dsimp only
  cases isCount : Base64Decoder.countPadding pad tail 0 with
  | error error =>
      constructor
      · intro isOk
        cases isOk
      · intro isTail
        rw [countPadding_eq_ok.mpr ⟨_, isTail, rfl⟩] at isCount
        cases isCount
  | ok count =>
      obtain ⟨more, isTail, isMore⟩ := countPadding_eq_ok.mp isCount
      change (if count ≠ accLen / 2 then Except.error Error.invalidPadding else .ok ()) = _ ↔ _
      by_cases same : count = accLen / 2
      · rw [if_neg (not_not_intro same)]
        refine iff_of_true rfl ?_
        rw [isTail, ← same, isMore, Nat.zero_add]
      · rw [if_pos same]
        constructor
        · intro isOk
          cases isOk
        · intro isPadding
          have sameLength := congrArg List.length (isTail.symm.trans isPadding)
          rw [List.length_replicate, List.length_replicate] at sameLength
          omega

theorem finish_eq_ok {now : Decoding} {leftoverIdx : Option ℕ} {rest bits : ℕ}
    (isLength : now.accLen = rest) (isBits : now.acc % 2 ^ rest = bits) :
    alphabet.codecs.decoder.finish source now leftoverIdx = .ok () ↔
      (rest ≤ 4 ∧ bits = 0) ∧ ∀ idx, leftoverIdx = some idx →
        alphabet.codecs.decoder.checkPadding rest (source.drop idx) = .ok () := by
  have masked : now.acc &&& ((1 <<< now.accLen) - 1) = bits := by
    rw [isLength, Nat.one_shiftLeft, Nat.and_two_pow_sub_one_eq_mod, isBits]
  unfold Base64Decoder.finish
  rw [masked, isLength]
  by_cases passes : rest ≤ 4 ∧ bits = 0
  · rw [if_neg (by omega)]
    cases leftoverIdx with
    | none =>
        refine iff_of_true rfl ⟨passes, ?_⟩
        intro idx isSome
        cases isSome
    | some idx =>
        dsimp only
        constructor
        · intro isOk
          refine ⟨passes, fun other isSome => ?_⟩
          rw [← Option.some.inj isSome]
          exact isOk
        · intro both
          exact both.2 idx rfl
  · rw [if_pos (by omega)]
    constructor
    · intro isOk
      cases isOk
    · intro both
      exact absurd both.1 passes

theorem Split.leftover (split : alphabet.Split source digits tail) :
    source.drop digits.length = tail := by
  have count : (digits.map alphabet.charAt).length = digits.length := List.length_map _
  rw [split.whole, ← count, List.drop_left]

theorem paddingOf_of_whole (padChar : Option UInt8) (isWhole : digits.length % 4 = 0) :
    paddingOf padChar digits = [] := by
  have rest : restLength digits = 0 := by
    rw [restLength_eq]
    omega
  cases padChar with
  | none => rfl
  | some pad =>
      rw [paddingOf, Option.elim_some, rest]
      rfl

/-- Where the loop stops, the checks want exactly the padding of the digits. -/
theorem Split.stopped_finish (split : alphabet.Split source digits tail) {size : ℕ}
    (isSize : alphabet.codecs.decoder.calcSizeForSlice source = .ok size) (now : Decoding)
    (isLength : now.accLen = restLength digits)
    (isBits : now.acc % 2 ^ restLength digits = restBits digits) :
    (∃ leftoverIdx, alphabet.stopped tail digits.length = .ok leftoverIdx ∧
      alphabet.codecs.decoder.finish source now leftoverIdx = .ok ()) ↔
      Canonical digits ∧ tail = paddingOf alphabet.padChar digits := by
  have canonical : Canonical digits ↔ restLength digits ≤ 4 ∧ restBits digits = 0 :=
    ⟨fun is => ⟨is.short, is.zero⟩, fun is => ⟨split.small, is.1, is.2⟩⟩
  cases isTail : tail with
  | nil =>
      have noPadding : paddingOf alphabet.padChar digits = [] := by
        cases isPad : alphabet.padChar with
        | none => rfl
        | some pad =>
            obtain ⟨isWhole, -⟩ := calcSizeForSlice_some isPad isSize
            have length := split.length_eq
            rw [isTail, List.length_nil, Nat.add_zero] at length
            exact paddingOf_of_whole _ (length ▸ isWhole)
      rw [stopped, noPadding, canonical]
      constructor
      · rintro ⟨leftoverIdx, isNone, isOk⟩
        rw [← Except.ok.inj isNone] at isOk
        exact ⟨((finish_eq_ok isLength isBits).mp isOk).1, rfl⟩
      · rintro ⟨passes, -⟩
        refine ⟨none, rfl, (finish_eq_ok isLength isBits).mpr ⟨passes, ?_⟩⟩
        intro idx isSome
        cases isSome
  | cons c rest =>
      rw [stopped]
      by_cases isPad : alphabet.padChar = some c
      · rw [if_pos isPad, canonical]
        have isChecked : alphabet.codecs.decoder.checkPadding (restLength digits)
            (source.drop digits.length) = .ok () ↔
              c :: rest = paddingOf alphabet.padChar digits := by
          rw [split.leftover, checkPadding_eq_ok isPad, isTail, isPad]
          exact Iff.rfl
        constructor
        · rintro ⟨leftoverIdx, isSome, isOk⟩
          rw [← Except.ok.inj isSome] at isOk
          obtain ⟨passes, checks⟩ := (finish_eq_ok isLength isBits).mp isOk
          exact ⟨passes, isChecked.mp (checks _ rfl)⟩
        · rintro ⟨passes, isPadding⟩
          refine ⟨_, rfl, (finish_eq_ok isLength isBits).mpr ⟨passes, ?_⟩⟩
          intro idx isSome
          rw [← Option.some.inj isSome]
          exact isChecked.mpr isPadding
      · rw [if_neg isPad]
        constructor
        · rintro ⟨leftoverIdx, isOk, -⟩
          cases isOk
        · rintro ⟨-, isPadding⟩
          cases noPad : alphabet.padChar with
          | none =>
              rw [noPad] at isPadding
              cases isPadding
          | some pad =>
              rw [noPad, paddingOf, Option.elim_some] at isPadding
              have isIn : c ∈ List.replicate (restLength digits / 2) pad :=
                isPadding ▸ List.mem_cons_self
              rw [noPad, List.eq_of_mem_replicate isIn] at isPad
              exact absurd rfl isPad

/-- A run of the decoder: no write is outside, the bytes of the digits are there, and the result
is right for the characters of canonical digits with their padding. -/
theorem Split.decode (split : alphabet.Split source digits tail) {dest : List UInt8}
    (isSize : alphabet.codecs.decoder.calcSizeForSlice source = .ok dest.length) :
    ∃ result, alphabet.codecs.decoder.decode dest source =
        some (result, bytesOf digits ++ dest.drop (bytesOf digits).length) ∧
      (result = .ok () ↔ Canonical digits ∧ tail = paddingOf alphabet.padChar digits) := by
  obtain ⟨fits, -⟩ := split.bytes_fit isSize
  obtain ⟨last, run, isBits⟩ := alphabet.decodeLoop_digits split.small split.outside 0 [] 0 fits
  rw [← split.whole, Nat.zero_add, List.nil_append] at run
  have isWhole : ¬ (alphabet.codecs.decoder.padChar.isSome ∧ source.length % 4 ≠ 0) := by
    rintro ⟨isSome, notWhole⟩
    obtain ⟨pad, isPad⟩ := Option.isSome_iff_exists.mp isSome
    exact notWhole (calcSizeForSlice_some isPad isSize).1
  have isRun : alphabet.codecs.decoder.decodeLoop source 0 { dest } = _ := run
  have checks := split.stopped_finish isSize
    (writing (bytesOf digits) (dest.drop (bytesOf digits).length) last (restLength digits))
    rfl isBits
  rw [Base64Decoder.decode, if_neg isWhole, isRun, Option.bind_eq_bind, Option.bind_some]
  cases isStopped : alphabet.stopped tail digits.length with
  | error error =>
      refine ⟨.error error, rfl, ?_⟩
      rw [← checks, isStopped]
      constructor
      · intro isOk
        cases isOk
      · rintro ⟨leftoverIdx, isOk, -⟩
        cases isOk
  | ok leftoverIdx =>
      refine ⟨_, rfl, ?_⟩
      rw [← checks, isStopped]
      constructor
      · intro isOk
        exact ⟨leftoverIdx, rfl, isOk⟩
      · rintro ⟨other, same, isOk⟩
        rw [Except.ok.inj same]
        exact isOk

/-! ### Round trips -/

/-- What the encoder writes for some bytes, whatever was in its destination. -/
def Encodes (alphabet : Alphabet) (bytes source : List UInt8) : Prop :=
  ∀ dest : List UInt8, alphabet.codecs.encoder.calcSize bytes.length ≤ dest.length →
    alphabet.codecs.encoder.encode dest bytes = some source

theorem encodes_iff {bytes : List UInt8} : alphabet.Encodes bytes source ↔
    source = (digitsOf bytes).map alphabet.charAt ++ paddingOf alphabet.padChar (digitsOf bytes) := by
  constructor
  · intro encodes
    have isText := encodes (List.replicate (alphabet.codecs.encoder.calcSize bytes.length) 0)
      (Nat.le_of_eq List.length_replicate.symm)
    rw [Base64Encoder.encode_eq _ (Nat.le_of_eq List.length_replicate.symm)] at isText
    exact (Option.some.inj isText).symm
  · rintro rfl dest fits
    exact Base64Encoder.encode_eq _ fits

theorem charAt_injective {first second : ℕ} (smallFirst : first < 64) (smallSecond : second < 64)
    (same : alphabet.charAt first = alphabet.charAt second) : first = second := by
  have sameIndex := congrArg alphabet.codecs.decoder.charToIndex same
  rw [alphabet.charToIndex_charAt smallFirst, alphabet.charToIndex_charAt smallSecond] at sameIndex
  have sameNumber := congrArg UInt8.toNat sameIndex
  rwa [toNat_ofNat_of_small (by omega), toNat_ofNat_of_small (by omega)] at sameNumber

theorem Split.tail_cons {c : UInt8} {rest : List UInt8}
    (split : alphabet.Split (c :: rest) [] tail) : c ∉ alphabet.chars :=
  split.outside c (by rw [← List.nil_append tail, ← List.map_nil, ← split.whole]; rfl)

theorem Split.unique {others : List ℕ} {rest : List UInt8}
    (split : alphabet.Split source digits tail) (other : alphabet.Split source others rest) :
    digits = others ∧ tail = rest := by
  induction digits generalizing source others with
  | nil =>
      cases others with
      | nil =>
          have whole := split.whole.symm.trans other.whole
          exact ⟨rfl, whole⟩
      | cons digit more =>
          obtain rfl := other.whole
          exact absurd (alphabet.charAt_mem (other.small digit List.mem_cons_self)) split.tail_cons
  | cons digit digits ih =>
      cases others with
      | nil =>
          obtain rfl := split.whole
          exact absurd (alphabet.charAt_mem (split.small digit List.mem_cons_self)) other.tail_cons
      | cons second more =>
          have whole := split.whole.symm.trans other.whole
          rw [List.map_cons, List.map_cons, List.cons_append, List.cons_append,
            List.cons.injEq] at whole
          have same := charAt_injective (split.small digit List.mem_cons_self)
            (other.small second List.mem_cons_self) whole.1
          have smaller : alphabet.Split (digits.map alphabet.charAt ++ tail) digits tail :=
            ⟨rfl, fun x member => split.small x (List.mem_cons_of_mem _ member), split.outside⟩
          obtain ⟨sameDigits, sameTail⟩ := ih smaller
            ⟨whole.2, fun x member => other.small x (List.mem_cons_of_mem _ member), other.outside⟩
          exact ⟨by rw [same, sameDigits], sameTail⟩

theorem padding_outside (digits : List ℕ) :
    ∀ c ∈ (paddingOf alphabet.padChar digits).head?, c ∉ alphabet.chars := by
  intro c isHead
  cases isPad : alphabet.padChar with
  | none =>
      rw [isPad] at isHead
      cases isHead
  | some pad =>
      rw [isPad, paddingOf, Option.elim_some] at isHead
      rw [List.eq_of_mem_replicate (List.mem_of_mem_head? isHead)]
      exact alphabet.apart pad isPad

theorem Split.encodes_iff (split : alphabet.Split source digits tail) {bytes : List UInt8} :
    alphabet.Encodes bytes source ↔
      bytes = bytesOf digits ∧ Canonical digits ∧ tail = paddingOf alphabet.padChar digits := by
  rw [Alphabet.encodes_iff]
  constructor
  · intro isText
    have isSplit : alphabet.Split source (digitsOf bytes)
        (paddingOf alphabet.padChar (digitsOf bytes)) :=
      ⟨isText, digitsOf_small bytes, padding_outside _⟩
    obtain ⟨rfl, isTail⟩ := split.unique isSplit
    exact ⟨(bytesOf_digitsOf bytes).symm, digitsOf_canonical bytes, isTail⟩
  · rintro ⟨rfl, canonical, isTail⟩
    rw [digitsOf_bytesOf canonical, ← isTail]
    exact split.whole

theorem exists_size_none (isPad : alphabet.padChar = none) (notSingle : source.length % 4 ≠ 1) :
    ∃ size, alphabet.codecs.decoder.calcSizeForSlice source = .ok size := by
  have isNone : alphabet.codecs.decoder.padChar = none := isPad
  rw [Base64Decoder.calcSizeForSlice, Base64Decoder.calcSizeUpperBound, isNone]
  dsimp only
  rw [if_neg (by decide), Nat.mod_mod, if_neg notSingle]
  exact ⟨_, rfl⟩

theorem exists_size_some {pad : UInt8} (isPad : alphabet.padChar = some pad)
    (isWhole : source.length % 4 = 0) :
    ∃ size, alphabet.codecs.decoder.calcSizeForSlice source = .ok size := by
  have isSome : alphabet.codecs.decoder.padChar = some pad := isPad
  rw [Base64Decoder.calcSizeForSlice, Base64Decoder.calcSizeUpperBound, isSome]
  dsimp only
  rw [if_pos Option.isSome_some, Nat.mod_mod, if_neg (not_not_intro isWhole)]
  exact ⟨_, rfl⟩

theorem Encodes.split {bytes : List UInt8} (encodes : alphabet.Encodes bytes source) :
    alphabet.Split source (digitsOf bytes) (paddingOf alphabet.padChar (digitsOf bytes)) :=
  ⟨Alphabet.encodes_iff.mp encodes, digitsOf_small bytes, padding_outside _⟩

theorem Encodes.calcSizeForSlice {bytes : List UInt8} (encodes : alphabet.Encodes bytes source) :
    alphabet.codecs.decoder.calcSizeForSlice source = .ok bytes.length := by
  have split := encodes.split
  have length := split.length_eq
  have count := length_digitsOf bytes
  have isSized : ∃ size, alphabet.codecs.decoder.calcSizeForSlice source = .ok size := by
    cases isPad : alphabet.padChar with
    | none =>
        rw [isPad, paddingOf, Option.elim_none, List.length_nil] at length
        exact exists_size_none isPad (by omega)
    | some pad =>
        have rest := restLength_eq (digitsOf bytes)
        rw [isPad, paddingOf, Option.elim_some, List.length_replicate] at length
        exact exists_size_some isPad (by omega)
  obtain ⟨size, isSize⟩ := isSized
  have isLength := (split.bytes_fit isSize).2 (digitsOf_canonical bytes).short rfl
  rw [bytesOf_digitsOf] at isLength
  rw [isSize, isLength]

/-- The decoder takes exactly what the encoder writes, and gives back what it was written for. -/
theorem decode_iff_encodes (alphabet : Alphabet) :
    (∀ source dest : List UInt8,
      alphabet.codecs.decoder.calcSizeForSlice source = .ok dest.length →
        ∃ result written, alphabet.codecs.decoder.decode dest source = some (result, written) ∧
          written.length = dest.length ∧
          (result = .ok () ↔ ∃ bytes, alphabet.Encodes bytes source) ∧
          ∀ bytes, alphabet.Encodes bytes source → written = bytes) ∧
    (∀ (source : List UInt8) (error : Error),
      alphabet.codecs.decoder.calcSizeForSlice source = .error error →
        ¬ ∃ bytes, alphabet.Encodes bytes source) ∧
    ∀ bytes : List UInt8, ∃ source, alphabet.Encodes bytes source ∧
      alphabet.codecs.decoder.calcSizeForSlice source = .ok bytes.length ∧
      ∀ dest : List UInt8, dest.length = bytes.length →
        alphabet.codecs.decoder.decode dest source = some (.ok (), bytes) := by
  refine ⟨?_, ?_, ?_⟩
  · intro source dest isSize
    obtain ⟨digits, tail, split⟩ := alphabet.exists_split source
    obtain ⟨result, run, isOk⟩ := split.decode isSize
    have fits := split.bytes_fit isSize
    refine ⟨result, _, run, ?_, ?_, ?_⟩
    · rw [List.length_append, List.length_drop, Nat.add_sub_cancel' fits.1]
    · rw [isOk]
      constructor
      · exact fun both => ⟨_, split.encodes_iff.mpr ⟨rfl, both⟩⟩
      · rintro ⟨bytes, encodes⟩
        exact (split.encodes_iff.mp encodes).2
    · intro bytes encodes
      obtain ⟨rfl, canonical, isTail⟩ := split.encodes_iff.mp encodes
      rw [fits.2 canonical.short isTail, List.drop_length, List.append_nil]
  · rintro source error isError ⟨bytes, encodes⟩
    rw [encodes.calcSizeForSlice] at isError
    cases isError
  · intro bytes
    have encodes : alphabet.Encodes bytes _ := Alphabet.encodes_iff.mpr rfl
    refine ⟨_, encodes, encodes.calcSizeForSlice, ?_⟩
    intro dest sameLength
    obtain ⟨result, run, isOk⟩ :=
      encodes.split.decode (sameLength ▸ encodes.calcSizeForSlice)
    rw [run, isOk.mpr ⟨digitsOf_canonical bytes, rfl⟩, bytesOf_digitsOf, ← sameLength,
      List.drop_length, List.append_nil]

end Alphabet

example : standard.decoder.decode (List.replicate 5 0) (ascii "aGVsbG8=") =
    some (.ok (), ascii "hello") := by
  decide +kernel

example : standardNoPad.decoder.decode (List.replicate 5 0) (ascii "aGVsbG9") =
    some (.error .invalidPadding, ascii "hello") := by
  decide +kernel

end Bun.Base64
