/-
A sequence's nodes match the front of the rest of a path exactly where one of the words
that the sequence stands for is there.
-/

import Bun.Glob.SequenceReading

set_option autoImplicit false

namespace Bun.Glob

open Semver (isAsciiDigit isAsciiAlphabetic isNumeric hyphen dot plus)

/-! ### Leading zeros -/

theorem decimalFrom_zeros (count : ℕ) :
    decimalFrom 0 (List.replicate count zeroDigit) = 0 := by
  induction count with
  | zero => rfl
  | succ count ih =>
      rw [List.replicate_succ, decimalFrom_cons]
      exact ih

theorem decimalValue_zeros_append (count n : ℕ) :
    decimalValue (List.replicate count zeroDigit ++ decimalText n) = n := by
  unfold decimalValue
  rw [decimalFrom_append, decimalFrom_zeros]
  exact decimalValue_decimalText n

theorem numeric_zeros_append (count n : ℕ) :
    isNumeric (List.replicate count zeroDigit ++ decimalText n) = true := by
  have zeros : (List.replicate count zeroDigit).all isAsciiDigit = true := by
    rw [List.all_eq_true]
    intro c isIn
    rw [List.eq_of_mem_replicate isIn]
    rfl
  unfold isNumeric
  rw [List.all_append, zeros, Semver.decimalText_digits]
  simp [decimalText_ne_nil]

theorem digits_eq_zeros_append {digits : List UInt8} (numeric : isNumeric digits = true) :
    digits = List.replicate (Sequence.leadingZeros digits) zeroDigit ++
      decimalText (decimalValue digits) := by
  induction digits with
  | nil => exact absurd numeric (by decide)
  | cons c rest ih =>
      have digit : isAsciiDigit c = true ∧ rest.all isAsciiDigit = true := by
        unfold isNumeric at numeric
        rw [List.all_cons, Bool.and_eq_true, Bool.and_eq_true] at numeric
        exact numeric.2
      have range := (Semver.isAsciiDigit_iff c).mp digit.1
      have byte : UInt8.ofNat (0x30 + (c.toNat - 0x30)) = c := by
        have same : 0x30 + (c.toNat - 0x30) = c.toNat := by omega
        rw [same, UInt8.ofNat_toNat]
      have value : decimalValue (c :: rest) = decimalFrom (c.toNat - 0x30) rest := by
        unfold decimalValue
        rw [decimalFrom_cons, Nat.zero_mul, Nat.zero_add]
      by_cases isLast : rest = []
      · subst isLast
        have noZeros : Sequence.leadingZeros [c] = 0 := Nat.min_eq_right (Nat.zero_le _)
        rw [value, noZeros, decimalFrom_nil, decimalText_small _ (by omega), byte]
        rfl
      · have positive : 0 < rest.length := List.length_pos_iff.mpr isLast
        by_cases isZero : c = zeroDigit
        · subst isZero
          have restNumeric : isNumeric rest = true := by
            unfold isNumeric
            rw [digit.2]
            simp [isLast]
          have oneMore : Sequence.leadingZeros (zeroDigit :: rest) =
              Sequence.leadingZeros rest + 1 := by
            unfold Sequence.leadingZeros
            rw [List.takeWhile_cons_of_pos (p := (· == zeroDigit)) (beq_self_eq_true _), List.length_cons, List.length_cons]
            omega
          rw [value, oneMore, List.replicate_succ, List.cons_append]
          exact congrArg (zeroDigit :: ·) (ih restNumeric)
        · have noZeros : Sequence.leadingZeros (c :: rest) = 0 := by
            unfold Sequence.leadingZeros
            rw [List.takeWhile_cons_of_neg (by simpa using isZero)]
            exact Nat.zero_min _
          have notZero : 0 < c.toNat - 0x30 := by
            have other : c.toNat ≠ 0x30 := fun same => isZero (UInt8.toNat_inj.mp same)
            omega
          rw [value, noZeros, Semver.decimalText_decimalFrom notZero digit.2,
            decimalText_small _ (by omega), byte]
          rfl

theorem leadingZeros_zeros_append (count n : ℕ) :
    Sequence.leadingZeros (List.replicate count zeroDigit ++ decimalText n) = count := by
  have same := congrArg List.length (digits_eq_zeros_append (numeric_zeros_append count n))
  rw [decimalValue_zeros_append, List.length_append, List.length_append, List.length_replicate,
    List.length_replicate] at same
  omega

theorem leadingZeros_pos {digits : List UInt8} (startsZero : digits.head? = some zeroDigit)
    (more : 1 < digits.length) : 0 < Sequence.leadingZeros digits := by
  cases digits with
  | nil => exact nomatch startsZero
  | cons c rest =>
      obtain rfl := Option.some.inj startsZero
      unfold Sequence.leadingZeros
      rw [List.takeWhile_cons_of_pos (p := (· == zeroDigit)) (beq_self_eq_true _), List.length_cons]
      rw [List.length_cons] at more ⊢
      omega

/-! ### Numbers of a sequence -/

theorem writtenNumber_padded {value : ℤ} (fits : IsI64 value) (width : ℕ) :
    WrittenNumber (padded width value) value := by
  refine ⟨fits, _, numeric_zeros_append (lacking width value) value.natAbs, ?_⟩
  rw [decimalValue_zeros_append]
  unfold padded sign
  split
  · exact Or.inr ⟨rfl, by omega⟩
  · exact Or.inl ⟨rfl, by omega⟩

theorem length_padded (width : ℕ) (value : ℤ) :
    (padded width value).length =
      max width ((sign value).length + (decimalText value.natAbs).length) := by
  unfold padded lacking
  rw [List.length_append, List.length_append, List.length_replicate]
  omega

theorem WrittenNumber.noPlus {text : List UInt8} {value : ℤ} (isNumber : WrittenNumber text value) :
    text.head? ≠ some plus := by
  obtain ⟨_, digits, numeric, ⟨rfl, _⟩ | ⟨rfl, _⟩⟩ := isNumber
  · intro startsPlus
    cases text with
    | nil => exact nomatch startsPlus
    | cons c rest =>
        obtain rfl := Option.some.inj startsPlus
        exact not_mem_of_numeric numeric (c := plus) rfl List.mem_cons_self
  · exact fun startsPlus => absurd (Option.some.inj startsPlus) (by decide)

theorem hasNumber_iff {sequence : Sequence} {width : ℕ} {text : List UInt8}
    (noPlus : text.head? ≠ some plus)
    (fitting : ∀ value, sequence.hasValue value = true → IsI64 value) :
    sequence.hasNumber width text = true ↔
      ∃ value, sequence.hasValue value = true ∧ text = padded width value := by
  unfold Sequence.hasNumber
  dsimp only
  constructor
  · intro isTaken
    split at isTaken
    · exact nomatch isTaken
    · cases isParsed : parseI64 text with
      | none =>
          rw [isParsed] at isTaken
          exact nomatch isTaken
      | some value =>
          rw [isParsed] at isTaken
          dsimp only at isTaken
          rw [Bool.and_eq_true, Bool.and_eq_true] at isTaken
          obtain ⟨⟨isValue, notMinusZero⟩, wide⟩ := isTaken
          refine ⟨value, isValue, ?_⟩
          obtain ⟨_, digits, numeric, written⟩ := (parseI64_iff noPlus).mp isParsed
          have isDigits := digits_eq_zeros_append numeric
          have length := congrArg List.length isDigits
          rw [List.length_append, List.length_replicate] at length
          -- The zeros are as many as the width asks for, with or without a sign.
          have zerosFit (strip : stripMinus text = digits) :
              text.length = width ∨
                Sequence.leadingZeros digits = 0 ∧ width ≤ text.length := by
            rw [strip] at wide
            split at wide
            · rename_i noZeros
              exact Or.inr ⟨noZeros, of_decide_eq_true wide⟩
            · exact Or.inl (eq_of_beq wide)
          rcases written with ⟨rfl, rfl⟩ | ⟨rfl, rfl⟩
          · have fit := zerosFit (stripMinus_numeric numeric)
            have noSign : sign (decimalValue text : ℤ) = [] :=
              if_neg (not_lt.mpr (Int.natCast_nonneg _))
            unfold padded lacking
            rw [noSign, Int.natAbs_natCast, List.nil_append, List.length_nil, Nat.zero_add]
            have zeros : Sequence.leadingZeros text =
                width - (decimalText (decimalValue text)).length := by omega
            rw [← zeros]
            exact isDigits
          · have fit := zerosFit (stripMinus_hyphen digits)
            have notZero : decimalValue digits ≠ 0 := by
              intro isZero
              rw [stripMinus_hyphen, isZero] at notMinusZero
              simp at notMinusZero
            have minus : sign (-(decimalValue digits : ℤ)) = [hyphen] := if_pos (by omega)
            unfold padded lacking
            rw [minus, Int.natAbs_neg, Int.natAbs_natCast, List.length_singleton,
              List.singleton_append]
            rw [List.length_cons] at fit
            have zeros : Sequence.leadingZeros digits =
                width - (1 + (decimalText (decimalValue digits)).length) := by omega
            rw [← zeros]
            exact congrArg (hyphen :: ·) isDigits
  · rintro ⟨value, isValue, rfl⟩
    have written := writtenNumber_padded (fitting value isValue) width
    have isParsed := (parseI64_iff written.noPlus).mpr written
    have totalLength := length_padded width value
    -- The digits behind the sign, and how many zeros are in front of them.
    have ⟨digits, strip, zeros, notEmpty, minusZero⟩ : ∃ digits,
        stripMinus (padded width value) = digits ∧
        Sequence.leadingZeros digits = lacking width value ∧
        digits ≠ [] ∧ (value = 0 → digits.length = (padded width value).length) := by
      have numeric := numeric_zeros_append (lacking width value) value.natAbs
      refine ⟨_, ?_, leadingZeros_zeros_append (lacking width value) value.natAbs, ?_, ?_⟩
      · unfold padded sign
        split
        · exact stripMinus_hyphen _
        · exact stripMinus_numeric numeric
      · simp [decimalText_ne_nil]
      · rintro rfl
        rfl
    unfold lacking at zeros
    rw [strip, isParsed, if_neg]
    · dsimp only
      have noMinusZero :
          (!(value == 0 && decide (digits.length < (padded width value).length))) = true := by
        by_cases isZero : value = 0
        · rw [minusZero isZero]
          simp
        · simp [isZero]
      rw [isValue, noMinusZero, Bool.true_and, Bool.true_and]
      split
      · exact decide_eq_true (by omega)
      · rename_i someZeros
        have notNone : Sequence.leadingZeros digits ≠ 0 := someZeros
        rw [beq_iff_eq]
        omega
    · rw [Bool.or_eq_true, Bool.and_eq_true, Bool.and_eq_true]
      rintro (isEmpty | ⟨⟨startsZero, more⟩, otherWidth⟩)
      · exact notEmpty (List.isEmpty_iff.mp isEmpty)
      · have some := leadingZeros_pos (eq_of_beq startsZero) (of_decide_eq_true more)
        rw [bne_iff_ne] at otherWidth
        omega

/-! ### The longest word -/

/-- How a value is written without zeros is no longer than any text for it. -/
theorem WrittenNumber.length_le {text : List UInt8} {value : ℤ} (isNumber : WrittenNumber text value) :
    (sign value).length + (decimalText value.natAbs).length ≤ text.length := by
  have shorter (digits : List UInt8) (numeric : isNumeric digits = true) :
      (decimalText (decimalValue digits)).length ≤ digits.length := by
    have length := congrArg List.length (digits_eq_zeros_append numeric)
    rw [List.length_append] at length
    omega
  have signLength (value : ℤ) : (sign value).length ≤ 1 := by
    unfold sign
    split
    · exact le_refl 1
    · exact Nat.zero_le 1
  obtain ⟨_, digits, numeric, ⟨rfl, rfl⟩ | ⟨rfl, rfl⟩⟩ := isNumber
  · have noSign : sign (decimalValue text : ℤ) = [] := if_neg (not_lt.mpr (Int.natCast_nonneg _))
    rw [noSign, Int.natAbs_natCast, List.length_nil, Nat.zero_add]
    exact shorter text numeric
  · have digitsLength := shorter digits numeric
    have oneSign := signLength (-(decimalValue digits : ℤ))
    rw [Int.natAbs_neg, Int.natAbs_natCast, List.length_cons]
    omega

/-- A value between two others is written no longer than one of them. -/
theorem length_between {a b value : ℤ} (above : min a b ≤ value) (below : value ≤ max a b) :
    (sign value).length + (decimalText value.natAbs).length ≤
      max ((sign a).length + (decimalText a.natAbs).length)
        ((sign b).length + (decimalText b.natAbs).length) := by
  have ofEnd (bound : ℤ) (beyond : 0 ≤ value ∧ value ≤ bound ∨ value < 0 ∧ bound ≤ value) :
      (sign value).length + (decimalText value.natAbs).length ≤
        (sign bound).length + (decimalText bound.natAbs).length := by
    have digits : (decimalText value.natAbs).length ≤ (decimalText bound.natAbs).length :=
      length_decimalText_le (by omega)
    have sameSign : sign value = sign bound := by
      unfold sign
      exact if_congr (by omega) rfl rfl
    rw [sameSign]
    omega
  by_cases negative : value < 0
  · rcases min_choice a b with isMin | isMin
    · exact le_max_of_le_left (ofEnd a (Or.inr ⟨negative, by omega⟩))
    · exact le_max_of_le_right (ofEnd b (Or.inr ⟨negative, by omega⟩))
  · rcases max_choice a b with isMax | isMax
    · exact le_max_of_le_left (ofEnd a (Or.inl ⟨by omega, by omega⟩))
    · exact le_max_of_le_right (ofEnd b (Or.inl ⟨by omega, by omega⟩))

theorem isDigitByte_of_padded {width : ℕ} {value : ℤ} {c : UInt8} (isIn : c ∈ padded width value) :
    isDigitByte c = true := by
  unfold padded at isIn
  unfold isDigitByte
  rcases List.mem_append.mp isIn with inSign | inDigits
  · unfold sign at inSign
    split at inSign
    · rw [List.mem_singleton.mp inSign]
      rfl
    · exact absurd inSign List.not_mem_nil
  · have numeric := numeric_zeros_append (lacking width value) value.natAbs
    unfold isNumeric at numeric
    rw [Bool.and_eq_true] at numeric
    rw [List.all_eq_true.mp numeric.2 c inDigits]
    rfl

theorem isDigitByte_plus : isDigitByte plus = false := by
  decide

/-! ### What the nodes accept -/

section

variable {written : List UInt8} {sequence : Sequence}

theorem read_cases (isRead : Sequence.read written = some sequence) :
    (sequence.of = .letters ∧ 0 < written.length ∧
        ∀ value, sequence.hasValue value = true → 0x41 ≤ value ∧ value ≤ 0x7a) ∨
      ∃ width longest, sequence.of = .numbers width longest ∧ longest ≤ written.length ∧
        (∀ value, sequence.hasValue value = true →
          IsI64 value ∧ 0 < (padded width value).length ∧ (padded width value).length ≤ longest) := by
  have atLeastOne := one_le_step isRead
  obtain ⟨start, stop, stepText, rfl, step, isStep,
    ⟨first, last, firstLetter, lastLetter, rfl, rfl, rfl⟩ | ⟨first, last, isFirst, isLast, rfl⟩⟩ :=
      read_iff.mp isRead
  · refine Or.inl ⟨rfl, by simp, ?_⟩
    intro value isValue
    have between := ((hasValue_iff atLeastOne).mp isValue).between atLeastOne
    have letterRange (c : UInt8) (letter : isAsciiAlphabetic c = true) :
        0x41 ≤ c.toNat ∧ c.toNat ≤ 0x7a := by
      unfold isAsciiAlphabetic at letter
      rw [Bool.or_eq_true, Semver.isAsciiLowercase_iff, Semver.isAsciiUppercase_iff] at letter
      omega
    have firstRange := letterRange first firstLetter
    have lastRange := letterRange last lastLetter
    dsimp only at between
    omega
  · refine Or.inr ⟨_, _, rfl, ?_, ?_⟩
    · rw [List.length_append, List.length_cons, List.length_cons, List.length_append]
      omega
    · intro value isValue
      have between := ((hasValue_iff atLeastOne).mp isValue).between atLeastOne
      dsimp only at between
      have length := length_between between.1 between.2
      have firstLength := isFirst.length_le
      have lastLength := isLast.length_le
      have widthLe : paddedWidth start stop ≤ max start.length stop.length := by
        unfold paddedWidth
        split
        · exact le_refl _
        · exact Nat.zero_le _
      have positive : 0 < (decimalText value.natAbs).length :=
        List.length_pos_iff.mpr (decimalText_ne_nil _)
      rw [length_padded]
      refine ⟨?_, by omega, by omega⟩
      have firstFits := isFirst.1
      have lastFits := isLast.1
      unfold IsI64 at *
      omega

/-- A word is the empty one of a backslash, or is spelled in the bytes of the digits' nodes
and is no longer than the longest. -/
theorem isWord_iff (isRead : Sequence.read written = some sequence) {word : List UInt8} :
    sequence.IsWord word ↔
      word = [] ∧ sequence.hasNothing = true ∨
        0 < word.length ∧ word.length ≤ sequence.longest ∧
          (∀ c ∈ word, isDigitByte c = true) ∧ sequence.has word = true := by
  have atLeastOne := one_le_step isRead
  unfold Sequence.IsWord Sequence.hasNothing Sequence.has Sequence.longest
  rcases read_cases isRead with ⟨isLetters, _, range⟩ | ⟨width, longest, isNumbers, _, fits⟩
  · rw [isLetters]
    dsimp only
    constructor
    · rintro ⟨value, isValue, rfl⟩
      have hasIt := (hasValue_iff atLeastOne).mpr isValue
      have between := range value hasIt
      by_cases isBackslash : value = backslash.toNat
      · refine Or.inl ⟨if_pos isBackslash, ?_⟩
        rw [← isBackslash, hasIt]
        rfl
      · have toNat : (UInt8.ofNat value.toNat).toNat = value.toNat := by
          rw [UInt8.toNat_ofNat_of_lt']
          change value.toNat < 256
          omega
        have isValueAgain : ((UInt8.ofNat value.toNat).toNat : ℤ) = value := by
          rw [toNat, Int.toNat_of_nonneg (by omega)]
        have other : UInt8.ofNat value.toNat ≠ backslash := by
          intro same
          rw [same] at isValueAgain
          exact isBackslash isValueAgain.symm
        unfold letterWord
        rw [if_neg isBackslash]
        refine Or.inr ⟨Nat.one_pos, le_refl 1, ?_, ?_⟩
        · intro c isIn
          rw [List.mem_singleton.mp isIn]
          unfold isDigitByte
          rw [Bool.or_eq_true, decide_eq_true_iff, UInt8.le_iff_toNat_le, UInt8.le_iff_toNat_le, toNat]
          refine Or.inr ⟨?_, ?_⟩
          · change 0x41 ≤ value.toNat
            omega
          · change value.toNat ≤ 0x7a
            omega
        · dsimp only
          rw [isValueAgain, hasIt, Bool.and_true, bne_iff_ne]
          exact other
    · rintro (⟨rfl, isNothing⟩ | ⟨notEmpty, short, _, hasIt⟩)
      · rw [Bool.and_eq_true] at isNothing
        exact ⟨_, (hasValue_iff atLeastOne).mp isNothing.2, (if_pos rfl).symm⟩
      · obtain ⟨c, rfl⟩ := List.length_eq_one_iff.mp (by omega : word.length = 1)
        dsimp only at hasIt
        rw [Bool.and_eq_true, bne_iff_ne] at hasIt
        refine ⟨c.toNat, (hasValue_iff atLeastOne).mp hasIt.2, ?_⟩
        have other : (c.toNat : ℤ) ≠ backslash.toNat := fun same =>
          hasIt.1 (UInt8.toNat_inj.mp (by omega))
        unfold letterWord
        rw [if_neg other, Int.toNat_natCast, UInt8.ofNat_toNat]
  · rw [isNumbers]
    dsimp only
    have notLetters : (SequenceOf.numbers width longest == .letters) = false := rfl
    rw [notLetters, Bool.false_and]
    constructor
    · rintro ⟨value, isValue, rfl⟩
      have hasIt := (hasValue_iff atLeastOne).mpr isValue
      have ⟨fit, positive, short⟩ := fits value hasIt
      refine Or.inr ⟨positive, short, fun c isIn => isDigitByte_of_padded isIn, ?_⟩
      exact (hasNumber_iff (writtenNumber_padded fit width).noPlus (fun v is => (fits v is).1)).mpr
        ⟨value, hasIt, rfl⟩
    · rintro (⟨_, isNothing⟩ | ⟨_, _, digits, hasIt⟩)
      · exact nomatch isNothing
      · have noPlus : word.head? ≠ some plus := by
          intro startsPlus
          have isDigit := digits plus (List.mem_of_mem_head? startsPlus)
          rw [isDigitByte_plus] at isDigit
          exact nomatch isDigit
        obtain ⟨value, isValue, same⟩ :=
          (hasNumber_iff noPlus (fun v is => (fits v is).1)).mp hasIt
        exact ⟨value, (hasValue_iff atLeastOne).mp isValue, same⟩

def isWrittenByte (c : UInt8) : Bool :=
  isAsciiAlphabetic c || isAsciiDigit c || c == hyphen || c == dot

theorem WrittenNumber.writtenBytes {text : List UInt8} {value : ℤ}
    (isNumber : WrittenNumber text value) : ∀ c ∈ text, isWrittenByte c = true := by
  have ofDigits (digits : List UInt8) (numeric : isNumeric digits = true) :
      ∀ c ∈ digits, isWrittenByte c = true := by
    intro c isIn
    unfold isNumeric at numeric
    rw [Bool.and_eq_true] at numeric
    unfold isWrittenByte
    rw [List.all_eq_true.mp numeric.2 c isIn]
    simp
  obtain ⟨_, digits, numeric, ⟨rfl, _⟩ | ⟨rfl, _⟩⟩ := isNumber
  · exact ofDigits text numeric
  · intro c isIn
    rcases List.mem_cons.mp isIn with rfl | later
    · rfl
    · exact ofDigits digits numeric c later

theorem read_writtenBytes (isRead : Sequence.read written = some sequence) :
    ∀ c ∈ written, isWrittenByte c = true := by
  obtain ⟨start, stop, stepText, rfl, step, isStep, parts⟩ := read_iff.mp isRead
  have stepBytes : ∀ c ∈ stepText, isWrittenByte c = true := by
    rcases isStep with ⟨rfl, _⟩ | ⟨digits, value, rfl, isNumber, _⟩
    · exact fun c isIn => absurd isIn List.not_mem_nil
    · intro c isIn
      rcases List.mem_cons.mp isIn with rfl | isIn
      · rfl
      · rcases List.mem_cons.mp isIn with rfl | isIn
        · rfl
        · exact isNumber.writtenBytes c isIn
  have boundBytes : (∀ c ∈ start, isWrittenByte c = true) ∧ ∀ c ∈ stop, isWrittenByte c = true := by
    rcases parts with ⟨first, last, firstLetter, lastLetter, rfl, rfl, _⟩ | ⟨_, _, isFirst, isLast, _⟩
    · constructor
      · intro c isIn
        rw [List.mem_singleton.mp isIn]
        unfold isWrittenByte
        rw [firstLetter]
        rfl
      · intro c isIn
        rw [List.mem_singleton.mp isIn]
        unfold isWrittenByte
        rw [lastLetter]
        rfl
    · exact ⟨isFirst.writtenBytes, isLast.writtenBytes⟩
  intro c isIn
  rcases List.mem_append.mp isIn with isIn | isIn
  · exact boundBytes.1 c isIn
  · rcases List.mem_cons.mp isIn with rfl | isIn
    · rfl
    · rcases List.mem_cons.mp isIn with rfl | isIn
      · rfl
      · rcases List.mem_append.mp isIn with isIn | isIn
        · exact boundBytes.2 c isIn
        · exact stepBytes c isIn

end

/-- Where the nodes of digits are in a set: they take the bytes up to the place that the
node after them goes on from. -/
theorem nodesAt_iff {pattern : List UInt8} {takesOther : ℕ → UInt8 → Bool} {firstDigit after : ℕ}
    {goesOn : List UInt8 → Bool}
    (plain : ∀ node, firstDigit ≤ node → node < after →
      ∀ byte, takes pattern takesOther node byte = isDigitByte byte)
    {back : ℕ} (inside : firstDigit + back ≤ after) (rest : List UInt8) :
    nodesAt pattern takesOther firstDigit after goesOn rest (after - back) = true ↔
      back ≤ rest.length ∧ (∀ byte ∈ rest.take back, isDigitByte byte = true) ∧
        goesOn (rest.drop back) = true := by
  induction back generalizing rest with
  | zero =>
      cases rest with
      | nil => simp [nodesAt]
      | cons byte rest => simp [nodesAt]
  | succ back ih =>
      cases rest with
      | nil =>
          have other : after - (back + 1) ≠ after := by omega
          simp [nodesAt, other]
      | cons byte rest =>
          have other : after - (back + 1) ≠ after := by omega
          have next : after - (back + 1) + 1 = after - back := by omega
          have isDigit : firstDigit ≤ after - (back + 1) ∧ after - (back + 1) < after := by omega
          rw [nodesAt, if_neg other, plain _ isDigit.1 isDigit.2, decide_eq_true isDigit,
            Bool.true_and, next, Bool.and_eq_true, ih (by omega) rest, List.length_cons,
            List.take_succ_cons, List.drop_succ_cons, List.forall_mem_cons]
          constructor
          · rintro ⟨takesByte, fits, takesRest, goes⟩
            exact ⟨by omega, ⟨takesByte, takesRest⟩, goes⟩
          · rintro ⟨fits, ⟨takesByte, takesRest⟩, goes⟩
            exact ⟨takesByte, by omega, takesRest, goes⟩

section

variable {written : List UInt8} {sequence : Sequence}

theorem longest_le_length (isRead : Sequence.read written = some sequence) :
    sequence.longest ≤ written.length := by
  unfold Sequence.longest
  rcases read_cases isRead with ⟨isLetters, positive, _⟩ | ⟨width, longest, isNumbers, le, _⟩
  · rw [isLetters]
    exact positive
  · rw [isNumbers]
    exact le

theorem isWrittenByte_plain {c : UInt8} (isWritten : isWrittenByte c = true) :
    c ≠ backslash ∧ c ≠ openBracket ∧ c ≠ closeBrace := by
  refine ⟨?_, ?_, ?_⟩ <;>
    · rintro rfl
      exact absurd isWritten (by decide)

theorem indexOfCharPos_close (isRead : Sequence.read written = some sequence)
    (before behind : List UInt8) :
    indexOfCharPos (before ++ openBrace :: (written ++ closeBrace :: behind)) closeBrace
      before.length = some (before.length + (written.length + 1)) := by
  have noClose : written.findIdx? (· == closeBrace) = none := by
    rw [List.findIdx?_eq_none_iff]
    intro c isIn
    have plain := isWrittenByte_plain (read_writtenBytes isRead c isIn)
    simpa using plain.2.2
  have isOpen : (openBrace == closeBrace) = false := rfl
  unfold indexOfCharPos
  rw [List.drop_left, List.findIdx?_cons, isOpen, List.findIdx?_append, noClose]
  simp [List.findIdx?_cons]

/-- The digits' nodes stand for bytes that are neither an escape nor a class. -/
theorem takes_digit (isRead : Sequence.read written = some sequence) (before behind : List UInt8)
    (takesOther : ℕ → UInt8 → Bool) {node : ℕ} (low : before.length + 1 ≤ node)
    (high : node < before.length + written.length + 2) (byte : UInt8) :
    takes (before ++ openBrace :: (written ++ closeBrace :: behind)) takesOther node byte =
      isDigitByte byte := by
  obtain ⟨place, rfl⟩ := Nat.exists_eq_add_of_le low
  have isByte : (before ++ openBrace :: (written ++ closeBrace :: behind))[
      before.length + 1 + place]? = (written ++ closeBrace :: behind)[place]? := by
    rw [List.getElem?_append_right (by omega)]
    have shift : before.length + 1 + place - before.length = place + 1 := by omega
    rw [shift, List.getElem?_cons_succ]
  have ⟨c, isC, notEscape, notClass⟩ : ∃ c, (written ++ closeBrace :: behind)[place]? = some c ∧
      c ≠ backslash ∧ c ≠ openBracket := by
    by_cases inText : place < written.length
    · have plain := isWrittenByte_plain (read_writtenBytes isRead _ (List.getElem_mem inText))
      refine ⟨written[place], ?_, plain.1, plain.2.1⟩
      rw [List.getElem?_append_left inText, List.getElem?_eq_getElem inText]
    · obtain rfl : place = written.length := by omega
      refine ⟨closeBrace, ?_, by decide, by decide⟩
      rw [List.getElem?_append_right (le_refl _), Nat.sub_self]
      rfl
  unfold takes
  rw [isByte, isC]
  exact if_neg (fun either => either.elim notEscape notClass)

/-- The front of the rest of a path is matched by a sequence so that the pattern goes on
behind it exactly where one of the sequence's words stands there. -/
theorem matchesSequence_iff (isRead : Sequence.read written = some sequence)
    (before behind : List UInt8) (takesOther : ℕ → UInt8 → Bool) (goesOn : List UInt8 → Bool)
    (rest : List UInt8) :
    matchesSequence sequence before written behind takesOther goesOn rest = true ↔
      ∃ word tail, rest = word ++ tail ∧ SequenceWord written word ∧ goesOn tail = true := by
  have longestLe := longest_le_length isRead
  have isNode (back : ℕ) (short : back ≤ sequence.longest) :=
    @nodesAt_iff _ _ (sequence.firstDigit (before.length + written.length + 2)) _ goesOn
      (fun node low high byte => takes_digit isRead before behind takesOther
        (by unfold Sequence.firstDigit at low; omega) high byte)
      back (by unfold Sequence.firstDigit; omega) rest
  have close : before.length + (written.length + 1) + 1 = before.length + written.length + 2 := by
    omega
  unfold matchesSequence hasSequence
  dsimp only
  rw [indexOfCharPos_close isRead, Option.getD_some, close, Bool.or_eq_true, Bool.and_eq_true,
    List.any_eq_true]
  constructor
  · rintro (⟨isNothing, isAfter⟩ | ⟨shorter, inRange, isThere⟩)
    · have goes := (isNode 0 (Nat.zero_le _)).mp isAfter
      exact ⟨[], rest, rfl, (sequenceWord_iff isRead).mpr
        ((isWord_iff isRead).mpr (Or.inl ⟨rfl, isNothing⟩)), goes.2.2⟩
    · rw [List.mem_range] at inRange
      rw [Bool.and_eq_true] at isThere
      have ⟨fits, digits, goes⟩ := (isNode (shorter + 1) (by omega)).mp isThere.1
      have length : (rest.take (shorter + 1)).length = shorter + 1 := by
        rw [List.length_take]
        omega
      refine ⟨rest.take (shorter + 1), rest.drop (shorter + 1), (List.take_append_drop _ _).symm,
        (sequenceWord_iff isRead).mpr ((isWord_iff isRead).mpr (Or.inr ⟨?_, ?_, digits, isThere.2⟩)),
        goes⟩
      · omega
      · omega
  · rintro ⟨word, tail, rfl, isWord, goes⟩
    rcases (isWord_iff isRead).mp ((sequenceWord_iff isRead).mp isWord) with
      ⟨rfl, isNothing⟩ | ⟨notEmpty, short, digits, hasIt⟩
    · refine Or.inl ⟨isNothing, (isNode 0 (Nat.zero_le _)).mpr ⟨Nat.zero_le _, ?_, goes⟩⟩
      exact fun byte isIn => absurd isIn List.not_mem_nil
    · have back : word.length - 1 + 1 = word.length := by omega
      refine Or.inr ⟨word.length - 1, ?_, ?_⟩
      · rw [List.mem_range, List.length_append]
        omega
      · rw [back, Bool.and_eq_true, List.take_left]
        refine ⟨(isNode word.length short).mpr ⟨?_, ?_, ?_⟩, hasIt⟩
        · rw [List.length_append]
          omega
        · rw [List.take_left]
          exact digits
        · rw [List.drop_left]
          exact goes

end

/-- A sequence matches a text that the pattern ends behind exactly if the text is one of
the words that the sequence is expanded to. -/
theorem matchesSequence_words {written : List UInt8} {sequence : Sequence}
    (isRead : Sequence.read written = some sequence) (before behind : List UInt8)
    (takesOther : ℕ → UInt8 → Bool) :
    (∀ goesOn rest,
      matchesSequence sequence before written behind takesOther goesOn rest = true ↔
        ∃ word tail, rest = word ++ tail ∧ SequenceWord written word ∧ goesOn tail = true) ∧
    ∀ text,
      matchesSequence sequence before written behind takesOther List.isEmpty text = true ↔
        SequenceWord written text := by
  refine ⟨matchesSequence_iff isRead before behind takesOther, ?_⟩
  intro text
  rw [matchesSequence_iff isRead]
  constructor
  · rintro ⟨word, tail, rfl, isWord, isEnd⟩
    obtain rfl := List.isEmpty_iff.mp isEnd
    rw [List.append_nil]
    exact isWord
  · intro isWord
    exact ⟨text, [], (List.append_nil _).symm, isWord, rfl⟩

/-- `{08..10}` in front of `.c` stands for `08`, `09` and `10`. -/
theorem matchesSequence_words_padded :
    Sequence.read (ascii "08..10") = some ⟨8, 10, 1, .numbers 2 2⟩ ∧
    (matchesSequence ⟨8, 10, 1, .numbers 2 2⟩ [] (ascii "08..10") (ascii ".c") (fun _ _ => false)
      List.isEmpty (ascii "09") = true ↔ SequenceWord (ascii "08..10") (ascii "09")) := by
  have isRead : Sequence.read (ascii "08..10") = some ⟨8, 10, 1, .numbers 2 2⟩ := by
    decide +kernel
  exact ⟨isRead, (matchesSequence_words isRead [] (ascii ".c") fun _ _ => false).2 (ascii "09")⟩

end Bun.Glob
