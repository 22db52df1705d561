/-
What texts are read as brace sequences, and which values and words the sequence that was
read has.
-/

import Bun.Glob.SequenceWords
import Mathlib.Algebra.Order.Ring.Abs

set_option autoImplicit false

namespace Bun.Glob

open Semver (isAsciiDigit isAsciiAlphabetic isNumeric hyphen dot plus)

/-! ### Reading a sequence -/

def stepTextOf : Option (List UInt8) → List UInt8
  | none => []
  | some text => dot :: dot :: text

def IsReadAs (start stop stepText : List UInt8) (sequence : Sequence) : Prop :=
  ∃ step, WrittenStep stepText step ∧
    ((∃ first last, isAsciiAlphabetic first = true ∧ isAsciiAlphabetic last = true ∧
        start = [first] ∧ stop = [last] ∧
        sequence = { fromValue := first.toNat, toValue := last.toNat, step, of := .letters }) ∨
      ∃ first last, WrittenNumber start first ∧ WrittenNumber stop last ∧
        sequence = {
          fromValue := first
          toValue := last
          step
          of := .numbers (paddedWidth start stop) (max start.length stop.length) })

theorem isAsciiDigit_of_alphabetic {c : UInt8} (letter : isAsciiAlphabetic c = true) :
    isAsciiDigit c = false := by
  rw [Bool.eq_false_iff]
  intro digit
  have range := (Semver.isAsciiDigit_iff c).mp digit
  unfold isAsciiAlphabetic at letter
  rw [Bool.or_eq_true, Semver.isAsciiLowercase_iff, Semver.isAsciiUppercase_iff] at letter
  omega

theorem not_writtenNumber_letter {c : UInt8} (letter : isAsciiAlphabetic c = true) (value : ℤ) :
    ¬ WrittenNumber [c] value := by
  rintro ⟨_, digits, numeric, ⟨rfl, _⟩ | ⟨same, _⟩⟩
  · exact not_mem_of_numeric numeric (isAsciiDigit_of_alphabetic letter) List.mem_cons_self
  · obtain ⟨rfl, isNil⟩ := List.cons.inj same
    exact absurd letter (by decide)

theorem readStep_iff {stepText : Option (List UInt8)} {step : ℤ} :
    Sequence.readStep stepText = some step ↔ WrittenStep (stepTextOf stepText) step := by
  cases stepText with
  | none =>
      constructor
      · intro isOne
        exact Or.inl ⟨rfl, (Option.some.inj isOne).symm⟩
      · rintro (⟨_, rfl⟩ | ⟨_, _, same, _⟩)
        · rfl
        · exact nomatch same
  | some text =>
      unfold Sequence.readStep checkedAbs
      dsimp only
      constructor
      · intro isStep
        cases isNumber : number text with
        | none =>
            rw [isNumber] at isStep
            exact nomatch isStep
        | some value =>
            cases isSize : fitI64 |value| with
            | none =>
                rw [isNumber, Option.bind_eq_bind, Option.bind_some, isSize] at isStep
                exact nomatch isStep
            | some size =>
                rw [isNumber, Option.bind_eq_bind, Option.bind_some, isSize] at isStep
                obtain ⟨fits, rfl⟩ := fitI64_eq_some.mp isSize
                exact Or.inr ⟨text, value, rfl, number_iff.mp isNumber, fits,
                  (Option.some.inj isStep).symm⟩
      · rintro (⟨same, _⟩ | ⟨digits, value, same, isNumber, fits, rfl⟩)
        · exact nomatch same
        · obtain rfl : text = digits := (List.cons.inj (List.cons.inj same).2).2
          have isSize : fitI64 |value| = some |value| := fitI64_eq_some.mpr ⟨fits, rfl⟩
          rw [number_iff.mpr isNumber, Option.bind_eq_bind, Option.bind_some, isSize]
          rfl

theorem readNumbers_iff {start stop : List UInt8} {step : ℤ} {sequence : Sequence} :
    Sequence.readNumbers start stop step = some sequence ↔
      ∃ first last, WrittenNumber start first ∧ WrittenNumber stop last ∧
        sequence = {
          fromValue := first
          toValue := last
          step
          of := .numbers (paddedWidth start stop) (max start.length stop.length) } := by
  unfold Sequence.readNumbers
  constructor
  · intro isRead
    cases isFirst : number start with
    | none =>
        rw [isFirst] at isRead
        exact nomatch isRead
    | some first =>
        cases isLast : number stop with
        | none =>
            rw [isFirst, isLast] at isRead
            exact nomatch isRead
        | some last =>
            have firstWritten := number_iff.mp isFirst
            have lastWritten := number_iff.mp isLast
            rw [isFirst, isLast, width_eq firstWritten lastWritten] at isRead
            exact ⟨first, last, firstWritten, lastWritten, (Option.some.inj isRead).symm⟩
  · rintro ⟨first, last, firstWritten, lastWritten, rfl⟩
    rw [number_iff.mpr firstWritten, number_iff.mpr lastWritten, width_eq firstWritten lastWritten]
    rfl

theorem readParts_iff {start stop : List UInt8} {stepText : Option (List UInt8)}
    {sequence : Sequence} :
    Sequence.readParts start stop stepText = some sequence ↔
      IsReadAs start stop (stepTextOf stepText) sequence := by
  have reads (step : ℤ) (isStep : Sequence.readStep stepText = some step) :
      Sequence.readParts start stop stepText = some sequence ↔
        ((∃ first last, isAsciiAlphabetic first = true ∧ isAsciiAlphabetic last = true ∧
            start = [first] ∧ stop = [last] ∧
            sequence = { fromValue := first.toNat, toValue := last.toNat, step, of := .letters }) ∨
          Sequence.readNumbers start stop step = some sequence) := by
    unfold Sequence.readParts
    rw [isStep, Option.bind_eq_bind, Option.bind_some]
    split
    · rename_i first last
      split
      · rename_i letters
        rw [Bool.and_eq_true] at letters
        constructor
        · intro same
          exact Or.inl ⟨first, last, letters.1, letters.2, rfl, rfl, (Option.some.inj same).symm⟩
        · rintro (⟨f, l, _, _, isFirst, isLast, rfl⟩ | isNumbers)
          · obtain rfl := (List.cons.inj isFirst).1
            obtain rfl := (List.cons.inj isLast).1
            rfl
          · obtain ⟨value, _, written, _⟩ := readNumbers_iff.mp isNumbers
            exact absurd written (not_writtenNumber_letter letters.1 value)
      · rename_i notLetters
        constructor
        · exact Or.inr
        · rintro (⟨f, l, isF, isL, isFirst, isLast, rfl⟩ | isNumbers)
          · obtain rfl := (List.cons.inj isFirst).1
            obtain rfl := (List.cons.inj isLast).1
            exact absurd (by rw [isF, isL]; rfl) notLetters
          · exact isNumbers
    · rename_i notSingles
      constructor
      · exact Or.inr
      · rintro (⟨f, l, _, _, isFirst, isLast, _⟩ | isNumbers)
        · exact absurd isLast (notSingles f l isFirst)
        · exact isNumbers
  constructor
  · intro isRead
    cases isStep : Sequence.readStep stepText with
    | none =>
        unfold Sequence.readParts at isRead
        rw [isStep] at isRead
        exact nomatch isRead
    | some step =>
        refine ⟨step, readStep_iff.mp isStep, ?_⟩
        rcases (reads step isStep).mp isRead with isLetters | isNumbers
        · exact Or.inl isLetters
        · exact Or.inr (readNumbers_iff.mp isNumbers)
  · rintro ⟨step, isStep, isLetters | isNumbers⟩
    · exact (reads step (readStep_iff.mpr isStep)).mpr (Or.inl isLetters)
    · exact (reads step (readStep_iff.mpr isStep)).mpr (Or.inr (readNumbers_iff.mpr isNumbers))

theorem IsReadAs.noDot {start stop stepText : List UInt8} {sequence : Sequence}
    (isReadAs : IsReadAs start stop stepText sequence) : dot ∉ start ∧ dot ∉ stop := by
  obtain ⟨_, _, ⟨first, last, firstLetter, lastLetter, rfl, rfl, _⟩ | ⟨_, _, isFirst, isLast, _⟩⟩ :=
    isReadAs
  · have letterNotDot (c : UInt8) (letter : isAsciiAlphabetic c = true) : dot ∉ [c] := by
      rw [List.mem_singleton]
      rintro rfl
      exact absurd letter (by decide)
    exact ⟨letterNotDot first firstLetter, letterNotDot last lastLetter⟩
  · exact ⟨isFirst.noDot, isLast.noDot⟩

theorem read_iff {written : List UInt8} {sequence : Sequence} :
    Sequence.read written = some sequence ↔
      ∃ start stop stepText, written = start ++ dot :: dot :: (stop ++ stepText) ∧
        IsReadAs start stop stepText sequence := by
  have pieces := intercalate_splitDots written
  constructor
  · intro isRead
    unfold Sequence.read at isRead
    split at isRead
    · rename_i start stop isSplit
      rw [isSplit, List.intercalate_cons_of_ne_nil (List.cons_ne_nil _ _),
        List.intercalate_singleton] at pieces
      refine ⟨start, stop, stepTextOf none, ?_, readParts_iff.mp isRead⟩
      rw [← pieces, stepTextOf, List.append_nil, List.append_assoc]
      rfl
    · rename_i start stop step isSplit
      rw [isSplit, List.intercalate_cons_of_ne_nil (List.cons_ne_nil _ _),
        List.intercalate_cons_of_ne_nil (List.cons_ne_nil _ _), List.intercalate_singleton] at pieces
      refine ⟨start, stop, stepTextOf (some step), ?_, readParts_iff.mp isRead⟩
      rw [← pieces, stepTextOf, List.append_assoc, List.append_assoc]
      rfl
    · exact nomatch isRead
  · rintro ⟨start, stop, stepText, rfl, isReadAs⟩
    have ⟨startNoDot, stopNoDot⟩ := isReadAs.noDot
    obtain ⟨step, isStep, _⟩ := id isReadAs
    unfold Sequence.read
    rw [splitDots_append startNoDot]
    rcases isStep with ⟨rfl, _⟩ | ⟨digits, value, rfl, isNumber, _⟩
    · rw [List.append_nil, splitDots_noDot stopNoDot]
      exact readParts_iff.mpr isReadAs
    · rw [splitDots_append stopNoDot, splitDots_noDot isNumber.noDot]
      exact readParts_iff.mpr isReadAs

/-! ### The words of a sequence that was read -/

def Sequence.IsWord (sequence : Sequence) (word : List UInt8) : Prop :=
  ∃ value, Progression sequence.fromValue sequence.toValue sequence.step value ∧
    match sequence.of with
    | .letters => word = letterWord value
    | .numbers width _ => word = padded width value

theorem sequenceWord_iff {written : List UInt8} {sequence : Sequence}
    (isRead : Sequence.read written = some sequence) {word : List UInt8} :
    SequenceWord written word ↔ sequence.IsWord word := by
  constructor
  · intro isWord
    cases isWord with
    | @letter first last stepText step value firstLetter lastLetter isStep isWritten isValue =>
        have alsoRead := read_iff.mpr ⟨[first], [last], stepText, isWritten, step, isStep,
          Or.inl ⟨first, last, firstLetter, lastLetter, rfl, rfl, rfl⟩⟩
        obtain rfl := Option.some.inj (isRead.symm.trans alsoRead)
        exact ⟨value, isValue, rfl⟩
    | @number start stop stepText first last step value isFirst isLast isStep isWritten isValue =>
        have alsoRead := read_iff.mpr ⟨start, stop, stepText, isWritten, step, isStep,
          Or.inr ⟨first, last, isFirst, isLast, rfl⟩⟩
        obtain rfl := Option.some.inj (isRead.symm.trans alsoRead)
        exact ⟨value, isValue, rfl⟩
  · intro isWord
    obtain ⟨start, stop, stepText, isWritten, step, isStep,
      ⟨first, last, firstLetter, lastLetter, rfl, rfl, rfl⟩ | ⟨first, last, isFirst, isLast, rfl⟩⟩ :=
        read_iff.mp isRead
    · obtain ⟨value, isValue, rfl⟩ := isWord
      exact SequenceWord.letter firstLetter lastLetter isStep isWritten isValue
    · obtain ⟨value, isValue, rfl⟩ := isWord
      exact SequenceWord.number isFirst isLast isStep isWritten isValue

theorem WrittenStep.one_le {text : List UInt8} {step : ℤ} (isStep : WrittenStep text step) :
    1 ≤ step := by
  rcases isStep with ⟨_, rfl⟩ | ⟨_, value, _, _, _, rfl⟩
  · exact le_refl 1
  · exact le_max_right _ _

theorem one_le_step {written : List UInt8} {sequence : Sequence}
    (isRead : Sequence.read written = some sequence) : 1 ≤ sequence.step := by
  obtain ⟨_, _, _, _, step, isStep, ⟨_, _, _, _, _, _, rfl⟩ | ⟨_, _, _, _, rfl⟩⟩ :=
    read_iff.mp isRead
  · exact isStep.one_le
  · exact isStep.one_le

theorem Progression.between {first last step value : ℤ} (atLeastOne : 1 ≤ step)
    (isValue : Progression first last step value) :
    min first last ≤ value ∧ value ≤ max first last := by
  obtain ⟨count, ⟨ordered, same, le⟩ | ⟨ordered, same, le⟩⟩ := isValue
  · have away : 0 ≤ (count : ℤ) * step := mul_nonneg (Int.natCast_nonneg count) (by omega)
    omega
  · have away : 0 ≤ (count : ℤ) * step := mul_nonneg (Int.natCast_nonneg count) (by omega)
    omega

theorem hasValue_iff {sequence : Sequence} (atLeastOne : 1 ≤ sequence.step) {value : ℤ} :
    sequence.hasValue value = true ↔
      Progression sequence.fromValue sequence.toValue sequence.step value := by
  have countOf (distance : ℤ) (notNegative : 0 ≤ distance) (divides : sequence.step ∣ distance) :
      ∃ count : ℕ, distance = count * sequence.step := by
    obtain ⟨count, rfl⟩ := divides
    have countNotNegative : 0 ≤ count := nonneg_of_mul_nonneg_right notNegative (by omega)
    exact ⟨count.toNat, by rw [Int.toNat_of_nonneg countNotNegative, mul_comm]⟩
  unfold Sequence.hasValue
  rw [decide_eq_true_iff]
  constructor
  · rintro ⟨above, below, apart⟩
    have divides : sequence.step ∣ value - sequence.fromValue :=
      (dvd_abs _ _).mp (Int.dvd_of_emod_eq_zero apart)
    rcases le_total sequence.fromValue sequence.toValue with ordered | ordered
    · obtain ⟨count, same⟩ := countOf (value - sequence.fromValue) (by omega) divides
      exact ⟨count, Or.inl ⟨ordered, by omega, by omega⟩⟩
    · obtain ⟨count, same⟩ := countOf (sequence.fromValue - value) (by omega)
        ((dvd_sub_comm).mp divides)
      exact ⟨count, Or.inr ⟨ordered, by omega, by omega⟩⟩
  · intro isValue
    have ⟨above, below⟩ := isValue.between atLeastOne
    refine ⟨above, below, Int.emod_eq_zero_of_dvd ((dvd_abs _ _).mpr ?_)⟩
    obtain ⟨count, ⟨_, rfl, _⟩ | ⟨_, rfl, _⟩⟩ := isValue
    · rw [add_sub_cancel_left]
      exact Dvd.intro_left _ rfl
    · rw [sub_sub_cancel_left, dvd_neg]
      exact Dvd.intro_left _ rfl

end Bun.Glob
