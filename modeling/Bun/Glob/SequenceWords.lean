/-
The words that a brace sequence stands for, and that membership is decided right.

The words are those that a shell expands the sequence to: the values from the first bound
towards the second one, a step apart.  A number is written in decimal, filled up with zeros
to the longer bound's length where a bound has a leading zero; a letter is itself, except
that a backslash becomes the empty word.
-/

import Bun.Glob.BraceSequence

set_option autoImplicit false

namespace Bun.Glob

open Semver (isAsciiDigit isAsciiAlphabetic isNumeric hyphen dot plus)

/-! ### The words of a sequence -/

/-- The values from `first` towards `last`, `step` apart. -/
def Progression (first last step value : ℤ) : Prop :=
  ∃ count : ℕ, first ≤ last ∧ value = first + count * step ∧ value ≤ last ∨
    last ≤ first ∧ value = first - count * step ∧ last ≤ value

def sign (value : ℤ) : List UInt8 :=
  if value < 0 then [hyphen] else []

def lacking (width : ℕ) (value : ℤ) : ℕ :=
  width - ((sign value).length + (decimalText value.natAbs).length)

def padded (width : ℕ) (value : ℤ) : List UInt8 :=
  sign value ++ (List.replicate (lacking width value) zeroDigit ++ decimalText value.natAbs)

def letterWord (value : ℤ) : List UInt8 :=
  if value = backslash.toNat then [] else [UInt8.ofNat value.toNat]

/-- The text of a number that fits an `i64`. -/
def WrittenNumber (text : List UInt8) (value : ℤ) : Prop :=
  IsI64 value ∧ ∃ digits, isNumeric digits = true ∧
    (text = digits ∧ value = decimalValue digits ∨
      text = hyphen :: digits ∧ value = -(decimalValue digits : ℤ))

/-- A step that is left out is 1, one that is written counts with either sign, and 0 as 1. -/
def WrittenStep (text : List UInt8) (step : ℤ) : Prop :=
  text = [] ∧ step = 1 ∨
    ∃ digits value, text = dot :: dot :: digits ∧ WrittenNumber digits value ∧
      IsI64 |value| ∧ step = max |value| 1

/-- A leading zero in front of another digit, behind an optional minus. -/
def HasLeadingZero (text : List UInt8) : Prop :=
  ∃ next rest, isAsciiDigit next = true ∧
    (text = zeroDigit :: next :: rest ∨ text = hyphen :: zeroDigit :: next :: rest)

open Classical in
noncomputable def paddedWidth (start stop : List UInt8) : ℕ :=
  if HasLeadingZero start ∨ HasLeadingZero stop then max start.length stop.length else 0

/-- The words that a shell expands `{written}` to. -/
inductive SequenceWord (written : List UInt8) : List UInt8 → Prop where
  | letter {first last : UInt8} {stepText : List UInt8} {step value : ℤ}
      (firstLetter : isAsciiAlphabetic first = true) (lastLetter : isAsciiAlphabetic last = true)
      (isStep : WrittenStep stepText step)
      (isWritten : written = first :: dot :: dot :: last :: stepText)
      (isValue : Progression first.toNat last.toNat step value) :
      SequenceWord written (letterWord value)
  | number {start stop stepText : List UInt8} {first last step value : ℤ}
      (isFirst : WrittenNumber start first) (isLast : WrittenNumber stop last)
      (isStep : WrittenStep stepText step)
      (isWritten : written = start ++ dot :: dot :: (stop ++ stepText))
      (isValue : Progression first last step value) :
      SequenceWord written (padded (paddedWidth start stop) value)

/-! ### Splitting -/

theorem splitDots_noDot {text : List UInt8} (noDot : dot ∉ text) : splitDots text = [text] := by
  fun_induction splitDots text with
  | case1 => rfl
  | case2 c => rfl
  | case3 c d rest both => exact absurd (by simp [both.1]) noDot
  | case4 c d rest notBoth ih =>
      rw [ih (fun isIn => noDot (List.mem_cons_of_mem _ isIn))]
      rfl

theorem splitDots_append {front : List UInt8} (noDot : dot ∉ front) (rest : List UInt8) :
    splitDots (front ++ dot :: dot :: rest) = front :: splitDots rest := by
  induction front with
  | nil => rw [List.nil_append, splitDots, if_pos ⟨rfl, rfl⟩]
  | cons c front ih =>
      have other : c ≠ dot := fun same => noDot (by simp [same])
      have step := ih (fun isIn => noDot (List.mem_cons_of_mem _ isIn))
      cases front with
      | nil =>
          rw [List.nil_append] at step
          rw [List.singleton_append, splitDots, if_neg (fun both => other both.1), step]
          rfl
      | cons d front =>
          rw [List.cons_append] at step
          rw [List.cons_append, List.cons_append, splitDots, if_neg (fun both => other both.1), step]
          rfl

theorem splitDots_ne_nil (text : List UInt8) : splitDots text ≠ [] := by
  fun_induction splitDots text with
  | case1 => exact List.cons_ne_nil _ _
  | case2 c => exact List.cons_ne_nil _ _
  | case3 c d rest both ih => exact List.cons_ne_nil _ _
  | case4 c d rest notBoth ih => simpa using ih

/-- The pieces with `..` between them are the text. -/
theorem intercalate_splitDots (text : List UInt8) :
    [dot, dot].intercalate (splitDots text) = text := by
  fun_induction splitDots text with
  | case1 => rfl
  | case2 c => rfl
  | case3 c d rest both ih =>
      rw [List.intercalate_cons_of_ne_nil (splitDots_ne_nil rest), ih, both.1, both.2]
      rfl
  | case4 c d rest notBoth ih =>
      cases isSplit : splitDots (d :: rest) with
      | nil => exact absurd isSplit (splitDots_ne_nil _)
      | cons piece pieces =>
          rw [isSplit] at ih
          rw [List.modifyHead_cons]
          cases pieces with
          | nil =>
              rw [List.intercalate_singleton] at ih ⊢
              rw [ih]
          | cons next pieces =>
              rw [List.intercalate_cons_of_ne_nil (List.cons_ne_nil _ _)] at ih ⊢
              rw [List.cons_append, List.cons_append, ih]

/-! ### Reading numbers -/

theorem hyphen_not_numeric (digits : List UInt8) : isNumeric (hyphen :: digits) = false := by
  unfold isNumeric
  rw [List.all_cons]
  rfl

theorem not_mem_of_numeric {digits : List UInt8} (numeric : isNumeric digits = true) {c : UInt8}
    (other : isAsciiDigit c = false) : c ∉ digits := by
  intro isIn
  unfold isNumeric at numeric
  rw [Bool.and_eq_true] at numeric
  exact absurd (List.all_eq_true.mp numeric.2 c isIn) (by rw [other]; decide)

theorem fitI64_eq_some {value read : ℤ} :
    fitI64 value = some read ↔ IsI64 value ∧ value = read := by
  unfold fitI64
  split
  · rename_i fits
    exact ⟨fun same => ⟨fits, Option.some.inj same⟩, fun is => congrArg some is.2⟩
  · rename_i fitsNot
    exact ⟨fun same => (nomatch same), fun is => absurd is.1 fitsNot⟩

theorem stripMinus_hyphen (digits : List UInt8) : stripMinus (hyphen :: digits) = digits := rfl

theorem stripMinus_numeric {digits : List UInt8} (numeric : isNumeric digits = true) :
    stripMinus digits = digits := by
  cases digits with
  | nil => rfl
  | cons c rest =>
      have other : c ≠ hyphen := by
        rintro rfl
        rw [hyphen_not_numeric] at numeric
        exact Bool.noConfusion numeric
      exact if_neg other

theorem parseI64_hyphen {digits : List UInt8} (numeric : isNumeric digits = true) :
    parseI64 (hyphen :: digits) = fitI64 (-(decimalValue digits : ℤ)) := by
  unfold parseI64
  dsimp only
  rw [if_pos rfl, if_pos numeric]

theorem parseI64_numeric {digits : List UInt8} (numeric : isNumeric digits = true) :
    parseI64 digits = fitI64 (decimalValue digits) := by
  cases digits with
  | nil => exact absurd numeric (by decide)
  | cons c rest =>
      have isHyphen : c ≠ hyphen := by
        rintro rfl
        exact not_mem_of_numeric numeric (c := hyphen) rfl List.mem_cons_self
      have isPlus : c ≠ plus := by
        rintro rfl
        exact not_mem_of_numeric numeric (c := plus) rfl List.mem_cons_self
      unfold parseI64
      dsimp only
      rw [if_neg isHyphen, if_neg isPlus, if_pos numeric]

theorem parseI64_iff {text : List UInt8} (noPlus : text.head? ≠ some plus) {value : ℤ} :
    parseI64 text = some value ↔ WrittenNumber text value := by
  constructor
  · intro isValue
    cases text with
    | nil => exact nomatch isValue
    | cons c digits =>
        unfold parseI64 at isValue
        dsimp only at isValue
        split at isValue
        · rename_i isHyphen
          split at isValue
          · rename_i numeric
            obtain ⟨fits, same⟩ := fitI64_eq_some.mp isValue
            rw [same] at fits
            exact ⟨fits, digits, numeric, Or.inr ⟨by rw [isHyphen], same.symm⟩⟩
          · exact nomatch isValue
        · split at isValue
          · rename_i isPlus
            exact absurd (by rw [isPlus]; rfl) noPlus
          · split at isValue
            · rename_i numeric
              obtain ⟨fits, same⟩ := fitI64_eq_some.mp isValue
              rw [same] at fits
              exact ⟨fits, c :: digits, numeric, Or.inl ⟨rfl, same.symm⟩⟩
            · exact nomatch isValue
  · rintro ⟨fits, digits, numeric, ⟨rfl, rfl⟩ | ⟨rfl, rfl⟩⟩
    · rw [parseI64_numeric numeric]
      exact fitI64_eq_some.mpr ⟨fits, rfl⟩
    · rw [parseI64_hyphen numeric]
      exact fitI64_eq_some.mpr ⟨fits, rfl⟩

theorem number_iff {text : List UInt8} {value : ℤ} :
    number text = some value ↔ WrittenNumber text value := by
  unfold number
  constructor
  · intro isNumber
    split at isNumber
    · rename_i numeric
      refine (parseI64_iff ?_).mp isNumber
      intro startsPlus
      cases text with
      | nil => exact nomatch startsPlus
      | cons c rest =>
          obtain rfl := Option.some.inj startsPlus
          have same : stripMinus (plus :: rest) = plus :: rest := rfl
          rw [same] at numeric
          exact not_mem_of_numeric numeric (c := plus) rfl List.mem_cons_self
    · exact nomatch isNumber
  · rintro ⟨fits, digits, numeric, ⟨rfl, rfl⟩ | ⟨rfl, rfl⟩⟩
    · rw [stripMinus_numeric numeric, if_pos numeric, parseI64_numeric numeric]
      exact fitI64_eq_some.mpr ⟨fits, rfl⟩
    · rw [stripMinus_hyphen, if_pos numeric, parseI64_hyphen numeric]
      exact fitI64_eq_some.mpr ⟨fits, rfl⟩

theorem WrittenNumber.noDot {text : List UInt8} {value : ℤ} (isNumber : WrittenNumber text value) :
    dot ∉ text := by
  obtain ⟨_, digits, numeric, ⟨rfl, _⟩ | ⟨rfl, _⟩⟩ := isNumber
  · exact not_mem_of_numeric numeric rfl
  · intro isIn
    rcases List.mem_cons.mp isIn with same | later
    · exact absurd same (by decide)
    · exact not_mem_of_numeric numeric rfl later

theorem isPadded_iff {text : List UInt8} {value : ℤ} (isNumber : WrittenNumber text value) :
    isPadded text = true ↔ HasLeadingZero text := by
  have ofStrip (digits : List UInt8) (strip : stripMinus text = digits) :
      isPadded text = true ↔
        ∃ next rest, isAsciiDigit next = true ∧ digits = zeroDigit :: next :: rest := by
    unfold isPadded
    rw [strip]
    cases digits with
    | nil => exact ⟨fun is => Bool.noConfusion is, fun ⟨_, _, _, same⟩ => nomatch same⟩
    | cons first rest =>
        cases rest with
        | nil => exact ⟨fun is => Bool.noConfusion is, fun ⟨_, _, _, same⟩ => nomatch same⟩
        | cons next rest =>
            dsimp only
            rw [Bool.and_eq_true, beq_iff_eq]
            constructor
            · rintro ⟨rfl, digit⟩
              exact ⟨next, rest, digit, rfl⟩
            · rintro ⟨other, tail, digit, same⟩
              injection same with isFirst same
              injection same with isNext same
              exact ⟨isFirst, isNext ▸ digit⟩
  obtain ⟨_, digits, numeric, ⟨rfl, _⟩ | ⟨rfl, _⟩⟩ := isNumber
  · rw [ofStrip text (stripMinus_numeric numeric)]
    constructor
    · rintro ⟨next, rest, digit, same⟩
      exact ⟨next, rest, digit, Or.inl same⟩
    · rintro ⟨next, rest, digit, same | same⟩
      · exact ⟨next, rest, digit, same⟩
      · rw [same, hyphen_not_numeric] at numeric
        exact Bool.noConfusion numeric
  · rw [ofStrip digits (stripMinus_hyphen digits)]
    constructor
    · rintro ⟨next, rest, digit, same⟩
      exact ⟨next, rest, digit, Or.inr (by rw [same])⟩
    · rintro ⟨next, rest, digit, same | same⟩
      · exact absurd (List.cons.inj same).1 (by decide)
      · exact ⟨next, rest, digit, (List.cons.inj same).2⟩

/-- What `read` stores as the width. -/
theorem width_eq {start stop : List UInt8} {first last : ℤ} (isFirst : WrittenNumber start first)
    (isLast : WrittenNumber stop last) :
    (if isPadded start || isPadded stop then max start.length stop.length else 0) =
      paddedWidth start stop := by
  have same : (isPadded start || isPadded stop) = true ↔
      HasLeadingZero start ∨ HasLeadingZero stop := by
    rw [Bool.or_eq_true, isPadded_iff isFirst, isPadded_iff isLast]
  unfold paddedWidth
  by_cases isPaddedText : HasLeadingZero start ∨ HasLeadingZero stop
  · rw [if_pos isPaddedText, if_pos (same.mpr isPaddedText)]
  · rw [if_neg isPaddedText, if_neg (fun is => isPaddedText (same.mp is))]

end Bun.Glob
