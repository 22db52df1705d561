/-
What the integer parser returns on text without underscores: the decimal value
of a text of digits that fits 64 bits, and nothing for any other text.
-/

import Bun.Core.AsciiText
import Bun.Semver.Version

set_option autoImplicit false

namespace Bun.Semver

def isNumeric (text : List UInt8) : Bool :=
  !text.isEmpty && text.all isAsciiDigit

theorem isAsciiDigit_iff (c : UInt8) :
    isAsciiDigit c = true ↔ 48 ≤ c.toNat ∧ c.toNat ≤ 57 := by
  unfold isAsciiDigit
  rw [decide_eq_true_iff, UInt8.le_iff_toNat_le, UInt8.le_iff_toNat_le]
  rfl

theorem isAsciiLowercase_iff (c : UInt8) :
    isAsciiLowercase c = true ↔ 97 ≤ c.toNat ∧ c.toNat ≤ 122 := by
  unfold isAsciiLowercase
  rw [decide_eq_true_iff, UInt8.le_iff_toNat_le, UInt8.le_iff_toNat_le]
  rfl

theorem isAsciiUppercase_iff (c : UInt8) :
    isAsciiUppercase c = true ↔ 65 ≤ c.toNat ∧ c.toNat ≤ 90 := by
  unfold isAsciiUppercase
  rw [decide_eq_true_iff, UInt8.le_iff_toNat_le, UInt8.le_iff_toNat_le]
  rfl

/-! ### Printed numbers -/

theorem digitByte_isAsciiDigit (d : ℕ) (small : d < 10) :
    isAsciiDigit (UInt8.ofNat (0x30 + d)) = true := by
  rw [isAsciiDigit_iff, digitByte_toNat d small]
  omega

theorem decimalText_digits (n : ℕ) : (decimalText n).all isAsciiDigit = true := by
  induction n using Nat.strongRecOn with
  | ind n ih =>
      by_cases small : n < 10
      · rw [decimalText_small n small, List.all_cons, digitByte_isAsciiDigit n small]
        rfl
      · rw [decimalText_large n small, List.all_append, ih (n / 10) (by omega), List.all_cons,
          digitByte_isAsciiDigit (n % 10) (by omega)]
        rfl

theorem decimalText_isNumeric (n : ℕ) : isNumeric (decimalText n) = true := by
  unfold isNumeric
  rw [decimalText_digits n, Bool.and_true, Bool.not_eq_true', List.isEmpty_eq_false_iff]
  exact decimalText_ne_nil n

theorem decimalText_decimalFrom {acc : ℕ} (notZero : 0 < acc) {digits : List UInt8}
    (numeric : digits.all isAsciiDigit = true) :
    decimalText (decimalFrom acc digits) = decimalText acc ++ digits := by
  induction digits generalizing acc with
  | nil => rw [decimalFrom_nil, List.append_nil]
  | cons c rest ih =>
      rw [List.all_cons, Bool.and_eq_true] at numeric
      have range := (isAsciiDigit_iff c).mp numeric.1
      have digit : UInt8.ofNat (0x30 + (acc * 10 + (c.toNat - 0x30)) % 10) = c := by
        have last : 0x30 + (acc * 10 + (c.toNat - 0x30)) % 10 = c.toNat := by omega
        rw [last, UInt8.ofNat_toNat]
      have front : (acc * 10 + (c.toNat - 0x30)) / 10 = acc := by omega
      rw [decimalFrom_cons, ih (by omega) numeric.2, decimalText_large _ (by omega), digit, front,
        List.append_assoc, List.singleton_append]

/-! ### The digit loop -/

theorem digitValue_digit (c : UInt8) (digit : isAsciiDigit c = true) :
    digitValue c = .ok (c.toNat - 0x30) := by
  unfold digitValue
  rw [if_pos digit]

theorem isAsciiDigit_ne_underscore {c : UInt8} (digit : isAsciiDigit c = true) :
    c ≠ underscore := by
  rintro rfl
  exact absurd digit (by decide)

theorem parseDigits_decimal (digits : List UInt8) (acc : ℕ) (fits : acc < 2 ^ 128)
    (numeric : digits.all isAsciiDigit = true) :
    parseDigits 10 acc digits =
      if decimalFrom acc digits < 2 ^ 128 then .ok (decimalFrom acc digits)
      else .error .overflow := by
  induction digits generalizing acc with
  | nil => rw [parseDigits, decimalFrom_nil, if_pos fits]
  | cons c rest ih =>
      rw [List.all_cons, Bool.and_eq_true] at numeric
      obtain ⟨digit, restNumeric⟩ := numeric
      have range := (isAsciiDigit_iff c).mp digit
      rw [parseDigits, if_neg (isAsciiDigit_ne_underscore digit), digitValue_digit c digit,
        decimalFrom_cons]
      change (pushDigit 10 acc (c.toNat - 48)).bind (fun next => parseDigits 10 next rest) = _
      unfold pushDigit
      have small : ¬ c.toNat - 48 ≥ 10 := by omega
      rw [if_neg small]
      by_cases fitsNext : acc * 10 + (c.toNat - 48) < 2 ^ 128
      · have fitsProduct : ¬ acc * 10 ≥ 2 ^ 128 := by omega
        have fitsSum : ¬ acc * 10 + (c.toNat - 48) ≥ 2 ^ 128 := by omega
        rw [if_neg fitsProduct, if_neg fitsSum]
        exact ih _ fitsNext restNumeric
      · have above := le_decimalFrom (acc * 10 + (c.toNat - 48)) rest
        have overflows : ¬ decimalFrom (acc * 10 + (c.toNat - 48)) rest < 2 ^ 128 := by omega
        rw [if_neg overflows]
        by_cases product : acc * 10 ≥ 2 ^ 128
        · rw [if_pos product]
          rfl
        · rw [if_neg product, if_pos (Nat.le_of_not_lt fitsNext)]
          rfl

/-- A byte that is neither a digit nor an underscore stops the parser. -/
theorem pushDigit_digitValue_other (c : UInt8) (acc : ℕ) (other : isAsciiDigit c = false) :
    ((digitValue c).bind (pushDigit 10 acc)) = .error .invalidCharacter := by
  unfold digitValue
  rw [if_neg (by rw [other]; exact Bool.false_ne_true)]
  split
  · change pushDigit 10 acc (c.toNat - 97 + 10) = _
    exact if_pos (by omega)
  · split
    · change pushDigit 10 acc (c.toNat - 65 + 10) = _
      exact if_pos (by omega)
    · rfl

theorem parseDigits_notDecimal (text : List UInt8) (acc : ℕ)
    (plain : underscore ∉ text) (other : text.all isAsciiDigit = false) :
    ∃ err, parseDigits 10 acc text = .error err := by
  induction text generalizing acc with
  | nil => exact absurd other (by decide)
  | cons c rest ih =>
      rw [List.mem_cons, not_or] at plain
      have step : parseDigits 10 acc (c :: rest) =
          ((digitValue c).bind (pushDigit 10 acc)).bind (fun next => parseDigits 10 next rest) := by
        rw [parseDigits, if_neg (Ne.symm plain.1)]
        cases digitValue c with
        | error err => rfl
        | ok d => rfl
      rw [step]
      by_cases digit : isAsciiDigit c = true
      · have restOther : rest.all isAsciiDigit = false := by
          rw [List.all_cons, digit, Bool.true_and] at other
          exact other
        cases pushed : (digitValue c).bind (pushDigit 10 acc) with
        | error err => exact ⟨err, rfl⟩
        | ok next => exact ih next plain.2 restOther
      · rw [pushDigit_digitValue_other c acc (Bool.eq_false_iff.mpr digit)]
        exact ⟨.invalidCharacter, rfl⟩

theorem parseWithSign_eq_parseDigits (text : List UInt8) (present : text ≠ [])
    (plain : underscore ∉ text) : parseWithSign text 10 = parseDigits 10 0 text := by
  unfold parseWithSign
  refine if_neg ?_
  rintro (empty | same | same)
  · exact present (List.isEmpty_iff.mp empty)
  · exact plain (List.mem_of_mem_head? same)
  · exact plain (List.mem_of_getLast? same)

/-- On text without underscores, `parse_ascii` reads exactly the decimal numbers that
fit 64 bits. -/
theorem parseAscii_eq (text : List UInt8) (plain : underscore ∉ text) :
    parseAscii text =
      if isNumeric text ∧ decimalValue text < 2 ^ 64 then some (UInt64.ofNat (decimalValue text))
      else none := by
  by_cases present : text = []
  · rw [present]
    rfl
  unfold parseAscii parseUnsigned
  rw [parseWithSign_eq_parseDigits text present plain]
  have numericIff : isNumeric text = text.all isAsciiDigit := by
    unfold isNumeric
    rw [List.isEmpty_eq_false_iff.mpr present]
    rfl
  rw [numericIff]
  by_cases numeric : text.all isAsciiDigit = true
  · rw [parseDigits_decimal text 0 (by decide) numeric]
    unfold decimalValue
    by_cases fits : decimalFrom 0 text < 2 ^ 64
    · have wide : decimalFrom 0 text < 2 ^ 128 := by omega
      rw [if_pos wide, if_pos ⟨numeric, fits⟩]
      exact congrArg Except.toOption (if_pos fits)
    · rw [if_neg (fun both => fits (And.right both) : ¬ (_ ∧ decimalFrom 0 text < 2 ^ 64))]
      by_cases wide : decimalFrom 0 text < 2 ^ 128
      · rw [if_pos wide]
        exact congrArg Except.toOption (if_neg fits)
      · rw [if_neg wide]
        rfl
  · obtain ⟨err, failed⟩ := parseDigits_notDecimal text 0 plain (Bool.eq_false_iff.mpr numeric)
    rw [failed, if_neg (fun both => numeric both.1)]
    rfl

end Bun.Semver
