/-
Bytes as six-bit digits, and digits as bytes.

Three bytes are four digits.  A shorter last group of bytes has zeros behind its last bits, and
digits are canonical when they could come from bytes so.
-/

import Mathlib.Algebra.Group.Nat.Defs
import Mathlib.Tactic.Common

set_option autoImplicit false

namespace Bun.Base64

def digitsOf : List UInt8 → List ℕ
  | a :: b :: c :: rest =>
      a.toNat / 4 :: (a.toNat % 4 * 16 + b.toNat / 16) :: (b.toNat % 16 * 4 + c.toNat / 64) ::
        c.toNat % 64 :: digitsOf rest
  | [a, b] => [a.toNat / 4, a.toNat % 4 * 16 + b.toNat / 16, b.toNat % 16 * 4]
  | [a] => [a.toNat / 4, a.toNat % 4 * 16]
  | [] => []

def bytesOf : List ℕ → List UInt8
  | a :: b :: c :: d :: rest =>
      UInt8.ofNat (a * 4 + b / 16) :: UInt8.ofNat (b % 16 * 16 + c / 4) ::
        UInt8.ofNat (c % 4 * 64 + d) :: bytesOf rest
  | [a, b, c] => [UInt8.ofNat (a * 4 + b / 16), UInt8.ofNat (b % 16 * 16 + c / 4)]
  | [a, b] => [UInt8.ofNat (a * 4 + b / 16)]
  | [_] => []
  | [] => []

def restLength : List ℕ → ℕ
  | _ :: _ :: _ :: _ :: rest => restLength rest
  | [_, _, _] => 2
  | [_, _] => 4
  | [_] => 6
  | [] => 0

def restBits : List ℕ → ℕ
  | _ :: _ :: _ :: _ :: rest => restBits rest
  | [_, _, c] => c % 4
  | [_, b] => b % 16
  | [a] => a
  | [] => 0

structure Canonical (digits : List ℕ) : Prop where
  small : ∀ digit ∈ digits, digit < 64
  short : restLength digits ≤ 4
  zero : restBits digits = 0

theorem digitsOf_small (bytes : List UInt8) : ∀ digit ∈ digitsOf bytes, digit < 64 := by
  fun_induction digitsOf bytes with
  | case1 a b c rest ih =>
      have smallA := a.toNat_lt
      have smallB := b.toNat_lt
      have smallC := c.toNat_lt
      simp only [List.mem_cons, forall_eq_or_imp]
      exact ⟨by omega, by omega, by omega, by omega, ih⟩
  | case2 a b =>
      have smallA := a.toNat_lt
      have smallB := b.toNat_lt
      simp only [List.mem_cons, forall_eq_or_imp, List.not_mem_nil]
      exact ⟨by omega, by omega, by omega, by simp⟩
  | case3 a =>
      have smallA := a.toNat_lt
      simp only [List.mem_cons, forall_eq_or_imp, List.not_mem_nil]
      exact ⟨by omega, by omega, by simp⟩
  | case4 => exact fun digit member => absurd member List.not_mem_nil

theorem digitsOf_canonical (bytes : List UInt8) : Canonical (digitsOf bytes) := by
  have rest : restLength (digitsOf bytes) ≤ 4 ∧ restBits (digitsOf bytes) = 0 := by
    fun_induction digitsOf bytes with
    | case1 a b c rest ih => exact ih
    | case2 a b => exact ⟨by simp only [restLength]; omega, by simp only [restBits]; omega⟩
    | case3 a => exact ⟨by simp only [restLength]; omega, by simp only [restBits]; omega⟩
    | case4 => exact ⟨by decide, rfl⟩
  exact ⟨digitsOf_small bytes, rest.1, rest.2⟩

theorem ofNat_eq_of_toNat {number : ℕ} (byte : UInt8) (same : number = byte.toNat) :
    UInt8.ofNat number = byte := by
  rw [same, UInt8.ofNat_toNat]

theorem bytesOf_digitsOf (bytes : List UInt8) : bytesOf (digitsOf bytes) = bytes := by
  fun_induction digitsOf bytes with
  | case1 a b c rest ih =>
      have smallA := a.toNat_lt
      have smallB := b.toNat_lt
      have smallC := c.toNat_lt
      rw [bytesOf, ih, ofNat_eq_of_toNat a (by omega),
        ofNat_eq_of_toNat b (by omega), ofNat_eq_of_toNat c (by omega)]
  | case2 a b =>
      have smallA := a.toNat_lt
      have smallB := b.toNat_lt
      rw [bytesOf, ofNat_eq_of_toNat a (by omega),
        ofNat_eq_of_toNat b (by omega)]
  | case3 a =>
      have smallA := a.toNat_lt
      rw [bytesOf, ofNat_eq_of_toNat a (by omega)]
  | case4 => rfl

theorem toNat_ofNat_of_small {number : ℕ} (small : number < 256) :
    (UInt8.ofNat number).toNat = number := by
  rw [UInt8.toNat_ofNat', Nat.mod_eq_of_lt small]

theorem digitsOf_bytesOf {digits : List ℕ} (canonical : Canonical digits) :
    digitsOf (bytesOf digits) = digits := by
  obtain ⟨small, short, zero⟩ := canonical
  fun_induction bytesOf digits with
  | case1 a b c d rest ih =>
      simp only [List.mem_cons, forall_eq_or_imp] at small
      obtain ⟨smallA, smallB, smallC, smallD, smallRest⟩ := small
      rw [digitsOf, ih smallRest short zero, toNat_ofNat_of_small (by omega),
        toNat_ofNat_of_small (by omega), toNat_ofNat_of_small (by omega)]
      congr 1
      · omega
      · congr 1
        · omega
        · congr 1
          · omega
          · congr 1
            omega
  | case2 a b c =>
      simp only [List.mem_cons, forall_eq_or_imp] at small
      obtain ⟨smallA, smallB, smallC, -⟩ := small
      rw [restBits] at zero
      rw [digitsOf, toNat_ofNat_of_small (by omega), toNat_ofNat_of_small (by omega)]
      congr 1
      · omega
      · congr 1
        · omega
        · congr 1
          omega
  | case3 a b =>
      simp only [List.mem_cons, forall_eq_or_imp] at small
      obtain ⟨smallA, smallB, -⟩ := small
      rw [restBits] at zero
      rw [digitsOf, toNat_ofNat_of_small (by omega)]
      congr 1
      · omega
      · congr 1
        omega
  | case4 a =>
      rw [restLength] at short
      omega
  | case5 => rfl

/-! ### Lengths -/

theorem exists_cons_of_le {α : Type} {room : List α} {count : ℕ} (fits : count + 1 ≤ room.length) :
    ∃ first more, room = first :: more ∧ count ≤ more.length := by
  cases room with
  | nil => exact absurd fits (Nat.not_succ_le_zero _)
  | cons first more => exact ⟨first, more, rfl, Nat.le_of_succ_le_succ fits⟩

theorem length_digitsOf (bytes : List UInt8) :
    (digitsOf bytes).length = (8 * bytes.length + 5) / 6 := by
  fun_induction digitsOf bytes with
  | case1 a b c rest ih =>
      simp only [List.length_cons, ih]
      omega
  | case2 a b => simp
  | case3 a => simp
  | case4 => rfl

theorem length_bytesOf (digits : List ℕ) : (bytesOf digits).length = 6 * digits.length / 8 := by
  fun_induction bytesOf digits with
  | case1 a b c d rest ih =>
      simp only [List.length_cons, ih]
      omega
  | case2 a b c => simp
  | case3 a b => simp
  | case4 a => simp
  | case5 => rfl

theorem restLength_eq (digits : List ℕ) : restLength digits = 6 * digits.length % 8 := by
  fun_induction restLength digits with
  | case1 a b c d rest ih =>
      simp only [List.length_cons, ih]
      omega
  | case2 a b c => simp
  | case3 a b => simp
  | case4 a => simp
  | case5 => rfl

end Bun.Base64
