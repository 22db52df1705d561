/-
The encoder writes the characters of the digits, and padding behind them.
-/

import Bun.Base64.Quanta
import Bun.Base64.ZigBase64
import Mathlib.Data.List.Basic

set_option autoImplicit false

namespace Bun.Base64

theorem writeAt_end (out room : List UInt8) (old byte : UInt8) :
    writeAt (out ++ old :: room) out.length byte = some (out ++ byte :: room) := by
  rw [writeAt, if_pos (by rw [List.length_append, List.length_cons]; omega),
    List.set_append_right _ _ (Nat.le_refl _), Nat.sub_self]
  rfl

namespace Base64Encoder

variable (encoder : Base64Encoder)

theorem and_low (bits : ℕ) : bits &&& 0x3f = bits % 64 :=
  Nat.and_two_pow_sub_one_eq_mod bits 6

theorem charAt_eq {bits digit : ℕ} (same : bits % 64 = digit % 64) :
    encoder.charAt bits = encoder.charAt digit := by
  rw [charAt, charAt, and_low, and_low, same]

def behind (out room : List UInt8) (acc accLen : ℕ) : Encoding :=
  { dest := out ++ room, acc, accLen, outIdx := out.length }

theorem writeDigits_few (out room : List UInt8) (acc : ℕ) {accLen : ℕ} (few : accLen < 6) :
    encoder.writeDigits (behind out room acc accLen) = some (behind out room acc accLen) := by
  rw [writeDigits, if_neg]
  exact Nat.not_le_of_lt few

theorem writeDigits_one (out room : List UInt8) (acc accLen digit : ℕ) (old : UInt8)
    (isDigit : acc / 2 ^ accLen % 64 = digit % 64) :
    encoder.writeDigits (behind out (old :: room) acc (accLen + 6)) =
      encoder.writeDigits (behind (out ++ [encoder.charAt digit]) room acc accLen) := by
  have isChar := encoder.charAt_eq isDigit
  have enough : 6 ≤ (behind out (old :: room) acc (accLen + 6)).accLen := Nat.le_add_left 6 accLen
  rw [writeDigits, if_pos enough]
  dsimp only [behind]
  rw [Nat.add_sub_cancel, Nat.shiftRight_eq_div_pow, isChar, writeAt_end, Option.bind_eq_bind,
    Option.bind_some, List.append_assoc, List.length_append]
  rfl

theorem encodeByte_eq (out room : List UInt8) (acc accLen : ℕ) (v : UInt8) :
    encoder.encodeByte (behind out room acc accLen) v =
      encoder.writeDigits (behind out room (acc * 256 % 65536 + v.toNat) (accLen + 8)) := by
  rw [encodeByte]
  dsimp only [behind]
  rw [Nat.shiftLeft_eq]
  rfl

theorem encodeByte_zero (out room : List UInt8) (acc : ℕ) (old a : UInt8) :
    encoder.encodeByte (behind out (old :: room) acc 0) a =
      some (behind (out ++ [encoder.charAt (a.toNat / 4)]) room (acc * 256 % 65536 + a.toNat)
        2) := by
  have small := a.toNat_lt
  have one := encoder.writeDigits_one out room (acc * 256 % 65536 + a.toNat) 2 (a.toNat / 4) old
    (by omega)
  rw [encodeByte_eq, one, writeDigits_few _ _ _ _ (by decide)]

theorem encodeByte_two (out room : List UInt8) {acc : ℕ} (old a b : UInt8)
    (low : acc % 4 = a.toNat % 4) :
    encoder.encodeByte (behind out (old :: room) acc 2) b =
      some (behind (out ++ [encoder.charAt (a.toNat % 4 * 16 + b.toNat / 16)]) room
        (acc * 256 % 65536 + b.toNat) 4) := by
  have small := b.toNat_lt
  have one := encoder.writeDigits_one out room (acc * 256 % 65536 + b.toNat) 4
    (a.toNat % 4 * 16 + b.toNat / 16) old (by omega)
  rw [encodeByte_eq, one, writeDigits_few _ _ _ _ (by decide)]

theorem encodeByte_four (out room : List UInt8) {acc : ℕ} (old older b c : UInt8)
    (low : acc % 16 = b.toNat % 16) :
    encoder.encodeByte (behind out (old :: older :: room) acc 4) c =
      some (behind (out ++ [encoder.charAt (b.toNat % 16 * 4 + c.toNat / 64),
        encoder.charAt (c.toNat % 64)]) room (acc * 256 % 65536 + c.toNat) 0) := by
  have small := c.toNat_lt
  have one := encoder.writeDigits_one out (older :: room) (acc * 256 % 65536 + c.toNat) 6
    (b.toNat % 16 * 4 + c.toNat / 64) old (by omega)
  have two := encoder.writeDigits_one
    (out ++ [encoder.charAt (b.toNat % 16 * 4 + c.toNat / 64)]) room
    (acc * 256 % 65536 + c.toNat) 0 (c.toNat % 64) older (by omega)
  rw [encodeByte_eq, one, two, writeDigits_few _ _ _ _ (by decide), List.append_assoc]
  rfl

theorem writeRest_zero (out room : List UInt8) (acc : ℕ) :
    encoder.writeRest (behind out room acc 0) = some (out ++ room, out.length) :=
  rfl

theorem writeRest_some (out room : List UInt8) (acc accLen digit : ℕ) (old : UInt8)
    (some' : 0 < accLen) (isDigit : acc * 2 ^ (6 - accLen) % 65536 % 64 = digit % 64) :
    encoder.writeRest (behind out (old :: room) acc accLen) =
      some (out ++ encoder.charAt digit :: room, out.length + 1) := by
  have isChar := encoder.charAt_eq isDigit
  have isSome : (behind out (old :: room) acc accLen).accLen > 0 := some'
  have wide : (2 : ℕ) ^ 16 = 65536 := rfl
  rw [writeRest, if_pos isSome]
  dsimp only [behind]
  rw [Nat.shiftLeft_eq, wide, isChar, writeAt_end]
  rfl

theorem foldlM_step {now next : Encoding} {v : UInt8} (rest : List UInt8)
    (isNext : encoder.encodeByte now v = some next) :
    (v :: rest).foldlM encoder.encodeByte now = rest.foldlM encoder.encodeByte next := by
  rw [List.foldlM_cons, isNext]
  rfl

theorem encodeFrom_eq (source out : List UInt8) {room : List UInt8} (acc : ℕ)
    (fits : (digitsOf source).length ≤ room.length) :
    (source.foldlM encoder.encodeByte (behind out room acc 0) >>= encoder.writeRest) =
      some (out ++ ((digitsOf source).map encoder.charAt ++ room.drop (digitsOf source).length),
        out.length + (digitsOf source).length) := by
  fun_induction digitsOf source generalizing out room acc with
  | case1 a b c rest ih =>
      obtain ⟨x, room, rfl, behindOne⟩ := exists_cons_of_le fits
      obtain ⟨y, room, rfl, behindTwo⟩ := exists_cons_of_le behindOne
      obtain ⟨z, room, rfl, behindThree⟩ := exists_cons_of_le behindTwo
      obtain ⟨w, more, rfl, behindFour⟩ := exists_cons_of_le behindThree
      have smallA := a.toNat_lt
      have smallB := b.toNat_lt
      rw [encoder.foldlM_step _ (encoder.encodeByte_zero out _ acc x a),
        encoder.foldlM_step _ (encoder.encodeByte_two _ _ y a b (by omega)),
        encoder.foldlM_step _ (encoder.encodeByte_four _ _ z w b c (by omega))]
      have later := ih (out ++ [encoder.charAt (a.toNat / 4)] ++
        [encoder.charAt (a.toNat % 4 * 16 + b.toNat / 16)] ++
        [encoder.charAt (b.toNat % 16 * 4 + c.toNat / 64), encoder.charAt (c.toNat % 64)])
        (((acc * 256 % 65536 + a.toNat) * 256 % 65536 + b.toNat) * 256 % 65536 +
          c.toNat) (by simpa using fits)
      rw [List.append_assoc] at later
      rw [List.append_assoc, later]
      simp only [List.append_assoc, List.length_append, List.length_cons, List.length_nil,
        List.map_cons, List.drop_succ_cons, List.cons_append, List.nil_append]
      congr 2
      omega
  | case2 a b =>
      obtain ⟨x, room, rfl, behindOne⟩ := exists_cons_of_le fits
      obtain ⟨y, room, rfl, behindTwo⟩ := exists_cons_of_le behindOne
      obtain ⟨z, more, rfl, behindThree⟩ := exists_cons_of_le behindTwo
      have smallA := a.toNat_lt
      have smallB := b.toNat_lt
      rw [encoder.foldlM_step _ (encoder.encodeByte_zero out _ acc x a),
        encoder.foldlM_step _ (encoder.encodeByte_two _ _ y a b (by omega)), List.foldlM_nil]
      have rest := encoder.writeRest_some (out ++ [encoder.charAt (a.toNat / 4)] ++
        [encoder.charAt (a.toNat % 4 * 16 + b.toNat / 16)]) more
        ((acc * 256 % 65536 + a.toNat) * 256 % 65536 + b.toNat) 4 (b.toNat % 16 * 4) z
        (by decide) (by omega)
      exact rest.trans (by simp)
  | case3 a =>
      obtain ⟨x, room, rfl, behindOne⟩ := exists_cons_of_le fits
      obtain ⟨y, more, rfl, behindTwo⟩ := exists_cons_of_le behindOne
      have smallA := a.toNat_lt
      rw [encoder.foldlM_step _ (encoder.encodeByte_zero out _ acc x a), List.foldlM_nil]
      have rest := encoder.writeRest_some (out ++ [encoder.charAt (a.toNat / 4)]) more
        (acc * 256 % 65536 + a.toNat) 2 (a.toNat % 4 * 16) y (by decide) (by omega)
      exact rest.trans (by simp)
  | case4 => exact encoder.writeRest_zero out room acc

/-! ### Padding -/

def paddingOf (padChar : Option UInt8) (digits : List ℕ) : List UInt8 :=
  padChar.elim [] fun pad => List.replicate (restLength digits / 2) pad

theorem calcSize_eq (source : List UInt8) :
    encoder.calcSize source.length =
      (digitsOf source).length + (paddingOf encoder.padChar (digitsOf source)).length := by
  rw [calcSize, paddingOf]
  cases encoder.padChar with
  | none =>
      rw [if_neg (by decide), Option.elim_none, length_digitsOf, List.length_nil, divCeil]
      omega
  | some pad =>
      rw [if_pos Option.isSome_some, Option.elim_some, List.length_replicate, restLength_eq, length_digitsOf,
        divCeil]
      omega

theorem fill_end (out room : List UInt8) (count : ℕ) (byte : UInt8) (fits : count ≤ room.length) :
    fill (out ++ room) out.length (out.length + count) byte =
      some (out ++ (List.replicate count byte ++ room.drop count)) := by
  rw [fill, if_pos ⟨Nat.le_add_right _ _, by rw [List.length_append]; omega⟩, List.take_left,
    Nat.add_sub_cancel_left, List.drop_append, List.drop_eq_nil_of_le (Nat.le_add_right _ _),
    Nat.add_sub_cancel_left, List.nil_append]

/-- What `encode` writes, whatever was in the destination. -/
theorem encode_eq {dest source : List UInt8} (fits : encoder.calcSize source.length ≤ dest.length) :
    encoder.encode dest source =
      some ((digitsOf source).map encoder.charAt ++
        paddingOf encoder.padChar (digitsOf source)) := by
  have size := encoder.calcSize_eq source
  have room : (digitsOf source).length ≤ dest.length := by omega
  have isWritten : encoder.encodeWithoutSizeCheck dest source =
      some ((digitsOf source).map encoder.charAt ++ dest.drop (digitsOf source).length,
        (digitsOf source).length) := by
    have isRun := encoder.encodeFrom_eq source [] 0 room
    rw [List.nil_append, List.length_nil, Nat.zero_add] at isRun
    exact isRun
  have chars : ((digitsOf source).map encoder.charAt).length = (digitsOf source).length :=
    List.length_map _
  rw [encode, isWritten, Option.bind_eq_bind, Option.bind_some]
  dsimp only
  rw [size]
  cases isPad : encoder.padChar with
  | none =>
      rw [paddingOf, Option.elim_none, List.length_nil, Nat.add_zero]
      dsimp only
      rw [Option.bind_eq_bind, Option.bind_some, if_pos (by rw [List.length_append, chars]; omega),
        List.append_nil]
      conv_lhs => rw [← chars, List.take_left]
      rfl
  | some pad =>
      rw [isPad] at size
      have isFilled := fill_end ((digitsOf source).map encoder.charAt)
        (dest.drop (digitsOf source).length) (restLength (digitsOf source) / 2) pad (by
          rw [paddingOf, Option.elim_some, List.length_replicate] at size
          rw [List.length_drop]
          omega)
      rw [chars] at isFilled
      rw [paddingOf, Option.elim_some, List.length_replicate]
      dsimp only
      rw [isFilled, Option.bind_eq_bind, Option.bind_some, if_pos (by simp), ← List.append_assoc,
        List.take_append_of_le_length (by simp), List.take_of_length_le (by simp)]
      rfl

end Base64Encoder
end Bun.Base64
