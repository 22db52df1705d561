/-
Arrays of a fixed size, written one range at a time.
-/

import Mathlib.Data.List.Rotate

set_option autoImplicit false

namespace Bun.Foundation

structure FixedArray (α : Type) (size : Nat) where
  items : List α
  length_items : items.length = size
deriving DecidableEq, Repr

namespace FixedArray

variable {α : Type} {size : Nat}

def fill (size : Nat) (item : α) : FixedArray α size :=
  ⟨List.replicate size item, List.length_replicate⟩

def rotateLeft (array : FixedArray α size) (count : Nat) : FixedArray α size :=
  ⟨array.items.rotate count, by rw [List.length_rotate, array.length_items]⟩

/-- `array[start..start + source.len()].copy_from_slice(source)`, which needs the range
to lie in the array. -/
def copyFromSlice (array : FixedArray α size) (start : Nat) (source : List α) :
    Option (FixedArray α size) :=
  if fits : start + source.length ≤ size then
    some ⟨array.items.take start ++ source ++ array.items.drop (start + source.length), by
      have whole := array.length_items
      simp only [List.length_append, List.length_take, List.length_drop, whole]
      omega⟩
  else none

/-- A write that fits keeps what is before its range and puts the source behind it. -/
theorem copyFromSlice_of_fits (array : FixedArray α size) (start : Nat) (source : List α)
    (fits : start + source.length ≤ size) :
    ∃ written, array.copyFromSlice start source = some written ∧
      written.items.take (start + source.length) = array.items.take start ++ source := by
  rw [copyFromSlice, dif_pos fits]
  refine ⟨_, rfl, ?_⟩
  have frontLength : (array.items.take start ++ source).length = start + source.length := by
    have whole := array.length_items
    simp only [List.length_append, List.length_take, whole]
    omega
  rw [List.take_append_of_le_length (by rw [frontLength]), List.take_of_length_le (by
    rw [frontLength])]

theorem take_size (array : FixedArray α size) : array.items.take size = array.items :=
  List.take_of_length_le (by rw [array.length_items])

theorem rotateLeft_zero (array : FixedArray α size) : array.rotateLeft 0 = array := by
  cases array
  simp [rotateLeft]

theorem rotateLeft_rotateLeft (array : FixedArray α size) (first second : Nat) :
    (array.rotateLeft first).rotateLeft second = array.rotateLeft (first + second) := by
  cases array
  simp [rotateLeft, List.rotate_rotate]

theorem rotateLeft_mod (array : FixedArray α size) (count : Nat) :
    array.rotateLeft (count % size) = array.rotateLeft count := by
  have same := List.rotate_mod array.items count
  rw [array.length_items] at same
  unfold rotateLeft
  congr 1

end FixedArray

end Bun.Foundation
