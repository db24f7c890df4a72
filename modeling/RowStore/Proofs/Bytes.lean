import RowStore.Bytes

/-!
# Slices of byte strings

A slice that does not overlap the range that is written is unchanged, and so is one that lies
within the part that a change of length keeps.
-/

namespace RowStore

namespace Bytes

/-- The bytes of a slice, one by one. -/
theorem getElem?_slice (bytes : Bytes) (offset count i : Nat) :
    (slice bytes offset count)[i]? = if i < count then bytes[offset + i]? else none := by
  simp only [slice, List.getElem?_take, List.getElem?_drop]

/-- A patch that begins inside a string makes it longer only if it runs past the end. -/
theorem length_overwrite_eq_max {bytes patch : Bytes} {offset : Nat} (h : offset ≤ bytes.length) :
    (overwrite bytes offset patch).length = max bytes.length (offset + patch.length) := by
  simp only [overwrite, List.length_append, List.length_take, List.length_drop]
  omega

/-- A slice before the range that is written is unchanged. -/
theorem slice_overwrite_before {bytes patch : Bytes} {offset start count : Nat}
    (hoffset : offset ≤ bytes.length) (h : start + count ≤ offset) :
    slice (overwrite bytes offset patch) start count = slice bytes start count := by
  apply List.ext_getElem?
  intro i
  rw [getElem?_slice, getElem?_slice]
  split
  · exact getElem?_overwrite_before hoffset (by omega)
  · rfl

/-- A slice after the range that is written is unchanged. -/
theorem slice_overwrite_after {bytes patch : Bytes} {offset start count : Nat}
    (hoffset : offset ≤ bytes.length) (h : offset + patch.length ≤ start) :
    slice (overwrite bytes offset patch) start count = slice bytes start count := by
  apply List.ext_getElem?
  intro i
  rw [getElem?_slice, getElem?_slice]
  split
  · exact getElem?_overwrite_after hoffset (by omega)
  · rfl

/-- A slice of the string that is kept in full is unchanged by a change of length. -/
theorem slice_resize {bytes : Bytes} {length start count : Nat}
    (hlength : bytes.length ≤ length) (h : start + count ≤ bytes.length) :
    slice (resize bytes length) start count = slice bytes start count := by
  apply List.ext_getElem?
  intro i
  rw [getElem?_slice, getElem?_slice]
  split
  · rw [resize, List.getElem?_append_left (by simp; omega), List.getElem?_take_of_lt (by omega)]
  · rfl

@[simp] theorem length_resize (bytes : Bytes) (length : Nat) :
    (resize bytes length).length = length := by
  simp only [resize, List.length_append, List.length_take, length_zeros]
  omega

/-- What a string is made longer by is zeros. -/
theorem slice_resize_end (bytes : Bytes) (count : Nat) :
    slice (resize bytes (bytes.length + count)) bytes.length count = zeros count := by
  unfold slice resize
  rw [List.take_of_length_le (Nat.le_add_right ..), List.drop_left, Nat.add_sub_cancel_left,
    List.take_of_length_le (Nat.le_of_eq (length_zeros count))]

/-- Pieces of one size that have distinct numbers do not overlap. -/
theorem place_disjoint {a b size : Nat} (h : a ≠ b) :
    a * size + size ≤ b * size ∨ b * size + size ≤ a * size := by
  rcases Nat.lt_or_gt_of_ne h with hlt | hlt
  · left
    have hmul := Nat.mul_le_mul_right size (Nat.succ_le_of_lt hlt)
    rwa [Nat.succ_mul] at hmul
  · right
    have hmul := Nat.mul_le_mul_right size (Nat.succ_le_of_lt hlt)
    rwa [Nat.succ_mul] at hmul

end Bytes

end RowStore
