/-!
# Byte strings

Pages, records, and files are lists of bytes. `overwrite` replaces a range of a byte string and
leaves the rest alone, and `ofWord32` writes a 32-bit number with its most significant byte
first. The lemmas give the length of each result and the bytes inside and outside the range
that was written.
-/

namespace RowStore

/-- A byte string. -/
abbrev Bytes := List UInt8

namespace Bytes

/-- A string of `count` zero bytes. -/
def zeros (count : Nat) : Bytes :=
  List.replicate count 0

/-- The `count` bytes that start at `offset`, fewer if the string ends before. -/
def slice (bytes : Bytes) (offset count : Nat) : Bytes :=
  (bytes.drop offset).take count

/-- The string with `patch` written over it from `offset` on. A patch that runs past the end
makes the string longer. -/
def overwrite (bytes : Bytes) (offset : Nat) (patch : Bytes) : Bytes :=
  bytes.take offset ++ patch ++ bytes.drop (offset + patch.length)

/-- The string cut to `length` bytes, or filled with zeros up to them. -/
def resize (bytes : Bytes) (length : Nat) : Bytes :=
  bytes.take length ++ zeros (length - bytes.length)

/-- The four bytes of a 32-bit number, most significant byte first. -/
def ofWord32 (word : Nat) : Bytes :=
  [.ofNat (word / 0x1000000), .ofNat (word / 0x10000), .ofNat (word / 0x100), .ofNat word]

/-- The number that four bytes write, most significant byte first. -/
def toWord32 (b₃ b₂ b₁ b₀ : UInt8) : Nat :=
  ((b₃.toNat * 256 + b₂.toNat) * 256 + b₁.toNat) * 256 + b₀.toNat

@[simp] theorem length_zeros (count : Nat) : (zeros count).length = count :=
  List.length_replicate

@[simp] theorem length_ofWord32 (word : Nat) : (ofWord32 word).length = 4 := rfl

/-- A patch inside the string keeps its length. -/
theorem length_overwrite {bytes patch : Bytes} {offset : Nat}
    (h : offset + patch.length ≤ bytes.length) :
    (overwrite bytes offset patch).length = bytes.length := by
  simp only [overwrite, List.length_append, List.length_take, List.length_drop]
  omega

/-- A slice inside the string has the length asked for. -/
theorem length_slice {bytes : Bytes} {offset count : Nat} (h : offset + count ≤ bytes.length) :
    (slice bytes offset count).length = count := by
  simp only [slice, List.length_take, List.length_drop]
  omega

/-- The patch is read back from the range that it was written to. -/
theorem slice_overwrite_self {bytes patch : Bytes} {offset : Nat} (h : offset ≤ bytes.length) :
    slice (overwrite bytes offset patch) offset patch.length = patch := by
  simp [slice, overwrite, List.append_assoc, Nat.min_eq_left h]

/-- A byte before the range is unchanged. -/
theorem getElem?_overwrite_before {bytes patch : Bytes} {offset i : Nat}
    (h : offset ≤ bytes.length) (hi : i < offset) :
    (overwrite bytes offset patch)[i]? = bytes[i]? := by
  rw [overwrite, List.append_assoc, List.getElem?_append_left (by simp; omega),
    List.getElem?_take_of_lt hi]

/-- A byte after the range is unchanged. -/
theorem getElem?_overwrite_after {bytes patch : Bytes} {offset i : Nat}
    (h : offset ≤ bytes.length) (hi : offset + patch.length ≤ i) :
    (overwrite bytes offset patch)[i]? = bytes[i]? := by
  have hlen : (bytes.take offset ++ patch).length = offset + patch.length := by
    simp [Nat.min_eq_left h]
  rw [overwrite, List.getElem?_append_right (by omega), List.getElem?_drop, hlen]
  congr 1
  omega

/-- The four bytes of a 32-bit number give it back. -/
theorem toWord32_ofWord32 {word : Nat} (h : word < 0x100000000) :
    toWord32 (.ofNat (word / 0x1000000)) (.ofNat (word / 0x10000)) (.ofNat (word / 0x100))
      (.ofNat word) = word := by
  simp only [toWord32, UInt8.toNat_ofNat']
  omega

end Bytes

end RowStore
