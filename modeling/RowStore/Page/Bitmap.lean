import RowStore.Bytes

/-!
# Bitmaps

A bitmap is a byte string read as a list of bits, eight for each byte and the least significant
bit first. `setBit` changes one bit and leaves the others alone.
-/

namespace RowStore.Page

/-- The bits of a byte, the least significant first. -/
def bitsOfByte (byte : UInt8) : List Bool :=
  (List.range 8).map fun i => byte.toBitVec.getLsbD i

/-- The bits of a byte string, byte by byte. -/
def bits (bytes : Bytes) : List Bool :=
  bytes.flatMap bitsOfByte

/-- The byte with one bit changed. -/
def setBitOfByte (byte : UInt8) (i : Nat) (value : Bool) : UInt8 :=
  if value then ⟨byte.toBitVec ||| BitVec.twoPow 8 i⟩
  else ⟨byte.toBitVec &&& ~~~BitVec.twoPow 8 i⟩

/-- The byte string with one bit changed. -/
def setBit (bytes : Bytes) (i : Nat) (value : Bool) : Bytes :=
  bytes.modify (i / 8) fun byte => setBitOfByte byte (i % 8) value

@[simp] theorem length_bitsOfByte (byte : UInt8) : (bitsOfByte byte).length = 8 := by
  simp [bitsOfByte]

@[simp] theorem length_setBit (bytes : Bytes) (i : Nat) (value : Bool) :
    (setBit bytes i value).length = bytes.length := by
  simp [setBit]

end RowStore.Page
