import RowStore.Bytes
import RowStore.Text.Utf8
import RowStore.Text.Quoted
import RowStore.Record.ColumnType

/-!
# Values and their stored form

A value is an integer or a text. `encode` gives the bytes that store a value in a column:
an integer is written with its most significant byte first, and a text as its length in bytes,
then its bytes, then zeros up to the limit of the column. `decode` reads one value from the front
of a byte string and gives back what follows. It reads nothing from a string that is too short,
and only the length from a text that claims to be longer than its column.
-/

namespace RowStore

/-- A value of a column. -/
inductive Value where
  | integer (number : Int32)
  | text (content : String)
deriving DecidableEq

namespace Value

/-- The number of bytes of a text. -/
def textSize (content : String) : Nat :=
  (Text.Utf8.encode content).length

/-- Whether a column of the type can hold the value. -/
def fits : Value → ColumnType → Bool
  | .integer _, .integer => true
  | .text content, .text limit => textSize content ≤ limit.toNat
  | _, _ => false

/-- The bytes that store the value in a column of the type, if the column can hold it. -/
def encode (value : Value) (type : ColumnType) : Option Bytes :=
  match value, type with
  | .integer number, .integer => some (.ofWord32 number.toUInt32.toNat)
  | .text content, .text limit =>
      let bytes := Text.Utf8.encode content
      if bytes.length ≤ limit.toNat then
        some (Bytes.ofWord32 bytes.length ++ bytes ++ Bytes.zeros (limit.toNat - bytes.length))
      else none
  | _, _ => none

/-- The number that four stored bytes hold. -/
def decodeInteger (word : Nat) : Value :=
  .integer (UInt32.ofNat word).toInt32

/-- The value at the front of the bytes, and the bytes that are left after reading it. -/
def decode (type : ColumnType) (bytes : Bytes) : Option Value × Bytes :=
  if bytes.length < type.width then (none, bytes)
  else
    match bytes with
    | b₃ :: b₂ :: b₁ :: b₀ :: rest =>
        let word := Bytes.toWord32 b₃ b₂ b₁ b₀
        match type with
        | .integer => (some (decodeInteger word), rest)
        | .text limit =>
            if limit.toNat < word then (none, rest)
            else (some (.text (Text.Utf8.decode (rest.take word))), rest.drop limit.toNat)
    | _ => (none, bytes)

/-- The integer, if the value is one. -/
def integer? : Value → Option Int32
  | .integer number => some number
  | .text _ => none

/-- The text, if the value is one. -/
def text? : Value → Option String
  | .integer _ => none
  | .text content => some content

/-- Integers come before texts, integers by size, and texts by their characters. -/
def order : Value → Value → Ordering
  | .integer a, .integer b => compare a.toInt b.toInt
  | .integer _, .text _ => .lt
  | .text _, .integer _ => .gt
  | .text a, .text b => compare a b

instance : ToString Value where
  toString
    | .integer number => toString number.toInt
    | .text content => content

/-- The value as messages show it: its kind, and a text between quotes. -/
def describe : Value → String
  | .integer number => "Integer(" ++ toString number.toInt ++ ")"
  | .text content => "Text(" ++ Text.quote content ++ ")"

/-- A column holds the value exactly if the value has a stored form in it. -/
theorem isSome_encode (value : Value) (type : ColumnType) :
    (value.encode type).isSome = value.fits type := by
  cases value with
  | integer number => cases type <;> rfl
  | text content =>
      cases type with
      | integer => rfl
      | text limit =>
          by_cases h : (Text.Utf8.encode content).length ≤ limit.toNat
          · simp only [encode, if_pos h, Option.isSome_some]
            exact (decide_eq_true h).symm
          · simp only [encode, if_neg h, Option.isSome_none]
            exact (decide_eq_false h).symm

/-- The stored form of a value is as wide as the column's type. -/
theorem length_of_encode {value : Value} {type : ColumnType} {bytes : Bytes}
    (h : value.encode type = some bytes) : bytes.length = type.width := by
  cases value with
  | integer number =>
      cases type with
      | integer => simp only [encode, Option.some.injEq] at h; subst h; rfl
      | text limit => simp [encode] at h
  | text content =>
      cases type with
      | integer => simp [encode] at h
      | text limit =>
          simp only [encode] at h
          split at h
          · simp only [Option.some.injEq] at h
            subst h
            simp only [List.length_append, Bytes.length_ofWord32, Bytes.length_zeros,
              ColumnType.width, ColumnType.lengthWidth]
            omega
          · simp at h

end Value

end RowStore
