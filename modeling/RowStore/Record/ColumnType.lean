/-!
# Column types

A column holds 32-bit integers or texts of a bounded number of bytes. Every value of a type is
stored in the same number of bytes, the `width` of the type, so that all records of a table have
one width.
-/

namespace RowStore

/-- The type of a column. -/
inductive ColumnType where
  /-- A signed 32-bit integer. -/
  | integer
  /-- A text of at most `limit` bytes. -/
  | text (limit : UInt16)
deriving DecidableEq, Repr

namespace ColumnType

/-- The longest text, in bytes, that a `string` column of a schema file can hold. -/
def declaredLimit : UInt16 := 128

/-- The number of bytes in front of a text, which give its length. -/
def lengthWidth : Nat := 4

/-- The number of bytes that a value of the type is stored in. -/
def width : ColumnType → Nat
  | .integer => 4
  | .text limit => lengthWidth + limit.toNat

/-- The type that a schema file calls `name`, in any letter case. -/
def ofName? (name : String) : Option ColumnType :=
  let folded := name.map Char.toLower
  if folded = "int" then some .integer
  else if folded = "string" then some (.text declaredLimit)
  else none

instance : ToString ColumnType where
  toString
    | .integer => "INT"
    | .text limit => "STRING(" ++ toString limit.toNat ++ ")"

/-- A value takes at least four bytes. -/
theorem four_le_width (type : ColumnType) : 4 ≤ type.width := by
  cases type <;> simp [width, lengthWidth]

end ColumnType

end RowStore
