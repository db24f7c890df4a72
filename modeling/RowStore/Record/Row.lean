import RowStore.Identifier
import RowStore.Record.Value
import RowStore.Record.Schema

/-!
# Rows

A row is a list of values under a schema. `Row.make` accepts exactly the lists that the columns
of the schema can hold. A row is stored as the stored forms of its values, one after the other,
and `Row.ofBytes?` reads a row back from the bytes of a record. A row that has been stored knows
its place, which is no part of its value: `Row.same` compares schema and values only.
-/

namespace RowStore

/-- A list of values under a schema, and the place where it is stored, if it is stored. -/
structure Row where
  schema : Schema
  values : List Value
  place : Option RecordId := none
deriving DecidableEq

/-- Why a list of values is no row, or why a row cannot be stored in a table. -/
inductive RowFault where
  | valueCount (expected actual : Nat)
  | unfit (value : Value) (column : Column)
  | pageSchema (row page : Schema)
  | tableSchema (row : Schema) (table : TableId) (schema : Schema)
  /-- A fault in the words of whoever found it. -/
  | described (text : String)
deriving DecidableEq

namespace RowFault

/-- The fault in words. -/
def message : RowFault → String
  | valueCount expected actual =>
      "expected " ++ toString expected ++ " values, got " ++ toString actual
  | unfit value column =>
      "value " ++ value.describe ++ " does not fit column " ++ column.name ++ " of type "
        ++ toString column.type
  | pageSchema row page =>
      "tuple schema (" ++ toString row ++ ") differs from page schema (" ++ toString page ++ ")"
  | tableSchema row table schema =>
      "tuple schema (" ++ toString row ++ ") differs from table " ++ toString table ++ " schema ("
        ++ toString schema ++ ")"
  | described text => text

end RowFault

namespace Row

/-- Why the values are no row under the schema: their number is wrong, or else some column, the
first of which is told, cannot hold its value. -/
def fault? (schema : Schema) (values : List Value) : Option RowFault :=
  if values.length ≠ schema.columnCount then
    some (.valueCount schema.columnCount values.length)
  else
    ((schema.columns.zip values).find? fun pair => !pair.2.fits pair.1.type).map fun pair =>
      .unfit pair.2 pair.1

/-- The row with these values, not stored anywhere, or why there is none. -/
def make (schema : Schema) (values : List Value) : Except RowFault Row :=
  match fault? schema values with
  | some fault => .error fault
  | none => .ok ⟨schema, values, none⟩

/-- The stored forms of values under columns, one after the other. A value without a stored form
leaves no bytes. -/
def encodeValues (columns : List Column) (values : List Value) : Bytes :=
  (columns.zip values).flatMap fun pair => (pair.2.encode pair.1.type).getD []

/-- The bytes that store the row. -/
def toBytes (row : Row) : Bytes :=
  encodeValues row.schema.columns row.values

theorem encodeValues_cons (column : Column) (columns : List Column) (value : Value)
    (values : List Value) :
    encodeValues (column :: columns) (value :: values) =
      (value.encode column.type).getD [] ++ encodeValues columns values := by
  rw [encodeValues, List.zip_cons_cons, List.flatMap_cons, ← encodeValues]

/-- If columns can hold values, then the first value has a stored form, which those of the others
follow. -/
theorem encodeValues_of_fits {column : Column} {columns : List Column} {value : Value}
    {values : List Value}
    (hfits : ∀ pair ∈ (column :: columns).zip (value :: values),
      pair.2.fits pair.1.type = true) :
    ∃ bytes, value.encode column.type = some bytes ∧
      encodeValues (column :: columns) (value :: values) = bytes ++ encodeValues columns values ∧
      ∀ pair ∈ columns.zip values, pair.2.fits pair.1.type = true := by
  rw [List.zip_cons_cons, List.forall_mem_cons, ← Value.isSome_encode] at hfits
  obtain ⟨bytes, hbytes⟩ := Option.isSome_iff_exists.mp hfits.1
  exact ⟨bytes, hbytes, by rw [encodeValues_cons, hbytes, Option.getD_some], hfits.2⟩

/-- Values that their columns can hold are stored in the sum of the widths. -/
theorem length_encodeValues {columns : List Column} {values : List Value}
    (hlength : values.length = columns.length)
    (hfits : ∀ pair ∈ columns.zip values, pair.2.fits pair.1.type = true) :
    (encodeValues columns values).length = Column.totalWidth columns := by
  induction columns generalizing values with
  | nil => simp [encodeValues, Column.totalWidth]
  | cons column rest ih =>
      cases values with
      | nil => simp at hlength
      | cons value values =>
          obtain ⟨bytes, hbytes, hstored, hrest⟩ := encodeValues_of_fits hfits
          rw [hstored, List.length_append, Value.length_of_encode hbytes,
            ih (by simpa using hlength) hrest]
          rfl

/-- A row without a fault is stored in the width of its schema. -/
theorem length_toBytes {row : Row} (h : fault? row.schema row.values = none) :
    row.toBytes.length = row.schema.recordWidth := by
  simp only [fault?] at h
  split at h
  · simp at h
  · rename_i hcount
    refine length_encodeValues (by simpa [Schema.columnCount] using hcount) fun pair hpair => ?_
    simp only [Option.map_eq_none_iff, List.find?_eq_none] at h
    simpa using h pair hpair

/-- The values of columns, read one after the other, unless one cannot be read. -/
def decodeValues : List Column → Bytes → Option (List Value)
  | [], _ => some []
  | column :: rest, bytes =>
      match Value.decode column.type bytes with
      | (none, _) => none
      | (some value, left) => (decodeValues rest left).map (value :: ·)

/-- The row that the bytes of a record store. -/
def ofBytes? (schema : Schema) (bytes : Bytes) : Option Row :=
  if bytes.length ≠ schema.recordWidth then none
  else (decodeValues schema.columns bytes).map fun values => ⟨schema, values, none⟩

/-- The value of the column with this name. -/
def valueNamed? (row : Row) (name : String) : Option Value :=
  (row.schema.columnIndex? name).bind fun index => row.values[index]?

/-- Whether two rows have the same schema and the same values, wherever they are stored. -/
def same (a b : Row) : Bool :=
  a.schema = b.schema && a.values = b.values

instance : ToString Row :=
  ⟨fun row => "\t".intercalate (row.values.map toString)⟩

end Row

end RowStore
