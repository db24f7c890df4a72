import RowStore.Error
import RowStore.Proofs.Record.Codec

/-!
# The layout of records

`Value.Written` says how a value is stored in a column: an integer as four bytes in two's
complement, the most significant one first, and a text as the number of its bytes in four bytes,
then the bytes, then zeros up to the limit of the column. A record holds one field for each column,
and each begins at `Column.offset`, where the fields of the columns before it end. The main
statement, `Row.record_reads_back`, says that the record of every row is laid out like this, and
that the row is read back from it.
-/

namespace RowStore

namespace Bytes

/-- The number that a byte string writes, most significant byte first. -/
def number (bytes : Bytes) : Nat :=
  bytes.foldl (fun number byte => number * 256 + byte.toNat) 0

/-- Four bytes are read as the number that they write. -/
theorem number_four (b₃ b₂ b₁ b₀ : UInt8) :
    number [b₃, b₂, b₁, b₀] = toWord32 b₃ b₂ b₁ b₀ := by
  simp [number, toWord32]

/-- The four bytes of a 32-bit number write it. -/
theorem number_ofWord32 {word : Nat} (h : word < 0x100000000) : number (ofWord32 word) = word := by
  rw [ofWord32, number_four, toWord32_ofWord32 h]

end Bytes

namespace Text.Utf8

/-- The bytes of a character are those of the standard encoding. -/
theorem encodeChar_eq (c : Char) : encodeChar c = String.utf8EncodeChar c := by
  have hvalid : c.toNat < 0xD800 ∨ 0xDFFF < c.toNat ∧ c.toNat < 0x110000 := c.valid
  have hcode : c.val.toNat = c.toNat := rfl
  unfold encodeChar String.utf8EncodeChar
  simp only [hcode]
  by_cases hone : c.toNat < 0x80
  · rw [if_pos hone, if_pos (by omega)]
  by_cases htwo : c.toNat < 0x800
  · rw [if_neg hone, if_pos htwo, if_neg (by omega), if_pos (by omega),
      show c.toNat / 64 % 32 + 192 = 0xC0 + c.toNat / 64 by omega,
      Nat.add_comm (c.toNat % 64) 128]
  by_cases hthree : c.toNat < 0x10000
  · rw [if_neg hone, if_neg htwo, if_pos hthree, if_neg (by omega), if_neg (by omega),
      if_pos (by omega), show c.toNat / 4096 % 16 + 224 = 0xE0 + c.toNat / 4096 by omega,
      Nat.add_comm (c.toNat / 64 % 64) 128, Nat.add_comm (c.toNat % 64) 128]
  · rw [if_neg hone, if_neg htwo, if_neg hthree, if_neg (by omega), if_neg (by omega),
      if_neg (by omega), show c.toNat / 262144 % 8 + 240 = 0xF0 + c.toNat / 262144 by omega,
      Nat.add_comm (c.toNat / 4096 % 64) 128, Nat.add_comm (c.toNat / 64 % 64) 128,
      Nat.add_comm (c.toNat % 64) 128]

/-- The bytes of a text are those of the standard encoding. -/
theorem encode_eq (text : String) : encode text = text.toByteArray.data.toList := by
  have hchars : encode text = text.toList.flatMap String.utf8EncodeChar := by
    rw [encode, show encodeChar = String.utf8EncodeChar from funext encodeChar_eq]
  rw [hchars, ← String.utf8Encode_toList, List.utf8Encode, List.toList_data_toByteArray]

/-- There are as many bytes as the text is long in the standard encoding. -/
theorem length_encode (text : String) : (encode text).length = text.utf8ByteSize := by
  rw [encode_eq, ← String.size_toByteArray]
  rfl

end Text.Utf8

namespace Value

/-- The bytes store the value in a column of the type. -/
inductive Written : Value → ColumnType → Bytes → Prop where
  /-- Four bytes write the two's complement of an integer. -/
  | integer {number : Int32} {word : Bytes} :
      word.length = 4 → (word.number : Int) = number.toInt % 0x100000000 →
      Written (.integer number) .integer word
  /-- Four bytes write the length of a text. The text follows, and zeros up to the limit. -/
  | text {content : String} {limit : UInt16} {length : Bytes} :
      length.length = 4 → length.number = content.utf8ByteSize →
      content.utf8ByteSize ≤ limit.toNat →
      Written (.text content) (.text limit)
        (length ++ content.toByteArray.data.toList ++
          List.replicate (limit.toNat - content.utf8ByteSize) 0)

/-- A stored form is written as the type says. -/
theorem written_of_encode {value : Value} {type : ColumnType} {bytes : Bytes}
    (h : value.encode type = some bytes) : Written value type bytes := by
  cases value with
  | integer number =>
      cases type with
      | text limit => simp [encode] at h
      | integer =>
          simp only [encode, Option.some.injEq] at h
          subst h
          refine .integer (Bytes.length_ofWord32 _) ?_
          have hlt := number.toUInt32.toNat_lt
          have hint : number.toInt = (number.toUInt32.toNat : Int).bmod (2 ^ 32) :=
            BitVec.toInt_eq_toNat_bmod number.toBitVec
          rw [Bytes.number_ofWord32 hlt, hint,
            show (0x100000000 : Int) = ((2 ^ 32 : Nat) : Int) by simp, Int.bmod_emod,
            Int.emod_eq_of_lt (by omega) (by omega)]
  | text content =>
      cases type with
      | integer => simp [encode] at h
      | text limit =>
          simp only [encode] at h
          split at h
          · rename_i hfits
            have hlimit := limit.toNat_lt
            rw [Option.some.injEq] at h
            subst h
            rw [Text.Utf8.length_encode] at hfits ⊢
            rw [Text.Utf8.encode_eq]
            exact .text (Bytes.length_ofWord32 _) (Bytes.number_ofWord32 (by omega)) hfits
          · simp at h

end Value

namespace Column

/-- Where the field of a column begins in a record: after the fields of the columns before it, each
of which is as wide as its column. -/
def offset (columns : List Column) (index : Nat) : Nat :=
  totalWidth (columns.take index)

theorem offset_succ (column : Column) (rest : List Column) (index : Nat) :
    offset (column :: rest) (index + 1) = column.width + offset rest index :=
  rfl

variable {column : Column} {columns : List Column} {record : Bytes}
  {holds : ColumnType → Bytes → Prop}

/-- Every field of a record of these columns is as `holds` says. -/
def EachField (columns : List Column) (record : Bytes) (holds : ColumnType → Bytes → Prop) : Prop :=
  ∀ (index : Nat) (column : Column), columns[index]? = some column →
    holds column.type (Bytes.slice record (offset columns index) column.width)

/-- The first field is where a record begins. -/
theorem slice_offset_zero (columns : List Column) (record : Bytes) (count : Nat) :
    Bytes.slice record (offset columns 0) count = record.take count :=
  rfl

/-- A field after the first one is a field of what follows the first one. -/
theorem slice_offset_succ (column : Column) (columns : List Column) (record : Bytes)
    (index count : Nat) :
    Bytes.slice record (offset (column :: columns) (index + 1)) count =
      Bytes.slice (record.drop column.width) (offset columns index) count := by
  rw [offset_succ, Bytes.slice, Bytes.slice, List.drop_drop]

theorem eachField_nil : EachField [] record holds := by
  simp [EachField]

theorem eachField_cons :
    EachField (column :: columns) record holds ↔
      holds column.type (record.take column.width) ∧
        EachField columns (record.drop column.width) holds := by
  constructor
  · intro heach
    refine ⟨heach 0 column rfl, fun index found hfound => ?_⟩
    rw [← slice_offset_succ]
    exact heach (index + 1) found (by simpa using hfound)
  · rintro ⟨hfirst, hrest⟩ index found hfound
    cases index with
    | zero =>
        obtain rfl : column = found := by simpa using hfound
        exact hfirst
    | succ index =>
        rw [slice_offset_succ]
        exact hrest index found (by simpa using hfound)

end Column

namespace Row

variable {columns : List Column} {schema : Schema} {values : List Value} {row : Row}

/-- Values have no fault if there is one for each column, which the column can hold. -/
theorem fault?_eq_none_iff :
    fault? schema values = none ↔ values.length = schema.columns.length ∧
      ∀ pair ∈ schema.columns.zip values, pair.2.fits pair.1.type = true := by
  unfold fault?
  split
  · rename_i hcount
    simp only [reduceCtorEq, false_iff, not_and]
    exact fun hlength => absurd hlength hcount
  · rename_i hcount
    rw [Option.map_eq_none_iff, List.find?_eq_none]
    simpa [Schema.columnCount] using fun _ => Decidable.not_not.mp hcount

/-- What `make` accepts: a value for each column, which the column can hold. -/
theorem make_eq_ok_iff :
    make schema values = .ok row ↔
      row = ⟨schema, values, none⟩ ∧ values.length = schema.columns.length ∧
        ∀ pair ∈ schema.columns.zip values, pair.2.fits pair.1.type = true := by
  unfold make
  rw [← fault?_eq_none_iff]
  cases fault? schema values with
  | some fault => simp
  | none => simpa using eq_comm

/-- Each value is written into the field of its column. -/
theorem written_field {index : Nat} {column : Column} {value : Value}
    (hlength : values.length = columns.length)
    (hfits : ∀ pair ∈ columns.zip values, pair.2.fits pair.1.type = true)
    (hcolumn : columns[index]? = some column) (hvalue : values[index]? = some value) :
    Value.Written value column.type
      (Bytes.slice (encodeValues columns values) (Column.offset columns index) column.width) := by
  induction columns generalizing values index with
  | nil => simp at hcolumn
  | cons first rest ih =>
      cases values with
      | nil => simp at hvalue
      | cons firstValue restValues =>
          obtain ⟨bytes, hbytes, hrecord, hrest⟩ := encodeValues_of_fits hfits
          have hwidth : bytes.length = first.width := Value.length_of_encode hbytes
          rw [hrecord]
          cases index with
          | zero =>
              simp only [List.getElem?_cons_zero, Option.some.injEq] at hcolumn hvalue
              subst hcolumn hvalue
              rw [Column.slice_offset_zero, List.take_left' hwidth]
              exact Value.written_of_encode hbytes
          | succ index =>
              rw [Column.slice_offset_succ, List.drop_left' hwidth]
              exact ih (by simpa using hlength) hrest (by simpa using hcolumn)
                (by simpa using hvalue)

/-- The record of a row is as wide as its schema says, holds each value in the field of its column,
and is read back as a row with the same schema and the same values. -/
theorem record_reads_back (hschema : Schema.ofColumns columns = .ok schema)
    (hrow : make schema values = .ok row) :
    row.toBytes.length = schema.recordWidth ∧
      schema.recordWidth = Column.totalWidth columns ∧
      values.length = columns.length ∧
      (∀ (index : Nat) (column : Column) (value : Value),
        columns[index]? = some column → values[index]? = some value →
          Value.Written value column.type
            (Bytes.slice row.toBytes (Column.offset columns index) column.width)) ∧
      ∃ read, ofBytes? schema row.toBytes = some read ∧ read.schema = schema ∧
        read.values = values ∧ read.same row = true := by
  obtain rfl := Schema.columns_of_ofColumns hschema
  obtain ⟨rfl, hlength, hfits⟩ := make_eq_ok_iff.mp hrow
  have hwidth : (⟨schema, values, none⟩ : Row).toBytes.length = schema.recordWidth :=
    length_encodeValues hlength hfits
  refine ⟨hwidth, rfl, hlength, ?_, ⟨schema, values, none⟩, ?_, rfl, rfl,
    ?_⟩
  · intro index column value hcolumn hvalue
    exact written_field hlength hfits hcolumn hvalue
  · unfold ofBytes?
    rw [if_neg (by simpa using hwidth), toBytes, decodeValues_encodeValues hlength hfits,
      Option.map_some]
  · simp [same]

/-- Columns of a number and of two texts. -/
def mixedSchema : Schema :=
  ⟨[⟨"number", .integer⟩, ⟨"full", .text 5⟩, ⟨"empty", .text 2⟩], by simp, by simp, by simp⟩

/-- A negative number, a text of two characters whose five bytes fill its column, and an empty
text. -/
def mixedValues : List Value :=
  [.integer (-2), .text "é€", .text ""]

/-- The text that fills its column is stored without zeros after it, and is read back. -/
theorem record_reads_back_full_width :
    ∃ row, Schema.ofColumns mixedSchema.columns = .ok mixedSchema ∧
      make mixedSchema mixedValues = .ok row ∧
      row.toBytes = [0xFF, 0xFF, 0xFF, 0xFE, 0, 0, 0, 5, 0xC3, 0xA9, 0xE2, 0x82, 0xAC,
        0, 0, 0, 0, 0, 0] ∧
      Value.Written (.text "é€") (.text 5) (Bytes.slice row.toBytes 4 9) ∧
      ∃ read, ofBytes? mixedSchema row.toBytes = some read ∧ read.same row = true := by
  have hschema : Schema.ofColumns mixedSchema.columns = .ok mixedSchema := by decide
  have hrow : make mixedSchema mixedValues = .ok ⟨mixedSchema, mixedValues, none⟩ := by decide
  obtain ⟨_, _, _, hwritten, read, hread, _, _, hsame⟩ := record_reads_back hschema hrow
  exact ⟨_, hschema, hrow, by decide, hwritten 1 ⟨"full", .text 5⟩ _ rfl rfl, read, hread, hsame⟩

end Row

end RowStore
