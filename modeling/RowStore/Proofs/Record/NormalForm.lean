import RowStore.Proofs.Record.Storable

/-!
# Records that are read, and the form in which they are stored again

A byte string is a record of a schema if it has the width of the schema and no field gives its text
a length beyond the limit of the column. What follows a text in its field is free: it is read past,
and is written as zeros. So a record of valid texts is stored again in a normal form, which differs
from it at most in these bytes and is read as the same row. The main statement is `Row.normal_form`.
-/

namespace RowStore

namespace Bytes

/-- Four bytes are the ones that write the number that they are read as. -/
theorem ofWord32_toWord32 (b₃ b₂ b₁ b₀ : UInt8) :
    ofWord32 (toWord32 b₃ b₂ b₁ b₀) = [b₃, b₂, b₁, b₀] := by
  have h₃ := b₃.toNat_lt
  have h₂ := b₂.toNat_lt
  have h₁ := b₁.toNat_lt
  have h₀ := b₀.toNat_lt
  simp only [ofWord32, toWord32, List.cons.injEq, and_true, ← UInt8.toNat_inj, UInt8.toNat_ofNat']
  omega

theorem toWord32_lt (b₃ b₂ b₁ b₀ : UInt8) : toWord32 b₃ b₂ b₁ b₀ < 0x100000000 := by
  have h₃ := b₃.toNat_lt
  have h₂ := b₂.toNat_lt
  have h₁ := b₁.toNat_lt
  have h₀ := b₀.toNat_lt
  simp only [toWord32]
  omega

/-- A string of four bytes or more begins with a number. -/
theorem exists_word {bytes : Bytes} (h : 4 ≤ bytes.length) :
    ∃ b₃ b₂ b₁ b₀ rest, bytes = b₃ :: b₂ :: b₁ :: b₀ :: rest := by
  match bytes with
  | b₃ :: b₂ :: b₁ :: b₀ :: rest => exact ⟨b₃, b₂, b₁, b₀, rest, rfl⟩
  | [] | [_] | [_, _] | [_, _, _] => simp at h

end Bytes

/-- Bytes that are UTF-8 are those of the text that they are read as. -/
theorem Text.Utf8.encode_decode {bytes : Bytes}
    (h : (ByteArray.mk bytes.toArray).IsValidUTF8) : encode (decode bytes) = bytes := by
  obtain ⟨chars, hchars⟩ := h
  have hbytes : bytes = encode (.ofList chars) := by
    rw [encode_eq, String.toByteArray_ofList, ← hchars]
  rw [hbytes, decode_encode]

namespace ColumnType

/-- The length that a field gives its text is within the limit of the column. -/
def LengthFits : ColumnType → Bytes → Prop
  | .integer, _ => True
  | .text limit, field => Bytes.number (field.take 4) ≤ limit.toNat

/-- The text of a field is UTF-8. -/
def TextValid : ColumnType → Bytes → Prop
  | .integer, _ => True
  | .text _, field => (ByteArray.mk (Value.storedText field).toArray).IsValidUTF8

/-- The field with zeros in place of what follows its text. -/
def cleared : ColumnType → Bytes → Bytes
  | .integer, field => field
  | .text _, field =>
      let used := 4 + Bytes.number (field.take 4)
      field.take used ++ Bytes.zeros (field.length - used)

end ColumnType

namespace Value

variable {type : ColumnType} {value : Value} {bytes left : Bytes}

/-- A string that is long enough for a value begins with one exactly if a text's length is within
the limit. -/
theorem exists_decode_iff (hwidth : type.width ≤ bytes.length) :
    (∃ value left, decode type bytes = (some value, left)) ↔
      type.LengthFits (bytes.take type.width) := by
  obtain ⟨b₃, b₂, b₁, b₀, rest, rfl⟩ := Bytes.exists_word (Nat.le_trans type.four_le_width hwidth)
  unfold decode
  rw [if_neg (Nat.not_lt.mpr hwidth)]
  cases type with
  | integer => exact iff_of_true ⟨_, _, rfl⟩ trivial
  | text limit =>
      have hlength : ((b₃ :: b₂ :: b₁ :: b₀ :: rest).take (ColumnType.text limit).width).take 4 =
          [b₃, b₂, b₁, b₀] := by
        rw [List.take_take, Nat.min_eq_left (ColumnType.four_le_width _)]
        rfl
      rw [ColumnType.LengthFits, hlength, Bytes.number_four]
      dsimp only
      split
      · rename_i hlong
        exact iff_of_false (by simp) (by omega)
      · rename_i hshort
        exact iff_of_true ⟨_, _, rfl⟩ (by omega)

/-- A field that is cut out of a longer string keeps its length and its text, and ends in zeros. -/
theorem cleared_take {limit : UInt16} {b₃ b₂ b₁ b₀ : UInt8} {rest : Bytes}
    (hword : Bytes.toWord32 b₃ b₂ b₁ b₀ ≤ limit.toNat) (hrest : limit.toNat ≤ rest.length) :
    (ColumnType.text limit).cleared ((b₃ :: b₂ :: b₁ :: b₀ :: rest).take (4 + limit.toNat)) =
      [b₃, b₂, b₁, b₀] ++ rest.take (Bytes.toWord32 b₃ b₂ b₁ b₀) ++
        Bytes.zeros (limit.toNat - Bytes.toWord32 b₃ b₂ b₁ b₀) := by
  have hcut : ∀ count, (b₃ :: b₂ :: b₁ :: b₀ :: rest).take (4 + count) =
      [b₃, b₂, b₁, b₀] ++ rest.take count := by
    intro count
    rw [Nat.add_comm]
    rfl
  have hlength : ((b₃ :: b₂ :: b₁ :: b₀ :: rest).take (4 + limit.toNat)).length =
      4 + limit.toNat := by
    rw [List.length_take, Nat.min_eq_left]
    simp only [List.length_cons]
    omega
  have hfour : ((b₃ :: b₂ :: b₁ :: b₀ :: rest).take (4 + limit.toNat)).take 4 =
      [b₃, b₂, b₁, b₀] := by
    rw [List.take_take, Nat.min_eq_left (Nat.le_add_right ..)]
    rfl
  rw [ColumnType.cleared, hfour, Bytes.number_four, hlength, List.take_take,
    Nat.min_eq_left (by omega), hcut, Nat.add_sub_add_left]

/-- A value that is read from a valid text is stored as it was, with zeros after the text. -/
theorem encode_of_decode (h : decode type bytes = (some value, left))
    (hvalid : type.TextValid (bytes.take type.width)) :
    value.encode type = some (type.cleared (bytes.take type.width)) := by
  obtain ⟨_, hwidth, b₃, b₂, b₁, b₀, rest, rfl, ⟨rfl, rfl⟩ | ⟨limit, rfl, hword, rfl⟩⟩ :=
    decode_cases h
  · rw [decodeInteger, encode, UInt32.toUInt32_toInt32, UInt32.toNat_ofNat_of_lt'
      (Bytes.toWord32_lt ..), Bytes.ofWord32_toWord32]
    rfl
  · simp only [ColumnType.width, ColumnType.lengthWidth, List.length_cons] at hwidth
    rw [ColumnType.TextValid, ColumnType.width, ColumnType.lengthWidth, storedText_take hword]
      at hvalid
    have hlength : (rest.take (Bytes.toWord32 b₃ b₂ b₁ b₀)).length =
        Bytes.toWord32 b₃ b₂ b₁ b₀ := by
      rw [List.length_take, Nat.min_eq_left (by omega)]
    rw [ColumnType.width, ColumnType.lengthWidth, cleared_take hword (by omega), encode]
    simp only [Text.Utf8.encode_decode hvalid, hlength, if_pos hword, Bytes.ofWord32_toWord32]

end Value

namespace Row

variable {columns : List Column} {schema : Schema} {values : List Value} {row : Row}
  {bytes record : Bytes}

/-- The values of columns can be read from a string of their width exactly if every length is within
the limit of its column. -/
theorem exists_decodeValues_iff (hlength : bytes.length = Column.totalWidth columns) :
    (∃ values, decodeValues columns bytes = some values) ↔
      Column.EachField columns bytes ColumnType.LengthFits := by
  induction columns generalizing bytes with
  | nil => exact iff_of_true ⟨[], rfl⟩ Column.eachField_nil
  | cons column rest ih =>
      have htotal : Column.totalWidth (column :: rest) =
          column.width + Column.totalWidth rest := rfl
      have hfirst : (∃ value left, Value.decode column.type bytes = (some value, left)) ↔
          column.type.LengthFits (bytes.take column.width) := by
        refine Value.exists_decode_iff ?_
        rw [hlength, htotal]
        exact Nat.le_add_right ..
      have hleft : (bytes.drop column.width).length = Column.totalWidth rest := by
        rw [List.length_drop, hlength, htotal, Nat.add_sub_cancel_left]
      rw [Column.eachField_cons, ← ih hleft, ← hfirst]
      constructor
      · rintro ⟨values, hvalues⟩
        obtain ⟨value, others, hvalue, hothers, _⟩ := decodeValues_cons_eq_some_iff.mp hvalues
        exact ⟨⟨value, _, hvalue⟩, others, hothers⟩
      · rintro ⟨⟨value, left, hvalue⟩, others, hothers⟩
        obtain ⟨rfl, _⟩ := Value.decode_eq_some hvalue
        exact ⟨_, decodeValues_cons_eq_some_iff.mpr ⟨value, others, hvalue, hothers, rfl⟩⟩

/-- Values that are read from valid texts can be stored again, each in its field as it was with
zeros after the text. -/
theorem stored_of_decodeValues (h : decodeValues columns bytes = some values)
    (hvalid : Column.EachField columns bytes ColumnType.TextValid) :
    (∀ pair ∈ columns.zip values, pair.2.fits pair.1.type = true) ∧
      ∀ (index : Nat) (column : Column), columns[index]? = some column →
        Bytes.slice (encodeValues columns values) (Column.offset columns index) column.width =
          column.type.cleared (Bytes.slice bytes (Column.offset columns index) column.width) := by
  induction columns generalizing values bytes with
  | nil => simp
  | cons column rest ih =>
      rw [Column.eachField_cons] at hvalid
      obtain ⟨value, others, hvalue, hothers, rfl⟩ := decodeValues_cons_eq_some_iff.mp h
      obtain ⟨hfits, hfields⟩ := ih hothers hvalid.2
      have hstored : value.encode column.type =
          some (column.type.cleared (bytes.take column.width)) :=
        Value.encode_of_decode hvalue hvalid.1
      have hwidth : (column.type.cleared (bytes.take column.width)).length = column.width :=
        Value.length_of_encode hstored
      refine ⟨?_, fun index found hfound => ?_⟩
      · rw [List.zip_cons_cons, List.forall_mem_cons]
        exact ⟨by rw [← Value.isSome_encode, hstored]; rfl, hfits⟩
      · rw [encodeValues_cons, hstored, Option.getD_some]
        cases index with
        | zero =>
            obtain rfl : column = found := by simpa using hfound
            rw [Column.slice_offset_zero, Column.slice_offset_zero, List.take_left' hwidth]
        | succ index =>
            rw [Column.slice_offset_succ, Column.slice_offset_succ, List.drop_left' hwidth]
            exact hfields index found (by simpa using hfound)

/-- A byte string is read as a row exactly if it is as wide as a record and no field gives its text
a length beyond the limit of its column. If its texts are UTF-8, then the row that is read is stored
in as many bytes, which differ at most in that every byte after a text is zero, and which are read
as the same row again. -/
theorem normal_form (schema : Schema) (record : Bytes) :
    ((∃ row, ofBytes? schema record = some row) ↔
      record.length = schema.recordWidth ∧
        Column.EachField schema.columns record ColumnType.LengthFits) ∧
    ∀ row, ofBytes? schema record = some row →
      Column.EachField schema.columns record ColumnType.TextValid →
        row.toBytes.length = record.length ∧
        (∀ (index : Nat) (column : Column), schema.columns[index]? = some column →
          Bytes.slice row.toBytes (Column.offset schema.columns index) column.width =
            column.type.cleared
              (Bytes.slice record (Column.offset schema.columns index) column.width)) ∧
        ofBytes? schema row.toBytes = some row := by
  constructor
  · unfold ofBytes?
    split
    · rename_i hwidth
      simp [hwidth]
    · rename_i hwidth
      rw [ne_eq, Decidable.not_not] at hwidth
      rw [← exists_decodeValues_iff hwidth]
      constructor
      · rintro ⟨row, hrow⟩
        obtain ⟨values, hvalues, _⟩ := Option.map_eq_some_iff.mp hrow
        exact ⟨hwidth, values, hvalues⟩
      · rintro ⟨_, values, hvalues⟩
        exact ⟨_, Option.map_eq_some_iff.mpr ⟨values, hvalues, rfl⟩⟩
  · intro row hread hvalid
    unfold ofBytes? at hread
    split at hread
    · simp at hread
    · rename_i hwidth
      rw [ne_eq, Decidable.not_not] at hwidth
      rw [Option.map_eq_some_iff] at hread
      obtain ⟨values, hvalues, rfl⟩ := hread
      have hlength := (fits_of_decodeValues hvalues).1
      obtain ⟨hfits, hfields⟩ := stored_of_decodeValues hvalues hvalid
      refine ⟨(length_encodeValues hlength hfits).trans hwidth.symm, hfields, ?_⟩
      exact ofBytes?_toBytes (fault?_eq_none_iff.mpr ⟨hlength, hfits⟩)

/-- A number, a letter with four bytes after it, and an empty text with two bytes after it. The
bytes after the texts are read past and written as zeros. -/
theorem normal_form_padded :
    ∃ row, ofBytes? mixedSchema
        [0xFF, 0xFF, 0xFF, 0xFE, 0, 0, 0, 1, 0x41, 0xFF, 0x42, 0, 7, 0, 0, 0, 0, 8, 9] = some row ∧
      row.values = [.integer (-2), .text "A", .text ""] ∧
      row.toBytes = [0xFF, 0xFF, 0xFF, 0xFE, 0, 0, 0, 1, 0x41, 0, 0, 0, 0, 0, 0, 0, 0, 0, 0] ∧
      Bytes.slice row.toBytes 4 9 =
        (ColumnType.text 5).cleared [0, 0, 0, 1, 0x41, 0xFF, 0x42, 0, 7] ∧
      ofBytes? mixedSchema row.toBytes = some row := by
  have hread : ofBytes? mixedSchema
      [0xFF, 0xFF, 0xFF, 0xFE, 0, 0, 0, 1, 0x41, 0xFF, 0x42, 0, 7, 0, 0, 0, 0, 8, 9] =
        some ⟨mixedSchema, [.integer (-2), .text "A", .text ""], none⟩ := by decide
  have hvalid : Column.EachField mixedSchema.columns
      [0xFF, 0xFF, 0xFF, 0xFE, 0, 0, 0, 1, 0x41, 0xFF, 0x42, 0, 7, 0, 0, 0, 0, 8, 9]
      ColumnType.TextValid :=
    Column.eachField_cons.mpr ⟨trivial, Column.eachField_cons.mpr ⟨.intro ['A'] (by decide),
      Column.eachField_cons.mpr ⟨.intro [] (by decide), Column.eachField_nil⟩⟩⟩
  obtain ⟨_, hfields, hagain⟩ := (normal_form mixedSchema _).2 _ hread hvalid
  exact ⟨_, hread, rfl, by decide, hfields 1 ⟨"full", .text 5⟩ rfl, hagain⟩

end Row

end RowStore
