import RowStore.Record.Row
import RowStore.Proofs.Text.Utf8

/-!
# Rows survive their stored form

A value that is read from the front of a string that begins with its stored form is the value, and
what is left is what follows. By induction on the columns, the record of a row without a fault
is read as this row.
-/

namespace RowStore

namespace Value

variable {word : Nat}

/-- A column of numbers reads the four bytes of a number. -/
theorem decode_integer (hword : word < 0x100000000) (rest : Bytes) :
    decode .integer (Bytes.ofWord32 word ++ rest) = (some (decodeInteger word), rest) := by
  have hlength : ¬ (Bytes.ofWord32 word ++ rest).length < ColumnType.integer.width := by
    rw [List.length_append, Bytes.length_ofWord32]
    show ¬ 4 + rest.length < 4
    omega
  unfold decode
  rw [if_neg hlength]
  show (some (decodeInteger (Bytes.toWord32 _ _ _ _)), rest) = _
  rw [Bytes.toWord32_ofWord32 hword]

/-- A column of texts reads the length of a text and then the text. -/
theorem decode_text {limit : UInt16} (hword : word ≤ limit.toNat) {rest : Bytes}
    (hrest : limit.toNat ≤ rest.length) :
    decode (.text limit) (Bytes.ofWord32 word ++ rest) =
      (some (.text (Text.Utf8.decode (rest.take word))), rest.drop limit.toNat) := by
  have hlimit := limit.toNat_lt
  have hlength : ¬ (Bytes.ofWord32 word ++ rest).length < (ColumnType.text limit).width := by
    rw [List.length_append, Bytes.length_ofWord32]
    show ¬ 4 + rest.length < 4 + limit.toNat
    omega
  unfold decode
  rw [if_neg hlength]
  show (if limit.toNat < Bytes.toWord32 _ _ _ _ then (none, rest)
    else (some (text (Text.Utf8.decode (rest.take (Bytes.toWord32 _ _ _ _)))),
      rest.drop limit.toNat)) = _
  rw [Bytes.toWord32_ofWord32 (by omega), if_neg (by omega)]

/-- A value is read back from its stored form, and what follows is left. -/
theorem decode_encode {value : Value} {type : ColumnType} {bytes : Bytes}
    (h : value.encode type = some bytes) (rest : Bytes) :
    decode type (bytes ++ rest) = (some value, rest) := by
  cases value with
  | integer number =>
      cases type with
      | text limit => simp [encode] at h
      | integer =>
          simp only [encode, Option.some.injEq] at h
          rw [← h, decode_integer number.toUInt32.toNat_lt, decodeInteger, UInt32.ofNat_toNat,
            Int32.toInt32_toUInt32]
  | text content =>
      cases type with
      | integer => simp [encode] at h
      | text limit =>
          simp only [encode] at h
          split at h
          · rename_i hfits
            rw [Option.some.injEq] at h
            rw [← h, List.append_assoc, List.append_assoc, decode_text hfits]
            · rw [List.take_left, Text.Utf8.decode_encode, ← List.append_assoc, List.drop_left']
              rw [List.length_append, Bytes.length_zeros]
              omega
            · rw [List.length_append, List.length_append, Bytes.length_zeros]
              omega
          · simp at h

end Value

namespace Row

/-- Values that their columns can hold are read back from their stored forms. -/
theorem decodeValues_encodeValues {columns : List Column} {values : List Value}
    (hlength : values.length = columns.length)
    (hfits : ∀ pair ∈ columns.zip values, pair.2.fits pair.1.type = true) :
    decodeValues columns (encodeValues columns values) = some values := by
  induction columns generalizing values with
  | nil =>
      rw [List.length_nil, List.length_eq_zero_iff] at hlength
      rw [hlength]
      rfl
  | cons column rest ih =>
      cases values with
      | nil => simp at hlength
      | cons value values =>
          obtain ⟨bytes, hbytes, hstored, hrest⟩ := encodeValues_of_fits hfits
          unfold decodeValues
          rw [hstored, Value.decode_encode hbytes]
          show (decodeValues rest (encodeValues rest values)).map (value :: ·) = _
          rw [ih (by simpa using hlength) hrest, Option.map_some]

/-- A row without a fault is read back from its record. -/
theorem ofBytes?_toBytes {row : Row} (h : fault? row.schema row.values = none) :
    ofBytes? row.schema row.toBytes = some { row with place := none } := by
  have hlength := length_toBytes h
  unfold fault? at h
  split at h
  · simp at h
  · rename_i hcount
    simp only [Option.map_eq_none_iff, List.find?_eq_none] at h
    unfold ofBytes? toBytes
    rw [if_neg (by simpa [toBytes] using hlength),
      decodeValues_encodeValues (by simpa [Schema.columnCount] using hcount)
        (fun pair hpair => by simpa using h pair hpair), Option.map_some]

end Row

end RowStore
