import RowStore.Proofs.Page.Rows
import RowStore.Proofs.Record.Layout
import RowStore.Proofs.Text.Lossy

/-!
# Rows that are read can be longer than their columns

The length of a stored text is compared with the limit of its column before the text is read, and
reading puts three bytes for every broken piece. A row that is read from any record can therefore
hold a text that its column cannot. `Schema.TextsFit` says of a record that this does not happen,
and the main statement, `Row.storable_iff`, is that exactly then the row can be stored again.
-/

namespace RowStore

/-- The bytes of the text in the field of a text column: as many as the first four bytes of the
field say. -/
def Value.storedText (field : Bytes) : Bytes :=
  (field.drop 4).take (Bytes.number (field.take 4))

/-- The text that a field stores is no longer than a column of the type allows, if each of its
broken pieces takes the three bytes of a replacement character. -/
def ColumnType.TextFits : ColumnType → Bytes → Prop
  | .integer, _ => True
  | .text limit, field =>
      ∃ pieces, Text.Utf8.Splits (Value.storedText field) pieces ∧
        Text.Utf8.shownSize pieces ≤ limit.toNat

/-- The texts of a record are no longer than their columns allow when they are read. -/
def Schema.TextsFit (schema : Schema) (record : Bytes) : Prop :=
  ∀ (index : Nat) (column : Column), schema.columns[index]? = some column →
    column.type.TextFits
      (Bytes.slice record (Column.offset schema.columns index) column.width)

/-- The texts of a record fit if each of its fields is as this says. -/
theorem Schema.textsFit_iff {schema : Schema} {record : Bytes} :
    schema.TextsFit record ↔ Column.EachField schema.columns record ColumnType.TextFits :=
  Iff.rfl

namespace Text.Utf8

/-- The text that is read from bytes is as long as their pieces are shown. -/
theorem length_encode_decode_le_iff {bytes : Bytes} {limit : Nat} :
    (encode (decode bytes)).length ≤ limit ↔
      ∃ pieces, Splits bytes pieces ∧ shownSize pieces ≤ limit := by
  obtain ⟨pieces, hpieces, _⟩ := splits_decode bytes
  rw [hpieces.length_encode_decode]
  constructor
  · exact fun hlimit => ⟨pieces, hpieces, hlimit⟩
  · rintro ⟨found, hfound, hlimit⟩
    rwa [hpieces.unique hfound] at hlimit

end Text.Utf8

namespace Value

variable {type : ColumnType} {bytes left : Bytes} {value : Value}

/-- A field that is cut out of a longer string stores the bytes that its length counts. -/
theorem storedText_take {limit : Nat} {b₃ b₂ b₁ b₀ : UInt8} {rest : Bytes}
    (h : Bytes.toWord32 b₃ b₂ b₁ b₀ ≤ limit) :
    storedText ((b₃ :: b₂ :: b₁ :: b₀ :: rest).take (4 + limit)) =
      rest.take (Bytes.toWord32 b₃ b₂ b₁ b₀) := by
  have hfield : (b₃ :: b₂ :: b₁ :: b₀ :: rest).take (4 + limit) =
      [b₃, b₂, b₁, b₀] ++ rest.take limit := by
    rw [Nat.add_comm]
    rfl
  have hlength : List.take 4 ([b₃, b₂, b₁, b₀] ++ rest.take limit) = [b₃, b₂, b₁, b₀] := rfl
  have hcontent : List.drop 4 ([b₃, b₂, b₁, b₀] ++ rest.take limit) = rest.take limit := rfl
  rw [storedText, hfield, hlength, hcontent, Bytes.number_four, List.take_take,
    Nat.min_eq_left h]

/-- What is read as a value: a number of four bytes, or a text whose length four bytes tell. -/
theorem decode_cases (h : decode type bytes = (some value, left)) :
    left = bytes.drop type.width ∧ type.width ≤ bytes.length ∧
      ∃ b₃ b₂ b₁ b₀ rest, bytes = b₃ :: b₂ :: b₁ :: b₀ :: rest ∧
        (type = .integer ∧ value = decodeInteger (Bytes.toWord32 b₃ b₂ b₁ b₀) ∨
          ∃ limit : UInt16, type = .text limit ∧ Bytes.toWord32 b₃ b₂ b₁ b₀ ≤ limit.toNat ∧
            value = .text (Text.Utf8.decode (rest.take (Bytes.toWord32 b₃ b₂ b₁ b₀)))) := by
  unfold decode at h
  split at h
  · simp at h
  · rename_i hwidth
    split at h
    · rename_i b₃ b₂ b₁ b₀ rest
      cases type with
      | integer =>
          simp only [Prod.mk.injEq, Option.some.injEq] at h
          obtain ⟨rfl, rfl⟩ := h
          exact ⟨rfl, Nat.not_lt.mp hwidth, b₃, b₂, b₁, b₀, _, rfl, .inl ⟨rfl, rfl⟩⟩
      | text limit =>
          simp only at h
          split at h
          · simp at h
          · rename_i hword
            simp only [Prod.mk.injEq, Option.some.injEq] at h
            obtain ⟨rfl, rfl⟩ := h
            refine ⟨?_, Nat.not_lt.mp hwidth, b₃, b₂, b₁, b₀, rest, rfl,
              .inr ⟨limit, rfl, Nat.not_lt.mp hword, rfl⟩⟩
            rw [ColumnType.width, ColumnType.lengthWidth, Nat.add_comm]
            rfl
    · simp at h

/-- A value that is read takes the width of its column, and the column can hold it exactly if the
text that is read fits. -/
theorem decode_eq_some (h : decode type bytes = (some value, left)) :
    left = bytes.drop type.width ∧
      (value.fits type = true ↔ type.TextFits (bytes.take type.width)) := by
  obtain ⟨hleft, _, b₃, b₂, b₁, b₀, rest, rfl, ⟨rfl, rfl⟩ | ⟨limit, rfl, hword, rfl⟩⟩ :=
    decode_cases h
  · exact ⟨hleft, by simp [fits, decodeInteger, ColumnType.TextFits]⟩
  · refine ⟨hleft, ?_⟩
    rw [ColumnType.TextFits, ColumnType.width, ColumnType.lengthWidth, storedText_take hword,
      ← Text.Utf8.length_encode_decode_le_iff]
    exact decide_eq_true_iff

/-- A value that a column cannot hold leaves no bytes, and all others as many as the column is
wide. -/
theorem length_encode (value : Value) (type : ColumnType) :
    ((value.encode type).getD []).length = if value.fits type = true then type.width else 0 := by
  rw [← isSome_encode]
  cases h : value.encode type with
  | none => rfl
  | some bytes => simpa using length_of_encode h

end Value

namespace Row

variable {columns : List Column} {schema : Schema} {values : List Value} {row : Row}
  {bytes record : Bytes}

/-- Values are stored in no more bytes than their columns are wide together, and in as many only
if the columns can hold all of them. -/
theorem length_encodeValues_eq_iff (hlength : values.length = columns.length) :
    (encodeValues columns values).length ≤ Column.totalWidth columns ∧
      ((encodeValues columns values).length = Column.totalWidth columns ↔
        ∀ pair ∈ columns.zip values, pair.2.fits pair.1.type = true) := by
  induction columns generalizing values with
  | nil => simp [encodeValues, Column.totalWidth]
  | cons column rest ih =>
      cases values with
      | nil => simp at hlength
      | cons value values =>
          obtain ⟨hle, hiff⟩ := ih (by simpa using hlength)
          have hwidth := column.type.four_le_width
          have hstored : (encodeValues (column :: rest) (value :: values)).length =
              (if value.fits column.type = true then column.type.width else 0) +
                (encodeValues rest values).length := by
            rw [encodeValues_cons, List.length_append, Value.length_encode]
          have htotal : Column.totalWidth (column :: rest) =
              column.type.width + Column.totalWidth rest := rfl
          rw [hstored, htotal, List.zip_cons_cons, List.forall_mem_cons, ← hiff]
          split
          · rename_i hfits
            simp only [hfits, true_and]
            omega
          · rename_i hfits
            simp only [hfits, Bool.false_eq_true, false_and, iff_false]
            omega

/-- The values of columns are the value at the front and the values that follow its field. -/
theorem decodeValues_cons_eq_some_iff {column : Column} :
    decodeValues (column :: columns) bytes = some values ↔
      ∃ value others, Value.decode column.type bytes = (some value, bytes.drop column.width) ∧
        decodeValues columns (bytes.drop column.width) = some others ∧
        values = value :: others := by
  constructor
  · intro h
    simp only [decodeValues] at h
    split at h
    · simp at h
    · rename_i value left hvalue
      obtain ⟨rfl, _⟩ := Value.decode_eq_some hvalue
      obtain ⟨others, hothers, rfl⟩ := Option.map_eq_some_iff.mp h
      exact ⟨value, others, hvalue, hothers, rfl⟩
  · rintro ⟨value, others, hvalue, hothers, rfl⟩
    rw [decodeValues, hvalue]
    exact congrArg (Option.map (value :: ·)) hothers

/-- Columns can hold the values that are read under them exactly if all texts fit that are read. -/
theorem fits_of_decodeValues (h : decodeValues columns bytes = some values) :
    values.length = columns.length ∧
      ((∀ pair ∈ columns.zip values, pair.2.fits pair.1.type = true) ↔
        Column.EachField columns bytes ColumnType.TextFits) := by
  induction columns generalizing values bytes with
  | nil =>
      simp only [decodeValues, Option.some.injEq] at h
      subst h
      simp [Column.eachField_nil]
  | cons column rest ih =>
      obtain ⟨value, others, hvalue, hothers, rfl⟩ := decodeValues_cons_eq_some_iff.mp h
      obtain ⟨_, hfirst⟩ := Value.decode_eq_some hvalue
      obtain ⟨hlength, hrest⟩ := ih hothers
      refine ⟨by simp [hlength], ?_⟩
      rw [List.zip_cons_cons, List.forall_mem_cons, hfirst, hrest, Column.eachField_cons]
      rfl

/-- A row that is read from a record can be stored again exactly if the texts of the record fit
their columns when they are read, with three bytes for each broken piece. This is when the columns
can hold its values, when it is stored in a record of the same width, and when a page of its
schema that has a free slot takes it. -/
theorem storable_iff (hread : ofBytes? schema record = some row) :
    row.schema = schema ∧ row.values.length = schema.columns.length ∧
      ((∀ pair ∈ schema.columns.zip row.values, pair.2.fits pair.1.type = true) ↔
        schema.TextsFit record) ∧
      (row.toBytes.length = schema.recordWidth ↔ schema.TextsFit record) ∧
      ∀ page : HeapPage, page.schema = schema →
        (∃ slot, slot < page.slots ∧ page.isUsed slot = false) →
          ((∃ after slot, page.insert row = .ok (after, slot)) ↔ schema.TextsFit record) := by
  unfold ofBytes? at hread
  split at hread
  · simp at hread
  · rw [Option.map_eq_some_iff] at hread
    obtain ⟨values, hvalues, rfl⟩ := hread
    obtain ⟨hlength, hfits⟩ := fits_of_decodeValues hvalues
    refine ⟨rfl, hlength, hfits, ?_, ?_⟩
    · rw [Schema.textsFit_iff, ← hfits]
      exact (length_encodeValues_eq_iff hlength).2
    · intro page hschema ⟨slot, hslot, hunused⟩
      rw [Schema.textsFit_iff, ← hfits]
      rcases page.insert_cases ⟨schema, values, none⟩ with ⟨hother, _⟩ | ⟨_, ⟨hfull, _⟩ | hfree⟩
      · exact absurd hschema.symm hother
      · rw [HeapPage.firstFree?_eq_none_iff] at hfull
        simp [hfull slot hslot] at hunused
      · have hfault := @fault?_eq_none_iff schema values
        obtain ⟨free, _, ⟨fault, hsome, hinsert⟩ | ⟨hnone, _, _, hinsert⟩⟩ := hfree
        · rw [hsome] at hfault
          simp only [hinsert, reduceCtorEq, exists_false, false_iff]
          exact fun hall => absurd (hfault.mpr ⟨hlength, hall⟩) (by simp)
        · exact iff_of_true ⟨_, _, hinsert⟩ (hfault.mp hnone).2

/-- One column of texts. -/
def noteSchema (limit : UInt16) : Schema :=
  ⟨[⟨"note", .text limit⟩], by simp, by simp, by simp⟩

/-- A page without records that has one slot for a note of four bytes. -/
def notePage : HeapPage :=
  ⟨⟨⟨1⟩, 0⟩, noteSchema 4, Bytes.zeros 9, 1, by decide⟩

/-- A letter and the first two of three bytes of a character are read as a text of four bytes,
which fills its column and is stored. -/
theorem storable_iff_broken_text :
    ∃ row, ofBytes? (noteSchema 4) [0, 0, 0, 3, 0x41, 0xE2, 0x82, 0] = some row ∧
      row.values = [.text "A\uFFFD"] ∧
      (noteSchema 4).TextsFit [0, 0, 0, 3, 0x41, 0xE2, 0x82, 0] ∧
      row.toBytes.length = 8 ∧ ∃ after slot, notePage.insert row = .ok (after, slot) := by
  have hread : ofBytes? (noteSchema 4) [0, 0, 0, 3, 0x41, 0xE2, 0x82, 0] =
      some ⟨noteSchema 4, [.text "A\uFFFD"], none⟩ := by decide
  obtain ⟨_, _, hfits, hlength, hinsert⟩ := storable_iff hread
  have htexts : (noteSchema 4).TextsFit [0, 0, 0, 3, 0x41, 0xE2, 0x82, 0] :=
    hfits.mp (by decide)
  exact ⟨_, hread, rfl, htexts, hlength.mpr htexts,
    (hinsert notePage rfl ⟨0, by decide, by decide⟩).mpr htexts⟩

/-- One byte that begins no character is read as a text of three bytes. Its column of one byte
cannot hold this text, the row is stored in no bytes, and an empty page does not take it. -/
theorem not_storable_of_broken_text :
    ∃ row, ofBytes? (noteSchema 1) [0, 0, 0, 1, 0xFF] = some row ∧
      row.values = [.text "\uFFFD"] ∧
      (Value.text "\uFFFD").fits (.text 1) = false ∧
      (noteSchema 1).recordWidth = 5 ∧ row.toBytes = [] ∧
      ∃ page : HeapPage, page.schema = noteSchema 1 ∧ page.isUsed 0 = false ∧ page.slots = 1 ∧
        ∀ after slot, page.insert row ≠ .ok (after, slot) := by
  refine ⟨⟨noteSchema 1, [.text "\uFFFD"], none⟩, by decide, rfl, by decide, by decide, by decide,
    ⟨⟨⟨1⟩, 0⟩, noteSchema 1, Bytes.zeros 6, 1, by decide⟩, rfl, by decide, rfl, ?_⟩
  intro after slot hinsert
  have hrefused : HeapPage.insert ⟨⟨⟨1⟩, 0⟩, noteSchema 1, Bytes.zeros 6, 1, by decide⟩
      ⟨noteSchema 1, [.text "\uFFFD"], none⟩ =
        .error (.rowMismatch (.unfit (.text "\uFFFD") ⟨"note", .text 1⟩)) := by decide
  simp [hrefused] at hinsert

end Row

end RowStore
