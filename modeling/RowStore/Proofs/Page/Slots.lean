import RowStore.Page.HeapPage
import RowStore.Proofs.Bytes

/-!
# The slots of a page

Whether a slot is used is one bit of the header, `isUsed_eq`, and changing this bit changes it for
no other slot and leaves all records alone. A record that is stored is read back from its slot, and
the records of the other slots stay as they were. An insert takes the first slot that is not used.
-/

namespace RowStore

namespace Page

/-- A page has at least one slot. -/
theorem slotsPerPage_pos {pageSize recordWidth slots : Nat}
    (h : slotsPerPage pageSize recordWidth = .ok slots) : 0 < slots := by
  simp only [slotsPerPage] at h
  split at h
  · simp at h
  · split at h
    · simp at h
    · rw [Except.ok.injEq] at h
      omega

/-- The bits of a byte string, one by one. -/
theorem getElem?_bits (bytes : Bytes) (i : Nat) :
    (bits bytes)[i]? = bytes[i / 8]?.map fun byte => byte.toBitVec.getLsbD (i % 8) := by
  induction bytes generalizing i with
  | nil => rfl
  | cons byte rest ih =>
      have hbits : bits (byte :: rest) = bitsOfByte byte ++ bits rest := rfl
      rw [hbits]
      by_cases hfirst : i < 8
      · rw [List.getElem?_append_left (by simpa using hfirst), Nat.div_eq_of_lt hfirst,
          Nat.mod_eq_of_lt hfirst]
        simp [bitsOfByte, hfirst]
      · rw [List.getElem?_append_right (by simpa using hfirst), length_bitsOfByte, ih,
          show i / 8 = (i - 8) / 8 + 1 from by omega, show i % 8 = (i - 8) % 8 from by omega,
          List.getElem?_cons_succ]

/-- A byte with one bit changed has this bit, and its other bits. -/
theorem getLsbD_setBitOfByte (byte : UInt8) {i j : Nat} (value : Bool) (hj : j < 8) :
    (setBitOfByte byte i value).toBitVec.getLsbD j =
      if i = j then value else byte.toBitVec.getLsbD j := by
  unfold setBitOfByte
  by_cases hij : i = j
  · cases value <;> simp [hij, hj]
  · cases value <;> simp [hij, hj, Ne.symm hij]

/-- A byte string with one bit changed, byte by byte. -/
theorem getElem?_setBit (bytes : Bytes) (i : Nat) (value : Bool) (j : Nat) :
    (setBit bytes i value)[j]? = bytes[j]?.map fun byte =>
      if i / 8 = j then setBitOfByte byte (i % 8) value else byte := by
  unfold setBit
  rw [List.getElem?_modify]
  split <;> simp

end Page

namespace HeapPage

variable {page : HeapPage} {slot other : Nat}

/-- A page that is made from bytes has these bytes. -/
theorem ofBytes_eq_ok {id : PageId} {schema : Schema} {bytes : Bytes} {page : HeapPage}
    (h : ofBytes id schema bytes = .ok page) :
    page.id = id ∧ page.schema = schema ∧ page.bytes = bytes := by
  simp only [ofBytes] at h
  split at h
  · simp at h
  · simp only [Except.ok.injEq] at h
    subst h
    exact ⟨rfl, rfl, rfl⟩

/-- The header has a byte for every slot, and lies within the page. -/
theorem div_lt_headerSize (h : slot < page.slots) : slot / 8 < page.headerSize := by
  unfold headerSize Page.headerSize
  omega

theorem headerSize_le (page : HeapPage) : page.headerSize ≤ page.bytes.length := by
  have hpage := Page.headerSize_add_le page.slots_eq
  unfold headerSize
  omega

/-- No record begins before the header ends. -/
theorem headerSize_le_recordOffset (page : HeapPage) (slot : Nat) :
    page.headerSize ≤ page.recordOffset slot :=
  Nat.le_add_right ..

/-- Whether a slot is used is one bit of the header. -/
theorem isUsed_eq (h : slot < page.slots) :
    page.isUsed slot =
      (page.bytes[slot / 8]?.map fun byte => byte.toBitVec.getLsbD (slot % 8)).getD false := by
  unfold isUsed occupancy
  rw [List.getElem?_take_of_lt h, Page.getElem?_bits,
    List.getElem?_take_of_lt (div_lt_headerSize h)]

theorem isUsed_of_le (h : page.slots ≤ slot) : page.isUsed slot = false := by
  unfold isUsed occupancy
  rw [List.getElem?_eq_none (by rw [List.length_take]; omega), Option.getD_none]

/-- A used slot is one of the page's slots. -/
theorem lt_of_isUsed (h : page.isUsed slot = true) : slot < page.slots := by
  apply Decidable.byContradiction
  intro hslots
  rw [isUsed_of_le (Nat.not_lt.mp hslots)] at h
  simp at h

/-- There is one bit for each slot. -/
theorem length_occupancy (page : HeapPage) : page.occupancy.length = page.slots := by
  have hbits : ∀ bytes : Bytes, (Page.bits bytes).length = 8 * bytes.length := by
    intro bytes
    induction bytes with
    | nil => rfl
    | cons byte rest ih =>
        have hbits : Page.bits (byte :: rest) = Page.bitsOfByte byte ++ Page.bits rest := rfl
        rw [hbits, List.length_append, Page.length_bitsOfByte, ih, List.length_cons]
        omega
  have hheader := headerSize_le page
  have hslots : page.slots ≤ 8 * page.headerSize := by
    unfold headerSize Page.headerSize
    omega
  unfold occupancy
  rw [List.length_take, hbits, List.length_take]
  omega

/-- The bits of the slots, one by one. -/
theorem getElem_occupancy (h : slot < page.occupancy.length) :
    page.occupancy[slot] = page.isUsed slot := by
  unfold isUsed
  rw [List.getElem?_eq_getElem h, Option.getD_some]

/-- Marking a slot changes whether this slot is used, and no other. -/
theorem isUsed_mark (hslot : slot < page.slots) (used : Bool) :
    (page.mark slot used).isUsed other = if slot = other then used else page.isUsed other := by
  by_cases hother : other < page.slots
  · have hbyte : slot / 8 < page.bytes.length :=
      Nat.lt_of_lt_of_le (div_lt_headerSize hslot) (headerSize_le page)
    rw [isUsed_eq (show other < (page.mark slot used).slots from hother), isUsed_eq hother]
    show (Option.map _ (Page.setBit page.bytes slot used)[other / 8]?).getD false = _
    rw [Page.getElem?_setBit, Option.map_map]
    by_cases hsame : slot / 8 = other / 8
    · rw [← hsame, List.getElem?_eq_getElem hbyte]
      simp only [Option.map_some, Option.getD_some, Function.comp_apply, if_true,
        Page.getLsbD_setBitOfByte _ _ (Nat.mod_lt other (by omega : 8 > 0))]
      congr 1
      exact propext ⟨fun h => by omega, fun h => by omega⟩
    · rw [if_neg (show slot ≠ other from fun h => hsame (by rw [h]))]
      simp only [Function.comp_def, if_neg hsame]
  · rw [if_neg (show slot ≠ other by omega), isUsed_of_le (Nat.not_lt.mp hother)]
    exact isUsed_of_le (Nat.not_lt.mp hother)

/-- Marking a slot changes no record. -/
theorem recordBytes_mark (hslot : slot < page.slots) (used : Bool) :
    (page.mark slot used).recordBytes other = page.recordBytes other := by
  have hbefore : slot / 8 < page.recordOffset other :=
    Nat.lt_of_lt_of_le (div_lt_headerSize hslot) (headerSize_le_recordOffset page other)
  show Bytes.slice (Page.setBit page.bytes slot used) (page.recordOffset other) _ =
    Bytes.slice page.bytes (page.recordOffset other) _
  unfold Bytes.slice
  congr 1
  apply List.ext_getElem?
  intro i
  rw [List.getElem?_drop, List.getElem?_drop, Page.getElem?_setBit]
  simp [show slot / 8 ≠ page.recordOffset other + i by omega]

/-- Storing a record writes it, and then marks its slot. -/
theorem store_eq {record : Bytes} (hslot : slot < page.slots)
    (hrecord : record.length = page.schema.recordWidth) :
    ∃ written : HeapPage, page.store slot record hslot hrecord = written.mark slot true ∧
      written.slots = page.slots ∧ written.schema = page.schema ∧
      written.bytes = Bytes.overwrite page.bytes (page.recordOffset slot) record :=
  ⟨_, rfl, rfl, rfl, rfl⟩

/-- Records begin at the same places in pages of one schema that have the same slots. -/
theorem recordOffset_congr {after : HeapPage} (hslots : after.slots = page.slots)
    (hschema : after.schema = page.schema) :
    after.recordOffset slot = page.recordOffset slot := by
  unfold recordOffset headerSize
  rw [hslots, hschema]

/-- A stored record makes its slot used, and no other. -/
theorem isUsed_store {record : Bytes} (hslot : slot < page.slots)
    (hrecord : record.length = page.schema.recordWidth) :
    (page.store slot record hslot hrecord).isUsed other =
      if slot = other then true else page.isUsed other := by
  obtain ⟨written, hstore, hslots, hschema, hbytes⟩ := store_eq hslot hrecord
  rw [hstore, isUsed_mark (hslots ▸ hslot)]
  congr 1
  by_cases hother : other < page.slots
  · have hend := recordOffset_add_le hslot
    have hbefore : other / 8 < page.recordOffset slot :=
      Nat.lt_of_lt_of_le (div_lt_headerSize hother) (headerSize_le_recordOffset page slot)
    rw [isUsed_eq (hslots ▸ hother), isUsed_eq hother, hbytes,
      Bytes.getElem?_overwrite_before (by omega) hbefore]
  · rw [isUsed_of_le (Nat.not_lt.mp hother), isUsed_of_le (by omega)]

/-- A record that is stored is read back, and the other records stay as they were. -/
theorem recordBytes_store {record : Bytes} (hslot : slot < page.slots)
    (hrecord : record.length = page.schema.recordWidth) :
    (page.store slot record hslot hrecord).recordBytes other =
      if slot = other then record else page.recordBytes other := by
  obtain ⟨written, hstore, hslots, hschema, hbytes⟩ := store_eq hslot hrecord
  rw [hstore, recordBytes_mark (hslots ▸ hslot)]
  unfold recordBytes
  have hend := recordOffset_add_le hslot
  rw [hbytes, hschema, recordOffset_congr hslots hschema]
  by_cases hsame : slot = other
  · rw [if_pos hsame, ← hsame, ← hrecord]
    exact Bytes.slice_overwrite_self (by omega)
  · rw [if_neg hsame]
    rcases @Bytes.place_disjoint slot other page.schema.recordWidth hsame with hafter | hbefore
    · apply Bytes.slice_overwrite_after (by omega)
      unfold recordOffset
      omega
    · apply Bytes.slice_overwrite_before (by omega)
      unfold recordOffset
      omega

/-- The first free slot is not used, and all slots before it are. -/
theorem firstFree?_eq_some_iff :
    page.firstFree? = some slot ↔
      slot < page.slots ∧ page.isUsed slot = false ∧
        ∀ other, other < slot → page.isUsed other = true := by
  unfold firstFree?
  rw [List.findIdx?_eq_some_iff_getElem]
  constructor
  · rintro ⟨hslot, hfree, hbefore⟩
    rw [getElem_occupancy] at hfree
    refine ⟨length_occupancy page ▸ hslot, by simpa using hfree, ?_⟩
    intro other hother
    have hused := hbefore other hother
    rw [getElem_occupancy] at hused
    simpa using hused
  · rintro ⟨hslot, hfree, hbefore⟩
    have hlength : slot < page.occupancy.length := (length_occupancy page).symm ▸ hslot
    refine ⟨hlength, ?_, ?_⟩
    · rw [getElem_occupancy, hfree]
      rfl
    · intro other hother
      rw [getElem_occupancy, hbefore other hother]
      simp

/-- There is a first free slot unless all slots are used. -/
theorem firstFree?_eq_none_iff :
    page.firstFree? = none ↔ ∀ slot, slot < page.slots → page.isUsed slot = true := by
  unfold firstFree?
  rw [List.findIdx?_eq_none_iff]
  constructor
  · intro h slot hslot
    have hlength : slot < page.occupancy.length := (length_occupancy page).symm ▸ hslot
    have hused := h page.occupancy[slot] (List.getElem_mem hlength)
    rw [getElem_occupancy] at hused
    simpa using hused
  · intro h used hused
    obtain ⟨slot, hslot, rfl⟩ := List.getElem_of_mem hused
    rw [getElem_occupancy, h slot (length_occupancy page ▸ hslot)]
    rfl

/-- Free slots are counted, so their number tells whether there is one. -/
theorem freeCount_eq_zero_iff :
    page.freeCount = 0 ↔ ∀ slot, slot < page.slots → page.isUsed slot = true := by
  unfold freeCount
  rw [List.count_eq_zero]
  constructor
  · intro h slot hslot
    have hlength : slot < page.occupancy.length := (length_occupancy page).symm ▸ hslot
    rw [← getElem_occupancy hlength, ← Bool.not_eq_false]
    intro hfree
    exact h (hfree ▸ List.getElem_mem hlength)
  · intro h hfree
    obtain ⟨slot, hslot, hused⟩ := List.getElem_of_mem hfree
    rw [getElem_occupancy, h slot (length_occupancy page ▸ hslot)] at hused
    simp at hused

/-- The used slots are listed in increasing order. -/
theorem usedSlots_eq_filter (page : HeapPage) :
    page.usedSlots = (List.range page.slots).filter page.isUsed := by
  unfold usedSlots
  have hzip : (List.range page.slots).zip page.occupancy =
      (List.range page.slots).map fun slot => (slot, page.isUsed slot) := by
    apply List.ext_getElem
    · simp [length_occupancy]
    · intro slot hleft hright
      simp only [List.length_map, List.length_range] at hright
      simp only [List.getElem_zip, List.getElem_range, List.getElem_map]
      rw [getElem_occupancy]
  rw [hzip, List.filterMap_map, ← List.filterMap_eq_filter]
  congr 1

/-- What an insert does: it refuses a row of another schema, a full page refuses every row, and a
row with a fault is refused. Every other row is stored in the first free slot. -/
theorem insert_cases (page : HeapPage) (row : Row) :
    (row.schema ≠ page.schema ∧
        page.insert row = .error (.rowMismatch (.pageSchema row.schema page.schema))) ∨
      row.schema = page.schema ∧
        ((page.firstFree? = none ∧ page.insert row = .error (.pageFull page.id)) ∨
          ∃ slot, page.firstFree? = some slot ∧
            ((∃ fault, Row.fault? row.schema row.values = some fault ∧
                page.insert row = .error (.rowMismatch fault)) ∨
              Row.fault? row.schema row.values = none ∧
                ∃ hslot hrecord,
                  page.insert row = .ok (page.store slot row.toBytes hslot hrecord, slot))) := by
  unfold insert
  split
  · rename_i hschema
    exact .inl ⟨hschema, rfl⟩
  · rename_i hschema
    refine .inr ⟨Decidable.not_not.mp hschema, ?_⟩
    split
    · rename_i hfull
      exact .inl ⟨hfull, rfl⟩
    · rename_i slot hfree
      refine .inr ⟨slot, hfree, ?_⟩
      split
      · rename_i fault hfault
        exact .inl ⟨fault, hfault, rfl⟩
      · rename_i hfault
        have hrecord : row.toBytes.length = page.schema.recordWidth := by
          rw [Row.length_toBytes hfault, Decidable.not_not.mp hschema]
        exact .inr ⟨hfault, firstFree?_lt hfree, hrecord, rfl⟩

/-- A row that was inserted is stored in the first free slot. -/
theorem store_of_insert {after : HeapPage} {row : Row}
    (h : page.insert row = .ok (after, slot)) :
    row.schema = page.schema ∧ page.firstFree? = some slot ∧
      Row.fault? row.schema row.values = none ∧
      ∃ hslot hrecord, after = page.store slot row.toBytes hslot hrecord := by
  rcases page.insert_cases row with ⟨_, hinsert⟩ | ⟨hschema, ⟨_, hinsert⟩ | ⟨free, hfree, hslot⟩⟩
  · simp [hinsert] at h
  · simp [hinsert] at h
  · rcases hslot with ⟨_, _, hinsert⟩ | ⟨hfault, hslot, hrecord, hinsert⟩
    · simp [hinsert] at h
    · rw [hinsert, Except.ok.injEq, Prod.mk.injEq] at h
      obtain ⟨rfl, rfl⟩ := h
      exact ⟨hschema, hfree, hfault, hslot, hrecord, rfl⟩

/-- A page that refuses a row because it is full has no free slot. -/
theorem freeCount_of_full {row : Row} {id : PageId}
    (h : page.insert row = .error (.pageFull id)) : page.freeCount = 0 := by
  rw [freeCount_eq_zero_iff, ← firstFree?_eq_none_iff]
  rcases page.insert_cases row with ⟨_, hinsert⟩ | ⟨_, ⟨hnone, _⟩ | ⟨slot, _, hslot⟩⟩
  · simp [hinsert] at h
  · exact hnone
  · rcases hslot with ⟨_, _, hinsert⟩ | ⟨_, _, _, hinsert⟩ <;> simp [hinsert] at h

/-- A record that is stored leaves the page as long as it was. -/
theorem length_store {record : Bytes} (hslot : slot < page.slots)
    (hrecord : record.length = page.schema.recordWidth) :
    (page.store slot record hslot hrecord).bytes.length = page.bytes.length := by
  have hend := recordOffset_add_le hslot
  obtain ⟨written, hstore, _, _, hbytes⟩ := store_eq hslot hrecord
  rw [hstore]
  show (Page.setBit written.bytes slot true).length = _
  rw [Page.length_setBit, hbytes, Bytes.length_overwrite (by omega)]

/-- What deleting a slot does: only a used slot is cleared. -/
theorem deleteSlot_cases (page : HeapPage) (slot : Nat) :
    (page.slots ≤ slot ∧ page.deleteSlot slot = .error (.invalidSlot slot)) ∨
      (slot < page.slots ∧ page.isUsed slot = false ∧
        page.deleteSlot slot = .error (.emptySlot slot)) ∨
      page.isUsed slot = true ∧ page.deleteSlot slot = .ok (page.mark slot false) := by
  unfold deleteSlot
  split
  · rename_i hslot
    exact .inl ⟨hslot, rfl⟩
  · rename_i hslot
    cases hused : page.isUsed slot with
    | false => exact .inr (.inl ⟨Nat.not_le.mp hslot, rfl, by simp⟩)
    | true => exact .inr (.inr ⟨rfl, by simp⟩)

/-- What deleting a row does: it deletes the slot of a row that has its place on the page. -/
theorem delete_cases (page : HeapPage) (row : Row) :
    (row.place = none ∧ page.delete row = .error .missingPlace) ∨
      ∃ place, row.place = some place ∧
        ((place.page ≠ page.id ∧ page.delete row = .error (.foreignRecord place)) ∨
          place.page = page.id ∧ page.delete row = page.deleteSlot place.slot) := by
  unfold delete
  split
  · rename_i hplace
    exact .inl ⟨hplace, rfl⟩
  · rename_i place hplace
    refine .inr ⟨place, hplace, ?_⟩
    split
    · rename_i hpage
      exact .inl ⟨hpage, rfl⟩
    · rename_i hpage
      exact .inr ⟨Decidable.not_not.mp hpage, rfl⟩

/-- A row that was deleted had its place in a used slot of the page. -/
theorem mark_of_delete {after : HeapPage} {row : Row} (h : page.delete row = .ok after) :
    ∃ place, row.place = some place ∧ place.page = page.id ∧ page.isUsed place.slot = true ∧
      after = page.mark place.slot false := by
  rcases page.delete_cases row with ⟨_, hdelete⟩ | ⟨place, hplace, ⟨_, hdelete⟩ | ⟨hpage, hdelete⟩⟩
  · simp [hdelete] at h
  · simp [hdelete] at h
  · rw [hdelete] at h
    rcases page.deleteSlot_cases place.slot with ⟨_, hslot⟩ | ⟨_, _, hslot⟩ | ⟨hused, hslot⟩
    · simp [hslot] at h
    · simp [hslot] at h
    · rw [hslot, Except.ok.injEq] at h
      exact ⟨place, hplace, hpage, hused, h.symm⟩

end HeapPage

end RowStore
