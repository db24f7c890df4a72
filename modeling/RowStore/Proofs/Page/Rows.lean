import RowStore.Proofs.Page.Slots
import RowStore.Proofs.Record.Codec

/-!
# The rows of a page

A page is a map from slots to rows, `valuesAt`. A page is readable if every used slot holds a row.
Inserting a row into a readable page adds it under the first slot that has none, deleting one
removes it, and neither changes another row or makes the page unreadable. `rows` then lists all
rows by their slots.
-/

namespace RowStore

/-- A row that is read from a record has the schema that it is read under. -/
theorem Row.schema_of_ofBytes? {schema : Schema} {bytes : Bytes} {row : Row}
    (h : Row.ofBytes? schema bytes = some row) : row = ⟨schema, row.values, none⟩ := by
  unfold ofBytes? at h
  split at h
  · simp at h
  · rw [Option.map_eq_some_iff] at h
    obtain ⟨values, _, rfl⟩ := h
    rfl

namespace HeapPage

variable {page after : HeapPage} {slot other : Nat}

/-- The values of the row in a slot, if there is one. -/
def valuesAt (page : HeapPage) (slot : Nat) : Option (List Value) :=
  match page.row slot with
  | .error _ => none
  | .ok row => some row.values

/-- Every used slot holds a row. -/
def Readable (page : HeapPage) : Prop :=
  ∀ slot, page.isUsed slot = true → (page.valuesAt slot).isSome = true

/-- The row in a slot is read from its record. -/
theorem row_of_isUsed (h : page.isUsed slot = true) :
    page.row slot =
      match Row.ofBytes? page.schema (page.recordBytes slot) with
      | none => .error (.corruptRecord ⟨page.id, slot⟩)
      | some row => .ok { row with place := some ⟨page.id, slot⟩ } := by
  unfold row
  rw [if_neg (Nat.not_le.mpr (lt_of_isUsed h)), h]
  cases Row.ofBytes? page.schema (page.recordBytes slot) <;> simp

/-- The values in a slot are read from its record. -/
theorem valuesAt_of_isUsed (h : page.isUsed slot = true) :
    page.valuesAt slot =
      (Row.ofBytes? page.schema (page.recordBytes slot)).map Row.values := by
  unfold valuesAt
  rw [row_of_isUsed h]
  cases Row.ofBytes? page.schema (page.recordBytes slot) <;> rfl

/-- A slot that is not used has no values. -/
theorem valuesAt_of_free (h : page.isUsed slot = false) : page.valuesAt slot = none := by
  unfold valuesAt row
  rw [h]
  by_cases hslot : page.slots ≤ slot
  · rw [if_pos hslot]
  · rw [if_neg hslot]
    simp

/-- A slot that has values is used, and this row is read from it. -/
theorem row_of_valuesAt {values : List Value} (h : page.valuesAt slot = some values) :
    page.isUsed slot = true ∧
      page.row slot = .ok ⟨page.schema, values, some ⟨page.id, slot⟩⟩ := by
  have hused : page.isUsed slot = true := by
    cases hused : page.isUsed slot with
    | true => rfl
    | false => simp [valuesAt_of_free hused] at h
  refine ⟨hused, ?_⟩
  rw [valuesAt_of_isUsed hused, Option.map_eq_some_iff] at h
  obtain ⟨row, hrow, rfl⟩ := h
  rw [row_of_isUsed hused, hrow, Row.schema_of_ofBytes? hrow]

/-- Slots that are used and hold the same records in two pages have the same values. -/
theorem valuesAt_congr (hused : after.isUsed slot = page.isUsed slot)
    (hschema : after.schema = page.schema)
    (hrecord : after.recordBytes slot = page.recordBytes slot) :
    after.valuesAt slot = page.valuesAt slot := by
  cases h : page.isUsed slot with
  | false => rw [valuesAt_of_free h, valuesAt_of_free (hused.trans h)]
  | true =>
      rw [valuesAt_of_isUsed h, valuesAt_of_isUsed (hused.trans h), hschema, hrecord]

/-- A page stays readable if its used slots have values. -/
theorem Readable.of_valuesAt (hreadable : page.Readable)
    (h : ∀ slot, after.isUsed slot = true →
      (after.valuesAt slot).isSome = true ∨
        page.isUsed slot = true ∧ after.valuesAt slot = page.valuesAt slot) :
    after.Readable := by
  intro slot hused
  rcases h slot hused with hsome | ⟨hbefore, hsame⟩
  · exact hsome
  · rw [hsame]
    exact hreadable slot hbefore

/-- What inserting a row into a readable page does. -/
theorem Readable.insert (hreadable : page.Readable) {row : Row}
    (h : page.insert row = .ok (after, slot)) :
    row.schema = page.schema ∧ page.firstFree? = some slot ∧ after.Readable ∧
      ∀ other, after.valuesAt other =
        if slot = other then some row.values else page.valuesAt other := by
  obtain ⟨hschema, hfree, hfault, hslot, hrecord, rfl⟩ := store_of_insert h
  have hvalues : ∀ other,
      (page.store slot row.toBytes hslot hrecord).valuesAt other =
        if slot = other then some row.values else page.valuesAt other := by
    intro other
    split
    · rename_i hsame
      subst hsame
      rw [valuesAt_of_isUsed (by rw [isUsed_store, if_pos rfl]), recordBytes_store, if_pos rfl]
      show (Row.ofBytes? page.schema row.toBytes).map Row.values = some row.values
      rw [← hschema, Row.ofBytes?_toBytes hfault, Option.map_some]
    · rename_i hother
      apply valuesAt_congr
      · rw [isUsed_store, if_neg hother]
      · rfl
      · rw [recordBytes_store, if_neg hother]
  refine ⟨hschema, hfree, hreadable.of_valuesAt ?_, hvalues⟩
  intro other hused
  rw [hvalues]
  split
  · exact .inl rfl
  · rename_i hother
    rw [isUsed_store, if_neg hother] at hused
    exact .inr ⟨hused, rfl⟩

/-- A row that the page has a slot for is stored if it has no fault. -/
theorem insert_of_free {row : Row} (hschema : row.schema = page.schema)
    (hfree : page.firstFree? ≠ none) :
    (Row.fault? row.schema row.values = none ∧ ∃ after slot, page.insert row = .ok (after, slot)) ∨
      ∃ fault, Row.fault? row.schema row.values = some fault ∧
        page.insert row = .error (.rowMismatch fault) := by
  rcases page.insert_cases row with ⟨hother, _⟩ | ⟨_, ⟨hfull, _⟩ | ⟨slot, _, hslot⟩⟩
  · exact absurd hschema hother
  · exact absurd hfull hfree
  · rcases hslot with ⟨fault, hfault, hinsert⟩ | ⟨hfault, _, _, hinsert⟩
    · exact .inr ⟨fault, hfault, hinsert⟩
    · exact .inl ⟨hfault, _, _, hinsert⟩

/-- What deleting a row from a readable page does. -/
theorem Readable.delete (hreadable : page.Readable) {row : Row}
    (h : page.delete row = .ok after) :
    ∃ place, row.place = some place ∧ place.page = page.id ∧ page.isUsed place.slot = true ∧
      after.Readable ∧
      ∀ other, after.valuesAt other = if place.slot = other then none else page.valuesAt other := by
  obtain ⟨place, hplace, hpage, hused, rfl⟩ := mark_of_delete h
  have hslot := lt_of_isUsed hused
  have hvalues : ∀ other, (page.mark place.slot false).valuesAt other =
      if place.slot = other then none else page.valuesAt other := by
    intro other
    split
    · rename_i hsame
      subst hsame
      exact valuesAt_of_free (by rw [isUsed_mark hslot, if_pos rfl])
    · rename_i hother
      exact valuesAt_congr (by rw [isUsed_mark hslot, if_neg hother]) rfl
        (recordBytes_mark hslot false)
  refine ⟨place, hplace, hpage, hused, hreadable.of_valuesAt ?_, hvalues⟩
  intro other hused
  rw [isUsed_mark hslot] at hused
  split at hused
  · simp at hused
  · rename_i hother
    exact .inr ⟨hused, by rw [hvalues, if_neg hother]⟩

/-- A row of the page cannot be deleted only if its slot is not used, or is none of the page. -/
theorem isUsed_of_delete_error {row : Row} {error : Error} {place : RecordId}
    (h : page.delete row = .error error) (hplace : row.place = some place)
    (hpage : place.page = page.id) :
    page.isUsed place.slot = false ∧
      error = if page.slots ≤ place.slot then .invalidSlot place.slot else .emptySlot place.slot := by
  rcases page.delete_cases row with ⟨hnone, _⟩ | ⟨found, hfound, ⟨hother, _⟩ | ⟨_, hdelete⟩⟩
  · simp [hplace] at hnone
  · obtain rfl : place = found := by simpa [hplace] using hfound
    exact absurd hpage hother
  · obtain rfl : place = found := by simpa [hplace] using hfound
    rw [hdelete] at h
    rcases page.deleteSlot_cases place.slot with
      ⟨hslot, herror⟩ | ⟨hslot, hfree, herror⟩ | ⟨_, hmark⟩
    · rw [herror, Except.error.injEq] at h
      exact ⟨isUsed_of_le hslot, by rw [if_pos hslot, h]⟩
    · rw [herror, Except.error.injEq] at h
      exact ⟨hfree, by rw [if_neg (Nat.not_le.mpr hslot), h]⟩
    · simp [hmark] at h

/-- The rows of the page with their places, in increasing order of the slots. -/
def listed (page : HeapPage) : List (RecordId × List Value) :=
  page.usedSlots.filterMap fun slot =>
    (page.valuesAt slot).map fun values => (⟨page.id, slot⟩, values)

/-- Exactly the rows of the page are listed. -/
theorem mem_listed {place : RecordId} {values : List Value} :
    (place, values) ∈ page.listed ↔
      place.page = page.id ∧ page.valuesAt place.slot = some values := by
  unfold listed
  rw [List.mem_filterMap]
  constructor
  · rintro ⟨slot, _, hentry⟩
    rw [Option.map_eq_some_iff] at hentry
    obtain ⟨found, hfound, hentry⟩ := hentry
    simp only [Prod.mk.injEq] at hentry
    obtain ⟨rfl, rfl⟩ := hentry
    exact ⟨rfl, hfound⟩
  · rintro ⟨hpage, hvalues⟩
    have hused := (row_of_valuesAt hvalues).1
    refine ⟨place.slot, ?_, ?_⟩
    · rw [usedSlots_eq_filter, List.mem_filter, List.mem_range]
      exact ⟨lt_of_isUsed hused, hused⟩
    · rw [hvalues, Option.map_some, ← hpage]

/-- The rows are listed in increasing order of their slots. -/
theorem pairwise_listed (page : HeapPage) :
    page.listed.Pairwise fun a b => a.1.slot < b.1.slot := by
  unfold listed
  rw [List.pairwise_filterMap, usedSlots_eq_filter]
  apply List.Pairwise.filter
  refine List.pairwise_lt_range.imp fun {a b} hlt first hfirst second hsecond => ?_
  rw [Option.map_eq_some_iff] at hfirst hsecond
  obtain ⟨_, _, rfl⟩ := hfirst
  obtain ⟨_, _, rfl⟩ := hsecond
  exact hlt

/-- What is made of the elements of a list, or of those before the first of which nothing can be
made. -/
theorem mapM_cases {α β ε : Type} (make : α → Except ε β) (list : List α) :
    (∃ made : List β, list.mapM make = .ok made ∧ list.map make = made.map .ok) ∨
      ∃ (made : List β) (error : ε) (rest : List (Except ε β)), list.mapM make = .error error ∧
        list.map make = made.map .ok ++ .error error :: rest := by
  induction list with
  | nil => exact .inl ⟨[], rfl, rfl⟩
  | cons first list ih =>
      rw [List.mapM_cons, List.map_cons]
      cases hfirst : make first with
      | error error => exact .inr ⟨[], error, list.map make, rfl, rfl⟩
      | ok found =>
          rcases ih with ⟨made, hmade, hlist⟩ | ⟨made, error, rest, herror, hlist⟩
          · rw [hmade, hlist]
            exact .inl ⟨found :: made, rfl, rfl⟩
          · rw [herror, hlist]
            exact .inr ⟨found :: made, error, rest, rfl, rfl⟩

/-- The rows of a page are what its used slots hold, unless one of them holds none: then there is
only the error of the first of these. -/
theorem rows_cases (page : HeapPage) :
    (∃ rows : List Row, page.rows = .ok rows ∧ page.entries = rows.map .ok) ∨
      ∃ (rows : List Row) (error : Error) (rest : List (Except Error Row)),
        page.rows = .error error ∧ page.entries = rows.map .ok ++ .error error :: rest :=
  mapM_cases page.row page.usedSlots

/-- The rows of a readable page are those that are listed. -/
theorem Readable.rows (hreadable : page.Readable) :
    page.rows = .ok (page.listed.map fun entry => ⟨page.schema, entry.2, some entry.1⟩) := by
  unfold HeapPage.rows listed
  have hused : ∀ slot ∈ page.usedSlots, page.isUsed slot = true := by
    intro slot hslot
    rw [usedSlots_eq_filter, List.mem_filter] at hslot
    exact hslot.2
  -- The slots are read one after the other, so the induction is on their list.
  generalize page.usedSlots = slots at hused
  induction slots with
  | nil => rfl
  | cons slot rest ih =>
      obtain ⟨values, hvalues⟩ := Option.isSome_iff_exists.mp
        (hreadable slot (hused slot (List.mem_cons_self ..)))
      have hrest := ih fun other hother => hused other (List.mem_cons_of_mem _ hother)
      rw [List.mapM_cons, hrest, (row_of_valuesAt hvalues).2]
      simp only [List.filterMap_cons, hvalues, Option.map_some, List.map_cons]
      rfl

/-- The bytes of a page make the same page under any name. -/
theorem ofBytes_bytes (page : HeapPage) (id : PageId) :
    ofBytes id page.schema page.bytes = .ok { page with id } := by
  unfold ofBytes
  split
  · rename_i fault hfault
    rw [page.slots_eq] at hfault
    simp at hfault
  · rename_i slots hslots
    have hsame : page.slots = slots := by
      rw [page.slots_eq, Except.ok.injEq] at hslots
      exact hslots
    subst hsame
    rfl

end HeapPage

/-- The values that a byte string holds at a place if it is read as a page of the schema. -/
def valuesIn (schema : Schema) (bytes : Bytes) (place : RecordId) : Option (List Value) :=
  match HeapPage.ofBytes place.page schema bytes with
  | .error _ => none
  | .ok page => page.valuesAt place.slot

/-- The byte string, if it is a page of the schema, is a readable one. -/
def ReadableIn (schema : Schema) (bytes : Bytes) : Prop :=
  ∀ (id : PageId) (page : HeapPage), HeapPage.ofBytes id schema bytes = .ok page → page.Readable

namespace HeapPage

variable (page : HeapPage)

/-- The name of a page does not matter for what it holds. -/
theorem valuesAt_rename (id : PageId) (slot : Nat) :
    ({ page with id } : HeapPage).valuesAt slot = page.valuesAt slot :=
  valuesAt_congr rfl rfl rfl

theorem valuesIn_bytes (place : RecordId) :
    valuesIn page.schema page.bytes place = page.valuesAt place.slot := by
  unfold valuesIn
  rw [ofBytes_bytes]
  exact valuesAt_rename page place.page place.slot

theorem readableIn_bytes : ReadableIn page.schema page.bytes ↔ page.Readable := by
  constructor
  · intro h slot hused
    rw [← valuesAt_rename page page.id slot]
    exact h page.id _ (ofBytes_bytes page page.id) slot hused
  · intro h id found hfound slot hused
    rw [ofBytes_bytes, Except.ok.injEq] at hfound
    subst hfound
    rw [valuesAt_rename]
    exact h slot hused

end HeapPage

/-- No slot of an empty page is used. -/
theorem isUsed_of_zeros {page : HeapPage} {count : Nat} (h : page.bytes = Bytes.zeros count)
    (slot : Nat) : page.isUsed slot = false := by
  by_cases hslot : slot < page.slots
  · rw [HeapPage.isUsed_eq hslot, h]
    unfold Bytes.zeros
    rw [List.getElem?_replicate]
    split <;> simp
  · exact HeapPage.isUsed_of_le (Nat.not_lt.mp hslot)

/-- An empty page holds nothing. -/
theorem valuesIn_zeros (schema : Schema) (count : Nat) (place : RecordId) :
    valuesIn schema (Bytes.zeros count) place = none := by
  unfold valuesIn
  split
  · rfl
  · rename_i page hpage
    exact HeapPage.valuesAt_of_free (isUsed_of_zeros (HeapPage.ofBytes_eq_ok hpage).2.2 _)

/-- An empty page has a free slot. -/
theorem HeapPage.freeCount_pos_of_zeros {page : HeapPage} {count : Nat}
    (hempty : page.bytes = Bytes.zeros count) : 0 < page.freeCount := by
  refine Nat.pos_of_ne_zero fun hzero => ?_
  have hused := freeCount_eq_zero_iff.mp hzero 0 (Page.slotsPerPage_pos page.slots_eq)
  simp [isUsed_of_zeros hempty] at hused

theorem readableIn_zeros (schema : Schema) (count : Nat) :
    ReadableIn schema (Bytes.zeros count) := by
  intro id page hpage slot hused
  rw [isUsed_of_zeros (HeapPage.ofBytes_eq_ok hpage).2.2] at hused
  simp at hused

end RowStore
