import RowStore.Error
import RowStore.Page.Geometry
import RowStore.Page.Bitmap

/-!
# Heap pages

A heap page stores records of one schema in numbered slots. Its bytes are a bitmap that tells
which slots are used, the records, and an unused tail. A row goes to the free slot with the
lowest number, and deleting it clears the bit of its slot and leaves the record bytes in place.
An operation that fails gives back no page, so it changes none.
-/

namespace RowStore

/-- A page of records: its name, the schema of its records, and its bytes, which give the number
of its slots. -/
structure HeapPage where
  id : PageId
  schema : Schema
  bytes : Bytes
  slots : Nat
  slots_eq : Page.slotsPerPage bytes.length schema.recordWidth = .ok slots
deriving DecidableEq

namespace HeapPage

/-- The page with these bytes, if a page of their length can hold records of the schema. -/
def ofBytes (id : PageId) (schema : Schema) (bytes : Bytes) : Except Error HeapPage :=
  match h : Page.slotsPerPage bytes.length schema.recordWidth with
  | .error fault => .error (.invalidSchema fault)
  | .ok slots => .ok ⟨id, schema, bytes, slots, h⟩

/-- The number of bytes of the bitmap. -/
def headerSize (page : HeapPage) : Nat :=
  Page.headerSize page.slots

/-- For each slot, in order, whether it is used. -/
def occupancy (page : HeapPage) : List Bool :=
  (Page.bits (page.bytes.take page.headerSize)).take page.slots

/-- Whether the slot is used. -/
def isUsed (page : HeapPage) (slot : Nat) : Bool :=
  page.occupancy[slot]?.getD false

/-- The number of free slots. -/
def freeCount (page : HeapPage) : Nat :=
  page.occupancy.count false

/-- The number of stored records. -/
def rowCount (page : HeapPage) : Nat :=
  page.occupancy.count true

/-- The free slot with the lowest number. -/
def firstFree? (page : HeapPage) : Option Nat :=
  page.occupancy.findIdx? fun used => !used

/-- The used slots, in increasing order. -/
def usedSlots (page : HeapPage) : List Nat :=
  (List.range page.slots).zip page.occupancy |>.filterMap fun pair =>
    if pair.2 then some pair.1 else none

/-- Where the record of a slot begins. -/
def recordOffset (page : HeapPage) (slot : Nat) : Nat :=
  page.headerSize + slot * page.schema.recordWidth

/-- The bytes of the record in a slot. -/
def recordBytes (page : HeapPage) (slot : Nat) : Bytes :=
  Bytes.slice page.bytes (page.recordOffset slot) page.schema.recordWidth

/-- The page with other bytes of the same length. -/
def withBytes (page : HeapPage) (bytes : Bytes) (h : bytes.length = page.bytes.length) :
    HeapPage :=
  { page with bytes, slots_eq := h ▸ page.slots_eq }

/-- The page with the bit of one slot changed. -/
def mark (page : HeapPage) (slot : Nat) (used : Bool) : HeapPage :=
  page.withBytes (Page.setBit page.bytes slot used) (Page.length_setBit ..)

/-- A free slot is one of the page's slots. -/
theorem firstFree?_lt {page : HeapPage} {slot : Nat} (h : page.firstFree? = some slot) :
    slot < page.slots := by
  obtain ⟨hlt, -⟩ := List.findIdx?_eq_some_iff_getElem.mp h
  simp only [occupancy, List.length_take] at hlt
  omega

/-- The record of a slot lies within the page. -/
theorem recordOffset_add_le {page : HeapPage} {slot : Nat} (h : slot < page.slots) :
    page.recordOffset slot + page.schema.recordWidth ≤ page.bytes.length := by
  have hpage := Page.headerSize_add_le page.slots_eq
  have hslots := Nat.mul_le_mul_right page.schema.recordWidth (Nat.succ_le_of_lt h)
  rw [Nat.succ_mul] at hslots
  simp only [recordOffset, headerSize]
  omega

/-- The page with a record written into one of its slots, which is then used. -/
def store (page : HeapPage) (slot : Nat) (record : Bytes) (hslot : slot < page.slots)
    (hrecord : record.length = page.schema.recordWidth) : HeapPage :=
  let written := page.withBytes (Bytes.overwrite page.bytes (page.recordOffset slot) record)
    (Bytes.length_overwrite (by rw [hrecord]; exact recordOffset_add_le hslot))
  written.mark slot true

/-- The page with the row in its lowest free slot, and that slot. -/
def insert (page : HeapPage) (row : Row) : Except Error (HeapPage × Nat) :=
  if hschema : row.schema ≠ page.schema then
    .error (.rowMismatch (.pageSchema row.schema page.schema))
  else
    match hfree : page.firstFree? with
    | none => .error (.pageFull page.id)
    | some slot =>
        match hfault : Row.fault? row.schema row.values with
        | some fault => .error (.rowMismatch fault)
        | none =>
            have hrecord : row.toBytes.length = page.schema.recordWidth := by
              rw [Row.length_toBytes hfault, Decidable.not_not.mp hschema]
            .ok (page.store slot row.toBytes (firstFree?_lt hfree) hrecord, slot)

/-- The page without the record of a slot. -/
def deleteSlot (page : HeapPage) (slot : Nat) : Except Error HeapPage :=
  if page.slots ≤ slot then .error (.invalidSlot slot)
  else if !page.isUsed slot then .error (.emptySlot slot)
  else .ok (page.mark slot false)

/-- The page without the record that the row is stored as. -/
def delete (page : HeapPage) (row : Row) : Except Error HeapPage :=
  match row.place with
  | none => .error .missingPlace
  | some place =>
      if place.page ≠ page.id then .error (.foreignRecord place)
      else page.deleteSlot place.slot

/-- The row in a slot. -/
def row (page : HeapPage) (slot : Nat) : Except Error Row :=
  if page.slots ≤ slot then .error (.invalidSlot slot)
  else if !page.isUsed slot then .error (.emptySlot slot)
  else
    match Row.ofBytes? page.schema (page.recordBytes slot) with
    | none => .error (.corruptRecord ⟨page.id, slot⟩)
    | some row => .ok { row with place := some ⟨page.id, slot⟩ }

/-- What each used slot holds, in increasing order of the slots. -/
def entries (page : HeapPage) : List (Except Error Row) :=
  page.usedSlots.map page.row

/-- The rows of the page in increasing order of their slots, or the first that cannot be read. -/
def rows (page : HeapPage) : Except Error (List Row) :=
  page.usedSlots.mapM page.row

/-- The page with other contents. -/
def restore (page : HeapPage) (bytes : Bytes) : Except Error HeapPage :=
  if h : bytes.length = page.bytes.length then .ok (page.withBytes bytes h)
  else .error (.pageSizeMismatch page.bytes.length bytes.length)

end HeapPage

end RowStore
