import Mathlib.Data.Bool.Count
import RowStore.Database.Operation
import RowStore.Proofs.Page.Rows

/-!
# A page is a map from slots to records

`SlotMap` is a partial map from slots to the bytes of records, and `SlotMap.Step` says what each
call that changes a page does to this map and what it answers. The main statement,
`HeapPage.slot_map`, says that a page that is made from any bytes goes through any calls as the map
that the bytes write does. It reads as its map says, a call that fails leaves the page and the row
of the caller as they were, and a call that succeeds changes the bit of one slot and, if it stores
a row, the record in this slot.
-/

namespace RowStore

/-- A partial map from the slots of a page to the bytes of records. -/
structure SlotMap where
  slots : Nat
  record? : Nat → Option Bytes

namespace SlotMap

/-- The map that a byte string writes. The bits at its front tell which slots are used, and the
records of one width follow them. -/
def ofBytes (slots width : Nat) (bytes : Bytes) : SlotMap where
  slots
  record? slot :=
    if slot < slots ∧ (Page.bits bytes)[slot]? = some true then
      some (Bytes.slice bytes (Page.headerSize slots + slot * width) width)
    else none

/-- The map with another record, or none, in one slot. -/
def set (map : SlotMap) (slot : Nat) (record : Option Bytes) : SlotMap :=
  { map with record? := fun other => if slot = other then record else map.record? other }

/-- A map that differs from another one in one slot only. -/
theorem eq_set {map after : SlotMap} {slot : Nat} {record : Option Bytes}
    (hslots : after.slots = map.slots)
    (hrecords : ∀ other, after.record? other = if slot = other then record else map.record? other) :
    after = map.set slot record := by
  obtain ⟨slots, records⟩ := after
  obtain rfl : records = _ := funext hrecords
  obtain rfl : slots = _ := hslots
  rfl

/-- The slot is the lowest one without a record. -/
def FirstFree (map : SlotMap) (slot : Nat) : Prop :=
  slot < map.slots ∧ map.record? slot = none ∧ ∀ other, other < slot → map.record? other ≠ none

/-- Every slot has a record. -/
def Full (map : SlotMap) : Prop :=
  ∀ slot, slot < map.slots → map.record? slot ≠ none

/-- The slots that have a record, in increasing order. -/
def used (map : SlotMap) : List Nat :=
  (List.range map.slots).filter fun slot => (map.record? slot).isSome

/-- The row in a slot, which is read from its record. -/
def row (map : SlotMap) (id : PageId) (schema : Schema) (slot : Nat) : Except Error Row :=
  match map.record? slot with
  | none => .error (if map.slots ≤ slot then .invalidSlot slot else .emptySlot slot)
  | some record =>
      match Row.ofBytes? schema record with
      | none => .error (.corruptRecord ⟨id, slot⟩)
      | some row => .ok { row with place := some ⟨id, slot⟩ }

end SlotMap

namespace HeapPage

/-- A call that changes a page. -/
inductive Call where
  | insert (row : Row)
  | deleteSlot (slot : Nat)
  | delete (row : Row)
  | restore (bytes : Bytes)

/-- The row that a call is made with. -/
def Call.row? : Call → Option Row
  | insert row | delete row => some row
  | deleteSlot _ | restore _ => none

/-- A row that is to be stored has no fault under its own schema. -/
def Call.Fits (call : Call) : Prop :=
  ∀ row, call = .insert row → Row.fault? row.schema row.values = none

/-- What a caller gets: the slot that a row was stored in, or an error, and the row of the call as
the caller has it from then on. -/
structure Reply where
  answer : Except Error (Option Nat)
  row : Option Row
deriving DecidableEq

/-- The page with the row in its lowest free slot, and the row, which then knows its place. -/
def insertRow (page : HeapPage) (row : Row) : Except Error (HeapPage × Row) :=
  (page.insert row).map fun (page, slot) => (page, { row with place := some ⟨page.id, slot⟩ })

/-- What a call that stores nothing leaves. -/
def settle (page : HeapPage) (row : Option Row) (changed : Except Error HeapPage) :
    HeapPage × Reply :=
  match changed with
  | .error error => (page, ⟨.error error, row⟩)
  | .ok after => (after, ⟨.ok none, row⟩)

/-- Make a call. -/
def perform (page : HeapPage) : Call → HeapPage × Reply
  | .insert row =>
      match page.insertRow row with
      | .error error => (page, ⟨.error error, some row⟩)
      | .ok (after, stored) => (after, ⟨.ok (stored.place.map RecordId.slot), some stored⟩)
  | .deleteSlot slot => page.settle none (page.deleteSlot slot)
  | .delete row => page.settle (some row) (page.delete row)
  | .restore bytes => page.settle none (page.restore bytes)

/-- Make one call after the other, and collect the replies. -/
def run (page : HeapPage) : List Call → HeapPage × List Reply
  | [] => (page, [])
  | call :: calls =>
      let (after, reply) := page.perform call
      let (last, replies) := after.run calls
      (last, reply :: replies)

end HeapPage

namespace SlotMap

open HeapPage (Call Reply)

/-- What a call does to the map of a page with this name, schema, and size, and what it answers.
There is one case for each outcome. -/
inductive Step (id : PageId) (schema : Schema) (size : Nat) (map : SlotMap) :
    Call → Reply → SlotMap → Prop where
  | stored {row : Row} {slot : Nat} : row.schema = schema → map.FirstFree slot →
      Step id schema size map (.insert row)
        ⟨.ok (some slot), some { row with place := some ⟨id, slot⟩ }⟩
        (map.set slot (some row.toBytes))
  | full {row : Row} : row.schema = schema → map.Full →
      Step id schema size map (.insert row) ⟨.error (.pageFull id), some row⟩ map
  | otherSchema {row : Row} : row.schema ≠ schema →
      Step id schema size map (.insert row)
        ⟨.error (.rowMismatch (.pageSchema row.schema schema)), some row⟩ map
  | cleared {slot : Nat} : slot < map.slots → map.record? slot ≠ none →
      Step id schema size map (.deleteSlot slot) ⟨.ok none, none⟩ (map.set slot none)
  | empty {slot : Nat} : slot < map.slots → map.record? slot = none →
      Step id schema size map (.deleteSlot slot) ⟨.error (.emptySlot slot), none⟩ map
  | outside {slot : Nat} : map.slots ≤ slot →
      Step id schema size map (.deleteSlot slot) ⟨.error (.invalidSlot slot), none⟩ map
  | placed {row : Row} {slot : Nat} {answer : Except Error (Option Nat)} {after : SlotMap} :
      row.place = some ⟨id, slot⟩ →
      Step id schema size map (.deleteSlot slot) ⟨answer, none⟩ after →
      Step id schema size map (.delete row) ⟨answer, some row⟩ after
  | unplaced {row : Row} : row.place = none →
      Step id schema size map (.delete row) ⟨.error .missingPlace, some row⟩ map
  | foreign {row : Row} {place : RecordId} : row.place = some place → place.page ≠ id →
      Step id schema size map (.delete row) ⟨.error (.foreignRecord place), some row⟩ map
  | restored {bytes : Bytes} : bytes.length = size →
      Step id schema size map (.restore bytes) ⟨.ok none, none⟩
        (ofBytes map.slots schema.recordWidth bytes)
  | otherSize {bytes : Bytes} : bytes.length ≠ size →
      Step id schema size map (.restore bytes)
        ⟨.error (.pageSizeMismatch size bytes.length), none⟩ map

/-- One step for each call. -/
inductive Run (id : PageId) (schema : Schema) (size : Nat) :
    SlotMap → List Call → List Reply → SlotMap → Prop where
  | nil {map : SlotMap} : Run id schema size map [] [] map
  | cons {map middle last : SlotMap} {call : Call} {reply : Reply} {calls : List Call}
      {replies : List Reply} :
      Step id schema size map call reply middle → Run id schema size middle calls replies last →
      Run id schema size map (call :: calls) (reply :: replies) last

section Unique

variable {id : PageId} {schema : Schema} {size : Nat} {map after other : SlotMap} {call : Call}
  {reply answer : Reply} {slot : Nat}

theorem FirstFree.unique {found : Nat} (h : map.FirstFree slot) (hfound : map.FirstFree found) :
    found = slot := by
  rcases Nat.lt_trichotomy found slot with hlt | heq | hlt
  · exact absurd hfound.2.1 (h.2.2 found hlt)
  · exact heq
  · exact absurd h.2.1 (hfound.2.2 slot hlt)

theorem FirstFree.not_full (h : map.FirstFree slot) : ¬ map.Full :=
  fun hfull => hfull slot h.1 h.2.1

/-- A call has one outcome. -/
theorem Step.unique (h : Step id schema size map call reply after)
    (hother : Step id schema size map call answer other) : answer = reply ∧ other = after := by
  induction h generalizing answer with
  | stored hschema hfree =>
      cases hother with
      | stored _ hfound => rw [hfree.unique hfound]; exact ⟨rfl, rfl⟩
      | full _ hfull => exact absurd hfull hfree.not_full
      | otherSchema hne => exact absurd hschema hne
  | full hschema hfull =>
      cases hother with
      | stored _ hfound => exact absurd hfull hfound.not_full
      | full _ _ => exact ⟨rfl, rfl⟩
      | otherSchema hne => exact absurd hschema hne
  | otherSchema hne =>
      cases hother with
      | stored hschema _ => exact absurd hschema hne
      | full hschema _ => exact absurd hschema hne
      | otherSchema _ => exact ⟨rfl, rfl⟩
  | cleared hslot hrecord =>
      cases hother with
      | cleared _ _ => exact ⟨rfl, rfl⟩
      | empty _ hnone => exact absurd hnone hrecord
      | outside houtside => exact absurd hslot (Nat.not_lt.mpr houtside)
  | empty hslot hnone =>
      cases hother with
      | cleared _ hrecord => exact absurd hnone hrecord
      | empty _ _ => exact ⟨rfl, rfl⟩
      | outside houtside => exact absurd hslot (Nat.not_lt.mpr houtside)
  | outside hslot =>
      cases hother with
      | cleared hlt _ => exact absurd hlt (Nat.not_lt.mpr hslot)
      | empty hlt _ => exact absurd hlt (Nat.not_lt.mpr hslot)
      | outside _ => exact ⟨rfl, rfl⟩
  | placed hplace _ ih =>
      cases hother with
      | placed hfound hstep =>
          rw [hplace, Option.some.injEq, RecordId.mk.injEq] at hfound
          rw [← hfound.2] at hstep
          obtain ⟨hanswer, hafter⟩ := ih hstep
          rw [Reply.mk.injEq] at hanswer
          exact ⟨by rw [hanswer.1], hafter⟩
      | unplaced hnone => simp [hplace] at hnone
      | foreign hfound hpage =>
          rw [hplace, Option.some.injEq] at hfound
          exact absurd (congrArg RecordId.page hfound).symm hpage
  | unplaced hnone =>
      cases hother with
      | placed hfound _ => simp [hnone] at hfound
      | unplaced _ => exact ⟨rfl, rfl⟩
      | foreign hfound _ => simp [hnone] at hfound
  | foreign hplace hpage =>
      cases hother with
      | placed hfound _ =>
          rw [hplace, Option.some.injEq] at hfound
          exact absurd (congrArg RecordId.page hfound) hpage
      | unplaced hnone => simp [hplace] at hnone
      | foreign hfound _ =>
          rw [hplace, Option.some.injEq] at hfound
          exact ⟨by rw [hfound], rfl⟩
  | restored hlength =>
      cases hother with
      | restored _ => exact ⟨rfl, rfl⟩
      | otherSize hne => exact absurd hlength hne
  | otherSize hne =>
      cases hother with
      | restored hlength => exact absurd hlength hne
      | otherSize _ => exact ⟨rfl, rfl⟩

/-- Calls have one outcome. -/
theorem Run.unique {last found : SlotMap} {calls : List Call} {replies answers : List Reply}
    (h : Run id schema size map calls replies last)
    (hfound : Run id schema size map calls answers found) : answers = replies ∧ found = last := by
  induction h generalizing answers with
  | nil =>
      cases hfound
      exact ⟨rfl, rfl⟩
  | cons hstep _ ih =>
      cases hfound with
      | cons hother hrest =>
          obtain ⟨rfl, rfl⟩ := hstep.unique hother
          obtain ⟨rfl, rfl⟩ := ih hrest
          exact ⟨rfl, rfl⟩

end Unique

end SlotMap

/-- The database stores rows on its pages in this way. -/
example (db : Database) (txn : TxnId) (ref : FrameRef) (row : Row) :
    db.storeRow txn ref row = db.modifyFrame ref txn fun page => page.insertRow row :=
  rfl

namespace HeapPage

variable {page after : HeapPage} {slot : Nat} {row : Row}

/-- The map that the bytes of the page write. -/
def map (page : HeapPage) : SlotMap :=
  .ofBytes page.slots page.schema.recordWidth page.bytes

/-- A slot has a record in the map if it is used. -/
theorem record?_map (page : HeapPage) (slot : Nat) :
    page.map.record? slot = if page.isUsed slot = true then some (page.recordBytes slot) else none := by
  have hused : page.isUsed slot = true ↔
      slot < page.slots ∧ (Page.bits page.bytes)[slot]? = some true := by
    by_cases hslot : slot < page.slots
    · rw [isUsed_eq hslot, Page.getElem?_bits]
      cases page.bytes[slot / 8]? <;> simp [hslot]
    · simp [isUsed_of_le (Nat.not_lt.mp hslot), hslot]
  simp only [map, SlotMap.ofBytes, ← hused]
  rfl

theorem record?_map_eq_none_iff : page.map.record? slot = none ↔ page.isUsed slot = false := by
  rw [record?_map]
  cases page.isUsed slot <;> simp

theorem firstFree_map_iff : page.map.FirstFree slot ↔ page.firstFree? = some slot := by
  rw [firstFree?_eq_some_iff]
  unfold SlotMap.FirstFree
  simp only [record?_map_eq_none_iff, ne_eq, Bool.not_eq_false]
  rfl

theorem full_map_iff : page.map.Full ↔ page.firstFree? = none := by
  rw [firstFree?_eq_none_iff]
  unfold SlotMap.Full
  simp only [record?_map_eq_none_iff, ne_eq, Bool.not_eq_false]
  rfl

/-- The map of a page that a record was stored on. -/
theorem map_store {record : Bytes} (hslot : slot < page.slots)
    (hrecord : record.length = page.schema.recordWidth) :
    (page.store slot record hslot hrecord).map = page.map.set slot (some record) := by
  refine SlotMap.eq_set rfl fun other => ?_
  rw [record?_map, isUsed_store, recordBytes_store, record?_map]
  by_cases hsame : slot = other <;> simp [hsame]

/-- The map of a page without the record of a slot. -/
theorem map_mark_false (hslot : slot < page.slots) :
    (page.mark slot false).map = page.map.set slot none := by
  refine SlotMap.eq_set rfl fun other => ?_
  rw [record?_map, isUsed_mark hslot, recordBytes_mark hslot, record?_map]
  by_cases hsame : slot = other <;> simp [hsame]

/-- A page is read as its map says. -/
theorem row_eq_map (page : HeapPage) (slot : Nat) :
    page.row slot = page.map.row page.id page.schema slot := by
  unfold SlotMap.row
  rw [record?_map]
  cases hused : page.isUsed slot with
  | true =>
      have hrecord : (if true = true then some (page.recordBytes slot) else none) =
          some (page.recordBytes slot) := if_pos rfl
      rw [hrecord]
      exact row_of_isUsed hused
  | false =>
      have hslots : page.map.slots = page.slots := rfl
      unfold row
      simp only [hused, hslots, Bool.not_false, if_true, Bool.false_eq_true, if_false]
      split <;> rfl

theorem usedSlots_eq_map (page : HeapPage) : page.usedSlots = page.map.used := by
  rw [usedSlots_eq_filter, SlotMap.used]
  refine List.filter_congr fun slot _ => ?_
  rw [record?_map]
  cases page.isUsed slot <;> rfl

/-- The slots are counted one by one, the used ones and the free ones. -/
theorem rowCount_eq (page : HeapPage) :
    page.rowCount = page.map.used.length ∧ page.rowCount + page.freeCount = page.slots := by
  have hall : page.rowCount + page.freeCount = page.slots := by
    rw [← length_occupancy page, Nat.add_comm]
    exact List.count_false_add_count_true page.occupancy
  refine ⟨?_, hall⟩
  have hoccupancy : page.occupancy = (List.range page.slots).map page.isUsed := by
    apply List.ext_getElem
    · simp [length_occupancy]
    · intro slot hleft _
      rw [getElem_occupancy hleft, List.getElem_map, List.getElem_range]
  rw [← usedSlots_eq_map, usedSlots_eq_filter, rowCount, hoccupancy, List.count_eq_countP,
    List.countP_map, List.countP_eq_length_filter]
  congr 2
  funext slot
  simp

/-- The two pages have the same bits, apart from those that were touched. -/
def AgreesOff (page after : HeapPage) (touched : Nat → Prop) : Prop :=
  after.bytes.length = page.bytes.length ∧
    ∀ i, ¬ touched i → (Page.bits after.bytes)[i]? = (Page.bits page.bytes)[i]?

/-- The bit is the one that tells whether the slot is used, or it lies in the record of the slot. -/
def BitOf (page : HeapPage) (slot i : Nat) : Prop :=
  i = slot ∨
    page.recordOffset slot ≤ i / 8 ∧ i / 8 < page.recordOffset slot + page.schema.recordWidth

/-- Marking a slot changes no bit but its own. -/
theorem agreesOff_mark (page : HeapPage) (slot : Nat) (used : Bool) :
    page.AgreesOff (page.mark slot used) fun i => i = slot := by
  refine ⟨Page.length_setBit .., fun i hi => ?_⟩
  show (Page.bits (Page.setBit page.bytes slot used))[i]? = _
  rw [Page.getElem?_bits, Page.getElem?_bits, Page.getElem?_setBit]
  cases page.bytes[i / 8]? with
  | none => rfl
  | some byte =>
      simp only [Option.map_some, Option.some.injEq]
      split
      · rw [Page.getLsbD_setBitOfByte _ _ (Nat.mod_lt i (by omega)), if_neg (by omega)]
      · rfl

/-- Storing a record changes the bit of its slot and the record in the slot. -/
theorem agreesOff_store {record : Bytes} (hslot : slot < page.slots)
    (hrecord : record.length = page.schema.recordWidth) :
    page.AgreesOff (page.store slot record hslot hrecord) (page.BitOf slot) := by
  obtain ⟨written, hstore, _, _, hbytes⟩ := store_eq hslot hrecord
  have hend := recordOffset_add_le hslot
  have hbits := (agreesOff_mark written slot true).2
  rw [hstore]
  refine ⟨?_, fun i hi => ?_⟩
  · rw [← hstore, length_store]
  · obtain ⟨hbit, hplace⟩ := not_or.mp hi
    rw [hbits i hbit, Page.getElem?_bits, Page.getElem?_bits, hbytes]
    by_cases hbefore : i / 8 < page.recordOffset slot
    · rw [Bytes.getElem?_overwrite_before (by omega) hbefore]
    · rw [Bytes.getElem?_overwrite_after (by omega) (by omega)]

/-- The page has this name, schema, number of slots, and size. -/
structure Is (page : HeapPage) (id : PageId) (schema : Schema) (slots size : Nat) : Prop where
  id_eq : page.id = id
  schema_eq : page.schema = schema
  slots_eq : page.slots = slots
  length_eq : page.bytes.length = size

section Perform

variable {id : PageId} {schema : Schema} {slots size : Nat}

/-- What a call does to a page: to its map, to the row of the caller, and to the bits of the page. -/
structure Performs (page : HeapPage) (call : Call) (after : HeapPage) (reply : Reply) : Prop where
  step : SlotMap.Step page.id page.schema page.bytes.length page.map call reply after.map
  failed : ∀ error, reply.answer = .error error → after = page ∧ reply.row = call.row?
  full : ∀ row, call = .insert row → row.schema = page.schema →
    (reply.answer = .error (.pageFull page.id) ↔ page.map.Full)
  stored : ∀ row slot, call = .insert row → reply.answer = .ok (some slot) →
    reply.row = some { row with place := some ⟨page.id, slot⟩ } ∧
      after.row slot = .ok { row with place := some ⟨page.id, slot⟩ } ∧
      page.AgreesOff after (page.BitOf slot)
  cleared : ∀ slot,
    (call = .deleteSlot slot ∨
      ∃ row, call = .delete row ∧ row.place = some ⟨page.id, slot⟩) →
      reply.answer = .ok none →
        page.isUsed slot = true ∧ page.AgreesOff after fun i => i = slot
  restored : ∀ bytes, call = .restore bytes → reply.answer = .ok none → after.bytes = bytes
  same : after.Is page.id page.schema page.slots page.bytes.length

/-- A call that fails, and has a step for its answer, leaves everything as it was. -/
theorem performs_error {call : Call} {error : Error}
    (hstep : SlotMap.Step page.id page.schema page.bytes.length page.map call
      ⟨.error error, call.row?⟩ page.map)
    (hfull : ∀ row, call = .insert row → row.schema = page.schema →
      (error = .pageFull page.id ↔ page.map.Full)) :
    page.Performs call page ⟨.error error, call.row?⟩ where
  step := hstep
  failed := fun _ _ => ⟨rfl, rfl⟩
  full := fun row hcall hschema => by simpa using hfull row hcall hschema
  stored := fun _ _ _ h => by simp at h
  cleared := fun _ _ h => by simp at h
  restored := fun _ _ h => by simp at h
  same := ⟨rfl, rfl, rfl, rfl⟩

/-- A call that succeeds and stores nothing changes one bit, or all bytes. -/
theorem performs_ok {call : Call} (hcall : ∀ row, call ≠ .insert row)
    (hstep : SlotMap.Step page.id page.schema page.bytes.length page.map call
      ⟨.ok none, call.row?⟩ after.map)
    (hcleared : ∀ slot,
      (call = .deleteSlot slot ∨
        ∃ row, call = .delete row ∧ row.place = some ⟨page.id, slot⟩) →
        page.isUsed slot = true ∧ page.AgreesOff after fun i => i = slot)
    (hrestored : ∀ bytes, call = .restore bytes → after.bytes = bytes)
    (hsame : after.Is page.id page.schema page.slots page.bytes.length) :
    page.Performs call after ⟨.ok none, call.row?⟩ where
  step := hstep
  failed := fun _ h => by simp at h
  full := fun row h _ => absurd h (hcall row)
  stored := fun row _ h _ => absurd h (hcall row)
  cleared := fun slot h _ => hcleared slot h
  restored := fun bytes h _ => hrestored bytes h
  same := hsame

theorem performs_insert (page : HeapPage) (row : Row) (hfits : (Call.insert row).Fits) :
    page.Performs (.insert row) (page.perform (.insert row)).1 (page.perform (.insert row)).2 := by
  have hnofault := hfits row rfl
  rcases page.insert_cases row with ⟨hschema, hinsert⟩ | ⟨hschema, ⟨hfull, hinsert⟩ | hfree⟩
  · simp only [perform, insertRow, hinsert, Except.map]
    refine performs_error (.otherSchema hschema) fun found hfound hsame => ?_
    obtain rfl : row = found := by simpa using hfound
    exact absurd hsame hschema
  · simp only [perform, insertRow, hinsert, Except.map]
    have hmap := full_map_iff.mpr hfull
    exact performs_error (.full hschema hmap) fun _ _ _ => by simpa using hmap
  · obtain ⟨slot, hfree, ⟨fault, hfault, _⟩ | ⟨_, hslot, hrecord, hinsert⟩⟩ := hfree
    · simp [hnofault] at hfault
    · simp only [perform, insertRow, hinsert, Except.map]
      have hfirst := firstFree_map_iff.mpr hfree
      have hagrees := agreesOff_store hslot hrecord
      have hread : (page.store slot row.toBytes hslot hrecord).row slot =
          .ok { row with place := some ⟨page.id, slot⟩ } := by
        rw [row_of_isUsed (by rw [isUsed_store, if_pos rfl]), recordBytes_store, if_pos rfl]
        show (match Row.ofBytes? page.schema row.toBytes with
          | none => _
          | some row => _) = _
        rw [← hschema, Row.ofBytes?_toBytes hnofault]
        rfl
      exact
        { step := by
            rw [map_store]
            exact .stored hschema hfirst
          failed := fun _ h => by simp at h
          full := fun _ _ _ => by
            simp only [reduceCtorEq, false_iff]
            exact fun hfull => hfull slot hslot hfirst.2.1
          stored := by
            intro found other hfound hother
            obtain rfl : row = found := by simpa using hfound
            obtain rfl : slot = other := by simpa using hother
            exact ⟨rfl, hread, hagrees⟩
          cleared := fun _ hcall _ => by simp at hcall
          restored := fun _ hcall _ => by simp at hcall
          same := ⟨rfl, rfl, rfl, hagrees.1⟩ }

theorem performs_deleteSlot (page : HeapPage) (slot : Nat) :
    page.Performs (.deleteSlot slot) (page.perform (.deleteSlot slot)).1
      (page.perform (.deleteSlot slot)).2 := by
  rcases page.deleteSlot_cases slot with ⟨hslot, hdelete⟩ | ⟨hslot, hfree, hdelete⟩ | ⟨hused, hdelete⟩
  · simp only [perform, settle, hdelete]
    exact performs_error (.outside hslot) fun _ hcall _ => by simp at hcall
  · simp only [perform, settle, hdelete]
    exact performs_error (.empty hslot (record?_map_eq_none_iff.mpr hfree))
      fun _ hcall _ => by simp at hcall
  · simp only [perform, settle, hdelete]
    have hslot := lt_of_isUsed hused
    have hagrees := page.agreesOff_mark slot false
    refine performs_ok (by simp) ?_ ?_ (by simp) ⟨rfl, rfl, rfl, hagrees.1⟩
    · rw [map_mark_false hslot]
      exact .cleared hslot (by simp [record?_map_eq_none_iff, hused])
    · rintro other (hcall | ⟨row, hcall, _⟩)
      · obtain rfl : slot = other := by simpa using hcall
        exact ⟨hused, hagrees⟩
      · simp at hcall

/-- A row that has its place on the page is deleted as its slot is. -/
theorem performs_delete (page : HeapPage) (row : Row) :
    page.Performs (.delete row) (page.perform (.delete row)).1 (page.perform (.delete row)).2 := by
  rcases page.delete_cases row with ⟨hplace, hdelete⟩ | ⟨place, hplace, hplaced⟩
  · simp only [perform, settle, hdelete]
    exact performs_error (.unplaced hplace) fun _ hcall _ => by simp at hcall
  · rcases hplaced with ⟨hpage, hdelete⟩ | ⟨hpage, hdelete⟩
    · simp only [perform, settle, hdelete]
      exact performs_error (.foreign hplace hpage) fun _ hcall _ => by simp at hcall
    · obtain ⟨id, slot⟩ := place
      simp only at hpage hdelete
      subst hpage
      have hslot := page.performs_deleteSlot slot
      simp only [perform, settle, hdelete] at hslot ⊢
      cases hdeleted : page.deleteSlot slot with
      | error error =>
          simp only [hdeleted] at hslot ⊢
          exact performs_error (.placed hplace hslot.step) fun _ hcall _ => by simp at hcall
      | ok after =>
          simp only [hdeleted] at hslot ⊢
          refine performs_ok (by simp) (.placed hplace hslot.step) ?_ (by simp) hslot.same
          rintro other (hcall | ⟨found, hcall, hfound⟩)
          · simp at hcall
          · obtain rfl : row = found := by simpa using hcall
            obtain rfl : slot = other := by simpa [hplace] using hfound
            exact hslot.cleared slot (.inl rfl) rfl

theorem performs_restore (page : HeapPage) (bytes : Bytes) :
    page.Performs (.restore bytes) (page.perform (.restore bytes)).1
      (page.perform (.restore bytes)).2 := by
  by_cases hlength : bytes.length = page.bytes.length
  · have hrestore : page.restore bytes = .ok (page.withBytes bytes hlength) := by
      simp [restore, hlength]
    simp only [perform, settle, hrestore]
    refine performs_ok (by simp) (.restored hlength) ?_ ?_ ⟨rfl, rfl, rfl, hlength⟩
    · rintro other (hcall | ⟨row, hcall, _⟩) <;> simp at hcall
    · intro found hfound
      obtain rfl : bytes = found := by simpa using hfound
      rfl
  · have hrestore : page.restore bytes =
        .error (.pageSizeMismatch page.bytes.length bytes.length) := by
      simp [restore, hlength]
    simp only [perform, settle, hrestore]
    exact performs_error (.otherSize hlength) fun _ hcall _ => by simp at hcall

/-- Every call does what it is to do. -/
theorem performs (page : HeapPage) (call : Call) (hfits : call.Fits) :
    page.Performs call (page.perform call).1 (page.perform call).2 := by
  cases call with
  | insert row => exact page.performs_insert row hfits
  | deleteSlot slot => exact page.performs_deleteSlot slot
  | delete row => exact page.performs_delete row
  | restore bytes => exact page.performs_restore bytes

/-- A run of calls takes the map of the page along, and keeps the name, the schema, the number of
slots, and the size of the page. -/
theorem run_steps {calls : List Call} (hfits : ∀ call ∈ calls, call.Fits)
    (his : page.Is id schema slots size) :
    SlotMap.Run id schema size page.map calls (page.run calls).2 (page.run calls).1.map ∧
      (page.run calls).1.Is id schema slots size := by
  induction calls generalizing page with
  | nil => exact ⟨.nil, his⟩
  | cons call calls ih =>
      have hperforms := page.performs call (hfits call (by simp))
      obtain ⟨rfl, rfl, rfl, rfl⟩ := his
      obtain ⟨hrun, hlast⟩ := ih (fun other hother => hfits other (by simp [hother]))
        hperforms.same
      exact ⟨.cons hperforms.step hrun, hlast⟩

/-- What is read from the page is what its map says: the rows of the slots, the rows of the used
slots in increasing order, and the numbers of used and of free slots. -/
structure ReadsAsMap (page : HeapPage) : Prop where
  row : ∀ slot, page.row slot = page.map.row page.id page.schema slot
  entries : page.entries = page.map.used.map (page.map.row page.id page.schema)
  rowCount : page.rowCount = page.map.used.length
  counts : page.rowCount + page.freeCount = page.slots

theorem readsAsMap (page : HeapPage) : page.ReadsAsMap where
  row := page.row_eq_map
  entries := by rw [entries, usedSlots_eq_map, funext page.row_eq_map]
  rowCount := page.rowCount_eq.1
  counts := page.rowCount_eq.2

/-- A page that is made from any bytes goes through calls in the only way in which the map that the
bytes write can go through them, and gives the same replies. After any calls, it is read as its map
says, and the next call changes the map and the bits of the page as it is to do, or fails and
changes nothing. -/
theorem slot_map {bytes : Bytes} {start : HeapPage} {calls : List Call}
    (hstart : ofBytes id schema bytes = .ok start) (hfits : ∀ call ∈ calls, call.Fits) :
    SlotMap.Run id schema bytes.length (.ofBytes start.slots schema.recordWidth bytes) calls
        (start.run calls).2 (start.run calls).1.map ∧
      (∀ replies last,
        SlotMap.Run id schema bytes.length (.ofBytes start.slots schema.recordWidth bytes) calls
            replies last →
          replies = (start.run calls).2 ∧ last = (start.run calls).1.map) ∧
      (start.run calls).1.Is id schema start.slots bytes.length ∧
      (start.run calls).1.ReadsAsMap ∧
      ∀ call : Call, call.Fits →
        (start.run calls).1.Performs call ((start.run calls).1.perform call).1
          ((start.run calls).1.perform call).2 := by
  obtain ⟨hid, hschema, hbytes⟩ := ofBytes_eq_ok hstart
  obtain ⟨hrun, his⟩ := run_steps hfits ⟨hid, hschema, rfl, congrArg List.length hbytes⟩
  have hmap : start.map = .ofBytes start.slots schema.recordWidth bytes := by
    rw [map, hschema, hbytes]
  rw [hmap] at hrun
  exact ⟨hrun, fun replies last hother => hrun.unique hother, his, readsAsMap _,
    fun call hcall => performs _ call hcall⟩

/-- One column of numbers. -/
def numberSchema : Schema :=
  ⟨[⟨"number", .integer⟩], by simp, by simp, by simp⟩

/-- A page without records that has three slots for numbers. -/
def numberPage : HeapPage :=
  ⟨⟨⟨1⟩, 0⟩, numberSchema, Bytes.zeros 16, 3, by decide⟩

/-- Two rows are stored, the first one is deleted, and a third one is stored. -/
def holeCalls : List Call :=
  [.insert ⟨numberSchema, [.integer 7], none⟩, .insert ⟨numberSchema, [.integer 8], none⟩,
    .delete ⟨numberSchema, [.integer 7], some ⟨⟨⟨1⟩, 0⟩, 0⟩⟩,
    .insert ⟨numberSchema, [.integer 9], none⟩]

/-- The third row takes the slot of the first one, and the record of the second one stays. Contents
of another size are refused then, and the page stays as it is. -/
theorem slot_map_reuses_hole :
    ofBytes ⟨⟨1⟩, 0⟩ numberSchema (Bytes.zeros 16) = .ok numberPage ∧
      (∀ call ∈ holeCalls, call.Fits) ∧
      (numberPage.run holeCalls).1.bytes =
        [3, 0, 0, 0, 9, 0, 0, 0, 8, 0, 0, 0, 0, 0, 0, 0] ∧
      (numberPage.run holeCalls).2.map Reply.answer =
        [.ok (some 0), .ok (some 1), .ok none, .ok (some 0)] ∧
      SlotMap.Run ⟨⟨1⟩, 0⟩ numberSchema 16 (.ofBytes 3 4 (Bytes.zeros 16)) holeCalls
        (numberPage.run holeCalls).2 (numberPage.run holeCalls).1.map ∧
      (numberPage.run holeCalls).1.rowCount + (numberPage.run holeCalls).1.freeCount = 3 ∧
      ((numberPage.run holeCalls).1.perform (.restore [])).1 = (numberPage.run holeCalls).1 := by
  have hstart : ofBytes ⟨⟨1⟩, 0⟩ numberSchema (Bytes.zeros 16) = .ok numberPage := by decide
  have hfits : ∀ call ∈ holeCalls, call.Fits := by
    intro call hcall row hrow
    subst hrow
    simp only [holeCalls, List.mem_cons, Call.insert.injEq, reduceCtorEq, List.not_mem_nil,
      or_false, false_or] at hcall
    rcases hcall with rfl | rfl | rfl <;> decide
  obtain ⟨hrun, _, his, hreads, hperforms⟩ := slot_map hstart hfits
  have hrestore := hperforms (.restore []) (by simp [Call.Fits])
  have hrefused : ((numberPage.run holeCalls).1.perform (.restore [])).2.answer =
      .error (.pageSizeMismatch 16 0) := by decide
  refine ⟨hstart, hfits, by decide, by decide, hrun, ?_, (hrestore.failed _ hrefused).1⟩
  rw [hreads.counts, his.slots_eq]
  rfl

end Perform

end HeapPage

end RowStore
