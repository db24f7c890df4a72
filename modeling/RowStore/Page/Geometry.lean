import RowStore.Record.Schema

/-!
# The geometry of a page

A page begins with a header that has one bit for each slot, rounded up to whole bytes, and the
records follow it, all of one width. `slotsPerPage` is the number of slots of a page, and
`headerSize_add_le` says that the header and all records lie within it.
-/

namespace RowStore.Page

/-- The number of bytes of a header with one bit for each slot. -/
def headerSize (slots : Nat) : Nat :=
  (slots + 7) / 8

/-- The largest number of slots that a page may have, so that a slot is named by 16 bits. -/
def maxSlots : Nat := 65535

/-- The number of records of one width that a page holds. A page that holds none, and one whose
slots could not be named, cannot be used. -/
def slotsPerPage (pageSize recordWidth : Nat) : Except SchemaFault Nat :=
  let slots := pageSize * 8 / (recordWidth * 8 + 1)
  if slots = 0 then .error (.recordTooWide recordWidth pageSize)
  else if maxSlots < slots then .error (.tooManySlots slots)
  else .ok slots

/-- The header and the records of a page lie within it. -/
theorem headerSize_add_le {pageSize recordWidth slots : Nat}
    (h : slotsPerPage pageSize recordWidth = .ok slots) :
    headerSize slots + slots * recordWidth ≤ pageSize := by
  simp only [slotsPerPage] at h
  split at h
  · simp at h
  · split at h
    · simp at h
    · simp only [Except.ok.injEq] at h
      have hmul := Nat.div_mul_le_self (pageSize * 8) (recordWidth * 8 + 1)
      rw [h] at hmul
      have hexpand : slots * (recordWidth * 8 + 1) = 8 * (slots * recordWidth) + slots := by
        rw [Nat.mul_add, Nat.mul_one, ← Nat.mul_assoc, Nat.mul_comm _ 8]
      simp only [headerSize]
      omega

end RowStore.Page
