import Mathlib.Order.Bounds.Basic
import Mathlib.Order.CompletePartialOrder
import Mathlib.Order.Interval.Set.Disjoint
import RowStore.Proofs.Page.Slots

/-!
# The number of slots of a page is the greatest that fits

The header of a page is rounded up to whole bytes, and the number of slots is computed without this
rounding: a record and its bit are counted as `8 * recordWidth + 1` bits. The two agree, since what
the records leave of a page is a whole number of bytes: `fits_iff`. So the number of slots is the
greatest for which header and records lie within the page, and no record overlaps the header or
another record: `slotsPerPage_greatest`.
-/

namespace RowStore

namespace Page

variable {pageSize recordWidth slots slot other : Nat}

/-- The header and the records of so many slots lie within a page. -/
def Fits (pageSize recordWidth slots : Nat) : Prop :=
  headerSize slots + slots * recordWidth ≤ pageSize

/-- The places of the bytes of a record. -/
def recordRange (slots recordWidth slot : Nat) : Set Nat :=
  Set.Ico (headerSize slots + slot * recordWidth)
    (headerSize slots + slot * recordWidth + recordWidth)

/-- As many slots fit as there are times the bits of a record and one more bit in the page. -/
theorem fits_iff :
    Fits pageSize recordWidth slots ↔ slots ≤ pageSize * 8 / (recordWidth * 8 + 1) := by
  have hbits : slots * (recordWidth * 8 + 1) = 8 * (slots * recordWidth) + slots := by
    rw [Nat.mul_add, Nat.mul_one, ← Nat.mul_assoc, Nat.mul_comm _ 8]
  rw [Nat.le_div_iff_mul_le (Nat.succ_pos _), hbits, Fits, headerSize]
  omega

/-- What the computation of the number of slots answers, by how many fit. -/
theorem slotsPerPage_cases (pageSize recordWidth : Nat) :
    ∃ most, IsGreatest {slots | Fits pageSize recordWidth slots} most ∧
      (most = 0 ∧ slotsPerPage pageSize recordWidth = .error (.recordTooWide recordWidth pageSize) ∨
        65535 < most ∧ slotsPerPage pageSize recordWidth = .error (.tooManySlots most) ∨
        1 ≤ most ∧ most ≤ 65535 ∧ slotsPerPage pageSize recordWidth = .ok most) := by
  refine ⟨pageSize * 8 / (recordWidth * 8 + 1),
    ⟨fits_iff.mpr (Nat.le_refl _), fun slots hslots => fits_iff.mp hslots⟩, ?_⟩
  unfold slotsPerPage
  dsimp only
  split
  · rename_i hnone
    exact .inl ⟨hnone, rfl⟩
  · rename_i hsome
    split
    · rename_i hmany
      exact .inr (.inl ⟨hmany, rfl⟩)
    · rename_i hfew
      exact .inr (.inr ⟨Nat.pos_of_ne_zero hsome, Nat.not_lt.mp hfew, rfl⟩)

/-- A record of slots that fit lies behind the header, within the page. -/
theorem recordRange_subset (hfits : Fits pageSize recordWidth slots) (hslot : slot < slots) :
    recordRange slots recordWidth slot ⊆ Set.Ico (headerSize slots) pageSize := by
  refine Set.Ico_subset_Ico (Nat.le_add_right ..) ?_
  have hrecords := Nat.mul_le_mul_right recordWidth (Nat.succ_le_of_lt hslot)
  rw [Nat.succ_mul] at hrecords
  rw [Fits] at hfits
  omega

/-- The records of two slots do not overlap. -/
theorem disjoint_recordRange (h : slot ≠ other) :
    Disjoint (recordRange slots recordWidth slot) (recordRange slots recordWidth other) := by
  rw [recordRange, recordRange, Set.Ico_disjoint_Ico]
  rcases @Bytes.place_disjoint slot other recordWidth h with hbefore | hafter
  · exact Nat.le_trans (Nat.min_le_left ..) (Nat.le_trans (by omega) (Nat.le_max_right ..))
  · exact Nat.le_trans (Nat.min_le_right ..) (Nat.le_trans (by omega) (Nat.le_max_left ..))

/-- A page has as many slots as fit. There is a greatest number of slots that do; it is answered if
it is between 1 and 65535, and otherwise, and only then, the page is refused. The header and the
records of these slots lie within the page, no two of them overlap, each slot has its bit in the
header, and its number has 16 bits. -/
theorem slotsPerPage_greatest (pageSize recordWidth : Nat) :
    ∃ most, IsGreatest {slots | headerSize slots + slots * recordWidth ≤ pageSize} most ∧
      (∀ slots, slotsPerPage pageSize recordWidth = .ok slots ↔
        slots = most ∧ 1 ≤ slots ∧ slots ≤ 65535) ∧
      ((∃ fault, slotsPerPage pageSize recordWidth = .error fault) ↔ most = 0 ∨ 65535 < most) ∧
      (∀ slots, slotsPerPage pageSize recordWidth = .ok slots →
        headerSize slots ≤ pageSize ∧
        (∀ slot, slot < slots →
          slot / 8 < headerSize slots ∧ slot < UInt16.size ∧
            recordRange slots recordWidth slot ⊆ Set.Ico (headerSize slots) pageSize) ∧
        ∀ slot other, slot ≠ other →
          Disjoint (recordRange slots recordWidth slot) (recordRange slots recordWidth other)) ∧
      ∀ page : HeapPage, page.bytes.length = pageSize → page.schema.recordWidth = recordWidth →
        page.slots = most ∧ page.headerSize = headerSize most ∧
        ∀ slot, Set.Ico (page.recordOffset slot) (page.recordOffset slot + recordWidth) =
          recordRange most recordWidth slot := by
  obtain ⟨most, hgreatest, hcases⟩ := slotsPerPage_cases pageSize recordWidth
  have hok : ∀ slots, slotsPerPage pageSize recordWidth = .ok slots ↔
      slots = most ∧ 1 ≤ slots ∧ slots ≤ 65535 := by
    intro slots
    rcases hcases with ⟨hnone, hanswer⟩ | ⟨hmany, hanswer⟩ | ⟨hsome, hfew, hanswer⟩ <;>
      rw [hanswer]
    · exact iff_of_false (by simp) (by omega)
    · exact iff_of_false (by simp) (by omega)
    · rw [Except.ok.injEq]
      omega
  refine ⟨most, hgreatest, hok, ?_, ?_, ?_⟩
  · rcases hcases with ⟨hnone, hanswer⟩ | ⟨hmany, hanswer⟩ | ⟨hsome, hfew, hanswer⟩
    · exact iff_of_true ⟨_, hanswer⟩ (.inl hnone)
    · exact iff_of_true ⟨_, hanswer⟩ (.inr hmany)
    · exact iff_of_false (by simp [hanswer]) (by omega)
  · intro slots hslots
    obtain ⟨rfl, hpos, hfew⟩ := (hok slots).mp hslots
    have hfits : Fits pageSize recordWidth slots := hgreatest.1
    refine ⟨Nat.le_trans (Nat.le_add_right ..) hfits, fun slot hslot => ⟨?_, ?_,
      recordRange_subset hfits hslot⟩, fun slot other => disjoint_recordRange⟩
    · rw [headerSize]
      omega
    · exact Nat.lt_of_lt_of_le hslot (Nat.le_trans hfew (by decide))
  · rintro page rfl rfl
    obtain ⟨hslots, _, _⟩ := (hok page.slots).mp page.slots_eq
    refine ⟨hslots, congrArg headerSize hslots, fun slot => ?_⟩
    rw [← hslots]
    rfl

/-- Three records of four bytes and one byte of header leave three bytes of a page of 16 bytes, and
a fourth record would not fit. -/
example : slotsPerPage 16 4 = .ok 3 ∧ headerSize 3 + 3 * 4 = 13 := by decide

end Page

end RowStore
