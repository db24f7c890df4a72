import RowStore.Database.Basic

/-!
# The before-images of a journal

What each change of a journal does to the before-image of each transaction and page: the first
record of a page is kept, a mark changes no bytes, and a transaction that is erased has none.
-/

namespace RowStore

namespace Journal

variable (journal : Journal) (txn other : TxnId) (page : PageId) (target : PageId)

/-- The before-images of a transaction are those that it has of pages. -/
theorem mem_imagesOf (image : BeforeImage) :
    (page, image) ∈ (journal.imagesOf txn).toList ↔ journal.image? txn page = some image :=
  Std.ExtTreeMap.mem_toList_iff_getElem?_eq_some

@[simp] theorem image?_empty : image? ∅ txn page = none := by
  simp [image?, imagesOf]

/-- An erased transaction has no before-images, and the others keep theirs. -/
theorem image?_erase :
    image? (journal.erase txn) other page =
      if txn = other then none else journal.image? other page := by
  simp only [image?, imagesOf, Std.ExtTreeMap.getD_erase, Std.compare_eq_iff_eq]
  split <;> simp

/-- A record adds a before-image for its transaction and page unless there is one. -/
theorem image?_record (bytes : Bytes) :
    (journal.record txn page bytes).image? other target =
      if txn = other ∧ page = target then
        some ((journal.image? txn page).getD ⟨bytes, false⟩)
      else journal.image? other target := by
  simp only [record]
  split
  · rename_i hsome
    obtain ⟨image, himage⟩ := Option.isSome_iff_exists.mp hsome
    split
    · rename_i heq
      obtain ⟨rfl, rfl⟩ := heq
      rw [himage, Option.getD_some]
    · rfl
  · rename_i hnone
    rw [Bool.not_eq_true, Option.isSome_eq_false_iff, Option.isNone_iff_eq_none] at hnone
    simp only [image?, imagesOf, Std.ExtTreeMap.getD_insert, Std.compare_eq_iff_eq]
    simp only [image?, imagesOf] at hnone
    by_cases htxn : txn = other
    · subst htxn
      by_cases hpage : page = target
      · subst hpage
        simp [hnone]
      · simp [hpage, Std.ExtTreeMap.getElem?_insert]
    · simp [htxn]

/-- A mark reaches the before-image of its transaction and page, if there is one. -/
theorem image?_markStolen :
    (journal.markStolen txn page).image? other target =
      if txn = other ∧ page = target then
        (journal.image? other target).map fun image => { image with stolen := true }
      else journal.image? other target := by
  simp only [image?, imagesOf, markStolen, Std.ExtTreeMap.getD_eq_getD_getElem?,
    Std.ExtTreeMap.getElem?_modify, Std.compare_eq_iff_eq]
  by_cases htxn : txn = other
  · subst htxn
    cases journal[txn]? with
    | none => simp
    | some images =>
        by_cases hpage : page = target
        · subst hpage
          simp
        · simp [hpage, Std.ExtTreeMap.getElem?_modify]
  · simp [htxn]

/-- A mark reaches no before-image of another transaction. -/
theorem getElem?_markStolen_of_ne (hne : txn ≠ other) :
    (journal.markStolen txn page)[other]? = journal[other]? := by
  simp [markStolen, Std.ExtTreeMap.getElem?_modify, hne]

/-- The bytes of the before-image that a transaction has of a page. -/
def imageBytes? : Option Bytes :=
  (journal.image? txn page).map BeforeImage.bytes

theorem isSome_imageBytes? :
    (journal.imageBytes? txn page).isSome = (journal.image? txn page).isSome :=
  Option.isSome_map

/-- A mark changes no bytes. -/
theorem imageBytes?_markStolen :
    (journal.markStolen txn page).imageBytes? other target = journal.imageBytes? other target := by
  simp only [imageBytes?, image?_markStolen]
  split
  · rw [Option.map_map]
    rfl
  · rfl

/-- A transaction has stolen a page exactly if its before-image of the page is marked. -/
theorem isStolen_iff :
    journal.isStolen txn page = true ↔
      ∃ image, journal.image? txn page = some image ∧ image.stolen = true := by
  simp only [isStolen, Option.any_eq_true]

end Journal

end RowStore
