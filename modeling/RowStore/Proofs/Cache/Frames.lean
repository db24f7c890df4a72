import RowStore.Cache.Basic

/-!
# The frames of a cache

What each change of a cache does to the frame of each page: an access changes none, a page that
is added gets a clean frame, a page that is removed has none, and a frame that is set belongs to
a page that was in the cache before.
-/

namespace RowStore

namespace Cache

variable (cache : Cache) (page other : PageId)

@[simp] theorem frames_touch : (cache.touch page).frames = cache.frames := rfl

/-- Removing a page removes its frame and no other. -/
theorem frames_remove :
    (cache.remove page).frames[other]? = if page = other then none else cache.frames[other]? := by
  simp only [remove]
  split
  · rename_i habsent
    split
    · rename_i heq
      rw [← heq, habsent]
    · rfl
  · simp [Std.ExtTreeMap.getElem?_erase]

/-- Removing pages removes their frames and no others. -/
theorem frames_removeEach (pages : List PageId) :
    (pages.foldl remove cache).frames[other]? =
      if other ∈ pages then none else cache.frames[other]? := by
  induction pages generalizing cache with
  | nil => simp
  | cons first rest ih =>
      rw [List.foldl_cons, ih, frames_remove]
      by_cases hfirst : first = other
      · simp [hfirst]
      · simp [hfirst, Ne.symm hfirst]

/-- Adding a page adds a clean frame for it. -/
theorem frames_add (heapPage : HeapPage) (origin : PageFile) :
    (cache.add heapPage origin).frames[other]? =
      if heapPage.id = other then some ⟨⟨heapPage, none⟩, cache.nextSerial, origin⟩
      else cache.frames[other]? := by
  simp [add, Std.ExtTreeMap.getElem?_insert]

/-- Setting the frame of a page changes the frame that the page has, and no other. -/
theorem frames_setFrame (frame : Frame) :
    (cache.setFrame page frame).frames[other]? =
      if page = other then
        cache.frames[other]?.map fun resident => { resident with toFrame := frame }
      else cache.frames[other]? := by
  simp only [setFrame, Std.ExtTreeMap.getElem?_modify, Std.compare_eq_iff_eq]
  split
  · rename_i heq
    rw [heq]
  · rfl

/-- The frame that is set of a page in the cache is in the place of the one that it had. -/
theorem frames_setFrame_of_resident {resident : Resident}
    (h : cache.frames[page]? = some resident) (frame : Frame) :
    (cache.setFrame page frame).frames[other]? =
      if page = other then some { resident with toFrame := frame } else cache.frames[other]? := by
  rw [frames_setFrame]
  split
  · rename_i heq
    rw [← heq, h, Option.map_some]
  · rfl

/-- A reference to the frame of a page in the cache leads to that frame. -/
theorem frame?_of_resident {resident : Resident} (h : cache.frames[page]? = some resident) :
    cache.frame? ⟨page, resident.serial⟩ = some resident.toFrame := by
  simp [frame?, h]

/-- A frame is put into the place of the frame that the reference leads to. -/
theorem putFrame_of_resident {resident : Resident} (h : cache.frames[page]? = some resident)
    (frame : Frame) :
    cache.putFrame ⟨page, resident.serial⟩ frame = cache.setFrame page frame := by
  simp [putFrame, h]

/-- The pages whose frames are kept are in the cache with such a frame. -/
theorem mem_pagesWhere (keeps : Frame → Bool) :
    page ∈ cache.pagesWhere keeps ↔
      ∃ resident, cache.frames[page]? = some resident ∧ keeps resident.toFrame = true := by
  simp only [pagesWhere, List.mem_map, List.mem_filter, Prod.exists,
    Std.ExtTreeMap.mem_toList_iff_getElem?_eq_some]
  constructor
  · rintro ⟨found, resident, ⟨hframe, hkeeps⟩, rfl⟩
    exact ⟨resident, hframe, hkeeps⟩
  · rintro ⟨resident, hframe, hkeeps⟩
    exact ⟨page, resident, ⟨hframe, hkeeps⟩, rfl⟩

end Cache

end RowStore
