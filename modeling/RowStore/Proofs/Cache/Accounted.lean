import RowStore.Proofs.Cache.Frames

/-!
# Cache accounting

`Cache.Accounted` says that the parts of a cache agree: the pages in it and the places reserved for
others fit its capacity, each frame is the frame of the page that it is kept under, and the pages
that are tracked are those that are in the cache. Each change of a cache keeps this so. A place is
reserved only after `reserve_room` or an eviction has made room for it.
-/

namespace RowStore

/-- A map gets smaller by the entry that is erased. -/
theorem size_erase_add {α β : Type} [Ord α] [Std.TransOrd α] (map : Std.ExtTreeMap α β) (key : α) :
    (map.erase key).size + (if map.contains key then 1 else 0) = map.size := by
  rw [Std.ExtTreeMap.size_erase]
  split
  · rename_i hcontains
    have hsome : map.size ≠ 0 := by
      intro hzero
      rw [Std.ExtTreeMap.eq_empty_iff_size_eq_zero.mpr hzero] at hcontains
      simp at hcontains
    omega
  · rfl

namespace Cache

/-- The parts of a cache agree that has so much capacity and so many places reserved. -/
structure Accounted (capacity reserved : Nat) (cache : Cache) : Prop where
  size : cache.capacity = capacity
  loading : cache.loading = reserved
  room : cache.frames.size + reserved ≤ capacity
  named : ∀ (page : PageId) (resident : Resident), cache.frames[page]? = some resident →
    resident.page.id = page
  tracked : ∀ page : PageId, page ∈ cache.recency.lastAccess ↔ page ∈ cache.frames

variable {cache : Cache} {capacity reserved : Nat} {page : PageId}

/-- A cache without pages is accounted for. -/
theorem accounted_empty (capacity : Nat) : Accounted capacity 0 { capacity } where
  size := rfl
  loading := rfl
  room := by
    show (∅ : PageMap Resident).size + 0 ≤ capacity
    simp
  named page resident hframe := by simp at hframe
  tracked page := by
    show page ∈ (∅ : PageMap Nat) ↔ page ∈ (∅ : PageMap Resident)
    simp

namespace Accounted

/-- Two frames of one page are the same frame. -/
theorem unique (haccounted : cache.Accounted capacity reserved) {first second : PageId}
    {one other : Resident} (hone : cache.frames[first]? = some one)
    (hother : cache.frames[second]? = some other) (hsame : one.page.id = other.page.id) :
    first = second ∧ one = other := by
  obtain rfl : first = second := by
    rw [← haccounted.named first one hone, ← haccounted.named second other hother, hsame]
  exact ⟨rfl, Option.some.inj (hone.symm.trans hother)⟩

/-- A place is reserved while there is room. -/
theorem reserve (haccounted : cache.Accounted capacity reserved)
    (hroom : cache.frames.size + reserved < capacity) :
    Accounted capacity (reserved + 1) { cache with loading := cache.loading + 1 } where
  size := haccounted.size
  loading := congrArg (· + 1) haccounted.loading
  room := hroom
  named := haccounted.named
  tracked := haccounted.tracked

/-- A reserved place is given up. -/
theorem giveUp (haccounted : cache.Accounted capacity (reserved + 1)) :
    Accounted capacity reserved { cache with loading := cache.loading - 1 } where
  size := haccounted.size
  loading := congrArg (· - 1) haccounted.loading
  room := Nat.le_trans (Nat.le_succ _) haccounted.room
  named := haccounted.named
  tracked := haccounted.tracked

/-- A page of the cache is accessed. -/
theorem touch (haccounted : cache.Accounted capacity reserved) (hresident : page ∈ cache.frames) :
    (cache.touch page).Accounted capacity reserved where
  size := haccounted.size
  loading := haccounted.loading
  room := haccounted.room
  named := haccounted.named
  tracked other := by
    show other ∈ cache.recency.lastAccess.insert page _ ↔ other ∈ cache.frames
    rw [Std.ExtTreeMap.mem_insert, haccounted.tracked, Std.compare_eq_iff_eq]
    constructor
    · rintro (rfl | h)
      · exact hresident
      · exact h
    · exact .inr

/-- A page is removed, and makes room if it was in the cache. -/
theorem remove (haccounted : cache.Accounted capacity reserved) (page : PageId) :
    (cache.remove page).Accounted capacity reserved ∧
      (cache.remove page).frames.size + (if cache.frames.contains page then 1 else 0) =
        cache.frames.size := by
  cases hframe : cache.frames[page]? with
  | none =>
      have habsent : cache.frames.contains page = false := by
        rw [Std.ExtTreeMap.contains_eq_isSome_getElem?, hframe]
        rfl
      simp only [Cache.remove, hframe, habsent, Bool.false_eq_true, if_false, Nat.add_zero,
        and_true]
      refine ⟨haccounted.size, haccounted.loading, haccounted.room, haccounted.named,
        fun other => ?_⟩
      show other ∈ cache.recency.lastAccess.erase page ↔ other ∈ cache.frames
      rw [Std.ExtTreeMap.mem_erase, haccounted.tracked]
      refine and_iff_right_of_imp fun hother hsame => ?_
      rw [← Std.compare_eq_iff_eq.mp hsame, ← Std.ExtTreeMap.contains_iff_mem, habsent] at hother
      simp at hother
  | some resident =>
      have hsize := size_erase_add cache.frames page
      simp only [Cache.remove, hframe]
      refine ⟨⟨haccounted.size, haccounted.loading, ?_, ?_, ?_⟩, hsize⟩
      · have hroom := haccounted.room
        show (cache.frames.erase page).size + reserved ≤ capacity
        omega
      · intro other found hfound
        have hfound : (cache.frames.erase page)[other]? = some found := hfound
        rw [Std.ExtTreeMap.getElem?_erase] at hfound
        split at hfound
        · simp at hfound
        · exact haccounted.named other found hfound
      · intro other
        show other ∈ cache.recency.lastAccess.erase page ↔ other ∈ cache.frames.erase page
        rw [Std.ExtTreeMap.mem_erase, Std.ExtTreeMap.mem_erase, haccounted.tracked]

/-- Pages are removed one after the other. -/
theorem removeEach (haccounted : cache.Accounted capacity reserved) (pages : List PageId) :
    (pages.foldl Cache.remove cache).Accounted capacity reserved := by
  induction pages generalizing cache with
  | nil => exact haccounted
  | cons page rest ih => exact ih (haccounted.remove page).1

/-- A page in the cache gets other contents, under the same name. -/
theorem setFrame (haccounted : cache.Accounted capacity reserved) {frame : Frame}
    {resident : Resident} (hframe : cache.frames[page]? = some resident)
    (hid : frame.page.id = resident.page.id) :
    (cache.setFrame page frame).Accounted capacity reserved where
  size := haccounted.size
  loading := haccounted.loading
  room := by
    show (cache.frames.modify page _).size + reserved ≤ capacity
    rw [Std.ExtTreeMap.size_modify]
    exact haccounted.room
  named other found hfound := by
    rw [frames_setFrame_of_resident _ _ _ hframe] at hfound
    split at hfound
    · rename_i hsame
      subst hsame
      rw [← Option.some.inj hfound]
      exact hid.trans (haccounted.named page resident hframe)
    · exact haccounted.named other found hfound
  tracked other := by
    show other ∈ cache.recency.lastAccess ↔ other ∈ cache.frames.modify page _
    rw [Std.ExtTreeMap.mem_modify, haccounted.tracked]

/-- The page of the frame that a reference leads to gets other contents, under the same name. -/
theorem putFrame (haccounted : cache.Accounted capacity reserved) {ref : FrameRef} {frame : Frame}
    (hframe : cache.frame? ref = some frame) {changed : HeapPage} (hid : changed.id = frame.page.id)
    (owner : Option TxnId) : (cache.putFrame ref ⟨changed, owner⟩).Accounted capacity reserved := by
  have hretired : ∀ retired, Accounted capacity reserved { cache with retired } := fun _ =>
    ⟨haccounted.size, haccounted.loading, haccounted.room, haccounted.named,
      haccounted.tracked⟩
  simp only [Cache.putFrame]
  cases hresident : cache.frames[ref.page]? with
  | none => exact hretired _
  | some resident =>
      by_cases hserial : resident.serial = ref.serial
      · simp only [hserial, if_true]
        simp only [Cache.frame?, hresident, hserial, if_true, Option.some.injEq] at hframe
        exact haccounted.setFrame hresident (by rw [hid, hframe])
      · -- The page has another frame by now, and the one that is changed is in no cache.
        simp only [if_neg hserial]
        exact hretired _

/-- A page that was read is put into the place that was reserved for it, and is accessed. -/
theorem install (haccounted : cache.Accounted capacity (reserved + 1)) {heapPage : HeapPage}
    (hid : heapPage.id = page) (origin : PageFile) :
    (({ cache with loading := cache.loading - 1 }.add heapPage origin).touch page).Accounted
      capacity reserved where
  size := haccounted.size
  loading := congrArg (· - 1) haccounted.loading
  room := by
    have hroom := haccounted.room
    have hsize := @Std.ExtTreeMap.size_insert_le _ _ _ cache.frames _ heapPage.id
      ⟨⟨heapPage, none⟩, cache.nextSerial, origin⟩
    show (cache.frames.insert heapPage.id ⟨⟨heapPage, none⟩, cache.nextSerial, origin⟩).size +
      reserved ≤ capacity
    omega
  named other resident hresident := by
    have hresident : (cache.frames.insert heapPage.id
        ⟨⟨heapPage, none⟩, cache.nextSerial, origin⟩)[other]? = some resident := hresident
    rw [Std.ExtTreeMap.getElem?_insert] at hresident
    split at hresident
    · rename_i hsame
      rw [← Option.some.inj hresident]
      exact Std.compare_eq_iff_eq.mp hsame
    · exact haccounted.named other resident hresident
  tracked other := by
    show other ∈ cache.recency.lastAccess.insert page _ ↔
      other ∈ cache.frames.insert heapPage.id ⟨⟨heapPage, none⟩, cache.nextSerial, origin⟩
    rw [Std.ExtTreeMap.mem_insert, Std.ExtTreeMap.mem_insert, Std.compare_eq_iff_eq, hid,
      haccounted.tracked, Std.compare_eq_iff_eq]

end Accounted

end Cache

end RowStore
