import RowStore.Database.Fetch
import RowStore.Proofs.Cache.Frames
import RowStore.Proofs.Disk.Layout
import RowStore.Proofs.Lock.Holders
import RowStore.Proofs.Page.Slots

/-!
# What fetching a page changes

`Fetched` says all that a fetch can do to a database, whatever it answers. Files, journal, and
holds stay as they were. The frame of a page stays as it was, or it was clean and is evicted, or
it is the frame of the fetched page, with the bytes that its file holds. If the fetch succeeds,
the page is in the cache and the answer refers to its frame.
-/

namespace RowStore

/-- The frame of a page as it is when the page was just read from the file of its table. -/
structure Loaded (db : Database) (page : PageId) (resident : Resident) : Prop where
  id : resident.page.id = page
  clean : resident.dirtiedBy = none
  origin : ∃ heap, db.catalog.heapFile page.table = .ok heap ∧ resident.origin = heap.file ∧
    resident.page.schema = heap.schema
  covers : page.number * resident.origin.pageSize + resident.origin.pageSize ≤
    (db.storage.bytes resident.origin).length
  bytes : resident.page.bytes = Bytes.slice (db.storage.bytes resident.origin)
    (page.number * resident.origin.pageSize) resident.origin.pageSize

/-- The frame of a page left the cache: it was clean, nobody held the page, and the lock of the page
could be removed. -/
structure Evicted (db : Database) (page : PageId) (resident : Resident) : Prop where
  frame : db.cache.frames[page]? = some resident
  clean : resident.dirtiedBy = none
  idle : (db.locks.lockOf page).isIdle = true
  reclaimable : db.locks.isReclaimable page = true

/-- What a fetch of a page can do to a database. -/
structure Fetched (page : PageId) (before : Database) (answer : Except Error FrameRef)
    (after : Database) : Prop where
  config : after.config = before.config
  catalog : after.catalog = before.catalog
  journal : after.journal = before.journal
  directory : after.storage.directory = before.storage.directory
  exclusive : ∀ other,
    (after.locks.lockOf other).exclusive = (before.locks.lockOf other).exclusive
  holds : ∀ other holder held,
    (after.locks.lockOf other).holds holder held = (before.locks.lockOf other).holds holder held
  pending : after.locks.pending = before.locks.pending
  frames : ∀ other, after.cache.frames[other]? = before.cache.frames[other]? ∨
    (after.cache.frames[other]? = none ∧ ∃ resident, Evicted before other resident) ∨
    other = page ∧ before.cache.frames[other]? = none ∧
      ∃ resident, after.cache.frames[other]? = some resident ∧ Loaded before other resident
  answer : ∀ ref, answer = .ok ref →
    ∃ resident, after.cache.frames[page]? = some resident ∧ ref = ⟨page, resident.serial⟩

namespace Database

variable {db after : Database} {page : PageId}

/-- A page that is evicted was clean, and only its frame and its lock are removed. -/
theorem evict_eq_some (h : db.evict = some after) :
    ∃ victim resident, Evicted db victim resident ∧
      after = { db with
        cache := db.cache.remove victim, locks := (db.locks.reclaim victim).2 } := by
  simp only [evict, Option.map_eq_some_iff] at h
  obtain ⟨victim, hvictim, rfl⟩ := h
  have hevictable : db.isEvictable victim = true := by
    revert hvictim
    simp only [Recency.evict]
    generalize db.cache.recency.order = offered
    intro hvictim
    have hoffer : (Recency.offer db.isEvictable offered).victim = some victim := by
      split at hvictim
      · rename_i hnone
        rw [hnone] at hvictim
        simp at hvictim
      · exact hvictim
    clear hvictim
    induction offered with
    | nil => simp [Recency.offer] at hoffer
    | cons page rest ih =>
        simp only [Recency.offer] at hoffer
        split at hoffer
        · rename_i hleaves
          simp only [Option.some.injEq] at hoffer
          rwa [← hoffer]
        · exact ih hoffer
  simp only [isEvictable, Cache.isClean, Bool.and_eq_true, Option.any_eq_true] at hevictable
  obtain ⟨⟨resident, hframe, hclean⟩, hreclaimable⟩ := hevictable
  refine ⟨victim, resident, ⟨hframe, ?_, ?_, hreclaimable⟩, rfl⟩
  · simpa [Frame.isDirty] using hclean
  · simp only [LockTable.isReclaimable] at hreclaimable
    simp only [LockTable.lockOf, Std.ExtTreeMap.getD_eq_getD_getElem?]
    split at hreclaimable
    · rename_i habsent
      rw [habsent]
      rfl
    · rename_i lock hlock
      simp only [Bool.and_eq_true] at hreclaimable
      rw [hlock]
      exact hreclaimable.1

/-- A page that is read from disk is the page that its file holds. -/
theorem load_eq_ok {heapPage : HeapPage} {origin : PageFile}
    (htable : ∀ heap, db.catalog.heapFile page.table = .ok heap → heap.table = page.table)
    (h : db.load page = (.ok (heapPage, origin), after)) (serial : Nat) :
    Loaded db page ⟨⟨heapPage, none⟩, serial, origin⟩ := by
  simp only [load] at h
  split at h
  · simp at h
  · rename_i heap hheap
    simp only [HeapFile.readPage] at h
    split at h
    · simp [Except.map] at h
    · rename_i bytes storage hread
      obtain ⟨hcovers, hbytes, _⟩ := Storage.readPage_ok hread
      cases hpage : HeapPage.ofBytes (heap.pageId page.number) heap.schema bytes with
      | error error => simp [hpage, Except.map] at h
      | ok found =>
          simp only [hpage, Except.map, Prod.mk.injEq, Except.ok.injEq] at h
          obtain ⟨⟨rfl, rfl⟩, rfl⟩ := h
          obtain ⟨hid, hschema, hfound⟩ := HeapPage.ofBytes_eq_ok hpage
          refine ⟨?_, rfl, ⟨heap, hheap, rfl, hschema⟩, hcovers, hfound.trans hbytes⟩
          rw [hid, HeapFile.pageId, htable heap hheap]

/-- Reading a page from disk changes nothing but the traffic. -/
theorem load_eq (db : Database) (page : PageId) :
    ∃ storage, (db.load page).2 = { db with storage } ∧
      storage.directory = db.storage.directory := by
  simp only [load]
  split
  · exact ⟨db.storage, rfl, rfl⟩
  · rename_i heap _
    refine ⟨_, rfl, ?_⟩
    have hdirectory := Storage.directory_readPage db.storage heap.file page.number
    simp only [HeapFile.readPage]
    split <;> rename_i heq <;> rw [heq] at hdirectory <;> exact hdirectory

/-- A place was made for a page that was not in the cache: it still is not, and nothing but an
eviction has happened. -/
theorem Fetched.of_reserve (habsent : db.cache.frames[page]? = none)
    (h : db.reserve page = (.ok .reserved, after)) (error : Error) :
    Fetched page db (.error error) after ∧ after.cache.frames[page]? = none ∧
      after.storage = db.storage := by
  simp only [reserve, habsent] at h
  split at h
  · split at h
    · simp at h
    · rename_i room hevict
      simp only [Prod.mk.injEq, true_and] at h
      subst h
      obtain ⟨victim, resident, hevicted, rfl⟩ := evict_eq_some hevict
      refine ⟨⟨rfl, rfl, rfl, rfl, ?_, ?_, ?_, ?_, by simp⟩, ?_, rfl⟩
      · intro other
        rcases @LockTable.lockOf_reclaim db.locks victim other with
          heq | ⟨_, hidle, heq⟩
        · simp only [heq]
        · simp only [heq]
          exact (LockState.exclusive_of_isIdle hidle).symm
      · -- The lock of the page that is evicted may be reclaimed.
        exact db.locks.holds_reclaim victim
      · simp only [LockTable.reclaim]
        split <;> rfl
      · intro other
        simp only [Cache.frames_remove]
        split
        · rename_i heq
          subst heq
          exact .inr (.inl ⟨rfl, resident, hevicted⟩)
        · exact .inl rfl
      · simp only [Cache.frames_remove, habsent, ite_self]
  · simp only [Prod.mk.injEq, true_and] at h
    subst h
    exact ⟨⟨rfl, rfl, rfl, rfl, fun _ => rfl, fun _ _ _ => rfl, rfl, fun _ => .inl rfl, by simp⟩,
      habsent, rfl⟩

/-- A page that is in the cache is found there. -/
theorem reserve_of_resident {resident : Resident}
    (h : db.cache.frames[page]? = some resident) :
    db.reserve page =
      (.ok (.present ⟨page, resident.serial⟩), { db with cache := db.cache.touch page }) := by
  simp only [reserve, h]

/-- A page is read into the place that was made for it. -/
theorem Fetched.of_install {room : Database}
    (htable : ∀ heap, db.catalog.heapFile page.table = .ok heap → heap.table = page.table)
    (hframe : db.cache.frames[page]? = none) (hroom : Fetched page db (.error .cacheFull) room)
    (habsent : room.cache.frames[page]? = none) (hstorage : room.storage = db.storage) :
    Fetched page db ((room.load page).2.install page (room.load page).1).1
      ((room.load page).2.install page (room.load page).1).2 := by
  obtain ⟨storage, hload, hdirectory⟩ := load_eq room page
  have hdirectory : storage.directory = db.storage.directory :=
    hdirectory.trans hroom.directory
  simp only [install, hload]
  split
  · exact ⟨hroom.config, hroom.catalog, hroom.journal, hdirectory, hroom.exclusive,
      hroom.holds, hroom.pending, hroom.frames, by simp⟩
  · rename_i heapPage origin hloaded
    have hfresh := load_eq_ok (by rwa [hroom.catalog])
      (show room.load page = (.ok (heapPage, origin), _) from Prod.ext hloaded rfl)
      room.cache.nextSerial
    have hid : heapPage.id = page := hfresh.id
    simp only [habsent]
    refine ⟨hroom.config, hroom.catalog, hroom.journal, hdirectory, hroom.exclusive,
      hroom.holds, hroom.pending, ?_, ?_⟩
    · intro other
      simp only [Cache.frames_touch, Cache.frames_add, hid]
      split
      · rename_i heq
        obtain ⟨_, hclean, ⟨heap, hheap, horigin⟩, hcovers, hbytes⟩ := hfresh
        rw [hroom.catalog] at hheap
        simp only [hstorage] at hcovers hbytes
        subst heq
        exact .inr (.inr ⟨rfl, hframe, _, rfl, hid, hclean, ⟨heap, hheap, horigin⟩,
          hcovers, hbytes⟩)
      · exact hroom.frames other
    · intro ref href
      refine ⟨⟨⟨heapPage, none⟩, room.cache.nextSerial, origin⟩, ?_, by simpa using href.symm⟩
      simp only [Cache.frames_touch, Cache.frames_add, hid, if_true]

/-- What fetching a page does. -/
theorem fetched (db : Database) (page : PageId)
    (htable : ∀ heap, db.catalog.heapFile page.table = .ok heap → heap.table = page.table) :
    Fetched page db (db.fetch page).1 (db.fetch page).2 := by
  cases hframe : db.cache.frames[page]? with
  | some resident =>
      simp only [fetch, reserve_of_resident hframe]
      refine ⟨rfl, rfl, rfl, rfl, fun _ => rfl, fun _ _ _ => rfl, rfl, fun _ => .inl rfl, ?_⟩
      intro ref href
      exact ⟨resident, hframe, by simpa using href.symm⟩
  | none =>
      simp only [fetch]
      split
      · rename_i error reserved hreserve
        obtain rfl : db = reserved := by
          simp only [reserve, hframe] at hreserve
          split at hreserve
          · split at hreserve
            · exact congrArg Prod.snd hreserve
            · simp at hreserve
          · simp at hreserve
        exact ⟨rfl, rfl, rfl, rfl, fun _ => rfl, fun _ _ _ => rfl, rfl, fun _ => .inl rfl, by simp⟩
      · rename_i ref reserved hreserve
        simp only [reserve, hframe] at hreserve
        split at hreserve
        · split at hreserve <;> simp at hreserve
        · simp at hreserve
      · rename_i room hreserve
        obtain ⟨hroom, habsent, hstorage⟩ := Fetched.of_reserve hframe hreserve .cacheFull
        exact Fetched.of_install htable hframe hroom habsent hstorage

/-- The tables are registered as before, and of the pages of one of them, from a number on, no frame
has come into the cache. -/
structure Untouched (start : Database) (heap : HeapFile) (first : Nat) (db : Database) : Prop where
  catalog : db.catalog = start.catalog
  frames : ∀ number, first ≤ number → ∀ resident,
    db.cache.frames[heap.pageId number]? = some resident →
    start.cache.frames[heap.pageId number]? = some resident

/-- No frame comes into the cache if nothing happens. -/
theorem Untouched.refl {start : Database} {heap : HeapFile} {first : Nat} :
    start.Untouched heap first start where
  catalog := rfl
  frames _ _ _ hframe := hframe

/-- A fetch brings no frame of another page into the cache. -/
theorem Untouched.fetched {start : Database} {heap : HeapFile} {first number last : Nat}
    {locks : LockTable} {answer : Except Error FrameRef}
    (huntouched : start.Untouched heap first db)
    (hfetched : Fetched (heap.pageId number) { db with locks } answer after) (hfirst : first ≤ last)
    (hnumber : number < last) : start.Untouched heap last after where
  catalog := hfetched.catalog.trans huntouched.catalog
  frames other hother resident hframe := by
    rcases hfetched.frames (heap.pageId other) with hsame | ⟨hnone, _⟩ | ⟨hpage, _⟩
    · exact huntouched.frames other (by omega) resident (hsame ▸ hframe)
    · simp [hframe] at hnone
    · have hnumbers : other = number := congrArg PageId.number hpage
      omega

end Database

end RowStore
