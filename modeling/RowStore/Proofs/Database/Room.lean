import RowStore.Proofs.Database.Legible

/-!
# Room in the cache

A page of the table can always be read from disk, so an access to it fails only if the cache is full
of other pages that the transaction has locked: `Legible.access`. Each access takes up at most one
more place in the cache, so that as many pages can be reached as there are places left.
-/

namespace RowStore

/-- How many places of the cache are taken, by a page or for one that is being read. -/
def Cache.occupied (cache : Cache) : Nat :=
  cache.frames.size + cache.loading

namespace Cache

variable (cache : Cache) (page : PageId)

/-- The cache is full if no place is left. -/
theorem isFull_iff : cache.isFull = true ↔ cache.capacity ≤ cache.occupied := by
  unfold isFull
  rw [decide_eq_true_iff]
  rfl

/-- Removing a page takes up no place. -/
theorem occupied_remove :
    (cache.remove page).capacity = cache.capacity ∧
      (cache.remove page).occupied ≤ cache.occupied := by
  unfold remove
  split
  · exact ⟨rfl, Nat.le_refl _⟩
  · exact ⟨rfl, Nat.add_le_add_right Std.ExtTreeMap.size_erase_le _⟩

/-- Adding a page takes up at most one place. -/
theorem occupied_add (heapPage : HeapPage) (origin : PageFile) :
    (cache.add heapPage origin).capacity = cache.capacity ∧
      (cache.add heapPage origin).occupied ≤ cache.occupied + 1 := by
  refine ⟨rfl, ?_⟩
  show (cache.frames.insert _ _).size + cache.loading ≤ cache.frames.size + cache.loading + 1
  have hsize := @Std.ExtTreeMap.size_insert_le _ _ _ cache.frames _ heapPage.id
    ⟨⟨heapPage, none⟩, cache.nextSerial, origin⟩
  omega

end Cache

namespace Database

variable {db after : Database} {page : PageId}

/-- A place for a page that is not in the cache is made if there is one, or if some page can be
evicted. -/
theorem reserve_of_absent (habsent : db.cache.frames[page]? = none) :
    (db.cache.isFull = true ∧ db.evict = none ∧ db.reserve page = (.error .cacheFull, db)) ∨
      ∃ room, db.reserve page = (.ok .reserved, room) ∧ 0 < room.cache.loading ∧
        room.cache.capacity = db.cache.capacity ∧
        room.cache.occupied ≤ db.cache.occupied + 1 := by
  unfold reserve
  simp only [habsent]
  split
  · rename_i hfull
    split
    · rename_i hevict
      exact .inl ⟨hfull, hevict, rfl⟩
    · rename_i room hevict
      obtain ⟨victim, _, _, rfl⟩ := evict_eq_some hevict
      obtain ⟨hcapacity, hoccupied⟩ := db.cache.occupied_remove victim
      exact .inr ⟨_, rfl, Nat.succ_pos _, hcapacity, Nat.add_le_add_right hoccupied 1⟩
  · exact .inr ⟨_, rfl, Nat.succ_pos _, rfl, Nat.le_refl _⟩

/-- A page that was read takes the place that was made for it. -/
theorem install_ok {loaded : HeapPage × PageFile} (hloading : 0 < db.cache.loading) :
    ∃ ref, (db.install page (.ok loaded)).1 = .ok ref ∧
      (db.install page (.ok loaded)).2.cache.capacity = db.cache.capacity ∧
      (db.install page (.ok loaded)).2.cache.occupied ≤ db.cache.occupied := by
  unfold install
  simp only
  split
  · refine ⟨_, rfl, rfl, ?_⟩
    show db.cache.frames.size + (db.cache.loading - 1) ≤ db.cache.frames.size + db.cache.loading
    omega
  · refine ⟨_, rfl, rfl, ?_⟩
    have hadd := ({ db.cache with loading := db.cache.loading - 1 } : Cache).occupied_add
      loaded.1 loaded.2
    show Cache.occupied (Cache.add _ loaded.1 loaded.2) ≤ _
    refine Nat.le_trans hadd.2 ?_
    show db.cache.frames.size + (db.cache.loading - 1) + 1 ≤ db.cache.frames.size + db.cache.loading
    omega

/-- Reading a page depends only on the catalog and the contents of the files. -/
theorem load_congr (hcatalog : after.catalog = db.catalog)
    (hdirectory : after.storage.directory = db.storage.directory) :
    (after.load page).1 = (db.load page).1 := by
  have hbytes : ∀ file, after.storage.bytes file = db.storage.bytes file := fun file => by
    rw [Storage.bytes, hdirectory, Storage.bytes]
  simp only [load, hcatalog]
  cases db.catalog.heapFile page.table with
  | error error => rfl
  | ok heap =>
      simp only [HeapFile.readPage, Storage.readPage, hbytes]
      by_cases hends : (db.storage.bytes heap.file).length <
          page.number * heap.file.pageSize + heap.file.pageSize
      · simp only [if_pos hends]
      · simp only [if_neg hends]

/-- A page that can be read is fetched, unless the cache is full and no page can be evicted. -/
theorem fetch_of_load {loaded : HeapPage × PageFile} (hload : (db.load page).1 = .ok loaded) :
    (db.cache.frames[page]? = none ∧ db.cache.isFull = true ∧ db.evict = none ∧
        db.fetch page = (.error .cacheFull, db)) ∨
      ∃ ref, (db.fetch page).1 = .ok ref ∧
        (db.fetch page).2.cache.capacity = db.cache.capacity ∧
        (db.fetch page).2.cache.occupied ≤ db.cache.occupied + 1 := by
  unfold fetch
  cases hframe : db.cache.frames[page]? with
  | some resident =>
      rw [reserve_of_resident hframe]
      exact .inr ⟨_, rfl, rfl, Nat.le_succ _⟩
  | none =>
      rcases reserve_of_absent hframe with
        ⟨hfull, hevict, hreserve⟩ | ⟨room, hreserve, hloading, hcapacity, hoccupied⟩
      · rw [hreserve]
        exact .inl ⟨rfl, hfull, hevict, rfl⟩
      · obtain ⟨hfetched, _, hstorage⟩ := Fetched.of_reserve hframe hreserve .cacheFull
        have hread :=
          (load_congr hfetched.catalog (congrArg Storage.directory hstorage)).trans hload
        obtain ⟨storage, hafter, _⟩ := load_eq room page
        have hpair : room.load page = (.ok loaded, { room with storage }) := Prod.ext hread hafter
        obtain ⟨ref, hanswer, hcapacity', hoccupied'⟩ :=
          @install_ok { room with storage } page loaded hloading
        simp only [hreserve, hpair]
        exact .inr ⟨ref, hanswer, hcapacity'.trans hcapacity, Nat.le_trans hoccupied' hoccupied⟩

variable {layout : Layout} {heap : HeapFile} {slots : Nat} {txn : TxnId} {mode : LockMode}

/-- A page that lies within the file of its table can be read. -/
theorem Placed.load_of_covers (hplaced : db.Placed layout)
    (hheap : db.catalog.heapFile page.table = .ok heap)
    (hcovers : layout.Covers db.storage page) : ∃ loaded, (db.load page).1 = .ok loaded := by
  obtain ⟨_, ⟨slots, hslots⟩, hsize⟩ := hplaced.sound.fits page.table heap hheap
  have hlocates := hplaced.locates page.table heap hheap
  have hlies := (hlocates.covers_iff page.number).mp hcovers
  have hlength : (Bytes.slice (db.storage.bytes heap.file) (page.number * heap.file.pageSize)
      heap.file.pageSize).length = db.catalog.pageSize := (Bytes.length_slice hlies).trans hsize
  have hread := Storage.readPage_of_le hlies
  rcases hpair : db.storage.readPage heap.file page.number with ⟨answer, storage⟩
  rw [hpair] at hread
  subst hread
  have hpage : ∃ found, HeapPage.ofBytes (heap.pageId page.number) heap.schema
      (Bytes.slice (db.storage.bytes heap.file) (page.number * heap.file.pageSize)
        heap.file.pageSize) = .ok found := by
    unfold HeapPage.ofBytes
    split
    · rename_i fault hfault
      rw [hlength, hslots] at hfault
      simp at hfault
    · exact ⟨_, rfl⟩
  obtain ⟨found, hfound⟩ := hpage
  unfold Database.load HeapFile.readPage
  simp only [hheap, hpair, hfound]
  exact ⟨_, rfl⟩

/-- A page of the table can be read. -/
theorem Legible.load (hlegible : db.Legible layout heap slots txn)
    (htable : page.table = heap.table) (hfile : page.number < heap.pageCount db.storage) :
    ∃ loaded, (db.load page).1 = .ok loaded :=
  hlegible.placed.load_of_covers (htable ▸ hlegible.registered)
    (hlegible.covers_iff.mpr ⟨htable, hfile⟩)

/-- A page of the table that the transaction has reached under a lock. -/
structure Reached (layout : Layout) (heap : HeapFile) (slots : Nat) (txn : TxnId) (page : PageId)
    (mode : LockMode) (before : Database) (resident : Resident) (after : Database) : Prop where
  legible : after.Legible layout heap slots txn
  sheet : after.sheet layout heap = before.sheet layout heap
  frame : after.cache.frames[page]? = some resident
  exclusive : ∀ other,
    (after.locks.lockOf other).exclusive = (before.locks.lockOf other).exclusive
  holds : ∀ other, after.locks.holdsLock txn other = before.locks.holdsLock txn other
  owner : mode = .exclusive → (after.locks.lockOf page).exclusive = some txn
  image : mode = .exclusive → (after.journal.image? txn page).isSome = true
  capacity : after.cache.capacity = before.cache.capacity
  occupied : after.cache.occupied ≤ before.cache.occupied + 1

/-- A page that was reached takes no lock, so no more pages count as used. -/
theorem Reached.uses {resident : Resident} {capacity : Nat} {used : PageId → Prop}
    (hreached : Reached layout heap slots txn page mode db resident after)
    (huses : db.Uses capacity used txn) : after.Uses capacity used txn where
  capacity := hreached.capacity.trans huses.capacity
  held other hheld := huses.held other (hreached.holds other ▸ hheld)

/-- An access to a page of the table under a lock reaches the page, or the cache is full of other
pages that the transaction has locked, and nothing happens. -/
theorem Legible.access (hlegible : db.Legible layout heap slots txn)
    (htable : page.table = heap.table) (hfile : page.number < heap.pageCount db.storage)
    (hholds : (db.locks.lockOf page).holds txn mode = true) :
    (db.cache.isFull = true ∧ db.access txn page mode = (.error .cacheFull, db) ∧
      Sheet.Crowded db.cache.capacity (fun other => db.locks.holdsLock txn other = true) page) ∨
    ∃ resident after, db.access txn page mode = (.ok ⟨page, resident.serial⟩, after) ∧
      Reached layout heap slots txn page mode db resident after := by
  obtain ⟨loaded, hload⟩ := hlegible.load htable hfile
  rcases fetch_of_load hload with ⟨habsent, hfull, hevict, hfetch⟩ | ⟨ref, href, hcapacity, hoccupied⟩
  · left
    refine ⟨hfull, ?_, hlegible.toSolo.crowded hlegible.toCalm habsent hfull hevict⟩
    unfold Database.access
    rw [hfetch]
  · obtain ⟨hanswer, journal, hafter⟩ := access_eq_fetch db txn page mode
    have hcalm := hlegible.toCalm.access hlegible.placed.sound txn page mode
    have hholds' := (fetched_of_sound hlegible.placed.sound page).holds
    rcases hlegible.toSolo.access hholds with
      ⟨error, after, heq, _⟩ | ⟨resident, after, heq, hsolo, hsteady, hframe, hexclusive⟩
    · rw [heq, href] at hanswer
      exact absurd hanswer.symm (by simp)
    · obtain ⟨_, _, _, _, hkept, _⟩ := access_ok hlegible.placed.sound heq
      rw [heq] at hafter hcalm
      simp only at hafter hcalm
      refine .inr ⟨resident, after, heq, hlegible.of_steady hsolo hcalm hsteady, hsteady.sheet,
        hframe, hkept, fun other => ?_, fun h => (hexclusive h).1, fun h => (hexclusive h).2, ?_, ?_⟩
      · rw [hafter]
        exact hholds' other txn .shared
      · rw [hafter]
        exact hcapacity
      · rw [hafter]
        exact hoccupied

end Database

end RowStore
