import RowStore.Proofs.Cache.Reference
import RowStore.Proofs.Database.Stride
import RowStore.Proofs.Disk.Padded
import RowStore.Proofs.Session.Guarded

/-!
# A table whose pages are those of its file

`Renewed` says of a table that keeps its pages in a file what they may hold: those in the cache,
those in the file, and those that were noted for a transaction, unless it is stale. A page that
comes into the cache, a change, or a note keeps this so if what it brings may be there, and so do
flushes and the end of a transaction that is not stale. A reference leads to a frame of which the
same is said, `Leads`, wherever the frame is.
-/

namespace RowStore

namespace Catalog

/-- If the table is registered it keeps its pages in this file, and no other table does. -/
structure Keeps (catalog : Catalog) (table : TableId) (file : PageFile) : Prop where
  own : ∀ heap, catalog.heapFile table = .ok heap →
    heap.file.name = file.name ∧ heap.file.pageSize = file.pageSize
  apart : ∀ other heap, catalog.heapFile other = .ok heap → heap.file.name = file.name →
    other = table

variable {catalog : Catalog} {table : TableId} {file : PageFile}

/-- Which file a table keeps its pages in can be seen from the list of tables. -/
theorem keeps_iff : catalog.Keeps table file ↔ ∀ entry ∈ catalog.tables.toList,
    (entry.1 = table →
      entry.2.heap.file.name = file.name ∧ entry.2.heap.file.pageSize = file.pageSize) ∧
    (entry.2.heap.file.name = file.name → entry.1 = table) := by
  constructor
  · intro hkeeps entry hentry
    rw [Std.ExtTreeMap.mem_toList_iff_getElem?_eq_some] at hentry
    have hheap := heapFile_eq_ok_iff.mpr ⟨entry.2, hentry, rfl⟩
    exact ⟨fun htable => hkeeps.own _ (htable ▸ hheap), hkeeps.apart _ _ hheap⟩
  · intro hlist
    have hentry : ∀ other heap, catalog.heapFile other = .ok heap →
        (other = table → heap.file.name = file.name ∧ heap.file.pageSize = file.pageSize) ∧
          (heap.file.name = file.name → other = table) := by
      intro other heap hheap
      obtain ⟨info, hinfo, rfl⟩ := heapFile_eq_ok_iff.mp hheap
      exact hlist (other, info) (Std.ExtTreeMap.mem_toList_iff_getElem?_eq_some.mpr hinfo)
    exact ⟨fun heap hheap => (hentry table heap hheap).1 rfl,
      fun other heap hheap => (hentry other heap hheap).2⟩

instance (catalog : Catalog) (table : TableId) (file : PageFile) :
    Decidable (catalog.Keeps table file) :=
  decidable_of_iff' _ keeps_iff

end Catalog

/-- The file of a table under another name of the file: the pages are the same. -/
theorem Storage.pageAt_of_names {file other : PageFile} (hname : other.name = file.name)
    (hsize : other.pageSize = file.pageSize) (storage : Storage) (number : Nat) :
    storage.pageAt other number = storage.pageAt file number := by
  rw [pageAt, pageAt, bytes, hname, hsize, bytes]

/-- The pages of a table hold what they may, in the cache, in the file, and in the journal of every
transaction that is not stale. -/
structure Database.Renewed (db : Database) (table : TableId) (file : PageFile)
    (stale : TxnId → Prop) (may : PageId → Bytes → Prop) : Prop where
  keeps : db.catalog.Keeps table file
  frame : ∀ (page : PageId) (resident : Resident), page.table = table →
    db.cache.frames[page]? = some resident →
    resident.page.id = page ∧ resident.origin.name = file.name ∧ may page resident.page.bytes
  image : ∀ (txn : TxnId) (page : PageId) (image : BeforeImage), page.table = table →
    ¬ stale txn → db.journal.image? txn page = some image → may page image.bytes
  disk : ∀ page : PageId, page.table = table → may page (db.storage.pageAt file page.number)

variable {table : TableId} {file : PageFile} {stale : TxnId → Prop}
  {may later : PageId → Bytes → Prop} {db before after : Database} {txn : TxnId} {page : PageId}

/-- What pages may hold they may hold later. -/
theorem Database.Renewed.mono (hrenewed : db.Renewed table file stale may)
    (h : ∀ page bytes, may page bytes → later page bytes) : db.Renewed table file stale later where
  keeps := hrenewed.keeps
  frame page resident htable hframe :=
    let ⟨hid, horigin, hmay⟩ := hrenewed.frame page resident htable hframe
    ⟨hid, horigin, h _ _ hmay⟩
  image txn page image htable hfresh himage :=
    h _ _ (hrenewed.image txn page image htable hfresh himage)
  disk page htable := h _ _ (hrenewed.disk page htable)

/-- The reference leads to a frame of its page, which holds what the page may. -/
def Database.Leads (db : Database) (may : PageId → Bytes → Prop) (ref : FrameRef) : Prop :=
  ∃ frame, db.frame? ref = some frame ∧ frame.page.id = ref.page ∧ may ref.page frame.page.bytes

/-- What a page may hold that a reference leads to it may hold later. -/
theorem Database.Leads.mono {ref : FrameRef} (hleads : db.Leads may ref)
    (h : ∀ page bytes, may page bytes → later page bytes) : db.Leads later ref := by
  obtain ⟨frame, hframe, hid, hmay⟩ := hleads
  exact ⟨frame, hframe, hid, h _ _ hmay⟩

namespace Database.Renewed

variable {cache : Cache} {ref : FrameRef}

/-- A reference to a frame in the cache leads to a page that holds what it may. -/
theorem leads (hrenewed : db.Renewed table file stale may) (htable : ref.page.table = table)
    (hshows : db.cache.Shows ref) : db.Leads may ref := by
  obtain ⟨resident, hresident, hframe⟩ := hshows.frame?
  obtain ⟨hid, _, hmay⟩ := hrenewed.frame ref.page resident htable hresident
  exact ⟨resident.toFrame, hframe, hid, hmay⟩

/-- The pages of a table hold what they may if those that have come into the cache do. -/
theorem withCache (hrenewed : db.Renewed table file stale may)
    (hframes : ∀ (page : PageId) (resident : Resident), page.table = table →
      cache.frames[page]? = some resident → db.cache.frames[page]? = some resident ∨
        resident.page.id = page ∧ resident.origin.name = file.name ∧
          may page resident.page.bytes) :
    Database.Renewed { db with cache } table file stale may where
  keeps := hrenewed.keeps
  frame page resident htable hframe :=
    (hframes page resident htable hframe).elim (hrenewed.frame page resident htable) id
  image := hrenewed.image
  disk := hrenewed.disk

/-- The frame that a reference leads to gets other contents, which its page may hold. -/
theorem putFrame (hrenewed : db.Renewed table file stale may) {frame changed : Frame}
    (h : ∀ page bytes, may page bytes → later page bytes)
    (hframe : db.frame? ref = some frame) (hid : changed.page.id = frame.page.id)
    (hmay : frame.page.id.table = table → may frame.page.id frame.page.bytes →
      later frame.page.id changed.page.bytes) :
    Database.Renewed { db with cache := db.cache.putFrame ref changed } table file stale later := by
  refine (hrenewed.mono h).withCache fun page resident htable hafter => ?_
  rcases Cache.frames_putFrame hframe changed page with hsame | ⟨found, hfound, rfl, hput⟩
  · exact .inl (hsame ▸ hafter)
  · obtain ⟨rfl, horigin, hheld⟩ := hrenewed.frame page found htable hfound
    obtain rfl := Option.some.inj (hput.symm.trans hafter)
    exact .inr ⟨hid, horigin, hmay htable hheld⟩

/-- What pages hold has nothing to do with their locks. -/
theorem withLocks (hrenewed : db.Renewed table file stale may) (locks : LockTable) :
    Database.Renewed { db with locks } table file stale may :=
  ⟨hrenewed.keeps, hrenewed.frame, hrenewed.image, hrenewed.disk⟩

/-- The pages of a table hold what they may if its file has the pages that it had. -/
theorem withStorage (hrenewed : db.Renewed table file stale may) {storage : Storage}
    (hpages : ∀ number, storage.pageAt file number = db.storage.pageAt file number) :
    Database.Renewed { db with storage } table file stale may where
  keeps := hrenewed.keeps
  frame := hrenewed.frame
  image := hrenewed.image
  disk page htable := by
    show may page (storage.pageAt file page.number)
    rw [hpages]
    exact hrenewed.disk page htable

/-- What a page holds that a reference leads to may be noted. -/
theorem noteFor (hrenewed : db.Renewed table file stale may) (txn : TxnId)
    (hleads : ref.page.table = table → db.Leads may ref) (mode : LockMode) :
    (db.noteFor txn ref mode).Renewed table file stale may := by
  cases mode with
  | shared => exact hrenewed
  | exclusive =>
      simp only [Database.noteFor, noteBefore]
      split
      · exact hrenewed
      · rename_i frame hframe
        refine ⟨hrenewed.keeps, hrenewed.frame, ?_, hrenewed.disk⟩
        intro other page image htable hfresh himage
        rw [Journal.image?_record] at himage
        split at himage
        · rename_i hsame
          obtain ⟨rfl, rfl⟩ := hsame
          rw [Option.some.injEq] at himage
          cases hnoted : db.journal.image? txn ref.page with
          | some found =>
              rw [hnoted] at himage
              rw [← himage]
              exact hrenewed.image txn ref.page found htable hfresh hnoted
          | none =>
              obtain ⟨found, hfound, _, hmay⟩ := hleads htable
              obtain rfl := Option.some.inj (hframe.symm.trans hfound)
              rw [hnoted] at himage
              rw [← himage]
              exact hmay
        · exact hrenewed.image other page image htable hfresh himage

/-- A page that is read holds what it may, and comes from the file of its table. -/
theorem load (hrenewed : db.Renewed table file stale may) (hsound : db.catalog.Sound)
    (htable : page.table = table) {heapPage : HeapPage} {origin : PageFile}
    (hload : db.load page = (.ok (heapPage, origin), after)) :
    heapPage.id = page ∧ origin.name = file.name ∧ may page heapPage.bytes := by
  have hloaded := load_eq_ok (fun heap hheap => (hsound.fits _ heap hheap).table) hload 0
  obtain ⟨heap, hheap, horigin, _⟩ := hloaded.origin
  have hcovers := hloaded.covers
  have hbytes := hloaded.bytes
  simp only at horigin hcovers hbytes
  rw [htable] at hheap
  obtain ⟨hname, hsize⟩ := hrenewed.keeps.own heap hheap
  refine ⟨hloaded.id, by rw [horigin, hname], ?_⟩
  rw [hbytes, ← Storage.pageAt_of_le hcovers, horigin, Storage.pageAt_of_names hname hsize]
  exact hrenewed.disk page htable

end Database.Renewed

namespace Database.Renewed

/-- A page that is written to its file holds there what was written, and no page of the table is
changed if it was another table's. -/
theorem disk_write (hrenewed : db.Renewed table file stale may) {heap : HeapFile}
    {storage : Storage} {number : Nat} {bytes : Bytes}
    (hheap : db.catalog.heapFile page.table = .ok heap)
    (hwrite : db.storage.writePage heap.file number bytes = (.ok (), storage))
    (hmay : page.table = table → number = page.number ∧ may page bytes) (other : PageId)
    (hother : other.table = table) : may other (storage.pageAt file other.number) := by
  by_cases htable : page.table = table
  · obtain ⟨rfl, hmay⟩ := hmay htable
    rw [htable] at hheap
    obtain ⟨hname, hsize⟩ := hrenewed.keeps.own heap hheap
    rw [← Storage.pageAt_of_names hname hsize, Storage.pageAt_writePage hwrite,
      Storage.pageAt_of_names hname hsize]
    split
    · rename_i hnumber
      have hsame : other = page := by
        obtain ⟨_, _⟩ := other
        obtain ⟨_, _⟩ := page
        simp_all
      rwa [hsame]
    · exact hrenewed.disk other hother
  · have hname : heap.file.name ≠ file.name := fun hname =>
      htable (hrenewed.keeps.apart _ heap hheap hname)
    have hsame := db.storage.pageAt_writePage_other hname bytes number other.number
    rw [hwrite] at hsame
    rw [hsame]
    exact hrenewed.disk other hother

/-- A flush leaves the pages of a table holding what they may. -/
theorem of_flush (hrenewed : before.Renewed table file stale may)
    (hflush : MayFlush page before after) : after.Renewed table file stale may where
  keeps := by
    rw [hflush.catalog]
    exact hrenewed.keeps
  frame other resident htable hframe := by
    rcases hflush.frames other with hsame | ⟨_, found, hbefore, hafter⟩
    · exact hrenewed.frame other resident htable (hsame ▸ hframe)
    · rw [hframe, Option.some.injEq] at hafter
      subst hafter
      exact hrenewed.frame other found htable hbefore
  image other target image htable hfresh himage := by
    rcases hflush.journal with hsame | ⟨owner, _, hmarked⟩
    · exact hrenewed.image other target image htable hfresh (hsame ▸ himage)
    · rw [hmarked, Journal.image?_markStolen] at himage
      split at himage
      · obtain ⟨found, hfound, rfl⟩ := Option.map_eq_some_iff.mp himage
        exact hrenewed.image other target found htable hfresh hfound
      · exact hrenewed.image other target image htable hfresh himage
  disk other hother := by
    rcases hflush.storage with hsame | ⟨resident, heap, hframe, _, hheap, hwrite⟩
    · rw [hsame]
      exact hrenewed.disk other hother
    · simp only [HeapFile.writePage] at hwrite
      split at hwrite
      · simp at hwrite
      · refine hrenewed.disk_write hheap hwrite (fun htable => ?_) other hother
        obtain ⟨hid, _, hmay⟩ := hrenewed.frame page resident htable hframe
        exact ⟨by rw [hid], hmay⟩

/-- Putting back a before-image leaves the pages of a table holding what they may, if the page may
hold what is put back. -/
theorem of_restore {bytes : Bytes} (hrenewed : before.Renewed table file stale may)
    (hrestore : MayRestore page bytes before after) (hmay : page.table = table → may page bytes) :
    after.Renewed table file stale may where
  keeps := by
    rw [hrestore.catalog]
    exact hrenewed.keeps
  frame other resident htable hframe := by
    rcases hrestore.frames other with hsame | ⟨rfl, found, restored, _, hbefore, hput, hafter⟩
    · exact hrenewed.frame other resident htable (hsame ▸ hframe)
    · rw [hframe, Option.some.injEq] at hafter
      subst hafter
      obtain ⟨hid, horigin, _⟩ := hrenewed.frame other found htable hbefore
      obtain ⟨hkept, hbytes⟩ := HeapPage.restore_eq_ok hput
      exact ⟨hkept.trans hid, horigin, by rw [hbytes]; exact hmay htable⟩
  image other target image htable hfresh himage := by
    rw [hrestore.journal] at himage
    exact hrenewed.image other target image htable hfresh himage
  disk other hother := by
    rcases hrestore.storage with hsame | ⟨heap, hheap, hwrite⟩
    · rw [hsame]
      exact hrenewed.disk other hother
    · exact hrenewed.disk_write hheap hwrite (fun htable => ⟨rfl, hmay htable⟩) other hother

/-- Flushes leave the pages of a table holding what they may. -/
theorem flushEach (hrenewed : db.Renewed table file stale may) (pages : List PageId) :
    (db.flushEach pages).2.Renewed table file stale may :=
  flushEach_preserves (fun after => after.Renewed table file stale may) pages
    (fun page _ h => h.of_flush (flushPage_mayFlush _ page)) hrenewed

/-- Putting back before-images leaves the pages of a table holding what they may, if they may hold
what is put back. -/
theorem restoreEach (hrenewed : db.Renewed table file stale may)
    (images : List (PageId × BeforeImage))
    (hmay : ∀ entry ∈ images, entry.1.table = table → may entry.1 entry.2.bytes) :
    (db.restoreEach txn images).2.Renewed table file stale may := by
  induction images generalizing db with
  | nil => exact hrenewed
  | cons entry rest ih =>
      obtain ⟨page, image⟩ := entry
      exact ih (hrenewed.of_restore (restore_mayRestore db txn page image.bytes)
        (hmay _ (List.mem_cons_self ..)))
        fun entry hentry => hmay entry (List.mem_cons_of_mem _ hentry)

/-- The end of a transaction leaves the pages of a table as they are. -/
theorem finish (hrenewed : db.Renewed table file stale may) (txn : TxnId) :
    (db.finish txn).Renewed table file stale may where
  keeps := hrenewed.keeps
  frame := hrenewed.frame
  image other page image htable hfresh himage := by
    rw [image?_finish] at himage
    split at himage
    · simp at himage
    · exact hrenewed.image other page image htable hfresh himage
  disk := hrenewed.disk

/-- An abort of a transaction that is not stale leaves the pages of a table holding what they
may. -/
theorem abort (hrenewed : db.Renewed table file stale may) (hfresh : ¬ stale txn) :
    (db.abort txn).2.Renewed table file stale may := by
  refine Renewed.finish (hrenewed.restoreEach _ ?_) txn
  rintro ⟨page, image⟩ hentry htable
  exact hrenewed.image txn page image htable hfresh
    ((db.journal.mem_imagesOf txn page image).mp hentry)

/-- A change of the catalog after which the table keeps its pages in the file, and no other table
does, leaves them holding what they may. -/
theorem of_harmless (hrenewed : db.Renewed table file stale may) {catalog : Catalog}
    {storage : Storage} (hharmless : Harmless db.catalog db.storage catalog storage)
    (hkeeps : catalog.Keeps table file) :
    Database.Renewed { db with catalog, storage } table file stale may where
  keeps := hkeeps
  frame := hrenewed.frame
  image := hrenewed.image
  disk page htable := by
    have hsame : storage.pageAt file page.number = db.storage.pageAt file page.number :=
      Storage.pageAt_congr (hharmless.content file.name) page.number
    rw [hsame]
    exact hrenewed.disk page htable

end Database.Renewed

namespace Database

/-- No frame is left of the pages of a table that were dropped. -/
theorem frames_discardTable (db : Database) (table : TableId) (page : PageId) :
    (db.discardTable table).cache.frames[page]? =
      if page.table = table then none else db.cache.frames[page]? := by
  show (Cache.removeTable db.cache table).frames[page]? = _
  rw [Cache.removeTable, Cache.frames_removeEach]
  by_cases htable : page.table = table
  · rw [if_pos htable]
    split
    · rfl
    · rename_i habsent
      simpa [htable] using habsent
  · rw [if_neg htable, if_neg]
    simp [htable]

/-- A table whose pages were dropped from the cache holds what its file holds, but for what was
noted for transactions before. -/
theorem renewed_discardTable (hkeeps : db.catalog.Keeps table file)
    (hmay : ∀ page : PageId, page.table = table → may page (db.storage.pageAt file page.number)) :
    (db.discardTable table).Renewed table file
      (fun txn => ∃ page, page.table = table ∧ (db.journal.image? txn page).isSome = true) may where
  keeps := hkeeps
  frame page resident htable hframe := by
    rw [frames_discardTable, if_pos htable] at hframe
    simp at hframe
  image txn page image htable hfresh himage := by
    have himage : db.journal.image? txn page = some image := himage
    exact absurd ⟨page, htable, by rw [himage]; rfl⟩ hfresh
  disk := hmay

end Database

end RowStore
