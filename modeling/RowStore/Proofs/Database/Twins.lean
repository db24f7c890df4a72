import RowStore.Proofs.Database.Settled
import RowStore.Proofs.Database.Retained
import RowStore.Proofs.Disk.Padded
import RowStore.Proofs.Lock.Alike

/-!
# Databases that cannot be told apart

Two databases over the same tables are twins if their locks are alike, their files are equally long,
every page holds the same in both, in the cache or on disk, and every transaction would put back the
same. They may have different pages in their caches, and different bytes on disk for pages that
are dirty. A fetch and a flush leave a database a twin of what it was: `Tidy.fetch_twins` and
`Tidy.flushEach_twins`. What a transaction does to both of two twins leaves them twins.

The last page of a file may be a partial one, which is filled up when a page is added behind it. So
what a page holds is compared as it reads when it is filled up with zeros: `Layout.padded`.
-/

namespace RowStore

/-- What a page holds, filled up with zeros to the length of a page. -/
def Layout.padded (layout : Layout) (db : Database) (page : PageId) : Bytes :=
  Bytes.resize (layout.contentOf db page) layout.pageSize

variable {layout : Layout}

namespace Database

/-- Cache, journal, and disk agree, and every page in the cache is one of its table. -/
structure Tidy (layout : Layout) (db : Database) : Prop where
  placed : db.Placed layout
  intact : db.Intact layout
  schema : ∀ (page : PageId) (resident : Resident) (heap : HeapFile),
    db.cache.frames[page]? = some resident → db.catalog.heapFile page.table = .ok heap →
    resident.page.schema = heap.schema

/-- The databases differ in nothing but in which pages are in the cache and which are on disk. -/
structure Twins (layout : Layout) (db twin : Database) : Prop where
  catalog : twin.catalog = db.catalog
  locks : LockTable.Alike db.locks twin.locks
  lengths : Storage.SameLengths db.storage twin.storage
  padded : ∀ page, layout.padded twin page = layout.padded db page
  images : ∀ txn page,
    twin.journal.imageBytes? txn page = db.journal.imageBytes? txn page

end Database

/-- Where a page holds the same, it reads the same when it is filled up. -/
theorem Layout.padded_congr {before after : Database} {page : PageId}
    (h : layout.contentOf after page = layout.contentOf before page) :
    layout.padded after page = layout.padded before page := by
  rw [padded, h, padded]

/-- A page that is added to a file changes no other page, but fills up the last one. -/
theorem Layout.padded_append (db : Database) {heap : HeapFile} (hsize : heap.file.pageSize ≠ 0)
    (page : PageId) :
    layout.padded { db with storage := (heap.appendPage db.storage).2 } page =
      layout.padded db page := by
  cases hframe : db.cache.frames[page]? with
  | some resident =>
      have hgrown : ({ db with storage := (heap.appendPage db.storage).2 } :
        Database).cache.frames[page]? = some resident := hframe
      rw [padded, contentOf_of_frame hgrown, padded, contentOf_of_frame hframe]
  | none =>
      have hgrown : ({ db with storage := (heap.appendPage db.storage).2 } :
        Database).cache.frames[page]? = none := hframe
      rw [padded, contentOf_of_absent hgrown, padded, contentOf_of_absent hframe]
      simp only [bytes]
      cases layout.fileOf page.table with
      | none => rfl
      | some name =>
          exact @Storage.pageAt_appendPage db.storage ⟨0, name, layout.pageSize⟩ heap.file hsize
            page.number

/-- Every act leaves a database tidy. -/
theorem Act.tidy {txn : TxnId} {before after : Database} {accesses : List Access}
    {changes : List PageId} (hact : Act txn before accesses changes after)
    (htidy : before.Tidy layout) : after.Tidy layout where
  placed := hact.placed htidy.placed
  intact := hact.intact htidy.placed htidy.intact
  schema page resident heap hframe hheap := by
    rw [hact.catalog] at hheap
    rcases hact.frame page with ⟨hsame, _⟩ | ⟨hnone, _⟩ | ⟨_, _, _, loaded, hloaded, hfresh⟩ |
      ⟨_, _, _, _, found, changed, hfound, hschema, hchanged⟩
    · exact htidy.schema page resident heap (hsame ▸ hframe) hheap
    · simp [hnone] at hframe
    · rw [hframe, Option.some.injEq] at hloaded
      obtain ⟨source, hsource, _, hschema⟩ := hfresh.origin
      rw [hheap, Except.ok.injEq] at hsource
      rw [hloaded, hschema, hsource]
    · rw [hframe, Option.some.injEq] at hchanged
      rw [hchanged]
      exact hschema.trans (htidy.schema page found heap hfound hheap)

/-- Every work leaves a database tidy. -/
theorem Work.tidy {txn : TxnId} {before after : Database} {accesses : List Access}
    {changes : List PageId} (hwork : Work txn before accesses changes after)
    (htidy : before.Tidy layout) : after.Tidy layout :=
  hwork.preserves (Database.Tidy layout) (fun hact h => hact.tidy h) htidy

namespace Database

variable {db twin middle after : Database} {page : PageId} {txn : TxnId}

theorem Opened.tidy (hopened : db.Opened) (hplaced : db.Placed layout) : db.Tidy layout where
  placed := hplaced
  intact := hopened.intact
  schema page resident heap hframe := by
    simp [hopened.sound.2.1] at hframe

namespace Tidy

/-- A flush of a page leaves a database tidy. -/
theorem of_flushed (htidy : db.Tidy layout) (hflushed : Flushed layout page db after) :
    after.Tidy layout where
  placed := hflushed.placed htidy.placed
  intact := hflushed.intact htidy.placed htidy.intact
  schema other resident heap hframe hheap := by
    rw [hflushed.catalog] at hheap
    rcases hflushed.page with ⟨_, _, hsame⟩ | ⟨found, _, hfound, _, _, hset, _⟩
    · exact htidy.schema other resident heap (hsame other ▸ hframe) hheap
    · rw [hset] at hframe
      split at hframe
      · rename_i hpage
        subst hpage
        rw [Option.some.injEq] at hframe
        rw [← hframe]
        exact htidy.schema page found heap hfound hheap
      · exact htidy.schema other resident heap hframe hheap

theorem flushEach (htidy : db.Tidy layout) (pages : List PageId) :
    (db.flushEach pages).2.Tidy layout :=
  flushEach_preserves (Tidy layout) pages
    (fun page _ h => h.of_flushed (flushPage_flushed h.placed page).1) htidy

theorem commit (htidy : db.Tidy layout) (txn : TxnId) : (db.commit txn).2.Tidy layout where
  placed := htidy.placed.commit txn
  intact := (htidy.intact.commit htidy.placed txn).2
  schema := (htidy.flushEach _).schema

theorem abort (htidy : db.Tidy layout) (txn : TxnId) : (db.abort txn).2.Tidy layout where
  placed := htidy.placed.abort txn
  intact := (htidy.intact.abort htidy.placed txn).2.2
  schema page resident heap hframe hheap := by
    obtain ⟨_, hundone, hcatalog, _⟩ := rollBack_undone htidy.placed htidy.intact txn
    have hheap : db.catalog.heapFile page.table = .ok heap := by
      rw [← hcatalog]
      exact hheap
    rcases hundone.frame hframe with ⟨_, found, _, hfound, hschema, _⟩ | ⟨_, hfound⟩
    · exact hschema.trans (htidy.schema page found heap hfound hheap)
    · exact htidy.schema page resident heap hfound hheap

end Tidy

namespace Twins

theorem refl : Twins layout db db :=
  ⟨rfl, .refl, fun _ => rfl, fun _ => rfl, fun _ _ => rfl⟩

theorem symm (htwins : Twins layout db twin) : Twins layout twin db :=
  ⟨htwins.catalog.symm, htwins.locks.symm, fun name => (htwins.lengths name).symm,
    fun page => (htwins.padded page).symm, fun txn page => (htwins.images txn page).symm⟩

theorem trans (hfirst : Twins layout db middle) (hrest : Twins layout middle twin) :
    Twins layout db twin :=
  ⟨hrest.catalog.trans hfirst.catalog, hfirst.locks.trans hrest.locks,
    fun name => (hrest.lengths name).trans (hfirst.lengths name),
    fun page => (hrest.padded page).trans (hfirst.padded page),
    fun txn page => (hrest.images txn page).trans (hfirst.images txn page)⟩

end Twins

/-- A fetch, whatever it comes to, leaves a database a twin of what it was. -/
theorem Tidy.fetch_twins (htidy : db.Tidy layout) (hconsistent : db.locks.Consistent)
    (page : PageId) : Twins layout db (db.fetch page).2 := by
  have hfetched := fetched_of_sound htidy.placed.sound page
  have hact : Act ⟨0⟩ db [] [] (db.fetch page).2 := .fetch hfetched
  refine ⟨hfetched.catalog, ?_, fun name => by rw [hfetched.directory], fun other => ?_,
    fun txn other => by rw [hfetched.journal]⟩
  · rcases locks_fetch db page with hsame | ⟨victim, hreclaimed⟩
    · rw [hsame]
      exact .refl
    · rw [hreclaimed]
      exact .of_reclaim hconsistent victim
  · exact Layout.padded_congr (hact.contentOf htidy.placed htidy.intact
      (layout.bytes_of_directory hfetched.directory other).1 List.not_mem_nil)

/-- A flush leaves a database a twin of what it was. -/
theorem Tidy.flushEach_twins (htidy : db.Tidy layout) (pages : List PageId) :
    Twins layout db (db.flushEach pages).2 := by
  refine (flushEach_preserves (fun other => other.Tidy layout ∧ Twins layout db other) pages
    (fun page _ h => ?_) ⟨htidy, .refl⟩).2
  obtain ⟨hflushed, _⟩ := flushPage_flushed h.1.placed page
  refine ⟨h.1.of_flushed hflushed, h.2.trans ⟨hflushed.catalog, ?_, hflushed.lengths,
    fun other => Layout.padded_congr (hflushed.contentOf other), hflushed.imageBytes⟩⟩
  rw [hflushed.locks]
  exact .refl

/-- What a page holds after a transaction has undone its changes: its before-image, or what it held
before. -/
theorem Undone.contentOf (hundone : Undone layout txn db after) (page : PageId) :
    layout.contentOf after page =
      (db.journal.imageBytes? txn page).getD (layout.contentOf db page) := by
  cases himage : db.journal.image? txn page with
  | none =>
      obtain ⟨hframe, hbytes⟩ := hundone.others page himage
      rw [Journal.imageBytes?, himage, Layout.contentOf_congr hframe hbytes]
      rfl
  | some image =>
      obtain ⟨hbytes, habsent, hresident⟩ := hundone.restored page image himage
      rw [Journal.imageBytes?, himage]
      cases hframe : db.cache.frames[page]? with
      | none =>
          rw [Layout.contentOf_of_absent (habsent hframe), hbytes]
          rfl
      | some resident =>
          obtain ⟨restored, hrestored, _, hsame, _⟩ := hresident resident hframe
          rw [Layout.contentOf_of_frame hrestored, hsame]
          rfl

namespace Twins

/-- Twins have tables of the same sizes. -/
theorem pageCount (htwins : Twins layout db twin) (heap : HeapFile) :
    heap.pageCount twin.storage = heap.pageCount db.storage := by
  simp only [HeapFile.pageCount, Storage.pageCount, Storage.bytes, htwins.lengths heap.file.name]

theorem setLocks (htwins : Twins layout db twin) {locks others : LockTable}
    (halike : LockTable.Alike locks others) :
    Twins layout { db with locks } { twin with locks := others } :=
  ⟨htwins.catalog, halike, htwins.lengths, htwins.padded, htwins.images⟩

/-- Both add a page to a file, which gets the same number. -/
theorem append (htwins : Twins layout db twin) {heap : HeapFile}
    (hsize : heap.file.pageSize ≠ 0) :
    (heap.appendPage twin.storage).1 = (heap.appendPage db.storage).1 ∧
      Twins layout { db with storage := (heap.appendPage db.storage).2 }
        { twin with storage := (heap.appendPage twin.storage).2 } := by
  have hlength : (twin.storage.bytes heap.file).length = (db.storage.bytes heap.file).length :=
    htwins.lengths heap.file.name
  refine ⟨?_, htwins.catalog, htwins.locks, fun name => ?_, fun page => ?_, htwins.images⟩
  · simp only [HeapFile.appendPage, Storage.appendPage, hlength]
  · simp only [HeapFile.appendPage, Storage.appendPage, Storage.content_putBytes]
    split
    · simp only [Bytes.length_resize, hlength]
    · exact htwins.lengths name
  · rw [Layout.padded_append twin hsize, Layout.padded_append db hsize, htwins.padded]

/-- Both note what a page holds. -/
theorem note (htwins : Twins layout db twin) (txn : TxnId) (page : PageId) (bytes : Bytes) :
    Twins layout { db with journal := db.journal.record txn page bytes }
      { twin with journal := twin.journal.record txn page bytes } := by
  refine ⟨htwins.catalog, htwins.locks, htwins.lengths, htwins.padded, fun other target => ?_⟩
  have hrecord : ∀ journal : Journal, (journal.record txn page bytes).imageBytes? other target =
      if txn = other ∧ page = target then some ((journal.imageBytes? txn page).getD bytes)
      else journal.imageBytes? other target := by
    intro journal
    simp only [Journal.imageBytes?, Journal.image?_record]
    split
    · cases journal.image? txn page <;> rfl
    · rfl
  rw [hrecord, hrecord, htwins.images, htwins.images]

/-- Both change a page that is in the cache of either. -/
theorem setFrame (htwins : Twins layout db twin) {resident other : Resident}
    (hframe : db.cache.frames[page]? = some resident)
    (hother : twin.cache.frames[page]? = some other) (frame : Frame) :
    Twins layout { db with cache := db.cache.setFrame page frame }
      { twin with cache := twin.cache.setFrame page frame } := by
  refine ⟨htwins.catalog, htwins.locks, htwins.lengths, fun target => ?_, htwins.images⟩
  have hset : ∀ {before : Database} {found : Resident},
      before.cache.frames[page]? = some found →
      layout.padded { before with cache := before.cache.setFrame page frame } target =
        if page = target then Bytes.resize frame.page.bytes layout.pageSize
        else layout.padded before target := by
    intro before found hfound
    have hset := Cache.frames_setFrame_of_resident before.cache page target hfound frame
    split
    · rename_i hpage
      rw [if_pos hpage] at hset
      rw [Layout.padded, Layout.contentOf, cached?, hset]
      rfl
    · rename_i hpage
      rw [if_neg hpage] at hset
      rw [Layout.padded, Layout.contentOf, cached?, hset]
      rfl
  rw [hset hother, hset hframe, htwins.padded]

/-- Both forget the before-images of a transaction and release its locks. -/
theorem finish (htwins : Twins layout db twin) (txn : TxnId) :
    Twins layout (db.finish txn) (twin.finish txn) := by
  refine ⟨htwins.catalog, htwins.locks.releaseAll txn, htwins.lengths, htwins.padded,
    fun other page => ?_⟩
  simp only [Journal.imageBytes?, image?_finish]
  split
  · rfl
  · exact htwins.images other page

/-- Both commit a transaction. -/
theorem commit (htwins : Twins layout db twin) (htidy : db.Tidy layout) (hother : twin.Tidy layout)
    (txn : TxnId) : Twins layout (db.commit txn).2 (twin.commit txn).2 :=
  ((htidy.flushEach_twins _).symm.trans (htwins.trans (hother.flushEach_twins _))).finish txn

/-- Both undo the changes of a transaction. -/
theorem rollBack (htwins : Twins layout db twin) (htidy : db.Tidy layout)
    (hother : twin.Tidy layout) (txn : TxnId) :
    Twins layout (db.rollBack txn).2 (twin.rollBack txn).2 := by
  obtain ⟨_, hundone, _⟩ := rollBack_undone htidy.placed htidy.intact txn
  obtain ⟨_, hundone', _⟩ := rollBack_undone hother.placed hother.intact txn
  obtain ⟨_, _, hunrelated, _⟩ := rollBack_putBack htidy.placed txn
  obtain ⟨_, _, hunrelated', _⟩ := rollBack_putBack hother.placed txn
  refine ⟨?_, ?_, fun name => ?_, fun page => ?_, fun other page => ?_⟩
  · rw [hunrelated'.catalog, hunrelated.catalog, htwins.catalog]
  · rw [hunrelated'.locks, hunrelated.locks]
    exact htwins.locks
  · rw [hunrelated'.lengths, htwins.lengths, hunrelated.lengths]
  · simp only [Layout.padded, hundone'.contentOf, hundone.contentOf, htwins.images]
    cases db.journal.imageBytes? txn page with
    | none => exact htwins.padded page
    | some bytes => rfl
  · rw [hunrelated'.journal, hunrelated.journal, htwins.images]

/-- Both abort a transaction. -/
theorem abort (htwins : Twins layout db twin) (htidy : db.Tidy layout) (hother : twin.Tidy layout)
    (txn : TxnId) : Twins layout (db.abort txn).2 (twin.abort txn).2 :=
  (htwins.rollBack htidy hother txn).finish txn

/-- Twins in which nobody holds a page exclusively have the same bytes in the files of their
tables. -/
theorem bytes_eq (htwins : Twins layout db twin) (htidy : db.Tidy layout)
    (hother : twin.Tidy layout) (hfree : ∀ page, (db.locks.lockOf page).exclusive = none)
    {table : TableId} {file : PageFile} (hlocates : layout.Locates table file)
    (hsize : file.pageSize ≠ 0) : twin.storage.bytes file = db.storage.bytes file := by
  have hpage : ∀ {before : Database}, before.Tidy layout →
      (∀ page, (before.locks.lockOf page).exclusive = none) → ∀ number,
      layout.padded before ⟨table, number⟩ = before.storage.pageAt file number := by
    intro before hbefore hidle number
    rw [Layout.padded, Layout.contentOf_of_free hbefore.placed hbefore.intact (hidle _),
      Layout.settled_of_free (hidle _), hlocates.bytes_eq, Storage.pageAt, hlocates.2]
  refine Storage.bytes_eq_of_pageAt hsize (htwins.lengths file.name) fun number => ?_
  rw [← hpage htidy hfree, ← hpage hother fun page => by rw [htwins.locks.lockOf, hfree],
    htwins.padded]

end Twins

end Database

end RowStore
