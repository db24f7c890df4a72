import RowStore.Proofs.Catalog.Attempts
import RowStore.Proofs.Database.Writing

/-!
# Ends of transactions that fail

The end of a transaction is a list of attempts to write. An abort tries to write each before-image
that is owed to the disk, since changes may have reached it or the page is not in the cache, and
goes on past a failure: `restoreEach_past`. A commit tries to write the pages that the transaction
dirtied, and stops at the first failure: `flushEach_until`. What happens to the frames follows from
which attempts fail.
-/

namespace RowStore

/-- What a list of attempts comes to: the first failure, if there is one. -/
def verdictOn (failures : List (PageId × Error)) : Except Error Unit :=
  match failures.head? with
  | none => .ok ()
  | some (_, error) => .error error

namespace Database

variable {db : Database} {txn : TxnId} {page : PageId} {bytes : Bytes} {resident : Resident}

/-- What is at the place of a page is what the page holds on disk. -/
theorem onDisk_eq_bytesAt (db : Database) (page : PageId) :
    db.onDisk page = db.catalog.bytesAt db.storage page := rfl

/-- A before-image is written to the place of its page. -/
theorem writeImage_eq_writeAt (db : Database) (page : PageId) (bytes : Bytes) :
    db.writeImage page bytes = ((db.catalog.writeAt db.storage page bytes).1,
      { db with storage := (db.catalog.writeAt db.storage page bytes).2 }) := by
  simp only [writeImage, Catalog.writeAt]
  cases db.catalog.heapFile page.table <;> rfl

/-- The before-images that an abort has to write to disk. -/
def owed (db : Database) (images : List (PageId × BeforeImage)) : List (PageId × Bytes) :=
  images.filterMap fun entry =>
    if entry.2.stolen || db.cache.frames[entry.1]?.isNone then some (entry.1, entry.2.bytes)
    else none

/-- The pages that before-images are owed to are among those of the images, in their order. -/
theorem owed_sublist (db : Database) (images : List (PageId × BeforeImage)) :
    ((db.owed images).map Prod.fst).Sublist (images.map Prod.fst) := by
  induction images with
  | nil => exact .slnil
  | cons entry rest ih =>
      simp only [owed, List.filterMap_cons] at ih ⊢
      split
      · exact ih.cons _
      · rename_i found hfound
        split at hfound
        · rw [← Option.some.inj hfound]
          exact ih.cons_cons _
        · simp at hfound

/-- What is owed depends only on which of the pages are in the cache. -/
theorem owed_congr {before after : Database} {images : List (PageId × BeforeImage)}
    (hframes : ∀ entry ∈ images,
      after.cache.frames[entry.1]? = before.cache.frames[entry.1]?) :
    after.owed images = before.owed images := by
  induction images with
  | nil => rfl
  | cons entry rest ih =>
      have hrest := ih fun other hother => hframes other (List.mem_cons_of_mem _ hother)
      simp only [owed, List.filterMap_cons] at hrest ⊢
      rw [hframes entry List.mem_cons_self, hrest]

theorem owed_cons (db : Database) (entry : PageId × BeforeImage)
    (rest : List (PageId × BeforeImage)) :
    db.owed (entry :: rest) = db.owed [entry] ++ db.owed rest :=
  @List.filterMap_append _ _ [entry] rest _

theorem owed_singleton (db : Database) (page : PageId) (image : BeforeImage) :
    db.owed [(page, image)] =
      if image.stolen || db.cache.frames[page]?.isNone then [(page, image.bytes)] else [] := by
  cases hneeds : image.stolen || db.cache.frames[page]?.isNone <;>
    simp only [owed, List.filterMap_cons, List.filterMap_nil, hneeds, if_true,
      Bool.false_eq_true, if_false]

/-- What putting back a before-image does: it is tried to write it if it is owed, and the frame of
its page holds its bytes, and is dirty if that failed. -/
structure Tried (txn : TxnId) (page : PageId) (image : BeforeImage) (before : Database)
    (failures : List (PageId × Error)) (after : Database) : Prop where
  catalog : after.catalog = before.catalog
  journal : after.journal = before.journal
  others : ∀ other, other ≠ page → after.cache.frames[other]? = before.cache.frames[other]?
  attempt : before.catalog.writeEach before.storage (before.owed [(page, image)]) =
    (failures, after.storage)
  frame : ∀ resident : Resident, before.cache.frames[page]? = some resident →
    ∃ restored : HeapPage, restored.id = resident.page.id ∧ restored.bytes = image.bytes ∧
      after.cache.frames[page]? = some { resident with
        toFrame := ⟨restored, if failures.isEmpty then none else some txn⟩ }

/-- A before-image that is as long as its page is put back in the cache, and on disk if it is owed
and can be written. -/
theorem restore_tried {image : BeforeImage}
    (hlength : ∀ resident, db.cache.frames[page]? = some resident →
      image.bytes.length = resident.page.bytes.length)
    (hstolen : db.journal.isStolen txn page = image.stolen) :
    ∃ failures, (db.restore txn page image.bytes).1 = verdictOn failures ∧
      Tried txn page image db failures (db.restore txn page image.bytes).2 := by
  obtain ⟨_, hcatalog, _, hjournal, _, hframes⟩ := restore_mayRestore db txn page image.bytes
  have hothers : ∀ other, other ≠ page →
      (db.restore txn page image.bytes).2.cache.frames[other]? = db.cache.frames[other]? := by
    intro other hother
    rcases hframes other with hsame | ⟨hpage, _⟩
    · exact hsame
    · exact absurd hpage hother
  have hattempt := db.catalog.writeAt_cases db.storage page image.bytes
  cases hframe : db.cache.frames[page]? with
  | none =>
      have hrestore : db.restore txn page image.bytes = db.writeImage page image.bytes := by
        simp only [restore, hframe]
      rw [hrestore, writeImage_eq_writeAt] at hcatalog hjournal hothers ⊢
      rcases hattempt with ⟨error, hwrite⟩ | ⟨after, hwrite⟩
      · refine ⟨[(page, error)], by rw [hwrite]; rfl, hcatalog, hjournal, hothers, ?_, ?_⟩
        · simp [owed_singleton, hframe, Catalog.writeEach, hwrite]
        · simp [hframe]
      · refine ⟨[], by rw [hwrite]; rfl, hcatalog, hjournal, hothers, ?_, ?_⟩
        · simp [owed_singleton, hframe, Catalog.writeEach, hwrite]
        · simp [hframe]
  | some resident =>
      obtain ⟨restored, hrestored, hid, _, hbytes⟩ :=
        HeapPage.restore_of_length (hlength resident hframe)
      have hset : ∀ frame, (db.cache.setFrame page frame).frames[page]? =
          some { resident with toFrame := frame } := fun frame =>
        (Cache.frames_setFrame_of_resident _ _ _ hframe frame).trans (if_pos rfl)
      cases himage : image.stolen with
      | false =>
          have hrestore : db.restore txn page image.bytes =
              (.ok (), { db with cache := db.cache.setFrame page ⟨restored, none⟩ }) := by
            simp only [restore, hframe, hrestored, hstolen, himage, Bool.false_eq_true, if_false]
          rw [hrestore] at hcatalog hjournal hothers ⊢
          refine ⟨[], rfl, hcatalog, hjournal, hothers, ?_, ?_⟩
          · simp [owed_singleton, hframe, himage, Catalog.writeEach]
          · rw [hframe]
            rintro found ⟨⟩
            exact ⟨restored, hid, hbytes, hset _⟩
      | true =>
          rcases hattempt with ⟨error, hwrite⟩ | ⟨after, hwrite⟩
          · have hrestore : db.restore txn page image.bytes =
                (.error error, { db with
                  cache := (db.cache.setFrame page ⟨restored, none⟩).setFrame page
                    ⟨restored, some txn⟩ }) := by
              simp only [restore, hframe, hrestored, hstolen, himage, if_true,
                writeImage_eq_writeAt, hwrite]
            rw [hrestore] at hcatalog hjournal hothers ⊢
            refine ⟨[(page, error)], rfl, hcatalog, hjournal, hothers, ?_, ?_⟩
            · simp [owed_singleton, himage, Catalog.writeEach, hwrite]
            · rw [hframe]
              rintro found ⟨⟩
              refine ⟨restored, hid, hbytes, ?_⟩
              exact (Cache.frames_setFrame_of_resident _ _ _ (hset _) _).trans (if_pos rfl)
          · have hrestore : db.restore txn page image.bytes =
                (.ok (), { db with
                  storage := after
                  cache := db.cache.setFrame page ⟨restored, none⟩ }) := by
              simp only [restore, hframe, hrestored, hstolen, himage, if_true,
                writeImage_eq_writeAt, hwrite]
            rw [hrestore] at hcatalog hjournal hothers ⊢
            refine ⟨[], rfl, hcatalog, hjournal, hothers, ?_, ?_⟩
            · simp [owed_singleton, himage, Catalog.writeEach, hwrite]
            · rw [hframe]
              rintro found ⟨⟩
              exact ⟨restored, hid, hbytes, hset _⟩

/-- Whatever follows, the first failure is told. -/
theorem verdictOn_append (failures later : List (PageId × Error)) :
    verdictOn (failures ++ later) = (verdictOn failures).bind fun _ => verdictOn later := by
  cases failures with
  | nil => rfl
  | cons failure rest => rfl

/-- Putting back before-images goes on past those that cannot be written: each of them is tried, and
what happens to one page does not depend on the others. -/
theorem restoreEach_past (images : List (PageId × BeforeImage))
    (hdistinct : (images.map Prod.fst).Nodup)
    (hlength : ∀ entry ∈ images, ∀ resident, db.cache.frames[entry.1]? = some resident →
      entry.2.bytes.length = resident.page.bytes.length)
    (hstolen : ∀ entry ∈ images, db.journal.isStolen txn entry.1 = entry.2.stolen) :
    let attempts := db.catalog.writeEach db.storage (db.owed images)
    let after := (db.restoreEach txn images).2
    (db.restoreEach txn images).1 = verdictOn attempts.1 ∧ after.catalog = db.catalog ∧
      after.storage = attempts.2 ∧
      (∀ page, page ∉ images.map Prod.fst → after.cache.frames[page]? = db.cache.frames[page]?) ∧
      ∀ entry ∈ images, ∀ resident : Resident, db.cache.frames[entry.1]? = some resident →
        ∃ restored : HeapPage, restored.id = resident.page.id ∧ restored.bytes = entry.2.bytes ∧
          after.cache.frames[entry.1]? = some { resident with
            toFrame :=
              ⟨restored, if entry.1 ∈ attempts.1.map Prod.fst then some txn else none⟩ } := by
  induction images generalizing db with
  | nil => exact ⟨rfl, rfl, rfl, fun _ _ => rfl, by simp⟩
  | cons entry rest ih =>
      obtain ⟨page, image⟩ := entry
      rw [List.map_cons, List.nodup_cons] at hdistinct
      obtain ⟨hfresh, hdistinct⟩ := hdistinct
      obtain ⟨failures, hanswer, htried⟩ := restore_tried (hlength _ List.mem_cons_self)
        (hstolen _ List.mem_cons_self)
      rcases hrestore : db.restore txn page image.bytes with ⟨answer, restored⟩
      rw [hrestore] at hanswer htried
      simp only at hfresh hanswer htried
      have hother : ∀ entry ∈ rest, entry.1 ≠ page := by
        intro entry hentry hsame
        have hmem := List.mem_map_of_mem (f := Prod.fst) hentry
        exact hfresh (by rwa [hsame] at hmem)
      have hkept : ∀ entry ∈ rest,
          restored.cache.frames[entry.1]? = db.cache.frames[entry.1]? := fun entry hentry =>
        htried.others _ (hother entry hentry)
      obtain ⟨hlater, hcatalog, hstorage, hothers, hframes⟩ := @ih restored hdistinct
        (fun entry hentry resident hframe => hlength entry (List.mem_cons_of_mem _ hentry) resident
          (hkept entry hentry ▸ hframe))
        (fun entry hentry => by
          rw [htried.journal]
          exact hstolen entry (List.mem_cons_of_mem _ hentry))
      have howed : restored.owed rest = db.owed rest := owed_congr hkept
      have hattempt := htried.attempt
      simp only [restoreEach, hrestore, owed_cons db (page, image) rest, Catalog.writeEach_append,
        hattempt, List.map_append, verdictOn_append]
      simp only [htried.catalog, howed] at hlater hcatalog hstorage hframes
      -- Only the page itself can be among its failures, and it is not among those of the others.
      have hself : ∀ other ∈ failures.map Prod.fst, other = page := by
        intro other hmem
        have hsublist := db.catalog.failures_sublist db.storage (db.owed [(page, image)])
        rw [hattempt] at hsublist
        exact List.mem_singleton.mp
          ((db.owed_sublist [(page, image)]).subset (hsublist.subset hmem))
      have hrest : page ∉ (db.catalog.writeEach restored.storage (db.owed rest)).1.map Prod.fst :=
        fun hmem => hfresh ((db.owed_sublist rest).subset
          ((db.catalog.failures_sublist _ _).subset hmem))
      refine ⟨by rw [hanswer, hlater], hcatalog, hstorage, ?_, ?_⟩
      · intro other hmem
        rw [List.map_cons, List.mem_cons, not_or] at hmem
        rw [hothers other hmem.2, htried.others other hmem.1]
      · intro entry hentry resident hframe
        rcases List.mem_cons.mp hentry with rfl | hentry
        · obtain ⟨found, hid, hbytes, hfound⟩ := htried.frame resident hframe
          refine ⟨found, hid, hbytes, ?_⟩
          rw [hothers page hfresh, hfound]
          cases failures with
          | nil =>
              simp only [List.map_nil, List.nil_append, if_neg hrest, List.isEmpty_nil, if_true]
          | cons failure more =>
              have hpage : failure.1 = page := hself _ (by simp)
              simp [hpage]
        · obtain ⟨found, hid, hbytes, hfound⟩ := hframes entry hentry resident
            ((hkept entry hentry).trans hframe)
          refine ⟨found, hid, hbytes, ?_⟩
          have hnot : entry.1 ∉ failures.map Prod.fst := fun hmem =>
            hother entry hentry (hself _ hmem)
          rw [hfound]
          simp only [List.mem_append, hnot, false_or]

/-- A flush of a dirty page tries to write what the page holds. The page is clean once that is
written, and a failure changes no frame and no file. -/
theorem flushPage_attempts {owner : TxnId} (hframe : db.cache.frames[page]? = some resident)
    (hid : resident.page.id = page) (hdirty : resident.dirtiedBy = some owner)
    (htable : ∀ heap, db.catalog.heapFile page.table = .ok heap → heap.table = page.table) :
    let flushed := (db.flushPage page).2
    (∃ error, (db.catalog.writeAt db.storage page resident.page.bytes).1 = .error error ∧
        (db.flushPage page).1 = .error error ∧ flushed.storage = db.storage ∧
        ∀ other : PageId, flushed.cache.frames[other]? = db.cache.frames[other]?) ∨
      (∃ storage, db.catalog.writeAt db.storage page resident.page.bytes = (.ok (), storage) ∧
        (db.flushPage page).1 = .ok () ∧ flushed.storage = storage ∧
        ∀ other : PageId, flushed.cache.frames[other]? =
          if page = other then some { resident with toFrame := resident.markClean }
          else db.cache.frames[other]?) := by
  simp only [flushPage, hframe]
  cases hheap : db.catalog.heapFile page.table with
  | error error => exact .inl ⟨error, by simp [Catalog.writeAt, hheap], rfl, rfl, fun _ => rfl⟩
  | ok heap =>
      have hwrite : heap.writePage db.storage resident.page =
          db.catalog.writeAt db.storage page resident.page.bytes := by
        simp only [HeapFile.writePage, Catalog.writeAt, hheap, hid, htable heap hheap, ne_eq,
          not_true_eq_false, if_false]
      simp only [Frame.flush, hdirty, hwrite]
      rcases db.catalog.writeAt_cases db.storage page resident.page.bytes with
        ⟨error, hattempt⟩ | ⟨after, hattempt⟩
      · refine .inl ⟨error, by rw [hattempt], by rw [hattempt]; rfl, by rw [hattempt], ?_⟩
        intro other
        simp only [hattempt]
        rw [Cache.frames_setFrame_of_resident _ _ _ hframe]
        split
        · rename_i hsame
          rw [← hsame, hframe]
        · rfl
      · refine .inr ⟨after, hattempt, by rw [hattempt]; rfl, by rw [hattempt], ?_⟩
        intro other
        simp only [hattempt]
        exact Cache.frames_setFrame_of_resident _ _ _ hframe _

/-- A flush that succeeds puts what a dirty page holds on disk, and leaves the page clean. -/
theorem flushPage_of_ok {owner : TxnId} (hframe : db.cache.frames[page]? = some resident)
    (hid : resident.page.id = page) (hdirty : resident.dirtiedBy = some owner)
    (htable : ∀ heap, db.catalog.heapFile page.table = .ok heap → heap.table = page.table)
    (hok : (db.flushPage page).1 = .ok ()) :
    (db.flushPage page).2.onDisk page = resident.page.bytes ∧
      (db.flushPage page).2.cache.frames[page]? =
        some { resident with toFrame := resident.markClean } := by
  rcases flushPage_attempts hframe hid hdirty htable with
    ⟨error, _, hanswer, _⟩ | ⟨storage, hattempt, _, hstorage, hframes⟩
  · simp [hok] at hanswer
  · rw [onDisk_eq_bytesAt, (flushPage_mayFlush db page).catalog, hstorage, hframes, if_pos rfl]
    exact ⟨Catalog.bytesAt_writeAt hattempt, rfl⟩

/-- Flushes of dirty pages stop at the first that cannot be written: those before it are written and
clean, and nothing happens to the others. -/
theorem flushEach_until (dirty : List (PageId × Bytes))
    (hdistinct : (dirty.map Prod.fst).Nodup)
    (hdirty : ∀ entry ∈ dirty, ∃ (resident : Resident) (owner : TxnId),
      db.cache.frames[entry.1]? = some resident ∧ resident.page.id = entry.1 ∧
        resident.page.bytes = entry.2 ∧ resident.dirtiedBy = some owner)
    (htable : ∀ page heap, db.catalog.heapFile page = .ok heap → heap.table = page) :
    let after := (db.flushEach (dirty.map Prod.fst)).2
    ∃ done rest, dirty = done ++ rest ∧ after.catalog = db.catalog ∧
      db.catalog.writeEach db.storage done = ([], after.storage) ∧
      (∀ page, after.cache.frames[page]? =
        if page ∈ done.map Prod.fst then db.cache.frames[page]?.map fun resident =>
          { resident with toFrame := resident.markClean }
        else db.cache.frames[page]?) ∧
      (rest = [] ∧ (db.flushEach (dirty.map Prod.fst)).1 = .ok () ∨
        ∃ page bytes later error, rest = (page, bytes) :: later ∧
          (db.catalog.writeAt after.storage page bytes).1 = .error error ∧
          (db.flushEach (dirty.map Prod.fst)).1 = .error error) := by
  induction dirty generalizing db with
  | nil => exact ⟨[], [], rfl, rfl, rfl, fun _ => rfl, .inl ⟨rfl, rfl⟩⟩
  | cons entry rest ih =>
      obtain ⟨page, bytes⟩ := entry
      rw [List.map_cons, List.nodup_cons] at hdistinct
      obtain ⟨hfresh, hdistinct⟩ := hdistinct
      obtain ⟨resident, owner, hframe, hid, rfl, howner⟩ := hdirty _ List.mem_cons_self
      have hcatalog := (flushPage_mayFlush db page).catalog
      have hpage := flushPage_attempts hframe hid howner (htable page.table)
      rcases hflush : db.flushPage page with ⟨answer, flushed⟩
      simp only [hflush] at hcatalog hpage
      rcases hpage with ⟨error, hattempt, rfl, hstorage, hframes⟩ |
        ⟨storage, hattempt, rfl, rfl, hframes⟩
      · -- The flush stops here.
        simp only [List.map_cons, flushEach, hflush]
        refine ⟨[], _, rfl, hcatalog, by rw [hstorage]; rfl, hframes, .inr ?_⟩
        exact ⟨_, _, _, error, rfl, by rw [hstorage]; exact hattempt, rfl⟩
      · have hother : ∀ entry ∈ rest, page ≠ entry.1 := by
          intro entry hentry hsame
          have hmem := List.mem_map_of_mem (f := Prod.fst) hentry
          exact hfresh (by rwa [← hsame] at hmem)
        obtain ⟨done, later, hsplit, hkept, hwrites, hlater, hend⟩ := @ih flushed hdistinct
          (fun entry hentry => by
            rw [hframes, if_neg (hother entry hentry)]
            exact hdirty entry (List.mem_cons_of_mem _ hentry))
          (hcatalog ▸ htable)
        rw [hcatalog] at hkept hwrites hend
        simp only [List.map_cons, flushEach, hflush]
        refine ⟨(page, resident.page.bytes) :: done, later, by rw [hsplit]; rfl, hkept, ?_, ?_,
          hend⟩
        · simp only [Catalog.writeEach, hattempt, hwrites]
        · intro other
          rw [hlater, hframes]
          by_cases hsame : page = other
          · subst hsame
            have hnot : page ∉ done.map Prod.fst := fun hmem => hfresh (by
              rw [hsplit, List.map_append]
              exact List.mem_append_left _ hmem)
            simp [hnot, hframe]
          · rw [if_neg hsame, List.map_cons]
            simp only [List.mem_cons, Ne.symm hsame, false_or]

end Database

end RowStore
