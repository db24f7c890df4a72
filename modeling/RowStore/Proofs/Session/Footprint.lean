import RowStore.Proofs.Database.Stride
import RowStore.Proofs.Disk.PageArray
import RowStore.Proofs.Lock.Modes
import RowStore.Proofs.Page.Rows
import RowStore.Proofs.Session.Undo

/-!
# The pages that an insert keeps locked

An insert takes a shared lock on each page that it probes and gives it back, unless its transaction
held the page before. So when it has stored its row, its transaction holds the page of the row
exclusively, and every other page in the mode in which it held it before. There is one exception. A
page that the insert added itself it locks exclusively, and it keeps this lock if it finds the page
full. A new page is full only if a frame of a page with its name had outlived that page in the
cache.
-/

namespace RowStore

/-- The page is one of the table whose number is at least the first one and less than the last. -/
def HeapFile.Spans (heap : HeapFile) (first last : Nat) (page : PageId) : Prop :=
  page.table = heap.table ∧ first ≤ page.number ∧ page.number < last

instance (heap : HeapFile) (first last : Nat) : DecidablePred (heap.Spans first last) :=
  fun _ => inferInstanceAs (Decidable (_ ∧ _))

/-- The pages up to the next number are this page and those up to this one. -/
theorem HeapFile.spans_succ {heap : HeapFile} {first number : Nat} (h : first ≤ number)
    (page : PageId) :
    heap.Spans first (number + 1) page ↔
      page = heap.pageId number ∨ heap.Spans first number page := by
  obtain ⟨table, other⟩ := page
  simp only [Spans, pageId, PageId.mk.injEq]
  constructor
  · rintro ⟨htable, hle, hlt⟩
    rcases Nat.lt_succ_iff_lt_or_eq.mp hlt with hlt | heq
    · exact .inr ⟨htable, hle, hlt⟩
    · exact .inl ⟨htable, heq⟩
  · rintro (⟨htable, rfl⟩ | ⟨htable, hle, hlt⟩)
    · exact ⟨htable, h, Nat.lt_succ_self _⟩
    · exact ⟨htable, hle, Nat.lt_succ_of_lt hlt⟩

/-- Every page is held as before, but the transaction holds some pages exclusively. -/
def LockTable.Takes (txn : TxnId) (taken : PageId → Prop) [DecidablePred taken]
    (before after : LockTable) : Prop :=
  ∀ holder page, after.modeOf holder page =
    if holder = txn ∧ taken page then some .exclusive else before.modeOf holder page

namespace LockTable

variable {before middle after other : LockTable} {txn : TxnId} {page : PageId}
  {taken : PageId → Prop} [DecidablePred taken]

/-- What a transaction has taken only depends on how pages are held. -/
theorem Takes.congr (htakes : before.Takes txn taken after)
    (h : ∀ holder page, other.modeOf holder page = after.modeOf holder page) :
    before.Takes txn taken other :=
  fun holder page => (h holder page).trans (htakes holder page)

/-- A transaction that is granted a page exclusively has taken this page. -/
theorem Serves.takes (hserves : Serves txn page .exclusive middle after)
    (hholds : (after.lockOf page).holds txn .exclusive = true)
    (hbefore : ∀ holder other, ¬ (holder = txn ∧ other = page) → middle.modeOf holder other =
      if holder = txn ∧ taken other then some .exclusive else before.modeOf holder other) :
    before.Takes txn (fun other => other = page ∨ taken other) after := by
  intro holder other
  rw [hserves.modeOf_exclusive hholds]
  by_cases hpage : holder = txn ∧ other = page
  · rw [if_pos hpage, if_pos ⟨hpage.1, .inl hpage.2⟩]
  · rw [if_neg hpage, hbefore holder other hpage]
    congr 1
    exact propext (and_congr_right fun hself =>
      (or_iff_right fun hsame => hpage ⟨hself, hsame⟩).symm)

end LockTable

namespace Storage

variable {storage : Storage} {file : PageFile}

/-- A file that a page was added to has one page more. -/
theorem pageCount_appendPage (hsize : file.pageSize ≠ 0) :
    (storage.appendPage file).2.pageCount file = storage.pageCount file + 1 := by
  have hpos := Nat.pos_of_ne_zero hsize
  simp only [pageCount, appendPage, bytes_putBytes, Bytes.length_resize]
  rw [← Nat.add_one_mul, pagesFor, Nat.add_sub_assoc hpos, Nat.add_comm,
    Nat.add_mul_div_right _ _ hpos, Nat.div_eq_of_lt (Nat.sub_lt hpos Nat.one_pos), Nat.zero_add]

/-- The page that was added to a file is empty. -/
theorem pageAt_appended (hsize : file.pageSize ≠ 0) :
    (storage.appendPage file).2.pageAt file (storage.pageCount file) =
      Bytes.zeros file.pageSize := by
  rw [pageAt_appendPage hsize]
  exact pageAt_of_length_le (le_pagesFor_mul file _ hsize)

end Storage

/-- A page that was read where its file holds only zeros has a free slot. -/
theorem Loaded.freeCount_pos {db : Database} {heap : HeapFile} {number : Nat} {resident : Resident}
    (hloaded : Loaded db (heap.pageId number) resident)
    (hheap : db.catalog.heapFile heap.table = .ok heap)
    (hempty : db.storage.pageAt heap.file number = Bytes.zeros heap.file.pageSize) :
    0 < resident.page.freeCount := by
  obtain ⟨found, hfound, horigin, _⟩ := hloaded.origin
  obtain rfl : heap = found := Except.ok.inj (hheap.symm.trans hfound)
  have hcovers := hloaded.covers
  rw [horigin] at hcovers
  have hbytes : resident.page.bytes = Bytes.zeros heap.file.pageSize := by
    rw [hloaded.bytes, horigin]
    exact (Storage.pageAt_of_le hcovers).symm.trans hempty
  exact HeapPage.freeCount_pos_of_zeros hbytes

/-- The row is stored in a slot of the frame, and is given the place of that slot. -/
def Database.Stores (db : Database) (ref : FrameRef) (row stored : Row) : Prop :=
  ∃ resident slot, db.cache.frames[ref.page]? = some resident ∧ resident.serial = ref.serial ∧
    resident.page.isUsed slot = true ∧ resident.page.recordBytes slot = row.toBytes ∧
    stored = { row with place := some ⟨resident.page.id, slot⟩ }

/-- The pages behind the end of the file, up to the one with this number, are in the cache and
full. -/
def Database.FullBehind (db : Database) (heap : HeapFile) (number : Nat) : Prop :=
  ∀ outgrown, heap.pageCount db.storage ≤ outgrown → outgrown < number →
    ∃ resident, db.cache.frames[heap.pageId outgrown]? = some resident ∧
      resident.page.freeCount = 0

namespace InsertPoint

/-- Where an insert stands, compared with the database in which it began. -/
inductive Stands (start : Database) (txn : TxnId) (heap : HeapFile) :
    InsertPoint → Database → Prop where
  /-- All that was locked on the way has been given back. -/
  | probe {number : Nat} {db : Database} :
      start.Untouched heap (heap.pageCount start.storage) db →
      heap.pageCount db.storage = heap.pageCount start.storage →
      number < heap.pageCount start.storage →
      (∀ holder page, db.locks.modeOf holder page = start.locks.modeOf holder page) →
      Stands start txn heap
        (.probe number (heap.pageCount start.storage)
          (start.locks.holdsLock txn (heap.pageId number))) db
  /-- The page that has room is locked at least in shared mode. -/
  | escalate {number : Nat} {db : Database} {resident : Resident} :
      start.Untouched heap (heap.pageCount start.storage) db →
      number < heap.pageCount start.storage →
      (∀ holder page, ¬ (holder = txn ∧ page = heap.pageId number) →
        db.locks.modeOf holder page = start.locks.modeOf holder page) →
      db.cache.frames[heap.pageId number]? = some resident →
      0 < resident.page.freeCount →
      Stands start txn heap (.escalate number (heap.pageCount start.storage)) db
  /-- The pages that were added before were full, and are locked exclusively. -/
  | grow {number : Nat} {db : Database} :
      start.Untouched heap number db →
      heap.pageCount start.storage ≤ number →
      heap.pageCount db.storage = number + 1 →
      db.storage.pageAt heap.file number = Bytes.zeros heap.file.pageSize →
      start.FullBehind heap number →
      start.locks.Takes txn (heap.Spans (heap.pageCount start.storage) number) db.locks →
      Stands start txn heap (.grow number) db

end InsertPoint

/-- An insert has stored its row and holds its page, and the full pages that it added before,
exclusively. All else is held as before. -/
structure Database.LeavesLocks (start : Database) (txn : TxnId) (heap : HeapFile)
    (row stored : Row) (ref : FrameRef) (db : Database) : Prop where
  stores : db.Stores ref row stored
  locks : ∃ number, ref.page = heap.pageId number ∧ start.FullBehind heap number ∧
    start.locks.Takes txn
      (fun page => page = ref.page ∨ heap.Spans (heap.pageCount start.storage) number page) db.locks

/-- How an insert that began in a database goes on. -/
def Progress.Follows (start : Database) (txn : TxnId) (heap : HeapFile) (row : Row) :
    Progress → Database → Prop
  | .needs (.insert found inserted point), db =>
      found = heap ∧ inserted = row ∧ point.Stands start txn heap db
  | .needs _, _ => False
  | .ended (.ok (.inserted stored ref)), db => start.LeavesLocks txn heap row stored ref db
  | .ended _, _ => True

namespace Database

variable {start db reached after : Database} {txn : TxnId} {heap : HeapFile} {row : Row}
  {first number : Nat} {page : PageId}

/-- An insert that adds a page has found no room on the pages before. -/
theorem growFor_follows (hsize : heap.file.pageSize ≠ 0)
    (huntouched : start.Untouched heap (heap.pageCount db.storage) db)
    (hcount : heap.pageCount start.storage ≤ heap.pageCount db.storage)
    (hfull : start.FullBehind heap (heap.pageCount db.storage))
    (htakes : start.locks.Takes txn
      (heap.Spans (heap.pageCount start.storage) (heap.pageCount db.storage)) db.locks) :
    (db.growFor heap row).1.Follows start txn heap row (db.growFor heap row).2 :=
  ⟨rfl, rfl, .grow ⟨huntouched.catalog, huntouched.frames⟩ hcount
    (Storage.pageCount_appendPage hsize) (Storage.pageAt_appended hsize) hfull htakes⟩

/-- An insert turns to the page with this number and has kept no lock. -/
theorem probeAt_follows (hsize : heap.file.pageSize ≠ 0)
    (huntouched : start.Untouched heap (heap.pageCount start.storage) db)
    (hcount : heap.pageCount db.storage = heap.pageCount start.storage)
    (hmodes : ∀ holder page, db.locks.modeOf holder page = start.locks.modeOf holder page) :
    (db.probeAt txn heap row number (heap.pageCount start.storage)).1.Follows start txn heap row
      (db.probeAt txn heap row number (heap.pageCount start.storage)).2 := by
  simp only [probeAt]
  split
  · rename_i hnumber
    rw [← LockTable.isSome_modeOf, hmodes, LockTable.isSome_modeOf]
    exact ⟨rfl, rfl, .probe huntouched hcount hnumber hmodes⟩
  · refine growFor_follows hsize (hcount ▸ huntouched) (Nat.le_of_eq hcount.symm) ?_ ?_
    · intro outgrown hle hlt
      omega
    · intro holder page
      rw [if_neg (by rintro ⟨_, _, hle, hlt⟩; omega), hmodes]

/-- A row that is stored on the page of a frame. -/
theorem storeRow_eq_ok {resident : Resident} {stored : Row}
    (hframe : db.cache.frames[page]? = some resident)
    (h : db.storeRow txn ⟨page, resident.serial⟩ row = (.ok stored, after)) :
    after.Stores ⟨page, resident.serial⟩ row stored ∧ after.locks = db.locks := by
  simp only [storeRow, modifyFrame_eq hframe] at h
  cases hinsert : resident.page.insert row with
  | error error => simp [hinsert, Except.map] at h
  | ok found =>
      obtain ⟨changed, slot⟩ := found
      obtain ⟨_, _, _, hslot, hrecord, hchanged⟩ := HeapPage.store_of_insert hinsert
      simp only [hinsert, Except.map, Prod.mk.injEq, Except.ok.injEq] at h
      obtain ⟨rfl, rfl⟩ := h
      refine ⟨⟨{ resident with toFrame := ⟨changed, some txn⟩ }, slot, ?_, rfl, ?_, ?_, rfl⟩, rfl⟩
      · simp only [Cache.frames_setFrame_of_resident _ _ _ hframe, if_true]
      · rw [hchanged, HeapPage.isUsed_store, if_pos rfl]
      · rw [hchanged, HeapPage.recordBytes_store, if_pos rfl]

/-- A page that refuses a row because it is full has no free slot. -/
theorem storeRow_full {resident : Resident} {id : PageId}
    (hframe : db.cache.frames[page]? = some resident)
    (h : db.storeRow txn ⟨page, resident.serial⟩ row = (.error (.pageFull id), after)) :
    resident.page.insert row = .error (.pageFull id) ∧ after = db := by
  simp only [storeRow, modifyFrame_eq hframe] at h
  cases hinsert : resident.page.insert row with
  | error error =>
      simp only [hinsert, Except.map, Prod.mk.injEq, Except.error.injEq] at h
      exact ⟨by rw [h.1], h.2.symm⟩
  | ok found => simp [hinsert, Except.map] at h

/-- An insert that has probed a page with room asks for it exclusively, and goes on to the next page
otherwise. -/
theorem probed_follows (hsize : heap.file.pageSize ≠ 0) {resident : Resident}
    (huntouched : start.Untouched heap (heap.pageCount start.storage) db)
    (hcount : heap.pageCount db.storage = heap.pageCount start.storage)
    (hnumber : number < heap.pageCount start.storage)
    (hframe : db.cache.frames[heap.pageId number]? = some resident)
    (hother : ∀ holder page, ¬ (holder = txn ∧ page = heap.pageId number) →
      db.locks.modeOf holder page = start.locks.modeOf holder page)
    (hprobed : db.locks.modeOf txn (heap.pageId number) =
      some ((start.locks.modeOf txn (heap.pageId number)).getD .shared)) :
    let next := db.proceedFrom txn ⟨heap.pageId number, resident.serial⟩
      (.insert heap row (.probe number (heap.pageCount start.storage)
        (start.locks.holdsLock txn (heap.pageId number))))
    next.1.Follows start txn heap row next.2 := by
  simp only [proceedFrom, frame?, Cache.frame?_of_resident _ _ hframe, Option.any_some,
    decide_eq_true_eq]
  split
  · rename_i hfree
    exact ⟨rfl, rfl, .escalate huntouched hnumber hother hframe hfree⟩
  · rw [← LockTable.isSome_modeOf]
    cases hbefore : start.locks.modeOf txn (heap.pageId number) with
    | some mode =>
        -- The page was held before, and is held in the same mode.
        simp only [Option.isSome_some, if_true]
        refine probeAt_follows hsize huntouched hcount fun holder page => ?_
        by_cases hsame : holder = txn ∧ page = heap.pageId number
        · obtain ⟨rfl, rfl⟩ := hsame
          rw [hprobed, hbefore, Option.getD_some]
        · exact hother holder page hsame
    | none =>
        refine probeAt_follows hsize ⟨huntouched.catalog, huntouched.frames⟩ hcount
          fun holder page => ?_
        rw [Option.isSome_none, if_neg Bool.false_ne_true, LockTable.modeOf_release]
        split
        · rename_i hsame
          obtain ⟨rfl, rfl⟩ := hsame
          exact hbefore.symm
        · rename_i hsame
          exact hother holder page hsame

/-- An insert that has the exclusive lock of a page with room stores its row there. -/
theorem escalated_follows {resident : Resident} {count : Nat}
    (hnumber : number < heap.pageCount start.storage)
    (hframe : db.cache.frames[heap.pageId number]? = some resident)
    (hfree : 0 < resident.page.freeCount)
    (htakes : start.locks.Takes txn (fun page => page = heap.pageId number ∨
      heap.Spans (heap.pageCount start.storage) number page) db.locks) :
    let next := db.proceedFrom txn ⟨heap.pageId number, resident.serial⟩
      (.insert heap row (.escalate number count))
    next.1.Follows start txn heap row next.2 := by
  simp only [proceedFrom]
  split
  · rename_i stored after hstore
    obtain ⟨hstores, hlocks⟩ := storeRow_eq_ok hframe hstore
    exact ⟨hstores, number, rfl, fun outgrown hle hlt => by omega, hlocks ▸ htakes⟩
  · rename_i id after hstore
    have hfull := HeapPage.freeCount_of_full (storeRow_full hframe hstore).1
    omega
  · trivial

/-- An insert that has the exclusive lock of the page that it has added stores its row there, unless
the page is full. -/
theorem grown_follows (hsize : heap.file.pageSize ≠ 0) {resident : Resident}
    (huntouched : start.Untouched heap (number + 1) db)
    (hbehind : heap.pageCount start.storage ≤ number)
    (hcount : heap.pageCount db.storage = number + 1)
    (hframe : db.cache.frames[heap.pageId number]? = some resident)
    (hkept : resident.page.freeCount = 0 →
      start.cache.frames[heap.pageId number]? = some resident)
    (hfull : start.FullBehind heap number)
    (htakes : start.locks.Takes txn (fun page => page = heap.pageId number ∨
      heap.Spans (heap.pageCount start.storage) number page) db.locks) :
    let next := db.proceedFrom txn ⟨heap.pageId number, resident.serial⟩
      (.insert heap row (.grow number))
    next.1.Follows start txn heap row next.2 := by
  simp only [proceedFrom]
  split
  · rename_i stored after hstore
    obtain ⟨hstores, hlocks⟩ := storeRow_eq_ok hframe hstore
    exact ⟨hstores, number, rfl, hfull, hlocks ▸ htakes⟩
  · rename_i id after hstore
    obtain ⟨hinsert, rfl⟩ := storeRow_full hframe hstore
    have hnone := HeapPage.freeCount_of_full hinsert
    refine growFor_follows hsize (hcount ▸ huntouched) (by omega) ?_ ?_
    · intro outgrown hle hlt
      rw [hcount] at hlt
      rcases Nat.lt_succ_iff_lt_or_eq.mp hlt with hlt | rfl
      · exact hfull outgrown hle hlt
      · exact ⟨resident, hkept hnone, hnone⟩
    · intro holder page
      simp only [htakes holder page, hcount, HeapFile.spans_succ hbehind]
  · trivial

/-- An insert whose request is granted goes on. -/
theorem proceed_follows (hsound : start.catalog.Sound)
    (hheap : start.catalog.heapFile heap.table = .ok heap) {point : InsertPoint}
    (hstands : point.Stands start txn heap db) {locks : LockTable}
    (hrequest : db.locks.request txn (Operation.insert heap row point).demand.1
      (Operation.insert heap row point).demand.2 = (.granted, locks)) :
    (({ db with locks } : Database).proceed txn (.insert heap row point)).1.Follows
      start txn heap row
      (({ db with locks } : Database).proceed txn (.insert heap row point)).2 := by
  obtain ⟨hserves, hholds⟩ := LockTable.serves_of_granted hrequest
  have hsize : heap.file.pageSize ≠ 0 := by
    rw [(hsound.fits heap.table heap hheap).pageSize]
    exact hsound.pageSize
  have hcatalog : db.catalog = start.catalog := by
    cases hstands with
    | probe huntouched | escalate huntouched | grow huntouched => exact huntouched.catalog
  have hfetched := @fetched_of_sound { db with locks } (hcatalog ▸ hsound)
    (Operation.insert heap row point).demand.1
  rw [proceed_eq]
  rcases hfetch : ({ db with locks } : Database).fetch (Operation.insert heap row point).demand.1
    with ⟨answer, reached⟩
  rw [hfetch] at hfetched
  cases answer with
  | error error => cases point <;> trivial
  | ok ref =>
      obtain ⟨resident, hframe, rfl⟩ := hfetched.answer ref rfl
      have hmodes : ∀ holder page, reached.locks.modeOf holder page = locks.modeOf holder page :=
        fun holder page => LockTable.modeOf_congr fun held => hfetched.holds page holder held
      have hpages : heap.pageCount reached.storage = heap.pageCount db.storage := by
        rw [HeapFile.pageCount, Storage.pageCount, Storage.bytes, hfetched.directory]
        rfl
      obtain ⟨journal, hjournal⟩ := reached.noteFor_eq txn
        ⟨(Operation.insert heap row point).demand.1, resident.serial⟩
        (Operation.insert heap row point).demand.2
      simp only [hjournal]
      cases hstands with
      | @probe number db huntouched hcount hnumber hbefore =>
          have hreached := huntouched.fetched hfetched (Nat.le_refl _) hnumber
          refine probed_follows hsize ⟨hreached.catalog, hreached.frames⟩ (hpages.trans hcount)
            hnumber hframe (fun holder page hother => ?_) ?_
          · rw [← hbefore]
            exact (hmodes holder page).trans (hserves.modeOf hother)
          · rw [← hbefore]
            exact (hmodes txn _).trans (hserves.modeOf_shared hholds)
      | @escalate number db found huntouched hnumber hbefore hroom hfree =>
          have hsame : resident = found := by
            rcases hfetched.frames (heap.pageId number) with hkept | ⟨hnone, _⟩ | ⟨_, habsent, _⟩
            · exact Option.some.inj (hframe.symm.trans (hkept.trans hroom))
            · exact absurd (hframe.symm.trans hnone) (Option.some_ne_none _)
            · exact absurd (hroom.symm.trans habsent) (Option.some_ne_none _)
          refine escalated_follows hnumber hframe (hsame ▸ hfree)
            ((hserves.takes hholds fun holder page hother => ?_).congr hmodes)
          rw [hbefore holder page hother, if_neg]
          rintro ⟨_, _, hle, hlt⟩
          omega
      | @grow number db huntouched hbehind hcount hempty hfull htakes =>
          have hreached :=
            huntouched.fetched hfetched (Nat.le_succ number) (Nat.lt_succ_self number)
          refine grown_follows hsize ⟨hreached.catalog, hreached.frames⟩ hbehind
            (hpages.trans hcount) hframe (fun hnone => ?_) hfull
            ((hserves.takes hholds fun holder page _ => htakes holder page).congr hmodes)
          rcases hfetched.frames (heap.pageId number) with
            hkept | ⟨hgone, _⟩ | ⟨_, _, loaded, hloaded, hfresh⟩
          · exact huntouched.frames number (Nat.le_refl _) resident (hkept.symm.trans hframe)
          · exact absurd (hframe.symm.trans hgone) (Option.some_ne_none _)
          · -- A page that is read from the end of the file is empty.
            obtain rfl : resident = loaded := Option.some.inj (hframe.symm.trans hloaded)
            exact absurd hnone (Nat.ne_of_gt (hfresh.freeCount_pos (hcatalog ▸ hheap) hempty))

/-- An insert that goes on until it has stored its row. -/
theorem runFor_follows (hsound : start.catalog.Sound)
    (hheap : start.catalog.heapFile heap.table = .ok heap) (fuel : Nat) {progress : Progress}
    (hfollows : progress.Follows start txn heap row db) {stored : Row} {ref : FrameRef}
    (hended : db.runFor fuel txn progress = (.ended (.ok (.inserted stored ref)), after)) :
    start.LeavesLocks txn heap row stored ref after := by
  -- What is kept from one demand to the next is where the insert stands.
  induction fuel generalizing db progress with
  | zero =>
      cases progress with
      | ended answer =>
          simp only [runFor, Prod.mk.injEq, Status.ended.injEq] at hended
          obtain ⟨rfl, rfl⟩ := hended
          exact hfollows
      | needs operation => simp [runFor] at hended
  | succ fuel ih =>
      cases progress with
      | ended answer =>
          simp only [runFor, Prod.mk.injEq, Status.ended.injEq] at hended
          obtain ⟨rfl, rfl⟩ := hended
          exact hfollows
      | needs operation =>
          cases operation with
          | getPage | delete | scan => exact hfollows.elim
          | insert found inserted point =>
              obtain ⟨rfl, rfl, hstands⟩ := hfollows
              rcases hrequest : db.locks.request txn
                (Operation.insert found inserted point).demand.1
                (Operation.insert found inserted point).demand.2 with ⟨verdict, locks⟩
              simp only [runFor, hrequest] at hended
              cases verdict with
              | granted => exact ih (proceed_follows hsound hheap hstands hrequest) hended
              | refused reason => simp [Operation.refuse] at hended
              | waits => simp at hended

/-- An insert begins. -/
theorem begin_follows (hsound : start.catalog.Sound) (txn : TxnId) (table : TableId) (row : Row) :
    (∃ error, start.begin txn (.insert table row) = (.ended (.error error), start)) ∨
      ∃ heap, start.catalog.heapFile table = .ok heap ∧
        (start.begin txn (.insert table row)).1.Follows start txn heap row
          (start.begin txn (.insert table row)).2 := by
  simp only [begin, beginInsert]
  cases hheap : start.catalog.heapFile table with
  | error error => exact .inl ⟨error, rfl⟩
  | ok heap =>
      have hsize : heap.file.pageSize ≠ 0 := by
        rw [(hsound.fits table heap hheap).pageSize]
        exact hsound.pageSize
      simp only [beginInsertInto]
      split
      · exact .inl ⟨_, rfl⟩
      · exact .inr ⟨heap, rfl,
          probeAt_follows hsize ⟨rfl, fun _ _ _ => id⟩ rfl fun _ _ => rfl⟩

end Database

namespace Session

/-- After an insert that stored its row and had to wait for nobody, its transaction holds the page
of the row exclusively. It also does so for each page that the insert added before and found full,
as the cache held a full frame for it. Every other page is held by every transaction in the mode in
which it was held before. -/
theorem locks_after_insert {session after : Session} {txn : TxnId} {table : TableId}
    {row stored : Row} {ref : FrameRef} (hsound : session.db.catalog.Sound)
    (hinsert : session.perform (.call txn (.insert table row)) =
      (.answered (.ok (.inserted stored ref)), after)) :
    ∃ heap, session.db.catalog.heapFile table = .ok heap ∧
      session.db.LeavesLocks txn heap row stored ref after.db := by
  simp only [perform, submit] at hinsert
  rcases Database.begin_follows hsound txn table row with ⟨error, hbegin⟩ | ⟨heap, hheap, hfollows⟩
  · simp [hbegin, Database.run, note] at hinsert
  · have hregistered : session.db.catalog.heapFile heap.table = .ok heap := by
      rw [(hsound.fits table heap hheap).table]
      exact hheap
    rcases hbegin : session.db.begin txn (.insert table row) with ⟨progress, db⟩
    rw [hbegin] at hfollows hinsert
    obtain ⟨fuel, hrun, _⟩ := db.run_eq_runFor txn progress
    rcases hended : db.runFor fuel txn progress with ⟨status, last⟩
    simp only [hrun, hended] at hinsert
    cases status with
    | blocked | paused => simp [note] at hinsert
    | ended answer =>
        simp only [note, Option.elim_some, Prod.mk.injEq, Reply.answered.injEq] at hinsert
        obtain ⟨rfl, rfl⟩ := hinsert
        exact ⟨heap, hheap, Database.runFor_follows hsound hregistered fuel hfollows hended⟩

/-- Three rows fill a page of a table, and are kept. -/
def fillingPage : List Event :=
  [.call ⟨1⟩ (.insert ⟨1⟩ (sampleRow 1)), .call ⟨1⟩ (.insert ⟨1⟩ (sampleRow 2)),
    .call ⟨1⟩ (.insert ⟨1⟩ (sampleRow 3)), .complete ⟨1⟩ true]

/-- A session over two tables after some events. -/
def sampleAfter (events : List Event) : Session :=
  events.foldl apply { db := sampleTables "a.dat" "b.dat" }

/-- The first page is full. A row goes to a new page, which is locked then, and the lock of the
first page has been given back. -/
theorem locks_after_insert_past_full_page :
    ∃ stored ref after, (sampleAfter fillingPage).perform
        (.call ⟨2⟩ (.insert ⟨1⟩ (sampleRow 9))) = (.answered (.ok (.inserted stored ref)), after) ∧
      after.db.locks.modeOf ⟨2⟩ ⟨⟨1⟩, 1⟩ = some .exclusive ∧
      after.db.locks.modeOf ⟨2⟩ ⟨⟨1⟩, 0⟩ = none := by
  have hcatalog : (sampleAfter fillingPage).db.catalog =
      (sampleTables "a.dat" "b.dat").catalog := by
    decide +kernel
  have hreply : ((sampleAfter fillingPage).perform (.call ⟨2⟩ (.insert ⟨1⟩ (sampleRow 9)))).1 =
      .answered (.ok (.inserted { sampleRow 9 with place := some ⟨⟨⟨1⟩, 1⟩, 0⟩ }
        ⟨⟨⟨1⟩, 1⟩, 1⟩)) := by
    decide +kernel
  have hinsert : (sampleAfter fillingPage).perform (.call ⟨2⟩ (.insert ⟨1⟩ (sampleRow 9))) =
      (.answered (.ok (.inserted _ _)), _) := Prod.ext hreply rfl
  obtain ⟨heap, hheap, hleaves⟩ :=
    locks_after_insert (hcatalog ▸ (sampleTables_opened "a.dat" "b.dat").sound.1) hinsert
  obtain ⟨number, hpage, _, htakes⟩ := hleaves.locks
  obtain rfl : 1 = number := congrArg PageId.number hpage
  refine ⟨_, _, _, hinsert, ?_, ?_⟩
  · rw [htakes, if_pos ⟨rfl, .inl rfl⟩]
  · have hcount : (sampleAfter fillingPage).db.storage.pageCount heap.file = 1 := by
      have hpages : ((sampleAfter fillingPage).db.catalog.heapFile ⟨1⟩).map (fun heap =>
          heap.pageCount (sampleAfter fillingPage).db.storage) = .ok 1 := by decide +kernel
      rw [hheap] at hpages
      exact Except.ok.inj hpages
    rw [htakes, if_neg]
    · decide +kernel
    · rintro ⟨_, hsame | ⟨_, hle, _⟩⟩
      · simp at hsame
      · rw [HeapFile.pageCount, hcount] at hle
        simp at hle

/-- The table of a full page is registered over an empty file. -/
def outlivingPage : List Event :=
  fillingPage ++ [.changeCatalog (.add ⟨1⟩ "a" sampleSchema "c.dat" 16 none)]

/-- The full page outlives its file in the cache. A row goes to the second page that is
added to the file, as the first one is the full page, which stays locked. -/
theorem locks_after_insert_outlived :
    ¬ ∀ (session after : Session) (txn : TxnId) (table : TableId) (row stored : Row)
      (ref : FrameRef), session.db.catalog.Sound →
      session.perform (.call txn (.insert table row)) =
        (.answered (.ok (.inserted stored ref)), after) →
      ∀ holder page, after.db.locks.modeOf holder page =
        if holder = txn ∧ page = ref.page then some .exclusive
        else session.db.locks.modeOf holder page := by
  intro hclaim
  have hcatalog : (sampleAfter outlivingPage).db.catalog =
      ((sampleTables "a.dat" "b.dat").changeCatalog
        (.add ⟨1⟩ "a" sampleSchema "c.dat" 16 none)).catalog := by
    decide +kernel
  have hreply : ((sampleAfter outlivingPage).perform (.call ⟨2⟩ (.insert ⟨1⟩ (sampleRow 9)))).1 =
      .answered (.ok (.inserted { sampleRow 9 with place := some ⟨⟨⟨1⟩, 1⟩, 0⟩ }
        ⟨⟨⟨1⟩, 1⟩, 1⟩)) := by
    decide +kernel
  have hmode := hclaim (sampleAfter outlivingPage) _ ⟨2⟩ ⟨1⟩ (sampleRow 9) _ _
    (hcatalog ▸ (Database.Opened.change _ (sampleTables_opened "a.dat" "b.dat")).sound.1)
    (Prod.ext hreply rfl) ⟨2⟩ ⟨⟨1⟩, 0⟩
  exact absurd hmode (by decide +kernel)

end Session

end RowStore
