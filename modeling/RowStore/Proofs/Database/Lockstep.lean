import RowStore.Proofs.Database.Demands

/-!
# What transactions learn from twins

A transaction that makes the same calls on two databases that are twins learns the same, as long as
neither lacks room in its cache. What it learns is its `Finding`: it is given the frame of a page,
and sees what is in it. Each step of an operation leaves the databases twins, and the operation at
the same point in both: `Twins.proceed`, `Twins.begin`, `Twins.runFor`, and `Twins.resumeFor`.
-/

namespace RowStore

/-- What a transaction learns from the answer to its call. It is not told which frame holds a page,
but what is in it. -/
inductive Finding where
  | failed (error : Error)
  | page (page : PageId) (shown : Option HeapPage)
  | inserted (row : Row) (page : PageId) (shown : Option HeapPage)
  | deleted (page : PageId) (shown : Option HeapPage)
  | scanned (walk : Walk) (ended : Bool)
deriving DecidableEq

/-- Whether the answer is that the cache has no room for a page, or a walk ended with that. -/
def lacksRoom : Except Error Answer → Bool
  | .error error => error = .cacheFull
  | .ok (.scanned walk _) => walk.items.any fun item => item = .error .cacheFull
  | .ok _ => false

namespace Progress

/-- Whether the operation has ended for lack of room. -/
def lacksRoom : Progress → Bool
  | .ended answer => RowStore.lacksRoom answer
  | .needs _ => false

end Progress

namespace Status

/-- Whether the operation has ended for lack of room. -/
def lacksRoom : Status → Bool
  | .ended answer => RowStore.lacksRoom answer
  | .blocked _ | .paused _ => false

end Status

/-- An operation that is refused a page for lack of room says so. -/
theorem Operation.lacksRoom_refuse (operation : Operation) :
    lacksRoom (operation.refuse .cacheFull) = true := by
  cases operation with
  | getPage | insert | delete => rfl
  | scan walk => simp [refuse, lacksRoom, Walk.fail, Walk.emit]

namespace Database

/-- The page in the frame that a reference leads to. -/
def shown? (db : Database) (ref : FrameRef) : Option HeapPage :=
  (db.frame? ref).map Frame.page

/-- What a transaction learns from an answer. -/
def finding (db : Database) : Except Error Answer → Finding
  | .error error => .failed error
  | .ok (.page ref) => .page ref.page (db.shown? ref)
  | .ok (.inserted row ref) => .inserted row ref.page (db.shown? ref)
  | .ok (.deleted ref) => .deleted ref.page (db.shown? ref)
  | .ok (.scanned walk ended) => .scanned walk ended

end Database

/-- An operation has come equally far on two databases. -/
inductive Progress.Agrees (db twin : Database) : Progress → Progress → Prop where
  | ended {answer other : Except Error Answer} :
      twin.finding other = db.finding answer → Agrees db twin (.ended answer) (.ended other)
  | needs (operation : Operation) : Agrees db twin (.needs operation) (.needs operation)

/-- An operation has come equally far on two databases. -/
inductive Status.Agrees (db twin : Database) : Status → Status → Prop where
  | ended {answer other : Except Error Answer} :
      twin.finding other = db.finding answer → Agrees db twin (.ended answer) (.ended other)
  | blocked (operation : Operation) : Agrees db twin (.blocked operation) (.blocked operation)
  | paused (operation : Operation) : Agrees db twin (.paused operation) (.paused operation)

/-- An operation has come equally far on two databases, which are twins. -/
structure Progress.InStep (layout : Layout) (first second : Progress × Database) : Prop where
  agrees : Agrees first.2 second.2 first.1 second.1
  twins : Database.Twins layout first.2 second.2

/-- An operation has come equally far on two databases, which are twins. -/
structure Status.InStep (layout : Layout) (first second : Status × Database) : Prop where
  agrees : Agrees first.2 second.2 first.1 second.1
  twins : Database.Twins layout first.2 second.2

variable {layout : Layout}

namespace Progress

variable {first second : Progress × Database}

/-- An operation that makes no further demand has come equally far. -/
theorem InStep.runFor_zero (hstep : InStep layout first second) (txn : TxnId) :
    Status.InStep layout (first.2.runFor 0 txn first.1) (second.2.runFor 0 txn second.1) := by
  obtain ⟨progress, db⟩ := first
  obtain ⟨other, twin⟩ := second
  obtain ⟨hagrees, htwins⟩ := hstep
  cases hagrees with
  | ended hsame => exact ⟨.ended hsame, htwins⟩
  | needs operation => exact ⟨.paused operation, htwins⟩

/-- An operation that has ended for lack of room stays so. -/
theorem lacksRoom_of_runFor {db : Database} {fuel : Nat} {txn : TxnId} {progress : Progress}
    (hroom : (db.runFor fuel txn progress).1.lacksRoom = false) : progress.lacksRoom = false := by
  cases progress with
  | ended answer => cases fuel <;> exact hroom
  | needs operation => rfl

end Progress

namespace HeapPage

/-- Pages of one name and one schema with the same bytes are equal. -/
theorem eq_of_bytes {page other : HeapPage} (hid : other.id = page.id)
    (hschema : other.schema = page.schema) (hbytes : other.bytes = page.bytes) : other = page := by
  obtain ⟨id, schema, bytes, slots, hslots⟩ := page
  obtain ⟨id', schema', bytes', slots', hslots'⟩ := other
  obtain rfl : id' = id := hid
  obtain rfl : schema' = schema := hschema
  obtain rfl : bytes' = bytes := hbytes
  obtain rfl : slots' = slots := Except.ok.inj (hslots'.symm.trans hslots)
  rfl

/-- Whether bytes make a page, and why not, depends on how many they are. -/
theorem ofBytes_congr (id : PageId) (schema : Schema) {bytes other : Bytes}
    (hlength : other.length = bytes.length) :
    (∃ error, ofBytes id schema bytes = .error error ∧ ofBytes id schema other = .error error) ∨
      ∃ page found, ofBytes id schema bytes = .ok page ∧ ofBytes id schema other = .ok found := by
  have hslots : Page.slotsPerPage other.length schema.recordWidth =
      Page.slotsPerPage bytes.length schema.recordWidth := by rw [hlength]
  simp only [ofBytes]
  split
  · rename_i fault hfault
    split
    · rename_i fault' hfault'
      rw [hslots, hfault, Except.error.injEq] at hfault'
      exact .inl ⟨_, rfl, by rw [hfault']⟩
    · rename_i slots hfits
      simp [hslots, hfault] at hfits
  · rename_i slots hfits
    split
    · rename_i fault hfault
      simp [hslots, hfits] at hfault
    · exact .inr ⟨_, _, rfl, rfl⟩

end HeapPage

namespace Database

variable {db twin : Database} {page : PageId} {txn : TxnId} {resident other : Resident}
  {operation : Operation}

theorem shown?_of_resident (hframe : db.cache.frames[page]? = some resident) :
    db.shown? ⟨page, resident.serial⟩ = some resident.page := by
  rw [shown?, frame?, Cache.frame?_of_resident _ _ hframe]
  rfl

/-- A page in the cache can be read. -/
theorem Tidy.load_of_resident (htidy : db.Tidy layout)
    (hframe : db.cache.frames[page]? = some resident) :
    ∃ loaded, (db.load page).1 = .ok loaded := by
  obtain ⟨heap, hheap⟩ := htidy.intact.registered page resident hframe
  exact htidy.placed.load_of_covers hheap (htidy.placed.frame page resident hframe).covers

/-- A page that cannot be read is not fetched, and the answer says why, unless the cache is full. -/
theorem Tidy.fetch_of_unread (htidy : db.Tidy layout) {error : Error}
    (hload : (db.load page).1 = .error error) :
    (db.fetch page).1 = .error .cacheFull ∨ (db.fetch page).1 = .error error := by
  cases hframe : db.cache.frames[page]? with
  | some resident =>
      obtain ⟨loaded, hok⟩ := htidy.load_of_resident hframe
      simp [hload] at hok
  | none =>
      rcases reserve_of_absent hframe with ⟨_, _, hreserve⟩ | ⟨room, hreserve, _⟩
      · rw [fetch, hreserve]
        exact .inl rfl
      · obtain ⟨hfetched, _, hstorage⟩ := Fetched.of_reserve hframe hreserve .cacheFull
        have hread :=
          (load_congr hfetched.catalog (congrArg Storage.directory hstorage)).trans hload
        simp only [fetch, hreserve, install, hread]
        exact .inr trivial

namespace Twins

/-- Twins can read the same pages, and fail alike to read the others. -/
theorem load (htwins : Twins layout db twin) (page : PageId) :
    (∃ error, (db.load page).1 = .error error ∧ (twin.load page).1 = .error error) ∨
      ∃ loaded found, (db.load page).1 = .ok loaded ∧ (twin.load page).1 = .ok found := by
  simp only [Database.load, htwins.catalog]
  cases db.catalog.heapFile page.table with
  | error error => exact .inl ⟨error, rfl, rfl⟩
  | ok heap =>
      have hlength : (twin.storage.bytes heap.file).length =
          (db.storage.bytes heap.file).length := htwins.lengths heap.file.name
      simp only [HeapFile.readPage, Storage.readPage, hlength]
      by_cases hends : (db.storage.bytes heap.file).length <
          page.number * heap.file.pageSize + heap.file.pageSize
      · simp only [if_pos hends]
        exact .inl ⟨_, rfl, rfl⟩
      · simp only [if_neg hends]
        have hsame : (Bytes.slice (twin.storage.bytes heap.file)
              (page.number * heap.file.pageSize) heap.file.pageSize).length =
            (Bytes.slice (db.storage.bytes heap.file)
              (page.number * heap.file.pageSize) heap.file.pageSize).length := by
          rw [Bytes.length_slice (by omega), Bytes.length_slice (by omega)]
        rcases HeapPage.ofBytes_congr (heap.pageId page.number) heap.schema hsame with
          ⟨error, hbefore, hafter⟩ | ⟨loaded, found, hbefore, hafter⟩
        · rw [hbefore, hafter]
          exact .inl ⟨error, rfl, rfl⟩
        · rw [hbefore, hafter]
          exact .inr ⟨_, _, rfl, rfl⟩

/-- A page that is in the cache of either of two twins is the same in both. -/
theorem page_eq (htwins : Twins layout db twin) (htidy : db.Tidy layout) (hother : twin.Tidy layout)
    (hframe : db.cache.frames[page]? = some resident)
    (hfound : twin.cache.frames[page]? = some other) : other.page = resident.page := by
  have hplaces := htidy.placed.frame page resident hframe
  have hplaces' := hother.placed.frame page other hfound
  obtain ⟨heap, hheap⟩ := htidy.intact.registered page resident hframe
  refine HeapPage.eq_of_bytes (hplaces'.id.trans hplaces.id.symm) ?_ ?_
  · rw [htidy.schema page resident heap hframe hheap]
    exact hother.schema page other heap hfound (htwins.catalog ▸ hheap)
  · have hpadded := htwins.padded page
    rwa [Layout.padded, Layout.padded, Layout.contentOf_of_frame hframe,
      Layout.contentOf_of_frame hfound, Bytes.resize_of_length hplaces'.length,
      Bytes.resize_of_length hplaces.length] at hpadded

/-- Both fetch a page, if neither lacks room. They fail alike, or get frames of the same page. -/
theorem fetch (htwins : Twins layout db twin) (htidy : db.Tidy layout) (hother : twin.Tidy layout)
    (hconsistent : db.locks.Consistent) (hroom : (db.fetch page).1 ≠ .error .cacheFull)
    (hroom' : (twin.fetch page).1 ≠ .error .cacheFull) :
    Twins layout (db.fetch page).2 (twin.fetch page).2 ∧
      ((∃ error, (db.fetch page).1 = .error error ∧ (twin.fetch page).1 = .error error) ∨
        ∃ resident other : Resident, (db.fetch page).1 = .ok ⟨page, resident.serial⟩ ∧
          (twin.fetch page).1 = .ok ⟨page, other.serial⟩ ∧
          (db.fetch page).2.cache.frames[page]? = some resident ∧
          (twin.fetch page).2.cache.frames[page]? = some other ∧
          other.page = resident.page) := by
  have hconsistent' : twin.locks.Consistent := fun page => by
    rw [htwins.locks.lockOf]
    exact hconsistent page
  have hafter : Twins layout (db.fetch page).2 (twin.fetch page).2 :=
    (htidy.fetch_twins hconsistent page).symm.trans
      (htwins.trans (hother.fetch_twins hconsistent' page))
  refine ⟨hafter, ?_⟩
  have hfetched := fetched_of_sound htidy.placed.sound page
  have hfetched' := fetched_of_sound hother.placed.sound page
  rcases htwins.load page with ⟨error, hload, hload'⟩ | ⟨loaded, found, hload, hload'⟩
  · exact .inl ⟨error, (htidy.fetch_of_unread hload).resolve_left hroom,
      (hother.fetch_of_unread hload').resolve_left hroom'⟩
  · right
    rcases fetch_of_load hload with ⟨_, _, _, hfull⟩ | ⟨ref, hok, _⟩
    · exact absurd (congrArg Prod.fst hfull) hroom
    rcases fetch_of_load hload' with ⟨_, _, _, hfull⟩ | ⟨ref', hok', _⟩
    · exact absurd (congrArg Prod.fst hfull) hroom'
    obtain ⟨resident, hframe, rfl⟩ := hfetched.answer ref hok
    obtain ⟨other, hfound, rfl⟩ := hfetched'.answer ref' hok'
    have hact : Act ⟨0⟩ db [] [] (db.fetch page).2 := .fetch hfetched
    have hact' : Act ⟨0⟩ twin [] [] (twin.fetch page).2 := .fetch hfetched'
    exact ⟨resident, other, hok, hok', hframe, hfound,
      hafter.page_eq (hact.tidy htidy) (hact'.tidy hother) hframe hfound⟩

/-- Both add a page for a row. -/
theorem growFor (htwins : Twins layout db twin) {heap : HeapFile} (hsize : heap.file.pageSize ≠ 0)
    (row : Row) : Progress.InStep layout (db.growFor heap row) (twin.growFor heap row) := by
  obtain ⟨hsame, hgrown⟩ := htwins.append hsize
  simp only [Database.growFor, hsame]
  exact ⟨.needs _, hgrown⟩

/-- Both look for room on the same page. -/
theorem probeAt (htwins : Twins layout db twin) {heap : HeapFile} (hsize : heap.file.pageSize ≠ 0)
    (txn : TxnId) (row : Row) (number count : Nat) :
    Progress.InStep layout (db.probeAt txn heap row number count)
      (twin.probeAt txn heap row number count) := by
  simp only [Database.probeAt, htwins.locks.holdsLock]
  split
  · exact ⟨.needs _, htwins⟩
  · exact htwins.growFor hsize row

/-- Both go on with a walk. -/
theorem continueWalk (htwins : Twins layout db twin) (walk : Walk) :
    Progress.InStep layout (db.continueWalk walk, db) (twin.continueWalk walk, twin) := by
  refine ⟨?_, htwins⟩
  simp only [Database.continueWalk, htwins.pageCount]
  split
  · exact .ended rfl
  · exact .ended rfl
  · exact .needs _

/-- Both note what the page of their frames holds, if it may be changed. -/
theorem noteFor (htwins : Twins layout db twin) (hframe : db.cache.frames[page]? = some resident)
    (hfound : twin.cache.frames[page]? = some other) (hpage : other.page = resident.page)
    (txn : TxnId) (mode : LockMode) :
    Twins layout (db.noteFor txn ⟨page, resident.serial⟩ mode)
      (twin.noteFor txn ⟨page, other.serial⟩ mode) := by
  cases mode with
  | shared => exact htwins
  | exclusive =>
      simp only [Database.noteFor, noteBefore, frame?, Cache.frame?_of_resident _ _ hframe,
        Cache.frame?_of_resident _ _ hfound, hpage]
      exact htwins.note txn page resident.page.bytes

/-- Both change the page of their frames, or fail alike to do so. -/
theorem modifyFrame (htwins : Twins layout db twin)
    (hframe : db.cache.frames[page]? = some resident)
    (hfound : twin.cache.frames[page]? = some other) (hpage : other.page = resident.page)
    {α : Type} (txn : TxnId) (change : HeapPage → Except Error (HeapPage × α)) :
    (∃ error, db.modifyFrame ⟨page, resident.serial⟩ txn change = (.error error, db) ∧
        twin.modifyFrame ⟨page, other.serial⟩ txn change = (.error error, twin)) ∨
      ∃ answer after middle,
        db.modifyFrame ⟨page, resident.serial⟩ txn change = (.ok answer, after) ∧
        twin.modifyFrame ⟨page, other.serial⟩ txn change = (.ok answer, middle) ∧
        Twins layout after middle ∧
        middle.shown? ⟨page, other.serial⟩ = after.shown? ⟨page, resident.serial⟩ := by
  rw [modifyFrame_eq hframe, modifyFrame_eq hfound, hpage]
  cases change resident.page with
  | error error => exact .inl ⟨error, rfl, rfl⟩
  | ok found =>
      obtain ⟨changed, answer⟩ := found
      refine .inr ⟨answer, _, _, rfl, rfl, htwins.setFrame hframe hfound _, ?_⟩
      have hset : ∀ {before : Database} {found : Resident},
          before.cache.frames[page]? = some found →
          ({ before with cache := before.cache.setFrame page ⟨changed, some txn⟩ } :
            Database).shown? ⟨page, found.serial⟩ = some changed := by
        intro before found hbefore
        have hset := Cache.frames_setFrame_of_resident before.cache page page hbefore
          ⟨changed, some txn⟩
        rw [if_pos rfl] at hset
        exact @shown?_of_resident
          { before with cache := before.cache.setFrame page ⟨changed, some txn⟩ } page
          { found with toFrame := ⟨changed, some txn⟩ } hset
      rw [hset hfound, hset hframe]

/-- Both store a row in the page of their frames, or fail alike to do so. -/
theorem storeRow (htwins : Twins layout db twin) (hframe : db.cache.frames[page]? = some resident)
    (hfound : twin.cache.frames[page]? = some other) (hpage : other.page = resident.page)
    (txn : TxnId) (row : Row) :
    (∃ error, db.storeRow txn ⟨page, resident.serial⟩ row = (.error error, db) ∧
        twin.storeRow txn ⟨page, other.serial⟩ row = (.error error, twin)) ∨
      ∃ stored after middle,
        db.storeRow txn ⟨page, resident.serial⟩ row = (.ok stored, after) ∧
        twin.storeRow txn ⟨page, other.serial⟩ row = (.ok stored, middle) ∧
        Twins layout after middle ∧
        middle.shown? ⟨page, other.serial⟩ = after.shown? ⟨page, resident.serial⟩ :=
  htwins.modifyFrame hframe hfound hpage txn _

/-- Both go on with an operation that has reached its page. -/
theorem proceedFrom (htwins : Twins layout db twin)
    (hframe : db.cache.frames[page]? = some resident)
    (hfound : twin.cache.frames[page]? = some other) (hpage : other.page = resident.page)
    {locks : LockTable} (hready : operation.Ready locks txn) :
    Progress.InStep layout (db.proceedFrom txn ⟨page, resident.serial⟩ operation)
      (twin.proceedFrom txn ⟨page, other.serial⟩ operation) := by
  have hframe? : db.frame? ⟨page, resident.serial⟩ = some resident.toFrame :=
    Cache.frame?_of_resident _ _ hframe
  have hfound? : twin.frame? ⟨page, other.serial⟩ = some other.toFrame :=
    Cache.frame?_of_resident _ _ hfound
  cases operation with
  | getPage target mode =>
      refine ⟨.ended ?_, htwins⟩
      simp only [finding, proceedFrom, shown?_of_resident hframe, shown?_of_resident hfound, hpage]
  | insert heap row point =>
      have hstores := htwins.storeRow hframe hfound hpage txn row
      cases point with
      | probe number count heldBefore =>
          simp only [Database.proceedFrom, hframe?, hfound?, Option.any_some, hpage]
          split
          · exact ⟨.needs _, htwins⟩
          · cases heldBefore with
            | true => exact htwins.probeAt hready.1 txn row (number + 1) count
            | false =>
                exact (htwins.setLocks (htwins.locks.release txn (heap.pageId number))).probeAt
                  hready.1 txn row (number + 1) count
      | escalate number count =>
          have hrest := htwins.probeAt hready txn row (number + 1) count
          simp only [Database.proceedFrom]
          rcases hstores with ⟨error, hstore, hstore'⟩ | ⟨_, _, _, hstore, hstore', hafter, hshown⟩
          · rw [hstore, hstore']
            cases error <;> first | exact hrest | exact ⟨.ended rfl, htwins⟩
          · rw [hstore, hstore']
            exact ⟨.ended (by simp only [finding, hshown]), hafter⟩
      | grow number =>
          have hrest := htwins.growFor hready row
          simp only [Database.proceedFrom]
          rcases hstores with ⟨error, hstore, hstore'⟩ | ⟨_, _, _, hstore, hstore', hafter, hshown⟩
          · rw [hstore, hstore']
            cases error <;> first | exact hrest | exact ⟨.ended rfl, htwins⟩
          · rw [hstore, hstore']
            exact ⟨.ended (by simp only [finding, hshown]), hafter⟩
  | delete heap row place =>
      simp only [Database.proceedFrom]
      rcases htwins.modifyFrame hframe hfound hpage txn fun page =>
          (page.delete row).map fun page => (page, ()) with
        ⟨error, hmodify, hmodify'⟩ | ⟨_, after, middle, hmodify, hmodify', hafter, hshown⟩
      · rw [hmodify, hmodify']
        exact ⟨.ended rfl, htwins⟩
      · rw [hmodify, hmodify']
        exact ⟨.ended (by simp only [finding, hshown]), hafter⟩
  | scan walk =>
      simp only [Database.proceedFrom, hframe?, hfound?, hpage]
      cases resident.page.rows with
      | error error => exact ⟨.ended rfl, htwins⟩
      | ok rows => exact htwins.continueWalk (walk.refill rows)

/-- Both go on with an operation whose demand is granted, if neither lacks room. -/
theorem proceed (htwins : Twins layout db twin) (htidy : db.Tidy layout) (hother : twin.Tidy layout)
    (hconsistent : db.locks.Consistent) {locks : LockTable} (hready : operation.Ready locks txn)
    (hroom : (db.proceed txn operation).1.lacksRoom = false)
    (hroom' : (twin.proceed txn operation).1.lacksRoom = false) :
    Progress.InStep layout (db.proceed txn operation) (twin.proceed txn operation) := by
  have hfull : ∀ before : Database, (before.proceed txn operation).1.lacksRoom = false →
      (before.fetch operation.demand.1).1 ≠ .error .cacheFull := by
    intro before hbefore hfetch
    rcases hpair : before.fetch operation.demand.1 with ⟨answer, fetched⟩
    rw [hpair] at hfetch
    obtain rfl : answer = _ := hfetch
    simp [proceed_eq, hpair, Progress.lacksRoom, operation.lacksRoom_refuse] at hbefore
  obtain ⟨hfetched, hanswers⟩ :=
    htwins.fetch htidy hother hconsistent (hfull db hroom) (hfull twin hroom')
  simp only [proceed_eq]
  rcases hdb : db.fetch operation.demand.1 with ⟨answer, fetched⟩
  rcases htwin : twin.fetch operation.demand.1 with ⟨answer', fetched'⟩
  simp only [hdb, htwin] at hfetched hanswers
  rcases hanswers with ⟨error, rfl, rfl⟩ | ⟨resident, other, rfl, rfl, hframe, hfound, hpage⟩
  · refine ⟨?_, hfetched⟩
    cases operation <;> exact .ended rfl
  · have hnoted := hfetched.noteFor hframe hfound hpage txn operation.demand.2
    have hcache : ∀ (before : Database) (ref : FrameRef) (mode : LockMode),
        (before.noteFor txn ref mode).cache = before.cache := by
      intro before ref mode
      obtain ⟨journal, hjournal⟩ := before.noteFor_eq txn ref mode
      rw [hjournal]
    exact hnoted.proceedFrom (by rw [hcache, hframe]) (by rw [hcache, hfound]) hpage hready

/-- Both begin a call. -/
theorem begin (htwins : Twins layout db twin) (htidy : db.Tidy layout) (txn : TxnId)
    (call : Call) : Progress.InStep layout (db.begin txn call) (twin.begin txn call) := by
  cases call with
  | getPage page mode => exact ⟨.needs _, htwins⟩
  | insert table row =>
      simp only [Database.begin, beginInsert, htwins.catalog]
      cases hheap : db.catalog.heapFile table with
      | error error => exact ⟨.ended rfl, htwins⟩
      | ok heap =>
          have hsize : heap.file.pageSize ≠ 0 := by
            rw [(htidy.placed.sound.fits table heap hheap).pageSize]
            exact htidy.placed.sound.pageSize
          simp only [beginInsertInto, htwins.pageCount]
          split
          · exact ⟨.ended rfl, htwins⟩
          · exact htwins.probeAt hsize txn row 0 (heap.pageCount db.storage)
  | delete row =>
      refine ⟨?_, htwins⟩
      simp only [Database.begin, beginDelete, htwins.catalog]
      cases row.place with
      | none => exact .ended rfl
      | some place =>
          simp only
          cases db.catalog.heapFile place.page.table with
          | error error => exact .ended rfl
          | ok heap =>
              simp only [beginDeleteFrom, htwins.pageCount]
              cases row.place with
              | none => exact .ended rfl
              | some place =>
                  simp only
                  split
                  · exact .ended rfl
                  · split
                    · exact .ended rfl
                    · exact .needs _
  | scan table budget =>
      simp only [Database.begin, openCursor, htwins.catalog]
      cases db.catalog.heapFile table with
      | error error => exact ⟨.ended rfl, htwins⟩
      | ok heap => exact htwins.continueWalk _
  | walk cursor budget => exact htwins.continueWalk _

/-- Whoever is refused a page learns the same of twins. -/
theorem refuse (htwins : Twins layout db twin) (operation : Operation) (error : Error) :
    Status.InStep layout (.ended (operation.refuse error), db)
      (.ended (operation.refuse error), twin) := by
  refine ⟨.ended ?_, htwins⟩
  cases operation <;> rfl

/-- Both run an operation that waits for nothing, for as many demands, if neither lacks room. -/
theorem runFor (fuel : Nat) (htwins : Twins layout db twin) {progress other : Progress}
    (hagrees : Progress.Agrees db twin progress other)
    (hunderway : db.Underway layout txn progress) (hother : twin.Underway layout txn other)
    (hpending : db.locks.pending[txn]? = none)
    (hroom : (db.runFor fuel txn progress).1.lacksRoom = false)
    (hroom' : (twin.runFor fuel txn other).1.lacksRoom = false) :
    Status.InStep layout (db.runFor fuel txn progress) (twin.runFor fuel txn other) := by
  -- What is kept from one demand to the next is that the operation has come equally far.
  induction fuel generalizing db twin progress other with
  | zero =>
      have hstep : Progress.InStep layout (progress, db) (other, twin) := ⟨hagrees, htwins⟩
      exact hstep.runFor_zero txn
  | succ fuel ih =>
      cases hagrees with
      | ended hsame => exact ⟨.ended hsame, htwins⟩
      | needs operation =>
          obtain ⟨hsame, halike⟩ := htwins.locks.request txn operation.demand.1 operation.demand.2
          have hpending' : twin.locks.pending[txn]? = none := by
            rw [htwins.locks.pending, hpending]
          rcases hdb : db.locks.request txn operation.demand.1 operation.demand.2 with
            ⟨verdict, locks⟩
          rcases htwin : twin.locks.request txn operation.demand.1 operation.demand.2 with
            ⟨verdict', others⟩
          simp only [hdb, htwin] at hsame halike
          subst hsame
          have hlocked := htwins.setLocks halike
          simp only [Database.runFor, hdb, htwin] at hroom hroom' ⊢
          cases verdict' with
          | granted =>
              obtain ⟨hgoes, hholds, hnone⟩ := hunderway.request hpending hdb
              obtain ⟨hgoes', hholds', _⟩ := hother.request hpending' htwin
              obtain ⟨hnext, hafter⟩ := hlocked.proceed hgoes.tidy hgoes'.tidy
                hgoes.regular.consistent hgoes.ready (Progress.lacksRoom_of_runFor hroom)
                (Progress.lacksRoom_of_runFor hroom')
              exact ih hafter hnext (hgoes.proceed hholds) (hgoes'.proceed hholds')
                (hgoes.proceed_pending hholds hnone) hroom hroom'
          | refused reason => exact hlocked.refuse operation _
          | waits => exact ⟨.blocked operation, hlocked⟩

/-- Both take an operation further whose request is awake, for as many demands, if neither lacks
room. -/
theorem resumeFor (fuel : Nat) (htwins : Twins layout db twin)
    (hunderway : db.Underway layout txn (.needs operation))
    (hother : twin.Underway layout txn (.needs operation)) {request : PendingRequest}
    (hpending : db.locks.pending[txn]? = some request)
    (hdemand : operation.demand = (request.page, request.mode))
    (hroom : (db.resumeFor fuel txn operation request).1.lacksRoom = false)
    (hroom' : (twin.resumeFor fuel txn operation request).1.lacksRoom = false) :
    Status.InStep layout (db.resumeFor fuel txn operation request)
      (twin.resumeFor fuel txn operation request) := by
  have hpending' : twin.locks.pending[txn]? = some request := by
    rw [htwins.locks.pending, hpending]
  obtain ⟨hsame, halike⟩ := htwins.locks.advance txn request
  rcases hdb : db.locks.advance txn request with ⟨verdict, locks⟩
  rcases htwin : twin.locks.advance txn request with ⟨verdict', others⟩
  simp only [hdb, htwin] at hsame halike
  subst hsame
  have hlocked := htwins.setLocks halike
  simp only [Database.resumeFor, hdb, htwin] at hroom hroom' ⊢
  cases verdict' with
  | granted =>
      obtain ⟨hgoes, hholds, hnone⟩ := hunderway.advance hpending hdemand hdb
      obtain ⟨hgoes', hholds', _⟩ := hother.advance hpending' hdemand htwin
      obtain ⟨hnext, hafter⟩ := hlocked.proceed hgoes.tidy hgoes'.tidy hgoes.regular.consistent
        hgoes.ready (Progress.lacksRoom_of_runFor hroom) (Progress.lacksRoom_of_runFor hroom')
      exact hafter.runFor fuel hnext (hgoes.proceed hholds) (hgoes'.proceed hholds')
        (hgoes.proceed_pending hholds hnone) hroom hroom'
  | refused reason => exact hlocked.refuse operation _
  | waits => exact ⟨.blocked operation, hlocked⟩

/-- Both run an operation until it ends or has to wait, if neither lacks room. -/
theorem run (htwins : Twins layout db twin) {progress other : Progress}
    (hagrees : Progress.Agrees db twin progress other)
    (hunderway : db.Underway layout txn progress) (hother : twin.Underway layout txn other)
    (hpending : db.locks.pending[txn]? = none)
    (hroom : (db.run txn progress).1.lacksRoom = false)
    (hroom' : (twin.run txn other).1.lacksRoom = false) :
    Status.InStep layout (db.run txn progress) (twin.run txn other) := by
  -- The bounds of the two runs differ, but a larger one makes no difference to either.
  obtain ⟨bound, hrun⟩ := hunderway.run_eq hpending
  obtain ⟨bound', hrun'⟩ := hother.run_eq (by rw [htwins.locks.pending, hpending])
  rw [hrun (max bound bound') (Nat.le_max_left _ _)] at hroom ⊢
  rw [hrun' (max bound bound') (Nat.le_max_right _ _)] at hroom' ⊢
  exact htwins.runFor _ hagrees hunderway hother hpending hroom hroom'

/-- Both take an operation further whose request is awake, until it ends or has to wait, if neither
lacks room. -/
theorem resume (htwins : Twins layout db twin)
    (hunderway : db.Underway layout txn (.needs operation))
    (hother : twin.Underway layout txn (.needs operation)) {request : PendingRequest}
    (hpending : db.locks.pending[txn]? = some request)
    (hdemand : operation.demand = (request.page, request.mode))
    (hroom : (db.resume txn operation request).1.lacksRoom = false)
    (hroom' : (twin.resume txn operation request).1.lacksRoom = false) :
    Status.InStep layout (db.resume txn operation request)
      (twin.resume txn operation request) := by
  obtain ⟨bound, hresume⟩ := hunderway.resume_eq hpending hdemand
  obtain ⟨bound', hresume'⟩ :=
    hother.resume_eq (by rw [htwins.locks.pending, hpending]) hdemand
  rw [hresume (max bound bound') (Nat.le_max_left _ _)] at hroom ⊢
  rw [hresume' (max bound bound') (Nat.le_max_right _ _)] at hroom' ⊢
  exact htwins.resumeFor _ hunderway hother hpending hdemand hroom hroom'

end Twins

end Database

end RowStore
