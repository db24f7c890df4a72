import RowStore.Proofs.Database.Work

/-!
# Operations do works

However an operation goes on, what it does is a work that reports its accesses and its changes.
Each way to go on has a theorem of its own: `access_eq` for one access, `proceed_work` for an
operation whose demand is granted, and `runFor_work` for one that runs on until it rests.
-/

namespace RowStore

namespace Database

variable {db after : Database} {txn : TxnId} {page : PageId} {mode : LockMode}

/-- The database in which a transaction that holds a page in the mode has noted what it holds. -/
def noted (db : Database) (txn : TxnId) (page : PageId) (mode : LockMode) (bytes : Bytes) :
    Database :=
  match mode with
  | .shared => db
  | .exclusive => { db with journal := db.journal.record txn page bytes }

/-- A fetch in a sound catalog. -/
theorem fetched_of_sound (hsound : db.catalog.Sound) (page : PageId) :
    Fetched page db (db.fetch page).1 (db.fetch page).2 :=
  db.fetched page fun heap hheap => (hsound.fits page.table heap hheap).table

/-- The frame of a page that was fetched has the content that the page had. -/
theorem content_of_fetched {answer : Except Error FrameRef} {resident : Resident}
    (hfetched : Fetched page db answer after)
    (hframe : after.cache.frames[page]? = some resident) :
    resident.page.bytes = db.content page := by
  rcases hfetched.frames page with hsame | ⟨hnone, _⟩ | ⟨_, habsent, loaded, hloaded, hfresh⟩
  · rw [hframe] at hsame
    simp only [content, cached?, ← hsame, Option.map_some, Option.getD_some]
  · simp [hframe] at hnone
  · rw [hframe, Option.some.injEq] at hloaded
    subst hloaded
    obtain ⟨heap, hheap, horigin, _⟩ := hfresh.origin
    simp only [content, cached?, habsent, Option.map_none, Option.getD_none, onDisk, hheap]
    rw [hfresh.bytes, horigin]

/-- An access fails to fetch the page, or it refers to the frame of the page, and the content of
the page is noted if it may be changed. -/
theorem access_eq (hsound : db.catalog.Sound) (txn : TxnId) (page : PageId) (mode : LockMode) :
    (∃ error fetched, db.access txn page mode = (.error error, fetched) ∧
      Fetched page db (.error error) fetched) ∨
    ∃ resident fetched, Fetched page db (.ok ⟨page, resident.serial⟩) fetched ∧
      fetched.cache.frames[page]? = some resident ∧
      resident.page.bytes = db.content page ∧
      db.access txn page mode =
        (.ok ⟨page, resident.serial⟩, fetched.noted txn page mode resident.page.bytes) := by
  have hfetched := fetched_of_sound hsound page
  simp only [access]
  split
  · rename_i error fetched hfetch
    rw [hfetch] at hfetched
    exact .inl ⟨error, fetched, rfl, hfetched⟩
  · rename_i ref fetched hfetch
    rw [hfetch] at hfetched
    obtain ⟨resident, hframe, rfl⟩ := hfetched.answer ref rfl
    refine .inr ⟨resident, fetched, hfetched, hframe, content_of_fetched hfetched hframe, ?_⟩
    cases mode with
    | shared => rfl
    | exclusive =>
        simp only [noteBefore, frame?, Cache.frame?_of_resident _ _ hframe, noted]

/-- An access is a fetch, but for what it notes in the journal. -/
theorem access_eq_fetch (db : Database) (txn : TxnId) (page : PageId) (mode : LockMode) :
    (db.access txn page mode).1 = (db.fetch page).1 ∧
      ∃ journal, (db.access txn page mode).2 = { (db.fetch page).2 with journal } := by
  simp only [access]
  split
  · rename_i error fetched heq
    rw [heq]
    exact ⟨rfl, fetched.journal, rfl⟩
  · rename_i ref fetched heq
    rw [heq]
    cases mode with
    | shared => exact ⟨rfl, fetched.journal, rfl⟩
    | exclusive =>
        refine ⟨rfl, ?_⟩
        simp only [noteBefore]
        split
        · exact ⟨fetched.journal, rfl⟩
        · exact ⟨_, rfl⟩

/-- Changing the page of a frame in the cache. -/
theorem modifyFrame_eq {α : Type} {resident : Resident}
    (hframe : db.cache.frames[page]? = some resident) (txn : TxnId)
    (change : HeapPage → Except Error (HeapPage × α)) :
    db.modifyFrame ⟨page, resident.serial⟩ txn change =
      match change resident.page with
      | .error error => (.error error, db)
      | .ok (changed, answer) =>
          (.ok answer, { db with cache := db.cache.setFrame page ⟨changed, some txn⟩ }) := by
  simp only [modifyFrame, frame?, Cache.frame?_of_resident _ _ hframe, Frame.modify]
  cases change resident.page with
  | error error => rfl
  | ok changed => simp only [Cache.putFrame_of_resident _ _ hframe]

/-- Changing the page of a frame changes nothing but the cache, where the frame of the page is as it
was, or has the changed page. -/
theorem modifyFrame_cases {α : Type} (db : Database) (ref : FrameRef) (txn : TxnId)
    (change : HeapPage → Except Error (HeapPage × α)) :
    ∃ cache : Cache, (db.modifyFrame ref txn change).2 = { db with cache } ∧
      ∀ page : PageId, cache.frames[page]? = db.cache.frames[page]? ∨
        ref.page = page ∧ ∃ (resident : Resident) (changed : HeapPage) (answer : α),
          db.cache.frames[page]? = some resident ∧
          change resident.page = .ok (changed, answer) ∧
          (db.modifyFrame ref txn change).1 = .ok answer ∧
          cache.frames[page]? = some { resident with toFrame := ⟨changed, some txn⟩ } := by
  simp only [modifyFrame]
  split
  · exact ⟨db.cache, rfl, fun _ => .inl rfl⟩
  · rename_i frame hframe
    simp only [Frame.modify]
    cases hchange : change frame.page with
    | error error => exact ⟨db.cache, rfl, fun _ => .inl rfl⟩
    | ok found =>
        refine ⟨_, rfl, fun page => ?_⟩
        simp only [frame?, Cache.frame?] at hframe
        simp only [Cache.putFrame]
        cases hresident : db.cache.frames[ref.page]? with
        | none => exact .inl rfl
        | some resident =>
            simp only [hresident] at hframe
            by_cases hserial : resident.serial = ref.serial
            · simp only [hserial, if_true, Option.some.injEq] at hframe ⊢
              rw [Cache.frames_setFrame_of_resident _ _ _ hresident]
              split
              · rename_i hsame
                subst hsame
                exact .inr ⟨rfl, resident, found.1, found.2, hresident, hframe ▸ hchange, rfl, rfl⟩
              · exact .inl rfl
            · -- The page has another frame by now, and the one that is changed is in no cache.
              simp only [if_neg hserial]
              exact .inl trivial

/-- Changing the page of a frame removes no frame. -/
theorem modifyFrame_cache {α : Type} (db : Database) (ref : FrameRef) (txn : TxnId)
    (change : HeapPage → Except Error (HeapPage × α)) :
    ∃ cache : Cache, (db.modifyFrame ref txn change).2 = { db with cache } ∧
      ∀ page : PageId, (cache.frames[page]?).isSome = (db.cache.frames[page]?).isSome := by
  obtain ⟨cache, hcache, hframes⟩ := db.modifyFrame_cases ref txn change
  refine ⟨cache, hcache, fun page => ?_⟩
  rcases hframes page with hsame | ⟨_, resident, _, _, hbefore, _, _, hafter⟩
  · rw [hsame]
  · rw [hbefore, hafter]
    rfl

/-- An access under a lock is a work. -/
theorem access_work (hsound : db.catalog.Sound)
    (hholds : (db.locks.lockOf page).holds txn mode = true) :
    Work txn db (db.accessAt txn page mode) [] (db.access txn page mode).2 := by
  rcases access_eq hsound txn page mode with
    ⟨error, fetched, haccess, hfetched⟩ | ⟨resident, fetched, hfetched, hframe, hbytes, haccess⟩
  · rw [accessAt, haccess]
    exact .single (.fetch hfetched)
  · rw [accessAt, haccess, ← hbytes]
    refine .cons (.fetch hfetched) (.single ?_)
    cases mode with
    | shared => exact .read hframe
    | exclusive =>
        apply Act.note hframe
        rw [hfetched.exclusive]
        exact LockState.holds_exclusive_iff.mp hholds

/-- An access under a lock that succeeds: what can be done next with the frame. -/
theorem access_ok (hsound : db.catalog.Sound) {ref : FrameRef}
    (h : db.access txn page mode = (.ok ref, after)) :
    ∃ resident, after.cache.frames[page]? = some resident ∧ ref = ⟨page, resident.serial⟩ ∧
      resident.page.bytes = db.content page ∧
      (∀ other, (after.locks.lockOf other).exclusive = (db.locks.lockOf other).exclusive) ∧
      (mode = .exclusive → (after.journal.image? txn page).isSome = true) := by
  rcases access_eq hsound txn page mode with
    ⟨error, fetched, haccess, _⟩ | ⟨resident, fetched, hfetched, hframe, hbytes, haccess⟩
  · simp [haccess] at h
  · rw [haccess] at h
    simp only [Prod.mk.injEq, Except.ok.injEq] at h
    obtain ⟨rfl, rfl⟩ := h
    refine ⟨resident, ?_, rfl, hbytes, ?_, ?_⟩
    · cases mode <;> exact hframe
    · intro other
      cases mode <;> exact hfetched.exclusive other
    · rintro rfl
      simp only [noted, Journal.image?_record, and_self, if_true, Option.isSome_some]

/-- No access changes the requests that wait. -/
theorem pending_access (hsound : db.catalog.Sound) (txn : TxnId) (page : PageId)
    (mode : LockMode) :
    (db.access txn page mode).2.locks.pending = db.locks.pending := by
  rcases access_eq hsound txn page mode with
    ⟨error, fetched, haccess, hfetched⟩ | ⟨resident, fetched, hfetched, _, _, haccess⟩
  · rw [haccess]
    exact hfetched.pending
  · rw [haccess]
    cases mode <;> exact hfetched.pending

end Database

/-- What an operation has done that has come so far, from a database in which its transaction held
what it needed. -/
structure Advances (txn : TxnId) (before : Database) (accesses : List Access)
    (progress : Progress) (after : Database) : Prop where
  work : Work txn before accesses progress.changes after
  ready : progress.Ready after.locks txn
  pending : before.locks.pending[txn]? = none → after.locks.pending[txn]? = none

namespace Advances

variable {txn : TxnId} {before middle after : Database} {accesses : List Access}
  {progress : Progress}

/-- An operation that ends without a change. -/
theorem ended {answer : Except Error Answer}
    (hanswer : (Progress.ended answer).changes = []) :
    Advances txn before [] (.ended answer) before :=
  ⟨hanswer ▸ .none before, trivial, id⟩

/-- An operation that has done some work and goes on. -/
theorem append {later : List Access} (hwork : Work txn before accesses [] middle)
    (hpending : before.locks.pending[txn]? = none → middle.locks.pending[txn]? = none)
    (hrest : Advances txn middle later progress after) :
    Advances txn before (accesses ++ later) progress after :=
  ⟨hwork.append hrest.work, hrest.ready, hrest.pending ∘ hpending⟩

/-- An operation that has done some work and goes on without another access. -/
theorem after_work (hwork : Work txn before accesses [] middle)
    (hpending : before.locks.pending[txn]? = none → middle.locks.pending[txn]? = none)
    (hrest : Advances txn middle [] progress after) :
    Advances txn before accesses progress after := by
  have happend := append hwork hpending hrest
  rwa [List.append_nil] at happend

end Advances

namespace Database

variable {db after : Database} {txn : TxnId} {page : PageId} {mode : LockMode}

/-- An insert adds a page. -/
theorem growFor_advances {heap : HeapFile} (hsize : heap.file.pageSize ≠ 0) (row : Row) :
    Advances txn db [] (db.growFor heap row).1 (db.growFor heap row).2 :=
  ⟨.single (.append hsize), hsize, id⟩

/-- An insert turns to the page with this number. -/
theorem probeAt_advances {heap : HeapFile} (hsize : heap.file.pageSize ≠ 0) (row : Row)
    (number count : Nat) :
    Advances txn db [] (db.probeAt txn heap row number count).1
      (db.probeAt txn heap row number count).2 := by
  simp only [probeAt]
  split
  · refine ⟨.none db, ⟨hsize, ?_⟩, id⟩
    intro hheld howner
    rw [LockTable.holdsLock, LockState.holds, howner] at hheld
    simp at hheld
  · exact growFor_advances hsize row

/-- A row is stored on a page that the transaction holds exclusively, or nothing changes. -/
theorem storeRow_cases {resident : Resident} (hframe : db.cache.frames[page]? = some resident)
    (howner : (db.locks.lockOf page).exclusive = some txn)
    (himage : (db.journal.image? txn page).isSome = true) (row : Row) :
    (∃ error, db.storeRow txn ⟨page, resident.serial⟩ row = (.error error, db)) ∨
      ∃ stored after, db.storeRow txn ⟨page, resident.serial⟩ row = (.ok stored, after) ∧
        Act txn db [] [page] after ∧ after.locks = db.locks := by
  simp only [storeRow, modifyFrame_eq hframe]
  cases hinsert : resident.page.insert row with
  | error error => exact .inl ⟨error, rfl⟩
  | ok found =>
      obtain ⟨changed, slot⟩ := found
      exact .inr ⟨_, _, rfl, .change hframe howner himage (.insert row slot hinsert), rfl⟩

/-- An insert that has found room stores its row, or goes on to another page. -/
theorem storeRow_advances {fetched : Database} {ref : FrameRef} (hsound : db.catalog.Sound)
    (haccess : db.access txn page .exclusive = (.ok ref, fetched))
    (hholds : (db.locks.lockOf page).holds txn .exclusive = true) (row : Row)
    {elsewhere : Database → Progress × Database}
    (hrest : ∀ db, Advances txn db [] (elsewhere db).1 (elsewhere db).2) :
    let stored : Progress × Database := match fetched.storeRow txn ref row with
      | (.ok row, db) => (.ended (.ok (.inserted row ref)), db)
      | (.error (.pageFull _), db) => elsewhere db
      | (.error error, db) => (.ended (.error error), db)
    Advances txn fetched [] stored.1 stored.2 := by
  obtain ⟨resident, hframe, rfl, _, hexclusive, himage⟩ := access_ok hsound haccess
  have howner : (fetched.locks.lockOf page).exclusive = some txn := by
    rw [hexclusive]
    exact LockState.holds_exclusive_iff.mp hholds
  rcases storeRow_cases hframe howner (himage rfl) row with
    ⟨error, hstore⟩ | ⟨stored, after, hstore, hact, hlocks⟩
  · rw [hstore]
    cases error <;> first | exact hrest fetched | exact .ended rfl
  · rw [hstore]
    exact ⟨.single hact, trivial, hlocks ▸ id⟩

/-- An insert whose demand is granted goes on. -/
theorem proceedInsert_advances (hsound : db.catalog.Sound) {heap : HeapFile} {row : Row}
    {point : InsertPoint} (hready : (Operation.insert heap row point).Ready db.locks txn)
    (hholds : (db.locks.lockOf (Operation.insert heap row point).demand.1).holds txn
      (Operation.insert heap row point).demand.2 = true) :
    Advances txn db (db.accessOf txn (.insert heap row point))
      (db.proceedInsert txn heap row point).1 (db.proceedInsert txn heap row point).2 := by
  have hwork := access_work hsound hholds
  have hpending := pending_access hsound txn (Operation.insert heap row point).demand.1
    (Operation.insert heap row point).demand.2
  have hkeeps : db.locks.pending[txn]? = none →
      (db.access txn (Operation.insert heap row point).demand.1
        (Operation.insert heap row point).demand.2).2.locks.pending[txn]? = none := by
    rw [hpending]
    exact id
  cases point with
  | probe number count heldBefore =>
      obtain ⟨hsize, hheld⟩ := hready
      simp only [proceedInsert]
      split
      · rename_i error fetched haccess
        simp only [Operation.demand, haccess] at hwork hkeeps
        exact .after_work hwork hkeeps (.ended rfl)
      · rename_i ref fetched haccess
        obtain ⟨resident, _, _, _, hexclusive, _⟩ := access_ok hsound haccess
        simp only [Operation.demand, haccess] at hwork hkeeps
        refine .after_work hwork hkeeps ?_
        split
        · exact ⟨.none fetched, hsize, id⟩
        · cases heldBefore with
          | true => exact probeAt_advances hsize row (number + 1) count
          | false =>
              -- The page was only locked to be probed. Its lock is given up, and hides no change.
              have howner : (fetched.locks.lockOf (heap.pageId number)).exclusive ≠ some txn := by
                rw [hexclusive]
                exact hheld rfl
              refine .after_work (.single (.release howner)) ?_
                (probeAt_advances hsize row (number + 1) count)
              intro hnone
              exact LockTable.pending_release_none hnone
  | escalate number count =>
      simp only [proceedInsert]
      split
      · rename_i error fetched haccess
        simp only [Operation.demand, haccess] at hwork hkeeps
        exact .after_work hwork hkeeps (.ended rfl)
      · rename_i ref fetched haccess
        have hstore := storeRow_advances hsound haccess hholds row
          fun db => probeAt_advances hready row (number + 1) count
        simp only [Operation.demand, haccess] at hwork hkeeps
        exact .after_work hwork hkeeps hstore
  | grow number =>
      simp only [proceedInsert]
      split
      · rename_i error fetched haccess
        simp only [Operation.demand, haccess] at hwork hkeeps
        exact .after_work hwork hkeeps (.ended rfl)
      · rename_i ref fetched haccess
        have hstore := storeRow_advances hsound haccess hholds row
          fun db => growFor_advances hready row
        simp only [Operation.demand, haccess] at hwork hkeeps
        exact .after_work hwork hkeeps hstore

/-- A delete whose demand is granted ends. -/
theorem proceedDelete_advances (hsound : db.catalog.Sound) {row : Row} {place : RecordId}
    (hholds : (db.locks.lockOf place.page).holds txn .exclusive = true) :
    Advances txn db (db.accessAt txn place.page .exclusive)
      (db.proceedDelete txn row place).1 (db.proceedDelete txn row place).2 := by
  have hwork := access_work hsound hholds
  have hkeeps : db.locks.pending[txn]? = none →
      (db.access txn place.page .exclusive).2.locks.pending[txn]? = none := by
    rw [pending_access hsound]
    exact id
  simp only [proceedDelete]
  split
  · rename_i error fetched haccess
    simp only [haccess] at hwork hkeeps
    exact .after_work hwork hkeeps (.ended rfl)
  · rename_i ref fetched haccess
    obtain ⟨resident, hframe, rfl, _, hexclusive, himage⟩ := access_ok hsound haccess
    simp only [haccess] at hwork hkeeps
    refine .after_work hwork hkeeps ?_
    rw [modifyFrame_eq hframe]
    cases hdelete : resident.page.delete row with
    | error error => exact .ended rfl
    | ok changed =>
        refine ⟨.single (.change hframe ?_ (himage rfl) (.delete row hdelete)), trivial, id⟩
        rw [hexclusive]
        exact LockState.holds_exclusive_iff.mp hholds

/-- No walk changes a page. -/
theorem continueWalk_advances (walk : Walk) :
    Advances txn db [] (db.continueWalk walk) db := by
  simp only [continueWalk]
  split
  · exact .ended rfl
  · exact .ended rfl
  · exact ⟨.none db, trivial, id⟩

/-- A walk whose demand is granted goes on. -/
theorem proceedScan_advances (hsound : db.catalog.Sound) {walk : Walk}
    (hholds : (db.locks.lockOf walk.cursor.page).holds txn .shared = true) :
    Advances txn db (db.accessAt txn walk.cursor.page .shared)
      (db.proceedScan txn walk).1 (db.proceedScan txn walk).2 := by
  have hwork := access_work hsound hholds
  have hkeeps : db.locks.pending[txn]? = none →
      (db.access txn walk.cursor.page .shared).2.locks.pending[txn]? = none := by
    rw [pending_access hsound]
    exact id
  simp only [proceedScan]
  split
  · rename_i error fetched haccess
    simp only [haccess] at hwork hkeeps
    exact .after_work hwork hkeeps (.ended rfl)
  · rename_i ref fetched haccess
    simp only [haccess] at hwork hkeeps
    refine .after_work hwork hkeeps ?_
    split
    · exact continueWalk_advances (walk.refill [])
    · split
      · exact .ended rfl
      · exact continueWalk_advances _

/-- An operation whose demand is granted goes on. -/
theorem proceed_advances (hsound : db.catalog.Sound) {operation : Operation}
    (hready : operation.Ready db.locks txn)
    (hholds : (db.locks.lockOf operation.demand.1).holds txn operation.demand.2 = true) :
    Advances txn db (db.accessOf txn operation) (db.proceed txn operation).1
      (db.proceed txn operation).2 := by
  cases operation with
  | getPage page mode =>
      refine .after_work (access_work hsound hholds) ?_ (.ended ?_)
      · rw [pending_access hsound]
        exact id
      · show (Progress.ended ((db.access txn page mode).1.map .page)).changes = []
        cases (db.access txn page mode).1 <;> rfl
  | insert heap row point => exact proceedInsert_advances hsound hready hholds
  | delete heap row place => exact proceedDelete_advances hsound hholds
  | scan walk => exact proceedScan_advances hsound hholds

/-- A call has begun. -/
theorem begin_advances (hsound : db.catalog.Sound) (txn : TxnId) (call : Call) :
    Advances txn db [] (db.begin txn call).1 (db.begin txn call).2 := by
  cases call with
  | getPage page mode => exact ⟨.none db, trivial, id⟩
  | insert table row =>
      simp only [begin, beginInsert]
      split
      · exact .ended rfl
      · rename_i heap hheap
        have hsize : heap.file.pageSize ≠ 0 := by
          rw [(hsound.fits table heap hheap).pageSize]
          exact hsound.pageSize
        simp only [beginInsertInto]
        split
        · exact .ended rfl
        · exact probeAt_advances hsize row 0 _
  | delete row =>
      simp only [begin, beginDelete]
      split
      · exact .ended rfl
      · split
        · exact .ended rfl
        · simp only [beginDeleteFrom]
          split
          · exact .ended rfl
          · split
            · exact .ended rfl
            · split
              · exact .ended rfl
              · exact ⟨.none db, trivial, id⟩
  | scan table budget =>
      simp only [begin]
      split
      · exact .ended rfl
      · exact continueWalk_advances _
  | walk cursor budget => exact continueWalk_advances _

end Database

/-- An operation is ready that may go on, as long as its transaction becomes the exclusive holder of
no page. -/
theorem Operation.Ready.of_exclusive {operation : Operation} {txn : TxnId}
    {before after : LockTable} (hready : operation.Ready before txn)
    (hexclusive : ∀ page, (before.lockOf page).exclusive ≠ some txn →
      (after.lockOf page).exclusive ≠ some txn) : operation.Ready after txn := by
  cases operation with
  | insert heap row point =>
      cases point with
      | probe number count heldBefore =>
          exact ⟨hready.1, fun hheld => hexclusive _ (hready.2 hheld)⟩
      | escalate number count => exact hready
      | grow number => exact hready
  | getPage page mode => trivial
  | delete heap row place => trivial
  | scan walk => trivial

/-- A request for what the operation needs leaves it able to go on. -/
theorem Operation.Ready.of_serves {operation : Operation} {txn : TxnId} {before after : LockTable}
    (hready : operation.Ready before txn)
    (hserves : LockTable.Serves txn operation.demand.1 operation.demand.2 before after) :
    operation.Ready after txn := by
  cases operation with
  | insert heap row point =>
      cases point with
      | probe number count heldBefore =>
          refine ⟨hready.1, ?_⟩
          intro hheld
          rcases hserves.exclusive (heap.pageId number) with hsame | ⟨_, hmode, _⟩
          · rw [hsame]
            exact hready.2 hheld
          · simp [demand] at hmode
      | escalate number count => exact hready
      | grow number => exact hready
  | getPage page mode => trivial
  | delete heap row place => trivial
  | scan walk => trivial

/-- An operation that ends by the refusal of a lock has changed nothing. -/
theorem Operation.changes_refuse (operation : Operation) (error : Error) :
    (Status.ended (operation.refuse error)).changes = [] := by
  cases operation <;> rfl

/-- What an operation has done that rests now. -/
structure Rested (txn : TxnId) (before : Database) (accesses : List Access) (status : Status)
    (after : Database) : Prop where
  work : Work txn before accesses status.changes after
  rests : status.Rests after.locks txn

/-- An operation that has ended rests. -/
theorem Advances.rested {txn : TxnId} {start db : Database} {accesses : List Access}
    {answer : Except Error Answer} (hpending : start.locks.pending[txn]? = none)
    (hadvances : Advances txn start accesses (.ended answer) db) :
    Rested txn start accesses (.ended answer) db := by
  refine ⟨?_, hadvances.pending hpending⟩
  cases answer <;> exact hadvances.work

namespace Database

variable {db start : Database} {txn : TxnId} {accesses : List Access}

/-- An operation that makes no demand accesses nothing. -/
theorem accessesFor_zero (db : Database) (txn : TxnId) (progress : Progress) :
    db.accessesFor 0 txn progress = [] := by
  cases progress <;> rfl

/-- An operation that runs on until it rests has done a work. -/
theorem runFor_rested (fuel : Nat) {progress : Progress} (hsound : db.catalog.Sound)
    (hpending : start.locks.pending[txn]? = none)
    (hadvances : Advances txn start accesses progress db) :
    Rested txn start (accesses ++ db.accessesFor fuel txn progress)
      (db.runFor fuel txn progress).1 (db.runFor fuel txn progress).2 := by
  -- What is kept from one demand to the next is that the operation has advanced.
  induction fuel generalizing db accesses progress with
  | zero =>
      rw [accessesFor_zero, List.append_nil]
      cases progress with
      | ended answer => exact hadvances.rested hpending
      | needs operation =>
          have hnone := hadvances.pending hpending
          refine ⟨hadvances.work, hadvances.ready, ?_⟩
          intro request hrequest
          rw [show db.locks.pending[txn]? = some request from hrequest] at hnone
          simp at hnone
  | succ fuel ih =>
      cases progress with
      | ended answer =>
          rw [show db.accessesFor (fuel + 1) txn (.ended answer) = [] from rfl, List.append_nil]
          exact hadvances.rested hpending
      | needs operation =>
          have hready : operation.Ready db.locks txn := hadvances.ready
          have htreated := LockTable.request_treated (hadvances.pending hpending)
            operation.demand.1 operation.demand.2
          rcases hrequest : db.locks.request txn operation.demand.1 operation.demand.2 with
            ⟨verdict, locks⟩
          rw [hrequest] at htreated
          have hlocked := hadvances.work.append (.single (.lock htreated.serves))
          rw [show Progress.changes (.needs operation) = [] from rfl, List.append_nil] at hlocked
          have hready := hready.of_serves htreated.serves
          simp only [accessesFor, runFor, hrequest]
          cases verdict with
          | granted =>
              have hgranted : ({ db with locks } : Database).catalog.Sound := hsound
              have hproceeds := proceed_advances hgranted hready
                (htreated.granted rfl)
              have hrest := ih (by rw [hproceeds.work.catalog]; exact hsound)
                (.append hlocked (fun _ => htreated.answered (by simp)) hproceeds)
              rwa [List.append_assoc] at hrest
          | refused reason =>
              simp only [List.append_nil]
              refine ⟨?_, htreated.answered (by simp)⟩
              rwa [Operation.changes_refuse]
          | waits =>
              simp only [List.append_nil]
              refine ⟨hlocked, hready, ?_⟩
              intro request hpending
              have hwaits := htreated.waits rfl
              rw [show locks.pending[txn]? = some request from hpending] at hwaits
              simp only [Option.some.injEq] at hwaits
              rw [hwaits]

/-- An operation that runs until it rests has done a work. -/
theorem run_rested {progress : Progress} (hsound : db.catalog.Sound)
    (hpending : start.locks.pending[txn]? = none)
    (hadvances : Advances txn start accesses progress db) :
    Rested txn start (accesses ++ db.accessesOf txn progress) (db.run txn progress).1
      (db.run txn progress).2 := by
  cases progress with
  | ended answer =>
      rw [show db.accessesOf txn (.ended answer) = [] from rfl, List.append_nil]
      exact hadvances.rested hpending
  | needs operation => exact runFor_rested _ hsound hpending hadvances

/-- A call that runs until it rests has done a work. -/
theorem begin_rested (hsound : db.catalog.Sound) (hpending : db.locks.pending[txn]? = none)
    (call : Call) :
    Rested txn db ((db.begin txn call).2.accessesOf txn (db.begin txn call).1)
      ((db.begin txn call).2.run txn (db.begin txn call).1).1
      ((db.begin txn call).2.run txn (db.begin txn call).1).2 := by
  have hbegins := begin_advances hsound txn call
  exact run_rested (by rw [hbegins.work.catalog]; exact hsound) hpending hbegins

/-- Take an operation further whose pending request is awake, until it ends, has to wait, or has
met as many demands as `fuel` says after the one that it waits with. -/
def resumeFor (fuel : Nat) (db : Database) (txn : TxnId) (operation : Operation)
    (request : PendingRequest) : Status × Database :=
  match db.locks.advance txn request with
  | (.granted, locks) =>
      let (progress, db) := { db with locks }.proceed txn operation
      db.runFor fuel txn progress
  | (.refused reason, locks) =>
      (.ended (operation.refuse (.aborted txn request.page reason)), { db with locks })
  | (.waits, locks) => (.blocked operation, { db with locks })

/-- The accesses of an operation that is taken so far. -/
def accessesOfResumedFor (fuel : Nat) (db : Database) (txn : TxnId) (operation : Operation)
    (request : PendingRequest) : List Access :=
  match db.locks.advance txn request with
  | (.granted, locks) =>
      let (progress, after) := { db with locks }.proceed txn operation
      { db with locks }.accessOf txn operation ++ after.accessesFor fuel txn progress
  | _ => []

/-- An operation that runs until it ends or has to wait meets some number of demands. -/
theorem run_eq_runFor (db : Database) (txn : TxnId) (progress : Progress) :
    ∃ fuel, db.run txn progress = db.runFor fuel txn progress ∧
      db.accessesOf txn progress = db.accessesFor fuel txn progress := by
  cases progress with
  | ended answer => exact ⟨0, rfl, rfl⟩
  | needs operation => exact ⟨db.demandBound operation, rfl, rfl⟩

/-- An operation that goes on until it ends or has to wait meets some number of demands. -/
theorem resume_eq_resumeFor (db : Database) (txn : TxnId) (operation : Operation)
    (request : PendingRequest) :
    ∃ fuel, db.resume txn operation request = db.resumeFor fuel txn operation request ∧
      db.accessesOfResumed txn operation request =
        db.accessesOfResumedFor fuel txn operation request := by
  simp only [resume, resumeFor, accessesOfResumed, accessesOfResumedFor]
  rcases db.locks.advance txn request with ⟨verdict, locks⟩
  cases verdict with
  | granted =>
      obtain ⟨fuel, hrun, haccesses⟩ := run_eq_runFor
        (({ db with locks } : Database).proceed txn operation).2 txn
        (({ db with locks } : Database).proceed txn operation).1
      exact ⟨fuel, hrun, by simp only [haccesses]⟩
  | refused | waits => exact ⟨0, rfl, rfl⟩

/-- A waiting operation that is taken further has done a work when it rests again. -/
theorem resumeFor_rested (fuel : Nat) (hsound : db.catalog.Sound) {operation : Operation}
    {request : PendingRequest} (hawaits : operation.Awaits db.locks txn)
    (hpending : db.locks.pending[txn]? = some request) :
    Rested txn db (db.accessesOfResumedFor fuel txn operation request)
      (db.resumeFor fuel txn operation request).1
      (db.resumeFor fuel txn operation request).2 := by
  have hdemand := hawaits.2 request hpending
  have htreated := LockTable.advance_treated db.locks txn request
  rcases hadvance : db.locks.advance txn request with ⟨verdict, locks⟩
  rw [hadvance] at htreated
  have hlocked : Work txn db [] [] { db with locks } := .single (.lock htreated.serves)
  have hready : operation.Ready locks txn :=
    hawaits.1.of_serves (by rw [hdemand]; exact htreated.serves)
  simp only [accessesOfResumedFor, resumeFor, hadvance]
  cases verdict with
  | granted =>
      have hgranted : ({ db with locks } : Database).catalog.Sound := hsound
      have hproceeds := proceed_advances hgranted hready
        (by rw [hdemand]; exact htreated.granted rfl)
      have hrested := runFor_rested fuel (by rw [hproceeds.work.catalog]; exact hsound)
        (htreated.answered (by simp)) hproceeds
      exact ⟨hlocked.append hrested.work, hrested.rests⟩
  | refused reason =>
      refine ⟨?_, htreated.answered (by simp)⟩
      rwa [Operation.changes_refuse]
  | waits =>
      refine ⟨hlocked, hready, ?_⟩
      intro found hfound
      have hwaits := htreated.waits rfl
      rw [show locks.pending[txn]? = some found from hfound] at hwaits
      simp only [Option.some.injEq] at hwaits
      rw [hwaits, hdemand]

/-- A waiting operation that goes on has done a work when it rests again. -/
theorem resume_rested (hsound : db.catalog.Sound) {operation : Operation}
    {request : PendingRequest} (hawaits : operation.Awaits db.locks txn)
    (hpending : db.locks.pending[txn]? = some request) :
    Rested txn db (db.accessesOfResumed txn operation request)
      (db.resume txn operation request).1 (db.resume txn operation request).2 := by
  obtain ⟨fuel, hresume, haccesses⟩ := db.resume_eq_resumeFor txn operation request
  rw [hresume, haccesses]
  exact resumeFor_rested fuel hsound hawaits hpending

end Database

end RowStore
