import RowStore.Proofs.Database.Stride
import RowStore.Proofs.Database.Twins
import RowStore.Proofs.Page.Rows

/-!
# How many demands an operation makes

An operation that runs until it ends or has to wait is given as many demands as `demandBound` says.
It never needs more: `Underway.run_not_paused`. What is left of it becomes less with each demand
(`Operation.Within`). A walk comes to each page of its file once. An insert makes at most two demands
on each page that its file has, and then one on the page that it adds. That page is empty, so the row
has room there. Only an insert that waited for the page that it has added may find it full, and adds
another one.
-/

namespace RowStore

variable {layout : Layout}

namespace Operation

/-- The table of an insert is one of the catalog. -/
def Registered (catalog : Catalog) : Operation → Prop
  | .insert heap .. => catalog.heapFile heap.table = .ok heap
  | .getPage .. | .delete .. | .scan _ => True

/-- The operation makes at most so many demands more, if it need not wait: two for each page of its
file that an insert has not come to, one for a page that it adds, and one for each page that a
walk has not read. -/
def Within (layout : Layout) (db : Database) (bound : Nat) : Operation → Prop
  | .getPage .. | .delete .. => 0 < bound
  | .insert _ _ (.probe number count _) => number < count ∧ 2 * (count - number) < bound
  | .insert _ _ (.escalate number count) => number < count ∧ 2 * (count - number) ≤ bound
  | .insert heap _ (.grow number) => 1 < bound ∨ 0 < bound ∧
      layout.padded db (heap.pageId number) = Bytes.zeros layout.pageSize
  | .scan walk => walk.cursor.heap.pageCount db.storage - walk.cursor.nextPage < bound

end Operation

namespace Progress

/-- The operation, if it has not ended, takes its file for no longer than it is. -/
def Counted (storage : Storage) : Progress → Prop
  | .ended _ => True
  | .needs operation => operation.Counted storage

/-- The table of the operation, if it has not ended, is one of the catalog. -/
def Registered (catalog : Catalog) : Progress → Prop
  | .ended _ => True
  | .needs operation => operation.Registered catalog

/-- The operation has ended, or makes at most so many demands more. -/
def Within (layout : Layout) (db : Database) (bound : Nat) : Progress → Prop
  | .ended _ => True
  | .needs operation => operation.Within layout db bound

end Progress

/-- The table of the operation, if it has not ended, is one of the catalog. -/
def Status.Registered (catalog : Catalog) : Status → Prop
  | .ended _ => True
  | .blocked operation | .paused operation => operation.Registered catalog

namespace Database

/-- An operation has come so far in a tidy database. -/
structure Underway (layout : Layout) (txn : TxnId) (progress : Progress) (db : Database) :
    Prop where
  tidy : db.Tidy layout
  regular : db.locks.Regular
  ready : progress.Ready db.locks txn
  counted : progress.Counted db.storage
  registered : progress.Registered db.catalog

variable {db after : Database} {txn : TxnId} {operation : Operation} {progress : Progress}
  {page : PageId} {resident : Resident} {heap : HeapFile} {row : Row} {number count bound : Nat}
  {catalog : Catalog}

theorem Pursues.counted {pages : List PageId} (hpursues : db.Pursues txn pages progress) :
    progress.Counted db.storage := by
  cases progress with
  | ended answer => trivial
  | needs operation => exact hpursues.1

theorem probeAt_registered (hregistered : catalog.heapFile heap.table = .ok heap) :
    (db.probeAt txn heap row number count).1.Registered catalog := by
  simp only [probeAt]
  split <;> exact hregistered

/-- An operation goes on with the same table. -/
theorem proceedFrom_registered (db : Database) (txn : TxnId) (ref : FrameRef)
    (hregistered : operation.Registered catalog) :
    (db.proceedFrom txn ref operation).1.Registered catalog := by
  cases operation with
  | getPage => trivial
  | insert heap row point =>
      cases point with
      | probe number count heldBefore =>
          simp only [proceedFrom]
          split
          · exact hregistered
          · exact probeAt_registered hregistered
      | escalate number count =>
          simp only [proceedFrom]
          split
          · trivial
          · exact probeAt_registered hregistered
          · trivial
      | grow number =>
          simp only [proceedFrom]
          split
          · trivial
          · exact hregistered
          · trivial
  | delete heap row place =>
      simp only [proceedFrom]
      split <;> trivial
  | scan walk =>
      have hwalk : ∀ next : Walk, (db.continueWalk next).Registered catalog := by
        intro next
        simp only [continueWalk]
        split <;> trivial
      simp only [proceedFrom]
      split
      · exact hwalk _
      · split
        · trivial
        · exact hwalk _

theorem proceed_registered (db : Database) (txn : TxnId)
    (hregistered : operation.Registered catalog) :
    (db.proceed txn operation).1.Registered catalog := by
  rw [proceed_eq]
  split
  · trivial
  · exact proceedFrom_registered _ txn _ hregistered

theorem runFor_registered (fuel : Nat) (db : Database) (txn : TxnId)
    (hregistered : progress.Registered catalog) :
    (db.runFor fuel txn progress).1.Registered catalog := by
  induction fuel generalizing db progress with
  | zero => cases progress <;> exact hregistered
  | succ fuel ih =>
      cases progress with
      | ended answer => trivial
      | needs operation =>
          simp only [runFor]
          split
          · exact ih _ (proceed_registered _ txn hregistered)
          · trivial
          · exact hregistered

theorem resumeFor_registered (fuel : Nat) (db : Database) (txn : TxnId) (request : PendingRequest)
    (hregistered : operation.Registered catalog) :
    (db.resumeFor fuel txn operation request).1.Registered catalog := by
  simp only [resumeFor]
  split
  · exact runFor_registered fuel _ txn (proceed_registered _ txn hregistered)
  · trivial
  · exact hregistered

/-- A call that has begun is one of a table of the catalog. -/
theorem begin_registered (hsound : db.catalog.Sound) (txn : TxnId) (call : Call) :
    (db.begin txn call).1.Registered db.catalog := by
  have hwalk : ∀ next : Walk, (db.continueWalk next).Registered db.catalog := by
    intro next
    simp only [continueWalk]
    split <;> trivial
  cases call with
  | getPage => trivial
  | insert table row =>
      simp only [begin, beginInsert]
      split
      · trivial
      · rename_i heap hheap
        simp only [beginInsertInto]
        split
        · trivial
        · exact probeAt_registered ((hsound.fits table heap hheap).table ▸ hheap)
  | delete row =>
      simp only [begin, beginDelete]
      split
      · trivial
      · split
        · trivial
        · simp only [beginDeleteFrom]
          split
          · trivial
          · split
            · trivial
            · split <;> trivial
  | scan table budget =>
      simp only [begin]
      split
      · trivial
      · exact hwalk _
  | walk cursor budget => exact hwalk _

/-- The pages behind the end of a file are empty. -/
theorem Tidy.padded_outside (htidy : db.Tidy layout)
    (hheap : db.catalog.heapFile heap.table = .ok heap)
    (houtside : heap.pageCount db.storage ≤ number) :
    layout.padded db (heap.pageId number) = Bytes.zeros layout.pageSize := by
  have hlocates := htidy.placed.locates heap.table heap hheap
  have hsize : heap.file.pageSize ≠ 0 := by
    rw [(htidy.placed.sound.fits heap.table heap hheap).pageSize]
    exact htidy.placed.sound.pageSize
  have hends : (db.storage.bytes heap.file).length ≤ number * heap.file.pageSize :=
    Nat.le_trans (Storage.le_pagesFor_mul heap.file _ hsize)
      (Nat.mul_le_mul_right heap.file.pageSize houtside)
  have habsent : db.cache.frames[heap.pageId number]? = none := by
    refine Option.eq_none_iff_forall_ne_some.mpr fun resident hframe => ?_
    have hcovers := (hlocates.covers_iff number).mp (htidy.placed.frame _ resident hframe).covers
    omega
  have hbytes : layout.bytes db.storage (heap.pageId number) = [] := by
    rw [HeapFile.pageId, hlocates.bytes_eq, Bytes.slice, List.drop_eq_nil_of_le hends,
      List.take_nil]
  rw [Layout.padded, Layout.contentOf_of_absent habsent, hbytes, Bytes.resize, List.take_nil,
    List.nil_append, List.length_nil, Nat.sub_zero]

/-- An insert that adds a page makes one more demand. -/
theorem Tidy.growFor_within (htidy : db.Tidy layout)
    (hheap : db.catalog.heapFile heap.table = .ok heap) (hbound : 0 < bound) :
    (db.growFor heap row).1.Within layout (db.growFor heap row).2 bound := by
  have hsize : heap.file.pageSize ≠ 0 := by
    rw [(htidy.placed.sound.fits heap.table heap hheap).pageSize]
    exact htidy.placed.sound.pageSize
  refine .inr ⟨hbound, ?_⟩
  show layout.padded { db with storage := (heap.appendPage db.storage).2 }
    (heap.pageId (heap.pageCount db.storage)) = _
  rw [Layout.padded_append db hsize]
  exact htidy.padded_outside hheap (Nat.le_refl _)

/-- An insert that turns to the page with this number comes to the pages from there on. -/
theorem Tidy.probeAt_within (htidy : db.Tidy layout)
    (hheap : db.catalog.heapFile heap.table = .ok heap) (hbound : 2 * (count - number) < bound) :
    (db.probeAt txn heap row number count).1.Within layout
      (db.probeAt txn heap row number count).2 bound := by
  simp only [probeAt]
  split
  · rename_i hnumber
    exact ⟨hnumber, hbound⟩
  · exact htidy.growFor_within hheap (by omega)

/-- A walk that goes on reads the pages from there on. -/
theorem continueWalk_within (walk : Walk)
    (hbound : walk.cursor.heap.pageCount db.storage < walk.cursor.nextPage + bound) :
    (db.continueWalk walk).Within layout db bound := by
  simp only [continueWalk]
  split
  · trivial
  · trivial
  · rename_i hreads
    have hnext : walk.cursor.nextPage < walk.cursor.heap.pageCount db.storage := by
      simp only [Walk.step] at hreads
      split at hreads
      · simp at hreads
      · split at hreads
        · simp at hreads
        · rename_i hmore
          simp only [Walk.drain, Walk.emit, Bool.or_eq_true, not_or] at hmore
          exact Nat.not_le.mp fun hle => hmore.2 (decide_eq_true hle)
    show walk.cursor.heap.pageCount db.storage - walk.cursor.nextPage < bound
    omega

/-- With each page that an operation has reached there is less left of it. -/
theorem Tidy.proceedFrom_within (htidy : db.Tidy layout)
    (hframe : db.cache.frames[operation.demand.1]? = some resident)
    (hready : operation.Ready db.locks txn) (hregistered : operation.Registered db.catalog)
    (hwithin : operation.Within layout db (bound + 1)) :
    (db.proceedFrom txn ⟨operation.demand.1, resident.serial⟩ operation).1.Within layout
      (db.proceedFrom txn ⟨operation.demand.1, resident.serial⟩ operation).2 bound := by
  cases operation with
  | getPage => trivial
  | insert heap row point =>
      cases point with
      | probe number count heldBefore =>
          obtain ⟨hnumber, hbound⟩ := hwithin
          simp only [proceedFrom]
          split
          · exact ⟨hnumber, by omega⟩
          · cases heldBefore with
            | true => exact htidy.probeAt_within hregistered (by omega)
            | false =>
                have hreleased := (Act.release (hready.2 rfl)).tidy htidy
                exact hreleased.probeAt_within hregistered (by omega)
      | escalate number count =>
          obtain ⟨hnumber, hbound⟩ := hwithin
          simp only [proceedFrom, storeRow, modifyFrame_eq hframe]
          cases resident.page.insert row with
          | error error =>
              simp only [Except.map]
              cases error <;>
                first | exact htidy.probeAt_within hregistered (by omega) | trivial
          | ok found => trivial
      | grow number =>
          simp only [proceedFrom, storeRow, modifyFrame_eq hframe]
          cases hinsert : resident.page.insert row with
          | error error =>
              simp only [Except.map]
              cases error with
              | pageFull id =>
                  rcases hwithin with hbound | ⟨_, hempty⟩
                  · exact htidy.growFor_within hregistered (Nat.lt_of_succ_lt_succ hbound)
                  · have hframe : db.cache.frames[heap.pageId number]? = some resident := hframe
                    rw [Layout.padded, Layout.contentOf_of_frame hframe,
                      Bytes.resize_of_length (htidy.placed.frame _ _ hframe).length] at hempty
                    exact absurd (HeapPage.freeCount_of_full hinsert)
                      (Nat.ne_of_gt (HeapPage.freeCount_pos_of_zeros hempty))
              | _ => trivial
          | ok found => trivial
  | delete heap row place =>
      simp only [proceedFrom]
      split <;> trivial
  | scan walk =>
      have hnext : walk.cursor.heap.pageCount db.storage < walk.cursor.nextPage + 1 + bound := by
        have hbound : walk.cursor.heap.pageCount db.storage - walk.cursor.nextPage < bound + 1 :=
          hwithin
        omega
      simp only [proceedFrom]
      split
      · exact continueWalk_within _ hnext
      · split
        · trivial
        · exact continueWalk_within _ hnext

namespace Underway

/-- An operation whose lock is granted is as far as it was. -/
theorem locked (hunderway : db.Underway layout txn (.needs operation)) {locks : LockTable}
    (hserves : LockTable.Serves txn operation.demand.1 operation.demand.2 db.locks locks)
    (hspares : LockTable.Spares txn db.locks locks) :
    ({ db with locks } : Database).Underway layout txn (.needs operation) where
  tidy := (Act.lock hserves).tidy hunderway.tidy
  regular := hspares.regular hunderway.regular
  ready := Operation.Ready.of_serves hunderway.ready hserves
  counted := hunderway.counted
  registered := hunderway.registered

/-- An operation that holds what it needs goes on. -/
theorem proceed (hunderway : db.Underway layout txn (.needs operation))
    (hholds : (db.locks.lockOf operation.demand.1).holds txn operation.demand.2 = true) :
    (db.proceed txn operation).2.Underway layout txn (db.proceed txn operation).1 := by
  have hsound := hunderway.tidy.placed.sound
  have hadvances := proceed_advances hsound hunderway.ready hholds
  have hcarried := @proceed_carried db txn [] hsound operation hunderway.ready hholds
    (by simp [Retains]) ⟨hunderway.counted, by simp⟩
  refine ⟨hadvances.work.tidy hunderway.tidy, hcarried.goes.spares.regular hunderway.regular,
    hadvances.ready, hcarried.pursues.counted, ?_⟩
  rw [hadvances.work.catalog]
  exact proceed_registered db txn hunderway.registered

/-- With each demand that is granted there is less left of an operation. -/
theorem proceed_within (hunderway : db.Underway layout txn (.needs operation))
    (hholds : (db.locks.lockOf operation.demand.1).holds txn operation.demand.2 = true)
    (hwithin : operation.Within layout db (bound + 1)) :
    (db.proceed txn operation).1.Within layout (db.proceed txn operation).2 bound := by
  have htidy := hunderway.tidy
  have hfetched := fetched_of_sound htidy.placed.sound operation.demand.1
  have htwins := htidy.fetch_twins hunderway.regular.consistent operation.demand.1
  have hnoted := (access_work htidy.placed.sound hholds).tidy htidy
  rw [proceed_eq]
  rw [access_eq_noteFor] at hnoted
  rcases hfetch : db.fetch operation.demand.1 with ⟨answer, fetched⟩
  simp only [hfetch] at hfetched htwins hnoted ⊢
  cases answer with
  | error error => trivial
  | ok ref =>
      obtain ⟨resident, hframe, rfl⟩ := hfetched.answer ref rfl
      obtain ⟨journal, hjournal⟩ := fetched.noteFor_eq txn ⟨operation.demand.1, resident.serial⟩
        operation.demand.2
      have hready : operation.Ready fetched.locks txn :=
        Operation.Ready.of_exclusive hunderway.ready fun page hother => by
          rwa [hfetched.exclusive]
      have hregistered : operation.Registered fetched.catalog := by
        rw [hfetched.catalog]
        exact hunderway.registered
      have hwithin : operation.Within layout { fetched with journal } (bound + 1) := by
        cases operation with
        | getPage | delete => exact hwithin
        | insert heap row point =>
            cases point with
            | probe | escalate => exact hwithin
            | grow number =>
                refine hwithin.imp_right fun hempty => ⟨hempty.1, ?_⟩
                exact (htwins.padded _).trans hempty.2
        | scan walk =>
            show walk.cursor.heap.pageCount fetched.storage - _ < _
            rw [htwins.pageCount]
            exact hwithin
      simp only [hjournal] at hnoted ⊢
      exact hnoted.proceedFrom_within hframe hready hregistered hwithin

/-- An operation whose request is granted goes on. -/
theorem request (hunderway : db.Underway layout txn (.needs operation))
    (hpending : db.locks.pending[txn]? = none) {locks : LockTable}
    (hrequest : db.locks.request txn operation.demand.1 operation.demand.2 = (.granted, locks)) :
    ({ db with locks } : Database).Underway layout txn (.needs operation) ∧
      (locks.lockOf operation.demand.1).holds txn operation.demand.2 = true ∧
      locks.pending[txn]? = none := by
  have htreated := LockTable.request_treated hpending operation.demand.1 operation.demand.2
  have hspares := LockTable.request_spares hpending operation.demand.1 operation.demand.2
  rw [hrequest] at htreated hspares
  exact ⟨hunderway.locked htreated.serves hspares, htreated.granted rfl, htreated.answered nofun⟩

/-- An operation whose waiting request is granted goes on. -/
theorem advance (hunderway : db.Underway layout txn (.needs operation)) {request : PendingRequest}
    (hpending : db.locks.pending[txn]? = some request)
    (hdemand : operation.demand = (request.page, request.mode)) {locks : LockTable}
    (hadvance : db.locks.advance txn request = (.granted, locks)) :
    ({ db with locks } : Database).Underway layout txn (.needs operation) ∧
      (locks.lockOf operation.demand.1).holds txn operation.demand.2 = true ∧
      locks.pending[txn]? = none := by
  have htreated := LockTable.advance_treated db.locks txn request
  have hspares := LockTable.advance_spares hpending
  rw [hadvance] at htreated hspares
  refine ⟨hunderway.locked ?_ hspares, ?_, htreated.answered nofun⟩
  · rw [hdemand]
    exact htreated.serves
  · rw [hdemand]
    exact htreated.granted rfl

/-- An operation that waits for nothing goes on to wait for nothing. -/
theorem proceed_pending (hunderway : db.Underway layout txn (.needs operation))
    (hholds : (db.locks.lockOf operation.demand.1).holds txn operation.demand.2 = true)
    (hpending : db.locks.pending[txn]? = none) :
    (db.proceed txn operation).2.locks.pending[txn]? = none :=
  (proceed_advances hunderway.tidy.placed.sound hunderway.ready hholds).pending hpending

/-- What is left of an operation is no more than its bound. -/
theorem within_demandBound (hunderway : db.Underway layout txn (.needs operation)) :
    operation.Within layout db (db.demandBound operation) := by
  have hcounted := hunderway.counted
  cases operation with
  | getPage | delete => exact Nat.one_pos
  | insert heap row point =>
      cases point with
      | probe number count heldBefore =>
          obtain ⟨hnumber, hpages⟩ := hcounted
          refine ⟨hnumber, ?_⟩
          simp only [demandBound]
          omega
      | escalate number count =>
          obtain ⟨hnumber, hpages⟩ := hcounted
          refine ⟨hnumber, ?_⟩
          simp only [demandBound]
          omega
      | grow number =>
          left
          simp only [demandBound]
          omega
  | scan walk => exact Nat.lt_succ_of_le (Nat.sub_le _ _)

/-- An operation that is given as many demands as are left of it is not cut short. -/
theorem runFor_not_paused (hunderway : db.Underway layout txn progress)
    (hpending : db.locks.pending[txn]? = none) (hwithin : progress.Within layout db bound)
    (rest : Operation) : (db.runFor bound txn progress).1 ≠ .paused rest := by
  -- What is left of the operation becomes less with each demand that it is given.
  induction bound generalizing db progress with
  | zero =>
      cases progress with
      | ended answer => simp [runFor]
      | needs operation =>
          exfalso
          cases operation with
          | getPage | delete | scan => exact Nat.not_lt_zero _ hwithin
          | insert heap row point =>
              cases point with
              | probe number count heldBefore => exact Nat.not_lt_zero _ hwithin.2
              | escalate number count =>
                  have hnumber := hwithin.1
                  have hbound := hwithin.2
                  omega
              | grow number =>
                  rcases hwithin with hbound | ⟨hbound, _⟩ <;> exact Nat.not_lt_zero _ hbound
  | succ bound ih =>
      cases progress with
      | ended answer => simp [runFor]
      | needs operation =>
          rcases hrequest : db.locks.request txn operation.demand.1 operation.demand.2 with
            ⟨verdict, locks⟩
          simp only [runFor, hrequest]
          cases verdict with
          | granted =>
              obtain ⟨hlocked, hholds, hnone⟩ := hunderway.request hpending hrequest
              have hleft : operation.Within layout { db with locks } (bound + 1) := hwithin
              exact ih (hlocked.proceed hholds) (hlocked.proceed_pending hholds hnone)
                (hlocked.proceed_within hholds hleft)
          | refused reason => simp
          | waits => simp

/-- No operation is cut short that runs until it ends or has to wait. -/
theorem run_not_paused (hunderway : db.Underway layout txn progress)
    (hpending : db.locks.pending[txn]? = none) (rest : Operation) :
    (db.run txn progress).1 ≠ .paused rest := by
  cases progress with
  | ended answer => simp [run]
  | needs operation =>
      exact hunderway.runFor_not_paused hpending hunderway.within_demandBound rest

end Underway

/-- An operation that is not cut short comes to the same if it is given more demands. -/
theorem runFor_of_le {fuel : Nat} (hle : bound ≤ fuel)
    (hends : ∀ rest, (db.runFor bound txn progress).1 ≠ .paused rest) :
    db.runFor fuel txn progress = db.runFor bound txn progress := by
  induction bound generalizing db progress fuel with
  | zero =>
      cases progress with
      | ended answer => cases fuel <;> rfl
      | needs operation => exact absurd rfl (hends operation)
  | succ bound ih =>
      obtain ⟨more, rfl⟩ := Nat.exists_eq_add_of_le' hle
      cases progress with
      | ended answer => rfl
      | needs operation =>
          rcases hrequest : db.locks.request txn operation.demand.1 operation.demand.2 with
            ⟨verdict, locks⟩
          rw [Nat.add_succ]
          simp only [runFor, hrequest] at hends ⊢
          cases verdict with
          | granted => exact ih (Nat.le_add_left _ _) hends
          | refused | waits => rfl

namespace Underway

/-- An operation that runs until it ends or has to wait comes to what it comes to with any number of
demands that is large enough. -/
theorem run_eq (hunderway : db.Underway layout txn progress)
    (hpending : db.locks.pending[txn]? = none) :
    ∃ bound, ∀ fuel, bound ≤ fuel → db.run txn progress = db.runFor fuel txn progress := by
  obtain ⟨bound, hrun, _⟩ := db.run_eq_runFor txn progress
  refine ⟨bound, fun fuel hle => ?_⟩
  rw [runFor_of_le hle fun rest => ?_, hrun]
  rw [← hrun]
  exact hunderway.run_not_paused hpending rest

/-- An operation that goes on until it ends or has to wait comes to what it comes to with any number
of demands that is large enough. -/
theorem resume_eq (hunderway : db.Underway layout txn (.needs operation))
    {request : PendingRequest} (hpending : db.locks.pending[txn]? = some request)
    (hdemand : operation.demand = (request.page, request.mode)) :
    ∃ bound, ∀ fuel, bound ≤ fuel →
      db.resume txn operation request = db.resumeFor fuel txn operation request := by
  rcases hadvance : db.locks.advance txn request with ⟨verdict, locks⟩
  simp only [resume, resumeFor, hadvance]
  cases verdict with
  | granted =>
      obtain ⟨hlocked, hholds, hnone⟩ := hunderway.advance hpending hdemand hadvance
      exact (hlocked.proceed hholds).run_eq (hlocked.proceed_pending hholds hnone)
  | refused | waits => exact ⟨0, fun _ _ => rfl⟩

end Underway

/-- A call of a transaction that does not wait is underway when it has begun. -/
theorem Tidy.begin_underway (htidy : db.Tidy layout) (hregular : db.locks.Regular) (txn : TxnId)
    (call : Call) : (db.begin txn call).2.Underway layout txn (db.begin txn call).1 := by
  have hadvances := begin_advances htidy.placed.sound txn call
  have hcarried := @begin_carried db txn [] htidy.placed.sound (by simp [Retains]) (by simp) call
  refine ⟨hadvances.work.tidy htidy, hcarried.goes.spares.regular hregular, hadvances.ready,
    hcarried.pursues.counted, ?_⟩
  rw [hadvances.work.catalog]
  exact begin_registered htidy.placed.sound txn call

end Database

end RowStore
