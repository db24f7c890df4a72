import RowStore.Proofs.Session.Guarded
import RowStore.Proofs.Session.Threads

/-!
# Where the operations of threads stand

`Standing` says where the operation of a transaction stands: it has no request unless it waits for
the lock that it needs, and it fetches its page only while it holds that lock. Threads are orderly
if every operation stands so. `MoveEffect` says all that a move can do to orderly threads, and every
move keeps them orderly: `Schedule.orderly`.
-/

namespace RowStore

/-- The stage is one of a fetch of this page. -/
def Stage.Fits (page : PageId) : Stage → Prop
  | locked | reserved | read (.error _) => True
  | read (.ok loaded) => loaded.1.id = page
  | fetched ref | reached ref => ref.page = page

/-- Where a transaction stands, by its operation and the stage of its fetch. -/
inductive Standing (locks : LockTable) (txn : TxnId) : Option Operation → Option Stage → Prop where
  /-- It has no operation. -/
  | free : locks.pending[txn]? = none → Standing locks txn none none
  /-- Its operation does not have the lock yet that it needs. -/
  | asks {operation : Operation} :
      operation.Awaits locks txn → Standing locks txn (some operation) none
  /-- Its operation has the lock that it needs. -/
  | stands {operation : Operation} {stage : Stage} :
      operation.Ready locks txn → locks.pending[txn]? = none →
      (locks.lockOf operation.demand.1).holds txn operation.demand.2 = true →
      stage.Fits operation.demand.1 → Standing locks txn (some operation) (some stage)

/-- Every transaction stands as it should. -/
structure Threads.Orderly (threads : Threads) : Prop where
  sound : threads.session.db.catalog.Sound
  standing : ∀ txn : TxnId, Standing threads.session.db.locks txn threads.session.waiting[txn]?
    threads.stages[txn]?

/-- A storage, or what it is when a page was added to a file. -/
def Storage.MayAppend (before after : Storage) : Prop :=
  after = before ∨ ∃ heap : HeapFile, heap.file.pageSize ≠ 0 ∧
    after = (heap.appendPage before).2

/-- What a move can do to orderly threads. -/
inductive MoveEffect (before : Threads) : Move → Threads → Prop where
  | quiet {move : Move} : MoveEffect before move before
  /-- A transaction makes a call. -/
  | begins {txn : TxnId} {call : Call} {progress : Progress} {storage : Storage} :
      before.session.waiting[txn]? = none → before.stages[txn]? = none →
      before.session.db.locks.pending[txn]? = none →
      before.session.db.storage.MayAppend storage →
      progress.Ready before.session.db.locks txn →
      (∀ page, progress.borrowed? = some page →
        before.session.db.locks.holdsLock txn page = false) →
      MoveEffect before (.begin txn call)
        (before.rest txn progress { before.session.db with storage }).2
  /-- A request is made or taken further, and is still pending. -/
  | asks {move : Move} {txn : TxnId} {operation : Operation} {locks : LockTable} :
      before.session.waiting[txn]? = some operation → before.stages[txn]? = none →
      LockTable.Serves txn operation.demand.1 operation.demand.2 before.session.db.locks locks →
      operation.Awaits locks txn →
      MoveEffect before move (before.withDb { before.session.db with locks })
  /-- A request is granted. -/
  | granted {move : Move} {txn : TxnId} {operation : Operation} {locks : LockTable} :
      before.session.waiting[txn]? = some operation → before.stages[txn]? = none →
      LockTable.Serves txn operation.demand.1 operation.demand.2 before.session.db.locks locks →
      operation.Ready locks txn → locks.pending[txn]? = none →
      (locks.lockOf operation.demand.1).holds txn operation.demand.2 = true →
      MoveEffect before move (before.stand txn .locked { before.session.db with locks })
  /-- A request is refused. -/
  | refused {move : Move} {txn : TxnId} {operation : Operation} {error : Error}
      {locks : LockTable} :
      before.session.waiting[txn]? = some operation → before.stages[txn]? = none →
      LockTable.Serves txn operation.demand.1 operation.demand.2 before.session.db.locks locks →
      locks.pending[txn]? = none →
      MoveEffect before move
        (before.rest txn (.ended (operation.refuse error)) { before.session.db with locks }).2
  /-- An operation comes to the next stage of its fetch. -/
  | stands {txn : TxnId} {operation : Operation} {stage next : Stage} {db : Database} :
      before.session.waiting[txn]? = some operation → before.stages[txn]? = some stage →
      (before.session.db.locks.lockOf operation.demand.1).holds txn operation.demand.2 = true →
      Strides txn operation before.session.db stage (.stands next) db →
      MoveEffect before (.stride txn) (before.stand txn next db)
  /-- An operation is done with its page. -/
  | leaves {txn : TxnId} {operation : Operation} {stage : Stage} {progress : Progress}
      {db : Database} :
      before.session.waiting[txn]? = some operation → before.stages[txn]? = some stage →
      (before.session.db.locks.lockOf operation.demand.1).holds txn operation.demand.2 = true →
      Strides txn operation before.session.db stage (.leaves progress) db →
      MoveEffect before (.stride txn) (before.rest txn progress db).2
  | completes {txn : TxnId} {commits : Bool} :
      before.session.waiting[txn]? = none → before.stages[txn]? = none →
      MoveEffect before (.complete txn commits)
        { before with session := (before.session.complete txn commits).2 }
  | releases {txn : TxnId} {page : PageId} :
      before.session.waiting[txn]? = none → before.stages[txn]? = none →
      MoveEffect before (.release txn page) (before.withDb { before.session.db with
        locks := (before.session.db.locks.release txn page).2 })
  | writes {txn : TxnId} {ref : FrameRef} {bytes : Bytes} {frame : Frame} {changed : HeapPage} :
      before.session.db.frame? ref = some frame → frame.page.restore bytes = .ok changed →
      MoveEffect before (.write txn ref bytes) (before.withDb { before.session.db with
        cache := before.session.db.cache.putFrame ref ⟨changed, some txn⟩ })
  | flushes {move : Move} (pages : List PageId) :
      MoveEffect before move (before.withDb (before.session.db.flushEach pages).2)
  | discards {move : Move} (pages : List PageId) :
      (∃ page, move = .discardPage page) ∨ (∃ table, move = .discardTable table) →
      MoveEffect before move (before.withDb { before.session.db with
        cache := pages.foldl Cache.remove before.session.db.cache })
  | changesCatalog {change : CatalogChange} {catalog : Catalog} {storage : Storage} :
      Harmless before.session.db.catalog before.session.db.storage catalog storage →
      MoveEffect before (.changeCatalog change)
        (before.withDb { before.session.db with catalog, storage })

namespace Standing

variable {locks after : LockTable} {txn : TxnId} {operation : Operation}
  {operation? : Option Operation} {stage : Stage} {stage? : Option Stage}

/-- An operation that has a stage has the lock that it needs. -/
theorem of_stage (hstanding : Standing locks txn operation? (some stage)) :
    ∃ operation, operation? = some operation ∧ operation.Ready locks txn ∧
      locks.pending[txn]? = none ∧
      (locks.lockOf operation.demand.1).holds txn operation.demand.2 = true ∧
      stage.Fits operation.demand.1 := by
  cases hstanding with
  | @stands operation _ hready hpending hholds hfits =>
      exact ⟨operation, rfl, hready, hpending, hholds, hfits⟩

/-- Whoever has no operation has no request and no stage. -/
theorem of_free (hstanding : Standing locks txn none stage?) :
    locks.pending[txn]? = none ∧ stage? = none := by
  cases hstanding with
  | free hpending => exact ⟨hpending, rfl⟩

/-- Whoever has a request has no stage, and waits for the lock that its operation needs. -/
theorem of_pending {request : PendingRequest}
    (hstanding : Standing locks txn (some operation) stage?)
    (hpending : locks.pending[txn]? = some request) :
    stage? = none ∧ operation.Ready locks txn ∧
      operation.demand = (request.page, request.mode) := by
  cases hstanding with
  | asks hawaits => exact ⟨rfl, hawaits.1, hawaits.2 request hpending⟩
  | stands _ hnone => simp [hnone] at hpending

/-- A transaction stands where it stood as long as it is respected. -/
theorem of_respects (hstanding : Standing locks txn operation? stage?)
    (hrespects : LockTable.Respects txn locks after) : Standing after txn operation? stage? := by
  have hready : ∀ operation : Operation, operation.Ready locks txn →
      operation.Ready after txn := fun operation hready =>
    hready.of_exclusive fun page howner howner' => howner (hrespects.exclusive page howner')
  cases hstanding with
  | free hpending => exact .free (hrespects.pending_none hpending)
  | asks hawaits =>
      refine .asks ⟨hready _ hawaits.1, fun request hrequest => ?_⟩
      obtain ⟨found, hfound, hpage, hmode⟩ := hrespects.pending request hrequest
      rw [hawaits.2 found hfound, hpage, hmode]
  | stands hstands hpending hholds hfits =>
      exact .stands (hready _ hstands) (hrespects.pending_none hpending)
        (hrespects.holds _ _ hholds) hfits

end Standing

/-- A call that begins changes nothing, but that it may add a page to a file. -/
theorem Database.begin_eq {db : Database} (hsound : db.catalog.Sound) (txn : TxnId) (call : Call) :
    ∃ storage, (db.begin txn call).2 = { db with storage } ∧ db.storage.MayAppend storage := by
  have hidle : ∃ storage, db = { db with storage } ∧ db.storage.MayAppend storage :=
    ⟨db.storage, rfl, .inl rfl⟩
  cases call with
  | getPage | delete | walk => exact hidle
  | scan table budget =>
      simp only [begin]
      split <;> exact hidle
  | insert table row =>
      simp only [begin, beginInsert]
      split
      · exact hidle
      · rename_i heap hheap
        have hsize : heap.file.pageSize ≠ 0 := by
          rw [(hsound.fits table heap hheap).pageSize]
          exact hsound.pageSize
        simp only [beginInsertInto, probeAt]
        split
        · exact hidle
        · split
          · exact hidle
          · exact ⟨_, rfl, .inr ⟨heap, hsize, rfl⟩⟩

/-- A call that begins borrows a lock only if its transaction does not hold it. -/
theorem Database.borrowed_begin {db : Database} {txn : TxnId} {call : Call} {page : PageId}
    (hborrowed : (db.begin txn call).1.borrowed? = some page) :
    db.locks.holdsLock txn page = false := by
  cases call with
  | getPage => simp [begin, Progress.borrowed?, Operation.borrowed?] at hborrowed
  | insert table row =>
      simp only [begin, beginInsert, beginInsertInto] at hborrowed
      split at hborrowed
      · simp [Progress.borrowed?] at hborrowed
      · split at hborrowed
        · simp [Progress.borrowed?] at hborrowed
        · exact borrowed_probeAt hborrowed
  | delete row =>
      simp only [begin, beginDelete, beginDeleteFrom] at hborrowed
      repeat' split at hborrowed
      all_goals simp [Progress.borrowed?, Operation.borrowed?] at hborrowed
  | scan table budget | walk cursor budget =>
      simp only [begin, beginScan, continueWalk] at hborrowed
      repeat' split at hborrowed
      all_goals simp [Progress.borrowed?, Operation.borrowed?] at hborrowed

/-- What an operation does with its page changes no table, and leaves its transaction without a
request. -/
theorem Handles.keeps {txn : TxnId} {operation : Operation} {ref : FrameRef} {db after : Database}
    {progress : Progress} (hhandles : Handles txn operation ref db progress after)
    (hpending : db.locks.pending[txn]? = none) :
    after.catalog = db.catalog ∧ progress.Ready after.locks txn ∧
      after.locks.pending[txn]? = none ∧
      ∀ other, other ≠ txn → LockTable.Respects other db.locks after.locks := by
  cases hhandles with
  | looks hlocks _ hready =>
      rcases hlocks with rfl | ⟨_, _, rfl⟩
      · exact ⟨rfl, hready, hpending, fun _ _ => .refl⟩
      · exact ⟨rfl, hready, LockTable.pending_release_none hpending,
          fun _ hother => .of_release _ _ hother⟩
  | changes => exact ⟨rfl, trivial, hpending, fun _ _ => .refl⟩

namespace Strides

variable {txn : TxnId} {operation : Operation} {stage next : Stage} {progress : Progress}
  {db after : Database}

/-- A stride to another stage changes no table, and respects everyone. -/
theorem keeps (hstrides : Strides txn operation db stage (.stands next) after) (other : TxnId) :
    after.catalog = db.catalog ∧ LockTable.Respects other db.locks after.locks := by
  cases hstrides with
  | evicts => exact ⟨rfl, .of_reclaim _ _⟩
  | present | reserves | reads | finds | installs => exact ⟨rfl, .refl⟩
  | @notes ref =>
      obtain ⟨journal, hnoted⟩ := db.noteFor_eq txn ref operation.demand.2
      rw [hnoted]
      exact ⟨rfl, .refl⟩

/-- The stage after a stride is one of the same fetch. -/
theorem fits (hstrides : Strides txn operation db stage (.stands next) after)
    (hsound : db.catalog.Sound) (hfits : stage.Fits operation.demand.1) :
    next.Fits operation.demand.1 := by
  cases hstrides with
  | present | finds | installs => rfl
  | reserves | evicts => trivial
  | notes => exact hfits
  | @reads loaded storage hload _ =>
      rcases loaded with error | ⟨heapPage, origin⟩
      · trivial
      · exact (Database.load_eq_ok (fun heap hheap => (hsound.fits _ heap hheap).table) hload 0).id

/-- A stride that takes an operation past its page changes no table, and leaves its transaction
without a request. -/
theorem leaves_keeps (hstrides : Strides txn operation db stage (.leaves progress) after)
    (hpending : db.locks.pending[txn]? = none) :
    after.catalog = db.catalog ∧ progress.Ready after.locks txn ∧
      after.locks.pending[txn]? = none ∧
      ∀ other, other ≠ txn → LockTable.Respects other db.locks after.locks := by
  cases hstrides with
  | full | fails => exact ⟨rfl, trivial, hpending, fun _ _ => .refl⟩
  | handles hhandles => exact hhandles.keeps hpending

end Strides

namespace Threads

variable {threads : Threads} {txn : TxnId} {db : Database} {progress : Progress}

@[simp] theorem db_stand (stage : Stage) : (threads.stand txn stage db).session.db = db := rfl

@[simp] theorem db_rest : (threads.rest txn progress db).2.session.db = db := by
  rw [rest, Session.db_rest]
  cases progress <;> rfl

theorem stages_rest : (threads.rest txn progress db).2.stages = threads.stages.erase txn := rfl

theorem stages_stand (stage : Stage) :
    (threads.stand txn stage db).stages = threads.stages.insert txn stage := rfl

/-- The operations that wait when one has ended or has come to its next demand. -/
theorem waiting_rest (other : TxnId) : (threads.rest txn progress db).2.session.waiting[other]? =
    if txn = other then
      match progress with
      | .ended _ => none
      | .needs operation => some operation
    else threads.session.waiting[other]? := by
  cases progress with
  | ended answer =>
      simp [rest, Session.rest, Session.note, Database.runFor, Std.ExtTreeMap.getElem?_erase]
  | needs operation =>
      simp [rest, Session.rest, Session.note, Database.runFor, Std.ExtTreeMap.getElem?_insert]

end Threads

namespace Threads.Orderly

variable {threads after : Threads} {txn : TxnId} {db : Database} {move : Move}

/-- An operation that has a stage is at a stage of its own fetch. -/
theorem fits (horderly : threads.Orderly) {operation : Operation} {stage : Stage}
    (hwaiting : threads.session.waiting[txn]? = some operation)
    (hstage : threads.stages[txn]? = some stage) : stage.Fits operation.demand.1 := by
  have hstanding := horderly.standing txn
  rw [hwaiting, hstage] at hstanding
  cases hstanding with
  | stands _ _ _ hfits => exact hfits

/-- A transaction that acts keeps the threads orderly if it stands itself as it should. -/
theorem of_respects (horderly : threads.Orderly) (txn : TxnId)
    (hsound : after.session.db.catalog.Sound)
    (hrespects : ∀ other, other ≠ txn →
      LockTable.Respects other threads.session.db.locks after.session.db.locks)
    (hwaiting : ∀ other : TxnId, other ≠ txn →
      after.session.waiting[other]? = threads.session.waiting[other]?)
    (hstages : ∀ other : TxnId, other ≠ txn → after.stages[other]? = threads.stages[other]?)
    (hstanding : Standing after.session.db.locks txn after.session.waiting[txn]?
      after.stages[txn]?) : after.Orderly where
  sound := hsound
  standing other := by
    by_cases hsame : other = txn
    · subst hsame
      exact hstanding
    · rw [hwaiting other hsame, hstages other hsame]
      exact (horderly.standing other).of_respects (hrespects other hsame)

/-- Threads stay orderly whose locks nobody touches. -/
theorem of_locks_eq (horderly : threads.Orderly) (hsound : db.catalog.Sound)
    (hlocks : db.locks = threads.session.db.locks) : (threads.withDb db).Orderly where
  sound := hsound
  standing other := by
    rw [db_withDb, hlocks]
    exact horderly.standing other

/-- An operation has come to a stage. -/
theorem stand (horderly : threads.Orderly) (hsound : db.catalog.Sound)
    (hrespects : ∀ other, other ≠ txn →
      LockTable.Respects other threads.session.db.locks db.locks) {operation : Operation}
    {stage : Stage} (hwaiting : threads.session.waiting[txn]? = some operation)
    (hready : operation.Ready db.locks txn) (hpending : db.locks.pending[txn]? = none)
    (hholds : (db.locks.lockOf operation.demand.1).holds txn operation.demand.2 = true)
    (hfits : stage.Fits operation.demand.1) : (threads.stand txn stage db).Orderly := by
  refine horderly.of_respects txn hsound hrespects (fun _ _ => rfl) ?_ ?_
  · intro other hother
    simp [stages_stand, Std.ExtTreeMap.getElem?_insert, hother.symm]
  · rw [stages_stand, Std.ExtTreeMap.getElem?_insert_self]
    exact hwaiting ▸ .stands hready hpending hholds hfits

/-- An operation has ended or has come to its next demand. -/
theorem rest (horderly : threads.Orderly) (hsound : db.catalog.Sound)
    (hrespects : ∀ other, other ≠ txn →
      LockTable.Respects other threads.session.db.locks db.locks) {progress : Progress}
    (hready : progress.Ready db.locks txn) (hpending : db.locks.pending[txn]? = none) :
    (threads.rest txn progress db).2.Orderly := by
  refine horderly.of_respects txn (by rwa [db_rest]) (by rwa [db_rest]) ?_ ?_ ?_
  · intro other hother
    rw [waiting_rest, if_neg hother.symm]
  · intro other hother
    simp [stages_rest, Std.ExtTreeMap.getElem?_erase, hother.symm]
  · rw [db_rest, stages_rest, waiting_rest, if_pos rfl, Std.ExtTreeMap.getElem?_erase_self]
    cases progress with
    | ended answer => exact .free hpending
    | needs operation =>
        refine .asks ⟨hready, fun request hrequest => ?_⟩
        rw [hpending] at hrequest
        simp at hrequest

/-- What a move does that may be made. -/
theorem effect (horderly : threads.Orderly) (hallows : threads.Allows move) :
    MoveEffect threads move (threads.make move).2 := by
  cases move with
  | begin txn call =>
      have hstanding := horderly.standing txn
      rw [show threads.session.waiting[txn]? = none from hallows] at hstanding
      obtain ⟨hpending, hstage⟩ := hstanding.of_free
      obtain ⟨storage, hbegin, hgrows⟩ := Database.begin_eq horderly.sound txn call
      have hready := (Database.begin_advances horderly.sound txn call).ready
      simp only [make]
      rw [hbegin] at hready ⊢
      exact .begins hallows hstage hpending hgrows hready fun _ => Database.borrowed_begin
  | submit txn =>
      have hstanding := horderly.standing txn
      simp only [make, submit]
      split
      · rename_i operation hwaiting hpending hstage
        rw [hwaiting, hstage] at hstanding
        cases hstanding with
        | asks hawaits =>
            obtain ⟨hserves, hgranted | hwaits⟩ :=
              LockTable.submit_serves hpending operation.demand.1 operation.demand.2
            · obtain ⟨locks, hsubmit, hholds, hnone⟩ := hgranted
              rw [hsubmit] at hserves ⊢
              exact .granted hwaiting hstage hserves (hawaits.1.of_serves hserves) hnone hholds
            · obtain ⟨locks, hsubmit, hrequest⟩ := hwaits
              rw [hsubmit] at hserves ⊢
              refine .asks hwaiting hstage hserves ⟨hawaits.1.of_serves hserves, ?_⟩
              intro request hfound
              rw [hrequest, Option.some.injEq] at hfound
              rw [← hfound]
      · exact .quiet
  | advance txn =>
      have hstanding := horderly.standing txn
      simp only [make, advance]
      split
      · rename_i operation request hwaiting hpending
        split
        · exact .quiet
        · rw [hwaiting] at hstanding
          obtain ⟨hstage, hready, hdemand⟩ := hstanding.of_pending hpending
          have htreated := LockTable.advance_treated threads.session.db.locks txn request
          have hserves := htreated.serves
          rcases hadvance : threads.session.db.locks.advance txn request with ⟨verdict, locks⟩
          rw [hadvance] at htreated hserves
          have hpage : request.page = operation.demand.1 := by rw [hdemand]
          have hmode : request.mode = operation.demand.2 := by rw [hdemand]
          rw [hpage, hmode] at hserves
          cases verdict with
          | granted =>
              refine .granted hwaiting hstage hserves (hready.of_serves hserves)
                (htreated.answered (by simp)) ?_
              rw [hdemand]
              exact htreated.granted rfl
          | refused reason =>
              exact .refused hwaiting hstage hserves (htreated.answered (by simp))
          | waits =>
              refine .asks hwaiting hstage hserves ⟨hready.of_serves hserves, ?_⟩
              intro found hfound
              rw [htreated.waits rfl, Option.some.injEq] at hfound
              rw [← hfound, hdemand]
      · exact .quiet
  | expire txn =>
      have hstanding := horderly.standing txn
      simp only [make, expire]
      split
      · rename_i operation request hwaiting hpending
        rw [hwaiting] at hstanding
        obtain ⟨hstage, hready, hdemand⟩ := hstanding.of_pending hpending
        have hpage : request.page = operation.demand.1 := by rw [hdemand]
        have hmode : request.mode = operation.demand.2 := by rw [hdemand]
        obtain ⟨hserves, ⟨locks, hexpire, hrequest⟩ | ⟨reason, locks, hexpire, hnone⟩⟩ :=
          LockTable.expire_serves threads.session.db.locks txn request
        · rw [hexpire, hpage, hmode] at hserves
          rw [hexpire]
          refine .asks hwaiting hstage hserves ⟨hready.of_serves hserves, ?_⟩
          intro found hfound
          rw [hrequest, Option.some.injEq] at hfound
          rw [← hfound, hdemand]
        · rw [hexpire, hpage, hmode] at hserves
          rw [hexpire]
          exact .refused hwaiting hstage hserves hnone
      · exact .quiet
  | stride txn =>
      have hstanding := horderly.standing txn
      simp only [make, stride]
      split
      · rename_i operation stage hwaiting hstage
        rw [hwaiting, hstage] at hstanding
        cases hstanding with
        | stands hready hpending hholds hfits =>
            have hstrides := Database.stride_strides hready stage
            rcases hstride : threads.session.db.stride txn operation stage with ⟨stride, db⟩
            rw [hstride] at hstrides
            cases stride with
            | stands next => exact .stands hwaiting hstage hholds hstrides
            | leaves progress => exact .leaves hwaiting hstage hholds hstrides
      · exact .quiet
  | complete txn commits =>
      have hstanding := horderly.standing txn
      rw [show threads.session.waiting[txn]? = none from hallows] at hstanding
      exact .completes hallows hstanding.of_free.2
  | release txn page =>
      have hstanding := horderly.standing txn
      rw [show threads.session.waiting[txn]? = none from hallows] at hstanding
      exact .releases hallows hstanding.of_free.2
  | write txn ref bytes =>
      simp only [make, Database.modifyFrame]
      cases hframe : threads.session.db.frame? ref with
      | none => exact .quiet
      | some frame =>
          simp only [Frame.modify]
          cases hrestore : frame.page.restore bytes with
          | error error => exact .quiet
          | ok changed => exact .writes hframe hrestore
  | flushPage page =>
      simp only [make, ← Database.flushEach_singleton]
      exact .flushes [page]
  | flushOf txn => exact .flushes _
  | flushAll => exact .flushes _
  | discardPage page => exact .discards [page] (.inl ⟨page, rfl⟩)
  | discardTable table => exact .discards _ (.inr ⟨table, rfl⟩)
  | changeCatalog change =>
      obtain ⟨catalog, storage, hchange, hharmless⟩ :=
        threads.session.db.changeCatalog_eq change
      simp only [make, hchange]
      exact .changesCatalog hharmless

/-- Every move keeps threads orderly. -/
theorem of_effect (horderly : threads.Orderly) (heffect : MoveEffect threads move after) :
    after.Orderly := by
  cases heffect with
  | quiet => exact horderly
  | begins _ _ hpending _ hready =>
      refine horderly.rest ?_ ?_ ?_ ?_
      · exact horderly.sound
      · exact fun _ _ => .refl
      · exact hready
      · exact hpending
  | @asks _ txn operation locks hwaiting hstage hserves hawaits =>
      refine horderly.of_respects txn horderly.sound
        (fun other hother => .of_serves hserves hother) (fun _ _ => rfl) (fun _ _ => rfl) ?_
      show Standing locks txn threads.session.waiting[txn]? threads.stages[txn]?
      rw [hwaiting, hstage]
      exact .asks hawaits
  | granted hwaiting _ hserves hready hpending hholds =>
      refine horderly.stand ?_ (fun other hother => ?_) hwaiting hready hpending hholds trivial
      · exact horderly.sound
      · exact .of_serves hserves hother
  | refused _ _ hserves hpending =>
      refine horderly.rest ?_ (fun other hother => ?_) trivial hpending
      · exact horderly.sound
      · exact .of_serves hserves hother
  | @stands txn operation stage next db hwaiting hstage _ hstrides =>
      have hstanding := horderly.standing txn
      rw [hwaiting, hstage] at hstanding
      obtain ⟨hcatalog, hrespects⟩ := hstrides.keeps txn
      have hfits := hstrides.fits horderly.sound (horderly.fits hwaiting hstage)
      cases hstanding.of_respects hrespects with
      | stands hready hpending hholds _ =>
          exact horderly.stand (hcatalog ▸ horderly.sound)
            (fun other _ => (hstrides.keeps other).2) hwaiting hready hpending hholds hfits
  | @leaves txn operation stage progress db hwaiting hstage _ hstrides =>
      have hstanding := horderly.standing txn
      rw [hwaiting, hstage] at hstanding
      cases hstanding with
      | stands _ hpending _ _ =>
          obtain ⟨hcatalog, hready, hnone, hrespects⟩ := hstrides.leaves_keeps hpending
          exact horderly.rest (hcatalog ▸ horderly.sound) hrespects hready hnone
  | @completes txn commits hwaiting hstage =>
      obtain ⟨db, hundisturbed, hafter⟩ :=
        Session.Guarded.complete_undisturbed threads.session txn commits
      have hsession : (threads.session.complete txn commits).2 =
          { threads.session with
            db := db.finish txn, active := threads.session.active.erase txn } := hafter
      have hlocks : (db.finish txn).locks = threads.session.db.locks.releaseAll txn := by
        rw [← hundisturbed.locks]
        rfl
      have hpending := (hwaiting ▸ horderly.standing txn).of_free.1
      rw [hsession]
      refine horderly.of_respects txn ?_ ?_ (fun _ _ => rfl) (fun _ _ => rfl) ?_
      · show db.catalog.Sound
        rw [hundisturbed.catalog]
        exact horderly.sound
      · intro other hother
        rw [hlocks]
        exact .of_releaseAll _ hother
      · show Standing (db.finish txn).locks txn threads.session.waiting[txn]? threads.stages[txn]?
        rw [hwaiting, hstage, hlocks]
        exact .free (LockTable.pending_releaseAll_none hpending)
  | @releases txn page hwaiting hstage =>
      refine horderly.of_respects txn horderly.sound
        (fun other hother => .of_release _ _ hother) (fun _ _ => rfl) (fun _ _ => rfl) ?_
      have hpending := (hwaiting ▸ horderly.standing txn).of_free.1
      show Standing (threads.session.db.locks.release txn page).2 txn
        threads.session.waiting[txn]? threads.stages[txn]?
      rw [hwaiting, hstage]
      exact .free (LockTable.pending_release_none hpending)
  | writes => exact horderly.of_locks_eq horderly.sound rfl
  | flushes pages =>
      have hflushed := Database.flushEach_undisturbed threads.session.db pages
      exact horderly.of_locks_eq (hflushed.catalog ▸ horderly.sound) hflushed.locks
  | discards => exact horderly.of_locks_eq horderly.sound rfl
  | changesCatalog hharmless => exact horderly.of_locks_eq (hharmless.sound horderly.sound) rfl

/-- Threads on a database that was opened are orderly before their first move. -/
theorem of_opened {db : Database} (hopened : db.Opened) : Orderly ⟨{ db }, ∅⟩ where
  sound := hopened.sound.1
  standing txn := by
    obtain ⟨_, _, _, hlocks⟩ := hopened.sound
    simp only [hlocks, Std.ExtTreeMap.getElem?_empty]
    exact .free (by simp)

end Threads.Orderly

namespace Schedule

variable {start threads : Threads} {history : List Turn}

/-- Whatever order the threads make their moves in, they stay orderly. -/
theorem orderly (hstart : start.Orderly) (hschedule : Schedule start history threads) :
    threads.Orderly := by
  induction hschedule with
  | start => exact hstart
  | step _ hallows ih => exact ih.of_effect (ih.effect hallows)

end Schedule

end RowStore
