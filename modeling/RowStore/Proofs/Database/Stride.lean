import RowStore.Proofs.Database.Progress
import RowStore.Proofs.Database.Room

/-!
# Operations taken through their fetches

An operation that holds the lock of its page takes several strides until it makes its next demand
or ends: it reserves a place for the page, unless the page is in the cache, reads the page,
installs it, notes what the page holds if it may change it, and does what it came for. `Stage`
says how far it has come, and `Database.stride` takes it one stride further. `Strides` says all that
a stride can do. Taken one after the other, the strides of an operation are what `Database.proceed`
does at once: `Database.strideFor_locked`.
-/

namespace RowStore

/-- How far an operation has come that holds the lock of its page. -/
inductive Stage where
  | locked
  /-- A place in the cache is reserved for the page. -/
  | reserved
  /-- The page was read from its file, or could not be. -/
  | read (loaded : Except Error (HeapPage × PageFile))
  /-- The page was found in the cache, or was put there. -/
  | fetched (ref : FrameRef)
  /-- What the page holds is noted, if the operation may change it. -/
  | reached (ref : FrameRef)
deriving DecidableEq

/-- Whether the operation has a place in the cache reserved. -/
def Stage.isLoading : Stage → Bool
  | reserved | read _ => true
  | locked | fetched _ | reached _ => false

/-- Where an operation is after a stride: at another stage, or past its page. -/
inductive Stride where
  | stands (stage : Stage)
  | leaves (progress : Progress)
deriving DecidableEq

namespace Database

/-- What an operation does with the page that it has reached. -/
def proceedFrom (db : Database) (txn : TxnId) (ref : FrameRef) :
    Operation → Progress × Database
  | .getPage .. => (.ended (.ok (.page ref)), db)
  | .insert heap row (.probe number count heldBefore) =>
      if (db.frame? ref).any fun frame => 0 < frame.page.freeCount then
        (.needs (.insert heap row (.escalate number count)), db)
      else
        let db := if heldBefore then db
          else { db with locks := (db.locks.release txn (heap.pageId number)).2 }
        db.probeAt txn heap row (number + 1) count
  | .insert heap row (.escalate number count) =>
      match db.storeRow txn ref row with
      | (.ok row, db) => (.ended (.ok (.inserted row ref)), db)
      | (.error (.pageFull _), db) => db.probeAt txn heap row (number + 1) count
      | (.error error, db) => (.ended (.error error), db)
  | .insert heap row (.grow _) =>
      match db.storeRow txn ref row with
      | (.ok row, db) => (.ended (.ok (.inserted row ref)), db)
      | (.error (.pageFull _), db) => db.growFor heap row
      | (.error error, db) => (.ended (.error error), db)
  | .delete _ row _ =>
      match db.modifyFrame ref txn fun page => (page.delete row).map fun page => (page, ()) with
      | (.error error, db) => (.ended (.error error), db)
      | (.ok (), db) => (.ended (.ok (.deleted ref)), db)
  | .scan walk =>
      match db.frame? ref with
      | none => (db.continueWalk (walk.refill []), db)
      | some frame =>
          match frame.page.rows with
          | .error error => (.ended ((Operation.scan walk).refuse error), db)
          | .ok rows => (db.continueWalk (walk.refill rows), db)

/-- Note what the page of a frame holds, if the transaction may change it. -/
def noteFor (db : Database) (txn : TxnId) (ref : FrameRef) : LockMode → Database
  | .shared => db
  | .exclusive => db.noteBefore txn ref

/-- Take an operation one stride further. -/
def stride (db : Database) (txn : TxnId) (operation : Operation) : Stage → Stride × Database
  | .locked =>
      match db.reserve operation.demand.1 with
      | (.error error, db) => (.leaves (.ended (operation.refuse error)), db)
      | (.ok (.present ref), db) => (.stands (.fetched ref), db)
      | (.ok .reserved, db) => (.stands .reserved, db)
  | .reserved =>
      let (loaded, db) := db.load operation.demand.1
      (.stands (.read loaded), db)
  | .read loaded =>
      match db.install operation.demand.1 loaded with
      | (.error error, db) => (.leaves (.ended (operation.refuse error)), db)
      | (.ok ref, db) => (.stands (.fetched ref), db)
  | .fetched ref => (.stands (.reached ref), db.noteFor txn ref operation.demand.2)
  | .reached ref =>
      let (progress, db) := db.proceedFrom txn ref operation
      (.leaves progress, db)

/-- A note is made in the journal. -/
theorem noteFor_eq (db : Database) (txn : TxnId) (ref : FrameRef) (mode : LockMode) :
    ∃ journal, db.noteFor txn ref mode = { db with journal } := by
  cases mode with
  | shared => exact ⟨db.journal, rfl⟩
  | exclusive =>
      simp only [noteFor, noteBefore]
      split
      · exact ⟨db.journal, rfl⟩
      · exact ⟨_, rfl⟩

/-- A note leaves the cache as it is. -/
@[simp] theorem cache_noteFor (db : Database) (txn : TxnId) (ref : FrameRef) (mode : LockMode) :
    (db.noteFor txn ref mode).cache = db.cache := by
  obtain ⟨journal, hnoted⟩ := db.noteFor_eq txn ref mode
  rw [hnoted]

/-- An access is a fetch, after which what the page holds is noted if it may be changed. -/
theorem access_eq_noteFor (db : Database) (txn : TxnId) (page : PageId) (mode : LockMode) :
    db.access txn page mode =
      match db.fetch page with
      | (.error error, db) => (.error error, db)
      | (.ok ref, db) => (.ok ref, db.noteFor txn ref mode) := by
  rw [access]
  rcases db.fetch page with ⟨answer, fetched⟩
  cases answer <;> cases mode <;> rfl

/-- An operation whose demand is granted fetches its page and does what it came for, or is refused
the page. -/
theorem proceed_eq (db : Database) (txn : TxnId) (operation : Operation) :
    db.proceed txn operation =
      match db.fetch operation.demand.1 with
      | (.error error, db) => (.ended (operation.refuse error), db)
      | (.ok ref, db) => (db.noteFor txn ref operation.demand.2).proceedFrom txn ref operation := by
  cases operation with
  | getPage page mode =>
      simp only [proceed, Operation.demand, access_eq_noteFor]
      rcases db.fetch page with ⟨answer, fetched⟩
      cases answer <;> rfl
  | insert heap row point =>
      cases point with
      | probe number count heldBefore =>
          simp only [proceed, proceedInsert, Operation.demand, access_eq_noteFor]
          rcases db.fetch (heap.pageId number) with ⟨answer, fetched⟩
          cases answer <;> rfl
      | escalate number count =>
          simp only [proceed, proceedInsert, Operation.demand, access_eq_noteFor]
          rcases db.fetch (heap.pageId number) with ⟨answer, fetched⟩
          cases answer <;> rfl
      | grow number =>
          simp only [proceed, proceedInsert, Operation.demand, access_eq_noteFor]
          rcases db.fetch (heap.pageId number) with ⟨answer, fetched⟩
          cases answer <;> rfl
  | delete heap row place =>
      simp only [proceed, proceedDelete, Operation.demand, access_eq_noteFor]
      rcases db.fetch place.page with ⟨answer, fetched⟩
      cases answer <;> rfl
  | scan walk =>
      simp only [proceed, proceedScan, Operation.demand, access_eq_noteFor]
      rcases db.fetch walk.cursor.page with ⟨answer, fetched⟩
      cases answer <;> rfl

/-- Take an operation as many strides as `fuel` says, or past its page. -/
def strideFor : Nat → Database → TxnId → Operation → Stage → Stride × Database
  | 0, db, _, _, stage => (.stands stage, db)
  | fuel + 1, db, txn, operation, stage =>
      match db.stride txn operation stage with
      | (.leaves progress, db) => (.leaves progress, db)
      | (.stands stage, db) => strideFor fuel db txn operation stage

/-- Five strides take an operation past its page. Together they do what `proceed` does at once. -/
theorem strideFor_locked (db : Database) (txn : TxnId) (operation : Operation) :
    db.strideFor 5 txn operation .locked =
      (.leaves (db.proceed txn operation).1, (db.proceed txn operation).2) := by
  rw [proceed_eq, fetch]
  rcases hreserve : db.reserve operation.demand.1 with ⟨answer, room⟩
  rcases answer with error | reservation
  · simp only [strideFor, stride, hreserve]
  cases reservation with
  | present ref => simp only [strideFor, stride, hreserve]
  | reserved =>
      rcases hinstall : (room.load operation.demand.1).2.install operation.demand.1
        (room.load operation.demand.1).1 with ⟨answer, installed⟩
      cases answer <;> simp only [strideFor, stride, hreserve, hinstall]

end Database

/-- The page whose lock is only borrowed: an insert that has come to it gives the lock back if the
page has no room, since its transaction did not hold it before. -/
def Operation.borrowed? : Operation → Option PageId
  | .insert heap _ (.probe number _ false) => some (heap.pageId number)
  | _ => none

/-- The page whose lock is borrowed by an operation that has come so far. -/
def Progress.borrowed? : Progress → Option PageId
  | .needs operation => operation.borrowed?
  | .ended _ => none

/-- How an operation changes the page in the frame that it has reached, and what it is answered: it
stores its row in a slot of the page, or deletes it from there. -/
inductive Operation.Edits (ref : FrameRef) :
    Operation → HeapPage → HeapPage → Except Error Answer → Prop where
  | insert {heap : HeapFile} {row : Row} {point : InsertPoint} {before after : HeapPage}
      {slot : Nat} :
      before.insert row = .ok (after, slot) →
      Edits ref (.insert heap row point) before after
        (.ok (.inserted { row with place := some ⟨after.id, slot⟩ } ref))
  | delete {heap : HeapFile} {row : Row} {place : RecordId} {before after : HeapPage} :
      before.delete row = .ok after →
      Edits ref (.delete heap row place) before after (.ok (.deleted ref))

/-- An operation that changes its page edits it. -/
theorem Operation.Edits.edited {operation : Operation} {ref : FrameRef} {before after : HeapPage}
    {answer : Except Error Answer} (hedits : operation.Edits ref before after answer) :
    before.Edited after := by
  cases hedits with
  | insert hinsert => exact .insert _ _ hinsert
  | delete hdelete => exact .delete _ hdelete

/-- What an operation does with the page that it has reached. -/
inductive Handles (txn : TxnId) (operation : Operation) (ref : FrameRef) (db : Database) :
    Progress → Database → Prop where
  /-- It looks at the page. It may then give back the lock of the page, and add a page to a file. It
  borrows a lock next only if its transaction does not hold it. -/
  | looks {progress : Progress} {locks : LockTable} {storage : Storage} :
      locks = db.locks ∨ operation.borrowed? = some operation.demand.1 ∧
        (db.locks.lockOf operation.demand.1).exclusive ≠ some txn ∧
        locks = (db.locks.release txn operation.demand.1).2 →
      (storage = db.storage ∨ ∃ heap : HeapFile, heap.file.pageSize ≠ 0 ∧
        storage = (heap.appendPage db.storage).2) →
      progress.Ready locks txn →
      (∀ page, progress.borrowed? = some page → locks.holdsLock txn page = false) →
      Handles txn operation ref db progress { db with locks, storage }
  /-- It changes the page. -/
  | changes {answer : Except Error Answer} {frame : Frame} {changed : HeapPage} :
      operation.demand.2 = .exclusive → db.frame? ref = some frame →
      operation.Edits ref frame.page changed answer →
      Handles txn operation ref db (.ended answer)
        { db with cache := db.cache.putFrame ref ⟨changed, some txn⟩ }

/-- What a stride of an operation can do. -/
inductive Strides (txn : TxnId) (operation : Operation) (db : Database) :
    Stage → Stride → Database → Prop where
  /-- The cache is full of pages that cannot be evicted. -/
  | full :
      Strides txn operation db .locked (.leaves (.ended (operation.refuse .cacheFull))) db
  /-- The page is in the cache. -/
  | present {resident : Resident} :
      db.cache.frames[operation.demand.1]? = some resident →
      Strides txn operation db .locked (.stands (.fetched ⟨operation.demand.1, resident.serial⟩))
        { db with cache := db.cache.touch operation.demand.1 }
  /-- A free place is reserved. -/
  | reserves :
      db.cache.frames.size + db.cache.loading < db.cache.capacity →
      Strides txn operation db .locked (.stands .reserved)
        { db with cache := { db.cache with loading := db.cache.loading + 1 } }
  /-- A page is evicted, and its place is reserved. -/
  | evicts {victim : PageId} {resident : Resident} :
      Evicted db victim resident →
      Strides txn operation db .locked (.stands .reserved)
        { db with
          cache := { db.cache.remove victim with
            loading := (db.cache.remove victim).loading + 1 }
          locks := (db.locks.reclaim victim).2 }
  /-- The page is read, or cannot be. -/
  | reads {loaded : Except Error (HeapPage × PageFile)} {storage : Storage} :
      db.load operation.demand.1 = (loaded, { db with storage }) →
      storage.directory = db.storage.directory →
      Strides txn operation db .reserved (.stands (.read loaded)) { db with storage }
  /-- The place of a page that could not be read is given up. -/
  | fails {error : Error} :
      Strides txn operation db (.read (.error error))
        (.leaves (.ended (operation.refuse error)))
        { db with cache := { db.cache with loading := db.cache.loading - 1 } }
  /-- The page has come into the cache in the meantime. -/
  | finds {loaded : HeapPage × PageFile} {resident : Resident} :
      db.cache.frames[operation.demand.1]? = some resident →
      Strides txn operation db (.read (.ok loaded))
        (.stands (.fetched ⟨operation.demand.1, resident.serial⟩))
        { db with
          cache := { db.cache with loading := db.cache.loading - 1 }.touch operation.demand.1 }
  /-- The page is put into its place. -/
  | installs {heapPage : HeapPage} {origin : PageFile} :
      db.cache.frames[operation.demand.1]? = none →
      Strides txn operation db (.read (.ok (heapPage, origin)))
        (.stands (.fetched ⟨operation.demand.1, db.cache.nextSerial⟩))
        { db with
          cache := ({ db.cache with loading := db.cache.loading - 1 }.add heapPage origin).touch
            operation.demand.1 }
  /-- What the page holds is noted, if the operation may change it. -/
  | notes {ref : FrameRef} :
      Strides txn operation db (.fetched ref) (.stands (.reached ref))
        (db.noteFor txn ref operation.demand.2)
  | handles {ref : FrameRef} {progress : Progress} {after : Database} :
      Handles txn operation ref db progress after →
      Strides txn operation db (.reached ref) (.leaves progress) after

namespace Database

variable {db after : Database} {txn : TxnId} {operation : Operation} {ref : FrameRef}

/-- An insert adds a page. -/
theorem growFor_handles {heap : HeapFile} (hsize : heap.file.pageSize ≠ 0) (row : Row) :
    Handles txn operation ref db (db.growFor heap row).1 (db.growFor heap row).2 :=
  .looks (.inl rfl) (.inr ⟨heap, hsize, rfl⟩) hsize (by simp [growFor, Progress.borrowed?,
    Operation.borrowed?])

/-- An insert that turns to a page borrows its lock only if its transaction does not hold it. -/
theorem borrowed_probeAt {db : Database} {txn : TxnId} {heap : HeapFile} {row : Row}
    {number count : Nat} {page : PageId}
    (hborrowed : (db.probeAt txn heap row number count).1.borrowed? = some page) :
    db.locks.holdsLock txn page = false := by
  simp only [probeAt] at hborrowed
  split at hborrowed
  · cases hheld : db.locks.holdsLock txn (heap.pageId number) with
    | true => simp [hheld, Progress.borrowed?, Operation.borrowed?] at hborrowed
    | false =>
        rw [hheld] at hborrowed
        rw [← Option.some.inj hborrowed]
        exact hheld
  · simp [growFor, Progress.borrowed?, Operation.borrowed?] at hborrowed

/-- An insert turns to the page with this number, whether or not it has given up the lock of the
page that it has reached. -/
theorem probeAt_handles {heap : HeapFile} {locks : LockTable} (hsize : heap.file.pageSize ≠ 0)
    (hlocks : locks = db.locks ∨ operation.borrowed? = some operation.demand.1 ∧
      (db.locks.lockOf operation.demand.1).exclusive ≠ some txn ∧
      locks = (db.locks.release txn operation.demand.1).2) (row : Row) (number count : Nat) :
    Handles txn operation ref db
      (({ db with locks } : Database).probeAt txn heap row number count).1
      (({ db with locks } : Database).probeAt txn heap row number count).2 := by
  have hborrows : ∀ page,
      (({ db with locks } : Database).probeAt txn heap row number count).1.borrowed? = some page →
      locks.holdsLock txn page = false := fun _ => borrowed_probeAt
  simp only [probeAt] at hborrows ⊢
  split
  · rename_i hmore
    rw [if_pos hmore] at hborrows
    refine .looks hlocks (.inl rfl) ⟨hsize, ?_⟩ hborrows
    intro hheld howner
    rw [LockTable.holdsLock, LockState.holds, howner] at hheld
    simp at hheld
  · rename_i hmore
    rw [if_neg hmore] at hborrows
    exact .looks hlocks (.inr ⟨heap, hsize, rfl⟩) hsize hborrows

/-- An insert that has found room stores its row, or goes on to another page. -/
theorem storeRow_handles {heap : HeapFile} {row : Row} {point : InsertPoint}
    (hmode : (Operation.insert heap row point).demand.2 = .exclusive)
    {elsewhere : Database → Progress × Database}
    (hrest : Handles txn (.insert heap row point) ref db (elsewhere db).1 (elsewhere db).2) :
    let stored : Progress × Database := match db.storeRow txn ref row with
      | (.ok row, db) => (.ended (.ok (.inserted row ref)), db)
      | (.error (.pageFull _), db) => elsewhere db
      | (.error error, db) => (.ended (.error error), db)
    Handles txn (.insert heap row point) ref db stored.1 stored.2 := by
  have hidle : ∀ answer, Handles txn (.insert heap row point) ref db (.ended answer) db :=
    fun _ => .looks (.inl rfl) (.inl rfl) trivial (by simp [Progress.borrowed?])
  simp only [storeRow, modifyFrame]
  cases hframe : db.frame? ref with
  | none => exact hidle _
  | some frame =>
      simp only [Frame.modify]
      cases hinsert : frame.page.insert row with
      | error error =>
          simp only [Except.map]
          cases error <;> first | exact hrest | exact hidle _
      | ok found => exact .changes hmode hframe (.insert hinsert)

/-- What an operation does with the page that it has reached. -/
theorem proceedFrom_handles (hready : operation.Ready db.locks txn) (ref : FrameRef) :
    Handles txn operation ref db (db.proceedFrom txn ref operation).1
      (db.proceedFrom txn ref operation).2 := by
  have hidle : ∀ progress : Progress, progress.Ready db.locks txn → progress.borrowed? = none →
      Handles txn operation ref db progress db :=
    fun _ hready hnone => .looks (.inl rfl) (.inl rfl) hready (by simp [hnone])
  cases operation with
  | getPage page mode => exact hidle _ trivial rfl
  | insert heap row point =>
      cases point with
      | probe number count heldBefore =>
          obtain ⟨hsize, hheld⟩ := hready
          simp only [proceedFrom]
          split
          · exact hidle _ hsize rfl
          · cases heldBefore with
            | true => exact probeAt_handles hsize (.inl rfl) row (number + 1) count
            | false =>
                exact probeAt_handles hsize (.inr ⟨rfl, hheld rfl, rfl⟩) row (number + 1) count
      | escalate number count =>
          exact storeRow_handles rfl (probeAt_handles hready (.inl rfl) row (number + 1) count)
      | grow number => exact storeRow_handles rfl (growFor_handles hready row)
  | delete heap row place =>
      simp only [proceedFrom, modifyFrame]
      cases hframe : db.frame? ref with
      | none => exact hidle _ trivial rfl
      | some frame =>
          simp only [Frame.modify]
          cases hdelete : frame.page.delete row with
          | error error => exact hidle _ trivial rfl
          | ok changed => exact .changes rfl hframe (.delete hdelete)
  | scan walk =>
      have hwalk : ∀ next : Walk,
          Handles txn (.scan walk) ref db (db.continueWalk next) db := by
        intro next
        simp only [continueWalk]
        split <;> exact hidle _ trivial rfl
      simp only [proceedFrom]
      split
      · exact hwalk _
      · split
        · exact hidle _ trivial rfl
        · exact hwalk _

/-- An operation that edits its page ends with the answer to that. -/
theorem proceedFrom_of_edits {frame : Frame} {changed : HeapPage} {answer : Except Error Answer}
    (hmode : operation.demand.2 = .exclusive) (hframe : db.frame? ref = some frame)
    (hedits : operation.Edits ref frame.page changed answer) :
    (db.proceedFrom txn ref operation).1 = .ended answer := by
  cases hedits with
  | @insert heap row point _ _ slot hinsert =>
      cases point with
      | probe => simp [Operation.demand] at hmode
      | escalate | grow =>
          simp [proceedFrom, storeRow, modifyFrame, hframe, Frame.modify, hinsert, Except.map]
  | delete hdelete =>
      simp [proceedFrom, modifyFrame, hframe, Frame.modify, hdelete, Except.map]

/-- What a stride of an operation does. -/
theorem stride_strides (hready : operation.Ready db.locks txn) (stage : Stage) :
    Strides txn operation db stage (db.stride txn operation stage).1
      (db.stride txn operation stage).2 := by
  cases stage with
  | locked =>
      simp only [stride, reserve]
      cases hframe : db.cache.frames[operation.demand.1]? with
      | some resident => exact .present hframe
      | none =>
          cases hfull : db.cache.isFull with
          | false =>
              rw [← Bool.not_eq_true, Cache.isFull_iff, Nat.not_le] at hfull
              exact .reserves hfull
          | true =>
              cases hevict : db.evict with
              | none => exact .full
              | some room =>
                  obtain ⟨victim, resident, hevicted, rfl⟩ := evict_eq_some hevict
                  exact .evicts hevicted
  | reserved =>
      obtain ⟨storage, hload, hdirectory⟩ := load_eq db operation.demand.1
      simp only [stride, hload]
      exact .reads (Prod.ext rfl hload) hdirectory
  | read loaded =>
      rcases loaded with error | ⟨heapPage, origin⟩
      · exact .fails
      · simp only [stride, install]
        cases hframe : db.cache.frames[operation.demand.1]? with
        | some resident => exact .finds hframe
        | none => exact .installs hframe
  | fetched ref => exact .notes
  | reached ref => exact .handles (proceedFrom_handles hready ref)

end Database

end RowStore
