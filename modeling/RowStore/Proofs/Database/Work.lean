import RowStore.Proofs.Catalog.Sound
import RowStore.Proofs.Database.Fetched
import RowStore.Proofs.Database.Journal

/-!
# What operations do

`Act` is one thing that an operation of a transaction does to a database while it runs: it locks
a page or gives it up, fetches, reads, or changes one, or adds one to a file. Each act tells the
accesses that it made and the pages that it changed. `Work` is a sequence of acts. Every
operation, however far it comes, has done a work, whose accesses and changes are those that it
reports: `Database.begin_work`, `Database.run_work`, and `Database.resume_work`. What every act
preserves is therefore preserved by every operation.
-/

namespace RowStore

namespace HeapPage

variable {page after : HeapPage} {row : Row} {slot : Nat}

/-- A page that a row was stored on keeps its name, its schema, and its length. -/
theorem insert_eq_ok (h : page.insert row = .ok (after, slot)) :
    after.id = page.id ∧ after.schema = page.schema ∧
      after.bytes.length = page.bytes.length := by
  obtain ⟨_, _, _, hslot, hrecord, rfl⟩ := store_of_insert h
  exact ⟨rfl, rfl, length_store hslot hrecord⟩

/-- A page that a row was deleted from keeps its name, its schema, and its length. -/
theorem delete_eq_ok (h : page.delete row = .ok after) :
    after.id = page.id ∧ after.schema = page.schema ∧
      after.bytes.length = page.bytes.length := by
  obtain ⟨_, _, _, _, rfl⟩ := mark_of_delete h
  exact ⟨rfl, rfl, Page.length_setBit ..⟩

/-- A page that was restored keeps its name and holds what was put back. -/
theorem restore_eq_ok {bytes : Bytes} (h : page.restore bytes = .ok after) :
    after.id = page.id ∧ after.bytes = bytes := by
  simp only [restore] at h
  split at h
  · simp only [Except.ok.injEq] at h
    subst h
    exact ⟨rfl, rfl⟩
  · simp at h

/-- A page that was restored is as long as it was. -/
theorem length_of_restore {bytes : Bytes} (h : page.restore bytes = .ok after) :
    after.bytes.length = page.bytes.length := by
  simp only [restore] at h
  split at h
  · rename_i hlength
    simp only [Except.ok.injEq] at h
    subst h
    exact hlength
  · simp at h

/-- A row was stored on a page or deleted from it. -/
inductive Edited (page after : HeapPage) : Prop where
  | insert (row : Row) (slot : Nat) : page.insert row = .ok (after, slot) → Edited page after
  | delete (row : Row) : page.delete row = .ok after → Edited page after

/-- A page that was edited keeps its name, its schema, and its length. -/
theorem Edited.keeps (h : page.Edited after) :
    after.id = page.id ∧ after.schema = page.schema ∧
      after.bytes.length = page.bytes.length := by
  cases h with
  | insert row slot h => exact insert_eq_ok h
  | delete row h => exact delete_eq_ok h

end HeapPage

/-- One thing that an operation of a transaction does, with the accesses that it makes and the
pages that it changes. -/
inductive Act (txn : TxnId) : Database → List Access → List PageId → Database → Prop where
  /-- It makes a request for a lock, or goes on with one. -/
  | lock {db : Database} {locks : LockTable} {page : PageId} {mode : LockMode} :
      LockTable.Serves txn page mode db.locks locks → Act txn db [] [] { db with locks }
  /-- It gives up a shared lock. -/
  | release {db : Database} {page : PageId} :
      (db.locks.lockOf page).exclusive ≠ some txn →
      Act txn db [] [] { db with locks := (db.locks.release txn page).2 }
  /-- It fetches a page, or fails to. -/
  | fetch {db after : Database} {page : PageId} {answer : Except Error FrameRef} :
      Fetched page db answer after → Act txn db [] [] after
  /-- It looks at a page. -/
  | read {db : Database} {page : PageId} {resident : Resident} :
      db.cache.frames[page]? = some resident →
      Act txn db [⟨txn, page, .shared, resident.page.bytes⟩] [] db
  /-- It is about to change a page, and what the page holds is noted. -/
  | note {db : Database} {page : PageId} {resident : Resident} :
      db.cache.frames[page]? = some resident →
      (db.locks.lockOf page).exclusive = some txn →
      Act txn db [⟨txn, page, .exclusive, resident.page.bytes⟩] []
        { db with journal := db.journal.record txn page resident.page.bytes }
  /-- It changes a page. -/
  | change {db : Database} {page : PageId} {resident : Resident} {changed : HeapPage} :
      db.cache.frames[page]? = some resident →
      (db.locks.lockOf page).exclusive = some txn →
      (db.journal.image? txn page).isSome = true →
      resident.page.Edited changed →
      Act txn db [] [page] { db with cache := db.cache.setFrame page ⟨changed, some txn⟩ }
  /-- It adds a page to a file. -/
  | append {db : Database} {heap : HeapFile} :
      heap.file.pageSize ≠ 0 →
      Act txn db [] [] { db with storage := (heap.appendPage db.storage).2 }

/-- A sequence of acts, with all accesses and changes in their order. -/
inductive Work (txn : TxnId) : Database → List Access → List PageId → Database → Prop where
  | none (db : Database) : Work txn db [] [] db
  | cons {start middle finish : Database} {accesses later : List Access}
      {changes rest : List PageId} :
      Act txn start accesses changes middle → Work txn middle later rest finish →
      Work txn start (accesses ++ later) (changes ++ rest) finish

namespace Work

variable {txn : TxnId} {start middle finish : Database} {accesses later : List Access}
  {changes rest : List PageId}

/-- An act is a work. -/
theorem single (hact : Act txn start accesses changes finish) :
    Work txn start accesses changes finish := by
  have hwork := Work.cons hact (.none finish)
  rwa [List.append_nil, List.append_nil] at hwork

/-- A work and a work after it are one work. -/
theorem append (hfirst : Work txn start accesses changes middle)
    (hrest : Work txn middle later rest finish) :
    Work txn start (accesses ++ later) (changes ++ rest) finish := by
  induction hfirst with
  | none => exact hrest
  | cons hact _ ih =>
      rw [List.append_assoc, List.append_assoc]
      exact .cons hact (ih hrest)

/-- What every act preserves is preserved by a work. -/
theorem preserves (holds : Database → Prop)
    (hact : ∀ {before after accesses changes}, Act txn before accesses changes after →
      holds before → holds after)
    (hwork : Work txn start accesses changes finish) (h : holds start) : holds finish := by
  induction hwork with
  | none => exact h
  | cons hfirst _ ih => exact ih (hact hfirst h)

end Work

/-- No act changes the catalog. -/
theorem Act.catalog {txn : TxnId} {before after : Database} {accesses : List Access}
    {changes : List PageId} (hact : Act txn before accesses changes after) :
    after.catalog = before.catalog := by
  cases hact with
  | fetch hfetched => exact hfetched.catalog
  | lock | release | read | note | change | append => rfl

/-- No work changes the catalog. -/
theorem Work.catalog {txn : TxnId} {before after : Database} {accesses : List Access}
    {changes : List PageId} (hwork : Work txn before accesses changes after) :
    after.catalog = before.catalog :=
  hwork.preserves (fun db => db.catalog = before.catalog) (fun hact h => hact.catalog.trans h) rfl

namespace Operation

/-- The operation may go on: a page that an insert leaves and has not locked before is not held
exclusively, and a file that it may add pages to has pages of some size. -/
def Ready (locks : LockTable) (txn : TxnId) : Operation → Prop
  | .insert heap _ (.probe number _ heldBefore) =>
      heap.file.pageSize ≠ 0 ∧
        (heldBefore = false → (locks.lockOf (heap.pageId number)).exclusive ≠ some txn)
  | .insert heap _ (.escalate ..) | .insert heap _ (.grow _) => heap.file.pageSize ≠ 0
  | .getPage .. | .delete .. | .scan _ => True

/-- The operation waits, if at all, with a request for the lock that it needs next. -/
def Awaits (locks : LockTable) (txn : TxnId) (operation : Operation) : Prop :=
  operation.Ready locks txn ∧ ∀ request, locks.pending[txn]? = some request →
    operation.demand = (request.page, request.mode)

end Operation

/-- The operation, if it has not ended, may go on. -/
def Progress.Ready (locks : LockTable) (txn : TxnId) : Progress → Prop
  | .ended _ => True
  | .needs operation => operation.Ready locks txn

/-- The pages that an operation has changed that has come so far. -/
def Progress.changes : Progress → List PageId
  | .ended (.ok answer) => answer.changed?.toList
  | .ended (.error _) | .needs _ => []

/-- The operation has ended, and waits with no request, or it may go on when its request is
granted. -/
def Status.Rests (locks : LockTable) (txn : TxnId) : Status → Prop
  | .ended _ => locks.pending[txn]? = none
  | .blocked operation | .paused operation => operation.Awaits locks txn

/-- The pages that an operation has changed that has come so far. -/
def Status.changes : Status → List PageId
  | .ended (.ok answer) => answer.changed?.toList
  | .ended (.error _) | .blocked _ | .paused _ => []

end RowStore
