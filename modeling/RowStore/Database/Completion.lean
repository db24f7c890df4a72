import RowStore.Database.Fetch

/-!
# Writing pages and ending transactions

A flush writes dirty pages in page order and stops at the first that cannot be written. A commit
flushes the pages that the transaction dirtied. An abort puts back the before-images of the
transaction, in page order: in the cache, where the page then counts as clean, and on disk if
the changes may have reached it or the page is not in the cache. A page that cannot be written
does not keep the others from being put back, and stays dirty. Either way the transaction's
before-images are forgotten and its locks are released.
-/

namespace RowStore

namespace Database

/-- Write a page in the cache to disk if it is dirty. The journal learns of the write before it
is tried. -/
def flushPage (db : Database) (page : PageId) : Except Error Unit × Database :=
  match db.cache.frames[page]? with
  | none => (.ok (), db)
  | some resident =>
      match db.catalog.heapFile page.table with
      | .error error => (.error error, db)
      | .ok heap =>
          let write := fun (state : Journal × Storage) (txn : TxnId) (heapPage : HeapPage) =>
            let (answer, storage) := heap.writePage state.2 heapPage
            (answer, state.1.markStolen txn page, storage)
          match resident.toFrame.flush (db.journal, db.storage) write with
          | (answer, frame, journal, storage) =>
              (answer.map fun _ => (),
                { db with journal, storage, cache := db.cache.setFrame page frame })

/-- Write pages one after the other, up to the first that cannot be written. -/
def flushEach (db : Database) : List PageId → Except Error Unit × Database
  | [] => (.ok (), db)
  | page :: rest =>
      match db.flushPage page with
      | (.error error, db) => (.error error, db)
      | (.ok (), db) => flushEach db rest

/-- Write every dirty page. -/
def flushAll (db : Database) : Except Error Unit × Database :=
  db.flushEach (db.cache.pagesWhere Frame.isDirty)

/-- Write every page that the transaction dirtied. -/
def flushOf (db : Database) (txn : TxnId) : Except Error Unit × Database :=
  db.flushEach (db.cache.pagesWhere fun frame => frame.dirtiedBy = some txn)

/-- Write a before-image to the file of its table. -/
def writeImage (db : Database) (page : PageId) (bytes : Bytes) : Except Error Unit × Database :=
  match db.catalog.heapFile page.table with
  | .error error => (.error error, db)
  | .ok heap =>
      let (answer, storage) := db.storage.writePage heap.file page.number bytes
      (answer, { db with storage })

/-- Put back one before-image of a transaction. -/
def restore (db : Database) (txn : TxnId) (page : PageId) (bytes : Bytes) :
    Except Error Unit × Database :=
  match db.cache.frames[page]? with
  | none => db.writeImage page bytes
  | some resident =>
      match resident.page.restore bytes with
      | .error error => (.error error, db)
      | .ok restored =>
          let db := { db with cache := db.cache.setFrame page ⟨restored, none⟩ }
          if db.journal.isStolen txn page then
            match db.writeImage page bytes with
            | (.error error, db) =>
                (.error error, { db with cache := db.cache.setFrame page ⟨restored, some txn⟩ })
            | (.ok (), db) => (.ok (), db)
          else (.ok (), db)

/-- Put back before-images one after the other, and tell the first error. -/
def restoreEach (db : Database) (txn : TxnId) :
    List (PageId × BeforeImage) → Except Error Unit × Database
  | [] => (.ok (), db)
  | (page, image) :: rest =>
      let (answer, db) := db.restore txn page image.bytes
      let (later, db) := restoreEach db txn rest
      (answer.bind fun _ => later, db)

/-- Put back every before-image of a transaction. -/
def rollBack (db : Database) (txn : TxnId) : Except Error Unit × Database :=
  db.restoreEach txn (db.journal.imagesOf txn).toList

/-- Forget the before-images of a transaction and release its locks. -/
def finish (db : Database) (txn : TxnId) : Database :=
  { db with journal := db.journal.erase txn, locks := db.locks.releaseAll txn }

/-- End a transaction and keep its changes. -/
def commit (db : Database) (txn : TxnId) : Except Error Unit × Database :=
  let (answer, db) := db.flushOf txn
  (answer, db.finish txn)

/-- End a transaction and undo its changes. -/
def abort (db : Database) (txn : TxnId) : Except Error Unit × Database :=
  let (answer, db) := db.rollBack txn
  (answer, db.finish txn)

end Database

end RowStore
