import RowStore.Database.Basic

/-!
# Fetching pages

A transaction that holds the lock of a page reaches it by fetching it. A fetch of a page that is
not in the cache takes three steps: `reserve` makes sure of a place for it, evicting another page
if the cache is full, `load` reads it from disk, and `install` puts it into the reserved place,
unless the page has come into the cache in the meantime. Only a clean page whose lock can be
reclaimed is evicted, and the one that was not accessed for the longest time goes first.
-/

namespace RowStore

/-- What the first step of a fetch came to. -/
inductive Reservation where
  /-- The page is in the cache. -/
  | present (ref : FrameRef)
  /-- A place is reserved for the page. -/
  | reserved
deriving DecidableEq, Repr

namespace Database

/-- Whether the page may leave the cache. -/
def isEvictable (db : Database) (page : PageId) : Bool :=
  db.cache.isClean page && db.locks.isReclaimable page

/-- Evict the page that was not accessed for the longest time among those that may leave. Its
lock is removed with it. -/
def evict (db : Database) : Option Database :=
  (db.cache.recency.evict db.isEvictable).1.victim.map fun page =>
    { db with cache := db.cache.remove page, locks := (db.locks.reclaim page).2 }

/-- Find the page in the cache, or reserve a place for it. -/
def reserve (db : Database) (page : PageId) : Except Error Reservation × Database :=
  match db.cache.frames[page]? with
  | some resident =>
      (.ok (.present ⟨page, resident.serial⟩), { db with cache := db.cache.touch page })
  | none =>
      if db.cache.isFull then
        match db.evict with
        | none => (.error .cacheFull, db)
        | some db =>
            (.ok .reserved, { db with
              cache := { db.cache with loading := db.cache.loading + 1 } })
      else
        (.ok .reserved, { db with cache := { db.cache with loading := db.cache.loading + 1 } })

/-- Read a page from the file of its table, past the cache, and tell which file it is. -/
def load (db : Database) (page : PageId) : Except Error (HeapPage × PageFile) × Database :=
  match db.catalog.heapFile page.table with
  | .error error => (.error error, db)
  | .ok heap =>
      let (loaded, storage) := heap.readPage db.storage page.number
      (loaded.map fun loaded => (loaded, heap.file), { db with storage })

/-- Give up the reserved place of a page, and put the page into the cache if it was read. -/
def install (db : Database) (page : PageId) (loaded : Except Error (HeapPage × PageFile)) :
    Except Error FrameRef × Database :=
  let cache := { db.cache with loading := db.cache.loading - 1 }
  match loaded with
  | .error error => (.error error, { db with cache })
  | .ok (heapPage, origin) =>
      match cache.frames[page]? with
      | some resident => (.ok ⟨page, resident.serial⟩, { db with cache := cache.touch page })
      | none =>
          (.ok ⟨page, cache.nextSerial⟩,
            { db with cache := (cache.add heapPage origin).touch page })

/-- Find the page in the cache, or read it into the cache. -/
def fetch (db : Database) (page : PageId) : Except Error FrameRef × Database :=
  match db.reserve page with
  | (.error error, db) => (.error error, db)
  | (.ok (.present ref), db) => (.ok ref, db)
  | (.ok .reserved, db) =>
      let (loaded, db) := db.load page
      db.install page loaded

/-- The frame that a reference leads to. -/
def frame? (db : Database) (ref : FrameRef) : Option Frame :=
  db.cache.frame? ref

/-- Note in the journal what the page of a frame holds, unless the transaction has noted it
before. -/
def noteBefore (db : Database) (txn : TxnId) (ref : FrameRef) : Database :=
  match db.frame? ref with
  | none => db
  | some frame => { db with journal := db.journal.record txn ref.page frame.page.bytes }

/-- Reach a page that the transaction has locked in the mode. -/
def access (db : Database) (txn : TxnId) (page : PageId) (mode : LockMode) :
    Except Error FrameRef × Database :=
  match db.fetch page with
  | (.error error, db) => (.error error, db)
  | (.ok ref, db) =>
      match mode with
      | .shared => (.ok ref, db)
      | .exclusive => (.ok ref, db.noteBefore txn ref)

/-- Change the page of a frame on behalf of a transaction. -/
def modifyFrame {α : Type} (db : Database) (ref : FrameRef) (txn : TxnId)
    (change : HeapPage → Except Error (HeapPage × α)) : Except Error α × Database :=
  match db.frame? ref with
  | none => (.error (.pageNotFound ref.page), db)
  | some frame =>
      match frame.modify txn change with
      | .error error => (.error error, db)
      | .ok (frame, answer) => (.ok answer, { db with cache := db.cache.putFrame ref frame })

/-- Add an empty page to the file of a table, past the cache. -/
def appendDirect (db : Database) (table : TableId) : Except Error PageId × Database :=
  match db.catalog.heapFile table with
  | .error error => (.error error, db)
  | .ok heap =>
      let (page, storage) := heap.appendPage db.storage
      (.ok page, { db with storage })

/-- Write a page, which is given by its name and its bytes, to the file of a table, past the
cache. -/
def writeDirect (db : Database) (table : TableId) (page : PageId) (bytes : Bytes) :
    Except Error Unit × Database :=
  match db.catalog.heapFile table with
  | .error error => (.error error, db)
  | .ok heap =>
      match HeapPage.ofBytes page heap.schema bytes with
      | .error error => (.error error, db)
      | .ok heapPage =>
          let (answer, storage) := heap.writePage db.storage heapPage
          (answer, { db with storage })

/-- Drop a page from the cache without writing it. -/
def discardPage (db : Database) (page : PageId) : Database :=
  { db with cache := db.cache.remove page }

/-- Drop the pages of a table from the cache without writing them. -/
def discardTable (db : Database) (table : TableId) : Database :=
  { db with cache := db.cache.removeTable table }

end Database

end RowStore
