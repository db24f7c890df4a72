import RowStore.Config
import RowStore.Cache.Basic
import RowStore.Catalog.SchemaFile
import RowStore.Lock.LockTable

/-!
# Databases

A database is a catalog, a page cache, a lock table, and a journal over the files of a directory.
The journal holds, for each transaction, the contents that pages had before the transaction
first got write access to them, for an abort to put back.
-/

namespace RowStore

/-- What a page held before a transaction first got write access to it. -/
structure BeforeImage where
  bytes : Bytes
  /-- Whether changes of the transaction may have reached disk before it ended. -/
  stolen : Bool := false
deriving DecidableEq

/-- The before-images of each transaction, by page. A transaction without any is not listed. -/
abbrev Journal := TxnMap (PageMap BeforeImage)

namespace Journal

/-- The before-images of a transaction. -/
def imagesOf (journal : Journal) (txn : TxnId) : PageMap BeforeImage :=
  journal.getD txn ∅

/-- The before-image that a transaction has of a page. -/
def image? (journal : Journal) (txn : TxnId) (page : PageId) : Option BeforeImage :=
  (journal.imagesOf txn)[page]?

/-- The journal with a before-image, unless the transaction has one of that page. -/
def record (journal : Journal) (txn : TxnId) (page : PageId) (bytes : Bytes) : Journal :=
  if (journal.image? txn page).isSome then journal
  else journal.insert txn ((journal.imagesOf txn).insert page ⟨bytes, false⟩)

/-- The journal after changes of a transaction to a page may have reached disk. -/
def markStolen (journal : Journal) (txn : TxnId) (page : PageId) : Journal :=
  journal.modify txn fun images =>
    images.modify page fun image => { image with stolen := true }

/-- Whether changes of the transaction to the page may have reached disk. -/
def isStolen (journal : Journal) (txn : TxnId) (page : PageId) : Bool :=
  (journal.image? txn page).any BeforeImage.stolen

end Journal

/-- A database and the files that it keeps its tables in. -/
structure Database where
  config : Config
  storage : Storage
  catalog : Catalog
  cache : Cache
  locks : LockTable := {}
  journal : Journal := ∅
deriving DecidableEq

/-- An empty cache for the tables of a catalog. -/
def Cache.forCatalog (config : Config) (catalog : Catalog) : Except Error Cache := do
  config.validate
  if catalog.pageSize ≠ config.pageSize then
    throw (.pageSizeMismatch config.pageSize catalog.pageSize)
  return { capacity := config.capacity }

namespace Database

/-- A database without tables over the files of a storage. -/
def create (config : Config) (storage : Storage) : Except Error Database := do
  config.validate
  let catalog : Catalog := { pageSize := config.pageSize }
  let cache ← Cache.forCatalog config catalog
  return { config, storage, catalog, cache }

/-- Create the tables that the schema file at the path describes. -/
def loadSchema (db : Database) (path : String) : Except Error (List TableId) × Database :=
  let (answer, catalog, storage) := db.catalog.loadSchema db.storage path
  (answer, { db with catalog, storage })

/-- A database with the tables that the schema file at the path describes, and the storage after
the attempt, which may have made files even if it failed. -/
def openSchema (config : Config) (storage : Storage) (path : String) :
    Except Error Database × Storage :=
  match create config storage with
  | .error error => (.error error, storage)
  | .ok db =>
      match db.loadSchema path with
      | (.error error, db) => (.error error, db.storage)
      | (.ok _, db) => (.ok db, db.storage)

/-- Create a table, whose rows are kept in the file at the path. -/
def createTable (db : Database) (name : String) (schema : Schema) (path : String)
    (primaryKey : Option String) : Except Error TableId × Database :=
  let (answer, catalog, storage) :=
    db.catalog.create db.storage name schema path primaryKey
  (answer, { db with catalog, storage })

/-- Open the heap file at the path for a table number and register it. -/
def addTable (db : Database) (table : TableId) (name : String) (schema : Schema)
    (path : String) (pageSize : Nat) (primaryKey : Option String) :
    Except Error TableId × Database :=
  match HeapFile.openAt db.storage table path schema pageSize with
  | .error error => (.error error, db)
  | .ok (heap, storage) =>
      match db.catalog.add heap name primaryKey with
      | .error error => (.error error, { db with storage })
      | .ok catalog => (.ok table, { db with catalog, storage })

end Database

end RowStore
