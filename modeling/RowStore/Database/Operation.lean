import RowStore.Database.Completion
import RowStore.Database.Cursor

/-!
# Operations of transactions

A transaction reaches the rows of a table by operations that lock one page after the other. An
operation is a program whose points are the places where it needs a lock: `Operation.demand` is
the lock that it needs next, `proceed` takes it from there, once the lock is granted, to the next
demand or to its end, and `refuse` ends it when the lock is refused. Nothing else can block, so
between two demands an operation runs undisturbed.

An insert probes the pages of the table in order under shared locks. On a page with a free slot
it asks for the exclusive lock; a page without one it leaves, and gives the lock back if the
transaction did not hold it before. If no page has room it adds pages to the file until the row
is stored.
-/

namespace RowStore

/-- Where an insert stands. -/
inductive InsertPoint where
  /-- It looks for room on a page, of so many in the file. -/
  | probe (number count : Nat) (heldBefore : Bool)
  /-- It has found room on a page, of so many in the file. -/
  | escalate (number count : Nat)
  /-- It has added a page. -/
  | grow (number : Nat)
deriving DecidableEq

/-- An operation at a point where it needs a lock. -/
inductive Operation where
  | getPage (page : PageId) (mode : LockMode)
  | insert (heap : HeapFile) (row : Row) (point : InsertPoint)
  | delete (heap : HeapFile) (row : Row) (place : RecordId)
  | scan (walk : Walk)
deriving DecidableEq

/-- What an operation came to. -/
inductive Answer where
  | page (ref : FrameRef)
  | inserted (row : Row) (ref : FrameRef)
  | deleted (ref : FrameRef)
  /-- The items of a walk, and whether it came to the end of the table. -/
  | scanned (walk : Walk) (ended : Bool)
deriving DecidableEq

/-- How an operation goes on: it has ended, or it needs a lock. -/
inductive Progress where
  | ended (answer : Except Error Answer)
  | needs (operation : Operation)
deriving DecidableEq

namespace Operation

/-- The page that the operation has to lock next, and the mode. -/
def demand : Operation → PageId × LockMode
  | .getPage page mode => (page, mode)
  | .insert heap _ (.probe number ..) => (heap.pageId number, .shared)
  | .insert heap _ (.escalate number _) => (heap.pageId number, .exclusive)
  | .insert heap _ (.grow number) => (heap.pageId number, .exclusive)
  | .delete _ _ place => (place.page, .exclusive)
  | .scan walk => (walk.cursor.page, .shared)

/-- What the operation comes to when its demand is answered by an error. -/
def refuse (operation : Operation) (error : Error) : Except Error Answer :=
  match operation with
  | .scan walk =>
      let failed := walk.fail error
      .ok (.scanned failed (!failed.isSated))
  | _ => .error error

end Operation

namespace Database

/-- Add a page for a row that no page has room for. -/
def growFor (db : Database) (heap : HeapFile) (row : Row) : Progress × Database :=
  let (page, storage) := heap.appendPage db.storage
  (.needs (.insert heap row (.grow page.number)), { db with storage })

/-- Look for room on the page with this number, or add a page after the last one. -/
def probeAt (db : Database) (txn : TxnId) (heap : HeapFile) (row : Row) (number count : Nat) :
    Progress × Database :=
  if number < count then
    let heldBefore := db.locks.holdsLock txn (heap.pageId number)
    (.needs (.insert heap row (.probe number count heldBefore)), db)
  else db.growFor heap row

/-- Begin to insert a row into a heap file. -/
def beginInsertInto (db : Database) (txn : TxnId) (heap : HeapFile) (row : Row) :
    Progress × Database :=
  if row.schema ≠ heap.schema then
    (.ended (.error (.rowMismatch (.tableSchema row.schema heap.table heap.schema))), db)
  else db.probeAt txn heap row 0 (heap.pageCount db.storage)

/-- Begin to insert a row into a table. -/
def beginInsert (db : Database) (txn : TxnId) (table : TableId) (row : Row) :
    Progress × Database :=
  match db.catalog.heapFile table with
  | .error error => (.ended (.error error), db)
  | .ok heap => db.beginInsertInto txn heap row

/-- Begin to delete from a heap file the record that a row is stored as. -/
def beginDeleteFrom (db : Database) (heap : HeapFile) (row : Row) : Progress :=
  match row.place with
  | none => .ended (.error .missingPlace)
  | some place =>
      if place.page.table ≠ heap.table then .ended (.error (.foreignRecord place))
      else if heap.pageCount db.storage ≤ place.page.number then
        .ended (.error (.pageNotFound place.page))
      else .needs (.delete heap row place)

/-- Begin to delete the record that a row is stored as. -/
def beginDelete (db : Database) (row : Row) : Progress :=
  match row.place with
  | none => .ended (.error .missingPlace)
  | some place =>
      match db.catalog.heapFile place.page.table with
      | .error error => .ended (.error error)
      | .ok heap => db.beginDeleteFrom heap row

/-- A cursor at the start of a table. -/
def openCursor (db : Database) (table : TableId) : Except Error Cursor :=
  (db.catalog.heapFile table).map fun heap => { heap }

/-- Hand out buffered rows, and go on with the walk. -/
def continueWalk (db : Database) (walk : Walk) : Progress :=
  let walk := walk.drain
  match walk.step (walk.cursor.heap.pageCount db.storage) with
  | .sated => .ended (.ok (.scanned walk false))
  | .ended => .ended (.ok (.scanned { walk with cursor := walk.cursor.finish } true))
  | .reads => .needs (.scan walk)

/-- Begin a walk that hands out at most so many items, or all if no number is given. -/
def beginScan (db : Database) (cursor : Cursor) (budget : Option Nat) : Progress :=
  db.continueWalk { cursor, budget }

/-- Store the row on the page of a frame. -/
def storeRow (db : Database) (txn : TxnId) (ref : FrameRef) (row : Row) :
    Except Error Row × Database :=
  db.modifyFrame ref txn fun page =>
    (page.insert row).map fun (page, slot) => (page, { row with place := some ⟨page.id, slot⟩ })

/-- Go on with an insert whose demand is granted. -/
def proceedInsert (db : Database) (txn : TxnId) (heap : HeapFile) (row : Row)
    (point : InsertPoint) : Progress × Database :=
  match point with
  | .probe number count heldBefore =>
      let page := heap.pageId number
      match db.access txn page .shared with
      | (.error error, db) => (.ended (.error error), db)
      | (.ok ref, db) =>
          if (db.frame? ref).any fun frame => 0 < frame.page.freeCount then
            (.needs (.insert heap row (.escalate number count)), db)
          else
            let db := if heldBefore then db else { db with locks := (db.locks.release txn page).2 }
            db.probeAt txn heap row (number + 1) count
  | .escalate number count =>
      match db.access txn (heap.pageId number) .exclusive with
      | (.error error, db) => (.ended (.error error), db)
      | (.ok ref, db) =>
          match db.storeRow txn ref row with
          | (.ok row, db) => (.ended (.ok (.inserted row ref)), db)
          | (.error (.pageFull _), db) => db.probeAt txn heap row (number + 1) count
          | (.error error, db) => (.ended (.error error), db)
  | .grow number =>
      match db.access txn (heap.pageId number) .exclusive with
      | (.error error, db) => (.ended (.error error), db)
      | (.ok ref, db) =>
          match db.storeRow txn ref row with
          | (.ok row, db) => (.ended (.ok (.inserted row ref)), db)
          | (.error (.pageFull _), db) => db.growFor heap row
          | (.error error, db) => (.ended (.error error), db)

/-- Go on with a delete whose demand is granted. -/
def proceedDelete (db : Database) (txn : TxnId) (row : Row) (place : RecordId) :
    Progress × Database :=
  match db.access txn place.page .exclusive with
  | (.error error, db) => (.ended (.error error), db)
  | (.ok ref, db) =>
      match db.modifyFrame ref txn fun page => (page.delete row).map fun page => (page, ()) with
      | (.error error, db) => (.ended (.error error), db)
      | (.ok (), db) => (.ended (.ok (.deleted ref)), db)

/-- Go on with a walk whose demand is granted. -/
def proceedScan (db : Database) (txn : TxnId) (walk : Walk) : Progress × Database :=
  match db.access txn walk.cursor.page .shared with
  | (.error error, db) => (.ended ((Operation.scan walk).refuse error), db)
  | (.ok ref, db) =>
      match db.frame? ref with
      | none => (db.continueWalk (walk.refill []), db)
      | some frame =>
          match frame.page.rows with
          | .error error => (.ended ((Operation.scan walk).refuse error), db)
          | .ok rows => (db.continueWalk (walk.refill rows), db)

/-- Go on with an operation whose demand is granted. -/
def proceed (db : Database) (txn : TxnId) : Operation → Progress × Database
  | .getPage page mode =>
      let (answer, db) := db.access txn page mode
      (.ended (answer.map .page), db)
  | .insert heap row point => db.proceedInsert txn heap row point
  | .delete _ row place => db.proceedDelete txn row place
  | .scan walk => db.proceedScan txn walk

end Database

end RowStore
