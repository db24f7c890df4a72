import RowStore.Catalog.HeapFile

/-!
# The catalog

The catalog knows the tables of a database by their numbers: the name of each, its heap file, and
its primary key. All tables share one page size. A table that is registered takes the place of
a table with the same number and of one with the same name. The numbers that the catalog hands
out count up from the greatest number that it has seen. They have 32 bits, so the count starts
again from zero after the greatest of them.
-/

namespace RowStore

/-- The number that comes after this one in the count, where numbers have 32 bits. -/
def TableId.after (table : TableId) : Nat :=
  (table.number + 1) % UInt32.size

/-- What the catalog knows of a table. -/
structure TableInfo where
  name : String
  heap : HeapFile
  primaryKey : Option String := none
deriving DecidableEq

/-- The registered tables, and the next number to hand out. -/
structure Catalog where
  pageSize : Nat
  tables : TableMap TableInfo := ∅
  nextTable : Nat := 1
deriving DecidableEq

namespace Catalog

/-- Hand out the number of a new table. -/
def allocate (catalog : Catalog) : TableId × Catalog :=
  let table : TableId := ⟨catalog.nextTable⟩
  (table, { catalog with nextTable := table.after })

/-- Register a heap file under a name. -/
def add (catalog : Catalog) (heap : HeapFile) (name : String) (primaryKey : Option String) :
    Except Error Catalog :=
  if heap.file.pageSize ≠ catalog.pageSize then
    .error (.pageSizeMismatch catalog.pageSize heap.file.pageSize)
  else
    match primaryKey.filter fun key => (heap.schema.columnIndex? key).isNone with
    | some key => .error (.invalidSchema (.keyNotAColumn key name))
    | none =>
        let others := catalog.tables.filter fun _ (info : TableInfo) => info.name ≠ name
        .ok { catalog with
          tables := others.insert heap.table ⟨name, heap, primaryKey⟩
          nextTable := max catalog.nextTable heap.table.after }

/-- Open the heap file at the path, which is made if it is not there, and register it as a new
table. The number of the new table is used up even if this fails. -/
def create (catalog : Catalog) (storage : Storage) (name : String) (schema : Schema)
    (path : String) (primaryKey : Option String) :
    Except Error TableId × Catalog × Storage :=
  let (table, catalog) := catalog.allocate
  match HeapFile.openAt storage table path schema catalog.pageSize with
  | .error error => (.error error, catalog, storage)
  | .ok (heap, storage) =>
      match catalog.add heap name primaryKey with
      | .error error => (.error error, catalog, storage)
      | .ok catalog => (.ok table, catalog, storage)

/-- What the catalog knows of a table. -/
def info (catalog : Catalog) (table : TableId) : Except Error TableInfo :=
  match catalog.tables[table]? with
  | none => .error (.tableNotFound table)
  | some info => .ok info

/-- The heap file of a table. -/
def heapFile (catalog : Catalog) (table : TableId) : Except Error HeapFile :=
  (catalog.info table).map TableInfo.heap

/-- The name of a table. -/
def tableName (catalog : Catalog) (table : TableId) : Except Error String :=
  (catalog.info table).map TableInfo.name

/-- The table with this name. -/
def tableNamed (catalog : Catalog) (name : String) : Except Error TableId :=
  match catalog.tables.toList.find? fun entry => entry.2.name = name with
  | none => .error (.tableNameNotFound name)
  | some (table, _) => .ok table

/-- The catalog without any table. -/
def clear (catalog : Catalog) : Catalog :=
  { catalog with tables := ∅ }

end Catalog

end RowStore
