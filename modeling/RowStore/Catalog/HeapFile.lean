import RowStore.Page.HeapPage
import RowStore.Disk.PageFile

/-!
# Heap files

A heap file keeps the rows of one table as pages of one page file. The functions of this module
move pages between disk and memory directly. A transaction reaches them through the page cache,
which takes the page lock first.
-/

namespace RowStore

/-- The page file of a table, with the schema of its rows. -/
structure HeapFile where
  table : TableId
  schema : Schema
  file : PageFile
deriving DecidableEq

namespace HeapFile

/-- Open the heap file at the path for a table. Rows that could not be stored in pages of this
size are refused before the file is touched. -/
def openAt (storage : Storage) (table : TableId) (path : String) (schema : Schema)
    (pageSize : Nat) : Except Error (HeapFile × Storage) :=
  match Page.slotsPerPage pageSize schema.recordWidth with
  | .error fault => .error (.invalidSchema fault)
  | .ok _ =>
      match storage.openFile path pageSize with
      | .error error => .error error
      | .ok (file, storage) => .ok (⟨table, schema, file⟩, storage)

/-- The name of the page with this number. -/
def pageId (heap : HeapFile) (number : Nat) : PageId :=
  ⟨heap.table, number⟩

/-- The number of pages of the file. -/
def pageCount (heap : HeapFile) (storage : Storage) : Nat :=
  storage.pageCount heap.file

/-- Read a page from disk. -/
def readPage (heap : HeapFile) (storage : Storage) (number : Nat) :
    Except Error HeapPage × Storage :=
  match storage.readPage heap.file number with
  | (.error error, storage) => (.error error, storage)
  | (.ok bytes, storage) =>
      (HeapPage.ofBytes (heap.pageId number) heap.schema bytes, storage)

/-- Write a page of this table to disk. -/
def writePage (heap : HeapFile) (storage : Storage) (page : HeapPage) :
    Except Error Unit × Storage :=
  if page.id.table ≠ heap.table then (.error (.pageNotFound page.id), storage)
  else storage.writePage heap.file page.id.number page.bytes

/-- Add an empty page to the file. -/
def appendPage (heap : HeapFile) (storage : Storage) : PageId × Storage :=
  let (number, storage) := storage.appendPage heap.file
  (heap.pageId number, storage)

end HeapFile

end RowStore
