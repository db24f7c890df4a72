import RowStore.Error
import RowStore.Disk.Directory

/-!
# Page files

A page file reads and writes whole pages of one file. The file grows only by `appendPage` and by
`writePage` at its end, and its last page may be a partial one if the file was made elsewhere:
such a page counts, and cannot be read. Every opening of a file is counted apart, so each page
file knows how many pages were read and written through it. An operation that fails changes
neither the files nor the counts.
-/

namespace RowStore

open Std

/-- An opened file of pages. Its number tells it from other openings, of the same file or of
others. -/
structure PageFile where
  number : Nat
  name : String
  pageSize : Nat
deriving DecidableEq

/-- How many pages were read and written. -/
structure Traffic where
  reads : Nat := 0
  writes : Nat := 0
deriving DecidableEq

/-- A directory, and the traffic of the page files opened in it. -/
structure Storage where
  directory : Directory := ∅
  traffic : ExtTreeMap Nat Traffic := ∅
  /-- How many page files have been opened. -/
  opened : Nat := 0
deriving DecidableEq

namespace Storage

/-- The bytes of a page file. -/
def bytes (storage : Storage) (file : PageFile) : Bytes :=
  storage.directory.content file.name

/-- The traffic of a page file. -/
def trafficOf (storage : Storage) (file : PageFile) : Traffic :=
  storage.traffic.getD file.number {}

/-- Open the file at the path, which is made if it is not there. -/
def openFile (storage : Storage) (path : String) (pageSize : Nat) :
    Except Error (PageFile × Storage) :=
  if pageSize = 0 then .error (.invalidConfig .zeroPageSize)
  else
    match Directory.entryName? path with
    | none => .error .inputOutput
    | some name =>
        .ok (⟨storage.opened, name, pageSize⟩,
          { storage with
            directory := storage.directory.touch name
            opened := storage.opened + 1 })

/-- The number of pages in so many bytes, a partial one included. -/
def pagesFor (file : PageFile) (length : Nat) : Nat :=
  (length + file.pageSize - 1) / file.pageSize

/-- The number of pages of a page file. -/
def pageCount (storage : Storage) (file : PageFile) : Nat :=
  pagesFor file (storage.bytes file).length

/-- The page with this number, which has to lie within the file in full. -/
def readPage (storage : Storage) (file : PageFile) (number : Nat) :
    Except Error Bytes × Storage :=
  let bytes := storage.bytes file
  if bytes.length < number * file.pageSize + file.pageSize then
    (.error (.pageOutOfBounds number (pagesFor file bytes.length)), storage)
  else
    let traffic := storage.trafficOf file
    (.ok (Bytes.slice bytes (number * file.pageSize) file.pageSize),
      { storage with
        traffic := storage.traffic.insert file.number
          { traffic with reads := traffic.reads + 1 } })

/-- The storage after a page file was given other bytes. -/
def putBytes (storage : Storage) (file : PageFile) (bytes : Bytes) : Storage :=
  let traffic := storage.trafficOf file
  { storage with
    directory := storage.directory.insert file.name bytes
    traffic := storage.traffic.insert file.number { traffic with writes := traffic.writes + 1 } }

/-- Write the page with this number, which may begin at the end of the file but not after it. -/
def writePage (storage : Storage) (file : PageFile) (number : Nat) (page : Bytes) :
    Except Error Unit × Storage :=
  let bytes := storage.bytes file
  if page.length ≠ file.pageSize then
    (.error (.pageSizeMismatch file.pageSize page.length), storage)
  else if bytes.length < number * file.pageSize then
    (.error (.pageOutOfBounds number (pagesFor file bytes.length)), storage)
  else
    (.ok (), storage.putBytes file (Bytes.overwrite bytes (number * file.pageSize) page))

/-- Add an empty page after the last one, and tell its number. A partial last page is filled up
with zeros. -/
def appendPage (storage : Storage) (file : PageFile) : Nat × Storage :=
  let bytes := storage.bytes file
  let number := pagesFor file bytes.length
  (number,
    storage.putBytes file (Bytes.resize bytes (number * file.pageSize + file.pageSize)))

/-- Give the file at the path other bytes from outside. Nothing happens if the path leads
nowhere. -/
def replace (storage : Storage) (path : String) (bytes : Bytes) : Storage :=
  match Directory.entryName? path with
  | none => storage
  | some name => { storage with directory := storage.directory.insert name bytes }

/-- Cut the file at the path, or fill it up with zeros, from outside. -/
def resize (storage : Storage) (path : String) (length : Nat) : Storage :=
  match Directory.entryName? path with
  | none => storage
  | some name => storage.replace path (Bytes.resize (storage.directory.content name) length)

end Storage

end RowStore
