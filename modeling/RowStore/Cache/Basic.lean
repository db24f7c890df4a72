import RowStore.Cache.Recency
import RowStore.Cache.Frame
import RowStore.Disk.PageFile

/-!
# The page cache

The cache holds at most one frame for each page, tracks how recently each was used, and counts
the places that are reserved for pages being read. A frame has a serial number, which tells it
from any other frame of the same page. A frame that leaves the cache is retired: whoever still
refers to it can use it, and nothing that happens to it reaches the cache.
-/

namespace RowStore

open Std

/-- A frame in the cache: its serial number and the page file that its page was read from. -/
structure Resident extends Frame where
  serial : Nat
  origin : PageFile
deriving DecidableEq

/-- A reference to one frame, in the cache or retired. -/
structure FrameRef where
  page : PageId
  serial : Nat
deriving DecidableEq, Repr

/-- The frames in memory. -/
structure Cache where
  /-- How many pages the cache may hold. -/
  capacity : Nat
  frames : PageMap Resident := ∅
  recency : Recency := {}
  /-- How many places are reserved for pages being read. -/
  loading : Nat := 0
  retired : ExtTreeMap Nat Frame := ∅
  /-- The serial number of the next frame. -/
  nextSerial : Nat := 0
deriving DecidableEq

namespace Cache

/-- The number of pages in the cache. -/
def residentCount (cache : Cache) : Nat :=
  cache.frames.size

/-- Whether no place is left for another page. -/
def isFull (cache : Cache) : Bool :=
  cache.capacity ≤ cache.frames.size + cache.loading

/-- Whether the page is in the cache with changes that are not on disk. -/
def isDirty (cache : Cache) (page : PageId) : Bool :=
  cache.frames[page]?.any fun resident => resident.isDirty

/-- Whether the page is in the cache without changes. -/
def isClean (cache : Cache) (page : PageId) : Bool :=
  cache.frames[page]?.any fun resident => !resident.isDirty

/-- The cache after an access to one of its pages. -/
def touch (cache : Cache) (page : PageId) : Cache :=
  { cache with recency := cache.recency.access page }

/-- The cache without a page. Its frame is retired. -/
def remove (cache : Cache) (page : PageId) : Cache :=
  match cache.frames[page]? with
  | none => { cache with recency := cache.recency.remove page }
  | some resident =>
      { cache with
        frames := cache.frames.erase page
        recency := cache.recency.remove page
        retired := cache.retired.insert resident.serial resident.toFrame }

/-- The cache without the pages of a table. -/
def removeTable (cache : Cache) (table : TableId) : Cache :=
  (cache.frames.keys.filter fun page => page.table = table).foldl remove cache

/-- The cache with a new, clean frame for a page that was read from a page file. -/
def add (cache : Cache) (page : HeapPage) (origin : PageFile) : Cache :=
  let resident : Resident := ⟨⟨page, none⟩, cache.nextSerial, origin⟩
  { cache with
    frames := cache.frames.insert page.id resident
    nextSerial := cache.nextSerial + 1 }

/-- The cache after the frame of a page changed. -/
def setFrame (cache : Cache) (page : PageId) (frame : Frame) : Cache :=
  { cache with
    frames := cache.frames.modify page fun resident => { resident with toFrame := frame } }

/-- The frame that a reference leads to. -/
def frame? (cache : Cache) (ref : FrameRef) : Option Frame :=
  match cache.frames[ref.page]? with
  | some resident =>
      if resident.serial = ref.serial then some resident.toFrame else cache.retired[ref.serial]?
  | none => cache.retired[ref.serial]?

/-- The cache after the frame that a reference leads to changed. -/
def putFrame (cache : Cache) (ref : FrameRef) (frame : Frame) : Cache :=
  match cache.frames[ref.page]? with
  | some resident =>
      if resident.serial = ref.serial then cache.setFrame ref.page frame
      else { cache with retired := cache.retired.modify ref.serial fun _ => frame }
  | none => { cache with retired := cache.retired.modify ref.serial fun _ => frame }

/-- The pages in the cache whose frames satisfy `keeps`, in page order. -/
def pagesWhere (cache : Cache) (keeps : Frame → Bool) : List PageId :=
  (cache.frames.toList.filter fun entry => keeps entry.2.toFrame).map Prod.fst

end Cache

end RowStore
