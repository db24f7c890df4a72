import RowStore.Proofs.Session.Run
import RowStore.Proofs.Disk.Layout

/-!
# Attempts to write pages

The place of a page is the file of its table and its number. Two pages share a place if their tables
are kept in one file. A write to the place of a page fails if the table is not registered, or if the
file refuses it, and then it changes nothing. `Catalog.writeEach` makes such attempts one after the
other, goes on past those that fail, and tells which have failed. What is at a place then are the
bytes of the last page that was written there.
-/

namespace RowStore

namespace Catalog

/-- The file that a page is kept in, and its number there. -/
def place? (catalog : Catalog) (page : PageId) : Option (String × Nat) :=
  match catalog.heapFile page.table with
  | .error _ => none
  | .ok heap => some (heap.file.name, page.number)

/-- The bytes at the place of a page, fewer or none if the file ends before. -/
def bytesAt (catalog : Catalog) (storage : Storage) (page : PageId) : Bytes :=
  match catalog.heapFile page.table with
  | .error _ => []
  | .ok heap =>
      Bytes.slice (storage.bytes heap.file) (page.number * heap.file.pageSize) heap.file.pageSize

/-- Write to the place of a page. -/
def writeAt (catalog : Catalog) (storage : Storage) (page : PageId) (bytes : Bytes) :
    Except Error Unit × Storage :=
  match catalog.heapFile page.table with
  | .error error => (.error error, storage)
  | .ok heap => storage.writePage heap.file page.number bytes

/-- Write to the places of pages one after the other, past those that fail, and tell which have
failed and why. -/
def writeEach (catalog : Catalog) (storage : Storage) :
    List (PageId × Bytes) → List (PageId × Error) × Storage
  | [] => ([], storage)
  | (page, bytes) :: rest =>
      match catalog.writeAt storage page bytes with
      | (.error error, storage) =>
          let (failures, storage) := catalog.writeEach storage rest
          ((page, error) :: failures, storage)
      | (.ok (), storage) => catalog.writeEach storage rest

variable {catalog : Catalog} {storage after : Storage} {page other : PageId} {bytes : Bytes}
  {error : Error}

/-- A write that fails changes nothing. -/
theorem writeAt_cases (catalog : Catalog) (storage : Storage) (page : PageId) (bytes : Bytes) :
    (∃ error, catalog.writeAt storage page bytes = (.error error, storage)) ∨
      ∃ after, catalog.writeAt storage page bytes = (.ok (), after) := by
  simp only [writeAt]
  split
  · exact .inl ⟨_, rfl⟩
  · rename_i heap _
    rcases storage.writePage_cases heap.file page.number bytes with ⟨error, hwrite⟩ | ⟨_, _, hwrite⟩
    · exact .inl ⟨error, hwrite⟩
    · exact .inr ⟨_, hwrite⟩

/-- The pages that could not be written are among those of the list, in their order. -/
theorem failures_sublist (catalog : Catalog) (storage : Storage) (writes : List (PageId × Bytes)) :
    ((catalog.writeEach storage writes).1.map Prod.fst).Sublist (writes.map Prod.fst) := by
  induction writes generalizing storage with
  | nil => exact .slnil
  | cons entry rest ih =>
      simp only [writeEach]
      split
      · exact (ih _).cons_cons _
      · exact (ih _).cons _

/-- Attempts to write that follow others begin with the files that these have left. -/
theorem writeEach_append (catalog : Catalog) (storage : Storage)
    (writes later : List (PageId × Bytes)) :
    catalog.writeEach storage (writes ++ later) =
      ((catalog.writeEach storage writes).1 ++
          (catalog.writeEach (catalog.writeEach storage writes).2 later).1,
        (catalog.writeEach (catalog.writeEach storage writes).2 later).2) := by
  induction writes generalizing storage with
  | nil => rfl
  | cons entry rest ih =>
      simp only [List.cons_append, writeEach]
      split
      · simp only [ih, List.cons_append]
      · exact ih _

/-- What a write that succeeds does to the file of its table. -/
theorem writeAt_eq_ok (hwrite : catalog.writeAt storage page bytes = (.ok (), after)) :
    ∃ heap, catalog.heapFile page.table = .ok heap ∧ bytes.length = heap.file.pageSize ∧
      page.number * heap.file.pageSize ≤ (storage.bytes heap.file).length ∧
      after = storage.putBytes heap.file (Bytes.overwrite (storage.bytes heap.file)
        (page.number * heap.file.pageSize) bytes) := by
  simp only [writeAt] at hwrite
  split at hwrite
  · simp at hwrite
  · rename_i heap hheap
    rcases storage.writePage_cases heap.file page.number bytes with
      ⟨error, herror⟩ | ⟨hlength, hoffset, hok⟩
    · simp [herror] at hwrite
    · rw [hok] at hwrite
      exact ⟨heap, hheap, hlength, hoffset, (congrArg Prod.snd hwrite).symm⟩

/-- A page that was written is at its place. -/
theorem bytesAt_writeAt (hwrite : catalog.writeAt storage page bytes = (.ok (), after)) :
    catalog.bytesAt after page = bytes := by
  obtain ⟨heap, hheap, hlength, hoffset, rfl⟩ := writeAt_eq_ok hwrite
  simp only [bytesAt, hheap, Storage.bytes_putBytes]
  rw [← hlength]
  exact Bytes.slice_overwrite_self (by rwa [hlength])

section

variable {pageSize : Nat}
  (hsize : ∀ table heap, catalog.heapFile table = .ok heap → heap.file.pageSize = pageSize)

include hsize

/-- A write to another place leaves what is at a place. -/
theorem bytesAt_writeAt_of_apart (hwrite : catalog.writeAt storage page bytes = (.ok (), after))
    (hapart : catalog.place? other ≠ catalog.place? page) :
    catalog.bytesAt after other = catalog.bytesAt storage other := by
  obtain ⟨heap, hheap, hlength, hoffset, rfl⟩ := writeAt_eq_ok hwrite
  simp only [place?, hheap] at hapart
  simp only [bytesAt]
  cases hfound : catalog.heapFile other.table with
  | error error => rfl
  | ok found =>
      simp only [hfound, ne_eq, Option.some.injEq, Prod.mk.injEq, not_and] at hapart
      have hsame : found.file.pageSize = heap.file.pageSize :=
        (hsize _ _ hfound).trans (hsize _ _ hheap).symm
      simp only [Storage.bytes, Storage.content_putBytes]
      split
      · rename_i hname
        rw [← hname, hsame]
        rcases Bytes.place_disjoint (hapart hname.symm) with hbefore | hafter
        · exact Bytes.slice_overwrite_before hoffset hbefore
        · exact Bytes.slice_overwrite_after hoffset (by rwa [hlength])
      · rfl

/-- Writes to other places leave what is at a place. -/
theorem bytesAt_writeEach_of_apart (storage : Storage) (writes : List (PageId × Bytes))
    (hapart : ∀ entry ∈ writes, entry.1 ∉ (catalog.writeEach storage writes).1.map Prod.fst →
      catalog.place? page ≠ catalog.place? entry.1)
    (hdistinct : (writes.map Prod.fst).Nodup) :
    catalog.bytesAt (catalog.writeEach storage writes).2 page = catalog.bytesAt storage page := by
  induction writes generalizing storage with
  | nil => rfl
  | cons entry rest ih =>
      obtain ⟨written, bytes⟩ := entry
      rw [List.map_cons, List.nodup_cons] at hdistinct
      obtain ⟨hfresh, hdistinct⟩ := hdistinct
      simp only [writeEach] at hapart ⊢
      rcases catalog.writeAt_cases storage written bytes with ⟨error, hwrite⟩ | ⟨after, hwrite⟩
      · simp only [hwrite] at hapart ⊢
        refine ih storage (fun entry hentry hfailed => ?_) hdistinct
        refine hapart entry (List.mem_cons_of_mem _ hentry) ?_
        have hother : entry.1 ≠ written := by
          intro hsame
          have hmem := List.mem_map_of_mem (f := Prod.fst) hentry
          exact hfresh (by rwa [hsame] at hmem)
        simpa [hother] using hfailed
      · simp only [hwrite] at hapart ⊢
        have hkept := bytesAt_writeAt_of_apart hsize hwrite (hapart _ List.mem_cons_self fun h =>
          hfresh ((catalog.failures_sublist after rest).subset h))
        rw [← hkept]
        exact ih after (fun entry hentry => hapart entry (List.mem_cons_of_mem _ hentry)) hdistinct

/-- A page that was written is at its place, unless a later one was written to the same place. -/
theorem bytesAt_writeEach (storage : Storage) (earlier later : List (PageId × Bytes))
    (hdistinct : ((earlier ++ (page, bytes) :: later).map Prod.fst).Nodup)
    (hwritten : page ∉
      (catalog.writeEach storage (earlier ++ (page, bytes) :: later)).1.map Prod.fst)
    (hlast : ∀ entry ∈ later,
      entry.1 ∉ (catalog.writeEach storage (earlier ++ (page, bytes) :: later)).1.map Prod.fst →
      catalog.place? page ≠ catalog.place? entry.1) :
    catalog.bytesAt (catalog.writeEach storage (earlier ++ (page, bytes) :: later)).2 page =
      bytes := by
  induction earlier generalizing storage with
  | nil =>
      simp only [List.nil_append, writeEach] at hwritten hlast ⊢
      rcases catalog.writeAt_cases storage page bytes with ⟨error, hwrite⟩ | ⟨after, hwrite⟩
      · simp [hwrite] at hwritten
      · simp only [hwrite] at hlast ⊢
        rw [bytesAt_writeEach_of_apart hsize after later hlast (List.nodup_cons.mp hdistinct).2]
        exact bytesAt_writeAt hwrite
  | cons entry rest ih =>
      obtain ⟨written, other⟩ := entry
      rw [List.cons_append, List.map_cons, List.nodup_cons] at hdistinct
      obtain ⟨hfresh, hdistinct⟩ := hdistinct
      simp only [List.cons_append, writeEach] at hwritten hlast ⊢
      rcases catalog.writeAt_cases storage written other with ⟨error, hwrite⟩ | ⟨after, hwrite⟩
      · simp only [hwrite, List.map_cons, List.mem_cons, not_or] at hwritten hlast ⊢
        refine ih storage hdistinct hwritten.2 fun entry hentry hfailed => ?_
        refine hlast entry hentry ⟨?_, hfailed⟩
        intro hsame
        have hmem := List.mem_map_of_mem (f := Prod.fst)
          (List.mem_append_right rest (List.mem_cons_of_mem (page, bytes) hentry))
        exact hfresh (by rwa [hsame] at hmem)
      · simp only [hwrite] at hwritten hlast ⊢
        exact ih after hdistinct hwritten hlast

end

end Catalog

end RowStore
