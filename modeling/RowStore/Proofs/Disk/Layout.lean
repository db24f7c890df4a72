import RowStore.Catalog.HeapFile
import RowStore.Proofs.Bytes

/-!
# Where pages lie on disk

A layout says how large a page is and in which file a table keeps its pages; no two tables share
a file. `Layout.bytes` are the bytes of a page on disk. Reading a page gives these bytes, writing
one changes these bytes and those of no other page, and a page that is added to a file leaves
every page that the file covers as it was.
-/

namespace RowStore

/-- The size of pages, and the file of each table. No two tables share a file. -/
structure Layout where
  pageSize : Nat
  fileOf : TableId → Option String
  separate : ∀ {a b : TableId} {name : String},
    fileOf a = some name → fileOf b = some name → a = b

namespace Layout

variable {layout : Layout} {storage : Storage} {file : PageFile} {table : TableId}

/-- The page file is the one that the layout names for the table. -/
def Locates (layout : Layout) (table : TableId) (file : PageFile) : Prop :=
  layout.fileOf table = some file.name ∧ file.pageSize = layout.pageSize

/-- The bytes of a page on disk, fewer or none if the file ends before. -/
def bytes (layout : Layout) (storage : Storage) (page : PageId) : Bytes :=
  match layout.fileOf page.table with
  | none => []
  | some name =>
      Bytes.slice (storage.directory.content name) (page.number * layout.pageSize)
        layout.pageSize

/-- The file of the page's table holds the page in full. -/
def Covers (layout : Layout) (storage : Storage) (page : PageId) : Prop :=
  ∃ name, layout.fileOf page.table = some name ∧
    page.number * layout.pageSize + layout.pageSize ≤ (storage.directory.content name).length

/-- What a page file holds at the place of a page. -/
theorem Locates.bytes_eq (h : layout.Locates table file) (number : Nat) :
    layout.bytes storage ⟨table, number⟩ =
      Bytes.slice (storage.bytes file) (number * file.pageSize) file.pageSize := by
  simp only [bytes, h.1, h.2, Storage.bytes]

/-- A page file holds the pages that lie within its length. -/
theorem Locates.covers_iff (h : layout.Locates table file) (number : Nat) :
    layout.Covers storage ⟨table, number⟩ ↔
      number * file.pageSize + file.pageSize ≤ (storage.bytes file).length := by
  simp only [Covers, h.1, h.2, Storage.bytes, Option.some.injEq, exists_eq_left']

/-- A page that is covered has as many bytes as a page has. -/
theorem Covers.length_bytes {page : PageId} (h : layout.Covers storage page) :
    (layout.bytes storage page).length = layout.pageSize := by
  obtain ⟨name, hname, hlength⟩ := h
  simp only [bytes, hname]
  exact Bytes.length_slice hlength

/-- Storages with the same files have the same pages. -/
theorem bytes_congr {before after : Storage}
    (h : ∀ name, after.directory.content name = before.directory.content name) (page : PageId) :
    layout.bytes after page = layout.bytes before page := by
  simp only [bytes, h]

/-- Storages with the same files cover the same pages. -/
theorem covers_congr {before after : Storage}
    (h : ∀ name, after.directory.content name = before.directory.content name) (page : PageId) :
    layout.Covers after page ↔ layout.Covers before page := by
  simp only [Covers, h]

end Layout

/-- Every file is as long in one storage as in the other. -/
def Storage.SameLengths (before after : Storage) : Prop :=
  ∀ name, (after.directory.content name).length = (before.directory.content name).length

/-- Storages whose files are equally long cover the same pages. -/
theorem Storage.SameLengths.covers_iff {layout : Layout} {before after : Storage}
    (h : SameLengths before after) (page : PageId) :
    layout.Covers after page ↔ layout.Covers before page := by
  unfold Layout.Covers
  simp only [h _]

namespace Storage

variable {layout : Layout} {storage after : Storage} {file : PageFile} {table : TableId}

/-- The files after one of them was given other bytes. -/
theorem content_putBytes (storage : Storage) (file : PageFile) (bytes : Bytes) (name : String) :
    (storage.putBytes file bytes).directory.content name =
      if file.name = name then bytes else storage.directory.content name := by
  simp [putBytes, Directory.content, Std.ExtTreeMap.getD_insert]

/-- A page file that was given other bytes has them. -/
theorem bytes_putBytes (storage : Storage) (file : PageFile) (bytes : Bytes) :
    (storage.putBytes file bytes).bytes file = bytes := by
  rw [Storage.bytes, content_putBytes, if_pos rfl]

/-- Opening a file changes the contents of none. -/
theorem content_touch (directory : Directory) (touched name : String) :
    (directory.touch touched).content name = directory.content name := by
  simp only [Directory.touch, Directory.content, Std.ExtTreeMap.getD_insertIfNew]
  split
  · rename_i h
    rw [Std.compare_eq_iff_eq] at h
    rw [← h.1, Std.ExtTreeMap.getD_eq_fallback h.2]
  · rfl

/-- A file that is opened has a name and pages of the size that was asked for, and opening it
changes the contents of no file. -/
theorem openFile_eq_ok {path : String} {pageSize : Nat}
    (h : storage.openFile path pageSize = .ok (file, after)) :
    pageSize ≠ 0 ∧ Directory.entryName? path = some file.name ∧ file.pageSize = pageSize ∧
      ∀ name, after.directory.content name = storage.directory.content name := by
  unfold openFile at h
  split at h
  · simp at h
  · rename_i hsize
    split at h
    · simp at h
    · rename_i name hname
      simp only [Except.ok.injEq, Prod.mk.injEq] at h
      obtain ⟨rfl, rfl⟩ := h
      exact ⟨hsize, hname, rfl, content_touch _ _⟩

/-- A file can be opened by a path that leads to it. -/
theorem openFile_of_entryName (storage : Storage) {path name : String} {pageSize : Nat}
    (hsize : pageSize ≠ 0) (hname : Directory.entryName? path = some name) :
    ∃ file after, storage.openFile path pageSize = .ok (file, after) ∧ file.name = name := by
  unfold openFile
  rw [if_neg hsize, hname]
  exact ⟨_, _, rfl, rfl⟩

/-- What reading a page gives, and that it changes no file. -/
theorem readPage_ok {number : Nat} {bytes : Bytes}
    (h : storage.readPage file number = (.ok bytes, after)) :
    number * file.pageSize + file.pageSize ≤ (storage.bytes file).length ∧
      bytes = Bytes.slice (storage.bytes file) (number * file.pageSize) file.pageSize ∧
      after.directory = storage.directory := by
  simp only [readPage] at h
  split at h
  · simp at h
  · rename_i hlength
    simp only [Prod.mk.injEq, Except.ok.injEq] at h
    obtain ⟨rfl, rfl⟩ := h
    exact ⟨by omega, rfl, rfl⟩

/-- Reading a page changes no file. -/
theorem directory_readPage (storage : Storage) (file : PageFile) (number : Nat) :
    (storage.readPage file number).2.directory = storage.directory := by
  simp only [readPage]
  split <;> rfl

/-- A page that the file holds in full can be read. -/
theorem readPage_of_le {number : Nat}
    (h : number * file.pageSize + file.pageSize ≤ (storage.bytes file).length) :
    (storage.readPage file number).1 =
      .ok (Bytes.slice (storage.bytes file) (number * file.pageSize) file.pageSize) := by
  simp only [readPage, if_neg (Nat.not_lt.mpr h)]

/-- A page is written, or it is refused and nothing changes. -/
theorem writePage_cases (storage : Storage) (file : PageFile) (number : Nat) (page : Bytes) :
    (∃ error, storage.writePage file number page = (.error error, storage)) ∨
      (page.length = file.pageSize ∧ number * file.pageSize ≤ (storage.bytes file).length ∧
        storage.writePage file number page = (.ok (), storage.putBytes file
          (Bytes.overwrite (storage.bytes file) (number * file.pageSize) page))) := by
  simp only [writePage]
  split
  · exact .inl ⟨_, rfl⟩
  · split
    · exact .inl ⟨_, rfl⟩
    · exact .inr ⟨by omega, by omega, rfl⟩

/-- A whole page is written if the file holds a page in its place. -/
theorem writePage_of_le {number : Nat} {page : Bytes} (hpage : page.length = file.pageSize)
    (h : number * file.pageSize + file.pageSize ≤ (storage.bytes file).length) :
    storage.writePage file number page = (.ok (), storage.putBytes file
      (Bytes.overwrite (storage.bytes file) (number * file.pageSize) page)) := by
  simp only [writePage, hpage, ne_eq, not_true_eq_false, if_false,
    if_neg (show ¬ (storage.bytes file).length < number * file.pageSize by omega)]

/-- A page that was written holds the new bytes, and no other page has changed. -/
theorem bytes_of_writePage (hfile : layout.Locates table file) {number : Nat} {page : Bytes}
    (h : storage.writePage file number page = (.ok (), after)) (other : PageId) :
    layout.bytes after other =
      if other = ⟨table, number⟩ then page else layout.bytes storage other := by
  rcases writePage_cases storage file number page with ⟨error, herror⟩ | ⟨hpage, hoffset, hok⟩
  · simp [herror] at h
  rw [hok] at h
  obtain rfl : storage.putBytes file _ = after := congrArg Prod.snd h
  obtain ⟨otherTable, otherNumber⟩ := other
  by_cases htable : otherTable = table
  · subst otherTable
    rw [hfile.bytes_eq, hfile.bytes_eq]
    rw [bytes_putBytes]
    by_cases hnumber : otherNumber = number
    · subst otherNumber
      rw [if_pos rfl, ← hpage]
      exact Bytes.slice_overwrite_self (by rwa [hpage])
    · rw [if_neg (by simpa using hnumber)]
      rcases Bytes.place_disjoint hnumber with hbefore | hafter
      · exact Bytes.slice_overwrite_before hoffset hbefore
      · exact Bytes.slice_overwrite_after hoffset (by rwa [hpage])
  · rw [if_neg (by simp [htable])]
    simp only [Layout.bytes]
    cases hname : layout.fileOf otherTable with
    | none => rfl
    | some name =>
        have hne : file.name ≠ name := by
          intro heq
          exact htable (layout.separate hname (heq ▸ hfile.1))
        simp only [content_putBytes, if_neg hne]

/-- A page that is written into a file that holds a page in its place leaves every file as long as
it was. -/
theorem sameLengths_of_writePage {number : Nat} {page : Bytes} (hpage : page.length = file.pageSize)
    (h : number * file.pageSize + file.pageSize ≤ (storage.bytes file).length)
    (hwrite : storage.writePage file number page = (.ok (), after)) :
    SameLengths storage after := by
  intro name
  rw [writePage_of_le hpage h] at hwrite
  obtain rfl : storage.putBytes file _ = after := congrArg Prod.snd hwrite
  rw [content_putBytes]
  split
  · rename_i hname
    subst hname
    exact Bytes.length_overwrite (by rwa [hpage])
  · rfl

/-- The file grows by an added page, and by what a partial last page lacked. -/
theorem le_pagesFor_mul (file : PageFile) (length : Nat) (h : file.pageSize ≠ 0) :
    length ≤ pagesFor file length * file.pageSize := by
  simp only [pagesFor]
  have hdiv := Nat.div_add_mod (length + file.pageSize - 1) file.pageSize
  have hmod := Nat.mod_lt (length + file.pageSize - 1) (Nat.pos_of_ne_zero h)
  rw [Nat.mul_comm] at hdiv
  omega

/-- Adding a page to a file changes no page that the files cover. -/
theorem bytes_of_appendPage (file : PageFile) (hsize : file.pageSize ≠ 0) {page : PageId}
    (hcovers : layout.Covers storage page) :
    layout.bytes (storage.appendPage file).2 page = layout.bytes storage page ∧
      layout.Covers (storage.appendPage file).2 page := by
  obtain ⟨name, hname, hlength⟩ := hcovers
  have hgrows := le_pagesFor_mul file (storage.bytes file).length hsize
  simp only [Layout.bytes, Layout.Covers, hname, appendPage, content_putBytes,
    Option.some.injEq, exists_eq_left']
  split
  · rename_i heq
    subst heq
    simp only [Storage.bytes] at hgrows ⊢
    refine ⟨Bytes.slice_resize (by omega) (by omega), ?_⟩
    rw [Bytes.length_resize]
    omega
  · exact ⟨rfl, hlength⟩

/-- No file has become shorter. -/
def Grows (before after : Storage) : Prop :=
  ∀ name, (before.directory.content name).length ≤ (after.directory.content name).length

namespace Grows

variable {before middle after : Storage}

theorem refl : Grows before before := fun _ => Nat.le_refl _

theorem trans (hfirst : Grows before middle) (hrest : Grows middle after) : Grows before after :=
  fun name => Nat.le_trans (hfirst name) (hrest name)

theorem of_content
    (h : ∀ name, after.directory.content name = before.directory.content name) :
    Grows before after :=
  fun name => Nat.le_of_eq (congrArg List.length (h name).symm)

theorem of_directory (h : after.directory = before.directory) : Grows before after :=
  of_content fun name => by rw [h]

/-- A file that has not become shorter has no fewer pages. -/
theorem pageCount_le (h : Grows before after) (file : PageFile) :
    before.pageCount file ≤ after.pageCount file := by
  have hlength : (before.bytes file).length ≤ (after.bytes file).length := h file.name
  simp only [pageCount, pagesFor]
  exact Nat.div_le_div_right (by omega)

/-- A file that is given at least as many bytes as it had has not become shorter. -/
theorem putBytes {file : PageFile} {bytes : Bytes}
    (h : (before.bytes file).length ≤ bytes.length) :
    Grows before (before.putBytes file bytes) := by
  intro name
  rw [content_putBytes]
  split
  · rename_i hname
    rwa [← hname]
  · exact Nat.le_refl _

/-- Adding a page makes no file shorter. -/
theorem appendPage {file : PageFile} (hsize : file.pageSize ≠ 0) :
    Grows before (before.appendPage file).2 := by
  have hlength := le_pagesFor_mul file (before.bytes file).length hsize
  refine putBytes ?_
  rw [Bytes.length_resize]
  omega

/-- Writing a page makes no file shorter. -/
theorem writePage (file : PageFile) (number : Nat) (page : Bytes) :
    Grows before (before.writePage file number page).2 := by
  rcases writePage_cases before file number page with ⟨error, hwrite⟩ | ⟨_, hoffset, hwrite⟩
  · rw [hwrite]
    exact refl
  · rw [hwrite]
    refine putBytes ?_
    rw [Bytes.length_overwrite_eq_max hoffset]
    exact Nat.le_max_left ..

end Grows

end Storage

end RowStore
