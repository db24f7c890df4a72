import RowStore.Proofs.Session.Run
import RowStore.Proofs.Disk.Layout

/-!
# Catalogs that are sound

In a sound catalog each table is registered under its own number, with pages of the size that all
tables share, which can hold rows of its schema. The catalog of a database that was opened is
sound, and every change of a catalog keeps it so. A change of the catalog may make files, and
changes the contents of none.
-/

namespace RowStore

namespace HeapFile

/-- The heap file can keep the rows of the table in pages of this size. -/
structure Fits (heap : HeapFile) (table : TableId) (pageSize : Nat) : Prop where
  table : heap.table = table
  slots : ∃ slots, Page.slotsPerPage pageSize heap.schema.recordWidth = .ok slots
  pageSize : heap.file.pageSize = pageSize

/-- A heap file that was opened fits, and opening it changed the contents of no file. -/
theorem openAt_eq_ok {storage after : Storage} {table : TableId} {path : String}
    {schema : Schema} {pageSize : Nat} {heap : HeapFile}
    (h : openAt storage table path schema pageSize = .ok (heap, after)) :
    heap.Fits table pageSize ∧ heap.schema = schema ∧
      Directory.entryName? path = some heap.file.name ∧
      ∀ name, after.directory.content name = storage.directory.content name := by
  simp only [openAt] at h
  split at h
  · simp at h
  · rename_i slots hslots
    split at h
    · simp at h
    · rename_i file opened hopen
      obtain ⟨_, hname, hpageSize, hcontent⟩ := Storage.openFile_eq_ok hopen
      simp only [Except.ok.injEq, Prod.mk.injEq] at h
      obtain ⟨rfl, rfl⟩ := h
      exact ⟨⟨rfl, ⟨slots, hslots⟩, hpageSize⟩, rfl, hname, hcontent⟩

end HeapFile

/-- Every table is registered under its number with a heap file that fits the catalog. -/
structure Catalog.Sound (catalog : Catalog) : Prop where
  pageSize : catalog.pageSize ≠ 0
  fits : ∀ table heap, catalog.heapFile table = .ok heap → heap.Fits table catalog.pageSize

namespace Catalog

variable {catalog after : Catalog} {storage : Storage} {table : TableId} {heap : HeapFile}

/-- The heap file of a table is the one that it is registered with. -/
theorem heapFile_eq_ok_iff :
    catalog.heapFile table = .ok heap ↔
      ∃ info, catalog.tables[table]? = some info ∧ info.heap = heap := by
  simp only [heapFile, info]
  cases catalog.tables[table]? with
  | none => simp [Except.map]
  | some info => simp [Except.map]

/-- Handing out a number keeps a catalog sound. -/
theorem Sound.allocate (hsound : catalog.Sound) : catalog.allocate.2.Sound :=
  ⟨hsound.pageSize, hsound.fits⟩

/-- What registering a heap file checks and does. -/
theorem add_eq_ok {name : String} {primaryKey : Option String}
    (h : catalog.add heap name primaryKey = .ok after) :
    heap.file.pageSize = catalog.pageSize ∧
      (∀ key, primaryKey = some key → ∃ column ∈ heap.schema.columns, column.name = key) ∧
      after = { catalog with
        tables := (catalog.tables.filter fun _ (info : TableInfo) => info.name ≠ name).insert
          heap.table ⟨name, heap, primaryKey⟩
        nextTable := max catalog.nextTable heap.table.after } := by
  simp only [add] at h
  split at h
  · simp at h
  · rename_i hsize
    split at h
    · simp at h
    · rename_i hkey
      simp only [Except.ok.injEq] at h
      refine ⟨Decidable.not_not.mp hsize, ?_, h.symm⟩
      rintro key rfl
      rw [Option.filter_eq_none_iff] at hkey
      rw [← Schema.isSome_columnIndex?_iff]
      simpa [Option.isSome_iff_ne_none] using hkey key rfl

/-- A heap file with pages of the common size can be registered, with one of its columns as the
key. -/
theorem exists_add {primaryKey : Option String} (name : String)
    (hsize : heap.file.pageSize = catalog.pageSize)
    (hkey : ∀ key, primaryKey = some key → ∃ column ∈ heap.schema.columns, column.name = key) :
    ∃ after, catalog.add heap name primaryKey = .ok after := by
  have hnone : primaryKey.filter (fun key => (heap.schema.columnIndex? key).isNone) = none := by
    rw [Option.filter_eq_none_iff]
    intro key hprimary
    have hindex := Schema.isSome_columnIndex?_iff.mpr (hkey key hprimary)
    simpa [Option.isSome_iff_ne_none] using hindex
  unfold add
  rw [if_neg (not_not_intro hsize), hnone]
  exact ⟨_, rfl⟩

/-- The tables after one was registered: it has taken the place of a table with its number, and
the table that had its name is gone. -/
theorem getElem?_tables_add {name : String} {primaryKey : Option String}
    (h : catalog.add heap name primaryKey = .ok after) (other : TableId) :
    after.tables[other]? = if heap.table = other then some ⟨name, heap, primaryKey⟩
      else catalog.tables[other]?.filter fun info => info.name ≠ name := by
  obtain ⟨_, _, rfl⟩ := add_eq_ok h
  simp only [Std.ExtTreeMap.getElem?_insert, Std.compare_eq_iff_eq]
  split
  · rfl
  · rw [Std.ExtTreeMap.getElem?_filter, Option.pfilter_eq_filter]

/-- What registering a heap file does to the heap file of each table. -/
theorem heapFile_of_add {name : String} {primaryKey : Option String}
    (h : catalog.add heap name primaryKey = .ok after) :
    heap.file.pageSize = catalog.pageSize ∧ after.pageSize = catalog.pageSize ∧
      after.heapFile heap.table = .ok heap ∧
      ∀ other found, after.heapFile other = .ok found →
        other = heap.table ∧ found = heap ∨ catalog.heapFile other = .ok found := by
  obtain ⟨hsize, _, hafter⟩ := add_eq_ok h
  refine ⟨hsize, by rw [hafter], ?_, ?_⟩
  · rw [heapFile_eq_ok_iff]
    exact ⟨_, by rw [getElem?_tables_add h, if_pos rfl], rfl⟩
  · intro other found hfound
    rw [heapFile_eq_ok_iff] at hfound
    obtain ⟨info, hinfo, rfl⟩ := hfound
    rw [getElem?_tables_add h] at hinfo
    split at hinfo
    · rename_i heq
      simp only [Option.some.injEq] at hinfo
      subst hinfo
      exact .inl ⟨heq.symm, rfl⟩
    · rw [Option.filter_eq_some_iff] at hinfo
      exact .inr (heapFile_eq_ok_iff.mpr ⟨info, hinfo.1, rfl⟩)

/-- Registering a heap file that fits keeps a catalog sound. -/
theorem Sound.add (hsound : catalog.Sound) {name : String} {primaryKey : Option String}
    (hfits : ∃ pageSize, heap.Fits table pageSize)
    (h : catalog.add heap name primaryKey = .ok after) : after.Sound := by
  obtain ⟨pageSize, hfits⟩ := hfits
  obtain ⟨hsize, hpageSize, _, hheaps⟩ := heapFile_of_add h
  refine ⟨hpageSize ▸ hsound.pageSize, ?_⟩
  intro other found hfound
  rw [hpageSize]
  rcases hheaps other found hfound with ⟨rfl, rfl⟩ | hkept
  · have hshared : pageSize = catalog.pageSize := hfits.pageSize.symm.trans hsize
    exact ⟨rfl, hshared ▸ hfits.slots, hsize⟩
  · exact hsound.fits other found hkept

end Catalog

namespace Catalog

/-- No two registered tables keep their pages in the same file. -/
def FilesApart (catalog : Catalog) : Prop :=
  ∀ {a b : TableId} {first second : HeapFile}, catalog.heapFile a = .ok first →
    catalog.heapFile b = .ok second → first.file.name = second.file.name → a = b

/-- Whether tables share a file can be seen from the list of tables. -/
theorem filesApart_iff {catalog : Catalog} :
    catalog.FilesApart ↔ ∀ first ∈ catalog.tables.toList, ∀ second ∈ catalog.tables.toList,
      first.2.heap.file.name = second.2.heap.file.name → first.1 = second.1 := by
  constructor
  · intro hapart first hfirst second hsecond hname
    rw [Std.ExtTreeMap.mem_toList_iff_getElem?_eq_some] at hfirst hsecond
    exact hapart (heapFile_eq_ok_iff.mpr ⟨first.2, hfirst, rfl⟩)
      (heapFile_eq_ok_iff.mpr ⟨second.2, hsecond, rfl⟩) hname
  · intro hlist a b first second hfirst hsecond hname
    obtain ⟨info, hinfo, rfl⟩ := heapFile_eq_ok_iff.mp hfirst
    obtain ⟨other, hother, rfl⟩ := heapFile_eq_ok_iff.mp hsecond
    exact hlist (a, info) (Std.ExtTreeMap.mem_toList_iff_getElem?_eq_some.mpr hinfo)
      (b, other) (Std.ExtTreeMap.mem_toList_iff_getElem?_eq_some.mpr hother) hname

instance (catalog : Catalog) : Decidable catalog.FilesApart :=
  decidable_of_iff' _ filesApart_iff

/-- The layout that a catalog describes. -/
def layout (catalog : Catalog) (hapart : catalog.FilesApart) : Layout where
  pageSize := catalog.pageSize
  fileOf table := match catalog.heapFile table with
    | .error _ => none
    | .ok heap => some heap.file.name
  separate {a b name} ha hb := by
    split at ha
    · simp at ha
    · rename_i first hfirst
      split at hb
      · simp at hb
      · rename_i second hsecond
        simp only [Option.some.injEq] at ha hb
        exact hapart hfirst hsecond (ha.trans hb.symm)

variable {catalog : Catalog} (hapart : catalog.FilesApart)

/-- The layout that a sound catalog describes names the page files of its tables. -/
theorem locates_layout (hsound : catalog.Sound) {table : TableId} {heap : HeapFile}
    (hheap : catalog.heapFile table = .ok heap) :
    (catalog.layout hapart).Locates table heap.file :=
  ⟨by simp only [layout, hheap], (hsound.fits table heap hheap).pageSize⟩

/-- What a page holds on disk, in the layout that the catalog describes. -/
theorem bytes_layout (hsound : catalog.Sound) {db : Database} (hdb : db.catalog = catalog)
    (page : PageId) : (catalog.layout hapart).bytes db.storage page = db.onDisk page := by
  subst hdb
  simp only [Layout.bytes, layout, Database.onDisk]
  cases hheap : db.catalog.heapFile page.table with
  | error error => rfl
  | ok heap =>
      simp only [Storage.bytes, (hsound.fits page.table heap hheap).pageSize]

end Catalog

/-- A change of a catalog and of the storage that can be made while pages are in use: the catalog
stays sound, and no file has other contents. -/
structure Harmless (catalog : Catalog) (storage : Storage) (after : Catalog)
    (touched : Storage) : Prop where
  sound : catalog.Sound → after.Sound
  pageSize : after.pageSize = catalog.pageSize
  content : ∀ name, touched.directory.content name = storage.directory.content name

namespace Harmless

variable {catalog middle after : Catalog} {storage written touched : Storage}

theorem refl : Harmless catalog storage catalog storage := ⟨id, rfl, fun _ => rfl⟩

theorem trans (hfirst : Harmless catalog storage middle written)
    (hsecond : Harmless middle written after touched) :
    Harmless catalog storage after touched where
  sound := hsecond.sound ∘ hfirst.sound
  pageSize := hsecond.pageSize.trans hfirst.pageSize
  content name := (hsecond.content name).trans (hfirst.content name)

/-- Creating a table is harmless, whether it succeeds or not. -/
theorem create (catalog : Catalog) (storage : Storage) (name : String) (schema : Schema)
    (path : String) (primaryKey : Option String) :
    Harmless catalog storage (catalog.create storage name schema path primaryKey).2.1
      (catalog.create storage name schema path primaryKey).2.2 := by
  have hallocate : Harmless catalog storage catalog.allocate.2 storage :=
    ⟨Catalog.Sound.allocate, rfl, fun _ => rfl⟩
  simp only [Catalog.create]
  split
  · exact hallocate
  · rename_i heap opened hopen
    obtain ⟨hfits, _, _, hcontent⟩ := HeapFile.openAt_eq_ok hopen
    split
    · exact ⟨hallocate.sound, rfl, hcontent⟩
    · rename_i added hadd
      exact ⟨fun hsound => hsound.allocate.add ⟨_, hfits⟩ hadd,
        (Catalog.heapFile_of_add hadd).2.1, hcontent⟩

/-- Loading a schema file is harmless, wherever it stops. -/
theorem loadLines (folder : String) (lines : List (Nat × List Char)) (catalog : Catalog)
    (storage : Storage) :
    Harmless catalog storage (catalog.loadLines storage folder lines).2.1
      (catalog.loadLines storage folder lines).2.2 := by
  induction lines generalizing catalog storage with
  | nil => exact refl
  | cons line rest ih =>
      obtain ⟨number, line⟩ := line
      simp only [Catalog.loadLines]
      split
      · exact refl
      · rename_i described schema _
        have hcreate := create catalog storage described.name schema
          (SchemaFile.dataPath folder described.name) described.primaryKey
        split
        · rename_i error created opened heq
          rw [heq] at hcreate
          exact hcreate
        · rename_i table created opened heq
          rw [heq] at hcreate
          have hrest := hcreate.trans (ih created opened)
          split <;> rename_i hload <;> rw [hload] at hrest <;> exact hrest

end Harmless

namespace Database

/-- A change of the catalog changes nothing but the catalog and the storage, and is harmless. -/
theorem changeCatalog_eq (db : Database) (change : CatalogChange) :
    ∃ catalog storage, db.changeCatalog change = { db with catalog, storage } ∧
      Harmless db.catalog db.storage catalog storage := by
  cases change with
  | create name schema path primaryKey =>
      exact ⟨_, _, rfl, .create db.catalog db.storage name schema path primaryKey⟩
  | add table name schema path pageSize primaryKey =>
      simp only [changeCatalog, addTable]
      split
      · exact ⟨db.catalog, db.storage, rfl, .refl⟩
      · rename_i heap opened hopen
        obtain ⟨hfits, _, _, hcontent⟩ := HeapFile.openAt_eq_ok hopen
        split
        · exact ⟨db.catalog, opened, rfl, id, rfl, hcontent⟩
        · rename_i added hadd
          exact ⟨added, opened, rfl, fun hsound => hsound.add ⟨_, hfits⟩ hadd,
            (Catalog.heapFile_of_add hadd).2.1, hcontent⟩
  | load path =>
      simp only [changeCatalog, loadSchema, Catalog.loadSchema]
      split
      · exact ⟨db.catalog, db.storage, rfl, .refl⟩
      · exact ⟨_, _, rfl, .loadLines _ _ db.catalog db.storage⟩
  | clear =>
      refine ⟨db.catalog.clear, db.storage, rfl, fun hsound => ⟨hsound.pageSize, ?_⟩, rfl,
        fun _ => rfl⟩
      intro table heap hheap
      rw [Catalog.heapFile_eq_ok_iff] at hheap
      obtain ⟨info, hinfo, _⟩ := hheap
      simp [Catalog.clear] at hinfo

/-- A database that was opened has a sound catalog, and no page of it is in use. -/
theorem Opened.sound {db : Database} (h : Opened db) :
    db.catalog.Sound ∧ db.cache.frames = ∅ ∧ db.journal = ∅ ∧ db.locks = {} := by
  induction h with
  | @create config storage db h =>
      cases hvalid : config.validate with
      | error error => simp [Database.create, hvalid, bind, Except.bind] at h
      | ok _ =>
          simp only [Database.create, hvalid, bind, Except.bind, Cache.forCatalog, ne_eq,
            not_true_eq_false, if_false, pure, Except.pure, Except.ok.injEq] at h
          subst h
          refine ⟨⟨?_, ?_⟩, rfl, rfl, rfl⟩
          · simp only [Config.validate] at hvalid
            split at hvalid
            · simp at hvalid
            · assumption
          · intro table heap hheap
            rw [Catalog.heapFile_eq_ok_iff] at hheap
            obtain ⟨info, hinfo, _⟩ := hheap
            simp at hinfo
  | @change db change _ ih =>
      obtain ⟨hsound, hframes, hjournal, hlocks⟩ := ih
      obtain ⟨catalog, storage, hchange, hharmless⟩ := changeCatalog_eq db change
      rw [hchange]
      exact ⟨hharmless.sound hsound, hframes, hjournal, hlocks⟩

end Database

end RowStore
