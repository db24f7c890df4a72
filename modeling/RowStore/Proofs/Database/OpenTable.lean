import RowStore.Proofs.Database.Ended
import RowStore.Proofs.Database.Room

/-!
# Opening a database with one table

`Database.openTable` opens a database and creates its only table over the file at a path. Whether
this succeeds does not depend on what the file holds. If the file consists of pages of rows, nobody
has used them yet and the database shows what the file holds: `OpensTable.legible`.
-/

namespace RowStore

/-- The layout of a database with one table. -/
def Layout.single (pageSize : Nat) (table : TableId) (name : String) : Layout where
  pageSize := pageSize
  fileOf other := if other = table then some name else none
  separate ha hb := by
    split at ha
    · split at hb
      · simp_all
      · simp at hb
    · simp at ha

namespace Catalog

variable {catalog after : Catalog} {storage opened : Storage} {name path : String}
  {schema : Schema} {primaryKey : Option String} {table : TableId}

/-- A table is created if its heap file can be opened and registered. -/
theorem create_eq_ok_iff :
    catalog.create storage name schema path primaryKey = (.ok table, after, opened) ↔
      ∃ heap, table = ⟨catalog.nextTable⟩ ∧
        HeapFile.openAt storage ⟨catalog.nextTable⟩ path schema catalog.pageSize =
          .ok (heap, opened) ∧
        catalog.allocate.2.add heap name primaryKey = .ok after := by
  unfold create
  constructor
  · intro h
    simp only at h
    split at h
    · simp at h
    · rename_i heap found hopen
      split at h
      · simp at h
      · rename_i added hadd
        simp only [Prod.mk.injEq, Except.ok.injEq] at h
        obtain ⟨rfl, rfl, rfl⟩ := h
        exact ⟨heap, rfl, hopen, hadd⟩
  · rintro ⟨heap, rfl, hopen, hadd⟩
    have hopen : HeapFile.openAt storage catalog.allocate.1 path schema
        catalog.allocate.2.pageSize = .ok (heap, opened) := hopen
    simp only [hopen, hadd]
    rfl

/-- Whether a heap file can be opened does not depend on what the file holds. -/
theorem openAt_of_openAt {heap : HeapFile} {pageSize : Nat}
    (h : HeapFile.openAt storage table path schema pageSize = .ok (heap, opened))
    (other : Storage) :
    ∃ found after, HeapFile.openAt other table path schema pageSize = .ok (found, after) ∧
      found.table = heap.table ∧ found.schema = heap.schema ∧
      found.file.pageSize = heap.file.pageSize := by
  unfold HeapFile.openAt at h ⊢
  cases hslots : Page.slotsPerPage pageSize schema.recordWidth with
  | error fault => simp [hslots] at h
  | ok slots =>
      unfold Storage.openFile at h ⊢
      by_cases hsize : pageSize = 0
      · simp only [hslots, if_pos hsize, reduceCtorEq] at h
      · cases hname : Directory.entryName? path with
        | none => simp [hslots, hsize, hname] at h
        | some name =>
            simp only [hslots, if_neg hsize, hname, Except.ok.injEq, Prod.mk.injEq] at h ⊢
            obtain ⟨rfl, _⟩ := h
            exact ⟨_, _, ⟨rfl, rfl⟩, rfl, rfl, rfl⟩

/-- Whether a heap file can be registered does not depend on which file it is. -/
theorem add_of_add {heap found : HeapFile} (h : catalog.add heap name primaryKey = .ok after)
    (hschema : found.schema = heap.schema) (hsize : found.file.pageSize = heap.file.pageSize) :
    ∃ added, catalog.add found name primaryKey = .ok added := by
  obtain ⟨hpageSize, hkey, _⟩ := add_eq_ok h
  exact exists_add name (hsize.trans hpageSize) (hschema ▸ hkey)

end Catalog

namespace Database

/-- Open a database and create its only table, whose rows are kept in the file at the path. -/
def openTable (config : Config) (storage : Storage) (name : String) (schema : Schema)
    (path : String) (primaryKey : Option String) : Except Error (TableId × Database) :=
  match create config storage with
  | .error error => .error error
  | .ok db =>
      match db.createTable name schema path primaryKey with
      | (.error error, _) => .error error
      | (.ok table, db) => .ok (table, db)

/-- The database has just been opened, with one table. -/
structure OpensTable (config : Config) (storage : Storage) (schema : Schema) (path : String)
    (table : TableId) (heap : HeapFile) (db : Database) : Prop where
  opened : db.Opened
  registered : db.catalog.heapFile table = .ok heap
  only : ∀ other found, db.catalog.heapFile other = .ok found → other = table
  fits : heap.Fits table config.pageSize
  schema : heap.schema = schema
  name : Directory.entryName? path = some heap.file.name
  content : ∀ name, db.storage.directory.content name = storage.directory.content name
  cache : db.cache = { capacity := config.capacity }

variable {config : Config} {storage : Storage} {name path : String} {schema : Schema}
  {primaryKey : Option String} {table : TableId} {db : Database}

/-- A database is created if its settings can be used, without a table and with an empty cache. -/
theorem create_eq_ok_iff :
    create config storage = .ok db ↔ config.validate = .ok () ∧
      db = ⟨config, storage, { pageSize := config.pageSize }, { capacity := config.capacity },
        {}, ∅⟩ := by
  cases hvalid : config.validate with
  | error error => simp [create, hvalid, bind, Except.bind]
  | ok _ =>
      simp only [create, hvalid, bind, Except.bind, Cache.forCatalog, ne_eq, not_true_eq_false,
        if_false, pure, Except.pure, Except.ok.injEq, true_and]
      exact eq_comm

/-- A database with one table is opened if its settings can be used and the table can be created. -/
theorem openTable_eq_ok_iff :
    openTable config storage name schema path primaryKey = .ok (table, db) ↔
      config.validate = .ok () ∧ ∃ catalog opened,
        Catalog.create { pageSize := config.pageSize } storage name schema path primaryKey =
          (.ok table, catalog, opened) ∧
        db = ⟨config, opened, catalog, { capacity := config.capacity }, {}, ∅⟩ := by
  unfold openTable
  constructor
  · intro h
    split at h
    · simp at h
    · rename_i fresh hcreate
      obtain ⟨hvalid, rfl⟩ := create_eq_ok_iff.mp hcreate
      rcases hcreated : Catalog.create { pageSize := config.pageSize } storage name schema path
        primaryKey with ⟨answer, catalog, opened⟩
      unfold createTable at h
      simp only [hcreated] at h
      cases answer with
      | error error => simp at h
      | ok created =>
          simp only [Except.ok.injEq, Prod.mk.injEq] at h
          obtain ⟨rfl, rfl⟩ := h
          exact ⟨hvalid, catalog, opened, rfl, rfl⟩
  · rintro ⟨hvalid, catalog, opened, hcreated, rfl⟩
    rw [create_eq_ok_iff.mpr ⟨hvalid, rfl⟩]
    unfold createTable
    simp only [hcreated]

/-- What a database is that was opened with one table. -/
theorem openTable_opens
    (h : openTable config storage name schema path primaryKey = .ok (table, db)) :
    ∃ heap, OpensTable config storage schema path table heap db := by
  obtain ⟨hvalid, catalog, opened, hcreated, rfl⟩ := openTable_eq_ok_iff.mp h
  have hopened : Opened ⟨config, opened, catalog, { capacity := config.capacity }, {}, ∅⟩ := by
    have hchange := Opened.change (.create name schema path primaryKey)
      (.create (create_eq_ok_iff.mpr ⟨hvalid, rfl⟩ : create config storage = _))
    unfold changeCatalog createTable at hchange
    simp only [hcreated] at hchange
    exact hchange
  obtain ⟨heap, rfl, hopen, hadd⟩ := Catalog.create_eq_ok_iff.mp hcreated
  obtain ⟨hfits, hschema, hname, hcontent⟩ := HeapFile.openAt_eq_ok hopen
  obtain ⟨_, _, hregistered, hheaps⟩ := Catalog.heapFile_of_add hadd
  rw [hfits.table] at hregistered hheaps
  refine ⟨heap, hopened, hregistered, ?_, hfits, hschema, hname, hcontent,
    rfl⟩
  intro other found hfound
  rcases hheaps other found hfound with ⟨hsame, _⟩ | hearlier
  · exact hsame
  · rw [Catalog.heapFile_eq_ok_iff] at hearlier
    obtain ⟨info, hinfo, _⟩ := hearlier
    simp [Catalog.allocate] at hinfo

/-- Whether a table can be opened depends neither on the files nor on how many pages the cache may
hold. -/
theorem openTable_of_openTable
    (h : openTable config storage name schema path primaryKey = .ok (table, db)) {other : Config}
    (hsize : other.pageSize = config.pageSize) (hcapacity : other.capacity ≠ 0)
    (files : Storage) :
    ∃ db, openTable other files name schema path primaryKey = .ok (table, db) := by
  obtain ⟨hvalid, catalog, opened, hcreated, _⟩ := openTable_eq_ok_iff.mp h
  obtain ⟨heap, htable, hopen, hadd⟩ := Catalog.create_eq_ok_iff.mp hcreated
  obtain ⟨found, after, hopen', _, hschema, hfile⟩ := Catalog.openAt_of_openAt hopen files
  obtain ⟨added, hadd'⟩ := Catalog.add_of_add hadd hschema hfile
  have hvalid' : other.validate = .ok () := by
    unfold Config.validate at hvalid ⊢
    rw [hsize]
    split at hvalid
    · simp at hvalid
    · rename_i hpageSize
      rw [if_neg hpageSize, if_neg hcapacity]
  refine ⟨_, openTable_eq_ok_iff.mpr ⟨hvalid', added, after, ?_, rfl⟩⟩
  rw [hsize]
  exact Catalog.create_eq_ok_iff.mpr ⟨found, htable, hopen', hadd'⟩

variable {heap : HeapFile} {slots : Nat}

/-- Whoever comes first has a table to itself that was just opened over a file of whole pages. -/
theorem OpensTable.solo (hopens : OpensTable config storage schema path table heap db)
    (hwhole : (storage.directory.content heap.file.name).length % config.pageSize = 0)
    (txn : TxnId) :
    db.Solo (.single config.pageSize table heap.file.name) heap txn := by
  obtain ⟨_, hframes, _, hlocks⟩ := hopens.opened.sound
  have hkeeps : Session.KeepsTo { db } (.single config.pageSize table heap.file.name) := by
    intro other found hfound
    have hsame := hopens.only other found hfound
    subst hsame
    rw [show db.catalog.heapFile other = .ok heap from hopens.registered, Except.ok.injEq] at hfound
    subst hfound
    exact ⟨if_pos rfl, hopens.fits.pageSize⟩
  have htable : heap.table = table := hopens.fits.table
  refine ⟨(Session.orderly_of_opened hopens.opened hkeeps).2, hopens.opened.intact,
    htable ▸ hopens.registered, htable ▸ hopens.only, ?_, ?_, ?_, ?_⟩
  · intro other hother
    exact if_neg (htable ▸ hother)
  · intro page holder mode h
    rw [hlocks] at h
    cases mode <;> simp [LockTable.lockOf, LockState.holds] at h
  · intro page resident h
    simp [hframes] at h
  · show (db.storage.directory.content heap.file.name).length % heap.file.pageSize = 0
    rw [hopens.content, hopens.fits.pageSize]
    exact hwhole

/-- A database that was just opened over a file of pages of rows shows what the file holds. -/
theorem OpensTable.legible (hopens : OpensTable config storage schema path table heap db)
    (hgeometry : Page.slotsPerPage config.pageSize schema.recordWidth = .ok slots)
    (hwhole : (storage.directory.content heap.file.name).length % config.pageSize = 0)
    {held : PageId → Bytes}
    (hheld : ∀ page, (Layout.single config.pageSize table heap.file.name).bytes storage page =
      held page)
    (hreadable : ∀ page, ReadableIn schema (held page)) (txn : TxnId) :
    db.Legible (.single config.pageSize table heap.file.name) heap slots txn ∧
      db.sheet (.single config.pageSize table heap.file.name) heap =
        ⟨heap.pageCount storage, fun place => valuesIn schema (held place.page) place,
          fun place => valuesIn schema (held place.page) place⟩ := by
  obtain ⟨_, hframes, hjournal, hlocks⟩ := hopens.opened.sound
  have hcontents : ∀ page,
      (Layout.single config.pageSize table heap.file.name).contentOf db page = held page ∧
      (Layout.single config.pageSize table heap.file.name).settled db page = held page := by
    intro page
    rw [← hheld, ← Layout.bytes_congr hopens.content]
    apply Layout.contents_of_absent
    · simp [hframes]
    · simp [hjournal]
  have hcalm : db.Calm := by
    refine ⟨?_, fun page => ?_⟩
    · rw [hopens.cache]
      exact Cache.accounted_empty _
    · rw [hlocks]
      rfl
  refine ⟨⟨hopens.solo hwhole txn, hcalm, ?_, ?_, ?_⟩, ?_⟩
  · rw [hopens.fits.pageSize, hopens.schema]
    exact hgeometry
  · intro page
    rw [(hcontents page).1, hopens.schema]
    exact hreadable page
  · intro page
    rw [(hcontents page).2, hopens.schema]
    exact hreadable page
  · unfold Database.sheet HeapFile.pageCount Storage.pageCount Storage.bytes
    simp only [(hcontents _).1, (hcontents _).2, hopens.content, hopens.schema]

end Database

end RowStore
