import Mathlib.Data.Set.Insert
import RowStore.Proofs.Session.Undo

/-!
# Tables keep to their numbers and names

A catalog is changed by calls that hand out numbers, register tables under numbers of their own or
under numbers that were chosen by hand, load schema files, and forget every table. Whatever the
calls and whether they succeed, each table that is registered stands under the number of its heap
file, has pages of the size that all tables share and a primary key among its columns, and no two
of them have the same name, so that tables can be looked up by their names.

Numbers count up from the greatest number that the catalog has seen, and have 32 bits. So a number
that is handed out is fresh as long as the greatest of all numbers has not been taken.
-/

namespace RowStore

/-- The greatest number that a table can have. -/
def TableId.greatest : TableId := ⟨UInt32.size - 1⟩

/-- A call that changes a catalog. -/
inductive CatalogCall where
  | allocate
  | add (heap : HeapFile) (name : String) (primaryKey : Option String)
  | create (name : String) (schema : Schema) (path : String) (primaryKey : Option String)
  | load (path : String)
  | clear
deriving DecidableEq

namespace CatalogCall

/-- The call registers tables under numbers that were chosen by hand only below the greatest one. -/
def Admissible : CatalogCall → Prop
  | .add heap _ _ => heap.table.number < TableId.greatest.number
  | _ => True

instance : DecidablePred Admissible
  | .add heap _ _ => inferInstanceAs (Decidable (heap.table.number < _))
  | .allocate | .create .. | .load _ | .clear => isTrue trivial

end CatalogCall

namespace Catalog

/-- Let a call happen, and tell the numbers that it answers. -/
def perform (catalog : Catalog) (storage : Storage) :
    CatalogCall → Except Error (List TableId) × Catalog
  | .allocate =>
      let (table, catalog) := catalog.allocate
      (.ok [table], catalog)
  | .add heap name primaryKey =>
      match catalog.add heap name primaryKey with
      | .error error => (.error error, catalog)
      | .ok after => (.ok [heap.table], after)
  | .create name schema path primaryKey =>
      let (answer, catalog, _) := catalog.create storage name schema path primaryKey
      (answer.map fun table => [table], catalog)
  | .load path =>
      let (answer, catalog, _) := catalog.loadSchema storage path
      (answer, catalog)
  | .clear => (.ok [], catalog.clear)

/-- The numbers that are taken when the tables of these lines are created. The last one is taken in
vain if its table cannot be created. -/
def takenByLines (catalog : Catalog) (storage : Storage) (folder : String) :
    List (Nat × List Char) → List TableId
  | [] => []
  | (_, line) :: rest =>
      match SchemaFile.readLine line with
      | .error _ => []
      | .ok (described, schema) =>
          catalog.allocate.1 ::
            match catalog.create storage described.name schema
              (SchemaFile.dataPath folder described.name) described.primaryKey with
            | (.error _, _, _) => []
            | (.ok _, catalog, storage) => takenByLines catalog storage folder rest

end Catalog

/-- A call, with the catalog and the files that it finds. -/
structure CatalogMoment where
  catalog : Catalog
  storage : Storage
  call : CatalogCall

namespace CatalogMoment

/-- What the call answers. -/
def answer (moment : CatalogMoment) : Except Error (List TableId) :=
  (moment.catalog.perform moment.storage moment.call).1

/-- The catalog after the call. -/
def after (moment : CatalogMoment) : Catalog :=
  (moment.catalog.perform moment.storage moment.call).2

/-- The numbers that the call takes, in order. It hands them out, except for the number of a table
that cannot be created. -/
def taken (moment : CatalogMoment) : List TableId :=
  match moment.call with
  | .allocate | .create .. => [moment.catalog.allocate.1]
  | .load path =>
      match Catalog.readText moment.storage path with
      | none => []
      | some text => moment.catalog.takenByLines moment.storage (SchemaFile.folderOf path)
          (SchemaFile.numberedLines text)
  | .add .. | .clear => []

end CatalogMoment

/-- The runs of a catalog, from an empty one, with their histories. The files may be any at each
call. -/
inductive Catalog.Run (pageSize : Nat) : List CatalogMoment → Catalog → Prop where
  | start : Run pageSize [] { pageSize }
  | step {history : List CatalogMoment} {catalog : Catalog} {call : CatalogCall}
      (storage : Storage) : Run pageSize history catalog → call.Admissible →
      Run pageSize (history ++ [⟨catalog, storage, call⟩]) (catalog.perform storage call).2

namespace Catalog

/-- The next number is taken, and a table may be registered under it. -/
def TakesNext (catalog after : Catalog) : Prop :=
  after = catalog.allocate.2 ∨ ∃ heap name primaryKey, heap.table = catalog.allocate.1 ∧
    catalog.allocate.2.add heap name primaryKey = .ok after

/-- These numbers are taken one after the other. -/
inductive Takes : Catalog → List TableId → Catalog → Prop where
  | nil {catalog : Catalog} : Takes catalog [] catalog
  | cons {catalog middle after : Catalog} {taken : List TableId} :
      catalog.TakesNext middle → Takes middle taken after →
      Takes catalog (catalog.allocate.1 :: taken) after

variable {catalog after : Catalog} {storage : Storage} {heap : HeapFile} {name : String}
  {primaryKey : Option String} {taken : List TableId} {table : TableId}

/-- What creating a table answers and leaves of the catalog, whether it succeeds or not. -/
theorem create_cases (catalog : Catalog) (storage : Storage) (name : String) (schema : Schema)
    (path : String) (primaryKey : Option String) :
    (∃ error, (catalog.create storage name schema path primaryKey).1 = .error error ∧
        (catalog.create storage name schema path primaryKey).2.1 = catalog.allocate.2) ∨
      (catalog.create storage name schema path primaryKey).1 = .ok catalog.allocate.1 ∧
        catalog.TakesNext (catalog.create storage name schema path primaryKey).2.1 := by
  simp only [create]
  split
  · exact .inl ⟨_, rfl, rfl⟩
  · rename_i heap opened hopen
    split
    · exact .inl ⟨_, rfl, rfl⟩
    · rename_i added hadd
      exact .inr ⟨rfl, .inr ⟨heap, name, primaryKey, (HeapFile.openAt_eq_ok hopen).1.table, hadd⟩⟩

/-- Creating a table takes the next number. -/
theorem takesNext_create (catalog : Catalog) (storage : Storage) (name : String) (schema : Schema)
    (path : String) (primaryKey : Option String) :
    catalog.TakesNext (catalog.create storage name schema path primaryKey).2.1 := by
  rcases create_cases catalog storage name schema path primaryKey with
    ⟨_, _, hafter⟩ | ⟨_, htakes⟩
  · exact .inl hafter
  · exact htakes

/-- The number of a table that was created is the one that was taken. -/
theorem eq_allocate_of_create {schema : Schema} {path : String}
    (h : (catalog.create storage name schema path primaryKey).1 = .ok table) :
    table = catalog.allocate.1 := by
  rcases create_cases catalog storage name schema path primaryKey with
    ⟨_, hanswer, _⟩ | ⟨hanswer, _⟩
  · simp [hanswer] at h
  · simpa [hanswer, eq_comm] using h

/-- Loading a schema file takes numbers one after the other, and if all of its tables can be created
it answers these numbers. -/
theorem loadLines_takes (catalog : Catalog) (storage : Storage) (folder : String)
    (lines : List (Nat × List Char)) :
    Takes catalog (catalog.takenByLines storage folder lines)
        (catalog.loadLines storage folder lines).2.1 ∧
      ∀ tables, (catalog.loadLines storage folder lines).1 = .ok tables →
        tables = catalog.takenByLines storage folder lines := by
  induction lines generalizing catalog storage with
  | nil => exact ⟨.nil, fun tables h => by simpa [loadLines, takenByLines, eq_comm] using h⟩
  | cons line rest ih =>
      obtain ⟨number, line⟩ := line
      cases hread : SchemaFile.readLine line with
      | error fault =>
          simp only [loadLines, takenByLines, hread]
          exact ⟨.nil, fun tables h => by simp at h⟩
      | ok described =>
          obtain ⟨described, schema⟩ := described
          cases hcreate : catalog.create storage described.name schema
              (SchemaFile.dataPath folder described.name) described.primaryKey with
          | mk answer left =>
              obtain ⟨middle, opened⟩ := left
              have hmiddle : catalog.TakesNext middle := by
                have htakes := catalog.takesNext_create storage described.name schema
                  (SchemaFile.dataPath folder described.name) described.primaryKey
                rwa [hcreate] at htakes
              cases answer with
              | error error =>
                  simp only [loadLines, takenByLines, hread, hcreate]
                  exact ⟨.cons hmiddle .nil, fun tables h => by simp at h⟩
              | ok table =>
                  have htable : table = catalog.allocate.1 :=
                    eq_allocate_of_create (congrArg Prod.fst hcreate)
                  obtain ⟨hrest, hanswer⟩ := ih middle opened
                  simp only [loadLines, takenByLines, hread, hcreate]
                  cases hload : middle.loadLines opened folder rest with
                  | mk answer left =>
                      rw [hload] at hrest hanswer
                      cases answer with
                      | error error => exact ⟨.cons hmiddle hrest, fun tables h => by simp at h⟩
                      | ok loaded =>
                          refine ⟨.cons hmiddle hrest, fun tables h => ?_⟩
                          rw [← hanswer loaded rfl, ← htable]
                          exact (Except.ok.inj h).symm

/-- Each number that is taken is the next one when it is taken. -/
theorem Takes.exists_allocate {before later : List TableId}
    (h : Takes catalog (before ++ table :: later) after) :
    ∃ middle, Takes catalog before middle ∧ table = middle.allocate.1 := by
  induction before generalizing catalog with
  | nil =>
      cases h with
      | cons hnext hrest => exact ⟨catalog, .nil, rfl⟩
  | cons first before ih =>
      cases h with
      | cons hnext hrest =>
          obtain ⟨middle, hmiddle, htable⟩ := ih hrest
          exact ⟨middle, .cons hnext hmiddle, htable⟩

/-- Every table is registered under the number of its heap file, with pages of the size that all
tables share, a primary key among its columns, and a name of its own. -/
structure Consistent (catalog : Catalog) : Prop where
  number : ∀ {table : TableId} {info : TableInfo}, catalog.tables[table]? = some info →
    info.heap.table = table
  pageSize : ∀ {table : TableId} {info : TableInfo}, catalog.tables[table]? = some info →
    info.heap.file.pageSize = catalog.pageSize
  primaryKey : ∀ {table : TableId} {info : TableInfo}, catalog.tables[table]? = some info →
    ∀ key, info.primaryKey = some key → ∃ column ∈ info.heap.schema.columns, column.name = key
  name : ∀ {first second : TableId} {a b : TableInfo}, catalog.tables[first]? = some a →
    catalog.tables[second]? = some b → a.name = b.name → first = second

/-- A catalog without tables is consistent. -/
theorem Consistent.of_empty (h : catalog.tables = ∅) : catalog.Consistent := by
  constructor <;> simp [h]

/-- Handing out a number keeps a catalog consistent. -/
theorem Consistent.allocate (hconsistent : catalog.Consistent) : catalog.allocate.2.Consistent :=
  ⟨hconsistent.number, hconsistent.pageSize, hconsistent.primaryKey, hconsistent.name⟩

/-- Registering a table keeps a catalog consistent. Of the tables that stay, none has its number
and none has its name. -/
theorem Consistent.add (hconsistent : catalog.Consistent)
    (h : catalog.add heap name primaryKey = .ok after) : after.Consistent := by
  obtain ⟨hsize, hkey, hafter⟩ := add_eq_ok h
  have hpageSize : after.pageSize = catalog.pageSize := by rw [hafter]
  have hcases : ∀ {other info}, after.tables[other]? = some info →
      heap.table = other ∧ info = ⟨name, heap, primaryKey⟩ ∨
        catalog.tables[other]? = some info ∧ info.name ≠ name := by
    intro other info hinfo
    rw [getElem?_tables_add h] at hinfo
    split at hinfo
    · rename_i hsame
      exact .inl ⟨hsame, (Option.some.inj hinfo).symm⟩
    · exact .inr (by simpa [Option.filter_eq_some_iff] using hinfo)
  refine ⟨?_, ?_, ?_, ?_⟩
  · intro other info hinfo
    rcases hcases hinfo with ⟨hsame, rfl⟩ | ⟨hkept, _⟩
    · exact hsame
    · exact hconsistent.number hkept
  · intro other info hinfo
    rw [hpageSize]
    rcases hcases hinfo with ⟨_, rfl⟩ | ⟨hkept, _⟩
    · exact hsize
    · exact hconsistent.pageSize hkept
  · intro other info hinfo key hprimary
    rcases hcases hinfo with ⟨_, rfl⟩ | ⟨hkept, _⟩
    · exact hkey key hprimary
    · exact hconsistent.primaryKey hkept key hprimary
  · intro first second a b ha hb hname
    rcases hcases ha with ⟨hfirst, rfl⟩ | ⟨hfirst, hother⟩ <;>
      rcases hcases hb with ⟨hsecond, rfl⟩ | ⟨hsecond, hother'⟩
    · exact hfirst.symm.trans hsecond
    · exact absurd hname.symm hother'
    · exact absurd hname hother
    · exact hconsistent.name hfirst hsecond hname

/-- Taking numbers keeps a catalog consistent. -/
theorem Consistent.takes (hconsistent : catalog.Consistent) (h : Takes catalog taken after) :
    after.Consistent := by
  induction h with
  | nil => exact hconsistent
  | cons hnext _ ih =>
      apply ih
      rcases hnext with rfl | ⟨heap, name, primaryKey, _, hadd⟩
      · exact hconsistent.allocate
      · exact hconsistent.allocate.add hadd

/-- Taking numbers keeps the page size. -/
theorem Takes.pageSize (h : Takes catalog taken after) : after.pageSize = catalog.pageSize := by
  induction h with
  | nil => rfl
  | cons hnext _ ih =>
      refine ih.trans ?_
      rcases hnext with rfl | ⟨heap, name, primaryKey, _, hadd⟩
      · rfl
      · exact (heapFile_of_add hadd).2.1

/-- In a consistent catalog, the table with a name is the one that has this name. -/
theorem Consistent.tableNamed_eq_ok_iff (hconsistent : catalog.Consistent) :
    catalog.tableNamed name = .ok table ↔ catalog.tableName table = .ok name := by
  have hname : ∀ {other}, catalog.tableName other = .ok name ↔
      ∃ info, catalog.tables[other]? = some info ∧ info.name = name := by
    intro other
    simp only [tableName, info]
    cases catalog.tables[other]? with
    | none => simp [Except.map]
    | some info => simp [Except.map]
  rw [hname]
  simp only [tableNamed]
  split
  · rename_i hnone
    rw [List.find?_eq_none] at hnone
    simp only [reduceCtorEq, false_iff, not_exists, not_and]
    intro info hinfo
    simpa using hnone (table, info) (Std.ExtTreeMap.mem_toList_iff_getElem?_eq_some.mpr hinfo)
  · rename_i found info hfound
    have hinfo := Std.ExtTreeMap.mem_toList_iff_getElem?_eq_some.mp
      (List.mem_of_find?_eq_some hfound)
    have hsame : info.name = name := by simpa using List.find?_some hfound
    rw [Except.ok.injEq]
    constructor
    · rintro rfl
      exact ⟨info, hinfo, hsame⟩
    · rintro ⟨other, hother, hothername⟩
      exact hconsistent.name hinfo hother (hsame.trans hothername.symm)

/-- The count of a catalog is ahead of the known numbers, among them those of its tables and those
that were taken, unless the greatest number was taken. -/
structure Ahead (catalog : Catalog) (taken : List TableId) (known : Set TableId) : Prop where
  bound : catalog.nextTable < UInt32.size
  registered : ∀ table ∈ catalog.tables, table ∈ known
  counted : ∀ table ∈ taken, table ∈ known
  ahead : TableId.greatest ∉ taken → ∀ table ∈ known, table.number < catalog.nextTable

namespace Ahead

variable {known : Set TableId}

/-- The next number is greater than all known ones, unless the greatest number was taken. -/
theorem fresh_iff (hahead : catalog.Ahead taken known) :
    (∀ table ∈ known, table.number < catalog.allocate.1.number) ↔
      TableId.greatest ∉ taken := by
  constructor
  · intro hfresh htaken
    have hgreatest := hfresh _ (hahead.counted _ htaken)
    have hbound := hahead.bound
    simp only [Catalog.allocate, TableId.greatest] at hgreatest
    omega
  · exact hahead.ahead

/-- It is enough to know the numbers of the tables and those that were taken. -/
theorem mono {fewer : Set TableId} (hahead : catalog.Ahead taken known)
    (hfewer : ∀ table ∈ fewer, table ∈ known)
    (hregistered : ∀ table ∈ catalog.tables, table ∈ fewer)
    (htaken : ∀ table ∈ taken, table ∈ fewer) : catalog.Ahead taken fewer :=
  ⟨hahead.bound, hregistered, htaken,
    fun hgreatest table htable => hahead.ahead hgreatest table (hfewer table htable)⟩

/-- A number is taken. -/
theorem allocate (hahead : catalog.Ahead taken known) : catalog.allocate.2.Ahead
    (taken ++ [catalog.allocate.1]) (known ∪ {catalog.allocate.1}) where
  bound := Nat.mod_lt _ (by decide)
  registered table htable := .inl (hahead.registered table htable)
  counted table htable := by
    simp only [List.mem_append, List.mem_singleton] at htable
    exact htable.imp_left (hahead.counted table)
  ahead hgreatest table htable := by
    simp only [List.mem_append, List.mem_singleton, not_or, Catalog.allocate, TableId.greatest,
      TableId.mk.injEq] at hgreatest
    have hbound := hahead.bound
    have hnext : catalog.allocate.2.nextTable = catalog.nextTable + 1 :=
      Nat.mod_eq_of_lt (by show catalog.nextTable + 1 < _; omega)
    rw [hnext]
    rcases htable with hknown | rfl
    · exact Nat.lt_succ_of_lt (hahead.ahead hgreatest.1 table hknown)
    · exact Nat.lt_succ_self _

/-- A table is registered under a number. -/
theorem add (hahead : catalog.Ahead taken known)
    (hnumber : TableId.greatest ∉ taken → heap.table.number < TableId.greatest.number)
    (h : catalog.add heap name primaryKey = .ok after) :
    after.Ahead taken (known ∪ {heap.table}) := by
  obtain ⟨_, _, hafter⟩ := add_eq_ok h
  have hnext : after.nextTable = max catalog.nextTable heap.table.after := by rw [hafter]
  have hwrapped : heap.table.after < UInt32.size := Nat.mod_lt _ (by decide)
  refine ⟨by have := hahead.bound; omega, ?_,
    fun table htable => .inl (hahead.counted _ htable), ?_⟩
  · intro other hother
    rw [Std.ExtTreeMap.mem_iff_isSome_getElem?, getElem?_tables_add h] at hother
    split at hother
    · rename_i hsame
      exact .inr hsame.symm
    · refine .inl (hahead.registered other ?_)
      rw [Std.ExtTreeMap.mem_iff_isSome_getElem?]
      exact Option.isSome_of_isSome_filter _ _ hother
  · intro hgreatest table htable
    rw [hnext]
    rcases htable with hknown | rfl
    · exact Nat.lt_of_lt_of_le (hahead.ahead hgreatest table hknown) (Nat.le_max_left ..)
    · have hsmall := hnumber hgreatest
      have hcount : heap.table.after = heap.table.number + 1 := by
        refine Nat.mod_eq_of_lt ?_
        simp only [TableId.greatest] at hsmall
        omega
      omega

/-- The next number is taken. -/
theorem takesNext (hahead : catalog.Ahead taken known) (h : catalog.TakesNext after) :
    after.Ahead (taken ++ [catalog.allocate.1]) (known ∪ {catalog.allocate.1}) := by
  rcases h with rfl | ⟨heap, name, primaryKey, htable, hadd⟩
  · exact hahead.allocate
  · have hnumber : TableId.greatest ∉ taken ++ [catalog.allocate.1] →
        heap.table.number < TableId.greatest.number := by
      intro hgreatest
      have hbound := hahead.bound
      simp only [List.mem_append, List.mem_singleton, not_or, Catalog.allocate, TableId.greatest,
        TableId.mk.injEq] at hgreatest
      simp only [htable, Catalog.allocate, TableId.greatest]
      omega
    simpa only [htable, Set.union_assoc, Set.union_self] using hahead.allocate.add hnumber hadd

/-- Numbers are taken one after the other. -/
theorem takes {tables : List TableId} (hahead : catalog.Ahead taken known)
    (h : Takes catalog tables after) :
    after.Ahead (taken ++ tables) (known ∪ {table | table ∈ tables}) := by
  induction h generalizing taken known with
  | nil => simpa using hahead
  | @cons catalog _ _ tables hnext _ ih =>
      have hknown : known ∪ {table | table ∈ catalog.allocate.1 :: tables} =
          known ∪ {catalog.allocate.1} ∪ {table | table ∈ tables} := by
        ext table
        simp [or_assoc, or_left_comm]
      rw [List.append_cons, hknown]
      exact ih (hahead.takesNext hnext)

end Ahead

/-- What a call does to a catalog: it takes numbers, or registers a table under a number that was
chosen by hand, or forgets every table. -/
theorem perform_cases (moment : CatalogMoment) :
    Takes moment.catalog moment.taken moment.after ∨
      moment.taken = [] ∧ (moment.after = moment.catalog.clear ∨
        ∃ heap name primaryKey, moment.call = .add heap name primaryKey ∧
          moment.catalog.add heap name primaryKey = .ok moment.after) := by
  obtain ⟨catalog, storage, call⟩ := moment
  cases call with
  | allocate => exact .inl (.cons (.inl rfl) .nil)
  | create name schema path primaryKey => exact .inl (.cons (takesNext_create ..) .nil)
  | clear => exact .inr ⟨rfl, .inl rfl⟩
  | add heap name primaryKey =>
      simp only [CatalogMoment.after, CatalogMoment.taken, perform]
      cases hadd : catalog.add heap name primaryKey with
      | error error => exact .inl .nil
      | ok after => exact .inr ⟨trivial, .inr ⟨heap, name, primaryKey, rfl, hadd⟩⟩
  | load path =>
      left
      simp only [CatalogMoment.taken, CatalogMoment.after, perform, loadSchema]
      cases readText storage path with
      | none => exact .nil
      | some text => exact (loadLines_takes ..).1

/-- The numbers that a call answers are those that it takes, unless it registers a table under a
number that was chosen by hand. -/
theorem answer_eq_taken {moment : CatalogMoment} {tables : List TableId}
    (h : moment.answer = .ok tables) :
    tables = moment.taken ∨ ∃ heap name primaryKey, moment.call = .add heap name primaryKey := by
  obtain ⟨catalog, storage, call⟩ := moment
  cases call with
  | allocate => exact .inl (Except.ok.inj h).symm
  | clear => exact .inl (Except.ok.inj h).symm
  | add heap name primaryKey => exact .inr ⟨heap, name, primaryKey, rfl⟩
  | create name schema path primaryKey =>
      left
      simp only [CatalogMoment.answer, perform] at h
      cases hcreate : (catalog.create storage name schema path primaryKey).1 with
      | error error => simp [hcreate, Except.map] at h
      | ok table =>
          rw [hcreate] at h
          rw [← Except.ok.inj h, eq_allocate_of_create hcreate]
          rfl
  | load path =>
      left
      cases htext : readText storage path with
      | none => simp [CatalogMoment.answer, perform, loadSchema, htext] at h
      | some text =>
          simp only [CatalogMoment.answer, perform, loadSchema, htext] at h
          simp only [CatalogMoment.taken, htext]
          exact (loadLines_takes ..).2 tables h

/-- A call that fails to register or to create a table leaves the registered tables as they were. -/
theorem tables_of_error {moment : CatalogMoment} {error : Error}
    (h : moment.answer = .error error) (hcall : ∀ path, moment.call ≠ .load path) :
    moment.after.tables = moment.catalog.tables := by
  obtain ⟨catalog, storage, call⟩ := moment
  cases call with
  | allocate => simp [CatalogMoment.answer, perform] at h
  | clear => simp [CatalogMoment.answer, perform] at h
  | load path => exact absurd rfl (hcall path)
  | add heap name primaryKey =>
      simp only [CatalogMoment.answer, CatalogMoment.after, perform] at h ⊢
      cases hadd : catalog.add heap name primaryKey with
      | error error => rfl
      | ok after => simp [hadd] at h
  | create name schema path primaryKey =>
      simp only [CatalogMoment.answer, CatalogMoment.after, perform] at h ⊢
      rcases create_cases catalog storage name schema path primaryKey with
        ⟨_, _, hafter⟩ | ⟨hanswer, _⟩
      · rw [hafter]
        rfl
      · simp [hanswer, Except.map] at h

/-- The numbers that were taken in the course of a history, in order. -/
def takenIn (history : List CatalogMoment) : List TableId :=
  history.flatMap CatalogMoment.taken

/-- The numbers that were taken in the course of a history, and those under which tables were
registered. -/
def seenIn (history : List CatalogMoment) : Set TableId :=
  {table | table ∈ takenIn history ∨ ∃ past ∈ history, table ∈ past.catalog.tables}

/-- Every table is forgotten, and the count goes on. -/
theorem Ahead.clear {known : Set TableId} (hahead : catalog.Ahead taken known) :
    catalog.clear.Ahead taken known :=
  ⟨hahead.bound, by simp [Catalog.clear], hahead.counted, hahead.ahead⟩

/-- Every catalog that is reached is consistent. -/
theorem Run.consistent {pageSize : Nat} {history : List CatalogMoment}
    (hrun : Run pageSize history catalog) : catalog.Consistent := by
  induction hrun with
  | start => exact .of_empty rfl
  | @step history catalog call storage _ _ ih =>
      rcases perform_cases ⟨catalog, storage, call⟩ with
        htakes | ⟨_, hclear | ⟨heap, name, primaryKey, _, hadd⟩⟩
      · exact ih.takes htakes
      · exact .of_empty (congrArg tables hclear)
      · exact ih.add hadd

/-- Every catalog that is reached has the page size of the first one. -/
theorem Run.pageSize_eq {pageSize : Nat} {history : List CatalogMoment}
    (hrun : Run pageSize history catalog) : catalog.pageSize = pageSize := by
  induction hrun with
  | start => rfl
  | @step history catalog call storage _ _ ih =>
      rcases perform_cases ⟨catalog, storage, call⟩ with
        htakes | ⟨_, hclear | ⟨heap, name, primaryKey, _, hadd⟩⟩
      · exact htakes.pageSize.trans ih
      · exact (congrArg Catalog.pageSize hclear).trans ih
      · exact (heapFile_of_add hadd).2.1.trans ih

/-- Every catalog that is reached is ahead of the numbers that were seen. -/
theorem Run.ahead {pageSize : Nat} {history : List CatalogMoment}
    (hrun : Run pageSize history catalog) :
    catalog.Ahead (takenIn history) (seenIn history ∪ {table | table ∈ catalog.tables}) := by
  induction hrun with
  | start =>
      have hbound : 1 < UInt32.size := by decide
      exact ⟨hbound, by simp, by simp [takenIn], by simp [seenIn, takenIn]⟩
  | @step history catalog call storage _ hadmissible ih =>
      -- Whatever the call does, the count is ahead of more numbers than were seen by then.
      have hseen : ∀ {after : Catalog} {more : Set TableId},
          after.Ahead (takenIn (history ++ [⟨catalog, storage, call⟩])) more →
          seenIn history ∪ {table | table ∈ catalog.tables} ⊆ more →
          after.Ahead (takenIn (history ++ [⟨catalog, storage, call⟩]))
            (seenIn (history ++ [⟨catalog, storage, call⟩]) ∪ {table | table ∈ after.tables}) := by
        intro after more hahead hmore
        refine hahead.mono ?_ (fun table htable => .inr htable) fun table htable =>
          .inl (.inl htable)
        rintro table ((htaken | ⟨past, hpast, htable⟩) | htable)
        · exact hahead.counted table htaken
        · rcases List.mem_append.mp hpast with hearlier | hlast
          · exact hmore (.inl (.inr ⟨past, hearlier, htable⟩))
          · obtain rfl := List.mem_singleton.mp hlast
            exact hmore (.inr htable)
        · exact hahead.registered table htable
      have htaken : takenIn (history ++ [⟨catalog, storage, call⟩]) =
          takenIn history ++ CatalogMoment.taken ⟨catalog, storage, call⟩ := by
        simp [takenIn]
      rcases perform_cases ⟨catalog, storage, call⟩ with
        htakes | ⟨hnone, hclear | ⟨heap, name, primaryKey, hcall, hadd⟩⟩
      · exact hseen (htaken ▸ ih.takes htakes) Set.subset_union_left
      · have hafter : (catalog.perform storage call).2 = catalog.clear := hclear
        rw [hnone, List.append_nil] at htaken
        rw [hafter]
        exact hseen (htaken ▸ ih.clear) (Set.Subset.refl _)
      · obtain rfl : call = .add heap name primaryKey := hcall
        rw [hnone, List.append_nil] at htaken
        exact hseen (htaken ▸ ih.add (fun _ => hadmissible) hadd) Set.subset_union_left

/-- A call of a run happens to a catalog that a run reaches. -/
theorem Run.before {pageSize : Nat} {history earlier later : List CatalogMoment}
    {moment : CatalogMoment} (hrun : Run pageSize history catalog)
    (hsplit : history = earlier ++ moment :: later) : Run pageSize earlier moment.catalog := by
  induction hrun generalizing later with
  | start => simp at hsplit
  | @step history catalog call storage hrun _ ih =>
      rcases List.eq_nil_or_concat later with rfl | ⟨later, last, rfl⟩
      · obtain ⟨rfl, hlast⟩ := List.append_inj' hsplit rfl
        obtain rfl := List.singleton_inj.mp hlast
        exact hrun
      · rw [List.concat_eq_append, ← List.cons_append, ← List.append_assoc] at hsplit
        exact ih (List.append_inj' hsplit rfl).1

/-- A catalog keeps its tables by number and by name, in every state that any calls can reach,
whether they succeed or fail. Each table is registered under the number of its heap file, with the
page size of the catalog, and its primary key is one of its columns. No two tables have the same
name, so a name leads to the table that has it. Whatever a call answers as the number of a table
that it made is a number that it took, and a number that is taken is greater than all that were
taken before and all under which a table was ever registered, as long as the greatest of all
numbers has not been taken, and no longer. A call that fails to register or to create a table
leaves the tables as they were. -/
theorem run_keeps_registry {pageSize : Nat} {history : List CatalogMoment} {catalog : Catalog}
    (hrun : Run pageSize history catalog) :
    (∀ table info, catalog.info table = .ok info →
      info.heap.table = table ∧ info.heap.file.pageSize = pageSize ∧
        ∀ key, info.primaryKey = some key →
          ∃ column ∈ info.heap.schema.columns, column.name = key) ∧
    (∀ first second name, catalog.tableName first = .ok name →
      catalog.tableName second = .ok name → first = second) ∧
    (∀ name table, catalog.tableNamed name = .ok table ↔ catalog.tableName table = .ok name) ∧
    ∀ earlier moment later, history = earlier ++ moment :: later →
      (∀ tables, moment.answer = .ok tables →
        tables = moment.taken ∨ ∃ heap name primaryKey, moment.call = .add heap name primaryKey) ∧
      (∀ before table rest, moment.taken = before ++ table :: rest →
        ((∀ seen, seen ∈ takenIn earlier ++ before ∨
            (∃ past ∈ earlier ++ [moment], seen ∈ past.catalog.tables) →
              seen.number < table.number) ↔
          TableId.greatest ∉ takenIn earlier ++ before)) ∧
      ∀ error, moment.answer = .error error → (∀ path, moment.call ≠ .load path) →
        moment.after.tables = moment.catalog.tables := by
  have hconsistent := hrun.consistent
  have hinfo : ∀ {table : TableId} {info : TableInfo}, catalog.info table = .ok info →
      catalog.tables[table]? = some info := by
    intro table info h
    simp only [Catalog.info] at h
    split at h
    · simp at h
    · rename_i found hfound
      rw [hfound, Except.ok.inj h]
  refine ⟨?_, ?_, fun _ _ => hconsistent.tableNamed_eq_ok_iff, ?_⟩
  · intro table info h
    exact ⟨hconsistent.number (hinfo h),
      (hconsistent.pageSize (hinfo h)).trans hrun.pageSize_eq, hconsistent.primaryKey (hinfo h)⟩
  · intro first second name hfirst hsecond
    rw [← hconsistent.tableNamed_eq_ok_iff] at hfirst hsecond
    exact Except.ok.inj (hfirst.symm.trans hsecond)
  · intro earlier moment later hsplit
    refine ⟨fun _ => answer_eq_taken, ?_, fun _ => tables_of_error⟩
    intro before table rest htaken
    rcases perform_cases moment with htakes | ⟨hnone, _⟩
    · rw [htaken] at htakes
      obtain ⟨middle, hmiddle, rfl⟩ := htakes.exists_allocate
      rw [← ((hrun.before hsplit).ahead.takes hmiddle).fresh_iff]
      refine forall_congr' fun seen => imp_congr_left ?_
      constructor
      · rintro (hbefore | ⟨past, hpast, hregistered⟩)
        · exact (List.mem_append.mp hbefore).imp (fun h => .inl (.inl h)) id
        · rcases List.mem_append.mp hpast with hearlier | hlast
          · exact .inl (.inl (.inr ⟨past, hearlier, hregistered⟩))
          · exact .inl (.inr (List.mem_singleton.mp hlast ▸ hregistered))
      · rintro (((hearlier | ⟨past, hpast, hregistered⟩) | hregistered) | hbefore)
        · exact .inl (List.mem_append_left _ hearlier)
        · exact .inr ⟨past, List.mem_append_left _ hpast, hregistered⟩
        · exact .inr ⟨moment, by simp, hregistered⟩
        · exact .inl (List.mem_append_right _ hbefore)
    · simp [hnone] at htaken

/-- Let calls happen one after the other, without any file at first, as long as each is
admissible. -/
def replay (catalog : Catalog) (history : List CatalogMoment) :
    List CatalogCall → Option (List CatalogMoment × Catalog)
  | [] => some (history, catalog)
  | call :: rest =>
      if call.Admissible then
        replay (catalog.perform {} call).2 (history ++ [⟨catalog, {}, call⟩]) rest
      else none

/-- Calls that are admissible make a run. -/
theorem Run.of_replay {pageSize : Nat} {history full : List CatalogMoment} {last : Catalog}
    {calls : List CatalogCall} (hrun : Run pageSize history catalog)
    (h : catalog.replay history calls = some (full, last)) : Run pageSize full last := by
  induction calls generalizing catalog history with
  | nil =>
      simp only [replay, Option.some.injEq, Prod.mk.injEq] at h
      obtain ⟨rfl, rfl⟩ := h
      exact hrun
  | cons call rest ih =>
      simp only [replay] at h
      split at h
      · rename_i hadmissible
        exact ih (.step {} hrun hadmissible) h
      · simp at h

/-- A table is created, and another one is registered by hand under its name and a greater number.
The name leads to the second table, and the next number is greater than both. -/
theorem run_keeps_registry_renamed :
    ∃ first second third catalog, Run 16 [first, second, third] catalog ∧
      catalog.tableNamed "a" = .ok ⟨7⟩ ∧ catalog.tableName ⟨1⟩ ≠ .ok "a" ∧
      third.taken = [⟨8⟩] ∧ ∀ past ∈ [first, second, third], ∀ seen ∈ past.catalog.tables,
        seen.number < 8 := by
  have hreplay : ((Catalog.replay { pageSize := 16 } []
      [.create "a" Session.sampleSchema "x.dat" none,
        .add ⟨⟨7⟩, Session.sampleSchema, ⟨0, "y.dat", 16⟩⟩ "a" (some "v"), .allocate]).any
      fun (history, catalog) => decide (history.map CatalogMoment.taken = [[⟨1⟩], [], [⟨8⟩]]) &&
        decide (catalog.tableName ⟨7⟩ = .ok "a")) = true := by
    decide +kernel
  obtain ⟨⟨history, catalog⟩, hreplay, hchecks⟩ := (Option.any_eq_true _ _).mp hreplay
  simp only [Bool.and_eq_true, decide_eq_true_eq] at hchecks
  obtain ⟨htaken, hname⟩ := hchecks
  obtain ⟨first, _, rfl, hfirst, htaken⟩ := List.map_eq_cons_iff.mp htaken
  obtain ⟨second, _, rfl, hsecond, htaken⟩ := List.map_eq_cons_iff.mp htaken
  obtain ⟨third, _, rfl, hthird, htaken⟩ := List.map_eq_cons_iff.mp htaken
  obtain rfl := List.map_eq_nil_iff.mp htaken
  have hrun : Run 16 [first, second, third] catalog := .of_replay .start hreplay
  obtain ⟨_, hapart, hnamed, hcalls⟩ := run_keeps_registry hrun
  refine ⟨first, second, third, catalog, hrun, (hnamed "a" ⟨7⟩).mpr hname, ?_, hthird, ?_⟩
  · intro hother
    exact absurd (hapart ⟨1⟩ ⟨7⟩ "a" hother hname) (by decide)
  · intro past hpast seen hseen
    have hfresh := (hcalls [first, second] third [] rfl).2.1 [] ⟨8⟩ [] hthird
    refine hfresh.mpr ?_ seen (.inr ⟨past, hpast, hseen⟩)
    simp only [takenIn, List.flatMap_cons, hfirst, hsecond, List.flatMap_nil]
    decide

/-- A table is registered by hand under the number before the greatest one, two numbers are handed
out, and a table is created. It gets the number of the first table of all, and takes its place. -/
theorem number_handed_out_twice :
    ∃ history catalog, Catalog.replay { pageSize := 16 } []
        [.create "a" Session.sampleSchema "x.dat" none,
          .add ⟨⟨UInt32.size - 2⟩, Session.sampleSchema, ⟨0, "y.dat", 16⟩⟩ "b" none, .allocate,
          .allocate, .create "c" Session.sampleSchema "z.dat" none] = some (history, catalog) ∧
      Run 16 history catalog ∧
      history.map CatalogMoment.answer = [.ok [⟨1⟩], .ok [⟨UInt32.size - 2⟩], .ok [.greatest],
        .ok [⟨0⟩], .ok [⟨1⟩]] ∧
      catalog.tableName ⟨1⟩ = .ok "c" ∧
      catalog.tableNamed "a" = .error (.tableNameNotFound "a") := by
  have hreplay : ((Catalog.replay { pageSize := 16 } []
      [.create "a" Session.sampleSchema "x.dat" none,
        .add ⟨⟨UInt32.size - 2⟩, Session.sampleSchema, ⟨0, "y.dat", 16⟩⟩ "b" none, .allocate,
        .allocate, .create "c" Session.sampleSchema "z.dat" none]).any fun (history, catalog) =>
      decide (history.map CatalogMoment.answer = [.ok [⟨1⟩], .ok [⟨UInt32.size - 2⟩],
          .ok [.greatest], .ok [⟨0⟩], .ok [⟨1⟩]]) &&
        decide (catalog.tableName ⟨1⟩ = .ok "c") &&
        decide (catalog.tableNamed "a" = .error (.tableNameNotFound "a"))) = true := by
    decide +kernel
  obtain ⟨⟨history, catalog⟩, hreplay, hchecks⟩ := (Option.any_eq_true _ _).mp hreplay
  simp only [Bool.and_eq_true, decide_eq_true_eq] at hchecks
  obtain ⟨⟨hanswers, hreplaced⟩, hlost⟩ := hchecks
  exact ⟨history, catalog, hreplay, .of_replay .start hreplay, hanswers, hreplaced, hlost⟩

end Catalog

end RowStore
