import Mathlib.Algebra.GroupWithZero.Nat
import RowStore.Record.Schema

/-!
# Columns that make a schema

`Column.WellNamed` says that columns can be told by their names: none is empty, and they differ from
one another. `SchemaFault.IsFirst` says what is wrong with columns that make no schema: there are
none, or there is a first column whose name is empty or is that of a column before it. The main
statement, `Schema.ofColumns_accepts`, says that columns make a schema exactly if there are some and
they are well named, that records are then as wide as the columns together and that the index of a
name is the place of the column with that name, and that the fault is the first one otherwise.
-/

namespace RowStore

namespace Column

/-- The columns have names that are not empty and differ from one another. -/
structure WellNamed (columns : List Column) : Prop where
  named : ∀ column ∈ columns, column.name ≠ ""
  distinct : (columns.map Column.name).Nodup

variable {column : Column} {columns : List Column}

theorem wellNamed_nil : WellNamed [] where
  named := by simp
  distinct := by simp

/-- Columns stay well named with another one if its name is not empty and new. -/
theorem WellNamed.concat (h : WellNamed columns) (hname : column.name ≠ "")
    (hfresh : column.name ∉ columns.map Column.name) : WellNamed (columns ++ [column]) where
  named other hother := by
    rcases List.mem_append.mp hother with hmem | hmem
    · exact h.named other hmem
    · rw [List.mem_singleton.mp hmem]
      exact hname
  distinct := by
    rw [List.map_append, List.nodup_append]
    refine ⟨h.distinct, by simp, ?_⟩
    rintro name hmem other hother rfl
    rw [List.map_singleton, List.mem_singleton] at hother
    exact hfresh (hother ▸ hmem)

/-- The columns together are as wide as the sum of their widths. -/
theorem totalWidth_eq_sum (columns : List Column) :
    totalWidth columns = (columns.map width).sum := by
  induction columns with
  | nil => rfl
  | cons column rest ih => rw [totalWidth, ih, List.map_cons, List.sum_cons]

end Column

/-- The fault is the first one of these columns. -/
inductive SchemaFault.IsFirst : List Column → SchemaFault → Prop where
  /-- There are no columns. -/
  | noColumns : IsFirst [] .noColumns
  /-- The name of a column is empty, and the columns before it are well named. -/
  | emptyName {earlier later : List Column} {column : Column} :
      Column.WellNamed earlier → column.name = "" →
      IsFirst (earlier ++ column :: later) (.emptyName earlier.length)
  /-- The name of a column is that of one before it, and the columns before it are well named. -/
  | duplicateName {earlier later : List Column} {column : Column} :
      Column.WellNamed earlier → column.name ≠ "" →
      column.name ∈ earlier.map Column.name →
      IsFirst (earlier ++ column :: later) (.duplicateName column.name)

namespace Schema

open SchemaFault (IsFirst)

variable {columns earlier rest : List Column} {column : Column} {seen : List String} {index : Nat}
  {schema : Schema} {fault : SchemaFault} {name : String}

/-- Well named columns have no fault if their names differ from those before them. -/
theorem columnFault?_of_wellNamed (h : Column.WellNamed columns)
    (hfresh : ∀ column ∈ columns, column.name ∉ seen) :
    columnFault? seen index columns = none := by
  induction columns generalizing seen index with
  | nil => rfl
  | cons column rest ih =>
      obtain ⟨hnamed, hdistinct⟩ := h
      rw [List.forall_mem_cons] at hnamed hfresh
      rw [List.map_cons, List.nodup_cons] at hdistinct
      rw [columnFault?, if_neg hnamed.1, if_neg hfresh.1]
      refine ih ⟨hnamed.2, hdistinct.2⟩ fun other hother hmem => ?_
      rcases List.mem_cons.mp hmem with hsame | hseen
      · exact hdistinct.1 (hsame ▸ List.mem_map_of_mem hother)
      · exact hfresh.2 other hother hseen

/-- Columns are well named if none of them has a fault, and only then. -/
theorem columnFault?_eq_none_iff :
    columnFault? [] 0 columns = none ↔ Column.WellNamed columns := by
  constructor
  · intro h
    obtain ⟨hnamed, hdistinct, _⟩ := columnFault?_eq_none h
    exact ⟨hnamed, hdistinct⟩
  · exact fun h => columnFault?_of_wellNamed h (by simp)

/-- After columns without a fault, the search goes on with their names. -/
theorem columnFault?_append (h : columnFault? seen index earlier = none) (rest : List Column) :
    columnFault? seen index (earlier ++ rest) =
      columnFault? ((earlier.map Column.name).reverse ++ seen) (index + earlier.length) rest := by
  induction earlier generalizing seen index with
  | nil => rfl
  | cons column earlier ih =>
      rw [columnFault?] at h
      split at h
      · simp at h
      · rename_i hname
        split at h
        · simp at h
        · rename_i hseen
          rw [List.cons_append, columnFault?, if_neg hname, if_neg hseen, ih h]
          simp only [List.map_cons, List.reverse_cons, List.append_assoc, List.singleton_append,
            List.length_cons]
          congr 1
          omega

/-- The search after well named columns, in which a name is seen if one of them has it. -/
theorem columnFault?_after (h : Column.WellNamed earlier) (rest : List Column) :
    columnFault? [] 0 (earlier ++ rest) =
      columnFault? (earlier.map Column.name).reverse earlier.length rest := by
  rw [columnFault?_append (columnFault?_eq_none_iff.mpr h), List.append_nil, Nat.zero_add]

/-- The first fault of columns is found. -/
theorem columnFault?_of_isFirst (h : IsFirst columns fault) (hsome : columns ≠ []) :
    columnFault? [] 0 columns = some fault := by
  cases h with
  | noColumns => exact absurd rfl hsome
  | emptyName hearlier hname => rw [columnFault?_after hearlier, columnFault?, if_pos hname]
  | duplicateName hearlier hname hmem =>
      rw [columnFault?_after hearlier, columnFault?, if_neg hname,
        if_pos (List.mem_reverse.mpr hmem)]

/-- A fault that is found after well named columns is the first one. -/
theorem isFirst_of_columnFault? (hearlier : Column.WellNamed earlier)
    (h : columnFault? (earlier.map Column.name).reverse earlier.length rest = some fault) :
    IsFirst (earlier ++ rest) fault := by
  induction rest generalizing earlier with
  | nil => simp [columnFault?] at h
  | cons column rest ih =>
      rw [columnFault?] at h
      split at h
      · rename_i hname
        rw [← Option.some.inj h]
        exact .emptyName hearlier hname
      · rename_i hname
        split at h
        · rename_i hseen
          rw [← Option.some.inj h]
          exact .duplicateName hearlier hname (List.mem_reverse.mp hseen)
        · rename_i hseen
          rw [List.mem_reverse] at hseen
          rw [List.append_cons]
          exact ih (hearlier.concat hname hseen) (by simpa using h)

/-- What is wrong with columns that make no schema is their first fault. -/
theorem ofColumns_eq_error_iff : ofColumns columns = .error fault ↔ IsFirst columns fault := by
  by_cases hempty : columns = []
  · subst hempty
    rw [ofColumns, dif_pos rfl, Except.error.injEq]
    constructor
    · rintro rfl
      exact .noColumns
    · intro h
      generalize hcolumns : ([] : List Column) = columns at h
      cases h with
      | noColumns => rfl
      | emptyName | duplicateName => simp at hcolumns
  · have hfault : ofColumns columns = .error fault ↔ columnFault? [] 0 columns = some fault := by
      rw [ofColumns, dif_neg hempty]
      split <;> simp_all
    rw [hfault]
    exact ⟨isFirst_of_columnFault? Column.wellNamed_nil, fun h => columnFault?_of_isFirst h hempty⟩

/-- Columns make a schema if there are some and they are well named. -/
theorem exists_ofColumns_iff :
    (∃ schema, ofColumns columns = .ok schema) ↔ columns ≠ [] ∧ Column.WellNamed columns := by
  constructor
  · rintro ⟨schema, h⟩
    obtain rfl := columns_of_ofColumns h
    exact ⟨schema.nonempty, schema.named, schema.distinct⟩
  · rintro ⟨hsome, hnamed⟩
    cases h : ofColumns columns with
    | ok schema => exact ⟨schema, rfl⟩
    | error fault =>
        have hfault := columnFault?_of_isFirst (ofColumns_eq_error_iff.mp h) hsome
        rw [columnFault?_eq_none_iff.mpr hnamed] at hfault
        simp at hfault

/-- A name has an index if the column at that index has the name, since no other column has it. -/
theorem columnIndex?_eq_some_iff : schema.columnIndex? name = some index ↔
    ∃ column, schema.columns[index]? = some column ∧ column.name = name := by
  rw [columnIndex?, List.findIdx?_eq_some_iff_getElem]
  constructor
  · rintro ⟨hindex, hname, _⟩
    exact ⟨schema.columns[index], List.getElem?_eq_getElem hindex, by simpa using hname⟩
  · rintro ⟨column, hcolumn, rfl⟩
    obtain ⟨hindex, rfl⟩ := List.getElem?_eq_some_iff.mp hcolumn
    refine ⟨hindex, by simp, fun earlier hearlier => ?_⟩
    have hdistinct := List.pairwise_iff_getElem.mp schema.distinct earlier index
      (by simp; omega) (by simpa using hindex) hearlier
    simpa using hdistinct

/-- A name has no index if no column has it. -/
theorem columnIndex?_eq_none_iff :
    schema.columnIndex? name = none ↔ ∀ column ∈ schema.columns, column.name ≠ name := by
  rw [← Option.not_isSome_iff_eq_none, isSome_columnIndex?_iff]
  simp

/-- Columns make a schema exactly if there are some and they are well named. The schema then has
these columns, its records are as wide as the columns together, and the index of a name is the place
of the column with that name. Otherwise the fault is the first one of the columns. -/
theorem ofColumns_accepts (columns : List Column) :
    ((∃ schema, ofColumns columns = .ok schema) ↔ columns ≠ [] ∧ Column.WellNamed columns) ∧
    (∀ schema, ofColumns columns = .ok schema →
      schema.columns = columns ∧ schema.recordWidth = (columns.map Column.width).sum ∧
      ∀ name,
        (∀ index, schema.columnIndex? name = some index ↔
          ∃ column, columns[index]? = some column ∧ column.name = name) ∧
        (schema.columnIndex? name = none ↔ ∀ column ∈ columns, column.name ≠ name)) ∧
    ∀ fault, ofColumns columns = .error fault ↔ IsFirst columns fault := by
  refine ⟨exists_ofColumns_iff, fun schema h => ?_, fun fault => ofColumns_eq_error_iff⟩
  obtain rfl := columns_of_ofColumns h
  exact ⟨rfl, Column.totalWidth_eq_sum _,
    fun name => ⟨fun index => columnIndex?_eq_some_iff, columnIndex?_eq_none_iff⟩⟩

/-- Two columns make a schema. With a third one of the first one's name, and a fourth one without a
name, the fault is that of the third one. -/
theorem ofColumns_accepts_two_of_four :
    (∃ schema, ofColumns [⟨"a", .integer⟩, ⟨"b", .text 2⟩] = .ok schema ∧
      schema.recordWidth = 10 ∧ schema.columnIndex? "b" = some 1 ∧
      schema.columnIndex? "" = none) ∧
    IsFirst [⟨"a", .integer⟩, ⟨"b", .text 2⟩, ⟨"a", .text 0⟩, ⟨"", .integer⟩]
      (.duplicateName "a") := by
  obtain ⟨hmakes, hschema, -⟩ := ofColumns_accepts [⟨"a", .integer⟩, ⟨"b", .text 2⟩]
  obtain ⟨schema, h⟩ := hmakes.mpr ⟨by simp, by simp, by simp⟩
  obtain ⟨-, hwidth, hindex⟩ := hschema schema h
  refine ⟨⟨schema, h, hwidth.trans (by decide), ((hindex "b").1 1).mpr ⟨_, rfl, rfl⟩,
    (hindex "").2.mpr (by simp)⟩, ?_⟩
  exact ((ofColumns_accepts _).2.2 _).mp rfl

end Schema

end RowStore
