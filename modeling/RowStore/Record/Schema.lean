import RowStore.Record.ColumnType

/-!
# Schemas

A schema is a list of named, typed columns. It has at least one column, and its columns have
names that are not empty and that differ from one another; `Schema.ofColumns` accepts exactly
the lists with these properties and otherwise tells the first fault. Every record of a schema is
stored in `recordWidth` bytes.
-/

namespace RowStore

/-- A column of a table: its name and its type. -/
structure Column where
  name : String
  type : ColumnType
deriving DecidableEq

namespace Column

/-- The number of bytes that a value of the column is stored in. -/
def width (column : Column) : Nat :=
  column.type.width

/-- The number of bytes that values of the columns are stored in, one after the other. -/
def totalWidth : List Column → Nat
  | [] => 0
  | column :: rest => column.width + totalWidth rest

instance : ToString Column :=
  ⟨fun column => column.name ++ "(" ++ toString column.type ++ ")"⟩

end Column

/-- Why a table cannot have the columns, or the key, that are asked for. -/
inductive SchemaFault where
  | noColumns
  | emptyName (index : Nat)
  | duplicateName (name : String)
  | recordTooWide (recordWidth pageSize : Nat)
  | tooManySlots (slots : Nat)
  | keyNotAColumn (key table : String)
  /-- A fault in the words of whoever found it. -/
  | described (text : String)
deriving DecidableEq

namespace SchemaFault

/-- The fault in words. -/
def message : SchemaFault → String
  | noColumns => "a schema needs at least one column"
  | emptyName index => "column " ++ toString index ++ " has an empty name"
  | duplicateName name => "duplicate column '" ++ name ++ "'"
  | recordTooWide recordWidth pageSize =>
      "a " ++ toString recordWidth ++ "-byte record does not fit in a " ++ toString pageSize
        ++ "-byte page"
  | tooManySlots slots => toString slots ++ " slots per page exceeds the slot id range"
  | keyNotAColumn key table => "primary key " ++ key ++ " is not a column of " ++ table
  | described text => text

end SchemaFault

/-- A list of columns in which every column can be told by its name. -/
structure Schema where
  columns : List Column
  nonempty : columns ≠ []
  named : ∀ column ∈ columns, column.name ≠ ""
  distinct : (columns.map Column.name).Nodup
deriving DecidableEq

namespace Schema

/-- The first fault among `columns`, the first of which has the index `index`, when the columns
before it have the names `seen`. -/
def columnFault? (seen : List String) (index : Nat) : List Column → Option SchemaFault
  | [] => none
  | column :: rest =>
      if column.name = "" then some (.emptyName index)
      else if column.name ∈ seen then some (.duplicateName column.name)
      else columnFault? (column.name :: seen) (index + 1) rest

/-- Columns without a fault have names that are not empty, differ from one another, and differ
from the names before them. -/
theorem columnFault?_eq_none {columns : List Column} {seen : List String} {index : Nat}
    (h : columnFault? seen index columns = none) :
    (∀ column ∈ columns, column.name ≠ "") ∧ (columns.map Column.name).Nodup ∧
      ∀ column ∈ columns, column.name ∉ seen := by
  induction columns generalizing seen index with
  | nil => simp
  | cons column rest ih =>
      simp only [columnFault?] at h
      split at h
      · simp at h
      · rename_i hname
        split at h
        · simp at h
        · rename_i hseen
          obtain ⟨hnamed, hdistinct, hfresh⟩ := ih h
          refine ⟨?_, ?_, ?_⟩
          · simpa [hname] using hnamed
          · simp only [List.map_cons, List.nodup_cons, List.mem_map, not_exists, not_and]
            refine ⟨fun other hother heq => ?_, hdistinct⟩
            exact hfresh other hother (by simp [heq])
          · simp only [List.mem_cons, forall_eq_or_imp]
            exact ⟨hseen, fun other hother hmem => hfresh other hother (by simp [hmem])⟩

/-- The schema with these columns, or their first fault. -/
def ofColumns (columns : List Column) : Except SchemaFault Schema :=
  if hempty : columns = [] then .error .noColumns
  else
    match hfault : columnFault? [] 0 columns with
    | some fault => .error fault
    | none =>
        let valid := columnFault?_eq_none hfault
        .ok ⟨columns, hempty, valid.1, valid.2.1⟩

/-- The schema with these columns has these columns. -/
theorem columns_of_ofColumns {columns : List Column} {schema : Schema}
    (h : ofColumns columns = .ok schema) : schema.columns = columns := by
  unfold ofColumns at h
  split at h
  · simp at h
  · split at h
    · simp at h
    · rw [Except.ok.injEq] at h
      rw [← h]

/-- The number of columns. -/
def columnCount (schema : Schema) : Nat :=
  schema.columns.length

/-- The column with this index. -/
def column? (schema : Schema) (index : Nat) : Option Column :=
  schema.columns[index]?

/-- The index of the column with this name. -/
def columnIndex? (schema : Schema) (name : String) : Option Nat :=
  schema.columns.findIdx? fun column => column.name = name

/-- There is an index for the name of each column, and for no other name. -/
theorem isSome_columnIndex?_iff {schema : Schema} {name : String} :
    (schema.columnIndex? name).isSome = true ↔ ∃ column ∈ schema.columns, column.name = name := by
  rw [columnIndex?, List.findIdx?_isSome, List.any_eq_true]
  simp

/-- The number of bytes that a record is stored in. -/
def recordWidth (schema : Schema) : Nat :=
  Column.totalWidth schema.columns

instance : ToString Schema :=
  ⟨fun schema => ", ".intercalate (schema.columns.map toString)⟩

end Schema

end RowStore
