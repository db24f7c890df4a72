import RowStore.Error
import RowStore.Text.Blank

/-!
# Lines of a schema file

A line `name (field type, field type pk, ...)` describes a table. Its name is what stands before
the first opening parenthesis, and its fields are what stands between that and the last closing
parenthesis, cut at the commas. A field is a column name and a type, and possibly the mark `pk`,
which makes the column the primary key; of several marked columns the last is the key.
-/

namespace RowStore

/-- The table that a line describes. -/
structure TableLine where
  name : String
  columns : List Column
  primaryKey : Option String
deriving DecidableEq

/-- The column that a field describes, and whether it is marked as the primary key. -/
structure FieldEntry where
  column : Column
  isKey : Bool
deriving DecidableEq

namespace FieldEntry

/-- The entry with this column name, type name, and mark. -/
def ofWords (name typeName : List Char) (mark : Option (List Char)) :
    Except LineFault FieldEntry :=
  match ColumnType.ofName? (.ofList typeName) with
  | none => .error (.unknownType (.ofList typeName))
  | some type =>
      match mark with
      | none => .ok ⟨⟨.ofList name, type⟩, false⟩
      | some mark =>
          if mark = ['p', 'k'] then .ok ⟨⟨.ofList name, type⟩, true⟩
          else .error (.unknownMark (.ofList mark))

/-- The entry that a field describes. -/
def parse (field : List Char) : Except LineFault FieldEntry :=
  match Text.words field with
  | [] => .error .emptyField
  | [name, typeName] => ofWords name typeName none
  | [name, typeName, mark] => ofWords name typeName (some mark)
  | _ => .error (.malformedField (.ofList (Text.trim field)))

end FieldEntry

namespace TableLine

/-- The last of the marked columns. -/
def keyOf (entries : List FieldEntry) : Option String :=
  ((entries.filter FieldEntry.isKey).getLast?).map fun entry => entry.column.name

/-- The text before the first opening parenthesis, and the text between it and the last closing
one. -/
def parts (line : List Char) : Except LineFault (List Char × List Char) :=
  let before := line.takeWhile (· ≠ '(')
  let throughLast := (line.reverse.dropWhile (· ≠ ')')).reverse
  if before.length = line.length then .error .noOpening
  else if throughLast.isEmpty then .error .noClosing
  else if throughLast.length ≤ before.length then .error .closingFirst
  else .ok (before, (throughLast.drop (before.length + 1)).dropLast)

/-- The table that a line describes. -/
def parse (line : List Char) : Except LineFault TableLine :=
  match parts line with
  | .error fault => .error fault
  | .ok (before, inside) =>
      let name := Text.trim before
      if name.isEmpty then .error .noTableName
      else
        match (Text.splitWhen (· = ',') inside).mapM FieldEntry.parse with
        | .error fault => .error fault
        | .ok entries =>
            .ok ⟨.ofList name, entries.map FieldEntry.column, keyOf entries⟩

end TableLine

end RowStore
