import RowStore.Catalog.Basic
import RowStore.Catalog.TableLine

/-!
# Schema files

A schema file has one line for each table, and blank lines, which count as lines and say nothing.
Loading it creates the tables in the order of their lines, each with a data file next to the
schema file that bears the name of the table, and stops at the first line that is malformed or
whose table cannot be created. The tables of the lines before it stay.
-/

namespace RowStore

namespace SchemaFile

/-- The lines of a text that are not blank, with their numbers from one. -/
def numberedLines (text : String) : List (Nat × List Char) :=
  ((Text.lines text.toList).zipIdx 1).filterMap fun (line, number) =>
    if (Text.trim line).isEmpty then none else some (number, line)

/-- The table that a line describes, with its schema. -/
def readLine (line : List Char) : Except LineFault (TableLine × Schema) :=
  match TableLine.parse line with
  | .error fault => .error fault
  | .ok described =>
      match Schema.ofColumns described.columns with
      | .error fault => .error (.invalidSchema fault)
      | .ok schema => .ok (described, schema)

/-- The path up to the last slash, which leads to the directory of the file. -/
def folderOf (path : String) : String :=
  .ofList (path.toList.reverse.dropWhile (· ≠ '/')).reverse

/-- The path of the data file of a table whose schema file lies in the folder. A name that begins
with a slash is a path of its own. -/
def dataPath (folder name : String) : String :=
  if name.toList.head? = some '/' then name ++ ".dat" else folder ++ name ++ ".dat"

end SchemaFile

namespace Catalog

/-- Create the tables that the lines describe, up to the first line that fails. -/
def loadLines (catalog : Catalog) (storage : Storage) (folder : String) :
    List (Nat × List Char) → Except Error (List TableId) × Catalog × Storage
  | [] => (.ok [], catalog, storage)
  | (number, line) :: rest =>
      match SchemaFile.readLine line with
      | .error fault => (.error (.invalidLine number fault), catalog, storage)
      | .ok (described, schema) =>
          match catalog.create storage described.name schema
              (SchemaFile.dataPath folder described.name) described.primaryKey with
          | (.error error, catalog, storage) => (.error error, catalog, storage)
          | (.ok table, catalog, storage) =>
              match loadLines catalog storage folder rest with
              | (.error error, catalog, storage) => (.error error, catalog, storage)
              | (.ok tables, catalog, storage) => (.ok (table :: tables), catalog, storage)

/-- The text of the file at the path. -/
def readText (storage : Storage) (path : String) : Option String := do
  let name ← Directory.entryName? path
  let bytes ← storage.directory[name]?
  Text.Utf8.decode? bytes

/-- Create the tables that the schema file at the path describes, and tell their numbers in the
order of the lines. -/
def loadSchema (catalog : Catalog) (storage : Storage) (path : String) :
    Except Error (List TableId) × Catalog × Storage :=
  match readText storage path with
  | none => (.error .inputOutput, catalog, storage)
  | some text =>
      catalog.loadLines storage (SchemaFile.folderOf path) (SchemaFile.numberedLines text)

end Catalog

end RowStore
