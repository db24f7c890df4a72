import Std.Data.ExtTreeMap
import RowStore.Bytes
import RowStore.Text.Split
import RowStore.Text.Utf8

/-!
# Directories

A directory holds files by name. `entryName?` is the name of the file that a path, read from the
directory, leads to. The directory has no directories of its own, so a path leads to a file only
if it has one part that is a name: a path into a directory that is not there, a path that leaves
the directory, and a name that is too long or holds a null character lead nowhere.
-/

namespace RowStore

open Std

/-- The files of a directory, by name. -/
abbrev Directory := ExtTreeMap String Bytes

namespace Directory

/-- The longest name of a file, in bytes. -/
def maxNameSize : Nat := 255

/-- The name of the file that the path leads to: the last part of the path, if all parts before it
stay where they are. -/
def entryName? (path : String) : Option String :=
  let parts := Text.splitWhen (· = '/') path.toList
  let steps := parts.filter fun part => !part.isEmpty && part ≠ ['.']
  match parts.getLast? with
  | none => none
  | some part =>
      if path.toList.head? = some '/' || steps ≠ [part] || part = ['.', '.'] then none
      else if part.contains '\x00' || maxNameSize < (Text.Utf8.encode (.ofList part)).length then
        none
      else some (.ofList part)

/-- The bytes of the file with this name, none if there is no such file. -/
def content (directory : Directory) (name : String) : Bytes :=
  directory.getD name []

/-- The directory with an empty file of this name, unless it has a file of this name. -/
def touch (directory : Directory) (name : String) : Directory :=
  directory.insertIfNew name []

end Directory

end RowStore
