import RowStore.Database.Basic

/-!
# Cursors

A cursor walks over the rows of a table in page order and, within a page, in slot order. It reads
a page when the rows of the one before have been handed out, and looks at the length of the file
each time, so that it reaches pages that were added in the meantime. A page or a record that
cannot be read ends the walk: the error is handed out instead of the rows of its page, and nothing
comes after it. Rewinding starts the walk again.
-/

namespace RowStore

/-- How far a walk over a table has come. -/
structure Cursor where
  heap : HeapFile
  /-- The number of the next page to read. -/
  nextPage : Nat := 0
  /-- The rows that have been read and not been handed out. -/
  buffered : List Row := []
  /-- Whether the walk has ended. -/
  done : Bool := false
deriving DecidableEq

namespace Cursor

/-- The cursor at the start of the walk. -/
def rewind (cursor : Cursor) : Cursor :=
  { heap := cursor.heap }

/-- The cursor after the walk has ended. -/
def finish (cursor : Cursor) : Cursor :=
  { cursor with buffered := [], done := true }

/-- The page that the cursor reads next. -/
def page (cursor : Cursor) : PageId :=
  cursor.heap.pageId cursor.nextPage

end Cursor

/-- A walk under way: how many more items are asked for, without a limit if none is given, and
the items that have been handed out. -/
structure Walk where
  cursor : Cursor
  budget : Option Nat := none
  items : List (Except Error Row) := []
deriving DecidableEq

/-- How a walk goes on. -/
inductive WalkStep where
  /-- All items that were asked for have been handed out. -/
  | sated
  /-- The table has no more items. -/
  | ended
  /-- The next page has to be read. -/
  | reads

namespace Walk

/-- Whether as many items have been handed out as were asked for. -/
def isSated (walk : Walk) : Bool :=
  walk.budget = some 0

/-- The walk after some items were handed out. -/
def emit (walk : Walk) (items : List (Except Error Row)) : Walk :=
  { walk with
    budget := walk.budget.map (· - items.length)
    items := walk.items ++ items }

/-- The walk after it handed out as many of the buffered rows as are asked for. -/
def drain (walk : Walk) : Walk :=
  let count := walk.budget.getD walk.cursor.buffered.length
  let rows := walk.cursor.buffered
  { walk.emit ((rows.take count).map .ok) with
    cursor := { walk.cursor with buffered := rows.drop count } }

/-- The walk after a page was read, whose rows are now buffered. -/
def refill (walk : Walk) (rows : List Row) : Walk :=
  { walk with
    cursor := { walk.cursor with nextPage := walk.cursor.nextPage + 1, buffered := rows } }

/-- The walk after an error ended it. -/
def fail (walk : Walk) (error : Error) : Walk :=
  { walk.emit [.error error] with cursor := walk.cursor.finish }

/-- How a walk goes on that has handed out what was buffered, over a file of so many pages. -/
def step (walk : Walk) (pageCount : Nat) : WalkStep :=
  if walk.isSated then .sated
  else if walk.cursor.done || pageCount ≤ walk.cursor.nextPage then .ended
  else .reads

end Walk

end RowStore
