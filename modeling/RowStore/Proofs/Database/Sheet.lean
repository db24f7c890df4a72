import RowStore.Database.Operation

/-!
# Sheets

A sheet is what a transaction sees of a table: how many pages it has and which values are stored in
which place. It also remembers the values from before the transaction, which an abort brings
back. `Inserts`, `Deletes`, and `Scans` say what an operation may answer on a sheet, and what the
sheet is afterwards. They know nothing of pages of bytes, of caches, and of locks.
-/

namespace RowStore

/-- A place comes before another if it is on an earlier page, or in an earlier slot of the same
page. -/
def RecordId.Before (a b : RecordId) : Prop :=
  a.page.number < b.page.number ∨ a.page.number = b.page.number ∧ a.slot < b.slot

/-- The values that are stored in each place. -/
abbrev Rows := RecordId → Option (List Value)

namespace Rows

/-- The rows after other values, or none, were put into one place. -/
def put (rows : Rows) (place : RecordId) (values : Option (List Value)) : Rows :=
  fun other => if other = place then values else rows other

/-- The rows on the pages below a number. -/
def below (rows : Rows) (number : Nat) : Rows :=
  fun place => if place.page.number < number then rows place else none

/-- Exactly the rows are listed, in increasing order of their places. -/
structure Lists (rows : Rows) (entries : List (RecordId × List Value)) : Prop where
  ordered : entries.Pairwise fun a b => a.1.Before b.1
  exact : ∀ place values, (place, values) ∈ entries ↔ rows place = some values

/-- Every slot of the table on the pages below a number is taken, if a page has so many slots. -/
def FullBelow (rows : Rows) (table : TableId) (slots number : Nat) : Prop :=
  ∀ place, place.page.table = table → place.page.number < number → place.slot < slots →
    (rows place).isSome = true

/-- The place is the least of the table in which no row is stored, if a page has so many slots. -/
structure LeastFree (rows : Rows) (table : TableId) (slots : Nat) (place : RecordId) : Prop where
  inTable : place.page.table = table
  inPage : place.slot < slots
  free : rows place = none
  least : ∀ other, other.page.table = table → other.slot < slots → other.Before place →
    (rows other).isSome = true

end Rows

/-- What a transaction sees of a table, and the rows from before it began. -/
structure Sheet where
  pages : Nat
  rows : Rows
  saved : Rows

namespace Sheet

/-- The sheet of a table without pages. -/
def empty : Sheet :=
  ⟨0, fun _ => none, fun _ => none⟩

/-- Every slot of every page is taken. -/
def Full (sheet : Sheet) (table : TableId) (slots : Nat) : Prop :=
  sheet.rows.FullBelow table slots sheet.pages

/-- The cache, which may hold so many pages, has no room for a page: it is full of other pages, each
of which is in use. -/
def Crowded (capacity : Nat) (used : PageId → Prop) (page : PageId) : Prop :=
  ∃ pages : List PageId, pages.Nodup ∧ pages.length = capacity ∧
    ∀ other ∈ pages, used other ∧ other ≠ page

/-- What an insert of a row into a table answers, and the sheet after it. -/
inductive Inserts (table : TableId) (schema : Schema) (slots capacity : Nat)
    (used : PageId → Prop) (row : Row) (before : Sheet) : Except Error Answer → Sheet → Prop where
  /-- A row that fits the table is stored in the least free place, and a page is added for it
  exactly if every slot was taken. -/
  | stored {place : RecordId} {ref : FrameRef} {pages : Nat} :
      row.schema = schema → Row.fault? schema row.values = none →
      before.rows.LeastFree table slots place → ref.page = place.page →
      (before.Full table slots ∧ pages = before.pages + 1 ∨
        ¬ before.Full table slots ∧ pages = before.pages) →
      Inserts table schema slots capacity used row before
        (.ok (.inserted { row with place := some place } ref))
        { before with pages, rows := before.rows.put place (some row.values) }
  /-- The row is one of another schema. -/
  | foreign :
      row.schema ≠ schema →
      Inserts table schema slots capacity used row before
        (.error (.rowMismatch (.tableSchema row.schema table schema))) before
  /-- The columns cannot hold the values of the row. This is found out on the page with the least
  free place, which may have been added for the row. -/
  | unfit {fault : RowFault} {pages : Nat} :
      row.schema = schema → Row.fault? schema row.values = some fault →
      (before.Full table slots ∧ pages = before.pages + 1 ∨
        ¬ before.Full table slots ∧ pages = before.pages) →
      Inserts table schema slots capacity used row before (.error (.rowMismatch fault))
        { before with pages }
  /-- The cache has no room for a page that the insert needs: every slot before the page is taken,
  and it is one of the table, or it was added because all of those were full. -/
  | crowded {number pages : Nat} :
      row.schema = schema → before.rows.FullBelow table slots number →
      (number < before.pages ∧ pages = before.pages ∨
        number = before.pages ∧ pages = before.pages + 1) →
      Crowded capacity used ⟨table, number⟩ →
      Inserts table schema slots capacity used row before (.error .cacheFull) { before with pages }

/-- Why no row can be deleted in a place in which no row is stored. -/
def noRow (sheet : Sheet) (table : TableId) (slots : Nat) (place : RecordId) : Error :=
  if place.page.table ≠ table then .tableNotFound place.page.table
  else if sheet.pages ≤ place.page.number then .pageNotFound place.page
  else if slots ≤ place.slot then .invalidSlot place.slot
  else .emptySlot place.slot

/-- What a delete of a row answers, and the sheet after it. -/
inductive Deletes (table : TableId) (slots capacity : Nat) (used : PageId → Prop) (row : Row)
    (before : Sheet) : Except Error Answer → Sheet → Prop where
  | removed {place : RecordId} {ref : FrameRef} :
      row.place = some place → (before.rows place).isSome = true → ref.page = place.page →
      Deletes table slots capacity used row before (.ok (.deleted ref))
        { before with rows := before.rows.put place none }
  /-- It is not told where the row is stored. -/
  | unplaced :
      row.place = none →
      Deletes table slots capacity used row before (.error .missingPlace) before
  /-- No row is stored in the place. -/
  | absent {place : RecordId} :
      row.place = some place → before.rows place = none →
      Deletes table slots capacity used row before (.error (before.noRow table slots place)) before
  /-- The cache has no room for the page of the row. -/
  | crowded {place : RecordId} :
      row.place = some place → place.page.table = table → place.page.number < before.pages →
      Crowded capacity used place.page →
      Deletes table slots capacity used row before (.error .cacheFull) before

/-- The items of a scan that hands out these entries. -/
def itemsOf (schema : Schema) (entries : List (RecordId × List Value)) : List (Except Error Row) :=
  entries.map fun entry => .ok ⟨schema, entry.2, some entry.1⟩

/-- What a scan of the whole table hands out on a sheet. -/
inductive Scans (table : TableId) (schema : Schema) (capacity : Nat) (used : PageId → Prop)
    (sheet : Sheet) : List (Except Error Row) → Prop where
  /-- It hands out every row. -/
  | complete {entries : List (RecordId × List Value)} :
      sheet.rows.Lists entries → Scans table schema capacity used sheet (itemsOf schema entries)
  /-- The cache has no room for some page beside those that are in use and those that the scan has
  read. The rows before that page are handed out, and then the error. -/
  | broken {entries : List (RecordId × List Value)} {number : Nat} :
      number < sheet.pages → (sheet.rows.below number).Lists entries →
      Crowded capacity (fun page => used page ∨ page.table = table ∧ page.number < number)
        ⟨table, number⟩ →
      Scans table schema capacity used sheet (itemsOf schema entries ++ [.error .cacheFull])

end Sheet

end RowStore
