import RowStore.Proofs.Database.Calm

/-!
# The sheet of a database

`Database.sheet` is the sheet that a database shows of its table: it is read off the content of the
pages, wherever that is kept, and the rows from before the transaction are read off what the pages
are settled to hold. A database is legible if one transaction has it to itself, it is calm, and
every page, now and as settled, holds rows of the table. A legible database stays legible, and shows
the same sheet, as long as it is steady and calm. `Legible.change` and `Legible.append` tell how the sheet changes when a
page is changed and when one is added.
-/

namespace RowStore

variable {layout : Layout} {heap : HeapFile} {slots : Nat} {txn : TxnId}

namespace Database

/-- The sheet that a database shows of the table of a heap file. -/
def sheet (layout : Layout) (heap : HeapFile) (db : Database) : Sheet where
  pages := heap.pageCount db.storage
  rows place := valuesIn heap.schema (layout.contentOf db place.page) place
  saved place := valuesIn heap.schema (layout.settled db place.page) place

/-- A transaction has the table to itself in a calm database, and every page holds rows, and would
do so if the transaction was undone. -/
structure Legible (layout : Layout) (heap : HeapFile) (slots : Nat) (txn : TxnId)
    (db : Database) : Prop extends Solo layout heap txn db, Calm db where
  geometry : Page.slotsPerPage heap.file.pageSize heap.schema.recordWidth = .ok slots
  content : ∀ page, ReadableIn heap.schema (layout.contentOf db page)
  settled : ∀ page, ReadableIn heap.schema (layout.settled db page)

/-- The page in a frame is one of the table, and its rows are those of the sheet. -/
structure Displays (layout : Layout) (heap : HeapFile) (slots : Nat) (db : Database)
    (page : PageId) (heapPage : HeapPage) : Prop where
  inTable : page.table = heap.table
  inFile : page.number < heap.pageCount db.storage
  id : heapPage.id = page
  schema : heapPage.schema = heap.schema
  slots : heapPage.slots = slots
  readable : heapPage.Readable
  rows : ∀ slot, (db.sheet layout heap).rows ⟨page, slot⟩ = heapPage.valuesAt slot

variable {db after : Database} {page : PageId} {place : RecordId} {mode : LockMode}

/-- A steady database shows the same sheet. -/
theorem Steady.sheet (hsteady : db.Steady layout after) :
    after.sheet layout heap = db.sheet layout heap := by
  have hpages : heap.pageCount after.storage = heap.pageCount db.storage := by
    unfold HeapFile.pageCount Storage.pageCount Storage.bytes
    rw [hsteady.lengths]
  unfold Database.sheet
  simp only [hpages, hsteady.content, hsteady.settled]

/-- A steady database stays legible if it stays calm. -/
theorem Legible.of_steady (hlegible : db.Legible layout heap slots txn)
    (hsolo : after.Solo layout heap txn) (hcalm : after.Calm) (hsteady : db.Steady layout after) :
    after.Legible layout heap slots txn where
  toSolo := hsolo
  toCalm := hcalm
  geometry := hlegible.geometry
  content page := by
    rw [hsteady.content]
    exact hlegible.content page
  settled page := by
    rw [hsteady.settled]
    exact hlegible.settled page

/-- A page has a slot. -/
theorem Legible.slots_pos (hlegible : db.Legible layout heap slots txn) : 0 < slots :=
  Page.slotsPerPage_pos hlegible.geometry

/-- There are no rows outside the pages of the table. -/
theorem Legible.rows_outside (hlegible : db.Legible layout heap slots txn)
    (h : ¬ (place.page.table = heap.table ∧ place.page.number < heap.pageCount db.storage)) :
    (db.sheet layout heap).rows place = none := by
  have hcovers : ¬ layout.Covers db.storage place.page := by
    rw [hlegible.covers_iff]
    exact h
  show valuesIn heap.schema (layout.contentOf db place.page) place = none
  rw [(hlegible.contents_of_not_covers hcovers).1]
  exact valuesIn_zeros heap.schema 0 place

/-- The frame of a page displays its part of the sheet. -/
theorem Legible.displays (hlegible : db.Legible layout heap slots txn) {resident : Resident}
    (hframe : db.cache.frames[page]? = some resident) :
    db.Displays layout heap slots page resident.page := by
  have hplaces := hlegible.placed.frame page resident hframe
  have hschema := hlegible.schema page resident hframe
  have hcontent : layout.contentOf db page = resident.page.bytes :=
    Layout.contentOf_of_frame hframe
  obtain ⟨htable, hnumber⟩ := hlegible.covers_iff.mp hplaces.covers
  refine ⟨htable, hnumber, hplaces.id, hschema, ?_, ?_, ?_⟩
  · have hslots := resident.page.slots_eq
    rw [hplaces.length, ← hlegible.locates.2, hschema, hlegible.geometry, Except.ok.injEq] at hslots
    exact hslots.symm
  · have hreadable := hlegible.content page
    rw [hcontent, ← hschema] at hreadable
    exact resident.page.readableIn_bytes.mp hreadable
  · intro slot
    show valuesIn heap.schema (layout.contentOf db page) ⟨page, slot⟩ = _
    rw [hcontent, ← hschema, HeapPage.valuesIn_bytes]

/-- A demand of the transaction is met, and takes the operation further. -/
theorem Legible.finishes (hlegible : db.Legible layout heap slots txn) {bound : Nat}
    {holds : Except Error Answer → Database → Prop} {operation : Operation}
    (h : ∀ locks, ({ db with locks } : Database).Legible layout heap slots txn →
      ({ db with locks } : Database).sheet layout heap = db.sheet layout heap →
      LockTable.Serves txn operation.demand.1 operation.demand.2 db.locks locks →
      (locks.lockOf operation.demand.1).holds txn operation.demand.2 = true →
      Finishes txn bound (({ db with locks } : Database).proceed txn operation).2
        (({ db with locks } : Database).proceed txn operation).1 holds) :
    Finishes txn (bound + 1) db (.needs operation) holds :=
  hlegible.toSolo.finishes fun locks hsolo hsteady hserves hholds hreferenced =>
    have hcalm : Calm { db with locks } :=
      hlegible.toCalm.of_keeps hlegible.accounted fun page h => (hreferenced page).trans h
    h locks (hlegible.of_steady hsolo hcalm hsteady) hsteady.sheet hserves hholds

/-- What a change of a page does to the sheet: it shows the rows that the page has then. -/
theorem Legible.change (hlegible : db.Legible layout heap slots txn) {resident : Resident}
    {changed : HeapPage} (hframe : db.cache.frames[page]? = some resident)
    (howner : (db.locks.lockOf page).exclusive = some txn)
    (himage : (db.journal.image? txn page).isSome = true)
    (hedited : resident.page.Edited changed) (hreadable : changed.Readable) {slot : Nat}
    {values : Option (List Value)}
    (hvalues : ∀ other, changed.valuesAt other =
      if slot = other then values else resident.page.valuesAt other) :
    Legible layout heap slots txn
        { db with cache := db.cache.setFrame page ⟨changed, some txn⟩ } ∧
      ({ db with cache := db.cache.setFrame page ⟨changed, some txn⟩ } : Database).sheet
          layout heap =
        { db.sheet layout heap with
          rows := (db.sheet layout heap).rows.put ⟨page, slot⟩ values } := by
  have hdisplays := hlegible.displays hframe
  have hheap : changed.schema = heap.schema :=
    hedited.keeps.2.1.trans hdisplays.schema
  obtain ⟨hsolo, hcontents⟩ :=
    hlegible.toSolo.change hframe howner himage hedited
  have hcalm : Calm { db with cache := db.cache.setFrame page ⟨changed, some txn⟩ } :=
    hlegible.toCalm.of_keeps (hlegible.accounted.setFrame hframe hedited.keeps.1) fun _ => id
  refine ⟨⟨hsolo, hcalm, hlegible.geometry, ?_, ?_⟩, ?_⟩
  · intro other
    rw [(hcontents other).1]
    split
    · rw [← hheap]
      exact changed.readableIn_bytes.mpr hreadable
    · exact hlegible.content other
  · intro other
    rw [(hcontents other).2]
    exact hlegible.settled other
  · unfold Database.sheet
    simp only [Sheet.mk.injEq, true_and]
    refine ⟨?_, ?_⟩
    · funext place
      obtain ⟨other, number⟩ := place
      rw [(hcontents other).1]
      unfold Rows.put
      by_cases hother : other = page
      · subst hother
        have hbytes : valuesIn heap.schema changed.bytes ⟨other, number⟩ =
            changed.valuesAt number := by
          rw [← hheap, HeapPage.valuesIn_bytes]
        rw [if_pos rfl, hbytes, hvalues]
        simp only [RecordId.mk.injEq, true_and, eq_comm]
        split
        · rfl
        · exact (hdisplays.rows number).symm
      · rw [if_neg hother, if_neg (by simp [hother])]
    · funext place
      rw [(hcontents place.page).2]

/-- What adding a page does to the sheet: it has one page more. -/
theorem Legible.append (hlegible : db.Legible layout heap slots txn) :
    Legible layout heap slots txn { db with storage := (heap.appendPage db.storage).2 } ∧
      ({ db with storage := (heap.appendPage db.storage).2 } : Database).sheet layout heap =
        { db.sheet layout heap with pages := (db.sheet layout heap).pages + 1 } := by
  obtain ⟨hsolo, hcount, hcontents⟩ := hlegible.toSolo.append
  have hfresh : ¬ layout.Covers db.storage (heap.pageId (heap.pageCount db.storage)) := by
    rw [hlegible.covers_iff]
    exact fun h => Nat.lt_irrefl _ h.2
  obtain ⟨hcontent, hsettled⟩ := hlegible.contents_of_not_covers hfresh
  have hcalm : Calm { db with storage := (heap.appendPage db.storage).2 } :=
    hlegible.toCalm.of_keeps hlegible.accounted fun _ => id
  refine ⟨⟨hsolo, hcalm, hlegible.geometry, ?_, ?_⟩, ?_⟩
  · intro other
    rw [(hcontents other).1]
    split
    · exact readableIn_zeros heap.schema _
    · exact hlegible.content other
  · intro other
    rw [(hcontents other).2]
    split
    · exact readableIn_zeros heap.schema _
    · exact hlegible.settled other
  · unfold Database.sheet
    simp only [Sheet.mk.injEq]
    refine ⟨hcount, ?_, ?_⟩
    · funext place
      rw [(hcontents place.page).1]
      split
      · rename_i hsame
        rw [hsame, hcontent, valuesIn_zeros]
        exact (valuesIn_zeros heap.schema 0 place).symm
      · rfl
    · funext place
      rw [(hcontents place.page).2]
      split
      · rename_i hsame
        rw [hsame, hsettled, valuesIn_zeros]
        exact (valuesIn_zeros heap.schema 0 place).symm
      · rfl

end Database

end RowStore
