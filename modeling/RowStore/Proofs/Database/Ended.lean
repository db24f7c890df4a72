import RowStore.Proofs.Database.Legible
import RowStore.Proofs.Session.Effect

/-!
# What flushes and the end of a transaction do to the sheet

Flushes succeed and change nothing on the sheet. Both ends of a transaction succeed and leave the
table to whoever comes next: after a commit the rows are saved, and after an abort they are those
that were saved before. Pages that were added stay either way.
-/

namespace RowStore

variable {layout : Layout} {heap : HeapFile} {slots : Nat} {txn other : TxnId}

namespace Database

variable {db after : Database} {page : PageId}

/-- A transaction has the table to itself in a database in which the same table is kept in files
that are as long. -/
theorem Solo.of_lengths (hsolo : db.Solo layout heap txn) (hplaced : after.Placed layout)
    (hintact : after.Intact layout) (hcatalog : after.catalog = db.catalog)
    (halone : after.locks.Alone other)
    (hschema : ∀ (page : PageId) (resident : Resident),
      after.cache.frames[page]? = some resident → resident.page.schema = heap.schema)
    (hlengths : Storage.SameLengths db.storage after.storage) :
    after.Solo layout heap other where
  placed := hplaced
  intact := hintact
  registered := by
    rw [hcatalog]
    exact hsolo.registered
  only := by
    rw [hcatalog]
    exact hsolo.only
  others := hsolo.others
  alone := halone
  schema := hschema
  whole := by
    show (after.storage.directory.content heap.file.name).length % _ = 0
    rw [hlengths]
    exact hsolo.whole

/-- A flush of a page leaves the transaction its table, and is steady. -/
theorem Flushed.solo (hflushed : Flushed layout page db after) (hsolo : db.Solo layout heap txn) :
    after.Solo layout heap txn ∧ db.Steady layout after := by
  refine ⟨hsolo.of_lengths (hflushed.placed hsolo.placed)
    (hflushed.intact hsolo.placed hsolo.intact) hflushed.catalog (hflushed.locks ▸ hsolo.alone)
    ?_ hflushed.lengths,
    hflushed.lengths, hflushed.contentOf, hflushed.settled hsolo.placed hsolo.intact⟩
  intro other resident hframe
  rcases hflushed.page with ⟨_, _, hframes⟩ | ⟨found, _, hfound, _, _, hframes, _⟩
  · exact hsolo.schema other resident (hframes other ▸ hframe)
  · rw [hframes] at hframe
    split at hframe
    · rw [Option.some.injEq] at hframe
      rw [← hframe]
      exact hsolo.schema page found hfound
    · exact hsolo.schema other resident hframe

/-- Every page in the cache is one of the table. -/
theorem Solo.registered_of_frame (hsolo : db.Solo layout heap txn) {resident : Resident}
    (hframe : db.cache.frames[page]? = some resident) : db.Registered page := by
  have htable := (hsolo.covers_iff.mp (hsolo.placed.frame page resident hframe).covers).1
  refine ⟨heap, ?_⟩
  rw [htable]
  exact hsolo.registered

/-- A flush of a page succeeds, leaves the transaction its table, and is steady. -/
theorem Solo.flushPage (hsolo : db.Solo layout heap txn) (page : PageId) :
    (db.flushPage page).1 = .ok () ∧ (db.flushPage page).2.Solo layout heap txn ∧
      db.Steady layout (db.flushPage page).2 := by
  obtain ⟨hflushed, hok⟩ := flushPage_flushed hsolo.placed page
  refine ⟨?_, hflushed.solo hsolo⟩
  cases hframe : db.cache.frames[page]? with
  | none =>
      unfold Database.flushPage
      rw [hframe]
  | some resident => exact (hok (hsolo.registered_of_frame hframe)).1

/-- Flushes leave the transaction its table, and are steady. -/
theorem Solo.flushEach (hsolo : db.Solo layout heap txn) (pages : List PageId) :
    (db.flushEach pages).2.Solo layout heap txn ∧ db.Steady layout (db.flushEach pages).2 := by
  refine flushEach_preserves (fun after => after.Solo layout heap txn ∧ db.Steady layout after)
    pages ?_ ⟨hsolo, .refl db⟩
  intro _ page _ h
  obtain ⟨_, hsolo', hsteady⟩ := h.1.flushPage page
  exact ⟨hsolo', h.2.trans hsteady⟩

/-- Flushes succeed. -/
theorem Solo.flushEach_ok (hsolo : db.Solo layout heap txn) (pages : List PageId) :
    (db.flushEach pages).1 = .ok () := by
  induction pages generalizing db with
  | nil => rfl
  | cons page rest ih =>
      obtain ⟨hok, hflushed, _⟩ := hsolo.flushPage page
      rcases hflush : db.flushPage page with ⟨answer, flushed⟩
      rw [hflush] at hok hflushed
      subst hok
      unfold Database.flushEach
      simp only [hflush]
      exact ih hflushed

/-- A flush of a page succeeds and changes nothing on the sheet. -/
theorem Legible.flushPage (hlegible : db.Legible layout heap slots txn) (page : PageId) :
    (db.flushPage page).1 = .ok () ∧ (db.flushPage page).2.Legible layout heap slots txn ∧
      (db.flushPage page).2.sheet layout heap = db.sheet layout heap := by
  obtain ⟨hok, hsolo, hsteady⟩ := hlegible.toSolo.flushPage page
  exact ⟨hok, hlegible.of_steady hsolo (hlegible.toCalm.flushPage page) hsteady, hsteady.sheet⟩

/-- Flushes succeed and change nothing on the sheet. -/
theorem Legible.flushEach (hlegible : db.Legible layout heap slots txn) (pages : List PageId) :
    (db.flushEach pages).1 = .ok () ∧ (db.flushEach pages).2.Legible layout heap slots txn ∧
      (db.flushEach pages).2.sheet layout heap = db.sheet layout heap := by
  obtain ⟨hsolo, hsteady⟩ := hlegible.toSolo.flushEach pages
  exact ⟨hlegible.flushEach_ok pages,
    hlegible.of_steady hsolo (hlegible.toCalm.flushEach pages) hsteady, hsteady.sheet⟩

/-- Whoever comes after a commit has the table to itself. -/
theorem Solo.commit (hsolo : db.Solo layout heap txn) (other : TxnId) :
    (db.commit txn).2.Solo layout heap other := by
  obtain ⟨hflushed, hsteady⟩ :=
    hsolo.flushEach (db.cache.pagesWhere fun frame => frame.dirtiedBy = some txn)
  exact hsolo.of_lengths (hsolo.placed.commit txn) (hsolo.intact.commit hsolo.placed txn).2
    (hsolo.placed.flushEach _).2.1 (hflushed.alone.releaseAll other) hflushed.schema hsteady.lengths

/-- Whoever comes after an abort has the table to itself. -/
theorem Solo.abort (hsolo : db.Solo layout heap txn) (other : TxnId) :
    (db.abort txn).2.Solo layout heap other := by
  obtain ⟨_, hundone, hintact⟩ := hsolo.intact.abort hsolo.placed txn
  obtain ⟨_, _, hothers, _⟩ := rollBack_putBack hsolo.placed txn
  have halone : (db.rollBack txn).2.locks.Alone txn := by
    rw [hothers.locks]
    exact hsolo.alone
  refine hsolo.of_lengths (hsolo.placed.abort txn) hintact hothers.catalog
    (halone.releaseAll other) ?_ hothers.lengths
  intro page resident hframe
  rcases hundone.frame hframe with ⟨_, found, _, hfound, hschema, _⟩ | ⟨_, hfound⟩
  · rw [hschema]
    exact hsolo.schema page found hfound
  · exact hsolo.schema page resident hfound

/-- The sheet when nobody holds a page exclusively: the rows, now and as saved, are those that the
pages are settled to hold. -/
theorem Legible.of_free (hlegible : db.Legible layout heap slots txn)
    (hsolo : after.Solo layout heap other) (hcalm : after.Calm)
    (hlengths : Storage.SameLengths db.storage after.storage)
    (hfree : ∀ page, (after.locks.lockOf page).exclusive = none) {held : PageId → Bytes}
    (hheld : ∀ page, layout.settled after page = held page)
    (hreadable : ∀ page, ReadableIn heap.schema (held page)) :
    after.Legible layout heap slots other ∧
      after.sheet layout heap =
        ⟨(db.sheet layout heap).pages, fun place => valuesIn heap.schema (held place.page) place,
          fun place => valuesIn heap.schema (held place.page) place⟩ := by
  have hcontent : ∀ page, layout.contentOf after page = held page := by
    intro page
    rw [Layout.contentOf_of_free hsolo.placed hsolo.intact (hfree page), hheld]
  refine ⟨⟨hsolo, hcalm, hlegible.geometry, ?_, ?_⟩, ?_⟩
  · intro page
    rw [hcontent]
    exact hreadable page
  · intro page
    rw [hheld]
    exact hreadable page
  · unfold Database.sheet HeapFile.pageCount Storage.pageCount Storage.bytes
    simp only [hcontent, hheld, hlengths _]

/-- A commit succeeds, leaves the table to whoever comes next, and saves the rows. -/
theorem Legible.commit (hlegible : db.Legible layout heap slots txn) (other : TxnId) :
    (db.commit txn).1 = .ok () ∧ (db.commit txn).2.Legible layout heap slots other ∧
      (db.commit txn).2.sheet layout heap =
        { db.sheet layout heap with saved := (db.sheet layout heap).rows } := by
  obtain ⟨hflushed, hsteady⟩ :=
    hlegible.toSolo.flushEach (db.cache.pagesWhere fun frame => frame.dirtiedBy = some txn)
  have hsolo := hlegible.toSolo.commit other
  have hfree : ∀ page, ((db.commit txn).2.locks.lockOf page).exclusive = none :=
    hflushed.alone.exclusive_releaseAll
  have hheld : ∀ page, layout.settled (db.commit txn).2 page = layout.contentOf db page := by
    intro page
    rw [← Layout.contentOf_of_free hsolo.placed hsolo.intact (hfree page)]
    exact contentOf_commit hlegible.placed hlegible.intact txn page
  exact ⟨(hlegible.intact.commit hlegible.placed txn).1,
    hlegible.of_free hsolo ((hlegible.toCalm.flushEach _).finish txn) hsteady.lengths hfree hheld
      hlegible.content⟩

/-- An abort succeeds, leaves the table to whoever comes next, and brings back the saved rows. -/
theorem Legible.abort (hlegible : db.Legible layout heap slots txn) (other : TxnId) :
    (db.abort txn).1 = .ok () ∧ (db.abort txn).2.Legible layout heap slots other ∧
      (db.abort txn).2.sheet layout heap =
        { db.sheet layout heap with rows := (db.sheet layout heap).saved } := by
  obtain ⟨_, _, hothers, _⟩ := rollBack_putBack hlegible.placed txn
  have halone : (db.rollBack txn).2.locks.Alone txn := by
    rw [hothers.locks]
    exact hlegible.alone
  exact ⟨(hlegible.intact.abort hlegible.placed txn).1,
    hlegible.of_free (hlegible.toSolo.abort other) ((hlegible.toCalm.rollBack txn).finish txn)
      hothers.lengths halone.exclusive_releaseAll
      (settled_abort hlegible.placed hlegible.intact txn) hlegible.settled⟩

end Database

end RowStore
