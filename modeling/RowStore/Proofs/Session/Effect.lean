import RowStore.Proofs.Database.Restored

/-!
# What events do to the database

`Effect` lists what an event can do to the database of a session: it is a work of a transaction, a
sequence of flushes, a discard, the end of a transaction, or a change of the catalog.
`Session.effect` says that every event that may happen is one of these, and that it keeps the
session orderly and every page where it belongs. A property of all runs is proved by a case for
each effect.
-/

namespace RowStore

variable {layout : Layout}

/-- The event accesses and changes no page on behalf of a transaction, and ends none. -/
structure Moment.Silent (moment : Moment) : Prop where
  accesses : moment.accesses = []
  changes : moment.reply.changes = []
  completes : ∀ txn, moment.event.completes txn = false

/-- What an event can do to the database. -/
inductive Effect (moment : Moment) : Prop where
  /-- A transaction works. -/
  | work (txn : TxnId) :
      moment.event.actor? = some txn → (∀ other, moment.event.completes other = false) →
      Work txn moment.session.db moment.accesses moment.reply.changes moment.after.db →
      Effect moment
  /-- Pages are flushed. -/
  | flush (pages : List PageId) :
      moment.Silent → moment.event.keepsCatalog = true →
      moment.after.db = (moment.session.db.flushEach pages).2 → Effect moment
  /-- A page is dropped from the cache. -/
  | discard (page : PageId) :
      moment.Silent → moment.event = .discard page →
      moment.after.db = moment.session.db.discardPage page → Effect moment
  /-- A transaction commits. -/
  | commit (txn : TxnId) :
      moment.event = .complete txn true →
      moment.after.db = (moment.session.db.commit txn).2 →
      moment.reply = .finished (moment.session.db.commit txn).1 → Effect moment
  /-- A transaction aborts. -/
  | abort (txn : TxnId) :
      moment.event = .complete txn false →
      moment.after.db = (moment.session.db.abort txn).2 →
      moment.reply = .finished (moment.session.db.abort txn).1 → Effect moment
  /-- The catalog changes. -/
  | catalog (catalog : Catalog) (storage : Storage) :
      moment.Silent → moment.event.keepsCatalog = false →
      moment.after.db = { moment.session.db with catalog, storage } →
      Harmless moment.session.db.catalog moment.session.db.storage catalog storage →
      Effect moment

namespace Database

variable {db : Database} {txn : TxnId}

/-- Dropping a page from the cache drops its frame and no other. -/
theorem frames_discardPage (db : Database) (page other : PageId) :
    (db.discardPage page).cache.frames[other]? =
      if page = other then none else db.cache.frames[other]? :=
  Cache.frames_remove db.cache page other

/-- Dropping a page from the cache keeps the others where they belong. -/
theorem Placed.discardPage (hplaced : db.Placed layout) (page : PageId) :
    (db.discardPage page).Placed layout where
  sound := hplaced.sound
  locates := hplaced.locates
  frame other resident hframe := by
    rw [frames_discardPage] at hframe
    split at hframe
    · simp at hframe
    · exact hplaced.frame other resident hframe
  owner := hplaced.owner
  image := hplaced.image

/-- The before-images after a transaction ended: its own are forgotten. -/
theorem image?_finish (db : Database) (txn other : TxnId) (page : PageId) :
    (db.finish txn).journal.image? other page =
      if txn = other then none else db.journal.image? other page :=
  Journal.image?_erase db.journal txn other page

/-- The end of a transaction changes no before-image of another one. -/
theorem imageBytes_finish (db : Database) {other : TxnId} (hne : txn ≠ other) (page : PageId) :
    (db.finish txn).journal.imageBytes? other page = db.journal.imageBytes? other page := by
  rw [Journal.imageBytes?, image?_finish, if_neg hne]
  rfl

/-- A commit changes no before-image of another transaction. -/
theorem imageBytes_commit {other : TxnId} (hne : txn ≠ other) (page : PageId) :
    (db.commit txn).2.journal.imageBytes? other page = db.journal.imageBytes? other page :=
  (imageBytes_finish _ hne page).trans (imageBytes_flushEach db _ other page)

/-- An abort changes no before-image of another transaction. -/
theorem imageBytes_abort (hplaced : db.Placed layout) {other : TxnId} (hne : txn ≠ other)
    (page : PageId) :
    (db.abort txn).2.journal.imageBytes? other page = db.journal.imageBytes? other page := by
  obtain ⟨_, _, hothers, _⟩ := rollBack_putBack hplaced txn
  rw [abort, imageBytes_finish _ hne, hothers.journal]

/-- The exclusive holder of a page after a transaction ended. -/
theorem exclusive_finish (db : Database) (txn : TxnId) (page : PageId) :
    ((db.finish txn).locks.lockOf page).exclusive =
      if (db.locks.lockOf page).exclusive = some txn then none
      else (db.locks.lockOf page).exclusive := by
  simp only [finish, LockTable.lockOf_releaseAll, LockState.exclusive_drop]

/-- The end of a transaction keeps every page where it belongs. -/
theorem Placed.finish (hplaced : db.Placed layout) (txn : TxnId) :
    (db.finish txn).Placed layout where
  sound := hplaced.sound
  locates := hplaced.locates
  frame := hplaced.frame
  owner other page image himage := by
    rw [image?_finish] at himage
    split at himage
    · simp at himage
    · rename_i hother
      rw [exclusive_finish, hplaced.owner other page image himage, if_neg]
      simpa using Ne.symm hother
  image other page image himage := by
    rw [image?_finish] at himage
    split at himage
    · simp at himage
    · exact hplaced.image other page image himage

/-- A harmless change keeps every page where it belongs, if the new catalog keeps to the layout. -/
theorem Placed.of_harmless (hplaced : db.Placed layout) {catalog : Catalog} {storage : Storage}
    (hharmless : Harmless db.catalog db.storage catalog storage)
    (hlocates : ∀ table heap, catalog.heapFile table = .ok heap →
      layout.Locates table heap.file) :
    Placed layout { db with catalog, storage } where
  sound := hharmless.sound hplaced.sound
  locates := hlocates
  frame page resident hframe := (hplaced.frame page resident hframe).of_covers
    (layout.covers_congr hharmless.content page).mpr
  owner := hplaced.owner
  image txn page image himage := by
    obtain ⟨hlength, hcovers⟩ := hplaced.image txn page image himage
    exact ⟨hlength, (layout.covers_congr hharmless.content page).mpr hcovers⟩

/-- Flushes keep every page where it belongs, and change neither catalog nor locks. -/
theorem Placed.flushEach (hplaced : db.Placed layout) (pages : List PageId) :
    (db.flushEach pages).2.Placed layout ∧ (db.flushEach pages).2.catalog = db.catalog ∧
      (db.flushEach pages).2.locks = db.locks := by
  refine flushEach_preserves (fun after => after.Placed layout ∧
    after.catalog = db.catalog ∧ after.locks = db.locks) pages ?_ ⟨hplaced, rfl, rfl⟩
  intro _ page _ h
  have hflushed := (flushPage_flushed h.1 page).1
  exact ⟨hflushed.placed h.1, hflushed.catalog.trans h.2.1, hflushed.locks.trans h.2.2⟩

/-- Flushes keep every page that the files cover. -/
theorem Placed.covers_flushEach (hplaced : db.Placed layout) (pages : List PageId)
    {page : PageId} (hcovers : layout.Covers db.storage page) :
    layout.Covers (db.flushEach pages).2.storage page := by
  have hkept := flushEach_preserves
    (fun after => after.Placed layout ∧ layout.Covers after.storage page) pages
    (fun written _ h => by
      have hflushed := (flushPage_flushed h.1 written).1
      exact ⟨hflushed.placed h.1, hflushed.covers page h.2⟩)
    ⟨hplaced, hcovers⟩
  exact hkept.2

/-- A commit keeps every page where it belongs. -/
theorem Placed.commit (hplaced : db.Placed layout) (txn : TxnId) :
    (db.commit txn).2.Placed layout :=
  (hplaced.flushEach _).1.finish txn

/-- An abort keeps every page where it belongs. -/
theorem Placed.abort (hplaced : db.Placed layout) (txn : TxnId) :
    (db.abort txn).2.Placed layout := by
  obtain ⟨_, _, _, hrolled, _⟩ := rollBack_putBack hplaced txn
  exact hrolled.finish txn

end Database

namespace Session

variable {session : Session} {txn : TxnId}

/-- A session stays orderly if the operations that wait keep their requests and nobody becomes the
exclusive holder of a page. -/
theorem Orderly.of_locks (horderly : session.Orderly) {after : Session}
    (hwaiting : after.waiting = session.waiting)
    (hexclusive : ∀ page, (after.db.locks.lockOf page).exclusive =
        (session.db.locks.lockOf page).exclusive ∨
      (after.db.locks.lockOf page).exclusive = none)
    (hpending : ∀ (txn : TxnId) (request : PendingRequest),
      after.db.locks.pending[txn]? = some request →
      ∃ found, session.db.locks.pending[txn]? = some found ∧ found.page = request.page ∧
        found.mode = request.mode) : after.Orderly where
  awaits txn operation hoperation := by
    rw [hwaiting] at hoperation
    obtain ⟨hready, hdemand⟩ := horderly.awaits txn operation hoperation
    refine ⟨hready.of_exclusive ?_, ?_⟩
    · intro page howner
      rcases hexclusive page with hsame | hnone
      · rwa [hsame]
      · simp [hnone]
    · intro request hrequest
      obtain ⟨found, hfound, hpage, hmode⟩ := hpending txn request hrequest
      rw [hdemand found hfound, hpage, hmode]
  pending txn hnone := by
    rw [hwaiting] at hnone
    cases hrequest : after.db.locks.pending[txn]? with
    | none => rfl
    | some request =>
        obtain ⟨found, hfound, _⟩ := hpending txn request hrequest
        simp [horderly.pending txn hnone] at hfound

/-- A session stays orderly as long as nobody touches its locks. -/
theorem Orderly.of_locks_eq (horderly : session.Orderly) {after : Session}
    (hwaiting : after.waiting = session.waiting) (hlocks : after.db.locks = session.db.locks) :
    after.Orderly :=
  horderly.of_locks hwaiting (fun _ => by rw [hlocks]; exact .inl rfl)
    fun _ request h => ⟨request, by rwa [← hlocks], rfl, rfl⟩

/-- The end of a transaction keeps a session orderly. -/
theorem Orderly.finish (horderly : session.Orderly) {after : Session} {db : Database}
    (hwaiting : after.waiting = session.waiting) (hlocks : db.locks = session.db.locks)
    (hafter : after.db = db.finish txn) : after.Orderly := by
  refine horderly.of_locks hwaiting ?_ ?_
  · intro page
    rw [hafter, Database.exclusive_finish, hlocks]
    split
    · exact .inr rfl
    · exact .inl rfl
  · intro other request hrequest
    rw [hafter] at hrequest
    rw [← hlocks]
    exact LockTable.pending_releaseAll hrequest

/-- All page files that the catalog of the session names are those of the layout. -/
def KeepsTo (session : Session) (layout : Layout) : Prop :=
  ∀ table heap, session.db.catalog.heapFile table = .ok heap → layout.Locates table heap.file

/-- An event in which a transaction has worked. -/
theorem Worked.effect (hplaced : session.db.Placed layout) {event : Event}
    (hactor : event.actor? = some txn) (hcompletes : ∀ other, event.completes other = false)
    (hworked : Worked txn session (Moment.mk session event).accesses (session.perform event).1
      (session.perform event).2) :
    Effect ⟨session, event⟩ ∧ (session.apply event).Orderly ∧
      (session.apply event).db.Placed layout :=
  ⟨.work txn hactor hcompletes hworked.work, hworked.orderly,
    hworked.work.preserves (fun db => db.Placed layout) (fun hact => hact.placed) hplaced⟩

/-- An event in which pages were flushed. -/
theorem Orderly.flush_effect (horderly : session.Orderly) (hplaced : session.db.Placed layout)
    {event : Event} (hsilent : Moment.Silent ⟨session, event⟩)
    (hkeeps : event.keepsCatalog = true) (pages : List PageId)
    (hwaiting : (session.apply event).waiting = session.waiting)
    (hafter : (session.apply event).db = (session.db.flushEach pages).2) :
    Effect ⟨session, event⟩ ∧ (session.apply event).Orderly ∧
      (session.apply event).db.Placed layout := by
  obtain ⟨hflushed, _, hlocks⟩ := hplaced.flushEach pages
  refine ⟨.flush pages hsilent hkeeps hafter, horderly.of_locks_eq hwaiting ?_, ?_⟩
  · rw [hafter, hlocks]
  · rw [hafter]
    exact hflushed

/-- Every event that may happen has an effect, and keeps the session orderly and every page where
it belongs, as long as the catalog keeps to the layout. -/
theorem effect (horderly : session.Orderly) (hplaced : session.db.Placed layout)
    {history : List Moment} {event : Event} (hadmits : session.Admits history event)
    (hkeeps : event.keepsCatalog = false → (session.apply event).KeepsTo layout) :
    Effect ⟨session, event⟩ ∧ (session.apply event).Orderly ∧
      (session.apply event).db.Placed layout := by
  cases event with
  | call txn call =>
      exact Worked.effect hplaced rfl (fun _ => rfl)
        (horderly.call_worked hplaced.sound hadmits.1 call)
  | resume txn =>
      exact Worked.effect hplaced rfl (fun _ => rfl) (horderly.resume_worked hplaced.sound txn)
  | giveUp txn =>
      exact Worked.effect hplaced rfl (fun _ => rfl) (horderly.giveUp_worked hplaced.sound txn)
  | complete txn commits =>
      cases commits with
      | true =>
          exact ⟨.commit txn rfl rfl rfl,
            horderly.finish rfl (hplaced.flushEach _).2.2 rfl, hplaced.commit txn⟩
      | false =>
          obtain ⟨_, _, hothers, _⟩ := Database.rollBack_putBack hplaced txn
          exact ⟨.abort txn rfl rfl rfl, horderly.finish rfl hothers.locks rfl, hplaced.abort txn⟩
  | flushPage page =>
      exact horderly.flush_effect hplaced ⟨rfl, rfl, fun _ => rfl⟩ rfl [page] rfl
        (Database.flushEach_singleton session.db page).symm
  | flushOf txn =>
      exact horderly.flush_effect hplaced ⟨rfl, rfl, fun _ => rfl⟩ rfl _ rfl rfl
  | flushAll =>
      exact horderly.flush_effect hplaced ⟨rfl, rfl, fun _ => rfl⟩ rfl _ rfl rfl
  | discard page =>
      exact ⟨.discard page ⟨rfl, rfl, fun _ => rfl⟩ rfl rfl, horderly.of_locks_eq rfl rfl,
        hplaced.discardPage page⟩
  | changeCatalog change =>
      obtain ⟨catalog, storage, hchange, hharmless⟩ :=
        Database.changeCatalog_eq session.db change
      have hafter : (session.apply (.changeCatalog change)).db =
          { session.db with catalog, storage } := hchange
      refine ⟨.catalog catalog storage ⟨rfl, rfl, fun _ => rfl⟩ rfl hafter hharmless,
        horderly.of_locks_eq rfl ?_, ?_⟩
      · rw [hafter]
      · rw [hafter]
        refine hplaced.of_harmless hharmless fun table heap hheap => hkeeps rfl table heap ?_
        rw [hafter]
        exact hheap

/-- A session over a database that was opened is orderly, and every page is where it belongs. -/
theorem orderly_of_opened {db : Database} (hopened : db.Opened)
    (hkeeps : KeepsTo { db } layout) :
    Orderly { db } ∧ db.Placed layout := by
  obtain ⟨hsound, hframes, hjournal, hlocks⟩ := hopened.sound
  refine ⟨⟨by simp, ?_⟩, hsound, hkeeps, ?_, ?_, ?_⟩
  · intro txn _
    simp [hlocks]
  · intro page resident h
    simp [hframes] at h
  · intro txn page image h
    simp [hjournal] at h
  · intro txn page image h
    simp [hjournal] at h

/-- What holds at first and is kept by every effect holds of every run whose catalogs keep to the
layout. The case of a step may assume that the session before it was orderly, and that every page
was where it belongs. -/
theorem Run.preserves {db : Database} {history : List Moment} {session : Session}
    (allowed : Moment → Prop) (holds : List Moment → Session → Prop) (hopened : db.Opened)
    (hlayout : KeepsTo { db } layout) (hrun : Run { db } history session)
    (hallowed : ∀ moment ∈ history, allowed moment)
    (hkeeps : ∀ moment, allowed moment → moment.event.keepsCatalog = false →
      moment.after.KeepsTo layout)
    (hstart : holds [] { db })
    (hstep : ∀ {history : List Moment} {session : Session} {event : Event},
      session.Orderly → session.db.Placed layout → session.Admits history event →
      allowed ⟨session, event⟩ → Effect ⟨session, event⟩ → holds history session →
      holds (history ++ [⟨session, event⟩]) (session.apply event)) :
    session.Orderly ∧ session.db.Placed layout ∧ holds history session := by
  -- An event is only known to have an effect where the session is orderly and every page is where
  -- it belongs, so all three go together.
  induction hrun with
  | start =>
      obtain ⟨horderly, hplaced⟩ := orderly_of_opened hopened hlayout
      exact ⟨horderly, hplaced, hstart⟩
  | step hrun hadmits ih =>
      obtain ⟨horderly, hplaced, hholds⟩ :=
        ih fun moment h => hallowed moment (List.mem_append_left _ h)
      have hmoment := hallowed ⟨_, _⟩ (List.mem_append_right _ (List.mem_singleton.mpr rfl))
      obtain ⟨heffect, horderly', hplaced'⟩ :=
        effect horderly hplaced hadmits (hkeeps ⟨_, _⟩ hmoment)
      exact ⟨horderly', hplaced', hstep horderly hplaced hadmits hmoment heffect hholds⟩

end Session

end RowStore
