import RowStore.Proofs.Database.Intact

/-!
# Aborts are exact

`abort_restores` says what an abort does in any run of any number of transactions over an unchanging
catalog whose tables keep their pages in files of their own: it succeeds, every page on which the
transaction ever got write access holds again, in the cache and on disk, what it held just before
the first such access, and no other page is changed. The journal is the link: along a run, the
before-images of a transaction that has not ended are what its first write accesses found.
-/

namespace RowStore

variable {layout : Layout}

/-- What a page held just before the first write access of a transaction to it, if there is one. -/
def firstWrite (accesses : List Access) (txn : TxnId) (page : PageId) : Option Bytes :=
  (accesses.find? fun access =>
    access.txn = txn && access.page = page && access.mode = .exclusive).map Access.content

/-- The accesses of a history, in their order. -/
def accessesIn (history : List Moment) : List Access :=
  history.flatMap Moment.accesses

theorem firstWrite_append (accesses later : List Access) (txn : TxnId) (page : PageId) :
    firstWrite (accesses ++ later) txn page =
      (firstWrite accesses txn page).or (firstWrite later txn page) := by
  simp only [firstWrite, List.find?_append]
  cases List.find? _ accesses <;> rfl

/-- An act notes what its first write access to a page finds there, and keeps what was noted
before. -/
theorem Act.imageBytes {txn : TxnId} {before after : Database} {accesses : List Access}
    {changes : List PageId} (hact : Act txn before accesses changes after) (other : TxnId)
    (page : PageId) :
    after.journal.imageBytes? other page =
      (before.journal.imageBytes? other page).or (firstWrite accesses other page) := by
  cases hact with
  | @note target resident hframe howner =>
      simp only [Journal.imageBytes?, Journal.image?_record, firstWrite]
      by_cases htxn : txn = other
      · subst htxn
        by_cases hpage : target = page
        · subst hpage
          cases before.journal.image? txn target <;> simp
        · simp [hpage]
      · simp [htxn]
  | fetch hfetched => simp [hfetched.journal, firstWrite]
  | lock | release | read | change | append => simp [firstWrite]

/-- A work notes what its first write access to a page finds there. -/
theorem Work.imageBytes {txn : TxnId} {before after : Database} {accesses : List Access}
    {changes : List PageId} (hwork : Work txn before accesses changes after) (other : TxnId)
    (page : PageId) :
    after.journal.imageBytes? other page =
      (before.journal.imageBytes? other page).or (firstWrite accesses other page) := by
  induction hwork with
  | none db => simp [firstWrite]
  | cons hact _ ih =>
      rw [ih, hact.imageBytes, firstWrite_append, Option.or_assoc]

/-- Along a run, the catalog is the one of the start, cache, journal, and disk agree, and the
before-images of a transaction that has not ended are what its first write accesses found. -/
structure Session.Tracked (layout : Layout) (catalog : Catalog) (history : List Moment)
    (session : Session) : Prop where
  catalog : session.db.catalog = catalog
  intact : session.db.Intact layout
  noted : ∀ txn, (∀ moment ∈ history, moment.event.completes txn = false) → ∀ page,
    session.db.journal.imageBytes? txn page = firstWrite (accessesIn history) txn page

namespace Session

variable {catalog : Catalog} {history : List Moment} {session : Session} {event : Event}

/-- What was noted stays so after an event that ends no transaction, with what it notes itself. -/
theorem Tracked.noted_append (htracked : session.Tracked layout catalog history)
    (hnoted : ∀ txn page, event.completes txn = false →
      (session.apply event).db.journal.imageBytes? txn page =
        (session.db.journal.imageBytes? txn page).or
          (firstWrite (Moment.mk session event).accesses txn page))
    (txn : TxnId)
    (hopen : ∀ moment ∈ history ++ [⟨session, event⟩], moment.event.completes txn = false)
    (page : PageId) :
    (session.apply event).db.journal.imageBytes? txn page =
      firstWrite (accessesIn (history ++ [⟨session, event⟩])) txn page := by
  have hlast : event.completes txn = false :=
    hopen ⟨session, event⟩ (List.mem_append_right _ (List.mem_singleton.mpr rfl))
  rw [hnoted txn page hlast,
    htracked.noted txn (fun moment h => hopen moment (List.mem_append_left _ h)) page]
  simp only [accessesIn, List.flatMap_append, firstWrite_append, List.flatMap_cons,
    List.flatMap_nil, List.append_nil]

/-- A transaction that goes on is not the one that ends. -/
theorem ne_of_completes {txn other : TxnId} {commits : Bool}
    (h : (Event.complete txn commits).completes other = false) : txn ≠ other := by
  rintro rfl
  simp [Event.completes] at h

/-- An event that leaves the catalog alone keeps track. -/
theorem Tracked.apply (htracked : session.Tracked layout catalog history)
    (hplaced : session.db.Placed layout) (heffect : Effect ⟨session, event⟩)
    (hcatalog : event.keepsCatalog = true) :
    (session.apply event).Tracked layout catalog (history ++ [⟨session, event⟩]) := by
  have hintact := htracked.intact
  cases heffect with
  | work txn _ _ hwork =>
      have hkept := hwork.preserves
        (fun db => db.Placed layout ∧ db.Intact layout)
        (fun hact h => ⟨hact.placed h.1, hact.intact h.1 h.2⟩) ⟨hplaced, hintact⟩
      exact ⟨hwork.catalog.trans htracked.catalog, hkept.2,
        htracked.noted_append fun other page _ => hwork.imageBytes other page⟩
  | flush pages hsilent _ hafter =>
      have hafter : (session.apply event).db = (session.db.flushEach pages).2 := hafter
      refine ⟨?_, ?_, htracked.noted_append ?_⟩
      · rw [hafter, (hplaced.flushEach pages).2.1, htracked.catalog]
      · rw [hafter]
        exact hintact.flushEach hplaced pages
      · intro other page _
        rw [hafter, Database.imageBytes_flushEach, hsilent.accesses]
        simp [firstWrite]
  | discard page hsilent _ hafter =>
      have hafter : (session.apply event).db = session.db.discardPage page := hafter
      refine ⟨?_, ?_, htracked.noted_append ?_⟩
      · rw [hafter]
        exact htracked.catalog
      · rw [hafter]
        exact hintact.discardPage page
      · intro other page _
        rw [hafter, hsilent.accesses]
        simp [firstWrite, Database.discardPage]
  | commit txn hevent hafter _ =>
      have hevent : event = .complete txn true := hevent
      have hafter : (session.apply event).db = (session.db.commit txn).2 := hafter
      refine ⟨?_, ?_, htracked.noted_append ?_⟩
      · rw [hafter]
        exact (hplaced.flushEach _).2.1.trans htracked.catalog
      · rw [hafter]
        exact (hintact.commit hplaced txn).2
      · intro other page hother
        subst hevent
        rw [hafter, Database.imageBytes_commit (ne_of_completes hother)]
        simp [firstWrite, Moment.accesses]
  | abort txn hevent hafter _ =>
      have hevent : event = .complete txn false := hevent
      have hafter : (session.apply event).db = (session.db.abort txn).2 := hafter
      obtain ⟨_, _, hkept, _⟩ := Database.rollBack_undone hplaced hintact txn
      refine ⟨?_, ?_, htracked.noted_append ?_⟩
      · rw [hafter]
        exact hkept.trans htracked.catalog
      · rw [hafter]
        exact (hintact.abort hplaced txn).2.2
      · intro other page hother
        subst hevent
        rw [hafter, Database.imageBytes_abort hplaced (ne_of_completes hother)]
        simp [firstWrite, Moment.accesses]
  | catalog _ _ _ hchanges _ _ => simp [hcatalog] at hchanges

/-- Every run over an unchanging catalog, whose tables have files of their own, keeps track. -/
theorem Run.tracked {db : Database} (hopened : db.Opened) (hapart : db.catalog.FilesApart)
    (hrun : Run { db } history session)
    (hcatalog : ∀ moment ∈ history, moment.event.keepsCatalog = true) :
    session.Orderly ∧ session.db.Placed (db.catalog.layout hapart) ∧
      session.Tracked (db.catalog.layout hapart) db.catalog history := by
  obtain ⟨hsound, _, hjournal, _⟩ := hopened.sound
  refine Run.preserves (fun moment => moment.event.keepsCatalog = true)
    (fun history session => session.Tracked (db.catalog.layout hapart) db.catalog history) hopened
    (fun table heap => Catalog.locates_layout hapart hsound) hrun hcatalog
    (fun moment h hchanges => by simp [h] at hchanges) ⟨rfl, ?_, ?_⟩
    fun _ hplaced _ hkeeps heffect htracked => htracked.apply hplaced heffect hkeeps
  · exact hopened.intact
  · intro txn _ page
    simp [hjournal, Journal.imageBytes?, accessesIn, firstWrite]

/-- After every event of such a run, the catalog is the one of the start. -/
theorem Run.catalog_after {db : Database} {moment : Moment} (hopened : db.Opened)
    (hapart : db.catalog.FilesApart) (hrun : Run { db } history session)
    (hcatalog : ∀ moment ∈ history, moment.event.keepsCatalog = true) (hmoment : moment ∈ history) :
    moment.after.db.catalog = db.catalog := by
  obtain ⟨earlier, later, rfl, hshorter⟩ := hrun.of_mem hmoment
  refine (hshorter.tracked hopened hapart fun other hother => hcatalog other ?_).2.2.catalog
  rw [List.mem_append, List.mem_singleton] at hother
  rcases hother with hother | rfl
  · exact List.mem_append_left _ hother
  · exact List.mem_append_right _ (List.mem_cons_self ..)

/-- Aborts are exact. In every run over an unchanging catalog whose tables keep their pages in files
of their own, a transaction that may end now can abort: this succeeds, every page that it ever got
write access to holds, in the cache and on disk, what it held just before the first such access,
and the bytes of every other page stay as they are. -/
theorem abort_restores {db : Database} {txn : TxnId} (hopened : db.Opened)
    (hapart : db.catalog.FilesApart) (hrun : Run { db } history session)
    (hcatalog : ∀ moment ∈ history, moment.event.keepsCatalog = true)
    (hadmits : session.Admits history (.complete txn false)) :
    (session.perform (.complete txn false)).1 = .finished (.ok ()) ∧
      (∀ page content, firstWrite (accessesIn history) txn page = some content →
        (∀ bytes, (session.apply (.complete txn false)).db.cached? page = some bytes →
          bytes = content) ∧
        (session.apply (.complete txn false)).db.onDisk page = content) ∧
      ∀ page, firstWrite (accessesIn history) txn page = none →
        (session.apply (.complete txn false)).db.cached? page = session.db.cached? page ∧
        (session.apply (.complete txn false)).db.onDisk page = session.db.onDisk page := by
  obtain ⟨_, hplaced, htracked⟩ := hrun.tracked hopened hapart hcatalog
  have hsound := hopened.sound.1
  obtain ⟨hok, hundone, _⟩ := htracked.intact.abort hplaced txn
  have hdisk : ∀ page, (db.catalog.layout hapart).bytes session.db.storage page =
      session.db.onDisk page :=
    Catalog.bytes_layout hapart hsound htracked.catalog
  have hafter : ∀ page, (db.catalog.layout hapart).bytes (session.db.abort txn).2.storage page =
      (session.apply (.complete txn false)).db.onDisk page := by
    obtain ⟨_, _, hkept, _⟩ := Database.rollBack_undone hplaced htracked.intact txn
    exact Catalog.bytes_layout hapart hsound (hkept.trans htracked.catalog)
  have hnoted := htracked.noted txn hadmits.2
  refine ⟨congrArg Reply.finished hok, ?_, ?_⟩
  · intro page content hcontent
    rw [← hnoted page, Journal.imageBytes?, Option.map_eq_some_iff] at hcontent
    obtain ⟨image, himage, rfl⟩ := hcontent
    refine ⟨?_, (hafter page).symm.trans (hundone.restored page image himage).1⟩
    intro bytes hcached
    simp only [Database.cached?, Option.map_eq_some_iff] at hcached
    obtain ⟨resident, hframe, rfl⟩ := hcached
    rcases hundone.frame hframe with ⟨noted, _, hnoted, _, _, hbytes, _⟩ | ⟨hnone, _⟩
    · rw [himage, Option.some.injEq] at hnoted
      rw [hbytes, hnoted]
    · simp [hnone] at himage
  · intro page hnone
    rw [← hnoted page, Journal.imageBytes?, Option.map_eq_none_iff] at hnone
    obtain ⟨hframe, hbytes⟩ := hundone.others page hnone
    refine ⟨?_, (hafter page).symm.trans (hbytes.trans (hdisk page))⟩
    exact congrArg (Option.map fun resident : Resident => resident.page.bytes) hframe

/-- Rows of one number. -/
def sampleSchema : Schema := ⟨[⟨"v", .integer⟩], by simp, by simp, by simp⟩

/-- A row of one number. -/
def sampleRow (number : Int32) : Row := { schema := sampleSchema, values := [.integer number] }

/-- A small page size, and room for few pages. -/
def sampleConfig : Config := { pageSize := 16, capacity := 4, lockTimeout := none }

/-- A small database with two tables, which keep their pages in these files. -/
def sampleTables (first second : String) : Database :=
  (({ config := sampleConfig, storage := {}, catalog := { pageSize := 16 },
      cache := { capacity := 4 } } : Database).changeCatalog
    (.create "a" sampleSchema first none)).changeCatalog (.create "b" sampleSchema second none)

theorem sampleTables_opened (first second : String) : (sampleTables first second).Opened :=
  .change _ (.change _ (.create (show Database.create sampleConfig {} = .ok _ from rfl)))

/-- A row is stored, another transaction stores a second one on the same page, and the page is
written before this transaction ends: the abort puts the page back. -/
theorem abort_restores_stolen_page :
    ∃ history session content,
      Run { db := sampleTables "a.dat" "b.dat" } history session ∧
        firstWrite (accessesIn history) ⟨2⟩ ⟨⟨1⟩, 0⟩ = some content ∧
        session.db.onDisk ⟨⟨1⟩, 0⟩ ≠ content ∧
        (session.apply (.complete ⟨2⟩ false)).db.onDisk ⟨⟨1⟩, 0⟩ = content := by
  have hreplay : ((replay { db := sampleTables "a.dat" "b.dat" } []
      [.call ⟨1⟩ (.insert ⟨1⟩ (sampleRow 7)), .complete ⟨1⟩ true,
        .call ⟨2⟩ (.insert ⟨1⟩ (sampleRow 9)), .flushAll]).any fun (history, session) =>
      (history.all fun moment => moment.event.keepsCatalog) &&
        decide (session.Admits history (.complete ⟨2⟩ false)) &&
        (firstWrite (accessesIn history) ⟨2⟩ ⟨⟨1⟩, 0⟩).any fun content =>
          session.db.onDisk ⟨⟨1⟩, 0⟩ ≠ content) = true := by
    decide +kernel
  obtain ⟨⟨history, session⟩, hreplay, hchecks⟩ := Option.any_eq_true _ _ |>.mp hreplay
  simp only [Bool.and_eq_true, List.all_eq_true, decide_eq_true_eq, Option.any_eq_true] at hchecks
  obtain ⟨⟨hcatalog, hadmits⟩, content, hcontent, hstolen⟩ := hchecks
  have hrun := Run.of_replay .start hreplay
  have hrestores := abort_restores (sampleTables_opened "a.dat" "b.dat") (by decide +kernel) hrun
    hcatalog hadmits
  exact ⟨history, session, content, hrun, hcontent, hstolen,
    (hrestores.2.1 ⟨⟨1⟩, 0⟩ content hcontent).2⟩

/-- Tables that share a file have two names for each page, and a lock for each name: what one
transaction commits under one name is on disk after another has aborted under the other. -/
theorem abort_of_shared_file :
    ¬ ∀ {db : Database} {history : List Moment} {session : Session} {txn : TxnId}, db.Opened →
      Run { db } history session →
      (∀ moment ∈ history, moment.event.keepsCatalog = true) →
      session.Admits history (.complete txn false) →
      ∀ page content, firstWrite (accessesIn history) txn page = some content →
        (session.apply (.complete txn false)).db.onDisk page = content := by
  intro hclaim
  have hreplay : ((replay { db := sampleTables "x.dat" "x.dat" } []
      [.call ⟨1⟩ (.insert ⟨1⟩ (sampleRow 7)), .complete ⟨1⟩ true,
        .call ⟨2⟩ (.getPage ⟨⟨1⟩, 0⟩ .exclusive),
        .call ⟨3⟩ (.insert ⟨2⟩ (sampleRow 9)), .complete ⟨3⟩ true]).any fun (history, session) =>
      (history.all fun moment => moment.event.keepsCatalog) &&
        decide (session.Admits history (.complete ⟨2⟩ false)) &&
        (firstWrite (accessesIn history) ⟨2⟩ ⟨⟨1⟩, 0⟩).any fun content =>
          (session.apply (.complete ⟨2⟩ false)).db.onDisk ⟨⟨1⟩, 0⟩ ≠ content) = true := by
    decide +kernel
  obtain ⟨⟨history, session⟩, hreplay, hchecks⟩ := Option.any_eq_true _ _ |>.mp hreplay
  simp only [Bool.and_eq_true, List.all_eq_true, decide_eq_true_eq, Option.any_eq_true] at hchecks
  obtain ⟨⟨hcatalog, hadmits⟩, content, hcontent, hdiffers⟩ := hchecks
  exact hdiffers (hclaim (sampleTables_opened "x.dat" "x.dat") (.of_replay .start hreplay)
    hcatalog hadmits ⟨⟨1⟩, 0⟩ content hcontent)

end Session

end RowStore
