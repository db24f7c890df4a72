import RowStore.Proofs.Session.Undo

/-!
# Clean pages and their copies on disk

A page in the cache that counts as clean should have the bytes that are in the file it was loaded
from, or a write that is owed is lost when the page is evicted. `coherent_throughout_iff` says
exactly when this holds throughout a run in which the catalog may change at any time, so that
writes, commits, and aborts may fail. The one thing that breaks it is an abort that puts back
a before-image which is not on disk either, because the page still owed the write of a transaction
that failed to commit when the before-image was noted: the page then counts as clean, and nothing is
written.
-/

namespace RowStore

variable {layout : Layout}

/-- Every clean page in the cache has the bytes that the file holds that it was loaded from. -/
def Database.Coherent (db : Database) : Prop :=
  ∀ (page : PageId) (resident : Resident), db.cache.frames[page]? = some resident →
    resident.dirtiedBy = none →
    resident.page.bytes = Bytes.slice (db.storage.bytes resident.origin)
      (page.number * resident.origin.pageSize) resident.origin.pageSize

/-- The event is an abort that takes back in the cache what is not on disk, and writes nothing: a
page is in the cache whose before-image was not stolen, and is not what the file holds that the page
was loaded from. -/
def Moment.ForgetsWrite (moment : Moment) : Prop :=
  ∃ (txn : TxnId) (page : PageId) (resident : Resident) (image : BeforeImage),
    moment.event = .complete txn false ∧
    moment.session.db.cache.frames[page]? = some resident ∧
    moment.session.db.journal.image? txn page = some image ∧ image.stolen = false ∧
    image.bytes ≠ Bytes.slice (moment.session.db.storage.bytes resident.origin)
      (page.number * resident.origin.pageSize) resident.origin.pageSize

namespace Database

variable {db : Database} {txn : TxnId}

/-- A page in the cache came from the place that the layout names for it. -/
theorem Placed.slice_origin (hplaced : db.Placed layout) {page : PageId} {resident : Resident}
    (hframe : db.cache.frames[page]? = some resident) :
    Bytes.slice (db.storage.bytes resident.origin) (page.number * resident.origin.pageSize)
      resident.origin.pageSize = layout.bytes db.storage page :=
  ((hplaced.frame page resident hframe).origin.bytes_eq page.number).symm

/-- The files that pages were loaded from are those of the layout. -/
theorem Placed.coherent_iff (hplaced : db.Placed layout) : db.Coherent ↔ db.Synced layout := by
  constructor
  · intro hcoherent page resident hframe hclean
    rw [hcoherent page resident hframe hclean, hplaced.slice_origin hframe]
  · intro hsynced page resident hframe hclean
    rw [hsynced page resident hframe hclean, hplaced.slice_origin hframe]

/-- An abort that forgets no write makes no clean page differ from its copy on disk. -/
theorem Synced.abort (hsynced : db.Synced layout) (hplaced : db.Placed layout)
    (hkeeps : ∀ (page : PageId) (resident : Resident) (image : BeforeImage),
      db.cache.frames[page]? = some resident → db.journal.image? txn page = some image →
      image.stolen = false → image.bytes = layout.bytes db.storage page) :
    (db.abort txn).2.Synced layout := by
  obtain ⟨pages, hpages, hothers, _, hputs, _⟩ := rollBack_putBack hplaced txn
  intro page resident hframe hclean
  cases himage : db.journal.image? txn page with
  | none =>
      have hpage : page ∉ pages := by
        rw [hpages, himage]
        simp
      rw [show (db.abort txn).2.cache.frames[page]? = db.cache.frames[page]? from
        hothers.frames page hpage] at hframe
      exact (hsynced page resident hframe hclean).trans (hothers.bytes page hpage).symm
  | some image =>
      obtain ⟨habsent, hresident, hwritten, hkept⟩ := hputs page image himage
      cases hfound : db.cache.frames[page]? with
      | none =>
          rw [show (db.abort txn).2.cache.frames[page]? = none from habsent hfound] at hframe
          simp at hframe
      | some found =>
          obtain ⟨restored, hrestored, _, _, hbytes, _, hwrites⟩ := hresident found hfound
          rw [show (db.abort txn).2.cache.frames[page]? = some restored from hrestored,
            Option.some.injEq] at hframe
          subst hframe
          cases hstolen : image.stolen with
          -- A stolen page that counts as clean again was written, and its table is registered.
          | true =>
              have hmarked := (Journal.isStolen_iff ..).mpr ⟨image, himage, hstolen⟩
              exact hbytes.trans (hwritten (hwrites.mp hclean hmarked) (.inr hmarked)).symm
          -- A page that was not stolen is not written, so its copy on disk is what it was.
          | false =>
              rw [hbytes, hkeeps page found image hfound himage hstolen]
              refine (hkept ?_).symm
              intro h
              rcases h.2 with h | h
              · simp [hfound] at h
              · obtain ⟨marked, hnoted, hmarked⟩ := (Journal.isStolen_iff ..).mp h
                rw [himage, Option.some.injEq] at hnoted
                rw [hnoted, hmarked] at hstolen
                simp at hstolen

/-- An abort that forgets a write leaves a clean page that differs from its copy on disk. -/
theorem not_synced_abort (hplaced : db.Placed layout) {page : PageId} {resident : Resident}
    {image : BeforeImage} (hframe : db.cache.frames[page]? = some resident)
    (himage : db.journal.image? txn page = some image) (hunstolen : image.stolen = false)
    (hdiffers : image.bytes ≠ layout.bytes db.storage page) :
    ¬ (db.abort txn).2.Synced layout := by
  intro hsynced
  obtain ⟨_, _, _, _, hputs, _⟩ := rollBack_putBack hplaced txn
  obtain ⟨_, hresident, _, hkept⟩ := hputs page image himage
  have hunmarked : ¬ db.journal.isStolen txn page = true := by
    rw [Journal.isStolen_iff]
    rintro ⟨found, hfound, hmarked⟩
    rw [himage, Option.some.injEq] at hfound
    simp [hfound, hmarked] at hunstolen
  obtain ⟨restored, hrestored, _, _, hbytes, _, hclean⟩ := hresident resident hframe
  have hdisk := hsynced page restored hrestored (hclean.mpr fun h => absurd h hunmarked)
  apply hdiffers
  rw [← hbytes, hdisk]
  refine hkept ?_
  intro h
  rcases h.2 with h | h
  · simp [hframe] at h
  · exact hunmarked h

end Database

namespace Session

variable {history : List Moment} {session : Session} {event : Event}

/-- Every event that forgets no write makes no clean page differ from its copy on disk. -/
theorem synced_apply (hplaced : session.db.Placed layout) (hsynced : session.db.Synced layout)
    (heffect : Effect ⟨session, event⟩) (hkeeps : ¬ Moment.ForgetsWrite ⟨session, event⟩) :
    (session.apply event).db.Synced layout := by
  cases heffect with
  | work txn _ _ hwork =>
      exact (hwork.preserves (fun db => db.Placed layout ∧ db.Synced layout)
        (fun hact h => ⟨hact.placed h.1, hact.synced h.1 h.2⟩) ⟨hplaced, hsynced⟩).2
  | flush pages _ _ hafter =>
      have hafter : (session.apply event).db = (session.db.flushEach pages).2 := hafter
      rw [hafter]
      exact hsynced.flushEach hplaced pages
  | discard page _ _ hafter =>
      have hafter : (session.apply event).db = session.db.discardPage page := hafter
      rw [hafter]
      exact hsynced.discardPage page
  | commit txn _ hafter _ =>
      have hafter : (session.apply event).db = (session.db.commit txn).2 := hafter
      rw [hafter]
      exact hsynced.flushEach hplaced _
  | abort txn hevent hafter _ =>
      have hafter : (session.apply event).db = (session.db.abort txn).2 := hafter
      rw [hafter]
      refine hsynced.abort hplaced ?_
      intro page resident image hframe himage hunstolen
      rw [← hplaced.slice_origin hframe]
      apply Decidable.byContradiction
      intro hdiffers
      exact hkeeps ⟨txn, page, resident, image, hevent, hframe, himage, hunstolen, hdiffers⟩
  | catalog catalog storage _ _ hafter hharmless =>
      have hafter : (session.apply event).db = { session.db with catalog, storage } := hafter
      rw [hafter]
      intro page resident hframe hclean
      exact (hsynced page resident hframe hclean).trans
        (layout.bytes_congr hharmless.content page).symm

/-- Before and after every event of a run whose catalogs keep to the layout, every page is where it
belongs. -/
theorem Run.placed_of_mem {db : Database} {moment : Moment} (hopened : db.Opened)
    (hlayout : KeepsTo { db } layout) (hrun : Run { db } history session)
    (hkeeps : ∀ moment ∈ history, moment.after.KeepsTo layout) (hmoment : moment ∈ history) :
    moment.session.db.Placed layout ∧ moment.after.db.Placed layout := by
  have hplaced : ∀ {part last}, Run { db } part last → (∀ moment ∈ part, moment ∈ history) →
      last.db.Placed layout := fun hpart hsub =>
    (Run.preserves (fun moment => moment.after.KeepsTo layout)
      (fun _ _ => True) hopened hlayout hpart
      (fun other hother => hkeeps other (hsub other hother)) (fun _ h _ => h) trivial
      fun _ _ _ _ _ _ => trivial).2.1
  obtain ⟨earlier, later, rfl, hshorter⟩ := hrun.of_mem hmoment
  refine ⟨hplaced hshorter.of_append.1 fun other hother => List.mem_append_left _ hother,
    hplaced hshorter ?_⟩
  intro other hother
  rcases List.mem_append.mp hother with hother | hother
  · exact List.mem_append_left _ hother
  · rw [List.mem_singleton.mp hother]
    exact hmoment

/-- Clean pages equal their copies on disk throughout a run, also when the catalog changes and
writes fail, exactly if no abort of the run forgets a write. Each table number has to keep one file
for itself. -/
theorem coherent_throughout_iff {db : Database} (hopened : db.Opened)
    (hlayout : KeepsTo { db } layout) (hrun : Run { db } history session)
    (hkeeps : ∀ moment ∈ history, moment.after.KeepsTo layout) :
    (∀ moment ∈ history, moment.after.db.Coherent) ↔
      ∀ moment ∈ history, ¬ moment.ForgetsWrite := by
  constructor
  · rintro hcoherent moment hmoment
      ⟨txn, page, resident, image, hevent, hframe, himage, hunstolen, hdiffers⟩
    obtain ⟨hplaced, hplaced'⟩ := hrun.placed_of_mem hopened hlayout hkeeps hmoment
    have hafter : moment.after.db = (moment.session.db.abort txn).2 := by
      rw [Moment.after, hevent]
      rfl
    rw [hplaced.slice_origin hframe] at hdiffers
    -- Right after the abort there is a clean page that differs from its copy.
    apply Database.not_synced_abort hplaced hframe himage hunstolen hdiffers
    rw [← hafter]
    exact hplaced'.coherent_iff.mp (hcoherent moment hmoment)
  · intro hforgets
    -- What is kept along the run is stated of all moments so far, since `Run.preserves` only tells
    -- of the last session.
    obtain ⟨_, _, _, hsynced⟩ := Run.preserves
      (fun moment => moment.after.KeepsTo layout ∧ ¬ moment.ForgetsWrite)
      (fun history session => session.db.Synced layout ∧
        ∀ moment ∈ history, moment.after.db.Synced layout)
      hopened hlayout hrun (fun moment h => ⟨hkeeps moment h, hforgets moment h⟩)
      (fun _ h _ => h.1) ⟨by simp [Database.Synced, hopened.sound.2.1], by simp⟩
      fun {history session event} _ hplaced _ hallowed heffect hsynced => by
        have hafter := synced_apply hplaced hsynced.1 heffect hallowed.2
        refine ⟨hafter, ?_⟩
        intro moment hmoment
        rcases List.mem_append.mp hmoment with hmoment | hmoment
        · exact hsynced.2 moment hmoment
        · rw [List.mem_singleton.mp hmoment]
          exact hafter
    intro moment hmoment
    have hplaced := (hrun.placed_of_mem hopened hlayout hkeeps hmoment).2
    exact hplaced.coherent_iff.mpr (hsynced moment hmoment)

/-- A row is stored and its table is dropped, so that the transaction cannot commit and its page
keeps counting as changed. Another transaction takes back what it did to a page of its own. -/
theorem coherent_after_failed_commit :
    ∃ history session, Run { db := sampleTables "a.dat" "b.dat" } history session ∧
      (∃ moment ∈ history, moment.reply = .finished (.error (.tableNotFound ⟨1⟩))) ∧
      ∀ moment ∈ history, moment.after.db.Coherent := by
  have hreplay : ((replay { db := sampleTables "a.dat" "b.dat" } []
      [.call ⟨1⟩ (.insert ⟨1⟩ (sampleRow 7)), .call ⟨2⟩ (.insert ⟨2⟩ (sampleRow 9)),
        .changeCatalog .clear, .complete ⟨1⟩ true, .complete ⟨2⟩ false]).any fun (history, _) =>
      (history.any fun moment => moment.reply = .finished (.error (.tableNotFound ⟨1⟩))) &&
      (history.all fun moment =>
        moment.after.db.catalog = (sampleTables "a.dat" "b.dat").catalog ||
          moment.after.db.catalog.tables = ∅) &&
      history.all fun moment =>
        (moment.session.db.journal.imagesOf ⟨2⟩).toList.all fun (page, image) =>
          (moment.session.db.cache.frames[page]?).all fun resident =>
            moment.event ≠ .complete ⟨2⟩ false || image.stolen ||
              image.bytes = Bytes.slice (moment.session.db.storage.bytes resident.origin)
                (page.number * resident.origin.pageSize) resident.origin.pageSize) = true := by
    decide +kernel
  obtain ⟨⟨history, session⟩, hreplay, hchecks⟩ := (Option.any_eq_true _ _).mp hreplay
  simp only [Bool.and_eq_true, Bool.or_eq_true, List.all_eq_true, List.any_eq_true,
    decide_eq_true_eq, Option.all_eq_true] at hchecks
  obtain ⟨⟨hfails, hcatalog⟩, hkept⟩ := hchecks
  have hrun := Run.of_replay .start hreplay
  obtain ⟨_, rfl, hevents⟩ := replay_eq_append hreplay
  have hopened := sampleTables_opened "a.dat" "b.dat"
  have hapart : (sampleTables "a.dat" "b.dat").catalog.FilesApart := by decide +kernel
  refine ⟨_, session, hrun, hfails, ?_⟩
  refine (coherent_throughout_iff hopened
    (fun _ _ => Catalog.locates_layout hapart hopened.sound.1) hrun ?_).mpr ?_
  · intro moment hmoment table heap hheap
    rcases hcatalog moment hmoment with hsame | hempty
    · rw [hsame] at hheap
      exact Catalog.locates_layout hapart hopened.sound.1 hheap
    · rw [Catalog.heapFile_eq_ok_iff, hempty] at hheap
      simp at hheap
  · rintro moment hmoment ⟨txn, page, resident, image, hevent, hframe, himage, hunstolen, hdiffers⟩
    have hlisted := List.mem_map_of_mem (f := Moment.event) hmoment
    rw [hevents, hevent] at hlisted
    obtain rfl : txn = ⟨2⟩ := by simpa using hlisted
    have himage := (Journal.mem_imagesOf ..).mpr himage
    simpa [hevent, hunstolen, hdiffers] using hkept moment hmoment _ himage resident hframe

/-- A transaction stores a row and cannot commit, because its table is dropped. The next one takes
the page for writing and aborts: the page then counts as clean, and the row is not on disk. -/
theorem abort_after_failed_commit :
    ¬ ∀ {db : Database} {history : List Moment} {session : Session}, db.Opened →
      Run { db } history session →
      (∀ moment ∈ history, moment.event.keepsPages = true) →
      ∀ moment ∈ history, moment.after.db.Coherent := by
  intro hclaim
  have hreplay : ((replay { db := sampleTables "a.dat" "b.dat" } []
      [.call ⟨1⟩ (.insert ⟨1⟩ (sampleRow 7)), .changeCatalog .clear, .complete ⟨1⟩ true,
        .call ⟨2⟩ (.getPage ⟨⟨1⟩, 0⟩ .exclusive), .complete ⟨2⟩ false]).any fun (history, _) =>
      (history.all fun moment => moment.event.keepsPages) &&
      history.any fun moment =>
        (moment.after.db.cache.frames[(⟨⟨1⟩, 0⟩ : PageId)]?).any fun resident =>
          resident.dirtiedBy.isNone &&
          resident.page.bytes ≠ Bytes.slice (moment.after.db.storage.bytes resident.origin) 0
            resident.origin.pageSize) = true := by
    decide +kernel
  obtain ⟨⟨history, session⟩, hreplay, hchecks⟩ := (Option.any_eq_true _ _).mp hreplay
  simp only [Bool.and_eq_true, List.all_eq_true, List.any_eq_true, decide_eq_true_eq,
    Option.any_eq_true, Option.isNone_iff_eq_none] at hchecks
  obtain ⟨hkeeps, moment, hmoment, resident, hframe, hclean, hdiffers⟩ := hchecks
  refine hdiffers ?_
  have hcoherent := hclaim (sampleTables_opened "a.dat" "b.dat") (Run.of_replay .start hreplay)
    hkeeps moment hmoment _ resident hframe hclean
  rwa [Nat.zero_mul] at hcoherent

end Session

end RowStore
