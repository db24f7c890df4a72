import RowStore.Proofs.Session.Effect

/-!
# Databases that are intact

In an intact database a clean page equals its copy on disk, a page that a transaction has dirtied
has a before-image of that transaction, and a before-image that has not been stolen is what is on
disk. While the tables of a database stay registered, nothing that happens to it breaks this. An
abort then finds on disk or in the journal all that it has to put back, and a commit leaves
nothing of its transaction unwritten.
-/

namespace RowStore

variable {layout : Layout}

/-- Every clean page in the cache equals its copy on disk. -/
def Database.Synced (layout : Layout) (db : Database) : Prop :=
  ∀ (page : PageId) (resident : Resident), db.cache.frames[page]? = some resident →
    resident.dirtiedBy = none → resident.page.bytes = layout.bytes db.storage page

/-- Cache, journal, and disk agree. -/
structure Database.Intact (layout : Layout) (db : Database) : Prop where
  registered : ∀ (page : PageId) (resident : Resident),
    db.cache.frames[page]? = some resident → db.Registered page
  imaged : ∀ txn page image, db.journal.image? txn page = some image → db.Registered page
  clean : db.Synced layout
  dirty : ∀ (page : PageId) (resident : Resident) (txn : TxnId),
    db.cache.frames[page]? = some resident → resident.dirtiedBy = some txn →
    (db.journal.image? txn page).isSome = true
  unstolen : ∀ txn page image, db.journal.image? txn page = some image → image.stolen = false →
    layout.bytes db.storage page = image.bytes

/-- A database that was opened is intact, as it has no page in its cache and no before-image. -/
theorem Database.Opened.intact {db : Database} (hopened : db.Opened) : db.Intact layout := by
  obtain ⟨_, hframes, hjournal, _⟩ := hopened.sound
  refine ⟨?_, ?_, ?_, ?_, ?_⟩
  · intro page resident h
    simp [hframes] at h
  · intro txn page image h
    simp [hjournal] at h
  · intro page resident h
    simp [hframes] at h
  · intro page resident txn h
    simp [hframes] at h
  · intro txn page image h
    simp [hjournal] at h

namespace Act

variable {txn writer : TxnId} {before after : Database} {accesses : List Access}
  {changes : List PageId} {page : PageId}

/-- What an act can do to the frame of a page: it leaves it alone, it evicts or loads it without
changes, or it changes it under the exclusive lock. -/
theorem frame (hact : Act txn before accesses changes after) (page : PageId) :
    after.cache.frames[page]? = before.cache.frames[page]? ∧ page ∉ changes ∨
      (after.cache.frames[page]? = none ∧ page ∉ changes ∧
        ∃ resident, Evicted before page resident) ∨
      (before.cache.frames[page]? = none ∧ page ∉ changes ∧ after.storage.directory =
        before.storage.directory ∧ ∃ resident, after.cache.frames[page]? = some resident ∧
          Loaded before page resident) ∨
      (before.locks.lockOf page).exclusive = some txn ∧ page ∈ changes ∧
        (before.journal.image? txn page).isSome = true ∧ after.journal = before.journal ∧
        ∃ (resident : Resident) (changed : HeapPage),
          before.cache.frames[page]? = some resident ∧
          changed.schema = resident.page.schema ∧
          after.cache.frames[page]? = some { resident with toFrame := ⟨changed, some txn⟩ } := by
  cases hact with
  | @fetch _ _ answer hfetched =>
      rcases hfetched.frames page with hsame | ⟨hnone, hevicted⟩ | ⟨_, hnone, hloaded⟩
      · exact .inl ⟨hsame, by simp⟩
      · exact .inr (.inl ⟨hnone, by simp, hevicted⟩)
      · exact .inr (.inr (.inl ⟨hnone, by simp, hfetched.directory, hloaded⟩))
  | @change target resident changed hframe howner himage hedited =>
      by_cases hsame : target = page
      · subst hsame
        refine .inr (.inr (.inr ⟨howner, by simp, himage, rfl, resident, changed, hframe,
          hedited.keeps.2.1, ?_⟩))
        rw [Cache.frames_setFrame_of_resident _ _ _ hframe, if_pos rfl]
      · left
        refine ⟨?_, by simpa using Ne.symm hsame⟩
        rw [Cache.frames_setFrame, if_neg hsame]
  | lock | release | read | note | append => exact .inl ⟨rfl, by simp⟩

/-- A before-image is kept by every act. -/
theorem imaged (hact : Act txn before accesses changes after)
    (h : (before.journal.image? writer page).isSome = true) :
    (after.journal.image? writer page).isSome = true := by
  rcases hact.image writer page with hsame | ⟨_, _, _, _, _, hnew, _⟩
  · rwa [hsame]
  · rw [hnew, Option.isSome_some]

/-- A page that an act leaves unwritten was unwritten before, or the act has changed it. -/
theorem dirtied (hact : Act txn before accesses changes after) {resident : Resident}
    (hframe : after.cache.frames[page]? = some resident)
    (hdirty : resident.dirtiedBy = some writer) :
    (∃ found : Resident, before.cache.frames[page]? = some found ∧
      found.dirtiedBy = some writer) ∨ writer = txn ∧ page ∈ changes := by
  rcases hact.frame page with ⟨hsame, _⟩ | ⟨hnone, _⟩ | ⟨_, _, _, _, hframe', hloaded⟩ |
    ⟨_, hpage, _, _, _, _, _, _, hchanged⟩
  · exact .inl ⟨resident, hsame ▸ hframe, hdirty⟩
  · simp [hnone] at hframe
  · rw [hframe, Option.some.injEq] at hframe'
    rw [hframe', hloaded.clean] at hdirty
    simp at hdirty
  · rw [hframe, Option.some.injEq] at hchanged
    simp only [hchanged, Option.some.injEq] at hdirty
    exact .inr ⟨hdirty.symm, hpage⟩

/-- An act changes a page under the exclusive lock, and only if the page was noted. -/
theorem changes_noted (hact : Act txn before accesses changes after) (hpage : page ∈ changes) :
    (before.locks.lockOf page).exclusive = some txn ∧
      (before.journal.image? txn page).isSome = true := by
  cases hact with
  | change hframe howner himage =>
      rw [List.mem_singleton] at hpage
      subst hpage
      exact ⟨howner, himage⟩
  | lock | release | fetch | read | note | append => simp at hpage

/-- No act makes a clean page differ from its copy on disk. -/
theorem synced (hact : Act txn before accesses changes after) (hplaced : before.Placed layout)
    (hsynced : before.Synced layout) : after.Synced layout := by
  intro page resident hframe hclean
  rcases hact.frame page with ⟨hsame, _⟩ | ⟨hnone, _⟩ | ⟨_, _, hdirectory, _, hframe', hloaded⟩ |
    ⟨_, _, _, _, _, _, _, _, hchanged⟩
  · rw [hsame] at hframe
    rw [hsynced page resident hframe hclean,
      (hact.disk (hplaced.frame page resident hframe).covers).1]
  · simp [hnone] at hframe
  · rw [hframe, Option.some.injEq] at hframe'
    rw [hframe', (hplaced.of_loaded hloaded).2, (layout.bytes_of_directory hdirectory page).1]
  · rw [hframe, Option.some.injEq] at hchanged
    simp [hchanged] at hclean

/-- No act breaks the agreement of cache, journal, and disk. -/
theorem intact (hact : Act txn before accesses changes after) (hplaced : before.Placed layout)
    (hintact : before.Intact layout) : after.Intact layout := by
  have hregistered : ∀ page, after.Registered page ↔ before.Registered page := by
    intro page
    rw [Database.Registered, Database.Registered, hact.catalog]
  refine ⟨?_, ?_, hact.synced hplaced hintact.clean, ?_, ?_⟩
  · intro page resident hframe
    rw [hregistered]
    rcases hact.frame page with ⟨hsame, _⟩ | ⟨hnone, _⟩ | ⟨_, _, _, _, _, hloaded⟩ |
      ⟨_, _, _, _, found, _, hfound, _⟩
    · exact hintact.registered page resident (hsame ▸ hframe)
    · simp [hnone] at hframe
    · obtain ⟨heap, hheap, _⟩ := hloaded.origin
      exact ⟨heap, hheap⟩
    · exact hintact.registered page found hfound
  · intro other page image himage
    rw [hregistered]
    rcases hact.image other page with hsame | ⟨_, _, resident, hframe, _⟩
    · exact hintact.imaged other page image (hsame ▸ himage)
    · exact hintact.registered page resident hframe
  · intro page resident other hframe hdirty
    rcases hact.dirtied hframe hdirty with ⟨found, hfound, hby⟩ | ⟨rfl, hpage⟩
    · exact hact.imaged (hintact.dirty page found other hfound hby)
    · exact hact.imaged (hact.changes_noted hpage).2
  · intro other page image himage hunstolen
    rcases hact.image other page with
      hsame | ⟨rfl, hnone, resident, hframe, howner, hnew, hafter⟩
    · rw [hsame] at himage
      rw [(hact.disk (hplaced.image other page image himage).2).1]
      exact hintact.unstolen other page image himage hunstolen
    · rw [himage, Option.some.injEq] at hnew
      rw [hnew, hafter]
      -- The page is clean: a transaction that had dirtied it would hold it, so it would be this
      -- one, which has not noted the page before.
      refine (hintact.clean page resident hframe ?_).symm
      cases hdirty : resident.dirtiedBy with
      | none => rfl
      | some writer =>
          have himage := hintact.dirty page resident writer hframe hdirty
          obtain ⟨found, hfound⟩ := Option.isSome_iff_exists.mp himage
          have hwriter := hplaced.owner writer page found hfound
          rw [howner, Option.some.injEq] at hwriter
          subst hwriter
          simp [hnone] at hfound

end Act

namespace Database

variable {db after : Database} {page : PageId} {txn : TxnId}

/-- No flush makes a clean page differ from its copy on disk. -/
theorem Flushed.synced (hflushed : Flushed layout page db after) (hsynced : db.Synced layout) :
    after.Synced layout := by
  intro other resident hframe hclean
  rcases hflushed.page with ⟨hstorage, _, hframes⟩ | ⟨_, _, _, _, _, hframes, hbytes, _⟩
  · rw [hstorage]
    exact hsynced other resident (hframes other ▸ hframe) hclean
  · rw [hframes] at hframe
    rw [hbytes]
    split at hframe
    · rename_i hsame
      simp only [Option.some.injEq] at hframe
      rw [if_pos hsame.symm, ← hframe]
      rfl
    · rename_i hother
      rw [if_neg (Ne.symm hother)]
      exact hsynced other resident hframe hclean

/-- No flush breaks the agreement of cache, journal, and disk. -/
theorem Flushed.intact (hflushed : Flushed layout page db after) (hplaced : db.Placed layout)
    (hintact : db.Intact layout) : after.Intact layout := by
  have hregistered : ∀ page, db.Registered page → after.Registered page := by
    intro page h
    rwa [Registered, hflushed.catalog]
  have himaged : ∀ other page image, after.journal.image? other page = some image →
      after.Registered page := by
    intro other page image himage
    obtain ⟨found, hfound, _⟩ := hflushed.image himage
    exact hregistered page (hintact.imaged other page found hfound)
  rcases hflushed.page with ⟨hstorage, hjournal, hframes⟩ |
    ⟨written, owner, hwritten, howned, _, hframes, hbytes, hjournal⟩
  · refine ⟨?_, himaged, hflushed.synced hintact.clean, ?_, ?_⟩
    · intro other resident hframe
      exact hregistered other (hintact.registered other resident (hframes other ▸ hframe))
    · simp only [hframes, hjournal]
      exact hintact.dirty
    · simp only [hstorage, hjournal]
      exact hintact.unstolen
  · refine ⟨?_, himaged, hflushed.synced hintact.clean, ?_, ?_⟩
    · intro other resident hframe
      rw [hframes] at hframe
      split at hframe
      · rename_i hsame
        subst hsame
        exact hregistered page (hintact.registered page written hwritten)
      · exact hregistered other (hintact.registered other resident hframe)
    · intro other resident holder hframe hdirty
      rw [hframes] at hframe
      split at hframe
      · simp only [Option.some.injEq] at hframe
        rw [← hframe] at hdirty
        simp [Frame.markClean] at hdirty
      · have himage := hintact.dirty other resident holder hframe hdirty
        rw [hjournal, Journal.image?_markStolen]
        split
        · rwa [Option.isSome_map]
        · exact himage
    · intro holder other image himage hunstolen
      rw [hjournal, Journal.image?_markStolen] at himage
      rw [hbytes]
      split at himage
      · rw [Option.map_eq_some_iff] at himage
        obtain ⟨found, _, rfl⟩ := himage
        simp at hunstolen
      · rename_i hother
        split
        · -- The page that was written has no before-image but that of the transaction that had
          -- dirtied it, and this one is marked.
          rename_i hsame
          subst hsame
          have hne : holder ≠ owner := fun hsame => hother ⟨hsame.symm, rfl⟩
          have hnone : db.journal.image? holder other = none :=
            hplaced.image?_eq_none (hintact.dirty other written owner hwritten howned) hne
          simp [hnone] at himage
        · exact hintact.unstolen holder other image himage hunstolen

/-- Flushes make no clean page differ from its copy on disk. -/
theorem Synced.flushEach (hsynced : db.Synced layout) (hplaced : db.Placed layout)
    (pages : List PageId) : (db.flushEach pages).2.Synced layout := by
  have hkept := flushEach_preserves
    (fun db => db.Placed layout ∧ db.Synced layout) pages
    (fun page _ h => ⟨(flushPage_flushed h.1 page).1.placed h.1,
      (flushPage_flushed h.1 page).1.synced h.2⟩)
    ⟨hplaced, hsynced⟩
  exact hkept.2

/-- Flushes keep cache, journal, and disk in agreement. -/
theorem Intact.flushEach (hintact : db.Intact layout) (hplaced : db.Placed layout)
    (pages : List PageId) : (db.flushEach pages).2.Intact layout := by
  have hkept := flushEach_preserves
    (fun db => db.Placed layout ∧ db.Intact layout) pages
    (fun page _ h => ⟨(flushPage_flushed h.1 page).1.placed h.1,
      (flushPage_flushed h.1 page).1.intact h.1 h.2⟩)
    ⟨hplaced, hintact⟩
  exact hkept.2

/-- Dropping a page from the cache makes no clean page differ from its copy on disk. -/
theorem Synced.discardPage (hsynced : db.Synced layout) (page : PageId) :
    (db.discardPage page).Synced layout := by
  intro other resident hframe hclean
  rw [frames_discardPage] at hframe
  split at hframe
  · simp at hframe
  · exact hsynced other resident hframe hclean

/-- Dropping a page from the cache keeps cache, journal, and disk in agreement. -/
theorem Intact.discardPage (hintact : db.Intact layout) (page : PageId) :
    (db.discardPage page).Intact layout where
  registered other resident hframe := by
    rw [frames_discardPage] at hframe
    split at hframe
    · simp at hframe
    · exact hintact.registered other resident hframe
  imaged := hintact.imaged
  clean := hintact.clean.discardPage page
  dirty other resident holder hframe hdirty := by
    rw [frames_discardPage] at hframe
    split at hframe
    · simp at hframe
    · exact hintact.dirty other resident holder hframe hdirty
  unstolen := hintact.unstolen

/-- A transaction can end that has dirtied no page: cache, journal, and disk stay in agreement. -/
theorem Intact.finish (hintact : db.Intact layout)
    (hwritten : ∀ (page : PageId) (resident : Resident), db.cache.frames[page]? = some resident →
      resident.dirtiedBy ≠ some txn) : (db.finish txn).Intact layout where
  registered := hintact.registered
  imaged other page image himage := by
    rw [image?_finish] at himage
    split at himage
    · simp at himage
    · exact hintact.imaged other page image himage
  clean := hintact.clean
  dirty page resident other hframe hdirty := by
    rw [image?_finish, if_neg]
    · exact hintact.dirty page resident other hframe hdirty
    · rintro rfl
      exact hwritten page resident hframe hdirty
  unstolen other page image himage := by
    rw [image?_finish] at himage
    split at himage
    · simp at himage
    · exact hintact.unstolen other page image himage

/-- The pages that a commit writes are those that its transaction has dirtied. -/
theorem mem_dirtiedBy (cache : Cache) (txn : TxnId) (page : PageId) :
    page ∈ cache.pagesWhere (fun frame => frame.dirtiedBy = some txn) ↔
      ∃ resident : Resident, cache.frames[page]? = some resident ∧
        resident.dirtiedBy = some txn := by
  simp [Cache.mem_pagesWhere]

/-- After the flushes of a commit, no page has unwritten changes of the transaction. -/
theorem flushOf_written (hplaced : db.Placed layout) (hintact : db.Intact layout) (txn : TxnId) :
    (db.flushOf txn).1 = .ok () ∧ ∀ (page : PageId) (resident : Resident),
      (db.flushOf txn).2.cache.frames[page]? = some resident → resident.dirtiedBy ≠ some txn := by
  have hpages := mem_dirtiedBy db.cache txn
  obtain ⟨hok, hclean⟩ := flushEach_clean
    (db.cache.pagesWhere fun frame => frame.dirtiedBy = some txn) hplaced fun page hpage => by
      obtain ⟨resident, hframe, _⟩ := (hpages page).mp hpage
      exact hintact.registered page resident hframe
  refine ⟨hok, ?_⟩
  intro page resident hframe hdirty
  by_cases hpage : page ∈ db.cache.pagesWhere fun frame => frame.dirtiedBy = some txn
  · rw [hclean page hpage resident hframe] at hdirty
    simp at hdirty
  · rw [flushOf, (flushEach_others _ hplaced hpage).1] at hframe
    exact hpage ((hpages page).mpr ⟨resident, hframe, hdirty⟩)

/-- A commit succeeds and keeps cache, journal, and disk in agreement. -/
theorem Intact.commit (hintact : db.Intact layout) (hplaced : db.Placed layout) (txn : TxnId) :
    (db.commit txn).1 = .ok () ∧ (db.commit txn).2.Intact layout := by
  obtain ⟨hok, hwritten⟩ := flushOf_written hplaced hintact txn
  exact ⟨hok, (hintact.flushEach hplaced _).finish hwritten⟩

/-- What an abort leaves of the pages: those that its transaction has a before-image of hold the
image, in the cache and on disk, and the others are as they were. -/
structure Undone (layout : Layout) (txn : TxnId) (before after : Database) : Prop where
  restored : ∀ page image, before.journal.image? txn page = some image →
    layout.bytes after.storage page = image.bytes ∧
      (before.cache.frames[page]? = none → after.cache.frames[page]? = none) ∧
      ∀ resident : Resident, before.cache.frames[page]? = some resident →
        ∃ restored : Resident, after.cache.frames[page]? = some restored ∧
          restored.page.schema = resident.page.schema ∧ restored.page.bytes = image.bytes ∧
          restored.dirtiedBy = none
  others : ∀ page, before.journal.image? txn page = none →
    after.cache.frames[page]? = before.cache.frames[page]? ∧
      layout.bytes after.storage page = layout.bytes before.storage page

/-- The frame of a page when a transaction is undone: a restored and clean one if the transaction
has a before-image of the page, and otherwise the one from before. -/
theorem Undone.frame (hundone : Undone layout txn db after) {resident : Resident}
    (hframe : after.cache.frames[page]? = some resident) :
    (∃ (image : BeforeImage) (found : Resident), db.journal.image? txn page = some image ∧
      db.cache.frames[page]? = some found ∧ resident.page.schema = found.page.schema ∧
      resident.page.bytes = image.bytes ∧ resident.dirtiedBy = none) ∨
    db.journal.image? txn page = none ∧ db.cache.frames[page]? = some resident := by
  cases himage : db.journal.image? txn page with
  | none => exact .inr ⟨rfl, (hundone.others page himage).1 ▸ hframe⟩
  | some image =>
      obtain ⟨_, habsent, hrestored⟩ := hundone.restored page image himage
      cases hfound : db.cache.frames[page]? with
      | none => simp [habsent hfound] at hframe
      | some found =>
          obtain ⟨restored, hrestored, hschema, hbytes, hclean⟩ := hrestored found hfound
          rw [hframe, Option.some.injEq] at hrestored
          subst hrestored
          exact .inl ⟨image, found, rfl, rfl, hschema, hbytes, hclean⟩

/-- Putting back the before-images of a transaction undoes what it did. -/
theorem rollBack_undone (hplaced : db.Placed layout) (hintact : db.Intact layout) (txn : TxnId) :
    (db.rollBack txn).1 = .ok () ∧ Undone layout txn db (db.rollBack txn).2 ∧
      (db.rollBack txn).2.catalog = db.catalog ∧ (db.rollBack txn).2.journal = db.journal := by
  obtain ⟨pages, hpages, hothers, _, hputs, hok⟩ := rollBack_putBack hplaced txn
  refine ⟨hok ?_, ⟨?_, ?_⟩, hothers.catalog, hothers.journal⟩
  · intro page hpage
    obtain ⟨image, himage⟩ := Option.isSome_iff_exists.mp ((hpages page).mp hpage)
    exact hintact.imaged txn page image himage
  · intro page image himage
    have hregistered := hintact.imaged txn page image himage
    obtain ⟨habsent, hresident, hwritten, hkept⟩ := hputs page image himage
    refine ⟨?_, habsent, ?_⟩
    · -- A page that is in the cache and was not stolen is not written. It needs no write, as the
      -- file still holds the before-image.
      by_cases hneeds : db.cache.frames[page]? = none ∨ db.journal.isStolen txn page = true
      · exact hwritten hregistered hneeds
      · rw [hkept fun h => hneeds h.2]
        apply hintact.unstolen txn page image himage
        rw [not_or, Journal.isStolen_iff] at hneeds
        cases hstolen : image.stolen with
        | false => rfl
        | true => exact absurd ⟨image, himage, hstolen⟩ hneeds.2
    · intro resident hframe
      obtain ⟨restored, hrestored, _, hschema, hbytes, _, hclean⟩ := hresident resident hframe
      exact ⟨restored, hrestored, hschema, hbytes, hclean.mpr fun _ => hregistered⟩
  · intro page hnone
    have hpage : page ∉ pages := by
      rw [hpages, hnone]
      simp
    exact ⟨hothers.frames page hpage, hothers.bytes page hpage⟩

/-- An abort succeeds, undoes what its transaction did, and keeps cache, journal, and disk in
agreement. -/
theorem Intact.abort (hintact : db.Intact layout) (hplaced : db.Placed layout) (txn : TxnId) :
    (db.abort txn).1 = .ok () ∧ Undone layout txn db (db.abort txn).2 ∧
      (db.abort txn).2.Intact layout := by
  obtain ⟨hok, hundone, hcatalog, hjournal⟩ := rollBack_undone hplaced hintact txn
  refine ⟨hok, ⟨hundone.restored, hundone.others⟩, ?_⟩
  have hregistered : ∀ page, db.Registered page → (db.rollBack txn).2.Registered page := by
    intro page h
    rwa [Registered, hcatalog]
  show ((db.rollBack txn).2.finish txn).Intact layout
  refine ⟨?_, ?_, ?_, ?_, ?_⟩
  · intro page resident hframe
    rcases hundone.frame hframe with ⟨_, found, _, hfound, _⟩ | ⟨_, hfound⟩
    · exact hregistered page (hintact.registered page found hfound)
    · exact hregistered page (hintact.registered page resident hfound)
  · intro other page image himage
    rw [image?_finish, hjournal] at himage
    split at himage
    · simp at himage
    · exact hregistered page (hintact.imaged other page image himage)
  · intro page resident hframe hclean
    rcases hundone.frame hframe with ⟨image, _, himage, _, _, hbytes, _⟩ | ⟨hnone, hfound⟩
    · exact hbytes.trans (hundone.restored page image himage).1.symm
    · exact (hintact.clean page resident hfound hclean).trans (hundone.others page hnone).2.symm
  · intro page resident other hframe hdirty
    rcases hundone.frame hframe with ⟨_, _, _, _, _, _, hclean⟩ | ⟨hnone, hfound⟩
    · simp [hclean] at hdirty
    · have himage := hintact.dirty page resident other hfound hdirty
      rw [image?_finish, hjournal, if_neg]
      · exact himage
      · rintro rfl
        simp [hnone] at himage
  · intro other page image himage hunstolen
    rw [image?_finish, hjournal] at himage
    split at himage
    · simp at himage
    · rename_i hother
      have hnone : db.journal.image? txn page = none :=
        hplaced.image?_eq_none (Option.isSome_of_eq_some himage) hother
      exact (hundone.others page hnone).2.trans
        (hintact.unstolen other page image himage hunstolen)

end Database

end RowStore
