import RowStore.Proofs.Database.Restored
import RowStore.Proofs.Database.Retained

/-!
# What reaches the files

`MayFlush` and `MayRestore` say all that flushing a page and putting back a before-image can do,
whatever the files hold and whether they succeed: a flush writes what the frame of the page holds,
to the file that the catalog names for its table, and a restoration writes the before-image there.
No other page is written, and no frame is removed. `Undisturbed` is what both leave alone.
-/

namespace RowStore

/-- The page is in the cache with changes of the transaction that are not on disk yet. -/
def Cache.DirtiedBy (cache : Cache) (txn : TxnId) (page : PageId) : Prop :=
  ∃ resident : Resident, cache.frames[page]? = some resident ∧ resident.dirtiedBy = some txn

/-- What a flush of a page can do. -/
structure MayFlush (page : PageId) (before after : Database) : Prop where
  config : after.config = before.config
  catalog : after.catalog = before.catalog
  locks : after.locks = before.locks
  storage : after.storage = before.storage ∨
    ∃ (resident : Resident) (heap : HeapFile), before.cache.frames[page]? = some resident ∧
      resident.dirtiedBy.isSome = true ∧ before.catalog.heapFile page.table = .ok heap ∧
      heap.writePage before.storage resident.page = (.ok (), after.storage)
  journal : after.journal = before.journal ∨
    ∃ txn, before.cache.DirtiedBy txn page ∧
      after.journal = before.journal.markStolen txn page
  frames : ∀ other : PageId, after.cache.frames[other]? = before.cache.frames[other]? ∨
    other = page ∧ ∃ resident : Resident, before.cache.frames[other]? = some resident ∧
      after.cache.frames[other]? = some { resident with toFrame := resident.markClean }

/-- What putting back a before-image can do. -/
structure MayRestore (page : PageId) (bytes : Bytes) (before after : Database) : Prop where
  config : after.config = before.config
  catalog : after.catalog = before.catalog
  locks : after.locks = before.locks
  journal : after.journal = before.journal
  storage : after.storage = before.storage ∨
    ∃ heap : HeapFile, before.catalog.heapFile page.table = .ok heap ∧
      before.storage.writePage heap.file page.number bytes = (.ok (), after.storage)
  frames : ∀ other : PageId, after.cache.frames[other]? = before.cache.frames[other]? ∨
    other = page ∧ ∃ (resident : Resident) (restored : HeapPage) (dirtiedBy : Option TxnId),
      before.cache.frames[other]? = some resident ∧
      resident.page.restore bytes = .ok restored ∧
      after.cache.frames[other]? = some { resident with toFrame := ⟨restored, dirtiedBy⟩ }

namespace Database

variable {db : Database} {page : PageId} {txn : TxnId} {bytes : Bytes}

/-- What a flush of a page does. -/
theorem flushPage_mayFlush (db : Database) (page : PageId) :
    MayFlush page db (db.flushPage page).2 := by
  have hidle : ∀ storage journal, storage = db.storage →
      (journal = db.journal ∨ ∃ txn, db.cache.DirtiedBy txn page ∧
        journal = db.journal.markStolen txn page) →
      ∀ resident, db.cache.frames[page]? = some resident →
      MayFlush page db
        { db with storage, journal, cache := db.cache.setFrame page resident.toFrame } := by
    intro storage journal hstorage hjournal resident hframe
    refine ⟨rfl, rfl, rfl, .inl hstorage, hjournal, fun other => .inl ?_⟩
    show (db.cache.setFrame page resident.toFrame).frames[other]? = _
    rw [Cache.frames_setFrame_of_resident _ _ _ hframe]
    split
    · rename_i hsame
      rw [← hsame, hframe]
    · rfl
  simp only [flushPage]
  split
  · exact ⟨rfl, rfl, rfl, .inl rfl, .inl rfl, fun _ => .inl rfl⟩
  · rename_i resident hframe
    split
    · exact ⟨rfl, rfl, rfl, .inl rfl, .inl rfl, fun _ => .inl rfl⟩
    · rename_i heap hheap
      cases hdirty : resident.dirtiedBy with
      | none =>
          simp only [Frame.flush, hdirty]
          exact hidle _ _ rfl (.inl rfl) resident hframe
      | some txn =>
          have howner : db.cache.DirtiedBy txn page := ⟨resident, hframe, hdirty⟩
          simp only [Frame.flush, hdirty]
          rcases hwrite : heap.writePage db.storage resident.page with ⟨answer, storage⟩
          cases answer with
          | error error =>
              have hstorage : storage = db.storage := by
                simp only [HeapFile.writePage] at hwrite
                split at hwrite
                · exact (congrArg Prod.snd hwrite).symm
                · rcases db.storage.writePage_cases heap.file resident.page.id.number
                    resident.page.bytes with ⟨error, hcase⟩ | ⟨_, _, hcase⟩
                  · rw [hcase] at hwrite
                    exact (congrArg Prod.snd hwrite).symm
                  · simp [hcase] at hwrite
              exact hidle _ _ hstorage (.inr ⟨txn, howner, rfl⟩) resident hframe
          | ok _ =>
              refine ⟨rfl, rfl, rfl, .inr ⟨resident, heap, hframe, by rw [hdirty]; rfl, hheap,
                hwrite⟩, .inr ⟨txn, howner, rfl⟩, ?_⟩
              intro other
              show (db.cache.setFrame page resident.markClean).frames[other]? = _ ∨ _
              rw [Cache.frames_setFrame_of_resident _ _ _ hframe]
              split
              · rename_i hsame
                subst hsame
                exact .inr ⟨rfl, resident, hframe, rfl⟩
              · exact .inl rfl

end Database

/-- A flush leaves no changes in the cache that were not there. -/
theorem MayFlush.dirtiedBy {page other : PageId} {before after : Database} {txn : TxnId}
    (hflush : MayFlush page before after) (hdirtied : after.cache.DirtiedBy txn other) :
    before.cache.DirtiedBy txn other := by
  obtain ⟨resident, hframe, howner⟩ := hdirtied
  rcases hflush.frames other with hsame | ⟨_, found, _, hafter⟩
  · exact ⟨resident, hsame ▸ hframe, howner⟩
  · rw [hafter, Option.some.injEq] at hframe
    subst hframe
    simp [Frame.markClean] at howner

namespace Database

variable {db : Database} {page : PageId} {txn : TxnId} {bytes : Bytes}

/-- What writing a before-image does. -/
theorem writeImage_cases (db : Database) (page : PageId) (bytes : Bytes) :
    (∃ error, db.writeImage page bytes = (.error error, db)) ∨
      ∃ heap storage, db.catalog.heapFile page.table = .ok heap ∧
        db.storage.writePage heap.file page.number bytes = (.ok (), storage) ∧
        db.writeImage page bytes = (.ok (), { db with storage }) := by
  simp only [writeImage]
  split
  · rename_i error _
    exact .inl ⟨error, rfl⟩
  · rename_i heap hheap
    rcases db.storage.writePage_cases heap.file page.number bytes with
      ⟨error, hwrite⟩ | ⟨_, _, hwrite⟩
    · rw [hwrite]
      exact .inl ⟨error, rfl⟩
    · rw [hwrite]
      exact .inr ⟨heap, _, hheap, hwrite, rfl⟩

/-- What putting back a before-image does. -/
theorem restore_mayRestore (db : Database) (txn : TxnId) (page : PageId) (bytes : Bytes) :
    MayRestore page bytes db (db.restore txn page bytes).2 := by
  have hquiet : MayRestore page bytes db db :=
    ⟨rfl, rfl, rfl, rfl, .inl rfl, fun _ => .inl rfl⟩
  simp only [restore]
  split
  · rcases writeImage_cases db page bytes with ⟨error, hwrite⟩ | ⟨heap, storage, hheap, hok, hwrite⟩
    · rw [hwrite]
      exact hquiet
    · rw [hwrite]
      exact ⟨rfl, rfl, rfl, rfl, .inr ⟨heap, hheap, hok⟩, fun _ => .inl rfl⟩
  · rename_i resident hframe
    split
    · exact hquiet
    · rename_i restored hrestored
      have hset : ∀ dirtiedBy (other : PageId),
          (db.cache.setFrame page ⟨restored, dirtiedBy⟩).frames[other]? =
              db.cache.frames[other]? ∨
            other = page ∧ ∃ (found : Resident) (again : HeapPage) (owner : Option TxnId),
              db.cache.frames[other]? = some found ∧ found.page.restore bytes = .ok again ∧
              (db.cache.setFrame page ⟨restored, dirtiedBy⟩).frames[other]? =
                some { found with toFrame := ⟨again, owner⟩ } := by
        intro dirtiedBy other
        rw [Cache.frames_setFrame_of_resident _ _ _ hframe]
        split
        · rename_i hsame
          subst hsame
          exact .inr ⟨rfl, resident, restored, dirtiedBy, hframe, hrestored, rfl⟩
        · exact .inl rfl
      split
      · rcases writeImage_cases { db with cache := db.cache.setFrame page ⟨restored, none⟩ } page
          bytes with ⟨error, hwrite⟩ | ⟨heap, storage, hheap, hok, hwrite⟩
        · rw [hwrite]
          refine ⟨rfl, rfl, rfl, rfl, .inl rfl, fun other => ?_⟩
          have hagain : ((db.cache.setFrame page ⟨restored, none⟩).setFrame page
              ⟨restored, some txn⟩).frames[other]? =
                (db.cache.setFrame page ⟨restored, some txn⟩).frames[other]? := by
            simp only [Cache.frames_setFrame]
            split
            · rw [Option.map_map]
              rfl
            · rfl
          show ((db.cache.setFrame page ⟨restored, none⟩).setFrame page
            ⟨restored, some txn⟩).frames[other]? = _ ∨ _
          rw [hagain]
          exact hset (some txn) other
        · rw [hwrite]
          exact ⟨rfl, rfl, rfl, rfl, .inr ⟨heap, hheap, hok⟩, hset none⟩
      · exact ⟨rfl, rfl, rfl, rfl, .inl rfl, hset none⟩

end Database

/-- What flushes and restorations leave alone, if they change the frames of no page that is not
touched: holds and tables stay, no file gets shorter, no frame is removed, and no before-image is
added. -/
structure Undisturbed (touched : PageId → Prop) (before after : Database) : Prop where
  locks : after.locks = before.locks
  catalog : after.catalog = before.catalog
  grows : before.storage.Grows after.storage
  images : ∀ txn page, (after.journal.image? txn page).isSome =
    (before.journal.image? txn page).isSome
  resident : ∀ page : PageId, (after.cache.frames[page]?).isSome =
    (before.cache.frames[page]?).isSome
  cached : ∀ page, ¬ touched page → after.cached? page = before.cached? page

namespace Undisturbed

variable {touched : PageId → Prop} {before middle after : Database} {page : PageId}
  {bytes : Bytes}

theorem refl : Undisturbed touched before before :=
  ⟨rfl, rfl, .refl, fun _ _ => rfl, fun _ => rfl, fun _ _ => rfl⟩

theorem trans (hfirst : Undisturbed touched before middle)
    (hrest : Undisturbed touched middle after) : Undisturbed touched before after :=
  ⟨hrest.locks.trans hfirst.locks, hrest.catalog.trans hfirst.catalog,
    hfirst.grows.trans hrest.grows, fun txn page => (hrest.images txn page).trans
      (hfirst.images txn page), fun page => (hrest.resident page).trans (hfirst.resident page),
    fun page h => (hrest.cached page h).trans (hfirst.cached page h)⟩

/-- A flush touches no page. -/
theorem of_flush (hflush : MayFlush page before after) : Undisturbed touched before after where
  locks := hflush.locks
  catalog := hflush.catalog
  grows := by
    rcases hflush.storage with hsame | ⟨resident, heap, _, _, _, hwrite⟩
    · rw [hsame]
      exact .refl
    · have hgrows : before.storage.Grows (heap.writePage before.storage resident.page).2 := by
        simp only [HeapFile.writePage]
        split
        · exact .refl
        · exact .writePage _ _ _
      rwa [hwrite] at hgrows
  images txn other := by
    rcases hflush.journal with hsame | ⟨owner, _, hmarked⟩
    · rw [hsame]
    · rw [hmarked, Journal.image?_markStolen]
      split
      · rw [Option.isSome_map]
      · rfl
  resident other := by
    rcases hflush.frames other with hsame | ⟨_, resident, hbefore, hafter⟩
    · rw [hsame]
    · rw [hbefore, hafter]
      rfl
  cached other _ := by
    simp only [Database.cached?]
    rcases hflush.frames other with hsame | ⟨_, resident, hbefore, hafter⟩
    · rw [hsame]
    · rw [hbefore, hafter]
      rfl

/-- A restoration touches its page. -/
theorem of_restore (hrestore : MayRestore page bytes before after) (htouched : touched page) :
    Undisturbed touched before after where
  locks := hrestore.locks
  catalog := hrestore.catalog
  grows := by
    rcases hrestore.storage with hsame | ⟨heap, _, hwrite⟩
    · rw [hsame]
      exact .refl
    · have hgrows : before.storage.Grows (before.storage.writePage heap.file page.number bytes).2 :=
        .writePage _ _ _
      rwa [hwrite] at hgrows
  images txn other := by rw [hrestore.journal]
  resident other := by
    rcases hrestore.frames other with hsame | ⟨_, _, _, _, hbefore, _, hafter⟩
    · rw [hsame]
    · rw [hbefore, hafter]
      rfl
  cached other hother := by
    rcases hrestore.frames other with hsame | ⟨rfl, _⟩
    · simp only [Database.cached?, hsame]
    · exact absurd htouched hother

end Undisturbed

namespace Database

variable {db : Database} {txn : TxnId}

/-- Flushes touch no page. -/
theorem flushEach_undisturbed (db : Database) (pages : List PageId) :
    Undisturbed (fun _ => False) db (db.flushEach pages).2 :=
  flushEach_preserves (fun after => Undisturbed (fun _ => False) db after) pages
    (fun page _ h => h.trans (.of_flush (flushPage_mayFlush _ page))) .refl

/-- Writing what a transaction has changed marks no before-image of another one. -/
theorem journal_flushOf {other : TxnId} (db : Database) (hne : txn ≠ other) :
    (db.flushOf txn).2.journal[other]? = db.journal[other]? := by
  refine (flushEach_preserves
    (fun after => after.journal[other]? = db.journal[other]? ∧
      ∀ owner page, after.cache.DirtiedBy owner page → db.cache.DirtiedBy owner page)
    (db.cache.pagesWhere fun frame => frame.dirtiedBy = some txn) ?_ ⟨rfl, fun _ _ h => h⟩).1
  intro before page hpage ⟨hjournal, hdirtied⟩
  have hflush := flushPage_mayFlush before page
  refine ⟨?_, fun owner page h => hdirtied owner page (hflush.dirtiedBy h)⟩
  rcases hflush.journal with hsame | ⟨owner, howner, hmarked⟩
  · rwa [hsame]
  · -- The page that is written had changes of the transaction when the flush began.
    obtain ⟨resident, hframe, hmine⟩ := (Cache.mem_pagesWhere ..).mp hpage
    obtain ⟨found, hfound, htheirs⟩ := hdirtied owner page howner
    obtain rfl := Option.some.inj (hframe.symm.trans hfound)
    obtain rfl : txn = owner := Option.some.inj ((of_decide_eq_true hmine).symm.trans htheirs)
    rw [hmarked, Journal.getElem?_markStolen_of_ne _ _ _ _ hne, hjournal]

/-- Putting back before-images leaves the journal as it is. -/
theorem journal_rollBack (db : Database) (txn : TxnId) :
    (db.rollBack txn).2.journal = db.journal := by
  have hrestored : ∀ (images : List (PageId × BeforeImage)) (db : Database),
      (db.restoreEach txn images).2.journal = db.journal := by
    intro images
    induction images with
    | nil => exact fun _ => rfl
    | cons entry rest ih =>
        intro db
        exact (ih _).trans (restore_mayRestore db txn entry.1 entry.2.bytes).journal
  exact hrestored _ db

/-- Putting back before-images touches the pages that they are of. -/
theorem restoreEach_undisturbed (db : Database) (txn : TxnId)
    (images : List (PageId × BeforeImage)) {touched : PageId → Prop}
    (htouched : ∀ entry ∈ images, touched entry.1) :
    Undisturbed touched db (db.restoreEach txn images).2 := by
  induction images generalizing db with
  | nil => exact .refl
  | cons entry rest ih =>
      obtain ⟨page, image⟩ := entry
      have hfirst := restore_mayRestore db txn page image.bytes
      exact (Undisturbed.of_restore hfirst (htouched _ (List.mem_cons_self ..))).trans
        (ih _ fun entry hentry => htouched entry (List.mem_cons_of_mem _ hentry))

/-- Rolling a transaction back touches the pages that it has a before-image of. -/
theorem rollBack_undisturbed (db : Database) (txn : TxnId) :
    Undisturbed (fun page => (db.journal.image? txn page).isSome = true) db
      (db.rollBack txn).2 := by
  refine restoreEach_undisturbed db txn _ ?_
  rintro ⟨page, image⟩ hentry
  rw [(db.journal.mem_imagesOf txn page image).mp hentry]
  rfl

section

variable {holds : Cache → Prop}
  (hset : ∀ (cache : Cache) (page : PageId) (resident : Resident) (frame : Frame),
    cache.frames[page]? = some resident → frame.page.id = resident.page.id →
    frame.page.bytes.length = resident.page.bytes.length →
    holds cache → holds (cache.setFrame page frame))

include hset

/-- What is kept when a page in the cache gets other contents is kept by a flush. -/
theorem flushPage_preserves_cache (db : Database) (page : PageId) (h : holds db.cache) :
    holds (db.flushPage page).2.cache := by
  simp only [flushPage]
  split
  · exact h
  · rename_i resident hframe
    split
    · exact h
    · simp only [Frame.flush]
      split
      · exact hset _ _ _ _ hframe rfl rfl h
      · split <;> exact hset _ _ _ _ hframe rfl rfl h

/-- What is kept when a page in the cache gets other contents is kept by a restoration. -/
theorem restore_preserves_cache (db : Database) (txn : TxnId) (page : PageId) (bytes : Bytes)
    (h : holds db.cache) : holds (db.restore txn page bytes).2.cache := by
  simp only [restore]
  split
  · rcases writeImage_cases db page bytes with ⟨error, hwrite⟩ | ⟨heap, storage, _, _, hwrite⟩ <;>
      rw [hwrite] <;> exact h
  · rename_i resident hframe
    split
    · exact h
    · rename_i restored hrestored
      have hfirst := hset _ _ _ ⟨restored, none⟩ hframe (HeapPage.restore_eq_ok hrestored).1
        (HeapPage.length_of_restore hrestored) h
      split
      · rcases writeImage_cases { db with cache := db.cache.setFrame page ⟨restored, none⟩ } page
          bytes with ⟨error, hwrite⟩ | ⟨heap, storage, _, _, hwrite⟩
        · rw [hwrite]
          refine hset _ page { resident with toFrame := ⟨restored, none⟩ } _ ?_ rfl rfl hfirst
          rw [Cache.frames_setFrame_of_resident _ _ _ hframe, if_pos rfl]
        · rw [hwrite]
          exact hfirst
      · exact hfirst

/-- What is kept when a page in the cache gets other contents is kept by flushes. -/
theorem flushEach_preserves_cache (db : Database) (pages : List PageId) (h : holds db.cache) :
    holds (db.flushEach pages).2.cache :=
  flushEach_preserves (fun db => holds db.cache) pages
    (fun page _ => flushPage_preserves_cache hset _ page) h

/-- What is kept when a page in the cache gets other contents is kept by the end of a
transaction. -/
theorem complete_preserves_cache (db : Database) (txn : TxnId) (h : holds db.cache) :
    holds (db.commit txn).2.cache ∧ holds (db.abort txn).2.cache := by
  have hrestored : ∀ (images : List (PageId × BeforeImage)) (db : Database), holds db.cache →
      holds (db.restoreEach txn images).2.cache := by
    intro images
    induction images with
    | nil => exact fun _ h => h
    | cons entry rest ih =>
        exact fun db h => ih _ (restore_preserves_cache hset db txn entry.1 entry.2.bytes h)
  exact ⟨flushEach_preserves_cache hset db _ h, hrestored _ db h⟩

end

end Database

end RowStore
