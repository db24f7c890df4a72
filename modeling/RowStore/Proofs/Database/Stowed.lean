import RowStore.Proofs.Database.Writing

/-!
# Pages that have a place in a file

Bytes have a place if the table of their page is registered and its file reaches as far as the page:
then they can be written. A database is stowed if what its frames and its before-images hold has a
place. There every flush leaves its page clean, whichever tables share a file, and no frame is dirty
on behalf of a transaction that has committed, or aborted with a before-image of each page that it
dirtied: `Stowed.commit_cleans` and `Stowed.abort_cleans`.
-/

namespace RowStore

namespace Database

/-- The bytes fill the page in the file of its table, which reaches that far. -/
def HasPlace (db : Database) (page : PageId) (bytes : Bytes) : Prop :=
  ∃ heap, db.catalog.heapFile page.table = .ok heap ∧ bytes.length = heap.file.pageSize ∧
    page.number * heap.file.pageSize + heap.file.pageSize ≤ (db.storage.bytes heap.file).length

/-- What the frames and the before-images hold has a place. -/
structure Stowed (db : Database) : Prop where
  named : ∀ (page : PageId) (resident : Resident), db.cache.frames[page]? = some resident →
    resident.page.id = page
  frames : ∀ (page : PageId) (resident : Resident), db.cache.frames[page]? = some resident →
    db.HasPlace page resident.page.bytes
  images : ∀ (txn : TxnId) (page : PageId) (bytes : Bytes),
    db.journal.imageBytes? txn page = some bytes → db.HasPlace page bytes

/-- No frame is dirty on behalf of the transaction. -/
def CleanOf (db : Database) (txn : TxnId) : Prop :=
  ∀ (page : PageId) (resident : Resident), db.cache.frames[page]? = some resident →
    resident.dirtiedBy ≠ some txn

variable {db after : Database} {page : PageId} {bytes : Bytes} {txn : TxnId}

/-- What has a place keeps it as long as no file gets shorter. -/
theorem HasPlace.of_grows (hplace : db.HasPlace page bytes) (hcatalog : after.catalog = db.catalog)
    (hgrows : db.storage.Grows after.storage) : after.HasPlace page bytes := by
  obtain ⟨heap, hheap, hlength, hcovers⟩ := hplace
  exact ⟨heap, hcatalog ▸ hheap, hlength, Nat.le_trans hcovers (hgrows _)⟩

/-- Bytes of one length have a place if one of them has. -/
theorem HasPlace.of_length {other : Bytes} (hplace : db.HasPlace page bytes)
    (hlength : other.length = bytes.length) : db.HasPlace page other := by
  obtain ⟨heap, hheap, hfills, hcovers⟩ := hplace
  exact ⟨heap, hheap, hlength.trans hfills, hcovers⟩

/-- A page that is read has a place. -/
theorem HasPlace.of_load {heapPage : HeapPage} {origin : PageFile} (hsound : db.catalog.Sound)
    (hload : db.load page = (.ok (heapPage, origin), after)) : db.HasPlace page heapPage.bytes := by
  have hloaded := load_eq_ok (fun heap hheap => (hsound.fits _ heap hheap).table) hload 0
  obtain ⟨heap, hheap, horigin, _⟩ := hloaded.origin
  have hcovers := hloaded.covers
  have hbytes := hloaded.bytes
  simp only at horigin hcovers hbytes
  rw [horigin] at hcovers hbytes
  refine ⟨heap, hheap, ?_, hcovers⟩
  rw [hbytes, Bytes.slice, List.length_take, List.length_drop]
  omega

/-- What has a place can be written. -/
theorem HasPlace.writeImage (hplace : db.HasPlace page bytes) :
    ∃ storage, db.writeImage page bytes = (.ok (), { db with storage }) := by
  obtain ⟨heap, hheap, hlength, hcovers⟩ := hplace
  simp only [Database.writeImage, hheap, Storage.writePage_of_le hlength hcovers]
  exact ⟨_, rfl⟩

namespace Stowed

/-- A database in which no file got shorter is stowed if each frame and each before-image that it
has got has a place. -/
theorem of_grows (hstowed : db.Stowed) (hcatalog : after.catalog = db.catalog)
    (hgrows : db.storage.Grows after.storage)
    (hframes : ∀ (page : PageId) (resident : Resident),
      after.cache.frames[page]? = some resident → db.cache.frames[page]? = some resident ∨
        resident.page.id = page ∧ db.HasPlace page resident.page.bytes)
    (himages : ∀ (txn : TxnId) (page : PageId) (bytes : Bytes),
      after.journal.imageBytes? txn page = some bytes →
        db.journal.imageBytes? txn page = some bytes ∨ db.HasPlace page bytes) :
    after.Stowed where
  named page resident hframe := by
    rcases hframes page resident hframe with hkept | ⟨hid, _⟩
    · exact hstowed.named page resident hkept
    · exact hid
  frames page resident hframe := by
    rcases hframes page resident hframe with hkept | ⟨_, hplace⟩
    · exact (hstowed.frames page resident hkept).of_grows hcatalog hgrows
    · exact hplace.of_grows hcatalog hgrows
  images txn page bytes himage := by
    rcases himages txn page bytes himage with hkept | hplace
    · exact (hstowed.images txn page bytes hkept).of_grows hcatalog hgrows
    · exact hplace.of_grows hcatalog hgrows

/-- A flush keeps a database stowed. -/
theorem of_flush (hstowed : db.Stowed) (hflush : MayFlush page db after) : after.Stowed := by
  have hundisturbed : Undisturbed (fun _ => False) db after := .of_flush hflush
  refine hstowed.of_grows hflush.catalog hundisturbed.grows ?_ ?_
  · intro other resident hframe
    rcases hflush.frames other with hsame | ⟨rfl, found, hfound, hafter⟩
    · exact .inl (hsame ▸ hframe)
    · rw [hafter, Option.some.injEq] at hframe
      subst hframe
      exact .inr ⟨hstowed.named other found hfound, hstowed.frames other found hfound⟩
  · intro txn other bytes himage
    rcases hflush.journal with hsame | ⟨owner, _, hmarked⟩
    · exact .inl (hsame ▸ himage)
    · rw [hmarked, Journal.imageBytes?_markStolen] at himage
      exact .inl himage

/-- Putting back bytes that have a place keeps a database stowed. -/
theorem of_restore (hstowed : db.Stowed) (hplace : db.HasPlace page bytes)
    (hrestore : MayRestore page bytes db after) : after.Stowed := by
  have hundisturbed : Undisturbed (fun _ => True) db after := .of_restore hrestore trivial
  refine hstowed.of_grows hrestore.catalog hundisturbed.grows ?_ ?_
  · intro other resident hframe
    rcases hrestore.frames other with hsame | ⟨rfl, found, restored, _, hfound, hput, hafter⟩
    · exact .inl (hsame ▸ hframe)
    · rw [hafter, Option.some.injEq] at hframe
      subst hframe
      obtain ⟨hid, hbytes⟩ := HeapPage.restore_eq_ok hput
      exact .inr ⟨hid.trans (hstowed.named other found hfound), hbytes ▸ hplace⟩
  · intro txn other bytes himage
    exact .inl (hrestore.journal ▸ himage)

/-- A flush leaves its page clean. -/
theorem flushPage_cleans (hstowed : db.Stowed) (hsound : db.catalog.Sound) (page : PageId) :
    (db.flushPage page).1 = .ok () ∧ ∀ resident : Resident,
      (db.flushPage page).2.cache.frames[page]? = some resident → resident.dirtiedBy = none := by
  simp only [flushPage]
  cases hframe : db.cache.frames[page]? with
  | none => simp [hframe]
  | some resident =>
      obtain ⟨heap, hheap, hlength, hcovers⟩ := hstowed.frames page resident hframe
      have hid := hstowed.named page resident hframe
      have hclean : ∀ (frame : Frame), frame.dirtiedBy = none → ∀ found : Resident,
          (db.cache.setFrame page frame).frames[page]? = some found → found.dirtiedBy = none := by
        intro frame hframe' found hfound
        rw [Cache.frames_setFrame_of_resident _ _ _ hframe, if_pos rfl, Option.some.injEq] at hfound
        rw [← hfound]
        exact hframe'
      simp only [hheap, Frame.flush]
      cases hdirty : resident.dirtiedBy with
      | none => exact ⟨rfl, hclean _ hdirty⟩
      | some txn =>
          have hwrite : heap.writePage db.storage resident.page = (.ok (), db.storage.putBytes
              heap.file (Bytes.overwrite (db.storage.bytes heap.file)
                (page.number * heap.file.pageSize) resident.page.bytes)) := by
            rw [HeapFile.writePage, if_neg, hid, Storage.writePage_of_le hlength hcovers]
            rw [hid, (hsound.fits _ heap hheap).table]
            exact fun h => h rfl
          simp only [hwrite]
          exact ⟨rfl, hclean _ rfl⟩

/-- A commit leaves no frame that its transaction dirtied. -/
theorem commit_cleans (hstowed : db.Stowed) (hsound : db.catalog.Sound) (txn : TxnId) :
    (db.flushOf txn).2.Stowed ∧ (db.flushOf txn).2.CleanOf txn := by
  -- Only a page that is still to be flushed may be dirty on behalf of the transaction.
  have hpages : ∀ (pages : List PageId) (db : Database), db.Stowed → db.catalog.Sound →
      (∀ (page : PageId) (resident : Resident), db.cache.frames[page]? = some resident →
        resident.dirtiedBy = some txn → page ∈ pages) →
      (db.flushEach pages).2.Stowed ∧ (db.flushEach pages).2.CleanOf txn := by
    intro pages
    induction pages with
    | nil => exact fun db hstowed _ hleft => ⟨hstowed, fun page resident hframe hdirty =>
        absurd (hleft page resident hframe hdirty) List.not_mem_nil⟩
    | cons page rest ih =>
        intro db hstowed hsound hleft
        have hflush := flushPage_mayFlush db page
        obtain ⟨hok, hclean⟩ := hstowed.flushPage_cleans hsound page
        rcases hflushed : db.flushPage page with ⟨answer, flushed⟩
        rw [hflushed] at hflush hok hclean
        subst hok
        simp only [flushEach, hflushed]
        refine ih flushed (hstowed.of_flush hflush) (hflush.catalog ▸ hsound) ?_
        intro other resident hframe hdirty
        rcases hflush.frames other with hsame | ⟨rfl, _⟩
        · refine (List.mem_cons.mp (hleft other resident (hsame ▸ hframe) hdirty)).resolve_left ?_
          rintro rfl
          rw [hclean resident hframe] at hdirty
          simp at hdirty
        · rw [hclean resident hframe] at hdirty
          simp at hdirty
  refine hpages _ db hstowed hsound ?_
  intro page resident hframe hdirty
  exact (Cache.mem_pagesWhere ..).mpr ⟨resident, hframe, by simp [hdirty]⟩

/-- Putting back what a page held leaves the page clean. -/
theorem restore_cleans (hstowed : db.Stowed) (hplace : db.HasPlace page bytes) (txn : TxnId)
    (resident : Resident)
    (hframe : (db.restore txn page bytes).2.cache.frames[page]? = some resident) :
    resident.dirtiedBy = none := by
  simp only [restore] at hframe
  cases hbefore : db.cache.frames[page]? with
  | none =>
      obtain ⟨storage, hwrite⟩ := hplace.writeImage
      rw [hbefore, hwrite] at hframe
      simp only at hframe
      rw [hbefore] at hframe
      simp at hframe
  | some found =>
      obtain ⟨heap, hheap, hlength, _⟩ := hstowed.frames page found hbefore
      obtain ⟨heap', hheap', hlength', _⟩ := id hplace
      obtain rfl := Except.ok.inj (hheap.symm.trans hheap')
      obtain ⟨restored, hput⟩ : ∃ restored, found.page.restore bytes = .ok restored :=
        ⟨_, dif_pos (hlength'.trans hlength.symm)⟩
      have hclean : (db.cache.setFrame page ⟨restored, none⟩).frames[page]? = some resident →
          resident.dirtiedBy = none := by
        intro h
        rw [Cache.frames_setFrame_of_resident _ _ _ hbefore, if_pos rfl, Option.some.injEq] at h
        rw [← h]
      rw [hbefore] at hframe
      simp only [hput] at hframe
      split at hframe
      · have hplace : ({ db with cache := db.cache.setFrame page ⟨restored, none⟩ } :
            Database).HasPlace page bytes := hplace
        obtain ⟨storage, hwrite⟩ := hplace.writeImage
        rw [hwrite] at hframe
        exact hclean hframe
      · exact hclean hframe

/-- An abort leaves no frame that its transaction dirtied, if it has a before-image of each page
that it dirtied. -/
theorem abort_cleans (hstowed : db.Stowed)
    (hnoted : ∀ (page : PageId) (resident : Resident), db.cache.frames[page]? = some resident →
      resident.dirtiedBy = some txn → (db.journal.image? txn page).isSome = true) :
    (db.rollBack txn).2.Stowed ∧ (db.rollBack txn).2.CleanOf txn := by
  -- Only a page that is still to be restored may be dirty on behalf of the transaction.
  have himages : ∀ (images : List (PageId × BeforeImage)) (db : Database), db.Stowed →
      (∀ entry ∈ images, db.HasPlace entry.1 entry.2.bytes) →
      (∀ (page : PageId) (resident : Resident), db.cache.frames[page]? = some resident →
        resident.dirtiedBy = some txn → page ∈ images.map Prod.fst) →
      (db.restoreEach txn images).2.Stowed ∧ (db.restoreEach txn images).2.CleanOf txn := by
    intro images
    induction images with
    | nil => exact fun db hstowed _ hleft => ⟨hstowed, fun page resident hframe hdirty =>
        absurd (hleft page resident hframe hdirty) List.not_mem_nil⟩
    | cons entry rest ih =>
        intro db hstowed hplaces hleft
        obtain ⟨page, image⟩ := entry
        have hplace := hplaces (page, image) List.mem_cons_self
        have hrestore := restore_mayRestore db txn page image.bytes
        have hundisturbed : Undisturbed (fun _ => True) db _ := .of_restore hrestore trivial
        have hclean := hstowed.restore_cleans hplace txn
        refine ih _ (hstowed.of_restore hplace hrestore) ?_ ?_
        · exact fun entry hentry => (hplaces entry (List.mem_cons_of_mem _ hentry)).of_grows
            hrestore.catalog hundisturbed.grows
        · intro other resident hframe hdirty
          rcases hrestore.frames other with hsame | ⟨rfl, _⟩
          · refine (List.mem_cons.mp
              (hleft other resident (hsame ▸ hframe) hdirty)).resolve_left ?_
            rintro rfl
            rw [hclean resident hframe] at hdirty
            simp at hdirty
          · rw [hclean resident hframe] at hdirty
            simp at hdirty
  refine himages _ db hstowed ?_ ?_
  · rintro ⟨page, image⟩ hentry
    refine hstowed.images txn page image.bytes ?_
    rw [Journal.imageBytes?, (Journal.mem_imagesOf ..).mp hentry]
    rfl
  · intro page resident hframe hdirty
    obtain ⟨image, himage⟩ := Option.isSome_iff_exists.mp (hnoted page resident hframe hdirty)
    exact List.mem_map_of_mem ((Journal.mem_imagesOf ..).mpr himage)

end Stowed

end Database

end RowStore
