import RowStore.Proofs.Database.Intact

/-!
# What pages hold, and what they are settled to hold

`contentOf` is what a page holds: its bytes in the cache, or on disk if it is not in the cache. It
changes only when a transaction changes the page or undoes its changes. `settled` is what a page
comes to hold if its exclusive holder aborts: the before-image of the holder, or the page on disk.
No act, no flush, and no abort changes it, and a commit only for a page that its transaction may
have changed.
-/

namespace RowStore

/-- What a page holds: its bytes in the cache, or on disk if it is not in the cache. -/
def Layout.contentOf (layout : Layout) (db : Database) (page : PageId) : Bytes :=
  (db.cached? page).getD (layout.bytes db.storage page)

/-- What a page comes to hold if its exclusive holder aborts. -/
def Layout.settled (layout : Layout) (db : Database) (page : PageId) : Bytes :=
  match (db.locks.lockOf page).exclusive with
  | none => layout.bytes db.storage page
  | some holder => (db.journal.imageBytes? holder page).getD (layout.bytes db.storage page)

variable {layout : Layout}

/-- What a page holds, in the layout that the catalog describes. -/
theorem Catalog.contentOf_layout {catalog : Catalog} (hapart : catalog.FilesApart)
    (hsound : catalog.Sound) {db : Database} (hdb : db.catalog = catalog) (page : PageId) :
    (catalog.layout hapart).contentOf db page = db.content page := by
  rw [Layout.contentOf, Database.content, bytes_layout hapart hsound hdb]

namespace Layout

variable {db before after : Database} {page : PageId}

theorem contentOf_of_frame {resident : Resident} (h : db.cache.frames[page]? = some resident) :
    layout.contentOf db page = resident.page.bytes := by
  simp [contentOf, Database.cached?, h]

theorem contentOf_of_absent (h : db.cache.frames[page]? = none) :
    layout.contentOf db page = layout.bytes db.storage page := by
  simp [contentOf, Database.cached?, h]

/-- Databases with the same frame and the same disk for a page have the same content of it. -/
theorem contentOf_congr (hframe : after.cache.frames[page]? = before.cache.frames[page]?)
    (hbytes : layout.bytes after.storage page = layout.bytes before.storage page) :
    layout.contentOf after page = layout.contentOf before page := by
  simp only [contentOf, Database.cached?, hframe, hbytes]

theorem settled_of_free (h : (db.locks.lockOf page).exclusive = none) :
    layout.settled db page = layout.bytes db.storage page := by
  simp only [settled, h]

theorem settled_of_image {holder : TxnId} {image : BeforeImage}
    (hholder : (db.locks.lockOf page).exclusive = some holder)
    (himage : db.journal.image? holder page = some image) :
    layout.settled db page = image.bytes := by
  simp [settled, hholder, Journal.imageBytes?, himage]

theorem settled_of_unnoted {holder : TxnId}
    (hholder : (db.locks.lockOf page).exclusive = some holder)
    (himage : db.journal.image? holder page = none) :
    layout.settled db page = layout.bytes db.storage page := by
  simp [settled, hholder, Journal.imageBytes?, himage]

/-- A page that is neither in the cache nor noted holds what is on disk. -/
theorem contents_of_absent (hframe : db.cache.frames[page]? = none)
    (himage : ∀ holder, db.journal.image? holder page = none) :
    layout.contentOf db page = layout.bytes db.storage page ∧
      layout.settled db page = layout.bytes db.storage page := by
  refine ⟨contentOf_of_absent hframe, ?_⟩
  cases hholder : (db.locks.lockOf page).exclusive with
  | none => exact settled_of_free hholder
  | some holder => exact settled_of_unnoted hholder (himage holder)

/-- A page that nobody holds exclusively holds what it is settled to hold. -/
theorem contentOf_of_free (hplaced : db.Placed layout) (hintact : db.Intact layout)
    (hfree : (db.locks.lockOf page).exclusive = none) :
    layout.contentOf db page = layout.settled db page := by
  rw [settled_of_free hfree]
  cases hframe : db.cache.frames[page]? with
  | none => exact contentOf_of_absent hframe
  | some resident =>
      rw [contentOf_of_frame hframe]
      cases hdirty : resident.dirtiedBy with
      | none => exact hintact.clean page resident hframe hdirty
      | some writer =>
          -- Who dirtied the page has noted it, and so would hold it.
          obtain ⟨image, himage⟩ := Option.isSome_iff_exists.mp
            (hintact.dirty page resident writer hframe hdirty)
          have howner := hplaced.owner writer page image himage
          simp [hfree] at howner

end Layout

namespace Act

variable {txn : TxnId} {before after : Database} {accesses : List Access}
  {changes : List PageId} {page : PageId}

/-- An act changes what a page holds only if it changes the page. -/
theorem contentOf (hact : Act txn before accesses changes after) (hplaced : before.Placed layout)
    (hintact : before.Intact layout)
    (hdisk : layout.bytes after.storage page = layout.bytes before.storage page)
    (hpage : page ∉ changes) : layout.contentOf after page = layout.contentOf before page := by
  rcases hact.frame page with ⟨hsame, _⟩ | ⟨hnone, _, resident, hevicted⟩ |
    ⟨habsent, _, _, resident, hframe, hloaded⟩ | ⟨_, hchanges, _⟩
  · exact Layout.contentOf_congr hsame hdisk
  · rw [Layout.contentOf_of_absent hnone, Layout.contentOf_of_frame hevicted.frame, hdisk,
      hintact.clean page resident hevicted.frame hevicted.clean]
  · rw [Layout.contentOf_of_frame hframe, Layout.contentOf_of_absent habsent,
      (hplaced.of_loaded hloaded).2]
  · exact absurd hchanges hpage

/-- No act changes what a page is settled to hold. -/
theorem settled (hact : Act txn before accesses changes after) (hplaced : before.Placed layout)
    (hintact : before.Intact layout)
    (hdisk : layout.bytes after.storage page = layout.bytes before.storage page) :
    layout.settled after page = layout.settled before page := by
  have hplaced' := hact.placed hplaced
  rcases hact.exclusive page with hsame | ⟨hnone, hsome⟩
  · cases hholder : (before.locks.lockOf page).exclusive with
    | none =>
        rw [Layout.settled_of_free hholder, Layout.settled_of_free (hsame.trans hholder), hdisk]
    | some holder =>
        rcases hact.image holder page with
          himage | ⟨rfl, hnone, resident, hframe, _, hnew, hafter⟩
        · simp only [Layout.settled, hsame, hholder, Journal.imageBytes?, himage, hdisk]
        · rw [Layout.settled_of_unnoted hholder hnone,
            Layout.settled_of_image (hsame.trans hholder) hnew]
          have hunstolen := (hact.intact hplaced hintact).unstolen holder page _ hnew rfl
          rw [← hdisk, hunstolen]
  · rw [Layout.settled_of_free hnone]
    cases himage : after.journal.image? txn page with
    | none => rw [Layout.settled_of_unnoted hsome himage, hdisk]
    | some image =>
        -- The lock was just granted, so the page has not been noted under it.
        rcases hact.image txn page with hkept | ⟨_, _, _, _, hholder, _, _⟩
        · have howner := hplaced.owner txn page image (hkept ▸ himage)
          simp [hnone] at howner
        · simp [hnone] at hholder

end Act

/-- A work changes what a page holds only if it changes the page. -/
theorem Work.contentOf {txn : TxnId} {before after : Database} {accesses : List Access}
    {changes : List PageId} {page : PageId} (hwork : Work txn before accesses changes after)
    (hplaced : before.Placed layout) (hintact : before.Intact layout)
    (hcovers : layout.Covers before.storage page) (hpage : page ∉ changes) :
    layout.contentOf after page = layout.contentOf before page := by
  induction hwork with
  | none => rfl
  | cons hact _ ih =>
      rw [List.mem_append, not_or] at hpage
      rw [ih (hact.placed hplaced) (hact.intact hplaced hintact) (hact.disk hcovers).2 hpage.2,
        hact.contentOf hplaced hintact (hact.disk hcovers).1 hpage.1]

/-- No work changes what a page is settled to hold, or that its file holds it. -/
theorem Work.settled {txn : TxnId} {before after : Database} {accesses : List Access}
    {changes : List PageId} {page : PageId} (hwork : Work txn before accesses changes after)
    (hplaced : before.Placed layout) (hintact : before.Intact layout)
    (hcovers : layout.Covers before.storage page) :
    layout.settled after page = layout.settled before page ∧ layout.Covers after.storage page := by
  induction hwork with
  | none => exact ⟨rfl, hcovers⟩
  | cons hact _ ih =>
      obtain ⟨hsettled, hcovers'⟩ :=
        ih (hact.placed hplaced) (hact.intact hplaced hintact) (hact.disk hcovers).2
      exact ⟨hsettled.trans (hact.settled hplaced hintact (hact.disk hcovers).1), hcovers'⟩

namespace Database

variable {db after : Database} {page : PageId} {txn : TxnId}

/-- No flush changes what a page holds. -/
theorem Flushed.contentOf (hflushed : Flushed layout page db after) (other : PageId) :
    layout.contentOf after other = layout.contentOf db other := by
  rcases hflushed.page with ⟨hstorage, _, hframes⟩ |
    ⟨resident, _, hframe, _, _, hframes, hbytes, _⟩
  · exact Layout.contentOf_congr (hframes other) (by rw [hstorage])
  · by_cases hsame : page = other
    · subst hsame
      have hwritten := hframes page
      rw [if_pos rfl] at hwritten
      rw [Layout.contentOf_of_frame hwritten, Layout.contentOf_of_frame hframe]
      rfl
    · apply Layout.contentOf_congr
      · rw [hframes, if_neg hsame]
      · rw [hbytes, if_neg (Ne.symm hsame)]

/-- No flush changes what a page is settled to hold. -/
theorem Flushed.settled (hflushed : Flushed layout page db after) (hplaced : db.Placed layout)
    (hintact : db.Intact layout) (other : PageId) :
    layout.settled after other = layout.settled db other := by
  have himage : ∀ holder, after.journal.imageBytes? holder other =
      db.journal.imageBytes? holder other := fun holder => hflushed.imageBytes holder other
  rcases hflushed.page with ⟨hstorage, _, _⟩ | ⟨resident, owner, hframe, hdirty, _, _, hbytes, _⟩
  · simp only [Layout.settled, hflushed.locks, himage, hstorage]
  · by_cases hsame : other = page
    · subst hsame
      -- The page is written for its holder, and is settled to hold the before-image of the holder.
      obtain ⟨image, hnoted⟩ := Option.isSome_iff_exists.mp
        (hintact.dirty other resident owner hframe hdirty)
      have hholder := hplaced.owner owner other image hnoted
      have hbytes : db.journal.imageBytes? owner other = some image.bytes := by
        rw [Journal.imageBytes?, hnoted, Option.map_some]
      simp only [Layout.settled, hflushed.locks, hholder, himage, hbytes, Option.getD_some]
    · simp only [Layout.settled, hflushed.locks, himage, hbytes, if_neg hsame]

/-- Flushes change neither what a page holds nor what it is settled to hold. -/
theorem flushEach_contents (hplaced : db.Placed layout) (hintact : db.Intact layout)
    (pages : List PageId) (page : PageId) :
    layout.contentOf (db.flushEach pages).2 page = layout.contentOf db page ∧
      layout.settled (db.flushEach pages).2 page = layout.settled db page := by
  have hkept := flushEach_preserves
    (fun after => after.Placed layout ∧ after.Intact layout ∧
      layout.contentOf after page = layout.contentOf db page ∧
      layout.settled after page = layout.settled db page) pages
    (fun written _ h => by
      have hflushed := (flushPage_flushed h.1 written).1
      exact ⟨hflushed.placed h.1, hflushed.intact h.1 h.2.1,
        (hflushed.contentOf page).trans h.2.2.1,
        (hflushed.settled h.1 h.2.1 page).trans h.2.2.2⟩)
    ⟨hplaced, hintact, rfl, rfl⟩
  exact hkept.2.2

/-- No commit changes what a page holds. -/
theorem contentOf_commit (hplaced : db.Placed layout) (hintact : db.Intact layout) (txn : TxnId)
    (page : PageId) : layout.contentOf (db.commit txn).2 page = layout.contentOf db page :=
  (flushEach_contents hplaced hintact _ page).1

/-- What a transaction leaves in a page that it holds exclusively is on disk after its commit. -/
theorem bytes_commit (hplaced : db.Placed layout) (hintact : db.Intact layout)
    (hholder : (db.locks.lockOf page).exclusive = some txn) :
    layout.bytes (db.commit txn).2.storage page = layout.contentOf db page := by
  rw [← contentOf_commit hplaced hintact txn]
  cases hframe : (db.flushOf txn).2.cache.frames[page]? with
  | none => exact (Layout.contentOf_of_absent hframe).symm
  | some resident =>
      have hclean : resident.dirtiedBy = none := by
        cases hdirty : resident.dirtiedBy with
        | none => rfl
        | some writer =>
            -- Its writer would hold the page, so it would be the transaction, and all that it had
            -- dirtied was written.
            have hflushed := hintact.flushEach hplaced
              (db.cache.pagesWhere fun frame => frame.dirtiedBy = some txn)
            obtain ⟨hplaced', _, hlocks⟩ := hplaced.flushEach
              (db.cache.pagesWhere fun frame => frame.dirtiedBy = some txn)
            obtain ⟨image, himage⟩ := Option.isSome_iff_exists.mp
              (hflushed.dirty page resident writer hframe hdirty)
            have howner := hplaced'.owner writer page image himage
            rw [hlocks, hholder, Option.some.injEq] at howner
            subst howner
            exact absurd hdirty ((flushOf_written hplaced hintact txn).2 page resident hframe)
      have hcontent : layout.contentOf (db.commit txn).2 page = resident.page.bytes :=
        Layout.contentOf_of_frame hframe
      rw [hcontent]
      exact (((hintact.commit hplaced txn).2).clean page resident hframe hclean).symm

/-- A transaction holds nothing exclusively after its commit. -/
theorem exclusive_commit (hplaced : db.Placed layout) (txn : TxnId) (page : PageId) :
    ((db.commit txn).2.locks.lockOf page).exclusive =
      if (db.locks.lockOf page).exclusive = some txn then none
      else (db.locks.lockOf page).exclusive := by
  rw [commit, exclusive_finish, flushOf, (hplaced.flushEach _).2.2]

/-- A commit settles nothing for a page that its transaction has not dirtied, and has no stolen
before-image of. -/
theorem settled_commit (hplaced : db.Placed layout) (hintact : db.Intact layout)
    (hclean : ∀ resident : Resident, db.cache.frames[page]? = some resident →
      resident.dirtiedBy ≠ some txn)
    (hunstolen : ∀ image, db.journal.image? txn page = some image → image.stolen = false) :
    layout.settled (db.commit txn).2 page = layout.settled db page := by
  have hpage : page ∉ db.cache.pagesWhere fun frame => frame.dirtiedBy = some txn := by
    rw [mem_dirtiedBy]
    rintro ⟨resident, hframe, hdirty⟩
    exact hclean resident hframe hdirty
  have hbytes : layout.bytes (db.commit txn).2.storage page = layout.bytes db.storage page :=
    (flushEach_others _ hplaced hpage).2
  have hexclusive := exclusive_commit hplaced txn page
  by_cases hholder : (db.locks.lockOf page).exclusive = some txn
  · rw [if_pos hholder] at hexclusive
    rw [Layout.settled_of_free hexclusive, hbytes]
    cases himage : db.journal.image? txn page with
    | none => rw [Layout.settled_of_unnoted hholder himage]
    | some image =>
        rw [Layout.settled_of_image hholder himage]
        exact hintact.unstolen txn page image himage (hunstolen image himage)
  · rw [if_neg hholder] at hexclusive
    cases hother : (db.locks.lockOf page).exclusive with
    | none =>
        rw [Layout.settled_of_free hother, Layout.settled_of_free (hexclusive.trans hother), hbytes]
    | some holder =>
        have hne : txn ≠ holder := by
          rintro rfl
          exact hholder hother
        simp only [Layout.settled, hexclusive, hother, imageBytes_commit hne, hbytes]

/-- No abort changes what a page is settled to hold. -/
theorem settled_abort (hplaced : db.Placed layout) (hintact : db.Intact layout) (txn : TxnId)
    (page : PageId) : layout.settled (db.abort txn).2 page = layout.settled db page := by
  obtain ⟨_, hundone, _⟩ := hintact.abort hplaced txn
  obtain ⟨pages, _, hothers, _⟩ := rollBack_putBack hplaced txn
  have hexclusive : ((db.abort txn).2.locks.lockOf page).exclusive =
      if (db.locks.lockOf page).exclusive = some txn then none
      else (db.locks.lockOf page).exclusive := by
    rw [abort, exclusive_finish, hothers.locks]
  cases himage : db.journal.image? txn page with
  | some image =>
      have hholder := hplaced.owner txn page image himage
      rw [if_pos hholder] at hexclusive
      rw [Layout.settled_of_free hexclusive, Layout.settled_of_image hholder himage]
      exact (hundone.restored page image himage).1
  | none =>
      have hbytes := (hundone.others page himage).2
      by_cases hholder : (db.locks.lockOf page).exclusive = some txn
      · rw [if_pos hholder] at hexclusive
        rw [Layout.settled_of_free hexclusive, Layout.settled_of_unnoted hholder himage, hbytes]
      · rw [if_neg hholder] at hexclusive
        cases hother : (db.locks.lockOf page).exclusive with
        | none =>
            rw [Layout.settled_of_free hother, Layout.settled_of_free (hexclusive.trans hother),
              hbytes]
        | some holder =>
            have hne : txn ≠ holder := by
              rintro rfl
              exact hholder hother
            simp only [Layout.settled, hexclusive, hother, imageBytes_abort hplaced hne, hbytes]

end Database

end RowStore
