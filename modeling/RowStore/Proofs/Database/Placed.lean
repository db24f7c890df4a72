import RowStore.Proofs.Session.Orderly

/-!
# Pages are where they belong

`Placed` says of a database under a layout that every page in the cache came from the file of its
table and still has a place there, and that a before-image belongs to the exclusive holder of its
page. Nothing that happens to a database breaks this, whether it succeeds or fails, as long as
its catalog keeps to the layout. A page that is placed can be written exactly if its table is
registered, so `flushPage_cases` and `restore_spec` tell in full what a flush and a restoration
do.
-/

namespace RowStore

variable {layout : Layout}

namespace Database

/-- The table of the page is registered. -/
def Registered (db : Database) (page : PageId) : Prop :=
  ∃ heap, db.catalog.heapFile page.table = .ok heap

end Database

/-- A page in the cache came from the file of its table and has a place there. -/
structure Layout.Places (layout : Layout) (storage : Storage) (page : PageId)
    (resident : Resident) : Prop where
  id : resident.page.id = page
  length : resident.page.bytes.length = layout.pageSize
  origin : layout.Locates page.table resident.origin
  covers : layout.Covers storage page

/-- Pages in the cache and before-images are where they belong. -/
structure Database.Placed (layout : Layout) (db : Database) : Prop where
  sound : db.catalog.Sound
  locates : ∀ table heap, db.catalog.heapFile table = .ok heap → layout.Locates table heap.file
  frame : ∀ (page : PageId) (resident : Resident), db.cache.frames[page]? = some resident →
    layout.Places db.storage page resident
  owner : ∀ txn page image, db.journal.image? txn page = some image →
    (db.locks.lockOf page).exclusive = some txn
  image : ∀ txn page image, db.journal.image? txn page = some image →
    image.bytes.length = layout.pageSize ∧ layout.Covers db.storage page

/-- A page that one transaction has noted is noted by no other. -/
theorem Database.Placed.image?_eq_none {db : Database} {txn other : TxnId} {page : PageId}
    (hplaced : db.Placed layout) (h : (db.journal.image? other page).isSome = true)
    (hne : txn ≠ other) : db.journal.image? txn page = none := by
  obtain ⟨image, himage⟩ := Option.isSome_iff_exists.mp h
  have howner := hplaced.owner other page image himage
  cases hfound : db.journal.image? txn page with
  | none => rfl
  | some found =>
      rw [hplaced.owner txn page found hfound, Option.some.injEq] at howner
      exact absurd howner hne

namespace Layout.Places

variable {storage after : Storage} {page : PageId} {resident : Resident}

/-- A page keeps its place as long as its file holds it. -/
theorem of_covers (hplaces : layout.Places storage page resident)
    (hcovers : layout.Covers storage page → layout.Covers after page) :
    layout.Places after page resident :=
  ⟨hplaces.id, hplaces.length, hplaces.origin, hcovers hplaces.covers⟩

/-- A page that was changed keeps its place. -/
theorem of_frame (hplaces : layout.Places storage page resident) {frame : Frame}
    (hid : frame.page.id = resident.page.id)
    (hlength : frame.page.bytes.length = resident.page.bytes.length) :
    layout.Places storage page { resident with toFrame := frame } :=
  ⟨hid.trans hplaces.id, hlength.trans hplaces.length, hplaces.origin, hplaces.covers⟩

end Layout.Places

namespace Database

variable {db after : Database} {page : PageId} {txn : TxnId}

/-- A page that was read from the file of its table has its place there. -/
theorem Placed.of_loaded (hplaced : db.Placed layout) {resident : Resident}
    (hloaded : Loaded db page resident) :
    layout.Places db.storage page resident ∧
      resident.page.bytes = layout.bytes db.storage page := by
  obtain ⟨heap, hheap, horigin, _⟩ := hloaded.origin
  have hlocates : layout.Locates page.table resident.origin := by
    rw [horigin]
    exact hplaced.locates page.table heap hheap
  have hcovers : layout.Covers db.storage page :=
    (hlocates.covers_iff page.number).mpr hloaded.covers
  have hbytes : resident.page.bytes = layout.bytes db.storage page := by
    rw [hloaded.bytes]
    exact (hlocates.bytes_eq page.number).symm
  refine ⟨⟨hloaded.id, ?_, hlocates, hcovers⟩, hbytes⟩
  rw [hbytes, hcovers.length_bytes]

end Database

namespace Database

/-- A frame whose page is changed keeps its place, and so do all others. -/
theorem Placed.setFrame {db : Database} {page : PageId} (hplaced : db.Placed layout)
    {resident : Resident} (hframe : db.cache.frames[page]? = some resident) {frame : Frame}
    (hid : frame.page.id = resident.page.id)
    (hlength : frame.page.bytes.length = resident.page.bytes.length) :
    Placed layout { db with cache := db.cache.setFrame page frame } where
  sound := hplaced.sound
  locates := hplaced.locates
  frame other found hfound := by
    simp only [Cache.frames_setFrame] at hfound
    split at hfound
    · rename_i hsame
      subst hsame
      rw [hframe, Option.map_some, Option.some.injEq] at hfound
      rw [← hfound]
      exact (hplaced.frame page resident hframe).of_frame hid hlength
    · exact hplaced.frame other found hfound
  owner := hplaced.owner
  image := hplaced.image

end Database

/-- Storages with the same directory have the same pages. -/
theorem Layout.bytes_of_directory {before after : Storage}
    (h : after.directory = before.directory) (page : PageId) :
    layout.bytes after page = layout.bytes before page ∧
      (layout.Covers after page ↔ layout.Covers before page) :=
  ⟨layout.bytes_congr (fun _ => by rw [h]) page, layout.covers_congr (fun _ => by rw [h]) page⟩

namespace Act

variable {txn : TxnId} {before after : Database} {accesses : List Access}
  {changes : List PageId} {page : PageId}

/-- No act changes what a file holds, and every page that has a place keeps it. -/
theorem disk (hact : Act txn before accesses changes after)
    (hcovers : layout.Covers before.storage page) :
    layout.bytes after.storage page = layout.bytes before.storage page ∧
      layout.Covers after.storage page := by
  cases hact with
  | fetch hfetched =>
      obtain ⟨hbytes, hcovered⟩ := layout.bytes_of_directory hfetched.directory page
      exact ⟨hbytes, hcovered.mpr hcovers⟩
  | @append heap hsize => exact Storage.bytes_of_appendPage heap.file hsize hcovers
  | lock | release | read | note | change => exact ⟨rfl, hcovers⟩

/-- What an act can do to the before-image that a transaction has of a page. -/
theorem image (hact : Act txn before accesses changes after) (other : TxnId) (page : PageId) :
    after.journal.image? other page = before.journal.image? other page ∨
      other = txn ∧ before.journal.image? other page = none ∧ ∃ resident,
        before.cache.frames[page]? = some resident ∧
        (before.locks.lockOf page).exclusive = some txn ∧
        after.journal.image? other page = some ⟨resident.page.bytes, false⟩ ∧
        after = { before with journal := after.journal } := by
  cases hact with
  | @note noted resident hframe howner =>
      simp only [Journal.image?_record]
      split
      · rename_i hsame
        obtain ⟨rfl, rfl⟩ := hsame
        cases himage : before.journal.image? txn noted with
        | some image => exact .inl rfl
        | none => exact .inr ⟨rfl, rfl, resident, hframe, howner, rfl, trivial⟩
      · exact .inl rfl
  | fetch hfetched =>
      left
      rw [hfetched.journal]
  | lock | release | read | change | append => exact .inl rfl

/-- No act breaks the places of pages. -/
theorem placed (hact : Act txn before accesses changes after) (hplaced : before.Placed layout) :
    after.Placed layout where
  sound := by
    rw [hact.catalog]
    exact hplaced.sound
  locates := by
    rw [hact.catalog]
    exact hplaced.locates
  frame page resident hframe := by
    have hkeeps : ∀ found : Resident, before.cache.frames[page]? = some found →
        layout.Places after.storage page found :=
      fun found hfound => (hplaced.frame page found hfound).of_covers fun h => (hact.disk h).2
    cases hact with
    | fetch hfetched =>
        rcases hfetched.frames page with hsame | ⟨hnone, _⟩ | ⟨_, _, loaded, hloaded, hfresh⟩
        · exact hkeeps resident (hsame ▸ hframe)
        · simp [hnone] at hframe
        · rw [hframe, Option.some.injEq] at hloaded
          subst hloaded
          exact (hplaced.of_loaded hfresh).1.of_covers
            (layout.bytes_of_directory hfetched.directory page).2.mpr
    | @change changed found new hfound howner himage hedited =>
        simp only [Cache.frames_setFrame] at hframe
        split at hframe
        · rename_i hsame
          subst hsame
          rw [hfound, Option.map_some, Option.some.injEq] at hframe
          rw [← hframe]
          exact (hplaced.frame changed found hfound).of_frame hedited.keeps.1 hedited.keeps.2.2
        · exact hplaced.frame page resident hframe
    | lock | release | read | note | append => exact hkeeps resident hframe
  owner other page image himage := by
    have howner : (before.locks.lockOf page).exclusive = some other := by
      rcases hact.image other page with hsame | ⟨rfl, _, _, _, howner, _⟩
      · exact hplaced.owner other page image (hsame ▸ himage)
      · exact howner
    rcases hact.exclusive page with hsame | ⟨hnone, _⟩
    · rw [hsame, howner]
    · simp [hnone] at howner
  image other page image himage := by
    rcases hact.image other page with hsame | ⟨rfl, _, resident, hframe, _, hnew, hafter⟩
    · obtain ⟨hlength, hcovers⟩ := hplaced.image other page image (hsame ▸ himage)
      exact ⟨hlength, (hact.disk hcovers).2⟩
    · rw [himage, Option.some.injEq] at hnew
      rw [hnew, hafter]
      have hbefore := hplaced.frame page resident hframe
      exact ⟨hbefore.length, hbefore.covers⟩

end Act

namespace Database

variable {db : Database} {page : PageId}

/-- A write of a page that has a place goes through if its table is registered, and reaches no
other page. -/
theorem Placed.writes (hplaced : db.Placed layout) {heap : HeapFile}
    (hheap : db.catalog.heapFile page.table = .ok heap) {bytes : Bytes}
    (hlength : bytes.length = layout.pageSize) (hcovers : layout.Covers db.storage page) :
    ∃ storage, db.storage.writePage heap.file page.number bytes = (.ok (), storage) ∧
      (∀ other, layout.bytes storage other =
        if other = page then bytes else layout.bytes db.storage other) ∧
      Storage.SameLengths db.storage storage := by
  have hlocates := hplaced.locates page.table heap hheap
  have hsize : bytes.length = heap.file.pageSize := hlength.trans hlocates.2.symm
  have hplace := (hlocates.covers_iff page.number).mp hcovers
  have hwrite := Storage.writePage_of_le hsize hplace
  exact ⟨_, hwrite, Storage.bytes_of_writePage hlocates hwrite,
    Storage.sameLengths_of_writePage hsize hplace hwrite⟩

/-- What a flush of a page does: it fails or finds nothing to do, and everything stays as it is, or
it writes a page that a transaction has dirtied. -/
structure Flushed (layout : Layout) (page : PageId) (before after : Database) : Prop where
  config : after.config = before.config
  catalog : after.catalog = before.catalog
  locks : after.locks = before.locks
  lengths : Storage.SameLengths before.storage after.storage
  page : (after.storage = before.storage ∧ after.journal = before.journal ∧
      ∀ other : PageId, after.cache.frames[other]? = before.cache.frames[other]?) ∨
    ∃ (resident : Resident) (txn : TxnId), before.cache.frames[page]? = some resident ∧
      resident.dirtiedBy = some txn ∧ before.Registered page ∧
      (∀ other : PageId, after.cache.frames[other]? =
        if page = other then some { resident with toFrame := resident.markClean }
        else before.cache.frames[other]?) ∧
      (∀ other, layout.bytes after.storage other =
        if other = page then resident.page.bytes else layout.bytes before.storage other) ∧
      after.journal = before.journal.markStolen txn page

/-- A flush that finds nothing to write leaves everything as it is. -/
theorem Flushed.of_frames {storage : Storage} {cache : Cache} (hstorage : storage = db.storage)
    (hframes : ∀ other : PageId, cache.frames[other]? = db.cache.frames[other]?) :
    Flushed layout page db { db with storage, cache } :=
  ⟨rfl, rfl, rfl, fun _ => by rw [hstorage], .inl ⟨hstorage, rfl, hframes⟩⟩

/-- A page that a transaction has dirtied is written by a flush, if its table is registered. -/
theorem flushPage_of_dirty (hplaced : db.Placed layout) {heap : HeapFile} {resident : Resident}
    {txn : TxnId} (hframe : db.cache.frames[page]? = some resident)
    (hheap : db.catalog.heapFile page.table = .ok heap) (hdirty : resident.dirtiedBy = some txn) :
    Flushed layout page db (db.flushPage page).2 ∧ (db.flushPage page).1 = .ok () ∧
      (db.flushPage page).2.cache.frames[page]? =
        some { resident with toFrame := resident.markClean } := by
  obtain ⟨hid, hlength, _, hcovers⟩ := hplaced.frame page resident hframe
  obtain ⟨storage, hwrite, hbytes, hlengths⟩ := hplaced.writes hheap hlength hcovers
  have hwritten : heap.writePage db.storage resident.page = (.ok (), storage) := by
    rw [HeapFile.writePage, hid, (hplaced.sound.fits page.table heap hheap).table]
    simpa using hwrite
  have hset := fun other =>
    Cache.frames_setFrame_of_resident db.cache page other hframe resident.markClean
  simp only [flushPage, hframe, hheap, Frame.flush, hdirty, hwritten]
  refine ⟨⟨rfl, rfl, rfl, hlengths, .inr ⟨resident, txn, hframe, hdirty, ⟨heap, hheap⟩,
    hset, hbytes, rfl⟩⟩, rfl, ?_⟩
  rw [hset, if_pos rfl]

/-- What a flush of a page does, and when it succeeds. -/
theorem flushPage_flushed (hplaced : db.Placed layout) (page : PageId) :
    Flushed layout page db (db.flushPage page).2 ∧
      (db.Registered page → (db.flushPage page).1 = .ok () ∧ ∀ resident : Resident,
        (db.flushPage page).2.cache.frames[page]? = some resident → resident.dirtiedBy = none) := by
  cases hframe : db.cache.frames[page]? with
  | none =>
      simp only [flushPage, hframe]
      exact ⟨.of_frames rfl fun _ => rfl, by simp⟩
  | some resident =>
      cases hheap : db.catalog.heapFile page.table with
      | error error =>
          simp only [flushPage, hframe, hheap]
          exact ⟨.of_frames rfl fun _ => rfl, by simp [Registered, hheap]⟩
      | ok heap =>
          cases hdirty : resident.dirtiedBy with
          | none =>
              have hkept : ∀ other : PageId,
                  (db.cache.setFrame page resident.toFrame).frames[other]? =
                    db.cache.frames[other]? := by
                intro other
                rw [Cache.frames_setFrame_of_resident _ _ _ hframe]
                split
                · rename_i hsame
                  rw [← hsame, hframe]
                · rfl
              simp only [flushPage, hframe, hheap, Frame.flush, hdirty]
              refine ⟨.of_frames rfl hkept, fun _ => ⟨rfl, ?_⟩⟩
              intro found hfound
              rw [hkept, hframe, Option.some.injEq] at hfound
              rw [← hfound, hdirty]
          | some txn =>
              obtain ⟨hflushed, hok, hset⟩ := flushPage_of_dirty hplaced hframe hheap hdirty
              refine ⟨hflushed, fun _ => ⟨hok, ?_⟩⟩
              intro found hfound
              rw [hset, Option.some.injEq] at hfound
              rw [← hfound]
              rfl

/-- A page that has a place keeps it in a flush. -/
theorem Flushed.covers {before after : Database} (hflushed : Flushed layout page before after)
    (other : PageId) (hcovers : layout.Covers before.storage other) :
    layout.Covers after.storage other :=
  (hflushed.lengths.covers_iff other).mpr hcovers

/-- The before-images after a flush are those from before, some of them marked. -/
theorem Flushed.image {before after : Database} (hflushed : Flushed layout page before after)
    {txn : TxnId} {other : PageId} {image : BeforeImage}
    (h : after.journal.image? txn other = some image) :
    ∃ found, before.journal.image? txn other = some found ∧ found.bytes = image.bytes ∧
      (found.stolen = true → image.stolen = true) := by
  rcases hflushed.page with ⟨_, hjournal, _⟩ | ⟨_, owner, _, _, _, _, _, hjournal⟩
  · rw [hjournal] at h
    exact ⟨image, h, rfl, id⟩
  · rw [hjournal, Journal.image?_markStolen] at h
    split at h
    · rw [Option.map_eq_some_iff] at h
      obtain ⟨found, hfound, rfl⟩ := h
      exact ⟨found, hfound, rfl, fun _ => rfl⟩
    · exact ⟨image, h, rfl, id⟩

/-- No flush changes the bytes of a before-image. -/
theorem Flushed.imageBytes {before after : Database} (hflushed : Flushed layout page before after)
    (txn : TxnId) (other : PageId) :
    after.journal.imageBytes? txn other = before.journal.imageBytes? txn other := by
  rcases hflushed.page with ⟨_, hjournal, _⟩ | ⟨_, _, _, _, _, _, _, hjournal⟩
  · rw [hjournal]
  · rw [hjournal, Journal.imageBytes?_markStolen]

/-- No flush breaks the places of pages. -/
theorem Flushed.placed {before after : Database} (hflushed : Flushed layout page before after)
    (hplaced : before.Placed layout) : after.Placed layout where
  sound := by
    rw [hflushed.catalog]
    exact hplaced.sound
  locates := by
    rw [hflushed.catalog]
    exact hplaced.locates
  frame other resident hresident := by
    rcases hflushed.page with ⟨_, _, hframes⟩ | ⟨found, txn, hfound, _, _, hframes, _⟩
    · rw [hframes] at hresident
      exact (hplaced.frame other resident hresident).of_covers (hflushed.covers other)
    · rw [hframes] at hresident
      split at hresident
      · rename_i hsame
        subst hsame
        simp only [Option.some.injEq] at hresident
        rw [← hresident]
        have hplaces := (hplaced.frame page found hfound).of_covers (hflushed.covers page)
        exact hplaces.of_frame rfl rfl
      · exact (hplaced.frame other resident hresident).of_covers (hflushed.covers other)
  owner txn other image himage := by
    rw [hflushed.locks]
    obtain ⟨found, hfound, _⟩ := hflushed.image himage
    exact hplaced.owner txn other found hfound
  image txn other image himage := by
    obtain ⟨found, hfound, hbytes, _⟩ := hflushed.image himage
    obtain ⟨hlength, hcovers⟩ := hplaced.image txn other found hfound
    exact ⟨hbytes ▸ hlength, hflushed.covers other hcovers⟩

end Database

end RowStore
