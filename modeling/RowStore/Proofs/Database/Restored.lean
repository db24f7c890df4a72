import RowStore.Proofs.Database.Placed

/-!
# What ending a transaction does

`PutBack` tells what becomes of a page whose before-image is put back: in the cache it holds the
image, and on disk it does if the image was written, which happens exactly if it has to be and the
table is registered. A page in the cache counts as clean unless a write failed.
`rollBack_restored` says that an abort puts back every before-image of its transaction and leaves
the other pages alone, and `flushEach_flushed` that a commit is a sequence of flushes. Both keep
every page where it belongs.
-/

namespace RowStore

variable {layout : Layout}

/-- What becomes of a page whose before-image is put back. -/
structure PutBack (layout : Layout) (txn : TxnId) (page : PageId) (bytes : Bytes)
    (before after : Database) : Prop where
  absent : before.cache.frames[page]? = none → after.cache.frames[page]? = none
  resident : ∀ resident : Resident, before.cache.frames[page]? = some resident →
    ∃ restored : Resident, after.cache.frames[page]? = some restored ∧
      restored.page.id = resident.page.id ∧ restored.page.schema = resident.page.schema ∧
      restored.page.bytes = bytes ∧ restored.origin = resident.origin ∧
      (restored.dirtiedBy = none ↔
        (before.journal.isStolen txn page = true → before.Registered page))
  written : before.Registered page →
    before.cache.frames[page]? = none ∨ before.journal.isStolen txn page = true →
    layout.bytes after.storage page = bytes
  kept : ¬ (before.Registered page ∧
      (before.cache.frames[page]? = none ∨ before.journal.isStolen txn page = true)) →
    layout.bytes after.storage page = layout.bytes before.storage page

/-- What putting back before-images leaves alone, whichever they are. -/
structure Unrelated (layout : Layout) (pages : List PageId) (before after : Database) : Prop where
  config : after.config = before.config
  catalog : after.catalog = before.catalog
  locks : after.locks = before.locks
  journal : after.journal = before.journal
  lengths : Storage.SameLengths before.storage after.storage
  frames : ∀ other : PageId, other ∉ pages →
    after.cache.frames[other]? = before.cache.frames[other]?
  bytes : ∀ other, other ∉ pages →
    layout.bytes after.storage other = layout.bytes before.storage other

namespace Unrelated

variable {pages rest : List PageId} {before middle after : Database}

theorem refl : Unrelated layout pages before before :=
  ⟨rfl, rfl, rfl, rfl, fun _ => rfl, fun _ _ => rfl, fun _ _ => rfl⟩

theorem trans (hfirst : Unrelated layout pages before middle)
    (hrest : Unrelated layout rest middle after) :
    Unrelated layout (pages ++ rest) before after where
  config := hrest.config.trans hfirst.config
  catalog := hrest.catalog.trans hfirst.catalog
  locks := hrest.locks.trans hfirst.locks
  journal := hrest.journal.trans hfirst.journal
  lengths name := (hrest.lengths name).trans (hfirst.lengths name)
  frames other hother := by
    rw [List.mem_append, not_or] at hother
    exact (hrest.frames other hother.2).trans (hfirst.frames other hother.1)
  bytes other hother := by
    rw [List.mem_append, not_or] at hother
    exact (hrest.bytes other hother.2).trans (hfirst.bytes other hother.1)

/-- A page that has a place keeps it. -/
theorem covers (hothers : Unrelated layout pages before after) (other : PageId)
    (hcovers : layout.Covers before.storage other) : layout.Covers after.storage other :=
  (hothers.lengths.covers_iff other).mpr hcovers

end Unrelated

namespace PutBack

variable {txn : TxnId} {page : PageId} {bytes : Bytes} {pages : List PageId}
  {before middle after : Database}

/-- What was put back stays so while other pages are put back. -/
theorem then_others (hput : PutBack layout txn page bytes before middle)
    (hothers : Unrelated layout pages middle after) (hpage : page ∉ pages) :
    PutBack layout txn page bytes before after where
  absent h := (hothers.frames page hpage).trans (hput.absent h)
  resident resident h := by
    rw [hothers.frames page hpage]
    exact hput.resident resident h
  written h hneeds := (hothers.bytes page hpage).trans (hput.written h hneeds)
  kept h := (hothers.bytes page hpage).trans (hput.kept h)

/-- What is put back after other pages were put back. -/
theorem after_others (hothers : Unrelated layout pages before middle) (hpage : page ∉ pages)
    (hput : PutBack layout txn page bytes middle after) :
    PutBack layout txn page bytes before after := by
  have hframe := hothers.frames page hpage
  have hregistered : middle.Registered page ↔ before.Registered page := by
    simp only [Database.Registered, hothers.catalog]
  obtain ⟨habsent, hresident, hwritten, hkept⟩ := hput
  rw [hframe, hregistered, hothers.journal] at hwritten hkept
  refine ⟨hframe ▸ habsent, ?_, hwritten, ?_⟩
  · intro resident h
    rw [← hregistered, ← hothers.journal]
    exact hresident resident (hframe.trans h)
  · intro h
    rw [hkept h, hothers.bytes page hpage]

end PutBack

/-- A page that takes other contents of its length keeps its name. -/
theorem HeapPage.restore_of_length {page : HeapPage} {bytes : Bytes}
    (h : bytes.length = page.bytes.length) :
    ∃ restored : HeapPage, page.restore bytes = .ok restored ∧ restored.id = page.id ∧
      restored.schema = page.schema ∧ restored.bytes = bytes :=
  ⟨page.withBytes bytes h, by rw [restore, dif_pos h], rfl, rfl, rfl⟩

namespace Database

variable {db : Database} {txn : TxnId} {page : PageId}

/-- Writing a before-image of a page that has a place. -/
theorem writeImage_eq (hplaced : db.Placed layout) {bytes : Bytes}
    (hlength : bytes.length = layout.pageSize) (hcovers : layout.Covers db.storage page) :
    (¬ db.Registered page ∧ ∃ error, db.writeImage page bytes = (.error error, db)) ∨
      db.Registered page ∧ ∃ storage, db.writeImage page bytes = (.ok (), { db with storage }) ∧
        (∀ other, layout.bytes storage other =
          if other = page then bytes else layout.bytes db.storage other) ∧
        Storage.SameLengths db.storage storage := by
  cases hheap : db.catalog.heapFile page.table with
  | error error =>
      left
      simp only [Registered, writeImage, hheap]
      exact ⟨by simp, error, rfl⟩
  | ok heap =>
      right
      obtain ⟨storage, hwrite, hbytes, hlengths⟩ := hplaced.writes hheap hlength hcovers
      simp only [writeImage, hheap, hwrite]
      exact ⟨⟨heap, hheap⟩, storage, rfl, hbytes, hlengths⟩

/-- What putting back one before-image does, and when it succeeds. -/
structure Restores (layout : Layout) (txn : TxnId) (page : PageId) (bytes : Bytes)
    (before : Database) (outcome : Except Error Unit × Database) : Prop where
  others : Unrelated layout [page] before outcome.2
  put : PutBack layout txn page bytes before outcome.2
  ok : before.Registered page → outcome.1 = .ok ()

/-- A page that is not in the cache is put back on disk. -/
theorem restore_of_absent (hplaced : db.Placed layout) {bytes : Bytes}
    (hlength : bytes.length = layout.pageSize) (hcovers : layout.Covers db.storage page)
    (hframe : db.cache.frames[page]? = none) :
    Restores layout txn page bytes db (db.restore txn page bytes) := by
  simp only [restore, hframe]
  rcases writeImage_eq hplaced hlength hcovers with
    ⟨hmissing, error, hwrite⟩ | ⟨hregistered, storage, hwrite, hbytes, hlengths⟩
  · rw [hwrite]
    exact ⟨.refl, ⟨id, by simp [hframe], fun h => absurd h hmissing, fun _ => rfl⟩,
      fun h => absurd h hmissing⟩
  · rw [hwrite]
    refine ⟨⟨rfl, rfl, rfl, rfl, hlengths, fun _ _ => rfl, ?_⟩, ⟨id,
      by simp [hframe], ?_, ?_⟩, fun _ => rfl⟩
    · intro other hother
      rw [hbytes, if_neg (by simpa using hother)]
    · intro _ _
      rw [hbytes, if_pos rfl]
    · intro h
      exact absurd ⟨hregistered, .inl hframe⟩ h

/-- Setting the frame of one page leaves the frames of the others alone. -/
theorem frames_setFrame_of_others (cache : Cache) (frame : Frame) {other : PageId}
    (hother : other ∉ [page]) :
    (cache.setFrame page frame).frames[other]? = cache.frames[other]? := by
  rw [Cache.frames_setFrame, if_neg (Ne.symm (List.ne_of_not_mem_cons hother))]

/-- A page in the cache that was not stolen is put back there, and counts as clean. -/
theorem restore_of_unstolen (hplaced : db.Placed layout) {bytes : Bytes}
    (hlength : bytes.length = layout.pageSize) {resident : Resident}
    (hframe : db.cache.frames[page]? = some resident)
    (hstolen : db.journal.isStolen txn page = false) :
    Restores layout txn page bytes db (db.restore txn page bytes) := by
  obtain ⟨restored, hrestore, hid, hschema, hrestored⟩ :=
    HeapPage.restore_of_length (hlength.trans (hplaced.frame page resident hframe).length.symm)
  have hset := Cache.frames_setFrame_of_resident db.cache page page hframe ⟨restored, none⟩
  rw [if_pos rfl] at hset
  simp only [restore, hframe, hrestore, hstolen, Bool.false_eq_true, if_false]
  refine ⟨⟨rfl, rfl, rfl, rfl, fun _ => rfl, fun other => frames_setFrame_of_others _ _,
    fun _ _ => rfl⟩, ⟨by simp [hframe], ?_, ?_, fun _ => rfl⟩,
    fun _ => rfl⟩
  · intro found hfound
    rw [hframe, Option.some.injEq] at hfound
    subst hfound
    exact ⟨_, hset, hid, hschema, hrestored, rfl, by simp [hstolen]⟩
  · intro _ hneeds
    simp [hframe, hstolen] at hneeds

/-- A page in the cache that was stolen is put back there and on disk. If it cannot be written, it
stays unwritten. -/
theorem restore_of_stolen (hplaced : db.Placed layout) {bytes : Bytes}
    (hlength : bytes.length = layout.pageSize) (hcovers : layout.Covers db.storage page)
    {resident : Resident} (hframe : db.cache.frames[page]? = some resident)
    (hstolen : db.journal.isStolen txn page = true) :
    Restores layout txn page bytes db (db.restore txn page bytes) := by
  have hsize : bytes.length = resident.page.bytes.length :=
    hlength.trans (hplaced.frame page resident hframe).length.symm
  obtain ⟨restored, hrestore, hid, hschema, hrestored⟩ := HeapPage.restore_of_length hsize
  have hset := Cache.frames_setFrame_of_resident db.cache page page hframe ⟨restored, none⟩
  rw [if_pos rfl] at hset
  have hcached : Placed layout { db with cache := db.cache.setFrame page ⟨restored, none⟩ } :=
    hplaced.setFrame hframe hid (hrestored ▸ hsize)
  have hwritten := writeImage_eq hcached hlength hcovers
  simp only [restore, hframe, hrestore, hstolen, if_true]
  rcases hwritten with
    ⟨hmissing, error, hwrite⟩ | ⟨hregistered, storage, hwrite, hbytes, hlengths⟩
  · rw [hwrite]
    refine ⟨⟨rfl, rfl, rfl, rfl, fun _ => rfl, ?_, fun _ _ => rfl⟩,
      ⟨by simp [hframe], ?_, fun h => absurd h hmissing, fun _ => rfl⟩,
      fun h => absurd h hmissing⟩
    · intro other hother
      rw [frames_setFrame_of_others _ _ hother, frames_setFrame_of_others _ _ hother]
    · intro found hfound
      rw [hframe, Option.some.injEq] at hfound
      subst hfound
      -- The frame is set a second time, to mark what is still owed.
      have hreset := Cache.frames_setFrame_of_resident _ page page hset ⟨restored, some txn⟩
      rw [if_pos rfl] at hreset
      refine ⟨_, hreset, hid, hschema, hrestored, rfl, ?_⟩
      simp only [reduceCtorEq, hstolen, forall_const, false_iff]
      exact hmissing
  · rw [hwrite]
    refine ⟨⟨rfl, rfl, rfl, rfl, hlengths, fun other => frames_setFrame_of_others _ _, ?_⟩,
      ⟨by simp [hframe], ?_, ?_, ?_⟩, fun _ => rfl⟩
    · intro other hother
      rw [hbytes, if_neg (by simpa using hother)]
    · intro found hfound
      rw [hframe, Option.some.injEq] at hfound
      subst hfound
      exact ⟨_, hset, hid, hschema, hrestored, rfl, fun _ _ => hregistered, fun _ => rfl⟩
    · intro _ _
      rw [hbytes, if_pos rfl]
    · intro h
      exact absurd ⟨hregistered, .inr hstolen⟩ h

/-- Putting back one before-image. -/
theorem restore_putBack (hplaced : db.Placed layout) {bytes : Bytes}
    (hlength : bytes.length = layout.pageSize) (hcovers : layout.Covers db.storage page) :
    Restores layout txn page bytes db (db.restore txn page bytes) := by
  cases hframe : db.cache.frames[page]? with
  | none => exact restore_of_absent hplaced hlength hcovers hframe
  | some resident =>
      cases hstolen : db.journal.isStolen txn page with
      | false => exact restore_of_unstolen hplaced hlength hframe hstolen
      | true => exact restore_of_stolen hplaced hlength hcovers hframe hstolen

/-- Putting back a before-image keeps every page where it belongs. -/
theorem Placed.of_putBack {after : Database} {bytes : Bytes} (hplaced : db.Placed layout)
    (hothers : Unrelated layout [page] db after) (hput : PutBack layout txn page bytes db after)
    (hlength : bytes.length = layout.pageSize) : after.Placed layout where
  sound := by
    rw [hothers.catalog]
    exact hplaced.sound
  locates := by
    rw [hothers.catalog]
    exact hplaced.locates
  frame other found hfound := by
    by_cases hsame : other = page
    · subst hsame
      cases hframe : db.cache.frames[other]? with
      | none => simp [hput.absent hframe] at hfound
      | some resident =>
          obtain ⟨restored, hrestored, hid, _, hbytes, horigin, _⟩ := hput.resident resident hframe
          rw [hfound, Option.some.injEq] at hrestored
          subst hrestored
          have hplaces := hplaced.frame other resident hframe
          exact ⟨hid.trans hplaces.id, hbytes ▸ hlength, horigin ▸ hplaces.origin,
            hothers.covers other hplaces.covers⟩
    · rw [hothers.frames other (by simpa using hsame)] at hfound
      exact (hplaced.frame other found hfound).of_covers (hothers.covers other)
  owner := by
    rw [hothers.journal, hothers.locks]
    exact hplaced.owner
  image other target image himage := by
    rw [hothers.journal] at himage
    obtain ⟨hlength, hcovers⟩ := hplaced.image other target image himage
    exact ⟨hlength, hothers.covers target hcovers⟩

/-- Putting back before-images of a transaction, of one page each. -/
theorem restoreEach_putBack {images : List (PageId × BeforeImage)} (hplaced : db.Placed layout)
    (himages : ∀ entry ∈ images, db.journal.image? txn entry.1 = some entry.2)
    (hdistinct : (images.map Prod.fst).Nodup) :
    Unrelated layout (images.map Prod.fst) db (db.restoreEach txn images).2 ∧
      (db.restoreEach txn images).2.Placed layout ∧
      (∀ entry ∈ images,
        PutBack layout txn entry.1 entry.2.bytes db (db.restoreEach txn images).2) ∧
      ((∀ entry ∈ images, db.Registered entry.1) → (db.restoreEach txn images).1 = .ok ()) := by
  -- Each page has one before-image, so what is put back first is not touched by the rest, and the
  -- rest finds its pages as they were at first.
  induction images generalizing db with
  | nil => exact ⟨.refl, hplaced, by simp, fun _ => rfl⟩
  | cons entry rest ih =>
      obtain ⟨page, image⟩ := entry
      obtain ⟨hlength, hcovers⟩ := hplaced.image txn page image (himages _ (List.mem_cons_self ..))
      obtain ⟨hothers, hput, hok⟩ := restore_putBack hplaced hlength hcovers
      rw [List.map_cons, List.nodup_cons] at hdistinct
      obtain ⟨hpage, hdistinct⟩ := hdistinct
      have himages : ∀ entry ∈ rest, (db.restore txn page image.bytes).2.journal.image? txn
          entry.1 = some entry.2 := by
        intro entry hentry
        rw [hothers.journal]
        exact himages entry (List.mem_cons_of_mem _ hentry)
      obtain ⟨hrest, hplaced, hputs, hoks⟩ :=
        ih (hplaced.of_putBack hothers hput hlength) himages hdistinct
      refine ⟨hothers.trans hrest, hplaced, ?_, ?_⟩
      · intro entry hentry
        rcases List.mem_cons.mp hentry with rfl | hentry
        · exact hput.then_others hrest hpage
        · refine PutBack.after_others hothers (fun hsame => hpage ?_) (hputs entry hentry)
          exact List.mem_map.mpr ⟨entry, hentry, List.mem_singleton.mp hsame⟩
      · intro hregistered
        have hregistered' : ∀ entry ∈ rest,
            (db.restore txn page image.bytes).2.Registered entry.1 := by
          intro entry hentry
          rw [Registered, hothers.catalog]
          exact hregistered entry (List.mem_cons_of_mem _ hentry)
        simp only [restoreEach, hok (hregistered _ (List.mem_cons_self ..)), hoks hregistered',
          Except.bind]

/-- An abort puts back every before-image of its transaction and leaves the other pages alone. -/
theorem rollBack_putBack (hplaced : db.Placed layout) (txn : TxnId) :
    ∃ pages, (∀ page, page ∈ pages ↔ (db.journal.image? txn page).isSome = true) ∧
      Unrelated layout pages db (db.rollBack txn).2 ∧ (db.rollBack txn).2.Placed layout ∧
      (∀ page image, db.journal.image? txn page = some image →
        PutBack layout txn page image.bytes db (db.rollBack txn).2) ∧
      ((∀ page ∈ pages, db.Registered page) → (db.rollBack txn).1 = .ok ()) := by
  have himages : ∀ entry ∈ (db.journal.imagesOf txn).toList,
      db.journal.image? txn entry.1 = some entry.2 :=
    fun entry hentry => (Journal.mem_imagesOf ..).mp hentry
  have hdistinct : ((db.journal.imagesOf txn).toList.map Prod.fst).Nodup := by
    rw [Std.ExtTreeMap.map_fst_toList_eq_keys]
    exact Std.ExtTreeMap.nodup_keys
  obtain ⟨hothers, hplaced, hputs, hok⟩ := restoreEach_putBack hplaced himages hdistinct
  refine ⟨_, ?_, hothers, hplaced, ?_, fun h => hok ?_⟩
  · intro page
    simp only [List.mem_map, Prod.exists, exists_and_right, exists_eq_right,
      Journal.mem_imagesOf, Option.isSome_iff_exists]
  · intro page image himage
    exact hputs (page, image) ((Journal.mem_imagesOf ..).mpr himage)
  · exact fun entry hentry => h entry.1 (List.mem_map_of_mem hentry)

/-- A flush of one page is a flush of the list of it. -/
theorem flushEach_singleton (db : Database) (page : PageId) :
    (db.flushEach [page]).2 = (db.flushPage page).2 := by
  simp only [flushEach]
  split <;> simp_all

/-- What holds of a database before flushes, and is kept by each of them, holds after. -/
theorem flushEach_preserves (holds : Database → Prop) (pages : List PageId)
    (hflush : ∀ {db : Database}, ∀ page ∈ pages, holds db → holds (db.flushPage page).2)
    (h : holds db) : holds (db.flushEach pages).2 := by
  induction pages generalizing db with
  | nil => exact h
  | cons page rest ih =>
      have hpage := hflush page (List.mem_cons_self ..) h
      simp only [flushEach]
      split
      · rename_i heq
        rw [heq] at hpage
        exact hpage
      · rename_i heq
        rw [heq] at hpage
        exact ih (fun page h => hflush page (List.mem_cons_of_mem _ h)) hpage

/-- A page without unwritten changes has none after a flush. -/
theorem Flushed.clean {after : Database} (hflushed : Flushed layout page db after)
    {other : PageId}
    (hclean : ∀ resident : Resident, db.cache.frames[other]? = some resident →
      resident.dirtiedBy = none) (resident : Resident)
    (hresident : after.cache.frames[other]? = some resident) : resident.dirtiedBy = none := by
  rcases hflushed.page with ⟨_, _, hframes⟩ | ⟨_, _, _, _, _, hframes, _⟩
  · exact hclean resident (hframes other ▸ hresident)
  · rw [hframes] at hresident
    split at hresident
    · simp only [Option.some.injEq] at hresident
      rw [← hresident]
      rfl
    · exact hclean resident hresident

/-- Flushes of registered pages succeed, and leave these pages clean. -/
theorem flushEach_clean (pages : List PageId) (hplaced : db.Placed layout)
    (hregistered : ∀ page ∈ pages, db.Registered page) :
    (db.flushEach pages).1 = .ok () ∧ ∀ page ∈ pages, ∀ resident : Resident,
      (db.flushEach pages).2.cache.frames[page]? = some resident → resident.dirtiedBy = none := by
  induction pages generalizing db with
  | nil => exact ⟨rfl, by simp⟩
  | cons page rest ih =>
      obtain ⟨hflushed, hok⟩ := flushPage_flushed hplaced page
      obtain ⟨hok, hclean⟩ := hok (hregistered page (List.mem_cons_self ..))
      rcases hflush : db.flushPage page with ⟨answer, flushed⟩
      rw [hflush] at hflushed hok hclean
      subst hok
      have hregistered : ∀ page ∈ rest, flushed.Registered page := by
        intro other hother
        rw [Registered, hflushed.catalog]
        exact hregistered other (List.mem_cons_of_mem _ hother)
      obtain ⟨hoks, hcleans⟩ := ih (hflushed.placed hplaced) hregistered
      simp only [flushEach, hflush]
      refine ⟨hoks, ?_⟩
      intro other hother
      rcases List.mem_cons.mp hother with rfl | hother
      · have hkept := flushEach_preserves
          (fun db => db.Placed layout ∧ ∀ resident : Resident,
            db.cache.frames[other]? = some resident → resident.dirtiedBy = none) rest
          (fun page _ h => ⟨(flushPage_flushed h.1 page).1.placed h.1,
            (flushPage_flushed h.1 page).1.clean h.2⟩)
          ⟨hflushed.placed hplaced, hclean⟩
        exact hkept.2
      · exact hcleans other hother

/-- A page that is not flushed stays as it is, in the cache and on disk. -/
theorem flushEach_others (pages : List PageId) (hplaced : db.Placed layout) {other : PageId}
    (hother : other ∉ pages) :
    (db.flushEach pages).2.cache.frames[other]? = db.cache.frames[other]? ∧
      layout.bytes (db.flushEach pages).2.storage other = layout.bytes db.storage other := by
  have hkept := flushEach_preserves
    (fun after => after.Placed layout ∧
      after.cache.frames[other]? = db.cache.frames[other]? ∧
      layout.bytes after.storage other = layout.bytes db.storage other) pages
    (fun page hpage h => by
      have hflushed := (flushPage_flushed h.1 page).1
      have hne : page ≠ other := by
        rintro rfl
        exact hother hpage
      refine ⟨hflushed.placed h.1, ?_⟩
      rcases hflushed.page with ⟨hstorage, _, hframes⟩ | ⟨_, _, _, _, _, hframes, hbytes, _⟩
      · rw [hframes, hstorage]
        exact h.2
      · rw [hframes, hbytes, if_neg hne, if_neg (Ne.symm hne)]
        exact h.2)
    ⟨hplaced, rfl, rfl⟩
  exact hkept.2

/-- A flush may mark a before-image, and changes the bytes of none. -/
theorem imageBytes_flushPage (db : Database) (flushed : PageId) (txn : TxnId) (page : PageId) :
    (db.flushPage flushed).2.journal.imageBytes? txn page = db.journal.imageBytes? txn page := by
  simp only [flushPage]
  split
  · rfl
  · rename_i resident _
    split
    · rfl
    · rename_i heap _
      cases hdirty : resident.dirtiedBy with
      | none => simp only [Frame.flush, hdirty]
      | some owner =>
          simp only [Frame.flush, hdirty]
          rcases heap.writePage db.storage resident.page with ⟨_ | _, storage⟩ <;>
            exact db.journal.imageBytes?_markStolen owner txn flushed page

/-- No flush changes the bytes of a before-image. -/
theorem imageBytes_flushEach (db : Database) (pages : List PageId) (txn : TxnId) (page : PageId) :
    (db.flushEach pages).2.journal.imageBytes? txn page = db.journal.imageBytes? txn page :=
  flushEach_preserves
    (fun after => after.journal.imageBytes? txn page = db.journal.imageBytes? txn page) pages
    (fun flushed _ h => (imageBytes_flushPage _ flushed txn page).trans h) rfl

end Database

end RowStore
