import RowStore.Proofs.Database.Settled
import RowStore.Proofs.Lock.Alone
import RowStore.Proofs.Page.Rows

/-!
# A table that a transaction has to itself

`Solo` says of a database that it has one table, that its cache, journal, and disk agree, and that
nobody but one transaction holds a lock. Such a transaction never waits, so each of its operations
runs to its end, `Solo.finishes`. `Steady` says that nothing has changed that a transaction could
see: requests, fetches, and notes are steady, and only the change of a page and the growth of the
file are not.
-/

namespace RowStore

variable {layout : Layout} {heap : HeapFile} {txn : TxnId}

namespace Database

/-- The database has one table, and nobody but the transaction holds a lock. -/
structure Solo (layout : Layout) (heap : HeapFile) (txn : TxnId) (db : Database) : Prop where
  placed : db.Placed layout
  intact : db.Intact layout
  registered : db.catalog.heapFile heap.table = .ok heap
  only : ∀ table found, db.catalog.heapFile table = .ok found → table = heap.table
  others : ∀ table, table ≠ heap.table → layout.fileOf table = none
  alone : db.locks.Alone txn
  schema : ∀ (page : PageId) (resident : Resident), db.cache.frames[page]? = some resident →
    resident.page.schema = heap.schema
  whole : (db.storage.bytes heap.file).length % heap.file.pageSize = 0

/-- Nothing that a transaction could see has changed: neither how long the files are, nor what a
page holds or is settled to hold. -/
structure Steady (layout : Layout) (before after : Database) : Prop where
  lengths : Storage.SameLengths before.storage after.storage
  content : ∀ page, layout.contentOf after page = layout.contentOf before page
  settled : ∀ page, layout.settled after page = layout.settled before page

theorem Steady.refl (db : Database) : db.Steady layout db :=
  ⟨fun _ => rfl, fun _ => rfl, fun _ => rfl⟩

theorem Steady.trans {before middle after : Database} (hfirst : before.Steady layout middle)
    (hsecond : middle.Steady layout after) : before.Steady layout after :=
  ⟨fun name => (hsecond.lengths name).trans (hfirst.lengths name),
    fun page => (hsecond.content page).trans (hfirst.content page),
    fun page => (hsecond.settled page).trans (hfirst.settled page)⟩

end Database

namespace Act

variable {before after : Database} {accesses : List Access} {changes : List PageId}

/-- No act gives a hold to another transaction. -/
theorem holds (hact : Act txn before accesses changes after) (page : PageId) (holder : TxnId)
    (mode : LockMode) (hheld : (after.locks.lockOf page).holds holder mode = true) :
    (before.locks.lockOf page).holds holder mode = true ∨ holder = txn := by
  cases hact with
  | lock hserves => exact (hserves.gains page holder mode hheld).imp_right And.left
  | @release released =>
      rw [LockTable.lockOf_release] at hheld
      split at hheld
      · rename_i hsame
        subst hsame
        split at hheld
        · exact .inl (LockState.holds_drop.mp hheld).2
        · exact .inl hheld
      · exact .inl hheld
  | fetch hfetched => exact .inl (hfetched.holds page holder mode ▸ hheld)
  | read | note | change | append => exact .inl hheld

/-- A transaction keeps its table to itself whatever it does, as long as the file has whole
pages. -/
theorem solo (hact : Act txn before accesses changes after) (hsolo : before.Solo layout heap txn)
    (hwhole : (after.storage.bytes heap.file).length % heap.file.pageSize = 0) :
    after.Solo layout heap txn where
  placed := hact.placed hsolo.placed
  intact := hact.intact hsolo.placed hsolo.intact
  registered := by
    rw [hact.catalog]
    exact hsolo.registered
  only := by
    rw [hact.catalog]
    exact hsolo.only
  others := hsolo.others
  alone := hsolo.alone.of_holds hact.holds
  schema page resident hframe := by
    rcases hact.frame page with ⟨hsame, _⟩ | ⟨hnone, _⟩ | ⟨_, _, _, loaded, hloaded, hfresh⟩ |
      ⟨_, _, _, _, found, changed, hfound, hschema, hchanged⟩
    · exact hsolo.schema page resident (hsame ▸ hframe)
    · simp [hnone] at hframe
    · rw [hframe, Option.some.injEq] at hloaded
      obtain ⟨source, hsource, _, hschema⟩ := hfresh.origin
      have htable := hsolo.only page.table source hsource
      rw [htable, hsolo.registered, Except.ok.injEq] at hsource
      rw [hloaded, hschema, hsource]
    · rw [hframe, Option.some.injEq] at hchanged
      rw [hchanged]
      exact hschema.trans (hsolo.schema page found hfound)
  whole := hwhole

/-- An act that changes no page and no file is steady. -/
theorem steady (hact : Act txn before accesses [] after) (hsolo : before.Solo layout heap txn)
    (hdirectory : after.storage.directory = before.storage.directory) :
    before.Steady layout after := by
  have hdisk := fun page => (layout.bytes_of_directory hdirectory page).1
  exact ⟨fun name => by rw [hdirectory],
    fun page => hact.contentOf hsolo.placed hsolo.intact (hdisk page) List.not_mem_nil,
    fun page => hact.settled hsolo.placed hsolo.intact (hdisk page)⟩

end Act

namespace Database

variable {db after : Database} {page : PageId} {mode : LockMode}

/-- An act that changes no page and no file leaves the transaction its table, and is steady. -/
theorem Solo.act {accesses : List Access} (hsolo : db.Solo layout heap txn)
    (hact : Act txn db accesses [] after)
    (hdirectory : after.storage.directory = db.storage.directory) :
    after.Solo layout heap txn ∧ db.Steady layout after := by
  refine ⟨hact.solo hsolo ?_, hact.steady hsolo hdirectory⟩
  show (after.storage.directory.content heap.file.name).length % _ = 0
  rw [hdirectory]
  exact hsolo.whole

/-- Every request is granted. -/
theorem Solo.request (hsolo : db.Solo layout heap txn) (page : PageId) (mode : LockMode) :
    ∃ locks, db.locks.request txn page mode = (.granted, locks) ∧
      ({ db with locks } : Database).Solo layout heap txn ∧
      db.Steady layout { db with locks } ∧ LockTable.Serves txn page mode db.locks locks ∧
      (locks.lockOf page).holds txn mode = true ∧
      ∀ other, locks.isReferenced other = db.locks.isReferenced other := by
  obtain ⟨locks, hrequest, _, hserves, hholds, hreferenced⟩ := hsolo.alone.request page mode
  obtain ⟨hsolo', hsteady⟩ := hsolo.act (.lock hserves) rfl
  exact ⟨locks, hrequest, hsolo', hsteady, hserves, hholds, hreferenced⟩

/-- An access under a lock fails, or leads to the frame of the page. -/
theorem Solo.access (hsolo : db.Solo layout heap txn)
    (hholds : (db.locks.lockOf page).holds txn mode = true) :
    (∃ error after, db.access txn page mode = (.error error, after) ∧
      after.Solo layout heap txn ∧ db.Steady layout after) ∨
    ∃ resident after, db.access txn page mode = (.ok ⟨page, resident.serial⟩, after) ∧
      after.Solo layout heap txn ∧ db.Steady layout after ∧
      after.cache.frames[page]? = some resident ∧
      (mode = .exclusive → (after.locks.lockOf page).exclusive = some txn ∧
        (after.journal.image? txn page).isSome = true) := by
  rcases access_eq hsolo.placed.sound txn page mode with
    ⟨error, fetched, haccess, hfetched⟩ | ⟨resident, fetched, hfetched, hframe, _, haccess⟩
  · obtain ⟨hsolo', hsteady⟩ := hsolo.act (.fetch hfetched) hfetched.directory
    exact .inl ⟨error, fetched, haccess, hsolo', hsteady⟩
  · obtain ⟨hsolo', hsteady⟩ := hsolo.act (.fetch hfetched) hfetched.directory
    right
    cases mode with
    | shared => exact ⟨resident, fetched, haccess, hsolo', hsteady, hframe, by simp⟩
    | exclusive =>
        have howner : (fetched.locks.lockOf page).exclusive = some txn := by
          rw [hfetched.exclusive]
          exact LockState.holds_exclusive_iff.mp hholds
        obtain ⟨hsolo'', hsteady'⟩ := hsolo'.act (.note hframe howner) rfl
        refine ⟨resident, _, haccess, hsolo'', hsteady.trans hsteady', hframe,
          fun _ => ⟨howner, ?_⟩⟩
        simp only [noted, Journal.image?_record, and_self, if_true, Option.isSome_some]

variable (hsolo : db.Solo layout heap txn)
include hsolo

theorem Solo.locates : layout.Locates heap.table heap.file :=
  hsolo.placed.locates heap.table heap hsolo.registered

theorem Solo.pageSize_ne_zero : heap.file.pageSize ≠ 0 := by
  rw [(hsolo.placed.sound.fits heap.table heap hsolo.registered).pageSize]
  exact hsolo.placed.sound.pageSize

/-- The file consists of its pages. -/
theorem Solo.length_eq :
    (db.storage.bytes heap.file).length = heap.pageCount db.storage * heap.file.pageSize := by
  have hsize := Nat.pos_of_ne_zero hsolo.pageSize_ne_zero
  have hdiv := Nat.div_mul_cancel (Nat.dvd_of_mod_eq_zero hsolo.whole)
  have hcount : heap.pageCount db.storage =
      (db.storage.bytes heap.file).length / heap.file.pageSize := by
    show ((db.storage.bytes heap.file).length + heap.file.pageSize - 1) / heap.file.pageSize = _
    rw [← hdiv, Nat.mul_div_cancel _ hsize, Nat.add_sub_assoc hsize, Nat.add_comm,
      Nat.add_mul_div_right _ _ hsize, Nat.div_eq_of_lt (by omega), Nat.zero_add]
  rw [hcount, hdiv]

/-- The pages that the files cover are those of the table. -/
theorem Solo.covers_iff :
    layout.Covers db.storage page ↔
      page.table = heap.table ∧ page.number < heap.pageCount db.storage := by
  have hsize := hsolo.pageSize_ne_zero
  obtain ⟨table, number⟩ := page
  by_cases htable : table = heap.table
  · subst htable
    rw [hsolo.locates.covers_iff, hsolo.length_eq]
    refine ⟨fun h => ⟨rfl, ?_⟩, ?_⟩
    · show number < heap.pageCount db.storage
      apply Decidable.byContradiction
      intro hlast
      have hmul := Nat.mul_le_mul_right heap.file.pageSize (Nat.not_lt.mp hlast)
      omega
    · intro h
      have hmul := Nat.mul_le_mul_right heap.file.pageSize (Nat.succ_le_of_lt h.2)
      rw [Nat.succ_mul] at hmul
      exact hmul
  · refine ⟨?_, fun h => absurd h.1 htable⟩
    intro ⟨name, hname, _⟩
    rw [show layout.fileOf table = none from hsolo.others table htable] at hname
    simp at hname

/-- There is nothing on disk outside the pages of the table. -/
theorem Solo.bytes_of_not_covers (h : ¬ layout.Covers db.storage page) :
    layout.bytes db.storage page = [] := by
  rw [hsolo.covers_iff] at h
  obtain ⟨table, number⟩ := page
  by_cases htable : table = heap.table
  · subst htable
    have hnumber : heap.pageCount db.storage ≤ number := Nat.not_lt.mp fun hlt => h ⟨rfl, hlt⟩
    have hmul := Nat.mul_le_mul_right heap.file.pageSize hnumber
    rw [hsolo.locates.bytes_eq]
    unfold Bytes.slice
    rw [List.drop_of_length_le (by rw [hsolo.length_eq]; omega), List.take_nil]
  · unfold Layout.bytes
    rw [show layout.fileOf table = none from hsolo.others table htable]

/-- A page that the files do not cover is not in the cache and has no before-image. -/
theorem Solo.absent_of_not_covers (h : ¬ layout.Covers db.storage page) :
    db.cache.frames[page]? = none ∧ ∀ holder, db.journal.image? holder page = none := by
  constructor
  · cases hframe : db.cache.frames[page]? with
    | none => rfl
    | some resident => exact absurd (hsolo.placed.frame page resident hframe).covers h
  · intro holder
    cases himage : db.journal.image? holder page with
    | none => rfl
    | some image => exact absurd (hsolo.placed.image holder page image himage).2 h

/-- A page outside the table holds nothing. -/
theorem Solo.contents_of_not_covers (h : ¬ layout.Covers db.storage page) :
    layout.contentOf db page = [] ∧ layout.settled db page = [] := by
  obtain ⟨hframe, himage⟩ := hsolo.absent_of_not_covers h
  obtain ⟨hcontent, hsettled⟩ := layout.contents_of_absent hframe himage
  have hbytes := hsolo.bytes_of_not_covers h
  exact ⟨hcontent.trans hbytes, hsettled.trans hbytes⟩

/-- Changing a page that the transaction may change. -/
theorem Solo.change {resident : Resident} {changed : HeapPage}
    (hframe : db.cache.frames[page]? = some resident)
    (howner : (db.locks.lockOf page).exclusive = some txn)
    (himage : (db.journal.image? txn page).isSome = true)
    (hedited : resident.page.Edited changed) :
    Solo layout heap txn { db with cache := db.cache.setFrame page ⟨changed, some txn⟩ } ∧
      ∀ other,
        layout.contentOf { db with cache := db.cache.setFrame page ⟨changed, some txn⟩ } other =
          (if other = page then changed.bytes else layout.contentOf db other) ∧
        layout.settled { db with cache := db.cache.setFrame page ⟨changed, some txn⟩ } other =
          layout.settled db other := by
  have hact : Act txn db [] [page] _ := .change hframe howner himage hedited
  refine ⟨hact.solo hsolo hsolo.whole, fun other => ⟨?_, ?_⟩⟩
  · split
    · rename_i hsame
      subst hsame
      have hset : ({ db with
          cache := db.cache.setFrame other ⟨changed, some txn⟩ } : Database).cache.frames[other]? =
            some { resident with toFrame := ⟨changed, some txn⟩ } := by
        rw [Cache.frames_setFrame_of_resident _ _ _ hframe, if_pos rfl]
      exact Layout.contentOf_of_frame hset
    · rename_i hother
      exact hact.contentOf hsolo.placed hsolo.intact rfl (by simpa using hother)
  · exact hact.settled hsolo.placed hsolo.intact rfl

/-- The file after a page was added to it. -/
theorem Solo.bytes_append :
    (heap.appendPage db.storage).2.bytes heap.file =
      Bytes.resize (db.storage.bytes heap.file)
        ((db.storage.bytes heap.file).length + heap.file.pageSize) := by
  have hcount : Storage.pagesFor heap.file (db.storage.bytes heap.file).length =
      heap.pageCount db.storage := rfl
  unfold HeapFile.appendPage Storage.appendPage
  simp only [hcount, ← hsolo.length_eq]
  show Directory.content _ heap.file.name = _
  rw [Storage.content_putBytes, if_pos rfl]

/-- Adding a page to the file of the table: the file is one page longer. -/
theorem Solo.grow :
    Solo layout heap txn { db with storage := (heap.appendPage db.storage).2 } ∧
    heap.pageCount (heap.appendPage db.storage).2 = heap.pageCount db.storage + 1 := by
  have hact : Act txn db [] [] { db with storage := (heap.appendPage db.storage).2 } :=
    .append hsolo.pageSize_ne_zero
  have hgrown : ((heap.appendPage db.storage).2.bytes heap.file).length =
      (heap.pageCount db.storage + 1) * heap.file.pageSize := by
    rw [hsolo.bytes_append, Bytes.length_resize, hsolo.length_eq, Nat.succ_mul]
  have hsolo' := hact.solo hsolo (by rw [hgrown]; exact Nat.mul_mod_left ..)
  have hpages := hsolo'.length_eq
  rw [hgrown] at hpages
  exact ⟨hsolo',
    (Nat.eq_of_mul_eq_mul_right (Nat.pos_of_ne_zero hsolo.pageSize_ne_zero) hpages).symm⟩

/-- A page that is added to the file of the table holds zeros. -/
theorem Solo.contents_added :
    layout.contentOf { db with storage := (heap.appendPage db.storage).2 }
        (heap.pageId (heap.pageCount db.storage)) = Bytes.zeros heap.file.pageSize ∧
      layout.settled { db with storage := (heap.appendPage db.storage).2 }
        (heap.pageId (heap.pageCount db.storage)) = Bytes.zeros heap.file.pageSize := by
  have hcovers : ¬ layout.Covers db.storage (heap.pageId (heap.pageCount db.storage)) := by
    rw [hsolo.covers_iff]
    exact fun h => Nat.lt_irrefl _ h.2
  obtain ⟨hframe, himage⟩ := hsolo.absent_of_not_covers hcovers
  obtain ⟨hcontent, hsettled⟩ := layout.contents_of_absent
    (show ({ db with storage := (heap.appendPage db.storage).2 } :
      Database).cache.frames[heap.pageId (heap.pageCount db.storage)]? = none from hframe) himage
  have hbytes : layout.bytes (heap.appendPage db.storage).2
      (heap.pageId (heap.pageCount db.storage)) = Bytes.zeros heap.file.pageSize := by
    show layout.bytes _ ⟨heap.table, heap.pageCount db.storage⟩ = _
    rw [hsolo.locates.bytes_eq, hsolo.bytes_append, ← hsolo.length_eq, Bytes.slice_resize_end]
  exact ⟨hcontent.trans hbytes, hsettled.trans hbytes⟩

/-- No other page changes when one is added. -/
theorem Solo.contents_kept {other : PageId}
    (hother : other ≠ heap.pageId (heap.pageCount db.storage)) :
    layout.contentOf { db with storage := (heap.appendPage db.storage).2 } other =
        layout.contentOf db other ∧
      layout.settled { db with storage := (heap.appendPage db.storage).2 } other =
        layout.settled db other := by
  have hact : Act txn db [] [] { db with storage := (heap.appendPage db.storage).2 } :=
    .append hsolo.pageSize_ne_zero
  by_cases hcovers : layout.Covers db.storage other
  · have hdisk := (hact.disk hcovers).1
    exact ⟨hact.contentOf hsolo.placed hsolo.intact hdisk List.not_mem_nil,
      hact.settled hsolo.placed hsolo.intact hdisk⟩
  · -- The page is beyond the end of the file, and still is when the file is one page longer.
    obtain ⟨hsolo', hcount⟩ := hsolo.grow
    have hcovers' : ¬ layout.Covers (heap.appendPage db.storage).2 other := by
      intro h
      obtain ⟨htable, hnumber⟩ := hsolo'.covers_iff.mp h
      rw [show heap.pageCount _ = _ from hcount] at hnumber
      have hne : other.number ≠ heap.pageCount db.storage := by
        intro heq
        exact hother (by rw [HeapFile.pageId, ← htable, ← heq])
      exact hcovers (hsolo.covers_iff.mpr ⟨htable, by omega⟩)
    obtain ⟨hcontent, hsettled⟩ := hsolo.contents_of_not_covers hcovers
    obtain ⟨hcontent', hsettled'⟩ := hsolo'.contents_of_not_covers hcovers'
    exact ⟨hcontent'.trans hcontent.symm, hsettled'.trans hsettled.symm⟩

/-- Adding a page to the file of the table: it holds zeros, and no other page changes. -/
theorem Solo.append :
    Solo layout heap txn { db with storage := (heap.appendPage db.storage).2 } ∧
    heap.pageCount (heap.appendPage db.storage).2 = heap.pageCount db.storage + 1 ∧
    ∀ other,
      layout.contentOf { db with storage := (heap.appendPage db.storage).2 } other =
        (if other = heap.pageId (heap.pageCount db.storage) then
          Bytes.zeros heap.file.pageSize else layout.contentOf db other) ∧
      layout.settled { db with storage := (heap.appendPage db.storage).2 } other =
        (if other = heap.pageId (heap.pageCount db.storage) then
          Bytes.zeros heap.file.pageSize else layout.settled db other) := by
  obtain ⟨hsolo', hcount⟩ := hsolo.grow
  refine ⟨hsolo', hcount, ?_⟩
  intro other
  by_cases hnew : other = heap.pageId (heap.pageCount db.storage)
  · rw [if_pos hnew, if_pos hnew, hnew]
    exact hsolo.contents_added
  · rw [if_neg hnew, if_neg hnew]
    exact hsolo.contents_kept hnew

omit hsolo

/-- The operation ends after no more demands than `bound`, and what it comes to satisfies
`holds`. -/
def Finishes (txn : TxnId) (bound : Nat) (db : Database) (progress : Progress)
    (holds : Except Error Answer → Database → Prop) : Prop :=
  ∃ answer after, (∀ fuel, bound ≤ fuel → db.runFor fuel txn progress = (.ended answer, after)) ∧
    holds answer after

variable {bound : Nat} {holds : Except Error Answer → Database → Prop}

theorem finishes_ended {answer : Except Error Answer} (h : holds answer db) :
    Finishes txn bound db (.ended answer) holds := by
  refine ⟨answer, db, ?_, h⟩
  intro fuel _
  cases fuel <;> rfl

/-- A demand of a transaction that is alone is met, and takes the operation further. -/
theorem Solo.finishes (hsolo : db.Solo layout heap txn) {operation : Operation}
    (h : ∀ locks, ({ db with locks } : Database).Solo layout heap txn →
      db.Steady layout { db with locks } →
      LockTable.Serves txn operation.demand.1 operation.demand.2 db.locks locks →
      (locks.lockOf operation.demand.1).holds txn operation.demand.2 = true →
      (∀ page, locks.isReferenced page = db.locks.isReferenced page) →
      Finishes txn bound (({ db with locks } : Database).proceed txn operation).2
        (({ db with locks } : Database).proceed txn operation).1 holds) :
    Finishes txn (bound + 1) db (.needs operation) holds := by
  obtain ⟨locks, hrequest, hsolo', hsteady, hserves, hlock, hreferenced⟩ :=
    hsolo.request operation.demand.1 operation.demand.2
  obtain ⟨answer, after, hruns, hholds⟩ := h locks hsolo' hsteady hserves hlock hreferenced
  refine ⟨answer, after, ?_, hholds⟩
  intro fuel hfuel
  cases fuel with
  | zero => omega
  | succ fuel =>
      unfold runFor
      simp only [hrequest]
      exact hruns fuel (by omega)

end Database

end RowStore
