import RowStore.Proofs.Database.Failing
import RowStore.Proofs.Session.Sized

/-!
# Transactions whose end fails

An abort undoes all that it can, and a commit that fails loses nothing. Whichever of the writes
fail, `abort_past_failures` says what an abort leaves in the cache and on disk, and
`commit_up_to_failure` says the same of a commit. Both hold in every state that threads can reach,
whatever has become of the tables and the files by then. Only pages that lie at the same place of
one file come into each other's way: the last that is written there stays.
-/

namespace RowStore

namespace Database

/-- The pages that a transaction dirtied, and what they hold, in page order. -/
def unwritten (db : Database) (txn : TxnId) : List (PageId × Bytes) :=
  (db.cache.frames.toList.filter fun entry => entry.2.dirtiedBy = some txn).map fun entry =>
    (entry.1, entry.2.page.bytes)

variable {db : Database} {txn : TxnId} {page : PageId} {bytes : Bytes}

/-- A commit flushes the pages that the transaction dirtied. -/
theorem pages_unwritten (db : Database) (txn : TxnId) :
    db.cache.pagesWhere (fun frame => frame.dirtiedBy = some txn) =
      (db.unwritten txn).map Prod.fst := by
  rw [unwritten, List.map_map]
  rfl

theorem mem_unwritten :
    (page, bytes) ∈ db.unwritten txn ↔ ∃ resident : Resident,
      db.cache.frames[page]? = some resident ∧ resident.dirtiedBy = some txn ∧
        resident.page.bytes = bytes := by
  simp only [unwritten, List.mem_map, List.mem_filter, decide_eq_true_eq, Prod.mk.injEq,
    Prod.exists, Std.ExtTreeMap.mem_toList_iff_getElem?_eq_some]
  constructor
  · rintro ⟨_, resident, ⟨hframe, hdirty⟩, rfl, rfl⟩
    exact ⟨resident, hframe, hdirty, rfl⟩
  · rintro ⟨resident, hframe, hdirty, rfl⟩
    exact ⟨page, resident, ⟨hframe, hdirty⟩, rfl, rfl⟩

/-- A before-image is owed if its changes may have reached the disk or its page is not in the
cache. -/
theorem mem_owed {images : List (PageId × BeforeImage)} :
    (page, bytes) ∈ db.owed images ↔ ∃ image, (page, image) ∈ images ∧ image.bytes = bytes ∧
      (image.stolen = true ∨ db.cache.frames[page]? = none) := by
  simp only [owed, List.mem_filterMap, Option.ite_none_right_eq_some, Bool.or_eq_true,
    Option.isNone_iff_eq_none, Option.some.injEq, Prod.mk.injEq, Prod.exists]
  constructor
  · rintro ⟨_, image, hmem, hneeds, rfl, rfl⟩
    exact ⟨image, hmem, rfl, hneeds⟩
  · rintro ⟨image, hmem, rfl, hneeds⟩
    exact ⟨page, image, hmem, hneeds, rfl, rfl⟩

end Database

/-- Pages in strict order are distinct. -/
theorem nodup_of_ordered {α : Type} {entries : List (PageId × α)}
    (hordered : entries.Pairwise fun a b => compare a.1 b.1 = .lt) :
    (entries.map Prod.fst).Nodup := by
  rw [List.nodup_iff_pairwise_ne, List.pairwise_map]
  refine hordered.imp fun hlt hsame => ?_
  rw [hsame, Std.ReflOrd.compare_self] at hlt
  simp at hlt

/-- The entry of a page in an ordered list, and that what comes after it has greater pages. -/
theorem split_of_ordered {α : Type} {entries : List (PageId × α)} {entry : PageId × α}
    (hordered : entries.Pairwise fun a b => compare a.1 b.1 = .lt) (hmem : entry ∈ entries) :
    ∃ earlier later, entries = earlier ++ entry :: later ∧
      ∀ other ∈ later, compare entry.1 other.1 = .lt := by
  obtain ⟨earlier, later, rfl⟩ := List.append_of_mem hmem
  exact ⟨earlier, later, rfl,
    (List.pairwise_cons.mp (List.pairwise_append.mp hordered).2.1).1⟩

namespace Reaches

variable {db : Database} {threads : Threads}

/-- An abort goes on past the writes that fail. Every page that the transaction has a before-image
of and that is in the cache holds it, and is clean unless its write failed. The before-images that
are written are those of the pages that were stolen or are not in the cache, and each of them that
can be written is on disk, unless one of a greater page was written to the same place. The answer is
the error of the first page that failed. -/
theorem abort_past_failures (hopened : db.Opened) (hreaches : Reaches ⟨{ db }, ∅⟩ threads)
    (txn : TxnId) :
    let before := threads.session.db
    let owed := before.owed (before.journal.imagesOf txn).toList
    let attempts := before.catalog.writeEach before.storage owed
    let failed := attempts.1.map Prod.fst
    let after := (threads.make (.complete txn false)).2.session.db
    (threads.make (.complete txn false)).1 = .finished (verdictOn attempts.1) ∧
      failed.Pairwise (fun a b => compare a b = .lt) ∧ after.storage = attempts.2 ∧
      (∀ (page : PageId) (image : BeforeImage) (resident : Resident),
        before.journal.image? txn page = some image →
        before.cache.frames[page]? = some resident →
        ∃ restored : HeapPage, restored.id = resident.page.id ∧ restored.bytes = image.bytes ∧
          after.cache.frames[page]? = some { resident with
            toFrame := ⟨restored, if page ∈ failed then some txn else none⟩ }) ∧
      ∀ (page : PageId) (image : BeforeImage), before.journal.image? txn page = some image →
        (image.stolen = true ∨ before.cache.frames[page]? = none) → page ∉ failed →
        (∀ entry ∈ owed, compare page entry.1 = .lt → entry.1 ∉ failed →
          before.catalog.place? page ≠ before.catalog.place? entry.1) →
        after.onDisk page = image.bytes := by
  intro before owed attempts failed after
  have hsized := (hreaches.sized hopened).db
  have hsound := (hreaches.orderly (.of_opened hopened)).sound
  have himages : (before.journal.imagesOf txn).toList.Pairwise
      (fun a b => compare a.1 b.1 = .lt) := Std.ExtTreeMap.ordered_keys_toList
  have howed : owed.Pairwise fun a b => compare a.1 b.1 = .lt := by
    rw [← List.pairwise_map (R := fun a b : PageId => compare a b = .lt)]
    exact (List.pairwise_map.mpr himages).sublist (before.owed_sublist _)
  obtain ⟨hanswer, hcatalog, hstorage, hothers, hframes⟩ := @Database.restoreEach_past before txn
    (before.journal.imagesOf txn).toList (nodup_of_ordered himages)
    (by
      rintro ⟨page, image⟩ hentry resident hframe
      rw [Journal.mem_imagesOf] at hentry
      rw [hsized.cache.frames page resident hframe]
      exact hsized.images txn page image.bytes (by rw [Journal.imageBytes?, hentry]; rfl))
    (by
      rintro ⟨page, image⟩ hentry
      rw [Journal.mem_imagesOf] at hentry
      simp only [Journal.isStolen, hentry, Option.any_some])
  refine ⟨congrArg Reply.finished hanswer, ?_, hstorage, ?_, ?_⟩
  · exact (List.pairwise_map.mpr howed).sublist (before.catalog.failures_sublist _ _)
  · intro page image resident himage hframe
    exact hframes (page, image) ((Journal.mem_imagesOf ..).mpr himage) resident hframe
  · intro page image himage hneeds hwritten hapart
    obtain ⟨earlier, later, hsplit, hlater⟩ := split_of_ordered howed
      (Database.mem_owed.mpr ⟨image, (Journal.mem_imagesOf ..).mpr himage, rfl, hneeds⟩)
    have hplace : before.catalog.bytesAt attempts.2 page = image.bytes := by
      have hdistinct := nodup_of_ordered howed
      simp only [attempts, failed, hsplit] at hwritten hapart hdistinct ⊢
      refine Catalog.bytesAt_writeEach
        (fun table heap hheap => (hsound.fits table heap hheap).pageSize) _ _ _ hdistinct hwritten
        fun entry hentry hfailed => hapart entry ?_ (hlater entry hentry) hfailed
      exact List.mem_append_right _ (List.mem_cons_of_mem _ hentry)
    rw [Database.onDisk_eq_bytesAt, ← hplace, ← hstorage]
    exact congrArg (fun catalog : Catalog => catalog.bytesAt _ page) hcatalog

/-- The moves of a transaction that stores a row in a table without pages, or on its first page. -/
def storing (txn : TxnId) (table : TableId) (value : Int32) : List Move :=
  [.begin txn (.insert table (Session.sampleRow value)), .submit txn] ++
    List.replicate 5 (.stride txn) ++ [.submit txn] ++ List.replicate 5 (.stride txn)

/-- Two tables, and what became of them by some moves. -/
def sampleThreads (first second : String) (moves : List Move) : Threads :=
  Threads.makeEach ⟨{ db := Session.sampleTables first second }, ∅⟩ moves

/-- Threads that are made by allowed moves are reached. -/
theorem of_moves {start : Threads} {moves : List Move} (hallows : start.AllowsEach moves) :
    Reaches start (start.makeEach moves) :=
  (Schedule.of_moves .start hallows).reaches

/-- Two pages of a transaction are flushed, and then another table takes the name of the table of
the first. -/
def abortingHalf : List Move :=
  storing ⟨1⟩ ⟨1⟩ 7 ++ storing ⟨1⟩ ⟨2⟩ 9 ++
    [.flushAll, .changeCatalog (.create "a" Session.sampleSchema "c.dat" none)]

/-- The first page cannot be written, which is the answer, and stays dirty. The second one is put
back on disk all the same. -/
theorem abort_past_failures_renamed :
    ∃ threads resident, Reaches ⟨{ db := Session.sampleTables "a.dat" "b.dat" }, ∅⟩ threads ∧
      threads.session.db.onDisk ⟨⟨2⟩, 0⟩ ≠ List.replicate 16 0 ∧
      (threads.make (.complete ⟨1⟩ false)).1 = .finished (.error (.tableNotFound ⟨1⟩)) ∧
      (threads.make (.complete ⟨1⟩ false)).2.session.db.cache.frames[(⟨⟨1⟩, 0⟩ : PageId)]? =
        some resident ∧ resident.dirtiedBy = some ⟨1⟩ ∧
      resident.page.bytes = List.replicate 16 0 ∧
      (threads.make (.complete ⟨1⟩ false)).2.session.db.onDisk ⟨⟨2⟩, 0⟩ = List.replicate 16 0 := by
  have hreaches : Reaches ⟨{ db := Session.sampleTables "a.dat" "b.dat" }, ∅⟩
      (sampleThreads "a.dat" "b.dat" abortingHalf) := of_moves (by decide +kernel)
  obtain ⟨hanswer, _, _, hframes, hdisk⟩ :=
    abort_past_failures (Session.sampleTables_opened "a.dat" "b.dat") hreaches ⟨1⟩
  obtain ⟨cached, hcached⟩ := Option.isSome_iff_exists.mp (by decide +kernel :
    ((sampleThreads "a.dat" "b.dat" abortingHalf).session.db.cache.frames[
      (⟨⟨1⟩, 0⟩ : PageId)]?).isSome = true)
  obtain ⟨restored, _, hbytes, hfound⟩ := hframes ⟨⟨1⟩, 0⟩ ⟨List.replicate 16 0, true⟩ cached
    (by decide +kernel) hcached
  rw [if_pos (by decide +kernel)] at hfound
  exact ⟨_, _, hreaches, by decide +kernel, hanswer.trans (by decide +kernel), hfound, rfl, hbytes,
    hdisk ⟨⟨2⟩, 0⟩ ⟨List.replicate 16 0, true⟩ (by decide +kernel) (.inl rfl) (by decide +kernel)
      (by decide +kernel)⟩

/-- Two pages lie at the same place of a file that two tables share. The page of the first table is
put back, and then what the page of the second held is written over it. -/
theorem abort_of_shared_place :
    ¬ ∀ {db : Database} {threads : Threads} (txn : TxnId), db.Opened →
      Reaches ⟨{ db }, ∅⟩ threads →
      let before := threads.session.db
      let attempts := before.catalog.writeEach before.storage
        (before.owed (before.journal.imagesOf txn).toList)
      ∀ (page : PageId) (image : BeforeImage), before.journal.image? txn page = some image →
        (image.stolen = true ∨ before.cache.frames[page]? = none) →
        page ∉ attempts.1.map Prod.fst →
        (threads.make (.complete txn false)).2.session.db.onDisk page = image.bytes := by
  intro hclaim
  have hreaches : Reaches ⟨{ db := Session.sampleTables "x.dat" "x.dat" }, ∅⟩
      (sampleThreads "x.dat" "x.dat" (storing ⟨1⟩ ⟨1⟩ 7 ++ [.flushPage ⟨⟨1⟩, 0⟩] ++
        storing ⟨1⟩ ⟨2⟩ 9 ++ [.flushPage ⟨⟨2⟩, 0⟩])) := of_moves (by decide +kernel)
  have hdisk := hclaim ⟨1⟩ (Session.sampleTables_opened "x.dat" "x.dat") hreaches
    ⟨⟨1⟩, 0⟩ ⟨List.replicate 16 0, true⟩ (by decide +kernel) (.inl rfl) (by decide +kernel)
  exact absurd hdisk (by decide +kernel)

/-- A commit writes the pages that the transaction dirtied, in page order, up to the first that
cannot be written, whose error is the answer. Those before it are clean and on disk, unless a
greater one of them was written to the same place. The others are as they were: in the cache, where
a later flush that succeeds writes them, and on disk, unless they share a place with one that was
written. -/
theorem commit_up_to_failure (hopened : db.Opened) (hreaches : Reaches ⟨{ db }, ∅⟩ threads)
    (txn : TxnId) :
    let before := threads.session.db
    let after := (threads.make (.complete txn true)).2.session.db
    ∃ done rest, before.unwritten txn = done ++ rest ∧
      (before.unwritten txn).Pairwise (fun a b => compare a.1 b.1 = .lt) ∧
      before.catalog.writeEach before.storage done = ([], after.storage) ∧
      (rest = [] ∧ (threads.make (.complete txn true)).1 = .finished (.ok ()) ∨
        ∃ page bytes later error, rest = (page, bytes) :: later ∧
          (before.catalog.writeAt after.storage page bytes).1 = .error error ∧
          (threads.make (.complete txn true)).1 = .finished (.error error)) ∧
      (∀ entry ∈ done,
        (∃ resident : Resident, before.cache.frames[entry.1]? = some resident ∧
          resident.page.bytes = entry.2 ∧
          after.cache.frames[entry.1]? = some { resident with toFrame := resident.markClean }) ∧
        ((∀ other ∈ done, compare entry.1 other.1 = .lt →
            before.catalog.place? entry.1 ≠ before.catalog.place? other.1) →
          after.onDisk entry.1 = entry.2)) ∧
      (∀ entry ∈ rest, ∃ resident : Resident,
        after.cache.frames[entry.1]? = some resident ∧
        before.cache.frames[entry.1]? = some resident ∧
        resident.dirtiedBy = some txn ∧ resident.page.bytes = entry.2 ∧
        ∀ later : Database, later.catalog.Sound → later.cache.frames[entry.1]? = some resident →
          (later.flushPage entry.1).1 = .ok () →
          (later.flushPage entry.1).2.onDisk entry.1 = entry.2 ∧
            (later.flushPage entry.1).2.cache.frames[entry.1]? =
              some { resident with toFrame := resident.markClean }) ∧
      ∀ page, (∀ entry ∈ done, before.catalog.place? page ≠ before.catalog.place? entry.1) →
        after.onDisk page = before.onDisk page := by
  intro before after
  have hnamed := (hreaches.accounted hopened).named
  have hsound := (hreaches.orderly (.of_opened hopened)).sound
  have hsize : ∀ table heap, before.catalog.heapFile table = .ok heap →
      heap.file.pageSize = before.catalog.pageSize := fun table heap hheap =>
    (hsound.fits table heap hheap).pageSize
  have hordered : (before.unwritten txn).Pairwise fun a b => compare a.1 b.1 = .lt :=
    List.pairwise_map.mpr (Std.ExtTreeMap.ordered_keys_toList.filter _)
  obtain ⟨done, rest, hsplit, hcatalog, hwrites, hframes, hend⟩ := before.flushEach_until
    (before.unwritten txn) (nodup_of_ordered hordered)
    (by
      rintro ⟨page, bytes⟩ hentry
      obtain ⟨resident, hframe, hdirty, hbytes⟩ := Database.mem_unwritten.mp hentry
      exact ⟨resident, txn, hframe, hnamed page resident hframe, hbytes, hdirty⟩)
    (fun table heap hheap => (hsound.fits table heap hheap).table)
  rw [← Database.pages_unwritten] at hcatalog hwrites hframes hend
  have hafter : ∀ page, after.onDisk page =
      before.catalog.bytesAt (before.catalog.writeEach before.storage done).2 page := by
    intro page
    rw [hwrites]
    exact congrArg (fun catalog : Catalog => catalog.bytesAt _ page) hcatalog
  have hresident : ∀ entry ∈ before.unwritten txn, ∃ resident : Resident,
      before.cache.frames[entry.1]? = some resident ∧ resident.dirtiedBy = some txn ∧
        resident.page.bytes = entry.2 := fun entry hentry => Database.mem_unwritten.mp hentry
  rw [hsplit] at hresident hordered
  obtain ⟨hdone, _, hbefore⟩ := List.pairwise_append.mp hordered
  refine ⟨done, rest, hsplit, hsplit ▸ hordered, hwrites, ?_, fun entry hentry => ⟨?_, ?_⟩, ?_, ?_⟩
  · rcases hend with ⟨hrest, hok⟩ | ⟨page, bytes, later, error, hrest, hfails, herror⟩
    · exact .inl ⟨hrest, congrArg Reply.finished hok⟩
    · exact .inr ⟨page, bytes, later, error, hrest, hfails, congrArg Reply.finished herror⟩
  · obtain ⟨resident, hframe, _, hbytes⟩ := hresident entry (List.mem_append_left _ hentry)
    refine ⟨resident, hframe, hbytes, (hframes entry.1).trans ?_⟩
    rw [if_pos (List.mem_map_of_mem hentry), hframe, Option.map_some]
  · intro hapart
    obtain ⟨earlier, later, hdoneSplit, hlater⟩ := split_of_ordered hdone hentry
    rw [hafter, hdoneSplit]
    refine Catalog.bytesAt_writeEach hsize before.storage earlier later ?_ ?_ ?_
    · exact hdoneSplit ▸ nodup_of_ordered hdone
    · rw [← hdoneSplit, hwrites]
      simp
    · refine fun other hother _ => hapart other ?_ (hlater other hother)
      rw [hdoneSplit]
      exact List.mem_append_right _ (List.mem_cons_of_mem _ hother)
  · intro entry hentry
    obtain ⟨resident, hframe, hdirty, hbytes⟩ := hresident entry (List.mem_append_right _ hentry)
    have hnot : entry.1 ∉ done.map Prod.fst := by
      intro hmem
      obtain ⟨other, hother, hsame⟩ := List.mem_map.mp hmem
      have hlt := hbefore other hother entry hentry
      rw [hsame, Std.ReflOrd.compare_self] at hlt
      simp at hlt
    refine ⟨resident, (hframes entry.1).trans ?_, hframe, hdirty, hbytes, ?_⟩
    · rw [if_neg hnot, hframe]
    · intro later hlater hkept hok
      rw [← hbytes]
      exact Database.flushPage_of_ok hkept (hnamed entry.1 resident hframe) hdirty
        (fun heap hheap => (hlater.fits _ heap hheap).table) hok
  · intro page hapart
    rw [hafter]
    exact Catalog.bytesAt_writeEach_of_apart hsize before.storage done
      (fun entry hentry _ => hapart entry hentry) (nodup_of_ordered hdone)

/-- Two pages of a transaction are dirty, and another table takes the name of the table of the
second. -/
def committingHalf : List Move :=
  storing ⟨1⟩ ⟨1⟩ 7 ++ storing ⟨1⟩ ⟨2⟩ 9 ++
    [.changeCatalog (.create "b" Session.sampleSchema "c.dat" none)]

/-- The first page is written. The second one cannot be, which is the answer, and a flush writes it
once its table is registered again. -/
theorem commit_up_to_failure_renamed :
    ∃ threads resident, Reaches ⟨{ db := Session.sampleTables "a.dat" "b.dat" }, ∅⟩ threads ∧
      (threads.make (.complete ⟨1⟩ true)).1 = .finished (.error (.tableNotFound ⟨2⟩)) ∧
      threads.session.db.cache.frames[(⟨⟨2⟩, 0⟩ : PageId)]? = some resident ∧
      let after := (threads.make (.complete ⟨1⟩ true)).2.session.db
      let later := after.changeCatalog (.add ⟨2⟩ "b" Session.sampleSchema "b.dat" 16 none)
      after.cache.frames[(⟨⟨2⟩, 0⟩ : PageId)]? = some resident ∧ resident.dirtiedBy = some ⟨1⟩ ∧
        (later.flushPage ⟨⟨2⟩, 0⟩).2.onDisk ⟨⟨2⟩, 0⟩ = resident.page.bytes := by
  have hreaches : Reaches ⟨{ db := Session.sampleTables "a.dat" "b.dat" }, ∅⟩
      (sampleThreads "a.dat" "b.dat" committingHalf) := of_moves (by decide +kernel)
  have hopened := Session.sampleTables_opened "a.dat" "b.dat"
  obtain ⟨done, rest, hsplit, _, _, _, hdone, hrest, _⟩ := commit_up_to_failure hopened hreaches ⟨1⟩
  obtain ⟨⟨page, bytes⟩, hentry, hpage⟩ := List.any_eq_true.mp (by decide +kernel :
    ((sampleThreads "a.dat" "b.dat" committingHalf).session.db.unwritten ⟨1⟩).any
      (fun entry => entry.1 = ⟨⟨2⟩, 0⟩) = true)
  obtain rfl := of_decide_eq_true hpage
  rw [hsplit] at hentry
  rcases List.mem_append.mp hentry with hentry | hentry
  · -- The second page is not among those that were written: it is still dirty.
    obtain ⟨⟨resident, _, _, hclean⟩, _⟩ := hdone _ hentry
    have hdirty : ((sampleThreads "a.dat" "b.dat" committingHalf).make
        (.complete ⟨1⟩ true)).2.session.db.cache.isDirty ⟨⟨2⟩, 0⟩ = true := by decide +kernel
    rw [Cache.isDirty, hclean] at hdirty
    simp [Frame.markClean, Frame.isDirty] at hdirty
  · obtain ⟨resident, hafter, hbefore, hdirty, hbytes, hlater⟩ := hrest _ hentry
    have hsound := (Reaches.orderly (.of_opened hopened) (hreaches.move (by decide +kernel :
      Threads.Allows _ (.complete ⟨1⟩ true)))).sound
    have hflush : ((((sampleThreads "a.dat" "b.dat" committingHalf).make
        (.complete ⟨1⟩ true)).2.session.db.changeCatalog
          (.add ⟨2⟩ "b" Session.sampleSchema "b.dat" 16 none)).flushPage ⟨⟨2⟩, 0⟩).1 = .ok () := by
      decide +kernel
    refine ⟨_, resident, hreaches, by decide +kernel, hbefore, hafter, hdirty, ?_⟩
    generalize ((sampleThreads "a.dat" "b.dat" committingHalf).make
      (.complete ⟨1⟩ true)).2.session.db = after at hafter hsound hflush ⊢
    obtain ⟨catalog, storage, hchange, hharmless⟩ := Database.changeCatalog_eq after
      (.add ⟨2⟩ "b" Session.sampleSchema "b.dat" 16 none)
    simp only [hchange] at hflush ⊢
    exact (hlater { after with catalog, storage } (hharmless.sound hsound) hafter
      hflush).1.trans hbytes.symm

/-- Two pages lie at the same place of a file that two tables share, and a third cannot be written:
the first is clean after the commit, and is not on disk. -/
theorem commit_of_shared_place :
    ¬ ∀ {db : Database} {threads : Threads} (txn : TxnId), db.Opened →
      Reaches ⟨{ db }, ∅⟩ threads →
      ∀ done rest, threads.session.db.unwritten txn = done ++ rest →
        threads.session.db.catalog.writeEach threads.session.db.storage done =
          ([], (threads.make (.complete txn true)).2.session.db.storage) →
        (rest = [] ∨ ∃ page bytes later error, rest = (page, bytes) :: later ∧
          (threads.session.db.catalog.writeAt
            (threads.make (.complete txn true)).2.session.db.storage page bytes).1 = .error error ∧
          (threads.make (.complete txn true)).1 = .finished (.error error)) →
        ∀ entry ∈ done,
          (threads.make (.complete txn true)).2.session.db.onDisk entry.1 = entry.2 := by
  intro hclaim
  have hreaches : Reaches ⟨{ db := Session.sampleTables "x.dat" "x.dat" }, ∅⟩
      (sampleThreads "x.dat" "x.dat" (
        [.changeCatalog (.create "c" Session.sampleSchema "z.dat" none)] ++ storing ⟨1⟩ ⟨1⟩ 7 ++
          storing ⟨1⟩ ⟨2⟩ 9 ++ storing ⟨1⟩ ⟨3⟩ 11 ++
            [.changeCatalog (.create "c" Session.sampleSchema "y.dat" none)])) :=
    of_moves (by decide +kernel)
  have hdisk := hclaim ⟨1⟩ (Session.sampleTables_opened "x.dat" "x.dat") hreaches
    [(⟨⟨1⟩, 0⟩, [1, 0, 0, 0, 7] ++ List.replicate 11 0),
      (⟨⟨2⟩, 0⟩, [1, 0, 0, 0, 9] ++ List.replicate 11 0)]
    [(⟨⟨3⟩, 0⟩, [1, 0, 0, 0, 11] ++ List.replicate 11 0)]
    (by decide +kernel) (by decide +kernel)
    (.inr ⟨_, _, _, .tableNotFound ⟨3⟩, rfl, by decide +kernel, by decide +kernel⟩)
    _ List.mem_cons_self
  exact absurd hdisk (by decide +kernel)

end Reaches

end RowStore
