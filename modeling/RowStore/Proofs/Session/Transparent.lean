import RowStore.Proofs.Session.Accounted
import RowStore.Proofs.Session.Mirrors
import RowStore.Proofs.Session.Undo

/-!
# The cache cannot be seen

Two courses of a session in which transactions do the same, but whose caches have room for different
numbers of pages, and in which pages are flushed at different times, evict different pages at almost
every step, and have different bytes on disk. Still every transaction learns the same from each of
its calls, as long as neither cache lacks room for a page, and once all transactions have ended
the files of the tables are the same: `cache_transparent`. The sessions that the courses come to
mirror one another all along, since each operation of a transaction takes both a step further and a
flush leaves the session that it happens in a mirror of what it was.

The tables have to keep their pages in files of their own. Where two tables share a file, a page
that is read again under one name shows what was written under the other, and a page that stays in
the cache does not: `stale_of_shared_file`.
-/

namespace RowStore

/-- The transaction that ends in the use. -/
def Use.ended? : Use → Option TxnId
  | event (.complete txn _) => some txn
  | begin .. | step _ | expire _ | write .. | event _ => none

/-- The occasions on which transactions did something, in their order. -/
def operationsIn (history : List Occasion) : List Occasion :=
  history.filter fun occasion => occasion.use.isOperation

/-- The transactions that have done something since they last ended, given those before the use. -/
def Use.leaves (use : Use) (unfinished : List TxnId) : List TxnId :=
  match use.ended? with
  | some txn => unfinished.filter (· ≠ txn)
  | none => use.actor?.toList ++ unfinished

/-- The transactions that have done something since they last ended. -/
def unfinished (history : List Occasion) : List TxnId :=
  history.foldl (fun unfinished occasion => occasion.use.leaves unfinished) []

variable {layout : Layout}

theorem Use.isOperation_of_isFlush {use : Use} (hflush : use.isFlush = true) :
    use.isOperation = false := by
  cases use with
  | begin | step | expire | write => simp [isFlush] at hflush
  | event event => cases event <;> simp_all [isFlush, isOperation]

theorem operationsIn_append_operation {history : List Occasion} {occasion : Occasion}
    (hoperation : occasion.use.isOperation = true) :
    operationsIn (history ++ [occasion]) = operationsIn history ++ [occasion] := by
  simp [operationsIn, List.filter_append, hoperation]

theorem operationsIn_append_flush {history : List Occasion} {occasion : Occasion}
    (hflush : occasion.use.isFlush = true) :
    operationsIn (history ++ [occasion]) = operationsIn history := by
  simp [operationsIn, List.filter_append, Use.isOperation_of_isFlush hflush]

namespace Session

variable {start begun session last : Session} {history other : List Occasion} {use : Use}

/-- Two courses have told the transactions the same, and have come to sessions that mirror one
another. -/
structure SameSoFar (layout : Layout) (history other : List Occasion) (session last : Session) :
    Prop where
  told : (operationsIn other).map Occasion.told = (operationsIn history).map Occasion.told
  proper : session.Proper layout
  proper_last : last.Proper layout
  mirrors : Mirrors layout session last

namespace SameSoFar

theorem symm (hsame : SameSoFar layout history other session last) :
    SameSoFar layout other history last session :=
  ⟨hsame.told.symm, hsame.proper_last, hsame.proper, hsame.mirrors.symm⟩

/-- Pages are flushed in one of the courses. -/
theorem flush (hsame : SameSoFar layout history other session last) (hallows : last.Allows use)
    (hflush : use.isFlush = true) :
    SameSoFar layout history (other ++ [⟨last, use⟩]) session (last.use use) where
  told := by rw [operationsIn_append_flush hflush, hsame.told]
  proper := hsame.proper
  proper_last := hsame.proper_last.undertake hallows (.inr hflush)
  mirrors := hsame.mirrors.trans (hsame.proper_last.mirrors_flush hflush)

/-- A transaction does the same in both courses, and neither lacks room. -/
theorem operation (hsame : SameSoFar layout history other session last)
    (hallows : session.Allows use) (hallows' : last.Allows use)
    (hoperation : use.isOperation = true)
    (hroom : (Occasion.mk session use).reply.lacksRoom = false)
    (hroom' : (Occasion.mk last use).reply.lacksRoom = false) :
    SameSoFar layout (history ++ [⟨session, use⟩]) (other ++ [⟨last, use⟩]) (session.use use)
      (last.use use) := by
  obtain ⟨htold, hmirrors⟩ :=
    hsame.mirrors.undertake hsame.proper hsame.proper_last hallows hoperation hroom hroom'
  refine ⟨?_, hsame.proper.undertake hallows (.inl hoperation),
    hsame.proper_last.undertake hallows' (.inl hoperation), hmirrors⟩
  rw [operationsIn_append_operation hoperation, operationsIn_append_operation hoperation,
    List.map_append, List.map_append, hsame.told, List.map_singleton, List.map_singleton, htold]

end SameSoFar

/-- Nothing happens in the course but operations of transactions and flushes, and no reply is that
the cache lacks room. -/
def Transacts (history : List Occasion) : Prop :=
  ∀ occasion ∈ history, (occasion.use.isOperation = true ∨ occasion.use.isFlush = true) ∧
    occasion.reply.lacksRoom = false

theorem Transacts.of_append {occasion : Occasion} (h : Transacts (history ++ [occasion])) :
    Transacts history ∧ (occasion.use.isOperation = true ∨ occasion.use.isFlush = true) ∧
      occasion.reply.lacksRoom = false :=
  ⟨fun held hheld => h held (List.mem_append_left _ hheld),
    h occasion (List.mem_append_right _ (List.mem_singleton.mpr rfl))⟩

/-- Courses that begin in mirrors and in which transactions do the same are the same so far. -/
theorem Course.sameSoFar (hproper : start.Proper layout) (hbegun : begun.Proper layout)
    (hmirrors : Mirrors layout start begun) (hcourse : Course start history session)
    (hother : Course begun other last) (htransacts : Transacts history)
    (htransacts' : Transacts other)
    (huses : (operationsIn other).map Occasion.use = (operationsIn history).map Occasion.use) :
    SameSoFar layout history other session last := by
  induction hcourse generalizing other last with
  | start =>
      induction hother with
      | start => exact ⟨rfl, hproper, hbegun, hmirrors⟩
      | step hother hallows ih =>
          obtain ⟨hrest, hkind, _⟩ := htransacts'.of_append
          rcases hkind with hoperation | hflush
          · rw [operationsIn_append_operation hoperation] at huses
            simp [operationsIn] at huses
          · rw [operationsIn_append_flush hflush] at huses
            exact (ih hrest huses).flush hallows hflush
  | @step history session use hcourse hallows ih =>
      obtain ⟨hrest, hkind, hroom⟩ := htransacts.of_append
      rcases hkind with hoperation | hflush
      · rw [operationsIn_append_operation hoperation] at huses
        -- The other course comes to the same operation, with flushes after it.
        induction hother with
        | start => simp [operationsIn] at huses
        | @step other last next hother hallows' ihother =>
            obtain ⟨hrest', hkind', hroom'⟩ := htransacts'.of_append
            rcases hkind' with hoperation' | hflush'
            · rw [operationsIn_append_operation hoperation', List.map_append, List.map_append,
                List.map_singleton, List.map_singleton] at huses
              obtain ⟨hbefore, hlast⟩ := List.append_inj' huses rfl
              obtain rfl : next = use := List.singleton_inj.mp hlast
              exact (ih hother hrest hrest' hbefore).operation hallows hallows' hoperation hroom
                hroom'
            · rw [operationsIn_append_flush hflush'] at huses
              exact (ihother hrest' huses).flush hallows' hflush'
      · rw [operationsIn_append_flush hflush] at huses
        exact ((ih hother hrest htransacts' huses).symm.flush hallows hflush).symm

end Session

namespace Use

variable {use : Use} {txn : TxnId} {unfinished : List TxnId}

theorem mem_leaves_of_mem (htxn : txn ∈ unfinished) (hopen : use.ended? ≠ some txn) :
    txn ∈ use.leaves unfinished := by
  unfold leaves
  split
  · rename_i ended hended
    simp only [List.mem_filter, htxn, decide_eq_true_eq, true_and]
    rintro rfl
    exact hopen hended
  · exact List.mem_append_right _ htxn

theorem mem_leaves_of_actor (hactor : use.actor? = some txn) (hopen : use.ended? ≠ some txn) :
    txn ∈ use.leaves unfinished := by
  unfold leaves
  split
  · rename_i ended hended
    cases use with
    | begin | step | expire | write => simp [ended?] at hended
    | event event =>
        cases event with
        | complete => exact absurd hactor hopen
        | call | resume | giveUp | flushPage | flushOf | flushAll | discard | changeCatalog =>
            simp [ended?] at hended
  · rw [hactor]
    exact List.mem_cons_self

end Use

/-- Whoever holds a page exclusively after a use held it before, or has just done something. -/
theorem Outcome.exclusive {occasion : Occasion} (houtcome : Outcome occasion)
    (hguarded : occasion.session.Guarded) {page : PageId} {txn : TxnId}
    (howner : (occasion.after.db.locks.lockOf page).exclusive = some txn) :
    (occasion.session.db.locks.lockOf page).exclusive = some txn ∨
      occasion.use.actor? = some txn := by
  obtain ⟨session, use⟩ := occasion
  cases houtcome with
  | work worker hactor hacted =>
      have hwork := hacted.acts.work.preserves
        (fun db => (db.locks.lockOf page).exclusive = some txn →
          (session.db.locks.lockOf page).exclusive = some txn ∨ worker = txn)
        (fun hact h hafter => by
          rcases hact.exclusive page with hsame | ⟨_, hgranted⟩
          · exact h (hsame ▸ hafter)
          · exact .inr (Option.some.inj (hgranted.symm.trans hafter))) .inl
      exact (hwork howner).imp_right fun hsame => hactor.trans (congrArg some hsame)
  | complete ended commits huse =>
      obtain rfl : use = _ := huse
      rw [Occasion.locks_complete, LockTable.lockOf_releaseAll, LockState.exclusive_drop] at howner
      split at howner
      · simp at howner
      · exact .inl howner
  | write writer ref bytes huse =>
      obtain rfl : use = _ := huse
      rw [(Occasion.write_idle hguarded writer ref bytes).locks] at howner
      exact .inl howner
  | idle event huse hactor =>
      obtain rfl : use = _ := huse
      rw [(Occasion.event_idle hguarded hactor).locks] at howner
      exact .inl howner

/-- Whoever ends holds no page exclusively. -/
theorem Occasion.exclusive_ended {occasion : Occasion} {txn : TxnId}
    (hended : occasion.use.ended? = some txn) (page : PageId) :
    (occasion.after.db.locks.lockOf page).exclusive ≠ some txn := by
  obtain ⟨session, use⟩ := occasion
  cases use with
  | begin | step | expire | write => simp [Use.ended?] at hended
  | event event =>
      cases event with
      | complete ended commits =>
          obtain rfl : ended = txn := Option.some.inj hended
          rw [locks_complete, LockTable.lockOf_releaseAll, LockState.exclusive_drop]
          split
          · simp
          · assumption
      | call | resume | giveUp | flushPage | flushOf | flushAll | discard | changeCatalog =>
          simp [Use.ended?] at hended

namespace Session

variable {session last : Session} {history other : List Occasion}

/-- Whoever holds a page exclusively has done something since it last ended. -/
theorem Course.mem_unfinished {db : Database} (hopened : db.Opened)
    (hcourse : Course { db } history session) {page : PageId} {txn : TxnId}
    (howner : (session.db.locks.lockOf page).exclusive = some txn) :
    txn ∈ unfinished history := by
  induction hcourse with
  | start =>
      rw [hopened.sound.2.2.2] at howner
      simp [LockTable.lockOf] at howner
  | @step history session use hcourse hallows ih =>
      have hguarded := hcourse.guarded (.of_opened hopened)
      have hopen : use.ended? ≠ some txn := fun hended =>
        @Occasion.exclusive_ended ⟨session, use⟩ txn hended page howner
      rw [unfinished, List.foldl_append]
      show txn ∈ use.leaves (unfinished history)
      rcases (hguarded.outcome hallows).exclusive hguarded howner with hbefore | hactor
      · exact Use.mem_leaves_of_mem (ih hbefore) hopen
      · exact Use.mem_leaves_of_actor hactor hopen

/-- The cache cannot be seen. In two courses over an unchanging catalog whose tables keep their
pages in files of their own, in which transactions do the same but caches have room for different
numbers of pages and flushes come anywhere, and in which no reply is that the cache lacks room,
every use tells its transaction the same, the locks are the same in the end, and the same calls
wait with the same requests. If every transaction has ended, the files of the tables are equal. -/
theorem cache_transparent {db : Database} {capacity : Nat} (hopened : db.Opened)
    (hapart : db.catalog.FilesApart) (hcapacity : capacity ≠ 0)
    (hcourse : Course { db } history session)
    (hother : Course { db := db.withCapacity capacity } other last)
    (huses : ∀ occasion ∈ history ++ other,
      occasion.use.isOperation = true ∨ occasion.use.isFlush = true)
    (hroom : ∀ occasion ∈ history ++ other, occasion.reply.lacksRoom = false)
    (hsame : (operationsIn other).map Occasion.use = (operationsIn history).map Occasion.use) :
    (operationsIn other).map Occasion.told = (operationsIn history).map Occasion.told ∧
      (∀ page, last.db.locks.lockOf page = session.db.locks.lockOf page) ∧
      last.db.locks.pending = session.db.locks.pending ∧ last.waiting = session.waiting ∧
      (unfinished history = [] → ∀ table heap,
        db.catalog.heapFile table = .ok heap →
          last.db.storage.bytes heap.file = session.db.storage.bytes heap.file) := by
  have hproper : ∀ {first : Database}, first.Opened → first.catalog = db.catalog →
      Proper (db.catalog.layout hapart) { db := first } := by
    intro first hfirst hcatalog
    have hplaced := (orderly_of_opened hfirst fun table heap hheap =>
      Catalog.locates_layout hapart hopened.sound.1 (hcatalog ▸ hheap)).2
    exact ⟨.of_opened hfirst, hfirst.tidy hplaced, fun _ _ hwaiting => by simp at hwaiting⟩
  have hstart : Mirrors (db.catalog.layout hapart) { db } { db := db.withCapacity capacity } :=
    ⟨⟨rfl, .refl, fun _ => rfl, fun _ => rfl, fun _ _ => rfl⟩, rfl⟩
  have hmatch := hcourse.sameSoFar (hproper hopened rfl)
    (hproper (hopened.withCapacity hcapacity) rfl) hstart hother
    (fun occasion h => ⟨huses occasion (List.mem_append_left _ h),
      hroom occasion (List.mem_append_left _ h)⟩)
    (fun occasion h => ⟨huses occasion (List.mem_append_right _ h),
      hroom occasion (List.mem_append_right _ h)⟩) hsame
  have htwins := hmatch.mirrors.twins
  refine ⟨hmatch.told, htwins.locks.lockOf, htwins.locks.pending, hmatch.mirrors.waiting, ?_⟩
  intro hended table heap hheap
  have hfree : ∀ page, (session.db.locks.lockOf page).exclusive = none := by
    refine fun page => Option.eq_none_iff_forall_ne_some.mpr fun txn howner => ?_
    have hunfinished := hcourse.mem_unfinished hopened howner
    simp [hended] at hunfinished
  have hsize : heap.file.pageSize ≠ 0 := by
    rw [(hopened.sound.1.fits table heap hheap).pageSize]
    exact hopened.sound.1.pageSize
  exact htwins.bytes_eq hmatch.proper.tidy hmatch.proper_last.tidy hfree
    (Catalog.locates_layout hapart hopened.sound.1 hheap) hsize

/-- A row is stored in one table, another one is stored in the other table and taken back, and the
first table is read. -/
def storeUndoAndScan : List Use :=
  [.begin ⟨1⟩ (.insert ⟨1⟩ (sampleRow 7)), .step ⟨1⟩, .event (.complete ⟨1⟩ true),
    .begin ⟨2⟩ (.insert ⟨2⟩ (sampleRow 9)), .step ⟨2⟩, .event (.complete ⟨2⟩ false),
    .begin ⟨3⟩ (.scan ⟨1⟩ none), .step ⟨3⟩, .event (.complete ⟨3⟩ true)]

/-- The same, where pages are flushed before the transactions that changed them have ended. -/
def storeUndoAndScanWithFlushes : List Use :=
  [.begin ⟨1⟩ (.insert ⟨1⟩ (sampleRow 7)), .step ⟨1⟩, .event (.flushPage ⟨⟨1⟩, 0⟩),
    .event (.complete ⟨1⟩ true),
    .begin ⟨2⟩ (.insert ⟨2⟩ (sampleRow 9)), .step ⟨2⟩, .event .flushAll,
    .event (.complete ⟨2⟩ false),
    .begin ⟨3⟩ (.scan ⟨1⟩ none), .step ⟨3⟩, .event (.complete ⟨3⟩ true)]

/-- A cache with room for one page evicts a page for each other one, and what is taken back was on
disk already. The transactions are told the same as with a cache that keeps both pages. -/
theorem cache_transparent_evicting :
    ∃ history other session last,
      Course { db := sampleTables "a.dat" "b.dat" } history session ∧
      Course { db := (sampleTables "a.dat" "b.dat").withCapacity 1 } other last ∧
      session.db.cache.residentCount = 2 ∧ last.db.cache.residentCount = 1 ∧
      history.map Occasion.use = storeUndoAndScan ∧
      other.map Occasion.use = storeUndoAndScanWithFlushes ∧
      (operationsIn other).map Occasion.told = (operationsIn history).map Occasion.told ∧
      ∀ table heap, (sampleTables "a.dat" "b.dat").catalog.heapFile table = .ok heap →
        last.db.storage.bytes heap.file = session.db.storage.bytes heap.file := by
  have hcourse := Course.of_uses .start (by decide +kernel :
    AllowsEach { db := sampleTables "a.dat" "b.dat" } storeUndoAndScan)
  have hother := Course.of_uses .start (by decide +kernel :
    AllowsEach { db := (sampleTables "a.dat" "b.dat").withCapacity 1 }
      storeUndoAndScanWithFlushes)
  obtain ⟨htold, _, _, _, hfiles⟩ := cache_transparent (sampleTables_opened "a.dat" "b.dat")
    (by decide +kernel) (by decide) hcourse hother (by decide +kernel) (by decide +kernel)
    (by decide +kernel)
  exact ⟨_, _, _, _, hcourse, hother, by decide +kernel, by decide +kernel, by decide +kernel,
    by decide +kernel, htold, hfiles (by decide +kernel)⟩

/-- A row is stored under one name of a page, the page is read under the other name, a second row is
stored under the first, and the page is read again under the second. -/
def readUnderOtherName : List Use :=
  [.begin ⟨1⟩ (.insert ⟨1⟩ (sampleRow 7)), .step ⟨1⟩, .event (.complete ⟨1⟩ true),
    .begin ⟨2⟩ (.getPage ⟨⟨2⟩, 0⟩ .shared), .step ⟨2⟩, .event (.complete ⟨2⟩ true),
    .begin ⟨3⟩ (.insert ⟨1⟩ (sampleRow 9)), .step ⟨3⟩, .step ⟨3⟩, .event (.complete ⟨3⟩ true),
    .begin ⟨4⟩ (.getPage ⟨⟨2⟩, 0⟩ .shared), .step ⟨4⟩, .event (.complete ⟨4⟩ true)]

/-- Tables that share a file have two names for each page. A cache with room for both of them goes
on showing what it has read under one name, when another row has been stored under the other. A
cache with room for one reads the page again. -/
theorem stale_of_shared_file :
    ¬ ∀ {db : Database} {capacity : Nat} {history other : List Occasion}
        {session last : Session}, db.Opened → capacity ≠ 0 →
      Course { db } history session → Course { db := db.withCapacity capacity } other last →
      (∀ occasion ∈ history ++ other,
        occasion.use.isOperation = true ∨ occasion.use.isFlush = true) →
      (∀ occasion ∈ history ++ other, occasion.reply.lacksRoom = false) →
      (operationsIn other).map Occasion.use = (operationsIn history).map Occasion.use →
      (operationsIn other).map Occasion.told = (operationsIn history).map Occasion.told := by
  intro hclaim
  have hcourse := Course.of_uses .start (by decide +kernel :
    AllowsEach { db := sampleTables "x.dat" "x.dat" } readUnderOtherName)
  have hother := Course.of_uses .start (by decide +kernel :
    AllowsEach { db := (sampleTables "x.dat" "x.dat").withCapacity 1 } readUnderOtherName)
  have htold := hclaim (sampleTables_opened "x.dat" "x.dat") (by decide) hcourse hother
    (by decide +kernel) (by decide +kernel) (by decide +kernel)
  exact absurd htold (by decide +kernel)

end Session

end RowStore
