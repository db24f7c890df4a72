import RowStore.Proofs.Database.Sheet
import RowStore.Proofs.Database.Solo
import RowStore.Proofs.Database.Spare
import RowStore.Proofs.Database.Writing

/-!
# When the cache has no room

A database is calm if no place in its cache is reserved and nobody waits for a lock. It stays calm
while one transaction has it to itself. In a calm database a full cache refuses a page only if none
of its frames can be spared, and as nobody waits for anything these are the frames of pages that
the transaction has locked: `Solo.crowded`. `Uses` keeps count of those.
-/

namespace RowStore

namespace LockTable

variable {table after : LockTable} {page : PageId} {txn : TxnId}

/-- Nothing comes to refer to a lock where no request is made and no edge is added. -/
theorem unreferenced_of_keeps (hunreferenced : table.isReferenced page = false)
    (hpending : ∀ (txn : TxnId) (request : PendingRequest), after.pending[txn]? = some request →
      ∃ found, table.pending[txn]? = some found ∧ found.page = request.page)
    (hedges : ∀ txn, ∀ edge ∈ after.graph.edgesOf txn, edge ∈ table.graph.edgesOf txn) :
    after.isReferenced page = false := by
  rw [← Bool.not_eq_true, isReferenced_iff] at hunreferenced ⊢
  rintro (⟨txn, request, hrequest, rfl⟩ | ⟨txn, edge, hedge, rfl⟩)
  · obtain ⟨found, hfound, hpage⟩ := hpending txn request hrequest
    exact hunreferenced (.inl ⟨txn, found, hfound, hpage⟩)
  · exact hunreferenced (.inr ⟨txn, edge, hedges txn edge hedge, rfl⟩)

end LockTable

namespace Database

/-- No place in the cache is reserved, and nobody waits for a lock. -/
structure Calm (db : Database) : Prop where
  accounted : db.cache.Accounted db.cache.capacity 0
  unreferenced : ∀ page, db.locks.isReferenced page = false

variable {db after : Database} {txn : TxnId} {page : PageId} {capacity : Nat}

namespace Calm

/-- A database stays calm if its cache is still accounted for and nothing comes to refer to a
lock. -/
theorem of_keeps (hcalm : db.Calm) (haccounted : after.cache.Accounted db.cache.capacity 0)
    (hunreferenced : ∀ page, db.locks.isReferenced page = false →
      after.locks.isReferenced page = false) : after.Calm where
  accounted := haccounted.size.symm ▸ haccounted
  unreferenced page := hunreferenced page (hcalm.unreferenced page)

/-- A database stays calm when locks are given up. -/
theorem release (hcalm : db.Calm) (txn : TxnId) (page : PageId) :
    Calm { db with locks := (db.locks.release txn page).2 } := by
  refine hcalm.of_keeps hcalm.accounted fun other hunreferenced =>
    LockTable.unreferenced_of_keeps hunreferenced ?_ ?_
  · intro holder request hrequest
    obtain ⟨found, hfound, hpage, _⟩ := LockTable.pending_release hrequest
    exact ⟨found, hfound, hpage⟩
  · intro holder edge hedge
    have hgraph : (db.locks.release txn page).2.graph = db.locks.graph := by
      unfold LockTable.release
      simp only
      split <;> rfl
    rw [hgraph] at hedge
    exact hedge

/-- A database stays calm when a transaction ends. -/
theorem finish (hcalm : db.Calm) (txn : TxnId) : (db.finish txn).Calm := by
  refine hcalm.of_keeps hcalm.accounted fun page hunreferenced =>
    LockTable.unreferenced_of_keeps hunreferenced ?_ ?_
  · intro holder request hrequest
    obtain ⟨found, hfound, hpage, _⟩ := LockTable.pending_releaseAll hrequest
    exact ⟨found, hfound, hpage⟩
  · intro holder edge hedge
    have hedge : edge ∈ (db.locks.graph.removeAll txn).edgesOf holder := hedge
    by_cases hsame : txn = holder
    · subst hsame
      simp [WaitGraph.removeAll, WaitGraph.edgesOf] at hedge
    · rwa [WaitGraph.edgesOf_removeAll_of_ne hsame] at hedge

/-- A reserved place is given up, for the page that was read or without one. -/
theorem accounted_install {reserved : Nat} {loaded : Except Error (HeapPage × PageFile)}
    (haccounted : db.cache.Accounted capacity (reserved + 1))
    (hid : ∀ heapPage origin, loaded = .ok (heapPage, origin) → heapPage.id = page) :
    (db.install page loaded).2.cache.Accounted capacity reserved := by
  unfold install
  simp only
  cases loaded with
  | error error => exact haccounted.giveUp
  | ok found =>
      simp only
      split
      · rename_i resident hframe
        refine haccounted.giveUp.touch ?_
        rw [Std.ExtTreeMap.mem_iff_isSome_getElem?, hframe]
        rfl
      · exact haccounted.install (hid found.1 found.2 rfl) found.2

/-- A fetch keeps a database calm. -/
theorem fetch (hcalm : db.Calm) (hsound : db.catalog.Sound) (page : PageId) :
    (db.fetch page).2.Calm := by
  have hread : ∀ room : Database, room.catalog = db.catalog →
      room.cache.Accounted db.cache.capacity 1 →
      ((room.load page).2.install page (room.load page).1).2.cache.Accounted
        db.cache.capacity 0 := by
    intro room hcatalog haccounted
    obtain ⟨storage, hload, _⟩ := load_eq room page
    have haccounted : (room.load page).2.cache.Accounted db.cache.capacity 1 := by
      rw [hload]
      exact haccounted
    refine accounted_install haccounted fun heapPage origin hloaded => ?_
    refine (load_eq_ok (fun heap hheap => (hsound.fits page.table heap ?_).table)
      (Prod.ext hloaded rfl) 0).id
    rwa [← hcatalog]
  have hlocks : ∀ room : Database,
      ((room.load page).2.install page (room.load page).1).2.locks = room.locks := by
    intro room
    obtain ⟨storage, hload, _⟩ := load_eq room page
    rw [hload]
    unfold install
    simp only
    split
    · rfl
    · split <;> rfl
  unfold Database.fetch
  cases hframe : db.cache.frames[page]? with
  | some resident =>
      rw [reserve_of_resident hframe]
      refine hcalm.of_keeps (hcalm.accounted.touch ?_) fun _ => id
      rw [Std.ExtTreeMap.mem_iff_isSome_getElem?, hframe]
      rfl
  | none =>
      unfold reserve
      simp only [hframe]
      by_cases hfull : db.cache.isFull = true
      · rw [if_pos hfull]
        cases hevict : db.evict with
        | none => exact hcalm
        | some room =>
            obtain ⟨victim, resident, hevicted, rfl⟩ := evict_eq_some hevict
            obtain ⟨hremoved, hsize⟩ := hcalm.accounted.remove victim
            have hcontains : db.cache.frames.contains victim = true := by
              rw [Std.ExtTreeMap.contains_eq_isSome_getElem?, hevicted.frame]
              rfl
            rw [if_pos hcontains] at hsize
            have hroom := hcalm.accounted.room
            refine hcalm.of_keeps (hread _ rfl (hremoved.reserve (by omega))) ?_
            intro other hunreferenced
            rw [hlocks]
            show (db.locks.reclaim victim).2.isReferenced other = false
            unfold LockTable.reclaim
            split
            · exact hunreferenced
            · exact hunreferenced
      · rw [if_neg hfull]
        have hroom : db.cache.frames.size + 0 < db.cache.capacity := by
          have hloading := hcalm.accounted.loading
          unfold Cache.isFull at hfull
          rw [decide_eq_true_iff, hloading] at hfull
          omega
        refine hcalm.of_keeps (hread _ rfl (hcalm.accounted.reserve hroom)) ?_
        intro other hunreferenced
        rw [hlocks]
        exact hunreferenced

/-- An access keeps a database calm. -/
theorem access (hcalm : db.Calm) (hsound : db.catalog.Sound) (txn : TxnId) (page : PageId)
    (mode : LockMode) : (db.access txn page mode).2.Calm := by
  obtain ⟨_, journal, hafter⟩ := access_eq_fetch db txn page mode
  rw [hafter]
  exact ⟨(hcalm.fetch hsound page).accounted, (hcalm.fetch hsound page).unreferenced⟩

/-- A flush keeps a database calm. -/
theorem flushPage (hcalm : db.Calm) (page : PageId) : (db.flushPage page).2.Calm := by
  refine hcalm.of_keeps (flushPage_preserves_cache
    (fun _ _ _ _ hframe hid _ h => h.setFrame hframe hid) db page hcalm.accounted) ?_
  intro other hunreferenced
  rwa [(flushPage_mayFlush db page).locks]

/-- Flushes keep a database calm. -/
theorem flushEach (hcalm : db.Calm) (pages : List PageId) : (db.flushEach pages).2.Calm :=
  flushEach_preserves Calm pages (fun page _ hcalm => hcalm.flushPage page) hcalm

/-- Rolling a transaction back keeps a database calm. -/
theorem rollBack (hcalm : db.Calm) (txn : TxnId) : (db.rollBack txn).2.Calm := by
  refine hcalm.of_keeps (complete_preserves_cache
    (fun _ _ _ _ hframe hid _ h => h.setFrame hframe hid) db txn hcalm.accounted).2 ?_
  intro other hunreferenced
  rwa [(rollBack_undisturbed db txn).locks]

end Calm

variable {layout : Layout} {heap : HeapFile}

/-- A page that cannot be spared in a calm database is locked by the transaction that has the table
to itself. -/
theorem Solo.holdsLock_of_not_spare (hsolo : db.Solo layout heap txn) (hcalm : db.Calm)
    (hresident : page ∈ db.cache.frames) (hkept : ¬ db.Spare page) :
    db.locks.holdsLock txn page = true := by
  rw [Std.ExtTreeMap.mem_iff_isSome_getElem?, Option.isSome_iff_exists] at hresident
  obtain ⟨resident, hframe⟩ := hresident
  have hmine : ∀ {holder : TxnId} {mode : LockMode},
      (db.locks.lockOf page).holds holder mode = true → db.locks.holdsLock txn page = true := by
    intro holder mode hholds
    obtain rfl := hsolo.alone page holder mode hholds
    exact LockState.holds_shared_of_holds hholds
  cases hdirty : resident.dirtiedBy with
  | some owner =>
      -- Whoever has changed the page has noted what it held before, and holds it exclusively.
      obtain ⟨image, himage⟩ :=
        Option.isSome_iff_exists.mp (hsolo.intact.dirty page resident owner hframe hdirty)
      have howner := hsolo.placed.owner owner page image himage
      exact hmine (LockState.holds_exclusive_iff.mpr howner)
  | none =>
      have huse : db.locks.InUse page := by
        by_contra hfree
        exact hkept ⟨⟨resident, hframe, hdirty⟩, .inr hfree⟩
      rcases huse with ⟨holder, mode, hholds⟩ | hreferenced
      · exact hmine hholds
      · have hnone := hcalm.unreferenced page
        rw [LockTable.isReferenced_iff.mpr hreferenced] at hnone
        exact Bool.noConfusion hnone

/-- If a full cache has no room for a page, it is full of other pages that the transaction has
locked. -/
theorem Solo.crowded (hsolo : db.Solo layout heap txn) (hcalm : db.Calm)
    (habsent : db.cache.frames[page]? = none) (hfull : db.cache.isFull = true)
    (hevict : db.evict = none) :
    Sheet.Crowded db.cache.capacity (fun other => db.locks.holdsLock txn other = true) page := by
  have hsize : db.cache.frames.size = db.cache.capacity := by
    have hroom := hcalm.accounted.room
    have hloading := hcalm.accounted.loading
    unfold Cache.isFull at hfull
    rw [decide_eq_true_iff, hloading] at hfull
    omega
  have hvictim : (db.cache.recency.evict db.isEvictable).1.victim = none := by
    unfold evict at hevict
    exact Option.map_eq_none_iff.mp hevict
  refine ⟨db.cache.frames.keys, ?_, ?_, fun other hother => ?_⟩
  · exact Std.ExtTreeMap.nodup_keys
  · rw [Std.ExtTreeMap.length_keys, hsize]
  · have hresident : other ∈ db.cache.frames := Std.ExtTreeMap.mem_keys.mp hother
    refine ⟨hsolo.holdsLock_of_not_spare hcalm hresident fun hspare => ?_, ?_⟩
    · have hrefused := Recency.evict_eq_none.mp hvictim other
        ((hcalm.accounted.tracked other).mpr hresident)
      rw [isEvictable_iff.mpr hspare] at hrefused
      exact Bool.noConfusion hrefused
    · rintro rfl
      rw [Std.ExtTreeMap.mem_iff_isSome_getElem?, habsent] at hresident
      exact Bool.noConfusion hresident

/-- The cache may hold so many pages, and every page that the transaction has locked counts as
used. -/
structure Uses (capacity : Nat) (used : PageId → Prop) (txn : TxnId) (db : Database) : Prop where
  capacity : db.cache.capacity = capacity
  held : ∀ page, db.locks.holdsLock txn page = true → used page

namespace Uses

variable {used : PageId → Prop} {mode : LockMode}

/-- More pages may count as used. -/
theorem imp (huses : db.Uses capacity used txn) {more : PageId → Prop}
    (h : ∀ page, used page → more page) : db.Uses capacity more txn where
  capacity := huses.capacity
  held other hheld := h other (huses.held other hheld)

/-- A page that is given up need not count as used. -/
theorem release (huses : db.Uses capacity (fun other => used other ∨ other = page) txn) :
    Uses capacity used txn { db with locks := (db.locks.release txn page).2 } where
  capacity := huses.capacity
  held other hheld := by
    rw [LockTable.holdsLock_release] at hheld
    exact (huses.held other hheld.2).resolve_right (Ne.symm hheld.1)

/-- A page that is locked counts as used from then on. -/
theorem lock (huses : db.Uses capacity used txn) {locks : LockTable}
    (hserves : LockTable.Serves txn page mode db.locks locks) :
    Uses capacity (fun other => used other ∨ other = page) txn { db with locks } where
  capacity := huses.capacity
  held other hheld :=
    (hserves.gains other txn .shared hheld).imp (huses.held other) And.right

/-- If the cache is full of pages that the transaction has locked, it is full of used ones. -/
theorem crowded (huses : db.Uses capacity (fun other => used other ∨ other = page) txn)
    (hcrowded : Sheet.Crowded db.cache.capacity
      (fun other => db.locks.holdsLock txn other = true) page) :
    Sheet.Crowded capacity used page := by
  obtain ⟨pages, hnodup, hlength, hheld⟩ := hcrowded
  refine ⟨pages, hnodup, hlength.trans huses.capacity, fun other hother => ?_⟩
  obtain ⟨hholds, hne⟩ := hheld other hother
  exact ⟨(huses.held other hholds).resolve_right hne, hne⟩

end Uses

end Database

end RowStore
