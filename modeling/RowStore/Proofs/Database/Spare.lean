import RowStore.Proofs.Cache.Accounted
import RowStore.Proofs.Cache.Recency
import RowStore.Proofs.Database.Fetched
import RowStore.Proofs.Lock.Reclaim

/-!
# Pages that can be spared

A full cache makes room by an eviction. `Spare` says which pages can go: those without changes whose
lock is not there, or is held by nobody and wanted by nobody. The search for one offers pages and
tries to reclaim their locks, and whatever it refuses it leaves alone. `evict_spare` says what it
comes to: of all pages that can be spared, the one that was accessed the longest time ago leaves the
cache, with its frame, its stamp, and its lock, or there is none and nothing changes.
-/

namespace RowStore

/-- A lock is idle if no transaction holds it. -/
theorem LockState.isIdle_iff {lock : LockState} :
    lock.isIdle = true ↔ ∀ txn mode, lock.holds txn mode = false := by
  refine ⟨holds_of_isIdle, fun hfree => ?_⟩
  have howner : lock.exclusive = none := by
    cases hexclusive : lock.exclusive with
    | none => rfl
    | some owner => simpa [holds, hexclusive] using hfree owner .exclusive
  have hshared : lock.shared = ∅ := by
    refine Std.ExtTreeSet.ext_mem fun txn => ?_
    have hnone := hfree txn .shared
    simp only [holds, Bool.or_eq_false_iff, decide_eq_false_iff_not] at hnone
    simp [hnone.2]
  simp [isIdle, howner, hshared]

/-- The lock of a page can be removed if it is not there or not in use, and only then. -/
theorem LockTable.isReclaimable_iff {table : LockTable} {page : PageId} :
    table.isReclaimable page = true ↔ page ∉ table.locks ∨ ¬ table.InUse page := by
  rw [isReclaimable, Std.ExtTreeMap.mem_iff_isSome_getElem?]
  cases hlock : table.locks[page]? with
  | none => simp
  | some lock =>
      have hlockOf : table.lockOf page = lock := by
        rw [lockOf, Std.ExtTreeMap.getD_eq_getD_getElem?, hlock, Option.getD_some]
      have hreferenced := @isReferenced_iff table page
      simp only [Bool.and_eq_true, Bool.not_eq_true', ← Bool.not_eq_true, InUse, hlockOf,
        LockState.isIdle_iff, hreferenced, Option.isSome_some, not_true_eq_false, false_or,
        not_or, not_exists]

namespace Database

variable {db : Database} {page : PageId} {resident : Resident}

/-- The page can be spared: it is in the cache without changes, and its lock is not there, or no
transaction holds it and neither a request nor an edge refers to it. -/
structure Spare (db : Database) (page : PageId) : Prop where
  clean : ∃ resident, db.cache.frames[page]? = some resident ∧ resident.dirtiedBy = none
  free : page ∉ db.locks.locks ∨ ¬ db.locks.InUse page

/-- Of the pages that can be spared, this is the one that was accessed the longest time ago: every
other one was accessed after it. -/
structure LeastRecent (db : Database) (accesses : List PageId) (page : PageId) : Prop where
  spare : db.Spare page
  oldest : ∃ earlier later, accesses = earlier ++ page :: later ∧ page ∉ later ∧
    ∀ other, db.Spare other → other ≠ page → other ∈ later

/-- The database when a page has left the cache with its stamp and its lock. -/
def without (db : Database) (page : PageId) (resident : Resident) : Database :=
  { db with
    cache := { db.cache with
      frames := db.cache.frames.erase page
      recency := { db.cache.recency with lastAccess := db.cache.recency.lastAccess.erase page }
      retired := db.cache.retired.insert resident.serial resident.toFrame }
    locks := { db.locks with locks := db.locks.locks.erase page } }

/-- The database when a place in the cache is reserved. -/
def reserving (db : Database) : Database :=
  { db with cache := { db.cache with loading := db.cache.loading + 1 } }

/-- Of all pages only the one is missing that has left the cache. -/
theorem contains_frames_without (db : Database) (resident : Resident) {other : PageId}
    (hne : page ≠ other) :
    (db.without page resident).reserving.cache.frames.contains other =
      db.cache.frames.contains other := by
  simp [reserving, without, Std.ExtTreeMap.contains_erase, hne]

/-- The pages that can be evicted are those that can be spared. -/
theorem isEvictable_iff : db.isEvictable page = true ↔ db.Spare page := by
  rw [isEvictable, Bool.and_eq_true, LockTable.isReclaimable_iff]
  have hclean : db.cache.isClean page = true ↔
      ∃ resident, db.cache.frames[page]? = some resident ∧ resident.dirtiedBy = none := by
    simp [Cache.isClean, Option.any_eq_true, Frame.isDirty]
  rw [hclean]
  exact ⟨fun h => ⟨h.1, h.2⟩, fun h => ⟨h.clean, h.free⟩⟩

/-- Only a page that can be spared is evicted. -/
theorem spare_of_evicted (hevicted : Evicted db page resident) : db.Spare page where
  clean := ⟨resident, hevicted.frame, hevicted.clean⟩
  free := LockTable.isReclaimable_iff.mp hevicted.reclaimable

/-- A page with changes, or one whose lock is in use, cannot be spared. -/
theorem not_spare (hmade : db.locks.Made)
    (hkept : db.cache.isDirty page = true ∨ db.locks.InUse page) : ¬ db.Spare page := by
  intro hspare
  rcases hkept with hdirty | huse
  · obtain ⟨resident, hframe, hclean⟩ := hspare.clean
    simp [Cache.isDirty, hframe, Frame.isDirty, hclean] at hdirty
  · rcases hspare.free with habsent | hfree
    · exact habsent (hmade.mem_locks huse)
    · exact hfree huse

/-- A page that can be spared leaves with its lock. -/
theorem remove_of_spare (hspare : db.Spare page)
    (hframe : db.cache.frames[page]? = some resident) :
    { db with cache := db.cache.remove page, locks := (db.locks.reclaim page).2 } =
      db.without page resident := by
  have hreclaimable := LockTable.isReclaimable_iff.mpr hspare.free
  simp only [Cache.remove, hframe, LockTable.reclaim, hreclaimable, if_true, Recency.remove,
    without]

/-- What an eviction comes to, in a cache that tracks the pages in it by their accesses. -/
theorem evict_spare {accesses : List PageId} (hfollows : db.cache.recency.Follows accesses)
    (htracked : ∀ page, page ∈ db.cache.recency.lastAccess ↔ page ∈ db.cache.frames) :
    (∃ victim resident, db.cache.frames[victim]? = some resident ∧
      db.LeastRecent accesses victim ∧ db.evict = some (db.without victim resident)) ∨
    (∀ page, ¬ db.Spare page) ∧ db.evict = none := by
  have hoffered : ∀ page, db.Spare page → page ∈ db.cache.recency.lastAccess := by
    intro page hspare
    obtain ⟨resident, hframe, _⟩ := hspare.clean
    rw [htracked, Std.ExtTreeMap.mem_iff_isSome_getElem?, hframe]
    rfl
  cases hchosen : (db.cache.recency.evict db.isEvictable).1.victim with
  | none =>
      refine .inr ⟨fun page hspare => ?_, by rw [evict, hchosen]; rfl⟩
      have hrefused := Recency.evict_eq_none.mp hchosen page (hoffered page hspare)
      rw [isEvictable_iff.mpr hspare] at hrefused
      exact Bool.noConfusion hrefused
  | some victim =>
      have hspare := isEvictable_iff.mp (Recency.evict_eq_some hchosen).1
      obtain ⟨resident, hframe, _⟩ := hspare.clean
      obtain ⟨earlier, later, hsplit, hlast, hothers⟩ := hfollows.least_recent hchosen
      refine .inl ⟨victim, resident, hframe, ⟨hspare, earlier, later, hsplit, hlast, ?_⟩, ?_⟩
      · exact fun other hother =>
          hothers other (hoffered other hother) (isEvictable_iff.mpr hother)
      · rw [evict, hchosen, Option.map_some, remove_of_spare hspare hframe]

end Database

end RowStore
