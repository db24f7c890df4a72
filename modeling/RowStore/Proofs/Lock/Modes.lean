import RowStore.Proofs.Lock.Holders

/-!
# The modes in which pages are held

`LockTable.modeOf` tells how a transaction holds a page: exclusively, in shared mode only, or not at
all. A request that is granted changes the mode of its transaction on its page and no other, and so
does a release. A request for a page that is held already changes nothing.
-/

namespace RowStore

namespace LockTable

/-- How a transaction holds a page, if it does. -/
def modeOf (table : LockTable) (txn : TxnId) (page : PageId) : Option LockMode :=
  if (table.lockOf page).holds txn .exclusive then some .exclusive
  else if (table.lockOf page).holds txn .shared then some .shared
  else none

variable {table after : LockTable} {txn holder : TxnId} {page other : PageId} {mode : LockMode}

/-- A page is held in the same mode if it is held alike. -/
theorem modeOf_congr
    (h : ∀ mode, (after.lockOf page).holds txn mode = (table.lockOf page).holds txn mode) :
    after.modeOf txn page = table.modeOf txn page := by
  simp only [modeOf, h]

theorem modeOf_eq_exclusive_iff :
    table.modeOf txn page = some .exclusive ↔
      (table.lockOf page).holds txn .exclusive = true := by
  simp only [modeOf]
  split
  · simp_all
  · split <;> simp_all

theorem isSome_modeOf : (table.modeOf txn page).isSome = table.holdsLock txn page := by
  simp only [modeOf, holdsLock]
  split
  · rename_i hexclusive
    rw [LockState.holds_shared_of_holds hexclusive]
    rfl
  · split <;> simp_all

/-- A request that is granted is served, and its transaction holds the page in the mode. -/
theorem serves_of_granted (h : table.request txn page mode = (.granted, after)) :
    Serves txn page mode table after ∧ (after.lockOf page).holds txn mode = true := by
  obtain ⟨hserves, hholds, _⟩ := attempt_serves table txn page mode
  simp only [request, submit] at h
  rcases hattempt : table.attempt txn page mode with ⟨granted, attempted⟩
  rw [hattempt] at hserves hholds h
  cases granted with
  | true =>
      obtain rfl : attempted = after := (congrArg Prod.snd h :)
      exact ⟨hserves, hholds rfl⟩
  | false =>
      -- What could not be granted at once was granted by the pass that follows.
      have hsubmit : Serves txn page mode table
          { attempted with pending := attempted.pending.insert txn ⟨page, mode, false⟩ } := by
        refine hserves.trans (.of_eq (fun _ => rfl) (fun _ _ _ => rfl) ?_)
        intro other hother
        simp [Std.ExtTreeMap.getElem?_insert, hother.symm]
      have hadvance := advance_treated
        { attempted with pending := attempted.pending.insert txn ⟨page, mode, false⟩ } txn
        ⟨page, mode, false⟩
      simp only at h
      rw [h] at hadvance
      exact ⟨hsubmit.trans hadvance.serves, hadvance.granted rfl⟩

/-- A request changes the mode of no other transaction and on no other page. -/
theorem Serves.modeOf (hserves : Serves txn page mode table after)
    (hother : ¬ (holder = txn ∧ other = page)) :
    after.modeOf holder other = table.modeOf holder other := by
  refine modeOf_congr fun held => Bool.eq_iff_iff.mpr ⟨fun h => ?_, hserves.keeps other holder held⟩
  exact (hserves.gains other holder held h).resolve_right hother

/-- Whoever was granted a page in shared mode holds it in that mode, unless it held the page
exclusively before. -/
theorem Serves.modeOf_shared (hserves : Serves txn page .shared table after)
    (hholds : (after.lockOf page).holds txn .shared = true) :
    after.modeOf txn page = some ((table.modeOf txn page).getD .shared) := by
  have hexclusive : (after.lockOf page).holds txn .exclusive =
      (table.lockOf page).holds txn .exclusive := by
    rcases hserves.exclusive page with hsame | ⟨_, hmode, _⟩
    · simp only [LockState.holds, hsame]
    · simp at hmode
  simp only [LockTable.modeOf, hexclusive, hholds, if_true]
  split
  · rfl
  · split <;> rfl

/-- Whoever was granted a page exclusively holds it so. -/
theorem Serves.modeOf_exclusive (hserves : Serves txn page .exclusive table after)
    (hholds : (after.lockOf page).holds txn .exclusive = true) (holder : TxnId) (other : PageId) :
    after.modeOf holder other =
      if holder = txn ∧ other = page then some .exclusive else table.modeOf holder other := by
  split
  · rename_i hself
    obtain ⟨rfl, rfl⟩ := hself
    exact modeOf_eq_exclusive_iff.mpr hholds
  · rename_i hother
    exact hserves.modeOf hother

/-- Whoever holds a page is granted it again, and nothing changes. -/
theorem request_of_holds (h : (table.lockOf page).holds txn mode = true) :
    table.request txn page mode = (.granted, table) := by
  have hensure : table.ensure page = table := by
    have hlocks : table.locks.insertIfNew page {} = table.locks := by
      refine Std.ExtTreeMap.ext_getElem? fun other => ?_
      rw [Std.ExtTreeMap.getElem?_insertIfNew, if_neg]
      rintro ⟨hsame, habsent⟩
      obtain rfl := Std.compare_eq_iff_eq.mp hsame
      exact habsent (mem_locks_of_holds h)
    rw [ensure, hlocks]
  simp only [request, submit, attempt, hensure, h, if_true]

/-- A transaction that gives up a page holds it no more, and nothing else changes. -/
theorem modeOf_release (table : LockTable) (txn holder : TxnId) (page other : PageId) :
    (table.release txn page).2.modeOf holder other =
      if holder = txn ∧ other = page then none else table.modeOf holder other := by
  by_cases hsame : page = other
  · subst hsame
    by_cases hself : holder = txn
    · subst hself
      have hnone (mode) :
          ((table.release holder page).2.lockOf page).holds holder mode = false := by
        rw [← Bool.not_eq_true]
        intro hheld
        have hlock := holdsLock_release.mp (LockState.holds_shared_of_holds hheld)
        exact hlock.1 rfl
      rw [if_pos ⟨rfl, rfl⟩, modeOf, hnone, hnone]
      rfl
    · rw [if_neg (by simp [hself])]
      refine modeOf_congr fun held => ?_
      rw [lockOf_release, if_pos rfl]
      split
      · rw [Bool.eq_iff_iff, LockState.holds_drop, and_iff_right (Ne.symm hself)]
      · rfl
  · rw [if_neg (by simp [Ne.symm hsame])]
    refine modeOf_congr fun held => ?_
    rw [lockOf_release, if_neg hsame]

end LockTable

end RowStore
