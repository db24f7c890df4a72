import RowStore.Proofs.Lock.Holders

/-!
# What transactions leave to one another

Whatever a transaction does to the locks of pages, with its requests, its releases, or its end, it
respects every other one, which keeps what it holds, gets no write access by it, and goes on waiting
with the request that it has. `LockTable.Respects` says so. The removal of a lock respects everyone.
-/

namespace RowStore

namespace LockTable

variable {table before after : LockTable} {txn other : TxnId} {page : PageId} {mode : LockMode}

/-- What is left to a transaction by whoever acts on the locks. -/
structure Respects (txn : TxnId) (before after : LockTable) : Prop where
  holds : ∀ page mode, (before.lockOf page).holds txn mode = true →
    (after.lockOf page).holds txn mode = true
  exclusive : ∀ page, (after.lockOf page).exclusive = some txn →
    (before.lockOf page).exclusive = some txn
  pending : ∀ request : PendingRequest, after.pending[txn]? = some request →
    ∃ found, before.pending[txn]? = some found ∧ found.page = request.page ∧
      found.mode = request.mode

namespace Respects

theorem refl : Respects txn table table :=
  ⟨fun _ _ h => h, fun _ h => h, fun request h => ⟨request, h, rfl, rfl⟩⟩

/-- A request of another transaction is made or taken further. -/
theorem of_serves (hserves : Serves other page mode before after) (hne : txn ≠ other) :
    Respects txn before after where
  holds target held h := hserves.keeps target txn held h
  exclusive target h := by
    rcases hserves.exclusive target with hsame | ⟨_, _, _, hsome⟩
    · rwa [← hsame]
    · exact absurd (Option.some.inj (h.symm.trans hsome)) hne
  pending request h := ⟨request, hserves.pending txn hne ▸ h, rfl, rfl⟩

/-- Another transaction gives up what it holds on some pages. -/
theorem of_drop (hlocks : ∀ page, after.lockOf page = before.lockOf page ∨
      after.lockOf page = (before.lockOf page).drop other)
    (hpending : ∀ request : PendingRequest, after.pending[txn]? = some request →
      ∃ found, before.pending[txn]? = some found ∧ found.page = request.page ∧
        found.mode = request.mode) (hne : txn ≠ other) : Respects txn before after where
  holds page mode h := by
    rcases hlocks page with hsame | hdropped
    · rwa [hsame]
    · rw [hdropped]
      exact LockState.holds_drop.mpr ⟨hne.symm, h⟩
  exclusive page h := by
    rcases hlocks page with hsame | hdropped
    · rwa [← hsame]
    · rw [hdropped] at h
      exact LockState.holds_exclusive_iff.mp
        (LockState.holds_drop.mp (LockState.holds_exclusive_iff.mpr h)).2
  pending := hpending

theorem of_release (table : LockTable) (page : PageId) (hne : txn ≠ other) :
    Respects txn table (table.release other page).2 := by
  refine of_drop (fun target => ?_) (fun request h => pending_release h) hne
  rw [lockOf_release]
  split
  · rename_i hsame
    subst hsame
    split
    · exact .inr rfl
    · exact .inl rfl
  · exact .inl rfl

theorem of_releaseAll (table : LockTable) (hne : txn ≠ other) :
    Respects txn table (table.releaseAll other) :=
  of_drop (fun _ => .inr lockOf_releaseAll) (fun _ h => pending_releaseAll h) hne

/-- A lock that nobody holds is removed. -/
theorem of_reclaim (table : LockTable) (page : PageId) :
    Respects txn table (table.reclaim page).2 where
  holds target held h := by
    rcases @lockOf_reclaim table page target with
      hsame | ⟨_, hidle, _⟩
    · rwa [hsame]
    · simp [LockState.holds_of_isIdle hidle] at h
  exclusive target h := by
    rcases @lockOf_reclaim table page target with
      hsame | ⟨_, _, hnone⟩
    · rwa [← hsame]
    · simp [hnone] at h
  pending request h := by
    refine ⟨request, ?_, rfl, rfl⟩
    simp only [reclaim] at h
    split at h <;> exact h

/-- Whoever has no request has none afterwards. -/
theorem pending_none (hrespects : Respects txn before after) (h : before.pending[txn]? = none) :
    after.pending[txn]? = none := by
  cases hrequest : after.pending[txn]? with
  | none => rfl
  | some request =>
      obtain ⟨found, hfound, _⟩ := hrespects.pending request hrequest
      simp [h] at hfound

end Respects

/-- Whoever has no request has none after the end of a transaction. -/
theorem pending_releaseAll_none (h : table.pending[txn]? = none) :
    (table.releaseAll other).pending[txn]? = none := by
  cases hrequest : (table.releaseAll other).pending[txn]? with
  | none => rfl
  | some request =>
      obtain ⟨found, hfound, _⟩ := pending_releaseAll hrequest
      simp [h] at hfound

/-- A request is made. It is granted, or it is pending and awake. -/
theorem submit_serves (hpending : table.pending[txn]? = none) (page : PageId) (mode : LockMode) :
    Serves txn page mode table (table.submit txn page mode).2 ∧
      ((∃ locks, table.submit txn page mode = (.granted, locks) ∧
          (locks.lockOf page).holds txn mode = true ∧ locks.pending[txn]? = none) ∨
        ∃ locks, table.submit txn page mode = (.waits, locks) ∧
          locks.pending[txn]? = some ⟨page, mode, false⟩) := by
  obtain ⟨hserves, hholds, hkept⟩ := attempt_serves table txn page mode
  simp only [submit]
  split
  · rename_i attempted hattempt
    rw [hattempt] at hserves hholds hkept
    exact ⟨hserves, .inl ⟨attempted, rfl, hholds rfl, hkept ▸ hpending⟩⟩
  · rename_i attempted hattempt
    rw [hattempt] at hserves
    refine ⟨hserves.trans (.of_eq (fun _ => rfl) (fun _ _ _ => rfl) fun target htarget => ?_),
      .inr ⟨_, rfl, Std.ExtTreeMap.getElem?_insert_self⟩⟩
    simp [Std.ExtTreeMap.getElem?_insert, htarget.symm]

end LockTable

end RowStore
