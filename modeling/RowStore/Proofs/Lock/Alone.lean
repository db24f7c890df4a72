import RowStore.Proofs.Lock.Holders

/-!
# A transaction that is alone

As long as no other transaction holds a lock, every request of a transaction is granted at once:
it never waits and is never refused. What it requests leaves it alone, and when it ends, whoever
comes next is alone as well.
-/

namespace RowStore

namespace LockState

variable {lock : LockState} {txn : TxnId}

/-- A lock that nobody else holds can be granted. -/
theorem canGrant_of_alone (halone : ∀ holder mode, lock.holds holder mode = true → holder = txn)
    (mode : LockMode) : lock.canGrant txn mode = true := by
  have hshared : ∀ other ∈ lock.shared.toList, other = txn := by
    intro other hother
    exact halone other .shared (holds_shared_iff.mpr (.inr (Std.ExtTreeSet.mem_toList.mp hother)))
  unfold canGrant
  cases howner : lock.exclusive with
  | some holder =>
      have hholder := halone holder .exclusive (holds_exclusive_iff.mpr howner)
      simpa using hholder
  | none =>
      cases mode with
      | shared => rfl
      | exclusive =>
          show (if txn ∈ lock.shared then _ else _) = true
          split
          · rw [List.all_eq_true]
            intro other hother
            simp [hshared other hother]
          · rename_i hmember
            rw [Std.ExtTreeSet.isEmpty_iff]
            apply Std.ExtTreeSet.ext_mem
            intro other
            refine ⟨?_, fun hother => absurd hother Std.ExtTreeSet.not_mem_empty⟩
            intro hother
            rw [hshared other (Std.ExtTreeSet.mem_toList.mpr hother)] at hother
            exact absurd hother hmember

end LockState

namespace LockTable

variable {table after : LockTable} {txn other : TxnId} {page : PageId} {mode : LockMode}

/-- Nobody but the transaction holds a lock. -/
def Alone (table : LockTable) (txn : TxnId) : Prop :=
  ∀ page holder mode, (table.lockOf page).holds holder mode = true → holder = txn

/-- A transaction stays alone as long as nobody else gets a hold. -/
theorem Alone.of_holds (halone : table.Alone txn)
    (hholds : ∀ page holder mode, (after.lockOf page).holds holder mode = true →
      (table.lockOf page).holds holder mode = true ∨ holder = txn) : after.Alone txn := by
  intro page holder mode hheld
  rcases hholds page holder mode hheld with h | h
  · exact halone page holder mode h
  · exact h

/-- The exclusive holder of a page is the transaction, if the page has one. -/
theorem Alone.exclusive (halone : table.Alone txn) (page : PageId) :
    (table.lockOf page).exclusive = none ∨ (table.lockOf page).exclusive = some txn := by
  cases howner : (table.lockOf page).exclusive with
  | none => exact .inl rfl
  | some holder =>
      right
      rw [halone page holder .exclusive (LockState.holds_exclusive_iff.mpr howner)]

/-- The first attempt of a request leaves nothing behind that refers to a lock. -/
theorem isReferenced_attempt (table : LockTable) (txn : TxnId) (page : PageId) (mode : LockMode)
    (other : PageId) :
    (table.attempt txn page mode).2.isReferenced other = table.isReferenced other := by
  unfold attempt
  simp only
  split
  · rfl
  · split <;> rfl

/-- A request of a transaction that is alone is granted at once, so nothing refers to its lock. -/
theorem Alone.request (halone : table.Alone txn) (page : PageId) (mode : LockMode) :
    ∃ after, table.request txn page mode = (.granted, after) ∧ after.Alone txn ∧
      Serves txn page mode table after ∧ (after.lockOf page).holds txn mode = true ∧
      ∀ other, after.isReferenced other = table.isReferenced other := by
  have hattempt : (table.attempt txn page mode).1 = true := by
    have hgrant : (((table.ensure page).lockOf page).announce txn mode).canGrant txn mode =
        true := by
      apply LockState.canGrant_of_alone
      intro holder held hheld
      rw [LockState.holds_announce, lockOf_ensure] at hheld
      exact halone page holder held hheld
    unfold attempt
    simp only
    split
    · rfl
    · rfl
  obtain ⟨hserves, hholds, _⟩ := attempt_serves table txn page mode
  refine ⟨(table.attempt txn page mode).2, ?_, ?_, hserves, hholds hattempt,
    isReferenced_attempt table txn page mode⟩
  · unfold LockTable.request submit
    rw [show table.attempt txn page mode = (true, (table.attempt txn page mode).2) from
      Prod.ext hattempt rfl]
  · apply halone.of_holds
    intro page holder held hheld
    exact (hserves.gains page holder held hheld).imp_right And.left

/-- When a transaction ends that was alone, everybody is alone. -/
theorem Alone.releaseAll (halone : table.Alone txn) (other : TxnId) :
    (table.releaseAll txn).Alone other := by
  intro page holder held hheld
  rw [lockOf_releaseAll, LockState.holds_drop] at hheld
  exact absurd (halone page holder held hheld.2).symm hheld.1

/-- When a transaction ends that was alone, nobody holds a page exclusively. -/
theorem Alone.exclusive_releaseAll (halone : table.Alone txn) (page : PageId) :
    ((table.releaseAll txn).lockOf page).exclusive = none := by
  rw [lockOf_releaseAll, LockState.exclusive_drop]
  rcases halone.exclusive page with hnone | hsome
  · rw [hnone]
    rfl
  · rw [hsome, if_pos rfl]

/-- Nobody holds a page exclusively if everybody is alone. -/
theorem exclusive_of_alone (halone : ∀ txn, table.Alone txn) (page : PageId) :
    (table.lockOf page).exclusive = none := by
  cases howner : (table.lockOf page).exclusive with
  | none => rfl
  | some holder =>
      have hheld := LockState.holds_exclusive_iff.mpr howner
      have hsame := halone ⟨holder.number + 1⟩ page holder .exclusive hheld
      have hnumber := congrArg TxnId.number hsame
      simp at hnumber

end LockTable

end RowStore
