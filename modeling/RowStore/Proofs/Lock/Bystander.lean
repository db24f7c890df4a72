import RowStore.Proofs.Lock.Upgrade

/-!
# Shared holders beside a writer, while another transaction acts

`LockTable.Spares` says what the requests and releases of one transaction leave of the others: the
table stays regular, and whoever of the others is a shared holder beside an exclusive one and does
not wait for an upgrade was so before. Every stage of a request spares the others, and so do a
release, the end of a transaction, and the removal of a lock.
-/

namespace RowStore

/-- A grant does not make a transaction a shared holder beside an exclusive one. -/
theorem LockState.beside_self_grant {lock : LockState} {txn holder : TxnId} {mode : LockMode}
    (hgrant : lock.canGrant txn mode = true)
    (howner : (lock.grant txn mode).exclusive = some holder)
    (hshared : txn ∈ (lock.grant txn mode).shared) :
    lock.exclusive = some holder ∧ txn ∈ lock.shared := by
  cases mode with
  | exclusive => simp [grant] at hshared
  | shared =>
      rcases exclusive_of_canGrant hgrant with hnone | hsome
      · simp [grant, hnone] at howner
      · rw [grant, if_pos hsome] at howner hshared
        exact ⟨howner, hshared⟩

namespace LockTable

variable {table before middle after : LockTable} {txn : TxnId} {page : PageId} {mode : LockMode}

/-- What a transaction leaves when it acts on the locks: of the others, and of its own shared holds
beside an exclusive holder. -/
structure Spares (txn : TxnId) (before after : LockTable) : Prop where
  regular : before.Regular → after.Regular
  beside : before.Regular → ∀ page holder other, other ≠ txn →
    (after.lockOf page).exclusive = some holder → other ∈ (after.lockOf page).shared →
    other ∉ (after.lockOf page).upgrading →
    (before.lockOf page).exclusive = some holder ∧ other ∈ (before.lockOf page).shared ∧
      other ∉ (before.lockOf page).upgrading
  self : before.Regular → ∀ page holder, (after.lockOf page).exclusive = some holder →
    txn ∈ (after.lockOf page).shared →
    (before.lockOf page).exclusive = some holder ∧ txn ∈ (before.lockOf page).shared

namespace Spares

theorem refl : Spares txn table table :=
  ⟨id, fun _ _ _ _ _ howner hshared hwaits => ⟨howner, hshared, hwaits⟩,
    fun _ _ _ howner hshared => ⟨howner, hshared⟩⟩

theorem trans (hfirst : Spares txn before middle) (hrest : Spares txn middle after) :
    Spares txn before after where
  regular := hrest.regular ∘ hfirst.regular
  beside hregular page holder other hother howner hshared hwaits := by
    obtain ⟨howner, hshared, hwaits⟩ :=
      hrest.beside (hfirst.regular hregular) page holder other hother howner hshared hwaits
    exact hfirst.beside hregular page holder other hother howner hshared hwaits
  self hregular page holder howner hshared := by
    obtain ⟨howner, hshared⟩ := hrest.self (hfirst.regular hregular) page holder howner hshared
    exact hfirst.self hregular page holder howner hshared

/-- An event of a transaction spares the others. -/
theorem of_effect {event : LockEvent} {refusal : Option Refusal}
    (hactor : event.actor? = some txn ∨ event.actor? = none)
    (heffect : before.Regular → LockEffect before event refusal after) :
    Spares txn before after where
  regular hregular := (heffect hregular).regular hregular
  beside hregular page holder other hother howner hshared hwaits := by
    obtain ⟨howner, hshared, hrefused⟩ :=
      (heffect hregular).beside hregular howner hshared hwaits
    refine ⟨howner, hshared, fun hupgrading => ?_⟩
    rcases (hrefused hupgrading).1 with rfl | rfl <;> simp [LockEvent.actor?, hother] at hactor
  self hregular page holder howner hshared := by
    cases heffect hregular with
    | quiet hlocks | sleep _ hlocks | wake _ hlocks =>
        rw [hlocks page] at howner hshared
        exact ⟨howner, hshared⟩
    | @announce asker target mode _ _ hlocks =>
        rw [hlocks page] at howner hshared
        split at howner
        · rename_i heq
          subst heq
          rw [if_pos rfl, LockState.shared_announce] at hshared
          rw [LockState.exclusive_announce] at howner
          exact ⟨howner, hshared⟩
        · rename_i hne
          rw [if_neg hne] at hshared
          exact ⟨howner, hshared⟩
    | @grant _ asker target mode _ hasker _ hgrant hlocks =>
        obtain rfl : asker = txn := by
          rcases hactor with hsome | hnone
          · exact Option.some.inj (hasker.symm.trans hsome)
          · simp [hasker] at hnone
        rw [hlocks page] at howner hshared
        split at howner
        · rename_i heq
          subst heq
          rw [if_pos rfl] at hshared
          exact LockState.beside_self_grant hgrant howner hshared
        · rename_i hne
          rw [if_neg hne] at hshared
          exact ⟨howner, hshared⟩
    | @refuse _ asker request _ _ _ _ hlocks =>
        rw [hlocks page] at howner hshared
        split at howner
        · rename_i heq
          rw [if_pos heq] at hshared
          exact ⟨howner, hshared⟩
        · rename_i hne
          rw [if_neg hne] at hshared
          exact ⟨howner, hshared⟩
    | release asker released hkept hleft =>
        cases hreleased : released page with
        | false =>
            rw [hkept page hreleased] at howner hshared
            exact ⟨howner, hshared⟩
        | true =>
            have hpage := hleft page hreleased
            refine ⟨?_, hpage.shared txn hshared⟩
            rcases hpage.exclusive with hsame | ⟨_, hnone⟩
            · rwa [← hsame]
            · simp [hnone] at howner

end Spares

/-- Taking a pending request through a pass spares the others. -/
theorem advance_spares {request : PendingRequest} (hpending : table.pending[txn]? = some request) :
    Spares txn table (table.advance txn request).2 :=
  .of_effect (.inl rfl) fun _ => advance_effect hpending

/-- Ending a pending request whose time is over spares the others. -/
theorem expire_spares {request : PendingRequest} (hpending : table.pending[txn]? = some request) :
    Spares txn table (table.expire txn request).2 :=
  .of_effect (.inl rfl) fun _ => expire_effect hpending

/-- Making a request spares the others. -/
theorem request_spares (hpending : table.pending[txn]? = none) (page : PageId) (mode : LockMode) :
    Spares txn table (table.request txn page mode).2 := by
  have hsubmit : Spares txn table (table.submit txn page mode).2 :=
    .of_effect (.inl rfl) fun _ => submit_effect hpending page mode
  simp only [request]
  split
  · rename_i submitted heq
    rw [heq] at hsubmit
    refine hsubmit.trans (advance_spares ?_)
    simp only [submit] at heq
    split at heq
    · simp at heq
    · simp only [Prod.mk.injEq, true_and] at heq
      subst heq
      exact Std.ExtTreeMap.getElem?_insert_self
  · exact hsubmit

/-- A release spares the others. -/
theorem release_spares (table : LockTable) (txn : TxnId) (page : PageId) :
    Spares txn table (table.release txn page).2 := by
  have heffect : LockEffect table (.release txn page) none (table.release txn page).2 := by
    simp only [release]
    split
    · exact setLock_effect LockState.leftBy_drop (.inr (.inr (.inl rfl)))
    · exact .quiet (fun _ => rfl) rfl rfl
  exact .of_effect (.inl rfl) fun _ => heffect

/-- The end of a transaction spares the others. -/
theorem releaseAll_spares (table : LockTable) (txn : TxnId) :
    Spares txn table (table.releaseAll txn) :=
  .of_effect (.inl rfl) fun hregular => releaseAll_effect hregular.consistent txn

/-- The removal of a lock spares everyone. -/
theorem reclaim_spares (table : LockTable) (page : PageId) :
    Spares txn table (table.reclaim page).2 :=
  .of_effect (.inr rfl) fun hregular => reclaim_effect hregular.consistent page

end LockTable

end RowStore
