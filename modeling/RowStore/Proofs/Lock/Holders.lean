import RowStore.Lock.LockTable

/-!
# Who holds the locks of a table

`Serves` says what a request of a transaction for a page can do to the locks, whatever comes of
it: nobody loses a hold, nobody but the transaction gains one and only on that page, and the page
gets an exclusive holder only if it had none. Every stage of a request serves it. A release, and
the end of a transaction, take holds from that transaction alone.
-/

namespace RowStore

namespace LockState

variable {lock : LockState} {txn other : TxnId} {mode held : LockMode}

@[simp] theorem exclusive_announce : (lock.announce txn mode).exclusive = lock.exclusive := by
  simp only [announce]
  split <;> rfl

@[simp] theorem shared_announce : (lock.announce txn mode).shared = lock.shared := by
  simp only [announce]
  split <;> rfl

@[simp] theorem holds_announce :
    (lock.announce txn mode).holds other held = lock.holds other held := by
  cases held <;> simp [holds]

@[simp] theorem holds_withdraw : (lock.withdraw txn).holds other held = lock.holds other held := by
  cases held <;> rfl

/-- A grant lets the transaction hold the lock in the mode. -/
theorem holds_grant_self : (lock.grant txn mode).holds txn mode = true := by
  cases mode with
  | exclusive => simp [grant, holds]
  | shared =>
      simp only [grant]
      split
      · rename_i howner
        simp [holds, howner]
      · simp [holds]

theorem holds_shared_iff :
    lock.holds txn .shared = true ↔ lock.exclusive = some txn ∨ txn ∈ lock.shared := by
  simp [holds]

theorem holds_exclusive_iff : lock.holds txn .exclusive = true ↔ lock.exclusive = some txn := by
  simp [holds]

/-- Whoever holds a lock holds it in shared mode. -/
theorem holds_shared_of_holds (h : lock.holds txn mode = true) : lock.holds txn .shared = true := by
  cases mode with
  | shared => exact h
  | exclusive => exact holds_shared_iff.mpr (.inl (holds_exclusive_iff.mp h))

/-- A lock that can be granted has no exclusive holder but the transaction. -/
theorem exclusive_of_canGrant (hgrant : lock.canGrant txn mode = true) :
    lock.exclusive = none ∨ lock.exclusive = some txn := by
  cases hexclusive : lock.exclusive with
  | none => exact .inl rfl
  | some holder =>
      have hholder : holder = txn := by simpa [canGrant, hexclusive] using hgrant
      exact .inr (by rw [hholder])

/-- A grant that was possible takes a hold from nobody. -/
theorem holds_grant_of_holds (hgrant : lock.canGrant txn mode = true)
    (h : lock.holds other held = true) : (lock.grant txn mode).holds other held = true := by
  cases mode with
  | shared =>
      simp only [grant]
      split
      · exact h
      · cases held with
        | exclusive => exact holds_exclusive_iff.mpr (holds_exclusive_iff.mp h)
        | shared =>
            rcases holds_shared_iff.mp h with h | h
            · exact holds_shared_iff.mpr (.inl h)
            · exact holds_shared_iff.mpr (.inr (Std.ExtTreeSet.mem_insert.mpr (.inr h)))
  | exclusive =>
      have hholder : lock.exclusive = some other → txn = other := by
        intro hother
        rcases exclusive_of_canGrant hgrant with hnone | hsome
        · simp [hnone] at hother
        · simpa [hsome] using hother
      cases held with
      | exclusive =>
          rw [hholder (holds_exclusive_iff.mp h)]
          exact holds_exclusive_iff.mpr rfl
      | shared =>
          by_cases hother : txn = other
          · rw [hother]
            exact holds_shared_iff.mpr (.inl rfl)
          · rcases holds_shared_iff.mp h with h | h
            · exact absurd (hholder h) hother
            · exact holds_shared_iff.mpr (.inr (by simpa [grant, hother] using h))

/-- A grant gives a hold to nobody but the transaction. -/
theorem holds_of_holds_grant (h : (lock.grant txn mode).holds other held = true) :
    lock.holds other held = true ∨ other = txn := by
  cases mode with
  | shared =>
      simp only [grant] at h
      split at h
      · exact .inl h
      · cases held with
        | exclusive => exact .inl (holds_exclusive_iff.mpr (holds_exclusive_iff.mp h))
        | shared =>
            rcases holds_shared_iff.mp h with h | h
            · exact .inl (holds_shared_iff.mpr (.inl h))
            · rcases Std.ExtTreeSet.mem_insert.mp h with h | h
              · exact .inr (Std.compare_eq_iff_eq.mp h).symm
              · exact .inl (holds_shared_iff.mpr (.inr h))
  | exclusive =>
      cases held with
      | exclusive => exact .inr (Option.some.inj (holds_exclusive_iff.mp h)).symm
      | shared =>
          rcases holds_shared_iff.mp h with h | h
          · exact .inr (Option.some.inj h).symm
          · exact .inl (holds_shared_iff.mpr (.inr (Std.ExtTreeSet.mem_erase.mp h).2))

/-- The exclusive holder gives up its hold and what it might hold in shared mode. -/
theorem drop_of_owner (howner : lock.exclusive = some txn) :
    lock.drop txn = (lock.dropShared txn).dropExclusive := if_pos howner

/-- A transaction that is not the exclusive holder gives up its shared hold. -/
theorem drop_of_not_owner (howner : lock.exclusive ≠ some txn) :
    lock.drop txn = lock.dropShared txn := if_neg howner

/-- The exclusive holder of a lock that the transaction gave up. -/
theorem exclusive_drop :
    (lock.drop txn).exclusive = if lock.exclusive = some txn then none else lock.exclusive := by
  by_cases howner : lock.exclusive = some txn
  · rw [drop_of_owner howner, if_pos howner, dropExclusive]
  · rw [drop_of_not_owner howner, if_neg howner, dropShared]

/-- The shared holders of a lock that the transaction gave up. -/
theorem mem_shared_drop :
    other ∈ (lock.drop txn).shared ↔ txn ≠ other ∧ other ∈ lock.shared := by
  by_cases howner : lock.exclusive = some txn
  · simp [drop_of_owner howner, dropShared, dropExclusive]
  · simp [drop_of_not_owner howner, dropShared]

/-- The upgrades that are announced for a lock that the transaction gave up. -/
theorem mem_upgrading_drop :
    other ∈ (lock.drop txn).upgrading ↔ txn ≠ other ∧ other ∈ lock.upgrading := by
  by_cases howner : lock.exclusive = some txn
  · simp [drop_of_owner howner, dropShared, dropExclusive]
  · simp [drop_of_not_owner howner, dropShared]

/-- A lock that the transaction gave up is held by the others as before, and not by itself. -/
theorem holds_drop :
    (lock.drop txn).holds other held = true ↔ txn ≠ other ∧ lock.holds other held = true := by
  have hexclusive : (lock.drop txn).exclusive = some other ↔
      txn ≠ other ∧ lock.exclusive = some other := by
    rw [exclusive_drop]
    split
    · rename_i howner
      simp [howner]
    · rename_i howner
      constructor
      · intro h
        exact ⟨fun heq => howner (by rw [h, heq]), h⟩
      · exact And.right
  cases held with
  | exclusive => rw [holds_exclusive_iff, holds_exclusive_iff, hexclusive]
  | shared =>
      rw [holds_shared_iff, holds_shared_iff, hexclusive, mem_shared_drop, ← and_or_left]

/-- A lock that nobody holds has no exclusive holder. -/
theorem exclusive_of_isIdle (h : lock.isIdle = true) : lock.exclusive = none := by
  simp only [isIdle, Bool.and_eq_true, Option.isNone_iff_eq_none] at h
  exact h.1

/-- A lock that nobody holds is not held by any transaction. -/
theorem holds_of_isIdle (h : lock.isIdle = true) (txn : TxnId) (mode : LockMode) :
    lock.holds txn mode = false := by
  simp only [isIdle, Bool.and_eq_true, Option.isNone_iff_eq_none, Std.ExtTreeSet.isEmpty_iff] at h
  cases mode <;> simp [holds, h.1, h.2]

end LockState

namespace LockTable

variable {table before middle after : LockTable} {txn : TxnId} {page other : PageId}
  {mode : LockMode}

theorem lockOf_setLock (lock : LockState) :
    (table.setLock page lock).lockOf other = if page = other then lock else table.lockOf other := by
  simp [setLock, lockOf, Std.ExtTreeMap.getD_insert]

@[simp] theorem lockOf_ensure : (table.ensure page).lockOf other = table.lockOf other := by
  simp only [ensure, lockOf, Std.ExtTreeMap.getD_insertIfNew, Std.compare_eq_iff_eq]
  split
  · rename_i h
    rw [← h.1, Std.ExtTreeMap.getD_eq_fallback h.2]
  · rfl

@[simp] theorem lockOf_removeEdge :
    (table.removeEdge txn page).lockOf other = table.lockOf other := rfl

@[simp] theorem lockOf_wake (released : PageId → Bool) :
    (table.wake released).lockOf other = table.lockOf other := rfl

@[simp] theorem lockOf_waitOn :
    (table.waitOn txn page mode).2.lockOf other = table.lockOf other := by
  simp only [waitOn]
  split <;> rfl

@[simp] theorem pending_waitOn : (table.waitOn txn page mode).2.pending = table.pending := by
  simp only [waitOn]
  split <;> rfl

/-- The locks after a transaction ended: it holds nothing, and the others hold what they held. -/
theorem lockOf_releaseAll :
    (table.releaseAll txn).lockOf other = (table.lockOf other).drop txn := by
  simp only [releaseAll, lockOf_wake]
  simp only [lockOf, Std.ExtTreeMap.getD_eq_getD_getElem?, Std.ExtTreeMap.getElem?_map]
  cases table.locks[other]? with
  | some lock => rfl
  | none =>
      simp only [Option.map_none, Option.getD_none, LockState.drop, LockState.dropShared,
        reduceCtorEq, if_false]
      congr 1

/-- The locks after one was released. -/
theorem lockOf_release :
    (table.release txn page).2.lockOf other =
      if page = other then
        if (table.lockOf page).holds txn .shared then (table.lockOf page).drop txn
        else table.lockOf page
      else table.lockOf other := by
  simp only [release]
  split
  · simp only [lockOf_wake, lockOf_setLock]
  · split
    · rename_i heq
      rw [heq]
    · rfl

/-- The pages that a transaction holds after it gave one up. -/
theorem holdsLock_release {table : LockTable} {txn : TxnId} {page other : PageId} :
    (table.release txn page).2.holdsLock txn other = true ↔
      page ≠ other ∧ table.holdsLock txn other = true := by
  simp only [holdsLock, lockOf_release]
  by_cases hsame : page = other
  · subst hsame
    cases hholds : (table.lockOf page).holds txn .shared with
    | true => simp [LockState.holds_drop]
    | false => simp [hholds]
  · simp [hsame]

/-- The pages that the others hold after a transaction gave one up. -/
theorem holdsLock_release_of_ne {table : LockTable} {txn holder : TxnId}
    (hne : txn ≠ holder) (page other : PageId) :
    (table.release txn page).2.holdsLock holder other = table.holdsLock holder other := by
  rw [Bool.eq_iff_iff]
  simp only [holdsLock, lockOf_release]
  split
  · rename_i hsame
    subst hsame
    split
    · rw [LockState.holds_drop, and_iff_right hne]
    · rfl
  · rfl

/-- The pages that are held after a transaction ended: none by itself. -/
theorem holdsLock_releaseAll {table : LockTable} {txn holder : TxnId} {page : PageId} :
    (table.releaseAll txn).holdsLock holder page = true ↔
      txn ≠ holder ∧ table.holdsLock holder page = true := by
  rw [holdsLock, lockOf_releaseAll, LockState.holds_drop]
  rfl

/-- Waking requests makes none and takes none back. -/
theorem pending_wake {released : PageId → Bool} {request : PendingRequest}
    (h : (table.wake released).pending[txn]? = some request) :
    ∃ found, table.pending[txn]? = some found ∧ found.page = request.page ∧
      found.mode = request.mode := by
  simp only [wake, Std.ExtTreeMap.getElem?_map, Option.map_eq_some_iff] at h
  obtain ⟨found, hfound, rfl⟩ := h
  exact ⟨found, hfound, rfl, rfl⟩

/-- The end of a transaction makes no request and takes none back. -/
theorem pending_releaseAll {holder : TxnId} {request : PendingRequest}
    (h : (table.releaseAll holder).pending[txn]? = some request) :
    ∃ found, table.pending[txn]? = some found ∧ found.page = request.page ∧
      found.mode = request.mode := by
  obtain ⟨found, hfound, hsame⟩ := pending_wake h
  exact ⟨found, hfound, hsame⟩

/-- A release makes no request and takes none back. -/
theorem pending_release {holder : TxnId} {request : PendingRequest}
    (h : (table.release holder page).2.pending[txn]? = some request) :
    ∃ found, table.pending[txn]? = some found ∧ found.page = request.page ∧
      found.mode = request.mode := by
  simp only [release] at h
  split at h
  · obtain ⟨found, hfound, hsame⟩ := pending_wake h
    exact ⟨found, hfound, hsame⟩
  · exact ⟨request, h, rfl, rfl⟩

/-- Whoever has no request has none after a release. -/
theorem pending_release_none (h : table.pending[txn]? = none) :
    (table.release txn page).2.pending[txn]? = none := by
  cases hpending : (table.release txn page).2.pending[txn]? with
  | none => rfl
  | some request =>
      obtain ⟨found, hfound, _⟩ := pending_release hpending
      simp [h] at hfound

/-- A lock is removed only if nobody holds it. -/
theorem lockOf_reclaim :
    (table.reclaim page).2.lockOf other = table.lockOf other ∨
      page = other ∧ (table.lockOf other).isIdle = true ∧
        (table.reclaim page).2.lockOf other = {} := by
  simp only [reclaim]
  split
  · rename_i hreclaimable
    by_cases heq : page = other
    · subst heq
      cases hlock : table.locks[page]? with
      | none =>
          left
          simp [lockOf, Std.ExtTreeMap.getD_eq_getD_getElem?, hlock]
      | some lock =>
          right
          simp only [isReclaimable, hlock, Bool.and_eq_true] at hreclaimable
          refine ⟨rfl, ?_, ?_⟩
          · simpa [lockOf, Std.ExtTreeMap.getD_eq_getD_getElem?, hlock] using hreclaimable.1
          · simp [lockOf, Std.ExtTreeMap.getD_eq_getD_getElem?]
    · left
      simp [lockOf, Std.ExtTreeMap.getD_erase, heq]
  · exact .inl rfl

/-- A lock that somebody holds has been made. -/
theorem mem_locks_of_holds {mode : LockMode}
    (h : (table.lockOf page).holds txn mode = true) : page ∈ table.locks := by
  refine Decidable.byContradiction fun hnone => ?_
  rw [lockOf, Std.ExtTreeMap.getD_eq_fallback hnone, LockState.holds_of_isIdle rfl] at h
  exact Bool.noConfusion h

/-- Nobody holds a page whose lock can be removed. -/
theorem holdsLock_of_isReclaimable (h : table.isReclaimable page = true) :
    table.holdsLock txn page = false := by
  rw [holdsLock, lockOf, Std.ExtTreeMap.getD_eq_getD_getElem?]
  rw [isReclaimable] at h
  cases hlock : table.locks[page]? with
  | none => exact LockState.holds_of_isIdle rfl txn .shared
  | some lock =>
      simp only [hlock, Bool.and_eq_true] at h
      exact LockState.holds_of_isIdle h.1 txn .shared

/-- The lock that may be removed is one that nobody holds. -/
theorem holds_reclaim (table : LockTable) (page other : PageId) (txn : TxnId) (mode : LockMode) :
    ((table.reclaim page).2.lockOf other).holds txn mode =
      (table.lockOf other).holds txn mode := by
  rcases @lockOf_reclaim table page other with hsame | ⟨rfl, hidle, hsame⟩
  · rw [hsame]
  · rw [hsame, LockState.holds_of_isIdle hidle]
    exact LockState.holds_of_isIdle rfl txn mode

/-- What a request of a transaction for a page in a mode can do to the locks. -/
structure Serves (txn : TxnId) (page : PageId) (mode : LockMode) (before after : LockTable) :
    Prop where
  exclusive : ∀ other, (after.lockOf other).exclusive = (before.lockOf other).exclusive ∨
    other = page ∧ mode = .exclusive ∧ (before.lockOf other).exclusive = none ∧
      (after.lockOf other).exclusive = some txn
  keeps : ∀ other holder held, (before.lockOf other).holds holder held = true →
    (after.lockOf other).holds holder held = true
  gains : ∀ other holder held, (after.lockOf other).holds holder held = true →
    (before.lockOf other).holds holder held = true ∨ holder = txn ∧ other = page
  pending : ∀ other, other ≠ txn → after.pending[other]? = before.pending[other]?

namespace Serves

/-- A request that changes no lock and no other request is served. -/
theorem of_eq (hlocks : ∀ other, (after.lockOf other).exclusive = (before.lockOf other).exclusive)
    (hholds : ∀ other holder held,
      (after.lockOf other).holds holder held = (before.lockOf other).holds holder held)
    (hpending : ∀ other, other ≠ txn → after.pending[other]? = before.pending[other]?) :
    Serves txn page mode before after where
  exclusive other := .inl (hlocks other)
  keeps other holder held h := by rwa [hholds]
  gains other holder held h := .inl (by rwa [← hholds])
  pending := hpending

theorem trans (hfirst : Serves txn page mode before middle)
    (hsecond : Serves txn page mode middle after) : Serves txn page mode before after where
  exclusive other := by
    rcases hfirst.exclusive other with hfirst | ⟨hpage, hmode, hnone, hsome⟩
    · rcases hsecond.exclusive other with hsecond | ⟨hpage, hmode, hnone, hsome⟩
      · exact .inl (hsecond.trans hfirst)
      · exact .inr ⟨hpage, hmode, hfirst ▸ hnone, hsome⟩
    · rcases hsecond.exclusive other with hsecond | ⟨_, _, hother, _⟩
      · exact .inr ⟨hpage, hmode, hnone, hsecond.trans hsome⟩
      · simp [hsome] at hother
  keeps other holder held h := hsecond.keeps other holder held (hfirst.keeps other holder held h)
  gains other holder held h := by
    rcases hsecond.gains other holder held h with h | h
    · exact hfirst.gains other holder held h
    · exact .inr h
  pending other hne := (hsecond.pending other hne).trans (hfirst.pending other hne)

/-- A lock that its page's request could be given serves it. -/
theorem setLock_grant {lock : LockState} (hlock : ∀ holder held,
      lock.holds holder held = (table.lockOf page).holds holder held)
    (hexclusive : lock.exclusive = (table.lockOf page).exclusive)
    (hgrant : lock.canGrant txn mode = true) :
    Serves txn page mode table (table.setLock page (lock.grant txn mode)) where
  exclusive other := by
    rw [lockOf_setLock]
    split
    · rename_i heq
      subst heq
      cases mode with
      | shared =>
          left
          rw [← hexclusive, LockState.grant]
          split <;> rfl
      | exclusive =>
          -- An upgrade of the holder itself leaves the owner as it is.
          cases howner : (table.lockOf page).exclusive with
          | none => exact .inr ⟨rfl, rfl, rfl, rfl⟩
          | some holder =>
              left
              have hholder : holder = txn := by
                simpa [LockState.canGrant, hexclusive, howner] using hgrant
              rw [hholder]
              rfl
    · exact .inl rfl
  keeps other holder held h := by
    rw [lockOf_setLock]
    split
    · rename_i heq
      subst heq
      exact LockState.holds_grant_of_holds hgrant (by rwa [hlock])
    · exact h
  gains other holder held h := by
    rw [lockOf_setLock] at h
    split at h
    · rename_i heq
      subst heq
      rcases LockState.holds_of_holds_grant h with h | h
      · exact .inl (by rwa [← hlock])
      · exact .inr ⟨h, rfl⟩
    · exact .inl h
  pending _ _ := rfl

/-- Announcing or taking back an upgrade changes no hold. -/
theorem setLock_of_holds {lock : LockState} (hlock : ∀ holder held,
      lock.holds holder held = (table.lockOf page).holds holder held)
    (hexclusive : lock.exclusive = (table.lockOf page).exclusive) :
    Serves txn page mode table (table.setLock page lock) := by
  refine of_eq ?_ ?_ (fun _ _ => rfl)
  · intro other
    rw [lockOf_setLock]
    split
    · rename_i heq
      rw [hexclusive, heq]
    · rfl
  · intro other holder held
    rw [lockOf_setLock]
    split
    · rename_i heq
      rw [hlock, heq]
    · rfl

end Serves

/-- The first attempt serves its request, and lets the transaction hold what it was granted. -/
theorem attempt_serves (table : LockTable) (txn : TxnId) (page : PageId) (mode : LockMode) :
    Serves txn page mode table (table.attempt txn page mode).2 ∧
      ((table.attempt txn page mode).1 = true →
        ((table.attempt txn page mode).2.lockOf page).holds txn mode = true) ∧
      (table.attempt txn page mode).2.pending = table.pending := by
  have hensure : Serves txn page mode table (table.ensure page) :=
    .of_eq (fun _ => by rw [lockOf_ensure]) (fun _ _ _ => by rw [lockOf_ensure]) (fun _ _ => rfl)
  simp only [attempt]
  split
  · rename_i hholds
    exact ⟨hensure, fun _ => hholds, rfl⟩
  · split
    · rename_i hgrant
      refine ⟨hensure.trans (.setLock_grant ?_ ?_ hgrant), ?_, rfl⟩
      · intro _ _
        simp only [LockState.holds_announce]
      · simp only [LockState.exclusive_announce]
      · intro _
        rw [lockOf_setLock, if_pos rfl]
        exact LockState.holds_grant_self
    · refine ⟨hensure.trans (.setLock_of_holds ?_ ?_), ?_, rfl⟩
      · intro _ _
        simp only [LockState.holds_announce]
      · simp only [LockState.exclusive_announce]
      · simp

/-- A pass serves its request, and lets the transaction hold what it was granted. -/
theorem pass_serves (table : LockTable) (txn : TxnId) (page : PageId) (mode : LockMode) :
    Serves txn page mode table (table.pass txn page mode).2 ∧
      ((table.pass txn page mode).1 = .granted →
        ((table.pass txn page mode).2.lockOf page).holds txn mode = true) ∧
      (table.pass txn page mode).2.pending = table.pending := by
  have hwait : Serves txn page mode table (table.waitOn txn page mode).2 :=
    .of_eq (fun _ => by rw [lockOf_waitOn]) (fun _ _ _ => by rw [lockOf_waitOn])
      (fun _ _ => by rw [pending_waitOn])
  have hpending : (table.waitOn txn page mode).2.pending = _ := pending_waitOn
  simp only [pass]
  split
  · rename_i reason waiting heq
    rw [heq] at hwait hpending
    exact ⟨hwait.trans (.setLock_of_holds (fun _ _ => LockState.holds_withdraw) rfl),
      by simp, hpending⟩
  · rename_i waiting heq
    rw [heq] at hwait hpending
    split
    · rename_i hgrant
      refine ⟨hwait.trans ((Serves.setLock_grant (fun _ _ => rfl) rfl hgrant).trans
        (.of_eq (fun _ => rfl) (fun _ _ _ => rfl) (fun _ _ => rfl))), ?_, hpending⟩
      intro _
      rw [lockOf_removeEdge, lockOf_setLock, if_pos rfl]
      exact LockState.holds_grant_self
    · exact ⟨hwait, by simp, hpending⟩

/-- What has become of a request of a transaction that had no other: it is granted or refused,
and is pending no more, or it is pending and asleep. -/
structure Treated (txn : TxnId) (page : PageId) (mode : LockMode) (before : LockTable)
    (verdict : Verdict) (after : LockTable) : Prop where
  serves : Serves txn page mode before after
  granted : verdict = .granted → (after.lockOf page).holds txn mode = true
  waits : verdict = .waits → after.pending[txn]? = some ⟨page, mode, true⟩
  answered : verdict ≠ .waits → after.pending[txn]? = none

/-- A pending request is taken through a pass. -/
theorem advance_treated (table : LockTable) (txn : TxnId) (request : PendingRequest) :
    Treated txn request.page request.mode table (table.advance txn request).1
      (table.advance txn request).2 := by
  obtain ⟨hserves, hholds, _⟩ := pass_serves table txn request.page request.mode
  simp only [advance]
  split
  · rename_i passed heq
    rw [heq] at hserves
    refine ⟨hserves.trans (.of_eq (fun _ => rfl) (fun _ _ _ => rfl) fun other hother => ?_),
      by simp, fun _ => Std.ExtTreeMap.getElem?_insert_self, by simp⟩
    simp [Std.ExtTreeMap.getElem?_insert, hother.symm]
  · rename_i verdict passed hverdict heq
    rw [heq] at hserves hholds
    refine ⟨hserves.trans (.of_eq (fun _ => rfl) (fun _ _ _ => rfl) fun other hother => ?_), hholds,
      fun hwaits => absurd hwaits hverdict, fun _ => Std.ExtTreeMap.getElem?_erase_self⟩
    simp [Std.ExtTreeMap.getElem?_erase, hother.symm]

/-- A request is made. -/
theorem request_treated {table : LockTable} {txn : TxnId} (hpending : table.pending[txn]? = none)
    (page : PageId) (mode : LockMode) :
    Treated txn page mode table (table.request txn page mode).1
      (table.request txn page mode).2 := by
  obtain ⟨hserves, hholds, hkept⟩ := attempt_serves table txn page mode
  simp only [request, submit]
  split
  · rename_i submitted heq
    split at heq
    · simp at heq
    · rename_i attempted hattempt
      simp only [Prod.mk.injEq, true_and] at heq
      subst heq
      rw [hattempt] at hserves
      -- The request could not be granted at once. It is submitted awake, and its verdict is that of
      -- the pass that follows.
      have hsubmit : Serves txn page mode table
          { attempted with pending := attempted.pending.insert txn ⟨page, mode, false⟩ } := by
        refine hserves.trans (.of_eq (fun _ => rfl) (fun _ _ _ => rfl) ?_)
        intro other hother
        simp [Std.ExtTreeMap.getElem?_insert, hother.symm]
      have hadvance := advance_treated
        { attempted with pending := attempted.pending.insert txn ⟨page, mode, false⟩ } txn
        ⟨page, mode, false⟩
      exact { hadvance with serves := hsubmit.trans hadvance.serves }
  · rename_i hne
    split
    · rename_i attempted hattempt
      rw [hattempt] at hserves hholds hkept
      exact ⟨hserves, fun _ => hholds rfl, by simp, fun _ => hkept ▸ hpending⟩
    · rename_i attempted hattempt
      rw [hattempt] at hne
      exact absurd rfl (hne _)

/-- Ending a request whose time is over serves it. It is refused and pending no more, or it stays
pending, awake. -/
theorem expire_serves (table : LockTable) (txn : TxnId) (request : PendingRequest) :
    Serves txn request.page request.mode table (table.expire txn request).2 ∧
      ((∃ locks, table.expire txn request = (.waits, locks) ∧
          locks.pending[txn]? = some { request with asleep := false }) ∨
        ∃ reason locks, table.expire txn request = (.refused reason, locks) ∧
          locks.pending[txn]? = none) := by
  simp only [expire]
  split
  · refine ⟨.of_eq (fun _ => rfl) (fun _ _ _ => rfl) fun other hother => ?_,
      .inl ⟨_, rfl, Std.ExtTreeMap.getElem?_insert_self⟩⟩
    simp [Std.ExtTreeMap.getElem?_insert, hother.symm]
  · have hwithdraw : Serves txn request.page request.mode table
        (table.withdraw txn request.page) :=
      .setLock_of_holds (fun _ _ => LockState.holds_withdraw) rfl
    refine ⟨hwithdraw.trans (.of_eq (fun _ => rfl) (fun _ _ _ => rfl) fun other hother => ?_),
      .inr ⟨_, _, rfl, Std.ExtTreeMap.getElem?_erase_self⟩⟩
    simp [Std.ExtTreeMap.getElem?_erase, hother.symm, removeEdge]

end LockTable

end RowStore
