import RowStore.Proofs.Lock.Run

/-!
# Lock tables that differ in idle locks

A lock that nobody holds and nobody waits for is like one that was never made. So two lock tables of
which one has such locks and the other has not are alike: they give the same verdict on every
request, and stay alike when both answer it, when both release what a transaction holds, and when
one of them removes a lock that nobody uses. `LockTable.Alike` says that they differ in nothing
else.
-/

namespace RowStore

namespace LockTable

variable {table before middle after : LockTable} {txn : TxnId} {page : PageId} {mode : LockMode}

/-- The tables differ in nothing but locks that are as if they had not been made. -/
structure Alike (before after : LockTable) : Prop where
  lockOf : ∀ page, after.lockOf page = before.lockOf page
  graph : after.graph = before.graph
  pending : after.pending = before.pending

namespace Alike

theorem refl : Alike table table := ⟨fun _ => rfl, rfl, rfl⟩

theorem symm (halike : Alike before after) : Alike after before :=
  ⟨fun page => (halike.lockOf page).symm, halike.graph.symm, halike.pending.symm⟩

theorem trans (hfirst : Alike before middle) (hrest : Alike middle after) : Alike before after :=
  ⟨fun page => (hrest.lockOf page).trans (hfirst.lockOf page), hrest.graph.trans hfirst.graph,
    hrest.pending.trans hfirst.pending⟩

theorem holdsLock (halike : Alike before after) (txn : TxnId) (page : PageId) :
    after.holdsLock txn page = before.holdsLock txn page := by
  rw [LockTable.holdsLock, halike.lockOf, LockTable.holdsLock]

/-- The removal of a lock leaves a table alike. -/
theorem of_reclaim (hconsistent : table.Consistent) (page : PageId) :
    Alike table (table.reclaim page).2 where
  lockOf other := by
    rcases @lockOf_reclaim table page other with hsame | ⟨_, hidle, hnone⟩
    · exact hsame
    · rw [hnone, LockState.eq_of_isIdle (hconsistent other) hidle]
  graph := by
    rw [reclaim]
    split <;> rfl
  pending := by
    rw [reclaim]
    split <;> rfl

theorem ensure (halike : Alike before after) (page : PageId) :
    Alike (before.ensure page) (after.ensure page) where
  lockOf other := by rw [lockOf_ensure, lockOf_ensure, halike.lockOf]
  graph := halike.graph
  pending := halike.pending

theorem setLock (halike : Alike before after) (page : PageId) (lock : LockState) :
    Alike (before.setLock page lock) (after.setLock page lock) where
  lockOf other := by rw [lockOf_setLock, lockOf_setLock, halike.lockOf]
  graph := halike.graph
  pending := halike.pending

theorem setGraph (halike : Alike before after) (graph : WaitGraph) :
    Alike { before with graph } { after with graph } :=
  ⟨halike.lockOf, rfl, halike.pending⟩

theorem changePending (halike : Alike before after)
    (change : TxnMap PendingRequest → TxnMap PendingRequest) :
    Alike { before with pending := change before.pending }
      { after with pending := change after.pending } :=
  ⟨halike.lockOf, halike.graph, congrArg change halike.pending⟩

theorem removeEdge (halike : Alike before after) (txn : TxnId) (page : PageId) :
    Alike (before.removeEdge txn page) (after.removeEdge txn page) := by
  simp only [LockTable.removeEdge, halike.graph]
  exact halike.setGraph _

theorem withdraw (halike : Alike before after) (txn : TxnId) (page : PageId) :
    Alike (before.withdraw txn page) (after.withdraw txn page) := by
  simp only [LockTable.withdraw, halike.lockOf]
  exact halike.setLock page _

theorem wake (halike : Alike before after) (released : PageId → Bool) :
    Alike (before.wake released) (after.wake released) :=
  halike.changePending fun pending => pending.map fun _ (request : PendingRequest) =>
    { request with asleep := request.asleep && !released request.page }

/-- Alike tables find the same cycles. -/
theorem isDeadlocked (halike : Alike before after) (txn : TxnId) :
    after.isDeadlocked txn = before.isDeadlocked txn := by
  have hblockers : after.blockers = before.blockers := by
    funext page txn mode
    rw [blockers, halike.lockOf, blockers]
  rw [LockTable.isDeadlocked, hblockers, halike.graph, LockTable.isDeadlocked]

/-- Alike tables decide alike whether a transaction may begin to wait. -/
theorem waitOn (halike : Alike before after) (txn : TxnId) (page : PageId) (mode : LockMode) :
    (after.waitOn txn page mode).1 = (before.waitOn txn page mode).1 ∧
      Alike (before.waitOn txn page mode).2 (after.waitOn txn page mode).2 := by
  simp only [LockTable.waitOn, halike.graph]
  have hwaiting := halike.setGraph (before.graph.add txn ⟨page, mode⟩)
  rw [hwaiting.isDeadlocked]
  split
  · exact ⟨rfl, hwaiting.setGraph _⟩
  · exact ⟨rfl, hwaiting⟩

/-- Alike tables meet a request at once, or neither does. -/
theorem attempt (halike : Alike before after) (txn : TxnId) (page : PageId) (mode : LockMode) :
    (after.attempt txn page mode).1 = (before.attempt txn page mode).1 ∧
      Alike (before.attempt txn page mode).2 (after.attempt txn page mode).2 := by
  simp only [LockTable.attempt, lockOf_ensure, halike.lockOf]
  have hmade := halike.ensure page
  split
  · exact ⟨rfl, hmade⟩
  · split
    · exact ⟨rfl, hmade.setLock page _⟩
    · exact ⟨rfl, hmade.setLock page _⟩

/-- Alike tables give the same verdict on a pass of a request. -/
theorem pass (halike : Alike before after) (txn : TxnId) (page : PageId) (mode : LockMode) :
    (after.pass txn page mode).1 = (before.pass txn page mode).1 ∧
      Alike (before.pass txn page mode).2 (after.pass txn page mode).2 := by
  obtain ⟨hsame, hwaiting⟩ := halike.waitOn txn page mode
  rcases hbefore : before.waitOn txn page mode with ⟨verdict, waiting⟩
  rcases hafter : after.waitOn txn page mode with ⟨other, waited⟩
  rw [hbefore, hafter] at hwaiting
  rw [hbefore, hafter] at hsame
  obtain rfl : other = verdict := hsame
  simp only [LockTable.pass, hbefore, hafter]
  cases other with
  | error reason => exact ⟨rfl, hwaiting.withdraw txn page⟩
  | ok _ =>
      simp only [hwaiting.lockOf]
      split
      · exact ⟨rfl, (hwaiting.setLock page _).removeEdge txn page⟩
      · exact ⟨rfl, hwaiting⟩

/-- Alike tables take a request alike through its pass. -/
theorem advance (halike : Alike before after) (txn : TxnId) (request : PendingRequest) :
    (after.advance txn request).1 = (before.advance txn request).1 ∧
      Alike (before.advance txn request).2 (after.advance txn request).2 := by
  obtain ⟨hsame, hpassed⟩ := halike.pass txn request.page request.mode
  rcases hbefore : before.pass txn request.page request.mode with ⟨verdict, passed⟩
  rcases hafter : after.pass txn request.page request.mode with ⟨other, advanced⟩
  rw [hbefore, hafter] at hpassed
  rw [hbefore, hafter] at hsame
  obtain rfl : other = verdict := hsame
  simp only [LockTable.advance, hbefore, hafter]
  cases other with
  | granted | refused _ => exact ⟨rfl, hpassed.changePending fun pending => pending.erase txn⟩
  | waits =>
      exact ⟨rfl, hpassed.changePending fun pending =>
        pending.insert txn { request with asleep := true }⟩

/-- Alike tables give the same verdict on a request. -/
theorem request (halike : Alike before after) (txn : TxnId) (page : PageId) (mode : LockMode) :
    (after.request txn page mode).1 = (before.request txn page mode).1 ∧
      Alike (before.request txn page mode).2 (after.request txn page mode).2 := by
  obtain ⟨hsame, hattempted⟩ := halike.attempt txn page mode
  rcases hbefore : before.attempt txn page mode with ⟨met, attempted⟩
  rcases hafter : after.attempt txn page mode with ⟨other, requested⟩
  rw [hbefore, hafter] at hattempted
  rw [hbefore, hafter] at hsame
  obtain rfl : other = met := hsame
  simp only [LockTable.request, LockTable.submit, hbefore, hafter]
  cases other with
  | true => exact ⟨rfl, hattempted⟩
  | false =>
      have hleft := hattempted.changePending fun pending =>
        pending.insert txn ⟨page, mode, false⟩
      exact hleft.advance txn ⟨page, mode, false⟩

/-- Alike tables refuse a request whose time is over, or both wake it. -/
theorem expire (halike : Alike before after) (txn : TxnId) (request : PendingRequest) :
    (after.expire txn request).1 = (before.expire txn request).1 ∧
      Alike (before.expire txn request).2 (after.expire txn request).2 := by
  simp only [LockTable.expire, halike.lockOf]
  split
  · exact ⟨rfl, halike.changePending fun pending =>
      pending.insert txn { request with asleep := false }⟩
  · have hleft := (halike.withdraw txn request.page).removeEdge txn request.page
    exact ⟨rfl, hleft.changePending fun pending => pending.erase txn⟩

theorem release (halike : Alike before after) (txn : TxnId) (page : PageId) :
    Alike (before.release txn page).2 (after.release txn page).2 := by
  simp only [LockTable.release, halike.lockOf]
  split
  · exact (halike.setLock page ((before.lockOf page).drop txn)).wake (· = page)
  · exact halike

theorem releaseAll (halike : Alike before after) (txn : TxnId) :
    Alike (before.releaseAll txn) (after.releaseAll txn) where
  lockOf page := by rw [lockOf_releaseAll, lockOf_releaseAll, halike.lockOf]
  graph := by
    show after.graph.removeAll txn = before.graph.removeAll txn
    rw [halike.graph]
  pending := by
    simp only [LockTable.releaseAll, LockTable.wake, halike.lockOf, halike.pending]

end Alike

end LockTable

end RowStore
