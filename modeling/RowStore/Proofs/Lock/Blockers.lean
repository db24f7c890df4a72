import RowStore.Proofs.Lock.Cycle
import RowStore.Proofs.Lock.Pending

/-!
# Whoever has to wait has somebody to wait for

Two functions look at a lock when a transaction asks for it: `canGrant` decides whether the request
is granted, and `blockers` tells the search for cycles whom it waits for. They treat an upgrade
differently. The first one goes by whether the transaction is a shared holder, the second one by
whether it has announced an upgrade. `canGrant_iff_unblocked` says that they agree in every
reachable state, since every shared holder that asks for the exclusive mode has announced its
upgrade by then, and nobody else has.
-/

namespace RowStore

namespace LockState

variable {lock : LockState} {txn other : TxnId} {mode : LockMode}

/-- A transaction does not wait for itself. -/
theorem not_mem_blockers_self : txn ∉ lock.blockers txn mode := fun h =>
  (mem_blockers_iff.mp h).1 rfl

/-- A request can be granted if it waits for nobody, when the transaction has announced the upgrade
that it asks for. -/
theorem canGrant_iff_blockers_eq_nil (hconsistent : lock.Consistent)
    (hannounced : mode = .exclusive → txn ∈ lock.shared → txn ∈ lock.upgrading) :
    lock.canGrant txn mode = true ↔ lock.blockers txn mode = [] := by
  rw [canGrant_iff, List.eq_nil_iff_forall_not_mem]
  simp only [mem_blockers_iff, not_and]
  constructor
  · rintro (howner | ⟨hnone, hothers⟩) other hne hblocks
    · rcases hblocks with hother | ⟨hnone, _⟩
      · exact hne (Option.some.inj (hother.symm.trans howner))
      · simp [howner] at hnone
    · rcases hblocks with hother | ⟨_, hmode, hshared, hwaits⟩
      · simp [hnone] at hother
      · obtain ⟨htxn, hupgrading⟩ := hothers hmode other hshared hne
        exact hwaits (hannounced hmode htxn) hupgrading
  · intro hfree
    cases hexclusive : lock.exclusive with
    | some holder =>
        left
        by_contra hne
        exact hfree holder (fun hself => hne (congrArg some hself)) (.inl hexclusive)
    | none =>
        refine .inr ⟨rfl, fun hmode other hshared hne => ?_⟩
        -- Whoever does not stand in the way waits for an upgrade, as the transaction itself does.
        have hwaits : txn ∈ lock.upgrading ∧ other ∈ lock.upgrading := by
          by_contra hblocks
          exact hfree other hne (.inr ⟨hexclusive, hmode, hshared, not_and.mp hblocks⟩)
        exact ⟨hconsistent.upgrading txn hwaits.1, hwaits.2⟩

end LockState

namespace LockTable

/-- In this table a request is decided, which is pending or is just being made. A request that is
being made has announced its upgrade when it is decided. -/
inductive Decides (table : LockTable) (txn : TxnId) (page : PageId) (mode : LockMode) :
    LockTable → Prop where
  | pending {request : PendingRequest} : table.pending[txn]? = some request →
      request.page = page → request.mode = mode → Decides table txn page mode table
  | made : Decides table txn page mode
      ((table.ensure page).setLock page ((table.lockOf page).announce txn mode))

variable {table asked : LockTable} {history : List LockMoment} {txn : TxnId} {page : PageId}
  {mode : LockMode}

/-- The lock that a request is decided by is consistent, and the upgrade that is asked for has been
announced. -/
theorem Decides.announced (hdecides : Decides table txn page mode asked)
    (hrun : Run {} history table) :
    (asked.lockOf page).Consistent ∧ (mode = .exclusive → txn ∈ (asked.lockOf page).shared →
      txn ∈ (asked.lockOf page).upgrading) := by
  obtain ⟨hregular, hattentive⟩ := hrun.attentive
  cases hdecides with
  | pending hrequest hpage hmode =>
      subst hpage hmode
      exact ⟨hregular.consistent _, hattentive.announced txn _ hrequest⟩
  | made =>
      rw [lockOf_setLock, if_pos rfl, LockState.shared_announce]
      exact ⟨(hregular.consistent page).announce, fun hmode hshared =>
        LockState.mem_upgrading_announce.mpr (.inr ⟨rfl, hmode, hshared⟩)⟩

/-- Grants and the search for cycles agree. In every reachable state, a request that is pending or
just being made can be granted exactly if it waits for nobody, and it never waits for its own
transaction. So if it has to wait, there is another transaction that stands in its way, and the
graph leads to that one along the edge that the request records. -/
theorem canGrant_iff_unblocked (hrun : Run {} history table)
    (hdecides : Decides table txn page mode asked) :
    ((asked.lockOf page).canGrant txn mode = true ↔ asked.blockers page txn mode = []) ∧
      txn ∉ asked.blockers page txn mode ∧
      ((asked.lockOf page).canGrant txn mode = false → ∃ blocker, blocker ≠ txn ∧
        asked.WaitsAlong (asked.graph.edgesWith txn ⟨page, mode⟩) txn blocker) := by
  obtain ⟨hconsistent, hannounced⟩ := hdecides.announced hrun
  have hagree : (asked.lockOf page).canGrant txn mode = true ↔
      asked.blockers page txn mode = [] :=
    LockState.canGrant_iff_blockers_eq_nil hconsistent hannounced
  refine ⟨hagree, LockState.not_mem_blockers_self, fun hwaits => ?_⟩
  have hsome : asked.blockers page txn mode ≠ [] := fun hnil => by
    simp [hagree.mpr hnil] at hwaits
  obtain ⟨blocker, hblocker⟩ := List.exists_mem_of_ne_nil _ hsome
  refine ⟨blocker, ?_, ⟨page, mode⟩, ?_, hblocker⟩
  · rintro rfl
    exact LockState.not_mem_blockers_self hblocker
  · rw [← WaitGraph.edgesOf_add]
    exact WaitGraph.mem_edgesOf_add

/-- Three transactions read a page, and two of them wait for its upgrade. They do not wait for each
other but for the third one. When that one asks for its upgrade as well, it waits for nobody. -/
theorem canGrant_iff_unblocked_last_reader :
    ∃ history table, Run {} history table ∧
      (∃ blocker, blocker ≠ ⟨2⟩ ∧
        table.WaitsAlong (table.graph.edgesWith ⟨2⟩ ⟨samplePage, .exclusive⟩) ⟨2⟩ blocker) ∧
      ∃ asked, Decides table ⟨3⟩ samplePage .exclusive asked ∧
        asked.blockers samplePage ⟨3⟩ .exclusive = [] := by
  have hreplay : ((replay {} []
      [.submit ⟨1⟩ samplePage .shared, .submit ⟨2⟩ samplePage .shared,
        .submit ⟨3⟩ samplePage .shared, .submit ⟨1⟩ samplePage .exclusive, .advance ⟨1⟩,
        .submit ⟨2⟩ samplePage .exclusive, .advance ⟨2⟩]).any fun (_, table) =>
      ((table.pending[(⟨2⟩ : TxnId)]?).any fun request =>
        request.page = samplePage && request.mode = .exclusive) &&
      !(table.lockOf samplePage).canGrant ⟨2⟩ .exclusive &&
      (((table.ensure samplePage).setLock samplePage
        ((table.lockOf samplePage).announce ⟨3⟩ .exclusive)).lockOf samplePage).canGrant ⟨3⟩
          .exclusive) = true := by
    decide +kernel
  obtain ⟨⟨history, table⟩, hreplay, hchecks⟩ := (Option.any_eq_true _ _).mp hreplay
  simp only [Bool.and_eq_true, decide_eq_true_eq, Bool.not_eq_true', Option.any_eq_true] at hchecks
  obtain ⟨⟨⟨request, hrequest, hpage, hmode⟩, hwaits⟩, hgrant⟩ := hchecks
  have hrun : Run {} history table := .of_replay .start hreplay
  obtain ⟨-, -, hblocked⟩ := canGrant_iff_unblocked hrun (.pending hrequest hpage hmode)
  obtain ⟨hfree, -⟩ := canGrant_iff_unblocked hrun (@Decides.made table ⟨3⟩ samplePage .exclusive)
  exact ⟨history, table, hrun, hblocked hwaits, _, .made, hfree.mp hgrant⟩

end LockTable

end RowStore
