import RowStore.Proofs.Lock.Holders

/-!
# Runs of a lock table

A lock table is used by any number of transactions. `LockEvent` is one thing that happens to it: a
request is made, is taken through a pass, or ends because its time is over, or a lock is given up
or removed. `LockTable.Run` is a sequence of events in which a transaction has one request
outstanding at a time. `LockEffect` says all that an event can do, and `perform_effect` that it
does one of these things, so a property of all runs is proved by a case for each effect.
-/

namespace RowStore

/-- One thing that happens to a lock table. -/
inductive LockEvent where
  /-- A transaction makes a request. It is granted at once, or stays pending, awake. -/
  | submit (txn : TxnId) (page : PageId) (mode : LockMode)
  /-- The pending request of a transaction, if it is awake, is taken through a pass. -/
  | advance (txn : TxnId)
  /-- The pending request of a transaction has waited too long. -/
  | expire (txn : TxnId)
  | releaseShared (txn : TxnId) (page : PageId)
  | releaseExclusive (txn : TxnId) (page : PageId)
  | release (txn : TxnId) (page : PageId)
  | releaseAll (txn : TxnId)
  | reclaim (page : PageId)
deriving DecidableEq

/-- The transaction that does something in the event. -/
def LockEvent.actor? : LockEvent → Option TxnId
  | .submit txn .. | .advance txn | .expire txn | .releaseShared txn _ | .releaseExclusive txn _
  | .release txn _ | .releaseAll txn => some txn
  | .reclaim _ => none

/-- The transaction gives up its holds of the page in the event, or one of them. -/
def LockEvent.Releases (event : LockEvent) (txn : TxnId) (page : PageId) : Prop :=
  event = .releaseShared txn page ∨ event = .releaseExclusive txn page ∨
    event = .release txn page ∨ event = .releaseAll txn

/-- Why a request was refused, if it was. -/
def Verdict.refusal? : Verdict → Option Refusal
  | .refused reason => some reason
  | .granted | .waits => none

namespace LockState

/-- Every transaction that asks for an upgrade is a shared holder, and the exclusive holder is
none. -/
structure Consistent (lock : LockState) : Prop where
  upgrading : ∀ txn ∈ lock.upgrading, txn ∈ lock.shared
  apart : ∀ txn, lock.exclusive = some txn → txn ∉ lock.shared

/-- What is left of a lock when the transaction gives up holds of it. -/
structure LeftBy (txn : TxnId) (lock left : LockState) : Prop where
  exclusive : left.exclusive = lock.exclusive ∨
    lock.exclusive = some txn ∧ left.exclusive = none
  shared : ∀ other ∈ left.shared, other ∈ lock.shared
  others : ∀ other ∈ lock.shared, other ≠ txn → other ∈ left.shared
  upgrading : ∀ other ∈ left.upgrading, other ∈ lock.upgrading
  upgrades : ∀ other ∈ left.shared, other ∈ lock.upgrading → other ∈ left.upgrading
  consistent : lock.Consistent → left.Consistent

end LockState

namespace LockTable

/-- Let an event happen, and tell why the request was refused that it answers, if it was. -/
def perform (table : LockTable) : LockEvent → Option Refusal × LockTable
  | .submit txn page mode => (none, (table.submit txn page mode).2)
  | .advance txn =>
      match table.pending[txn]? with
      | none => (none, table)
      | some request =>
          if request.asleep then (none, table)
          else
            let (verdict, table) := table.advance txn request
            (verdict.refusal?, table)
  | .expire txn =>
      match table.pending[txn]? with
      | none => (none, table)
      | some request =>
          let (verdict, table) := table.expire txn request
          (verdict.refusal?, table)
  | .releaseShared txn page => (none, (table.releaseShared txn page).toOption.getD table)
  | .releaseExclusive txn page => (none, (table.releaseExclusive txn page).toOption.getD table)
  | .release txn page => (none, (table.release txn page).2)
  | .releaseAll txn => (none, table.releaseAll txn)
  | .reclaim page => (none, (table.reclaim page).2)

/-- The event may happen now: a transaction that makes a request has none outstanding. -/
def Admits (table : LockTable) : LockEvent → Prop
  | .submit txn .. => table.pending[txn]? = none
  | _ => True

instance (table : LockTable) (event : LockEvent) : Decidable (table.Admits event) :=
  match event with
  | .submit .. => inferInstanceAs (Decidable (_ = _))
  | .advance _ | .expire _ | .releaseShared .. | .releaseExclusive .. | .release .. | .releaseAll _
  | .reclaim _ => isTrue trivial

end LockTable

/-- An event, and the lock table that it happened to. -/
structure LockMoment where
  table : LockTable
  event : LockEvent

namespace LockMoment

/-- The lock table after the event. -/
def after (moment : LockMoment) : LockTable :=
  (moment.table.perform moment.event).2

/-- Why the event refused a request, if it did. -/
def refusal? (moment : LockMoment) : Option Refusal :=
  (moment.table.perform moment.event).1

/-- The event refuses the exclusive request of the transaction for the page. -/
def RefusesUpgrade (moment : LockMoment) (txn : TxnId) (page : PageId) : Prop :=
  (moment.event = .advance txn ∨ moment.event = .expire txn) ∧ moment.refusal?.isSome ∧
    ∃ request, moment.table.pending[txn]? = some request ∧ request.page = page ∧
      request.mode = .exclusive

end LockMoment

/-- The runs of a lock table, with their histories. -/
inductive LockTable.Run (start : LockTable) : List LockMoment → LockTable → Prop where
  | start : Run start [] start
  | step {history : List LockMoment} {table : LockTable} {event : LockEvent} :
      Run start history table → table.Admits event →
      Run start (history ++ [⟨table, event⟩]) (table.perform event).2

/-- A run that was taken one event further. -/
theorem LockTable.Run.of_concat {history : List LockMoment} {moment : LockMoment}
    {start table : LockTable} (hrun : Run start (history ++ [moment]) table) :
    Run start history moment.table ∧ moment.table.Admits moment.event ∧ moment.after = table := by
  generalize hfull : history ++ [moment] = full at hrun
  cases hrun with
  | start => simp at hfull
  | step hrun hadmits =>
      obtain ⟨rfl, hlast⟩ := List.append_inj' hfull rfl
      obtain rfl := List.singleton_inj.mp hlast
      exact ⟨hrun, hadmits, rfl⟩

/-- A run reaches what each of its events leaves. -/
theorem LockTable.Run.reached {history : List LockMoment} {moment : LockMoment}
    {start table : LockTable} (hrun : Run start history table) (hmoment : moment ∈ history) :
    ∃ earlier, Run start (earlier ++ [moment]) moment.after := by
  induction hrun with
  | start => simp at hmoment
  | step hrun hadmits ih =>
      rcases List.mem_append.mp hmoment with hearlier | hlast
      · exact ih hearlier
      · rw [List.mem_singleton.mp hlast]
        exact ⟨_, hrun.step hadmits⟩

/-- Let events happen one after the other, as long as each may happen. -/
def LockTable.replay (table : LockTable) (history : List LockMoment) :
    List LockEvent → Option (List LockMoment × LockTable)
  | [] => some (history, table)
  | event :: rest =>
      if table.Admits event then
        replay (table.perform event).2 (history ++ [⟨table, event⟩]) rest
      else none

/-- Events that may happen one after the other make a run. -/
theorem LockTable.Run.of_replay {start table last : LockTable} {history full : List LockMoment}
    {events : List LockEvent} (hrun : Run start history table)
    (h : table.replay history events = some (full, last)) : Run start full last := by
  induction events generalizing table history with
  | nil =>
      simp only [replay, Option.some.injEq, Prod.mk.injEq] at h
      obtain ⟨rfl, rfl⟩ := h
      exact hrun
  | cons event rest ih =>
      simp only [replay] at h
      split at h
      · rename_i hadmits
        exact ih (.step hrun hadmits) h
      · simp at h

/-- What an event can do to a lock table. -/
inductive LockEffect (before : LockTable) : LockEvent → Option Refusal → LockTable → Prop where
  /-- Nothing changes. -/
  | quiet {event : LockEvent} {after : LockTable} :
      (∀ page, after.lockOf page = before.lockOf page) → after.pending = before.pending →
      after.graph = before.graph → LockEffect before event none after
  /-- A request that cannot be granted at once stays pending, awake. -/
  | announce {txn : TxnId} {page : PageId} {mode : LockMode} {after : LockTable} :
      before.pending[txn]? = none →
      (∀ other, after.lockOf other =
        if page = other then (before.lockOf page).announce txn mode else before.lockOf other) →
      (∀ other, after.pending[other]? =
        if txn = other then some ⟨page, mode, false⟩ else before.pending[other]?) →
      after.graph = before.graph → (before.lockOf page).canGrant txn mode = false →
      LockEffect before (.submit txn page mode) none after
  /-- A request is granted, at once or after it was pending. -/
  | grant {event : LockEvent} {txn : TxnId} {page : PageId} {mode : LockMode}
      {after : LockTable} :
      event.actor? = some txn →
      (∀ request, before.pending[txn]? = some request →
        request.page = page ∧ request.mode = mode) →
      (before.lockOf page).canGrant txn mode = true →
      (∀ other, after.lockOf other =
        if page = other then (before.lockOf page).grant txn mode else before.lockOf other) →
      (∀ other, after.pending[other]? =
        if txn = other then none else before.pending[other]?) →
      (∀ other, txn ≠ other → after.graph.edgesOf other = before.graph.edgesOf other) →
      LockEffect before event none after
  /-- A pending request has to wait, and is put to sleep. -/
  | sleep {event : LockEvent} {txn : TxnId} {request : PendingRequest} {after : LockTable} :
      before.pending[txn]? = some request →
      (∀ page, after.lockOf page = before.lockOf page) →
      (∀ other, after.pending[other]? =
        if txn = other then some { request with asleep := true } else before.pending[other]?) →
      (∀ other, txn ≠ other → after.graph.edgesOf other = before.graph.edgesOf other) →
      ⟨request.page, request.mode⟩ ∈ after.graph.edgesOf txn → after.isDeadlocked txn = false →
      (before.lockOf request.page).canGrant txn request.mode = false →
      LockEffect before event none after
  /-- A pending request is refused, and its upgrade is taken back. -/
  | refuse {event : LockEvent} {txn : TxnId} {request : PendingRequest} {reason : Refusal}
      {after : LockTable} :
      event = .advance txn ∨ event = .expire txn → before.pending[txn]? = some request →
      (∀ other, after.lockOf other =
        if request.page = other then (before.lockOf other).withdraw txn
        else before.lockOf other) →
      (∀ other, after.pending[other]? =
        if txn = other then none else before.pending[other]?) →
      (∀ other, txn ≠ other → after.graph.edgesOf other = before.graph.edgesOf other) →
      LockEffect before event (some reason) after
  /-- A pending request whose time is over could be granted by now, and is woken. -/
  | wake {event : LockEvent} {txn : TxnId} {request : PendingRequest} {after : LockTable} :
      before.pending[txn]? = some request →
      (∀ page, after.lockOf page = before.lockOf page) →
      (∀ other, after.pending[other]? =
        if txn = other then some { request with asleep := false } else before.pending[other]?) →
      after.graph = before.graph → LockEffect before event none after
  /-- A transaction gives up holds, and the requests for the locks that it gave up are woken. -/
  | release {event : LockEvent} (txn : TxnId) (released : PageId → Bool) {after : LockTable} :
      (∀ page, released page = false → after.lockOf page = before.lockOf page) →
      (∀ page, released page = true → (before.lockOf page).LeftBy txn (after.lockOf page)) →
      (∀ other : TxnId, after.pending[other]? = before.pending[other]?.map fun request =>
        { request with asleep := request.asleep && !released request.page }) →
      (∀ other, after.graph.edgesOf other = before.graph.edgesOf other ∨
        other = txn ∧ ∀ page mode, (after.lockOf page).holds txn mode = false) →
      (∀ page, released page = true → event.Releases txn page) →
      LockEffect before event none after

namespace LockState

variable {lock : LockState} {txn other : TxnId} {mode asked : LockMode}

theorem mem_upgrading_announce :
    other ∈ (lock.announce txn mode).upgrading ↔
      other ∈ lock.upgrading ∨ txn = other ∧ mode = .exclusive ∧ txn ∈ lock.shared := by
  simp only [announce]
  split
  · rename_i h
    simp [h, or_comm]
  · rename_i h
    simp only [not_and] at h
    simp only [iff_self_or, and_imp]
    exact fun _ hmode hshared => absurd hshared (h hmode)

/-- The upgrade that a request announces does not stand in its own way. -/
@[simp] theorem canGrant_announce : (lock.announce txn mode).canGrant txn mode =
    lock.canGrant txn mode := by
  simp only [canGrant, exclusive_announce, shared_announce]
  split
  · rfl
  · rfl
  · split
    · apply congrArg
      funext other
      rw [Bool.eq_iff_iff]
      simp only [Bool.or_eq_true, decide_eq_true_eq, mem_upgrading_announce]
      constructor
      · rintro (h | h | ⟨h, _⟩)
        · exact .inl h
        · exact .inr h
        · exact .inl h.symm
      · rintro (h | h)
        · exact .inl h
        · exact .inr (.inl h)
    · rfl

/-- A grant takes the announcement of its upgrade back. -/
@[simp] theorem grant_announce : (lock.announce txn mode).grant txn mode = lock.grant txn mode := by
  cases mode with
  | shared => rw [announce, if_neg (by simp)]
  | exclusive =>
      simp only [grant, shared_announce, mk.injEq, true_and]
      apply Std.ExtTreeSet.ext_mem
      intro other
      simp only [Std.ExtTreeSet.mem_erase, mem_upgrading_announce, ne_eq, Std.compare_eq_iff_eq]
      constructor
      · rintro ⟨hne, h | ⟨heq, _⟩⟩
        · exact ⟨hne, h⟩
        · exact absurd heq hne
      · exact fun h => ⟨h.1, .inl h.2⟩

/-- Giving up a shared hold leaves the other holds. -/
theorem leftBy_dropShared : lock.LeftBy txn (lock.dropShared txn) where
  exclusive := .inl rfl
  shared other h := (Std.ExtTreeSet.mem_erase.mp h).2
  others other h hne := by simpa [dropShared, hne.symm] using h
  upgrading other h := (Std.ExtTreeSet.mem_erase.mp h).2
  upgrades other hshared h :=
    Std.ExtTreeSet.mem_erase.mpr ⟨(Std.ExtTreeSet.mem_erase.mp hshared).1, h⟩
  consistent h := by
    refine ⟨?_, ?_⟩
    · intro other hother
      obtain ⟨hne, hother⟩ := Std.ExtTreeSet.mem_erase.mp hother
      exact Std.ExtTreeSet.mem_erase.mpr ⟨hne, h.upgrading other hother⟩
    · intro other howner hother
      exact h.apart other howner (Std.ExtTreeSet.mem_erase.mp hother).2

/-- Giving up the exclusive hold leaves the shared holds. -/
theorem leftBy_dropExclusive (howner : lock.exclusive = some txn) :
    lock.LeftBy txn lock.dropExclusive where
  exclusive := .inr ⟨howner, rfl⟩
  shared _ h := h
  others _ h _ := h
  upgrading _ h := h
  upgrades _ _ h := h
  consistent h := ⟨h.upgrading, by simp [dropExclusive]⟩

/-- Giving up every hold leaves the holds of the others. -/
theorem leftBy_drop : lock.LeftBy txn (lock.drop txn) := by
  by_cases howner : lock.exclusive = some txn
  · rw [drop_of_owner howner]
    have hshared : lock.LeftBy txn (lock.dropShared txn) := leftBy_dropShared
    exact { hshared with
      exclusive := .inr ⟨howner, rfl⟩
      consistent := fun h => ⟨(hshared.consistent h).upgrading, by simp [dropExclusive]⟩ }
  · rw [drop_of_not_owner howner]
    exact leftBy_dropShared

/-- Whoever did not hold a lock does not hold what is left of it. -/
theorem LeftBy.holds_eq_false {left : LockState} (h : lock.LeftBy txn left)
    (hbefore : lock.holds other mode = false) : left.holds other mode = false := by
  have howner : left.exclusive = some other → lock.exclusive = some other := by
    rcases h.exclusive with hsame | ⟨_, hnone⟩
    · simp [hsame]
    · simp [hnone]
  cases mode with
  | exclusive =>
      simp only [holds, decide_eq_false_iff_not] at hbefore ⊢
      exact mt howner hbefore
  | shared =>
      simp only [holds, Bool.or_eq_false_iff, decide_eq_false_iff_not] at hbefore ⊢
      exact ⟨mt howner hbefore.1, mt (h.shared other) hbefore.2⟩

/-- A transaction that holds nothing gives nothing up. -/
theorem drop_of_not_holds (hconsistent : lock.Consistent)
    (h : lock.holds txn .shared = false) : lock.drop txn = lock := by
  obtain ⟨howner, hshared⟩ : lock.exclusive ≠ some txn ∧ txn ∉ lock.shared := by
    simpa [holds] using h
  have hkept : ∀ holders : TxnSet, txn ∉ holders → holders.erase txn = holders := by
    intro holders hnone
    apply Std.ExtTreeSet.ext_mem
    intro other
    simp only [Std.ExtTreeSet.mem_erase, ne_eq, Std.compare_eq_iff_eq, and_iff_right_iff_imp]
    rintro hother rfl
    exact hnone hother
  rw [drop_of_not_owner howner, dropShared, hkept _ hshared,
    hkept _ fun h => hshared (hconsistent.upgrading txn h)]

/-- An idle lock is like one that has not been made. -/
theorem eq_of_isIdle (hconsistent : lock.Consistent) (h : lock.isIdle = true) : lock = {} := by
  obtain ⟨exclusive, shared, upgrading⟩ := lock
  simp only [isIdle, Bool.and_eq_true, Option.isNone_iff_eq_none, Std.ExtTreeSet.isEmpty_iff] at h
  obtain ⟨rfl, rfl⟩ := h
  have hnone : ∀ txn, txn ∉ upgrading := fun txn htxn => by
    simpa using hconsistent.upgrading txn htxn
  rw [Std.ExtTreeSet.eq_empty_iff_forall_not_mem.mpr hnone]

end LockState

namespace WaitGraph

variable {graph : WaitGraph} {txn other : TxnId} {page : PageId} {edge : WaitEdge}

theorem edgesOf_add_of_ne (hne : txn ≠ other) :
    (graph.add txn edge).edgesOf other = graph.edgesOf other := by
  simp only [add]
  split
  · rfl
  · simp [edgesOf, Std.ExtTreeMap.getD_insert, hne]

theorem edgesOf_add_self : (graph.add txn edge).edgesOf txn =
    if edge ∈ graph.edgesOf txn then graph.edgesOf txn else graph.edgesOf txn ++ [edge] := by
  simp only [add]
  split
  · rfl
  · exact Std.ExtTreeMap.getD_insert_self

theorem mem_edgesOf_add : edge ∈ (graph.add txn edge).edgesOf txn := by
  simp only [add]
  split
  · assumption
  · simp [edgesOf]

theorem edgesOf_remove_of_ne (hne : txn ≠ other) :
    (graph.remove txn page).edgesOf other = graph.edgesOf other := by
  simp only [remove]
  split
  · simp [edgesOf, Std.ExtTreeMap.getD_erase, hne]
  · simp [edgesOf, Std.ExtTreeMap.getD_insert, hne]

theorem edgesOf_remove_self : (graph.remove txn page).edgesOf txn =
    (graph.edgesOf txn).filter fun edge => edge.page ≠ page := by
  simp only [remove]
  split
  · rename_i hnone
    rw [hnone]
    exact Std.ExtTreeMap.getD_erase_self
  · exact Std.ExtTreeMap.getD_insert_self

@[simp] theorem edgesOf_removeAll_self : (graph.removeAll txn).edgesOf txn = [] :=
  Std.ExtTreeMap.getD_erase_self

theorem edgesOf_removeAll_of_ne (hne : txn ≠ other) :
    (graph.removeAll txn).edgesOf other = graph.edgesOf other := by
  simp [removeAll, edgesOf, Std.ExtTreeMap.getD_erase, hne]

end WaitGraph

namespace LockTable

variable {table : LockTable} {txn : TxnId}

/-- Every lock of the table is consistent. -/
def Consistent (table : LockTable) : Prop :=
  ∀ page, (table.lockOf page).Consistent

/-- What making a request does. -/
theorem submit_effect (hpending : table.pending[txn]? = none) (page : PageId) (mode : LockMode) :
    LockEffect table (.submit txn page mode) none (table.submit txn page mode).2 := by
  by_cases hholds : (table.lockOf page).holds txn mode = true
  · have hsubmit : table.submit txn page mode = (.granted, table.ensure page) := by
      simp only [submit, attempt, lockOf_ensure, hholds, if_true]
    rw [hsubmit]
    exact .quiet (fun _ => lockOf_ensure) rfl rfl
  · by_cases hgrant : (table.lockOf page).canGrant txn mode = true
    · have hsubmit : table.submit txn page mode =
          (.granted, (table.ensure page).setLock page ((table.lockOf page).grant txn mode)) := by
        simp only [submit, attempt, lockOf_ensure, hholds, Bool.false_eq_true, if_false,
          LockState.canGrant_announce, hgrant, if_true, LockState.grant_announce]
      rw [hsubmit]
      refine .grant rfl (by simp [hpending]) hgrant ?_ ?_ fun _ _ => rfl
      · intro other
        rw [lockOf_setLock, lockOf_ensure]
      · intro other
        split
        · rename_i heq
          exact heq ▸ hpending
        · rfl
    · have hsubmit : table.submit txn page mode = (.waits,
          { (table.ensure page).setLock page ((table.lockOf page).announce txn mode) with
            pending := table.pending.insert txn ⟨page, mode, false⟩ }) := by
        simp only [submit, attempt, lockOf_ensure, hholds, Bool.false_eq_true, if_false,
          LockState.canGrant_announce, hgrant]
        rfl
      rw [hsubmit]
      refine .announce hpending ?_ ?_ rfl (by simpa using hgrant)
      · intro other
        show ((table.ensure page).setLock page _).lockOf other = _
        rw [lockOf_setLock, lockOf_ensure]
      · intro other
        simp [Std.ExtTreeMap.getElem?_insert]

/-- What taking a pending request through a pass does. -/
theorem advance_effect {request : PendingRequest} (hpending : table.pending[txn]? = some request) :
    LockEffect table (.advance txn) (table.advance txn request).1.refusal?
      (table.advance txn request).2 := by
  obtain ⟨page, mode, asleep⟩ := request
  have hothers : ∀ other, txn ≠ other →
      (table.graph.add txn ⟨page, mode⟩).edgesOf other = table.graph.edgesOf other :=
    fun other hne => WaitGraph.edgesOf_add_of_ne hne
  cases hdeadlock :
      { table with graph := table.graph.add txn ⟨page, mode⟩ : LockTable }.isDeadlocked txn with
  | true =>
      simp only [advance, pass, waitOn, hdeadlock, if_true]
      refine .refuse (.inl rfl) hpending ?_ ?_ ?_
      · intro other
        show (setLock _ page _).lockOf other = _
        rw [lockOf_setLock]
        split
        · rename_i heq
          rw [← heq]
          rfl
        · rfl
      · intro other
        simp [Std.ExtTreeMap.getElem?_erase, withdraw, setLock]
      · intro other hne
        show ((table.graph.add txn ⟨page, mode⟩).remove txn page).edgesOf other = _
        rw [WaitGraph.edgesOf_remove_of_ne hne, hothers other hne]
  | false =>
      cases hgrant : (table.lockOf page).canGrant txn mode with
      | true =>
          have hgrant' :
              ({ table with graph := table.graph.add txn ⟨page, mode⟩ : LockTable }.lockOf
                page).canGrant txn mode = true := hgrant
          simp only [advance, pass, waitOn, hdeadlock, Bool.false_eq_true, if_false, hgrant',
            if_true]
          have hrequest : ∀ found, table.pending[txn]? = some found →
              found.page = page ∧ found.mode = mode := by
            intro found hfound
            rw [hpending, Option.some.injEq] at hfound
            subst hfound
            exact ⟨rfl, rfl⟩
          refine .grant rfl hrequest hgrant ?_ ?_ ?_
          · intro other
            show (setLock _ page _).lockOf other = _
            rw [lockOf_setLock]
            rfl
          · intro other
            simp [Std.ExtTreeMap.getElem?_erase, removeEdge, setLock]
          · intro other hne
            show ((table.graph.add txn ⟨page, mode⟩).remove txn page).edgesOf other = _
            rw [WaitGraph.edgesOf_remove_of_ne hne, hothers other hne]
      | false =>
          have hgrant' :
              ({ table with graph := table.graph.add txn ⟨page, mode⟩ : LockTable }.lockOf
                page).canGrant txn mode = false := hgrant
          simp only [advance, pass, waitOn, hdeadlock, Bool.false_eq_true, if_false, hgrant']
          refine .sleep hpending (fun _ => rfl) ?_ hothers WaitGraph.mem_edgesOf_add hdeadlock
            hgrant
          intro other
          simp [Std.ExtTreeMap.getElem?_insert]

/-- What ending a pending request does whose time is over. -/
theorem expire_effect {request : PendingRequest} (hpending : table.pending[txn]? = some request) :
    LockEffect table (.expire txn) (table.expire txn request).1.refusal?
      (table.expire txn request).2 := by
  simp only [expire]
  split
  · refine .wake hpending (fun _ => rfl) ?_ rfl
    intro other
    simp [Std.ExtTreeMap.getElem?_insert]
  · refine .refuse (.inr rfl) hpending ?_ ?_ ?_
    · intro other
      show (table.setLock request.page _).lockOf other = _
      rw [lockOf_setLock]
      split
      · rename_i heq
        rw [heq]
      · rfl
    · intro other
      simp [Std.ExtTreeMap.getElem?_erase, withdraw, removeEdge, setLock]
    · intro other hne
      exact WaitGraph.edgesOf_remove_of_ne hne

/-- A transaction gives up holds of one lock, and the requests for it are woken. -/
theorem setLock_effect {event : LockEvent} {page : PageId} {left : LockState}
    (hleft : (table.lockOf page).LeftBy txn left) (hevent : event.Releases txn page) :
    LockEffect table event none ((table.setLock page left).wake (· = page)) := by
  refine .release txn (fun other => other = page) ?_ ?_ ?_ (fun _ => .inl rfl) ?_
  · intro other hother
    rw [lockOf_wake, lockOf_setLock, if_neg]
    simpa [eq_comm] using hother
  · intro other hother
    rw [decide_eq_true_eq] at hother
    subst hother
    rwa [lockOf_wake, lockOf_setLock, if_pos rfl]
  · intro other
    simp [wake, setLock, Std.ExtTreeMap.getElem?_map]
  · intro other hother
    rwa [of_decide_eq_true hother]

/-- What giving up everything does. -/
theorem releaseAll_effect (hconsistent : table.Consistent) (txn : TxnId) :
    LockEffect table (.releaseAll txn) none (table.releaseAll txn) := by
  refine .release txn (fun page => (table.lockOf page).holds txn .shared) ?_ ?_ ?_ ?_
    fun _ _ => .inr (.inr (.inr rfl))
  · intro page hpage
    rw [lockOf_releaseAll, LockState.drop_of_not_holds (hconsistent page) hpage]
  · intro page _
    rw [lockOf_releaseAll]
    exact LockState.leftBy_drop
  · intro other
    simp only [releaseAll, wake, Std.ExtTreeMap.getElem?_map]
  · intro other
    by_cases hother : txn = other
    · subst hother
      refine .inr ⟨rfl, fun page mode => ?_⟩
      rw [lockOf_releaseAll, ← Bool.not_eq_true, LockState.holds_drop]
      simp
    · exact .inl (WaitGraph.edgesOf_removeAll_of_ne hother)

/-- What removing a lock does: nothing that the table shows. -/
theorem reclaim_effect (hconsistent : table.Consistent) (page : PageId) :
    LockEffect table (.reclaim page) none (table.reclaim page).2 := by
  refine .quiet ?_ ?_ ?_
  · intro other
    rcases @lockOf_reclaim table page other with hsame | ⟨_, hidle, hnew⟩
    · exact hsame
    · rw [hnew, LockState.eq_of_isIdle (hconsistent other) hidle]
  · simp only [reclaim]
    split <;> rfl
  · simp only [reclaim]
    split <;> rfl

/-- Every event that may happen has an effect. -/
theorem perform_effect (hconsistent : table.Consistent) {event : LockEvent}
    (hadmits : table.Admits event) :
    LockEffect table event (table.perform event).1 (table.perform event).2 := by
  have hquiet : LockEffect table event none table := .quiet (fun _ => rfl) rfl rfl
  cases event with
  | submit txn page mode => exact submit_effect hadmits page mode
  | advance txn =>
      simp only [perform]
      split
      · exact hquiet
      · rename_i request hpending
        split
        · exact hquiet
        · exact advance_effect hpending
  | expire txn =>
      simp only [perform]
      split
      · exact hquiet
      · rename_i request hpending
        exact expire_effect hpending
  | releaseShared txn page =>
      simp only [perform, releaseShared]
      split
      · exact setLock_effect LockState.leftBy_dropShared (.inl rfl)
      · exact hquiet
  | releaseExclusive txn page =>
      simp only [perform, releaseExclusive]
      split
      · rename_i howner
        exact setLock_effect (LockState.leftBy_dropExclusive howner) (.inr (.inl rfl))
      · exact hquiet
  | release txn page =>
      simp only [perform, release]
      split
      · exact setLock_effect LockState.leftBy_drop (.inr (.inr (.inl rfl)))
      · exact hquiet
  | releaseAll txn => exact releaseAll_effect hconsistent txn
  | reclaim page => exact reclaim_effect hconsistent page

end LockTable

end RowStore
