import RowStore.Proofs.Lock.Cycle
import RowStore.Proofs.Lock.Pending

/-!
# A refused request leaves no trace

A request announces its upgrade and records an edge in the graph before anybody knows how it ends,
and it can be refused in two places: when it would close a cycle, and when its time is over. Both
take back what the request has added. If nobody else did anything in the meantime, the locks and
the graph are as they were before the request. If others did, the transaction still holds what it
held, and has no upgrade announced and no edge, just as before.

That nothing else is left rests on two invariants: who has announced an upgrade waits for it, and
who has an edge waits with the request that the edge stands for.
-/

namespace RowStore

namespace LockState

variable {lock left : LockState} {txn other : TxnId} {mode : LockMode}

/-- An upgrade that is announced and taken back leaves a lock as it was. -/
theorem withdraw_announce (h : txn ∉ lock.upgrading) :
    (lock.announce txn mode).withdraw txn = lock := by
  obtain ⟨exclusive, shared, upgrading⟩ := lock
  have hset : ((LockState.mk exclusive shared upgrading).announce txn mode).upgrading.erase txn =
      upgrading := by
    apply Std.ExtTreeSet.ext_mem
    intro other
    simp only [Std.ExtTreeSet.mem_erase, ne_eq, Std.compare_eq_iff_eq, mem_upgrading_announce]
    constructor
    · rintro ⟨hne, hother | ⟨hsame, _⟩⟩
      · exact hother
      · exact absurd hsame hne
    · exact fun hother => ⟨fun hsame => h (hsame ▸ hother), .inl hother⟩
  rw [withdraw, exclusive_announce, shared_announce, hset]

/-- The transaction has the same holds in both states of a lock. -/
structure HeldAlike (txn : TxnId) (lock left : LockState) : Prop where
  exclusive : left.exclusive = some txn ↔ lock.exclusive = some txn
  shared : txn ∈ left.shared ↔ txn ∈ lock.shared

namespace HeldAlike

theorem refl : HeldAlike txn lock lock := ⟨.rfl, .rfl⟩

theorem trans {last : LockState} (hfirst : HeldAlike txn lock left)
    (hrest : HeldAlike txn left last) : HeldAlike txn lock last :=
  ⟨hrest.exclusive.trans hfirst.exclusive, hrest.shared.trans hfirst.shared⟩

/-- An announcement gives nothing and takes nothing. -/
theorem announce : HeldAlike txn lock (lock.announce other mode) := by
  refine ⟨?_, ?_⟩
  · rw [exclusive_announce]
  · rw [shared_announce]

/-- A grant to another transaction takes nothing. -/
theorem grant (hgrant : lock.canGrant other mode = true) (hne : other ≠ txn) :
    HeldAlike txn lock (lock.grant other mode) := by
  cases mode with
  | shared =>
      simp only [LockState.grant]
      split
      · exact refl
      · exact ⟨.rfl, by simp [hne]⟩
  | exclusive =>
      refine ⟨?_, by simp [LockState.grant, hne]⟩
      rcases exclusive_of_canGrant hgrant with hnone | howner
      · simp [LockState.grant, hnone, hne]
      · simp [LockState.grant, howner]

/-- What another transaction gives up is not the transaction's own. -/
theorem of_leftBy (h : lock.LeftBy other left) (hne : other ≠ txn) : HeldAlike txn lock left := by
  refine ⟨?_, h.shared txn, fun hshared => h.others txn hshared hne.symm⟩
  rcases h.exclusive with hsame | ⟨howner, hnone⟩
  · rw [hsame]
  · simp [howner, hnone, hne]

end HeldAlike

end LockState

namespace LockTable

variable {table before after : LockTable} {txn other : TxnId} {page : PageId} {mode : LockMode}
  {event : LockEvent} {history : List LockMoment}

/-- What becomes of the pending request of a transaction when it is taken through a pass, or when
its time is over. -/
inductive Progress (table : LockTable) (txn : TxnId) : Option Refusal → LockTable → Prop where
  | idle : Progress table txn none table
  | waits {request : PendingRequest} {asleep : Bool} {after : LockTable} :
      table.pending[txn]? = some request → (∀ page, after.lockOf page = table.lockOf page) →
      (∀ other, after.pending[other]? =
        if txn = other then some { request with asleep } else table.pending[other]?) →
      (after.graph.edgesOf = table.graph.edgesOf ∨
        after.graph.edgesOf = table.graph.edgesWith txn ⟨request.page, request.mode⟩) →
      Progress table txn none after
  | granted {request : PendingRequest} {after : LockTable} :
      table.pending[txn]? = some request →
      (∀ other, after.pending[other]? = if txn = other then none else table.pending[other]?) →
      after.graph.edgesOf = table.graph.edgesWithout txn request.page →
      Progress table txn none after
  | refused {request : PendingRequest} {reason : Refusal} {after : LockTable} :
      table.pending[txn]? = some request →
      (∀ other, after.lockOf other = if request.page = other then (table.lockOf other).withdraw txn
        else table.lockOf other) →
      (∀ other, after.pending[other]? = if txn = other then none else table.pending[other]?) →
      after.graph.edgesOf = table.graph.edgesWithout txn request.page →
      Progress table txn (some reason) after

/-- The lock of a page from which an upgrade is taken back. -/
theorem lockOf_withdraw (target : PageId) : (table.withdraw txn page).lockOf target =
    if page = target then (table.lockOf target).withdraw txn else table.lockOf target := by
  rw [withdraw, lockOf_setLock]
  split
  · rename_i hsame
    rw [hsame]
  · rfl

/-- A pass takes the request of a transaction further. -/
theorem advance_progress {request : PendingRequest}
    (hpending : table.pending[txn]? = some request) :
    Progress table txn (table.advance txn request).1.refusal? (table.advance txn request).2 := by
  obtain ⟨page, mode, asleep⟩ := request
  let waiting : LockTable := { table with graph := table.graph.add txn ⟨page, mode⟩ }
  cases hdeadlock : waiting.isDeadlocked txn with
  | true =>
      have hadvance : table.advance txn ⟨page, mode, asleep⟩ = (.refused .deadlock,
          { (waiting.removeEdge txn page).withdraw txn page with
            pending := table.pending.erase txn }) := by
        simp only [advance, pass, waitOn, waiting, hdeadlock, if_true]
        rfl
      rw [hadvance]
      refine .refused hpending (fun other => lockOf_withdraw other) ?_ WaitGraph.edgesOf_remove_add
      intro other
      simp [Std.ExtTreeMap.getElem?_erase]
  | false =>
      cases hgrant : (waiting.lockOf page).canGrant txn mode with
      | true =>
          have hadvance : table.advance txn ⟨page, mode, asleep⟩ = (.granted,
              { (waiting.setLock page
                  ((waiting.lockOf page).grant txn mode)).removeEdge txn page with
                pending := table.pending.erase txn }) := by
            simp only [advance, pass, waitOn, waiting, hdeadlock, hgrant, Bool.false_eq_true,
              if_false, if_true]
            rfl
          rw [hadvance]
          refine .granted hpending ?_ WaitGraph.edgesOf_remove_add
          intro other
          simp [Std.ExtTreeMap.getElem?_erase]
      | false =>
          have hadvance : table.advance txn ⟨page, mode, asleep⟩ = (.waits,
              { waiting with pending := table.pending.insert txn ⟨page, mode, true⟩ }) := by
            simp only [advance, pass, waitOn, waiting, hdeadlock, hgrant, Bool.false_eq_true,
              if_false]
          rw [hadvance]
          refine @Progress.waits _ _ _ true _ hpending (fun _ => rfl) ?_
            (.inr WaitGraph.edgesOf_add)
          intro other
          simp [Std.ExtTreeMap.getElem?_insert]

/-- When the time of a request is over, it is refused or goes on. -/
theorem expire_progress {request : PendingRequest} (hpending : table.pending[txn]? = some request) :
    Progress table txn (table.expire txn request).1.refusal? (table.expire txn request).2 := by
  simp only [expire]
  split
  · refine @Progress.waits _ _ _ false _ hpending (fun _ => rfl) ?_ (.inl rfl)
    intro other
    simp [Std.ExtTreeMap.getElem?_insert]
  · refine .refused hpending (fun other => lockOf_withdraw other) ?_ WaitGraph.edgesOf_remove
    intro other
    simp [Std.ExtTreeMap.getElem?_erase, withdraw, removeEdge, setLock]

/-- Whatever a transaction does while it waits takes its request further. -/
theorem perform_progress (hevent : event = .advance txn ∨ event = .expire txn) :
    Progress table txn (table.perform event).1 (table.perform event).2 := by
  rcases hevent with rfl | rfl
  · simp only [perform]
    split
    · exact .idle
    · rename_i request hpending
      split
      · exact .idle
      · exact advance_progress hpending
  · simp only [perform]
    split
    · exact .idle
    · rename_i request hpending
      exact expire_progress hpending

/-- Whoever has an edge in the graph waits with the request that the edge stands for. -/
def Recorded (table : LockTable) : Prop :=
  ∀ txn, ∀ edge ∈ table.graph.edgesOf txn,
    ∃ request, table.pending[txn]? = some request ∧ edge = ⟨request.page, request.mode⟩

namespace Recorded

/-- Whoever does not wait has no edge. -/
theorem edgesOf_eq_nil (hrecorded : table.Recorded) (hnone : table.pending[txn]? = none) :
    table.graph.edgesOf txn = [] := by
  rw [List.eq_nil_iff_forall_not_mem]
  intro edge hedge
  obtain ⟨request, hrequest, _⟩ := hrecorded txn edge hedge
  simp [hnone] at hrequest

/-- Edges stay recorded if those who have some go on waiting for the same. -/
theorem of_kept (hrecorded : before.Recorded)
    (hedges : ∀ txn, ∀ edge ∈ after.graph.edgesOf txn, edge ∈ before.graph.edgesOf txn)
    (hpending : ∀ txn, after.graph.edgesOf txn ≠ [] → ∀ request : PendingRequest,
      before.pending[txn]? = some request →
      ∃ found, after.pending[txn]? = some found ∧ found.page = request.page ∧
        found.mode = request.mode) : after.Recorded := by
  intro txn edge hedge
  obtain ⟨request, hrequest, rfl⟩ := hrecorded txn edge (hedges txn edge hedge)
  obtain ⟨found, hfound, hpage, hmode⟩ :=
    hpending txn (List.ne_nil_of_mem hedge) request hrequest
  exact ⟨found, hfound, by rw [hpage, hmode]⟩

/-- The progress of a request keeps the edges recorded. -/
theorem progress {refusal : Option Refusal} (hrecorded : before.Recorded)
    (h : Progress before txn refusal after) : after.Recorded := by
  have hended : ∀ {request : PendingRequest} {after : LockTable},
      before.pending[txn]? = some request →
      (∀ other, after.pending[other]? = if txn = other then none else before.pending[other]?) →
      after.graph.edgesOf = before.graph.edgesWithout txn request.page → after.Recorded := by
    intro request after hpending hrest hedges other edge hedge
    rw [hedges, WaitGraph.edgesWithout] at hedge
    split at hedge
    · rename_i hsame
      subst hsame
      obtain ⟨hedge, hother⟩ := List.mem_filter.mp hedge
      obtain ⟨found, hfound, rfl⟩ := hrecorded txn edge hedge
      obtain rfl := Option.some.inj (hpending.symm.trans hfound)
      simp at hother
    · rename_i hne
      rw [hrest other, if_neg hne]
      exact hrecorded other edge hedge
  cases h with
  | idle => exact hrecorded
  | granted hpending hrest hedges => exact hended hpending hrest hedges
  | refused hpending _ hrest hedges => exact hended hpending hrest hedges
  | @waits request asleep _ hpending _ hrest hedges =>
      intro other edge hedge
      have hknown : edge ∈ before.graph.edgesOf other ∨
          txn = other ∧ edge = ⟨request.page, request.mode⟩ := by
        rcases hedges with hsame | hmore
        · exact .inl (hsame ▸ hedge)
        · rw [hmore, WaitGraph.edgesWith] at hedge
          split at hedge
          · rename_i hnew
            exact (List.mem_append.mp hedge).imp_right
              fun hlast => ⟨hnew.1, List.mem_singleton.mp hlast⟩
          · exact .inl hedge
      rw [hrest other]
      split
      · rename_i hsame
        subst hsame
        refine ⟨_, rfl, ?_⟩
        rcases hknown with hold | ⟨_, hnew⟩
        · obtain ⟨found, hfound, rfl⟩ := hrecorded txn edge hold
          obtain rfl := Option.some.inj (hpending.symm.trans hfound)
          rfl
        · exact hnew
      · rename_i hne
        exact hrecorded other edge (hknown.resolve_right fun h => hne h.1)

/-- Waking requests keeps the edges recorded, whatever happens to the locks. -/
theorem wake (hrecorded : table.Recorded) (locks : PageMap LockState) (released : PageId → Bool) :
    ({ table with locks }.wake released).Recorded := by
  refine hrecorded.of_kept (fun _ _ hedge => hedge) fun txn _ request hrequest => ?_
  exact ⟨{ request with asleep := request.asleep && !released request.page },
    by simp [LockTable.wake, hrequest], rfl, rfl⟩

/-- Making a request records no edge. -/
theorem submit (hrecorded : table.Recorded) (hnone : table.pending[txn]? = none) (page : PageId)
    (mode : LockMode) : (table.submit txn page mode).2.Recorded := by
  have hattempt : (table.attempt txn page mode).2.graph = table.graph := by
    simp only [attempt]
    split
    · rfl
    · split <;> rfl
  have hgraph : (table.submit txn page mode).2.graph = table.graph := by
    rw [← hattempt]
    simp only [LockTable.submit]
    split <;> rename_i hattempted <;> rw [hattempted]
  refine hrecorded.of_kept (fun _ _ hedge => hgraph ▸ hedge) fun other _ request hrequest => ?_
  refine (submit_effect hnone page mode).pending_of_actor ?_ hrequest
  intro hactor
  obtain rfl : txn = other := Option.some.inj hactor
  simp [hnone] at hrequest

/-- Every event keeps the edges recorded. -/
theorem perform (hrecorded : table.Recorded) (hadmits : table.Admits event) :
    (table.perform event).2.Recorded := by
  cases event with
  | submit txn page mode => exact hrecorded.submit hadmits page mode
  | advance txn => exact hrecorded.progress (perform_progress (.inl rfl))
  | expire txn => exact hrecorded.progress (perform_progress (.inr rfl))
  | releaseShared txn page =>
      simp only [LockTable.perform, releaseShared]
      split
      · exact hrecorded.wake (table.setLock page ((table.lockOf page).dropShared txn)).locks
          (· = page)
      · exact hrecorded
  | releaseExclusive txn page =>
      simp only [LockTable.perform, releaseExclusive]
      split
      · exact hrecorded.wake (table.setLock page (table.lockOf page).dropExclusive).locks (· = page)
      · exact hrecorded
  | release txn page =>
      simp only [LockTable.perform, release]
      split
      · exact hrecorded.wake (table.setLock page ((table.lockOf page).drop txn)).locks (· = page)
      · exact hrecorded
  | releaseAll txn =>
      have hleft : { table with graph := table.graph.removeAll txn }.Recorded := by
        refine hrecorded.of_kept (fun other edge hedge => ?_)
          fun other _ request hrequest => ⟨request, hrequest, rfl, rfl⟩
        by_cases hother : txn = other
        · subst hother
          simp at hedge
        · rwa [WaitGraph.edgesOf_removeAll_of_ne hother] at hedge
      exact hleft.wake _ _
  | reclaim page =>
      simp only [LockTable.perform, reclaim]
      split <;> exact hrecorded

end Recorded

/-- In every reachable table, whoever has an edge waits with the request for it. -/
theorem Run.recorded (hrun : Run {} history table) : table.Recorded := by
  induction hrun with
  | start => exact fun txn edge hedge => by simp [WaitGraph.edgesOf] at hedge
  | step _ hadmits ih => exact ih.perform hadmits

/-- The transaction has made a request that has to wait. All that this has done to the locks and to
the edges of others is to announce the upgrade. -/
structure Asked (txn : TxnId) (page : PageId) (mode : LockMode) (before after : LockTable) :
    Prop where
  pending : ∃ request, after.pending[txn]? = some request ∧ request.page = page
  locks : ∀ other, after.lockOf other =
    if page = other then (before.lockOf other).announce txn mode else before.lockOf other
  edges : ∀ other, txn ≠ other → after.graph.edgesOf other = before.graph.edgesOf other

end LockTable

namespace LockEffect

variable {before after : LockTable} {event : LockEvent} {refusal : Option Refusal} {txn : TxnId}

/-- A transaction comes to wait only by a request of its own. -/
theorem pending_none_or_asked (heffect : LockEffect before event refusal after)
    (hnone : before.pending[txn]? = none) : after.pending[txn]? = none ∨
      ∃ page mode, event = .submit txn page mode ∧ LockTable.Asked txn page mode before after := by
  cases heffect with
  | quiet _ hsame => exact .inl (hsame ▸ hnone)
  | @announce asker page mode _ _ hlocks hrest hgraph =>
      by_cases hasker : asker = txn
      · subst hasker
        refine .inr ⟨page, mode, rfl, ⟨_, by rw [hrest asker, if_pos rfl], rfl⟩, ?_, ?_⟩
        · intro other
          rw [hlocks other]
          split
          · rename_i hpage
            rw [hpage]
          · rfl
        · exact fun other _ => by rw [hgraph]
      · exact .inl (by rw [hrest txn, if_neg hasker, hnone])
  | grant _ _ _ _ hrest | refuse _ _ _ hrest =>
      left
      rw [hrest txn, hnone, ite_self]
  | @sleep _ asker _ _ hrequest _ hrest | @wake _ asker _ _ hrequest _ hrest =>
      have hasker : asker ≠ txn := by
        rintro rfl
        simp [hnone] at hrequest
      exact .inl (by rw [hrest txn, if_neg hasker, hnone])
  | release _ _ _ _ hrest => exact .inl (by rw [hrest txn, hnone, Option.map_none])

/-- While a transaction waits it holds what it holds, until its request is granted. -/
theorem heldAlike_or_granted (heffect : LockEffect before event refusal after)
    (hevent : event.actor? = some txn → event = .advance txn ∨ event = .expire txn) :
    (∀ page, (before.lockOf page).HeldAlike txn (after.lockOf page)) ∨
      after.pending[txn]? = none ∧ refusal = none := by
  cases heffect with
  | quiet hlocks | sleep _ hlocks | wake _ hlocks =>
      exact .inl fun page => hlocks page ▸ .refl
  | announce _ hlocks =>
      refine .inl fun page => ?_
      rw [hlocks page]
      split
      · rename_i hpage
        exact hpage ▸ .announce
      · exact .refl
  | @grant _ asker target mode _ _ _ hgrant hlocks hrest =>
      by_cases hasker : asker = txn
      · exact .inr ⟨by rw [hrest txn, if_pos hasker], rfl⟩
      · refine .inl fun page => ?_
        rw [hlocks page]
        split
        · rename_i hpage
          exact hpage ▸ .grant hgrant hasker
        · exact .refl
  | refuse _ _ hlocks =>
      refine .inl fun page => ?_
      rw [hlocks page]
      split
      · exact ⟨.rfl, .rfl⟩
      · exact .refl
  | release asker released hkept hleft _ _ hreleases =>
      refine .inl fun page => ?_
      cases hreleased : released page with
      | false => exact hkept page hreleased ▸ .refl
      | true =>
          refine .of_leftBy (hleft page hreleased) ?_
          rintro rfl
          rcases hreleases page hreleased with rfl | rfl | rfl | rfl <;>
            simp [LockEvent.actor?] at hevent

end LockEffect

namespace LockTable

variable {table before after : LockTable} {txn : TxnId} {page : PageId} {mode : LockMode}
  {earlier between : List LockMoment}

/-- An event of a run happens to a table that a run reaches, and may happen there. -/
theorem Run.upTo {start : LockTable} {moment : LockMoment} {later : List LockMoment}
    (hrun : Run start (earlier ++ moment :: later) table) :
    Run start earlier moment.table ∧ moment.table.Admits moment.event := by
  induction later using List.reverseRecOn generalizing table with
  | nil =>
      obtain ⟨hbefore, hadmits, _⟩ := hrun.of_concat
      exact ⟨hbefore, hadmits⟩
  | append_singleton later last ih =>
      rw [← List.cons_append, ← List.append_assoc] at hrun
      exact ih hrun.of_concat.1

/-- What holds of a table when a request has been made that has to wait, and is kept by each event
while it does, holds until the request ends. In the meantime, the transaction does nothing but
take its request further. -/
theorem Run.while_pending {motive : LockTable → Prop}
    (hrun : Run {} (earlier ++ ⟨before, .submit txn page mode⟩ :: between) table)
    (hbetween : ∀ moment ∈ between, moment.event.actor? = some txn →
      moment.event = .advance txn ∨ moment.event = .expire txn)
    (hstart : ∀ after, Asked txn page mode before after → motive after)
    (hstep : ∀ moment ∈ between,
      LockEffect moment.table moment.event moment.refusal? moment.after → motive moment.table →
      moment.after.pending[txn]? = none ∨ motive moment.after) :
    table.pending[txn]? = none ∨ motive table := by
  induction between using List.reverseRecOn generalizing table with
  | nil =>
      obtain ⟨hbefore, hadmits, rfl⟩ := hrun.of_concat
      have heffect := perform_effect hbefore.regular.consistent hadmits
      refine (heffect.pending_none_or_asked hadmits).imp_right ?_
      rintro ⟨_, _, hevent, hasked⟩
      obtain ⟨_, rfl, rfl⟩ := LockEvent.submit.inj hevent
      exact hstart _ hasked
  | append_singleton between moment ih =>
      rw [← List.cons_append, ← List.append_assoc] at hrun
      obtain ⟨hbefore, hadmits, rfl⟩ := hrun.of_concat
      have hmember : moment ∈ between ++ [moment] := by simp
      have heffect : LockEffect moment.table moment.event moment.refusal? moment.after :=
        perform_effect hbefore.regular.consistent hadmits
      rcases ih hbefore (fun past hpast => hbetween past (List.mem_append_left _ hpast))
          (fun past hpast => hstep past (List.mem_append_left _ hpast)) with hnone | hkept
      · refine .inl ((heffect.pending_none_or_asked hnone).resolve_right ?_)
        rintro ⟨_, _, hevent, _⟩
        have hown := hbetween moment hmember
        simp [hevent, LockEvent.actor?] at hown
      · exact hstep moment hmember heffect hkept

/-- The progress of a request that goes on waiting leaves the locks as they are, and the edges of
others. -/
theorem Asked.progress {after last : LockTable} {refusal : Option Refusal}
    (hasked : Asked txn page mode before after) (h : Progress after txn refusal last) :
    last.pending[txn]? = none ∨ Asked txn page mode before last := by
  cases h with
  | idle => exact .inr hasked
  | granted _ hrest | refused _ _ hrest => exact .inl (by rw [hrest txn, if_pos rfl])
  | @waits request asleep _ hrequest hlocks hrest hedges =>
      obtain ⟨found, hfound, hpage⟩ := hasked.pending
      obtain rfl := Option.some.inj (hrequest.symm.trans hfound)
      refine .inr ⟨⟨{ request with asleep }, by rw [hrest txn, if_pos rfl], hpage⟩, ?_, ?_⟩
      · exact fun other => (hlocks other).trans (hasked.locks other)
      · intro other hne
        refine Eq.trans ?_ (hasked.edges other hne)
        rcases hedges with hsame | hmore
        · rw [hsame]
        · simp [hmore, WaitGraph.edgesWith, hne]

/-- A refusal takes back the announcement of the upgrade, and leaves the locks and the edges of
others as they were before the request. -/
theorem Asked.refused {after last : LockTable} {reason : Refusal}
    (hasked : Asked txn page mode before after) (hnone : ∀ target,
      txn ∉ (before.lockOf target).upgrading) (h : Progress after txn (some reason) last) :
    (∀ target, last.lockOf target = before.lockOf target) ∧
      ∀ other, txn ≠ other → last.graph.edgesOf other = before.graph.edgesOf other := by
  cases h with
  | refused hrequest hlocks _ hedges =>
      obtain ⟨found, hfound, hpage⟩ := hasked.pending
      obtain rfl := Option.some.inj (hrequest.symm.trans hfound)
      refine ⟨fun target => ?_, fun other hne => ?_⟩
      · rw [hlocks target, hasked.locks target, hpage]
        split
        · exact LockState.withdraw_announce (hnone target)
        · rfl
      · rw [hedges, WaitGraph.edgesWithout, if_neg hne]
        exact hasked.edges other hne

/-- Whoever is refused waits before and does not wait afterwards. -/
theorem Progress.pending_of_refused {reason : Refusal} {after : LockTable}
    (h : Progress table txn (some reason) after) :
    table.pending[txn]? ≠ none ∧ after.pending[txn]? = none := by
  cases h with
  | refused hrequest _ hrest => exact ⟨by simp [hrequest], by rw [hrest txn, if_pos rfl]⟩

/-- Whoever does not wait has no upgrade announced. -/
theorem Regular.not_mem_upgrading (hregular : table.Regular) (hnone : table.pending[txn]? = none)
    (target : PageId) : txn ∉ (table.lockOf target).upgrading := by
  intro hupgrading
  obtain ⟨request, hrequest, _⟩ := hregular.upgrading target txn hupgrading
  simp [hnone] at hrequest

/-- A refused request leaves no trace. Take any reachable state in which a transaction makes a
request, and any way in which this is refused: because it would close a cycle, or because its time
is over. If nobody else did anything in the meantime, every lock and every edge of the graph is as
it was before the request. If others did, the transaction holds what it held, exclusively or
shared, has announced the upgrades that it had announced, and has the edges that it had. -/
theorem refused_without_trace {after : LockTable} {last : LockMoment}
    (hrun : Run {} (earlier ++ ⟨before, .submit txn page mode⟩ :: between ++ [last]) after)
    (hbetween : ∀ moment ∈ between, moment.event.actor? = some txn →
      moment.event = .advance txn ∨ moment.event = .expire txn)
    (hlast : last.event = .advance txn ∨ last.event = .expire txn)
    (hrefused : last.refusal?.isSome = true) :
    ((∀ moment ∈ between, moment.event.actor? = some txn) →
      (∀ target, after.lockOf target = before.lockOf target) ∧
        ∀ other, after.graph.edgesOf other = before.graph.edgesOf other) ∧
    (∀ target, ((after.lockOf target).exclusive = some txn ↔
        (before.lockOf target).exclusive = some txn) ∧
      (txn ∈ (after.lockOf target).shared ↔ txn ∈ (before.lockOf target).shared) ∧
      (txn ∈ (after.lockOf target).upgrading ↔ txn ∈ (before.lockOf target).upgrading)) ∧
    after.graph.edgesOf txn = before.graph.edgesOf txn := by
  obtain ⟨hpaused, hadmits, rfl⟩ := hrun.of_concat
  obtain ⟨hbefore, hnone⟩ := hpaused.upTo
  obtain ⟨reason, hreason⟩ := Option.isSome_iff_exists.mp hrefused
  have hprogress : Progress last.table txn (some reason) last.after :=
    hreason ▸ perform_progress hlast
  obtain ⟨hwaits, hended⟩ := hprogress.pending_of_refused
  have hidle := hbefore.regular.not_mem_upgrading hnone
  have hidle' := hrun.regular.not_mem_upgrading hended
  have hedges : last.after.graph.edgesOf txn = before.graph.edgesOf txn := by
    rw [hrun.recorded.edgesOf_eq_nil hended, hbefore.recorded.edgesOf_eq_nil hnone]
  refine ⟨fun hown => ?_, fun target => ?_, hedges⟩
  · have hasked : Asked txn page mode before last.table := by
      refine (hpaused.while_pending hbetween (fun _ => id) ?_).resolve_left hwaits
      intro moment hmoment _ hasked
      exact hasked.progress (perform_progress (hbetween moment hmoment (hown moment hmoment)))
    obtain ⟨hlocks, hothers⟩ := hasked.refused hidle hprogress
    refine ⟨hlocks, fun other => ?_⟩
    by_cases hother : txn = other
    · exact hother ▸ hedges
    · exact hothers other hother
  · have heffect : LockEffect last.table last.event last.refusal? last.after :=
      perform_effect hpaused.regular.consistent hadmits
    have hkept : ∀ {table after : LockTable} {event : LockEvent} {refusal : Option Refusal},
        LockEffect table event refusal after →
        (event.actor? = some txn → event = .advance txn ∨ event = .expire txn) →
        (∀ target, (before.lockOf target).HeldAlike txn (table.lockOf target)) →
        after.pending[txn]? = none ∧ refusal = none ∨
          ∀ target, (before.lockOf target).HeldAlike txn (after.lockOf target) := by
      intro table after event refusal heffect hevent hheld
      rcases heffect.heldAlike_or_granted hevent with halike | hgranted
      · exact .inr fun target => (hheld target).trans (halike target)
      · exact .inl hgranted
    have hheld : ∀ target, (before.lockOf target).HeldAlike txn (last.table.lockOf target) := by
      refine (hpaused.while_pending (motive := fun table => ∀ target,
        (before.lockOf target).HeldAlike txn (table.lockOf target)) hbetween ?_ ?_).resolve_left
          hwaits
      · intro asked hasked target
        rw [hasked.locks target]
        split
        · exact .announce
        · exact .refl
      · intro moment hmoment heffect hheld
        exact (hkept heffect (hbetween moment hmoment) hheld).imp_left And.left
    have halike := (hkept heffect (fun _ => hlast) hheld).resolve_left
      (fun hgranted => by simp [hreason] at hgranted) target
    exact ⟨halike.exclusive, halike.shared, iff_of_false (hidle' target) (hidle target)⟩

/-- Two transactions read a page, and one of them asks for its upgrade. A third one comes to read
the page too, and the request waits too long. Its transaction is a shared holder as before, and
has neither an upgrade announced nor an edge. -/
theorem refused_without_trace_beside_readers :
    ∃ earlier before between last after,
      Run {} (earlier ++ ⟨before, .submit ⟨1⟩ samplePage .exclusive⟩ :: between ++ [last]) after ∧
      last.refusal? = some .timeout ∧ (⟨1⟩ : TxnId) ∈ (after.lockOf samplePage).shared ∧
      after.graph.edgesOf ⟨1⟩ = before.graph.edgesOf ⟨1⟩ := by
  have hreplay : ((replay {} [] [.submit ⟨1⟩ samplePage .shared, .submit ⟨2⟩ samplePage .shared,
      .submit ⟨1⟩ samplePage .exclusive, .advance ⟨1⟩, .submit ⟨3⟩ samplePage .shared,
      .expire ⟨1⟩]).any fun (history, _) =>
        decide (history.map LockMoment.event = [.submit ⟨1⟩ samplePage .shared,
          .submit ⟨2⟩ samplePage .shared, .submit ⟨1⟩ samplePage .exclusive, .advance ⟨1⟩,
          .submit ⟨3⟩ samplePage .shared, .expire ⟨1⟩]) &&
        decide (history.map LockMoment.refusal? = [none, none, none, none, none, some .timeout]) &&
        (history.drop 2).all fun moment =>
          (moment.table.lockOf samplePage).shared.contains ⟨1⟩) = true := by
    decide +kernel
  obtain ⟨⟨history, after⟩, hreplay, hchecks⟩ := (Option.any_eq_true _ _).mp hreplay
  simp only [Bool.and_eq_true, decide_eq_true_eq, List.all_eq_true] at hchecks
  obtain ⟨⟨hevents, hrefusals⟩, hshared⟩ := hchecks
  obtain ⟨first, _, rfl, _, hevents⟩ := List.map_eq_cons_iff.mp hevents
  obtain ⟨second, _, rfl, _, hevents⟩ := List.map_eq_cons_iff.mp hevents
  obtain ⟨⟨before, _⟩, _, rfl, rfl, hlater⟩ := List.map_eq_cons_iff.mp hevents
  obtain ⟨fourth, _, rfl, hfourth, hevents⟩ := List.map_eq_cons_iff.mp hlater
  obtain ⟨fifth, _, rfl, hfifth, hevents⟩ := List.map_eq_cons_iff.mp hevents
  obtain ⟨last, _, rfl, hlast, hevents⟩ := List.map_eq_cons_iff.mp hevents
  obtain rfl := List.map_eq_nil_iff.mp hevents
  have hrun : Run {} ([first, second] ++ ⟨before, .submit ⟨1⟩ samplePage .exclusive⟩ ::
      [fourth, fifth] ++ [last]) after := .of_replay .start hreplay
  simp only [List.map_cons, List.map_nil, List.cons.injEq] at hrefusals
  obtain ⟨_, _, _, _, _, hrefused, _⟩ := hrefusals
  obtain ⟨_, hheld, hedges⟩ := refused_without_trace hrun
    (by simp [hfourth, hfifth, LockEvent.actor?]) (.inr hlast) (by simp [hrefused])
  refine ⟨_, _, _, _, _, hrun, hrefused, (hheld samplePage).2.1.mpr ?_, hedges⟩
  exact Std.ExtTreeSet.contains_iff_mem.mp (hshared ⟨before, .submit ⟨1⟩ samplePage .exclusive⟩
    (by simp))

end LockTable

end RowStore
