import Mathlib.Data.List.Chain
import Mathlib.Data.Set.Basic
import RowStore.Proofs.Lock.Upgrade

/-!
# Deadlocks are noticed

A transaction looks for a cycle only when it is about to sleep, while those whom a sleeping request
waits for change whenever others are granted, refused, or give up a hold. `Run.awake_of_cycle` says
that no such change makes a deadlock that goes unnoticed: in every reachable state, every cycle
of transactions that wait for one another has a member that is awake, and so searches again. The
reason is that whoever comes to stand in the way of a sleeping request, without waking it, is not
asleep itself.
-/

namespace RowStore

namespace WaitGraph

variable {next : TxnId → List TxnId} {goal txn : TxnId} {count : Nat} {unseen stack : List TxnId}

/-- A transaction that has not been followed is not skipped. -/
theorem mem_dropWhile_of_mem (hstack : txn ∈ stack) (hunseen : txn ∈ unseen) :
    txn ∈ stack.dropWhile fun other => !unseen.contains other := by
  induction stack with
  | nil => simp at hstack
  | cons first rest ih =>
      by_cases hfirst : first ∈ unseen
      · simpa [List.dropWhile_cons, hfirst] using hstack
      · rw [List.dropWhile_cons, if_pos (by simpa using hfirst)]
        rcases List.mem_cons.mp hstack with rfl | hrest
        · exact absurd hunseen hfirst
        · exact ih hrest

/-- A search that does not find its goal has closed the transactions that it can reach: the goal is
not among them, and neither is anyone whom those lead to that it had not followed before. -/
theorem search_eq_false (hcount : unseen.length ≤ count)
    (h : search next goal count unseen stack = false) :
    ∃ closed : Set TxnId, (∀ txn ∈ stack, txn ∈ closed) ∧ goal ∉ closed ∧
      ∀ txn ∈ closed, txn ∈ unseen → ∀ other ∈ next txn, other ∈ closed := by
  induction count generalizing unseen stack with
  | zero =>
      obtain rfl : unseen = [] := List.length_eq_zero_iff.mp (Nat.le_zero.mp hcount)
      refine ⟨{txn | txn ∈ stack}, fun _ h => h, ?_, fun _ _ h => by simp at h⟩
      simpa [search] using h
  | succ count ih =>
      simp only [search] at h
      split at h
      · simp at h
      rename_i hgoal
      have hgoal : goal ∉ stack := by simpa using hgoal
      split at h
      · -- Everyone on the stack has been followed before.
        rename_i hskipped
        refine ⟨{txn | txn ∈ stack}, fun _ h => h, hgoal, ?_⟩
        intro txn hstack hunseen
        have hkept := mem_dropWhile_of_mem hstack hunseen
        rw [hskipped] at hkept
        simp at hkept
      · rename_i first rest hfirst
        have hunseen : first ∈ unseen := by
          have hhead := List.head?_dropWhile_not (fun other => !unseen.contains other) stack
          rw [hfirst] at hhead
          simpa using hhead
        have hshorter : (unseen.erase first).length ≤ count := by
          rw [List.length_erase_of_mem hunseen]
          omega
        obtain ⟨closed, hclosed, hout, hnext⟩ := ih hshorter h
        have hfollow : ∀ txn ∈ closed, txn ∈ unseen → ∀ other ∈ next txn, other ∈ closed := by
          intro txn hmember hfound other hother
          by_cases hsame : txn = first
          · subst hsame
            exact hclosed other (List.mem_append_left _ hother)
          · exact hnext txn hmember ((List.mem_erase_of_ne hsame).mpr hfound) other hother
        refine ⟨{txn | txn ∈ closed ∨ txn ∈ stack}, fun _ h => .inr h, ?_, ?_⟩
        · exact fun h => h.elim hout hgoal
        · rintro txn (hmember | hstack) hfound other hother
          · exact .inl (hfollow txn hmember hfound other hother)
          · have hkept := mem_dropWhile_of_mem hstack hfound
            rw [hfirst] at hkept
            rcases List.mem_cons.mp hkept with rfl | hrest
            · exact .inl (hclosed other (List.mem_append_left _ hother))
            · exact .inl (hfollow txn (hclosed txn (List.mem_append_right _ hrest)) hfound other
                hother)

/-- Whoever waits for another one is listed in the graph. -/
theorem mem_keys_of_mem_waitsFor {graph : WaitGraph}
    {blockers : PageId → TxnId → LockMode → List TxnId} {other : TxnId}
    (h : other ∈ graph.waitsFor blockers txn) : txn ∈ graph.edges.keys := by
  rw [Std.ExtTreeMap.mem_keys]
  apply Decidable.byContradiction
  intro habsent
  simp [waitsFor, edgesOf, Std.ExtTreeMap.getD_eq_fallback habsent] at h

/-- Whoever is on no cycle leads to transactions that lead only to one another, and not back. -/
theorem exists_closed {graph : WaitGraph} {blockers : PageId → TxnId → LockMode → List TxnId}
    (h : graph.isOnCycle blockers txn = false) :
    ∃ closed : Set TxnId, (∀ other ∈ graph.waitsFor blockers txn, other ∈ closed) ∧
      txn ∉ closed ∧ ∀ member ∈ closed, ∀ other ∈ graph.waitsFor blockers member,
        other ∈ closed := by
  obtain ⟨closed, hstack, hout, hnext⟩ := search_eq_false (Nat.le_refl _) h
  refine ⟨closed, hstack, hout, ?_⟩
  intro member hmember other hother
  exact hnext member hmember (mem_keys_of_mem_waitsFor hother) other hother

end WaitGraph

namespace LockState

variable {lock : LockState} {txn waiter other : TxnId} {mode asked : LockMode}

/-- A request waits for the exclusive holder. If there is none and the request is for the exclusive
mode, it waits for the shared holders, except that two announced upgrades do not wait for each
other. -/
theorem mem_blockers_iff : other ∈ lock.blockers txn mode ↔ other ≠ txn ∧
    (lock.exclusive = some other ∨ lock.exclusive = none ∧ mode = .exclusive ∧
      other ∈ lock.shared ∧ ¬ (txn ∈ lock.upgrading ∧ other ∈ lock.upgrading)) := by
  cases hexclusive : lock.exclusive with
  | some holder =>
      by_cases hself : holder = txn
      · simp only [blockers, hexclusive, hself, if_true, List.not_mem_nil, Option.some.injEq,
          reduceCtorEq, false_and, or_false, false_iff, not_and]
        exact fun hne hsame => hne hsame.symm
      · simp only [blockers, hexclusive, hself, if_false, List.mem_singleton, Option.some.injEq,
          reduceCtorEq, false_and, or_false]
        constructor
        · rintro rfl
          exact ⟨hself, rfl⟩
        · exact fun h => h.2.symm
  | none =>
      cases mode with
      | shared => simp [blockers, hexclusive]
      | exclusive =>
          simp only [blockers, hexclusive, List.mem_filter, Std.ExtTreeSet.mem_toList,
            Bool.and_eq_true, decide_eq_true_eq, Bool.not_eq_true', Bool.and_eq_false_iff,
            decide_eq_false_iff_not, reduceCtorEq, false_or, true_and, not_and_or]
          exact and_left_comm

/-- Whoever stands in the way of a request holds the lock. -/
theorem holds_of_mem_blockers (h : other ∈ lock.blockers txn mode) :
    lock.holds other .shared = true := by
  rw [holds_shared_iff]
  exact (mem_blockers_iff.mp h).2.imp_right fun hshares => hshares.2.2.1

/-- An upgrade that is announced brings nobody in the way of another request. -/
theorem mem_blockers_of_announce
    (h : other ∈ (lock.announce txn mode).blockers waiter asked) :
    other ∈ lock.blockers waiter asked := by
  rw [mem_blockers_iff, exclusive_announce, shared_announce] at h
  rw [mem_blockers_iff]
  refine h.imp_right (Or.imp_right fun ⟨hnone, hmode, hshared, hwaits⟩ => ?_)
  exact ⟨hnone, hmode, hshared, fun hboth => hwaits
    ⟨mem_upgrading_announce.mpr (.inl hboth.1), mem_upgrading_announce.mpr (.inl hboth.2)⟩⟩

/-- An upgrade that is taken back brings at most its own transaction in the way of another
request. -/
theorem mem_blockers_of_withdraw (h : other ∈ (lock.withdraw txn).blockers waiter asked)
    (hne : txn ≠ waiter) : other ∈ lock.blockers waiter asked ∨ other = txn := by
  by_cases hother : txn = other
  · exact .inr hother.symm
  · left
    rw [mem_blockers_iff] at h ⊢
    refine h.imp_right (Or.imp_right fun ⟨hnone, hmode, hshared, hwaits⟩ => ?_)
    refine ⟨hnone, hmode, hshared, fun hboth => hwaits ?_⟩
    simpa [withdraw, hne, hother] using hboth

/-- A grant brings at most its own transaction in the way of another request. -/
theorem mem_blockers_of_grant (hgrant : lock.canGrant txn mode = true)
    (h : other ∈ (lock.grant txn mode).blockers waiter asked) :
    other ∈ lock.blockers waiter asked ∨ other = txn := by
  rw [mem_blockers_iff] at h
  obtain ⟨hne, hblocks⟩ := h
  cases mode with
  | exclusive =>
      rcases hblocks with howner | ⟨hnone, _⟩
      · exact .inr (Option.some.inj howner).symm
      · simp [grant] at hnone
  | shared =>
      rcases exclusive_of_canGrant hgrant with hfree | howner
      · simp only [grant, hfree, reduceCtorEq, if_false, false_or, true_and] at hblocks
        obtain ⟨hmode, hshared, hwaits⟩ := hblocks
        rcases Std.ExtTreeSet.mem_insert.mp hshared with hsame | hshared
        · exact .inr (Std.compare_eq_iff_eq.mp hsame).symm
        · exact .inl (mem_blockers_iff.mpr ⟨hne, .inr ⟨hfree, hmode, hshared, hwaits⟩⟩)
      · rw [grant, if_pos howner] at hblocks
        exact .inl (mem_blockers_iff.mpr ⟨hne, hblocks⟩)

end LockState

namespace LockTable

/-- The transaction has a pending request, and the other one stands in its way. -/
def WaitsFor (table : LockTable) (txn other : TxnId) : Prop :=
  ∃ request, table.pending[txn]? = some request ∧
    other ∈ table.blockers request.page txn request.mode

/-- The transaction has a pending request that has yet to pass, and so to search for a cycle. -/
def IsAwake (table : LockTable) (txn : TxnId) : Prop :=
  ∃ request, table.pending[txn]? = some request ∧ request.asleep = false

/-- The transaction has a pending request that only a release takes further. -/
def IsAsleep (table : LockTable) (txn : TxnId) : Prop :=
  ∃ request, table.pending[txn]? = some request ∧ request.asleep = true

/-- The transactions of the group are all asleep, and each waits for one of the group. -/
def IsStuck (table : LockTable) (group : Set TxnId) : Prop :=
  group.Nonempty ∧ ∀ txn ∈ group, table.IsAsleep txn ∧ ∃ other ∈ group, table.WaitsFor txn other

/-- Whom a sleeping transaction waits for can be read off the graph, unless the transaction holds
nothing and so stands in nobody's way, and no group is stuck. -/
structure Watchful (table : LockTable) : Prop where
  recorded : ∀ txn request, table.pending[txn]? = some request → request.asleep = true →
    ⟨request.page, request.mode⟩ ∈ table.graph.edgesOf txn ∨
      ∀ page mode, (table.lockOf page).holds txn mode = false
  moving : ∀ group, ¬ table.IsStuck group

/-- Whoever waits and is not awake is asleep. -/
theorem WaitsFor.asleep {table : LockTable} {txn other : TxnId} (h : table.WaitsFor txn other)
    (hawake : ¬ table.IsAwake txn) : table.IsAsleep txn := by
  obtain ⟨request, hrequest, _⟩ := h
  exact ⟨request, hrequest, by simpa using fun hfalse => hawake ⟨request, hrequest, hfalse⟩⟩

/-- The transaction slept before, with the same request. It has gained no hold since, its edges are
as they were unless it holds nothing now, and those who sleep and stand in its way stood there. -/
structure SleptThrough (before after : LockTable) (txn : TxnId) (request : PendingRequest) :
    Prop where
  pending : before.pending[txn]? = some request
  edges : after.graph.edgesOf txn = before.graph.edgesOf txn ∨
    ∀ page mode, (after.lockOf page).holds txn mode = false
  holds : ∀ page mode, (before.lockOf page).holds txn mode = false →
    (after.lockOf page).holds txn mode = false
  blockers : ∀ other, after.IsAsleep other →
    other ∈ after.blockers request.page txn request.mode →
      other ∈ before.blockers request.page txn request.mode

/-- A table stays watchful if nobody falls asleep. -/
theorem Watchful.of_slept {before after : LockTable} (hwatchful : before.Watchful)
    (hslept : ∀ txn request, after.pending[txn]? = some request → request.asleep = true →
      SleptThrough before after txn request) : after.Watchful where
  recorded txn request hrequest hasleep := by
    have h := hslept txn request hrequest hasleep
    rcases h.edges with hedges | hnothing
    · rw [hedges]
      exact (hwatchful.recorded txn request h.pending hasleep).imp_right
        fun hnothing page mode => h.holds page mode (hnothing page mode)
    · exact .inr hnothing
  moving := by
    rintro group ⟨hmember, hstuck⟩
    refine hwatchful.moving group ⟨hmember, ?_⟩
    intro txn htxn
    obtain ⟨⟨request, hrequest, hasleep⟩, other, hother, found, hfound, hblocks⟩ :=
      hstuck txn htxn
    obtain rfl : request = found := Option.some.inj (hrequest.symm.trans hfound)
    have h := hslept txn request hrequest hasleep
    exact ⟨⟨request, h.pending, hasleep⟩, other, hother, request, h.pending,
      h.blockers other (hstuck other hother).1 hblocks⟩

/-- A table stays watchful if a transaction falls asleep that is on no cycle. -/
theorem Watchful.of_sleep {before after : LockTable} {txn : TxnId} {request : PendingRequest}
    (hwatchful : before.Watchful) (hrequest : before.pending[txn]? = some request)
    (hlocks : ∀ page, after.lockOf page = before.lockOf page)
    (hpending : ∀ other, after.pending[other]? =
      if txn = other then some { request with asleep := true } else before.pending[other]?)
    (hedges : ∀ other, txn ≠ other → after.graph.edgesOf other = before.graph.edgesOf other)
    (hedge : ⟨request.page, request.mode⟩ ∈ after.graph.edgesOf txn)
    (hfree : after.isDeadlocked txn = false) : after.Watchful := by
  have hrecorded : ∀ other found, after.pending[other]? = some found → found.asleep = true →
      ⟨found.page, found.mode⟩ ∈ after.graph.edgesOf other ∨
        ∀ page mode, (after.lockOf page).holds other mode = false := by
    intro other found hfound hasleep
    rw [hpending other] at hfound
    split at hfound
    · rename_i hsame
      subst hsame
      obtain rfl := Option.some.inj hfound
      exact .inl hedge
    · rename_i hne
      simp only [hedges other hne, hlocks]
      exact hwatchful.recorded other found hfound hasleep
  have hback : ∀ member other, after.WaitsFor member other → before.WaitsFor member other := by
    rintro member other ⟨found, hfound, hblocks⟩
    rw [blockers, hlocks] at hblocks
    rw [hpending member] at hfound
    split at hfound
    · rename_i hsame
      subst hsame
      obtain rfl := Option.some.inj hfound
      exact ⟨request, hrequest, hblocks⟩
    · exact ⟨found, hfound, hblocks⟩
  have hslept : ∀ member, txn ≠ member → after.IsAsleep member → before.IsAsleep member := by
    rintro member hne ⟨found, hfound, hasleep⟩
    rw [hpending member, if_neg hne] at hfound
    exact ⟨found, hfound, hasleep⟩
  refine ⟨hrecorded, ?_⟩
  rintro group ⟨hmember, hstuck⟩
  by_cases htxn : txn ∈ group
  · -- Those of the group whom the search can reach, and who hold a lock, were stuck before.
    obtain ⟨closed, hnext, hout, hclosed⟩ := WaitGraph.exists_closed hfree
    have hreached : ∀ member ∈ group, (member ∈ closed ∧
        ∃ page, (after.lockOf page).holds member .shared = true) ∨ member = txn →
        ∃ other ∈ group, other ∈ closed ∧ (∃ page, (after.lockOf page).holds other .shared = true) ∧
          after.WaitsFor member other := by
      intro member hgroup hwhere
      obtain ⟨⟨found, hfound, hasleep⟩, other, hother, found', hfound', hblocks⟩ :=
        hstuck member hgroup
      obtain rfl : found = found' := Option.some.inj (hfound.symm.trans hfound')
      refine ⟨other, hother, ?_, ⟨found.page, LockState.holds_of_mem_blockers hblocks⟩,
        found, hfound, hblocks⟩
      have hfollow : ⟨found.page, found.mode⟩ ∈ after.graph.edgesOf member →
          other ∈ after.graph.waitsFor after.blockers member := fun hedge =>
        List.mem_flatMap.mpr ⟨_, hedge, hblocks⟩
      rcases hwhere with ⟨hin, page, hholds⟩ | rfl
      · refine hclosed member hin other (hfollow ?_)
        refine (hrecorded member found hfound hasleep).resolve_right fun hnothing => ?_
        rw [hnothing page .shared] at hholds
        simp at hholds
      · rw [hpending member, if_pos rfl] at hfound
        obtain rfl := Option.some.inj hfound
        exact hnext other (hfollow hedge)
    refine hwatchful.moving {member | member ∈ group ∧ member ∈ closed ∧
      ∃ page, (after.lockOf page).holds member .shared = true} ⟨?_, ?_⟩
    · obtain ⟨other, hother, hin, hholds, _⟩ := hreached txn htxn (.inr rfl)
      exact ⟨other, hother, hin, hholds⟩
    · rintro member ⟨hgroup, hin, hholds⟩
      obtain ⟨other, hother, hin', hholds', hwait⟩ := hreached member hgroup (.inl ⟨hin, hholds⟩)
      have hne : txn ≠ member := fun hsame => hout (hsame ▸ hin)
      exact ⟨hslept member hne (hstuck member hgroup).1, other, ⟨hother, hin', hholds'⟩,
        hback member other hwait⟩
  · refine hwatchful.moving group ⟨hmember, ?_⟩
    intro member hgroup
    obtain ⟨hasleep, other, hother, hwait⟩ := hstuck member hgroup
    have hne : txn ≠ member := fun hsame => htxn (hsame ▸ hgroup)
    exact ⟨hslept member hne hasleep, other, hother, hback member other hwait⟩

end LockTable

/-- A table stays watchful. -/
theorem LockEffect.watchful {before after : LockTable} {event : LockEvent}
    {refusal : Option Refusal} (heffect : LockEffect before event refusal after)
    (hwatchful : before.Watchful) : after.Watchful := by
  cases heffect with
  | quiet hlocks hpending hgraph =>
      refine hwatchful.of_slept fun other found hfound _ => ?_
      refine ⟨hpending ▸ hfound, .inl (by rw [hgraph]), fun page mode h => by rwa [hlocks], ?_⟩
      intro _ _ hblocks
      rwa [LockTable.blockers, hlocks] at hblocks
  | @announce txn page mode _ hnone hlocks hpending hgraph =>
      refine hwatchful.of_slept fun other found hfound hasleep => ?_
      have hne : txn ≠ other := by
        rintro rfl
        rw [hpending txn, if_pos rfl, Option.some.injEq] at hfound
        subst hfound
        simp at hasleep
      rw [hpending other, if_neg hne] at hfound
      refine ⟨hfound, .inl (by rw [hgraph]), ?_, ?_⟩
      · intro target asked h
        rw [hlocks target]
        split
        · rename_i heq
          rw [LockState.holds_announce, heq, h]
        · exact h
      · intro blocker _ hblocks
        rw [LockTable.blockers, hlocks] at hblocks
        split at hblocks
        · rename_i heq
          rw [heq] at hblocks
          exact LockState.mem_blockers_of_announce hblocks
        · exact hblocks
  | @grant _ txn page mode _ _ hrequest hgrant hlocks hpending hedges =>
      refine hwatchful.of_slept fun other found hfound _ => ?_
      have hne : txn ≠ other := by
        rintro rfl
        simp [hpending] at hfound
      rw [hpending other, if_neg hne] at hfound
      refine ⟨hfound, .inl (hedges other hne), ?_, ?_⟩
      · intro target asked h
        rw [hlocks target]
        split
        · rename_i heq
          subst heq
          rw [← Bool.not_eq_true] at h ⊢
          exact fun hholds => (LockState.holds_of_holds_grant hholds).elim h (Ne.symm hne)
        · exact h
      · rintro blocker ⟨request, hrequest', _⟩ hblocks
        have hblocker : blocker ≠ txn := by
          rintro rfl
          simp [hpending] at hrequest'
        rw [LockTable.blockers, hlocks] at hblocks
        split at hblocks
        · rename_i heq
          subst heq
          exact (LockState.mem_blockers_of_grant hgrant hblocks).resolve_right hblocker
        · exact hblocks
  | @sleep _ txn request _ hrequest hlocks hpending hedges hedge hfree =>
      exact hwatchful.of_sleep hrequest hlocks hpending hedges hedge hfree
  | @refuse _ txn request _ _ _ hrequest hlocks hpending hedges =>
      refine hwatchful.of_slept fun other found hfound _ => ?_
      have hne : txn ≠ other := by
        rintro rfl
        simp [hpending] at hfound
      rw [hpending other, if_neg hne] at hfound
      refine ⟨hfound, .inl (hedges other hne), ?_, ?_⟩
      · intro target asked h
        rw [hlocks target]
        split
        · rwa [LockState.holds_withdraw]
        · exact h
      · rintro blocker ⟨request, hrequest', _⟩ hblocks
        have hblocker : blocker ≠ txn := by
          rintro rfl
          simp [hpending] at hrequest'
        rw [LockTable.blockers, hlocks] at hblocks
        split at hblocks
        · exact (LockState.mem_blockers_of_withdraw hblocks hne).resolve_right hblocker
        · exact hblocks
  | @wake _ txn request _ hrequest hlocks hpending hgraph =>
      refine hwatchful.of_slept fun other found hfound hasleep => ?_
      have hne : txn ≠ other := by
        rintro rfl
        rw [hpending txn, if_pos rfl, Option.some.injEq] at hfound
        subst hfound
        simp at hasleep
      rw [hpending other, if_neg hne] at hfound
      refine ⟨hfound, .inl (by rw [hgraph]), fun page mode h => by rwa [hlocks], ?_⟩
      intro _ _ hblocks
      rwa [LockTable.blockers, hlocks] at hblocks
  | release txn released hkept hleft hpending hedges =>
      refine hwatchful.of_slept fun other found hfound hasleep => ?_
      obtain ⟨request, hrequest, rfl⟩ : ∃ request, before.pending[other]? = some request ∧
          { request with asleep := request.asleep && !released request.page } = found := by
        rw [hpending other] at hfound
        exact Option.map_eq_some_iff.mp hfound
      simp only [Bool.and_eq_true, Bool.not_eq_true'] at hasleep
      have hsame : { request with asleep := request.asleep && !released request.page } =
          request := by
        rw [hasleep.2, Bool.not_false, Bool.and_true]
      rw [hsame]
      have hedges' : after.graph.edgesOf other = before.graph.edgesOf other ∨
          ∀ page mode, (after.lockOf page).holds other mode = false := by
        rcases hedges other with h | ⟨rfl, h⟩
        · exact .inl h
        · exact .inr h
      refine ⟨hrequest, hedges', ?_, ?_⟩
      · intro page mode h
        cases hreleased : released page with
        | false => rwa [hkept page hreleased]
        | true => exact (hleft page hreleased).holds_eq_false h
      · intro blocker _ hblocks
        rwa [LockTable.blockers, hkept request.page hasleep.2] at hblocks

namespace LockTable

variable {table : LockTable} {history : List LockMoment}

/-- A table without requests is watchful. -/
theorem watchful_empty : Watchful {} where
  recorded txn request h := by simp at h
  moving := by
    rintro group ⟨⟨txn, htxn⟩, hstuck⟩
    obtain ⟨⟨request, hrequest, _⟩, _⟩ := hstuck txn htxn
    simp at hrequest

/-- Of the transactions of a cycle, each has its next one in it. -/
theorem exists_next_of_isChain {relation : TxnId → TxnId → Prop} {first last txn : TxnId}
    {rest : List TxnId} (h : List.IsChain relation (first :: rest ++ [last]))
    (htxn : txn ∈ first :: rest) : ∃ other ∈ rest ++ [last], relation txn other := by
  induction rest generalizing first with
  | nil =>
      rw [List.mem_singleton] at htxn
      subst htxn
      exact ⟨last, by simp, by simpa using h⟩
  | cons second rest ih =>
      simp only [List.cons_append, List.isChain_cons_cons] at h
      rcases List.mem_cons.mp htxn with rfl | hrest
      · exact ⟨second, by simp, h.1⟩
      · obtain ⟨other, hother, hnext⟩ := ih h.2 hrest
        exact ⟨other, List.mem_cons_of_mem _ hother, hnext⟩

/-- No deadlock goes unnoticed. In every reachable state, every cycle of transactions that wait
for one another has a member that is awake and so searches for cycles again, and no group of
transactions is asleep in which everyone waits for another one. -/
theorem awake_of_cycle (hrun : Run {} history table) :
    (∀ first rest, List.IsChain table.WaitsFor (first :: rest ++ [first]) →
      ∃ txn ∈ first :: rest, table.IsAwake txn) ∧
    ∀ group, ¬ table.IsStuck group := by
  obtain ⟨_, hwatchful⟩ := hrun.preserves (fun _ table => table.Watchful) regular_empty
    watchful_empty fun _ heffect hwatchful => heffect.watchful hwatchful
  refine ⟨?_, hwatchful.moving⟩
  intro first rest hcycle
  apply Classical.byContradiction
  intro hnobody
  refine hwatchful.moving {txn | txn ∈ first :: rest} ⟨⟨first, by simp⟩, ?_⟩
  intro txn htxn
  obtain ⟨other, hother, hwait⟩ := exists_next_of_isChain hcycle htxn
  refine ⟨hwait.asleep fun hawake => hnobody ⟨txn, htxn, hawake⟩, other, ?_, hwait⟩
  simpa [or_comm] using hother

/-- Two transactions write a page each and ask for the other's page. The first one sleeps, and the
second one has yet to pass. -/
theorem awake_of_cycle_crossed :
    ∃ history table, Run {} history table ∧
      List.IsChain table.WaitsFor [⟨1⟩, ⟨2⟩, ⟨1⟩] ∧ table.IsAsleep ⟨1⟩ ∧ table.IsAwake ⟨2⟩ := by
  have hreplay : ((replay {} []
      [.submit ⟨1⟩ samplePage .exclusive, .submit ⟨2⟩ ⟨⟨1⟩, 1⟩ .exclusive,
        .submit ⟨1⟩ ⟨⟨1⟩, 1⟩ .exclusive, .advance ⟨1⟩,
        .submit ⟨2⟩ samplePage .exclusive]).any fun (_, table) =>
      (table.pending[(⟨1⟩ : TxnId)]?).any (fun request => request.asleep &&
        (table.blockers request.page ⟨1⟩ request.mode).contains ⟨2⟩) &&
      (table.pending[(⟨2⟩ : TxnId)]?).any fun request =>
        (table.blockers request.page ⟨2⟩ request.mode).contains ⟨1⟩) = true := by
    decide +kernel
  obtain ⟨⟨history, table⟩, hreplay, hchecks⟩ := (Option.any_eq_true _ _).mp hreplay
  simp only [Bool.and_eq_true, Option.any_eq_true, List.contains_iff_mem] at hchecks
  obtain ⟨⟨first, hfirst, hasleep, hwaits⟩, second, hsecond, hwaits'⟩ := hchecks
  have hcycle : List.IsChain table.WaitsFor [⟨1⟩, ⟨2⟩, ⟨1⟩] := by
    simp only [List.isChain_cons_cons, List.isChain_singleton, and_true]
    exact ⟨⟨first, hfirst, hwaits⟩, second, hsecond, hwaits'⟩
  have hrun : Run {} history table := .of_replay .start hreplay
  refine ⟨history, table, hrun, hcycle, ⟨first, hfirst, hasleep⟩, ?_⟩
  obtain ⟨txn, htxn, hawake⟩ := (awake_of_cycle hrun).1 ⟨1⟩ [⟨2⟩] hcycle
  simp only [List.mem_cons, List.not_mem_nil, or_false] at htxn
  rcases htxn with rfl | rfl
  · obtain ⟨request, hrequest, hfalse⟩ := hawake
    rw [hfirst, Option.some.injEq] at hrequest
    subst hrequest
    simp [hasleep] at hfalse
  · exact hawake

end LockTable

end RowStore
