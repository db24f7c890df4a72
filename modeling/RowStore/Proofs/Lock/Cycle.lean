import Mathlib.Logic.Relation
import RowStore.Proofs.Lock.Deadlock

/-!
# The search for cycles is exact

A transaction that is about to wait is refused if and only if the graph, with its new edge, leads
from the transaction back to itself: along an edge to a lock, from there to whoever stands in the
way at that lock, and so on. The search misses no such cycle, because what it has not followed when
it ends cannot lead to the goal, and it reports none that is not there, because whatever it puts on
its stack can be reached. It follows each waiting transaction at most once, so that more rounds
than there are waiting transactions make no difference.
-/

namespace RowStore

namespace WaitGraph

section Search

variable {next : TxnId → List TxnId} {goal : TxnId} {count : Nat} {unseen stack : List TxnId}

/-- A search that finds its goal was led to it from the stack. -/
theorem reachable_of_search (h : search next goal count unseen stack = true) :
    ∃ txn ∈ stack, Relation.ReflTransGen (fun txn other => other ∈ next txn) txn goal := by
  have hfound : ∀ {stack : List TxnId}, goal ∈ stack → ∃ txn ∈ stack,
      Relation.ReflTransGen (fun txn other => other ∈ next txn) txn goal :=
    fun hgoal => ⟨goal, hgoal, .refl⟩
  induction count generalizing unseen stack with
  | zero => exact hfound (by simpa [search] using h)
  | succ count ih =>
      simp only [search] at h
      split at h
      · rename_i hgoal
        exact hfound (by simpa using hgoal)
      · split at h
        · simp at h
        · rename_i first rest hfirst
          have hkept : ∀ txn ∈ first :: rest, txn ∈ stack :=
            fun txn htxn => (List.dropWhile_sublist _).subset (hfirst ▸ htxn)
          obtain ⟨txn, htxn, hreach⟩ := ih h
          rcases List.mem_append.mp htxn with hnext | hrest
          · exact ⟨first, hkept first List.mem_cons_self, hreach.head hnext⟩
          · exact ⟨txn, hkept txn (List.mem_cons_of_mem _ hrest), hreach⟩

end Search

variable {graph : WaitGraph} {blockers : PageId → TxnId → LockMode → List TxnId} {txn : TxnId}
  {count : Nat}

/-- The search for a cycle finds one exactly if there is one, with any number of rounds that is not
below the number of waiting transactions. -/
theorem search_iff_transGen (hcount : graph.edges.keys.length ≤ count) :
    search (graph.waitsFor blockers) txn count graph.edges.keys (graph.waitsFor blockers txn) =
        true ↔
      Relation.TransGen (fun waiter other => other ∈ graph.waitsFor blockers waiter) txn txn := by
  constructor
  · intro hsearch
    obtain ⟨first, hfirst, hreach⟩ := reachable_of_search hsearch
    exact .head' hfirst hreach
  · intro hcycle
    apply Decidable.byContradiction
    intro hsearch
    obtain ⟨closed, hstack, hout, hclosed⟩ :=
      search_eq_false hcount (Bool.eq_false_of_not_eq_true hsearch)
    -- The closed transactions are left by no edge, so that the cycle never comes back.
    have hstays : ∀ other, Relation.TransGen
        (fun waiter other => other ∈ graph.waitsFor blockers waiter) txn other →
        other ∈ closed := by
      intro other hpath
      induction hpath with
      | single hstep => exact hstack _ hstep
      | tail _ hstep ih => exact hclosed _ ih (mem_keys_of_mem_waitsFor hstep) _ hstep
    exact hout (hstays txn hcycle)

/-- The edges of each transaction, with one more edge, which is recorded once. -/
def edgesWith (graph : WaitGraph) (txn : TxnId) (edge : WaitEdge) (other : TxnId) :
    List WaitEdge :=
  if txn = other ∧ edge ∉ graph.edgesOf other then graph.edgesOf other ++ [edge]
  else graph.edgesOf other

/-- The edges of each transaction, without those of one transaction to one lock. -/
def edgesWithout (graph : WaitGraph) (txn : TxnId) (page : PageId) (other : TxnId) :
    List WaitEdge :=
  if txn = other then (graph.edgesOf other).filter fun edge => edge.page ≠ page
  else graph.edgesOf other

/-- An edge that is there already is not recorded again. -/
theorem nodup_edgesWith {edge : WaitEdge} {other : TxnId}
    (h : (graph.edgesOf other).Nodup) : (graph.edgesWith txn edge other).Nodup := by
  simp only [edgesWith]
  split
  · rename_i hnew
    rw [List.nodup_append]
    refine ⟨h, by simp, ?_⟩
    rintro old hold _ hedge rfl
    exact hnew.2 (List.mem_singleton.mp hedge ▸ hold)
  · exact h

theorem edgesOf_add {edge : WaitEdge} :
    (graph.add txn edge).edgesOf = graph.edgesWith txn edge := by
  funext other
  by_cases hother : txn = other
  · subst hother
    rw [edgesOf_add_self]
    by_cases hedge : edge ∈ graph.edgesOf txn <;> simp [edgesWith, hedge]
  · simp [edgesOf_add_of_ne hother, edgesWith, hother]

theorem edgesOf_remove {page : PageId} :
    (graph.remove txn page).edgesOf = graph.edgesWithout txn page := by
  funext other
  by_cases hother : txn = other
  · subst hother
    simp [edgesOf_remove_self, edgesWithout]
  · simp [edgesOf_remove_of_ne hother, edgesWithout, hother]

/-- An edge that is added and removed again takes the other edges of the transaction to the same
lock with it, and no other edge. -/
theorem edgesOf_remove_add {edge : WaitEdge} :
    ((graph.add txn edge).remove txn edge.page).edgesOf = graph.edgesWithout txn edge.page := by
  rw [edgesOf_remove]
  funext other
  simp only [edgesWithout, edgesOf_add, edgesWith]
  split
  · split <;> simp
  · rename_i hother
    rw [if_neg fun h => hother h.1]

end WaitGraph

namespace LockTable

/-- Along one of these edges, the transaction waits for the other one, which stands in its way at
the lock that the edge leads to. -/
def WaitsAlong (table : LockTable) (edges : TxnId → List WaitEdge) (txn other : TxnId) : Prop :=
  ∃ edge ∈ edges txn, other ∈ (table.lockOf edge.page).blockers txn edge.mode

variable {table : LockTable} {txn : TxnId}

/-- The transactions that a search goes on with are those that a transaction waits for. -/
theorem mem_waitsFor_iff {waiter other : TxnId} :
    other ∈ table.graph.waitsFor table.blockers waiter ↔
      table.WaitsAlong table.graph.edgesOf waiter other := by
  simp only [WaitGraph.waitsFor, List.mem_flatMap, WaitsAlong, blockers]

/-- A transaction is found to be part of a cycle exactly if it waits, through any number of others,
for itself. -/
theorem isDeadlocked_iff : table.isDeadlocked txn = true ↔
    Relation.TransGen (table.WaitsAlong table.graph.edgesOf) txn txn := by
  have h : table.isDeadlocked txn = true ↔ Relation.TransGen
      (fun waiter other => other ∈ table.graph.waitsFor table.blockers waiter) txn txn :=
    WaitGraph.search_iff_transGen (Nat.le_refl _)
  simpa only [mem_waitsFor_iff] using h

/-- Any number of rounds that is not below the number of waiting transactions gives the answer. -/
theorem search_eq_isDeadlocked {count : Nat} (hcount : table.graph.edges.keys.length ≤ count) :
    WaitGraph.search (table.graph.waitsFor table.blockers) txn count table.graph.edges.keys
      (table.graph.waitsFor table.blockers txn) = table.isDeadlocked txn := by
  rw [Bool.eq_iff_iff, WaitGraph.search_iff_transGen hcount, isDeadlocked_iff]
  simp only [mem_waitsFor_iff]

variable {page : PageId} {mode : LockMode}

/-- What asking to wait answers, and the edges that it leaves. -/
theorem waitOn_cases :
    Relation.TransGen (table.WaitsAlong (table.graph.edgesWith txn ⟨page, mode⟩)) txn txn ∧
        (table.waitOn txn page mode).1 = .error .deadlock ∧
        (table.waitOn txn page mode).2.graph.edgesOf = table.graph.edgesWithout txn page ∨
      ¬ Relation.TransGen (table.WaitsAlong (table.graph.edgesWith txn ⟨page, mode⟩)) txn txn ∧
        (table.waitOn txn page mode).1 = .ok () ∧
        (table.waitOn txn page mode).2.graph.edgesOf =
          table.graph.edgesWith txn ⟨page, mode⟩ := by
  have hdeadlock := @isDeadlocked_iff { table with graph := table.graph.add txn ⟨page, mode⟩ } txn
  rw [WaitGraph.edgesOf_add] at hdeadlock
  simp only [waitOn]
  split
  · rename_i hcycle
    exact .inl ⟨hdeadlock.mp hcycle, rfl, WaitGraph.edgesOf_remove_add⟩
  · rename_i hfree
    exact .inr ⟨fun hcycle => hfree (hdeadlock.mpr hcycle), rfl, WaitGraph.edgesOf_add⟩

/-- Asking to wait changes nothing but the graph. -/
theorem waitOn_frame : (table.waitOn txn page mode).2.locks = table.locks ∧
    (table.waitOn txn page mode).2.pending = table.pending := by
  simp only [waitOn]
  split <;> exact ⟨rfl, rfl⟩

/-- Deadlocks are detected exactly, in any lock table. A transaction that asks to wait is refused
if and only if, with its edge added, the graph leads from it through whoever stands in the way back
to itself. The search of the current graph decides the same there, and more rounds would not change
what it finds. After a refusal the edges of the transaction to this lock are gone and every other
edge is as it was; otherwise the graph has gained the one edge, unless it had it before. -/
theorem deadlock_iff_cycle (table : LockTable) (txn : TxnId) (page : PageId) (mode : LockMode) :
    let edges := table.graph.edgesWith txn ⟨page, mode⟩
    let after := (table.waitOn txn page mode).2
    ((table.waitOn txn page mode).1 = .error .deadlock ↔
        Relation.TransGen (table.WaitsAlong edges) txn txn) ∧
      ((table.waitOn txn page mode).1 = .ok () ↔
        ¬ Relation.TransGen (table.WaitsAlong edges) txn txn) ∧
      (table.isDeadlocked txn = true ↔
        Relation.TransGen (table.WaitsAlong table.graph.edgesOf) txn txn) ∧
      (∀ rounds, table.graph.edges.keys.length ≤ rounds →
        WaitGraph.search (table.graph.waitsFor table.blockers) txn rounds table.graph.edges.keys
          (table.graph.waitsFor table.blockers txn) = table.isDeadlocked txn) ∧
      ((table.waitOn txn page mode).1 = .error .deadlock →
        after.graph.edgesOf = table.graph.edgesWithout txn page) ∧
      ((table.waitOn txn page mode).1 = .ok () → after.graph.edgesOf = edges ∧
        ∀ other, (table.graph.edgesOf other).Nodup → (after.graph.edgesOf other).Nodup) ∧
      after.locks = table.locks ∧ after.pending = table.pending := by
  intro edges after
  refine ⟨?_, ?_, isDeadlocked_iff, fun _ hrounds => search_eq_isDeadlocked hrounds, ?_, ?_,
    waitOn_frame⟩
  all_goals
    rcases @waitOn_cases table txn page mode with
      ⟨hcycle, hanswer, hedges⟩ | ⟨hfree, hanswer, hedges⟩
  · exact iff_of_true hanswer hcycle
  · exact iff_of_false (by simp [hanswer]) hfree
  · exact iff_of_false (by simp [hanswer]) (not_not_intro hcycle)
  · exact iff_of_true hanswer hfree
  · exact fun _ => hedges
  · exact fun hrefused => by simp [hanswer] at hrefused
  · exact fun hgranted => by simp [hanswer] at hgranted
  · refine fun _ => ⟨hedges, fun other hnodup => ?_⟩
    rw [hedges]
    exact WaitGraph.nodup_edgesWith hnodup

end LockTable

end RowStore
