import Mathlib.Data.List.Induction
import RowStore.Proofs.Lock.Alike
import RowStore.Proofs.Lock.Upgrade

/-!
# Removing locks that nobody uses

A lock is removed with the page that it is of, whenever this page leaves the cache. This may happen
at any moment of a run, and nobody can tell: `reclaim_unobservable` says that runs which differ only
in when locks are removed give the same answers to everything that is asked of them. Such tables
stay alike, which `Alike.perform` says of one event. A lock that is held, or that a pending request
or an edge refers to, is in the table in every reachable state and is not removed.
-/

namespace RowStore

/-- What an event answers to whoever caused it. -/
inductive LockAnswer where
  /-- What has become of a request. -/
  | verdict (verdict : Verdict)
  /-- Whether a hold was given up that the transaction must have. -/
  | released (result : Except Refusal Unit)
  /-- Whether the transaction held anything that it could give up. -/
  | gaveUp (held : Bool)
  | nothing
deriving DecidableEq

/-- What can be asked of a lock table at any moment. -/
structure LockView where
  holdsShared : TxnId → PageId → Bool
  holdsExclusive : TxnId → PageId → Bool
  holdsLock : TxnId → PageId → Bool
  lockedPages : TxnId → List PageId
  waitingOn : TxnId → List PageId

/-- Whether the event is something that a transaction does. -/
def LockEvent.isCall : LockEvent → Bool
  | .reclaim _ => false
  | .submit .. | .advance _ | .expire _ | .releaseShared .. | .releaseExclusive .. | .release ..
  | .releaseAll _ => true

@[simp] theorem LockEvent.isCall_reclaim (page : PageId) :
    (LockEvent.reclaim page).isCall = false := rfl

theorem LockEvent.eq_reclaim {event : LockEvent} (h : event.isCall = false) :
    ∃ page, event = .reclaim page := by
  cases event with
  | reclaim page => exact ⟨page, rfl⟩
  | _ => simp [isCall] at h

namespace LockTable

variable {table before after : LockTable} {txn : TxnId} {page : PageId} {mode : LockMode}

/-- What the event answers. -/
def answer (table : LockTable) : LockEvent → LockAnswer
  | .submit txn page mode => .verdict (table.submit txn page mode).1
  | .advance txn =>
      match table.pending[txn]? with
      | none => .nothing
      | some request =>
          if request.asleep then .nothing else .verdict (table.advance txn request).1
  | .expire txn =>
      match table.pending[txn]? with
      | none => .nothing
      | some request => .verdict (table.expire txn request).1
  | .releaseShared txn page => .released ((table.releaseShared txn page).map fun _ => ())
  | .releaseExclusive txn page => .released ((table.releaseExclusive txn page).map fun _ => ())
  | .release txn page => .gaveUp (table.release txn page).1
  | .releaseAll _ | .reclaim _ => .nothing

/-- What the table answers to whatever it is asked. -/
def view (table : LockTable) : LockView where
  holdsShared := table.holdsShared
  holdsExclusive := table.holdsExclusive
  holdsLock := table.holdsLock
  lockedPages := table.lockedPages
  waitingOn := table.graph.waitingOn

/-- A transaction holds the lock of the page, or a pending request or an edge refers to it. -/
def InUse (table : LockTable) (page : PageId) : Prop :=
  (∃ txn mode, (table.lockOf page).holds txn mode = true) ∨
    (∃ (txn : TxnId) (request : PendingRequest), table.pending[txn]? = some request ∧
      request.page = page) ∨
    ∃ txn, ∃ edge ∈ table.graph.edgesOf txn, edge.page = page

theorem mem_lockedPages : page ∈ table.lockedPages txn ↔ table.holdsLock txn page = true := by
  simp only [lockedPages, List.mem_map, List.mem_filter, Prod.exists, exists_and_right,
    exists_eq_right, Std.ExtTreeMap.mem_toList_iff_getElem?_eq_some]
  simp only [holdsLock, lockOf, Std.ExtTreeMap.getD_eq_getD_getElem?]
  constructor
  · rintro ⟨lock, hlock, hholds⟩
    simpa [hlock] using hholds
  · intro hholds
    cases hlock : table.locks[page]? with
    | none => simp [hlock, LockState.holds] at hholds
    | some lock => exact ⟨lock, rfl, by simpa [hlock] using hholds⟩

/-- The pages that a transaction holds are listed in page order. -/
theorem pairwise_lockedPages (table : LockTable) (txn : TxnId) :
    (table.lockedPages txn).Pairwise fun page other => compare page other = .lt :=
  (Std.ExtTreeMap.ordered_keys_toList.filter _).map _ fun _ _ => id

namespace Alike

/-- Alike tables answer alike to whatever they are asked. -/
theorem view (halike : Alike before after) : after.view = before.view := by
  have hpages : after.lockedPages = before.lockedPages := by
    funext txn
    have hmembers : ∀ page, page ∈ after.lockedPages txn ↔ page ∈ before.lockedPages txn := by
      intro page
      rw [mem_lockedPages, mem_lockedPages, halike.holdsLock]
    have hdistinct : ∀ table : LockTable, (table.lockedPages txn).Nodup := fun table =>
      (table.pairwise_lockedPages txn).imp fun hlt heq => by simp [heq] at hlt
    refine List.Perm.eq_of_pairwise ?_ (after.pairwise_lockedPages txn)
      (before.pairwise_lockedPages txn)
      ((List.perm_ext_iff_of_nodup (hdistinct after) (hdistinct before)).mpr hmembers)
    exact fun _ _ _ _ hlt hgt => absurd hgt (Std.OrientedCmp.not_lt_of_lt hlt)
  have hshared : after.holdsShared = before.holdsShared := by
    funext txn page
    rw [holdsShared, halike.lockOf, holdsShared]
  have hexclusive : after.holdsExclusive = before.holdsExclusive := by
    funext txn page
    rw [holdsExclusive, halike.lockOf, holdsExclusive]
  have hlock : after.holdsLock = before.holdsLock := by
    funext txn page
    exact halike.holdsLock txn page
  rw [LockTable.view, hshared, hexclusive, hlock, hpages, halike.graph, LockTable.view]

theorem submit (halike : Alike before after) (txn : TxnId) (page : PageId) (mode : LockMode) :
    (after.submit txn page mode).1 = (before.submit txn page mode).1 ∧
      Alike (before.submit txn page mode).2 (after.submit txn page mode).2 := by
  obtain ⟨hsame, hattempted⟩ := halike.attempt txn page mode
  rcases hbefore : before.attempt txn page mode with ⟨met, attempted⟩
  rcases hafter : after.attempt txn page mode with ⟨other, requested⟩
  rw [hbefore, hafter] at hattempted
  rw [hbefore, hafter] at hsame
  obtain rfl : other = met := hsame
  simp only [LockTable.submit, hbefore, hafter]
  cases other with
  | true => exact ⟨rfl, hattempted⟩
  | false =>
      exact ⟨rfl, hattempted.changePending fun pending => pending.insert txn ⟨page, mode, false⟩⟩

/-- Alike tables give the same answer to an event, and stay alike. -/
theorem perform (halike : Alike before after) {event : LockEvent} (hcall : event.isCall = true) :
    after.answer event = before.answer event ∧
      Alike (before.perform event).2 (after.perform event).2 := by
  cases event with
  | submit txn page mode =>
      obtain ⟨hsame, hleft⟩ := halike.submit txn page mode
      exact ⟨congrArg LockAnswer.verdict hsame, hleft⟩
  | advance txn =>
      cases hpending : before.pending[txn]? with
      | none =>
          simp only [answer, LockTable.perform, halike.pending, hpending]
          exact ⟨trivial, halike⟩
      | some request =>
          obtain ⟨hsame, hleft⟩ := halike.advance txn request
          cases hasleep : request.asleep with
          | true =>
              simp only [answer, LockTable.perform, halike.pending, hpending, hasleep, if_true]
              exact ⟨trivial, halike⟩
          | false =>
              simp only [answer, LockTable.perform, halike.pending, hpending, hasleep,
                Bool.false_eq_true, if_false]
              exact ⟨congrArg LockAnswer.verdict hsame, hleft⟩
  | expire txn =>
      cases hpending : before.pending[txn]? with
      | none =>
          simp only [answer, LockTable.perform, halike.pending, hpending]
          exact ⟨trivial, halike⟩
      | some request =>
          obtain ⟨hsame, hleft⟩ := halike.expire txn request
          simp only [answer, LockTable.perform, halike.pending, hpending]
          exact ⟨congrArg LockAnswer.verdict hsame, hleft⟩
  | releaseShared txn page =>
      simp only [answer, LockTable.perform, releaseShared, halike.lockOf]
      split
      · exact ⟨rfl, (halike.setLock page ((before.lockOf page).dropShared txn)).wake (· = page)⟩
      · exact ⟨rfl, halike⟩
  | releaseExclusive txn page =>
      simp only [answer, LockTable.perform, releaseExclusive, halike.lockOf]
      split
      · exact ⟨rfl, (halike.setLock page (before.lockOf page).dropExclusive).wake (· = page)⟩
      · exact ⟨rfl, halike⟩
  | release txn page =>
      refine ⟨?_, halike.release txn page⟩
      simp only [answer, LockTable.release, halike.lockOf]
      split <;> rfl
  | releaseAll txn => exact ⟨rfl, halike.releaseAll txn⟩
  | reclaim page => simp at hcall

/-- Alike tables admit the same events. -/
theorem admits (halike : Alike before after) {event : LockEvent} (hadmits : before.Admits event) :
    after.Admits event := by
  cases event with
  | submit txn page mode =>
      show after.pending[txn]? = none
      rw [halike.pending]
      exact hadmits
  | _ => trivial

end Alike

theorem isReferenced_iff : table.isReferenced page = true ↔
    (∃ (txn : TxnId) (request : PendingRequest), table.pending[txn]? = some request ∧
      request.page = page) ∨
    ∃ txn, ∃ edge ∈ table.graph.edgesOf txn, edge.page = page := by
  have hedges : ∀ txn, ∀ edge, edge ∈ table.graph.edgesOf txn ↔
      ∃ edges, table.graph.edges[txn]? = some edges ∧ edge ∈ edges := by
    intro txn edge
    rw [WaitGraph.edgesOf, Std.ExtTreeMap.getD_eq_getD_getElem?]
    cases table.graph.edges[txn]? <;> simp
  simp only [isReferenced, WaitGraph.mentions, Bool.or_eq_true, List.any_eq_true, Prod.exists,
    Std.ExtTreeMap.mem_toList_iff_getElem?_eq_some, decide_eq_true_eq, hedges]
  rw [or_comm]
  refine or_congr Iff.rfl ⟨?_, ?_⟩
  · rintro ⟨txn, edges, hfound, edge, hedge, hpage⟩
    exact ⟨txn, edge, ⟨edges, hfound, hedge⟩, hpage⟩
  · rintro ⟨txn, edge, ⟨edges, hfound, hedge⟩, hpage⟩
    exact ⟨txn, edges, hfound, edge, hedge, hpage⟩

/-- What requests and edges refer to has been made. -/
structure Made (table : LockTable) : Prop where
  pending : ∀ (txn : TxnId) (request : PendingRequest), table.pending[txn]? = some request →
    request.page ∈ table.locks
  edges : ∀ (txn : TxnId), ∀ edge ∈ table.graph.edgesOf txn, edge.page ∈ table.locks

namespace Made

theorem mem_locks (hmade : table.Made) (huse : table.InUse page) : page ∈ table.locks := by
  rcases huse with ⟨txn, mode, hholds⟩ | ⟨txn, request, hrequest, rfl⟩ | ⟨txn, edge, hedge, rfl⟩
  · exact mem_locks_of_holds hholds
  · exact hmade.pending txn request hrequest
  · exact hmade.edges txn edge hedge

/-- A lock that is in use is not removed. -/
theorem reclaim_of_inUse (hmade : table.Made) (huse : table.InUse page) :
    table.reclaim page = (false, table) := by
  have hmem := hmade.mem_locks huse
  have hlock : table.locks[page]? = some (table.lockOf page) := by
    rw [lockOf, Std.ExtTreeMap.getD_eq_getD_getElem?, Std.ExtTreeMap.getElem?_eq_some_getElem hmem,
      Option.getD_some]
  have hkept : table.isReclaimable page = false := by
    rw [isReclaimable, hlock]
    rcases huse with ⟨txn, mode, hholds⟩ | hreferred
    · have hbusy : (table.lockOf page).isIdle = false := by
        rw [← Bool.not_eq_true]
        intro hidle
        simp [LockState.holds_of_isIdle hidle] at hholds
      simp only [hbusy, Bool.false_and]
    · simp only [isReferenced_iff.mpr hreferred, Bool.not_true, Bool.and_false]
  simp only [reclaim, hkept, Bool.false_eq_true, if_false]

/-- What holds of a table is kept if no lock goes, and if new requests and edges refer to locks that
are there. -/
theorem of_keeps (hmade : before.Made) (hlocks : ∀ page ∈ before.locks, page ∈ after.locks)
    (hpending : ∀ (txn : TxnId) (request : PendingRequest), after.pending[txn]? = some request →
      request.page ∈ after.locks ∨
        ∃ found, before.pending[txn]? = some found ∧ found.page = request.page)
    (hedges : ∀ txn, ∀ edge ∈ after.graph.edgesOf txn,
      edge.page ∈ after.locks ∨ edge ∈ before.graph.edgesOf txn) : after.Made where
  pending txn request hrequest := by
    rcases hpending txn request hrequest with hmem | ⟨found, hfound, hpage⟩
    · exact hmem
    · exact hlocks _ (hpage ▸ hmade.pending txn found hfound)
  edges txn edge hedge := by
    rcases hedges txn edge hedge with hmem | hbefore
    · exact hmem
    · exact hlocks _ (hmade.edges txn edge hbefore)

theorem changeLocks (hmade : table.Made) {locks : PageMap LockState}
    (hlocks : ∀ page ∈ table.locks, page ∈ locks) : { table with locks }.Made :=
  hmade.of_keeps hlocks (fun _ request hrequest => .inr ⟨request, hrequest, rfl⟩)
    fun _ _ hedge => .inr hedge

theorem ensure (hmade : table.Made) (page : PageId) : (table.ensure page).Made :=
  hmade.changeLocks fun _ hother => Std.ExtTreeMap.mem_insertIfNew.mpr (.inr hother)

theorem setLock (hmade : table.Made) (page : PageId) (lock : LockState) :
    (table.setLock page lock).Made :=
  hmade.changeLocks fun _ hother => Std.ExtTreeMap.mem_insert.mpr (.inr hother)

theorem wake (hmade : table.Made) (released : PageId → Bool) : (table.wake released).Made := by
  refine hmade.of_keeps (fun _ hpage => hpage) (fun txn request hrequest => .inr ?_)
    fun _ _ hedge => .inr hedge
  rw [LockTable.wake, Std.ExtTreeMap.getElem?_map, Option.map_eq_some_iff] at hrequest
  obtain ⟨found, hfound, rfl⟩ := hrequest
  exact ⟨found, hfound, rfl⟩

theorem insertPending (hmade : table.Made) (txn : TxnId) (request : PendingRequest)
    (hpage : request.page ∈ table.locks) :
    { table with pending := table.pending.insert txn request }.Made := by
  refine hmade.of_keeps (fun _ hpage => hpage) (fun other found hfound => ?_)
    fun _ _ hedge => .inr hedge
  rw [Std.ExtTreeMap.getElem?_insert] at hfound
  split at hfound
  · exact .inl (Option.some.inj hfound ▸ hpage)
  · exact .inr ⟨found, hfound, rfl⟩

theorem erasePending (hmade : table.Made) (txn : TxnId) :
    { table with pending := table.pending.erase txn }.Made := by
  refine hmade.of_keeps (fun _ hpage => hpage) (fun other found hfound => ?_)
    fun _ _ hedge => .inr hedge
  rw [Std.ExtTreeMap.getElem?_erase] at hfound
  split at hfound
  · simp at hfound
  · exact .inr ⟨found, hfound, rfl⟩

theorem addEdge (hmade : table.Made) (txn : TxnId) (edge : WaitEdge)
    (hpage : edge.page ∈ table.locks) :
    { table with graph := table.graph.add txn edge }.Made := by
  refine hmade.of_keeps (fun _ hpage => hpage)
    (fun _ request hrequest => .inr ⟨request, hrequest, rfl⟩) fun other found hfound => ?_
  by_cases hsame : txn = other
  · subst hsame
    rw [WaitGraph.edgesOf_add_self] at hfound
    split at hfound
    · exact .inr hfound
    · rcases List.mem_append.mp hfound with hfound | hfound
      · exact .inr hfound
      · exact .inl (List.mem_singleton.mp hfound ▸ hpage)
  · rw [WaitGraph.edgesOf_add_of_ne hsame] at hfound
    exact .inr hfound

theorem removeEdge (hmade : table.Made) (txn : TxnId) (page : PageId) :
    (table.removeEdge txn page).Made := by
  refine hmade.of_keeps (fun _ hpage => hpage)
    (fun _ request hrequest => .inr ⟨request, hrequest, rfl⟩) fun other found hfound => .inr ?_
  have hfound : found ∈ (table.graph.remove txn page).edgesOf other := hfound
  by_cases hsame : txn = other
  · subst hsame
    rw [WaitGraph.edgesOf_remove_self] at hfound
    exact (List.mem_filter.mp hfound).1
  · rwa [WaitGraph.edgesOf_remove_of_ne hsame] at hfound

/-- A pass of a request for a lock that is there leaves it there. -/
theorem pass (hmade : table.Made) (hpage : page ∈ table.locks) (txn : TxnId) (mode : LockMode) :
    (table.pass txn page mode).2.Made ∧ page ∈ (table.pass txn page mode).2.locks := by
  have hwaiting := hmade.addEdge txn ⟨page, mode⟩ hpage
  simp only [LockTable.pass, waitOn]
  split
  · rename_i hrefused
    split at hrefused
    · obtain ⟨-, rfl⟩ := Prod.mk.inj hrefused
      exact ⟨(hwaiting.removeEdge txn page).setLock page _, Std.ExtTreeMap.mem_insert_self⟩
    · simp at hrefused
  · rename_i hwaits
    split at hwaits
    · simp at hwaits
    · obtain ⟨-, rfl⟩ := Prod.mk.inj hwaits
      split
      · exact ⟨(hwaiting.setLock page _).removeEdge txn page, Std.ExtTreeMap.mem_insert_self⟩
      · exact ⟨hwaiting, hpage⟩

theorem advance (hmade : table.Made) {request : PendingRequest}
    (hpage : request.page ∈ table.locks) (txn : TxnId) : (table.advance txn request).2.Made := by
  obtain ⟨hpassed, hmem⟩ := hmade.pass hpage txn request.mode
  simp only [LockTable.advance]
  split
  · rename_i heq
    rw [heq] at hpassed hmem
    exact hpassed.insertPending txn { request with asleep := true } hmem
  · rename_i heq
    rw [heq] at hpassed
    exact hpassed.erasePending txn

theorem submit (hmade : table.Made) (txn : TxnId) (page : PageId) (mode : LockMode) :
    (table.submit txn page mode).2.Made := by
  have hensure := hmade.ensure page
  have hattempt : (table.attempt txn page mode).2.Made ∧
      page ∈ (table.attempt txn page mode).2.locks := by
    simp only [attempt]
    split
    · exact ⟨hensure, Std.ExtTreeMap.mem_insertIfNew_self⟩
    · split <;> exact ⟨hensure.setLock page _, Std.ExtTreeMap.mem_insert_self⟩
  simp only [LockTable.submit]
  split
  · rename_i heq
    rw [heq] at hattempt
    exact hattempt.1
  · rename_i heq
    rw [heq] at hattempt
    exact hattempt.1.insertPending txn ⟨page, mode, false⟩ hattempt.2

theorem expire (hmade : table.Made) {request : PendingRequest}
    (hpage : request.page ∈ table.locks) (txn : TxnId) : (table.expire txn request).2.Made := by
  simp only [LockTable.expire]
  split
  · exact hmade.insertPending txn { request with asleep := false } hpage
  · exact ((hmade.setLock request.page _).removeEdge txn request.page).erasePending txn

theorem releaseAll (hmade : table.Made) (txn : TxnId) : (table.releaseAll txn).Made := by
  have hreleased : { table with
      locks := table.locks.map fun _ (lock : LockState) => lock.drop txn
      graph := table.graph.removeAll txn : LockTable }.Made := by
    refine hmade.of_keeps (fun _ hpage => Std.ExtTreeMap.mem_map.mpr hpage)
      (fun _ request hrequest => .inr ⟨request, hrequest, rfl⟩) ?_
    intro other found hfound
    by_cases hsame : txn = other
    · subst hsame
      simp at hfound
    · rw [WaitGraph.edgesOf_removeAll_of_ne hsame] at hfound
      exact .inr hfound
  exact hreleased.wake fun page => (table.lockOf page).holds txn .shared

/-- Only a lock that nothing refers to is removed. -/
theorem reclaim (hmade : table.Made) (page : PageId) : (table.reclaim page).2.Made := by
  by_cases huse : table.InUse page
  · rw [hmade.reclaim_of_inUse huse]
    exact hmade
  · have hkept : ∀ other ∈ table.locks, other ≠ page → other ∈ table.locks.erase page :=
      fun other hother hne => Std.ExtTreeMap.mem_erase.mpr
        ⟨fun hsame => hne (Std.compare_eq_iff_eq.mp hsame).symm, hother⟩
    simp only [LockTable.reclaim]
    split
    · refine ⟨fun txn request hrequest => hkept _ (hmade.pending txn request hrequest) ?_,
        fun txn edge hedge => hkept _ (hmade.edges txn edge hedge) ?_⟩
      · exact fun hpage => huse (.inr (.inl ⟨txn, request, hrequest, hpage⟩))
      · exact fun hpage => huse (.inr (.inr ⟨txn, edge, hedge, hpage⟩))
    · exact hmade

theorem perform (hmade : table.Made) (event : LockEvent) : (table.perform event).2.Made := by
  cases event with
  | submit txn page mode => exact hmade.submit txn page mode
  | advance txn =>
      simp only [LockTable.perform]
      split
      · exact hmade
      · rename_i request hrequest
        split
        · exact hmade
        · exact hmade.advance (hmade.pending txn request hrequest) txn
  | expire txn =>
      simp only [LockTable.perform]
      split
      · exact hmade
      · rename_i request hrequest
        exact hmade.expire (hmade.pending txn request hrequest) txn
  | releaseShared txn page =>
      simp only [LockTable.perform, releaseShared]
      split
      · exact (hmade.setLock page ((table.lockOf page).dropShared txn)).wake (· = page)
      · exact hmade
  | releaseExclusive txn page =>
      simp only [LockTable.perform, releaseExclusive]
      split
      · exact (hmade.setLock page (table.lockOf page).dropExclusive).wake (· = page)
      · exact hmade
  | release txn page =>
      simp only [LockTable.perform, release]
      split
      · exact (hmade.setLock page ((table.lockOf page).drop txn)).wake (· = page)
      · exact hmade
  | releaseAll txn => exact hmade.releaseAll txn
  | reclaim page => exact hmade.reclaim page

end Made

/-- In every reachable state, whatever is in use has been made. -/
theorem Run.made {history : List LockMoment} (hrun : Run {} history table) : table.Made := by
  induction hrun with
  | start => exact ⟨by simp, by simp [WaitGraph.edgesOf]⟩
  | step _ _ ih => exact ih.perform _

end LockTable

/-- What is seen of an event: what happens, what it answers, and what the table answers to whatever
it is asked after it. -/
structure LockSight where
  event : LockEvent
  answer : LockAnswer
  view : LockView

namespace LockMoment

/-- What is seen of the event. -/
def sight (moment : LockMoment) : LockSight :=
  ⟨moment.event, moment.table.answer moment.event, moment.after.view⟩

/-- What transactions see of a run. -/
def sights (history : List LockMoment) : List LockSight :=
  (history.filter fun moment => moment.event.isCall).map sight

variable {history : List LockMoment} {table : LockTable} {event : LockEvent}

theorem sights_concat_of_isCall (hcall : event.isCall = true) :
    sights (history ++ [⟨table, event⟩]) = sights history ++ [sight ⟨table, event⟩] := by
  simp [sights, hcall]

theorem sights_concat_of_not_isCall (hcall : event.isCall = false) :
    sights (history ++ [⟨table, event⟩]) = sights history := by
  simp [sights, hcall]

end LockMoment

namespace LockTable

variable {table other : LockTable} {history plain : List LockMoment} {events : List LockEvent}

/-- Alike tables show the same of a call. -/
theorem Alike.sight (halike : Alike table other) {event : LockEvent}
    (hcall : event.isCall = true) :
    LockMoment.sight ⟨other, event⟩ = LockMoment.sight ⟨table, event⟩ := by
  obtain ⟨hanswer, hafter⟩ := halike.perform hcall
  simp only [LockMoment.sight, LockMoment.after, hanswer, hafter.view]

/-- The calls of a run make a run by themselves, of which transactions see the same. -/
theorem Run.without_reclaims (hrun : Run {} history table) :
    ∃ plain last, Run {} plain last ∧
      plain.map LockMoment.event = (history.map LockMoment.event).filter LockEvent.isCall ∧
      LockMoment.sights plain = LockMoment.sights history ∧ Alike table last := by
  induction hrun with
  | start => exact ⟨[], {}, .start, rfl, rfl, .refl⟩
  | @step history table event hrun hadmits ih =>
      obtain ⟨plain, last, hplain, hevents, hsights, halike⟩ := ih
      cases hcall : event.isCall with
      | true =>
          refine ⟨plain ++ [⟨last, event⟩], _, hplain.step (halike.admits hadmits), ?_, ?_,
            (halike.perform hcall).2⟩
          · simp [hevents, hcall]
          · rw [LockMoment.sights_concat_of_isCall hcall, LockMoment.sights_concat_of_isCall hcall,
              hsights, halike.sight hcall]
      | false =>
          refine ⟨plain, last, hplain, ?_, ?_, ?_⟩
          · simp [hevents, hcall]
          · rw [LockMoment.sights_concat_of_not_isCall hcall, hsights]
          · obtain ⟨page, rfl⟩ := LockEvent.eq_reclaim hcall
            exact (Alike.of_reclaim hrun.regular.consistent page).symm.trans halike

/-- Removals can be added to a run of calls anywhere, and transactions see the same of it. -/
theorem Run.with_reclaims (hrun : Run {} plain table)
    (hevents : events.filter LockEvent.isCall = plain.map LockMoment.event) :
    ∃ full last, Run {} full last ∧ full.map LockMoment.event = events ∧
      LockMoment.sights full = LockMoment.sights plain ∧ Alike table last := by
  induction events using List.reverseRecOn generalizing plain table with
  | nil =>
      obtain rfl : plain = [] := List.map_eq_nil_iff.mp hevents.symm
      exact ⟨[], table, hrun, rfl, rfl, .refl⟩
  | append_singleton events event ih =>
      cases hcall : event.isCall with
      | true =>
          -- The last event of the run of calls is this one.
          rw [List.filter_append, List.filter_cons_of_pos hcall, List.filter_nil] at hevents
          obtain ⟨earlier, rest, rfl, hearlier, hrest⟩ := List.append_eq_map_iff.mp hevents
          obtain ⟨⟨before, event⟩, rfl, rfl⟩ := List.map_eq_singleton_iff.mp hrest
          obtain ⟨hbefore, hadmits, rfl⟩ := hrun.of_concat
          obtain ⟨full, last, hfull, hmap, hsights, halike⟩ := ih hbefore hearlier.symm
          refine ⟨full ++ [⟨last, event⟩], _, hfull.step (halike.admits hadmits), ?_, ?_,
            (halike.perform hcall).2⟩
          · simp [hmap]
          · rw [LockMoment.sights_concat_of_isCall hcall, LockMoment.sights_concat_of_isCall hcall,
              hsights, halike.sight hcall]
      | false =>
          rw [List.filter_append, List.filter_cons_of_neg (by simp [hcall]), List.filter_nil,
            List.append_nil] at hevents
          obtain ⟨full, last, hfull, hmap, hsights, halike⟩ := ih hrun hevents
          obtain ⟨page, rfl⟩ := LockEvent.eq_reclaim hcall
          have hadmits : last.Admits (.reclaim page) := trivial
          refine ⟨full ++ [⟨last, .reclaim page⟩], _, hfull.step hadmits, ?_, ?_,
            halike.trans (.of_reclaim hfull.regular.consistent page)⟩
          · simp [hmap]
          · rw [LockMoment.sights_concat_of_not_isCall hcall, hsights]

/-- Nobody can tell when locks are removed. Whatever run there is, and wherever removals are added
to its calls or left out, the calls make a run with the same answers, after each of them the table
answers alike to whatever it is asked, and no removal changes what it answers. A lock that a
transaction holds, or that a pending request or an edge refers to, is in the table at any time, and
stays there when its removal is tried, so they all refer to the lock that is in the table. -/
theorem reclaim_unobservable (hrun : Run {} history table)
    (hcalls : events.filter LockEvent.isCall =
      (history.map LockMoment.event).filter LockEvent.isCall) :
    ∃ full last, Run {} full last ∧ full.map LockMoment.event = events ∧
      LockMoment.sights full = LockMoment.sights history ∧ last.view = table.view ∧
      (∀ moment ∈ full, ∀ page, moment.event = .reclaim page →
        moment.after.view = moment.table.view) ∧
      ∀ state ∈ full.map LockMoment.table ++ [last], ∀ page, state.InUse page →
        page ∈ state.locks ∧ state.reclaim page = (false, state) := by
  obtain ⟨plain, middle, hplain, hevents, hsights, halike⟩ := hrun.without_reclaims
  obtain ⟨full, last, hfull, hmap, hsame, halike'⟩ :=
    hplain.with_reclaims (hcalls.trans hevents.symm)
  have hearlier : ∀ moment ∈ full, ∃ earlier, Run {} earlier moment.table := by
    intro moment hmoment
    obtain ⟨earlier, hreached⟩ := hfull.reached hmoment
    exact ⟨earlier, hreached.of_concat.1⟩
  refine ⟨full, last, hfull, hmap, hsame.trans hsights, (halike.trans halike').view, ?_, ?_⟩
  · intro moment hmoment page hevent
    obtain ⟨earlier, hrun⟩ := hearlier moment hmoment
    rw [LockMoment.after, hevent]
    exact (Alike.of_reclaim hrun.regular.consistent page).view
  · intro state hstate page huse
    have hmade : state.Made := by
      rcases List.mem_append.mp hstate with hbefore | hlast
      · obtain ⟨moment, hmoment, rfl⟩ := List.mem_map.mp hbefore
        obtain ⟨earlier, hrun⟩ := hearlier moment hmoment
        exact hrun.made
      · rw [List.mem_singleton.mp hlast]
        exact hfull.made
    exact ⟨hmade.mem_locks huse, hmade.reclaim_of_inUse huse⟩

/-- A reader gives a page up to a writer that waits for it. In between nobody holds the lock, which
is not removed since the writer waits, and it goes when the writer has ended. If removals are tried
at other moments of this, transactions see the same. -/
theorem reclaim_unobservable_handover :
    ∃ history table full last, Run {} history table ∧ samplePage ∉ table.locks ∧
      (∃ moment ∈ history, moment.event = .reclaim samplePage ∧
        (moment.table.lockOf samplePage).isIdle = true ∧ samplePage ∈ moment.after.locks) ∧
      Run {} full last ∧
      full.map LockMoment.event =
        [.submit ⟨1⟩ samplePage .shared, .reclaim samplePage, .submit ⟨2⟩ samplePage .exclusive,
          .reclaim samplePage, .advance ⟨2⟩, .releaseShared ⟨1⟩ samplePage, .advance ⟨2⟩,
          .reclaim samplePage, .releaseAll ⟨2⟩] ∧
      LockMoment.sights full = LockMoment.sights history ∧ last.view = table.view := by
  have hreplay : ((replay {} []
      [.submit ⟨1⟩ samplePage .shared, .submit ⟨2⟩ samplePage .exclusive, .advance ⟨2⟩,
        .releaseShared ⟨1⟩ samplePage, .reclaim samplePage, .advance ⟨2⟩, .releaseAll ⟨2⟩,
        .reclaim samplePage]).any fun (history, table) =>
      !table.locks.contains samplePage &&
        history.any (fun moment => moment.event = .reclaim samplePage &&
          (moment.table.lockOf samplePage).isIdle && moment.after.locks.contains samplePage) &&
        (history.map LockMoment.event).filter LockEvent.isCall =
          [.submit ⟨1⟩ samplePage .shared, .submit ⟨2⟩ samplePage .exclusive, .advance ⟨2⟩,
            .releaseShared ⟨1⟩ samplePage, .advance ⟨2⟩, .releaseAll ⟨2⟩]) = true := by
    decide +kernel
  obtain ⟨⟨history, table⟩, hreplay, hchecks⟩ := (Option.any_eq_true _ _).mp hreplay
  simp only [Bool.and_eq_true, decide_eq_true_eq, Bool.not_eq_true', List.any_eq_true,
    Std.ExtTreeMap.contains_iff_mem, ← Bool.not_eq_true] at hchecks
  obtain ⟨⟨hgone, moment, hmoment, ⟨hevent, hidle⟩, hkept⟩, hcalls⟩ := hchecks
  have hrun : Run {} history table := .of_replay .start hreplay
  have hothers : [.submit ⟨1⟩ samplePage .shared, .reclaim samplePage,
        .submit ⟨2⟩ samplePage .exclusive, .reclaim samplePage, .advance ⟨2⟩,
        .releaseShared ⟨1⟩ samplePage, .advance ⟨2⟩, .reclaim samplePage,
        .releaseAll ⟨2⟩].filter LockEvent.isCall =
      (history.map LockMoment.event).filter LockEvent.isCall := by
    rw [hcalls]
    decide
  obtain ⟨full, last, hfull, hmap, hsights, hview, _⟩ := reclaim_unobservable hrun hothers
  exact ⟨history, table, full, last, hrun, hgone, ⟨moment, hmoment, hevent, hidle, hkept⟩, hfull,
    hmap, hsights, hview⟩

end LockTable

end RowStore
