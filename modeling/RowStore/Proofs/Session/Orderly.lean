import RowStore.Proofs.Database.Progress

/-!
# Sessions are orderly

In an orderly session every waiting operation may go on when its request is granted, and whoever
has no waiting operation has no pending request. Every event keeps a session orderly, and what a
call does in an event is a work: `Orderly.call_work`, `Orderly.resume_work`, and
`Orderly.giveUp_work`.
-/

namespace RowStore

namespace Act

variable {txn other : TxnId} {before after : Database} {accesses : List Access}
  {changes : List PageId}

/-- What an act can do to the exclusive holder of a page: it makes its transaction the holder of a
page that had none. -/
theorem exclusive (hact : Act txn before accesses changes after) (page : PageId) :
    (after.locks.lockOf page).exclusive = (before.locks.lockOf page).exclusive ∨
      (before.locks.lockOf page).exclusive = none ∧
        (after.locks.lockOf page).exclusive = some txn := by
  cases hact with
  | lock hserves =>
      rcases hserves.exclusive page with hsame | ⟨_, _, hnone, hsome⟩
      · exact .inl hsame
      · exact .inr ⟨hnone, hsome⟩
  | @release released howner =>
      left
      simp only [LockTable.lockOf_release]
      split
      · rename_i heq
        subst heq
        split
        · rw [LockState.exclusive_drop, if_neg howner]
        · rfl
      · rfl
  | fetch hfetched => exact .inl (hfetched.exclusive page)
  | read | note | change | append => exact .inl rfl

/-- An act makes no request of another transaction, and takes none back. -/
theorem pending_other (hact : Act txn before accesses changes after) (hother : other ≠ txn)
    {request : PendingRequest} (h : after.locks.pending[other]? = some request) :
    ∃ found, before.locks.pending[other]? = some found ∧ found.page = request.page ∧
      found.mode = request.mode := by
  cases hact with
  | lock hserves =>
      rw [hserves.pending other hother] at h
      exact ⟨request, h, rfl, rfl⟩
  | release => exact LockTable.pending_release h
  | fetch hfetched =>
      rw [hfetched.pending] at h
      exact ⟨request, h, rfl, rfl⟩
  | read | note | change | append => exact ⟨request, h, rfl, rfl⟩

/-- A waiting operation of another transaction still waits. -/
theorem awaits_other (hact : Act txn before accesses changes after) (hother : other ≠ txn)
    {operation : Operation} (hawaits : operation.Awaits before.locks other) :
    operation.Awaits after.locks other := by
  refine ⟨hawaits.1.of_exclusive ?_, ?_⟩
  · intro page howner hheld
    rcases hact.exclusive page with hsame | ⟨_, hsome⟩
    · exact howner (hsame ▸ hheld)
    · rw [hsome, Option.some.injEq] at hheld
      exact hother hheld.symm
  · intro request hrequest
    obtain ⟨found, hfound, hpage, hmode⟩ := hact.pending_other hother hrequest
    rw [hawaits.2 found hfound, hpage, hmode]

/-- A transaction without a request still has none. -/
theorem pending_none_other (hact : Act txn before accesses changes after) (hother : other ≠ txn)
    (hnone : before.locks.pending[other]? = none) : after.locks.pending[other]? = none := by
  cases h : after.locks.pending[other]? with
  | none => rfl
  | some request =>
      obtain ⟨found, hfound, _⟩ := hact.pending_other hother h
      simp [hnone] at hfound

end Act

/-- Whoever waits may go on when its request is granted, and nobody else has made a request. -/
structure Session.Orderly (session : Session) : Prop where
  awaits : ∀ (txn : TxnId) (operation : Operation), session.waiting[txn]? = some operation →
    operation.Awaits session.db.locks txn
  pending : ∀ txn : TxnId, session.waiting[txn]? = none → session.db.locks.pending[txn]? = none

namespace Session.Orderly

variable {session : Session} {txn : TxnId} {accesses : List Access} {changes : List PageId}
  {after : Database} {status : Status}

/-- The work of a transaction keeps the others waiting as they were, so the session stays orderly
if the transaction itself does. -/
theorem of_work (horderly : session.Orderly) (hwork : Work txn session.db accesses changes after)
    {waiting : TxnMap Operation}
    (hothers : ∀ other : TxnId, other ≠ txn → waiting[other]? = session.waiting[other]?)
    (hawaits : ∀ operation : Operation, waiting[txn]? = some operation →
      operation.Awaits after.locks txn)
    (hpending : waiting[txn]? = none → after.locks.pending[txn]? = none) :
    Orderly { session with db := after, waiting } where
  awaits other operation hwaiting := by
    -- What the others wait for is only kept act by act, as each act may change who holds a page.
    by_cases hsame : other = txn
    · subst hsame
      exact hawaits operation hwaiting
    · rw [hothers other hsame] at hwaiting
      exact hwork.preserves (fun db => operation.Awaits db.locks other)
        (fun hact => hact.awaits_other hsame) (horderly.awaits other operation hwaiting)
  pending other hwaiting := by
    by_cases hsame : other = txn
    · subst hsame
      exact hpending hwaiting
    · rw [hothers other hsame] at hwaiting
      exact hwork.preserves (fun db => db.locks.pending[other]? = none)
        (fun hact => hact.pending_none_other hsame) (horderly.pending other hwaiting)

/-- A session in which an operation has rested is orderly. -/
theorem note (horderly : session.Orderly)
    (hrested : Rested txn session.db accesses status after) :
    (session.note txn status after).2.Orderly := by
  cases status with
  | ended answer =>
      refine horderly.of_work hrested.work ?_ ?_ fun _ => hrested.rests
      · intro other hother
        simp [Std.ExtTreeMap.getElem?_erase, hother.symm]
      · intro operation hwaiting
        simp at hwaiting
  | blocked resting | paused resting =>
      refine horderly.of_work hrested.work ?_ ?_ ?_
      · intro other hother
        simp [Std.ExtTreeMap.getElem?_insert, hother.symm]
      · intro operation hwaiting
        simp only [Std.ExtTreeMap.getElem?_insert_self, Option.some.injEq] at hwaiting
        rw [← hwaiting]
        exact hrested.rests
      · intro hwaiting
        simp at hwaiting

/-- What a call answers names the pages that it has changed. -/
theorem changes_note (session : Session) (txn : TxnId) (status : Status) (after : Database) :
    ((session.note txn status after).1.elim Reply.waits Reply.answered).changes =
      status.changes := by
  cases status with
  | ended answer => cases answer <;> rfl
  | blocked operation | paused operation => rfl

/-- A session whose operation has rested keeps the database that it has worked on. -/
theorem db_note (session : Session) (txn : TxnId) (status : Status) (after : Database) :
    (session.note txn status after).2.db = after := by
  cases status <;> rfl

end Session.Orderly

/-- What a transaction has done in an event, and the session after it. -/
structure Worked (txn : TxnId) (session : Session) (accesses : List Access) (reply : Reply)
    (after : Session) : Prop where
  work : Work txn session.db accesses reply.changes after.db
  orderly : after.Orderly

namespace Session.Orderly

variable {session : Session} {txn : TxnId}

/-- An operation that has rested has worked. -/
theorem worked (horderly : session.Orderly) {accesses : List Access} {status : Status}
    {after : Database} (hrested : Rested txn session.db accesses status after) :
    Worked txn session accesses ((session.note txn status after).1.elim .waits .answered)
      (session.note txn status after).2 := by
  refine ⟨?_, horderly.note hrested⟩
  rw [changes_note, db_note]
  exact hrested.work

/-- A call of a transaction that does not wait. -/
theorem call_worked (horderly : session.Orderly) (hsound : session.db.catalog.Sound)
    (hfree : session.waiting[txn]? = none) (call : Call) :
    Worked txn session (Moment.mk session (.call txn call)).accesses
      (session.perform (.call txn call)).1 (session.perform (.call txn call)).2 :=
  horderly.worked (Database.begin_rested hsound (horderly.pending txn hfree) call)

/-- A waiting call that goes on. -/
theorem resume_worked (horderly : session.Orderly) (hsound : session.db.catalog.Sound)
    (txn : TxnId) :
    Worked txn session (session.accessesOfResumed txn)
      (session.perform (.resume txn)).1 (session.perform (.resume txn)).2 := by
  cases hwaiting : session.waiting[txn]? with
  | none =>
      simp only [perform, resume, accessesOfResumed, hwaiting]
      exact ⟨.none session.db, horderly⟩
  | some operation =>
      cases hpending : session.db.locks.pending[txn]? with
      | none =>
          simp only [perform, resume, accessesOfResumed, hwaiting, hpending]
          exact ⟨.none session.db, horderly⟩
      | some request =>
          have hresumed := horderly.worked
            (Database.resume_rested hsound (horderly.awaits txn operation hwaiting) hpending)
          cases hasleep : request.asleep with
          | true =>
              simp only [perform, resume, accessesOfResumed, hwaiting, hpending, hasleep, if_true]
              exact ⟨.none session.db, horderly⟩
          | false =>
              simp only [perform, resume, accessesOfResumed, hwaiting, hpending, hasleep,
                Bool.false_eq_true, if_false]
              exact hresumed

/-- A session whose waiting request was woken is orderly. -/
theorem expire (horderly : session.Orderly) {operation : Operation} {request : PendingRequest}
    {locks : LockTable} (hwaiting : session.waiting[txn]? = some operation)
    (hpending : session.db.locks.pending[txn]? = some request)
    (hserves : LockTable.Serves txn request.page request.mode session.db.locks locks)
    (hkept : locks.pending[txn]? = some { request with asleep := false }) :
    Orderly { session with db := { session.db with locks } } := by
  obtain ⟨hready, hdemand⟩ := horderly.awaits txn operation hwaiting
  have hdemand := hdemand request hpending
  have hready : operation.Ready locks txn := hready.of_serves (by rw [hdemand]; exact hserves)
  refine horderly.of_work (.single (.lock hserves)) (fun _ _ => rfl) ?_ ?_
  · intro found hfound
    rw [hwaiting, Option.some.injEq] at hfound
    subst hfound
    refine ⟨hready, ?_⟩
    intro other hother
    rw [show locks.pending[txn]? = some other from hother, Option.some.injEq] at hkept
    rw [hdemand, hkept]
  · intro hnone
    simp [hwaiting] at hnone

/-- A waiting call that has waited too long. -/
theorem giveUp_worked (horderly : session.Orderly) (hsound : session.db.catalog.Sound)
    (txn : TxnId) :
    Worked txn session (Moment.mk session (.giveUp txn)).accesses
      (session.perform (.giveUp txn)).1 (session.perform (.giveUp txn)).2 := by
  cases hwaiting : session.waiting[txn]? with
  | none =>
      simp only [perform, giveUp, Moment.accesses, hwaiting]
      exact ⟨.none session.db, horderly⟩
  | some operation =>
      cases hpending : session.db.locks.pending[txn]? with
      | none =>
          simp only [perform, giveUp, Moment.accesses, hwaiting, hpending]
          exact ⟨.none session.db, horderly⟩
      | some request =>
          obtain ⟨hserves, hexpired⟩ := LockTable.expire_serves session.db.locks txn request
          rcases hexpired with ⟨locks, hexpire, hkept⟩ | ⟨reason, locks, hexpire, hnone⟩
          · rw [hexpire] at hserves
            have hresumed := (horderly.expire hwaiting hpending hserves hkept).resume_worked
              hsound txn
            simp only [perform, giveUp, Moment.accesses, hwaiting, hpending, hexpire]
            exact ⟨Work.append (.single (.lock hserves)) hresumed.work, hresumed.orderly⟩
          · rw [hexpire] at hserves
            simp only [perform, giveUp, Moment.accesses, hwaiting, hpending, hexpire]
            apply horderly.worked
            refine ⟨?_, hnone⟩
            rw [Operation.changes_refuse]
            exact .single (.lock hserves)

end Session.Orderly

end RowStore
