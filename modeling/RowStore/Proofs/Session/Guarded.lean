import RowStore.Proofs.Database.Writing
import RowStore.Proofs.Session.Effect

/-!
# Sessions whose pages are guarded

In a guarded session a before-image belongs to the exclusive holder of its page, whoever has
announced an upgrade waits for it, and every waiting insert counts on pages that are there. Every
event keeps a session guarded, whatever files the tables keep their pages in and whether writes
succeed. `Acts` says what a transaction does in an event: of the others, it makes nobody a shared
holder beside a writer, its own pages stay in the cache while it holds them, and an upgrade that
it no longer waits for was granted or refused in the reply.
-/

namespace RowStore

/-- Before-images, upgrades, and waiting inserts are as they should be. -/
structure Session.Guarded (session : Session) : Prop where
  orderly : session.Orderly
  sound : session.db.catalog.Sound
  regular : session.db.locks.Regular
  counted : ∀ (txn : TxnId) (operation : Operation), session.waiting[txn]? = some operation →
    operation.Counted session.db.storage
  owner : ∀ txn page, (session.db.journal.image? txn page).isSome = true →
    (session.db.locks.lockOf page).exclusive = some txn

/-- What a transaction that holds the pages has done in an event, and the session after it. -/
structure Acts (txn : TxnId) (pages : List PageId) (session : Session) (accesses : List Access)
    (reply : Reply) (after : Session) : Prop where
  work : Work txn session.db accesses reply.changes after.db
  spares : LockTable.Spares txn session.db.locks after.db.locks
  retains : after.db.Retains txn (pages ++ accesses.map Access.page)
  guarded : after.Guarded
  refused : ∀ page, txn ∈ (session.db.locks.lockOf page).upgrading →
    txn ∉ (after.db.locks.lockOf page).upgrading →
    txn ∈ (after.db.locks.lockOf page).shared →
    ∃ reason, reply = .answered (.error (.aborted txn page reason))

/-- The session in which an operation has come to rest, and what its transaction learns. -/
def Session.rest (session : Session) (txn : TxnId) (rested : Status × Database) :
    Reply × Session :=
  ((session.note txn rested.1 rested.2).1.elim .waits .answered,
    (session.note txn rested.1 rested.2).2)

theorem Session.db_rest (session : Session) (txn : TxnId) (rested : Status × Database) :
    (session.rest txn rested).2.db = rested.2 :=
  Orderly.db_note session txn rested.1 rested.2

/-- The page that the event drops from the cache without writing it. -/
def Event.dropped? : Event → Option PageId
  | .discard page => some page
  | _ => none

/-- What has happened to a session in which no transaction has worked: the locks are as they were,
and so are the frames' bytes, but for one page perhaps. -/
structure Idle (touched : Option PageId) (session after : Session) : Prop where
  guarded : after.Guarded
  locks : after.db.locks = session.db.locks
  cached : ∀ page, touched ≠ some page → after.db.cached? page = session.db.cached? page

/-- A work keeps before-images with the exclusive holders of their pages. -/
theorem Work.owner {txn : TxnId} {before after : Database} {accesses : List Access}
    {changes : List PageId} (hwork : Work txn before accesses changes after)
    (howner : ∀ other page, (before.journal.image? other page).isSome = true →
      (before.locks.lockOf page).exclusive = some other) :
    ∀ other page, (after.journal.image? other page).isSome = true →
      (after.locks.lockOf page).exclusive = some other := by
  refine hwork.preserves (fun db => ∀ other page, (db.journal.image? other page).isSome = true →
    (db.locks.lockOf page).exclusive = some other) ?_ howner
  intro before after _ _ hact howner other page himage
  have hbefore : (before.locks.lockOf page).exclusive = some other := by
    rcases hact.image other page with hsame | ⟨rfl, _, _, _, hheld, _⟩
    · exact howner other page (hsame ▸ himage)
    · exact hheld
  rcases hact.exclusive page with hsame | ⟨hnone, _⟩
  · rw [hsame, hbefore]
  · simp [hnone] at hbefore

/-- A transaction that holds a page exclusively goes on holding it while it works. -/
theorem Work.exclusive_keeps {txn : TxnId} {before after : Database} {accesses : List Access}
    {changes : List PageId} (hwork : Work txn before accesses changes after) {page : PageId}
    (howner : (before.locks.lockOf page).exclusive = some txn) :
    (after.locks.lockOf page).exclusive = some txn := by
  refine hwork.preserves (fun db => (db.locks.lockOf page).exclusive = some txn) ?_ howner
  intro before after _ _ hact howner
  rcases hact.exclusive page with hsame | ⟨_, hsome⟩
  · rw [hsame, howner]
  · exact hsome

/-- A pending request that has to wait further changes no lock. -/
theorem LockTable.lockOf_advance_of_waits {table locks : LockTable} {txn : TxnId}
    {request : PendingRequest} (h : table.advance txn request = (.waits, locks)) (page : PageId) :
    locks.lockOf page = table.lockOf page := by
  have hpass : ∀ passed, table.pass txn request.page request.mode = (.waits, passed) →
      passed.lockOf page = table.lockOf page := by
    intro passed hpassed
    simp only [pass] at hpassed
    split at hpassed
    · simp at hpassed
    · rename_i waiting hwait
      split at hpassed
      · simp at hpassed
      · simp only [Prod.mk.injEq, true_and] at hpassed
        rw [← hpassed, ← @lockOf_waitOn table txn request.page page request.mode, hwait]
  simp only [advance] at h
  split at h
  · rename_i passed hpassed
    simp only [Prod.mk.injEq, true_and] at h
    rw [← h]
    exact hpass passed hpassed
  · rename_i verdict passed hne _
    simp only [Prod.mk.injEq] at h
    exact absurd h.1 hne

/-- A request that could be met when its time is over changes no lock. -/
theorem LockTable.lockOf_expire_of_waits {table locks : LockTable} {txn : TxnId}
    {request : PendingRequest} (h : table.expire txn request = (.waits, locks)) (page : PageId) :
    locks.lockOf page = table.lockOf page := by
  simp only [expire] at h
  split at h
  · simp only [Prod.mk.injEq, true_and] at h
    rw [← h]
    rfl
  · simp at h

/-- An operation that needs write access ends with the error that its demand is answered by. -/
theorem Operation.refuse_of_exclusive {operation : Operation} (h : operation.demand.2 = .exclusive)
    (error : Error) : operation.refuse error = .error error := by
  cases operation with
  | scan walk => simp [demand] at h
  | getPage | insert | delete => rfl

namespace Database

variable {db : Database} {txn : TxnId} {operation : Operation} {request : PendingRequest}

/-- What becomes of the lock that a waiting operation is taken further for: it is refused, or held
from then on, or nothing has changed. -/
theorem resumeFor_answer (fuel : Nat) (hsound : db.catalog.Sound)
    (hawaits : operation.Awaits db.locks txn) (hpending : db.locks.pending[txn]? = some request)
    (hmode : request.mode = .exclusive) :
    (∃ reason, (db.resumeFor fuel txn operation request).1 =
        .ended (.error (.aborted txn request.page reason))) ∨
      ((db.resumeFor fuel txn operation request).2.locks.lockOf request.page).exclusive =
        some txn ∨
      ∀ page, (db.resumeFor fuel txn operation request).2.locks.lockOf page =
        db.locks.lockOf page := by
  have hdemand := hawaits.2 request hpending
  have htreated := LockTable.advance_treated db.locks txn request
  rcases hadvance : db.locks.advance txn request with ⟨verdict, locks⟩
  rw [hadvance] at htreated
  have hready : operation.Ready locks txn :=
    hawaits.1.of_serves (by rw [hdemand]; exact htreated.serves)
  simp only [resumeFor, hadvance]
  cases verdict with
  | granted =>
      right; left
      have hgranted : ({ db with locks } : Database).catalog.Sound := hsound
      have hproceeds := proceed_advances hgranted hready
        (by rw [hdemand]; exact htreated.granted rfl)
      have hrested := runFor_rested fuel (by rw [hproceeds.work.catalog]; exact hsound)
        (htreated.answered (by simp)) hproceeds
      have howner := htreated.granted rfl
      rw [hmode] at howner
      exact hrested.work.exclusive_keeps (LockState.holds_exclusive_iff.mp howner)
  | refused reason =>
      left
      refine ⟨reason, ?_⟩
      show Status.ended (operation.refuse _) = _
      rw [Operation.refuse_of_exclusive (by rw [hdemand]; exact hmode)]
  | waits => exact .inr (.inr (LockTable.lockOf_advance_of_waits hadvance))

end Database

namespace Session.Guarded

variable {session : Session} {txn : TxnId} {pages : List PageId}

/-- A session in which an operation has come to rest is guarded. -/
theorem note (hguarded : session.Guarded) {accesses : List Access} {kept : List PageId}
    {status : Status} {after : Database} (hrested : Rested txn session.db accesses status after)
    (hkept : Kept txn kept session.db status after) :
    (session.note txn status after).2.Guarded := by
  have hothers : ∀ (waiting : TxnMap Operation) (other : TxnId) (operation : Operation),
      waiting[other]? = some operation → waiting[other]? = session.waiting[other]? →
      operation.Counted after.storage := by
    intro waiting other operation hoperation hsame
    exact (hguarded.counted other operation (hsame ▸ hoperation)).of_grows hkept.grows
  refine ⟨hguarded.orderly.note hrested, ?_, ?_, ?_, ?_⟩
  · rw [Orderly.db_note, hrested.work.catalog]
    exact hguarded.sound
  · rw [Orderly.db_note]
    exact hkept.spares.regular hguarded.regular
  · intro other operation hwaiting
    rw [Orderly.db_note]
    by_cases hsame : txn = other
    · subst hsame
      cases status with
      | ended answer => simp [Session.note] at hwaiting
      | blocked resting | paused resting =>
          simp only [Session.note, Std.ExtTreeMap.getElem?_insert_self, Option.some.injEq]
            at hwaiting
          rw [← hwaiting]
          exact hkept.counted
    · refine hothers _ other operation hwaiting ?_
      cases status with
      | ended answer => simp [Session.note, Std.ExtTreeMap.getElem?_erase, hsame]
      | blocked resting | paused resting =>
          simp [Session.note, Std.ExtTreeMap.getElem?_insert, hsame]
  · rw [Orderly.db_note]
    exact hrested.work.owner hguarded.owner

/-- A transaction without a request has announced no upgrade. -/
theorem not_mem_upgrading (hguarded : session.Guarded)
    (hpending : session.db.locks.pending[txn]? = none) (page : PageId) :
    txn ∉ (session.db.locks.lockOf page).upgrading := by
  intro hupgrading
  obtain ⟨request, hrequest, _⟩ := hguarded.regular.upgrading page txn hupgrading
  simp [hpending] at hrequest

/-- What an operation has done that has come to rest. -/
theorem acts (hguarded : session.Guarded) {accesses : List Access} {rested : Status × Database}
    (hrested : Rested txn session.db accesses rested.1 rested.2)
    (hkept : Kept txn (pages ++ accesses.map Access.page) session.db rested.1 rested.2)
    (hrefused : ∀ page, txn ∈ (session.db.locks.lockOf page).upgrading →
      txn ∉ (rested.2.locks.lockOf page).upgrading → txn ∈ (rested.2.locks.lockOf page).shared →
      ∃ reason, rested.1 = .ended (.error (.aborted txn page reason))) :
    Acts txn pages session accesses (session.rest txn rested).1 (session.rest txn rested).2 where
  work := (hguarded.orderly.worked hrested).work
  spares := by
    rw [db_rest]
    exact hkept.spares
  retains := by
    rw [db_rest]
    exact hkept.retains
  guarded := hguarded.note hrested hkept
  refused page := by
    rw [db_rest]
    intro hupgrading hended hshared
    obtain ⟨reason, hreason⟩ := hrefused page hupgrading hended hshared
    refine ⟨reason, ?_⟩
    rw [rest, hreason]
    rfl

/-- A transaction that does nothing. -/
theorem acts_nothing (hguarded : session.Guarded) (hretains : session.db.Retains txn pages) :
    Acts txn pages session [] .waits session where
  work := .none session.db
  spares := .refl
  retains := by rwa [List.map_nil, List.append_nil]
  guarded := hguarded
  refused _ hupgrading hended := absurd hupgrading hended

/-- A call of a transaction that does not wait, which makes as many demands as `fuel` says. -/
theorem begin_acts (fuel : Nat) (hguarded : session.Guarded)
    (hfree : session.waiting[txn]? = none) (hretains : session.db.Retains txn pages)
    (hholds : ∀ page ∈ pages, session.db.locks.holdsLock txn page = true) (call : Call) :
    Acts txn pages session
      ((session.db.begin txn call).2.accessesFor fuel txn (session.db.begin txn call).1)
      (session.rest txn ((session.db.begin txn call).2.runFor fuel txn
        (session.db.begin txn call).1)).1
      (session.rest txn ((session.db.begin txn call).2.runFor fuel txn
        (session.db.begin txn call).1)).2 := by
  have hpending := hguarded.orderly.pending txn hfree
  have hbegins := Database.begin_advances hguarded.sound txn call
  exact hguarded.acts
    (Database.runFor_rested fuel (by rw [hbegins.work.catalog]; exact hguarded.sound) hpending
      hbegins)
    (Database.begin_kept fuel hguarded.sound hpending hretains hholds call)
    fun page hupgrading => absurd hupgrading (hguarded.not_mem_upgrading hpending page)

/-- A call of a transaction that does not wait. -/
theorem call_acts (hguarded : session.Guarded) (hfree : session.waiting[txn]? = none)
    (hretains : session.db.Retains txn pages)
    (hholds : ∀ page ∈ pages, session.db.locks.holdsLock txn page = true) (call : Call) :
    Acts txn pages session (Moment.mk session (.call txn call)).accesses
      (session.perform (.call txn call)).1 (session.perform (.call txn call)).2 := by
  obtain ⟨fuel, hrun, haccesses⟩ := (session.db.begin txn call).2.run_eq_runFor txn
    (session.db.begin txn call).1
  have hacts := hguarded.begin_acts fuel hfree hretains hholds call
  rw [← hrun, ← haccesses] at hacts
  exact hacts

/-- A call that waits for no lock and makes as many demands as `fuel` says. -/
theorem runFor_acts (fuel : Nat) (hguarded : session.Guarded) {operation : Operation}
    (hwaiting : session.waiting[txn]? = some operation)
    (hpending : session.db.locks.pending[txn]? = none) (hretains : session.db.Retains txn pages)
    (hholds : ∀ page ∈ pages, session.db.locks.holdsLock txn page = true) :
    Acts txn pages session (session.db.accessesFor fuel txn (.needs operation))
      (session.rest txn (session.db.runFor fuel txn (.needs operation))).1
      (session.rest txn (session.db.runFor fuel txn (.needs operation))).2 := by
  have hready := (hguarded.orderly.awaits txn operation hwaiting).1
  have hadvances : Advances txn session.db [] (.needs operation) session.db :=
    ⟨.none session.db, hready, id⟩
  exact hguarded.acts (Database.runFor_rested fuel hguarded.sound hpending hadvances)
    (Database.runFor_kept fuel hguarded.sound hpending hready hretains
      ⟨hguarded.counted txn operation hwaiting, fun page hpage => .inl (hholds page hpage)⟩)
    fun page hupgrading => absurd hupgrading (hguarded.not_mem_upgrading hpending page)

/-- A waiting call that is taken further, by as many demands as `fuel` says. -/
theorem resumeFor_acts (fuel : Nat) (hguarded : session.Guarded) {operation : Operation}
    {request : PendingRequest} (hwaiting : session.waiting[txn]? = some operation)
    (hpending : session.db.locks.pending[txn]? = some request)
    (hretains : session.db.Retains txn pages)
    (hholds : ∀ page ∈ pages, session.db.locks.holdsLock txn page = true) :
    Acts txn pages session (session.db.accessesOfResumedFor fuel txn operation request)
      (session.rest txn (session.db.resumeFor fuel txn operation request)).1
      (session.rest txn (session.db.resumeFor fuel txn operation request)).2 := by
  have hawaits := hguarded.orderly.awaits txn operation hwaiting
  have hkept := Database.resumeFor_kept fuel hguarded.sound hawaits
    (hguarded.counted txn operation hwaiting) hpending hretains hholds
  refine hguarded.acts (Database.resumeFor_rested fuel hguarded.sound hawaits hpending) hkept ?_
  intro page hupgrading hended hshared
  obtain ⟨found, hfound, rfl, hmode⟩ := hguarded.regular.upgrading page txn hupgrading
  obtain rfl := Option.some.inj (hpending.symm.trans hfound)
  rcases Database.resumeFor_answer fuel hguarded.sound hawaits hpending hmode with
    hrefused | howner | hsame
  · exact hrefused
  · have hconsistent := (hkept.spares.regular hguarded.regular).consistent request.page
    exact absurd hshared (hconsistent.apart txn howner)
  · rw [hsame] at hended
    exact absurd hupgrading hended

/-- A waiting call that goes on. -/
theorem resume_acts (hguarded : session.Guarded) (hretains : session.db.Retains txn pages)
    (hholds : ∀ page ∈ pages, session.db.locks.holdsLock txn page = true) :
    Acts txn pages session (session.accessesOfResumed txn) (session.perform (.resume txn)).1
      (session.perform (.resume txn)).2 := by
  cases hwaiting : session.waiting[txn]? with
  | none =>
      simp only [perform, resume, accessesOfResumed, hwaiting]
      exact hguarded.acts_nothing hretains
  | some operation =>
      cases hpending : session.db.locks.pending[txn]? with
      | none =>
          simp only [perform, resume, accessesOfResumed, hwaiting, hpending]
          exact hguarded.acts_nothing hretains
      | some request =>
          cases hasleep : request.asleep with
          | true =>
              simp only [perform, resume, accessesOfResumed, hwaiting, hpending, hasleep, if_true]
              exact hguarded.acts_nothing hretains
          | false =>
              simp only [perform, resume, accessesOfResumed, hwaiting, hpending, hasleep,
                Bool.false_eq_true, if_false]
              obtain ⟨fuel, hresume, haccesses⟩ :=
                session.db.resume_eq_resumeFor txn operation request
              rw [hresume, haccesses]
              exact hguarded.resumeFor_acts fuel hwaiting hpending hretains hholds

/-- A transaction whose request is woken as its time is over. -/
theorem woken_acts (hguarded : session.Guarded) {operation : Operation} {request : PendingRequest}
    {locks : LockTable} (hwaiting : session.waiting[txn]? = some operation)
    (hpending : session.db.locks.pending[txn]? = some request)
    (hexpire : session.db.locks.expire txn request = (.waits, locks))
    (hkept : locks.pending[txn]? = some { request with asleep := false })
    (hretains : session.db.Retains txn pages) :
    Acts txn pages session [] .waits { session with db := { session.db with locks } } := by
  have hserves := (LockTable.expire_serves session.db.locks txn request).1
  have hspares := LockTable.expire_spares hpending
  rw [hexpire] at hserves hspares
  have hwork : Work txn session.db [] [] { session.db with locks } := .single (.lock hserves)
  have hlocks := LockTable.lockOf_expire_of_waits hexpire
  refine ⟨hwork, hspares, ?_, ⟨hguarded.orderly.expire hwaiting hpending hserves hkept,
    hguarded.sound, hspares.regular hguarded.regular, hguarded.counted,
    hwork.owner hguarded.owner⟩, ?_⟩
  · intro page hpage hholds
    rw [List.map_nil, List.append_nil] at hpage
    have hbefore : session.db.locks.holdsLock txn page = true := by
      rw [← hholds, LockTable.holdsLock, LockTable.holdsLock, hlocks]
    exact hretains page hpage hbefore
  · intro page hupgrading hended
    exact absurd (by rwa [hlocks]) hended

/-- A transaction whose request is refused as its time is over. -/
theorem refused_acts (hguarded : session.Guarded) {operation : Operation}
    {request : PendingRequest} {locks : LockTable} {reason : Refusal}
    (hwaiting : session.waiting[txn]? = some operation)
    (hpending : session.db.locks.pending[txn]? = some request)
    (hexpire : session.db.locks.expire txn request = (.refused reason, locks))
    (hnone : locks.pending[txn]? = none) (hretains : session.db.Retains txn pages)
    (hholds : ∀ page ∈ pages, session.db.locks.holdsLock txn page = true) :
    Acts txn pages session []
      (session.rest txn (.ended (operation.refuse (.aborted txn request.page reason)),
        { session.db with locks })).1
      (session.rest txn (.ended (operation.refuse (.aborted txn request.page reason)),
        { session.db with locks })).2 := by
  have hserves := (LockTable.expire_serves session.db.locks txn request).1
  have hspares := LockTable.expire_spares hpending
  rw [hexpire] at hserves hspares
  have hrested : Rested txn session.db [] (.ended (operation.refuse
      (.aborted txn request.page reason))) { session.db with locks } := by
    refine ⟨?_, hnone⟩
    rw [Operation.changes_refuse]
    exact .single (.lock hserves)
  refine hguarded.acts hrested ⟨hspares, .refl, ?_, trivial⟩ ?_
  · intro page hpage _
    rw [List.map_nil, List.append_nil] at hpage
    exact hretains page hpage (hholds page hpage)
  · intro page hupgrading _ _
    obtain ⟨found, hfound, rfl, hmode⟩ := hguarded.regular.upgrading page txn hupgrading
    obtain rfl := Option.some.inj (hpending.symm.trans hfound)
    have hdemand := (hguarded.orderly.awaits txn operation hwaiting).2 request hpending
    refine ⟨reason, ?_⟩
    rw [Operation.refuse_of_exclusive (by rw [hdemand]; exact hmode)]

/-- A waiting call that has waited too long. -/
theorem giveUp_acts (hguarded : session.Guarded) (hretains : session.db.Retains txn pages)
    (hholds : ∀ page ∈ pages, session.db.locks.holdsLock txn page = true) :
    Acts txn pages session (Moment.mk session (.giveUp txn)).accesses
      (session.perform (.giveUp txn)).1 (session.perform (.giveUp txn)).2 := by
  cases hwaiting : session.waiting[txn]? with
  | none =>
      simp only [perform, giveUp, Moment.accesses, hwaiting]
      exact hguarded.acts_nothing hretains
  | some operation =>
      cases hpending : session.db.locks.pending[txn]? with
      | none =>
          simp only [perform, giveUp, Moment.accesses, hwaiting, hpending]
          exact hguarded.acts_nothing hretains
      | some request =>
          rcases (LockTable.expire_serves session.db.locks txn request).2 with
            ⟨locks, hexpire, hkept⟩ | ⟨reason, locks, hexpire, hnone⟩
          · have hwoken := hguarded.woken_acts hwaiting hpending hexpire hkept hretains
            have hlocks := LockTable.lockOf_expire_of_waits hexpire
            have hheld : ∀ page, locks.holdsLock txn page =
                session.db.locks.holdsLock txn page := fun page => by
              rw [LockTable.holdsLock, hlocks]
              rfl
            have hresumed := hwoken.guarded.resume_acts
              (fun page hpage h => hretains page hpage ((hheld page).symm.trans h))
              (fun page hpage => (hheld page).trans (hholds page hpage))
            simp only [perform, giveUp, Moment.accesses, hwaiting, hpending, hexpire]
            refine ⟨Work.append hwoken.work hresumed.work,
              hwoken.spares.trans hresumed.spares, hresumed.retains, hresumed.guarded, ?_⟩
            intro page hupgrading
            rw [← hlocks page] at hupgrading
            exact hresumed.refused page hupgrading
          · simp only [perform, giveUp, Moment.accesses, hwaiting, hpending, hexpire]
            exact hguarded.refused_acts hwaiting hpending hexpire hnone hretains hholds

/-- Flushes and restorations keep a session guarded. -/
theorem of_undisturbed (hguarded : session.Guarded) {touched : PageId → Prop} {db : Database}
    (hundisturbed : Undisturbed touched session.db db) : Guarded { session with db } where
  orderly := hguarded.orderly.of_locks_eq rfl hundisturbed.locks
  sound := by
    rw [hundisturbed.catalog]
    exact hguarded.sound
  regular := by
    rw [hundisturbed.locks]
    exact hguarded.regular
  counted txn operation hwaiting :=
    (hguarded.counted txn operation hwaiting).of_grows hundisturbed.grows
  owner txn page himage := by
    rw [hundisturbed.locks]
    exact hguarded.owner txn page ((hundisturbed.images txn page).symm.trans himage)

/-- The end of a transaction keeps a session guarded. -/
theorem finish (hguarded : session.Guarded) (txn : TxnId) (active : TxnSet) :
    Guarded { session with db := session.db.finish txn, active } where
  orderly := hguarded.orderly.finish rfl rfl rfl
  sound := hguarded.sound
  regular := (LockTable.releaseAll_spares session.db.locks txn).regular hguarded.regular
  counted := hguarded.counted
  owner other page himage := by
    rw [Database.image?_finish] at himage
    split at himage
    · simp at himage
    · rename_i hne
      rw [Database.exclusive_finish, hguarded.owner other page himage, if_neg]
      simpa using Ne.symm hne

/-- The pages that the end of a transaction touches: those that an abort has a before-image of. -/
theorem complete_undisturbed (session : Session) (txn : TxnId) (commits : Bool) :
    ∃ db, Undisturbed (fun page => (session.db.journal.image? txn page).isSome = true)
        session.db db ∧
      session.apply (.complete txn commits) =
        { session with db := db.finish txn, active := session.active.erase txn } := by
  cases commits with
  | true =>
      have hflushed := Database.flushEach_undisturbed session.db
        (session.db.cache.pagesWhere fun frame => frame.dirtiedBy = some txn)
      exact ⟨(session.db.flushOf txn).2, ⟨hflushed.locks, hflushed.catalog, hflushed.grows,
        hflushed.images, hflushed.resident, fun page _ => hflushed.cached page id⟩, rfl⟩
  | false => exact ⟨_, Database.rollBack_undisturbed session.db txn, rfl⟩

/-- Flushes leave the holds of all pages as they were, and the bytes of those in the cache. -/
theorem flushEach_idle (hguarded : session.Guarded) (flushed : List PageId) :
    Idle none session { session with db := (session.db.flushEach flushed).2 } := by
  have hflushed := Database.flushEach_undisturbed session.db flushed
  exact ⟨hguarded.of_undisturbed hflushed, hflushed.locks,
    fun page _ => hflushed.cached page id⟩

/-- An event in which no transaction acts leaves the holds of all pages as they were, and the bytes
of those in the cache that it does not drop. -/
theorem apply_idle (hguarded : session.Guarded) {event : Event} (hactor : event.actor? = none) :
    Idle event.dropped? session (session.apply event) := by
  cases event with
  | call | resume | giveUp | complete => simp [Event.actor?] at hactor
  | flushOf txn => exact hguarded.flushEach_idle _
  | flushAll => exact hguarded.flushEach_idle _
  | flushPage page =>
      have hidle := hguarded.flushEach_idle [page]
      rwa [Database.flushEach_singleton] at hidle
  | discard page =>
      refine ⟨⟨hguarded.orderly.of_locks_eq rfl rfl, hguarded.sound, hguarded.regular,
        hguarded.counted, hguarded.owner⟩, rfl, ?_⟩
      intro other hother
      have hne : page ≠ other := fun hsame => hother (congrArg some hsame)
      simp only [Database.cached?]
      show ((session.db.discardPage page).cache.frames[other]?).map _ = _
      rw [Database.frames_discardPage, if_neg hne]
  | changeCatalog change =>
      obtain ⟨catalog, storage, hchange, hharmless⟩ :=
        Database.changeCatalog_eq session.db change
      have hafter : (session.apply (.changeCatalog change)).db =
          { session.db with catalog, storage } := hchange
      refine ⟨⟨hguarded.orderly.of_locks_eq rfl ?_, ?_, ?_, ?_, ?_⟩, ?_, ?_⟩
      · rw [hafter]
      · rw [hafter]
        exact hharmless.sound hguarded.sound
      · rw [hafter]
        exact hguarded.regular
      · rw [hafter]
        intro txn operation hwaiting
        exact (hguarded.counted txn operation hwaiting).of_grows (.of_content hharmless.content)
      · rw [hafter]
        exact hguarded.owner
      · rw [hafter]
      · intro page _
        rw [hafter]
        rfl

end Session.Guarded

end RowStore
