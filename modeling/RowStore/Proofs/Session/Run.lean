import RowStore.Database.Session

/-!
# Runs of a session

A session is used by any number of transactions. `Event` is one thing that happens to it: a call
of a transaction, which runs until it ends or has to wait for a lock, a waiting call that goes on
or gives up, the end of a transaction, a flush, a discard, or a change of the catalog. `Run` is
a sequence of events in which a transaction has one call outstanding at a time and does nothing
after its end. The history of a run remembers each event with the session in which it happened.

`Moment.accesses` are the accesses to pages that the event made, in their order, each with what
the page held just before.
-/

namespace RowStore

/-- A call of a transaction. -/
inductive Call where
  | getPage (page : PageId) (mode : LockMode)
  | insert (table : TableId) (row : Row)
  | delete (row : Row)
  /-- A walk from the start of a table, over so many rows or over all. -/
  | scan (table : TableId) (budget : Option Nat)
  /-- A walk from where a cursor stands, over so many rows or over all. -/
  | walk (cursor : Cursor) (budget : Option Nat)
deriving DecidableEq

/-- A change of the catalog. -/
inductive CatalogChange where
  | create (name : String) (schema : Schema) (path : String) (primaryKey : Option String)
  | add (table : TableId) (name : String) (schema : Schema) (path : String) (pageSize : Nat)
      (primaryKey : Option String)
  | load (path : String)
  | clear
deriving DecidableEq

/-- One thing that happens to a session. -/
inductive Event where
  | call (txn : TxnId) (call : Call)
  /-- A waiting call goes on, if its request is awake. -/
  | resume (txn : TxnId)
  /-- A waiting call has waited too long. -/
  | giveUp (txn : TxnId)
  | complete (txn : TxnId) (commits : Bool)
  | flushPage (page : PageId)
  | flushOf (txn : TxnId)
  | flushAll
  | discard (page : PageId)
  | changeCatalog (change : CatalogChange)
deriving DecidableEq

/-- What an event comes to. -/
inductive Reply where
  | answered (answer : Except Error Answer)
  /-- The call waits for a lock. -/
  | waits
  | finished (result : Except Error Unit)
deriving DecidableEq

/-- An access of a transaction to a page under a lock, and what the page held just before. -/
structure Access where
  txn : TxnId
  page : PageId
  mode : LockMode
  content : Bytes
deriving DecidableEq

namespace Database

/-- The bytes of a page in the cache, if it is there. -/
def cached? (db : Database) (page : PageId) : Option Bytes :=
  db.cache.frames[page]?.map fun resident => resident.page.bytes

/-- The bytes of a page in the file of its table, fewer or none if the file ends before. -/
def onDisk (db : Database) (page : PageId) : Bytes :=
  match db.catalog.heapFile page.table with
  | .error _ => []
  | .ok heap =>
      Bytes.slice (db.storage.bytes heap.file) (page.number * heap.file.pageSize)
        heap.file.pageSize

/-- What a page holds: its bytes in the cache, or on disk if it is not in the cache. -/
def content (db : Database) (page : PageId) : Bytes :=
  (db.cached? page).getD (db.onDisk page)

/-- Begin a call of a transaction. -/
def begin (db : Database) (txn : TxnId) : Call → Progress × Database
  | .getPage page mode => (.needs (.getPage page mode), db)
  | .insert table row => db.beginInsert txn table row
  | .delete row => (db.beginDelete row, db)
  | .scan table budget =>
      match db.openCursor table with
      | .error error => (.ended (.error error), db)
      | .ok cursor => (db.beginScan cursor budget, db)
  | .walk cursor budget => (db.beginScan cursor budget, db)

/-- The database after a change of its catalog, whether it succeeded or failed. -/
def changeCatalog (db : Database) : CatalogChange → Database
  | .create name schema path primaryKey => (db.createTable name schema path primaryKey).2
  | .add table name schema path pageSize primaryKey =>
      (db.addTable table name schema path pageSize primaryKey).2
  | .load path => (db.loadSchema path).2
  | .clear => { db with catalog := db.catalog.clear }

/-- A database as it is opened: it was created, and its tables were made, whose files may hold
anything, but no page has been fetched. -/
inductive Opened : Database → Prop where
  | create {config : Config} {storage : Storage} {db : Database} :
      Database.create config storage = .ok db → Opened db
  | change {db : Database} (change : CatalogChange) : Opened db → Opened (db.changeCatalog change)

/-- The access that a transaction makes under a lock that it holds, unless the page cannot be
fetched. -/
def accessAt (db : Database) (txn : TxnId) (page : PageId) (mode : LockMode) : List Access :=
  match (db.access txn page mode).1 with
  | .error _ => []
  | .ok _ => [⟨txn, page, mode, db.content page⟩]

/-- The access that an operation makes whose demand is granted. -/
def accessOf (db : Database) (txn : TxnId) (operation : Operation) : List Access :=
  db.accessAt txn operation.demand.1 operation.demand.2

/-- The accesses of an operation that runs until it ends, has to wait, or has met as many demands
as `fuel` says. -/
def accessesFor (fuel : Nat) (db : Database) (txn : TxnId) : Progress → List Access
  | .ended _ => []
  | .needs operation =>
      match fuel with
      | 0 => []
      | fuel + 1 =>
          match db.locks.request txn operation.demand.1 operation.demand.2 with
          | (.granted, locks) =>
              let (progress, after) := { db with locks }.proceed txn operation
              { db with locks }.accessOf txn operation ++ accessesFor fuel after txn progress
          | _ => []

/-- The accesses of an operation that runs until it ends or has to wait. -/
def accessesOf (db : Database) (txn : TxnId) : Progress → List Access
  | .ended _ => []
  | .needs operation => db.accessesFor (db.demandBound operation) txn (.needs operation)

/-- The accesses of an operation whose pending request is awake. -/
def accessesOfResumed (db : Database) (txn : TxnId) (operation : Operation)
    (request : PendingRequest) : List Access :=
  match db.locks.advance txn request with
  | (.granted, locks) =>
      let (progress, after) := { db with locks }.proceed txn operation
      { db with locks }.accessOf txn operation ++ after.accessesOf txn progress
  | _ => []

end Database

namespace Session

/-- Let an event happen. -/
def perform (session : Session) : Event → Reply × Session
  | .call txn call =>
      let (progress, db) := session.db.begin txn call
      let (answer, session) := { session with db }.submit txn progress
      (answer.elim .waits .answered, session)
  | .resume txn =>
      let (answer, session) := session.resume txn
      (answer.elim .waits .answered, session)
  | .giveUp txn =>
      let (answer, session) := session.giveUp txn
      (answer.elim .waits .answered, session)
  | .complete txn commits =>
      let (result, session) := session.complete txn commits
      (.finished result, session)
  | .flushPage page =>
      let (result, db) := session.db.flushPage page
      (.finished result, { session with db })
  | .flushOf txn =>
      let (result, db) := session.db.flushOf txn
      (.finished result, { session with db })
  | .flushAll =>
      let (result, db) := session.db.flushAll
      (.finished result, { session with db })
  | .discard page => (.finished (.ok ()), { session with db := session.db.discardPage page })
  | .changeCatalog change =>
      (.finished (.ok ()), { session with db := session.db.changeCatalog change })

/-- The session after an event. -/
def apply (session : Session) (event : Event) : Session :=
  (session.perform event).2

/-- The accesses of a waiting call that goes on. -/
def accessesOfResumed (session : Session) (txn : TxnId) : List Access :=
  match session.waiting[txn]?, session.db.locks.pending[txn]? with
  | some operation, some request =>
      if request.asleep then [] else session.db.accessesOfResumed txn operation request
  | _, _ => []

end Session

/-- An event, and the session in which it happened. -/
structure Moment where
  session : Session
  event : Event

namespace Moment

/-- What the event came to. -/
def reply (moment : Moment) : Reply :=
  (moment.session.perform moment.event).1

/-- The session after the event. -/
def after (moment : Moment) : Session :=
  moment.session.apply moment.event

/-- The accesses to pages that the event made, in their order. -/
def accesses (moment : Moment) : List Access :=
  match moment.event with
  | .call txn call =>
      let (progress, db) := moment.session.db.begin txn call
      db.accessesOf txn progress
  | .resume txn => moment.session.accessesOfResumed txn
  | .giveUp txn =>
      match moment.session.waiting[txn]?, moment.session.db.locks.pending[txn]? with
      | some _, some request =>
          match moment.session.db.locks.expire txn request with
          | (.refused _, _) => []
          | (_, locks) =>
              { moment.session with
                db := { moment.session.db with locks } }.accessesOfResumed txn
      | _, _ => []
  | _ => []

end Moment

/-- The page that a call has changed, which its answer names. -/
def Answer.changed? : Answer → Option PageId
  | .inserted _ ref | .deleted ref => some ref.page
  | .page _ | .scanned .. => none

/-- The pages that a call has changed that has come so far. -/
def Reply.changes : Reply → List PageId
  | .answered (.ok answer) => answer.changed?.toList
  | .answered (.error _) | .waits | .finished _ => []

namespace Event

/-- The transaction that does something in the event. -/
def actor? : Event → Option TxnId
  | .call txn _ | .resume txn | .giveUp txn | .complete txn _ => some txn
  | _ => none

/-- Whether the event ends the transaction. -/
def completes (event : Event) (txn : TxnId) : Bool :=
  event = .complete txn true || event = .complete txn false

/-- Whether the event leaves the catalog alone. -/
def keepsCatalog : Event → Bool
  | .changeCatalog _ => false
  | _ => true

/-- Whether the event drops no page from the cache without writing it. -/
def keepsPages : Event → Bool
  | .discard _ => false
  | _ => true

end Event

/-- Whether the transaction has changed the page by this event. -/
def Moment.changes (moment : Moment) (txn : TxnId) (page : PageId) : Bool :=
  moment.event.actor? = some txn && moment.reply.changes.contains page

/-- The event may happen now: a transaction that makes a call or ends has no call outstanding and
has not ended before. -/
def Session.Admits (session : Session) (history : List Moment) : Event → Prop
  | .call txn _ | .complete txn _ =>
      session.waiting[txn]? = none ∧
        ∀ moment ∈ history, moment.event.completes txn = false
  | _ => True

instance (session : Session) (history : List Moment) (event : Event) :
    Decidable (session.Admits history event) :=
  match event with
  | .call .. | .complete .. => inferInstanceAs (Decidable (_ ∧ _))
  | .resume _ | .giveUp _ | .flushPage _ | .flushOf _ | .flushAll | .discard _
  | .changeCatalog _ => isTrue trivial

/-- The runs of a session, with their histories. -/
inductive Session.Run (start : Session) : List Moment → Session → Prop where
  | start : Run start [] start
  | step {history : List Moment} {session : Session} {event : Event} :
      Run start history session → session.Admits history event →
      Run start (history ++ [⟨session, event⟩]) (session.apply event)

namespace Session.Run

variable {start session last : Session} {history : List Moment} {moment : Moment}

/-- A run comes to its last event in the session that the history remembers. -/
theorem of_append (hrun : Run start (history ++ [moment]) last) :
    Run start history moment.session ∧ moment.session.Admits history moment.event ∧
      last = moment.after := by
  generalize hfull : history ++ [moment] = full at hrun
  cases hrun with
  | start => simp at hfull
  | step hrun hadmits =>
      obtain ⟨rfl, hlast⟩ := List.append_inj' hfull rfl
      rw [List.singleton_inj] at hlast
      subst hlast
      exact ⟨hrun, hadmits, rfl⟩

/-- The history of a run determines the session that it comes to. -/
theorem unique (hrun : Run start history session) (hother : Run start history last) :
    session = last := by
  cases hrun with
  | start =>
      generalize hempty : [] = history at hother
      cases hother with
      | start => rfl
      | step => simp at hempty
  | step => exact hother.of_append.2.2.symm

/-- Every event of a run is the last one of a shorter run. -/
theorem of_mem (hrun : Run start history last) (hmoment : moment ∈ history) :
    ∃ earlier later, history = earlier ++ moment :: later ∧
      Run start (earlier ++ [moment]) moment.after := by
  induction hrun with
  | start => simp at hmoment
  | @step history session event hrun hadmits ih =>
      rcases List.mem_append.mp hmoment with hearlier | hlast
      · obtain ⟨earlier, later, rfl, hshorter⟩ := ih hearlier
        exact ⟨earlier, later ++ [⟨session, event⟩], by simp, hshorter⟩
      · rw [List.mem_singleton] at hlast
        subst hlast
        exact ⟨history, [], rfl, .step hrun hadmits⟩

end Session.Run

/-- Let events happen one after the other, as long as each may happen. -/
def Session.replay (session : Session) (history : List Moment) :
    List Event → Option (List Moment × Session)
  | [] => some (history, session)
  | event :: rest =>
      if session.Admits history event then
        replay (session.apply event) (history ++ [⟨session, event⟩]) rest
      else none

/-- Events that may happen one after the other make a run. -/
theorem Session.Run.of_replay {start session last : Session} {history full : List Moment}
    {events : List Event} (hrun : Run start history session)
    (h : session.replay history events = some (full, last)) : Run start full last := by
  induction events generalizing session history with
  | nil =>
      simp only [replay, Option.some.injEq, Prod.mk.injEq] at h
      obtain ⟨rfl, rfl⟩ := h
      exact hrun
  | cons event rest ih =>
      simp only [replay] at h
      split at h
      · rename_i hadmits
        exact ih (.step hrun hadmits) h
      · simp at h

/-- Events that happen one after the other are remembered in their order. -/
theorem Session.replay_eq_append {session last : Session} {history full : List Moment}
    {events : List Event} (h : session.replay history events = some (full, last)) :
    ∃ further, full = history ++ further ∧ further.map Moment.event = events := by
  induction events generalizing session history with
  | nil =>
      simp only [replay, Option.some.injEq, Prod.mk.injEq] at h
      exact ⟨[], by simp [h.1], rfl⟩
  | cons event rest ih =>
      simp only [replay] at h
      split at h
      · obtain ⟨further, rfl, rfl⟩ := ih h
        exact ⟨⟨session, event⟩ :: further, by simp, rfl⟩
      · simp at h

end RowStore
