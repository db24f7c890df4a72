import RowStore.Database.Operation

/-!
# Sessions

A session is a database in use by transactions that wait for one another. An operation runs
undisturbed until it ends or has to wait for a lock. It is then kept, and `resume` takes it
further once its request is awake. Whoever does not want to wait gives up, which refuses the
request that the operation waits with. A transaction that was begun in the session and is let go
before it ended is aborted.
-/

namespace RowStore

/-- How far an operation has come. -/
inductive Status where
  | ended (answer : Except Error Answer)
  /-- It waits for the lock that it needs. -/
  | blocked (operation : Operation)
  /-- It has met as many demands as it was given, and has made the next one to nobody. -/
  | paused (operation : Operation)
deriving DecidableEq

namespace Database

/-- How many demands an operation can make before it ends or waits. An insert makes at most two
on each page of the file and one on each page that it adds, and it adds no more pages than there
are full frames in the cache that outlived their pages, and one. -/
def demandBound (db : Database) : Operation → Nat
  | .getPage .. => 1
  | .insert heap .. => 2 * heap.pageCount db.storage + db.cache.residentCount + 2
  | .delete .. => 1
  | .scan walk => walk.cursor.heap.pageCount db.storage + 1

/-- Run an operation until it ends, has to wait, or has met as many demands as `fuel` says. -/
def runFor (fuel : Nat) (db : Database) (txn : TxnId) : Progress → Status × Database
  | .ended answer => (.ended answer, db)
  | .needs operation =>
      match fuel with
      | 0 => (.paused operation, db)
      | fuel + 1 =>
          let (page, mode) := operation.demand
          match db.locks.request txn page mode with
          | (.granted, locks) =>
              let (progress, db) := { db with locks }.proceed txn operation
              runFor fuel db txn progress
          | (.refused reason, locks) =>
              (.ended (operation.refuse (.aborted txn page reason)), { db with locks })
          | (.waits, locks) => (.blocked operation, { db with locks })

/-- Run an operation until it ends or has to wait. -/
def run (db : Database) (txn : TxnId) (progress : Progress) : Status × Database :=
  match progress with
  | .ended answer => (.ended answer, db)
  | .needs operation => db.runFor (db.demandBound operation) txn (.needs operation)

/-- Take an operation further whose pending request is awake. -/
def resume (db : Database) (txn : TxnId) (operation : Operation) (request : PendingRequest) :
    Status × Database :=
  match db.locks.advance txn request with
  | (.granted, locks) =>
      let (progress, db) := { db with locks }.proceed txn operation
      db.run txn progress
  | (.refused reason, locks) =>
      (.ended (operation.refuse (.aborted txn request.page reason)), { db with locks })
  | (.waits, locks) => (.blocked operation, { db with locks })

end Database

/-- A database, the operations that wait for a lock, and the transactions that were begun and
have not ended. -/
structure Session where
  db : Database
  waiting : TxnMap Operation := ∅
  active : TxnSet := ∅
deriving DecidableEq

namespace Session

/-- The session after an operation has come so far. -/
def note (session : Session) (txn : TxnId) (status : Status) (db : Database) :
    Option (Except Error Answer) × Session :=
  match status with
  | .ended answer => (some answer, { session with db, waiting := session.waiting.erase txn })
  | .blocked operation | .paused operation =>
      (none, { session with db, waiting := session.waiting.insert txn operation })

/-- Run an operation of a transaction. There is no answer if it has to wait. -/
def submit (session : Session) (txn : TxnId) (progress : Progress) :
    Option (Except Error Answer) × Session :=
  let (status, db) := session.db.run txn progress
  session.note txn status db

/-- Take the waiting operation of a transaction further if its request is awake. -/
def resume (session : Session) (txn : TxnId) : Option (Except Error Answer) × Session :=
  match session.waiting[txn]?, session.db.locks.pending[txn]? with
  | some operation, some request =>
      if request.asleep then (none, session)
      else
        let (status, db) := session.db.resume txn operation request
        session.note txn status db
  | _, _ => (none, session)

/-- End the wait of a transaction: its request is refused, or met if it could be by now. -/
def giveUp (session : Session) (txn : TxnId) : Option (Except Error Answer) × Session :=
  match session.waiting[txn]?, session.db.locks.pending[txn]? with
  | some operation, some request =>
      match session.db.locks.expire txn request with
      | (.refused reason, locks) =>
          session.note txn
            (.ended (operation.refuse (.aborted txn request.page reason)))
            { session.db with locks }
      | (_, locks) => { session with db := { session.db with locks } }.resume txn
  | _, _ => (none, session)

/-- Run an operation of a transaction that waits no longer than its time. -/
def call (session : Session) (txn : TxnId) (progress : Progress) :
    Option (Except Error Answer) × Session :=
  match session.submit txn progress with
  | (some answer, session) => (some answer, session)
  | (none, session) =>
      if session.db.config.lockTimeout.isSome then session.giveUp txn else (none, session)

/-- Request a lock for a transaction that waits no longer than its time. -/
def lock (session : Session) (txn : TxnId) (page : PageId) (mode : LockMode) :
    Verdict × Session :=
  let (verdict, locks) :=
    if session.db.config.lockTimeout.isSome then session.db.locks.acquireNow txn page mode
    else session.db.locks.request txn page mode
  (verdict, { session with db := { session.db with locks } })

/-- Begin a transaction. -/
def begin (session : Session) (txn : TxnId) : Session :=
  { session with active := session.active.insert txn }

/-- End a transaction, with a commit or an abort. It has ended even if this fails. -/
def complete (session : Session) (txn : TxnId) (commits : Bool) : Except Error Unit × Session :=
  let (answer, db) := if commits then session.db.commit txn else session.db.abort txn
  (answer, { session with db, active := session.active.erase txn })

/-- Let go of a transaction. If it was begun and has not ended it is aborted, and nobody learns
whether this fails. -/
def drop (session : Session) (txn : TxnId) : Session :=
  if session.active.contains txn then (session.complete txn false).2 else session

/-- Take every waiting operation further whose request is awake, and tell what those that ended
came to. -/
def sweep (session : Session) : List (TxnId × Except Error Answer) × Session :=
  session.waiting.keys.foldl
    (fun (answers, session) txn =>
      match session.resume txn with
      | (some answer, session) => (answers ++ [(txn, answer)], session)
      | (none, session) => (answers, session))
    ([], session)

/-- Whether some waiting operation can be taken further. -/
def hasAwake (session : Session) : Bool :=
  session.waiting.keys.any fun txn =>
    session.db.locks.pending[txn]?.any fun request => !request.asleep

/-- Sweep as often as `fuel` says, or until no operation can be taken further. -/
def settleFor : Nat → Session → List (TxnId × Except Error Answer) × Session
  | 0, session => ([], session)
  | fuel + 1, session =>
      if session.hasAwake then
        let (answers, session) := session.sweep
        let (later, session) := settleFor fuel session
        (answers ++ later, session)
      else ([], session)

/-- Take the waiting operations further until all of them sleep. Only an insert that leaves a full
page wakes others on its way, so the demands that the operations can make bound the sweeps. -/
def settle (session : Session) : List (TxnId × Except Error Answer) × Session :=
  let demands := session.waiting.toList.foldl
    (fun total entry => total + session.db.demandBound entry.2 + 1) 0
  settleFor (demands + 1) session

end Session

end RowStore
