import RowStore.Error
import RowStore.Lock.WaitGraph

/-!
# The lock table

The lock table holds the locks of pages, the wait-for graph, and the request that each blocked
transaction waits with. A request goes through three stages. `submit` grants it at once if that
is possible, and otherwise leaves it pending and awake. `advance` takes an awake request through
one pass: it records that the transaction waits, refuses the request if this closes a cycle,
grants it if that has become possible, and otherwise puts it to sleep. `expire` ends a request
that has waited too long. Only a release wakes the requests for the released lock, which then
pass again.

A transaction has one request outstanding at a time. A lock is made by the first request for its
page and stays until `reclaim` removes it, which it refuses while anything refers to the lock.
-/

namespace RowStore

/-- A request that has not been answered. -/
structure PendingRequest where
  page : PageId
  mode : LockMode
  /-- Whether the request sleeps, so that only a release of its lock takes it further. -/
  asleep : Bool := false
deriving DecidableEq, Repr

/-- What has become of a request. -/
inductive Verdict where
  | granted
  | refused (reason : Refusal)
  | waits
deriving DecidableEq, Repr

/-- The locks, the wait-for graph, and the pending requests. -/
structure LockTable where
  locks : PageMap LockState := ∅
  graph : WaitGraph := {}
  pending : TxnMap PendingRequest := ∅
deriving DecidableEq

namespace LockTable

/-- The holders of a page's lock. A lock that has not been made has none. -/
def lockOf (table : LockTable) (page : PageId) : LockState :=
  table.locks.getD page {}

/-- The table with the lock of a page, which is made if it is not there. -/
def ensure (table : LockTable) (page : PageId) : LockTable :=
  { table with locks := table.locks.insertIfNew page {} }

/-- The table after the lock of a page changed. -/
def setLock (table : LockTable) (page : PageId) (lock : LockState) : LockTable :=
  { table with locks := table.locks.insert page lock }

/-- The transactions that a request waits for. -/
def blockers (table : LockTable) (page : PageId) (txn : TxnId) (mode : LockMode) : List TxnId :=
  (table.lockOf page).blockers txn mode

/-- Whether the transaction is part of a cycle of transactions that wait for one another. -/
def isDeadlocked (table : LockTable) (txn : TxnId) : Bool :=
  table.graph.isOnCycle table.blockers txn

/-- Record that the transaction is about to wait for a lock. If it would then wait for itself it
is refused, and its edges to this lock are removed. -/
def waitOn (table : LockTable) (txn : TxnId) (page : PageId) (mode : LockMode) :
    Except Refusal Unit × LockTable :=
  let waiting := { table with graph := table.graph.add txn ⟨page, mode⟩ }
  if waiting.isDeadlocked txn then
    (.error .deadlock, { waiting with graph := waiting.graph.remove txn page })
  else (.ok (), waiting)

/-- The table without the edges of the transaction to one lock. -/
def removeEdge (table : LockTable) (txn : TxnId) (page : PageId) : LockTable :=
  { table with graph := table.graph.remove txn page }

/-- The table after the transaction took back the announcement of its upgrade. -/
def withdraw (table : LockTable) (txn : TxnId) (page : PageId) : LockTable :=
  table.setLock page ((table.lockOf page).withdraw txn)

/-- The first attempt of a request, which tells whether it was granted. -/
def attempt (table : LockTable) (txn : TxnId) (page : PageId) (mode : LockMode) :
    Bool × LockTable :=
  let table := table.ensure page
  let lock := table.lockOf page
  if lock.holds txn mode then (true, table)
  else
    let lock := lock.announce txn mode
    if lock.canGrant txn mode then (true, table.setLock page (lock.grant txn mode))
    else (false, table.setLock page lock)

/-- One pass of a request that was not granted at once. -/
def pass (table : LockTable) (txn : TxnId) (page : PageId) (mode : LockMode) :
    Verdict × LockTable :=
  match table.waitOn txn page mode with
  | (.error reason, table) => (.refused reason, table.withdraw txn page)
  | (.ok (), table) =>
      let lock := table.lockOf page
      if lock.canGrant txn mode then
        (.granted, (table.setLock page (lock.grant txn mode)).removeEdge txn page)
      else (.waits, table)

/-- Make a request. It is granted at once, or it is left pending and awake. -/
def submit (table : LockTable) (txn : TxnId) (page : PageId) (mode : LockMode) :
    Verdict × LockTable :=
  match table.attempt txn page mode with
  | (true, table) => (.granted, table)
  | (false, table) =>
      (.waits, { table with pending := table.pending.insert txn ⟨page, mode, false⟩ })

/-- Take the pending request of a transaction through one pass. It stays pending, asleep, if it
has to wait. -/
def advance (table : LockTable) (txn : TxnId) (request : PendingRequest) : Verdict × LockTable :=
  match table.pass txn request.page request.mode with
  | (.waits, table) =>
      (.waits, { table with
        pending := table.pending.insert txn { request with asleep := true } })
  | (verdict, table) => (verdict, { table with pending := table.pending.erase txn })

/-- Make a request and, if it is not granted at once, take it through its first pass. -/
def request (table : LockTable) (txn : TxnId) (page : PageId) (mode : LockMode) :
    Verdict × LockTable :=
  match table.submit txn page mode with
  | (.waits, table) => table.advance txn ⟨page, mode, false⟩
  | answer => answer

/-- End the pending request of a transaction whose time is over: it is refused, unless it could
be granted by now, in which case it is woken. -/
def expire (table : LockTable) (txn : TxnId) (request : PendingRequest) : Verdict × LockTable :=
  if (table.lockOf request.page).canGrant txn request.mode then
    (.waits, { table with
      pending := table.pending.insert txn { request with asleep := false } })
  else
    let table := (table.withdraw txn request.page).removeEdge txn request.page
    (.refused .timeout, { table with pending := table.pending.erase txn })

/-- Make a request and answer it without waiting: a request that would have to wait is refused as
one whose time is over. -/
def acquireNow (table : LockTable) (txn : TxnId) (page : PageId) (mode : LockMode) :
    Verdict × LockTable :=
  match table.request txn page mode with
  | (.waits, table) => table.expire txn ⟨page, mode, true⟩
  | answer => answer

/-- The table after the requests for the locks of some pages were woken. -/
def wake (table : LockTable) (released : PageId → Bool) : LockTable :=
  { table with
    pending := table.pending.map fun _ (request : PendingRequest) =>
      { request with asleep := request.asleep && !released request.page } }

/-- Give up a shared hold, which the transaction must have. -/
def releaseShared (table : LockTable) (txn : TxnId) (page : PageId) :
    Except Refusal LockTable :=
  let lock := table.lockOf page
  if txn ∈ lock.shared then .ok ((table.setLock page (lock.dropShared txn)).wake (· = page))
  else .error .notHeld

/-- Give up the exclusive hold, which the transaction must have. -/
def releaseExclusive (table : LockTable) (txn : TxnId) (page : PageId) :
    Except Refusal LockTable :=
  let lock := table.lockOf page
  if lock.exclusive = some txn then .ok ((table.setLock page lock.dropExclusive).wake (· = page))
  else .error .notHeld

/-- Give up whatever the transaction holds on a page, and tell whether it held anything. -/
def release (table : LockTable) (txn : TxnId) (page : PageId) : Bool × LockTable :=
  let lock := table.lockOf page
  if lock.holds txn .shared then (true, (table.setLock page (lock.drop txn)).wake (· = page))
  else (false, table)

/-- Give up everything that the transaction holds, at its end, with its edges in the graph. -/
def releaseAll (table : LockTable) (txn : TxnId) : LockTable :=
  let released := { table with
    locks := table.locks.map fun _ (lock : LockState) => lock.drop txn
    graph := table.graph.removeAll txn }
  released.wake fun page => (table.lockOf page).holds txn .shared

/-- Whether the transaction holds a page in shared mode and in no stronger one. -/
def holdsShared (table : LockTable) (txn : TxnId) (page : PageId) : Bool :=
  txn ∈ (table.lockOf page).shared

/-- Whether the transaction holds a page in exclusive mode. -/
def holdsExclusive (table : LockTable) (txn : TxnId) (page : PageId) : Bool :=
  (table.lockOf page).holds txn .exclusive

/-- Whether the transaction holds a page in either mode. -/
def holdsLock (table : LockTable) (txn : TxnId) (page : PageId) : Bool :=
  (table.lockOf page).holds txn .shared

/-- The pages that the transaction holds, in page order. -/
def lockedPages (table : LockTable) (txn : TxnId) : List PageId :=
  (table.locks.toList.filter fun entry => entry.2.holds txn .shared).map Prod.fst

/-- Whether a wait edge or a pending request refers to the lock of a page. -/
def isReferenced (table : LockTable) (page : PageId) : Bool :=
  table.graph.mentions page || table.pending.toList.any fun entry => entry.2.page = page

/-- Whether the lock of a page can be removed: it is not there, or nobody holds it and nothing
refers to it. -/
def isReclaimable (table : LockTable) (page : PageId) : Bool :=
  match table.locks[page]? with
  | none => true
  | some lock => lock.isIdle && !table.isReferenced page

/-- Remove the lock of a page if it can be, and tell whether the page has no lock now. -/
def reclaim (table : LockTable) (page : PageId) : Bool × LockTable :=
  if table.isReclaimable page then (true, { table with locks := table.locks.erase page })
  else (false, table)

/-- The number of locks. -/
def lockCount (table : LockTable) : Nat :=
  table.locks.size

/-- Take every awake request through a pass, in order of the transactions, and tell the answers
of those that are pending no more. -/
def settle (table : LockTable) : List (TxnId × Except Refusal Unit) × LockTable :=
  table.pending.toList.foldl
    (fun (answers, table) (txn, request) =>
      if request.asleep then (answers, table)
      else
        match table.advance txn request with
        | (.granted, table) => (answers ++ [(txn, .ok ())], table)
        | (.refused reason, table) => (answers ++ [(txn, .error reason)], table)
        | (.waits, table) => (answers, table))
    ([], table)

end LockTable

end RowStore
