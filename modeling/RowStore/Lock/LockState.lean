import RowStore.Identifier

/-!
# The holders of one page lock

A page lock is held by any number of transactions in shared mode or by one in exclusive mode.
A shared holder may ask for the exclusive mode: it announces its upgrade, and it is granted when
every other shared holder has announced one too, since a transaction that waits for its upgrade
reads nothing until it is granted. `canGrant` decides whether a request can be granted, and
`blockers` lists the transactions that it waits for.
-/

namespace RowStore

/-- The access to a page that a lock gives. -/
inductive LockMode where
  | shared
  | exclusive
deriving DecidableEq, Repr

instance : ToString LockMode where
  toString
    | .shared => "S"
    | .exclusive => "X"

/-- The holders of one page lock, and those shared holders that have asked for the exclusive
mode. -/
structure LockState where
  exclusive : Option TxnId := none
  shared : TxnSet := ∅
  upgrading : TxnSet := ∅
deriving DecidableEq

namespace LockState

/-- Whether the transaction holds the lock in the mode or in a stronger one. -/
def holds (lock : LockState) (txn : TxnId) : LockMode → Bool
  | .shared => lock.exclusive = some txn || txn ∈ lock.shared
  | .exclusive => lock.exclusive = some txn

/-- Whether nobody holds the lock. -/
def isIdle (lock : LockState) : Bool :=
  lock.exclusive.isNone && lock.shared.isEmpty

/-- Whether a request of the transaction can be granted. -/
def canGrant (lock : LockState) (txn : TxnId) (mode : LockMode) : Bool :=
  match lock.exclusive, mode with
  | some holder, _ => holder = txn
  | none, .shared => true
  | none, .exclusive =>
      if txn ∈ lock.shared then
        lock.shared.toList.all fun other => other = txn || other ∈ lock.upgrading
      else lock.shared.isEmpty

/-- The transactions that a request of the transaction waits for, in order of their numbers. -/
def blockers (lock : LockState) (txn : TxnId) (mode : LockMode) : List TxnId :=
  match lock.exclusive, mode with
  | some holder, _ => if holder = txn then [] else [holder]
  | none, .shared => []
  | none, .exclusive =>
      lock.shared.toList.filter fun other =>
        other ≠ txn && !(txn ∈ lock.upgrading && other ∈ lock.upgrading)

/-- The lock after the transaction asked for the mode: a shared holder that asks for the
exclusive mode announces its upgrade. -/
def announce (lock : LockState) (txn : TxnId) (mode : LockMode) : LockState :=
  if mode = .exclusive ∧ txn ∈ lock.shared then
    { lock with upgrading := lock.upgrading.insert txn }
  else lock

/-- The lock after the transaction was given the mode. -/
def grant (lock : LockState) (txn : TxnId) : LockMode → LockState
  | .shared =>
      if lock.exclusive = some txn then lock
      else { lock with shared := lock.shared.insert txn }
  | .exclusive =>
      { exclusive := some txn
        shared := lock.shared.erase txn
        upgrading := lock.upgrading.erase txn }

/-- The lock after the transaction took back the announcement of its upgrade. -/
def withdraw (lock : LockState) (txn : TxnId) : LockState :=
  { lock with upgrading := lock.upgrading.erase txn }

/-- The lock after the transaction gave up its shared hold and its upgrade. -/
def dropShared (lock : LockState) (txn : TxnId) : LockState :=
  { lock with shared := lock.shared.erase txn, upgrading := lock.upgrading.erase txn }

/-- The lock after the exclusive holder gave it up. -/
def dropExclusive (lock : LockState) : LockState :=
  { lock with exclusive := none }

/-- The lock after the transaction gave up whatever it held. -/
def drop (lock : LockState) (txn : TxnId) : LockState :=
  let lock := lock.dropShared txn
  if lock.exclusive = some txn then lock.dropExclusive else lock

end LockState

end RowStore
