import RowStore.Lock.LockState

/-!
# The wait-for graph

The graph records which locks each transaction waits for. Its edges lead from a transaction to
a lock and not to the holders: whom a transaction waits for is read off the lock when a cycle is
searched, so an edge never goes stale. `search` walks depth first over the transactions that wait
and follows each of them at most once.
-/

namespace RowStore

/-- A lock that a transaction waits for, and the mode in which it wants it. -/
structure WaitEdge where
  page : PageId
  mode : LockMode
deriving DecidableEq, Repr

/-- The locks that each transaction waits for. A transaction that waits for none is not listed. -/
structure WaitGraph where
  edges : TxnMap (List WaitEdge) := ∅
deriving DecidableEq

namespace WaitGraph

/-- The edges of a transaction, in the order in which they were added. -/
def edgesOf (graph : WaitGraph) (txn : TxnId) : List WaitEdge :=
  graph.edges.getD txn []

/-- The pages that a transaction waits for, in the order in which it began to. -/
def waitingOn (graph : WaitGraph) (txn : TxnId) : List PageId :=
  (graph.edgesOf txn).map WaitEdge.page

/-- Whether some edge leads to the lock of the page. -/
def mentions (graph : WaitGraph) (page : PageId) : Bool :=
  graph.edges.toList.any fun entry => entry.2.any fun edge => edge.page = page

/-- The graph with an edge, which is recorded once. -/
def add (graph : WaitGraph) (txn : TxnId) (edge : WaitEdge) : WaitGraph :=
  let edges := graph.edgesOf txn
  if edge ∈ edges then graph
  else ⟨graph.edges.insert txn (edges ++ [edge])⟩

/-- The graph without the edges of the transaction to the lock of the page. -/
def remove (graph : WaitGraph) (txn : TxnId) (page : PageId) : WaitGraph :=
  match (graph.edgesOf txn).filter fun edge => edge.page ≠ page with
  | [] => ⟨graph.edges.erase txn⟩
  | edges => ⟨graph.edges.insert txn edges⟩

/-- The graph without any edge of the transaction. -/
def removeAll (graph : WaitGraph) (txn : TxnId) : WaitGraph :=
  ⟨graph.edges.erase txn⟩

/-- Whether `goal` is among the transactions on the stack or can be reached from them through
transactions that have not been followed yet, of which there are `count`. -/
def search (next : TxnId → List TxnId) (goal : TxnId) :
    (count : Nat) → (unseen stack : List TxnId) → Bool
  | 0, _, stack => stack.contains goal
  | count + 1, unseen, stack =>
      if stack.contains goal then true
      else
        match stack.dropWhile fun txn => !unseen.contains txn with
        | [] => false
        | txn :: rest => search next goal count (unseen.erase txn) (next txn ++ rest)

/-- The transactions that a transaction waits for, when `blockers` tells who stands in the way of
a request. -/
def waitsFor (graph : WaitGraph) (blockers : PageId → TxnId → LockMode → List TxnId)
    (txn : TxnId) : List TxnId :=
  (graph.edgesOf txn).flatMap fun edge => blockers edge.page txn edge.mode

/-- Whether the transaction waits, through any number of others, for itself. -/
def isOnCycle (graph : WaitGraph) (blockers : PageId → TxnId → LockMode → List TxnId)
    (txn : TxnId) : Bool :=
  let next := graph.waitsFor blockers
  let waiting := graph.edges.keys
  search next txn waiting.length waiting (next txn)

end WaitGraph

end RowStore
