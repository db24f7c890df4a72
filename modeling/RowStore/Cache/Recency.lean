import RowStore.Identifier

/-!
# Recency of pages

Every access to a page is stamped by a clock, and the recency of pages keeps the last stamp of
each. `order` lists the pages from the one that was not accessed for the longest time, and
`evict` takes the first of them that may leave.
-/

namespace RowStore

/-- The clock, and the stamp of the last access of each tracked page. -/
structure Recency where
  clock : Nat := 0
  lastAccess : PageMap Nat := ∅
deriving DecidableEq

/-- What an eviction did: the page that it chose, and the pages that it offered on the way, the
chosen one included. -/
structure Eviction where
  victim : Option PageId
  offered : List PageId
deriving DecidableEq, Repr

namespace Recency

/-- The recency after the page was accessed. -/
def access (recency : Recency) (page : PageId) : Recency :=
  let now := recency.clock + 1
  ⟨now, recency.lastAccess.insert page now⟩

/-- The recency without the page. -/
def remove (recency : Recency) (page : PageId) : Recency :=
  { recency with lastAccess := recency.lastAccess.erase page }

/-- Whether an entry of the recency is offered before another one: the older stamp comes first,
and of two equal stamps the smaller page. -/
def offeredBefore (a b : PageId × Nat) : Bool :=
  a.2 < b.2 || (a.2 = b.2 && (compare a.1 b.1).isLE)

/-- A list that is in the order of offers, with one more entry at its place. -/
def place (entry : PageId × Nat) : List (PageId × Nat) → List (PageId × Nat)
  | [] => [entry]
  | other :: rest =>
      if offeredBefore entry other then entry :: other :: rest else other :: place entry rest

/-- The tracked pages, the one that was accessed longest ago first. -/
def order (recency : Recency) : List PageId :=
  (recency.lastAccess.toList.foldr place []).map Prod.fst

/-- The pages up to the first that may leave. -/
def offer (mayLeave : PageId → Bool) : List PageId → Eviction
  | [] => ⟨none, []⟩
  | page :: rest =>
      if mayLeave page then ⟨some page, [page]⟩
      else
        let later := offer mayLeave rest
        ⟨later.victim, page :: later.offered⟩

/-- Offer the pages, the oldest first, until one may leave. That page is tracked no more. -/
def evict (recency : Recency) (mayLeave : PageId → Bool) : Eviction × Recency :=
  let eviction := offer mayLeave recency.order
  match eviction.victim with
  | none => (eviction, recency)
  | some page => (eviction, recency.remove page)

/-- The number of tracked pages. -/
def size (recency : Recency) : Nat :=
  recency.lastAccess.size

end Recency

end RowStore
