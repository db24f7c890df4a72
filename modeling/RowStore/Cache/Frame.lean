import RowStore.Page.HeapPage

/-!
# Frames

A frame is a page in memory, with the transaction that changed it since it was last written. The
frame of a page without unwritten changes is clean. A change that fails marks nothing, and
neither does a write that fails.
-/

namespace RowStore

/-- A page in memory, and the transaction whose changes are not on disk yet. -/
structure Frame where
  page : HeapPage
  dirtiedBy : Option TxnId := none
deriving DecidableEq

namespace Frame

/-- Whether the page has changes that are not on disk. -/
def isDirty (frame : Frame) : Bool :=
  frame.dirtiedBy.isSome

/-- The frame, now with changes of the transaction. -/
def markDirty (frame : Frame) (txn : TxnId) : Frame :=
  { frame with dirtiedBy := some txn }

/-- The frame, now without unwritten changes. -/
def markClean (frame : Frame) : Frame :=
  { frame with dirtiedBy := none }

/-- Change the page on behalf of a transaction, which then has dirtied it. -/
def modify {α : Type} (frame : Frame) (txn : TxnId)
    (change : HeapPage → Except Error (HeapPage × α)) : Except Error (Frame × α) :=
  match change frame.page with
  | .error error => .error error
  | .ok (page, answer) => .ok (⟨page, some txn⟩, answer)

/-- Hand a dirty page and the transaction that dirtied it to `write`, which acts on a state, and
mark the frame clean once the page is written. The answer tells whose changes were written. -/
def flush {σ : Type} (frame : Frame) (state : σ)
    (write : σ → TxnId → HeapPage → Except Error Unit × σ) :
    Except Error (Option TxnId) × Frame × σ :=
  match frame.dirtiedBy with
  | none => (.ok none, frame, state)
  | some txn =>
      match write state txn frame.page with
      | (.error error, state) => (.error error, frame, state)
      | (.ok (), state) => (.ok (some txn), frame.markClean, state)

end Frame

end RowStore
