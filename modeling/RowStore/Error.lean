import RowStore.Record.Row

/-!
# Errors

`Error` is what an operation answers when it fails, with the cause as data. `message` words it,
and `kind` sorts it by what a caller can do about it.
-/

namespace RowStore

/-- Outcomes are compared like their errors and values. This goes before the instances of libraries,
so that all modules compare them in the same way. -/
instance (priority := 1100) decidableEqExcept {ε α : Type} [DecidableEq ε] [DecidableEq α] :
    DecidableEq (Except ε α)
  | .ok a, .ok b => decidable_of_iff (a = b) (by simp)
  | .error a, .error b => decidable_of_iff (a = b) (by simp)
  | .ok _, .error _ => isFalse (by simp)
  | .error _, .ok _ => isFalse (by simp)

/-- Why a lock request, or the release of a lock, is refused. -/
inductive Refusal where
  /-- Waiting would close a cycle of transactions that wait for one another. -/
  | deadlock
  /-- The lock was not granted within the time that a request may wait. -/
  | timeout
  /-- The transaction does not hold the lock that it releases. -/
  | notHeld
deriving DecidableEq, Repr

/-- Why a configuration is refused. -/
inductive ConfigFault where
  | zeroPageSize
  | zeroCapacity
  /-- A fault in the words of whoever found it. -/
  | described (text : String)
deriving DecidableEq

/-- Why a line of a schema file describes no table. -/
inductive LineFault where
  | noOpening
  | noClosing
  | closingFirst
  | noTableName
  | emptyField
  | malformedField (text : String)
  | unknownType (name : String)
  | unknownMark (mark : String)
  | invalidSchema (fault : SchemaFault)
  /-- A fault in the words of whoever found it. -/
  | described (text : String)
deriving DecidableEq

/-- What a caller can do about an error. -/
inductive ErrorKind where
  /-- The transaction has to abort, and may succeed when tried again. -/
  | aborted
  /-- A file could not be read or written. -/
  | inputOutput
  /-- There is no room in the cache or on the page. -/
  | capacityExhausted
  /-- A page, a table, or a record is not there. -/
  | notFound
  /-- A schema, a schema file, or a configuration is malformed. -/
  | invalidArgument
deriving DecidableEq, Repr

/-- Why an operation failed. -/
inductive Error where
  | aborted (txn : TxnId) (page : PageId) (reason : Refusal)
  | inputOutput
  | pageOutOfBounds (number count : Nat)
  | corruptRecord (record : RecordId)
  | cacheFull
  | pageFull (page : PageId)
  | pageNotFound (page : PageId)
  | tableNotFound (table : TableId)
  | tableNameNotFound (name : String)
  | missingPlace
  | foreignRecord (record : RecordId)
  | invalidSlot (slot : Nat)
  | emptySlot (slot : Nat)
  | rowMismatch (fault : RowFault)
  | invalidSchema (fault : SchemaFault)
  | invalidLine (line : Nat) (fault : LineFault)
  | invalidConfig (fault : ConfigFault)
  | pageSizeMismatch (expected actual : Nat)
deriving DecidableEq

namespace Refusal

/-- The reason in words. -/
def message : Refusal → String
  | deadlock => "deadlock"
  | timeout => "lock wait timed out"
  | notHeld => "lock not held"

end Refusal

namespace ConfigFault

/-- The fault in words. -/
def message : ConfigFault → String
  | zeroPageSize => "page size must be non-zero"
  | zeroCapacity => "buffer pool capacity must be non-zero"
  | described text => text

end ConfigFault

/-- The wording of an invalid schema, wherever it is found. -/
def SchemaFault.sentence (fault : SchemaFault) : String :=
  "Invalid schema: " ++ fault.message

namespace LineFault

/-- The fault in words. -/
def message : LineFault → String
  | noOpening => "missing '('"
  | noClosing => "missing ')'"
  | closingFirst => "')' before '('"
  | noTableName => "missing table name"
  | emptyField => "empty field"
  | malformedField text => "malformed field '" ++ text ++ "'"
  | unknownType name => "unknown type '" ++ name ++ "'"
  | unknownMark mark => "unknown annotation '" ++ mark ++ "'"
  | invalidSchema fault => fault.sentence
  | described text => text

end LineFault

namespace Error

/-- The error in words. -/
def message : Error → String
  | aborted txn page reason =>
      toString txn ++ " aborted on " ++ toString page ++ ": " ++ reason.message
  | inputOutput => "I/O error"
  | pageOutOfBounds number count =>
      "Page " ++ toString number ++ " is beyond the end of the file (" ++ toString count
        ++ " pages)"
  | corruptRecord record => "Record " ++ toString record ++ " could not be decoded"
  | cacheFull => "Buffer pool is full, no evictable pages available"
  | pageFull page => "Page " ++ toString page ++ " has no free slot"
  | pageNotFound page => "Page " ++ toString page ++ " not found"
  | tableNotFound table => "Table " ++ toString table ++ " not found"
  | tableNameNotFound name => "Table '" ++ name ++ "' not found"
  | missingPlace => "Tuple has no record id"
  | foreignRecord record => "Record " ++ toString record ++ " does not belong to this page"
  | invalidSlot slot => "Invalid slot ID: " ++ toString slot
  | emptySlot slot => "Slot " ++ toString slot ++ " is empty"
  | rowMismatch fault => "Tuple does not match the table schema: " ++ fault.message
  | invalidSchema fault => fault.sentence
  | invalidLine line fault =>
      "Invalid catalog entry at line " ++ toString line ++ ": " ++ fault.message
  | invalidConfig fault => "Invalid configuration: " ++ fault.message
  | pageSizeMismatch expected actual =>
      "Page size mismatch: expected " ++ toString expected ++ ", got " ++ toString actual

/-- What a caller can do about the error. -/
def kind : Error → ErrorKind
  | aborted .. => .aborted
  | inputOutput | pageOutOfBounds .. | corruptRecord _ => .inputOutput
  | cacheFull | pageFull _ => .capacityExhausted
  | pageNotFound _ | tableNotFound _ | tableNameNotFound _ | missingPlace | foreignRecord _
  | invalidSlot _ | emptySlot _ => .notFound
  | rowMismatch _ | invalidSchema _ | invalidLine .. | invalidConfig _ | pageSizeMismatch .. =>
      .invalidArgument

/-- Whether the transaction has to abort. -/
def isAborted (error : Error) : Bool :=
  error.kind = .aborted

end Error

end RowStore
