import RowStore.Error

/-!
# Configuration

The page size, the number of pages that the cache may hold, and how long a lock request may wait
are fixed when a database is opened.
-/

namespace RowStore

/-- The settings of a database. -/
structure Config where
  /-- The number of bytes of a page. -/
  pageSize : Nat := 4096
  /-- The number of pages that the cache may hold. -/
  capacity : Nat := 50
  /-- How many milliseconds a lock request may wait. Without a limit it waits until it is granted
  or would wait for ever. -/
  lockTimeout : Option Nat := some 10000
deriving DecidableEq, Repr

namespace Config

/-- Whether the sizes can be used, the page size being examined first. -/
def validate (config : Config) : Except Error Unit :=
  if config.pageSize = 0 then .error (.invalidConfig .zeroPageSize)
  else if config.capacity = 0 then .error (.invalidConfig .zeroCapacity)
  else .ok ()

end Config

end RowStore
