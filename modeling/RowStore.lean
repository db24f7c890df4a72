import RowStore.Text.Hex
import RowStore.Database.Session
import RowStore.Proofs.Database.Fetched
import RowStore.Proofs.Database.Journal
import RowStore.Proofs.Session.Run
import RowStore.Proofs.Catalog.Sound
import RowStore.Proofs.Database.Work
import RowStore.Proofs.Database.Progress
import RowStore.Proofs.Session.Orderly
import RowStore.Proofs.Database.Placed
import RowStore.Proofs.Database.Restored
import RowStore.Proofs.Session.Effect
import RowStore.Proofs.Database.Intact
import RowStore.Proofs.Session.Undo
import RowStore.Proofs.Database.Settled
import RowStore.Proofs.Session.Durable
import RowStore.Proofs.Session.CleanFrames
import RowStore.Proofs.Record.Codec
import RowStore.Proofs.Page.Rows
import RowStore.Proofs.Database.Solo
import RowStore.Proofs.Database.Legible
import RowStore.Proofs.Database.Room
import RowStore.Proofs.Database.Stored
import RowStore.Proofs.Database.Scanned
import RowStore.Proofs.Database.Ended
import RowStore.Proofs.Database.OpenTable
import RowStore.Proofs.Session.Serial
import RowStore.Proofs.Lock.Deadlock
import RowStore.Proofs.Lock.Pending
import RowStore.Proofs.Lock.Reclaim
import RowStore.Proofs.Session.Replaced
import RowStore.Proofs.Session.Owned
import RowStore.Proofs.Session.Transparent
import RowStore.Proofs.Session.TwoPhase
import RowStore.Proofs.Record.Layout
import RowStore.Proofs.Text.Lossy
import RowStore.Proofs.Record.Storable
import RowStore.Proofs.Page.SlotMap
import RowStore.Proofs.Disk.PageArray
import RowStore.Proofs.Lock.Cycle
import RowStore.Proofs.Lock.Refused
import RowStore.Proofs.Catalog.Registry
import RowStore.Proofs.Cache.Recency
import RowStore.Proofs.Database.Spare
import RowStore.Proofs.Session.LockSteps
import RowStore.Proofs.Session.Evicting
import RowStore.Proofs.Session.Ends
import RowStore.Proofs.Session.Footprint
import RowStore.Proofs.Session.Iterated
import RowStore.Proofs.Record.NormalForm
import RowStore.Proofs.Page.Geometry
import RowStore.Proofs.Cache.RecencyList
import RowStore.Proofs.Catalog.Loading
import RowStore.Proofs.Record.Schema
import RowStore.Proofs.Lock.Blockers
import RowStore.Proofs.Session.Isolated
