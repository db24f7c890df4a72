import RowStore.Proofs.Database.OpenTable
import RowStore.Proofs.Database.Scanned
import RowStore.Proofs.Session.Undo

/-!
# Transactions one after the other

A table that is used by one transaction after the other behaves as its sheet. `Sheet.Step` says
which reply an event may have on a sheet and what the sheet is then, and `Sheet.Follows` says so for
a sequence of events. `Session.serial_follows` says that the transactions on an empty table follow
the empty sheet, whichever they are, and that a database that is opened on the files afterwards has
the rows of the sheet that they came to.
-/

namespace RowStore

/-- What a transaction can do while it has the table of a session to itself. -/
inductive Task where
  | insert (row : Row)
  | delete (row : Row)
  /-- A walk over all rows of the table. -/
  | scan
  | flushPage (page : PageId)
  | flushOf (txn : TxnId)
  | flushAll
deriving DecidableEq

/-- The event in which a transaction does a task. -/
def Task.event (table : TableId) (txn : TxnId) : Task → Event
  | .insert row => .call txn (.insert table row)
  | .delete row => .call txn (.delete row)
  | .scan => .call txn (.scan table none)
  | .flushPage page => .flushPage page
  | .flushOf other => .flushOf other
  | .flushAll => .flushAll

/-- A transaction from its first task to its end. -/
structure Transaction where
  txn : TxnId
  tasks : List Task
  commits : Bool
deriving DecidableEq

namespace Transaction

/-- The events of a transaction. -/
def events (table : TableId) (transaction : Transaction) : List Event :=
  transaction.tasks.map (Task.event table transaction.txn) ++
    [.complete transaction.txn transaction.commits]

/-- The events of transactions that are run one after the other. -/
def serial (table : TableId) (transactions : List Transaction) : List Event :=
  transactions.flatMap (events table)

end Transaction

/-- The rows that a reply tells of: one that was stored, or those that a scan hands out. If something
went wrong it tells of the error instead. -/
def Reply.items : Reply → List (Except Error Row)
  | .answered (.ok (.inserted row _)) => [.ok row]
  | .answered (.ok (.scanned walk _)) => walk.items
  | .answered (.error error) | .finished (.error error) => [.error error]
  | .answered (.ok _) | .finished (.ok _) | .waits => []

namespace Session

/-- Let events happen one after the other, and remember each with the session in which it
happened. -/
def trace (session : Session) : List Event → List Moment
  | [] => []
  | event :: rest => ⟨session, event⟩ :: trace (session.apply event) rest

/-- The session after events that happened one after the other. -/
def applyEach (session : Session) (events : List Event) : Session :=
  events.foldl apply session

end Session

namespace Sheet

/-- The reply that an event may have on a sheet, and the sheet after it, if the cache may hold so
many pages and each transaction uses some of them. -/
inductive Step (table : TableId) (schema : Schema) (slots capacity : Nat)
    (used : TxnId → PageId → Prop) (before : Sheet) : Event → Reply → Sheet → Prop where
  | insert {txn : TxnId} {row : Row} {answer : Except Error Answer} {after : Sheet} :
      before.Inserts table schema slots capacity (used txn) row answer after →
      Step table schema slots capacity used before (.call txn (.insert table row))
        (.answered answer) after
  | delete {txn : TxnId} {row : Row} {answer : Except Error Answer} {after : Sheet} :
      before.Deletes table slots capacity (used txn) row answer after →
      Step table schema slots capacity used before (.call txn (.delete row)) (.answered answer) after
  | scan {txn : TxnId} {walk : Walk} :
      before.Scans table schema capacity (used txn) walk.items →
      Step table schema slots capacity used before (.call txn (.scan table none))
        (.answered (.ok (.scanned walk true))) before
  | flushPage {page : PageId} :
      Step table schema slots capacity used before (.flushPage page) (.finished (.ok ())) before
  | flushOf {txn : TxnId} :
      Step table schema slots capacity used before (.flushOf txn) (.finished (.ok ())) before
  | flushAll : Step table schema slots capacity used before .flushAll (.finished (.ok ())) before
  /-- A commit keeps the rows. -/
  | commit {txn : TxnId} :
      Step table schema slots capacity used before (.complete txn true) (.finished (.ok ()))
        { before with saved := before.rows }
  /-- An abort brings back the rows from before the transaction. -/
  | abort {txn : TxnId} :
      Step table schema slots capacity used before (.complete txn false) (.finished (.ok ()))
        { before with rows := before.saved }

/-- Events that happened one after the other do to the table what they do to the sheet. A
transaction uses the pages that it has locked before the event, and the sheet has as many pages as
the file of the table. -/
inductive Follows (heap : HeapFile) (slots : Nat) : Sheet → List Moment → Sheet → Prop where
  | nil {sheet : Sheet} : Follows heap slots sheet [] sheet
  | cons {before middle after : Sheet} {moment : Moment} {rest : List Moment} :
      Step heap.table heap.schema slots moment.session.db.cache.capacity
        (fun txn page => moment.session.db.locks.holdsLock txn page = true) before moment.event
        moment.reply middle →
      middle.pages = heap.pageCount moment.after.db.storage →
      Follows heap slots middle rest after →
      Follows heap slots before (moment :: rest) after

/-- Events before and after each other. -/
theorem Follows.append {heap : HeapFile} {slots : Nat} {before middle after : Sheet}
    {moments rest : List Moment} (hfirst : Follows heap slots before moments middle)
    (hrest : Follows heap slots middle rest after) :
    Follows heap slots before (moments ++ rest) after := by
  induction hfirst with
  | nil => exact hrest
  | cons hstep hpages _ ih => exact .cons hstep hpages (ih hrest)

end Sheet

namespace Session

variable {layout : Layout} {heap : HeapFile} {slots : Nat} {txn : TxnId} {session : Session}

theorem trace_append (session : Session) (events rest : List Event) :
    session.trace (events ++ rest) =
      session.trace events ++ (session.applyEach events).trace rest := by
  induction events generalizing session with
  | nil => rfl
  | cons event events ih =>
      show ⟨session, event⟩ :: (session.apply event).trace (events ++ rest) = _
      rw [ih]
      rfl

theorem applyEach_append (session : Session) (events rest : List Event) :
    session.applyEach (events ++ rest) = (session.applyEach events).applyEach rest :=
  List.foldl_append

/-- What an event does to the sheet of a session. -/
def Steps (layout : Layout) (heap : HeapFile) (slots : Nat) (session : Session) (event : Event) :
    Prop :=
  Sheet.Step heap.table heap.schema slots session.db.cache.capacity
    (fun txn page => session.db.locks.holdsLock txn page = true) (session.db.sheet layout heap)
    event (session.perform event).1 ((session.apply event).db.sheet layout heap)

/-- A call that completes answers, and the session goes on with the database after it. -/
theorem perform_of_completes {call : Call} {holds : Except Error Answer → Database → Prop}
    (h : session.db.Completes txn call holds) :
    ∃ answer, (session.perform (.call txn call)).1 = .answered answer ∧
      holds answer (session.apply (.call txn call)).db := by
  obtain ⟨answer, after, hrun, hholds⟩ := h
  refine ⟨answer, ?_, ?_⟩
  · unfold perform submit
    simp only [hrun]
    rfl
  · unfold apply perform submit
    simp only [hrun]
    exact hholds

/-- A task of a transaction that has the table to itself does to the table what it does to the
sheet. -/
theorem task_steps (hlegible : session.db.Legible layout heap slots txn) (task : Task) :
    (session.apply (task.event heap.table txn)).db.Legible layout heap slots txn ∧
      session.Steps layout heap slots (task.event heap.table txn) := by
  unfold Steps
  cases task with
  | insert row =>
      obtain ⟨answer, hreply, hlegible, hinserts⟩ := perform_of_completes (hlegible.insert row)
      refine ⟨hlegible, ?_⟩
      show Sheet.Step _ _ _ _ _ _ (.call txn (.insert heap.table row))
        (session.perform (.call txn (.insert heap.table row))).1 _
      rw [hreply]
      exact .insert hinserts
  | delete row =>
      obtain ⟨answer, hreply, hlegible, hdeletes⟩ := perform_of_completes (hlegible.delete row)
      refine ⟨hlegible, ?_⟩
      show Sheet.Step _ _ _ _ _ _ (.call txn (.delete row))
        (session.perform (.call txn (.delete row))).1 _
      rw [hreply]
      exact .delete hdeletes
  | scan =>
      obtain ⟨answer, hreply, hlists⟩ := perform_of_completes hlegible.scan
      obtain ⟨walk, rfl, hscans, _⟩ := hlists.answer
      refine ⟨hlists.legible, ?_⟩
      show Sheet.Step _ _ _ _ _ _ (.call txn (.scan heap.table none))
        (session.perform (.call txn (.scan heap.table none))).1
        ((session.apply (.call txn (.scan heap.table none))).db.sheet layout heap)
      rw [hreply, hlists.sheet]
      exact .scan hscans
  | flushPage page =>
      obtain ⟨hok, hlegible, hsheet⟩ := hlegible.flushPage page
      refine ⟨hlegible, ?_⟩
      show Sheet.Step _ _ _ _ _ _ (.flushPage page) (.finished (session.db.flushPage page).1)
        ((session.db.flushPage page).2.sheet layout heap)
      rw [hok, hsheet]
      exact .flushPage
  | flushOf other =>
      obtain ⟨hok, hlegible, hsheet⟩ := hlegible.flushEach
        (session.db.cache.pagesWhere fun frame => frame.dirtiedBy = some other)
      refine ⟨hlegible, ?_⟩
      show Sheet.Step _ _ _ _ _ _ (.flushOf other) (.finished (session.db.flushOf other).1)
        ((session.db.flushOf other).2.sheet layout heap)
      unfold Database.flushOf
      rw [hok, hsheet]
      exact .flushOf
  | flushAll =>
      obtain ⟨hok, hlegible, hsheet⟩ :=
        hlegible.flushEach (session.db.cache.pagesWhere Frame.isDirty)
      refine ⟨hlegible, ?_⟩
      show Sheet.Step _ _ _ _ _ _ .flushAll (.finished session.db.flushAll.1)
        (session.db.flushAll.2.sheet layout heap)
      unfold Database.flushAll
      rw [hok, hsheet]
      exact .flushAll

/-- The end of a transaction that has the table to itself does to the table what it does to the
sheet, and leaves the table to whoever comes next. -/
theorem complete_steps (hlegible : session.db.Legible layout heap slots txn) (commits : Bool) :
    (∀ other, (session.apply (.complete txn commits)).db.Legible layout heap slots other) ∧
      ((session.apply (.complete txn commits)).db.sheet layout heap).rows =
        ((session.apply (.complete txn commits)).db.sheet layout heap).saved ∧
      session.Steps layout heap slots (.complete txn commits) := by
  unfold Steps
  cases commits with
  | true =>
      obtain ⟨hok, _, hsheet⟩ := hlegible.commit txn
      refine ⟨fun other => (hlegible.commit other).2.1, ?_, ?_⟩
      · show ((session.db.commit txn).2.sheet layout heap).rows =
          ((session.db.commit txn).2.sheet layout heap).saved
        rw [hsheet]
      · show Sheet.Step _ _ _ _ _ _ (.complete txn true) (.finished (session.db.commit txn).1)
          ((session.db.commit txn).2.sheet layout heap)
        rw [hok, hsheet]
        exact .commit
  | false =>
      obtain ⟨hok, _, hsheet⟩ := hlegible.abort txn
      refine ⟨fun other => (hlegible.abort other).2.1, ?_, ?_⟩
      · show ((session.db.abort txn).2.sheet layout heap).rows =
          ((session.db.abort txn).2.sheet layout heap).saved
        rw [hsheet]
      · show Sheet.Step _ _ _ _ _ _ (.complete txn false) (.finished (session.db.abort txn).1)
          ((session.db.abort txn).2.sheet layout heap)
        rw [hok, hsheet]
        exact .abort

/-- One event that does to the table what it does to the sheet. -/
theorem Steps.follows {event : Event} (hsteps : session.Steps layout heap slots event) :
    Sheet.Follows heap slots (session.db.sheet layout heap) [⟨session, event⟩]
      ((session.apply event).db.sheet layout heap) :=
  .cons hsteps rfl .nil

/-- The tasks of a transaction that has the table to itself do to the table what they do to the
sheet. -/
theorem tasks_follow (hlegible : session.db.Legible layout heap slots txn) (tasks : List Task) :
    (session.applyEach (tasks.map (Task.event heap.table txn))).db.Legible layout heap slots txn ∧
      Sheet.Follows heap slots (session.db.sheet layout heap)
        (session.trace (tasks.map (Task.event heap.table txn)))
        ((session.applyEach (tasks.map (Task.event heap.table txn))).db.sheet layout heap) := by
  induction tasks generalizing session with
  | nil => exact ⟨hlegible, .nil⟩
  | cons task rest ih =>
      obtain ⟨hlegible', hsteps⟩ := task_steps hlegible task
      obtain ⟨hlast, hfollows⟩ := ih hlegible'
      exact ⟨hlast, hsteps.follows.append hfollows⟩

/-- The table is left to whoever comes next, and its rows are those that are saved. -/
structure Rests (layout : Layout) (heap : HeapFile) (slots : Nat) (session : Session) : Prop where
  legible : ∀ txn, session.db.Legible layout heap slots txn
  saved : (session.db.sheet layout heap).rows = (session.db.sheet layout heap).saved

/-- A transaction that has the table to itself does to the table what it does to the sheet. -/
theorem Rests.transaction (hrests : session.Rests layout heap slots) (transaction : Transaction) :
    (session.applyEach (transaction.events heap.table)).Rests layout heap slots ∧
      Sheet.Follows heap slots (session.db.sheet layout heap)
        (session.trace (transaction.events heap.table))
        ((session.applyEach (transaction.events heap.table)).db.sheet layout heap) := by
  obtain ⟨hlegible, hfollows⟩ := tasks_follow (hrests.legible transaction.txn) transaction.tasks
  obtain ⟨hlegible', hsaved, hsteps⟩ := complete_steps hlegible transaction.commits
  unfold Transaction.events
  rw [applyEach_append, trace_append]
  exact ⟨⟨hlegible', hsaved⟩, hfollows.append hsteps.follows⟩

/-- Transactions that are run one after the other do to the table what they do to the sheet. -/
theorem Rests.serial (hrests : session.Rests layout heap slots)
    (transactions : List Transaction) :
    (session.applyEach (Transaction.serial heap.table transactions)).Rests layout heap slots ∧
      Sheet.Follows heap slots (session.db.sheet layout heap)
        (session.trace (Transaction.serial heap.table transactions))
        ((session.applyEach (Transaction.serial heap.table transactions)).db.sheet
          layout heap) := by
  -- Between two transactions the session rests, which is all that the next one needs to have the
  -- table to itself.
  induction transactions generalizing session with
  | nil => exact ⟨hrests, .nil⟩
  | cons transaction rest ih =>
      obtain ⟨hrests', hfollows⟩ := hrests.transaction transaction
      obtain ⟨hlast, hrest⟩ := ih hrests'
      unfold Transaction.serial
      rw [List.flatMap_cons, applyEach_append, trace_append]
      exact ⟨hlast, hfollows.append hrest⟩

/-- A database shows a sheet: whatever transactions are run on it one after the other follow the
sheet, and whoever comes first can read every row, if the cache may hold so many pages. -/
structure Shows (heap : HeapFile) (slots : Nat) (sheet : Sheet) (db : Database) : Prop where
  follows : ∀ transactions, ∃ after, Sheet.Follows heap slots sheet
    (trace { db } (Transaction.serial heap.table transactions)) after
  scans : sheet.pages ≤ db.cache.capacity → ∀ txn, ∃ walk entries,
    (perform { db } (.call txn (.scan heap.table none))).1 =
      .answered (.ok (.scanned walk true)) ∧
    sheet.rows.Lists entries ∧ walk.items = Sheet.itemsOf heap.schema entries

/-- A scan of a database that hands out rows, and no error, has handed out those of the sheet that
it shows. -/
theorem Shows.lists {sheet : Sheet} {db : Database} (hshows : Shows heap slots sheet db)
    {entries : List (RecordId × List Value)}
    (hitems : (perform { db } (.call txn (.scan heap.table none))).1.items =
      Sheet.itemsOf heap.schema entries) : sheet.rows.Lists entries := by
  obtain ⟨after, hfollows⟩ := hshows.follows [⟨txn, [.scan], true⟩]
  cases hfollows with
  | @cons _ middle _ _ _ hstep _ _ =>
      have hstep : Sheet.Step heap.table heap.schema slots db.cache.capacity
          (fun txn page => db.locks.holdsLock txn page = true) sheet
          (.call txn (.scan heap.table none))
          (perform { db } (.call txn (.scan heap.table none))).1 middle := hstep
      generalize (perform { db } (.call txn (.scan heap.table none))).1 = reply at hstep hitems
      cases hstep with
      | @scan _ walk hscans =>
          have hitems : walk.items = Sheet.itemsOf heap.schema entries := hitems
          generalize walk.items = items at hscans hitems
          cases hscans with
          | @complete found hlists =>
              have hsame : found = entries := by
                refine List.map_injective_iff.mpr ?_ hitems
                intro one other heq
                simp only [Except.ok.injEq, Row.mk.injEq, Option.some.injEq, true_and] at heq
                exact Prod.ext heq.2 heq.1
              exact hsame ▸ hlists
          | broken =>
              have hlast : Except.error Error.cacheFull ∈ Sheet.itemsOf heap.schema entries :=
                hitems ▸ List.mem_append_right _ List.mem_cons_self
              simp [Sheet.itemsOf] at hlast

variable {config : Config} {storage : Storage} {name path : String} {schema : Schema}
  {primaryKey : Option String} {table : TableId} {db : Database}

/-- A database that was just opened shows the sheet that can be read off its file. -/
theorem shows_of_opensTable (hopens : db.OpensTable config storage schema path table heap)
    (hlegible : ∀ txn, db.Legible layout heap slots txn)
    (hsaved : (db.sheet layout heap).rows = (db.sheet layout heap).saved) :
    Shows heap slots (db.sheet layout heap) db := by
  have hrests : Rests layout heap slots { db } := ⟨hlegible, hsaved⟩
  refine ⟨fun transactions => ⟨_, (hrests.serial transactions).2⟩, ?_⟩
  intro hcapacity txn
  have hscan : Database.Completes txn ({ db } : Session).db (.scan heap.table none) _ :=
    (hlegible txn).scan
  obtain ⟨answer, hreply, hlists⟩ := perform_of_completes hscan
  obtain ⟨walk, rfl, _, hall⟩ := hlists.answer
  have hroom : db.HasRoom (heap.pageCount db.storage) := by
    have hempty : db.cache.occupied = 0 := by
      rw [hopens.cache]
      rfl
    show db.cache.occupied + heap.pageCount db.storage ≤ db.cache.capacity
    rw [hempty, Nat.zero_add]
    exact hcapacity
  obtain ⟨entries, hentries, hitems⟩ := hall hroom
  exact ⟨walk, entries, hreply, hentries, hitems⟩

/-- The rows of a table are found again by a database that is opened on its file. -/
theorem Rests.reopen
    (hrests : session.Rests (.single config.pageSize table heap.file.name) heap slots)
    {found : HeapFile} (hopens : db.OpensTable config session.db.storage schema path table found)
    (hschema : heap.schema = schema) (hsize : heap.file.pageSize = config.pageSize)
    (hname : found.file.name = heap.file.name) :
    Shows found slots
      (session.db.sheet (.single config.pageSize table heap.file.name) heap) db := by
  have hlegible := hrests.legible ⟨0⟩
  have hheld : ∀ page, (Layout.single config.pageSize table found.file.name).bytes
      session.db.storage page =
        (Layout.single config.pageSize table heap.file.name).settled session.db page := by
    intro page
    have hfree := LockTable.exclusive_of_alone (fun txn => (hrests.legible txn).alone) page
    rw [hname, Layout.settled_of_free hfree]
  have hwhole : (session.db.storage.directory.content found.file.name).length % config.pageSize =
      0 := by
    rw [hname, ← hsize]
    exact hlegible.whole
  have hgeometry := hlegible.geometry
  have hreadable := hlegible.settled
  rw [hsize, hschema] at hgeometry
  rw [hschema] at hreadable
  have hfresh := hopens.legible hgeometry hwhole hheld hreadable
  have hsheet : db.sheet (.single config.pageSize table found.file.name) found =
      session.db.sheet (.single config.pageSize table heap.file.name) heap := by
    have hpages : found.pageCount session.db.storage = heap.pageCount session.db.storage := by
      unfold HeapFile.pageCount Storage.pageCount Storage.pagesFor Storage.bytes
      rw [hname, hopens.fits.pageSize, hsize]
    rw [(hfresh ⟨0⟩).2, hpages, ← hschema]
    show Sheet.mk _ (Database.sheet _ heap session.db).saved _ = _
    rw [← hrests.saved]
    rfl
  rw [← hsheet]
  refine shows_of_opensTable hopens (fun txn => (hfresh txn).1) ?_
  rw [(hfresh ⟨0⟩).2]

/-- A database that was just opened over an empty file rests, and its sheet is empty. -/
theorem rests_of_empty (hopens : db.OpensTable config storage schema path table heap)
    (hgeometry : Page.slotsPerPage config.pageSize schema.recordWidth = .ok slots)
    (hcontent : storage.directory.content heap.file.name = []) :
    Rests (.single config.pageSize table heap.file.name) heap slots { db } ∧
      db.sheet (.single config.pageSize table heap.file.name) heap = .empty := by
  have hheld : ∀ page, (Layout.single config.pageSize table heap.file.name).bytes storage page =
      [] := by
    intro page
    unfold Layout.bytes Layout.single
    simp only
    split
    · rfl
    · rename_i file hfile
      obtain rfl : heap.file.name = file := by
        split at hfile
        · exact Option.some.inj hfile
        · simp at hfile
      rw [hcontent]
      simp [Bytes.slice]
  have hwhole : (storage.directory.content heap.file.name).length % config.pageSize = 0 := by
    rw [hcontent, List.length_nil, Nat.zero_mod]
  have hfresh := hopens.legible hgeometry hwhole hheld fun _ => readableIn_zeros schema 0
  obtain ⟨hlegible, hsheet⟩ := hfresh ⟨0⟩
  refine ⟨⟨fun txn => (hfresh txn).1, ?_⟩, ?_⟩
  · show (db.sheet _ heap).rows = (db.sheet _ heap).saved
    rw [hsheet]
  · have hpages : heap.pageCount storage = 0 := by
      have hsize := hlegible.pageSize_ne_zero
      unfold HeapFile.pageCount Storage.pageCount Storage.pagesFor Storage.bytes
      rw [hcontent, List.length_nil, Nat.zero_add]
      exact Nat.div_eq_of_lt (by omega)
    rw [hsheet, hpages]
    unfold Sheet.empty
    congr 1 <;> exact funext (valuesIn_zeros schema 0)

/-- Transactions on an empty table, run one after the other, follow the empty sheet, and a database
that is opened on the files afterwards shows the sheet that they came to. -/
theorem serial_follows
    (hopen : Database.openTable config storage name schema path primaryKey = .ok (table, db))
    (hempty : ∀ file, Directory.entryName? path = some file → storage.directory.content file = [])
    (transactions : List Transaction) :
    ∃ heap slots sheet, db.OpensTable config storage schema path table heap ∧
      Page.slotsPerPage config.pageSize schema.recordWidth = .ok slots ∧
      Sheet.Follows heap slots .empty (trace { db } (Transaction.serial table transactions)) sheet ∧
      ∀ other : Config, other.pageSize = config.pageSize → other.capacity ≠ 0 →
        ∃ found reopened,
          Database.openTable other
            (applyEach { db } (Transaction.serial table transactions)).db.storage
            name schema path primaryKey = .ok (table, reopened) ∧
          reopened.OpensTable other
            (applyEach { db } (Transaction.serial table transactions)).db.storage schema path table
            found ∧
          Shows found slots sheet reopened := by
  obtain ⟨heap, hopens⟩ := Database.openTable_opens hopen
  obtain ⟨slots, hgeometry⟩ := hopens.fits.slots
  rw [hopens.schema] at hgeometry
  obtain ⟨hrests, hsheet⟩ := rests_of_empty hopens hgeometry (hempty heap.file.name hopens.name)
  obtain ⟨hlast, hfollows⟩ := hrests.serial transactions
  have htable : heap.table = table := hopens.fits.table
  rw [htable] at hlast hfollows
  rw [show ({ db } : Session).db.sheet _ heap = _ from hsheet] at hfollows
  refine ⟨heap, slots, _, hopens, hgeometry, hfollows, ?_⟩
  intro other hsize hcapacity
  obtain ⟨reopened, hreopen⟩ := Database.openTable_of_openTable hopen hsize hcapacity
    (applyEach { db } (Transaction.serial table transactions)).db.storage
  obtain ⟨found, hfound⟩ := Database.openTable_opens hreopen
  have hname : found.file.name = heap.file.name :=
    Option.some.inj (hfound.name.symm.trans hopens.name)
  rw [← hsize] at hlast ⊢
  exact ⟨found, reopened, hreopen, hfound,
    hlast.reopen hfound hopens.schema (hopens.fits.pageSize.trans hsize.symm) hname⟩

/-- A row of one number, in the only slot of a page. -/
def sampleStored (number : Int32) (page : Nat) : Row :=
  { sampleRow number with place := some ⟨⟨⟨1⟩, page⟩, 0⟩ }

/-- One transaction stores two rows on the two pages that it needs for them, and looks at them. The
next one deletes the first row, looks again, has the page written, and is undone. -/
def sampleTransactions : List Transaction :=
  [⟨⟨1⟩, [.insert (sampleRow 7), .insert (sampleRow 9), .scan], true⟩,
    ⟨⟨2⟩, [.delete (sampleStored 7 0), .scan, .flushAll], false⟩]

/-- Pages that have room for one row, and a cache that has room for two pages. -/
def oneRowPages : Config := { pageSize := 5, capacity := 2 }

/-- Both rows are stored, on two pages, and found. The second transaction deletes the first row and
finds the other one alone. When the files are opened anew the deleted row is there again. -/
theorem serial_follows_undone_delete :
    ∃ db heap slots sheet found reopened,
      Database.openTable oneRowPages {} "a" sampleSchema "a.dat" none = .ok (⟨1⟩, db) ∧
      Sheet.Follows heap slots .empty
        (trace { db } (Transaction.serial ⟨1⟩ sampleTransactions)) sheet ∧
      (trace { db } (Transaction.serial ⟨1⟩ sampleTransactions)).map
          (fun moment => moment.reply.items) =
        [[.ok (sampleStored 7 0)], [.ok (sampleStored 9 1)],
          [.ok (sampleStored 7 0), .ok (sampleStored 9 1)], [],
          [], [.ok (sampleStored 9 1)], [], []] ∧
      sheet.rows.Lists [(⟨⟨⟨1⟩, 0⟩, 0⟩, [.integer 7]), (⟨⟨⟨1⟩, 1⟩, 0⟩, [.integer 9])] ∧
      Database.openTable oneRowPages
          (applyEach { db } (Transaction.serial ⟨1⟩ sampleTransactions)).db.storage
          "a" sampleSchema "a.dat" none = .ok (⟨1⟩, reopened) ∧
      Shows found slots sheet reopened ∧
      (perform { db := reopened } (.call ⟨3⟩ (.scan ⟨1⟩ none))).1.items =
        [.ok (sampleStored 7 0), .ok (sampleStored 9 1)] := by
  have hcomputed : ((Database.openTable oneRowPages {} "a" sampleSchema "a.dat" none).toOption.any
      fun (table, db) => decide (table = ⟨1⟩) &&
        decide ((trace { db } (Transaction.serial ⟨1⟩ sampleTransactions)).map
            (fun moment => moment.reply.items) =
          [[.ok (sampleStored 7 0)], [.ok (sampleStored 9 1)],
            [.ok (sampleStored 7 0), .ok (sampleStored 9 1)], [],
            [], [.ok (sampleStored 9 1)], [], []]) &&
        (Database.openTable oneRowPages
          (applyEach { db } (Transaction.serial ⟨1⟩ sampleTransactions)).db.storage "a" sampleSchema
          "a.dat" none).toOption.any fun (_, reopened) =>
            decide ((perform { db := reopened } (.call ⟨3⟩ (.scan ⟨1⟩ none))).1.items =
              [.ok (sampleStored 7 0), .ok (sampleStored 9 1)])) = true := by
    decide +kernel
  rcases hopen : Database.openTable oneRowPages {} "a" sampleSchema "a.dat" none with
    error | ⟨table, db⟩
  · rw [hopen] at hcomputed
    simp [Except.toOption] at hcomputed
  · simp only [hopen, Except.toOption, Option.any_some, Bool.and_eq_true,
      decide_eq_true_eq] at hcomputed
    obtain ⟨⟨rfl, hreplies⟩, hcomputed⟩ := hcomputed
    obtain ⟨heap, slots, sheet, _, _, hfollows, hreopens⟩ := serial_follows hopen
      (fun file _ => by simp [Directory.content]) sampleTransactions
    obtain ⟨found, reopened, hreopen, hfound, hshows⟩ := hreopens oneRowPages rfl (by decide)
    simp only [hreopen, Option.any_some, decide_eq_true_eq] at hcomputed
    refine ⟨db, heap, slots, sheet, found, reopened, rfl, hfollows, hreplies, ?_, hreopen, hshows,
      hcomputed⟩
    have htable : found.table = ⟨1⟩ := hfound.fits.table
    refine @Shows.lists found slots ⟨3⟩ sheet reopened hshows _ ?_
    rw [htable, hfound.schema, hcomputed]
    rfl

end Session

end RowStore
