import RowStore.Proofs.Database.Room

/-!
# What inserts and deletes do to the sheet

An insert probes the pages of the table in order. All slots of the pages before the one that it
probes are taken, so the first free slot that it comes to is the least free place of the sheet,
and a page that it adds is added because every slot is taken. `Legible.insert` and `Legible.delete`
say that both operations do to the sheet what the sheet allows, whether they succeed or fail.
-/

namespace RowStore

variable {layout : Layout} {heap : HeapFile} {slots : Nat} {txn : TxnId}

/-- Why no row is deleted in a place without a row on a page of the table. -/
theorem Sheet.noRow_of_inFile {sheet : Sheet} {table : TableId} {place : RecordId}
    (htable : place.page.table = table) (hfile : place.page.number < sheet.pages) :
    sheet.noRow table slots place =
      if slots ≤ place.slot then .invalidSlot place.slot else .emptySlot place.slot := by
  unfold Sheet.noRow
  rw [if_neg (Decidable.not_not.mpr htable), if_neg (Nat.not_le.mpr hfile)]

namespace Database

variable {db after : Database} {page : PageId} {slot : Nat} {row : Row}

/-- A call of a transaction ends without waiting, and what it comes to satisfies `holds`. -/
def Completes (txn : TxnId) (db : Database) (call : Call)
    (holds : Except Error Answer → Database → Prop) : Prop :=
  ∃ answer after, (db.begin txn call).2.run txn (db.begin txn call).1 = (.ended answer, after) ∧
    holds answer after

/-- An operation that finishes within its bound ends. -/
theorem Finishes.run {bound : Nat} {progress : Progress}
    {holds : Except Error Answer → Database → Prop} (h : Finishes txn bound db progress holds)
    (hbound : ∀ operation, progress = .needs operation → bound ≤ db.demandBound operation) :
    ∃ answer after, db.run txn progress = (.ended answer, after) ∧ holds answer after := by
  obtain ⟨answer, after, hruns, hholds⟩ := h
  refine ⟨answer, after, ?_, hholds⟩
  cases progress with
  | ended found => exact hruns (bound + 1) (Nat.le_succ _)
  | needs operation => exact hruns _ (hbound operation rfl)

/-- An operation that finishes within a bound finishes within a larger one. -/
theorem Finishes.mono {bound larger : Nat} {progress : Progress}
    {holds : Except Error Answer → Database → Prop} (h : Finishes txn bound db progress holds)
    (hle : bound ≤ larger) : Finishes txn larger db progress holds := by
  obtain ⟨answer, after, hruns, hholds⟩ := h
  exact ⟨answer, after, fun fuel hfuel => hruns fuel (Nat.le_trans hle hfuel), hholds⟩

theorem Finishes.imp {bound : Nat} {progress : Progress}
    {holds weaker : Except Error Answer → Database → Prop}
    (h : Finishes txn bound db progress holds)
    (himp : ∀ answer after, holds answer after → weaker answer after) :
    Finishes txn bound db progress weaker := by
  obtain ⟨answer, after, hruns, hholds⟩ := h
  exact ⟨answer, after, hruns, himp answer after hholds⟩

/-- The first free slot of a page is the least free place, if the pages before it are full. -/
theorem Displays.leastFree {heapPage : HeapPage}
    (hdisplays : db.Displays layout heap slots page heapPage)
    (hfull : (db.sheet layout heap).rows.FullBelow heap.table slots page.number)
    (hfree : heapPage.firstFree? = some slot) :
    (db.sheet layout heap).rows.LeastFree heap.table slots ⟨page, slot⟩ := by
  obtain ⟨hslot, hunused, hbefore⟩ := HeapPage.firstFree?_eq_some_iff.mp hfree
  rw [hdisplays.slots] at hslot
  refine ⟨hdisplays.inTable, hslot, ?_, ?_⟩
  · rw [hdisplays.rows, HeapPage.valuesAt_of_free hunused]
  · intro other htable hother hless
    rcases hless with hpage | ⟨hpage, hlower⟩
    · exact hfull other htable hpage hother
    · obtain ⟨⟨table, number⟩, number'⟩ := other
      have hsame : (⟨table, number⟩ : PageId) = page := by
        rw [show table = page.table from htable.trans hdisplays.inTable.symm,
          show number = page.number from hpage]
      rw [hsame, hdisplays.rows]
      exact hdisplays.readable number' (hbefore number' hlower)

/-- If a page has no free slot and the pages before it are full, the pages through it are. -/
theorem Displays.fullBelow {heapPage : HeapPage}
    (hdisplays : db.Displays layout heap slots page heapPage)
    (hfull : (db.sheet layout heap).rows.FullBelow heap.table slots page.number)
    (hnone : heapPage.firstFree? = none) :
    (db.sheet layout heap).rows.FullBelow heap.table slots (page.number + 1) := by
  intro place htable hnumber hslot
  rcases Nat.lt_succ_iff_lt_or_eq.mp hnumber with hbefore | hsame
  · exact hfull place htable hbefore hslot
  · obtain ⟨⟨table, number⟩, slot⟩ := place
    have hpage : (⟨table, number⟩ : PageId) = page := by
      rw [show table = page.table from htable.trans hdisplays.inTable.symm,
        show number = page.number from hsame]
    rw [hpage, hdisplays.rows]
    exact hdisplays.readable slot
      (HeapPage.firstFree?_eq_none_iff.mp hnone slot (hdisplays.slots ▸ hslot))

/-- A page on which some slot of the sheet is free has a first free slot. -/
theorem Displays.firstFree?_ne_none {heapPage : HeapPage}
    (hdisplays : db.Displays layout heap slots page heapPage) (hslot : slot < slots)
    (hfree : (db.sheet layout heap).rows ⟨page, slot⟩ = none) : heapPage.firstFree? ≠ none := by
  intro hnone
  have hused : heapPage.isUsed slot = true :=
    HeapPage.firstFree?_eq_none_iff.mp hnone slot (hdisplays.slots ▸ hslot)
  have hstored := hdisplays.readable slot hused
  rw [← hdisplays.rows, hfree] at hstored
  simp at hstored

/-- Some slot of the sheet is free on a page that counts free slots. -/
theorem Displays.exists_free {heapPage : HeapPage}
    (hdisplays : db.Displays layout heap slots page heapPage) (hcount : 0 < heapPage.freeCount) :
    ∃ slot, slot < slots ∧ (db.sheet layout heap).rows ⟨page, slot⟩ = none := by
  cases hfirst : heapPage.firstFree? with
  | none =>
      have hzero : heapPage.freeCount = 0 :=
        HeapPage.freeCount_eq_zero_iff.mpr (HeapPage.firstFree?_eq_none_iff.mp hfirst)
      omega
  | some slot =>
      obtain ⟨hslot, hunused, _⟩ := HeapPage.firstFree?_eq_some_iff.mp hfirst
      refine ⟨slot, hdisplays.slots ▸ hslot, ?_⟩
      rw [hdisplays.rows, HeapPage.valuesAt_of_free hunused]

/-- Storing a row on a page with a free slot that was reached exclusively: the row goes to the first
free slot, unless the columns cannot hold its values. -/
theorem Reached.storeRow {resident : Resident}
    (hreached : Reached layout heap slots txn page .exclusive db resident after)
    (hschema : row.schema = heap.schema) (hfree : resident.page.firstFree? ≠ none) :
    (∃ fault, Row.fault? heap.schema row.values = some fault ∧
      after.storeRow txn ⟨page, resident.serial⟩ row = (.error (.rowMismatch fault), after)) ∨
    Row.fault? heap.schema row.values = none ∧
      ∃ slot stored, resident.page.firstFree? = some slot ∧
        after.storeRow txn ⟨page, resident.serial⟩ row =
          (.ok { row with place := some ⟨page, slot⟩ }, stored) ∧
        stored.Legible layout heap slots txn ∧
        stored.sheet layout heap = { db.sheet layout heap with
          rows := (db.sheet layout heap).rows.put ⟨page, slot⟩ (some row.values) } := by
  have hdisplays := hreached.legible.displays hreached.frame
  unfold Database.storeRow
  rw [modifyFrame_eq hreached.frame, ← hschema]
  rcases HeapPage.insert_of_free (hschema.trans hdisplays.schema.symm) hfree with
    ⟨hfault, changed, slot, hinsert⟩ | ⟨fault, hfault, hinsert⟩
  · right
    have hid := (HeapPage.insert_eq_ok hinsert).1
    obtain ⟨_, hslot, hreadable, hvalues⟩ := hdisplays.readable.insert hinsert
    obtain ⟨hlegible, hsheet⟩ := hreached.legible.change hreached.frame (hreached.owner rfl)
      (hreached.image rfl) (.insert row slot hinsert) hreadable hvalues
    refine ⟨hfault, slot, _, hslot, ?_, hlegible, ?_⟩
    · rw [hinsert]
      show (Except.ok { row with place := some ⟨changed.id, slot⟩ }, _) = _
      rw [hid, hdisplays.id]
    · rw [hsheet, hreached.sheet]
  · left
    refine ⟨fault, hfault, ?_⟩
    rw [hinsert]
    rfl

/-- A call comes to what the sheet allows, in a legible database. -/
def Obeys (layout : Layout) (heap : HeapFile) (slots : Nat) (txn : TxnId)
    (allowed : Except Error Answer → Sheet → Prop) (answer : Except Error Answer)
    (after : Database) : Prop :=
  after.Legible layout heap slots txn ∧ allowed answer (after.sheet layout heap)

variable {capacity : Nat} {used : PageId → Prop}

/-- An insert that has reached a page with a free slot stores its row there, in the least free
place, or finds that the columns cannot hold its values. -/
theorem Reached.stores {resident : Resident} {before : Sheet} {pages : Nat}
    (hreached : Reached layout heap slots txn page .exclusive db resident after)
    (hschema : row.schema = heap.schema) (hfree : resident.page.firstFree? ≠ none)
    (hsheet : db.sheet layout heap = { before with pages })
    (hfull : before.rows.FullBelow heap.table slots page.number)
    (hpages : before.Full heap.table slots ∧ pages = before.pages + 1 ∨
      ¬ before.Full heap.table slots ∧ pages = before.pages)
    (elsewhere : Database → Progress × Database) :
    let stored : Progress × Database := match after.storeRow txn ⟨page, resident.serial⟩ row with
      | (.ok row, db) => (.ended (.ok (.inserted row ⟨page, resident.serial⟩)), db)
      | (.error (.pageFull _), db) => elsewhere db
      | (.error error, db) => (.ended (.error error), db)
    Finishes txn 0 stored.2 stored.1 (Obeys layout heap slots txn
      (before.Inserts heap.table heap.schema slots capacity used row)) := by
  have hdisplays := hreached.legible.displays hreached.frame
  rcases hreached.storeRow hschema hfree with
    ⟨fault, hfault, hstore⟩ | ⟨hfault, slot, stored, hslot, hstore, hlegible, hstored⟩
  · simp only [hstore]
    refine finishes_ended ⟨hreached.legible, ?_⟩
    rw [hreached.sheet, hsheet]
    exact .unfit hschema hfault hpages
  · simp only [hstore]
    refine finishes_ended ⟨hlegible, ?_⟩
    have hleast : before.rows.LeastFree heap.table slots ⟨page, slot⟩ := by
      have hrows : (after.sheet layout heap).rows = before.rows := by
        rw [hreached.sheet, hsheet]
      rw [← hrows] at hfull ⊢
      exact hdisplays.leastFree hfull hslot
    rw [hstored, hsheet]
    exact .stored hschema hfault hleast rfl hpages

variable {before : Sheet} {number count : Nat}

/-- An insert whose page has a free slot ends there. It would only go on elsewhere if the page were
full. -/
theorem Legible.store_finishes {pages : Nat} (hlegible : db.Legible layout heap slots txn)
    (huses : db.Uses capacity (fun other => used other ∨ other = heap.pageId number) txn)
    (hschema : row.schema = heap.schema) (hsheet : db.sheet layout heap = { before with pages })
    (hfull : before.rows.FullBelow heap.table slots number)
    (hslot : slot < slots) (hfree : before.rows ⟨heap.pageId number, slot⟩ = none)
    (hpages : before.Full heap.table slots ∧ number = before.pages ∧ pages = before.pages + 1 ∨
      ¬ before.Full heap.table slots ∧ number < before.pages ∧ pages = before.pages)
    (hholds : (db.locks.lockOf (heap.pageId number)).holds txn .exclusive = true)
    (elsewhere : Database → Progress × Database) :
    let stored : Progress × Database := match db.access txn (heap.pageId number) .exclusive with
      | (.error error, db) => (.ended (.error error), db)
      | (.ok ref, db) =>
          match db.storeRow txn ref row with
          | (.ok row, db) => (.ended (.ok (.inserted row ref)), db)
          | (.error (.pageFull _), db) => elsewhere db
          | (.error error, db) => (.ended (.error error), db)
    Finishes txn 0 stored.2 stored.1 (Obeys layout heap slots txn
      (before.Inserts heap.table heap.schema slots capacity used row)) := by
  have hfile : number < (db.sheet layout heap).pages := by
    rw [hsheet]
    show number < pages
    omega
  rcases hlegible.access rfl hfile hholds with
    ⟨_, haccess, hcrowded⟩ | ⟨resident, after, haccess, hreached⟩
  · simp only [haccess]
    refine finishes_ended ⟨hlegible, ?_⟩
    rw [hsheet]
    exact .crowded hschema hfull (hpages.symm.imp And.right And.right) (huses.crowded hcrowded)
  · simp only [haccess]
    have hroom : resident.page.firstFree? ≠ none := by
      apply (hreached.legible.displays hreached.frame).firstFree?_ne_none hslot
      rw [hreached.sheet, hsheet]
      exact hfree
    refine hreached.stores hschema hroom hsheet hfull ?_ elsewhere
    exact hpages.imp (And.imp_right And.right) (And.imp_right And.right)

/-- An insert that has added a page for its row ends there: nothing is stored on that page, so its
first slot is free. -/
theorem Legible.grow_finishes (hlegible : db.Legible layout heap slots txn)
    (huses : db.Uses capacity (fun other => used other ∨ other = heap.pageId before.pages) txn)
    (hschema : row.schema = heap.schema)
    (hsheet : db.sheet layout heap = { before with pages := before.pages + 1 })
    (hfull : before.Full heap.table slots)
    (hempty : ∀ slot, before.rows ⟨heap.pageId before.pages, slot⟩ = none)
    (hholds : (db.locks.lockOf (heap.pageId before.pages)).holds txn .exclusive = true) :
    Finishes txn 0 (db.proceedInsert txn heap row (.grow before.pages)).2
      (db.proceedInsert txn heap row (.grow before.pages)).1 (Obeys layout heap slots txn
        (before.Inserts heap.table heap.schema slots capacity used row)) :=
  hlegible.store_finishes huses hschema hsheet hfull hlegible.slots_pos (hempty 0)
    (.inl ⟨hfull, rfl, rfl⟩) hholds fun db => db.growFor heap row

/-- An insert that has found every page full adds a page. -/
theorem Legible.growFor_finishes (hlegible : db.Legible layout heap slots txn)
    (huses : db.Uses capacity used txn) (hschema : row.schema = heap.schema)
    (hsheet : db.sheet layout heap = before) (hfull : before.Full heap.table slots) :
    Finishes txn 1 (db.growFor heap row).2 (db.growFor heap row).1 (Obeys layout heap slots txn
      (before.Inserts heap.table heap.schema slots capacity used row)) := by
  subst hsheet
  obtain ⟨hgrown, hsheet⟩ := hlegible.append
  have hempty : ∀ slot, (db.sheet layout heap).rows
      ⟨heap.pageId (db.sheet layout heap).pages, slot⟩ = none :=
    fun slot => hlegible.rows_outside fun h => Nat.lt_irrefl _ h.2
  have huses : Uses capacity used txn { db with storage := (heap.appendPage db.storage).2 } :=
    ⟨huses.capacity, huses.held⟩
  refine hgrown.finishes fun locks hlocked hsame hserves hholds => ?_
  have hserves : LockTable.Serves txn (heap.pageId (db.sheet layout heap).pages) .exclusive
    db.locks locks := hserves
  exact hlocked.grow_finishes (huses.lock hserves) hschema (hsame.trans hsheet) hfull hempty hholds

/-- An insert that has found a free slot on a page ends there. -/
theorem Legible.escalate_finishes (hlegible : db.Legible layout heap slots txn)
    (huses : db.Uses capacity (fun other => used other ∨ other = heap.pageId number) txn)
    (hschema : row.schema = heap.schema) (hsheet : db.sheet layout heap = before)
    (hfull : before.rows.FullBelow heap.table slots number) (hnumber : number < before.pages)
    (hslot : slot < slots) (hfree : before.rows ⟨heap.pageId number, slot⟩ = none)
    (hholds : (db.locks.lockOf (heap.pageId number)).holds txn .exclusive = true) :
    Finishes txn 0 (db.proceedInsert txn heap row (.escalate number count)).2
      (db.proceedInsert txn heap row (.escalate number count)).1 (Obeys layout heap slots txn
        (before.Inserts heap.table heap.schema slots capacity used row)) := by
  have hroom : ¬ before.Full heap.table slots := by
    intro hall
    have hstored := hall ⟨heap.pageId number, slot⟩ rfl hnumber hslot
    rw [hfree] at hstored
    simp at hstored
  exact hlegible.store_finishes huses hschema hsheet hfull hslot hfree
    (.inr ⟨hroom, hnumber, rfl⟩) hholds fun db => db.probeAt txn heap row (number + 1) count

/-- An insert that probes a page finds room on it, or leaves it for the next one if it is full. -/
theorem Legible.probe_finishes (hlegible : db.Legible layout heap slots txn) {heldBefore : Bool}
    {bound : Nat}
    (huses : db.Uses capacity (fun other => used other ∨ other = heap.pageId number) txn)
    (hheld : heldBefore = true → used (heap.pageId number))
    (hschema : row.schema = heap.schema) (hsheet : db.sheet layout heap = before)
    (hfull : before.rows.FullBelow heap.table slots number) (hnumber : number < before.pages)
    (hready : (Operation.insert heap row (.probe number count heldBefore)).Ready db.locks txn)
    (hholds : (db.locks.lockOf (heap.pageId number)).holds txn .shared = true)
    (hnext : ∀ after : Database, after.Legible layout heap slots txn →
      after.Uses capacity used txn → after.sheet layout heap = before →
      before.rows.FullBelow heap.table slots (number + 1) →
      Finishes txn (bound + 1) (after.probeAt txn heap row (number + 1) count).2
        (after.probeAt txn heap row (number + 1) count).1 (Obeys layout heap slots txn
          (before.Inserts heap.table heap.schema slots capacity used row))) :
    Finishes txn (bound + 1) (db.proceedInsert txn heap row (.probe number count heldBefore)).2
      (db.proceedInsert txn heap row (.probe number count heldBefore)).1 (Obeys layout heap slots txn
        (before.Inserts heap.table heap.schema slots capacity used row)) := by
  have hfile : number < (db.sheet layout heap).pages := by
    rw [hsheet]
    exact hnumber
  unfold proceedInsert
  rcases hlegible.access rfl hfile hholds with
    ⟨_, haccess, hcrowded⟩ | ⟨resident, after, haccess, hreached⟩
  · simp only [haccess]
    refine finishes_ended ⟨hlegible, ?_⟩
    rw [hsheet]
    exact .crowded hschema hfull (.inl ⟨hnumber, rfl⟩) (huses.crowded hcrowded)
  · have hdisplays := hreached.legible.displays hreached.frame
    have hkept : after.sheet layout heap = before := hreached.sheet.trans hsheet
    have hreaches := hreached.uses huses
    have hframe : after.frame? ⟨heap.pageId number, resident.serial⟩ = some resident.toFrame :=
      Cache.frame?_of_resident _ _ hreached.frame
    simp only [haccess, hframe, Option.any_some, decide_eq_true_eq]
    split
    · rename_i hcount
      obtain ⟨slot, hslot, hfree⟩ := hdisplays.exists_free hcount
      rw [hkept] at hfree
      have hends : Finishes txn (0 + 1) after (.needs (.insert heap row (.escalate number count)))
          (Obeys layout heap slots txn
            (before.Inserts heap.table heap.schema slots capacity used row)) :=
        hreached.legible.finishes fun locks hlocked hsame hserves hlock =>
          hlocked.escalate_finishes ((hreaches.lock hserves).imp fun _ h => h.elim id .inr) hschema
            (hsame.trans hkept) hfull hnumber hslot hfree hlock
      exact hends.mono (Nat.le_add_left 1 bound)
    · rename_i hcount
      have hnone : resident.page.firstFree? = none :=
        HeapPage.firstFree?_eq_none_iff.mpr (HeapPage.freeCount_eq_zero_iff.mp (by omega))
      have hfull' : before.rows.FullBelow heap.table slots (number + 1) := by
        rw [← hkept] at hfull ⊢
        exact hdisplays.fullBelow hfull hnone
      cases heldBefore with
      | true =>
          refine hnext after hreached.legible (hreaches.imp ?_) hkept hfull'
          rintro other (hother | rfl)
          · exact hother
          · exact hheld rfl
      | false =>
          -- The page was only locked to be probed. Its lock is given up, and hides no change.
          have howner : (after.locks.lockOf (heap.pageId number)).exclusive ≠ some txn := by
            rw [hreached.exclusive]
            exact hready.2 rfl
          obtain ⟨hsolo, hsteady⟩ := hreached.legible.toSolo.act (.release howner) rfl
          have hcalm := hreached.legible.toCalm.release txn (heap.pageId number)
          exact hnext _ (hreached.legible.of_steady hsolo hcalm hsteady) hreaches.release
            (hsteady.sheet.trans hkept) hfull'

/-- An insert that turns to a page, all pages before which are full, ends. -/
theorem Legible.probeAt_finishes (hlegible : db.Legible layout heap slots txn)
    (huses : db.Uses capacity used txn) (hschema : row.schema = heap.schema)
    (hsheet : db.sheet layout heap = before)
    (hfull : before.rows.FullBelow heap.table slots number) (hnumber : number ≤ before.pages) :
    Finishes txn (before.pages - number + 1) (db.probeAt txn heap row number before.pages).2
      (db.probeAt txn heap row number before.pages).1 (Obeys layout heap slots txn
        (before.Inserts heap.table heap.schema slots capacity used row)) := by
  -- The induction is on the number of pages that are left to probe.
  induction hleft : before.pages - number generalizing db number with
  | zero =>
      obtain rfl : number = before.pages := by omega
      unfold probeAt
      simp only [Nat.lt_irrefl, if_false]
      exact hlegible.growFor_finishes huses hschema hsheet hfull
  | succ left ih =>
      have hless : number < before.pages := by omega
      have hready : (Operation.insert heap row (.probe number before.pages
          (db.locks.holdsLock txn (heap.pageId number)))).Ready db.locks txn := by
        refine ⟨hlegible.pageSize_ne_zero, ?_⟩
        intro hheld howner
        rw [LockTable.holdsLock, LockState.holds, howner] at hheld
        simp at hheld
      unfold probeAt
      simp only [if_pos hless]
      refine hlegible.finishes ?_
      intro locks hlocked hsame hserves hholds
      exact hlocked.probe_finishes (huses.lock hserves) (huses.held (heap.pageId number)) hschema
        (hsame.trans hsheet) hfull hless (hready.of_serves hserves) hholds
        fun after hafter huses hkept hfull => ih hafter huses hkept hfull hless (by omega)

/-- An insert into the table ends, and does to the sheet what the sheet allows. -/
theorem Legible.insert (hlegible : db.Legible layout heap slots txn) (row : Row) :
    db.Completes txn (.insert heap.table row) (Obeys layout heap slots txn
      ((db.sheet layout heap).Inserts heap.table heap.schema slots db.cache.capacity
        (fun page => db.locks.holdsLock txn page = true) row)) := by
  unfold Completes begin beginInsert
  simp only [hlegible.registered]
  unfold beginInsertInto
  by_cases hschema : row.schema = heap.schema
  · simp only [hschema, ne_eq, not_true_eq_false, if_false]
    have hfinishes := hlegible.probeAt_finishes ⟨rfl, fun _ => id⟩ hschema rfl
      (fun place _ hbelow => absurd hbelow (Nat.not_lt_zero _)) (Nat.zero_le _)
    refine hfinishes.run ?_
    intro operation hneeds
    have hpages : (db.sheet layout heap).pages = heap.pageCount db.storage := rfl
    unfold probeAt growFor at hneeds ⊢
    split at hneeds
    · rename_i hcount
      simp only [Progress.needs.injEq] at hneeds
      subst hneeds
      rw [if_pos hcount]
      show (db.sheet layout heap).pages - 0 + 1 ≤
        2 * heap.pageCount db.storage + db.cache.residentCount + 2
      omega
    · rename_i hcount
      simp only [Progress.needs.injEq] at hneeds
      subst hneeds
      rw [if_neg hcount]
      show (db.sheet layout heap).pages - 0 + 1 ≤
        2 * heap.pageCount (heap.appendPage db.storage).2 + db.cache.residentCount + 2
      omega
  · simp only [ne_eq, hschema, not_false_eq_true, if_true]
    exact ⟨_, db, rfl, hlegible, .foreign hschema⟩

/-- A delete of a row on a page of the table ends there. -/
theorem Legible.delete_finishes (hlegible : db.Legible layout heap slots txn) {place : RecordId}
    (huses : db.Uses capacity (fun other => used other ∨ other = place.page) txn)
    (hplace : row.place = some place) (htable : place.page.table = heap.table)
    (hfile : place.page.number < heap.pageCount db.storage) (hsheet : db.sheet layout heap = before)
    (hholds : (db.locks.lockOf place.page).holds txn .exclusive = true) :
    Finishes txn 0 (db.proceedDelete txn row place).2 (db.proceedDelete txn row place).1
      (Obeys layout heap slots txn (before.Deletes heap.table slots capacity used row)) := by
  have hnumber : place.page.number < before.pages := hsheet ▸ hfile
  unfold proceedDelete
  rcases hlegible.access htable hfile hholds with
    ⟨_, haccess, hcrowded⟩ | ⟨resident, after, haccess, hreached⟩
  · simp only [haccess]
    refine finishes_ended ⟨hlegible, ?_⟩
    rw [hsheet]
    exact .crowded hplace htable hnumber (huses.crowded hcrowded)
  · have hdisplays := hreached.legible.displays hreached.frame
    have hkept : after.sheet layout heap = before := hreached.sheet.trans hsheet
    have hrows : before.rows place = resident.page.valuesAt place.slot := by
      rw [← hkept]
      exact hdisplays.rows place.slot
    simp only [haccess, modifyFrame_eq hreached.frame]
    cases hdelete : resident.page.delete row with
    | error error =>
        show Finishes txn 0 after (.ended (.error error)) _
        refine finishes_ended ⟨hreached.legible, ?_⟩
        obtain ⟨hunused, herror⟩ :=
          HeapPage.isUsed_of_delete_error hdelete hplace hdisplays.id.symm
        rw [hdisplays.slots, ← Sheet.noRow_of_inFile htable hnumber] at herror
        rw [hkept, herror]
        exact .absent hplace (hrows.trans (HeapPage.valuesAt_of_free hunused))
    | ok changed =>
        obtain ⟨other, hother, _, hused, hreadable, hvalues⟩ := hdisplays.readable.delete hdelete
        obtain rfl : place = other := by
          rw [hplace, Option.some.injEq] at hother
          exact hother
        obtain ⟨hchanged, hput⟩ := hreached.legible.change hreached.frame (hreached.owner rfl)
          (hreached.image rfl) (.delete row hdelete) hreadable hvalues
        show Finishes txn 0
          { after with cache := after.cache.setFrame place.page ⟨changed, some txn⟩ }
          (.ended (.ok (.deleted ⟨place.page, resident.serial⟩))) _
        refine finishes_ended ⟨hchanged, ?_⟩
        rw [hput, hkept]
        refine .removed hplace ?_ rfl
        rw [hrows]
        exact hdisplays.readable place.slot hused

/-- A delete ends at once if it can be told that the sheet has no such row, or it needs the page of
the row. -/
theorem Legible.beginDelete_cases (hlegible : db.Legible layout heap slots txn) (row : Row) :
    (row.place = none ∧ db.beginDelete row = .ended (.error .missingPlace)) ∨
    (∃ place, row.place = some place ∧ (db.sheet layout heap).rows place = none ∧
      db.beginDelete row =
        .ended (.error ((db.sheet layout heap).noRow heap.table slots place))) ∨
    ∃ place, db.beginDelete row = .needs (.delete heap row place) ∧ row.place = some place ∧
      place.page.table = heap.table ∧ place.page.number < heap.pageCount db.storage := by
  unfold beginDelete
  cases hplace : row.place with
  | none => exact .inl ⟨rfl, rfl⟩
  | some place =>
      right
      unfold Sheet.noRow
      simp only [Option.some.injEq, exists_eq_left']
      by_cases htable : place.page.table = heap.table
      · rw [htable, hlegible.registered, if_neg (Decidable.not_not.mpr rfl)]
        unfold beginDeleteFrom
        simp only [hplace, htable, ne_eq, not_true_eq_false, if_false]
        by_cases hfile : heap.pageCount db.storage ≤ place.page.number
        · have hpages : (db.sheet layout heap).pages ≤ place.page.number := hfile
          rw [if_pos hfile, if_pos hpages]
          exact .inl ⟨hlegible.rows_outside fun h => Nat.not_lt.mpr hfile h.2, rfl⟩
        · rw [if_neg hfile]
          exact .inr ⟨place, rfl, rfl, htable, Nat.not_le.mp hfile⟩
      · left
        have hnone : db.catalog.heapFile place.page.table =
            .error (.tableNotFound place.page.table) := by
          cases hheap : db.catalog.heapFile place.page.table with
          | ok found => exact absurd (hlegible.only place.page.table found hheap) htable
          | error error =>
              unfold Catalog.heapFile Catalog.info at hheap
              split at hheap
              · rw [← hheap]
                rfl
              · simp [Except.map] at hheap
        refine ⟨hlegible.rows_outside fun h => htable h.1, ?_⟩
        rw [hnone, if_pos htable]

/-- A delete ends, and does to the sheet what the sheet allows. -/
theorem Legible.delete (hlegible : db.Legible layout heap slots txn) (row : Row) :
    db.Completes txn (.delete row) (Obeys layout heap slots txn
      ((db.sheet layout heap).Deletes heap.table slots db.cache.capacity
        (fun page => db.locks.holdsLock txn page = true) row)) := by
  show ∃ answer after, db.run txn (db.beginDelete row) = (.ended answer, after) ∧ _
  rcases hlegible.beginDelete_cases row with
    ⟨hplace, hbegin⟩ | ⟨place, hplace, hnone, hbegin⟩ | ⟨place, hbegin, hplace, htable, hfile⟩
  · rw [hbegin]
    exact ⟨_, db, rfl, hlegible, .unplaced hplace⟩
  · rw [hbegin]
    exact ⟨_, db, rfl, hlegible, .absent hplace hnone⟩
  · rw [hbegin]
    have huses : db.Uses db.cache.capacity (fun page => db.locks.holdsLock txn page = true) txn :=
      ⟨rfl, fun _ => id⟩
    have hfinishes : Finishes txn (0 + 1) db (.needs (.delete heap row place))
        (Obeys layout heap slots txn ((db.sheet layout heap).Deletes heap.table slots
          db.cache.capacity (fun page => db.locks.holdsLock txn page = true) row)) :=
      hlegible.finishes fun locks hlocked hsame hserves hholds =>
        hlocked.delete_finishes (huses.lock hserves) hplace htable hfile hsame hholds
    refine hfinishes.run ?_
    intro operation hneeds
    simp only [Progress.needs.injEq] at hneeds
    subst hneeds
    exact Nat.le_refl _

end Database

end RowStore
