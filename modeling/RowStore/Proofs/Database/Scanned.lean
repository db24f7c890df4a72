import RowStore.Proofs.Database.Stored

/-!
# What a scan hands out

A scan reads the pages of the table in order. Before it reads a page it has handed out the rows of
all pages before, in the order of their places, and the rows of that page come after them. So a
scan that reaches the end of the table has handed out all rows of the sheet. It reaches the end
if the cache has room for the pages, and else it stops at the first page that there is no room for
beside those that the transaction has locked, by then also for the scan.
-/

namespace RowStore

variable {layout : Layout} {heap : HeapFile} {slots : Nat} {txn : TxnId}

namespace Rows

variable {rows : Rows} {entries : List (RecordId × List Value)}

/-- There is nothing on the pages below the first. -/
theorem lists_below_zero (rows : Rows) : (rows.below 0).Lists [] := by
  refine ⟨.nil, ?_⟩
  intro place values
  unfold below
  simp

end Rows

namespace Database

variable {db after : Database} {page : PageId} {entries : List (RecordId × List Value)}

/-- The rows of a page come after those of all pages before it. -/
theorem Legible.lists (hlegible : db.Legible layout heap slots txn) {heapPage : HeapPage}
    (hdisplays : db.Displays layout heap slots page heapPage)
    (hlists : ((db.sheet layout heap).rows.below page.number).Lists entries) :
    ((db.sheet layout heap).rows.below (page.number + 1)).Lists (entries ++ heapPage.listed) := by
  have hbefore : ∀ entry ∈ entries, entry.1.page.number < page.number := by
    intro entry hentry
    have hrow := (hlists.exact entry.1 entry.2).mp hentry
    unfold Rows.below at hrow
    split at hrow
    · assumption
    · simp at hrow
  have hlisted : ∀ entry ∈ heapPage.listed, entry.1.page = page := by
    intro entry hentry
    rw [(HeapPage.mem_listed.mp hentry).1, hdisplays.id]
  refine ⟨?_, ?_⟩
  · rw [List.pairwise_append]
    refine ⟨hlists.ordered, ?_, ?_⟩
    · refine heapPage.pairwise_listed.imp_of_mem fun {a b} ha hb hslots => .inr ⟨?_, hslots⟩
      rw [hlisted a ha, hlisted b hb]
    · intro a ha b hb
      left
      rw [hlisted b hb]
      exact hbefore a ha
  · intro place values
    rw [List.mem_append, hlists.exact, HeapPage.mem_listed, hdisplays.id]
    unfold Rows.below
    -- A place is on the page itself, before it, or after it. Beside it, at the same number, there
    -- is no other page of the table.
    by_cases hsame : place.page = page
    · obtain ⟨other, slot⟩ := place
      obtain rfl : other = page := hsame
      simp [hdisplays.rows]
    · have hnone : place.page.number = page.number → (db.sheet layout heap).rows place = none := by
        intro hnumber
        refine hlegible.rows_outside fun h => hsame ?_
        show (⟨place.page.table, place.page.number⟩ : PageId) = page
        rw [h.1, hnumber, ← hdisplays.inTable]
      rcases Nat.lt_trichotomy place.page.number page.number with hless | heq | hgreater
      · simp [hsame, hless, Nat.lt_succ_of_lt hless]
      · simp [hsame, heq, hnone heq]
      · have hlast : ¬ place.page.number < page.number + 1 := by omega
        have hlast' : ¬ place.page.number < page.number := by omega
        simp [hsame, hlast, hlast']

/-- There are no rows beyond the last page. -/
theorem Legible.below_pages (hlegible : db.Legible layout heap slots txn) {number : Nat}
    (hnumber : heap.pageCount db.storage ≤ number) :
    (db.sheet layout heap).rows.below number = (db.sheet layout heap).rows := by
  funext place
  unfold Rows.below
  split
  · rfl
  · rw [hlegible.rows_outside fun h => by omega]

/-- A walk over the whole table that is about to hand out what is buffered: with that, it has handed
out the rows of all pages before the next. -/
structure Walks (heap : HeapFile) (rows : Rows) (walk : Walk) : Prop where
  budget : walk.budget = none
  source : walk.cursor.heap = heap
  done : walk.cursor.done = false
  items : ∃ entries, (rows.below walk.cursor.nextPage).Lists entries ∧
    walk.items ++ walk.cursor.buffered.map .ok = Sheet.itemsOf heap.schema entries

/-- The pages that count as used by a transaction whose scan has read those below a number. -/
def UsedBelow (used : PageId → Prop) (heap : HeapFile) (number : Nat) (page : PageId) : Prop :=
  used page ∨ page.table = heap.table ∧ page.number < number

variable {capacity : Nat} {used : PageId → Prop}

/-- What a scan comes to: nothing has changed, and it has handed out what the sheet allows, which is
everything if there was room in the cache for so many pages. -/
structure HandsOut (layout : Layout) (heap : HeapFile) (slots capacity : Nat)
    (used : PageId → Prop) (txn : TxnId) (room : Prop) (before : Sheet)
    (answer : Except Error Answer) (after : Database) : Prop where
  legible : after.Legible layout heap slots txn
  sheet : after.sheet layout heap = before
  answer : ∃ walk, answer = .ok (.scanned walk true) ∧
    before.Scans heap.table heap.schema capacity used walk.items ∧
    (room → ∃ entries, before.rows.Lists entries ∧
      walk.items = Sheet.itemsOf heap.schema entries)

/-- A scan for which less room is enough hands out everything if there is more. -/
theorem HandsOut.imp {room more : Prop} {before : Sheet} {answer : Except Error Answer}
    (hlists : HandsOut layout heap slots capacity used txn room before answer db)
    (h : more → room) : HandsOut layout heap slots capacity used txn more before answer db := by
  obtain ⟨hlegible, hsheet, walk, hanswer, hscans, hall⟩ := hlists
  exact ⟨hlegible, hsheet, walk, hanswer, hscans, hall ∘ h⟩

/-- The places left in the cache are enough for so many pages. -/
def HasRoom (db : Database) (pages : Nat) : Prop :=
  db.cache.occupied + pages ≤ db.cache.capacity

/-- A walk over the whole table hands out everything that is buffered. -/
theorem Walks.drain {rows : Rows} {walk : Walk} (hwalks : Walks heap rows walk) :
    Walks heap rows walk.drain ∧ walk.drain.cursor.buffered = [] ∧
      walk.drain.cursor.nextPage = walk.cursor.nextPage := by
  obtain ⟨entries, hlists, hitems⟩ := hwalks.items
  unfold Walk.drain Walk.emit
  simp only [hwalks.budget, Option.getD_none, List.take_length, Option.map_none, List.drop_length,
    and_true]
  exact ⟨rfl, hwalks.source, hwalks.done, entries, hlists,
    (List.append_nil _).trans hitems⟩

/-- How a walk over the whole table goes on. -/
theorem Walks.continueWalk {rows : Rows} {walk : Walk} (hwalks : Walks heap rows walk)
    (db : Database) :
    db.continueWalk walk =
      if heap.pageCount db.storage ≤ walk.cursor.nextPage then
        .ended (.ok (.scanned { walk.drain with cursor := walk.drain.cursor.finish } true))
      else .needs (.scan walk.drain) := by
  obtain ⟨hdrained, _, hnumber⟩ := hwalks.drain
  have hstep : walk.drain.step (walk.drain.cursor.heap.pageCount db.storage) =
      if heap.pageCount db.storage ≤ walk.cursor.nextPage then .ended else .reads := by
    unfold Walk.step Walk.isSated
    simp [hdrained.budget, hdrained.done, hdrained.source, hnumber]
  unfold Database.continueWalk
  simp only [hstep]
  by_cases hlast : heap.pageCount db.storage ≤ walk.cursor.nextPage
  · rw [if_pos hlast, if_pos hlast]
  · rw [if_neg hlast, if_neg hlast]

variable {before : Sheet} {walk : Walk} {bound : Nat} {room : Prop}

/-- A walk that reads a page goes on with its rows, or ends if there is no room for the page. -/
theorem Legible.scan_finishes (hlegible : db.Legible layout heap slots txn)
    (huses : db.Uses capacity
      (fun page => UsedBelow used heap walk.cursor.nextPage page ∨ page = walk.cursor.page) txn)
    (hsheet : db.sheet layout heap = before) (hwalks : Walks heap before.rows walk)
    (hbuffered : walk.cursor.buffered = []) (hnumber : walk.cursor.nextPage < before.pages)
    (hroom : room → db.cache.occupied < db.cache.capacity)
    (hholds : (db.locks.lockOf walk.cursor.page).holds txn .shared = true)
    (hnext : ∀ (after : Database) (rows : List Row), after.Legible layout heap slots txn →
      after.Uses capacity (UsedBelow used heap (walk.cursor.nextPage + 1)) txn →
      after.sheet layout heap = before → after.cache.capacity = db.cache.capacity →
      after.cache.occupied ≤ db.cache.occupied + 1 →
      Walks heap before.rows (walk.refill rows) →
      Finishes txn bound after (after.continueWalk (walk.refill rows))
        (HandsOut layout heap slots capacity used txn room before)) :
    Finishes txn bound (db.proceedScan txn walk).2 (db.proceedScan txn walk).1
      (HandsOut layout heap slots capacity used txn room before) := by
  obtain ⟨entries, hlists, hitems⟩ := hwalks.items
  rw [hbuffered, List.map_nil, List.append_nil] at hitems
  have hpage : walk.cursor.page = ⟨heap.table, walk.cursor.nextPage⟩ := by
    unfold Cursor.page
    rw [hwalks.source]
    rfl
  have htable : walk.cursor.page.table = heap.table := congrArg PageId.table hpage
  have hfile : walk.cursor.page.number < (db.sheet layout heap).pages := by
    rw [hsheet]
    exact hnumber
  unfold proceedScan
  rcases hlegible.access htable hfile hholds with
    ⟨hfull, haccess, hcrowded⟩ | ⟨resident, after, haccess, hreached⟩
  · simp only [haccess]
    refine finishes_ended ⟨hlegible, hsheet, walk.fail .cacheFull, ?_, ?_, ?_⟩
    · unfold Operation.refuse Walk.fail Walk.emit Walk.isSated
      simp [hwalks.budget]
    · show before.Scans heap.table heap.schema capacity used (walk.items ++ [.error .cacheFull])
      rw [hitems]
      refine .broken hnumber hlists ?_
      rw [← hpage]
      exact huses.crowded hcrowded
    · intro h
      have hfull := db.cache.isFull_iff.mp hfull
      have hroom := hroom h
      omega
  · have hdisplays := hreached.legible.displays hreached.frame
    have hkept : after.sheet layout heap = before := hreached.sheet.trans hsheet
    have hframe : after.frame? ⟨walk.cursor.page, resident.serial⟩ = some resident.toFrame :=
      Cache.frame?_of_resident _ _ hreached.frame
    simp only [haccess, hframe, hdisplays.readable.rows]
    refine hnext after _ hreached.legible ((hreached.uses huses).imp ?_) hkept hreached.capacity
      hreached.occupied
      ⟨hwalks.budget, hwalks.source, hwalks.done, entries ++ resident.page.listed, ?_, ?_⟩
    · rintro other ((hother | ⟨hsame, hless⟩) | rfl)
      · exact .inl hother
      · exact .inr ⟨hsame, Nat.lt_succ_of_lt hless⟩
      · exact .inr ⟨htable, hpage ▸ Nat.lt_succ_self _⟩
    · rw [← hkept] at hlists ⊢
      exact hreached.legible.lists hdisplays hlists
    · show walk.items ++ List.map Except.ok (List.map _ resident.page.listed) = _
      unfold Sheet.itemsOf
      rw [hitems, List.map_map, List.map_append, hdisplays.schema]
      rfl

/-- A walk over the whole table ends. -/
theorem Legible.continueWalk_finishes (hlegible : db.Legible layout heap slots txn)
    (huses : db.Uses capacity (UsedBelow used heap walk.cursor.nextPage) txn)
    (hsheet : db.sheet layout heap = before) (hwalks : Walks heap before.rows walk) :
    Finishes txn (before.pages - walk.cursor.nextPage) db (db.continueWalk walk)
      (HandsOut layout heap slots capacity used txn
        (db.HasRoom (before.pages - walk.cursor.nextPage)) before) := by
  -- The induction is on the number of pages that are left to read.
  induction hleft : before.pages - walk.cursor.nextPage generalizing db walk with
  | zero =>
      have hpages : heap.pageCount db.storage = before.pages := congrArg Sheet.pages hsheet
      have hlast : before.pages ≤ walk.cursor.nextPage := by omega
      obtain ⟨hdrained, hbuffered, hnumber⟩ := hwalks.drain
      obtain ⟨entries, hlists, hitems⟩ := hdrained.items
      rw [hbuffered, List.map_nil, List.append_nil] at hitems
      have hall : before.rows.Lists entries := by
        rw [← hsheet, hlegible.below_pages (hpages ▸ hnumber ▸ hlast), hsheet] at hlists
        exact hlists
      rw [hwalks.continueWalk db, hpages, if_pos hlast]
      refine finishes_ended ⟨hlegible, hsheet, _, rfl, ?_, fun _ => ⟨entries, hall, hitems⟩⟩
      show before.Scans heap.table heap.schema capacity used walk.drain.items
      rw [hitems]
      exact .complete hall
  | succ left ih =>
      have hpages : heap.pageCount db.storage = before.pages := congrArg Sheet.pages hsheet
      have hless : walk.cursor.nextPage < before.pages := by omega
      obtain ⟨hdrained, hbuffered, hnumber⟩ := hwalks.drain
      rw [hwalks.continueWalk db, hpages, if_neg (Nat.not_le.mpr hless)]
      refine hlegible.finishes ?_
      intro locks hlocked hsame hserves hholds
      have hlocks := (hnumber ▸ huses :
        db.Uses capacity (UsedBelow used heap walk.drain.cursor.nextPage) txn).lock hserves
      refine hlocked.scan_finishes hlocks (hsame.trans hsheet) hdrained hbuffered
        (hnumber ▸ hless) ?_ hholds ?_
      · intro h
        unfold HasRoom at h
        show db.cache.occupied < db.cache.capacity
        omega
      · intro after rows hafter huses hkept hcapacity hoccupied hwalks'
        have hnext : (walk.drain.refill rows).cursor.nextPage = walk.cursor.nextPage + 1 :=
          congrArg Nat.succ hnumber
        refine (ih hafter huses hkept hwalks' (by omega)).imp fun answer last hlists =>
          hlists.imp ?_
        intro hroom
        show after.cache.occupied + left ≤ after.cache.capacity
        have hbefore : db.cache.occupied + (left + 1) ≤ db.cache.capacity := hroom
        have hoccupied : after.cache.occupied ≤ db.cache.occupied + 1 := hoccupied
        have hcapacity : after.cache.capacity = db.cache.capacity := hcapacity
        omega

/-- A scan of the whole table ends, changes nothing, and hands out what the sheet allows. -/
theorem Legible.scan (hlegible : db.Legible layout heap slots txn) :
    db.Completes txn (.scan heap.table none)
      (HandsOut layout heap slots db.cache.capacity (fun page => db.locks.holdsLock txn page = true)
        txn (db.HasRoom (heap.pageCount db.storage)) (db.sheet layout heap)) := by
  have hwalks : Walks heap (db.sheet layout heap).rows { cursor := { heap } } :=
    ⟨rfl, rfl, rfl, [], Rows.lists_below_zero _, rfl⟩
  have hfinishes := hlegible.continueWalk_finishes ⟨rfl, fun _ => .inl⟩ rfl hwalks
  unfold Completes begin openCursor
  simp only [hlegible.registered, Except.map]
  refine hfinishes.run ?_
  intro operation hneeds
  rw [hwalks.continueWalk db] at hneeds
  split at hneeds
  · simp at hneeds
  · simp only [Progress.needs.injEq] at hneeds
    subst hneeds
    have hsource := hwalks.drain.1.source
    show heap.pageCount db.storage - 0 ≤ _
    unfold demandBound
    simp only [hsource]
    omega

end Database

end RowStore
