import RowStore.Proofs.Database.Restamped
import RowStore.Proofs.Page.Rows

/-!
# What a transaction finds in a table

The findings of a transaction are what it gets that asks for the pages of a table one after the
other, in shared mode, up to the first that it cannot get or cannot read. Each page that it finds it
then has:
`Reading` says how far it has come, and `Reading.read` that it finds the same again on every page
that it goes back to.

A walk hands out what it finds page by page, and stops at the first error (`handedOut`). It differs
from what is stored up to the first error (`storedRows`) only if a page with a record that cannot be
read has records that can be read before it: `handedOut_eq_storedRows_iff`.
-/

namespace RowStore

/-- A page, or the reason why it could not be got. -/
abbrev PageFinding := Except Error HeapPage

namespace PageFinding

/-- What is stored on the page, slot by slot. -/
def stored : PageFinding → List (Except Error Row)
  | .error error => [.error error]
  | .ok page => page.entries

/-- What a walk makes of the page: its rows, or only an error if there is one. -/
def handed (finding : PageFinding) : List (Except Error Row) :=
  match finding.bind HeapPage.rows with
  | .error error => [.error error]
  | .ok rows => rows.map .ok

/-- Whether the page could not be got or holds a record that cannot be read. -/
def fails (finding : PageFinding) : Bool :=
  (stored finding).any fun item => !item.isOk

/-- A page has its rows handed out, or an error that comes after some of its rows. -/
theorem handed_cases (finding : PageFinding) :
    (fails finding = false ∧ ∃ rows : List Row,
        finding.bind HeapPage.rows = .ok rows ∧ stored finding = rows.map .ok) ∨
      fails finding = true ∧ ∃ (rows : List Row) (error : Error) (rest : List (Except Error Row)),
        finding.bind HeapPage.rows = .error error ∧
        stored finding = rows.map .ok ++ .error error :: rest := by
  have hcases : (∃ rows : List Row,
        finding.bind HeapPage.rows = .ok rows ∧ stored finding = rows.map .ok) ∨
      ∃ (rows : List Row) (error : Error) (rest : List (Except Error Row)),
        finding.bind HeapPage.rows = .error error ∧
        stored finding = rows.map .ok ++ .error error :: rest := by
    cases finding with
    | error error => exact .inr ⟨[], error, [], rfl, rfl⟩
    | ok page => exact page.rows_cases
  refine hcases.imp (fun hrows => ⟨?_, hrows⟩) fun hbroken => ⟨?_, hbroken⟩
  · obtain ⟨rows, _, hstored⟩ := hrows
    simp [fails, hstored, Except.isOk, Except.toBool]
  · obtain ⟨rows, error, rest, _, hstored⟩ := hbroken
    simp [fails, hstored, Except.isOk, Except.toBool]

/-- A page that has been got and read does not fail. -/
theorem fails_of_rows {finding : PageFinding} {rows : List Row}
    (hrows : finding.bind HeapPage.rows = .ok rows) : fails finding = false := by
  rcases handed_cases finding with ⟨hfails, _⟩ | ⟨_, _, error, _, herror, _⟩
  · exact hfails
  · cases hrows.symm.trans herror

end PageFinding

/-- Some items up to the first error. -/
def throughError : List (Except Error Row) → List (Except Error Row)
  | [] => []
  | .error error :: _ => [.error error]
  | .ok row :: rest => .ok row :: throughError rest

/-- Rows come before what follows them. -/
theorem throughError_append (rows : List Row) (rest : List (Except Error Row)) :
    throughError (rows.map .ok ++ rest) = rows.map .ok ++ throughError rest := by
  induction rows with
  | nil => rfl
  | cons row rows ih => exact congrArg (Except.ok row :: ·) ih

/-- What a walk over these pages hands out. -/
def handedOut (findings : List PageFinding) : List (Except Error Row) :=
  throughError (findings.flatMap PageFinding.handed)

/-- The rows of a page come before what follows on the other pages, and nothing comes after an
error. -/
theorem handedOut_cons (finding : PageFinding) (findings : List PageFinding) :
    handedOut (finding :: findings) =
      match finding.bind HeapPage.rows with
      | .error error => [.error error]
      | .ok rows => rows.map .ok ++ handedOut findings := by
  simp only [handedOut, List.flatMap_cons, PageFinding.handed]
  cases finding.bind HeapPage.rows with
  | error error => rfl
  | ok rows => exact throughError_append rows _

/-- What is stored on these pages, page by page and slot by slot, up to the first record or page
that cannot be read. -/
def storedRows (findings : List PageFinding) : List (Except Error Row) :=
  throughError (findings.flatMap PageFinding.stored)

/-- A walk over pages that can all be got and read hands out all that is stored. -/
theorem handedOut_of_reads {findings : List PageFinding}
    (hall : ∀ finding ∈ findings, PageFinding.fails finding = false) :
    handedOut findings = findings.flatMap PageFinding.stored := by
  induction findings with
  | nil => rfl
  | cons finding findings ih =>
      rcases PageFinding.handed_cases finding with ⟨_, rows, hrows, hstored⟩ | ⟨hfails, _⟩
      · have hrest := ih fun other hother => hall other (List.mem_cons_of_mem _ hother)
        rw [handedOut_cons, hrows, List.flatMap_cons, hstored, ← hrest]
      · exact Bool.noConfusion (hfails.symm.trans (hall finding List.mem_cons_self))

/-- A walk hands out what is stored up to the first error just if, on the first page that has one,
no record before the error can be read. -/
theorem handedOut_eq_storedRows_iff (findings : List PageFinding) :
    handedOut findings = storedRows findings ↔
      ∀ page, findings.find? PageFinding.fails = some (.ok page) →
        ∃ error, page.entries.head? = some (.error error) := by
  induction findings with
  | nil => simp [handedOut, storedRows]
  | cons finding findings ih =>
      simp only [handedOut, storedRows] at ih ⊢
      rcases PageFinding.handed_cases finding with
        ⟨hfails, rows, hrows, hstored⟩ | ⟨hfails, rows, error, rest, herror, hstored⟩
      · simp only [List.flatMap_cons, PageFinding.handed, hrows, hstored, throughError_append,
          List.append_cancel_left_eq, List.find?_cons, hfails]
        exact ih
      · have hhanded : PageFinding.handed finding = [.error error] := by
          simp only [PageFinding.handed, herror]
        -- The rows before the error are what makes the difference.
        have hlists : throughError ((finding :: findings).flatMap PageFinding.handed) =
            throughError ((finding :: findings).flatMap PageFinding.stored) ↔ rows = [] := by
          simp only [List.flatMap_cons, hhanded, hstored, List.append_assoc, List.cons_append,
            List.nil_append, throughError_append, throughError]
          cases rows with
          | nil => simp
          | cons row rows => simp
        rw [hlists, List.find?_cons, hfails]
        cases finding with
        | error failure =>
            cases rows with
            | nil => simp
            | cons row rows => simp [PageFinding.stored] at hstored
        | ok page =>
            have hentries : page.entries = rows.map .ok ++ .error error :: rest := hstored
            simp only [Option.some.injEq, Except.ok.injEq, forall_eq', hentries]
            cases rows <;> simp

namespace Database

variable {db after : Database} {txn : TxnId} {heap : HeapFile} {findings : List PageFinding}
  {count number reached : Nat} {recency : Recency}

/-- What a transaction finds on so many pages of a table from a number on, if all requests are
granted at once. The first page that it cannot get or cannot read is the last that it asks for. -/
def findingsFrom (txn : TxnId) (heap : HeapFile) :
    (count number : Nat) → Database → Option (List PageFinding)
  | 0, _, _ => some []
  | count + 1, number, db =>
      match db.getShared txn (heap.pageId number) with
      | none => none
      | some (finding, db) =>
          if PageFinding.fails finding then some [finding]
          else (findingsFrom txn heap count (number + 1) db).map (finding :: ·)

/-- What a transaction finds in a table, if all requests are granted at once. -/
def findings? (db : Database) (txn : TxnId) (heap : HeapFile) : Option (List PageFinding) :=
  findingsFrom txn heap (heap.pageCount db.storage) 0 db

/-- What a transaction finds does not depend on the stamps of pages that it holds. -/
theorem findingsFrom_withRecency (hsound : db.catalog.Sound) (hstamps : db.Restamps txn recency)
    (count number : Nat) :
    findingsFrom txn heap count number (db.withRecency recency) =
      findingsFrom txn heap count number db := by
  induction count generalizing db number recency with
  | zero => rfl
  | succ count ih =>
      rw [findingsFrom, findingsFrom]
      have hrestamped : db.getShared txn (heap.pageId number) = none ∧ _ ∨ _ :=
        getShared_withRecency hsound hstamps
      rcases hrestamped with ⟨hnone, hnone'⟩ | ⟨answer, after, later, hgets, hgets', hlater⟩
      · rw [hnone, hnone']
      · have hcatalog := (getShared_gets hsound hgets).catalog
        rw [hgets, hgets']
        simp only [ih (hcatalog ▸ hsound) hlater]

/-- What can be found of a page, when so many pages have been asked for before: its frame in the
cache, or what its file holds. If there are too few places in the cache it may be neither. -/
inductive Offers (db : Database) (page : PageId) (before : Nat) : PageFinding → Prop where
  | cached {resident : Resident} : db.cache.frames[page]? = some resident →
      Offers db page before (.ok resident.page)
  | loaded {heapPage : HeapPage} {origin : PageFile} :
      (db.load page).1 = .ok (heapPage, origin) → Offers db page before (.ok heapPage)
  | unreadable {error : Error} : (db.load page).1 = .error error →
      Offers db page before (.error error)
  | full : db.cache.capacity ≤ db.cache.occupied + before →
      Offers db page before (.error .cacheFull)

/-- A page that is fetched is one that is offered, and so is a failure. -/
theorem fetch_offers (hsound : db.catalog.Sound) {page : PageId} :
    (∀ error, (db.fetch page).1 = .error error → db.Offers page 0 (.error error)) ∧
      ∀ resident : Resident, (db.fetch page).2.cache.frames[page]? = some resident →
        db.Offers page 0 (.ok resident.page) := by
  cases hframe : db.cache.frames[page]? with
  | some resident =>
      simp only [fetch, reserve_of_resident hframe]
      exact ⟨fun error herror => (by cases herror), fun found hfound => .cached hfound⟩
  | none =>
      rw [fetch_of_absent hframe]
      cases hvacated : db.vacated with
      | none =>
          refine ⟨fun error herror => ?_, fun found hfound => ?_⟩
          · obtain rfl := Except.error.inj herror
            exact .full (occupied_of_vacated_none hvacated)
          · exact absurd (hfound.symm.trans hframe) (Option.some_ne_none _)
      | some room =>
          have habsent := absent_of_vacated hvacated hframe
          rcases hload : (db.load page).1 with failure | ⟨heapPage, origin⟩
          · refine ⟨fun error herror => ?_, fun found hfound => ?_⟩
            · obtain rfl := Except.error.inj herror
              exact .unreadable hload
            · exact absurd (hfound.symm.trans habsent) (Option.some_ne_none _)
          · refine ⟨fun error herror => (by cases herror), fun found hfound => ?_⟩
            have hid : heapPage.id = page :=
              (load_eq_ok (fun heap hheap => (hsound.fits page.table heap hheap).table)
                (Prod.ext hload rfl) 0).id
            simp only [Cache.frames_touch, Cache.frames_add, hid, if_true, Option.some.injEq]
              at hfound
            subst hfound
            exact .loaded hload

/-- What a page offers it has offered since none of the pages from there on came into the cache. -/
theorem Offers.earlier {start : Database} {finding : PageFinding} {before : Nat}
    (hoffers : db.Offers (heap.pageId number) 0 finding)
    (huntouched : start.Untouched heap number db)
    (hdirectory : db.storage.directory = start.storage.directory)
    (hcapacity : db.cache.capacity = start.cache.capacity)
    (hoccupied : db.cache.occupied ≤ start.cache.occupied + before) :
    start.Offers (heap.pageId number) before finding := by
  have hload : ∀ {page}, (db.load page).1 = (start.load page).1 :=
    load_congr huntouched.catalog hdirectory
  cases hoffers with
  | cached hframe => exact .cached (huntouched.frames number (Nat.le_refl _) _ hframe)
  | loaded hloaded => exact .loaded (hload.symm.trans hloaded)
  | unreadable herror => exact .unreadable (hload.symm.trans herror)
  | full hfull => exact .full (by omega)

/-- What a transaction finds on the pages of a table is what they offered before it began. -/
theorem findingsFrom_offers {start : Database} (hsound : start.catalog.Sound)
    (huntouched : start.Untouched heap number db)
    (hdirectory : db.storage.directory = start.storage.directory)
    (hcapacity : db.cache.capacity = start.cache.capacity)
    (hoccupied : db.cache.occupied ≤ start.cache.occupied + number)
    (hfindings : findingsFrom txn heap count number db = some findings) {index : Nat}
    {finding : PageFinding} (hfinding : findings[index]? = some finding) :
    start.Offers (heap.pageId (number + index)) (number + index) finding := by
  -- The pages are asked for one after the other, so the induction is on their number.
  induction count generalizing db number findings index with
  | zero =>
      obtain rfl : [] = findings := Option.some.inj hfindings
      simp at hfinding
  | succ count ih =>
      have hsound : db.catalog.Sound := huntouched.catalog ▸ hsound
      rw [findingsFrom] at hfindings
      rcases hgot : db.getShared txn (heap.pageId number) with _ | ⟨answer, after⟩
      · simp [hgot] at hfindings
      · obtain ⟨locks, _, rfl, hfound⟩ := getShared_eq_some hsound hgot
        have hfetched := @fetched_of_sound { db with locks } hsound (heap.pageId number)
        have hroom := ({ db with locks } : Database).fetch_room (heap.pageId number)
        obtain ⟨hfails, hgets⟩ := @fetch_offers { db with locks } hsound (heap.pageId number)
        have hoffers : ({ db with locks } : Database).Offers (heap.pageId number) 0 answer := by
          rcases hfound with ⟨error, rfl, hfailed⟩ | ⟨resident, rfl, hframe⟩
          · exact hfails error hfailed
          · exact hgets resident hframe
        have hfirst : start.Offers (heap.pageId number) number answer :=
          hoffers.earlier ⟨huntouched.catalog, huntouched.frames⟩ hdirectory hcapacity hoccupied
        simp only [hgot] at hfindings
        split at hfindings
        · obtain rfl := Option.some.inj hfindings
          obtain ⟨rfl, rfl⟩ : index = 0 ∧ answer = finding := by
            simpa [List.getElem?_singleton] using hfinding
          exact hfirst
        · obtain ⟨rest, hrest, rfl⟩ := Option.map_eq_some_iff.mp hfindings
          cases index with
          | zero =>
              obtain rfl : answer = finding := Option.some.inj hfinding
              exact hfirst
          | succ index =>
              have hnext := ih (huntouched.fetched hfetched (Nat.le_succ _) (Nat.lt_succ_self _))
                (hfetched.directory.trans hdirectory) (hroom.1.trans hcapacity)
                (Nat.le_trans hroom.2 (Nat.succ_le_succ hoccupied)) hrest hfinding
              rw [Nat.succ_add_eq_add_succ] at hnext
              exact hnext

/-- A transaction that can get and read every page finds all pages. -/
theorem length_findingsFrom (hfindings : findingsFrom txn heap count number db = some findings)
    (hall : ∀ finding ∈ findings, PageFinding.fails finding = false) : findings.length = count := by
  induction count generalizing db number findings with
  | zero =>
      obtain rfl : [] = findings := Option.some.inj hfindings
      rfl
  | succ count ih =>
      rw [findingsFrom] at hfindings
      split at hfindings
      · simp at hfindings
      · split at hfindings
        · rename_i hfails
          obtain rfl := Option.some.inj hfindings
          exact Bool.noConfusion (hfails.symm.trans (hall _ List.mem_cons_self))
        · obtain ⟨rest, hrest, rfl⟩ := Option.map_eq_some_iff.mp hfindings
          rw [List.length_cons,
            ih hrest fun finding hmem => hall finding (List.mem_cons_of_mem _ hmem)]

/-- How far a transaction has come on its way through a table: it has the pages before the one that
it has reached, and will find the others on the pages from there on. -/
structure Reading (txn : TxnId) (heap : HeapFile) (findings : List PageFinding)
    (count reached : Nat) (db : Database) : Prop where
  sound : db.catalog.Sound
  room : db.cache.occupied ≤ db.cache.capacity
  pages : heap.pageCount db.storage = count
  within : reached ≤ count
  behind : ∀ number, number < reached → ∃ resident : Resident,
    db.locks.holdsLock txn (heap.pageId number) = true ∧
      db.cache.frames[heap.pageId number]? = some resident ∧
      findings[number]? = some (.ok resident.page)
  ahead : findingsFrom txn heap (count - reached) reached db = some (findings.drop reached)

/-- A transaction begins to read a table. -/
theorem Reading.start (hsound : db.catalog.Sound) (hroom : db.cache.occupied ≤ db.cache.capacity)
    (hfindings : db.findings? txn heap = some findings) :
    db.Reading txn heap findings (heap.pageCount db.storage) 0 where
  sound := hsound
  room := hroom
  pages := rfl
  within := Nat.zero_le _
  behind _ hnumber := absurd hnumber (Nat.not_lt_zero _)
  ahead := hfindings

/-- The stamps of the pages that a transaction has do not matter. -/
theorem Reading.withRecency (hreading : db.Reading txn heap findings count reached)
    (hstamps : db.Restamps txn recency) :
    (db.withRecency recency).Reading txn heap findings count reached where
  sound := hreading.sound
  room := hreading.room
  pages := hreading.pages
  within := hreading.within
  behind := hreading.behind
  ahead := (findingsFrom_withRecency hreading.sound hstamps _ _).trans hreading.ahead

/-- What a transaction has behind it stays so when it gets another page. -/
theorem Reading.behind_gets (hreading : db.Reading txn heap findings count reached)
    {page : PageId} {answer : Except Error HeapPage} (hgets : Gets txn page db answer after)
    (hnumber : number < reached) : ∃ resident : Resident,
      after.locks.holdsLock txn (heap.pageId number) = true ∧
        after.cache.frames[heap.pageId number]? = some resident ∧
        findings[number]? = some (.ok resident.page) := by
  obtain ⟨resident, hheld, hframe, hfinding⟩ := hreading.behind number hnumber
  exact ⟨resident, hgets.holds _ hheld, hgets.frames _ resident hheld hframe, hfinding⟩

/-- What a transaction finds on the page that it has reached, and then on those after it. -/
theorem Reading.next (hreading : db.Reading txn heap findings count reached)
    (hcount : reached < count) :
    ∃ finding after rest, db.getShared txn (heap.pageId reached) = some (finding, after) ∧
      findings.drop reached = finding :: rest ∧
      (PageFinding.fails finding = true ∧ rest = [] ∨
        PageFinding.fails finding = false ∧
          findingsFrom txn heap (count - (reached + 1)) (reached + 1) after = some rest) := by
  have hahead := hreading.ahead
  rw [(by omega : count - reached = count - (reached + 1) + 1), findingsFrom] at hahead
  rcases hgot : db.getShared txn (heap.pageId reached) with _ | ⟨finding, after⟩
  · simp [hgot] at hahead
  · simp only [hgot] at hahead
    refine ⟨finding, after, ?_⟩
    cases hfails : PageFinding.fails finding with
    | true =>
        rw [hfails, if_pos rfl, Option.some.injEq] at hahead
        exact ⟨[], rfl, hahead.symm, .inl ⟨rfl, rfl⟩⟩
    | false =>
        rw [hfails, if_neg Bool.false_ne_true, Option.map_eq_some_iff] at hahead
        obtain ⟨rest, hrest, hdrop⟩ := hahead
        exact ⟨rest, rfl, hdrop.symm, .inr ⟨rfl, hrest⟩⟩

/-- A transaction finds the same again on a page that it goes back to, and what there is on the page
that it has reached. -/
theorem Reading.read (hreading : db.Reading txn heap findings count reached)
    (hnumber : number ≤ reached) (hcount : number < count) :
    ∃ finding after later, findings[number]? = some finding ∧
      db.getShared txn (heap.pageId number) = some (finding, after) ∧
      after.Reading txn heap findings count later ∧
      (PageFinding.fails finding = false → number < later) ∧ number ≤ later := by
  rcases Nat.lt_or_eq_of_le hnumber with hbehind | rfl
  · obtain ⟨resident, hheld, hframe, hfinding⟩ := hreading.behind number hbehind
    obtain ⟨recency, hgets, hstamps⟩ := getShared_again hreading.sound hheld hframe
    exact ⟨_, _, reached, hfinding, hgets, hreading.withRecency hstamps, fun _ => hbehind, hnumber⟩
  · obtain ⟨finding, after, rest, hgot, hdrop, hrest⟩ := hreading.next hcount
    have hfinding : findings[number]? = some finding := by
      rw [← List.head?_drop, hdrop, List.head?_cons]
    have hgets := getShared_gets hreading.sound hgot
    have hsound : after.catalog.Sound := hgets.catalog ▸ hreading.sound
    have hroom := occupied_getShared hreading.sound hreading.room hgot
    have hpages : heap.pageCount after.storage = count := by
      rw [← hreading.pages, HeapFile.pageCount, Storage.pageCount, Storage.bytes, hgets.directory]
      rfl
    rcases hrest with ⟨hfails, rfl⟩ | ⟨hreads, hrest⟩
    · -- The transaction gets the same when it comes back to the page.
      obtain ⟨again, hagain⟩ := getShared_repeats hreading.sound hreading.room hgot
      refine ⟨_, after, number, hfinding, hgot, ⟨hsound, hroom, hpages, hreading.within,
        fun other hother => hreading.behind_gets hgets hother, ?_⟩,
        fun hreads => Bool.noConfusion (hfails.symm.trans hreads), Nat.le_refl _⟩
      rw [(by omega : count - number = count - (number + 1) + 1), findingsFrom, hagain, hdrop]
      exact if_pos hfails
    · refine ⟨_, after, number + 1, hfinding, hgot, ⟨hsound, hroom, hpages, hcount, ?_, ?_⟩,
        fun _ => Nat.lt_succ_self _, Nat.le_succ _⟩
      · intro other hother
        rcases Nat.lt_succ_iff_lt_or_eq.mp hother with hbehind | rfl
        · exact hreading.behind_gets hgets hbehind
        · cases finding with
          | error error => exact Bool.noConfusion hreads
          | ok page =>
              obtain ⟨resident, hframe, rfl⟩ := hgets.frame page rfl
              exact ⟨resident, hgets.held, hframe, hfinding⟩
      · rw [hrest, ← List.tail_drop, hdrop, List.tail_cons]

end Database

end RowStore
