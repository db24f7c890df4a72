import RowStore.Proofs.Database.Findings
import RowStore.Proofs.Session.Undo

/-!
# What an iterator over a table hands out

An iterator is a cursor on which a transaction asks for some more items, or for all of them, and
which it may rewind at any time. `ScanCall.answers` is an iterator over a fixed list of items: it
hands them out in their order, has no more after the last one, and begins again when it is rewound.
`Session.iterates` says that a cursor over a table is such an iterator over what its transaction
finds there, whatever calls are made on it, if all its requests are granted at once.
-/

namespace RowStore

/-- Items that are asked for, all that are left if no number is given. -/
def served {α : Type} (budget : Option Nat) (left : List α) : List α :=
  left.take (budget.getD left.length)

/-- What is left after items were asked for. -/
def unserved {α : Type} (budget : Option Nat) (left : List α) : List α :=
  left.drop (budget.getD left.length)

/-- Whether more items were asked for than there were. -/
def exhausts {α : Type} (budget : Option Nat) (left : List α) : Bool :=
  budget.elim true fun count => left.length < count

section Served

variable {α : Type} {budget : Option Nat} {first rest : List α}

/-- If more is asked for than is left, all of it is handed out. -/
theorem served_of_exhausts (h : exhausts budget first = true) :
    served budget first = first ∧ unserved budget first = [] := by
  cases budget with
  | none => simp [served, unserved]
  | some count =>
      have hcount : first.length < count := by simpa [exhausts] using h
      exact ⟨List.take_of_length_le (Nat.le_of_lt hcount),
        List.drop_eq_nil_of_le (Nat.le_of_lt hcount)⟩

/-- What is asked for beyond the first items comes from the rest. -/
theorem served_append (h : exhausts budget first = true) :
    served budget (first ++ rest) = first ++ served (budget.map (· - first.length)) rest := by
  cases budget with
  | none =>
      simp only [served, Option.map_none, Option.getD_none, List.take_length]
  | some count =>
      have hcount : first.length < count := by simpa [exhausts] using h
      simp [served, List.take_append, List.take_of_length_le (Nat.le_of_lt hcount)]

theorem unserved_append (h : exhausts budget first = true) :
    unserved budget (first ++ rest) = unserved (budget.map (· - first.length)) rest := by
  cases budget with
  | none => simp [unserved]
  | some count =>
      have hcount : first.length < count := by simpa [exhausts] using h
      simp [unserved, List.drop_append, List.drop_eq_nil_of_le (Nat.le_of_lt hcount)]

theorem exhausts_append (h : exhausts budget first = true) :
    exhausts budget (first ++ rest) = exhausts (budget.map (· - first.length)) rest := by
  cases budget with
  | none => rfl
  | some count =>
      have hcount : first.length < count := by simpa [exhausts] using h
      simp only [exhausts, Option.elim_some, Option.map_some, List.length_append]
      exact decide_eq_decide.mpr (by omega)

/-- What is asked for comes from the first items if there are enough of them. -/
theorem served_append_left (h : exhausts budget first = false) (rest : List α) :
    served budget (first ++ rest) = served budget first ∧
      unserved budget (first ++ rest) = unserved budget first ++ rest ∧
      exhausts budget (first ++ rest) = false := by
  cases budget with
  | none => cases h
  | some count =>
      have hcount : count ≤ first.length := by simpa [exhausts] using h
      have hsome : count ≤ first.length + rest.length := Nat.le_add_right_of_le hcount
      simp [served, unserved, exhausts, List.take_append_of_le_length hcount,
        List.drop_append_of_le_length hcount, hsome]

/-- There are fewer than are asked for if something is asked for and nothing is left. -/
theorem exhausts_nil (h : budget ≠ some 0) : exhausts budget ([] : List α) = true := by
  cases budget with
  | none => rfl
  | some count => exact decide_eq_true (Nat.pos_of_ne_zero fun hzero => h (congrArg some hzero))

/-- If something is asked for, a single item is handed out. -/
theorem served_singleton (h : budget ≠ some 0) (item : α) :
    served budget [item] = [item] ∧ unserved budget [item] = [] ∧
      exhausts budget [item] = !decide (budget.map (· - 1) = some 0) := by
  cases budget with
  | none => exact ⟨rfl, rfl, rfl⟩
  | some count =>
      cases count with
      | zero => exact absurd rfl h
      | succ count =>
          refine ⟨by simp [served], by simp [unserved], ?_⟩
          simp only [exhausts, Option.elim_some, List.length_singleton, Option.map_some,
            Nat.add_sub_cancel, Option.some.injEq, ← decide_not]
          exact decide_eq_decide.mpr (by omega)

variable {β : Type} {f : α → β}

@[simp] theorem served_map (budget : Option Nat) (items : List α) :
    served budget (items.map f) = (served budget items).map f := by
  simp [served]

@[simp] theorem unserved_map (budget : Option Nat) (items : List α) :
    unserved budget (items.map f) = (unserved budget items).map f := by
  simp [unserved]

@[simp] theorem exhausts_map (budget : Option Nat) (items : List α) :
    exhausts budget (items.map f) = exhausts budget items := by
  simp [exhausts]

end Served

/-- A call on an iterator: for so many items more, or all, or to begin again. -/
inductive ScanCall where
  | next (budget : Option Nat)
  | rewind
deriving DecidableEq

/-- The answers of an iterator over some items that has some of them left: the items that each call
is given, and whether it came to the end. -/
def ScanCall.answers {α : Type} (all : List α) :
    (left : List α) → List ScanCall → List (List α × Bool)
  | _, [] => []
  | left, .next budget :: calls =>
      (served budget left, exhausts budget left) :: answers all (unserved budget left) calls
  | _, .rewind :: calls => answers all all calls

/-- The answers to calls on a cursor, unless one has to wait. -/
def Session.iterate (session : Session) (txn : TxnId) :
    Cursor → List ScanCall → Option (List (List (Except Error Row) × Bool))
  | _, [] => some []
  | cursor, .next budget :: calls =>
      match session.perform (.call txn (.walk cursor budget)) with
      | (.answered (.ok (.scanned walk ended)), session) =>
          (iterate session txn walk.cursor calls).map ((walk.items, ended) :: ·)
      | _ => none
  | cursor, .rewind :: calls => iterate session txn cursor.rewind calls

namespace Cursor

/-- What the transaction of a cursor finds on the pages that the cursor has not read. -/
def ahead (findings : List PageFinding) (cursor : Cursor) : List (Except Error Row) :=
  if cursor.done then [] else handedOut (findings.drop cursor.nextPage)

/-- The items that a cursor has left of what its transaction finds. -/
def left (findings : List PageFinding) (cursor : Cursor) : List (Except Error Row) :=
  cursor.buffered.map .ok ++ cursor.ahead findings

/-- The cursor is on a table, and not beyond the page that its transaction has reached. -/
structure On (heap : HeapFile) (reached : Nat) (cursor : Cursor) : Prop where
  source : cursor.heap = heap
  within : cursor.nextPage ≤ reached

end Cursor

namespace Walk

variable {walk last : Walk} {heap : HeapFile} {findings : List PageFinding} {reached : Nat}
  {ended : Bool}

/-- What a walk comes to that hands out what its cursor has left: so many items as are asked for,
and it has come to the end if there were fewer. The others are left. -/
structure Yields (heap : HeapFile) (findings : List PageFinding) (reached : Nat) (walk last : Walk)
    (ended : Bool) : Prop where
  items : last.items = walk.items ++ served walk.budget (walk.cursor.left findings)
  left : last.cursor.left findings = unserved walk.budget (walk.cursor.left findings)
  ended : ended = exhausts walk.budget (walk.cursor.left findings)
  cursor : last.cursor.On heap reached

/-- A walk is sated if no more was asked for than was buffered. -/
theorem isSated_drain : walk.drain.isSated = !exhausts walk.budget walk.cursor.buffered := by
  obtain ⟨cursor, budget, items⟩ := walk
  cases budget with
  | none => rfl
  | some count =>
      simp only [drain, emit, isSated, exhausts, Option.getD_some, List.length_map,
        List.length_take, Option.map_some, Option.some.injEq, Option.elim_some, ← decide_not]
      exact decide_eq_decide.mpr (by omega)

/-- A walk that is not sated has handed out all that was buffered. -/
theorem drain_of_exhausts (h : exhausts walk.budget walk.cursor.buffered = true) :
    walk.drain =
      { cursor := { walk.cursor with buffered := [] }
        budget := walk.budget.map (· - walk.cursor.buffered.length)
        items := walk.items ++ walk.cursor.buffered.map .ok } := by
  obtain ⟨hserved, hunserved⟩ := served_of_exhausts h
  rw [served] at hserved
  rw [unserved] at hunserved
  simp only [drain, emit, hserved, hunserved, List.length_map]

/-- A walk that is sated has handed out the first of what its cursor had left. -/
theorem Yields.of_sated (hcursor : walk.cursor.On heap reached)
    (h : exhausts walk.budget walk.cursor.buffered = false) :
    Yields heap findings reached walk walk.drain false := by
  have hbuffered : exhausts walk.budget
      (walk.cursor.buffered.map Except.ok : List (Except Error Row)) = false := by
    rw [exhausts_map, h]
  obtain ⟨hserved, hunserved, hexhausts⟩ :=
    served_append_left hbuffered (walk.cursor.ahead findings)
  refine ⟨?_, ?_, hexhausts.symm, ⟨hcursor.source, hcursor.within⟩⟩
  · rw [Cursor.left, hserved, served_map]
    rfl
  · rw [Cursor.left, Cursor.left, hunserved, unserved_map]
    rfl

/-- A walk that is not sated hands out what its cursor finds ahead after what was buffered. -/
theorem Yields.of_exhausts (h : exhausts walk.budget walk.cursor.buffered = true)
    (hitems : last.items =
      walk.drain.items ++ served walk.drain.budget (walk.cursor.ahead findings))
    (hleft : last.cursor.left findings =
      unserved walk.drain.budget (walk.cursor.ahead findings))
    (hended : ended = exhausts walk.drain.budget (walk.cursor.ahead findings))
    (hcursor : last.cursor.On heap reached) : Yields heap findings reached walk last ended := by
  have hbuffered : exhausts walk.budget
      (walk.cursor.buffered.map Except.ok : List (Except Error Row)) = true := by
    rw [exhausts_map, h]
  rw [drain_of_exhausts h] at hitems hleft hended
  refine ⟨?_, ?_, ?_, hcursor⟩
  · rw [hitems, Cursor.left, served_append hbuffered, List.length_map, List.append_assoc]
  · rw [hleft, Cursor.left, unserved_append hbuffered, List.length_map]
  · rw [hended, Cursor.left, exhausts_append hbuffered, List.length_map]

/-- A walk that has read a page goes on with the rows of that page. -/
theorem Yields.of_refill {rows : List Row}
    (h : exhausts walk.budget walk.cursor.buffered = true)
    (hahead : walk.cursor.ahead findings = (walk.drain.refill rows).cursor.left findings)
    (hyields : Yields heap findings reached (walk.drain.refill rows) last ended) :
    Yields heap findings reached walk last ended := by
  refine .of_exhausts h ?_ ?_ ?_ hyields.cursor
  · rw [hyields.items, hahead]
    rfl
  · rw [hyields.left, hahead]
    rfl
  · rw [hyields.ended, hahead]
    rfl

/-- A walk at the end of its table has handed out all that its cursor had left. -/
theorem Yields.of_end (hcursor : walk.cursor.On heap reached)
    (h : exhausts walk.budget walk.cursor.buffered = true)
    (hahead : walk.cursor.ahead findings = []) :
    Yields heap findings reached walk { walk.drain with cursor := walk.drain.cursor.finish }
      true := by
  have hhungry : walk.drain.isSated = false := by rw [isSated_drain, h, Bool.not_true]
  refine .of_exhausts h ?_ ?_ ?_ ⟨hcursor.source, hcursor.within⟩
  · simp [hahead, served]
  · simp only [hahead, unserved, List.drop_nil]
    rfl
  · rw [hahead, exhausts_nil (of_decide_eq_false hhungry)]

/-- A walk that cannot read its next page ends with the error. -/
theorem Yields.of_error {error : Error} (hcursor : walk.cursor.On heap reached)
    (h : exhausts walk.budget walk.cursor.buffered = true)
    (hahead : walk.cursor.ahead findings = [.error error]) :
    Yields heap findings reached walk (walk.drain.fail error)
      (!(walk.drain.fail error).isSated) := by
  have hhungry : walk.drain.isSated = false := by rw [isSated_drain, h, Bool.not_true]
  obtain ⟨hserved, hunserved, hexhausts⟩ :=
    served_singleton (of_decide_eq_false hhungry) (Except.error error : Except Error Row)
  refine .of_exhausts h ?_ ?_ ?_ ⟨hcursor.source, hcursor.within⟩
  · rw [hahead, hserved]
    rfl
  · rw [hahead, hunserved]
    rfl
  · rw [hahead, hexhausts]
    rfl

end Walk

namespace Database

variable {db after : Database} {txn : TxnId} {heap : HeapFile} {findings : List PageFinding}
  {count reached fuel : Nat} {walk : Walk} {finding : PageFinding}

/-- A walk that gets its next page goes on with its rows, or ends with an error. -/
theorem runFor_scan (hsound : db.catalog.Sound)
    (hgot : db.getShared txn walk.cursor.page = some (finding, after)) (fuel : Nat) :
    db.runFor (fuel + 1) txn (.needs (.scan walk)) =
      match finding.bind HeapPage.rows with
      | .error error => (.ended ((Operation.scan walk).refuse error), after)
      | .ok rows => after.runFor fuel txn (after.continueWalk (walk.refill rows)) := by
  obtain ⟨locks, hrequest⟩ := granted_of_getShared hgot
  rcases getShared_of_granted hsound hrequest with
    ⟨error, fetched, hfetch, hgets⟩ | ⟨resident, fetched, hfetch, hframe, hgets⟩
  · obtain ⟨rfl, rfl⟩ := Prod.mk.inj (Option.some.inj (hgot.symm.trans hgets))
    simp only [runFor, Operation.demand, hrequest, proceed, proceedScan, access, hfetch]
    rfl
  · obtain ⟨rfl, rfl⟩ := Prod.mk.inj (Option.some.inj (hgot.symm.trans hgets))
    simp only [runFor, Operation.demand, hrequest, proceed, proceedScan, access, hfetch, frame?,
      Cache.frame?_of_resident _ _ hframe, Except.bind]
    cases resident.page.rows with
    | error error => simp only [runFor]
    | ok rows => rfl

/-- A walk is sated, or it is at the end, or it needs its next page. -/
theorem continueWalk_cases (db : Database) (walk : Walk) :
    (exhausts walk.budget walk.cursor.buffered = false ∧
        db.continueWalk walk = .ended (.ok (.scanned walk.drain false))) ∨
      exhausts walk.budget walk.cursor.buffered = true ∧
        ((walk.cursor.done = true ∨
              walk.cursor.heap.pageCount db.storage ≤ walk.cursor.nextPage) ∧
            db.continueWalk walk = .ended (.ok (.scanned
              { walk.drain with cursor := walk.drain.cursor.finish } true)) ∨
          walk.cursor.done = false ∧
            walk.cursor.nextPage < walk.cursor.heap.pageCount db.storage ∧
            db.continueWalk walk = .needs (.scan walk.drain)) := by
  have hcursor : walk.drain.cursor.done = walk.cursor.done ∧
      walk.drain.cursor.nextPage = walk.cursor.nextPage ∧
      walk.drain.cursor.heap = walk.cursor.heap := ⟨rfl, rfl, rfl⟩
  simp only [continueWalk, Walk.step, Walk.isSated_drain, hcursor.1, hcursor.2.1, hcursor.2.2]
  cases exhausts walk.budget walk.cursor.buffered with
  | false => exact .inl ⟨rfl, rfl⟩
  | true =>
      refine .inr ⟨rfl, ?_⟩
      by_cases hend : walk.cursor.done = true ∨
          walk.cursor.heap.pageCount db.storage ≤ walk.cursor.nextPage
      · exact .inl ⟨hend, by simp [hend]⟩
      · obtain ⟨hdone, hpages⟩ := not_or.mp hend
        exact .inr ⟨Bool.eq_false_iff.mpr hdone, Nat.not_le.mp hpages, by simp [hdone, hpages]⟩

/-- A transaction that has come to the end of a table has found all there is to find. -/
theorem Reading.drop_eq_nil (hreading : db.Reading txn heap findings count reached)
    {number : Nat} (hnumber : number ≤ reached) (hend : count ≤ number) :
    findings.drop number = [] := by
  obtain rfl : reached = number :=
    Nat.le_antisymm (Nat.le_trans hreading.within hend) hnumber
  have hahead := hreading.ahead
  rw [Nat.sub_eq_zero_of_le hend, findingsFrom, Option.some.injEq] at hahead
  exact hahead.symm

/-- A walk over a table ends when it has handed out what it was asked for, or all that its
transaction finds there. -/
theorem Reading.runFor_walk (hreading : db.Reading txn heap findings count reached)
    (hcursor : walk.cursor.On heap reached) (hfuel : count - walk.cursor.nextPage ≤ fuel) :
    ∃ last ended after later,
      db.runFor fuel txn (db.continueWalk walk) = (.ended (.ok (.scanned last ended)), after) ∧
        after.Reading txn heap findings count later ∧
        walk.Yields heap findings later last ended := by
  -- Each page that is read leaves one page less to read.
  induction fuel using Nat.strong_induction_on generalizing db reached walk with
  | _ fuel ih =>
  have hpages : walk.cursor.heap.pageCount db.storage = count := by
    rw [hcursor.source, hreading.pages]
  rcases db.continueWalk_cases walk with
    ⟨hsated, hcontinue⟩ | ⟨hhungry, ⟨hend, hcontinue⟩ | ⟨hdone, hnext, hcontinue⟩⟩
  · exact ⟨_, _, db, reached, by rw [hcontinue, runFor], hreading, .of_sated hcursor hsated⟩
  · refine ⟨_, _, db, reached, by rw [hcontinue, runFor], hreading, .of_end hcursor hhungry ?_⟩
    rcases hend with hdone | hlast
    · simp [Cursor.ahead, hdone]
    · simp [Cursor.ahead, hreading.drop_eq_nil hcursor.within (hpages ▸ hlast), handedOut,
        throughError]
  · rw [hpages] at hnext
    obtain ⟨finding, got, later, hfinding, hgot, hgoes, hread, hlater⟩ :=
      hreading.read hcursor.within hnext
    have hahead : walk.cursor.ahead findings =
        handedOut (finding :: findings.drop (walk.cursor.nextPage + 1)) := by
      obtain ⟨hbound, rfl⟩ := List.getElem?_eq_some_iff.mp hfinding
      rw [Cursor.ahead, hdone, List.drop_eq_getElem_cons hbound]
      rfl
    obtain ⟨fuel, rfl⟩ : ∃ less, fuel = less + 1 := ⟨fuel - 1, by omega⟩
    have hgot' : db.getShared txn walk.drain.cursor.page = some (finding, got) := by
      rw [← hgot, ← hcursor.source]
      rfl
    rw [hcontinue, runFor_scan hreading.sound hgot']
    rw [handedOut_cons] at hahead
    cases hrows : finding.bind HeapPage.rows with
    | error error =>
        simp only [hrows] at hahead
        exact ⟨_, _, got, later, rfl, hgoes,
          .of_error ⟨hcursor.source, hlater⟩ hhungry hahead⟩
    | ok rows =>
        simp only [hrows] at hahead
        have hbuffered : walk.cursor.ahead findings =
            (walk.drain.refill rows).cursor.left findings := by
          have hstill : (walk.drain.refill rows).cursor.done = false := hdone
          rw [hahead, Cursor.left, Cursor.ahead, hstill]
          rfl
        have hless : count - (walk.drain.refill rows).cursor.nextPage ≤ fuel := by
          have hread : (walk.drain.refill rows).cursor.nextPage = walk.cursor.nextPage + 1 := rfl
          omega
        have hon : (walk.drain.refill rows).cursor.On heap later :=
          ⟨hcursor.source, hread (PageFinding.fails_of_rows hrows)⟩
        obtain ⟨last, ended, after, final, hrun, hafter, hyields⟩ :=
          ih fuel (Nat.lt_succ_self fuel) hgoes hon hless
        exact ⟨last, ended, after, final, hrun, hafter, .of_refill hhungry hbuffered hyields⟩

/-- A walk that runs by itself has enough demands that it can make. -/
theorem Reading.run_walk (hreading : db.Reading txn heap findings count reached)
    (hcursor : walk.cursor.On heap reached) :
    ∃ last ended after later,
      db.run txn (db.continueWalk walk) = (.ended (.ok (.scanned last ended)), after) ∧
        after.Reading txn heap findings count later ∧
        walk.Yields heap findings later last ended := by
  have hbound : count - walk.cursor.nextPage ≤ count + 1 := by omega
  obtain ⟨last, ended, after, later, hrun, hafter⟩ := hreading.runFor_walk hcursor hbound
  refine ⟨last, ended, after, later, ?_, hafter⟩
  rw [← hrun]
  rcases db.continueWalk_cases walk with
    ⟨_, hcontinue⟩ | ⟨_, ⟨_, hcontinue⟩ | ⟨_, _, hcontinue⟩⟩ <;> rw [hcontinue]
  · rw [run, runFor]
  · rw [run, runFor]
  · have hheap : walk.drain.cursor.heap = heap := hcursor.source
    rw [run, demandBound, hheap, hreading.pages]

end Database

namespace Session

variable {session : Session} {txn : TxnId} {heap : HeapFile} {findings : List PageFinding}

/-- A call for more items is answered with them, and leaves the others to the calls after it. -/
theorem iterate_next {count reached : Nat} {cursor : Cursor}
    (hreading : session.db.Reading txn heap findings count reached)
    (hcursor : cursor.On heap reached) (budget : Option Nat) (calls : List ScanCall) :
    ∃ (later : Nat) (after : Session) (next : Cursor),
      session.iterate txn cursor (.next budget :: calls) =
          (after.iterate txn next calls).map
            ((served budget (cursor.left findings), exhausts budget (cursor.left findings)) :: ·) ∧
        after.db.Reading txn heap findings count later ∧ next.On heap later ∧
        next.left findings = unserved budget (cursor.left findings) := by
  have hwalk : ({ cursor, budget } : Walk).cursor.On heap reached := hcursor
  obtain ⟨last, ended, after, later, hrun, hafter, hitems, hleft, hended, hon⟩ :=
    hreading.run_walk hwalk
  refine ⟨later, { session with db := after, waiting := session.waiting.erase txn }, last.cursor,
    ?_, hafter, hon, hleft⟩
  have hperform : session.perform (.call txn (.walk cursor budget)) =
      (.answered (.ok (.scanned last ended)),
        { session with db := after, waiting := session.waiting.erase txn }) := by
    simp only [perform, Database.begin, Database.beginScan, submit, hrun, note]
    rfl
  rw [iterate, hperform, ← hended, ← List.nil_append (served _ _), ← hitems]

/-- The calls on a cursor are answered as on an iterator over what its transaction finds. -/
theorem iterate_eq {count reached : Nat} {cursor : Cursor}
    (hreading : session.db.Reading txn heap findings count reached)
    (hcursor : cursor.On heap reached) (calls : List ScanCall) :
    session.iterate txn cursor calls =
      some (ScanCall.answers (handedOut findings) (cursor.left findings) calls) := by
  induction calls generalizing session cursor reached with
  | nil => rfl
  | cons call calls ih =>
      cases call with
      | next budget =>
          obtain ⟨later, after, next, hiterate, hafter, hon, hleft⟩ :=
            iterate_next hreading hcursor budget calls
          rw [hiterate, ih hafter hon, hleft]
          rfl
      | rewind =>
          have hrewound : cursor.rewind.On heap reached :=
            ⟨hcursor.source, Nat.zero_le _⟩
          have hleft : cursor.rewind.left findings = handedOut findings := rfl
          rw [iterate, ih hreading hrewound, hleft]
          rfl

/-- If all its requests are granted at once, a transaction that iterates over a table is handed out
what it finds there, again from the start after each time it rewinds, and then nothing. What it
finds on a page is the frame in the cache or what the file holds, or that there is neither or no
room for it. If it can get and read all pages, it is handed out all that is stored. Otherwise it is
handed out what is stored up to the first error, and the error, just if on the first page that has
one no record before the error can be read.

A catalog is sound in every run, and a cache never has more pages than places. -/
theorem iterates {session : Session} {txn : TxnId} {heap : HeapFile} {findings : List PageFinding}
    (hsound : session.db.catalog.Sound)
    (hroom : session.db.cache.occupied ≤ session.db.cache.capacity)
    (hfindings : session.db.findings? txn heap = some findings) :
    (∀ calls, session.iterate txn { heap } calls =
        some (ScanCall.answers (handedOut findings) (handedOut findings) calls)) ∧
      (∀ number finding, findings[number]? = some finding →
        session.db.Offers (heap.pageId number) number finding) ∧
      ((∀ finding ∈ findings, finding.fails = false) →
        findings.length = heap.pageCount session.db.storage ∧
          handedOut findings = findings.flatMap PageFinding.stored) ∧
      (handedOut findings = storedRows findings ↔
        ∀ page, findings.find? PageFinding.fails = some (.ok page) →
          ∃ error, page.entries.head? = some (.error error)) := by
  refine ⟨fun calls => ?_, fun number finding hfinding => ?_, fun hall => ?_,
    handedOut_eq_storedRows_iff findings⟩
  · have hstart : ({ heap } : Cursor).left findings = handedOut findings := rfl
    rw [← hstart]
    exact iterate_eq (.start hsound hroom hfindings) ⟨rfl, Nat.zero_le _⟩ calls
  · have hoffers := Database.findingsFrom_offers hsound .refl rfl rfl (Nat.le_refl _) hfindings
      hfinding
    rw [Nat.zero_add] at hoffers
    exact hoffers
  · exact ⟨Database.length_findingsFrom hfindings hall, handedOut_of_reads hall⟩

/-- A small database over a directory with one file. -/
def overFile (name : String) (bytes : Bytes) : Database :=
  { config := sampleConfig
    storage := { directory := (∅ : Directory).insert name bytes }
    catalog := { pageSize := 16 }
    cache := { capacity := 4 } }

/-- A session over a table whose file holds these bytes. -/
def sampleOver (schema : Schema) (bytes : Bytes) : Session where
  db := (overFile "a.dat" bytes).changeCatalog (.create "a" schema "a.dat" none)

/-- The file of that table. -/
def sampleHeap (schema : Schema) : HeapFile :=
  ⟨⟨1⟩, schema, ⟨0, "a.dat", 16⟩⟩

theorem sampleOver_sound (schema : Schema) (bytes : Bytes) :
    (sampleOver schema bytes).db.catalog.Sound := by
  have hcreated : Database.create sampleConfig (overFile "a.dat" bytes).storage =
      .ok (overFile "a.dat" bytes) := rfl
  exact (Database.Opened.change _ (.create hcreated)).sound.1

/-- A page with three rows, and a part of a second one. -/
def brokenOff : Bytes :=
  [7, 0, 0, 0, 1, 0, 0, 0, 2, 0, 0, 0, 3, 0, 0, 0, 1, 0, 0, 0, 4]

/-- The rows of the first page are handed out, again after the cursor was rewound, then an error
for the second page, then nothing. -/
theorem iterates_partial_page :
    (sampleOver sampleSchema brokenOff).iterate ⟨1⟩ { heap := sampleHeap sampleSchema }
        [.next (some 2), .rewind, .next (some 4), .next none] =
      some [([.ok { sampleRow 1 with place := some ⟨⟨⟨1⟩, 0⟩, 0⟩ },
            .ok { sampleRow 2 with place := some ⟨⟨⟨1⟩, 0⟩, 1⟩ }], false),
        ([.ok { sampleRow 1 with place := some ⟨⟨⟨1⟩, 0⟩, 0⟩ },
            .ok { sampleRow 2 with place := some ⟨⟨⟨1⟩, 0⟩, 1⟩ },
            .ok { sampleRow 3 with place := some ⟨⟨⟨1⟩, 0⟩, 2⟩ },
            .error (.pageOutOfBounds 1 2)], false), ([], true)] := by
  have hfindings : ((sampleOver sampleSchema brokenOff).db.findings? ⟨1⟩
      (sampleHeap sampleSchema)).any (fun findings => handedOut findings =
        [.ok { sampleRow 1 with place := some ⟨⟨⟨1⟩, 0⟩, 0⟩ },
            .ok { sampleRow 2 with place := some ⟨⟨⟨1⟩, 0⟩, 1⟩ },
            .ok { sampleRow 3 with place := some ⟨⟨⟨1⟩, 0⟩, 2⟩ },
            .error (.pageOutOfBounds 1 2)]) = true := by
    decide +kernel
  obtain ⟨findings, hfindings, hhanded⟩ := Option.any_eq_true _ _ |>.mp hfindings
  rw [(iterates (sampleOver_sound sampleSchema brokenOff) (by decide +kernel) hfindings).1,
    of_decide_eq_true hhanded]
  rfl

/-- Short texts. -/
def textSchema : Schema := ⟨[⟨"t", .text 1⟩], by simp, by simp, by simp⟩

/-- A page with a text, and a record whose text is too long. -/
def brokenRecord : Bytes :=
  [3, 0, 0, 0, 1, 65, 0, 0, 0, 9, 65, 0, 0, 0, 0, 0]

/-- The record that can be read is not handed out before the error of the record after it. -/
theorem iterates_before_broken_record :
    ¬ ∀ (session : Session) (txn : TxnId) (heap : HeapFile) (findings : List PageFinding),
      session.db.catalog.Sound → session.db.cache.occupied ≤ session.db.cache.capacity →
      session.db.findings? txn heap = some findings →
      ∀ calls, session.iterate txn { heap } calls =
        some (ScanCall.answers (storedRows findings) (storedRows findings) calls) := by
  intro hclaim
  have hfindings : ((sampleOver textSchema brokenRecord).db.findings? ⟨1⟩
      (sampleHeap textSchema)).any (fun findings =>
        (sampleOver textSchema brokenRecord).iterate ⟨1⟩ { heap := sampleHeap textSchema }
            [.next none] ≠
          some (ScanCall.answers (storedRows findings) (storedRows findings) [.next none])) =
      true := by
    decide +kernel
  obtain ⟨findings, hfindings, hdiffers⟩ := Option.any_eq_true _ _ |>.mp hfindings
  exact of_decide_eq_true hdiffers (hclaim _ ⟨1⟩ _ findings
    (sampleOver_sound textSchema brokenRecord) (by decide +kernel) hfindings [.next none])

end Session

end RowStore
