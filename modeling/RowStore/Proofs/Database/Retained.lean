import RowStore.Proofs.Lock.Bystander
import RowStore.Proofs.Session.Orderly

/-!
# Pages stay in the cache while their locks are held

A page that a transaction has accessed is in the cache as long as the transaction holds its lock,
however its operation goes on: only a page that nobody holds is evicted. An insert gives up pages
that it has only probed, and what it turns to next lies behind them, so it never takes such a page
up again. `Goes` says what else an operation leaves alone: files never get shorter, and the locks
of the others are spared.
-/

namespace RowStore

namespace InsertPoint

/-- The number of the page that the insert turns to. -/
def number : InsertPoint → Nat
  | .probe number .. | .escalate number _ | .grow number => number

/-- The insert takes the file for no longer than it is. -/
def Counted (pages : Nat) : InsertPoint → Prop
  | .probe number count _ | .escalate number count => number < count ∧ count ≤ pages
  | .grow number => number ≤ pages

end InsertPoint

namespace Operation

/-- An insert takes its file for no longer than it is. -/
def Counted (storage : Storage) : Operation → Prop
  | .insert heap _ point => point.Counted (heap.pageCount storage)
  | .getPage .. | .delete .. | .scan _ => True

/-- An insert has turned from the page to one that lies behind it. -/
def HasLeft (operation : Operation) (page : PageId) : Prop :=
  match operation with
  | .insert _ _ point => page.number < point.number
  | .getPage .. | .delete .. | .scan _ => False

/-- What an insert has left is not what it needs next. -/
theorem HasLeft.ne_demand {operation : Operation} {page : PageId} (h : operation.HasLeft page) :
    page ≠ operation.demand.1 := by
  rintro rfl
  cases operation with
  | insert heap row point => cases point <;> exact Nat.lt_irrefl _ h
  | getPage | delete | scan => exact h

/-- A file that has not become shorter is still taken for no longer than it is. -/
theorem Counted.of_grows {operation : Operation} {before after : Storage}
    (h : operation.Counted before) (hgrows : before.Grows after) : operation.Counted after := by
  cases operation with
  | insert heap row point =>
      have hpages := hgrows.pageCount_le heap.file
      cases point with
      | probe number count heldBefore => exact ⟨h.1, Nat.le_trans h.2 hpages⟩
      | escalate number count => exact ⟨h.1, Nat.le_trans h.2 hpages⟩
      | grow number => exact Nat.le_trans (show _ ≤ _ from h) hpages
  | getPage | delete | scan => trivial

end Operation

/-- What an operation of a transaction leaves alone. -/
structure Goes (txn : TxnId) (before after : Database) : Prop where
  spares : LockTable.Spares txn before.locks after.locks
  grows : before.storage.Grows after.storage
  pending : before.locks.pending[txn]? = none → after.locks.pending[txn]? = none

namespace Goes

variable {txn : TxnId} {before middle after : Database}

theorem refl : Goes txn before before := ⟨.refl, .refl, id⟩

theorem trans (hfirst : Goes txn before middle) (hrest : Goes txn middle after) :
    Goes txn before after :=
  ⟨hfirst.spares.trans hrest.spares, hfirst.grows.trans hrest.grows,
    hrest.pending ∘ hfirst.pending⟩

end Goes

namespace Database

variable {db after : Database} {txn : TxnId} {page : PageId} {mode : LockMode}
  {pages : List PageId}

/-- Of the pages, those are in the cache that the transaction holds. -/
def Retains (db : Database) (txn : TxnId) (pages : List PageId) : Prop :=
  ∀ page ∈ pages, db.locks.holdsLock txn page = true →
    (db.cache.frames[page]?).isSome = true

/-- The operation, if it has not ended, counts on pages that are there, and of the pages it has
left those behind that its transaction does not hold. -/
def Pursues (db : Database) (txn : TxnId) (pages : List PageId) : Progress → Prop
  | .ended _ => True
  | .needs operation => operation.Counted db.storage ∧
      ∀ page ∈ pages, db.locks.holdsLock txn page = true ∨ operation.HasLeft page

/-- A fetch removes at most the lock of a page that it evicts. -/
theorem locks_fetch (db : Database) (page : PageId) :
    (db.fetch page).2.locks = db.locks ∨
      ∃ victim, (db.fetch page).2.locks = (db.locks.reclaim victim).2 := by
  have hreserve : (db.reserve page).2.locks = db.locks ∨
      ∃ victim, (db.reserve page).2.locks = (db.locks.reclaim victim).2 := by
    simp only [reserve]
    split
    · exact .inl rfl
    · split
      · split
        · exact .inl rfl
        · rename_i room hevict
          obtain ⟨victim, _, _, rfl⟩ := evict_eq_some hevict
          exact .inr ⟨victim, rfl⟩
      · exact .inl rfl
  have hinstall : ∀ (db : Database) loaded, (db.install page loaded).2.locks = db.locks := by
    intro db loaded
    simp only [install]
    split
    · rfl
    · split <;> rfl
  simp only [fetch]
  split
  · rename_i heq
    rwa [heq] at hreserve
  · rename_i heq
    rwa [heq] at hreserve
  · rename_i room heq
    rw [heq] at hreserve
    obtain ⟨storage, hload, _⟩ := load_eq room page
    rw [hinstall, hload]
    exact hreserve

/-- A fetch leaves the others alone. -/
theorem fetch_goes (hsound : db.catalog.Sound) (txn : TxnId) (page : PageId) :
    Goes txn db (db.fetch page).2 := by
  have hfetched := fetched_of_sound hsound page
  refine ⟨?_, .of_directory hfetched.directory, by rw [hfetched.pending]; exact id⟩
  rcases locks_fetch db page with hsame | ⟨victim, hreclaimed⟩
  · rw [hsame]
    exact .refl
  · rw [hreclaimed]
    exact LockTable.reclaim_spares db.locks victim

/-- What an access leaves: the locks are held as before, the pages stay that are held, and the page
that is accessed comes with them. -/
structure Accessed (db : Database) (txn : TxnId) (pages : List PageId) (accesses : List Access)
    (after : Database) : Prop where
  goes : Goes txn db after
  holds : ∀ page, after.locks.holdsLock txn page = db.locks.holdsLock txn page
  directory : after.storage.directory = db.storage.directory
  retains : after.Retains txn (pages ++ accesses.map Access.page)

theorem accessed (hsound : db.catalog.Sound) (hretains : db.Retains txn pages) (page : PageId)
    (mode : LockMode) :
    Accessed db txn pages (db.accessAt txn page mode) (db.access txn page mode).2 := by
  have hfetched := fetched_of_sound hsound page
  obtain ⟨hanswer, journal, hafter⟩ := access_eq_fetch db txn page mode
  have hgoes := fetch_goes hsound txn page
  simp only [accessAt, hanswer]
  rw [hafter]
  refine ⟨⟨hgoes.spares, hgoes.grows, hgoes.pending⟩, fun other => hfetched.holds other txn .shared,
    hfetched.directory, ?_⟩
  intro other hother hholds
  show ((db.fetch page).2.cache.frames[other]?).isSome = true
  have hbefore : db.locks.holdsLock txn other = true := by
    rw [← hholds]
    exact (hfetched.holds other txn .shared).symm
  have hkept : (db.cache.frames[other]?).isSome = true →
      ((db.fetch page).2.cache.frames[other]?).isSome = true := by
    intro hsome
    rcases hfetched.frames other with hsame | ⟨_, resident, hevicted⟩ | ⟨_, _, found, hfound, _⟩
    · rwa [hsame]
    · -- A page that somebody holds is not evicted.
      have hidle := LockState.holds_of_isIdle hevicted.idle txn .shared
      rw [show (db.locks.lockOf other).holds txn .shared = true from hbefore] at hidle
      simp at hidle
    · rw [hfound]
      rfl
  cases hfetch : (db.fetch page).1 with
  | error error =>
      simp only [hfetch, List.map_nil, List.append_nil] at hother
      exact hkept (hretains other hother hbefore)
  | ok ref =>
      simp only [hfetch, List.map_cons, List.map_nil, List.mem_append, List.mem_singleton]
        at hother
      rcases hother with hother | rfl
      · exact hkept (hretains other hother hbefore)
      · obtain ⟨resident, hframe, _⟩ := hfetched.answer ref hfetch
        rw [hframe]
        rfl

end Database

/-- What an operation has left that has come so far. -/
structure Carried (txn : TxnId) (pages : List PageId) (before : Database) (progress : Progress)
    (after : Database) : Prop where
  goes : Goes txn before after
  retains : after.Retains txn pages
  pursues : after.Pursues txn pages progress

namespace Carried

variable {txn : TxnId} {pages : List PageId} {before middle after : Database}
  {progress : Progress}

/-- An operation that ends has nothing more to do. -/
theorem ended {answer : Except Error Answer} (hretains : before.Retains txn pages) :
    Carried txn pages before (.ended answer) before :=
  ⟨.refl, hretains, trivial⟩

/-- An operation that has done something and goes on. -/
theorem after_goes (hgoes : Goes txn before middle)
    (hrest : Carried txn pages middle progress after) : Carried txn pages before progress after :=
  ⟨hgoes.trans hrest.goes, hrest.retains, hrest.pursues⟩

end Carried

namespace Database

variable {db after : Database} {txn : TxnId} {page : PageId} {pages : List PageId}
  {heap : HeapFile} {row : Row} {number count : Nat}

/-- An insert adds a page. -/
theorem growFor_carried (hsize : heap.file.pageSize ≠ 0) (hretains : db.Retains txn pages)
    (hbound : number ≤ heap.pageCount db.storage)
    (hleft : ∀ page ∈ pages, db.locks.holdsLock txn page = true ∨ page.number < number) :
    Carried txn pages db (db.growFor heap row).1 (db.growFor heap row).2 := by
  have hgrows : db.storage.Grows (db.storage.appendPage heap.file).2 := .appendPage hsize
  refine ⟨⟨.refl, hgrows, id⟩, hretains, hgrows.pageCount_le heap.file, ?_⟩
  intro page hpage
  exact (hleft page hpage).imp_right fun h => Nat.lt_of_lt_of_le h hbound

/-- An insert turns to the page with this number. -/
theorem probeAt_carried (hsize : heap.file.pageSize ≠ 0) (hretains : db.Retains txn pages)
    (hnumber : number ≤ count) (hcount : count ≤ heap.pageCount db.storage)
    (hleft : ∀ page ∈ pages, db.locks.holdsLock txn page = true ∨ page.number < number) :
    Carried txn pages db (db.probeAt txn heap row number count).1
      (db.probeAt txn heap row number count).2 := by
  simp only [probeAt]
  split
  · rename_i hlt
    exact ⟨.refl, hretains, ⟨hlt, hcount⟩, hleft⟩
  · exact growFor_carried hsize hretains (Nat.le_trans hnumber hcount) hleft

/-- An insert that has found room stores its row, or goes on to another page. -/
theorem storeRow_carried (ref : FrameRef) (hretains : db.Retains txn pages)
    {elsewhere : Database → Progress × Database}
    (hrest : ∀ cache : Cache, ({ db with cache } : Database).Retains txn pages →
      Carried txn pages { db with cache } (elsewhere { db with cache }).1
        (elsewhere { db with cache }).2) :
    let stored : Progress × Database := match db.storeRow txn ref row with
      | (.ok row, db) => (.ended (.ok (.inserted row ref)), db)
      | (.error (.pageFull _), db) => elsewhere db
      | (.error error, db) => (.ended (.error error), db)
    Carried txn pages db stored.1 stored.2 := by
  obtain ⟨cache, hstored, hframes⟩ : ∃ cache : Cache,
      (db.storeRow txn ref row).2 = { db with cache } ∧ ∀ page : PageId,
        (cache.frames[page]?).isSome = (db.cache.frames[page]?).isSome :=
    modifyFrame_cache db ref txn _
  have hkept : ({ db with cache } : Database).Retains txn pages := by
    intro page hpage hholds
    exact (hframes page).trans (hretains page hpage hholds)
  have hgoes : Goes txn db { db with cache } := ⟨.refl, .refl, id⟩
  rcases hstore : db.storeRow txn ref row with ⟨answer, after⟩
  rw [hstore] at hstored
  subst hstored
  cases answer with
  | ok stored => exact .after_goes hgoes (.ended hkept)
  | error error =>
      cases error <;>
        first | exact .after_goes hgoes (hrest cache hkept) | exact .after_goes hgoes (.ended hkept)

/-- A page that the transaction has locked joins those of which it has left what it does not
hold. -/
theorem left_or_holds_of_access {accesses : List Access} {operation : Operation}
    (haccessed : Accessed db txn pages accesses after)
    (hpage : ∀ access ∈ accesses, db.locks.holdsLock txn access.page = true)
    (hpursues : db.Pursues txn pages (.needs operation)) :
    ∀ page ∈ pages ++ accesses.map Access.page,
      after.locks.holdsLock txn page = true ∨ operation.HasLeft page := by
  intro page hmember
  rw [haccessed.holds]
  rcases List.mem_append.mp hmember with hmember | hmember
  · exact hpursues.2 page hmember
  · obtain ⟨access, haccess, rfl⟩ := List.mem_map.mp hmember
    exact .inl (hpage access haccess)

/-- The page that an access names is the one that was asked for. -/
theorem page_of_mem_accessAt {mode : LockMode} {access : Access}
    (h : access ∈ db.accessAt txn page mode) : access.page = page := by
  simp only [accessAt] at h
  split at h
  · simp at h
  · rw [List.mem_singleton.mp h]

/-- A transaction that holds a page in some mode holds it. -/
theorem holdsLock_of_holds {mode : LockMode}
    (h : (db.locks.lockOf page).holds txn mode = true) : db.locks.holdsLock txn page = true := by
  cases mode with
  | shared => exact h
  | exclusive =>
      exact LockState.holds_shared_iff.mpr (.inl (LockState.holds_exclusive_iff.mp h))

/-- A transaction that gives up a page leaves the others alone, and no other page. -/
theorem release_retains (page : PageId) (hretains : db.Retains txn pages) :
    Goes txn db { db with locks := (db.locks.release txn page).2 } ∧
      ({ db with locks := (db.locks.release txn page).2 } : Database).Retains txn pages ∧
      ∀ other, db.locks.holdsLock txn other = true →
        (db.locks.release txn page).2.holdsLock txn other = true ∨ other = page := by
  refine ⟨⟨LockTable.release_spares .., .refl, LockTable.pending_release_none⟩, ?_, ?_⟩
  · intro other hother hholds
    exact hretains other hother (LockTable.holdsLock_release.mp hholds).2
  · intro other hholds
    by_cases hsame : page = other
    · exact .inr hsame.symm
    · exact .inl (LockTable.holdsLock_release.mpr ⟨hsame, hholds⟩)

/-- An insert whose demand is granted goes on. -/
theorem proceedInsert_carried (hsound : db.catalog.Sound) {point : InsertPoint}
    (hready : (Operation.insert heap row point).Ready db.locks txn)
    (hholds : (db.locks.lockOf (Operation.insert heap row point).demand.1).holds txn
      (Operation.insert heap row point).demand.2 = true)
    (hretains : db.Retains txn pages)
    (hpursues : db.Pursues txn pages (.needs (.insert heap row point))) :
    Carried txn (pages ++ (db.accessOf txn (.insert heap row point)).map Access.page) db
      (db.proceedInsert txn heap row point).1 (db.proceedInsert txn heap row point).2 := by
  have haccessed := accessed hsound hretains (Operation.insert heap row point).demand.1
    (Operation.insert heap row point).demand.2
  have hleft := left_or_holds_of_access haccessed (fun access haccess => by
    rw [page_of_mem_accessAt haccess]
    exact holdsLock_of_holds hholds) hpursues
  have hcounted := hpursues.1.of_grows haccessed.goes.grows
  have hsize : heap.file.pageSize ≠ 0 := by
    cases point with
    | probe number count heldBefore => exact hready.1
    | escalate number count => exact hready
    | grow number => exact hready
  cases point with
  | probe number count heldBefore =>
      simp only [proceedInsert]
      split
      · rename_i error fetched haccess
        simp only [Operation.demand, haccess] at haccessed
        exact .after_goes haccessed.goes (.ended haccessed.retains)
      · rename_i ref fetched haccess
        simp only [Operation.demand, haccess] at haccessed hleft hcounted
        refine .after_goes haccessed.goes ?_
        split
        · exact ⟨.refl, haccessed.retains, hcounted, hleft⟩
        · have hbehind : ∀ page ∈ pages ++
              (db.accessAt txn (heap.pageId number) .shared).map Access.page,
              fetched.locks.holdsLock txn page = true ∨ page.number < number + 1 :=
            fun page hpage => (hleft page hpage).imp_right Nat.lt_succ_of_lt
          cases heldBefore with
          | true => exact probeAt_carried hsize haccessed.retains hcounted.1 hcounted.2 hbehind
          | false =>
              obtain ⟨hgoes, hkept, hgiven⟩ :=
                release_retains (heap.pageId number) haccessed.retains
              refine .after_goes hgoes (probeAt_carried hsize hkept hcounted.1 hcounted.2 ?_)
              intro page hpage
              rcases hbehind page hpage with hheld | hnumber
              · rcases hgiven page hheld with hheld | rfl
                · exact .inl hheld
                · exact .inr (Nat.lt_succ_self _)
              · exact .inr hnumber
  | escalate number count =>
      simp only [proceedInsert]
      split
      · rename_i error fetched haccess
        simp only [Operation.demand, haccess] at haccessed
        exact .after_goes haccessed.goes (.ended haccessed.retains)
      · rename_i ref fetched haccess
        simp only [Operation.demand, haccess] at haccessed hleft hcounted
        refine .after_goes haccessed.goes (storeRow_carried ref haccessed.retains ?_)
        intro cache hkept
        refine probeAt_carried hsize hkept hcounted.1 hcounted.2 fun page hpage => ?_
        exact (hleft page hpage).imp_right Nat.lt_succ_of_lt
  | grow number =>
      simp only [proceedInsert]
      split
      · rename_i error fetched haccess
        simp only [Operation.demand, haccess] at haccessed
        exact .after_goes haccessed.goes (.ended haccessed.retains)
      · rename_i ref fetched haccess
        simp only [Operation.demand, haccess] at haccessed hleft hcounted
        refine .after_goes haccessed.goes (storeRow_carried ref haccessed.retains ?_)
        intro cache hkept
        exact growFor_carried hsize hkept hcounted hleft

/-- A delete whose demand is granted ends. -/
theorem proceedDelete_carried (hsound : db.catalog.Sound) {place : RecordId}
    (hretains : db.Retains txn pages) :
    Carried txn (pages ++ (db.accessAt txn place.page .exclusive).map Access.page) db
      (db.proceedDelete txn row place).1 (db.proceedDelete txn row place).2 := by
  have haccessed := accessed hsound hretains place.page .exclusive
  simp only [proceedDelete]
  split
  · rename_i error fetched haccess
    simp only [haccess] at haccessed
    exact .after_goes haccessed.goes (.ended haccessed.retains)
  · rename_i ref fetched haccess
    simp only [haccess] at haccessed
    obtain ⟨cache, hcache, hframes⟩ := modifyFrame_cache fetched ref txn fun page =>
      (page.delete row).map fun page => (page, ())
    have hkept : ({ fetched with cache } : Database).Retains txn
        (pages ++ (db.accessAt txn place.page .exclusive).map Access.page) := by
      intro page hpage hholds
      exact (hframes page).trans (haccessed.retains page hpage hholds)
    have hgoes : Goes txn fetched { fetched with cache } := ⟨.refl, .refl, id⟩
    refine .after_goes haccessed.goes ?_
    split <;> rename_i hmodify <;> rw [hmodify] at hcache <;> subst hcache <;>
      exact .after_goes hgoes (.ended hkept)

/-- A walk goes on to its next page, and leaves nothing. -/
theorem continueWalk_carried (walk : Walk) (hretains : db.Retains txn pages)
    (hholds : ∀ page ∈ pages, db.locks.holdsLock txn page = true) :
    Carried txn pages db (db.continueWalk walk) db := by
  simp only [continueWalk]
  split
  · exact .ended hretains
  · exact .ended hretains
  · exact ⟨.refl, hretains, trivial, fun page hpage => .inl (hholds page hpage)⟩

/-- A walk whose demand is granted goes on. -/
theorem proceedScan_carried (hsound : db.catalog.Sound) {walk : Walk}
    (hholds : (db.locks.lockOf walk.cursor.page).holds txn .shared = true)
    (hretains : db.Retains txn pages) (hpursues : db.Pursues txn pages (.needs (.scan walk))) :
    Carried txn (pages ++ (db.accessAt txn walk.cursor.page .shared).map Access.page) db
      (db.proceedScan txn walk).1 (db.proceedScan txn walk).2 := by
  have haccessed := accessed hsound hretains walk.cursor.page .shared
  have hheld := left_or_holds_of_access haccessed (fun access haccess => by
    rw [page_of_mem_accessAt haccess]
    exact hholds) hpursues
  simp only [proceedScan]
  split
  · rename_i error fetched haccess
    simp only [haccess] at haccessed
    exact .after_goes haccessed.goes (.ended haccessed.retains)
  · rename_i ref fetched haccess
    simp only [haccess] at haccessed hheld
    refine .after_goes haccessed.goes ?_
    split
    · exact continueWalk_carried _ haccessed.retains fun page hpage =>
        (hheld page hpage).resolve_right id
    · split
      · exact .ended haccessed.retains
      · exact continueWalk_carried _ haccessed.retains fun page hpage =>
          (hheld page hpage).resolve_right id

/-- An operation whose demand is granted goes on. -/
theorem proceed_carried (hsound : db.catalog.Sound) {operation : Operation}
    (hready : operation.Ready db.locks txn)
    (hholds : (db.locks.lockOf operation.demand.1).holds txn operation.demand.2 = true)
    (hretains : db.Retains txn pages) (hpursues : db.Pursues txn pages (.needs operation)) :
    Carried txn (pages ++ (db.accessOf txn operation).map Access.page) db
      (db.proceed txn operation).1 (db.proceed txn operation).2 := by
  cases operation with
  | getPage page mode =>
      have haccessed := accessed hsound hretains page mode
      exact .after_goes haccessed.goes (.ended haccessed.retains)
  | insert heap row point => exact proceedInsert_carried hsound hready hholds hretains hpursues
  | delete heap row place => exact proceedDelete_carried hsound hretains
  | scan walk => exact proceedScan_carried hsound hholds hretains hpursues

/-- A call has begun of a transaction that holds the pages. -/
theorem begin_carried (hsound : db.catalog.Sound) (hretains : db.Retains txn pages)
    (hholds : ∀ page ∈ pages, db.locks.holdsLock txn page = true) (call : Call) :
    Carried txn pages db (db.begin txn call).1 (db.begin txn call).2 := by
  cases call with
  | getPage page mode =>
      exact ⟨.refl, hretains, trivial, fun page hpage => .inl (hholds page hpage)⟩
  | insert table row =>
      simp only [begin, beginInsert]
      split
      · exact .ended hretains
      · rename_i heap hheap
        have hsize : heap.file.pageSize ≠ 0 := by
          rw [(hsound.fits table heap hheap).pageSize]
          exact hsound.pageSize
        simp only [beginInsertInto]
        split
        · exact .ended hretains
        · exact probeAt_carried hsize hretains (Nat.zero_le _) (Nat.le_refl _)
            fun page hpage => .inl (hholds page hpage)
  | delete row =>
      simp only [begin, beginDelete]
      split
      · exact .ended hretains
      · split
        · exact .ended hretains
        · simp only [beginDeleteFrom]
          split
          · exact .ended hretains
          · split
            · exact .ended hretains
            · split
              · exact .ended hretains
              · exact ⟨.refl, hretains, trivial, fun page hpage => .inl (hholds page hpage)⟩
  | scan table budget =>
      simp only [begin]
      split
      · exact .ended hretains
      · exact continueWalk_carried _ hretains hholds
  | walk cursor budget => exact continueWalk_carried _ hretains hholds

end Database

/-- An operation that waits counts on pages that are there. -/
def Status.Counted (storage : Storage) : Status → Prop
  | .ended _ => True
  | .blocked operation | .paused operation => operation.Counted storage

/-- What an operation has left that rests now. -/
structure Kept (txn : TxnId) (pages : List PageId) (before : Database) (status : Status)
    (after : Database) : Prop where
  spares : LockTable.Spares txn before.locks after.locks
  grows : before.storage.Grows after.storage
  retains : after.Retains txn pages
  counted : status.Counted after.storage

/-- An operation rests that has done something else before. -/
theorem Kept.after_goes {txn : TxnId} {pages : List PageId} {before middle after : Database}
    {status : Status} (hrest : Kept txn pages middle status after)
    (hspares : LockTable.Spares txn before.locks middle.locks)
    (hgrows : before.storage.Grows middle.storage) : Kept txn pages before status after :=
  ⟨hspares.trans hrest.spares, hgrows.trans hrest.grows, hrest.retains, hrest.counted⟩

namespace Database

variable {db after : Database} {txn : TxnId} {pages : List PageId} {operation : Operation}
  {locks : LockTable}

/-- A request for what an operation needs next gives its transaction none of the pages that the
operation has left. -/
theorem retains_of_serves
    (hserves : LockTable.Serves txn operation.demand.1 operation.demand.2 db.locks locks)
    (hretains : db.Retains txn pages) (hpursues : db.Pursues txn pages (.needs operation)) :
    ({ db with locks } : Database).Retains txn pages ∧
      ({ db with locks } : Database).Pursues txn pages (.needs operation) := by
  refine ⟨?_, hpursues.1, ?_⟩
  · intro page hpage hholds
    rcases hpursues.2 page hpage with hbefore | hleft
    · exact hretains page hpage hbefore
    · rcases hserves.gains page txn .shared hholds with hbefore | ⟨_, hsame⟩
      · exact hretains page hpage hbefore
      · exact absurd hsame hleft.ne_demand
  · intro page hpage
    exact (hpursues.2 page hpage).imp_left fun h => hserves.keeps page txn .shared h

/-- An operation that runs on until it rests. -/
theorem runFor_kept (fuel : Nat) {progress : Progress} (hsound : db.catalog.Sound)
    (hpending : db.locks.pending[txn]? = none) (hready : progress.Ready db.locks txn)
    (hretains : db.Retains txn pages) (hpursues : db.Pursues txn pages progress) :
    Kept txn (pages ++ (db.accessesFor fuel txn progress).map Access.page) db
      (db.runFor fuel txn progress).1 (db.runFor fuel txn progress).2 := by
  induction fuel generalizing db progress pages with
  | zero =>
      rw [accessesFor_zero, List.map_nil, List.append_nil]
      cases progress with
      | ended answer => exact ⟨.refl, .refl, hretains, trivial⟩
      | needs operation => exact ⟨.refl, .refl, hretains, hpursues.1⟩
  | succ fuel ih =>
      cases progress with
      | ended answer =>
          rw [show db.accessesFor (fuel + 1) txn (.ended answer) = [] from rfl, List.map_nil,
            List.append_nil]
          exact ⟨.refl, .refl, hretains, trivial⟩
      | needs operation =>
          have hready : operation.Ready db.locks txn := hready
          have htreated := LockTable.request_treated hpending operation.demand.1
            operation.demand.2
          have hspares := LockTable.request_spares hpending operation.demand.1
            operation.demand.2
          rcases hrequest : db.locks.request txn operation.demand.1 operation.demand.2 with
            ⟨verdict, locks⟩
          rw [hrequest] at htreated hspares
          obtain ⟨hretains, hpursues⟩ := retains_of_serves htreated.serves hretains hpursues
          have hready := hready.of_serves htreated.serves
          simp only [accessesFor, runFor, hrequest]
          cases verdict with
          | granted =>
              have hgranted : ({ db with locks } : Database).catalog.Sound := hsound
              have hproceeds := proceed_advances hgranted hready (htreated.granted rfl)
              have hcarried := proceed_carried hgranted hready (htreated.granted rfl) hretains
                hpursues
              have hrest := ih (by rw [hproceeds.work.catalog]; exact hsound)
                (hproceeds.pending (htreated.answered (by simp))) hproceeds.ready
                hcarried.retains hcarried.pursues
              rw [List.append_assoc, ← List.map_append] at hrest
              exact (hrest.after_goes hcarried.goes.spares hcarried.goes.grows).after_goes
                hspares .refl
          | refused reason =>
              rw [List.map_nil, List.append_nil]
              exact ⟨hspares, .refl, hretains, trivial⟩
          | waits =>
              rw [List.map_nil, List.append_nil]
              exact ⟨hspares, .refl, hretains, hpursues.1⟩

/-- A call that has begun, and has made as many demands as `fuel` says. -/
theorem begin_kept (fuel : Nat) (hsound : db.catalog.Sound)
    (hpending : db.locks.pending[txn]? = none) (hretains : db.Retains txn pages)
    (hholds : ∀ page ∈ pages, db.locks.holdsLock txn page = true) (call : Call) :
    Kept txn
      (pages ++
        ((db.begin txn call).2.accessesFor fuel txn (db.begin txn call).1).map Access.page) db
      ((db.begin txn call).2.runFor fuel txn (db.begin txn call).1).1
      ((db.begin txn call).2.runFor fuel txn (db.begin txn call).1).2 := by
  have hbegins := begin_advances hsound txn call
  have hcarried := begin_carried hsound hretains hholds call
  have hrest := runFor_kept fuel (by rw [hbegins.work.catalog]; exact hsound)
    (hbegins.pending hpending) hbegins.ready hcarried.retains hcarried.pursues
  exact hrest.after_goes hcarried.goes.spares hcarried.goes.grows

/-- A waiting operation that is taken further, of a transaction that holds the pages. -/
theorem resumeFor_kept (fuel : Nat) (hsound : db.catalog.Sound) {request : PendingRequest}
    (hawaits : operation.Awaits db.locks txn) (hcounted : operation.Counted db.storage)
    (hpending : db.locks.pending[txn]? = some request) (hretains : db.Retains txn pages)
    (hholds : ∀ page ∈ pages, db.locks.holdsLock txn page = true) :
    Kept txn (pages ++ (db.accessesOfResumedFor fuel txn operation request).map Access.page) db
      (db.resumeFor fuel txn operation request).1
      (db.resumeFor fuel txn operation request).2 := by
  have hdemand := hawaits.2 request hpending
  have htreated := LockTable.advance_treated db.locks txn request
  have hspares := LockTable.advance_spares hpending
  rcases hadvance : db.locks.advance txn request with ⟨verdict, locks⟩
  rw [hadvance] at htreated hspares
  have hserves : LockTable.Serves txn operation.demand.1 operation.demand.2 db.locks locks := by
    rw [hdemand]
    exact htreated.serves
  obtain ⟨hretains, hpursues⟩ := retains_of_serves hserves hretains
    ⟨hcounted, fun page hpage => .inl (hholds page hpage)⟩
  have hready : operation.Ready locks txn := hawaits.1.of_serves hserves
  simp only [accessesOfResumedFor, resumeFor, hadvance]
  cases verdict with
  | granted =>
      have hgranted : ({ db with locks } : Database).catalog.Sound := hsound
      have hlocked : (locks.lockOf operation.demand.1).holds txn operation.demand.2 = true := by
        rw [hdemand]
        exact htreated.granted rfl
      have hproceeds := proceed_advances hgranted hready hlocked
      have hcarried := proceed_carried hgranted hready hlocked hretains hpursues
      have hrest := runFor_kept fuel (by rw [hproceeds.work.catalog]; exact hsound)
        (hproceeds.pending (htreated.answered (by simp))) hproceeds.ready hcarried.retains
        hcarried.pursues
      rw [List.append_assoc, ← List.map_append] at hrest
      exact (hrest.after_goes hcarried.goes.spares hcarried.goes.grows).after_goes hspares .refl
  | refused reason =>
      rw [List.map_nil, List.append_nil]
      exact ⟨hspares, .refl, hretains, trivial⟩
  | waits =>
      rw [List.map_nil, List.append_nil]
      exact ⟨hspares, .refl, hretains, hcounted⟩

end Database

end RowStore
