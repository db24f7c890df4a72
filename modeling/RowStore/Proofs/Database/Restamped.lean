import RowStore.Proofs.Cache.Accounted
import RowStore.Proofs.Cache.Recency
import RowStore.Proofs.Database.Room
import RowStore.Proofs.Lock.Modes

/-!
# Pages that are read again

A transaction that asks for a page in shared mode, and is granted it at once, gets the page or an
error: `Database.getShared`. Once it has a page, the page stays in the cache, and asking for it
again changes nothing but its stamp (`getShared_again`). Such stamps do not matter to anything that
the transaction reads later, as no page that it holds is ever evicted (`getShared_withRecency`). So
whoever asks for a page again gets what it got before, also if that was an error
(`getShared_repeats`).
-/

namespace RowStore

namespace Database

variable {db other after room : Database} {txn : TxnId} {page : PageId} {recency : Recency}

/-- The database with other stamps of its pages. -/
def withRecency (db : Database) (recency : Recency) : Database :=
  { db with cache := { db.cache with recency } }

/-- The stamps differ only for pages that the transaction holds. -/
def Restamps (txn : TxnId) (db : Database) (recency : Recency) : Prop :=
  ∀ page, db.locks.holdsLock txn page = false →
    recency.lastAccess[page]? = db.cache.recency.lastAccess[page]?

/-- The database with a place for another page in its cache, if there is one or some page can be
evicted. -/
def vacated (db : Database) : Option Database :=
  if db.cache.isFull then db.evict else some db

/-! ## Fetches in one step -/

/-- The storage after a page was read depends only on the catalog and the storage. -/
theorem storage_load (hcatalog : after.catalog = db.catalog)
    (hstorage : after.storage = db.storage) :
    (after.load page).2.storage = (db.load page).2.storage := by
  simp only [load, hcatalog, hstorage]
  cases db.catalog.heapFile page.table with
  | error error => exact hstorage
  | ok heap => rfl

/-- A place is made in a cache with no other page missing than one that was evicted. -/
theorem vacated_eq_some (h : db.vacated = some room) :
    room.catalog = db.catalog ∧ room.storage = db.storage ∧
      (room = db ∧ db.cache.isFull = false ∨
        db.cache.isFull = true ∧ ∃ victim resident, Evicted db victim resident ∧
          room = { db with
            cache := db.cache.remove victim, locks := (db.locks.reclaim victim).2 }) := by
  simp only [vacated] at h
  split at h
  · rename_i hfull
    obtain ⟨victim, resident, hevicted, rfl⟩ := evict_eq_some h
    exact ⟨rfl, rfl, .inr ⟨hfull, victim, resident, hevicted, rfl⟩⟩
  · rename_i hplace
    obtain rfl : db = room := Option.some.inj h
    exact ⟨rfl, rfl, .inl ⟨rfl, Bool.eq_false_iff.mpr hplace⟩⟩

/-- A page that was not in the cache is not in it after a place was made. -/
theorem absent_of_vacated (h : db.vacated = some room) (habsent : db.cache.frames[page]? = none) :
    room.cache.frames[page]? = none := by
  rcases (vacated_eq_some h).2.2 with ⟨rfl, _⟩ | ⟨_, victim, _, _, rfl⟩
  · exact habsent
  · simp only [Cache.frames_remove, habsent, ite_self]

/-- A place is reserved for a page that is not in the cache. -/
theorem reserve_eq_vacated (habsent : db.cache.frames[page]? = none) :
    db.reserve page = match db.vacated with
      | none => (.error .cacheFull, db)
      | some room => (.ok .reserved,
          { room with cache := { room.cache with loading := room.cache.loading + 1 } }) := by
  simp only [reserve, habsent, vacated]
  split
  · cases db.evict <;> rfl
  · rfl

/-- A page is read into the place that is reserved for it. -/
theorem install_load (habsent : room.cache.frames[page]? = none) :
    let reserved : Database :=
      { room with cache := { room.cache with loading := room.cache.loading + 1 } }
    (reserved.load page).2.install page (reserved.load page).1 =
      match (room.load page).1 with
      | .error error => (.error error, { room with storage := (room.load page).2.storage })
      | .ok (heapPage, origin) =>
          (.ok ⟨page, room.cache.nextSerial⟩, { room with
            storage := (room.load page).2.storage
            cache := (room.cache.add heapPage origin).touch page }) := by
  intro reserved
  obtain ⟨storage, hafter, _⟩ := load_eq reserved page
  have hanswer : (reserved.load page).1 = (room.load page).1 := load_congr rfl rfl
  have hsame : (reserved.load page).2.storage = (room.load page).2.storage := storage_load rfl rfl
  have hstorage : storage = (room.load page).2.storage := by rw [← hsame, hafter]
  rw [hafter, hanswer, hstorage]
  simp only [install, reserved]
  rcases (room.load page).1 with error | ⟨heapPage, origin⟩
  · rfl
  · simp only [habsent]
    rfl

/-- A page that is not in the cache is read into a place that is made for it. -/
theorem fetch_of_absent (habsent : db.cache.frames[page]? = none) :
    db.fetch page = match db.vacated with
      | none => (.error .cacheFull, db)
      | some room =>
          match (db.load page).1 with
          | .error error => (.error error, { room with storage := (db.load page).2.storage })
          | .ok (heapPage, origin) =>
              (.ok ⟨page, room.cache.nextSerial⟩, { room with
                storage := (db.load page).2.storage
                cache := (room.cache.add heapPage origin).touch page }) := by
  rw [fetch, reserve_eq_vacated habsent]
  cases hvacated : db.vacated with
  | none => rfl
  | some room =>
      obtain ⟨hcatalog, hstorage, _⟩ := vacated_eq_some hvacated
      rw [← load_congr hcatalog (congrArg Storage.directory hstorage),
        ← storage_load hcatalog hstorage]
      exact install_load (absent_of_vacated hvacated habsent)

/-- Every page is held as before after a place was made. -/
theorem holdsLock_of_vacated (h : db.vacated = some room) (txn : TxnId) (page : PageId) :
    room.locks.holdsLock txn page = db.locks.holdsLock txn page := by
  rcases (vacated_eq_some h).2.2 with ⟨rfl, _⟩ | ⟨_, victim, _, _, rfl⟩
  · rfl
  · exact db.locks.holds_reclaim victim page txn .shared

/-- No more places are taken after a place was made. -/
theorem vacated_room (h : db.vacated = some room) :
    room.cache.capacity = db.cache.capacity ∧ room.cache.occupied ≤ db.cache.occupied := by
  rcases (vacated_eq_some h).2.2 with ⟨rfl, _⟩ | ⟨_, victim, _, _, rfl⟩
  · exact ⟨rfl, Nat.le_refl _⟩
  · exact db.cache.occupied_remove victim

/-- There is no place for a page only in a cache that is full. -/
theorem occupied_of_vacated_none (h : db.vacated = none) :
    db.cache.capacity ≤ db.cache.occupied := by
  simp only [vacated] at h
  split at h
  · rename_i hfull
    exact db.cache.isFull_iff.mp hfull
  · simp at h

/-- There is room for a page after a place was made, unless the cache was too full before. -/
theorem occupied_of_vacated (h : db.vacated = some room)
    (hroom : db.cache.occupied ≤ db.cache.capacity) :
    room.cache.occupied < room.cache.capacity := by
  rcases (vacated_eq_some h).2.2 with ⟨rfl, hplace⟩ | ⟨_, victim, resident, hevicted, rfl⟩
  · rw [← Bool.not_eq_true, Cache.isFull_iff] at hplace
    exact Nat.not_le.mp hplace
  · -- The page that was evicted has left its place.
    have hsize : (db.cache.remove victim).occupied + 1 = db.cache.occupied := by
      have herase := size_erase_add db.cache.frames victim
      rw [Std.ExtTreeMap.contains_eq_isSome_getElem?, hevicted.frame, Option.isSome_some,
        if_pos rfl] at herase
      simp only [Cache.remove, hevicted.frame, Cache.occupied]
      omega
    have hcapacity := (db.cache.occupied_remove victim).1
    show (db.cache.remove victim).occupied < (db.cache.remove victim).capacity
    omega

/-! ## Stamps that do not matter -/

/-- Nobody holds a page that may be evicted. -/
theorem not_held_of_isEvictable (h : db.isEvictable page = true) :
    db.locks.holdsLock txn page = false := by
  rw [isEvictable, Bool.and_eq_true] at h
  exact LockTable.holdsLock_of_isReclaimable h.2

/-- Which page is evicted does not depend on the stamps of pages that a transaction holds. -/
theorem evict_withRecency (hstamps : db.Restamps txn recency) :
    db.evict = none ∧ (db.withRecency recency).evict = none ∨
      ∃ room later, db.evict = some room ∧
        (db.withRecency recency).evict = some (room.withRecency later) ∧
        room.Restamps txn later := by
  have hvictim : (recency.evict db.isEvictable).1.victim =
      (db.cache.recency.evict db.isEvictable).1.victim :=
    Recency.evict_congr fun page hevictable => hstamps page (not_held_of_isEvictable hevictable)
  have hsame : (db.withRecency recency).evict =
      (recency.evict db.isEvictable).1.victim.map fun page =>
        { db.withRecency recency with
          cache := (db.withRecency recency).cache.remove page
          locks := (db.locks.reclaim page).2 } := rfl
  rw [hsame, hvictim, evict]
  cases (db.cache.recency.evict db.isEvictable).1.victim with
  | none => exact .inl ⟨rfl, rfl⟩
  | some victim =>
      refine .inr ⟨_, recency.remove victim, rfl, ?_, fun page hpage => ?_⟩
      · simp only [Option.map_some, withRecency, Cache.remove]
        split <;> rfl
      · have hpage : db.locks.holdsLock txn page = false :=
          (db.locks.holds_reclaim victim page txn .shared).symm.trans hpage
        have hrecency : (db.cache.remove victim).recency = db.cache.recency.remove victim := by
          simp only [Cache.remove]
          split <;> rfl
        simp only [hrecency, Recency.remove, Std.ExtTreeMap.getElem?_erase, hstamps page hpage]

/-- A place is made in the same way. -/
theorem vacated_withRecency (hstamps : db.Restamps txn recency) :
    db.vacated = none ∧ (db.withRecency recency).vacated = none ∨
      ∃ room later, db.vacated = some room ∧
        (db.withRecency recency).vacated = some (room.withRecency later) ∧
        room.Restamps txn later := by
  have hfull : (db.withRecency recency).cache.isFull = db.cache.isFull := rfl
  simp only [vacated, hfull]
  split
  · exact evict_withRecency hstamps
  · exact .inr ⟨db, recency, rfl, rfl, hstamps⟩

/-- An access to a page that a transaction holds leaves the stamps of all that it does not hold. -/
theorem lastAccess_access {locks : LockTable} {free : PageId}
    (hholds : locks.holdsLock txn page = true) (hfree : locks.holdsLock txn free = false)
    (recency : Recency) :
    (recency.access page).lastAccess[free]? = recency.lastAccess[free]? := by
  have hne : page ≠ free := by
    rintro rfl
    exact absurd (hholds.symm.trans hfree) nofun
  simp only [Recency.access, Std.ExtTreeMap.getElem?_insert, Std.compare_eq_iff_eq, if_neg hne]

/-- The stamps of pages that a transaction holds may change at any time. -/
theorem Restamps.access (hstamps : db.Restamps txn recency)
    (hholds : db.locks.holdsLock txn page = true) {cache : Cache}
    (hcache : cache.recency = db.cache.recency.access page) :
    ({ db with cache } : Database).Restamps txn (recency.access page) := by
  intro free hfree
  simp only [hcache, lastAccess_access hholds hfree]
  exact hstamps free hfree

/-- A page that the transaction holds is fetched in the same way. -/
theorem fetch_withRecency (hstamps : db.Restamps txn recency)
    (hholds : db.locks.holdsLock txn page = true) :
    ∃ later, (db.withRecency recency).fetch page =
        ((db.fetch page).1, (db.fetch page).2.withRecency later) ∧
      (db.fetch page).2.Restamps txn later := by
  cases hframe : db.cache.frames[page]? with
  | some resident =>
      have hother : (db.withRecency recency).cache.frames[page]? = some resident := hframe
      simp only [fetch, reserve_of_resident hframe, reserve_of_resident hother]
      exact ⟨recency.access page, rfl, hstamps.access hholds rfl⟩
  | none =>
      have hother : (db.withRecency recency).cache.frames[page]? = none := hframe
      have hload : ((db.withRecency recency).load page).1 = (db.load page).1 := load_congr rfl rfl
      have hstorage : ((db.withRecency recency).load page).2.storage =
          (db.load page).2.storage := storage_load rfl rfl
      rw [fetch_of_absent hframe, fetch_of_absent hother, hload, hstorage]
      rcases vacated_withRecency hstamps with ⟨hnone, hnone'⟩ | ⟨room, later, hroom, hroom', hlater⟩
      · rw [hnone, hnone']
        exact ⟨recency, rfl, hstamps⟩
      · rw [hroom, hroom']
        have hheld := (holdsLock_of_vacated hroom txn page).trans hholds
        rcases (db.load page).1 with error | ⟨heapPage, origin⟩
        · exact ⟨later, rfl, hlater⟩
        · exact ⟨later.access page, rfl, hlater.access hheld rfl⟩

/-! ## Pages in shared mode -/

/-- What a transaction gets that asks for a page in shared mode, if it is granted the lock at
once. -/
def getShared (db : Database) (txn : TxnId) (page : PageId) :
    Option (Except Error HeapPage × Database) :=
  match db.locks.request txn page .shared with
  | (.granted, locks) =>
      match { db with locks }.access txn page .shared with
      | (.error error, db) => some (.error error, db)
      | (.ok ref, db) => (db.frame? ref).map fun frame => (.ok frame.page, db)
  | _ => none

/-- Whoever gets something is granted the lock. -/
theorem granted_of_getShared {found : Except Error HeapPage × Database}
    (h : db.getShared txn page = some found) :
    ∃ locks, db.locks.request txn page .shared = (.granted, locks) := by
  rcases hrequest : db.locks.request txn page .shared with ⟨verdict, locks⟩
  rw [getShared, hrequest] at h
  cases verdict with
  | granted => exact ⟨locks, rfl⟩
  | refused reason | waits => simp at h

/-- Whoever is granted the lock gets what the page is fetched as. -/
theorem getShared_of_granted (hsound : db.catalog.Sound) {locks : LockTable}
    (hrequest : db.locks.request txn page .shared = (.granted, locks)) :
    (∃ error fetched, ({ db with locks } : Database).fetch page = (.error error, fetched) ∧
      db.getShared txn page = some (.error error, fetched)) ∨
    ∃ resident fetched,
      ({ db with locks } : Database).fetch page = (.ok ⟨page, resident.serial⟩, fetched) ∧
      fetched.cache.frames[page]? = some resident ∧
      db.getShared txn page = some (.ok resident.page, fetched) := by
  have hfetched := @fetched_of_sound { db with locks } hsound page
  simp only [getShared, hrequest, access]
  rcases hfetch : ({ db with locks } : Database).fetch page with ⟨error | ref, fetched⟩
  · exact .inl ⟨error, fetched, rfl, rfl⟩
  · rw [hfetch] at hfetched
    obtain ⟨resident, hframe, rfl⟩ := hfetched.answer ref rfl
    refine .inr ⟨resident, fetched, rfl, hframe, ?_⟩
    simp only [frame?, Cache.frame?_of_resident _ _ hframe, Option.map_some]

/-- Whoever gets something was granted the lock and has fetched the page. -/
theorem getShared_eq_some (hsound : db.catalog.Sound) {answer : Except Error HeapPage}
    (h : db.getShared txn page = some (answer, after)) :
    ∃ locks, db.locks.request txn page .shared = (.granted, locks) ∧
      (({ db with locks } : Database).fetch page).2 = after ∧
      ((∃ error, answer = .error error ∧
          (({ db with locks } : Database).fetch page).1 = .error error) ∨
        ∃ resident, answer = .ok resident.page ∧ after.cache.frames[page]? = some resident) := by
  obtain ⟨locks, hrequest⟩ := granted_of_getShared h
  refine ⟨locks, hrequest, ?_⟩
  rcases getShared_of_granted hsound hrequest with
    ⟨error, fetched, hfetch, hgets⟩ | ⟨resident, fetched, hfetch, hframe, hgets⟩
  · rw [hgets, Option.some.injEq, Prod.mk.injEq] at h
    obtain ⟨rfl, rfl⟩ := h
    exact ⟨congrArg Prod.snd hfetch, .inl ⟨error, rfl, congrArg Prod.fst hfetch⟩⟩
  · rw [hgets, Option.some.injEq, Prod.mk.injEq] at h
    obtain ⟨rfl, rfl⟩ := h
    exact ⟨congrArg Prod.snd hfetch, .inr ⟨resident, rfl, hframe⟩⟩

/-- What somebody gets, and what it changes. -/
structure Gets (txn : TxnId) (page : PageId) (before : Database)
    (answer : Except Error HeapPage) (after : Database) : Prop where
  catalog : after.catalog = before.catalog
  directory : after.storage.directory = before.storage.directory
  held : after.locks.holdsLock txn page = true
  holds : ∀ other, before.locks.holdsLock txn other = true →
    after.locks.holdsLock txn other = true
  frames : ∀ other resident, before.locks.holdsLock txn other = true →
    before.cache.frames[other]? = some resident → after.cache.frames[other]? = some resident
  frame : ∀ heapPage, answer = .ok heapPage →
    ∃ resident : Resident, after.cache.frames[page]? = some resident ∧ resident.page = heapPage

/-- Whoever gets a page holds it, and keeps all pages that it had. -/
theorem getShared_gets (hsound : db.catalog.Sound) {answer : Except Error HeapPage}
    (h : db.getShared txn page = some (answer, after)) : Gets txn page db answer after := by
  obtain ⟨locks, hrequest, hafter, hfound⟩ := getShared_eq_some hsound h
  obtain ⟨hserves, hholds⟩ := LockTable.serves_of_granted hrequest
  have hfetched := @fetched_of_sound { db with locks } hsound page
  rw [hafter] at hfetched
  have hkeeps : ∀ other, locks.holdsLock txn other = true →
      after.locks.holdsLock txn other = true := fun other hheld =>
    (hfetched.holds other txn .shared).trans hheld
  refine ⟨hfetched.catalog, hfetched.directory, hkeeps page hholds,
    fun other hheld => hkeeps other (hserves.keeps other txn .shared hheld), ?_, ?_⟩
  · intro other resident hheld hframe
    rcases hfetched.frames other with hsame | ⟨_, _, hevicted⟩ | ⟨_, habsent, _⟩
    · exact hsame.trans hframe
    · -- A page that is held is not evicted.
      have hidle := LockState.holds_of_isIdle hevicted.idle txn .shared
      exact absurd ((hserves.keeps other txn .shared hheld).symm.trans hidle) nofun
    · exact absurd (hframe.symm.trans habsent) nofun
  · rintro heapPage rfl
    rcases hfound with ⟨_, hnone, _⟩ | ⟨resident, hpage, hframe⟩
    · exact absurd hnone nofun
    · exact ⟨resident, hframe, (Except.ok.inj hpage).symm⟩

/-- Whoever has a page gets it again, and nothing but its stamp changes. -/
theorem getShared_again (hsound : db.catalog.Sound) {resident : Resident}
    (hholds : db.locks.holdsLock txn page = true)
    (hframe : db.cache.frames[page]? = some resident) :
    ∃ recency, db.getShared txn page = some (.ok resident.page, db.withRecency recency) ∧
      db.Restamps txn recency := by
  have hfetch : db.fetch page =
      (.ok ⟨page, resident.serial⟩, db.withRecency (db.cache.recency.access page)) := by
    simp only [fetch, reserve_of_resident hframe]
    rfl
  refine ⟨db.cache.recency.access page, ?_, fun free hfree => lastAccess_access hholds hfree _⟩
  rcases getShared_of_granted hsound (LockTable.request_of_holds hholds) with
    ⟨error, fetched, herror, _⟩ | ⟨found, fetched, hok, hfound, hgets⟩
  · exact absurd (herror.symm.trans hfetch) (by simp)
  · obtain rfl : fetched = db.withRecency (db.cache.recency.access page) :=
      congrArg Prod.snd (hok.symm.trans hfetch)
    obtain rfl : resident = found := Option.some.inj (hframe.symm.trans hfound)
    exact hgets

/-- What a transaction gets does not depend on the stamps of pages that it holds. -/
theorem getShared_withRecency (hsound : db.catalog.Sound) (hstamps : db.Restamps txn recency) :
    db.getShared txn page = none ∧ (db.withRecency recency).getShared txn page = none ∨
      ∃ answer after later, db.getShared txn page = some (answer, after) ∧
        (db.withRecency recency).getShared txn page = some (answer, after.withRecency later) ∧
        after.Restamps txn later := by
  have hrequests : (db.withRecency recency).locks.request txn page .shared =
      db.locks.request txn page .shared := rfl
  rcases hrequest : db.locks.request txn page .shared with ⟨verdict, locks⟩
  rw [hrequest] at hrequests
  cases verdict with
  | refused reason | waits =>
      left
      simp only [getShared, hrequest, hrequests, and_self]
  | granted =>
      obtain ⟨hserves, hholds⟩ := LockTable.serves_of_granted hrequest
      have hgranted : ({ db with locks } : Database).Restamps txn recency := by
        intro other hother
        refine hstamps other (Bool.eq_false_iff.mpr fun hheld => ?_)
        exact absurd ((hserves.keeps other txn .shared hheld).symm.trans hother) nofun
      obtain ⟨later, hfetch, hlater⟩ := fetch_withRecency hgranted hholds
      have hsame : ({ db.withRecency recency with locks } : Database).fetch page =
          ((({ db with locks } : Database).fetch page).1,
            (({ db with locks } : Database).fetch page).2.withRecency later) := hfetch
      rcases getShared_of_granted hsound hrequest with
        ⟨error, fetched, herror, hgets⟩ | ⟨resident, fetched, hok, hframe, hgets⟩
      · rw [herror] at hsame hlater
        refine .inr ⟨_, _, later, hgets, ?_, hlater⟩
        simp only [getShared, hrequests, access, hsame]
      · rw [hok] at hsame hlater
        refine .inr ⟨_, _, later, hgets, ?_, hlater⟩
        have hframe : (fetched.withRecency later).cache.frames[page]? = some resident := hframe
        simp only [getShared, hrequests, access, hsame, frame?, Cache.frame?_of_resident _ _ hframe,
          Option.map_some]

/-- A fetch takes at most one more place in the cache. -/
theorem fetch_room (db : Database) (page : PageId) :
    (db.fetch page).2.cache.capacity = db.cache.capacity ∧
      (db.fetch page).2.cache.occupied ≤ db.cache.occupied + 1 := by
  cases hframe : db.cache.frames[page]? with
  | some resident =>
      simp only [fetch, reserve_of_resident hframe]
      exact ⟨rfl, Nat.le_succ _⟩
  | none =>
      rw [fetch_of_absent hframe]
      cases hvacated : db.vacated with
      | none => exact ⟨rfl, Nat.le_succ _⟩
      | some room =>
          obtain ⟨hcapacity, hoccupied⟩ := vacated_room hvacated
          rcases (db.load page).1 with error | ⟨heapPage, origin⟩
          · exact ⟨hcapacity, Nat.le_succ_of_le hoccupied⟩
          · have hadd := room.cache.occupied_add heapPage origin
            exact ⟨hadd.1.trans hcapacity, Nat.le_trans hadd.2 (Nat.succ_le_succ hoccupied)⟩

/-- A fetch leaves the cache with as many places as it should have. -/
theorem occupied_fetch (hroom : db.cache.occupied ≤ db.cache.capacity) (page : PageId) :
    (db.fetch page).2.cache.occupied ≤ (db.fetch page).2.cache.capacity := by
  cases hframe : db.cache.frames[page]? with
  | some resident =>
      simp only [fetch, reserve_of_resident hframe]
      exact hroom
  | none =>
      rw [fetch_of_absent hframe]
      cases hvacated : db.vacated with
      | none => exact hroom
      | some room =>
          have hplace := occupied_of_vacated hvacated hroom
          rcases (db.load page).1 with error | ⟨heapPage, origin⟩
          · exact Nat.le_of_lt hplace
          · obtain ⟨hcapacity, hoccupied⟩ := room.cache.occupied_add heapPage origin
            show (room.cache.add heapPage origin).occupied ≤
              (room.cache.add heapPage origin).capacity
            omega

/-- The cache has as many places as it should after somebody got a page. -/
theorem occupied_getShared (hsound : db.catalog.Sound)
    (hroom : db.cache.occupied ≤ db.cache.capacity) {answer : Except Error HeapPage}
    (h : db.getShared txn page = some (answer, after)) :
    after.cache.occupied ≤ after.cache.capacity := by
  obtain ⟨locks, _, rfl, _⟩ := getShared_eq_some hsound h
  exact @occupied_fetch { db with locks } hroom page

/-- A fetch that fails fails again. -/
theorem fetch_fails_again (hroom : db.cache.occupied ≤ db.cache.capacity) {error : Error}
    (h : (db.fetch page).1 = .error error) :
    ((db.fetch page).2.fetch page).1 = .error error := by
  cases hframe : db.cache.frames[page]? with
  | some resident =>
      rw [fetch, reserve_of_resident hframe] at h
      simp at h
  | none =>
      have hfetch := fetch_of_absent hframe
      cases hvacated : db.vacated with
      | none =>
          -- There was no room, and nothing has changed.
          simp only [hvacated] at hfetch
          rwa [congrArg Prod.snd hfetch]
      | some room =>
          rcases hload : (db.load page).1 with failure | loaded
          · simp only [hvacated, hload] at hfetch
            rw [hfetch] at h ⊢
            -- The place is still there, and the page cannot be read.
            obtain ⟨hcatalog, _, _⟩ := vacated_eq_some hvacated
            obtain ⟨storage, hafter, hdirectory⟩ := load_eq db page
            rw [hafter]
            have hreload : (({ room with storage } : Database).load page).1 = .error failure :=
              (@load_congr db { room with storage } page hcatalog hdirectory).trans hload
            have hplace : room.cache.isFull = false := by
              rw [← Bool.not_eq_true, Cache.isFull_iff]
              exact Nat.not_le.mpr (occupied_of_vacated hvacated hroom)
            have habsent := absent_of_vacated hvacated hframe
            rw [@fetch_of_absent { room with storage } page habsent]
            simp only [vacated, hplace, Bool.false_eq_true, if_false, hreload]
            exact h
          · simp [hvacated, hload, hfetch] at h

/-- Whoever asks for a page again gets what it got before. -/
theorem getShared_repeats (hsound : db.catalog.Sound)
    (hroom : db.cache.occupied ≤ db.cache.capacity) {answer : Except Error HeapPage}
    (h : db.getShared txn page = some (answer, after)) :
    ∃ again, after.getShared txn page = some (answer, again) := by
  have hgets := getShared_gets hsound h
  have hsound' : after.catalog.Sound := hgets.catalog ▸ hsound
  obtain ⟨locks, _, rfl, ⟨error, rfl, hfails⟩ | ⟨resident, rfl, hframe⟩⟩ :=
    getShared_eq_some hsound h
  · have hagain : ((({ db with locks } : Database).fetch page).2.fetch page).1 = .error error :=
      @fetch_fails_again { db with locks } page hroom error hfails
    rcases getShared_of_granted hsound' (LockTable.request_of_holds hgets.held) with
      ⟨other, fetched, hother, hfound⟩ | ⟨resident, fetched, hok, _⟩
    · obtain rfl : other = error := Except.error.inj ((congrArg Prod.fst hother).symm.trans hagain)
      exact ⟨_, hfound⟩
    · exact absurd ((congrArg Prod.fst hok).symm.trans hagain) nofun
  · obtain ⟨recency, hagain, _⟩ := getShared_again hsound' hgets.held hframe
    exact ⟨_, hagain⟩

end Database

end RowStore
