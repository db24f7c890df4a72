import RowStore.Proofs.Cache.Accounted
import RowStore.Proofs.Session.Standing
import RowStore.Proofs.Session.Undo

/-!
# Cache accounting under threads

Between the strides of a fetch other threads act, evict, drop pages, and fail to read them. All the
same the parts of the cache agree at any time: the places that it counts as reserved are those of
the fetches under way, they and the pages in the cache never exceed the capacity, each page has at
most one frame, and the pages that are tracked are those in the cache. This is `cache_accounted`.
-/

namespace RowStore

namespace Threads

/-- The fetches that have a place in the cache reserved. -/
def loading (stages : TxnMap Stage) : TxnMap Stage :=
  stages.filter fun _ stage => stage.isLoading

/-- The number of fetches that have a place in the cache reserved. -/
def loads (threads : Threads) : Nat :=
  (loading threads.stages).size

/-- How many places a transaction has reserved, by the stage of its fetch. -/
def placesOf (stage? : Option Stage) : Nat :=
  if stage?.any Stage.isLoading then 1 else 0

theorem contains_loading (stages : TxnMap Stage) (txn : TxnId) :
    (loading stages).contains txn = stages[txn]?.any Stage.isLoading := by
  rw [loading, Std.ExtTreeMap.contains_eq_isSome_getElem?, Std.ExtTreeMap.getElem?_filter']
  cases stages[txn]? with
  | none => rfl
  | some stage => cases hloading : stage.isLoading <;> simp [hloading]

/-- The fetches with a reserved place when one fetch is over. -/
theorem loading_erase (stages : TxnMap Stage) (txn : TxnId) :
    loading (stages.erase txn) = (loading stages).erase txn := by
  apply Std.ExtTreeMap.ext_getElem?
  intro other
  simp only [loading, Std.ExtTreeMap.getElem?_filter', Std.ExtTreeMap.getElem?_erase]
  split <;> rfl

/-- The fetches with a reserved place when one fetch has come to a stage. -/
theorem loading_insert (stages : TxnMap Stage) (txn : TxnId) (stage : Stage) :
    loading (stages.insert txn stage) =
      if stage.isLoading then (loading stages).insert txn stage
      else (loading stages).erase txn := by
  apply Std.ExtTreeMap.ext_getElem?
  intro other
  cases hloading : stage.isLoading <;>
    simp only [loading, Std.ExtTreeMap.getElem?_filter', Std.ExtTreeMap.getElem?_insert, if_true,
      Bool.false_eq_true, if_false, Std.ExtTreeMap.getElem?_erase] <;>
    split <;> simp [hloading]

/-- How many places are reserved when a fetch is over. -/
theorem loads_rest (threads : Threads) (txn : TxnId) (progress : Progress) (db : Database) :
    (threads.rest txn progress db).2.loads + placesOf threads.stages[txn]? = threads.loads := by
  rw [loads, stages_rest, loading_erase, placesOf, ← contains_loading]
  exact size_erase_add _ _

/-- How many places are reserved when a fetch has come to a stage. -/
theorem loads_stand (threads : Threads) (txn : TxnId) (stage : Stage) (db : Database) :
    (threads.stand txn stage db).loads + placesOf threads.stages[txn]? =
      threads.loads + placesOf (some stage) := by
  have herase := size_erase_add (loading threads.stages) txn
  rw [contains_loading] at herase
  simp only [loads, stages_stand, loading_insert, placesOf, Option.any_some]
  by_cases hloading : stage.isLoading = true
  · rw [if_pos hloading, if_pos hloading, Std.ExtTreeMap.size_insert, contains_loading]
    split <;> omega
  · rw [if_neg hloading, if_neg hloading]
    exact herase

/-- The parts of the cache agree, and the places that are reserved are those of the fetches under
way. -/
def Accounted (capacity : Nat) (threads : Threads) : Prop :=
  threads.session.db.cache.Accounted capacity threads.loads

namespace Accounted

variable {threads after : Threads} {capacity reserved : Nat} {txn : TxnId} {db : Database}
  {operation : Operation} {stage next : Stage} {progress : Progress}

/-- The threads when a fetch has come to a stage. -/
theorem stand (hcache : db.cache.Accounted capacity reserved)
    (hreserved : reserved + placesOf threads.stages[txn]? =
      threads.loads + placesOf (some stage)) :
    (threads.stand txn stage db).Accounted capacity := by
  have hloads := threads.loads_stand txn stage db
  obtain rfl : reserved = (threads.stand txn stage db).loads := by omega
  exact hcache

/-- The threads when a fetch is over. -/
theorem rest (hcache : db.cache.Accounted capacity reserved)
    (hreserved : reserved + placesOf threads.stages[txn]? = threads.loads) :
    (threads.rest txn progress db).2.Accounted capacity := by
  have hloads := threads.loads_rest txn progress db
  obtain rfl : reserved = (threads.rest txn progress db).2.loads := by omega
  rwa [Accounted, db_rest]

/-- The place of a fetch that has one reserved is among those that are reserved. -/
theorem loading (haccounted : threads.Accounted capacity)
    (hstage : threads.stages[txn]? = some stage) (hloading : stage.isLoading = true) :
    ∃ others, threads.loads = others + 1 ∧
      threads.session.db.cache.Accounted capacity (others + 1) := by
  have hrest := threads.loads_rest txn (.ended (.error .cacheFull)) threads.session.db
  rw [hstage, placesOf, Option.any_some, if_pos hloading] at hrest
  exact ⟨_, hrest.symm, hrest ▸ haccounted⟩

/-- An operation comes to another stage of its fetch. -/
theorem stands (haccounted : threads.Accounted capacity)
    (hstage : threads.stages[txn]? = some stage) (hfits : stage.Fits operation.demand.1)
    (hstrides : Strides txn operation threads.session.db stage (.stands next) db) :
    (threads.stand txn next db).Accounted capacity := by
  have hcache : threads.session.db.cache.Accounted capacity threads.loads := haccounted
  have hmem : ∀ resident : Resident,
      threads.session.db.cache.frames[operation.demand.1]? = some resident →
      operation.demand.1 ∈ threads.session.db.cache.frames := by
    intro resident hframe
    rw [Std.ExtTreeMap.mem_iff_isSome_getElem?, hframe]
    rfl
  cases hstrides with
  | present hframe => exact stand (hcache.touch (hmem _ hframe)) (by rw [hstage]; rfl)
  | reserves hroom =>
      rw [hcache.loading, hcache.size] at hroom
      exact stand (hcache.reserve hroom) (by rw [hstage]; rfl)
  | @evicts victim resident hevicted =>
      obtain ⟨hremoved, hsize⟩ := hcache.remove victim
      have hcontains : threads.session.db.cache.frames.contains victim = true := by
        rw [Std.ExtTreeMap.contains_eq_isSome_getElem?, hevicted.frame]
        rfl
      rw [if_pos hcontains] at hsize
      have hroom := hcache.room
      exact stand (hremoved.reserve (by omega)) (by rw [hstage]; rfl)
  | reads => exact stand hcache (by rw [hstage]; rfl)
  | finds hframe =>
      obtain ⟨others, hloads, hcache⟩ := haccounted.loading hstage rfl
      exact stand (hcache.giveUp.touch (hmem _ hframe)) (by rw [hstage, hloads]; rfl)
  | @installs heapPage origin hframe =>
      obtain ⟨others, hloads, hcache⟩ := haccounted.loading hstage rfl
      exact stand (hcache.install hfits origin) (by rw [hstage, hloads]; rfl)
  | notes => exact stand (by rwa [Database.cache_noteFor]) (by rw [hstage]; rfl)

/-- An operation is done with its page. -/
theorem leaves (haccounted : threads.Accounted capacity)
    (hstage : threads.stages[txn]? = some stage)
    (hstrides : Strides txn operation threads.session.db stage (.leaves progress) db) :
    (threads.rest txn progress db).2.Accounted capacity := by
  have hcache : threads.session.db.cache.Accounted capacity threads.loads := haccounted
  cases hstrides with
  | full => exact rest hcache (by rw [hstage]; rfl)
  | fails =>
      obtain ⟨others, hloads, hcache⟩ := haccounted.loading hstage rfl
      exact rest hcache.giveUp (by rw [hstage, hloads]; rfl)
  | handles hhandles =>
      cases hhandles with
      | looks => exact rest hcache (by rw [hstage]; rfl)
      | changes _ hframe hedits =>
          exact rest (hcache.putFrame hframe hedits.edited.keeps.1 _) (by rw [hstage]; rfl)

/-- Every move keeps the cache accounted for. -/
theorem of_effect (haccounted : threads.Accounted capacity) (horderly : threads.Orderly)
    {move : Move} (heffect : MoveEffect threads move after) : after.Accounted capacity := by
  have hcache : threads.session.db.cache.Accounted capacity threads.loads := haccounted
  cases heffect with
  | quiet | asks | releases | changesCatalog => exact haccounted
  | begins _ hstage => exact rest hcache (by rw [hstage]; rfl)
  | granted _ hstage => exact stand hcache (by rw [hstage]; rfl)
  | refused _ hstage => exact rest hcache (by rw [hstage]; rfl)
  | stands hwaiting hstage _ hstrides =>
      exact haccounted.stands hstage (horderly.fits hwaiting hstage) hstrides
  | leaves _ hstage _ hstrides => exact haccounted.leaves hstage hstrides
  | @completes txn commits =>
      obtain ⟨hcommit, habort⟩ := Database.complete_preserves_cache
        (fun _ _ _ _ hframe hid _ h => h.setFrame hframe hid) threads.session.db txn hcache
      cases commits with
      | true => exact hcommit
      | false => exact habort
  | writes hframe hrestore =>
      exact hcache.putFrame hframe (HeapPage.restore_eq_ok hrestore).1 _
  | flushes pages =>
      exact Database.flushEach_preserves_cache
        (fun _ _ _ _ hframe hid _ h => h.setFrame hframe hid) threads.session.db pages hcache
  | discards pages => exact hcache.removeEach pages

end Accounted

end Threads

/-- A database that was opened has an empty cache. -/
theorem Database.Opened.cache {db : Database} (hopened : db.Opened) :
    db.cache = { capacity := db.cache.capacity } := by
  induction hopened with
  | @create config storage db h =>
      cases hvalid : config.validate with
      | error error => simp [Database.create, hvalid, bind, Except.bind] at h
      | ok _ =>
          simp only [Database.create, hvalid, bind, Except.bind, Cache.forCatalog, ne_eq,
            not_true_eq_false, if_false, pure, Except.pure, Except.ok.injEq] at h
          subst h
          rfl
  | @change db change _ ih =>
      obtain ⟨catalog, storage, hchange, _⟩ := Database.changeCatalog_eq db change
      rw [hchange]
      exact ih

/-- The database with room for another number of pages in its cache. -/
def Database.withCapacity (db : Database) (capacity : Nat) : Database :=
  { db with config := { db.config with capacity }, cache := { db.cache with capacity } }

@[simp] theorem Database.storage_withCapacity (db : Database) (capacity : Nat) :
    (db.withCapacity capacity).storage = db.storage := rfl

@[simp] theorem Database.catalog_withCapacity (db : Database) (capacity : Nat) :
    (db.withCapacity capacity).catalog = db.catalog := rfl

/-- A database could have been opened with room for another number of pages. -/
theorem Database.Opened.withCapacity {db : Database} {capacity : Nat} (hcapacity : capacity ≠ 0)
    (hopened : db.Opened) : (db.withCapacity capacity).Opened := by
  induction hopened with
  | @create config storage db h =>
      cases hvalid : config.validate with
      | error error => simp [Database.create, hvalid, bind, Except.bind] at h
      | ok _ =>
          have hvalid' : Config.validate { config with capacity } = .ok () := by
            simp only [Config.validate] at hvalid ⊢
            split at hvalid
            · simp at hvalid
            · rw [if_neg ‹_›, if_neg hcapacity]
          simp only [Database.create, hvalid, bind, Except.bind, Cache.forCatalog, ne_eq,
            not_true_eq_false, if_false, pure, Except.pure, Except.ok.injEq] at h
          subst h
          refine @Database.Opened.create { config with capacity } storage _ ?_
          simp [Database.create, hvalid', bind, Except.bind, Cache.forCatalog, pure, Except.pure,
            Database.withCapacity]
  | @change db change _ ih =>
      have hsame : (db.changeCatalog change).withCapacity capacity =
          (db.withCapacity capacity).changeCatalog change := by
        cases change with
        | create | load | clear => rfl
        | add table name schema path pageSize primaryKey =>
            simp only [changeCatalog, addTable, storage_withCapacity, catalog_withCapacity]
            cases HeapFile.openAt db.storage table path schema pageSize with
            | error error => rfl
            | ok opened =>
                simp only
                cases db.catalog.add opened.1 name primaryKey <;> rfl
      rw [hsame]
      exact .change change ih

namespace Schedule

/-- The cache is accounted for at any time. -/
theorem accounted {db : Database} {history : List Turn} {threads : Threads} (hopened : db.Opened)
    (hschedule : Schedule ⟨{ db }, ∅⟩ history threads) :
    threads.Accounted db.cache.capacity := by
  have horderly := Threads.Orderly.of_opened hopened
  induction hschedule with
  | start =>
      show Cache.Accounted _ 0 db.cache
      rw [hopened.cache]
      exact Cache.accounted_empty _
  | step hschedule hallows ih =>
      exact ih.of_effect (hschedule.orderly horderly)
        ((hschedule.orderly horderly).effect hallows)

/-- Whatever order the threads make their moves in, whichever pages they evict and drop, and
whichever cannot be read: the pages in the cache and the places that fetches under way have reserved
never exceed the capacity, no two frames are of one page, and the pages that are tracked are those
in the cache. -/
theorem cache_accounted {db : Database} {history : List Turn} {threads : Threads}
    (hopened : db.Opened) (hschedule : Schedule ⟨{ db }, ∅⟩ history threads) :
    let cache := threads.session.db.cache
    cache.frames.size + threads.loads ≤ db.cache.capacity ∧ cache.loading = threads.loads ∧
      (∀ (first second : PageId) (one other : Resident), cache.frames[first]? = some one →
        cache.frames[second]? = some other → one.page.id = other.page.id → first = second) ∧
      ∀ page : PageId, page ∈ cache.recency.lastAccess ↔ page ∈ cache.frames := by
  have hcache : threads.session.db.cache.Accounted db.cache.capacity threads.loads :=
    hschedule.accounted hopened
  exact ⟨hcache.room, hcache.loading,
    fun _ _ _ _ hone hother hsame => (hcache.unique hone hother hsame).1, hcache.tracked⟩

/-- An insert has put its page into the cache while a page that is not there was being read for
another transaction. -/
def loadsBesideEachOther : List Move :=
  [.begin ⟨1⟩ (.insert ⟨1⟩ (Session.sampleRow 7)), .submit ⟨1⟩, .stride ⟨1⟩,
    .begin ⟨2⟩ (.getPage ⟨⟨2⟩, 0⟩ .shared), .submit ⟨2⟩, .stride ⟨2⟩, .stride ⟨1⟩, .stride ⟨2⟩,
    .discardTable ⟨1⟩, .stride ⟨1⟩]

/-- A page is in the cache, a place is reserved for another one whose read has failed, and both are
counted. -/
theorem cache_accounted_during_loads :
    ∃ history threads,
      Schedule ⟨{ db := Session.sampleTables "a.dat" "b.dat" }, ∅⟩ history threads ∧
      threads.session.db.cache.frames.size = 1 ∧ threads.loads = 1 ∧
      threads.session.db.cache.loading = 1 ∧
      ∀ page : PageId, page ∈ threads.session.db.cache.recency.lastAccess ↔
        page ∈ threads.session.db.cache.frames := by
  have hschedule : Schedule ⟨{ db := Session.sampleTables "a.dat" "b.dat" }, ∅⟩ _ _ :=
    Schedule.of_moves .start (by decide +kernel : Threads.AllowsEach _ loadsBesideEachOther)
  have haccounted := cache_accounted (Session.sampleTables_opened "a.dat" "b.dat") hschedule
  exact ⟨_, _, hschedule, by decide +kernel, by decide +kernel, by decide +kernel,
    haccounted.2.2.2⟩

end Schedule

end RowStore
