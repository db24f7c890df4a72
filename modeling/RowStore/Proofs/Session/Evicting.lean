import RowStore.Proofs.Database.Spare
import RowStore.Proofs.Session.LockSteps
import RowStore.Proofs.Session.Pinned

/-!
# Which page is evicted

The recency of pages follows the fetches of all threads: whatever is found in the cache or put there
gets the next stamp, whatever is evicted or dropped loses its stamp, and nothing else touches one.
So a fetch that finds its page missing and the cache full evicts, of the pages that can be spared,
the one that was fetched the longest time ago, and fails if there is none:
`Schedule.evicts_least_recent`. A page with unwritten changes, or one that a transaction has locked
or waits for, cannot be spared at any time.
-/

namespace RowStore

/-- The page whose fetch the stride completes, if it completes one. -/
def Stride.fetched? : Stride → Option PageId
  | .stands (.fetched ref) => some ref.page
  | _ => none

/-- The page that the turn fetches: a fetch has found it in the cache, or has put it there. -/
def Turn.fetched? (turn : Turn) : Option PageId :=
  match turn.move with
  | .stride txn =>
      match turn.after.stages[txn]? with
      | some (.fetched ref) => some ref.page
      | _ => none
  | _ => none

/-- The pages that were fetched in a history, in the order of the fetches. -/
def fetchedIn (history : List Turn) : List PageId :=
  history.filterMap Turn.fetched?

theorem fetchedIn_concat (history : List Turn) (turn : Turn) :
    fetchedIn (history ++ [turn]) = fetchedIn history ++ turn.fetched?.toList := by
  rw [fetchedIn, List.filterMap_append, fetchedIn]
  cases hfetched : turn.fetched? <;> simp [hfetched]

/-! ## Stamps follow fetches -/

namespace Cache

theorem recency_remove (cache : Cache) (page : PageId) :
    (cache.remove page).recency = cache.recency.remove page := by
  rw [remove]
  split <;> rfl

theorem recency_putFrame (cache : Cache) (ref : FrameRef) (frame : Frame) :
    (cache.putFrame ref frame).recency = cache.recency := by
  simp only [putFrame]
  repeat' split
  all_goals rfl

end Cache

variable {accesses : List PageId}

/-- A stride stamps the page whose fetch it completes, and no other. -/
theorem Strides.follows {txn : TxnId} {operation : Operation} {stage : Stage} {stride : Stride}
    {db after : Database} (hstrides : Strides txn operation db stage stride after)
    (hfollows : db.cache.recency.Follows accesses) :
    after.cache.recency.Follows (accesses ++ stride.fetched?.toList) := by
  have hnone : db.cache.recency.Follows (accesses ++ (none : Option PageId).toList) := by
    rwa [Option.toList_none, List.append_nil]
  cases hstrides with
  | full | reserves | reads | fails => exact hnone
  | present | finds | installs => exact hfollows.access operation.demand.1
  | @evicts victim _ _ =>
      have hremoved := hnone.remove victim
      rwa [← Cache.recency_remove] at hremoved
  | notes => rwa [Database.cache_noteFor]
  | handles hhandles =>
      cases hhandles with
      | looks => exact hnone
      | changes =>
          show (Cache.putFrame _ _ _).recency.Follows _
          rwa [Cache.recency_putFrame]

/-- What is not a stride stamps no page. -/
theorem MoveEffect.follows {before after : Threads} {move : Move}
    (heffect : MoveEffect before move after) (hmove : ∀ txn, move ≠ .stride txn)
    (hfollows : before.session.db.cache.recency.Follows accesses) :
    after.session.db.cache.recency.Follows accesses := by
  refine heffect.keeps_cache (fun cache => cache.recency.Follows accesses) ?_ ?_ ?_ ?_ hfollows
  · exact fun _ _ _ hfollows => hfollows
  · intro cache ref frame hfollows
    rwa [Cache.recency_putFrame]
  · intro _ cache page hfollows
    rw [Cache.recency_remove]
    exact hfollows.remove page
  · exact fun txn _ _ _ _ hstride => absurd hstride (hmove txn)

/-- The next stride of the transaction finds that its page is not in the cache, and the cache
full. -/
def Threads.FindsFull (threads : Threads) (txn : TxnId) (operation : Operation) : Prop :=
  threads.session.waiting[txn]? = some operation ∧ threads.stages[txn]? = some .locked ∧
    threads.session.db.cache.frames[operation.demand.1]? = none ∧
    threads.session.db.cache.isFull = true

namespace Turn

variable {threads : Threads} {move : Move}

/-- A turn that is not a stride fetches no page. -/
theorem fetched?_of_ne_stride (hmove : ∀ txn, move ≠ .stride txn) :
    fetched? ⟨threads, move⟩ = none := by
  cases move with
  | stride txn => exact absurd rfl (hmove txn)
  | _ => rfl

/-- A turn stamps the page that it fetches, and no other. -/
theorem follows (horderly : threads.Orderly) (hallows : threads.Allows move)
    (hfollows : threads.session.db.cache.recency.Follows accesses) :
    (after ⟨threads, move⟩).session.db.cache.recency.Follows
      (accesses ++ (fetched? ⟨threads, move⟩).toList) := by
  by_cases hmove : ∀ txn, move ≠ .stride txn
  · rw [fetched?_of_ne_stride hmove, Option.toList_none, List.append_nil]
    exact (horderly.effect hallows).follows hmove hfollows
  · obtain ⟨txn, rfl⟩ : ∃ txn, move = .stride txn := by simpa using hmove
    have hstanding := horderly.standing txn
    cases hstage : threads.stages[txn]? with
    | none =>
        have hidle : threads.stride txn = (.waits, threads) := by simp [Threads.stride, hstage]
        simpa [fetched?, after, Threads.make, hidle, hstage] using hfollows
    | some stage =>
        rw [hstage] at hstanding
        obtain ⟨operation, hwaiting, hready, _⟩ := hstanding.of_stage
        have hstamped := (Database.stride_strides hready stage).follows hfollows
        simp only [fetched?, after, Threads.make, Threads.stride, hwaiting, hstage]
        rcases hstride : threads.session.db.stride txn operation stage with ⟨stride, room⟩
        rw [hstride] at hstamped
        cases stride with
        | stands next =>
            simp only [Threads.stages_stand, Std.ExtTreeMap.getElem?_insert_self]
            cases next <;> exact hstamped
        | leaves progress =>
            simpa [Threads.stages_rest, Stride.fetched?] using hstamped

end Turn

namespace Schedule

variable {db : Database} {history : List Turn} {threads : Threads}

/-- At any time the stamps are those of the fetches that there have been. -/
theorem follows (hopened : db.Opened) (hschedule : Schedule ⟨{ db }, ∅⟩ history threads) :
    threads.session.db.cache.recency.Follows (fetchedIn history) := by
  have hstart := Threads.Orderly.of_opened hopened
  induction hschedule with
  | start =>
      show db.cache.recency.Follows []
      rw [hopened.cache]
      exact .nil
  | step hschedule hallows ih =>
      rw [fetchedIn_concat]
      exact Turn.follows (hschedule.orderly hstart) hallows ih

end Schedule

/-! ## What is evicted, and what stays -/

namespace Database

variable {db : Database}

/-- A fetch that finds its page missing and the cache full takes the place of a page that is
evicted, or is refused one. -/
theorem stride_of_full (txn : TxnId) {operation : Operation}
    (habsent : db.cache.frames[operation.demand.1]? = none) (hfull : db.cache.isFull = true) :
    db.stride txn operation .locked =
      match db.evict with
      | none => (.leaves (.ended (operation.refuse .cacheFull)), db)
      | some room => (.stands .reserved, room.reserving) := by
  simp only [stride, reserve, habsent, hfull, if_true]
  cases db.evict <;> rfl

/-- A fetch that finds its page, or room for it, leaves every page in the cache. -/
theorem stride_shows_of_room {operation : Operation} {ref : FrameRef} (txn : TxnId)
    (hshows : db.cache.Shows ref)
    (hroom : ¬ (db.cache.frames[operation.demand.1]? = none ∧ db.cache.isFull = true)) :
    (db.stride txn operation .locked).2.cache.Shows ref := by
  simp only [stride, reserve]
  cases hframe : db.cache.frames[operation.demand.1]? with
  | some resident => exact hshows
  | none =>
      have hroom : db.cache.isFull = false := by simpa [hframe] using hroom
      simp only [hroom, Bool.false_eq_true, if_false]
      exact hshows

end Database

namespace Schedule

variable {db : Database} {history : List Turn} {threads : Threads} {txn : TxnId}
  {operation : Operation} {move : Move}

/-- Every stage is one of the fetch of the page that its operation needs. -/
theorem fits (hopened : db.Opened) (hschedule : Schedule ⟨{ db }, ∅⟩ history threads)
    {stage : Stage} (hwaiting : threads.session.waiting[txn]? = some operation)
    (hstage : threads.stages[txn]? = some stage) :
    stage.Fits operation.demand.1 := by
  have hstanding := (hschedule.orderly (.of_opened hopened)).standing txn
  rw [hwaiting, hstage] at hstanding
  cases hstanding with
  | stands _ _ _ hfits => exact hfits

/-- What is in use has a lock at any time. -/
theorem made (hopened : db.Opened) (hschedule : Schedule ⟨{ db }, ∅⟩ history threads) :
    threads.session.db.locks.Made := by
  obtain ⟨moments, hrun⟩ := hschedule.lock_run hopened
  exact hrun.made

/-- A fetch that finds its page missing and the cache full evicts the page that was fetched the
longest time ago of those that can be spared, or fails and changes nothing. -/
theorem evicts (hopened : db.Opened) (hschedule : Schedule ⟨{ db }, ∅⟩ history threads)
    (hfinds : threads.FindsFull txn operation) :
    let before := threads.session.db
    let turn : Turn := ⟨threads, .stride txn⟩
    (∃ victim resident, before.cache.frames[victim]? = some resident ∧
      before.LeastRecent (fetchedIn history) victim ∧
      turn.after.session.db = (before.without victim resident).reserving) ∨
    (∀ page, ¬ before.Spare page) ∧ turn.after.session.db = before ∧
      turn.reply = .answered (operation.refuse .cacheFull) := by
  intro before turn
  obtain ⟨hwaiting, hstage, habsent, hfull⟩ := hfinds
  have hcache : threads.session.db.cache.Accounted db.cache.capacity threads.loads :=
    hschedule.accounted hopened
  have hstride := Database.stride_of_full txn habsent hfull
  rcases Database.evict_spare (hschedule.follows hopened) hcache.tracked with
    ⟨victim, resident, hframe, holdest, hevict⟩ | ⟨hnone, hevict⟩
  · refine .inl ⟨victim, resident, hframe, holdest, ?_⟩
    rw [hevict] at hstride
    simp only [turn, Turn.after, Threads.make, Threads.stride, hwaiting, hstage, hstride,
      Threads.db_stand]
    rfl
  · refine .inr ⟨hnone, ?_⟩
    rw [hevict] at hstride
    simp only [turn, Turn.after, Turn.reply, Threads.make, Threads.stride, hwaiting, hstage,
      hstride, Threads.db_rest]
    exact ⟨rfl, rfl⟩

/-- What a transaction does about the lock that it needs changes nothing but the lock table, and no
other lock in it than that of the page. -/
theorem requests (hopened : db.Opened) (hschedule : Schedule ⟨{ db }, ∅⟩ history threads)
    (hwaiting : threads.session.waiting[txn]? = some operation)
    (hmove : move = .submit txn ∨ move = .advance txn ∨ move = .expire txn) :
    ∃ locks, (Turn.after ⟨threads, move⟩).session.db = { threads.session.db with locks } ∧
      ∀ other, other ≠ operation.demand.1 →
        locks.locks[other]? = threads.session.db.locks.locks[other]? := by
  have hstanding := (hschedule.orderly (.of_opened hopened)).standing txn
  rw [hwaiting] at hstanding
  have hpage : ∀ request, threads.session.db.locks.pending[txn]? = some request →
      request.page = operation.demand.1 := by
    intro request hpending
    rw [(hstanding.of_pending hpending).2.2]
  rcases hmove with rfl | rfl | rfl
  · rcases threads.submit_cases txn with hidle | ⟨found, hfound, _, hafter⟩
    · exact ⟨_, hidle, fun _ _ => rfl⟩
    · obtain rfl := Option.some.inj (hwaiting.symm.trans hfound)
      exact ⟨_, hafter, fun other hother => LockTable.getElem?_locks_submit _ _ _ hother.symm⟩
  · rcases threads.advance_cases txn with hidle | ⟨_, request, _, hpending, _, hafter⟩
    · exact ⟨_, hidle, fun _ _ => rfl⟩
    · refine ⟨_, hafter, fun other hother => LockTable.getElem?_locks_advance _ _ ?_⟩
      exact hpage request hpending ▸ hother.symm
  · rcases threads.expire_cases txn with hidle | ⟨_, request, _, hpending, hafter⟩
    · exact ⟨_, hidle, fun _ _ => rfl⟩
    · refine ⟨_, hafter, fun other hother => LockTable.getElem?_locks_expire _ _ ?_⟩
      exact hpage request hpending ▸ hother.symm

/-- A page that cannot be spared stays in the cache, with its frame, whatever move is made that
drops no page. -/
theorem keeps_unspared (hopened : db.Opened) (hschedule : Schedule ⟨{ db }, ∅⟩ history threads)
    (hallows : threads.Allows move) (hdrops : move.drops = false) {ref : FrameRef}
    (hshows : threads.session.db.cache.Shows ref) (hkept : ¬ threads.session.db.Spare ref.page) :
    (Turn.after ⟨threads, move⟩).session.db.cache.Shows ref := by
  have heffect := (hschedule.orderly (.of_opened hopened)).effect hallows
  refine heffect.shows_of_strides hdrops hshows ?_
  intro actor operation stage stride after _ hwaiting hstage hstrides
  refine hstrides.shows_of_stays (hschedule.fits hopened hwaiting hstage) ?_ hshows
  exact fun _ found hevicted => hkept (Database.spare_of_evicted hevicted)

/-- A page stays in the cache, with its frame, unless a move drops it or a fetch finds the cache
full. -/
theorem keeps_unless_full (hopened : db.Opened)
    (hschedule : Schedule ⟨{ db }, ∅⟩ history threads) (hallows : threads.Allows move)
    (hdrops : move.drops = false) {ref : FrameRef} (hshows : threads.session.db.cache.Shows ref)
    (hroom : ∀ txn operation, move = .stride txn → ¬ threads.FindsFull txn operation) :
    (Turn.after ⟨threads, move⟩).session.db.cache.Shows ref := by
  by_cases hmove : ∀ txn, move ≠ .stride txn
  · have heffect := (hschedule.orderly (.of_opened hopened)).effect hallows
    exact heffect.shows_of_strides hdrops hshows fun txn _ _ _ _ hstride =>
      absurd hstride (hmove txn)
  · obtain ⟨txn, rfl⟩ : ∃ txn, move = .stride txn := by simpa using hmove
    rcases (hschedule.orderly (.of_opened hopened)).stride_cases txn with
      ⟨_, hidle⟩ | ⟨operation, stage, hwaiting, hstage, hready, hfits, hafter⟩
    · simp only [Turn.after, Threads.make, hidle]
      exact hshows
    · simp only [Turn.after, Threads.make, hafter]
      by_cases hlocked : stage = .locked
      · subst hlocked
        exact Database.stride_shows_of_room txn hshows fun hfull =>
          hroom txn operation rfl ⟨hwaiting, hstage, hfull⟩
      · exact (Database.stride_strides hready stage).shows_of_stays hfits
          (fun h => absurd h hlocked) hshows

/-- Whatever threads have done, a fetch that finds its page missing and the cache full evicts one
page if some page can be spared: of those the one that was fetched the longest time ago. This page
leaves with its stamp and its lock, a place is reserved, and nothing else changes. If no page can be
spared, the fetch is refused since the cache is full, and nothing changes. Getting the lock of its
page before has changed nothing but this lock, the wait-for graph, and the pending requests. No
other move takes a page out of the cache, unless it drops one, and none takes out a page that has
unwritten changes, or that a transaction has locked or waits for. -/
theorem evicts_least_recent (hopened : db.Opened)
    (hschedule : Schedule ⟨{ db }, ∅⟩ history threads) :
    let before := threads.session.db
    (∀ (txn : TxnId) (operation : Operation), threads.FindsFull txn operation →
      let turn : Turn := ⟨threads, .stride txn⟩
      ((∃ page, before.Spare page) →
        ∃ victim resident, before.cache.frames[victim]? = some resident ∧
          before.LeastRecent (fetchedIn history) victim ∧
          turn.after.session.db = (before.without victim resident).reserving) ∧
      ((∀ page, ¬ before.Spare page) →
        turn.reply = .answered (operation.refuse .cacheFull) ∧
          turn.after.session.db = before)) ∧
    (∀ (txn : TxnId) (operation : Operation) (move : Move),
      threads.session.waiting[txn]? = some operation →
      move = .submit txn ∨ move = .advance txn ∨ move = .expire txn →
      ∃ locks, (Turn.after ⟨threads, move⟩).session.db = { before with locks } ∧
        ∀ other, other ≠ operation.demand.1 → locks.locks[other]? = before.locks.locks[other]?) ∧
    ∀ move, threads.Allows move → move.drops = false →
      ∀ (page : PageId) (resident : Resident), before.cache.frames[page]? = some resident →
        before.cache.isDirty page = true ∨ before.locks.InUse page ∨
          (∀ txn operation, move = .stride txn → ¬ threads.FindsFull txn operation) →
        ∃ kept, (Turn.after ⟨threads, move⟩).session.db.cache.frames[page]? = some kept ∧
          kept.serial = resident.serial := by
  refine ⟨fun txn operation hfinds => ?_, fun _ _ _ hwaiting hmove =>
    hschedule.requests hopened hwaiting hmove, fun move hallows hdrops page resident hframe => ?_⟩
  · rcases hschedule.evicts hopened hfinds with
      ⟨victim, resident, hframe, holdest, hafter⟩ | ⟨hnone, hafter, hreply⟩
    · exact ⟨fun _ => ⟨victim, resident, hframe, holdest, hafter⟩,
        fun hnone => absurd holdest.spare (hnone victim)⟩
    · exact ⟨fun ⟨page, hspare⟩ => absurd hspare (hnone page), fun _ => ⟨hreply, hafter⟩⟩
  · intro hkept
    have hshows : threads.session.db.cache.Shows ⟨page, resident.serial⟩ := ⟨resident, hframe, rfl⟩
    rcases or_assoc.mpr hkept with hkept | hroom
    · exact hschedule.keeps_unspared hopened hallows hdrops hshows
        (Database.not_spare (hschedule.made hopened) hkept)
    · exact hschedule.keeps_unless_full hopened hallows hdrops hshows hroom

/-- Two pages are put into the cache, the first of them is read again, and a third page is asked
for. -/
def readFirstAgain : List Move :=
  [.begin ⟨1⟩ (.insert ⟨1⟩ (Session.sampleRow 7)), .submit ⟨1⟩, .stride ⟨1⟩, .stride ⟨1⟩,
    .stride ⟨1⟩, .stride ⟨1⟩, .stride ⟨1⟩, .complete ⟨1⟩ true,
    .begin ⟨2⟩ (.insert ⟨2⟩ (Session.sampleRow 9)), .submit ⟨2⟩, .stride ⟨2⟩, .stride ⟨2⟩,
    .stride ⟨2⟩, .stride ⟨2⟩, .stride ⟨2⟩, .complete ⟨2⟩ true,
    .begin ⟨3⟩ (.getPage ⟨⟨1⟩, 0⟩ .shared), .submit ⟨3⟩, .stride ⟨3⟩, .stride ⟨3⟩, .stride ⟨3⟩,
    .complete ⟨3⟩ true, .begin ⟨4⟩ (.getPage ⟨⟨2⟩, 1⟩ .shared), .submit ⟨4⟩]

/-- Threads on a small database with room for two pages in its cache. -/
def roomForTwo : Threads :=
  ⟨{ db := (Session.sampleTables "a.dat" "b.dat").withCapacity 2 }, ∅⟩

/-- These threads when the first page was read again. -/
def firstReadAgain : Threads :=
  roomForTwo.makeEach readFirstAgain

/-- Both pages in the cache can be spared, and the second one is evicted with its lock, since the
first one was read after it. -/
theorem evicts_least_recent_second :
    firstReadAgain.session.db.Spare ⟨⟨1⟩, 0⟩ ∧
      firstReadAgain.session.db.LeastRecent [⟨⟨1⟩, 0⟩, ⟨⟨2⟩, 0⟩, ⟨⟨1⟩, 0⟩] ⟨⟨2⟩, 0⟩ ∧
      ∃ resident,
        firstReadAgain.session.db.cache.frames[(⟨⟨2⟩, 0⟩ : PageId)]? = some resident ∧
        (Turn.after ⟨firstReadAgain, .stride ⟨4⟩⟩).session.db =
          (firstReadAgain.session.db.without ⟨⟨2⟩, 0⟩ resident).reserving := by
  have hopened := (Session.sampleTables_opened "a.dat" "b.dat").withCapacity
    (by decide : (2 : Nat) ≠ 0)
  have hschedule : Schedule roomForTwo (roomForTwo.turns readFirstAgain) firstReadAgain :=
    Schedule.of_moves .start (by decide +kernel : roomForTwo.AllowsEach readFirstAgain)
  have hfull : firstReadAgain.FindsFull ⟨4⟩ (.getPage ⟨⟨2⟩, 1⟩ .shared) :=
    ⟨by decide +kernel, by decide +kernel, by decide +kernel, by decide +kernel⟩
  have hspare : firstReadAgain.session.db.Spare ⟨⟨1⟩, 0⟩ :=
    Database.isEvictable_iff.mp (by decide +kernel)
  obtain ⟨hevicts, _⟩ := evicts_least_recent hopened hschedule
  obtain ⟨victim, resident, hframe, holdest, hafter⟩ := (hevicts ⟨4⟩ _ hfull).1 ⟨⟨⟨1⟩, 0⟩, hspare⟩
  have hfetched : fetchedIn (roomForTwo.turns readFirstAgain) =
      [⟨⟨1⟩, 0⟩, ⟨⟨2⟩, 0⟩, ⟨⟨1⟩, 0⟩] := by decide +kernel
  have hgone : (Turn.after ⟨firstReadAgain, .stride ⟨4⟩⟩).session.db.cache.frames.contains
      ⟨⟨2⟩, 0⟩ = false := by decide +kernel
  have hstood : firstReadAgain.session.db.cache.frames.contains ⟨⟨2⟩, 0⟩ = true := by
    decide +kernel
  -- Of the two pages the victim is the one that is in the cache no more.
  obtain rfl : victim = ⟨⟨2⟩, 0⟩ := by
    refine Decidable.byContradiction fun hother => ?_
    rw [hafter] at hgone
    have hkept := firstReadAgain.session.db.contains_frames_without resident hother
    rw [hstood] at hkept
    exact Bool.noConfusion (hgone.symm.trans hkept)
  rw [hfetched] at holdest
  exact ⟨hspare, holdest, resident, hframe, hafter⟩

end Schedule

end RowStore
