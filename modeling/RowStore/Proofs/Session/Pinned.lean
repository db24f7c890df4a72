import RowStore.Proofs.Cache.Reference
import RowStore.Proofs.Session.Accounted

/-!
# A lock pins its page

An eviction looks at the changes of a page and at its lock, and never at those who were given its
frame. All the same, from the moment that an access hands out the frame of a page until its
transaction gives up the lock, the frame stays in the cache, whatever other threads fetch and evict
in the meantime, and every other access to the page hands out the same frame: `lock_pins_page`. So
all who hold the page read and change one copy of it.
-/

namespace RowStore

/-- The frame that a fetch has come to. -/
def Stage.ref? : Stage → Option FrameRef
  | fetched ref | reached ref => some ref
  | locked | reserved | read _ => none

/-- The move drops pages from the cache without writing them. -/
def Move.drops : Move → Bool
  | .discardPage _ | .discardTable _ => true
  | _ => false

/-- A page that is not evicted keeps its frame through the stride of a fetch, which evicts one only
before it has a place reserved. -/
theorem Strides.shows_of_stays {txn : TxnId} {operation : Operation} {stage : Stage}
    {stride : Stride} {db after : Database} {ref : FrameRef}
    (hstrides : Strides txn operation db stage stride after) (hfits : stage.Fits operation.demand.1)
    (hstays : stage = .locked → ∀ resident, ¬ Evicted db ref.page resident)
    (hshows : db.cache.Shows ref) : after.cache.Shows ref := by
  cases hstrides with
  | full | present | reserves | reads | fails | finds => exact hshows
  | @evicts victim resident hevicted =>
      obtain ⟨found, hfound, hserial⟩ := hshows
      refine ⟨found, ?_, hserial⟩
      show (db.cache.remove victim).frames[ref.page]? = some found
      rw [Cache.frames_remove, if_neg, hfound]
      rintro rfl
      exact hstays rfl resident hevicted
  | @installs heapPage origin habsent =>
      obtain ⟨found, hfound, hserial⟩ := hshows
      refine ⟨found, ?_, hserial⟩
      have hid : heapPage.id = operation.demand.1 := hfits
      show (Cache.add _ heapPage origin).frames[ref.page]? = some found
      rw [Cache.frames_add, if_neg]
      · exact hfound
      · rw [hid]
        intro hsame
        rw [hsame, hfound] at habsent
        simp at habsent
  | notes => rwa [Database.cache_noteFor]
  | handles hhandles =>
      cases hhandles with
      | looks => exact hshows
      | changes => exact Cache.shows_putFrame.mpr hshows

/-- A page that somebody holds keeps its frame through the stride of a fetch. -/
theorem Strides.shows {txn holder : TxnId} {operation : Operation} {stage : Stage}
    {stride : Stride} {db after : Database} {ref : FrameRef} {mode : LockMode}
    (hstrides : Strides txn operation db stage stride after) (hfits : stage.Fits operation.demand.1)
    (hholds : (db.locks.lockOf ref.page).holds holder mode = true) (hshows : db.cache.Shows ref) :
    after.cache.Shows ref := by
  refine hstrides.shows_of_stays hfits (fun _ resident hevicted => ?_) hshows
  rw [LockState.holds_of_isIdle hevicted.idle] at hholds
  simp at hholds

/-- A fetch comes to the frame that its page has in the cache, or stays with the one that it has come
to. -/
theorem Strides.comes_to_frame {txn : TxnId} {operation : Operation} {stage next : Stage}
    {db after : Database} {ref : FrameRef}
    (hstrides : Strides txn operation db stage (.stands next) after)
    (hfits : stage.Fits operation.demand.1) (href : next.ref? = some ref) :
    after.cache.Shows ref ∨ stage.ref? = some ref ∧ after.cache = db.cache := by
  cases hstrides with
  | reserves | evicts | reads => simp [Stage.ref?] at href
  | present hframe | finds hframe =>
      rw [← Option.some.inj href]
      exact .inl ⟨_, hframe, rfl⟩
  | @installs heapPage origin _ =>
      have hid : heapPage.id = operation.demand.1 := hfits
      rw [← Option.some.inj href]
      refine .inl ⟨⟨⟨heapPage, none⟩, db.cache.nextSerial, origin⟩, ?_, rfl⟩
      show (Cache.add _ heapPage origin).frames[operation.demand.1]? = _
      rw [Cache.frames_add, if_pos hid]
  | notes => exact .inr ⟨href, Database.cache_noteFor ..⟩

/-- Where the fetch of a transaction is after a move: where it was, at its start, or where its
stride has taken it. -/
theorem MoveEffect.stage_cases {before after : Threads} {move : Move}
    (heffect : MoveEffect before move after) {txn : TxnId} {stage : Stage}
    (hstage : after.stages[txn]? = some stage) :
    before.stages[txn]? = some stage ∨ stage = .locked ∨
      ∃ operation earlier, move = .stride txn ∧ before.session.waiting[txn]? = some operation ∧
        before.stages[txn]? = some earlier ∧
        Strides txn operation before.session.db earlier (.stands stage) after.session.db := by
  have hrested : ∀ (actor : TxnId) (progress : Progress) (db : Database),
      (before.rest actor progress db).2.stages[txn]? = some stage →
      before.stages[txn]? = some stage := by
    intro actor progress db hafter
    rw [Threads.stages_rest, Std.ExtTreeMap.getElem?_erase] at hafter
    split at hafter
    · simp at hafter
    · exact hafter
  cases heffect with
  | quiet | asks | releases | writes | flushes | discards | changesCatalog | completes =>
      exact .inl hstage
  | begins | refused | leaves => exact .inl (hrested _ _ _ hstage)
  | granted =>
      rw [Threads.stages_stand, Std.ExtTreeMap.getElem?_insert] at hstage
      split at hstage
      · exact .inr (.inl (Option.some.inj hstage).symm)
      · exact .inl hstage
  | @stands actor operation earlier next db hwaiting hbefore _ hstrides =>
      rw [Threads.stages_stand, Std.ExtTreeMap.getElem?_insert] at hstage
      split at hstage
      · rename_i hactor
        obtain rfl := Std.compare_eq_iff_eq.mp hactor
        obtain rfl := Option.some.inj hstage
        exact .inr (.inr ⟨operation, earlier, rfl, hwaiting, hbefore, hstrides⟩)
      · exact .inl hstage

/-- What holds of a cache is kept by a move, if it is kept when a frame gets other contents, when a
page is removed by a move that drops pages, and by the stride that the move may be. -/
theorem MoveEffect.keeps_cache {before after : Threads} {move : Move}
    (heffect : MoveEffect before move after) (holds : Cache → Prop)
    (hset : ∀ (cache : Cache) (page : PageId) (frame : Frame), holds cache →
      holds (cache.setFrame page frame))
    (hput : ∀ (cache : Cache) (ref : FrameRef) (frame : Frame), holds cache →
      holds (cache.putFrame ref frame))
    (hremove : move.drops = true → ∀ (cache : Cache) (page : PageId), holds cache →
      holds (cache.remove page))
    (hstride : ∀ (txn : TxnId) (operation : Operation) (stage : Stage) (stride : Stride)
      (db : Database), move = .stride txn → before.session.waiting[txn]? = some operation →
      before.stages[txn]? = some stage →
      Strides txn operation before.session.db stage stride db → holds db.cache)
    (hbefore : holds before.session.db.cache) : holds after.session.db.cache := by
  cases heffect with
  | quiet | asks | granted | releases | changesCatalog => exact hbefore
  | begins | refused => rwa [Threads.db_rest]
  | stands hwaiting hstage _ hstrides => exact hstride _ _ _ _ _ rfl hwaiting hstage hstrides
  | leaves hwaiting hstage _ hstrides =>
      rw [Threads.db_rest]
      exact hstride _ _ _ _ _ rfl hwaiting hstage hstrides
  | @completes txn commits =>
      obtain ⟨hcommit, habort⟩ := Database.complete_preserves_cache
        (fun cache page _ frame _ _ _ h => hset cache page frame h) before.session.db txn hbefore
      cases commits with
      | true => exact hcommit
      | false => exact habort
  | writes => exact hput _ _ _ hbefore
  | flushes pages =>
      exact Database.flushEach_preserves_cache
        (fun cache page _ frame _ _ _ h => hset cache page frame h) _ pages hbefore
  | discards pages hdrops =>
      have hdrops : move.drops = true := by
        rcases hdrops with ⟨page, rfl⟩ | ⟨table, rfl⟩ <;> rfl
      show holds (pages.foldl Cache.remove before.session.db.cache)
      generalize before.session.db.cache = cache at hbefore
      induction pages generalizing cache with
      | nil => exact hbefore
      | cons page rest ih => exact ih (cache.remove page) (hremove hdrops cache page hbefore)

/-- A page keeps its frame through a move that drops none, if it keeps it through the stride that
the move may be. -/
theorem MoveEffect.shows_of_strides {before after : Threads} {move : Move} {ref : FrameRef}
    (heffect : MoveEffect before move after) (hkeeps : move.drops = false)
    (hshows : before.session.db.cache.Shows ref)
    (hstride : ∀ (txn : TxnId) (operation : Operation) (stage : Stage) (stride : Stride)
      (db : Database), move = .stride txn → before.session.waiting[txn]? = some operation →
      before.stages[txn]? = some stage →
      Strides txn operation before.session.db stage stride db → db.cache.Shows ref) :
    after.session.db.cache.Shows ref := by
  refine heffect.keeps_cache (fun cache => cache.Shows ref) ?_ ?_ ?_ hstride hshows
  · exact fun _ _ _ => Cache.shows_setFrame.mpr
  · exact fun _ _ _ => Cache.shows_putFrame.mpr
  · exact fun hdrops => absurd (hkeeps.symm.trans hdrops) Bool.false_ne_true

/-- A page that somebody holds keeps its frame through every move that drops none. -/
theorem MoveEffect.shows {before after : Threads} {move : Move} {holder : TxnId} {ref : FrameRef}
    {mode : LockMode} (heffect : MoveEffect before move after) (horderly : before.Orderly)
    (hkeeps : move.drops = false)
    (hholds : (before.session.db.locks.lockOf ref.page).holds holder mode = true)
    (hshows : before.session.db.cache.Shows ref) : after.session.db.cache.Shows ref := by
  refine heffect.shows_of_strides hkeeps hshows ?_
  intro txn operation stage stride db _ hwaiting hstage hstrides
  exact hstrides.shows (horderly.fits hwaiting hstage) hholds hshows

namespace Threads

/-- Every fetch that has come to a frame has come to the one that its page has in the cache. -/
def Pinned (threads : Threads) : Prop :=
  ∀ (txn : TxnId) (stage : Stage) (ref : FrameRef), threads.stages[txn]? = some stage →
    stage.ref? = some ref → threads.session.db.cache.Shows ref

variable {threads after : Threads} {txn : TxnId} {stage : Stage} {ref : FrameRef}

/-- Whoever has come to the frame of a page holds the page. -/
theorem Orderly.holds_of_ref (horderly : threads.Orderly)
    (hstage : threads.stages[txn]? = some stage) (href : stage.ref? = some ref) :
    ∃ mode, (threads.session.db.locks.lockOf ref.page).holds txn mode = true := by
  have hstanding := horderly.standing txn
  rw [hstage] at hstanding
  obtain ⟨operation, _, _, _, hholds, hfits⟩ := hstanding.of_stage
  cases stage with
  | locked | reserved | read => simp [Stage.ref?] at href
  | fetched found | reached found =>
      obtain rfl := Option.some.inj href
      have hpage : found.page = operation.demand.1 := hfits
      exact ⟨operation.demand.2, hpage ▸ hholds⟩

/-- Every move that drops no page leaves the fetches at the frames of their pages. -/
theorem Pinned.of_effect (hpinned : threads.Pinned) (horderly : threads.Orderly) {move : Move}
    (hkeeps : move.drops = false) (heffect : MoveEffect threads move after) : after.Pinned := by
  intro txn stage ref hstage href
  rcases heffect.stage_cases hstage with hbefore | rfl |
    ⟨operation, earlier, _, hwaiting, hbefore, hstrides⟩
  · obtain ⟨mode, hholds⟩ := horderly.holds_of_ref hbefore href
    exact heffect.shows horderly hkeeps hholds (hpinned txn stage ref hbefore href)
  · simp [Stage.ref?] at href
  · rcases hstrides.comes_to_frame (horderly.fits hwaiting hbefore) href with
      hshows | ⟨hfound, hsame⟩
    · exact hshows
    · rw [hsame]
      exact hpinned txn earlier ref hbefore hfound

end Threads

/-- An access hands out the frame that it has come to. -/
theorem Turn.stage_of_handsOut {turn : Turn} {txn : TxnId} {ref : FrameRef}
    (hout : turn.handsOut = some (txn, ref)) :
    turn.move = .stride txn ∧ turn.threads.stages[txn]? = some (.fetched ref) := by
  simp only [handsOut] at hout
  split at hout
  · rename_i actor hmove
    split at hout
    · rename_i found hstage
      simp only [Option.some.injEq, Prod.mk.injEq] at hout
      obtain ⟨rfl, rfl⟩ := hout
      exact ⟨hmove, hstage⟩
    · simp at hout
  · simp at hout

/-- An access hands out the frame that its page has in the cache, to a transaction that holds the
page. -/
theorem Turn.handsOut_shows {turn : Turn} {txn : TxnId} {ref : FrameRef}
    (hpinned : turn.threads.Pinned) (hout : turn.handsOut = some (txn, ref)) :
    turn.threads.session.db.cache.Shows ref ∧ turn.move.drops = false ∧
      ∃ stage, turn.threads.stages[txn]? = some stage ∧ stage.ref? = some ref := by
  obtain ⟨hmove, hstage⟩ := Turn.stage_of_handsOut hout
  refine ⟨hpinned txn _ ref hstage rfl, ?_, _, hstage, rfl⟩
  rw [hmove]
  rfl

/-- What an operation is refused with is no frame. -/
theorem Operation.refuse_ne_page (operation : Operation) (error : Error) (ref : FrameRef) :
    operation.refuse error ≠ .ok (.page ref) := by
  cases operation <;> simp [refuse]

theorem Database.continueWalk_ne_page (db : Database) (walk : Walk) (ref : FrameRef) :
    db.continueWalk walk ≠ .ended (.ok (.page ref)) := by
  simp only [continueWalk]
  split <;> simp

/-- A call that begins does not end with a frame. -/
theorem Database.begin_ne_page (db : Database) (txn : TxnId) (call : Call) (ref : FrameRef) :
    (db.begin txn call).1 ≠ .ended (.ok (.page ref)) := by
  cases call with
  | getPage => simp [begin]
  | insert table row =>
      simp only [begin, beginInsert, beginInsertInto, probeAt, growFor]
      split
      · simp
      · split
        · simp
        · split <;> simp
  | delete row =>
      simp only [begin, beginDelete, beginDeleteFrom]
      repeat' split
      all_goals simp
  | scan table budget =>
      simp only [begin]
      split
      · simp
      · exact db.continueWalk_ne_page _ _
  | walk cursor budget => exact db.continueWalk_ne_page _ _

/-- An operation ends with no other frame than the one that it has come to. -/
theorem Database.proceedFrom_eq_page {db : Database} {txn : TxnId} {operation : Operation}
    {found ref : FrameRef}
    (hended : (db.proceedFrom txn found operation).1 = .ended (.ok (.page ref))) : found = ref := by
  have hgrow : ∀ (db : Database) (heap : HeapFile) (row : Row) (number count : Nat),
      (db.probeAt txn heap row number count).1 ≠ .ended (.ok (.page ref)) := by
    intro db heap row number count
    simp only [probeAt, growFor]
    split <;> simp
  cases operation with
  | getPage => simpa [proceedFrom] using hended
  | insert heap row point =>
      cases point with
      | probe =>
          simp only [proceedFrom] at hended
          split at hended
          · simp at hended
          · exact absurd hended (hgrow _ _ _ _ _)
      | escalate | grow =>
          simp only [proceedFrom, growFor] at hended
          split at hended
          · simp at hended
          · simp_all
          · simp at hended
  | delete =>
      simp only [proceedFrom] at hended
      split at hended <;> simp at hended
  | scan walk =>
      have hrefuse := (Operation.scan walk).refuse_ne_page
      have hscan := db.continueWalk_ne_page
      simp only [proceedFrom] at hended
      repeat' split at hended
      all_goals simp_all

/-- An operation that leaves its page with a frame has come to that frame. -/
theorem Database.stride_eq_page {db : Database} {txn : TxnId} {operation : Operation}
    {stage : Stage} {ref : FrameRef}
    (hleaves : (db.stride txn operation stage).1 = .leaves (.ended (.ok (.page ref)))) :
    stage = .reached ref := by
  have hrefuse := operation.refuse_ne_page
  cases stage with
  | locked | read =>
      simp only [stride] at hleaves
      split at hleaves <;> simp_all
  | reserved | fetched => simp [stride] at hleaves
  | reached found =>
      simp only [stride, Stride.leaves.injEq] at hleaves
      rw [Database.proceedFrom_eq_page hleaves]

/-- A call is answered with the frame that its access has come to. -/
theorem Turn.answers_with_frame {turn : Turn} {ref : FrameRef}
    (hreply : turn.reply = .answered (.ok (.page ref))) :
    ∃ txn, turn.move = .stride txn ∧ turn.threads.stages[txn]? = some (.reached ref) := by
  have hrest : ∀ (txn : TxnId) (progress : Progress) (db : Database),
      (turn.threads.rest txn progress db).1 = .answered (.ok (.page ref)) →
      progress = .ended (.ok (.page ref)) := by
    intro txn progress db h
    cases progress <;> simp_all [Threads.rest, Session.rest, Session.note, Database.runFor]
  have hrefuse := fun operation error => Operation.refuse_ne_page operation error ref
  simp only [reply] at hreply
  cases hmove : turn.move with
  | begin txn call =>
      rw [hmove] at hreply
      exact absurd (hrest _ _ _ hreply) (Database.begin_ne_page _ _ _ _)
  | stride txn =>
      rw [hmove] at hreply
      simp only [Threads.make, Threads.stride] at hreply
      split at hreply
      · rename_i operation stage hwaiting hstage
        split at hreply
        · simp at hreply
        · rename_i progress db hleaves
          rw [hrest _ _ _ hreply] at hleaves
          rw [← Database.stride_eq_page (congrArg Prod.fst hleaves)]
          exact ⟨txn, rfl, hstage⟩
      · simp at hreply
  | submit txn =>
      rw [hmove] at hreply
      simp only [Threads.make, Threads.submit] at hreply
      repeat' split at hreply
      all_goals simp at hreply
  | advance txn | expire txn =>
      rw [hmove] at hreply
      simp only [Threads.make, Threads.advance, Threads.expire] at hreply
      repeat' split at hreply
      all_goals first
        | exact absurd (hrest _ _ _ hreply) (by simp [hrefuse])
        | simp at hreply
  | complete | release | write | flushPage | flushOf | flushAll | discardPage | discardTable
  | changeCatalog =>
      rw [hmove] at hreply
      simp [Threads.make] at hreply

/-- A transaction is given the frame in the turn: an access to its page hands it out, or a call is
answered with it. -/
def Turn.Gives (turn : Turn) (ref : FrameRef) : Prop :=
  (∃ txn, turn.handsOut = some (txn, ref)) ∨ turn.reply = .answered (.ok (.page ref))

/-- Whoever is given a frame is given the one that its page has in the cache. -/
theorem Turn.Gives.shows {turn : Turn} {ref : FrameRef} (hgives : turn.Gives ref)
    (hpinned : turn.threads.Pinned) : turn.threads.session.db.cache.Shows ref := by
  rcases hgives with ⟨txn, hout⟩ | hreply
  · exact (Turn.handsOut_shows hpinned hout).1
  · obtain ⟨txn, _, hstage⟩ := Turn.answers_with_frame hreply
    exact hpinned txn _ ref hstage rfl

namespace Schedule

variable {db : Database} {threads : Threads} {txn : TxnId} {ref : FrameRef}

/-- Fetches come to the frames of their pages, and stay with them, as long as no page is dropped. -/
theorem pinned {history : List Turn} (hopened : db.Opened)
    (hschedule : Schedule ⟨{ db }, ∅⟩ history threads)
    (hkeeps : ∀ turn ∈ history, turn.move.drops = false) : threads.Pinned := by
  have hstart := Threads.Orderly.of_opened hopened
  induction hschedule with
  | start =>
      intro txn stage ref hstage
      simp at hstage
  | @step history threads move hschedule hallows ih =>
      have horderly := hschedule.orderly hstart
      exact (ih fun turn hturn => hkeeps turn (by simp [hturn])).of_effect horderly
        (hkeeps ⟨threads, move⟩ (by simp)) (horderly.effect hallows)

/-- What `lock_pins_page` says, of a history that is split at the turn that hands out the frame. -/
theorem pins (hopened : db.Opened) {history : List Turn}
    (hschedule : Schedule ⟨{ db }, ∅⟩ history threads)
    (hkeeps : ∀ turn ∈ history, turn.move.drops = false) :
    ∀ {earlier later : List Turn} {first : Turn}, history = earlier ++ first :: later →
      first.handsOut = some (txn, ref) →
      (∀ turn ∈ first :: later,
        turn.after.session.db.locks.holdsLock txn ref.page = true) →
      threads.session.db.cache.Shows ref ∧
        ∀ turn ∈ first :: later, ∀ found : FrameRef, turn.Gives found →
          found.page = ref.page → found = ref := by
  have hstart := Threads.Orderly.of_opened hopened
  induction hschedule with
  | start => simp
  | @step history threads move hschedule hallows ih =>
      intro earlier later first hhistory hout hholds
      have horderly := hschedule.orderly hstart
      have heffect := horderly.effect hallows
      have hbefore : ∀ turn ∈ history, turn.move.drops = false :=
        fun turn hturn => hkeeps turn (by simp [hturn])
      have hpinned := hschedule.pinned hopened hbefore
      rcases List.eq_nil_or_concat later with rfl | ⟨shorter, last, rfl⟩
      · -- The turn has just handed out the frame, which its transaction holds already.
        obtain ⟨rfl, hfirst⟩ := List.append_inj' hhistory rfl
        rw [List.singleton_inj] at hfirst
        subst hfirst
        obtain ⟨hshows, hdrops, stage, hstage, href⟩ := Turn.handsOut_shows hpinned hout
        obtain ⟨mode, hheld⟩ := horderly.holds_of_ref hstage href
        refine ⟨heffect.shows horderly hdrops hheld hshows, ?_⟩
        intro turn hturn found hgives hpage
        rw [List.mem_singleton.mp hturn] at hgives
        exact hshows.unique (hgives.shows hpinned) hpage
      · have hsplit : history ++ [⟨threads, move⟩] = (earlier ++ first :: shorter) ++ [last] := by
          simpa using hhistory
        obtain ⟨rfl, hlast⟩ := List.append_inj' hsplit rfl
        rw [List.singleton_inj] at hlast
        subst hlast
        have hshorter : ∀ turn ∈ first :: shorter,
            turn.after.session.db.locks.holdsLock txn ref.page = true := by
          intro turn hturn
          refine hholds turn ?_
          rw [List.concat_eq_append, ← List.cons_append]
          exact List.mem_append_left _ hturn
        obtain ⟨hshows, hsame⟩ := ih hbefore rfl hout hshorter
        have hheld := hschedule.holds_at_end
          (fun threads => threads.session.db.locks.holdsLock txn ref.page = true) hshorter
        refine ⟨heffect.shows horderly (hkeeps ⟨threads, move⟩ (by simp)) hheld hshows, ?_⟩
        intro turn hturn found hgives hpage
        rw [List.concat_eq_append, ← List.cons_append, List.mem_append,
          List.mem_singleton] at hturn
        rcases hturn with hturn | rfl
        · exact hsame turn hturn found hgives hpage
        · exact hshows.unique (hgives.shows hpinned) hpage

/-- From the turn on in which an access hands out the frame of a page, for as long as its
transaction holds the page, the page is in the cache, the frame handed out is the one that it has
there, and whoever is given a frame of the page is given that one, whatever else threads fetch and
evict. -/
theorem lock_pins_page (hopened : db.Opened) {earlier later : List Turn} {first : Turn}
    (hschedule : Schedule ⟨{ db }, ∅⟩ (earlier ++ first :: later) threads)
    (hkeeps : ∀ turn ∈ earlier ++ first :: later, turn.move.drops = false)
    (hout : first.handsOut = some (txn, ref))
    (hholds : ∀ turn ∈ first :: later,
      turn.after.session.db.locks.holdsLock txn ref.page = true) :
    (∃ resident, threads.session.db.cache.frames[ref.page]? = some resident ∧
      resident.serial = ref.serial ∧
      threads.session.db.frame? ref = some resident.toFrame) ∧
    ∀ turn ∈ first :: later, ∀ found : FrameRef, turn.Gives found →
      found.page = ref.page → found = ref := by
  obtain ⟨hshows, hsame⟩ := hschedule.pins hopened hkeeps rfl hout hholds
  obtain ⟨resident, hframe, hserial⟩ := hshows
  refine ⟨⟨resident, hframe, hserial, ?_⟩, hsame⟩
  simp only [Database.frame?, Cache.frame?, hframe, if_pos hserial]

/-- Two transactions read a page at the same time, one of them installs it and is handed its
frame. -/
def readTogether : List Move :=
  [.begin ⟨1⟩ (.insert ⟨1⟩ (Session.sampleRow 7)),
    .begin ⟨2⟩ (.getPage ⟨⟨1⟩, 0⟩ .shared), .begin ⟨3⟩ (.getPage ⟨⟨1⟩, 0⟩ .shared),
    .submit ⟨2⟩, .submit ⟨3⟩, .stride ⟨2⟩, .stride ⟨3⟩, .stride ⟨2⟩, .stride ⟨3⟩, .stride ⟨2⟩]

/-- Other pages are put into the cache and evicted, and the second reader comes to install the
page. -/
def evictBesides : List Move :=
  [.begin ⟨4⟩ (.insert ⟨2⟩ (Session.sampleRow 9)), .submit ⟨4⟩, .stride ⟨4⟩, .stride ⟨4⟩,
    .stride ⟨4⟩, .stride ⟨4⟩, .stride ⟨4⟩, .complete ⟨4⟩ true,
    .begin ⟨5⟩ (.getPage ⟨⟨2⟩, 1⟩ .shared), .submit ⟨5⟩, .stride ⟨5⟩,
    .stride ⟨3⟩, .stride ⟨3⟩, .stride ⟨3⟩]

/-- The page is read for two transactions at once, other pages are fetched, and one of them is
evicted. Both transactions are given one frame, and the page is still in the cache. -/
theorem lock_pins_page_through_eviction :
    let start : Threads :=
      ⟨{ db := (Session.sampleTables "a.dat" "b.dat").withCapacity 3 }, ∅⟩
    let first : Turn := ⟨start.makeEach readTogether, .stride ⟨2⟩⟩
    let threads := first.after.makeEach evictBesides
    first.handsOut = some (⟨2⟩, ⟨⟨⟨1⟩, 0⟩, 0⟩) ∧
      ((first.after.turns evictBesides).map Turn.reply).getLast? =
        some (.answered (.ok (.page ⟨⟨⟨1⟩, 0⟩, 0⟩))) ∧
      (first.after.turns evictBesides).any (fun turn =>
        turn.threads.session.db.cache.frames.contains ⟨⟨2⟩, 0⟩) = true ∧
      threads.session.db.cache.frames.contains ⟨⟨2⟩, 0⟩ = false ∧
      ∃ resident, threads.session.db.cache.frames[(⟨⟨1⟩, 0⟩ : PageId)]? = some resident ∧
        resident.serial = 0 := by
  intro start first threads
  have hopened := (Session.sampleTables_opened "a.dat" "b.dat").withCapacity
    (by decide : (3 : Nat) ≠ 0)
  have hschedule : Schedule start (start.turns readTogether ++
      first :: first.after.turns evictBesides) threads := by
    have hbefore := Schedule.of_moves .start
      (by decide +kernel : start.AllowsEach readTogether)
    have hafter := Schedule.of_moves
      (hbefore.step (by decide +kernel : (start.makeEach readTogether).Allows (.stride ⟨2⟩)))
      (by decide +kernel : first.after.AllowsEach evictBesides)
    simp only [List.nil_append, List.append_assoc, List.singleton_append] at hafter
    exact hafter
  have hpins := lock_pins_page hopened hschedule (by decide +kernel)
    (by decide +kernel : first.handsOut = some (⟨2⟩, ⟨⟨⟨1⟩, 0⟩, 0⟩)) (by decide +kernel)
  obtain ⟨resident, hframe, hserial, _⟩ := hpins.1
  exact ⟨by decide +kernel, by decide +kernel, by decide +kernel, by decide +kernel,
    resident, hframe, hserial⟩

end Schedule

end RowStore
