import RowStore.Proofs.Session.Standing
import RowStore.Proofs.Session.Undo

/-!
# Locks are held to the end

A transaction takes locks until it ends, and gives them up at its end. Only an insert gives a lock
back earlier, that of a page which it probes and which has no room, and which its transaction did
not hold when the insert came to it. `MoveEffect.holds_cases` says that no other move takes a hold
away from anybody, so what a transaction holds when it makes a call is still held when the call is
answered, and is held until the transaction ends: `Schedule.two_phase`. Its end leaves it no hold,
no edge and no before-image, and leaves those of the others as they are, even if the end fails.
-/

namespace RowStore

/-- The transaction that makes the move. -/
def Move.actor? : Move → Option TxnId
  | .begin txn _ | .submit txn | .advance txn | .expire txn | .stride txn | .complete txn _
  | .release txn _ | .write txn _ _ => some txn
  | .flushPage _ | .flushOf _ | .flushAll | .discardPage _ | .discardTable _
  | .changeCatalog _ => none

/-- The transaction that ends with the move, or gives up a lock before its end. -/
def Move.leaver? : Move → Option TxnId
  | .complete txn _ | .release txn _ => some txn
  | _ => none

theorem Move.actor?_of_leaver? {move : Move} {txn : TxnId} (h : move.leaver? = some txn) :
    move.actor? = some txn := by
  cases move with
  | complete | release => exact h
  | _ => simp [leaver?] at h

/-- Nothing is left of what the transaction had while it ran. -/
structure Database.ClearOf (db : Database) (txn : TxnId) : Prop where
  holds : ∀ page mode, (db.locks.lockOf page).holds txn mode = false
  upgrading : ∀ page, txn ∉ (db.locks.lockOf page).upgrading
  edges : db.locks.graph.edgesOf txn = []
  pending : db.locks.pending[txn]? = none
  journal : db.journal[txn]? = none

/-- The transaction holds what it held, waits for what it waited for, and has the before-images
that it had. -/
structure Database.Spares (txn : TxnId) (before after : Database) : Prop where
  exclusive : ∀ page, (after.locks.lockOf page).exclusive = some txn ↔
    (before.locks.lockOf page).exclusive = some txn
  shared : ∀ page, txn ∈ (after.locks.lockOf page).shared ↔
    txn ∈ (before.locks.lockOf page).shared
  upgrading : ∀ page, txn ∈ (after.locks.lockOf page).upgrading ↔
    txn ∈ (before.locks.lockOf page).upgrading
  edges : after.locks.graph.edgesOf txn = before.locks.graph.edgesOf txn
  pending : ∀ page mode,
    (∃ asleep, after.locks.pending[txn]? = some ⟨page, mode, asleep⟩) ↔
      ∃ asleep, before.locks.pending[txn]? = some ⟨page, mode, asleep⟩
  journal : after.journal[txn]? = before.journal[txn]?

namespace Database

variable {db before : Database} {txn other : TxnId}

/-- A transaction that has ended has nothing left. -/
theorem finish_clearOf (hpending : db.locks.pending[txn]? = none) :
    (db.finish txn).ClearOf txn where
  holds page mode := by
    show ((db.locks.releaseAll txn).lockOf page).holds txn mode = false
    rw [LockTable.lockOf_releaseAll, ← Bool.not_eq_true, LockState.holds_drop]
    simp
  upgrading page := by
    show txn ∉ ((db.locks.releaseAll txn).lockOf page).upgrading
    rw [LockTable.lockOf_releaseAll, LockState.mem_upgrading_drop]
    simp
  edges := WaitGraph.edgesOf_removeAll_self
  pending := LockTable.pending_releaseAll_none hpending
  journal := Std.ExtTreeMap.getElem?_erase_self

/-- The end of a transaction spares the others. -/
theorem finish_spares (hne : txn ≠ other) (hlocks : db.locks = before.locks)
    (hjournal : db.journal[other]? = before.journal[other]?) :
    Spares other before (db.finish txn) := by
  have hlock : ∀ page, (db.finish txn).locks.lockOf page = (before.locks.lockOf page).drop txn := by
    intro page
    rw [← hlocks]
    exact LockTable.lockOf_releaseAll
  refine ⟨fun page => ?_, fun page => ?_, fun page => ?_, ?_, fun page mode => ?_, ?_⟩
  · rw [hlock, ← LockState.holds_exclusive_iff, LockState.holds_drop, and_iff_right hne,
      LockState.holds_exclusive_iff]
  · rw [hlock, LockState.mem_shared_drop, and_iff_right hne]
  · rw [hlock, LockState.mem_upgrading_drop, and_iff_right hne]
  · rw [← hlocks]
    exact WaitGraph.edgesOf_removeAll_of_ne hne
  · have hpending : (db.finish txn).locks.pending[other]? = before.locks.pending[other]?.map
        fun request => { request with
          asleep := request.asleep && !(before.locks.lockOf request.page).holds txn .shared } := by
      rw [← hlocks]
      exact Std.ExtTreeMap.getElem?_map
    rw [hpending]
    constructor
    · rintro ⟨asleep, hfound⟩
      obtain ⟨request, hrequest, hsame⟩ := Option.map_eq_some_iff.mp hfound
      obtain ⟨rfl, rfl, _⟩ := PendingRequest.mk.inj hsame
      exact ⟨request.asleep, hrequest⟩
    · rintro ⟨asleep, hfound⟩
      exact ⟨_, by rw [hfound, Option.map_some]⟩
  · exact (by simp [finish, Std.ExtTreeMap.getElem?_erase, hne] :
      (db.finish txn).journal[other]? = db.journal[other]?).trans hjournal

end Database

/-- What a transaction that ends does before its before-images are forgotten and its locks are
released leaves all locks and the before-images of the others as they are. -/
theorem Session.complete_eq (session : Session) (txn : TxnId) (commits : Bool) :
    ∃ db : Database, db.locks = session.db.locks ∧
      (∀ other, txn ≠ other → db.journal[other]? = session.db.journal[other]?) ∧
      (session.complete txn commits).2 =
        { session with db := db.finish txn, active := session.active.erase txn } := by
  cases commits with
  | true =>
      refine ⟨(session.db.flushOf txn).2, ?_, fun other hne => session.db.journal_flushOf hne, rfl⟩
      exact (Database.flushEach_undisturbed session.db _).locks
  | false =>
      refine ⟨(session.db.rollBack txn).2, ?_, fun other _ => ?_, rfl⟩
      · exact (Database.rollBack_undisturbed session.db txn).locks
      · rw [Database.journal_rollBack]

section

variable {before after : Threads} {move : Move} {txn holder : TxnId} {page : PageId}
  {mode : LockMode} {operation : Operation}

/-- What an operation does with its page takes a hold from nobody, but that it gives back a lock
that it has borrowed. -/
theorem Handles.holds_cases {ref : FrameRef} {db after : Database} {progress : Progress}
    (hhandles : Handles txn operation ref db progress after)
    (hholds : (db.locks.lockOf page).holds holder mode = true) :
    (after.locks.lockOf page).holds holder mode = true ∨
      txn = holder ∧ operation.borrowed? = some page := by
  cases hhandles with
  | changes => exact .inl hholds
  | looks hlocks =>
      rcases hlocks with rfl | ⟨hborrowed, _, rfl⟩
      · exact .inl hholds
      · by_cases hsame : txn = holder
        · by_cases hpage : operation.demand.1 = page
          · exact .inr ⟨hsame, hpage ▸ hborrowed⟩
          · rw [LockTable.lockOf_release, if_neg hpage]
            exact .inl hholds
        · exact .inl ((LockTable.Respects.of_release _ _ (Ne.symm hsame)).holds _ _ hholds)

/-- A move takes a hold from nobody, unless a transaction gives its own up or an insert gives back
a lock that it has borrowed. -/
theorem MoveEffect.holds_cases (heffect : MoveEffect before move after)
    (hholds : (before.session.db.locks.lockOf page).holds holder mode = true) :
    (after.session.db.locks.lockOf page).holds holder mode = true ∨ move.leaver? = some holder ∨
      move = .stride holder ∧ ∃ operation, before.session.waiting[holder]? = some operation ∧
        operation.borrowed? = some page := by
  cases heffect with
  | quiet | writes | discards | changesCatalog => exact .inl hholds
  | begins =>
      rw [Threads.db_rest]
      exact .inl hholds
  | asks _ _ hserves | granted _ _ hserves =>
      exact .inl (hserves.keeps _ _ _ hholds)
  | refused _ _ hserves =>
      rw [Threads.db_rest]
      exact .inl (hserves.keeps _ _ _ hholds)
  | stands _ _ _ hstrides =>
      exact .inl ((hstrides.keeps holder).2.holds _ _ hholds)
  | @leaves txn operation stage progress db hwaiting _ _ hstrides =>
      rw [Threads.db_rest]
      cases hstrides with
      | full | fails => exact .inl hholds
      | handles hhandles =>
          refine (hhandles.holds_cases hholds).imp_right fun ⟨hsame, hborrowed⟩ => .inr ?_
          subst hsame
          exact ⟨rfl, operation, hwaiting, hborrowed⟩
  | @completes txn commits =>
      by_cases hsame : txn = holder
      · subst hsame
        exact .inr (.inl rfl)
      · obtain ⟨db, hlocks, _, hafter⟩ := before.session.complete_eq txn commits
        have hfinish : (db.finish txn).locks = before.session.db.locks.releaseAll txn := by
          rw [← hlocks]
          rfl
        rw [hafter, hfinish]
        exact .inl ((LockTable.Respects.of_releaseAll _ (Ne.symm hsame)).holds _ _ hholds)
  | @releases txn released =>
      by_cases hsame : txn = holder
      · subst hsame
        exact .inr (.inl rfl)
      · exact .inl ((LockTable.Respects.of_release _ _ (Ne.symm hsame)).holds _ _ hholds)
  | flushes pages =>
      have hflushed := Database.flushEach_undisturbed before.session.db pages
      rw [Threads.db_withDb, hflushed.locks]
      exact .inl hholds

/-- An operation that has borrowed a lock after a move had borrowed it before, or its transaction
does not hold it yet. -/
theorem MoveEffect.borrowed_cases (heffect : MoveEffect before move after)
    (hwaiting : after.session.waiting[holder]? = some operation)
    (hborrowed : operation.borrowed? = some page) :
    before.session.waiting[holder]? = some operation ∨
      after.session.db.locks.holdsLock holder page = false := by
  cases heffect with
  | quiet | asks | granted | stands | releases | writes | flushes | discards | changesCatalog =>
      exact .inl hwaiting
  | completes => exact .inl hwaiting
  | @begins txn call progress storage _ _ _ _ _ hborrows =>
      rw [Threads.waiting_rest] at hwaiting
      rw [Threads.db_rest]
      split at hwaiting
      · rename_i hsame
        subst hsame
        cases progress with
        | ended => simp at hwaiting
        | needs next =>
            obtain rfl := Option.some.inj hwaiting
            exact .inr (hborrows page hborrowed)
      · exact .inl hwaiting
  | refused =>
      rw [Threads.waiting_rest] at hwaiting
      split at hwaiting
      · simp at hwaiting
      · exact .inl hwaiting
  | @leaves txn found stage progress db _ _ _ hstrides =>
      rw [Threads.waiting_rest] at hwaiting
      rw [Threads.db_rest]
      split at hwaiting
      · rename_i hsame
        subst hsame
        cases progress with
        | ended => simp at hwaiting
        | needs next =>
            obtain rfl := Option.some.inj hwaiting
            cases hstrides with
            | handles hhandles =>
                cases hhandles with
                | looks _ _ _ hborrows => exact .inr (hborrows page hborrowed)
      · exact .inl hwaiting

end

/-- A transaction has kept what it held in the lock table, and its operation has borrowed none of
these locks. -/
structure Threads.Keeps (threads : Threads) (txn : TxnId) (held : LockTable) : Prop where
  holds : ∀ page mode, (held.lockOf page).holds txn mode = true →
    (threads.session.db.locks.lockOf page).holds txn mode = true
  borrowed : ∀ operation page, threads.session.waiting[txn]? = some operation →
    operation.borrowed? = some page → held.holdsLock txn page = false

/-- Every move lets a transaction keep what it held that does not give it up. -/
theorem Threads.Keeps.of_effect {before after : Threads} {move : Move} {txn : TxnId}
    {held : LockTable} (hkeeps : before.Keeps txn held) (heffect : MoveEffect before move after)
    (hends : move.leaver? ≠ some txn) : after.Keeps txn held := by
  have hholds : ∀ page mode, (held.lockOf page).holds txn mode = true →
      (after.session.db.locks.lockOf page).holds txn mode = true := by
    intro page mode hheld
    rcases heffect.holds_cases (hkeeps.holds page mode hheld) with
      hkept | hgives | ⟨_, operation, hwaiting, hborrowed⟩
    · exact hkept
    · exact absurd hgives hends
    · have hfree := hkeeps.borrowed operation page hwaiting hborrowed
      rw [LockTable.holdsLock, LockState.holds_shared_of_holds hheld] at hfree
      exact Bool.noConfusion hfree
  refine ⟨hholds, fun operation page hwaiting hborrowed => ?_⟩
  rcases heffect.borrowed_cases hwaiting hborrowed with hbefore | hfree
  · exact hkeeps.borrowed operation page hbefore hborrowed
  · rw [← Bool.not_eq_true] at hfree ⊢
    exact fun hheld => hfree (hholds page .shared hheld)

namespace Schedule

variable {start threads : Threads} {history : List Turn}

/-- As long as a transaction does not give it up, it keeps what it held. -/
theorem keeps {txn : TxnId} {held : LockTable} (hstart : start.Orderly)
    (hkeeps : start.Keeps txn held) (hschedule : Schedule start history threads)
    (hends : ∀ turn ∈ history, turn.move.leaver? ≠ some txn) : threads.Keeps txn held := by
  induction hschedule with
  | start => exact hkeeps
  | @step history threads move hschedule hallows ih =>
      have heffect := (hschedule.orderly hstart).effect hallows
      exact (ih fun turn hturn => hends turn (List.mem_append_left _ hturn)).of_effect heffect
        (hends ⟨threads, move⟩ (by simp))

/-- Locks are held to the end. Whatever order the threads make their moves in, no move takes a hold
from a transaction but one of its own. What a transaction holds when none of its calls is
outstanding, it holds at any later time, whatever its calls have come to, unless it has ended or
has given a lock up itself. And its end, whether it commits or aborts and whether or not it fails,
leaves nothing of it, and spares the others. -/
theorem two_phase {db : Database} (hopened : db.Opened)
    (hschedule : Schedule ⟨{ db }, ∅⟩ history threads) :
    (∀ turn ∈ history, ∀ holder, turn.move.actor? ≠ some holder → ∀ page mode,
      (turn.threads.session.db.locks.lockOf page).holds holder mode = true →
      (turn.after.session.db.locks.lockOf page).holds holder mode = true) ∧
    (∀ earlier first later txn, history = earlier ++ first :: later →
      first.threads.session.waiting[txn]? = none →
      (∀ turn ∈ first :: later, turn.move.leaver? ≠ some txn) → ∀ page mode,
      (first.threads.session.db.locks.lockOf page).holds txn mode = true →
      (threads.session.db.locks.lockOf page).holds txn mode = true) ∧
    ∀ turn ∈ history, ∀ txn commits, turn.move = .complete txn commits →
      turn.after.session.db.ClearOf txn ∧ ∀ other, txn ≠ other →
        Database.Spares other turn.threads.session.db turn.after.session.db := by
  have hstart := Threads.Orderly.of_opened hopened
  refine ⟨?_, ?_, ?_⟩
  · intro turn hturn holder hactor page mode hholds
    obtain ⟨earlier, hearlier, hallows⟩ := hschedule.reached hturn
    have heffect := (hearlier.orderly hstart).effect hallows
    rcases heffect.holds_cases hholds with hkept | hgives | ⟨hmove, _⟩
    · exact hkept
    · exact absurd (Move.actor?_of_leaver? hgives) hactor
    · exact absurd (by rw [hmove]; rfl) hactor
  · rintro earlier first later txn rfl hidle hends page mode hholds
    obtain ⟨middle, hearlier, hlater⟩ := hschedule.split
    obtain ⟨rfl, _⟩ := hlater.of_cons
    have hkeeps : first.threads.Keeps txn first.threads.session.db.locks :=
      ⟨fun _ _ h => h, by simp [hidle]⟩
    exact (hlater.keeps (hearlier.orderly hstart) hkeeps hends).holds page mode hholds
  · rintro ⟨before, move⟩ hturn txn commits rfl
    obtain ⟨earlier, hearlier, hallows⟩ := hschedule.reached hturn
    have hstanding := (hearlier.orderly hstart).standing txn
    rw [show before.session.waiting[txn]? = none from hallows] at hstanding
    obtain ⟨db, hlocks, hjournal, hafter⟩ := before.session.complete_eq txn commits
    have hdb : (Turn.after ⟨before, .complete txn commits⟩).session.db = db.finish txn :=
      congrArg Session.db hafter
    rw [hdb]
    exact ⟨Database.finish_clearOf (hlocks ▸ hstanding.of_free.1),
      fun other hne => Database.finish_spares hne hlocks (hjournal other hne)⟩

/-- A transaction fills a page and ends, and two others read the page. -/
def readFullPage : List Move :=
  [.begin ⟨3⟩ (.insert ⟨1⟩ (Session.sampleRow 7)), .submit ⟨3⟩, .stride ⟨3⟩, .stride ⟨3⟩,
    .stride ⟨3⟩, .stride ⟨3⟩, .stride ⟨3⟩,
    .begin ⟨3⟩ (.insert ⟨1⟩ (Session.sampleRow 8)), .submit ⟨3⟩, .stride ⟨3⟩, .stride ⟨3⟩,
    .stride ⟨3⟩, .submit ⟨3⟩, .stride ⟨3⟩, .stride ⟨3⟩, .stride ⟨3⟩,
    .begin ⟨3⟩ (.insert ⟨1⟩ (Session.sampleRow 9)), .submit ⟨3⟩, .stride ⟨3⟩, .stride ⟨3⟩,
    .stride ⟨3⟩, .submit ⟨3⟩, .stride ⟨3⟩, .stride ⟨3⟩, .stride ⟨3⟩, .complete ⟨3⟩ true,
    .begin ⟨1⟩ (.getPage ⟨⟨1⟩, 0⟩ .shared), .submit ⟨1⟩, .stride ⟨1⟩, .stride ⟨1⟩, .stride ⟨1⟩,
    .begin ⟨2⟩ (.getPage ⟨⟨1⟩, 0⟩ .shared), .submit ⟨2⟩, .stride ⟨2⟩, .stride ⟨2⟩, .stride ⟨2⟩]

/-- An insert leaves the full page for a new one, an upgrade of the lock of the full page is
refused, and the tables are closed. -/
def leaveFullPage : List Move :=
  [.submit ⟨1⟩, .stride ⟨1⟩, .stride ⟨1⟩, .stride ⟨1⟩, .submit ⟨1⟩, .stride ⟨1⟩, .stride ⟨1⟩,
    .stride ⟨1⟩, .stride ⟨1⟩, .stride ⟨1⟩,
    .begin ⟨1⟩ (.getPage ⟨⟨1⟩, 0⟩ .exclusive), .submit ⟨1⟩, .advance ⟨1⟩, .expire ⟨1⟩,
    .changeCatalog .clear]

/-- A reader of a full page still holds it after an insert that has found no room there and a
refused upgrade. Its commit fails, since the table that it has changed is gone, and leaves nothing
of it, and spares the other reader. -/
theorem two_phase_of_failed_commit :
    let start : Threads := ⟨{ db := Session.sampleTables "a.dat" "b.dat" }, ∅⟩
    let first : Turn :=
      ⟨start.makeEach readFullPage, .begin ⟨1⟩ (.insert ⟨1⟩ (Session.sampleRow 5))⟩
    let threads := first.after.makeEach leaveFullPage
    let last : Turn := ⟨threads, .complete ⟨1⟩ true⟩
    (threads.session.db.locks.lockOf ⟨⟨1⟩, 0⟩).holds ⟨1⟩ .shared = true ∧
      last.reply = .finished (.error (.tableNotFound ⟨1⟩)) ∧
      last.after.session.db.ClearOf ⟨1⟩ ∧
      Database.Spares ⟨2⟩ threads.session.db last.after.session.db := by
  intro start first threads last
  have hopened := Session.sampleTables_opened "a.dat" "b.dat"
  have hbefore : Schedule start (start.turns readFullPage ++
      first :: first.after.turns leaveFullPage) threads :=
    .of_turn (by decide +kernel) (by decide +kernel) (by decide +kernel)
  have hlast : threads.Allows (.complete ⟨1⟩ true) := by decide +kernel
  have hschedule := hbefore.step hlast
  obtain ⟨_, hkept, _⟩ := two_phase hopened hbefore
  obtain ⟨_, _, hends⟩ := two_phase hopened hschedule
  obtain ⟨hclear, hspares⟩ := hends last (by simp [last]) ⟨1⟩ true rfl
  refine ⟨?_, by decide +kernel, hclear, hspares ⟨2⟩ (by decide)⟩
  exact hkept _ first _ ⟨1⟩ rfl (by decide +kernel) (by decide +kernel) _ _ (by decide +kernel)

end Schedule

end RowStore
