import RowStore.Proofs.Database.Stride
import RowStore.Proofs.Lock.Respects
import RowStore.Proofs.Session.Course

/-!
# Threads on one database

A course lets an operation go from one demand to the next undisturbed. Here the transactions run in
threads of their own, and others may act between any two strides of a fetch: while a place in the
cache is reserved for a page, and between the read of a page and its installation. `Move` is one
thing that a thread does, and `Schedule` an order in which threads may make their moves. The moves
of one operation that nobody comes between are a step of a course: `Schedule.of_step`. Only fetches
are taken apart like this. A flush writes its page outside the lock of the cache as well, and a
commit or an abort does so for each of its pages, but here they are single moves: what others do
while a page is being written is left out.

`MoveEffect` says all that a move can do to threads that are in order, and `Standing` where each
transaction stands, which is the same whatever the others do.
-/

namespace RowStore

/-- A session, and how far the operations have come that hold the locks of their pages. -/
structure Threads where
  session : Session
  stages : TxnMap Stage := ∅
deriving DecidableEq

/-- One thing that happens in a thread. A flush is one move, from the look at the frame to the mark
that it is clean, and so are all the flushes of a commit and all that an abort puts back: a write
under way that others come between is left out. -/
inductive Move where
  /-- A transaction makes a call, which has made no demand yet. -/
  | begin (txn : TxnId) (call : Call)
  /-- An operation demands the lock of its page. It gets it at once, or its request is pending. -/
  | submit (txn : TxnId)
  /-- A pending request that is awake is taken through a pass. -/
  | advance (txn : TxnId)
  /-- A pending request has waited too long. It is refused, or woken if it could be met by now. -/
  | expire (txn : TxnId)
  /-- An operation that holds the lock of its page takes a stride. -/
  | stride (txn : TxnId)
  | complete (txn : TxnId) (commits : Bool)
  /-- A transaction gives up the lock of a page before its end. -/
  | release (txn : TxnId) (page : PageId)
  /-- A transaction writes to the frame of a page that it holds exclusively. -/
  | write (txn : TxnId) (ref : FrameRef) (bytes : Bytes)
  | flushPage (page : PageId)
  | flushOf (txn : TxnId)
  | flushAll
  | discardPage (page : PageId)
  | discardTable (table : TableId)
  | changeCatalog (change : CatalogChange)
deriving DecidableEq

namespace Threads

/-- The threads after something happened to the database alone. -/
def withDb (threads : Threads) (db : Database) : Threads :=
  { threads with session := { threads.session with db } }

/-- The threads when an operation has come to a stage. -/
def stand (threads : Threads) (txn : TxnId) (stage : Stage) (db : Database) : Threads :=
  { threads.withDb db with stages := threads.stages.insert txn stage }

/-- The threads when an operation has ended or has come to its next demand, and what its transaction
learns. -/
def rest (threads : Threads) (txn : TxnId) (progress : Progress) (db : Database) :
    Reply × Threads :=
  let (reply, session) := threads.session.rest txn (db.runFor 0 txn progress)
  (reply, ⟨session, threads.stages.erase txn⟩)

/-- Let the operation of a transaction demand the lock of its page. -/
def submit (threads : Threads) (txn : TxnId) : Reply × Threads :=
  let db := threads.session.db
  match threads.session.waiting[txn]?, db.locks.pending[txn]?, threads.stages[txn]? with
  | some operation, none, none =>
      match db.locks.submit txn operation.demand.1 operation.demand.2 with
      | (.granted, locks) => (.waits, threads.stand txn .locked { db with locks })
      | (_, locks) => (.waits, threads.withDb { db with locks })
  | _, _, _ => (.waits, threads)

/-- Take the pending request of a transaction through a pass if it is awake. -/
def advance (threads : Threads) (txn : TxnId) : Reply × Threads :=
  let db := threads.session.db
  match threads.session.waiting[txn]?, db.locks.pending[txn]? with
  | some operation, some request =>
      if request.asleep then (.waits, threads)
      else
        match db.locks.advance txn request with
        | (.granted, locks) => (.waits, threads.stand txn .locked { db with locks })
        | (.refused reason, locks) =>
            threads.rest txn (.ended (operation.refuse (.aborted txn request.page reason)))
              { db with locks }
        | (.waits, locks) => (.waits, threads.withDb { db with locks })
  | _, _ => (.waits, threads)

/-- End the wait of a request. -/
def expire (threads : Threads) (txn : TxnId) : Reply × Threads :=
  let db := threads.session.db
  match threads.session.waiting[txn]?, db.locks.pending[txn]? with
  | some operation, some request =>
      match db.locks.expire txn request with
      | (.refused reason, locks) =>
          threads.rest txn (.ended (operation.refuse (.aborted txn request.page reason)))
            { db with locks }
      | (_, locks) => (.waits, threads.withDb { db with locks })
  | _, _ => (.waits, threads)

/-- Take an operation that holds the lock of its page a stride further. -/
def stride (threads : Threads) (txn : TxnId) : Reply × Threads :=
  match threads.session.waiting[txn]?, threads.stages[txn]? with
  | some operation, some stage =>
      match threads.session.db.stride txn operation stage with
      | (.stands stage, db) => (.waits, threads.stand txn stage db)
      | (.leaves progress, db) => threads.rest txn progress db
  | _, _ => (.waits, threads)

/-- Make a move. -/
def make (threads : Threads) : Move → Reply × Threads
  | .begin txn call =>
      let (progress, db) := threads.session.db.begin txn call
      threads.rest txn progress db
  | .submit txn => threads.submit txn
  | .advance txn => threads.advance txn
  | .expire txn => threads.expire txn
  | .stride txn => threads.stride txn
  | .complete txn commits =>
      let (result, session) := threads.session.complete txn commits
      (.finished result, { threads with session })
  | .release txn page =>
      let db := threads.session.db
      (.finished (.ok ()), threads.withDb { db with locks := (db.locks.release txn page).2 })
  | .write txn ref bytes =>
      let (result, db) := threads.session.db.modifyFrame ref txn fun page =>
        (page.restore bytes).map fun page => (page, ())
      (.finished result, threads.withDb db)
  | .flushPage page =>
      let (result, db) := threads.session.db.flushPage page
      (.finished result, threads.withDb db)
  | .flushOf txn =>
      let (result, db) := threads.session.db.flushOf txn
      (.finished result, threads.withDb db)
  | .flushAll =>
      let (result, db) := threads.session.db.flushAll
      (.finished result, threads.withDb db)
  | .discardPage page =>
      (.finished (.ok ()), threads.withDb (threads.session.db.discardPage page))
  | .discardTable table =>
      (.finished (.ok ()), threads.withDb (threads.session.db.discardTable table))
  | .changeCatalog change =>
      (.finished (.ok ()), threads.withDb (threads.session.db.changeCatalog change))

/-- The move may be made now: whoever makes a call, ends, gives up a lock, or writes has no call
outstanding, and whoever writes holds the page exclusively. -/
def Allows (threads : Threads) : Move → Prop
  | .begin txn _ | .complete txn _ | .release txn _ => threads.session.waiting[txn]? = none
  | .write txn ref _ => threads.session.waiting[txn]? = none ∧
      (threads.session.db.locks.lockOf ref.page).exclusive = some txn
  | .submit _ | .advance _ | .expire _ | .stride _ | .flushPage _ | .flushOf _ | .flushAll
  | .discardPage _ | .discardTable _ | .changeCatalog _ => True

instance (threads : Threads) (move : Move) : Decidable (threads.Allows move) :=
  match move with
  | .begin .. | .complete .. | .release .. => inferInstanceAs (Decidable (_ = _))
  | .write .. => inferInstanceAs (Decidable (_ ∧ _))
  | .submit _ | .advance _ | .expire _ | .stride _ | .flushPage _ | .flushOf _ | .flushAll
  | .discardPage _ | .discardTable _ | .changeCatalog _ => isTrue trivial

end Threads

/-- A move, and the threads in which it was made. -/
structure Turn where
  threads : Threads
  move : Move

namespace Turn

/-- The threads after the move. -/
def after (turn : Turn) : Threads :=
  (turn.threads.make turn.move).2

/-- What the move came to. -/
def reply (turn : Turn) : Reply :=
  (turn.threads.make turn.move).1

/-- The frame that an access to a page hands to its transaction in the turn, if one does. -/
def handsOut (turn : Turn) : Option (TxnId × FrameRef) :=
  match turn.move with
  | .stride txn =>
      match turn.threads.stages[txn]? with
      | some (.fetched ref) => some (txn, ref)
      | _ => none
  | _ => none

end Turn

/-- The orders in which threads may make their moves, with their histories. No move comes between the
check, the write, and the clean mark of a flush. -/
inductive Schedule (start : Threads) : List Turn → Threads → Prop where
  | start : Schedule start [] start
  | step {history : List Turn} {threads : Threads} {move : Move} :
      Schedule start history threads → threads.Allows move →
      Schedule start (history ++ [⟨threads, move⟩]) (threads.make move).2

namespace Threads

/-- The turns in which moves are made one after the other. -/
def turns (threads : Threads) : List Move → List Turn
  | [] => []
  | move :: rest => ⟨threads, move⟩ :: (threads.make move).2.turns rest

/-- The threads after moves were made one after the other. -/
def makeEach (threads : Threads) (moves : List Move) : Threads :=
  moves.foldl (fun threads move => (threads.make move).2) threads

/-- The moves may be made one after the other. -/
def AllowsEach (threads : Threads) : List Move → Prop
  | [] => True
  | move :: rest => threads.Allows move ∧ (threads.make move).2.AllowsEach rest

instance decidableAllowsEach (threads : Threads) : (moves : List Move) →
    Decidable (threads.AllowsEach moves)
  | [] => isTrue trivial
  | move :: rest =>
      have := decidableAllowsEach (threads.make move).2 rest
      inferInstanceAs (Decidable (_ ∧ _))

/-- The moves of the turns are those that were made. -/
theorem move_of_mem_turns {threads : Threads} {moves : List Move} {turn : Turn}
    (hturn : turn ∈ threads.turns moves) : turn.move ∈ moves := by
  induction moves generalizing threads with
  | nil => simp [turns] at hturn
  | cons move rest ih =>
      rcases List.mem_cons.mp hturn with rfl | hturn
      · exact List.mem_cons_self
      · exact List.mem_cons_of_mem _ (ih hturn)

end Threads

/-- Moves that may be made one after the other carry a schedule on. -/
theorem Schedule.of_moves {start threads : Threads} {history : List Turn} {moves : List Move}
    (hschedule : Schedule start history threads) (hallows : threads.AllowsEach moves) :
    Schedule start (history ++ threads.turns moves) (threads.makeEach moves) := by
  induction moves generalizing threads history with
  | nil =>
      rw [Threads.turns, List.append_nil]
      exact hschedule
  | cons move rest ih =>
      rw [Threads.turns, List.append_cons]
      exact ih (hschedule.step hallows.1) hallows.2

/-- Moves that may be made before and after a turn make a schedule with it. -/
theorem Schedule.of_turn {start : Threads} {earlier later : List Move} {move : Move}
    (hearlier : start.AllowsEach earlier) (hmove : (start.makeEach earlier).Allows move)
    (hlater : (Turn.after ⟨start.makeEach earlier, move⟩).AllowsEach later) :
    Schedule start
      (start.turns earlier ++ ⟨start.makeEach earlier, move⟩ ::
        (Turn.after ⟨start.makeEach earlier, move⟩).turns later)
      ((Turn.after ⟨start.makeEach earlier, move⟩).makeEach later) := by
  have hbefore := Schedule.of_moves .start hearlier
  rw [List.nil_append] at hbefore
  rw [List.append_cons]
  exact (hbefore.step hmove).of_moves hlater

/-- A schedule comes to its last move in the threads that the history remembers. -/
theorem Schedule.after_last {start threads : Threads} {history : List Turn} {turn : Turn}
    (hschedule : Schedule start (history ++ [turn]) threads) : threads = turn.after := by
  generalize hfull : history ++ [turn] = full at hschedule
  cases hschedule with
  | start => simp at hfull
  | step _ _ =>
      obtain ⟨_, hlast⟩ := List.append_inj' hfull rfl
      rw [List.singleton_inj] at hlast
      rw [hlast]
      rfl

/-- A schedule can be split after any of its moves. -/
theorem Schedule.split {start threads : Threads} {earlier later : List Turn}
    (hschedule : Schedule start (earlier ++ later) threads) :
    ∃ middle, Schedule start earlier middle ∧ Schedule middle later threads := by
  generalize hfull : earlier ++ later = full at hschedule
  induction hschedule generalizing later with
  | start =>
      obtain ⟨rfl, rfl⟩ := List.append_eq_nil_iff.mp hfull
      exact ⟨start, .start, .start⟩
  | @step history threads move hschedule hallows ih =>
      rcases List.eq_nil_or_concat later with rfl | ⟨shorter, last, rfl⟩
      · rw [List.append_nil] at hfull
        exact ⟨_, hfull ▸ hschedule.step hallows, .start⟩
      · rw [List.concat_eq_append, ← List.append_assoc] at hfull
        obtain ⟨hshorter, hlast⟩ := List.append_inj' hfull rfl
        obtain rfl := List.singleton_inj.mp hlast
        obtain ⟨middle, hfirst, hrest⟩ := ih hshorter
        rw [List.concat_eq_append]
        exact ⟨middle, hfirst, hrest.step hallows⟩

/-- A schedule without moves has come nowhere. -/
theorem Schedule.of_nil {start threads : Threads} (hschedule : Schedule start [] threads) :
    threads = start := by
  generalize hnil : ([] : List Turn) = history at hschedule
  cases hschedule with
  | start => rfl
  | step => simp at hnil

/-- The first move of a schedule is made in the threads that it starts with. -/
theorem Schedule.of_cons {start threads : Threads} {first : Turn} {later : List Turn}
    (hschedule : Schedule start (first :: later) threads) :
    first.threads = start ∧ start.Allows first.move := by
  generalize hfull : first :: later = full at hschedule
  induction hschedule generalizing later with
  | start => simp at hfull
  | @step history threads move hschedule hallows ih =>
      cases history with
      | nil =>
          obtain ⟨rfl, _⟩ := List.cons.inj hfull
          obtain rfl := hschedule.of_nil
          exact ⟨rfl, hallows⟩
      | cons head rest =>
          obtain ⟨rfl, _⟩ := List.cons.inj hfull
          exact ih rfl

/-- A schedule reaches the threads in which each of its moves is made. -/
theorem Schedule.reached {start threads : Threads} {history : List Turn} {turn : Turn}
    (hschedule : Schedule start history threads) (hturn : turn ∈ history) :
    ∃ earlier, Schedule start earlier turn.threads ∧ turn.threads.Allows turn.move := by
  obtain ⟨earlier, later, rfl⟩ := List.append_of_mem hturn
  obtain ⟨middle, hearlier, hlater⟩ := hschedule.split
  obtain ⟨rfl, hallows⟩ := hlater.of_cons
  exact ⟨earlier, hearlier, hallows⟩

/-- What holds after each of the last moves of a schedule holds of the threads that it comes to. -/
theorem Schedule.holds_at_end (holds : Threads → Prop) {start threads : Threads}
    {earlier later : List Turn} {first : Turn}
    (hschedule : Schedule start (earlier ++ first :: later) threads)
    (hholds : ∀ turn ∈ first :: later, holds turn.after) : holds threads := by
  rcases List.eq_nil_or_concat (first :: later) with hnil | ⟨front, last, hlast⟩
  · simp at hnil
  · rw [hlast, List.concat_eq_append, ← List.append_assoc] at hschedule
    rw [hschedule.after_last]
    exact hholds last (by simp [hlast])

namespace Threads

variable {threads : Threads} {txn : TxnId} {stage : Stage} {operation : Operation} {db : Database}

@[simp] theorem db_withDb : (threads.withDb db).session.db = db := rfl

/-- An operation that has come to two stages one after the other has come to the second. -/
theorem stand_stand (stage next : Stage) (db after : Database) :
    (threads.stand txn stage db).stand txn next after = threads.stand txn next after := by
  have hstages : (threads.stages.insert txn stage).insert txn next =
      threads.stages.insert txn next := by
    apply Std.ExtTreeMap.ext_getElem?
    intro other
    simp only [Std.ExtTreeMap.getElem?_insert]
    split <;> rfl
  exact congrArg (Threads.mk _) hstages

/-- An operation that has come to a stage has left it when it comes to rest. -/
theorem rest_stand (stage : Stage) (progress : Progress) (db after : Database) :
    (threads.stand txn stage db).rest txn progress after = threads.rest txn progress after := by
  have hstages : (threads.stages.insert txn stage).erase txn = threads.stages.erase txn := by
    apply Std.ExtTreeMap.ext_getElem?
    intro other
    simp only [Std.ExtTreeMap.getElem?_erase, Std.ExtTreeMap.getElem?_insert]
    split <;> rfl
  exact congrArg (fun stages => (_, Threads.mk _ stages)) hstages

/-- The strides of an operation that nobody comes between take it to where it leaves its page. -/
theorem strides_past_page (hwaiting : threads.session.waiting[txn]? = some operation) (fuel : Nat)
    {progress : Progress} {after : Database}
    (hstrides : db.strideFor fuel txn operation stage = (.leaves progress, after)) :
    ∃ count, (threads.stand txn stage db).makeEach (List.replicate count (.stride txn)) =
      (threads.rest txn progress after).2 := by
  induction fuel generalizing stage db with
  | zero => simp [Database.strideFor] at hstrides
  | succ fuel ih =>
      have hstage : (threads.stand txn stage db).stages[txn]? = some stage :=
        Std.ExtTreeMap.getElem?_insert_self
      have hoperation : (threads.stand txn stage db).session.waiting[txn]? = some operation :=
        hwaiting
      have hdb : (threads.stand txn stage db).session.db = db := rfl
      simp only [Database.strideFor] at hstrides
      split at hstrides
      · rename_i left room hstride
        simp only [Prod.mk.injEq, Stride.leaves.injEq] at hstrides
        obtain ⟨rfl, rfl⟩ := hstrides
        refine ⟨1, ?_⟩
        simp only [List.replicate, makeEach, List.foldl, make, Threads.stride, hoperation, hstage,
          hdb, hstride, rest_stand]
      · rename_i next room hstride
        obtain ⟨count, hcount⟩ := ih hstrides
        refine ⟨count + 1, ?_⟩
        rw [← hcount]
        simp only [List.replicate, makeEach, List.foldl, make, Threads.stride, hoperation, hstage,
          hdb, hstride, stand_stand]

/-- An operation that holds the lock of its page goes through its strides to where `proceed` takes
it. -/
theorem strides_eq_proceed (hwaiting : threads.session.waiting[txn]? = some operation) :
    ∃ count, (threads.stand txn .locked db).makeEach (List.replicate count (.stride txn)) =
      (threads.rest txn (db.proceed txn operation).1 (db.proceed txn operation).2).2 :=
  strides_past_page hwaiting 5 (db.strideFor_locked txn operation)

/-- The moves that take the operation of a transaction to its next demand or to its end may always
be made. -/
theorem allowsEach_of_forall {moves : List Move}
    (hmoves : ∀ move ∈ moves, move = .submit txn ∨ move = .advance txn ∨ move = .stride txn) :
    threads.AllowsEach moves := by
  induction moves generalizing threads with
  | nil => trivial
  | cons move rest ih =>
      refine ⟨?_, ih fun other hother => hmoves other (List.mem_cons_of_mem _ hother)⟩
      rcases hmoves move List.mem_cons_self with rfl | rfl | rfl <;> trivial

/-- The stages of the others, when an operation has none. -/
theorem stages_erase (hstage : threads.stages[txn]? = none) :
    threads.stages.erase txn = threads.stages := by
  apply Std.ExtTreeMap.ext_getElem?
  intro other
  rw [Std.ExtTreeMap.getElem?_erase]
  split
  · rename_i hsame
    rw [← Std.compare_eq_iff_eq.mp hsame, hstage]
  · rfl

/-- An operation that is granted its lock takes its strides. -/
theorem granted_eq_step {locks : LockTable}
    (hwaiting : threads.session.waiting[txn]? = some operation)
    (hstage : threads.stages[txn]? = none) :
    ∃ count, (threads.stand txn .locked { threads.session.db with locks }).makeEach
        (List.replicate count (.stride txn)) =
      ⟨(threads.session.rest txn (Database.runFor 0
        (({ threads.session.db with locks } : Database).proceed txn operation).2 txn
        (({ threads.session.db with locks } : Database).proceed txn operation).1)).2,
        threads.stages⟩ := by
  obtain ⟨count, hcount⟩ := strides_eq_proceed hwaiting
  exact ⟨count, hcount.trans (congrArg (Threads.mk _) (stages_erase hstage))⟩

/-- An operation that still has to wait is the one that waited before. -/
theorem withDb_eq_blocked (hwaiting : threads.session.waiting[txn]? = some operation) :
    threads.withDb db =
      ⟨(threads.session.rest txn (.blocked operation, db)).2, threads.stages⟩ := by
  have hsame : threads.session.waiting.insert txn operation = threads.session.waiting := by
    apply Std.ExtTreeMap.ext_getElem?
    intro other
    rw [Std.ExtTreeMap.getElem?_insert]
    split
    · rename_i heq
      rw [← Std.compare_eq_iff_eq.mp heq, hwaiting]
    · rfl
  exact congrArg (fun waiting => Threads.mk { threads.session with db, waiting } threads.stages)
    hsame.symm

/-- The moves that take a pending request further. -/
theorem resume_eq_moves {request : PendingRequest}
    (hwaiting : threads.session.waiting[txn]? = some operation)
    (hpending : threads.session.db.locks.pending[txn]? = some request)
    (hawake : request.asleep = false) (hstage : threads.stages[txn]? = none) :
    ∃ count, threads.makeEach (.advance txn :: List.replicate count (.stride txn)) =
      ⟨(threads.session.rest txn (threads.session.db.resumeFor 0 txn operation request)).2,
        threads.stages⟩ := by
  have hadvance : (threads.make (.advance txn)).2 = (threads.advance txn).2 := rfl
  simp only [makeEach, List.foldl_cons, hadvance, Threads.advance, hwaiting, hpending, hawake,
    Bool.false_eq_true, if_false, Database.resumeFor]
  rcases threads.session.db.locks.advance txn request with ⟨verdict, locks⟩
  cases verdict with
  | granted => exact granted_eq_step hwaiting hstage
  | refused reason => exact ⟨0, congrArg (Threads.mk _) (stages_erase hstage)⟩
  | waits => exact ⟨0, withDb_eq_blocked hwaiting⟩

/-- The moves of one operation that nobody comes between, from one demand to the next, are a step
of a course. -/
theorem step_eq_moves (hstage : threads.stages[txn]? = none) :
    ∃ moves, (∀ move ∈ moves, move = .submit txn ∨ move = .advance txn ∨ move = .stride txn) ∧
      threads.makeEach moves = { threads with session := (threads.session.step txn).2 } := by
  cases hwaiting : threads.session.waiting[txn]? with
  | none => exact ⟨[], by simp, by simp [makeEach, Session.step, hwaiting]⟩
  | some operation =>
      cases hpending : threads.session.db.locks.pending[txn]? with
      | some request =>
          cases hasleep : request.asleep with
          | true =>
              exact ⟨[], by simp, by simp [makeEach, Session.step, hwaiting, hpending, hasleep]⟩
          | false =>
              obtain ⟨count, hcount⟩ := resume_eq_moves hwaiting hpending hasleep hstage
              refine ⟨_, ?_, hcount.trans ?_⟩
              · simp
              · simp [Session.step, hwaiting, hpending, hasleep]
      | none =>
          have hsubmit : (threads.make (.submit txn)).2 = (threads.submit txn).2 := rfl
          rcases (LockTable.submit_serves hpending operation.demand.1 operation.demand.2).2 with
            ⟨locks, hgranted, _⟩ | ⟨locks, hwaits, hrequest⟩
          · obtain ⟨count, hcount⟩ := @granted_eq_step threads txn operation locks hwaiting hstage
            refine ⟨.submit txn :: List.replicate count (.stride txn), by simp, ?_⟩
            simp only [makeEach, List.foldl_cons, hsubmit, submit, hwaiting, hpending, hstage,
              hgranted, Session.step, Database.runFor, LockTable.request]
            exact hcount
          · -- The request is made first, and taken through its first pass then.
            have hafter : (threads.make (.submit txn)).2 =
                threads.withDb { threads.session.db with locks } := by
              simp only [hsubmit, submit, hwaiting, hpending, hstage, hwaits]
            obtain ⟨count, hcount⟩ := @resume_eq_moves
              (threads.withDb { threads.session.db with locks }) txn operation _ hwaiting hrequest
              rfl hstage
            refine ⟨.submit txn :: .advance txn :: List.replicate count (.stride txn), by simp, ?_⟩
            rw [makeEach, List.foldl_cons, hafter]
            refine hcount.trans ?_
            simp only [Session.step, hwaiting, hpending, Database.runFor, LockTable.request, hwaits,
              Database.resumeFor, db_withDb]
            rcases locks.advance txn ⟨operation.demand.1, operation.demand.2, false⟩ with
              ⟨verdict, advanced⟩
            cases verdict <;> rfl

end Threads

/-- A step of a course carries a schedule on in which the operation has no stage yet. -/
theorem Schedule.of_step {start threads : Threads} {history : List Turn} {txn : TxnId}
    (hschedule : Schedule start history threads) (hstage : threads.stages[txn]? = none) :
    ∃ turns, Schedule start (history ++ turns)
      { threads with session := (threads.session.step txn).2 } := by
  obtain ⟨moves, hmoves, hstep⟩ := Threads.step_eq_moves hstage
  exact ⟨_, hstep ▸ hschedule.of_moves (Threads.allowsEach_of_forall hmoves)⟩

end RowStore
