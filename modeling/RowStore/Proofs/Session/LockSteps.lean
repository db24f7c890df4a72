import RowStore.Proofs.Lock.Reclaim
import RowStore.Proofs.Session.Standing

/-!
# What moves do to locks

Threads share one lock table. A move of theirs is one event of this table, or it leaves the table
alone, so whatever order they make their moves in, their lock table goes through a run:
`Schedule.lock_run`. What holds of all runs of a lock table holds of theirs.
-/

namespace RowStore

namespace LockTable

variable {page other : PageId}

/-! ## The locks that a request leaves alone -/

theorem getElem?_locks_setLock (table : LockTable) (lock : LockState) (hne : page ≠ other) :
    (table.setLock page lock).locks[other]? = table.locks[other]? := by
  simp [setLock, Std.ExtTreeMap.getElem?_insert, hne]

theorem getElem?_locks_ensure (table : LockTable) (hne : page ≠ other) :
    (table.ensure page).locks[other]? = table.locks[other]? := by
  simp [ensure, Std.ExtTreeMap.getElem?_insertIfNew, hne]

theorem getElem?_locks_attempt (table : LockTable) (txn : TxnId) (mode : LockMode)
    (hne : page ≠ other) : (table.attempt txn page mode).2.locks[other]? = table.locks[other]? := by
  simp only [attempt]
  split
  · exact getElem?_locks_ensure table hne
  · split <;> rw [getElem?_locks_setLock _ _ hne, getElem?_locks_ensure table hne]

/-- A request that is made changes no other lock than that of its page. -/
theorem getElem?_locks_submit (table : LockTable) (txn : TxnId) (mode : LockMode)
    (hne : page ≠ other) : (table.submit txn page mode).2.locks[other]? = table.locks[other]? := by
  have hattempt := table.getElem?_locks_attempt txn mode hne
  simp only [submit]
  split <;> (rename_i heq; rw [heq] at hattempt; exact hattempt)

theorem getElem?_locks_pass (table : LockTable) (txn : TxnId) (mode : LockMode)
    (hne : page ≠ other) : (table.pass txn page mode).2.locks[other]? = table.locks[other]? := by
  have hwaits : (table.waitOn txn page mode).2.locks = table.locks := by
    simp only [waitOn]
    split <;> rfl
  simp only [pass]
  split
  · rename_i heq
    rw [withdraw, getElem?_locks_setLock _ _ hne, ← hwaits, heq]
  · rename_i heq
    rw [heq] at hwaits
    split
    · rw [removeEdge, getElem?_locks_setLock _ _ hne, ← hwaits]
    · rw [← hwaits]

/-- A pass of a request changes no other lock than that of its page. -/
theorem getElem?_locks_advance (table : LockTable) (txn : TxnId) {request : PendingRequest}
    (hne : request.page ≠ other) :
    (table.advance txn request).2.locks[other]? = table.locks[other]? := by
  have hpass := table.getElem?_locks_pass txn request.mode hne
  simp only [advance]
  split <;> (rename_i heq; rw [heq] at hpass; exact hpass)

/-- The end of a request changes no other lock than that of its page. -/
theorem getElem?_locks_expire (table : LockTable) (txn : TxnId) {request : PendingRequest}
    (hne : request.page ≠ other) :
    (table.expire txn request).2.locks[other]? = table.locks[other]? := by
  simp only [expire]
  split
  · rfl
  · exact getElem?_locks_setLock table _ hne

/-- What may happen to a lock table: nothing, or one event. -/
def Passes (before after : LockTable) : Prop :=
  after = before ∨ ∃ event, before.Admits event ∧ after = (before.perform event).2

end LockTable

/-- A stride of a fetch changes the locks by an event, if at all. -/
theorem Strides.passes {txn : TxnId} {operation : Operation} {stage : Stage} {stride : Stride}
    {db after : Database} (hstrides : Strides txn operation db stage stride after) :
    db.locks.Passes after.locks := by
  cases hstrides with
  | full | present | reserves | reads | fails | finds | installs => exact .inl rfl
  | @evicts victim _ _ => exact .inr ⟨.reclaim victim, trivial, rfl⟩
  | @notes ref =>
      obtain ⟨journal, hnoted⟩ := Database.noteFor_eq db txn ref operation.demand.2
      rw [hnoted]
      exact .inl rfl
  | handles hhandles =>
      cases hhandles with
      | looks hlocks =>
          rcases hlocks with rfl | ⟨_, _, rfl⟩
          · exact .inl rfl
          · exact .inr ⟨.release txn operation.demand.1, trivial, rfl⟩
      | changes => exact .inl rfl

namespace Threads

variable {threads : Threads} {move : Move}

/-! ## The database after a move of an operation -/

/-- An operation demands its lock, unless it has done so. -/
theorem submit_cases (threads : Threads) (txn : TxnId) :
    (threads.submit txn).2.session.db = threads.session.db ∨
      ∃ operation, threads.session.waiting[txn]? = some operation ∧
        threads.session.db.locks.pending[txn]? = none ∧
        (threads.submit txn).2.session.db = { threads.session.db with
          locks := (threads.session.db.locks.submit txn operation.demand.1
            operation.demand.2).2 } := by
  simp only [submit]
  split
  · rename_i operation hwaiting hpending _
    refine .inr ⟨operation, hwaiting, hpending, ?_⟩
    split <;> (rename_i heq; rw [heq]; rfl)
  · exact .inl rfl

/-- A pending request goes through a pass, unless it is asleep. -/
theorem advance_cases (threads : Threads) (txn : TxnId) :
    (threads.advance txn).2.session.db = threads.session.db ∨
      ∃ operation request, threads.session.waiting[txn]? = some operation ∧
        threads.session.db.locks.pending[txn]? = some request ∧ request.asleep = false ∧
        (threads.advance txn).2.session.db = { threads.session.db with
          locks := (threads.session.db.locks.advance txn request).2 } := by
  simp only [advance]
  split
  · rename_i operation request hwaiting hpending
    split
    · exact .inl rfl
    · rename_i hawake
      refine .inr ⟨operation, request, hwaiting, hpending, by simpa using hawake, ?_⟩
      split <;> (rename_i heq; rw [heq]; first | rw [db_rest] | rfl)
  · exact .inl rfl

/-- The wait of a pending request ends. -/
theorem expire_cases (threads : Threads) (txn : TxnId) :
    (threads.expire txn).2.session.db = threads.session.db ∨
      ∃ operation request, threads.session.waiting[txn]? = some operation ∧
        threads.session.db.locks.pending[txn]? = some request ∧
        (threads.expire txn).2.session.db = { threads.session.db with
          locks := (threads.session.db.locks.expire txn request).2 } := by
  simp only [expire]
  split
  · rename_i operation request hwaiting hpending
    refine .inr ⟨operation, request, hwaiting, hpending, ?_⟩
    split <;> (rename_i heq; rw [heq]; first | rw [db_rest] | rfl)
  · exact .inl rfl

/-- An operation that fetches its page takes a stride. -/
theorem Orderly.stride_cases (horderly : threads.Orderly) (txn : TxnId) :
    threads.stages[txn]? = none ∧ (threads.stride txn).2 = threads ∨
      ∃ operation stage, threads.session.waiting[txn]? = some operation ∧
        threads.stages[txn]? = some stage ∧ operation.Ready threads.session.db.locks txn ∧
        stage.Fits operation.demand.1 ∧
        (threads.stride txn).2.session.db = (threads.session.db.stride txn operation stage).2 := by
  have hstanding := horderly.standing txn
  cases hstage : threads.stages[txn]? with
  | none => exact .inl ⟨rfl, by simp [stride, hstage]⟩
  | some stage =>
      rw [hstage] at hstanding
      obtain ⟨operation, hwaiting, hready, _, _, hfits⟩ := hstanding.of_stage
      refine .inr ⟨operation, stage, hwaiting, rfl, hready, hfits, ?_⟩
      simp only [stride, hwaiting, hstage]
      split <;> (rename_i heq; rw [heq]; first | rw [db_rest] | rfl)

/-! ## Moves and events -/

/-- A move changes the locks by an event, if at all. -/
theorem Orderly.passes (horderly : threads.Orderly) (hallows : threads.Allows move) :
    threads.session.db.locks.Passes (threads.make move).2.session.db.locks := by
  cases move with
  | begin txn call =>
      obtain ⟨storage, hbegin, _⟩ := Database.begin_eq horderly.sound txn call
      simp only [make, db_rest, hbegin]
      exact .inl rfl
  | submit txn =>
      rcases threads.submit_cases txn with hidle | ⟨operation, _, hpending, hafter⟩
      · exact .inl (congrArg Database.locks hidle)
      · exact .inr ⟨.submit txn operation.demand.1 operation.demand.2, hpending,
          congrArg Database.locks hafter⟩
  | advance txn =>
      rcases threads.advance_cases txn with hidle | ⟨_, request, _, hpending, hawake, hafter⟩
      · exact .inl (congrArg Database.locks hidle)
      · refine .inr ⟨.advance txn, trivial, (congrArg Database.locks hafter).trans ?_⟩
        simp only [LockTable.perform, hpending, hawake, Bool.false_eq_true, if_false]
  | expire txn =>
      rcases threads.expire_cases txn with hidle | ⟨_, request, _, hpending, hafter⟩
      · exact .inl (congrArg Database.locks hidle)
      · refine .inr ⟨.expire txn, trivial, (congrArg Database.locks hafter).trans ?_⟩
        simp only [LockTable.perform, hpending]
  | stride txn =>
      rcases horderly.stride_cases txn with
        ⟨_, hidle⟩ | ⟨operation, stage, _, _, hready, _, hafter⟩
      · exact .inl (congrArg (fun threads => threads.session.db.locks) hidle)
      · simp only [make, hafter]
        exact (Database.stride_strides hready stage).passes
  | complete txn commits =>
      obtain ⟨db, hundisturbed, hafter⟩ :=
        Session.Guarded.complete_undisturbed threads.session txn commits
      have hsession : (threads.session.complete txn commits).2 =
          { threads.session with
            db := db.finish txn, active := threads.session.active.erase txn } := hafter
      simp only [make, hsession]
      refine .inr ⟨.releaseAll txn, trivial, ?_⟩
      rw [← hundisturbed.locks]
      rfl
  | release txn page => exact .inr ⟨.release txn page, trivial, rfl⟩
  | write txn ref bytes =>
      simp only [make, Database.modifyFrame]
      repeat' split
      all_goals exact .inl rfl
  | flushPage page =>
      simp only [make, ← Database.flushEach_singleton]
      exact .inl (Database.flushEach_undisturbed _ _).locks
  | flushOf | flushAll => exact .inl (Database.flushEach_undisturbed _ _).locks
  | discardPage | discardTable => exact .inl rfl
  | changeCatalog change =>
      obtain ⟨catalog, storage, hchange, _⟩ := threads.session.db.changeCatalog_eq change
      simp only [make, hchange]
      exact .inl rfl

end Threads

/-- Whatever order the threads make their moves in, their locks go through a run. -/
theorem Schedule.lock_run {db : Database} {history : List Turn} {threads : Threads}
    (hopened : db.Opened) (hschedule : Schedule ⟨{ db }, ∅⟩ history threads) :
    ∃ moments, LockTable.Run {} moments threads.session.db.locks := by
  have hstart := Threads.Orderly.of_opened hopened
  induction hschedule with
  | start =>
      obtain ⟨_, _, _, hlocks⟩ := hopened.sound
      exact ⟨[], hlocks ▸ .start⟩
  | step hschedule hallows ih =>
      obtain ⟨moments, hrun⟩ := ih
      rcases (hschedule.orderly hstart).passes hallows with hsame | ⟨event, hadmits, hevent⟩
      · exact ⟨moments, hsame ▸ hrun⟩
      · exact ⟨_, hevent ▸ hrun.step hadmits⟩

end RowStore
