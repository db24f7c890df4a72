import RowStore.Proofs.Database.Lockstep
import RowStore.Proofs.Session.Course

/-!
# Sessions that mirror one another

Two sessions mirror one another if the same calls wait in both and their databases are twins, whose
caches may keep different pages. A flush leaves a session a mirror of what it was
(`Proper.mirrors_flush`). What a transaction does in both sessions leaves them mirrors, and it is
told the same in both, as long as neither cache lacks room for a page: `Mirrors.undertake`. It is
told what its call came to, or that the call waits and with which request, but not which frame
holds a page.
-/

namespace RowStore

/-- What a use tells the transaction that it is of. -/
inductive Told where
  /-- Its call has not ended. It stands at an operation, and waits with a request or with none. -/
  | stands (operation : Option Operation) (request : Option PendingRequest)
  /-- Its call has ended. -/
  | answered (finding : Finding)
  /-- The transaction has ended. -/
  | finished (result : Except Error Unit)
deriving DecidableEq

namespace Use

/-- A transaction makes a call, goes on with one, waits too long with one, or ends. Its calls go on
undisturbed, or one demand at a time. -/
def isOperation : Use → Bool
  | event (.call ..) | event (.resume _) | event (.giveUp _) | event (.complete ..) => true
  | begin .. | step _ | expire _ => true
  | write .. | event _ => false

/-- Pages are flushed. -/
def isFlush : Use → Bool
  | event (.flushPage _) | event (.flushOf _) | event .flushAll => true
  | begin .. | step _ | expire _ | write .. | event _ => false

end Use

/-- The reply is that the cache has no room for a page. -/
def Reply.lacksRoom : Reply → Bool
  | answered answer => RowStore.lacksRoom answer
  | finished result => result = .error .cacheFull
  | waits => false

/-- What a transaction is told by a reply to it. -/
def Session.tell (session : Session) (txn : Option TxnId) : Reply → Told
  | .waits => .stands (txn.bind fun txn => session.waiting[txn]?)
      (txn.bind fun txn => session.db.locks.pending[txn]?)
  | .answered answer => .answered (session.db.finding answer)
  | .finished result => .finished result

/-- What the use told the transaction that it is of. -/
def Occasion.told (occasion : Occasion) : Told :=
  occasion.after.tell occasion.use.actor? occasion.reply

variable {layout : Layout}

namespace Session

/-- The calls that wait are of tables of the catalog. -/
def Registered (session : Session) (catalog : Catalog) : Prop :=
  ∀ (txn : TxnId) (operation : Operation), session.waiting[txn]? = some operation →
    operation.Registered catalog

/-- What every course keeps: the session is guarded, its database is tidy, and its calls are of
tables of the catalog. -/
structure Proper (layout : Layout) (session : Session) : Prop where
  guarded : session.Guarded
  tidy : session.db.Tidy layout
  registered : session.Registered session.db.catalog

/-- Sessions over twins in which the same calls wait. -/
structure Mirrors (layout : Layout) (session mirror : Session) : Prop where
  twins : Database.Twins layout session.db mirror.db
  waiting : mirror.waiting = session.waiting

/-- A transaction was told the same in two sessions, which mirror one another. -/
structure InStep (layout : Layout) (txn : Option TxnId) (first second : Reply × Session) :
    Prop where
  told : second.2.tell txn second.1 = first.2.tell txn first.1
  mirrors : Mirrors layout first.2 second.2

variable {session mirror middle : Session} {use : Use} {txn : TxnId}

namespace Mirrors

theorem symm (hmirrors : Mirrors layout session mirror) : Mirrors layout mirror session :=
  ⟨hmirrors.twins.symm, hmirrors.waiting.symm⟩

theorem trans (hfirst : Mirrors layout session middle) (hrest : Mirrors layout middle mirror) :
    Mirrors layout session mirror :=
  ⟨hfirst.twins.trans hrest.twins, hrest.waiting.trans hfirst.waiting⟩

end Mirrors

/-- A flush leaves all but the database as it was, whose pages are flushed. -/
theorem use_of_isFlush (session : Session) (hflush : use.isFlush = true) :
    ∃ pages, session.use use = { session with db := (session.db.flushEach pages).2 } := by
  cases use with
  | begin | step | expire | write => simp [Use.isFlush] at hflush
  | event event =>
      cases event with
      | call | resume | giveUp | complete | discard | changeCatalog =>
          simp [Use.isFlush] at hflush
      | flushPage page =>
          refine ⟨[page], ?_⟩
          rw [Database.flushEach_singleton]
          rfl
      | flushOf txn => exact ⟨_, rfl⟩
      | flushAll => exact ⟨_, rfl⟩

/-- A call that gives up has waited too long, and goes on if its request could be met by now. -/
theorem perform_giveUp (session : Session) (txn : TxnId) :
    session.perform (.giveUp txn) =
      match session.expire txn with
      | (.waits, after) => after.perform (.resume txn)
      | told => told := by
  cases hwaiting : session.waiting[txn]? with
  | none => simp only [perform, giveUp, expire, resume, hwaiting]
  | some operation =>
      cases hpending : session.db.locks.pending[txn]? with
      | none => simp only [perform, giveUp, expire, resume, hwaiting, hpending]
      | some request =>
          rcases hexpire : session.db.locks.expire txn request with ⟨verdict, locks⟩
          cases verdict <;> simp only [perform, giveUp, expire, hwaiting, hpending, hexpire, rest,
            note, Option.elim]

namespace Registered

variable {catalog : Catalog}

/-- A call that rests is of a table of the catalog. -/
theorem rest (hregistered : session.Registered catalog) {rested : Status × Database}
    (hstatus : rested.1.Registered catalog) :
    (session.rest txn rested).2.Registered catalog := by
  obtain ⟨status, db⟩ := rested
  intro other operation hwaiting
  cases status with
  | ended answer =>
      simp only [Session.rest, note, Std.ExtTreeMap.getElem?_erase] at hwaiting
      split at hwaiting
      · simp at hwaiting
      · exact hregistered other operation hwaiting
  | blocked resting | paused resting =>
      simp only [Session.rest, note, Std.ExtTreeMap.getElem?_insert] at hwaiting
      split at hwaiting
      · rw [← Option.some.inj hwaiting]
        exact hstatus
      · exact hregistered other operation hwaiting

theorem step (hregistered : session.Registered catalog) (txn : TxnId) :
    (session.step txn).2.Registered catalog := by
  simp only [Session.step]
  split
  · exact hregistered
  · rename_i operation hwaiting _
    exact hregistered.rest (Database.runFor_registered 1 _ txn (hregistered txn operation hwaiting))
  · rename_i operation request hwaiting _
    split
    · exact hregistered
    · exact hregistered.rest
        (Database.resumeFor_registered 0 _ txn request (hregistered txn operation hwaiting))

theorem expire (hregistered : session.Registered catalog) (txn : TxnId) :
    (session.expire txn).2.Registered catalog := by
  simp only [Session.expire]
  split
  · split
    · exact hregistered.rest trivial
    · exact hregistered
  · exact hregistered

theorem resume (hregistered : session.Registered catalog) (txn : TxnId) :
    (session.perform (.resume txn)).2.Registered catalog := by
  simp only [perform, Session.resume]
  split
  · rename_i operation request hwaiting _
    split
    · exact hregistered
    · obtain ⟨fuel, hresume, _⟩ := session.db.resume_eq_resumeFor txn operation request
      rw [hresume]
      exact hregistered.rest
        (Database.resumeFor_registered fuel _ txn request (hregistered txn operation hwaiting))
  · exact hregistered

theorem giveUp (hregistered : session.Registered catalog) (txn : TxnId) :
    (session.perform (.giveUp txn)).2.Registered catalog := by
  have hexpired := hregistered.expire txn
  rw [perform_giveUp]
  rcases hexpire : session.expire txn with ⟨reply, after⟩
  rw [hexpire] at hexpired
  cases reply with
  | waits => exact hexpired.resume txn
  | answered | finished => exact hexpired

end Registered

/-- Operations and flushes leave the calls that wait of tables of the catalog. -/
theorem Proper.registered_use (hproper : session.Proper layout)
    (hkind : use.isOperation = true ∨ use.isFlush = true) :
    (session.use use).Registered session.db.catalog := by
  have hregistered := hproper.registered
  have hbegins := fun txn call => Database.begin_registered hproper.guarded.sound txn call
  rcases hkind with hoperation | hflush
  · cases use with
    | begin txn call =>
        exact hregistered.rest (Database.runFor_registered 0 _ txn (hbegins txn call))
    | step txn => exact hregistered.step txn
    | expire txn => exact hregistered.expire txn
    | write => simp [Use.isOperation] at hoperation
    | event event =>
        cases event with
        | call txn call =>
            obtain ⟨fuel, hrun, _⟩ := (session.db.begin txn call).2.run_eq_runFor txn
              (session.db.begin txn call).1
            have hstatus := Database.runFor_registered fuel (session.db.begin txn call).2 txn
              (hbegins txn call)
            rw [← hrun] at hstatus
            exact hregistered.rest hstatus
        | resume txn => exact hregistered.resume txn
        | giveUp txn => exact hregistered.giveUp txn
        | complete txn commits => exact hregistered
        | flushPage | flushOf | flushAll | discard | changeCatalog =>
            simp [Use.isOperation] at hoperation
  · obtain ⟨pages, hafter⟩ := session.use_of_isFlush hflush
    rw [hafter]
    exact hregistered

/-- Operations and flushes leave a session proper. -/
theorem Proper.undertake (hproper : session.Proper layout) (hallows : session.Allows use)
    (hkind : use.isOperation = true ∨ use.isFlush = true) : (session.use use).Proper layout := by
  have htidy : (session.use use).db.Tidy layout ∧
      (session.use use).db.catalog = session.db.catalog := by
    rcases hkind with hoperation | hflush
    · cases hproper.guarded.outcome hallows with
      | work txn _ hacted => exact ⟨hacted.acts.work.tidy hproper.tidy, hacted.acts.work.catalog⟩
      | complete txn commits huse =>
          obtain rfl : use = _ := huse
          cases commits with
          | true => exact ⟨hproper.tidy.commit txn, (hproper.tidy.flushEach_twins _).catalog⟩
          | false =>
              obtain ⟨_, _, hcatalog, _⟩ :=
                Database.rollBack_undone hproper.tidy.placed hproper.tidy.intact txn
              exact ⟨hproper.tidy.abort txn, hcatalog⟩
      | write txn ref bytes huse =>
          obtain rfl : use = _ := huse
          simp [Use.isOperation] at hoperation
      | idle event huse hactor =>
          obtain rfl : use = _ := huse
          cases event <;> simp [Use.isOperation, Event.actor?] at hoperation hactor
    · obtain ⟨pages, hafter⟩ := session.use_of_isFlush hflush
      rw [hafter]
      exact ⟨hproper.tidy.flushEach pages, (hproper.tidy.flushEach_twins pages).catalog⟩
  refine ⟨(hproper.guarded.outcome hallows).guarded hproper.guarded, htidy.1, ?_⟩
  rw [htidy.2]
  exact hproper.registered_use hkind

/-- A call that waits is underway. -/
theorem Proper.underway (hproper : session.Proper layout) {operation : Operation}
    (hwaiting : session.waiting[txn]? = some operation) :
    session.db.Underway layout txn (.needs operation) where
  tidy := hproper.tidy
  regular := hproper.guarded.regular
  ready := (hproper.guarded.orderly.awaits txn operation hwaiting).1
  counted := hproper.guarded.counted txn operation hwaiting
  registered := hproper.registered txn operation hwaiting

/-- A flush leaves a session a mirror of what it was. -/
theorem Proper.mirrors_flush (hproper : session.Proper layout) (hflush : use.isFlush = true) :
    Mirrors layout session (session.use use) := by
  obtain ⟨pages, hafter⟩ := session.use_of_isFlush hflush
  rw [hafter]
  exact ⟨hproper.tidy.flushEach_twins pages, rfl⟩

namespace Mirrors

/-- A transaction waits in both sessions with the same call and the same request. -/
theorem waits (hmirrors : Mirrors layout session mirror) (txn : TxnId) :
    mirror.waiting[txn]? = session.waiting[txn]? ∧
      mirror.db.locks.pending[txn]? = session.db.locks.pending[txn]? := by
  rw [hmirrors.waiting, hmirrors.twins.locks.pending]
  exact ⟨rfl, rfl⟩

/-- A call has come equally far in both sessions. -/
theorem rest (hmirrors : Mirrors layout session mirror) {rested other : Status × Database}
    (hstep : Status.InStep layout rested other) (txn : TxnId) :
    InStep layout (some txn) (session.rest txn rested) (mirror.rest txn other) := by
  obtain ⟨status, db⟩ := rested
  obtain ⟨status', twin⟩ := other
  obtain ⟨hagrees, htwins⟩ := hstep
  have hpending : twin.locks.pending = db.locks.pending := htwins.locks.pending
  cases hagrees with
  | ended hsame =>
      refine ⟨congrArg Told.answered hsame, htwins, ?_⟩
      simp only [Session.rest, note, hmirrors.waiting]
  | blocked operation | paused operation =>
      refine ⟨?_, htwins, ?_⟩
      · simp only [Session.rest, note, tell, Option.elim_none, hmirrors.waiting, hpending]
      · simp only [Session.rest, note, hmirrors.waiting]

/-- A call that waits goes on waiting in both sessions. -/
theorem stay (hmirrors : Mirrors layout session mirror) (txn : Option TxnId) :
    InStep layout txn (.waits, session) (.waits, mirror) := by
  refine ⟨?_, hmirrors⟩
  simp only [tell, hmirrors.waiting, hmirrors.twins.locks.pending]

theorem lacksRoom_rest (session : Session) (txn : TxnId) (rested : Status × Database) :
    (session.rest txn rested).1.lacksRoom = rested.1.lacksRoom := by
  obtain ⟨status, db⟩ := rested
  cases status <;> rfl

/-- Both take a call further, if neither lacks room. -/
theorem step (hmirrors : Mirrors layout session mirror) (hproper : session.Proper layout)
    (hother : mirror.Proper layout) (hroom : (session.step txn).1.lacksRoom = false)
    (hroom' : (mirror.step txn).1.lacksRoom = false) :
    InStep layout (some txn) (session.step txn) (mirror.step txn) := by
  have htwins := hmirrors.twins
  obtain ⟨hwaiting', hpending'⟩ := hmirrors.waits txn
  cases hwaiting : session.waiting[txn]? with
  | none =>
      simp only [Session.step, hwaiting', hwaiting]
      exact hmirrors.stay (some txn)
  | some operation =>
      have hunderway := hproper.underway hwaiting
      have hunderway' := hother.underway (hwaiting'.trans hwaiting)
      cases hpending : session.db.locks.pending[txn]? with
      | none =>
          simp only [Session.step, hwaiting', hwaiting, hpending', hpending, lacksRoom_rest]
            at hroom hroom' ⊢
          exact hmirrors.rest (htwins.runFor 1 (.needs operation) hunderway hunderway' hpending
            hroom hroom') txn
      | some request =>
          have hdemand := (hproper.guarded.orderly.awaits txn operation hwaiting).2 request hpending
          simp only [Session.step, hwaiting', hwaiting, hpending', hpending] at hroom hroom' ⊢
          cases hasleep : request.asleep with
          | true =>
              simp only [if_true]
              exact hmirrors.stay (some txn)
          | false =>
              simp only [hasleep, Bool.false_eq_true, if_false, lacksRoom_rest]
                at hroom hroom' ⊢
              exact hmirrors.rest (htwins.resumeFor 0 hunderway hunderway' hpending hdemand hroom
                hroom') txn

/-- In both a call goes on that has waited, if neither lacks room. -/
theorem resume (hmirrors : Mirrors layout session mirror) (hproper : session.Proper layout)
    (hother : mirror.Proper layout) (hroom : (session.perform (.resume txn)).1.lacksRoom = false)
    (hroom' : (mirror.perform (.resume txn)).1.lacksRoom = false) :
    InStep layout (some txn) (session.perform (.resume txn)) (mirror.perform (.resume txn)) := by
  have htwins := hmirrors.twins
  obtain ⟨hwaiting', hpending'⟩ := hmirrors.waits txn
  cases hwaiting : session.waiting[txn]? with
  | none =>
      simp only [perform, Session.resume, hwaiting', hwaiting]
      exact hmirrors.stay (some txn)
  | some operation =>
      cases hpending : session.db.locks.pending[txn]? with
      | none =>
          simp only [perform, Session.resume, hwaiting', hwaiting, hpending', hpending]
          exact hmirrors.stay (some txn)
      | some request =>
          have hdemand := (hproper.guarded.orderly.awaits txn operation hwaiting).2 request hpending
          simp only [perform, Session.resume, hwaiting', hwaiting, hpending', hpending]
            at hroom hroom' ⊢
          cases hasleep : request.asleep with
          | true =>
              simp only [if_true]
              exact hmirrors.stay (some txn)
          | false =>
              simp only [hasleep, Bool.false_eq_true, if_false] at hroom hroom' ⊢
              have hresumed := htwins.resume (hproper.underway hwaiting)
                (hother.underway (hwaiting'.trans hwaiting)) hpending hdemand
                (lacksRoom_rest session txn _ ▸ hroom) (lacksRoom_rest mirror txn _ ▸ hroom')
              exact hmirrors.rest hresumed txn

/-- Both refuse the request of a call that has waited too long, or wake it. -/
theorem expire (hmirrors : Mirrors layout session mirror) (txn : TxnId) :
    InStep layout (some txn) (session.expire txn) (mirror.expire txn) := by
  have htwins := hmirrors.twins
  obtain ⟨hwaiting', hpending'⟩ := hmirrors.waits txn
  cases hwaiting : session.waiting[txn]? with
  | none =>
      simp only [Session.expire, hwaiting', hwaiting]
      exact hmirrors.stay (some txn)
  | some operation =>
      cases hpending : session.db.locks.pending[txn]? with
      | none =>
          simp only [Session.expire, hwaiting', hwaiting, hpending', hpending]
          exact hmirrors.stay (some txn)
      | some request =>
          obtain ⟨hsame, halike⟩ := htwins.locks.expire txn request
          rcases hdb : session.db.locks.expire txn request with ⟨verdict, locks⟩
          rcases htwin : mirror.db.locks.expire txn request with ⟨verdict', others⟩
          simp only [hdb, htwin] at hsame halike
          subst hsame
          have hleft := htwins.setLocks halike
          have hkept : Mirrors layout { session with db := { session.db with locks } }
              { mirror with db := { mirror.db with locks := others } } :=
            ⟨hleft, hmirrors.waiting⟩
          simp only [Session.expire, hwaiting', hwaiting, hpending', hpending, hdb, htwin]
          cases verdict' with
          | refused reason => exact hmirrors.rest (hleft.refuse operation _) txn
          | granted | waits => exact hkept.stay (some txn)

/-- Both begin a call. -/
theorem begin (hmirrors : Mirrors layout session mirror) (hproper : session.Proper layout)
    (txn : TxnId) (call : Call) :
    InStep layout (some txn) (session.undertake (.begin txn call))
      (mirror.undertake (.begin txn call)) :=
  hmirrors.rest ((hmirrors.twins.begin hproper.tidy txn call).runFor_zero txn) txn

/-- Both run a call until it ends or has to wait, if neither lacks room. -/
theorem call (hmirrors : Mirrors layout session mirror) (hproper : session.Proper layout)
    (hother : mirror.Proper layout) (hallows : session.waiting[txn]? = none) (call : Call)
    (hroom : (session.perform (.call txn call)).1.lacksRoom = false)
    (hroom' : (mirror.perform (.call txn call)).1.lacksRoom = false) :
    InStep layout (some txn) (session.perform (.call txn call))
      (mirror.perform (.call txn call)) := by
  obtain ⟨hagrees, htwins⟩ := hmirrors.twins.begin hproper.tidy txn call
  have hbegins := Database.begin_advances hproper.guarded.sound txn call
  have hrun := htwins.run hagrees
    (hproper.tidy.begin_underway hproper.guarded.regular txn call)
    (hother.tidy.begin_underway hother.guarded.regular txn call)
    (hbegins.pending (hproper.guarded.orderly.pending txn hallows))
    (lacksRoom_rest session txn _ ▸ hroom) (lacksRoom_rest mirror txn _ ▸ hroom')
  exact hmirrors.rest hrun txn

/-- In both a call gives up that has waited too long, or goes on if its request could be met by now,
if neither lacks room. -/
theorem giveUp (hmirrors : Mirrors layout session mirror) (hproper : session.Proper layout)
    (hother : mirror.Proper layout) (hroom : (session.perform (.giveUp txn)).1.lacksRoom = false)
    (hroom' : (mirror.perform (.giveUp txn)).1.lacksRoom = false) :
    InStep layout (some txn) (session.perform (.giveUp txn)) (mirror.perform (.giveUp txn)) := by
  have hexpired := hmirrors.expire txn
  have hleft : (session.expire txn).2.Proper layout :=
    @Proper.undertake layout session (.expire txn) hproper trivial (.inl rfl)
  have hleft' : (mirror.expire txn).2.Proper layout :=
    @Proper.undertake layout mirror (.expire txn) hother trivial (.inl rfl)
  rw [perform_giveUp] at hroom hroom' ⊢
  rw [perform_giveUp]
  rcases hdb : session.expire txn with ⟨reply, after⟩
  rcases htwin : mirror.expire txn with ⟨reply', after'⟩
  simp only [hdb, htwin] at hexpired hleft hleft' hroom hroom' ⊢
  have htold := hexpired.told
  cases reply with
  | waits =>
      cases reply' with
      | waits => exact hexpired.mirrors.resume hleft hleft' hroom hroom'
      | answered | finished => simp [tell] at htold
  | answered | finished =>
      cases reply' with
      | waits => simp [tell] at htold
      | answered | finished => exact hexpired

/-- A transaction ends in both. -/
theorem complete (hmirrors : Mirrors layout session mirror) (hproper : session.Proper layout)
    (hother : mirror.Proper layout) (txn : TxnId) (commits : Bool) :
    InStep layout (some txn) (session.undertake (.event (.complete txn commits)))
      (mirror.undertake (.event (.complete txn commits))) := by
  have hplaced := hproper.tidy.placed
  have hplaced' := hother.tidy.placed
  cases commits with
  | true =>
      obtain ⟨hok, _⟩ := hproper.tidy.intact.commit hplaced txn
      obtain ⟨hok', _⟩ := hother.tidy.intact.commit hplaced' txn
      exact ⟨congrArg Told.finished (hok'.trans hok.symm),
        hmirrors.twins.commit hproper.tidy hother.tidy txn, hmirrors.waiting⟩
  | false =>
      obtain ⟨hok, _⟩ := hproper.tidy.intact.abort hplaced txn
      obtain ⟨hok', _⟩ := hother.tidy.intact.abort hplaced' txn
      exact ⟨congrArg Told.finished (hok'.trans hok.symm),
        hmirrors.twins.abort hproper.tidy hother.tidy txn, hmirrors.waiting⟩

/-- An operation of a transaction takes both sessions a step further, if neither lacks room. -/
theorem undertake (hmirrors : Mirrors layout session mirror) (hproper : session.Proper layout)
    (hother : mirror.Proper layout) (hallows : session.Allows use)
    (hoperation : use.isOperation = true)
    (hroom : (Occasion.mk session use).reply.lacksRoom = false)
    (hroom' : (Occasion.mk mirror use).reply.lacksRoom = false) :
    (Occasion.mk mirror use).told = (Occasion.mk session use).told ∧
      Mirrors layout (session.use use) (mirror.use use) := by
  have hstep : InStep layout use.actor? (session.undertake use) (mirror.undertake use) := by
    cases use with
    | begin txn call => exact hmirrors.begin hproper txn call
    | step txn => exact hmirrors.step hproper hother hroom hroom'
    | expire txn => exact hmirrors.expire txn
    | write => simp [Use.isOperation] at hoperation
    | event event =>
        cases event with
        | call txn call => exact hmirrors.call hproper hother hallows call hroom hroom'
        | resume txn => exact hmirrors.resume hproper hother hroom hroom'
        | giveUp txn => exact hmirrors.giveUp hproper hother hroom hroom'
        | complete txn commits => exact hmirrors.complete hproper hother txn commits
        | flushPage | flushOf | flushAll | discard | changeCatalog =>
            simp [Use.isOperation] at hoperation
  exact ⟨hstep.told, hstep.mirrors⟩

end Mirrors

end Session

end RowStore
