import RowStore.Proofs.Session.Guarded

/-!
# Courses of a session

The events of a run let a call go on undisturbed until it ends or has to wait. A course takes a
session through smaller parts as well: a call makes one demand at a time, and between two of them
anything may happen that the others do. And a transaction that was given the frame of a page may
write to it as long as it holds the page exclusively. `Use` is one part of a course, and `Outcome`
says what a use can do that may happen in a guarded session, which stays guarded.
-/

namespace RowStore

/-- One part of what a session is used for. -/
inductive Use where
  | event (event : Event)
  /-- A transaction makes a call, which has made no demand yet. -/
  | begin (txn : TxnId) (call : Call)
  /-- A call that waits for no lock makes its next demand, or one that waits goes on if its request
  is awake. It stops before the next demand. -/
  | step (txn : TxnId)
  /-- A call has waited too long. Its request is refused, or woken if it could be met by now. -/
  | expire (txn : TxnId)
  /-- A transaction writes to the frame of a page. -/
  | write (txn : TxnId) (ref : FrameRef) (bytes : Bytes)
deriving DecidableEq

namespace Use

/-- The transaction that does something in the use. -/
def actor? : Use → Option TxnId
  | event happened => happened.actor?
  | begin txn _ | step txn | expire txn | write txn .. => some txn

/-- The page that the use drops from the cache without writing it. -/
def dropped? : Use → Option PageId
  | event happened => happened.dropped?
  | begin .. | step _ | expire _ | write .. => none

end Use

namespace Session

/-- Take the call of a transaction through its next demand. -/
def step (session : Session) (txn : TxnId) : Reply × Session :=
  match session.waiting[txn]?, session.db.locks.pending[txn]? with
  | none, _ => (.waits, session)
  | some operation, none =>
      session.rest txn (session.db.runFor 1 txn (.needs operation))
  | some operation, some request =>
      if request.asleep then (.waits, session)
      else session.rest txn (session.db.resumeFor 0 txn operation request)

/-- Refuse the request that a call waits with, or wake it if it could be met by now. -/
def expire (session : Session) (txn : TxnId) : Reply × Session :=
  match session.waiting[txn]?, session.db.locks.pending[txn]? with
  | some operation, some request =>
      match session.db.locks.expire txn request with
      | (.refused reason, locks) =>
          session.rest txn (.ended (operation.refuse (.aborted txn request.page reason)),
            { session.db with locks })
      | (_, locks) => (.waits, { session with db := { session.db with locks } })
  | _, _ => (.waits, session)

/-- Let a use happen. -/
def undertake (session : Session) : Use → Reply × Session
  | .event event => session.perform event
  | .begin txn call =>
      let (progress, db) := session.db.begin txn call
      session.rest txn (db.runFor 0 txn progress)
  | .step txn => session.step txn
  | .expire txn => session.expire txn
  | .write txn ref bytes =>
      let (result, db) := session.db.modifyFrame ref txn fun page =>
        (page.restore bytes).map fun page => (page, ())
      (.finished result, { session with db })

/-- The session after a use. -/
def use (session : Session) (use : Use) : Session :=
  (session.undertake use).2

/-- The use may happen now: whoever makes a call, ends, or writes has no call outstanding, and
whoever writes holds the page exclusively. -/
def Allows (session : Session) : Use → Prop
  | .event (.call txn _) | .event (.complete txn _) | .begin txn _ => session.waiting[txn]? = none
  | .write txn ref _ => session.waiting[txn]? = none ∧
      (session.db.locks.lockOf ref.page).exclusive = some txn
  | .event _ | .step _ | .expire _ => True

instance (session : Session) (use : Use) : Decidable (session.Allows use) :=
  match use with
  | .event (.call ..) | .event (.complete ..) | .begin .. => inferInstanceAs (Decidable (_ = _))
  | .write .. => inferInstanceAs (Decidable (_ ∧ _))
  | .event (.resume _) | .event (.giveUp _) | .event (.flushPage _) | .event (.flushOf _)
  | .event .flushAll | .event (.discard _) | .event (.changeCatalog _) | .step _ | .expire _ =>
      isTrue trivial

end Session

/-- A use, and the session in which it happened. -/
structure Occasion where
  session : Session
  use : Use

namespace Occasion

/-- What the use came to. -/
def reply (occasion : Occasion) : Reply :=
  (occasion.session.undertake occasion.use).1

/-- The session after the use. -/
def after (occasion : Occasion) : Session :=
  occasion.session.use occasion.use

/-- The accesses to pages that were made under locks, in their order. -/
def accesses (occasion : Occasion) : List Access :=
  match occasion.use with
  | .event event => Moment.accesses ⟨occasion.session, event⟩
  | .step txn =>
      match occasion.session.waiting[txn]?, occasion.session.db.locks.pending[txn]? with
      | none, _ => []
      | some operation, none => occasion.session.db.accessesFor 1 txn (.needs operation)
      | some operation, some request =>
          if request.asleep then []
          else occasion.session.db.accessesOfResumedFor 0 txn operation request
  | .begin .. | .expire _ | .write .. => []

/-- Where no transaction acts there is no access. -/
theorem accesses_of_idle (session : Session) {event : Event} (hactor : event.actor? = none) :
    accesses ⟨session, .event event⟩ = [] := by
  cases event with
  | call | resume | giveUp | complete => simp [Event.actor?] at hactor
  | flushPage | flushOf | flushAll | discard | changeCatalog => rfl

end Occasion

/-- The courses that a session can take, with their histories. -/
inductive Session.Course (start : Session) : List Occasion → Session → Prop where
  | start : Course start [] start
  | step {history : List Occasion} {session : Session} {use : Use} :
      Course start history session → session.Allows use →
      Course start (history ++ [⟨session, use⟩]) (session.use use)

namespace Session

/-- The occasions on which uses happen one after the other. -/
def occasions (session : Session) : List Use → List Occasion
  | [] => []
  | use :: rest => ⟨session, use⟩ :: (session.use use).occasions rest

/-- The session after uses have happened one after the other. -/
def useEach (session : Session) (uses : List Use) : Session :=
  uses.foldl Session.use session

/-- The uses may happen one after the other. -/
def AllowsEach (session : Session) : List Use → Prop
  | [] => True
  | use :: rest => session.Allows use ∧ (session.use use).AllowsEach rest

instance decidableAllowsEach (session : Session) : (uses : List Use) →
    Decidable (session.AllowsEach uses)
  | [] => isTrue trivial
  | use :: rest =>
      have := decidableAllowsEach (session.use use) rest
      inferInstanceAs (Decidable (_ ∧ _))

/-- Uses that may happen one after the other carry a course on. -/
theorem Course.of_uses {start session : Session} {history : List Occasion} {uses : List Use}
    (hcourse : Course start history session) (hallows : session.AllowsEach uses) :
    Course start (history ++ session.occasions uses) (session.useEach uses) := by
  induction uses generalizing session history with
  | nil =>
      rw [occasions, List.append_nil]
      exact hcourse
  | cons use rest ih =>
      rw [occasions, List.append_cons]
      exact ih (hcourse.step hallows.1) hallows.2

end Session

/-- What a use does is the work of a transaction, whichever pages it holds. -/
def Occasion.ActedBy (occasion : Occasion) (txn : TxnId) : Prop :=
  ∀ pages, occasion.session.db.Retains txn pages →
    (∀ page ∈ pages, occasion.session.db.locks.holdsLock txn page = true) →
    Acts txn pages occasion.session occasion.accesses occasion.reply occasion.after

theorem Occasion.ActedBy.acts {occasion : Occasion} {txn : TxnId} (h : occasion.ActedBy txn) :
    Acts txn [] occasion.session occasion.accesses occasion.reply occasion.after :=
  h [] (by simp [Database.Retains]) (by simp)

/-- What a use can do to a session. -/
inductive Outcome (occasion : Occasion) : Prop where
  /-- A transaction works. -/
  | work (txn : TxnId) :
      occasion.use.actor? = some txn → occasion.ActedBy txn → Outcome occasion
  /-- A transaction ends that waits for nothing. -/
  | complete (txn : TxnId) (commits : Bool) :
      occasion.use = .event (.complete txn commits) →
      occasion.session.db.locks.pending[txn]? = none → Outcome occasion
  /-- A transaction writes to a page that it holds exclusively. -/
  | write (txn : TxnId) (ref : FrameRef) (bytes : Bytes) :
      occasion.use = .write txn ref bytes →
      (occasion.session.db.locks.lockOf ref.page).exclusive = some txn → Outcome occasion
  /-- No transaction acts. -/
  | idle (event : Event) :
      occasion.use = .event event → event.actor? = none → Outcome occasion

namespace Session

variable {session : Session} {use : Use} {txn : TxnId} {pages : List PageId}

/-- A call that is taken through its next demand. -/
theorem Guarded.step_acts (hguarded : session.Guarded) (hretains : session.db.Retains txn pages)
    (hholds : ∀ page ∈ pages, session.db.locks.holdsLock txn page = true) :
    Acts txn pages session (Occasion.mk session (.step txn)).accesses (session.step txn).1
      (session.step txn).2 := by
  cases hwaiting : session.waiting[txn]? with
  | none =>
      simp only [step, Occasion.accesses, hwaiting]
      exact hguarded.acts_nothing hretains
  | some operation =>
      cases hpending : session.db.locks.pending[txn]? with
      | none =>
          simp only [step, Occasion.accesses, hwaiting, hpending]
          exact hguarded.runFor_acts 1 hwaiting hpending hretains hholds
      | some request =>
          cases hasleep : request.asleep with
          | true =>
              simp only [step, Occasion.accesses, hwaiting, hpending, hasleep, if_true]
              exact hguarded.acts_nothing hretains
          | false =>
              simp only [step, Occasion.accesses, hwaiting, hpending, hasleep, Bool.false_eq_true,
                if_false]
              exact hguarded.resumeFor_acts 0 hwaiting hpending hretains hholds

/-- A call that has waited too long. -/
theorem Guarded.expire_acts (hguarded : session.Guarded) (hretains : session.db.Retains txn pages)
    (hholds : ∀ page ∈ pages, session.db.locks.holdsLock txn page = true) :
    Acts txn pages session [] (session.expire txn).1 (session.expire txn).2 := by
  cases hwaiting : session.waiting[txn]? with
  | none =>
      simp only [expire, hwaiting]
      exact hguarded.acts_nothing hretains
  | some operation =>
      cases hpending : session.db.locks.pending[txn]? with
      | none =>
          simp only [expire, hwaiting, hpending]
          exact hguarded.acts_nothing hretains
      | some request =>
          rcases (LockTable.expire_serves session.db.locks txn request).2 with
            ⟨locks, hexpire, hkept⟩ | ⟨reason, locks, hexpire, hnone⟩
          · simp only [expire, hwaiting, hpending, hexpire]
            exact hguarded.woken_acts hwaiting hpending hexpire hkept hretains
          · simp only [expire, hwaiting, hpending, hexpire]
            exact hguarded.refused_acts hwaiting hpending hexpire hnone hretains hholds

/-- What a use does that may happen in a guarded session. -/
theorem Guarded.outcome (hguarded : session.Guarded) (hallows : session.Allows use) :
    Outcome ⟨session, use⟩ := by
  cases use with
  | begin txn call =>
      refine .work txn rfl fun pages hretains hholds => ?_
      have hacts := hguarded.begin_acts 0 hallows hretains hholds call
      rwa [Database.accessesFor_zero] at hacts
  | step txn => exact .work txn rfl fun pages => hguarded.step_acts
  | expire txn => exact .work txn rfl fun pages => hguarded.expire_acts
  | write txn ref bytes => exact .write txn ref bytes rfl hallows.2
  | event event =>
      cases event with
      | call txn call =>
          exact .work txn rfl fun pages hretains hholds =>
            hguarded.call_acts hallows hretains hholds call
      | resume txn => exact .work txn rfl fun pages => hguarded.resume_acts
      | giveUp txn => exact .work txn rfl fun pages => hguarded.giveUp_acts
      | complete txn commits =>
          exact .complete txn commits rfl (hguarded.orderly.pending txn hallows)
      | flushPage | flushOf | flushAll | discard | changeCatalog => exact .idle _ rfl rfl

end Session

namespace Occasion

variable {session : Session} {txn : TxnId} {page : PageId}

/-- The end of a transaction touches those pages that an abort has a before-image of. -/
theorem after_complete (session : Session) (txn : TxnId) (commits : Bool) :
    ∃ db, Undisturbed (fun page => (session.db.journal.image? txn page).isSome = true)
        session.db db ∧
      after ⟨session, .event (.complete txn commits)⟩ =
        { session with db := db.finish txn, active := session.active.erase txn } :=
  Session.Guarded.complete_undisturbed session txn commits

/-- Whoever ends gives up its holds, and no other lock is changed. -/
theorem locks_complete (session : Session) (txn : TxnId) (commits : Bool) :
    (after ⟨session, .event (.complete txn commits)⟩).db.locks =
      session.db.locks.releaseAll txn := by
  obtain ⟨db, hundisturbed, hafter⟩ := after_complete session txn commits
  rw [hafter, ← hundisturbed.locks]
  rfl

/-- A write changes nothing but the cache, where the frame of its page is as it was, or holds what
was written. -/
theorem after_write (session : Session) (txn : TxnId) (ref : FrameRef) (bytes : Bytes) :
    ∃ cache : Cache, after ⟨session, .write txn ref bytes⟩ =
        { session with db := { session.db with cache } } ∧
      ∀ page : PageId, cache.frames[page]? = session.db.cache.frames[page]? ∨
        ref.page = page ∧ ∃ (resident : Resident) (changed : HeapPage),
          session.db.cache.frames[page]? = some resident ∧
          resident.page.restore bytes = .ok changed ∧
          reply ⟨session, .write txn ref bytes⟩ = .finished (.ok ()) ∧
          cache.frames[page]? = some { resident with toFrame := ⟨changed, some txn⟩ } := by
  obtain ⟨cache, hcache, hframes⟩ := session.db.modifyFrame_cases ref txn fun page =>
    (page.restore bytes).map fun page => (page, ())
  refine ⟨cache, ?_, fun page => ?_⟩
  · simp only [after, Session.use, Session.undertake, hcache]
  · refine (hframes page).imp_right ?_
    rintro ⟨hpage, resident, changed, _, hbefore, hchange, hresult, hafter⟩
    refine ⟨hpage, resident, changed, hbefore, ?_, congrArg Reply.finished hresult, hafter⟩
    cases hrestore : resident.page.restore bytes with
    | error error => simp [hrestore, Except.map] at hchange
    | ok restored =>
        simp only [hrestore, Except.map, Except.ok.injEq, Prod.mk.injEq] at hchange
        rw [hchange.1]

/-- A write leaves the locks as they are and the session guarded. -/
theorem write_idle (hguarded : session.Guarded) (txn : TxnId) (ref : FrameRef) (bytes : Bytes) :
    Idle (some ref.page) session (after ⟨session, .write txn ref bytes⟩) := by
  obtain ⟨cache, hafter, hframes⟩ := after_write session txn ref bytes
  rw [hafter]
  refine ⟨⟨hguarded.orderly.of_locks_eq rfl rfl, hguarded.sound, hguarded.regular,
    hguarded.counted, hguarded.owner⟩, rfl, fun page hpage => ?_⟩
  rcases hframes page with hsame | ⟨hpage', _⟩
  · exact congrArg (Option.map fun resident : Resident => resident.page.bytes) hsame
  · exact absurd (congrArg some hpage') hpage

/-- A use in which no transaction acts leaves the locks as they are and the session guarded. -/
theorem event_idle (hguarded : session.Guarded) {event : Event} (hactor : event.actor? = none) :
    Idle event.dropped? session (after ⟨session, .event event⟩) :=
  hguarded.apply_idle hactor

end Occasion

/-- Every use keeps a session guarded. -/
theorem Outcome.guarded {occasion : Occasion} (houtcome : Outcome occasion)
    (hguarded : occasion.session.Guarded) : occasion.after.Guarded := by
  obtain ⟨session, use⟩ := occasion
  cases houtcome with
  | work txn _ hacted => exact hacted.acts.guarded
  | complete txn commits huse =>
      obtain rfl : use = _ := huse
      obtain ⟨db, hundisturbed, hafter⟩ := Occasion.after_complete session txn commits
      rw [hafter]
      exact (hguarded.of_undisturbed hundisturbed).finish txn _
  | write txn ref bytes huse =>
      obtain rfl : use = _ := huse
      exact (Occasion.write_idle hguarded txn ref bytes).guarded
  | idle event huse hactor =>
      obtain rfl : use = _ := huse
      exact (Occasion.event_idle hguarded hactor).guarded

namespace Session

variable {start session last : Session} {history : List Occasion} {occasion : Occasion}

/-- A session over a database that was opened is guarded. -/
theorem Guarded.of_opened {db : Database} (hopened : db.Opened) : Guarded { db } := by
  obtain ⟨hsound, _, hjournal, hlocks⟩ := hopened.sound
  refine ⟨⟨by simp, ?_⟩, hsound, ?_, by simp, ?_⟩
  · intro txn _
    simp [hlocks]
  · rw [hlocks]
    exact LockTable.regular_empty
  · intro txn page himage
    simp [hjournal] at himage

namespace Course

/-- A course comes to its last use in the session that the history remembers. -/
theorem of_append (hcourse : Course start (history ++ [occasion]) last) :
    Course start history occasion.session ∧ occasion.session.Allows occasion.use ∧
      last = occasion.after := by
  generalize hfull : history ++ [occasion] = full at hcourse
  cases hcourse with
  | start => simp at hfull
  | step hcourse hallows =>
      obtain ⟨rfl, hlast⟩ := List.append_inj' hfull rfl
      rw [List.singleton_inj] at hlast
      subst hlast
      exact ⟨hcourse, hallows, rfl⟩

/-- What holds after each of the last uses of a course holds in the session that it comes to. -/
theorem holds_at_end (holds : Session → Prop) {earlier later : List Occasion} {first : Occasion}
    (hcourse : Course start (earlier ++ first :: later) session)
    (hholds : ∀ held ∈ first :: later, holds held.after) : holds session := by
  rcases List.eq_nil_or_concat (first :: later) with hnil | ⟨front, last, hlast⟩
  · simp at hnil
  · rw [hlast, List.concat_eq_append, ← List.append_assoc] at hcourse
    rw [hcourse.of_append.2.2]
    exact hholds last (by simp [hlast])

/-- Every course of a guarded session keeps it guarded. -/
theorem guarded (hstart : start.Guarded) (hcourse : Course start history session) :
    session.Guarded := by
  induction hcourse with
  | start => exact hstart
  | step _ hallows ih => exact (ih.outcome hallows).guarded ih

end Course

end Session

end RowStore
