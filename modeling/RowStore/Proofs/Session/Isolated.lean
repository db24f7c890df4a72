import RowStore.Proofs.Session.Course
import RowStore.Proofs.Session.Undo

/-!
# Locked pages are isolated

`isolated` says for every course that a page that a transaction has accessed and holds since is
changed by no other one, but for what the rule for upgrades lets happen: another transaction that
reads the page as well is given its upgrade while the first one waits for its own, which it may be
refused later.
-/

namespace RowStore

/-- The transaction waits for the upgrade of a page. -/
def Session.AsksUpgrade (session : Session) (txn : TxnId) (page : PageId) : Prop :=
  ∃ request, session.db.locks.pending[txn]? = some request ∧ request.page = page ∧
    request.mode = .exclusive

/-- A transaction that waits for the upgrade of a page learns that it does not get it. -/
def Occasion.RefusesUpgrade (occasion : Occasion) (txn : TxnId) (page : PageId) : Prop :=
  occasion.session.AsksUpgrade txn page ∧ occasion.use.actor? = some txn ∧
    ∃ reason, occasion.reply = .answered (.error (.aborted txn page reason))

/-- All accesses in a work are those of its transaction. -/
theorem Work.txn_of_mem {txn : TxnId} {before after : Database} {accesses : List Access}
    {changes : List PageId} (hwork : Work txn before accesses changes after) :
    ∀ access ∈ accesses, access.txn = txn := by
  induction hwork with
  | none => simp
  | cons hact _ ih =>
      intro access haccess
      rcases List.mem_append.mp haccess with hfirst | hlater
      · cases hact with
        | read | note => rw [List.mem_singleton.mp hfirst]
        | lock | release | fetch | change | append => simp at hfirst
      · exact ih access hlater

/-- A work makes no request of another transaction. -/
theorem Work.pending_other {txn other : TxnId} {before after : Database} {accesses : List Access}
    {changes : List PageId} (hwork : Work txn before accesses changes after) (hother : other ≠ txn)
    {request : PendingRequest} (h : after.locks.pending[other]? = some request) :
    ∃ found, before.locks.pending[other]? = some found ∧ found.page = request.page ∧
      found.mode = request.mode := by
  induction hwork with
  | none => exact ⟨request, h, rfl, rfl⟩
  | cons hact _ ih =>
      obtain ⟨middle, hmiddle, hpage, hmode⟩ := ih h
      obtain ⟨found, hfound, hsamePage, hsameMode⟩ := hact.pending_other hother hmiddle
      exact ⟨found, hfound, hsamePage.trans hpage, hsameMode.trans hmode⟩

/-- A page that another transaction holds stays in the cache while a transaction works, with the
bytes that it has, unless the one that works holds it exclusively. -/
theorem Work.keeps_page {txn other : TxnId} {before after : Database} {accesses : List Access}
    {changes : List PageId} (hwork : Work txn before accesses changes after) (hother : other ≠ txn)
    {page : PageId} (hholds : before.locks.holdsLock other page = true)
    (hresident : (before.cache.frames[page]?).isSome = true) :
    after.locks.holdsLock other page = true ∧ (after.cache.frames[page]?).isSome = true ∧
      (after.cached? page = before.cached? page ∨
        (after.locks.lockOf page).exclusive = some txn) := by
  refine hwork.preserves (fun db => db.locks.holdsLock other page = true ∧
    (db.cache.frames[page]?).isSome = true ∧
      (db.cached? page = before.cached? page ∨ (db.locks.lockOf page).exclusive = some txn))
    ?_ ⟨hholds, hresident, .inl rfl⟩
  intro middle after _ _ hact ⟨hholds, hresident, hbytes⟩
  have howner : (middle.locks.lockOf page).exclusive = some txn →
      (after.locks.lockOf page).exclusive = some txn := by
    intro howner
    rcases hact.exclusive page with hsame | ⟨hnone, _⟩
    · rw [hsame, howner]
    · simp [hnone] at howner
  have hsame : after.cache.frames[page]? = middle.cache.frames[page]? →
      (after.cache.frames[page]?).isSome = true ∧ (after.cached? page = before.cached? page ∨
        (after.locks.lockOf page).exclusive = some txn) := by
    intro hframe
    refine ⟨hframe ▸ hresident, hbytes.imp (fun hbytes => ?_) howner⟩
    rw [← hbytes]
    exact congrArg (Option.map fun resident : Resident => resident.page.bytes) hframe
  cases hact with
  | lock hserves => exact ⟨hserves.keeps page other .shared hholds, hsame rfl⟩
  | release =>
      exact ⟨(LockTable.holdsLock_release_of_ne hother.symm _ page).trans hholds, hsame rfl⟩
  | fetch hfetched =>
      refine ⟨(hfetched.holds page other .shared).trans hholds, ?_⟩
      rcases hfetched.frames page with hframe | ⟨_, resident, hevicted⟩ | ⟨_, hnone, _⟩
      · exact hsame hframe
      · have hidle := LockState.holds_of_isIdle hevicted.idle other .shared
        rw [show (middle.locks.lockOf page).holds other .shared = true from hholds] at hidle
        simp at hidle
      · simp [hnone] at hresident
  | read | note | append => exact ⟨hholds, hsame rfl⟩
  | @change target resident changed hframe howned =>
      by_cases htarget : target = page
      · subst htarget
        refine ⟨hholds, ?_, .inr howned⟩
        simp [Cache.frames_setFrame, hframe]
      · refine ⟨hholds, hsame ?_⟩
        simp [Cache.frames_setFrame, htarget]

namespace Outcome

variable {occasion : Occasion} {txn holder other : TxnId} {page : PageId}

/-- The accesses of a use are those of the transaction that acts, and a page that was accessed is
in the cache if the transaction holds it. -/
theorem accessed (houtcome : Outcome occasion) {access : Access}
    (haccess : access ∈ occasion.accesses)
    (hholds : occasion.after.db.locks.holdsLock access.txn access.page = true) :
    (occasion.after.db.cache.frames[access.page]?).isSome = true := by
  obtain ⟨session, use⟩ := occasion
  cases houtcome with
  | work actor _ hacted =>
      rw [hacted.acts.work.txn_of_mem access haccess] at hholds
      exact hacted.acts.retains access.page (by simpa using ⟨access, haccess, rfl⟩) hholds
  | complete actor commits huse =>
      obtain rfl : use = _ := huse
      simp [Occasion.accesses, Moment.accesses] at haccess
  | write actor ref bytes huse =>
      obtain rfl : use = _ := huse
      simp [Occasion.accesses] at haccess
  | idle event huse hactor =>
      obtain rfl : use = _ := huse
      simp [Occasion.accesses_of_idle session hactor] at haccess

/-- Whoever is a shared holder beside an exclusive holder and does not wait for an upgrade was a
shared holder beside it before, and its upgrade was refused if it waited for one. -/
theorem beside (houtcome : Outcome occasion) (hguarded : occasion.session.Guarded)
    (howner : (occasion.after.db.locks.lockOf page).exclusive = some holder)
    (hshared : other ∈ (occasion.after.db.locks.lockOf page).shared)
    (hwaits : other ∉ (occasion.after.db.locks.lockOf page).upgrading) :
    (occasion.session.db.locks.lockOf page).exclusive = some holder ∧
      other ∈ (occasion.session.db.locks.lockOf page).shared ∧
      (other ∈ (occasion.session.db.locks.lockOf page).upgrading →
        occasion.RefusesUpgrade other page) := by
  have hregular := hguarded.regular
  have hidle : ∀ touched, Idle touched occasion.session occasion.after →
      (occasion.session.db.locks.lockOf page).exclusive = some holder ∧
      other ∈ (occasion.session.db.locks.lockOf page).shared ∧
      (other ∈ (occasion.session.db.locks.lockOf page).upgrading →
        occasion.RefusesUpgrade other page) := by
    intro touched hidle
    rw [hidle.locks] at howner hshared hwaits
    exact ⟨howner, hshared, fun hupgrading => absurd hupgrading hwaits⟩
  obtain ⟨session, use⟩ := occasion
  cases houtcome with
  | work txn hactor hacted =>
      have hacts := hacted.acts
      by_cases hsame : other = txn
      · subst hsame
        obtain ⟨howner', hshared'⟩ := hacts.spares.self hregular page holder howner hshared
        refine ⟨howner', hshared', fun hupgrading => ?_⟩
        obtain ⟨reason, hreply⟩ := hacts.refused page hupgrading hwaits hshared
        exact ⟨hregular.upgrading page other hupgrading, hactor, reason, hreply⟩
      · obtain ⟨howner', hshared', hnot⟩ :=
          hacts.spares.beside hregular page holder other hsame howner hshared hwaits
        exact ⟨howner', hshared', fun hupgrading => absurd hupgrading hnot⟩
  | complete txn commits huse =>
      obtain rfl : use = _ := huse
      have hspares := LockTable.releaseAll_spares session.db.locks txn
      rw [Occasion.locks_complete session txn commits] at howner hshared hwaits
      by_cases hsame : other = txn
      · subst hsame
        rw [LockTable.lockOf_releaseAll, LockState.mem_shared_drop] at hshared
        exact absurd rfl hshared.1
      · obtain ⟨howner', hshared', hnot⟩ :=
          hspares.beside hregular page holder other hsame howner hshared hwaits
        exact ⟨howner', hshared', fun hupgrading => absurd hupgrading hnot⟩
  | write txn ref bytes huse =>
      obtain rfl : use = _ := huse
      exact hidle _ (Occasion.write_idle hguarded txn ref bytes)
  | idle event huse hactor =>
      obtain rfl : use = _ := huse
      exact hidle _ (Occasion.event_idle hguarded hactor)

/-- A page that a transaction holds before and after a use stays in the cache, if it is not
dropped. -/
theorem resident (houtcome : Outcome occasion) (hguarded : occasion.session.Guarded)
    (hholds : occasion.session.db.locks.holdsLock txn page = true)
    (hresident : (occasion.session.db.cache.frames[page]?).isSome = true)
    (hafter : occasion.after.db.locks.holdsLock txn page = true)
    (hkept : occasion.use.dropped? ≠ some page) :
    (occasion.after.db.cache.frames[page]?).isSome = true := by
  obtain ⟨session, use⟩ := occasion
  cases houtcome with
  | work actor _ hacted =>
      by_cases hsame : txn = actor
      · subst hsame
        refine (hacted [page] ?_ ?_).retains page (by simp) hafter
        · intro other hother _
          rwa [List.mem_singleton.mp hother]
        · intro other hother
          rwa [List.mem_singleton.mp hother]
      · exact (hacted.acts.work.keeps_page hsame hholds hresident).2.1
  | complete actor commits huse =>
      obtain rfl : use = _ := huse
      obtain ⟨db, hundisturbed, hfinish⟩ := Occasion.after_complete session actor commits
      rw [hfinish]
      exact (hundisturbed.resident page).trans hresident
  | write actor ref bytes huse =>
      obtain rfl : use = _ := huse
      obtain ⟨cache, hwritten, hframes⟩ := Occasion.after_write session actor ref bytes
      rw [hwritten]
      rcases hframes page with hsame | ⟨_, _, _, _, _, _, hframe⟩
      · exact hsame ▸ hresident
      · exact hframe ▸ rfl
  | idle event huse hactor =>
      obtain rfl : use = _ := huse
      have hidle := Occasion.event_idle hguarded hactor
      have hcached := congrArg Option.isSome (hidle.cached page hkept)
      simp only [Database.cached?, Option.isSome_map] at hcached
      exact hcached.trans hresident

/-- Another transaction makes no request on behalf of one. -/
theorem asksUpgrade (houtcome : Outcome occasion) (hguarded : occasion.session.Guarded)
    (hother : occasion.use.actor? ≠ some txn) (h : occasion.after.AsksUpgrade txn page) :
    occasion.session.AsksUpgrade txn page := by
  obtain ⟨session, use⟩ := occasion
  cases houtcome with
  | work actor hactor hacted =>
      have hne : txn ≠ actor := fun hsame => hother (hsame ▸ hactor)
      obtain ⟨request, hrequest, hpage, hmode⟩ := h
      obtain ⟨found, hfound, hsamePage, hsameMode⟩ :=
        hacted.acts.work.pending_other hne hrequest
      exact ⟨found, hfound, hsamePage.trans hpage, hsameMode.trans hmode⟩
  | complete actor commits huse =>
      obtain rfl : use = _ := huse
      obtain ⟨request, hrequest, hpage, hmode⟩ := h
      rw [Occasion.locks_complete session actor commits] at hrequest
      obtain ⟨found, hfound, hsamePage, hsameMode⟩ := LockTable.pending_releaseAll hrequest
      exact ⟨found, hfound, hsamePage.trans hpage, hsameMode.trans hmode⟩
  | write actor ref bytes huse =>
      obtain rfl : use = _ := huse
      rwa [Session.AsksUpgrade, (Occasion.write_idle hguarded actor ref bytes).locks] at h
  | idle event huse hactor =>
      obtain rfl : use = _ := huse
      rwa [Session.AsksUpgrade, (Occasion.event_idle hguarded hactor).locks] at h

/-- What a use of another transaction does to a page that a transaction holds: it stays held, and
its bytes are changed only by an exclusive holder. -/
theorem changes (houtcome : Outcome occasion) (hguarded : occasion.session.Guarded)
    (hother : occasion.use.actor? ≠ some txn)
    (hholds : occasion.session.db.locks.holdsLock txn page = true)
    (hresident : (occasion.session.db.cache.frames[page]?).isSome = true)
    (hkept : occasion.use.dropped? ≠ some page) :
    occasion.after.db.locks.holdsLock txn page = true ∧
      (occasion.after.db.cached? page = occasion.session.db.cached? page ∨
        ∃ holder, occasion.use.actor? = some holder ∧
          ((occasion.session.db.locks.lockOf page).exclusive = some holder ∨
            (occasion.after.db.locks.lockOf page).exclusive = some holder)) := by
  obtain ⟨session, use⟩ := occasion
  cases houtcome with
  | work actor hactor hacted =>
      have hne : txn ≠ actor := fun hsame => hother (hsame ▸ hactor)
      obtain ⟨hholds, _, hbytes⟩ := hacted.acts.work.keeps_page hne hholds hresident
      exact ⟨hholds, hbytes.imp_right fun howner => ⟨actor, hactor, .inr howner⟩⟩
  | complete actor commits huse =>
      obtain rfl : use = _ := huse
      have hne : actor ≠ txn := fun hsame => hother (congrArg some hsame)
      obtain ⟨db, hundisturbed, hfinish⟩ := Occasion.after_complete session actor commits
      rw [hfinish]
      refine ⟨LockTable.holdsLock_releaseAll.mpr ⟨hne, ?_⟩, ?_⟩
      · rwa [hundisturbed.locks]
      · by_cases himage : (session.db.journal.image? actor page).isSome = true
        · exact .inr ⟨actor, rfl, .inl (hguarded.owner actor page himage)⟩
        · exact .inl (hundisturbed.cached page himage)
  | write actor ref bytes huse howner =>
      obtain rfl : use = _ := huse
      have hidle := Occasion.write_idle hguarded actor ref bytes
      refine ⟨?_, ?_⟩
      · rwa [hidle.locks]
      · by_cases hsame : ref.page = page
        · exact .inr ⟨actor, rfl, .inl (hsame ▸ howner)⟩
        · exact .inl (hidle.cached page fun heq => hsame (Option.some.inj heq))
  | idle event huse hactor =>
      obtain rfl : use = _ := huse
      have hidle := Occasion.event_idle hguarded hactor
      refine ⟨?_, .inl (hidle.cached page hkept)⟩
      rwa [hidle.locks]

end Outcome

namespace Session

variable {history : List Occasion} {session : Session} {holder txn : TxnId} {page : PageId}

/-- An upgrade of a transaction was refused while another one held the page exclusively, and both
have kept their holds since. -/
def Overtaken (history : List Occasion) (holder txn : TxnId) (page : PageId) : Prop :=
  ∃ earlier occasion later, history = earlier ++ occasion :: later ∧
    occasion.RefusesUpgrade txn page ∧
    (occasion.session.db.locks.lockOf page).exclusive = some holder ∧
    ∀ kept ∈ occasion :: later, (kept.after.db.locks.lockOf page).exclusive = some holder ∧
      txn ∈ (kept.after.db.locks.lockOf page).shared

/-- Whoever was overtaken stays so as long as both keep their holds. -/
theorem Overtaken.append {occasion : Occasion} (h : Overtaken history holder txn page)
    (howner : (occasion.after.db.locks.lockOf page).exclusive = some holder)
    (hshared : txn ∈ (occasion.after.db.locks.lockOf page).shared) :
    Overtaken (history ++ [occasion]) holder txn page := by
  obtain ⟨earlier, refused, later, rfl, hrefused, hbefore, hkept⟩ := h
  refine ⟨earlier, refused, later ++ [occasion], by simp, hrefused, hbefore, ?_⟩
  intro kept hmember
  rw [← List.cons_append, List.mem_append, List.mem_singleton] at hmember
  rcases hmember with hmember | rfl
  · exact hkept kept hmember
  · exact ⟨howner, hshared⟩

namespace Course

variable {db : Database} {start last : Session} {occasion : Occasion}

/-- In every course over a database that was opened, a shared holder beside an exclusive holder
waits for its upgrade, or was overtaken. -/
theorem upgrading_or_overtaken (hopened : db.Opened) (hcourse : Course { db } history session)
    (howner : (session.db.locks.lockOf page).exclusive = some holder)
    (hshared : txn ∈ (session.db.locks.lockOf page).shared) :
    txn ∈ (session.db.locks.lockOf page).upgrading ∨ Overtaken history holder txn page := by
  induction hcourse with
  | start => simp [hopened.sound.2.2.2, LockTable.lockOf] at howner
  | @step history session use hcourse hallows ih =>
      by_cases hwaits : txn ∈ ((session.use use).db.locks.lockOf page).upgrading
      · exact .inl hwaits
      have hguarded := hcourse.guarded (.of_opened hopened)
      obtain ⟨howner', hshared', hrefused⟩ :=
        (hguarded.outcome hallows).beside hguarded howner hshared hwaits
      right
      rcases ih howner' hshared' with hupgrading | hovertaken
      · refine ⟨history, ⟨session, use⟩, [], rfl, hrefused hupgrading, howner', ?_⟩
        intro kept hmember
        rw [List.mem_singleton.mp hmember]
        exact ⟨howner, hshared⟩
      · exact hovertaken.append howner hshared

/-- A page stays in the cache from an access of a transaction on for as long as the transaction
holds it, if it is not dropped. -/
theorem resident (hopened : db.Opened) {history : List Occasion}
    (hcourse : Course { db } history session) :
    ∀ {earlier later : List Occasion} {first : Occasion}, history = earlier ++ first :: later →
      (∃ access ∈ first.accesses, access.txn = txn ∧ access.page = page) →
      (∀ held ∈ first :: later, held.after.db.locks.holdsLock txn page = true) →
      (∀ occasion ∈ later, occasion.use.dropped? ≠ some page) →
      (session.db.cache.frames[page]?).isSome = true := by
  induction hcourse with
  | start => simp
  | @step history session use hcourse hallows ih =>
      intro earlier later first hhistory haccess hholds hkept
      have hguarded := hcourse.guarded (.of_opened hopened)
      have houtcome := hguarded.outcome hallows
      rcases List.eq_nil_or_concat later with rfl | ⟨shorter, last, rfl⟩
      · obtain ⟨rfl, hfirst⟩ := List.append_inj' hhistory rfl
        rw [List.singleton_inj] at hfirst
        subst hfirst
        obtain ⟨access, haccess, rfl, rfl⟩ := haccess
        exact houtcome.accessed haccess (hholds _ (List.mem_cons_self ..))
      · have hsplit : history ++ [⟨session, use⟩] = (earlier ++ first :: shorter) ++ [last] := by
          simpa using hhistory
        obtain ⟨rfl, hlast⟩ := List.append_inj' hsplit rfl
        rw [List.singleton_inj] at hlast
        subst hlast
        have hshorter : ∀ held ∈ first :: shorter,
            held.after.db.locks.holdsLock txn page = true := fun held h =>
          hholds held (by rw [List.mem_cons] at h ⊢; exact h.imp_right (by simp; exact .inl))
        have hresident := ih rfl haccess hshorter fun occasion h => hkept occasion (by simp [h])
        have hbefore : session.db.locks.holdsLock txn page = true :=
          hcourse.holds_at_end (fun held => held.db.locks.holdsLock txn page = true) hshorter
        exact houtcome.resident hguarded hbefore hresident (hholds _ (by simp)) (hkept _ (by simp))

end Course

/-- Locked pages are isolated. In every course, from an access of a transaction to a page on, for as
long as the transaction holds the page without interruption and nobody drops it from the cache, no
other transaction changes its bytes, but for one that holds the page exclusively while the first one
waits for its upgrade, or after it was refused the upgrade. -/
theorem isolated {db : Database} {earlier later : List Occasion} {first occasion : Occasion}
    {session : Session} {txn : TxnId} {page : PageId} (hopened : db.Opened)
    (hcourse : Course { db } (earlier ++ first :: later ++ [occasion]) session)
    (haccess : ∃ access ∈ first.accesses, access.txn = txn ∧ access.page = page)
    (hholds : ∀ held ∈ first :: later, held.after.db.locks.holdsLock txn page = true)
    (hkept : ∀ kept ∈ later ++ [occasion], kept.use.dropped? ≠ some page)
    (hother : occasion.use.actor? ≠ some txn) :
    session.db.content page = occasion.session.db.content page ∨
      ∃ holder, occasion.use.actor? = some holder ∧
        ((occasion.session.db.locks.lockOf page).exclusive = some holder ∨
          (session.db.locks.lockOf page).exclusive = some holder) ∧
        (occasion.session.AsksUpgrade txn page ∨
          Overtaken (earlier ++ first :: later) holder txn page) := by
  obtain ⟨hbefore, hallows, rfl⟩ := hcourse.of_append
  have hguarded := hbefore.guarded (.of_opened hopened)
  have houtcome : Outcome occasion := hguarded.outcome hallows
  have hheld := hbefore.holds_at_end
    (fun held => held.db.locks.holdsLock txn page = true) hholds
  have hresident := hbefore.resident hopened rfl haccess hholds fun kept hmember =>
    hkept kept (List.mem_append_left _ hmember)
  obtain ⟨hafter, hbytes | ⟨holder, hactor, howner⟩⟩ :=
    houtcome.changes hguarded hother hheld hresident (hkept occasion (by simp))
  · left
    obtain ⟨resident, hframe⟩ := Option.isSome_iff_exists.mp hresident
    have hcached : occasion.session.db.cached? page = some resident.page.bytes := by
      rw [Database.cached?, hframe]
      rfl
    rw [Database.content, Database.content, hbytes, hcached, Option.getD_some, Option.getD_some]
  · right
    refine ⟨holder, hactor, howner, ?_⟩
    have hne : holder ≠ txn := fun hsame => hother (hsame ▸ hactor)
    -- A page that is held by two transactions, one of them exclusively, is read by the other one.
    have hreads : ∀ lock : LockState, lock.exclusive = some holder →
        lock.holds txn .shared = true → txn ∈ lock.shared := by
      intro lock howner hholds
      refine (LockState.holds_shared_iff.mp hholds).resolve_left fun htxn => ?_
      rw [howner] at htxn
      exact hne (Option.some.inj htxn)
    rcases howner with howner | howner
    · refine (hbefore.upgrading_or_overtaken hopened howner (hreads _ howner hheld)).imp_left ?_
      exact hguarded.regular.upgrading page txn
    · have hshared := hreads _ howner hafter
      by_cases hwaits : txn ∈ (occasion.after.db.locks.lockOf page).upgrading
      · left
        exact houtcome.asksUpgrade hguarded hother
          ((houtcome.guarded hguarded).regular.upgrading page txn hwaits)
      · obtain ⟨howner', hshared', _⟩ := houtcome.beside hguarded howner hshared hwaits
        refine (hbefore.upgrading_or_overtaken hopened howner' hshared').imp_left ?_
        exact hguarded.regular.upgrading page txn

/-- A row is stored. A transaction reads its page, and another one wants to store a row there. -/
def readerAndWriter : List Use :=
  [.event (.call ⟨3⟩ (.insert ⟨1⟩ (sampleRow 7))), .event (.complete ⟨3⟩ true),
    .event (.call ⟨1⟩ (.getPage ⟨⟨1⟩, 0⟩ .shared)), .begin ⟨2⟩ (.insert ⟨1⟩ (sampleRow 9)),
    .step ⟨2⟩, .step ⟨2⟩]

/-- A page with one row is read by two transactions, one of which wants to store a second row there.
Its insert has read the page, and now demands write access. It waits for the other transaction,
which goes on finding what it found. -/
theorem isolated_from_waiting_writer :
    ∃ earlier first later occasion session,
      Course { db := sampleTables "a.dat" "b.dat" } (earlier ++ first :: later ++ [occasion])
        session ∧
      (∃ access ∈ first.accesses, access.txn = ⟨1⟩ ∧ access.page = ⟨⟨1⟩, 0⟩) ∧
      occasion.use = .step ⟨2⟩ ∧ session.db.locks.pending[(⟨2⟩ : TxnId)]?.isSome = true ∧
      session.db.content ⟨⟨1⟩, 0⟩ = occasion.session.db.content ⟨⟨1⟩, 0⟩ := by
  have hcourse : Course { db := sampleTables "a.dat" "b.dat" } ([_, _] ++ _ :: [_, _] ++ [_]) _ :=
    Course.of_uses .start (by decide +kernel : AllowsEach _ readerAndWriter)
  refine ⟨_, _, _, _, _, hcourse, by decide +kernel, rfl, by decide +kernel, ?_⟩
  refine (isolated (sampleTables_opened "a.dat" "b.dat") hcourse
    (show ∃ access ∈ Occasion.accesses _, access.txn = ⟨1⟩ ∧ access.page = ⟨⟨1⟩, 0⟩ by
      decide +kernel)
    (by decide +kernel) (by decide +kernel) (by decide +kernel)).resolve_right ?_
  rintro ⟨holder, hactor, howner, _⟩
  obtain rfl : ⟨2⟩ = holder := Option.some.inj hactor
  exact absurd howner (by decide +kernel)

/-- A row is stored, and two transactions read its page. One of them asks for its upgrade, the other
one stores a row and commits, and the first one goes on. -/
def readersBothUpgrading : List Use :=
  [.event (.call ⟨3⟩ (.insert ⟨1⟩ (sampleRow 7))), .event (.complete ⟨3⟩ true),
    .event (.call ⟨1⟩ (.getPage ⟨⟨1⟩, 0⟩ .shared)), .event (.call ⟨2⟩ (.scan ⟨1⟩ none)),
    .event (.call ⟨1⟩ (.getPage ⟨⟨1⟩, 0⟩ .exclusive)),
    .event (.call ⟨2⟩ (.insert ⟨1⟩ (sampleRow 9))), .event (.complete ⟨2⟩ true),
    .event (.resume ⟨1⟩)]

/-- Two transactions read a page. While one of them waits for its upgrade, the other one is given
write access, stores a row, and commits. The first one is then granted its upgrade, of a page that
it held all the time and that another one has changed. -/
theorem changed_while_upgrading :
    ¬ ∀ {db : Database} {earlier between : List Occasion} {first last : Occasion}
        {session : Session} {txn : TxnId} {page : PageId}, db.Opened →
      Course { db } (earlier ++ first :: between ++ [last]) session →
      (∃ access ∈ first.accesses, access.txn = txn ∧ access.page = page) →
      (∃ access ∈ last.accesses, access.txn = txn ∧ access.page = page) →
      (∀ held ∈ first :: between ++ [last],
        held.after.db.locks.holdsLock txn page = true) →
      (∀ kept ∈ between, kept.use.dropped? ≠ some page) →
      ∀ occasion ∈ between, occasion.use.actor? ≠ some txn →
        occasion.after.db.content page = occasion.session.db.content page := by
  intro hclaim
  have hcourse : Course { db := sampleTables "a.dat" "b.dat" }
      ([_, _] ++ _ :: [_, _, _, _] ++ [_]) _ :=
    Course.of_uses .start (by decide +kernel : AllowsEach _ readersBothUpgrading)
  have hsame := hclaim (sampleTables_opened "a.dat" "b.dat") hcourse
    (show ∃ access ∈ Occasion.accesses _, access.txn = ⟨1⟩ ∧ access.page = ⟨⟨1⟩, 0⟩ by
      decide +kernel)
    (by decide +kernel) (by decide +kernel) (by decide +kernel)
  exact absurd (hsame _ (.tail _ (.tail _ (.head _))) (by decide +kernel)) (by decide +kernel)

end Session

end RowStore
