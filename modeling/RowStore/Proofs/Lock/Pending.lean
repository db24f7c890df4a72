import RowStore.Proofs.Lock.Upgrade

/-!
# Upgrades and wakeups of pending requests

A shared holder that asks for the exclusive mode announces its upgrade. `upgrading_iff` says that
the announcement lasts exactly as long as its request, which may be granted, refused, or made
pointless by a release.

Only a release wakes the requests that sleep, while announcements, grants, and refusals change the
locks as well. `awake_of_canMeet` says that none of these lets a request be granted that could not
be granted before, so no request sleeps that could be granted. The case that needs the link between
announcements and requests is that of the last shared holder to announce its upgrade: all others
wait for theirs, so it is granted at once and does not leave them the lock.
-/

namespace RowStore

namespace LockState

variable {lock : LockState} {txn other : TxnId} {mode asked : LockMode}

/-- A request can be granted to the exclusive holder, and if there is none, unless it is one for the
exclusive mode and there are other shared holders. These do not matter to a shared holder if they
have all announced their upgrades. -/
theorem canGrant_iff : lock.canGrant txn mode = true ↔
    lock.exclusive = some txn ∨ lock.exclusive = none ∧ (mode = .exclusive →
      ∀ other ∈ lock.shared, other ≠ txn → txn ∈ lock.shared ∧ other ∈ lock.upgrading) := by
  cases hexclusive : lock.exclusive with
  | some holder => simp [canGrant, hexclusive]
  | none =>
      cases mode with
      | shared => simp [canGrant, hexclusive]
      | exclusive =>
          by_cases hshared : txn ∈ lock.shared
          · simp only [canGrant, hexclusive, hshared, if_true, List.all_eq_true, Bool.or_eq_true,
              decide_eq_true_eq, Std.ExtTreeSet.mem_toList, reduceCtorEq, false_or, true_and,
              forall_const]
            exact forall₂_congr fun other _ => Decidable.or_iff_not_imp_left
          · simp only [canGrant, hexclusive, hshared, if_false, Std.ExtTreeSet.isEmpty_iff,
              Std.ExtTreeSet.eq_empty_iff_forall_not_mem, reduceCtorEq, false_or, true_and,
              forall_const, false_and, imp_false, ne_eq, Decidable.not_not]
            constructor
            · exact fun hnone other hother => absurd hother (hnone other)
            · exact fun hself other hother => hshared (hself other hother ▸ hother)

/-- A grant to one transaction lets no request of another be granted that could not be. -/
theorem canGrant_of_grant (hgrant : lock.canGrant txn mode = true) (hne : txn ≠ other)
    (h : (lock.grant txn mode).canGrant other asked = true) : lock.canGrant other asked = true := by
  cases mode with
  | exclusive => simp [canGrant, grant, hne] at h
  | shared =>
      rcases exclusive_of_canGrant hgrant with hnone | hsome
      · simp only [grant, hnone, reduceCtorEq, if_false, canGrant_iff, false_or, true_and,
          Std.ExtTreeSet.mem_insert, Std.compare_eq_iff_eq, hne] at h ⊢
        exact fun hmode member hmember => h hmode member (.inr hmember)
      · rwa [grant, if_pos hsome] at h

/-- A withdrawn upgrade lets no request be granted that could not be. -/
theorem canGrant_of_withdraw (h : (lock.withdraw txn).canGrant other asked = true) :
    lock.canGrant other asked = true := by
  rw [canGrant_iff] at h ⊢
  refine h.imp_right fun ⟨hnone, hothers⟩ => ⟨hnone, fun hmode member hmember hne => ?_⟩
  obtain ⟨hshared, hupgrading⟩ := hothers hmode member hmember hne
  exact ⟨hshared, (Std.ExtTreeSet.mem_erase.mp hupgrading).2⟩

/-- An announced upgrade that has to wait lets no request be granted that could not be, if the one
who makes that request has announced its own upgrade. -/
theorem canGrant_of_announce (hwaits : lock.canGrant txn mode = false)
    (hannounced : asked = .exclusive → other ∈ lock.shared → other ∈ lock.upgrading)
    (h : (lock.announce txn mode).canGrant other asked = true) :
    lock.canGrant other asked = true := by
  rw [canGrant_iff, exclusive_announce, shared_announce] at h
  rw [canGrant_iff]
  refine h.imp_right fun ⟨hnone, hothers⟩ => ⟨hnone, fun hasked member hmember hmember' => ?_⟩
  obtain ⟨hother, hupgrading⟩ := hothers hasked member hmember hmember'
  refine ⟨hother, (mem_upgrading_announce.mp hupgrading).resolve_right ?_⟩
  rintro ⟨rfl, hmode, hshared⟩
  -- All shared holders but this one wait for their upgrades, so it does not have to wait.
  have hgrant : lock.canGrant txn mode = true := by
    refine canGrant_iff.mpr (.inr ⟨hnone, fun _ holder hholder hself => ⟨hshared, ?_⟩⟩)
    by_cases hsame : holder = other
    · exact hsame ▸ hannounced hasked hother
    · obtain ⟨_, hholder⟩ := hothers hasked holder hholder hsame
      exact (mem_upgrading_announce.mp hholder).resolve_right fun h => hself h.1.symm
  simp [hgrant] at hwaits

end LockState

namespace LockTable

variable {table before after : LockTable} {txn : TxnId}

/-- Whether the pending request of the transaction could be granted. -/
def canMeet (table : LockTable) (txn : TxnId) (request : PendingRequest) : Bool :=
  (table.lockOf request.page).canGrant txn request.mode

/-- The pending requests for the lock of a page are all awake. -/
def Woken (table : LockTable) (page : PageId) : Prop :=
  ∀ (txn : TxnId) (request : PendingRequest), table.pending[txn]? = some request →
    request.page = page → request.asleep = false

/-- Every shared holder that waits for the exclusive mode has announced its upgrade. -/
def Announced (table : LockTable) : Prop :=
  ∀ (txn : TxnId) (request : PendingRequest), table.pending[txn]? = some request →
    request.mode = .exclusive → txn ∈ (table.lockOf request.page).shared →
    txn ∈ (table.lockOf request.page).upgrading

/-- Shared holders that wait have announced their upgrades, and no request sleeps that could be
granted. -/
structure Attentive (table : LockTable) : Prop where
  announced : table.Announced
  waits : ∀ (txn : TxnId) (request : PendingRequest), table.pending[txn]? = some request →
    request.asleep = true → table.canMeet txn request = false

theorem attentive_empty : Attentive {} where
  announced txn request h := by simp at h
  waits txn request h := by simp at h

end LockTable

namespace LockEffect

variable {before after : LockTable} {event : LockEvent} {refusal : Option Refusal}
  {other : TxnId} {request : PendingRequest}

/-- A transaction goes on waiting for what it waits for while others act. -/
theorem pending_of_actor (heffect : LockEffect before event refusal after)
    (hactor : event.actor? ≠ some other) (hpending : before.pending[other]? = some request) :
    ∃ found, after.pending[other]? = some found ∧ found.page = request.page ∧
      found.mode = request.mode := by
  cases heffect with
  | quiet _ hsame => exact ⟨request, hsame ▸ hpending, rfl, rfl⟩
  | @announce txn page mode _ _ _ hrest =>
      have hne : txn ≠ other := fun hsame => hactor (congrArg some hsame)
      exact ⟨request, by rw [hrest other, if_neg hne, hpending], rfl, rfl⟩
  | @grant _ txn page mode _ htxn _ _ _ hrest =>
      have hne : txn ≠ other := fun hsame => hactor (hsame ▸ htxn)
      exact ⟨request, by rw [hrest other, if_neg hne, hpending], rfl, rfl⟩
  | @sleep _ txn found _ hfound _ hrest | @wake _ txn found _ hfound _ hrest =>
      rw [hrest other]
      split
      · rename_i hsame
        subst hsame
        rw [hfound, Option.some.injEq] at hpending
        subst hpending
        exact ⟨_, rfl, rfl, rfl⟩
      · exact ⟨request, hpending, rfl, rfl⟩
  | @refuse _ txn found _ _ hevent _ _ hrest =>
      have hne : txn ≠ other := by
        rintro rfl
        rcases hevent with rfl | rfl <;> exact hactor rfl
      exact ⟨request, by rw [hrest other, if_neg hne, hpending], rfl, rfl⟩
  | release txn released _ _ hrest =>
      exact ⟨{ request with asleep := request.asleep && !released request.page },
        by rw [hrest other, hpending, Option.map_some], rfl, rfl⟩

/-- Whatever lets a request be granted that was pending before, and is still pending, is a release
of its lock, which wakes all requests for the lock. -/
theorem canMeet_or_released (heffect : LockEffect before event refusal after)
    (hannounced : before.Announced) (hpending : before.pending[other]? = some request)
    (hkept : (after.pending[other]?).isSome = true) (h : after.canMeet other request = true) :
    before.canMeet other request = true ∨
      (∃ txn, event.Releases txn request.page) ∧ after.Woken request.page := by
  cases heffect with
  | quiet hlocks | sleep _ hlocks | wake _ hlocks =>
      rw [LockTable.canMeet, hlocks] at h
      exact .inl h
  | @announce txn page mode _ _ hlocks _ _ hwaits =>
      rw [LockTable.canMeet, hlocks] at h
      split at h
      · rename_i hpage
        subst hpage
        exact .inl (LockState.canGrant_of_announce hwaits (hannounced other request hpending) h)
      · exact .inl h
  | @grant _ txn page mode _ _ _ hgrant hlocks hrest =>
      have hne : txn ≠ other := by
        rintro rfl
        simp [hrest txn] at hkept
      rw [LockTable.canMeet, hlocks] at h
      split at h
      · rename_i hpage
        subst hpage
        exact .inl (LockState.canGrant_of_grant hgrant hne h)
      · exact .inl h
  | @refuse _ txn found _ _ _ _ hlocks =>
      rw [LockTable.canMeet, hlocks] at h
      split at h
      · exact .inl (LockState.canGrant_of_withdraw h)
      · exact .inl h
  | release txn released hsame _ hrest _ hevent =>
      cases hreleased : released request.page with
      | false =>
          rw [LockTable.canMeet, hsame request.page hreleased] at h
          exact .inl h
      | true =>
          refine .inr ⟨⟨txn, hevent request.page hreleased⟩, ?_⟩
          intro waiter found hfound hpage
          rw [hrest waiter, Option.map_eq_some_iff] at hfound
          obtain ⟨earlier, _, rfl⟩ := hfound
          have hpage : earlier.page = request.page := hpage
          simp [hpage, hreleased]

/-- A request that sleeps has slept before, or was put to sleep just now, since it cannot be
granted. -/
theorem slept_or_waits (heffect : LockEffect before event refusal after)
    (hpending : after.pending[other]? = some request) (hasleep : request.asleep = true) :
    before.pending[other]? = some request ∨ after.canMeet other request = false := by
  cases heffect with
  | quiet _ hsame => exact .inl (hsame ▸ hpending)
  | announce _ _ hrest =>
      rw [hrest other] at hpending
      split at hpending
      · rw [← Option.some.inj hpending] at hasleep
        simp at hasleep
      · exact .inl hpending
  | wake _ _ hrest =>
      rw [hrest other] at hpending
      split at hpending
      · rw [← Option.some.inj hpending] at hasleep
        simp at hasleep
      · exact .inl hpending
  | grant _ _ _ _ hrest | refuse _ _ _ hrest =>
      rw [hrest other] at hpending
      split at hpending
      · simp at hpending
      · exact .inl hpending
  | @sleep _ txn found _ _ hlocks hrest _ _ _ hwaits =>
      rw [hrest other] at hpending
      split at hpending
      · rename_i hsame
        subst hsame
        obtain rfl := Option.some.inj hpending
        rw [LockTable.canMeet, hlocks]
        exact .inr hwaits
      · exact .inl hpending
  | release txn released _ _ hrest =>
      rw [hrest other, Option.map_eq_some_iff] at hpending
      obtain ⟨found, hfound, rfl⟩ := hpending
      simp only [Bool.and_eq_true, Bool.not_eq_true'] at hasleep
      left
      rw [hfound, hasleep.1, hasleep.2]
      exact congrArg some (congrArg (PendingRequest.mk found.page found.mode) hasleep.1)

/-- Shared holders that wait have announced their upgrades. -/
theorem announced (heffect : LockEffect before event refusal after)
    (hannounced : before.Announced) : after.Announced := by
  intro other request hpending hmode hshared
  cases heffect with
  | quiet hlocks hsame =>
      rw [hlocks] at hshared ⊢
      exact hannounced other request (hsame ▸ hpending) hmode hshared
  | @announce txn page mode _ hnone hlocks hrest =>
      rw [hrest other] at hpending
      split at hpending
      · rename_i hsame
        subst hsame
        obtain rfl := Option.some.inj hpending
        rw [hlocks, if_pos rfl] at hshared ⊢
        rw [LockState.shared_announce] at hshared
        exact LockState.mem_upgrading_announce.mpr (.inr ⟨rfl, hmode, hshared⟩)
      · rw [hlocks] at hshared ⊢
        split at hshared
        · rename_i hpage
          subst hpage
          rw [LockState.shared_announce] at hshared
          rw [if_pos rfl]
          exact LockState.mem_upgrading_announce.mpr
            (.inl (hannounced other request hpending hmode hshared))
        · rename_i hpage
          rw [if_neg hpage]
          exact hannounced other request hpending hmode hshared
  | @grant _ txn page mode _ _ _ hgrant hlocks hrest =>
      rw [hrest other] at hpending
      split at hpending
      · simp at hpending
      rename_i hne
      have hbefore := hannounced other request hpending hmode
      rw [hlocks] at hshared ⊢
      split at hshared
      · rename_i hpage
        subst hpage
        rw [if_pos rfl]
        cases mode with
        | shared =>
            simp only [LockState.grant] at hshared ⊢
            split at hshared
            · rename_i howner
              rw [if_pos howner]
              exact hbefore hshared
            · rename_i howner
              rw [if_neg howner]
              simp only [Std.ExtTreeSet.mem_insert, Std.compare_eq_iff_eq, hne, false_or]
                at hshared
              exact hbefore hshared
        | exclusive =>
            obtain ⟨hapart, hshared⟩ := Std.ExtTreeSet.mem_erase.mp hshared
            exact Std.ExtTreeSet.mem_erase.mpr ⟨hapart, hbefore hshared⟩
      · rename_i hpage
        rw [if_neg hpage]
        exact hbefore hshared
  | @sleep _ txn found _ hfound hlocks hrest | @wake _ txn found _ hfound hlocks hrest =>
      rw [hlocks] at hshared ⊢
      rw [hrest other] at hpending
      split at hpending
      · rename_i hsame
        subst hsame
        obtain rfl := Option.some.inj hpending
        exact hannounced txn found hfound hmode hshared
      · exact hannounced other request hpending hmode hshared
  | @refuse _ txn found _ _ _ _ hlocks hrest =>
      rw [hrest other] at hpending
      split at hpending
      · simp at hpending
      rename_i hne
      have hbefore := hannounced other request hpending hmode
      rw [hlocks] at hshared ⊢
      split at hshared
      · rename_i hpage
        rw [if_pos hpage]
        exact Std.ExtTreeSet.mem_erase.mpr
          ⟨fun hsame => hne (Std.compare_eq_iff_eq.mp hsame), hbefore hshared⟩
      · rename_i hpage
        rw [if_neg hpage]
        exact hbefore hshared
  | release txn released hsame hleft hrest =>
      rw [hrest other, Option.map_eq_some_iff] at hpending
      obtain ⟨found, hfound, rfl⟩ := hpending
      have hbefore := hannounced other found hfound hmode
      show other ∈ (after.lockOf found.page).upgrading
      have hshared : other ∈ (after.lockOf found.page).shared := hshared
      cases hreleased : released found.page with
      | false =>
          rw [hsame found.page hreleased] at hshared ⊢
          exact hbefore hshared
      | true =>
          have hpage := hleft found.page hreleased
          exact hpage.upgrades other hshared (hbefore (hpage.shared other hshared))

/-- Every effect keeps a table attentive. -/
theorem attentive (heffect : LockEffect before event refusal after)
    (hattentive : before.Attentive) : after.Attentive where
  announced := heffect.announced hattentive.announced
  waits other request hpending hasleep := by
    rcases heffect.slept_or_waits hpending hasleep with hbefore | hwaits
    · rw [← Bool.not_eq_true]
      intro hgrant
      rcases heffect.canMeet_or_released hattentive.announced hbefore (by simp [hpending]) hgrant
        with hgrant | ⟨_, hwoken⟩
      · simp [hattentive.waits other request hbefore hasleep] at hgrant
      · simp [hwoken other request hpending rfl] at hasleep
    · exact hwaits

end LockEffect

namespace LockTable

variable {table : LockTable} {history : List LockMoment}

/-- Every reachable table is regular and attentive. -/
theorem Run.attentive (hrun : Run {} history table) : table.Regular ∧ table.Attentive :=
  hrun.preserves (fun _ table => table.Attentive) regular_empty attentive_empty
    fun _ heffect => heffect.attentive

/-- In every reachable state, the exclusive holder of a lock is no shared holder of it, and those
who have announced an upgrade are the shared holders that have a pending request for the exclusive
mode. So when a request ends, however it ends, its transaction has no upgrade announced. -/
theorem upgrading_iff (hrun : Run {} history table) (page : PageId) :
    (∀ holder, (table.lockOf page).exclusive = some holder →
      holder ∉ (table.lockOf page).shared) ∧
    (∀ txn, txn ∈ (table.lockOf page).upgrading ↔ txn ∈ (table.lockOf page).shared ∧
      ∃ request, table.pending[txn]? = some request ∧ request.page = page ∧
        request.mode = .exclusive) ∧
    ∀ moment ∈ history, ∀ txn request, moment.table.pending[txn]? = some request →
      moment.after.pending[txn]? = none → txn ∉ (moment.after.lockOf page).upgrading := by
  obtain ⟨hregular, hattentive⟩ := hrun.attentive
  refine ⟨(hregular.consistent page).apart, fun txn => ⟨fun hupgrading => ?_, ?_⟩, ?_⟩
  · exact ⟨(hregular.consistent page).upgrading txn hupgrading,
      hregular.upgrading page txn hupgrading⟩
  · rintro ⟨hshared, request, hrequest, rfl, hmode⟩
    exact hattentive.announced txn request hrequest hmode hshared
  · intro moment hmoment txn _ _ hnone hupgrading
    obtain ⟨_, hreached⟩ := hrun.reached hmoment
    obtain ⟨request, hrequest, _⟩ := hreached.regular.upgrading page txn hupgrading
    simp [hnone] at hrequest

/-- Three transactions read a page and ask for its upgrade, and the last one overtakes the others.
Of these, one goes on waiting, and its upgrade stays announced, and the other one waits too long. -/
theorem upgrading_iff_overtaken :
    ∃ history table, Run {} history table ∧
      (table.lockOf samplePage).exclusive = some ⟨3⟩ ∧
      (⟨3⟩ : TxnId) ∉ (table.lockOf samplePage).shared ∧
      (⟨2⟩ : TxnId) ∈ (table.lockOf samplePage).upgrading ∧
      (⟨1⟩ : TxnId) ∈ (table.lockOf samplePage).shared ∧
      (⟨1⟩ : TxnId) ∉ (table.lockOf samplePage).upgrading := by
  have hreplay : ((replay {} []
      [.submit ⟨1⟩ samplePage .shared, .submit ⟨2⟩ samplePage .shared,
        .submit ⟨3⟩ samplePage .shared, .submit ⟨1⟩ samplePage .exclusive, .advance ⟨1⟩,
        .submit ⟨2⟩ samplePage .exclusive, .advance ⟨2⟩, .submit ⟨3⟩ samplePage .exclusive,
        .expire ⟨1⟩]).any fun (_, table) =>
      (table.lockOf samplePage).exclusive = some ⟨3⟩ &&
        (table.lockOf samplePage).shared.contains ⟨1⟩ &&
        (table.lockOf samplePage).shared.contains ⟨2⟩ &&
        (table.pending[(⟨1⟩ : TxnId)]?).isNone &&
        (table.pending[(⟨2⟩ : TxnId)]?).any fun request =>
          request.page = samplePage && request.mode = .exclusive) = true := by
    decide +kernel
  obtain ⟨⟨history, table⟩, hreplay, hchecks⟩ := (Option.any_eq_true _ _).mp hreplay
  simp only [Bool.and_eq_true, decide_eq_true_eq, Option.isNone_iff_eq_none, Option.any_eq_true,
    Std.ExtTreeSet.contains_iff_mem] at hchecks
  obtain ⟨⟨⟨⟨howner, hfirst⟩, hsecond⟩, hnone⟩, hrequest⟩ := hchecks
  have hrun : Run {} history table := .of_replay .start hreplay
  obtain ⟨hapart, hupgrading, _⟩ := upgrading_iff hrun samplePage
  refine ⟨history, table, hrun, howner, hapart _ howner,
    (hupgrading _).mpr ⟨hsecond, hrequest⟩, hfirst, fun hleft => ?_⟩
  obtain ⟨_, request, hfound, _⟩ := (hupgrading _).mp hleft
  simp [hnone] at hfound

/-- No wakeup is lost. In every reachable state, an event that lets a pending request of another
transaction be granted, which could not be granted before, is a release of its lock, and all
requests for the lock are awake after it. So a request that could be granted does not sleep. -/
theorem awake_of_canMeet (hrun : Run {} history table) :
    (∀ event other request, table.Admits event → event.actor? ≠ some other →
      table.pending[other]? = some request → table.canMeet other request = false →
      (table.perform event).2.canMeet other request = true →
      (∃ txn, event.Releases txn request.page) ∧ (table.perform event).2.Woken request.page) ∧
    ∀ txn request, table.pending[txn]? = some request → table.canMeet txn request = true →
      request.asleep = false := by
  obtain ⟨hregular, hattentive⟩ := hrun.attentive
  refine ⟨?_, fun txn request hpending hgrant => ?_⟩
  · intro event other request hadmits hactor hpending hbefore hafter
    have heffect := perform_effect hregular.consistent hadmits
    obtain ⟨found, hfound, _⟩ := heffect.pending_of_actor hactor hpending
    refine (heffect.canMeet_or_released hattentive.announced hpending (by simp [hfound])
      hafter).resolve_left ?_
    simp [hbefore]
  · rw [← Bool.not_eq_true]
    intro hasleep
    simp [hattentive.waits txn request hpending hasleep] at hgrant

/-- Two transactions read a page, and one of them sleeps until it may write it. The other one gives
the page up, which lets the first one be granted, and wakes it. -/
theorem awake_of_canMeet_upgrade :
    ∃ history table request, Run {} history table ∧
      table.pending[(⟨1⟩ : TxnId)]? = some request ∧ request.asleep = true ∧
      table.canMeet ⟨1⟩ request = false ∧
      (table.perform (.releaseShared ⟨2⟩ samplePage)).2.canMeet ⟨1⟩ request = true ∧
      (table.perform (.releaseShared ⟨2⟩ samplePage)).2.Woken samplePage := by
  have hreplay : ((replay {} []
      [.submit ⟨1⟩ samplePage .shared, .submit ⟨2⟩ samplePage .shared,
        .submit ⟨1⟩ samplePage .exclusive, .advance ⟨1⟩]).any fun (_, table) =>
      (table.pending[(⟨1⟩ : TxnId)]?).any fun request =>
        request.asleep && request.page = samplePage && !table.canMeet ⟨1⟩ request &&
          (table.perform (.releaseShared ⟨2⟩ samplePage)).2.canMeet ⟨1⟩ request) = true := by
    decide +kernel
  obtain ⟨⟨history, table⟩, hreplay, hchecks⟩ := (Option.any_eq_true _ _).mp hreplay
  obtain ⟨request, hrequest, hchecks⟩ := (Option.any_eq_true _ _).mp hchecks
  simp only [Bool.and_eq_true, decide_eq_true_eq, Bool.not_eq_true'] at hchecks
  obtain ⟨⟨⟨hasleep, hpage⟩, hbefore⟩, hafter⟩ := hchecks
  have hrun : Run {} history table := .of_replay .start hreplay
  obtain ⟨_, hwoken⟩ := (awake_of_canMeet hrun).1 (.releaseShared ⟨2⟩ samplePage) ⟨1⟩ request
    trivial (by decide) hrequest hbefore hafter
  exact ⟨history, table, request, hrun, hrequest, hasleep, hbefore, hafter, hpage ▸ hwoken⟩

end LockTable

end RowStore
