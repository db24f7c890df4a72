import RowStore.Proofs.Lock.Run

/-!
# Upgrades beside an exclusive holder

A shared holder that asks for the exclusive mode may be overtaken by another one: the other is
granted, while it stays in the shared set and waits. `LockTable.Regular` links the upgrades that
locks have noted to the requests that are pending, and every event keeps a table regular.
`beside_owner` tells who can be a shared holder beside an exclusive holder, in every reachable
state: a transaction that waits for its upgrade of that lock, or one whose upgrade of it was
refused while the exclusive holder held it.
-/

namespace RowStore

namespace LockState

variable {lock : LockState} {txn other : TxnId} {mode : LockMode}

theorem mem_upgrading_grant (h : other ∈ (lock.grant txn mode).upgrading) :
    other ∈ lock.upgrading ∧ (mode = .exclusive → txn ≠ other) := by
  cases mode with
  | shared =>
      refine ⟨?_, by simp⟩
      simp only [grant] at h
      split at h <;> exact h
  | exclusive =>
      obtain ⟨hne, h⟩ := Std.ExtTreeSet.mem_erase.mp h
      exact ⟨h, fun _ heq => hne (by rw [heq]; exact Std.ReflCmp.compare_self)⟩

/-- A request that is announced leaves a lock consistent. -/
theorem Consistent.announce (h : lock.Consistent) : (lock.announce txn mode).Consistent where
  upgrading other hother := by
    rw [shared_announce]
    rcases mem_upgrading_announce.mp hother with hother | ⟨rfl, _, hshared⟩
    · exact h.upgrading other hother
    · exact hshared
  apart other := by
    rw [exclusive_announce, shared_announce]
    exact h.apart other

/-- A request that can be granted leaves a lock consistent. -/
theorem Consistent.grant (h : lock.Consistent) (hgrant : lock.canGrant txn mode = true) :
    (lock.grant txn mode).Consistent := by
  cases mode with
  | shared =>
      simp only [LockState.grant]
      split
      · exact h
      · rename_i howner
        have hnone : lock.exclusive = none :=
          (exclusive_of_canGrant hgrant).resolve_right howner
        refine ⟨?_, by simp [hnone]⟩
        intro other hother
        exact Std.ExtTreeSet.mem_insert.mpr (.inr (h.upgrading other hother))
  | exclusive =>
      refine ⟨?_, ?_⟩
      · intro other hother
        obtain ⟨hne, hother⟩ := Std.ExtTreeSet.mem_erase.mp hother
        exact Std.ExtTreeSet.mem_erase.mpr ⟨hne, h.upgrading other hother⟩
      · rintro other hother hmember
        obtain rfl : txn = other := Option.some.inj hother
        simp [LockState.grant] at hmember

/-- A grant makes nobody an exclusive holder beside shared holders that do not wait for an
upgrade. -/
theorem beside_grant {holder : TxnId} (hgrant : lock.canGrant txn mode = true)
    (howner : (lock.grant txn mode).exclusive = some holder)
    (hshared : other ∈ (lock.grant txn mode).shared)
    (hwaits : other ∉ (lock.grant txn mode).upgrading) :
    lock.exclusive = some holder ∧ other ∈ lock.shared ∧ other ∉ lock.upgrading := by
  cases mode with
  | shared =>
      rcases exclusive_of_canGrant hgrant with hnone | hsome
      · simp [LockState.grant, hnone] at howner
      · simp only [LockState.grant, if_pos hsome] at howner hshared hwaits
        exact ⟨howner, hshared, hwaits⟩
  | exclusive =>
      obtain rfl : txn = holder := Option.some.inj howner
      obtain ⟨hne, hshared⟩ := Std.ExtTreeSet.mem_erase.mp hshared
      have hwaits : other ∉ lock.upgrading := fun h =>
        hwaits (Std.ExtTreeSet.mem_erase.mpr ⟨hne, h⟩)
      refine ⟨?_, hshared, hwaits⟩
      refine (exclusive_of_canGrant hgrant).resolve_left fun hnone => ?_
      -- Without an exclusive holder, all other shared holders had to wait for their upgrades.
      simp only [canGrant, hnone] at hgrant
      split at hgrant
      · rw [List.all_eq_true] at hgrant
        have hother := hgrant other (Std.ExtTreeSet.mem_toList.mpr hshared)
        simp only [Bool.or_eq_true, decide_eq_true_eq] at hother
        rcases hother with rfl | hother
        · exact hne Std.ReflCmp.compare_self
        · exact hwaits hother
      · rw [Std.ExtTreeSet.isEmpty_iff.mp hgrant] at hshared
        simp at hshared

/-- Taking an upgrade back leaves a lock consistent. -/
theorem Consistent.withdraw (h : lock.Consistent) : (lock.withdraw txn).Consistent where
  upgrading other hother := h.upgrading other (Std.ExtTreeSet.mem_erase.mp hother).2
  apart := h.apart

end LockState

/-- Every lock is consistent, and a transaction that has announced an upgrade waits with its
request for it. -/
structure LockTable.Regular (table : LockTable) : Prop where
  consistent : table.Consistent
  upgrading : ∀ page, ∀ txn ∈ (table.lockOf page).upgrading,
    ∃ request, table.pending[txn]? = some request ∧ request.page = page ∧
      request.mode = .exclusive

namespace LockEffect

variable {before after : LockTable} {event : LockEvent} {refusal : Option Refusal}

/-- Every lock stays consistent. -/
theorem consistent (heffect : LockEffect before event refusal after)
    (hconsistent : before.Consistent) : after.Consistent := by
  intro page
  have hpage := hconsistent page
  cases heffect with
  | quiet hlocks | sleep _ hlocks | wake _ hlocks => rwa [hlocks page]
  | @announce txn target mode _ _ hlocks =>
      rw [hlocks page]
      split
      · exact (hconsistent target).announce
      · exact hpage
  | @grant _ txn target mode _ _ _ hgrant hlocks =>
      rw [hlocks page]
      split
      · exact (hconsistent target).grant hgrant
      · exact hpage
  | @refuse _ txn request _ _ _ _ hlocks =>
      rw [hlocks page]
      split
      · exact hpage.withdraw
      · exact hpage
  | release txn released hkept hleft =>
      cases hreleased : released page with
      | false => rwa [hkept page hreleased]
      | true => exact (hleft page hreleased).consistent hpage

/-- A table stays regular. -/
theorem regular (heffect : LockEffect before event refusal after) (hregular : before.Regular) :
    after.Regular := by
  refine ⟨heffect.consistent hregular.consistent, ?_⟩
  intro page other hother
  cases heffect with
  | quiet hlocks hpending =>
      rw [hlocks page] at hother
      rw [hpending]
      exact hregular.upgrading page other hother
  | @announce txn target mode _ hnone hlocks hpending =>
      -- Only the transaction of the request joins, and it is now pending.
      have hjoins : other ∈ (before.lockOf page).upgrading ∨
          txn = other ∧ target = page ∧ mode = .exclusive := by
        rw [hlocks page] at hother
        split at hother
        · rename_i heq
          subst heq
          rcases LockState.mem_upgrading_announce.mp hother with h | ⟨hsame, hmode, _⟩
          · exact .inl h
          · exact .inr ⟨hsame, rfl, hmode⟩
        · exact .inl hother
      rcases hjoins with hbefore | ⟨rfl, rfl, rfl⟩
      · obtain ⟨request, hrequest, hpage, hmode⟩ := hregular.upgrading page other hbefore
        have hne : txn ≠ other := by
          rintro rfl
          simp [hnone] at hrequest
        exact ⟨request, by rw [hpending other, if_neg hne, hrequest], hpage, hmode⟩
      · exact ⟨_, by rw [hpending txn, if_pos rfl], rfl, rfl⟩
  | @grant _ txn target mode _ _ hrequest hgrant hlocks hpending =>
      have hbefore : other ∈ (before.lockOf page).upgrading ∧
          (target = page → mode = .exclusive → txn ≠ other) := by
        rw [hlocks page] at hother
        split at hother
        · rename_i heq
          subst heq
          exact ⟨(LockState.mem_upgrading_grant hother).1,
            fun _ => (LockState.mem_upgrading_grant hother).2⟩
        · rename_i hne
          exact ⟨hother, fun heq => absurd heq hne⟩
      obtain ⟨request, hfound, hpage, hmode⟩ := hregular.upgrading page other hbefore.1
      have hne : txn ≠ other := by
        rintro rfl
        obtain ⟨htarget, hsame⟩ := hrequest request hfound
        exact hbefore.2 (htarget.symm.trans hpage) (hsame.symm.trans hmode) rfl
      exact ⟨request, by rw [hpending other, if_neg hne, hfound], hpage, hmode⟩
  | @sleep _ txn found _ hfound hlocks hpending | @wake _ txn found _ hfound hlocks hpending =>
      rw [hlocks page] at hother
      obtain ⟨request, hrequest, hpage, hmode⟩ := hregular.upgrading page other hother
      rw [hpending other]
      split
      · rename_i heq
        subst heq
        rw [hfound, Option.some.injEq] at hrequest
        subst hrequest
        exact ⟨_, rfl, hpage, hmode⟩
      · exact ⟨request, hrequest, hpage, hmode⟩
  | @refuse _ txn found _ _ _ hfound hlocks hpending =>
      have hbefore : other ∈ (before.lockOf page).upgrading ∧
          (found.page = page → txn ≠ other) := by
        rw [hlocks page] at hother
        split at hother
        · obtain ⟨hne, h⟩ := Std.ExtTreeSet.mem_erase.mp hother
          exact ⟨h, fun _ heq => hne (Std.compare_eq_iff_eq.mpr heq)⟩
        · rename_i hne
          exact ⟨hother, fun heq => absurd heq hne⟩
      obtain ⟨request, hrequest, hpage, hmode⟩ := hregular.upgrading page other hbefore.1
      have hne : txn ≠ other := by
        rintro rfl
        rw [hfound, Option.some.injEq] at hrequest
        subst hrequest
        exact hbefore.2 hpage rfl
      exact ⟨request, by rw [hpending other, if_neg hne, hrequest], hpage, hmode⟩
  | release txn released hkept hleft hpending =>
      have hbefore : other ∈ (before.lockOf page).upgrading := by
        cases hreleased : released page with
        | false => rwa [hkept page hreleased] at hother
        | true => exact (hleft page hreleased).upgrading other hother
      obtain ⟨request, hrequest, hpage, hmode⟩ := hregular.upgrading page other hbefore
      exact ⟨{ request with asleep := request.asleep && !released request.page },
        by rw [hpending other, hrequest, Option.map_some], hpage, hmode⟩

end LockEffect

namespace LockTable

variable {start table : LockTable} {history : List LockMoment}

/-- What holds at first and is kept by every effect holds of every run of a regular table. The
case of a step may assume that the table before it was regular. -/
theorem Run.preserves (holds : List LockMoment → LockTable → Prop)
    (hrun : Run start history table) (hregular : start.Regular) (hstart : holds [] start)
    (hstep : ∀ {history : List LockMoment} {before : LockTable} {event : LockEvent},
      before.Regular → LockEffect before event (before.perform event).1 (before.perform event).2 →
      holds history before → holds (history ++ [⟨before, event⟩]) (before.perform event).2) :
    table.Regular ∧ holds history table := by
  induction hrun with
  | start => exact ⟨hregular, hstart⟩
  | step hrun hadmits ih =>
      obtain ⟨hregular, hholds⟩ := ih
      have heffect := perform_effect hregular.consistent hadmits
      exact ⟨heffect.regular hregular, hstep hregular heffect hholds⟩

/-- A table without locks is regular. -/
theorem regular_empty : Regular {} where
  consistent page := by
    rw [show lockOf {} page = {} by simp [lockOf]]
    exact ⟨by simp, by simp⟩
  upgrading page txn h := by
    rw [show lockOf {} page = {} by simp [lockOf]] at h
    simp at h

/-- Every reachable table is regular. -/
theorem Run.regular (hrun : Run {} history table) : table.Regular :=
  (hrun.preserves (fun _ _ => True) regular_empty trivial fun _ _ _ => trivial).1

end LockTable

/-- Whoever is a shared holder beside an exclusive holder and does not wait for an upgrade was a
shared holder beside it before, and did not wait for an upgrade either, unless it was refused just
now. -/
theorem LockEffect.beside {before after : LockTable} {event : LockEvent}
    {refusal : Option Refusal} {page : PageId} {holder other : TxnId}
    (heffect : LockEffect before event refusal after) (hregular : before.Regular)
    (howner : (after.lockOf page).exclusive = some holder)
    (hshared : other ∈ (after.lockOf page).shared)
    (hwaits : other ∉ (after.lockOf page).upgrading) :
    (before.lockOf page).exclusive = some holder ∧ other ∈ (before.lockOf page).shared ∧
      (other ∈ (before.lockOf page).upgrading →
        (event = .advance other ∨ event = .expire other) ∧ refusal.isSome ∧
          ∃ request, before.pending[other]? = some request ∧ request.page = page ∧
            request.mode = .exclusive) := by
  cases heffect with
  | quiet hlocks | sleep _ hlocks | wake _ hlocks =>
      rw [hlocks page] at howner hshared hwaits
      exact ⟨howner, hshared, fun h => absurd h hwaits⟩
  | announce _ hlocks =>
      rw [hlocks page] at howner hshared hwaits
      split at hwaits
      · rename_i heq
        subst heq
        rw [if_pos rfl] at howner hshared
        rw [LockState.exclusive_announce] at howner
        rw [LockState.shared_announce] at hshared
        exact ⟨howner, hshared,
          fun h => absurd (LockState.mem_upgrading_announce.mpr (.inl h)) hwaits⟩
      · rename_i hne
        rw [if_neg hne] at howner hshared
        exact ⟨howner, hshared, fun h => absurd h hwaits⟩
  | @grant _ txn target mode _ _ _ hgrant hlocks =>
      rw [hlocks page] at howner hshared hwaits
      by_cases heq : target = page
      · subst heq
        simp only [if_true] at howner hshared hwaits
        obtain ⟨howner, hshared, hwaits⟩ := LockState.beside_grant hgrant howner hshared hwaits
        exact ⟨howner, hshared, fun h => absurd h hwaits⟩
      · simp only [if_neg heq] at howner hshared hwaits
        exact ⟨howner, hshared, fun h => absurd h hwaits⟩
  | @refuse _ txn request reason _ hevent hrequest hlocks =>
      rw [hlocks page] at howner hshared hwaits
      by_cases heq : request.page = page
      · simp only [if_pos heq] at howner hshared hwaits
        refine ⟨howner, hshared, fun hupgrading => ?_⟩
        -- It waited for its upgrade, so it is the one that is refused.
        have hsame : txn = other := by
          apply Decidable.byContradiction
          intro hne
          exact hwaits (by simpa [LockState.withdraw, hne] using hupgrading)
        subst hsame
        exact ⟨hevent, rfl, hregular.upgrading page txn hupgrading⟩
      · simp only [if_neg heq] at howner hshared hwaits
        exact ⟨howner, hshared, fun h => absurd h hwaits⟩
  | release txn released hkept hleft =>
      cases hreleased : released page with
      | false =>
          rw [hkept page hreleased] at howner hshared hwaits
          exact ⟨howner, hshared, fun h => absurd h hwaits⟩
      | true =>
          have hpage := hleft page hreleased
          refine ⟨?_, hpage.shared other hshared,
            fun h => absurd (hpage.upgrades other hshared h) hwaits⟩
          rcases hpage.exclusive with hsame | ⟨_, hnone⟩
          · rwa [← hsame]
          · simp [hnone] at howner

namespace LockTable

variable {table : LockTable} {history : List LockMoment} {page : PageId} {holder other : TxnId}

/-- An upgrade of a transaction was refused while another one held the page exclusively, and both
have kept their holds since. -/
def LeftBeside (history : List LockMoment) (holder other : TxnId) (page : PageId) : Prop :=
  ∃ earlier moment later, history = earlier ++ moment :: later ∧
    moment.RefusesUpgrade other page ∧ (moment.table.lockOf page).exclusive = some holder ∧
    ∀ kept ∈ moment :: later, (kept.after.lockOf page).exclusive = some holder ∧
      other ∈ (kept.after.lockOf page).shared

/-- What was left beside an exclusive holder stays there as long as both keep their holds. -/
theorem LeftBeside.append {moment : LockMoment} (h : LeftBeside history holder other page)
    (howner : (moment.after.lockOf page).exclusive = some holder)
    (hshared : other ∈ (moment.after.lockOf page).shared) :
    LeftBeside (history ++ [moment]) holder other page := by
  obtain ⟨earlier, refused, later, rfl, hrefused, hbefore, hkept⟩ := h
  refine ⟨earlier, refused, later ++ [moment], by simp, hrefused, hbefore, ?_⟩
  intro kept hmember
  rw [← List.cons_append, List.mem_append, List.mem_singleton] at hmember
  rcases hmember with hmember | rfl
  · exact hkept kept hmember
  · exact ⟨howner, hshared⟩

/-- In every reachable state, a shared holder beside an exclusive holder waits for its upgrade, or
was left there. -/
theorem Run.upgrading_or_left (hrun : Run {} history table)
    (howner : (table.lockOf page).exclusive = some holder)
    (hshared : other ∈ (table.lockOf page).shared) :
    other ∈ (table.lockOf page).upgrading ∨ LeftBeside history holder other page := by
  refine (hrun.preserves
    (fun history table => ∀ page holder other, (table.lockOf page).exclusive = some holder →
      other ∈ (table.lockOf page).shared →
      other ∈ (table.lockOf page).upgrading ∨ LeftBeside history holder other page)
    regular_empty ?_ ?_).2 page holder other howner hshared
  · intro page holder other howner
    simp [lockOf] at howner
  · intro history before event hregular heffect hbeside page holder other howner hshared
    by_cases hwaits :
        other ∈ ((before.perform event).2.lockOf page).upgrading
    · exact .inl hwaits
    obtain ⟨howner', hshared', hrefused⟩ := heffect.beside hregular howner hshared hwaits
    right
    rcases hbeside page holder other howner' hshared' with hupgrading | hleft
    · refine ⟨history, ⟨before, event⟩, [], rfl, hrefused hupgrading, howner', ?_⟩
      intro kept hmember
      rw [List.mem_singleton.mp hmember]
      exact ⟨howner, hshared⟩
    · exact hleft.append howner hshared

/-- No running transaction shares a page with a writer, but for one that was refused. In every
reachable state in which a transaction holds a lock exclusively, every other transaction in the
shared set waits for its upgrade of that lock, which cannot be granted, or its upgrade was refused
while that transaction held the lock, which leaves the shared hold. -/
theorem beside_owner (hrun : Run {} history table)
    (howner : (table.lockOf page).exclusive = some holder)
    (hshared : other ∈ (table.lockOf page).shared) :
    (∃ request, table.pending[other]? = some request ∧ request.page = page ∧
        request.mode = .exclusive ∧ (table.lockOf page).canGrant other .exclusive = false) ∨
      LeftBeside history holder other page := by
  obtain ⟨hregular, _⟩ := hrun.preserves (fun _ _ => True) regular_empty trivial
    fun _ _ _ => trivial
  refine (hrun.upgrading_or_left howner hshared).imp_left fun hupgrading => ?_
  obtain ⟨request, hrequest, hpage, hmode⟩ := hregular.upgrading page other hupgrading
  refine ⟨request, hrequest, hpage, hmode, ?_⟩
  have hne : holder ≠ other := by
    rintro rfl
    exact (hregular.consistent page).apart holder howner hshared
  simpa [LockState.canGrant, howner] using hne

/-- A page. -/
def samplePage : PageId := ⟨⟨1⟩, 0⟩

/-- Three transactions read a page and ask for its upgrade. The last one overtakes the others, of
which one waits too long and the other goes on waiting. -/
theorem beside_owner_overtaken :
    ∃ history table, Run {} history table ∧
      (table.lockOf samplePage).exclusive = some ⟨3⟩ ∧
      (∃ request, table.pending[(⟨2⟩ : TxnId)]? = some request ∧ request.page = samplePage ∧
        request.mode = .exclusive ∧ (table.lockOf samplePage).canGrant ⟨2⟩ .exclusive = false) ∧
      LeftBeside history ⟨3⟩ ⟨1⟩ samplePage := by
  have hreplay : ((replay {} []
      [.submit ⟨1⟩ samplePage .shared, .submit ⟨2⟩ samplePage .shared,
        .submit ⟨3⟩ samplePage .shared, .submit ⟨1⟩ samplePage .exclusive, .advance ⟨1⟩,
        .submit ⟨2⟩ samplePage .exclusive, .advance ⟨2⟩, .submit ⟨3⟩ samplePage .exclusive,
        .expire ⟨1⟩]).any fun (history, table) =>
      (table.lockOf samplePage).exclusive = some ⟨3⟩ &&
        (table.lockOf samplePage).shared.contains ⟨1⟩ &&
        (table.lockOf samplePage).shared.contains ⟨2⟩ &&
        (table.pending[(⟨1⟩ : TxnId)]?).isNone &&
        history.all fun moment =>
          !(moment.event = .advance ⟨2⟩ || moment.event = .expire ⟨2⟩) ||
            moment.refusal?.isNone) = true := by
    decide +kernel
  obtain ⟨⟨history, table⟩, hreplay, hchecks⟩ := (Option.any_eq_true _ _).mp hreplay
  simp only [Bool.and_eq_true, Bool.or_eq_true, Bool.not_eq_true', Bool.or_eq_false_iff,
    List.all_eq_true, decide_eq_true_eq, decide_eq_false_iff_not, Option.isNone_iff_eq_none]
    at hchecks
  obtain ⟨⟨⟨⟨howner, hfirst⟩, hsecond⟩, hnone⟩, hgranted⟩ := hchecks
  have hrun : Run {} history table := .of_replay .start hreplay
  refine ⟨history, table, hrun, howner, ?_, ?_⟩
  · refine (beside_owner hrun howner (Std.ExtTreeSet.contains_iff_mem.mp hsecond)).resolve_right ?_
    rintro ⟨earlier, moment, later, rfl, ⟨hevent, hrefused, _⟩, _⟩
    rcases hgranted moment (by simp) with ⟨hadvance, hexpire⟩ | hquiet
    · exact hevent.elim hadvance hexpire
    · simp [hquiet] at hrefused
  · refine (beside_owner hrun howner (Std.ExtTreeSet.contains_iff_mem.mp hfirst)).resolve_left ?_
    rintro ⟨request, hrequest, _⟩
    simp [hnone] at hrequest

/-- A transaction that reads a page asks for its upgrade, and another reader overtakes it. The
first one waits too long: it waits no more, and is still a shared holder beside the exclusive
one. -/
theorem refused_beside_owner :
    ¬ ∀ {history : List LockMoment} {table : LockTable}, Run {} history table →
      ∀ {page : PageId} {holder other : TxnId}, (table.lockOf page).exclusive = some holder →
        other ∈ (table.lockOf page).shared →
        ∃ request, table.pending[other]? = some request ∧ request.page = page ∧
          request.mode = .exclusive := by
  intro hclaim
  have hreplay : ((replay {} []
      [.submit ⟨1⟩ samplePage .shared, .submit ⟨2⟩ samplePage .shared,
        .submit ⟨1⟩ samplePage .exclusive, .advance ⟨1⟩, .submit ⟨2⟩ samplePage .exclusive,
        .expire ⟨1⟩]).any fun (_, table) =>
      (table.lockOf samplePage).exclusive = some ⟨2⟩ &&
        (table.lockOf samplePage).shared.contains ⟨1⟩ &&
        (table.pending[(⟨1⟩ : TxnId)]?).isNone) = true := by
    decide +kernel
  obtain ⟨⟨history, table⟩, hreplay, hchecks⟩ := (Option.any_eq_true _ _).mp hreplay
  simp only [Bool.and_eq_true, decide_eq_true_eq, Option.isNone_iff_eq_none] at hchecks
  obtain ⟨⟨howner, hshared⟩, hnone⟩ := hchecks
  obtain ⟨request, hrequest, _⟩ := hclaim (.of_replay .start hreplay) howner
    (Std.ExtTreeSet.contains_iff_mem.mp hshared)
  simp [hnone] at hrequest

end LockTable

end RowStore
