import RowStore.Proofs.Cache.Recency

/-!
# Recency is a list of pages

The recency of pages keeps stamps, and sorts the tracked pages by them at each eviction. It is used
as if it kept a list of distinct pages instead, the one that was accessed the longest time ago in
front: an access moves a page to the end or puts it there, and an eviction offers the pages from the
front on and takes the first that may leave out of the list. `RecencyList.Step` says this for each
call. The main statement is `Recency.run_iff_list`: whatever the calls, those of a list are the
answers, and the list that they leave is the order of the offers. No two stamps are ever equal.
-/

namespace RowStore

/-- A call of the recency of pages. Whether a page may leave can depend on the pages that were
offered before it. -/
inductive RecencyCall where
  | access (page : PageId)
  | remove (page : PageId)
  | evict (mayLeave : List PageId → PageId → Bool)

namespace Recency

/-- Make a call. When a page is offered, those before it in the order were offered already. -/
def perform (recency : Recency) : RecencyCall → Option Eviction × Recency
  | .access page => (none, recency.access page)
  | .remove page => (none, recency.remove page)
  | .evict mayLeave =>
      let (eviction, after) :=
        recency.evict fun page => mayLeave (recency.order.takeWhile (· ≠ page)) page
      (some eviction, after)

/-- Make one call after the other, and collect the answers. -/
def run (recency : Recency) : List RecencyCall → List (Option Eviction) × Recency
  | [] => ([], recency)
  | call :: calls =>
      let (answer, after) := recency.perform call
      let (answers, last) := after.run calls
      (answer :: answers, last)

end Recency

namespace RecencyList

variable {pages after other : List PageId} {call : RecencyCall} {answer found : Option Eviction}
  {mayLeave : List PageId → PageId → Bool}

/-- None of the pages may leave when it is offered after those before it. -/
def Refused (mayLeave : List PageId → PageId → Bool) (pages : List PageId) : Prop :=
  ∀ earlier page later, pages = earlier ++ page :: later → mayLeave earlier page = false

/-- What a call does to a list of pages, the one in front being the oldest, and what it answers. -/
inductive Step (pages : List PageId) : RecencyCall → Option Eviction → List PageId → Prop where
  | access {page : PageId} : Step pages (.access page) none (pages.erase page ++ [page])
  | remove {page : PageId} : Step pages (.remove page) none (pages.erase page)
  | evicted {mayLeave : List PageId → PageId → Bool} {refused younger : List PageId}
      {victim : PageId} : pages = refused ++ victim :: younger → Refused mayLeave refused →
      mayLeave refused victim = true →
      Step pages (.evict mayLeave) (some ⟨some victim, refused ++ [victim]⟩) (refused ++ younger)
  | kept {mayLeave : List PageId → PageId → Bool} : Refused mayLeave pages →
      Step pages (.evict mayLeave) (some ⟨none, pages⟩) pages

/-- One step for each call. -/
inductive Run : List PageId → List RecencyCall → List (Option Eviction) → List PageId → Prop where
  | nil {pages : List PageId} : Run pages [] [] pages
  | cons {pages middle last : List PageId} {call : RecencyCall} {answer : Option Eviction}
      {calls : List RecencyCall} {answers : List (Option Eviction)} :
      Step pages call answer middle → Run middle calls answers last →
      Run pages (call :: calls) (answer :: answers) last

/-- A page that may leave was not refused. -/
theorem Refused.not_mayLeave {earlier later : List PageId} {page : PageId}
    (h : Refused mayLeave pages) (hpages : pages = earlier ++ page :: later) :
    mayLeave earlier page ≠ true := by
  simp [h earlier page later hpages]

/-- The first page that may leave is one only. -/
theorem victim_unique {refused younger refused' younger' : List PageId} {victim victim' : PageId}
    (hpages : refused ++ victim :: younger = refused' ++ victim' :: younger')
    (hrefused : Refused mayLeave refused) (hvictim : mayLeave refused victim = true)
    (hrefused' : Refused mayLeave refused') (hvictim' : mayLeave refused' victim' = true) :
    refused' = refused ∧ victim' = victim ∧ younger' = younger := by
  rcases List.append_eq_append_iff.mp hpages with ⟨between, hlong, hrest⟩ | ⟨between, hlong, hrest⟩
  · cases between with
    | nil => simp_all
    | cons first rest =>
        obtain ⟨rfl, _⟩ := List.cons.inj hrest
        exact absurd hvictim (hrefused'.not_mayLeave hlong)
  · cases between with
    | nil => simp_all
    | cons first rest =>
        obtain ⟨rfl, _⟩ := List.cons.inj hrest
        exact absurd hvictim' (hrefused.not_mayLeave hlong)

/-- A call has one outcome. -/
theorem Step.unique (h : Step pages call answer after) (hother : Step pages call found other) :
    found = answer ∧ other = after := by
  cases h with
  | access => cases hother with | access => exact ⟨rfl, rfl⟩
  | remove => cases hother with | remove => exact ⟨rfl, rfl⟩
  | evicted hpages hrefused hvictim =>
      cases hother with
      | evicted hpages' hrefused' hvictim' =>
          obtain ⟨rfl, rfl, rfl⟩ := victim_unique (hpages.symm.trans hpages') hrefused hvictim
            hrefused' hvictim'
          exact ⟨rfl, rfl⟩
      | kept hkept => exact absurd hvictim (hkept.not_mayLeave hpages)
  | kept hkept =>
      cases hother with
      | evicted hpages _ hvictim => exact absurd hvictim (hkept.not_mayLeave hpages)
      | kept _ => exact ⟨rfl, rfl⟩

/-- Calls have one outcome. -/
theorem Run.unique {calls : List RecencyCall} {answers founds : List (Option Eviction)}
    (h : Run pages calls answers after) (hother : Run pages calls founds other) :
    founds = answers ∧ other = after := by
  induction h generalizing founds with
  | nil => cases hother with | nil => exact ⟨rfl, rfl⟩
  | cons hstep _ ih =>
      cases hother with
      | cons hstep' hrun' =>
          obtain ⟨rfl, rfl⟩ := hstep.unique hstep'
          obtain ⟨rfl, rfl⟩ := ih hrun'
          exact ⟨rfl, rfl⟩

end RecencyList

namespace Recency

variable {recency : Recency} {page : PageId} {accesses : List PageId}

/-- No page is offered twice. -/
theorem nodup_order (recency : Recency) : recency.order.Nodup := by
  rw [order_eq_insertionSort]
  refine (((List.perm_insertionSort _ _).map Prod.fst).nodup_iff).mpr ?_
  rw [Std.ExtTreeMap.map_fst_toList_eq_keys]
  exact Std.ExtTreeMap.nodup_keys

theorem length_order (recency : Recency) : recency.order.length = recency.size := by
  rw [order_eq_insertionSort, List.length_map, List.length_insertionSort,
    Std.ExtTreeMap.length_toList]
  rfl

/-- The stamps of all pages but one determine the order of these pages. -/
theorem erase_order_congr {other : Recency}
    (h : ∀ found, found ≠ page → other.lastAccess[found]? = recency.lastAccess[found]?) :
    other.order.erase page = recency.order.erase page := by
  rw [(nodup_order other).erase_eq_filter, (nodup_order recency).erase_eq_filter]
  exact filter_order_congr fun found hfound => h found (by simpa using hfound)

/-- A page that is removed is not offered, and the order of the others stays. -/
theorem order_remove (recency : Recency) (page : PageId) :
    (recency.remove page).order = recency.order.erase page := by
  have habsent : page ∉ (recency.remove page).order := by
    rw [mem_order, remove, Std.ExtTreeMap.mem_erase]
    simp
  rw [← List.erase_of_not_mem habsent]
  refine erase_order_congr fun found hfound => ?_
  rw [remove, Std.ExtTreeMap.getElem?_erase, if_neg]
  rw [Std.compare_eq_iff_eq]
  exact Ne.symm hfound

namespace Follows

/-- No stamp is ahead of the clock. -/
theorem stamp_le_clock {stamp : Nat} (hfollows : recency.Follows accesses)
    (hstamp : recency.lastAccess[page]? = some stamp) : stamp ≤ recency.clock := by
  obtain ⟨earlier, later, rfl, _, rfl⟩ := hfollows.last page stamp hstamp
  rw [hfollows.clock, List.length_append, List.length_cons]
  omega

/-- No two pages have the same stamp. -/
theorem eq_of_stamp {other : PageId} {stamp : Nat} (hfollows : recency.Follows accesses)
    (hpage : recency.lastAccess[page]? = some stamp)
    (hother : recency.lastAccess[other]? = some stamp) : page = other := by
  obtain ⟨earlier, later, hsplit, _, hstamp⟩ := hfollows.last page stamp hpage
  obtain ⟨before, after, hsplit', _, hstamp'⟩ := hfollows.last other stamp hother
  have hlength : earlier.length = before.length := by omega
  obtain ⟨_, hrest⟩ := List.append_inj (hsplit.symm.trans hsplit') hlength
  exact (List.cons.inj hrest).1

/-- The page with the earlier stamp is offered first, and no two stamps are equal. -/
theorem pairwise_lt (hfollows : recency.Follows accesses) :
    recency.order.Pairwise fun first second => ∀ early late : Nat,
      recency.lastAccess[first]? = some early → recency.lastAccess[second]? = some late →
      early < late := by
  refine (recency.pairwise_order.and (nodup_order recency)).imp ?_
  rintro first second ⟨hle, hne⟩ early late hearly hlate
  refine Nat.lt_of_le_of_ne (hle early late hearly hlate) ?_
  rintro rfl
  exact hne (hfollows.eq_of_stamp hearly hlate)

/-- A page that is accessed is offered last from then on, and the order of the others stays. -/
theorem order_access (hfollows : recency.Follows accesses) (page : PageId) :
    (recency.access page).order = recency.order.erase page ++ [page] := by
  have hstamp : (recency.access page).lastAccess[page]? = some (recency.clock + 1) := by
    simp [Recency.access]
  have hmem : page ∈ (recency.access page).order := by
    rw [mem_order, Std.ExtTreeMap.mem_iff_isSome_getElem?, hstamp]
    rfl
  have hothers : (recency.access page).order.erase page = recency.order.erase page := by
    refine erase_order_congr fun found hfound => ?_
    rw [Recency.access, Std.ExtTreeMap.getElem?_insert, if_neg]
    rw [Std.compare_eq_iff_eq]
    exact Ne.symm hfound
  obtain ⟨older, younger, horder⟩ := List.append_of_mem hmem
  have hnodup := nodup_order (recency.access page)
  have hsorted := (hfollows.access page).pairwise_lt
  rw [horder] at hothers hnodup hsorted
  cases younger with
  | nil =>
      have holder : page ∉ older := by
        rw [List.nodup_append] at hnodup
        exact fun hpage => hnodup.2.2 page hpage page (by simp) rfl
      rw [List.erase_append_right _ holder, List.erase_cons_head, List.append_nil] at hothers
      rw [horder, hothers]
  | cons young rest =>
      -- A page behind it would have a stamp ahead of the clock.
      have hyoung : young ∈ (recency.access page).order := by simp [horder]
      rw [mem_order, Std.ExtTreeMap.mem_iff_isSome_getElem?, Option.isSome_iff_exists] at hyoung
      obtain ⟨late, hlate⟩ := hyoung
      rw [List.pairwise_append] at hsorted
      have hlt := (List.pairwise_cons.mp hsorted.2.1).1 young (by simp) _ late hstamp hlate
      have hle : late ≤ recency.clock + 1 := (hfollows.access page).stamp_le_clock hlate
      omega

end Follows

/-- What an eviction offers and chooses: the first page that may leave, and all before it. -/
theorem offer_cases (mayLeave : PageId → Bool) (pages : List PageId) :
    (∃ refused victim younger, pages = refused ++ victim :: younger ∧
        (∀ page ∈ refused, mayLeave page = false) ∧ mayLeave victim = true ∧
        offer mayLeave pages = ⟨some victim, refused ++ [victim]⟩) ∨
      (∀ page ∈ pages, mayLeave page = false) ∧ offer mayLeave pages = ⟨none, pages⟩ := by
  induction pages with
  | nil => exact .inr ⟨by simp, rfl⟩
  | cons page rest ih =>
      rw [offer]
      cases hpage : mayLeave page with
      | true => exact .inl ⟨[], page, rest, rfl, by simp, hpage, rfl⟩
      | false =>
          rcases ih with ⟨refused, victim, younger, rfl, hrefused, hvictim, hoffer⟩ |
            ⟨hrefused, hoffer⟩
          · refine .inl ⟨page :: refused, victim, younger, rfl, ?_, hvictim, by simp [hoffer]⟩
            exact List.forall_mem_cons.mpr ⟨hpage, hrefused⟩
          · exact .inr ⟨List.forall_mem_cons.mpr ⟨hpage, hrefused⟩, by simp [hoffer]⟩

/-- Where a page stands in a list of distinct pages, those before it are the ones up to it. -/
theorem takeWhile_ne {earlier later : List PageId}
    (hnodup : (earlier ++ page :: later).Nodup) :
    (earlier ++ page :: later).takeWhile (· ≠ page) = earlier := by
  rw [List.nodup_append] at hnodup
  have hearlier : ∀ found ∈ earlier, decide (found ≠ page) = true :=
    fun found hfound => decide_eq_true (hnodup.2.2 found hfound page (by simp))
  rw [List.takeWhile_append_of_pos hearlier, List.takeWhile_cons_of_neg (by simp), List.append_nil]

/-- A call does to the order of the offers what it does to a list of pages. -/
theorem step_perform (hfollows : recency.Follows accesses) (call : RecencyCall) :
    RecencyList.Step recency.order call (recency.perform call).1
      (recency.perform call).2.order := by
  cases call with
  | access page =>
      show RecencyList.Step _ _ none (recency.access page).order
      rw [hfollows.order_access]
      exact .access
  | remove page =>
      show RecencyList.Step _ _ none (recency.remove page).order
      rw [order_remove]
      exact .remove
  | evict mayLeave =>
      have hbefore : ∀ {earlier page later}, recency.order = earlier ++ page :: later →
          recency.order.takeWhile (· ≠ page) = earlier := by
        intro earlier page later horder
        rw [horder]
        exact takeWhile_ne (horder ▸ nodup_order recency)
      simp only [perform, evict]
      rcases offer_cases (fun page => mayLeave (recency.order.takeWhile (· ≠ page)) page)
        recency.order with
        ⟨refused, victim, younger, horder, hrefused, hvictim, hoffer⟩ | ⟨hrefused, hoffer⟩
      · have hleft : (recency.remove victim).order = refused ++ younger := by
          have hnodup := horder ▸ nodup_order recency
          rw [List.nodup_append] at hnodup
          have hvictim : victim ∉ refused := fun hmem => hnodup.2.2 victim hmem victim (by simp) rfl
          rw [order_remove, horder, List.erase_append_right _ hvictim, List.erase_cons_head]
        simp only [hoffer, hleft]
        refine .evicted horder (fun earlier page later hsplit => ?_) (hbefore horder ▸ hvictim)
        have hpage := hrefused page (by simp [hsplit])
        rwa [@hbefore earlier page (later ++ victim :: younger) (by simp [horder, hsplit])] at hpage
      · simp only [hoffer]
        refine .kept fun earlier page later hsplit => ?_
        have hpage := hrefused page (by simp [hsplit])
        rwa [hbefore hsplit] at hpage

/-- After a call, the stamps are again the places of the last accesses. -/
theorem follows_perform (hfollows : recency.Follows accesses) (call : RecencyCall) :
    ∃ accesses, (recency.perform call).2.Follows accesses := by
  cases call with
  | access page => exact ⟨_, hfollows.access page⟩
  | remove page => exact ⟨_, hfollows.remove page⟩
  | evict mayLeave =>
      simp only [perform, evict]
      split
      · exact ⟨_, hfollows⟩
      · exact ⟨_, hfollows.remove _⟩

/-- Calls do to the order of the offers what they do to a list of pages. -/
theorem run_perform (hfollows : recency.Follows accesses) (calls : List RecencyCall) :
    RecencyList.Run recency.order calls (recency.run calls).1 (recency.run calls).2.order ∧
      ∃ accesses, (recency.run calls).2.Follows accesses := by
  induction calls generalizing recency accesses with
  | nil => exact ⟨.nil, _, hfollows⟩
  | cons call calls ih =>
      obtain ⟨_, hafter⟩ := follows_perform hfollows call
      obtain ⟨hrun, hlast⟩ := ih hafter
      exact ⟨.cons (step_perform hfollows call) hrun, hlast⟩

/-- Whatever the calls are, the recency answers them as a list of distinct pages does that is empty
at first, and it offers the pages in the order of this list. As long as a page is tracked it is in
the list, an older page has an earlier stamp than a younger one, and no two pages have one stamp. -/
theorem run_iff_list (calls : List RecencyCall) :
    (∀ answers pages, RecencyList.Run [] calls answers pages ↔
      answers = (run {} calls).1 ∧ pages = (run {} calls).2.order) ∧
    (run {} calls).2.order.Nodup ∧
    (run {} calls).2.order.length = (run {} calls).2.size ∧
    (∀ page, page ∈ (run {} calls).2.order ↔ page ∈ (run {} calls).2.lastAccess) ∧
    ((run {} calls).2.order.Pairwise fun older younger => ∀ early late : Nat,
      (run {} calls).2.lastAccess[older]? = some early →
      (run {} calls).2.lastAccess[younger]? = some late → early < late) ∧
    ∀ (page other : PageId) (stamp : Nat), (run {} calls).2.lastAccess[page]? = some stamp →
      (run {} calls).2.lastAccess[other]? = some stamp → page = other := by
  obtain ⟨hrun, accesses, hfollows⟩ := run_perform Follows.nil calls
  have hempty : order {} = [] := by decide
  rw [hempty] at hrun
  refine ⟨fun answers pages => ⟨fun h => ?_, ?_⟩, nodup_order _, length_order _,
    fun page => mem_order, hfollows.pairwise_lt, fun page other stamp => hfollows.eq_of_stamp⟩
  · exact hrun.unique h
  · rintro ⟨rfl, rfl⟩
    exact hrun

/-- An access to the first of two pages makes it the younger one. The first offer is refused, so it
is this page that is evicted. -/
example :
    (run {} [.access ⟨⟨1⟩, 0⟩, .access ⟨⟨1⟩, 1⟩, .access ⟨⟨1⟩, 0⟩,
      .evict fun offered _ => !offered.isEmpty]).1 =
    [none, none, none, some ⟨some ⟨⟨1⟩, 0⟩, [⟨⟨1⟩, 1⟩, ⟨⟨1⟩, 0⟩]⟩] := by decide

end Recency

end RowStore
