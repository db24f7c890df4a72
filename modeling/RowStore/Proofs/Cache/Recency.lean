import Mathlib.Data.List.Sort
import RowStore.Cache.Recency

/-!
# Eviction by recency

`Recency.order` lists every tracked page, and none before one with an earlier stamp, so an eviction
offers the page first that was accessed the longest time ago. A stamp is only a number: `Follows`
says that it is the place of a page's last access among all accesses that there have been. That is
kept by each access and by each removal, so no two stamps are equal and the page that is evicted is
the one that was accessed the longest time ago of those that may leave: `Follows.least_recent`.
-/

namespace RowStore

namespace Recency

variable {recency : Recency} {page victim : PageId} {mayLeave : PageId → Bool}
  {accesses : List PageId}

/-! ## The order of the offers -/

theorem offeredBefore_iff {a b : PageId × Nat} :
    offeredBefore a b = true ↔ a.2 < b.2 ∨ a.2 = b.2 ∧ (compare a.1 b.1).isLE = true := by
  simp [offeredBefore]

/-- Of any two entries one is offered before the other. -/
instance : Std.Total fun a b : PageId × Nat => offeredBefore a b = true where
  total a b := by
    simp only [offeredBefore_iff]
    rcases Nat.lt_trichotomy a.2 b.2 with hlt | heq | hgt
    · exact .inl (.inl hlt)
    · cases hle : (compare a.1 b.1).isLE with
      | true => exact .inl (.inr ⟨heq, rfl⟩)
      | false =>
          refine .inr (.inr ⟨heq.symm, Std.OrientedCmp.isLE_of_isGE ?_⟩)
          cases hcompare : compare a.1 b.1 <;> simp_all
    · exact .inr (.inl hgt)

instance : IsTrans (PageId × Nat) fun a b => offeredBefore a b = true where
  trans a b c hab hbc := by
    rw [offeredBefore_iff] at hab hbc ⊢
    rcases hab with hab | ⟨hab, hle⟩ <;> rcases hbc with hbc | ⟨hbc, hle'⟩
    · exact .inl (Nat.lt_trans hab hbc)
    · exact .inl (hbc ▸ hab)
    · exact .inl (hab ▸ hbc)
    · exact .inr ⟨hab.trans hbc, Std.TransCmp.isLE_trans hle hle'⟩

theorem place_eq_orderedInsert (entry : PageId × Nat) (entries : List (PageId × Nat)) :
    place entry entries = entries.orderedInsert (fun a b => offeredBefore a b = true) entry := by
  induction entries with
  | nil => rfl
  | cons first rest ih => rw [place, List.orderedInsert, ih]

/-- The entries of the recency are sorted for the offers. -/
theorem order_eq_insertionSort (recency : Recency) :
    recency.order = (recency.lastAccess.toList.insertionSort
      fun a b => offeredBefore a b = true).map Prod.fst := by
  have hplace : place = List.orderedInsert (fun a b => offeredBefore a b = true) := by
    funext entry entries
    exact place_eq_orderedInsert entry entries
  rw [order, hplace, List.insertionSort]

/-- Every tracked page is offered. -/
theorem mem_order : page ∈ recency.order ↔ page ∈ recency.lastAccess := by
  simp only [order_eq_insertionSort, List.mem_map, List.mem_insertionSort, Prod.exists,
    Std.ExtTreeMap.mem_toList_iff_getElem?_eq_some, exists_and_right, exists_eq_right,
    Std.ExtTreeMap.mem_iff_isSome_getElem?, Option.isSome_iff_exists]

/-- The page with the earlier stamp is offered first. -/
theorem pairwise_order (recency : Recency) :
    recency.order.Pairwise fun first second => ∀ early late : Nat,
      recency.lastAccess[first]? = some early → recency.lastAccess[second]? = some late →
      early ≤ late := by
  rw [order_eq_insertionSort, List.pairwise_map]
  refine (List.pairwise_insertionSort _ _).imp_of_mem fun {a b} ha hb hbefore early late hearly
    hlate => ?_
  rw [List.mem_insertionSort, Std.ExtTreeMap.mem_toList_iff_getElem?_eq_some] at ha hb
  rw [hearly, Option.some.injEq] at ha
  rw [hlate, Option.some.injEq] at hb
  rw [ha, hb]
  rcases offeredBefore_iff.mp hbefore with hlt | ⟨heq, _⟩
  · exact Nat.le_of_lt hlt
  · exact Nat.le_of_eq heq

/-- The first page is chosen that may leave. -/
theorem offer_victim (mayLeave : PageId → Bool) (pages : List PageId) :
    (offer mayLeave pages).victim = pages.find? mayLeave := by
  induction pages with
  | nil => rfl
  | cons page rest ih =>
      rw [offer, List.find?_cons]
      cases mayLeave page with
      | true => rfl
      | false => exact ih

theorem evict_victim (recency : Recency) (mayLeave : PageId → Bool) :
    (recency.evict mayLeave).1.victim = recency.order.find? mayLeave := by
  rw [← offer_victim, evict]
  split <;> rfl

/-- No page is chosen if no tracked page may leave, and only then. -/
theorem evict_eq_none :
    (recency.evict mayLeave).1.victim = none ↔
      ∀ page ∈ recency.lastAccess, mayLeave page = false := by
  simp [evict_victim, List.find?_eq_none, mem_order]

/-- The page that is chosen is tracked, may leave, and has the earliest stamp of those that may. -/
theorem evict_eq_some (h : (recency.evict mayLeave).1.victim = some victim) :
    mayLeave victim = true ∧ victim ∈ recency.lastAccess ∧
      ∀ other, mayLeave other = true → ∀ early late : Nat,
        recency.lastAccess[victim]? = some early → recency.lastAccess[other]? = some late →
        early ≤ late := by
  rw [evict_victim, List.find?_eq_some_iff_append] at h
  obtain ⟨hleaves, earlier, later, horder, hrefused⟩ := h
  refine ⟨hleaves, mem_order.mp (by simp [horder]), fun other hother early late hearly hlate => ?_⟩
  have hmem : other ∈ earlier ++ victim :: later :=
    horder ▸ mem_order.mpr (by simp [Std.ExtTreeMap.mem_iff_isSome_getElem?, hlate])
  rcases List.mem_append.mp hmem with hearlier | hlater
  · -- A page that was offered before was refused.
    have hkept := hrefused other hearlier
    simp [hother] at hkept
  · rcases List.mem_cons.mp hlater with rfl | hlater
    · exact Nat.le_of_eq (Option.some.inj (hearly.symm.trans hlate))
    · have hpairwise := recency.pairwise_order
      rw [horder, List.pairwise_append] at hpairwise
      exact (List.pairwise_cons.mp hpairwise.2.1).1 other hlater early late hearly hlate

/-- Two entries that are each offered before the other are the same. -/
theorem offeredBefore_antisymm {a b : PageId × Nat} (hab : offeredBefore a b = true)
    (hba : offeredBefore b a = true) : a = b := by
  rw [offeredBefore_iff] at hab hba
  have hstamp : a.2 = b.2 := by omega
  refine Prod.ext (Std.LawfulEqOrd.eq_of_compare (Std.OrientedCmp.isLE_antisymm ?_ ?_)) hstamp
  · exact hab.elim (fun hlt => absurd hlt (by omega)) And.right
  · exact hba.elim (fun hlt => absurd hlt (by omega)) And.right

/-- In which order some of the pages are offered depends only on their own stamps. -/
theorem filter_order_congr {other : Recency} {keeps : PageId → Bool}
    (h : ∀ page, keeps page = true → other.lastAccess[page]? = recency.lastAccess[page]?) :
    other.order.filter keeps = recency.order.filter keeps := by
  let offers (found : Recency) : List (PageId × Nat) :=
    (found.lastAccess.toList.insertionSort fun a b => offeredBefore a b = true).filter
      (keeps ∘ Prod.fst)
  have hsorted : ∀ found, (offers found).Pairwise fun a b => offeredBefore a b = true :=
    fun found => (List.pairwise_insertionSort _ _).filter _
  have hnodup : ∀ found, (offers found).Nodup := by
    intro found
    refine ((List.perm_insertionSort _ _).nodup_iff.mpr ?_).filter _
    exact Std.ExtTreeMap.ordered_keys_toList.imp fun {a b} hlt heq => by simp [heq] at hlt
  -- The same entries in the same order are the same list.
  have hsame : offers other = offers recency := by
    refine List.Perm.eq_of_pairwise (fun a b _ _ => offeredBefore_antisymm) (hsorted other)
      (hsorted recency) ((List.perm_ext_iff_of_nodup (hnodup other) (hnodup recency)).mpr ?_)
    rintro ⟨page, stamp⟩
    simp only [offers, List.mem_filter, List.mem_insertionSort, Function.comp_apply,
      Std.ExtTreeMap.mem_toList_iff_getElem?_eq_some]
    refine and_congr_left fun hkeeps => ?_
    rw [h page hkeeps]
  simp only [order_eq_insertionSort, List.filter_map]
  exact congrArg (List.map Prod.fst) hsame

/-- Which page is chosen depends only on the stamps of the pages that may leave. -/
theorem evict_congr {other : Recency}
    (h : ∀ page, mayLeave page = true → other.lastAccess[page]? = recency.lastAccess[page]?) :
    (other.evict mayLeave).1.victim = (recency.evict mayLeave).1.victim := by
  rw [evict_victim, evict_victim, ← List.head?_filter, ← List.head?_filter, filter_order_congr h]

/-! ## Stamps and accesses -/

/-- The stamp of each tracked page is the place of its last access among all accesses. -/
structure Follows (accesses : List PageId) (recency : Recency) : Prop where
  clock : recency.clock = accesses.length
  last : ∀ (page : PageId) (stamp : Nat), recency.lastAccess[page]? = some stamp →
    ∃ earlier later, accesses = earlier ++ page :: later ∧ page ∉ later ∧
      stamp = earlier.length + 1

namespace Follows

/-- Nothing is tracked before the first access. -/
theorem nil : Follows [] {} where
  clock := rfl
  last page stamp h := by simp at h

/-- A page is accessed. -/
theorem access (hfollows : recency.Follows accesses) (page : PageId) :
    (recency.access page).Follows (accesses ++ [page]) where
  clock := by simp [Recency.access, hfollows.clock]
  last other stamp h := by
    simp only [Recency.access, Std.ExtTreeMap.getElem?_insert, Std.compare_eq_iff_eq] at h
    split at h
    · rename_i hsame
      refine ⟨accesses, [], by rw [hsame], List.not_mem_nil, ?_⟩
      rw [← hfollows.clock]
      exact (Option.some.inj h).symm
    · rename_i hother
      obtain ⟨earlier, later, rfl, hlast, hstamp⟩ := hfollows.last other stamp h
      refine ⟨earlier, later ++ [page], by simp, ?_, hstamp⟩
      simp [hlast, Ne.symm hother]

/-- A page is tracked no more. -/
theorem remove (hfollows : recency.Follows accesses) (page : PageId) :
    (recency.remove page).Follows accesses where
  clock := hfollows.clock
  last other stamp h := by
    simp only [Recency.remove, Std.ExtTreeMap.getElem?_erase] at h
    split at h
    · simp at h
    · exact hfollows.last other stamp h

/-- The page that is evicted was not accessed since any other tracked page was that may leave. -/
theorem least_recent (hfollows : recency.Follows accesses)
    (h : (recency.evict mayLeave).1.victim = some victim) :
    ∃ earlier later, accesses = earlier ++ victim :: later ∧ victim ∉ later ∧
      ∀ other ∈ recency.lastAccess, mayLeave other = true → other ≠ victim → other ∈ later := by
  obtain ⟨_, htracked, hearliest⟩ := evict_eq_some h
  obtain ⟨early, hearly⟩ := Option.isSome_iff_exists.mp
    (Std.ExtTreeMap.mem_iff_isSome_getElem?.mp htracked)
  obtain ⟨earlier, later, hsplit, hlast, hearlyStamp⟩ := hfollows.last victim early hearly
  refine ⟨earlier, later, hsplit, hlast, fun other hother hleaves hne => ?_⟩
  obtain ⟨late, hlate⟩ := Option.isSome_iff_exists.mp
    (Std.ExtTreeMap.mem_iff_isSome_getElem?.mp hother)
  obtain ⟨before, after, hsplit', _, hlateStamp⟩ := hfollows.last other late hlate
  have hle := hearliest other hleaves early late hearly hlate
  -- Both accesses are in one list, and that of the victim does not come after the other.
  rw [hsplit', List.append_eq_append_iff] at hsplit
  rcases hsplit with ⟨between, hbetween, hrest⟩ | ⟨between, hbetween, hrest⟩
  · cases between with
    | nil => exact absurd (List.cons.inj hrest).1 hne
    | cons first rest =>
        rw [hbetween, List.length_append, List.length_cons] at hearlyStamp
        omega
  · cases between with
    | nil => exact absurd (List.cons.inj hrest).1.symm hne
    | cons first rest =>
        rw [(List.cons.inj hrest).2]
        simp

end Follows

end Recency

end RowStore
