import RowStore.Proofs.Database.Stowed
import RowStore.Proofs.Session.Pinned

/-!
# Dirty pages and their owners

Whatever order the threads make their moves in, a page that is dirty on behalf of a transaction is
one that this transaction holds exclusively and has a before-image of, and whoever has a
before-image of a page holds the page exclusively: `dirty_pages_owned`. So no page has before-images
of two transactions. This needs that whatever ends a transaction writes or restores each page that
it dirtied, which `Stowed` is for.
-/

namespace RowStore

/-- The move is part of a call, a flush, or the end of a transaction. -/
def Move.isOrdinary : Move → Bool
  | .begin .. | .submit _ | .advance _ | .expire _ | .stride _ | .complete .. | .flushPage _
  | .flushOf _ | .flushAll => true
  | .release .. | .write .. | .discardPage _ | .discardTable _ | .changeCatalog _ => false

theorem Move.drops_of_isOrdinary {move : Move} (hordinary : move.isOrdinary = true) :
    move.drops = false := by
  cases move <;> first | rfl | simp [isOrdinary] at hordinary

/-- Giving up a page that a transaction does not hold exclusively takes no exclusive hold. -/
theorem LockTable.exclusive_release {table : LockTable} {txn : TxnId} {page : PageId}
    (howner : (table.lockOf page).exclusive ≠ some txn) (other : PageId) :
    ((table.release txn page).2.lockOf other).exclusive = (table.lockOf other).exclusive := by
  rw [lockOf_release]
  split
  · rename_i hsame
    subst hsame
    split
    · rw [LockState.exclusive_drop, if_neg howner]
    · rfl
  · rfl

namespace Database

/-- Each dirty page has a before-image of the transaction that dirtied it, and whoever has a
before-image of a page holds the page exclusively. -/
structure Owned (db : Database) : Prop where
  stowed : db.Stowed
  owner : ∀ (txn : TxnId) (page : PageId), (db.journal.image? txn page).isSome = true →
    (db.locks.lockOf page).exclusive = some txn
  noted : ∀ (page : PageId) (resident : Resident) (txn : TxnId),
    db.cache.frames[page]? = some resident → resident.dirtiedBy = some txn →
    (db.journal.image? txn page).isSome = true

namespace Owned

variable {db after : Database} {page : PageId} {bytes : Bytes} {txn : TxnId}

/-- What keeps the before-images and the exclusive holds, and makes no file shorter, keeps the pages
owned, if each frame that is new has a place, and is clean or has its before-image. -/
theorem of_keeps (howned : db.Owned) (hcatalog : after.catalog = db.catalog)
    (hgrows : db.storage.Grows after.storage)
    (hlocks : ∀ (page : PageId) (owner : TxnId), (db.locks.lockOf page).exclusive = some owner →
      (after.locks.lockOf page).exclusive = some owner)
    (himages : ∀ txn page, after.journal.imageBytes? txn page = db.journal.imageBytes? txn page)
    (hframes : ∀ (page : PageId) (resident : Resident),
      after.cache.frames[page]? = some resident → db.cache.frames[page]? = some resident ∨
        (resident.page.id = page ∧ db.HasPlace page resident.page.bytes) ∧
          ∀ owner, resident.dirtiedBy = some owner →
            (db.journal.image? owner page).isSome = true) : after.Owned where
  stowed := by
    refine howned.stowed.of_grows hcatalog hgrows ?_ ?_
    · exact fun page resident hframe => (hframes page resident hframe).imp_right And.left
    · exact fun txn page bytes himage => .inl (himages txn page ▸ himage)
  owner txn page himage := by
    rw [← Journal.isSome_imageBytes?, himages, Journal.isSome_imageBytes?] at himage
    exact hlocks page txn (howned.owner txn page himage)
  noted page resident txn hframe hdirty := by
    rw [← Journal.isSome_imageBytes?, himages, Journal.isSome_imageBytes?]
    rcases hframes page resident hframe with hkept | ⟨_, hnew⟩
    · exact howned.noted page resident txn hkept hdirty
    · exact hnew txn hdirty

/-- A flush keeps the pages owned. -/
theorem of_flush (howned : db.Owned) (hflush : MayFlush page db after) : after.Owned := by
  have hundisturbed : Undisturbed (fun _ => False) db after := .of_flush hflush
  refine howned.of_keeps hflush.catalog hundisturbed.grows ?_ ?_ ?_
  · exact fun other owner h => hflush.locks ▸ h
  · intro txn other
    rcases hflush.journal with hsame | ⟨owner, _, hmarked⟩
    · rw [hsame]
    · rw [hmarked, Journal.imageBytes?_markStolen]
  · intro other resident hframe
    rcases hflush.frames other with hsame | ⟨rfl, found, hfound, hafter⟩
    · exact .inl (hsame ▸ hframe)
    · rw [hafter, Option.some.injEq] at hframe
      subst hframe
      exact .inr ⟨⟨howned.stowed.named other found hfound,
        howned.stowed.frames other found hfound⟩, fun owner h => by simp [Frame.markClean] at h⟩

/-- Flushes keep the pages owned. -/
theorem flushEach (howned : db.Owned) (pages : List PageId) : (db.flushEach pages).2.Owned :=
  flushEach_preserves Owned pages
    (fun page _ howned => howned.of_flush (flushPage_mayFlush _ page)) howned

/-- Putting back what a page held keeps the pages owned. -/
theorem restore (howned : db.Owned) (hplace : db.HasPlace page bytes) (txn : TxnId) :
    (db.restore txn page bytes).2.Owned := by
  have hrestore := restore_mayRestore db txn page bytes
  have hundisturbed : Undisturbed (fun _ => True) db _ := .of_restore hrestore trivial
  refine howned.of_keeps hrestore.catalog hundisturbed.grows ?_ ?_ ?_
  · exact fun other owner h => hrestore.locks ▸ h
  · exact fun other page => by rw [hrestore.journal]
  · intro other resident hframe
    rcases hrestore.frames other with hsame | ⟨rfl, found, restored, _, hfound, hput, hafter⟩
    · exact .inl (hsame ▸ hframe)
    · have hclean := howned.stowed.restore_cleans hplace txn resident hframe
      rw [hafter, Option.some.injEq] at hframe
      subst hframe
      obtain ⟨hid, hbytes⟩ := HeapPage.restore_eq_ok hput
      refine .inr ⟨⟨hid.trans (howned.stowed.named other found hfound), hbytes ▸ hplace⟩, ?_⟩
      intro owner hdirty
      rw [hclean] at hdirty
      simp at hdirty

/-- Rolling a transaction back keeps the pages owned. -/
theorem rollBack (howned : db.Owned) (txn : TxnId) : (db.rollBack txn).2.Owned := by
  have himages : ∀ (images : List (PageId × BeforeImage)) (db : Database), db.Owned →
      (∀ entry ∈ images, db.HasPlace entry.1 entry.2.bytes) →
      (db.restoreEach txn images).2.Owned := by
    intro images
    induction images with
    | nil => exact fun _ howned _ => howned
    | cons entry rest ih =>
        intro db howned hplaces
        obtain ⟨page, image⟩ := entry
        have hrestore := restore_mayRestore db txn page image.bytes
        have hundisturbed : Undisturbed (fun _ => True) db _ := .of_restore hrestore trivial
        exact ih _ (howned.restore (hplaces _ List.mem_cons_self) txn) fun entry hentry =>
          (hplaces entry (List.mem_cons_of_mem _ hentry)).of_grows hrestore.catalog
            hundisturbed.grows
  refine himages _ db howned ?_
  rintro ⟨page, image⟩ hentry
  refine howned.stowed.images txn page image.bytes ?_
  rw [Journal.imageBytes?, (Journal.mem_imagesOf ..).mp hentry]
  rfl

/-- A transaction that has no dirty page may forget its before-images and give up its locks. -/
theorem finish (howned : db.Owned) (hclean : db.CleanOf txn) : (db.finish txn).Owned where
  stowed := by
    refine howned.stowed.of_grows rfl .refl (fun _ _ hframe => .inl hframe) ?_
    intro other page bytes himage
    have himage : Journal.imageBytes? (db.journal.erase txn) other page = some bytes := himage
    rw [Journal.imageBytes?, Journal.image?_erase] at himage
    split at himage
    · simp at himage
    · exact .inl himage
  owner other page himage := by
    have himage : (Journal.image? (db.journal.erase txn) other page).isSome = true := himage
    rw [Journal.image?_erase] at himage
    split at himage
    · simp at himage
    · rename_i hne
      have howner := howned.owner other page himage
      have hrespects : LockTable.Respects other db.locks (db.locks.releaseAll txn) :=
        .of_releaseAll _ (Ne.symm hne)
      exact LockState.holds_exclusive_iff.mp
        (hrespects.holds page .exclusive (LockState.holds_exclusive_iff.mpr howner))
  noted page resident other hframe hdirty := by
    show (Journal.image? (db.journal.erase txn) other page).isSome = true
    rw [Journal.image?_erase, if_neg]
    · exact howned.noted page resident other hframe hdirty
    · rintro rfl
      exact hclean page resident hframe hdirty

/-- What a page holds is noted for the transaction that holds it exclusively. -/
theorem noteBefore (howned : db.Owned) {ref : FrameRef}
    (howner : (db.locks.lockOf ref.page).exclusive = some txn) (hshows : db.cache.Shows ref) :
    (db.noteBefore txn ref).Owned ∧
      ((db.noteBefore txn ref).journal.image? txn ref.page).isSome = true ∧
      ∀ other page, (db.journal.image? other page).isSome = true →
        ((db.noteBefore txn ref).journal.image? other page).isSome = true := by
  obtain ⟨resident, hframe, hfound⟩ := hshows.frame?
  have hnote : db.noteBefore txn ref =
      { db with journal := db.journal.record txn ref.page resident.page.bytes } := by
    simp only [Database.noteBefore, Database.frame?, hfound]
  have himage := fun other page =>
    Journal.image?_record db.journal txn other ref.page page resident.page.bytes
  rw [hnote]
  have hkeeps : ∀ other page, (db.journal.image? other page).isSome = true →
      ((db.journal.record txn ref.page resident.page.bytes).image? other page).isSome = true := by
    intro other page hnoted
    rw [himage]
    split
    · rfl
    · exact hnoted
  refine ⟨⟨?_, ?_, ?_⟩, ?_, hkeeps⟩
  · refine howned.stowed.of_grows rfl .refl (fun _ _ hframe => .inl hframe) ?_
    intro other page bytes hbytes
    simp only [Journal.imageBytes?, himage] at hbytes ⊢
    split at hbytes
    · rename_i hsame
      obtain ⟨rfl, rfl⟩ := hsame
      cases hbefore : db.journal.image? txn ref.page with
      | some image =>
          rw [hbefore] at hbytes
          exact .inl hbytes
      | none =>
          rw [hbefore] at hbytes
          simp only [Option.getD_none, Option.map_some, Option.some.injEq] at hbytes
          exact .inr (hbytes ▸ howned.stowed.frames ref.page resident hframe)
    · exact .inl hbytes
  · intro other page hnoted
    simp only [himage] at hnoted
    split at hnoted
    · rename_i hsame
      obtain ⟨rfl, rfl⟩ := hsame
      exact howner
    · exact howned.owner other page hnoted
  · exact fun page found other hfound hdirty =>
      hkeeps other page (howned.noted page found other hfound hdirty)
  · show ((db.journal.record txn ref.page resident.page.bytes).image? txn ref.page).isSome = true
    rw [himage, if_pos ⟨rfl, rfl⟩]
    rfl

end Owned

end Database

/-- What a fetch has come to is secured: a page that was read has a place, and what an operation
holds in hand that may change it is noted. -/
def Stage.Secured (db : Database) (txn : TxnId) (operation : Operation) : Stage → Prop
  | read (.ok loaded) => db.HasPlace loaded.1.id loaded.1.bytes
  | reached ref => operation.demand.2 = .exclusive →
      (db.journal.image? txn ref.page).isSome = true
  | locked | reserved | read (.error _) | fetched _ => True

/-- What a fetch has come to stays secured while no file gets shorter and its transaction keeps its
before-images. -/
theorem Stage.Secured.of_keeps {before after : Database} {txn : TxnId} {operation : Operation}
    {stage : Stage} (hsecured : stage.Secured before txn operation)
    (hcatalog : after.catalog = before.catalog) (hgrows : before.storage.Grows after.storage)
    (himages : ∀ page, (before.journal.image? txn page).isSome = true →
      (after.journal.image? txn page).isSome = true) : stage.Secured after txn operation := by
  cases stage with
  | locked | reserved | fetched => trivial
  | reached ref => exact fun hmode => himages _ (hsecured hmode)
  | read loaded =>
      cases loaded with
      | error => trivial
      | ok loaded => exact hsecured.of_grows hcatalog hgrows

/-- The pages are owned, and what each fetch has come to is secured. -/
structure Threads.Owned (threads : Threads) : Prop where
  db : threads.session.db.Owned
  secured : ∀ (txn : TxnId) (operation : Operation) (stage : Stage),
    threads.session.waiting[txn]? = some operation → threads.stages[txn]? = some stage →
    stage.Secured threads.session.db txn operation

namespace Threads.Owned

variable {threads after : Threads} {txn : TxnId} {db : Database} {operation : Operation}
  {stage next : Stage} {progress : Progress}

/-- A transaction that acts keeps the pages owned and all fetches secured if it leaves the others
their before-images. -/
theorem of_actor (howned : threads.Owned) (txn : TxnId) (hdb : after.session.db.Owned)
    (hcatalog : after.session.db.catalog = threads.session.db.catalog)
    (hgrows : threads.session.db.storage.Grows after.session.db.storage)
    (himages : ∀ other page, other ≠ txn →
      (threads.session.db.journal.image? other page).isSome = true →
      (after.session.db.journal.image? other page).isSome = true)
    (hwaiting : ∀ other : TxnId, other ≠ txn →
      after.session.waiting[other]? = threads.session.waiting[other]?)
    (hstages : ∀ other : TxnId, other ≠ txn → after.stages[other]? = threads.stages[other]?)
    (hactor : ∀ operation stage, after.session.waiting[txn]? = some operation →
      after.stages[txn]? = some stage → stage.Secured after.session.db txn operation) :
    after.Owned where
  db := hdb
  secured other operation stage hoperation hstage := by
    by_cases hsame : other = txn
    · subst hsame
      exact hactor operation stage hoperation hstage
    · rw [hwaiting other hsame] at hoperation
      rw [hstages other hsame] at hstage
      exact (howned.secured other operation stage hoperation hstage).of_keeps hcatalog hgrows
        fun page => himages other page hsame

/-- An operation has ended or has come to its next demand. -/
theorem rest (howned : threads.Owned) (hdb : db.Owned)
    (hcatalog : db.catalog = threads.session.db.catalog)
    (hgrows : threads.session.db.storage.Grows db.storage)
    (himages : ∀ other page, (threads.session.db.journal.image? other page).isSome = true →
      (db.journal.image? other page).isSome = true) :
    (threads.rest txn progress db).2.Owned := by
  refine howned.of_actor txn (by rwa [db_rest]) (by rwa [db_rest]) (by rwa [db_rest]) ?_ ?_ ?_ ?_
  · rw [db_rest]
    exact fun other page _ => himages other page
  · intro other hother
    rw [waiting_rest, if_neg hother.symm]
  · intro other hother
    simp [stages_rest, Std.ExtTreeMap.getElem?_erase, hother.symm]
  · intro operation stage _ hstage
    rw [stages_rest, Std.ExtTreeMap.getElem?_erase_self] at hstage
    simp at hstage

/-- An operation has come to a stage. -/
theorem stand (howned : threads.Owned) (hdb : db.Owned)
    (hcatalog : db.catalog = threads.session.db.catalog)
    (hgrows : threads.session.db.storage.Grows db.storage)
    (himages : ∀ other page, (threads.session.db.journal.image? other page).isSome = true →
      (db.journal.image? other page).isSome = true)
    (hwaiting : threads.session.waiting[txn]? = some operation)
    (hsecured : stage.Secured db txn operation) : (threads.stand txn stage db).Owned := by
  refine howned.of_actor txn hdb hcatalog hgrows (fun other page _ => himages other page)
    (fun _ _ => rfl) ?_ ?_
  · intro other hother
    simp [stages_stand, Std.ExtTreeMap.getElem?_insert, hother.symm]
  · intro found stage' hfound hstage
    obtain rfl := Option.some.inj (hwaiting.symm.trans hfound)
    rw [stages_stand, Std.ExtTreeMap.getElem?_insert_self, Option.some.injEq] at hstage
    exact hstage ▸ hsecured

/-- Nothing has happened but to the database. -/
theorem withDb (howned : threads.Owned) (hdb : db.Owned)
    (hcatalog : db.catalog = threads.session.db.catalog)
    (hgrows : threads.session.db.storage.Grows db.storage)
    (himages : ∀ other page, (threads.session.db.journal.image? other page).isSome = true →
      (db.journal.image? other page).isSome = true) : (threads.withDb db).Owned where
  db := hdb
  secured other operation stage hoperation hstage :=
    (howned.secured other operation stage hoperation hstage).of_keeps hcatalog hgrows
      (himages other)

/-- An operation comes to another stage of its fetch. -/
theorem stands (howned : threads.Owned) (hsound : threads.session.db.catalog.Sound)
    (hwaiting : threads.session.waiting[txn]? = some operation)
    (hstage : threads.stages[txn]? = some stage) (hfits : stage.Fits operation.demand.1)
    (hholds : (threads.session.db.locks.lockOf operation.demand.1).holds txn
      operation.demand.2 = true)
    (hpinned : ∀ ref, stage.ref? = some ref → threads.session.db.cache.Shows ref)
    (hstrides : Strides txn operation threads.session.db stage (.stands next) db) :
    (threads.stand txn next db).Owned := by
  cases hstrides with
  | present | reserves | finds =>
      exact howned.stand (howned.db.of_keeps rfl .refl (fun _ _ h => h) (fun _ _ => rfl)
        fun _ _ => .inl) rfl .refl (fun _ _ h => h) hwaiting trivial
  | @evicts victim resident hevicted =>
      refine howned.stand (howned.db.of_keeps rfl .refl ?_ (fun _ _ => rfl) ?_) rfl .refl
        (fun _ _ h => h) hwaiting trivial
      · intro page owner howner
        have hrespects : LockTable.Respects owner threads.session.db.locks _ := .of_reclaim _ victim
        exact LockState.holds_exclusive_iff.mp
          (hrespects.holds page .exclusive (LockState.holds_exclusive_iff.mpr howner))
      · intro page found hfound
        have hfound : (threads.session.db.cache.remove victim).frames[page]? = some found := hfound
        rw [Cache.frames_remove] at hfound
        split at hfound
        · simp at hfound
        · exact .inl hfound
  | @reads loaded storage hload hdirectory =>
      have hgrows : threads.session.db.storage.Grows storage := .of_directory hdirectory
      refine howned.stand (howned.db.of_keeps rfl hgrows (fun _ _ h => h) (fun _ _ => rfl)
        fun _ _ => .inl) rfl hgrows (fun _ _ h => h) hwaiting ?_
      cases loaded with
      | error => trivial
      | ok loaded =>
          have hplace := Database.HasPlace.of_load hsound hload
          have hid : loaded.1.id = operation.demand.1 :=
            (Database.load_eq_ok (fun heap hheap => (hsound.fits _ heap hheap).table) hload 0).id
          show Database.HasPlace _ loaded.1.id loaded.1.bytes
          rw [hid]
          exact hplace.of_grows rfl hgrows
  | @installs heapPage origin habsent =>
      have hplace : threads.session.db.HasPlace heapPage.id heapPage.bytes :=
        howned.secured txn operation _ hwaiting hstage
      refine howned.stand (howned.db.of_keeps rfl .refl (fun _ _ h => h) (fun _ _ => rfl) ?_) rfl
        .refl (fun _ _ h => h) hwaiting trivial
      intro page found hfound
      have hfound : (Cache.add _ heapPage origin).frames[page]? = some found := hfound
      rw [Cache.frames_add] at hfound
      split at hfound
      · rename_i hpage
        rw [Option.some.injEq] at hfound
        subst hfound hpage
        exact .inr ⟨⟨rfl, hplace⟩, fun owner h => by simp at h⟩
      · exact .inl hfound
  | @notes ref =>
      have hpage : ref.page = operation.demand.1 := hfits
      cases hmode : operation.demand.2 with
      | shared =>
          refine howned.stand howned.db rfl .refl (fun _ _ h => h) hwaiting ?_
          intro h
          rw [hmode] at h
          simp at h
      | exclusive =>
          rw [hmode, ← hpage] at hholds
          obtain ⟨hdb, hnoted, hkeeps⟩ :=
            howned.db.noteBefore (LockState.holds_exclusive_iff.mp hholds) (hpinned ref rfl)
          have hnote : threads.session.db.noteFor txn ref .exclusive =
            threads.session.db.noteBefore txn ref := rfl
          rw [hnote]
          refine howned.stand hdb ?_ ?_ hkeeps hwaiting fun _ => hnoted
          · simp only [Database.noteBefore]
            split <;> rfl
          · simp only [Database.noteBefore]
            split <;> exact .refl

/-- An operation is done with its page. -/
theorem leaves (howned : threads.Owned)
    (hwaiting : threads.session.waiting[txn]? = some operation)
    (hstage : threads.stages[txn]? = some stage)
    (hpinned : ∀ ref, stage.ref? = some ref → threads.session.db.cache.Shows ref)
    (hstrides : Strides txn operation threads.session.db stage (.leaves progress) db) :
    (threads.rest txn progress db).2.Owned := by
  cases hstrides with
  | full => exact howned.rest howned.db rfl .refl fun _ _ h => h
  | fails =>
      exact howned.rest (howned.db.of_keeps rfl .refl (fun _ _ h => h) (fun _ _ => rfl)
        fun _ _ => .inl) rfl .refl fun _ _ h => h
  | @handles ref _ _ hhandles =>
      cases hhandles with
      | @looks _ locks storage hlocks hstorage _ =>
          have hgrows : threads.session.db.storage.Grows storage := by
            rcases hstorage with rfl | ⟨heap, hsize, rfl⟩
            · exact .refl
            · exact .appendPage hsize
          refine howned.rest (howned.db.of_keeps rfl hgrows ?_ (fun _ _ => rfl) fun _ _ => .inl) rfl
            hgrows fun _ _ h => h
          intro page owner howner
          rcases hlocks with rfl | ⟨_, hother, rfl⟩
          · exact howner
          · exact (LockTable.exclusive_release hother page).trans howner
      | @changes _ frame changed hmode hframe hedits =>
          have hnoted : (threads.session.db.journal.image? txn ref.page).isSome = true :=
            howned.secured txn operation _ hwaiting hstage hmode
          obtain ⟨resident, hresident, hfound⟩ := (hpinned ref rfl).frame?
          obtain rfl : resident.toFrame = frame := Option.some.inj (hfound.symm.trans hframe)
          obtain ⟨hid, _, hlength⟩ := hedits.edited.keeps
          refine howned.rest (howned.db.of_keeps rfl .refl (fun _ _ h => h) (fun _ _ => rfl) ?_) rfl
            .refl fun _ _ h => h
          intro page found hafter
          have hafter : (threads.session.db.cache.putFrame ref
            ⟨changed, some txn⟩).frames[page]? = some found := hafter
          rw [(hpinned ref rfl).putFrame_eq, Cache.frames_setFrame_of_resident _ _ _ hresident]
            at hafter
          split at hafter
          · rename_i hpage
            rw [Option.some.injEq] at hafter
            subst hafter hpage
            refine .inr ⟨⟨?_, ?_⟩, fun owner howner => ?_⟩
            · exact hid.trans (howned.db.stowed.named ref.page resident hresident)
            · exact (howned.db.stowed.frames ref.page resident hresident).of_length hlength
            · rw [← Option.some.inj howner]
              exact hnoted
          · exact .inl hafter

/-- A transaction has ended. -/
theorem completes (howned : threads.Owned) (hsound : threads.session.db.catalog.Sound)
    (hstage : threads.stages[txn]? = none) (commits : Bool) :
    ({ threads with session := (threads.session.complete txn commits).2 } : Threads).Owned := by
  have hfinish : ∀ (touched : PageId → Prop) (db : Database), db.Owned → db.CleanOf txn →
      Undisturbed touched threads.session.db db →
      ({ threads with session := { threads.session with
        db := db.finish txn, active := threads.session.active.erase txn } } : Threads).Owned := by
    intro touched db hdb hclean hundisturbed
    refine howned.of_actor txn (hdb.finish hclean) hundisturbed.catalog hundisturbed.grows ?_
      (fun _ _ => rfl) (fun _ _ => rfl) ?_
    · intro other page hother himage
      show (Journal.image? (db.journal.erase txn) other page).isSome = true
      rw [Journal.image?_erase, if_neg hother.symm, hundisturbed.images]
      exact himage
    · intro operation stage _ hafter
      have hafter : threads.stages[txn]? = some stage := hafter
      simp [hstage] at hafter
  cases commits with
  | true =>
      exact hfinish _ _ (howned.db.flushEach _) (howned.db.stowed.commit_cleans hsound txn).2
        (Database.flushEach_undisturbed _ _)
  | false =>
      exact hfinish _ _ (howned.db.rollBack txn)
        (howned.db.stowed.abort_cleans fun page resident =>
          howned.db.noted page resident txn).2 (Database.rollBack_undisturbed _ _)

/-- Every ordinary move keeps the pages owned and all fetches secured. -/
theorem of_effect (howned : threads.Owned) (horderly : threads.Orderly) (hpinned : threads.Pinned)
    {move : Move} (hordinary : move.isOrdinary = true)
    (heffect : MoveEffect threads move after) : after.Owned := by
  have hserved : ∀ (txn : TxnId) (page : PageId) (mode : LockMode) (locks : LockTable),
      LockTable.Serves txn page mode threads.session.db.locks locks →
      ({ threads.session.db with locks } : Database).Owned := by
    intro txn page mode locks hserves
    refine howned.db.of_keeps rfl .refl ?_ (fun _ _ => rfl) fun _ _ => .inl
    intro target owner howner
    exact LockState.holds_exclusive_iff.mp
      (hserves.keeps target owner .exclusive (LockState.holds_exclusive_iff.mpr howner))
  cases heffect with
  | quiet => exact howned
  | @begins _ _ _ storage _ _ _ hgrows =>
      have hgrows : threads.session.db.storage.Grows storage := by
        rcases hgrows with rfl | ⟨heap, hsize, rfl⟩
        · exact .refl
        · exact .appendPage hsize
      exact howned.rest (howned.db.of_keeps rfl hgrows (fun _ _ h => h) (fun _ _ => rfl)
        fun _ _ => .inl) rfl hgrows fun _ _ h => h
  | asks _ _ hserves =>
      exact howned.withDb (hserved _ _ _ _ hserves) rfl .refl fun _ _ h => h
  | granted hwaiting _ hserves =>
      exact howned.stand (hserved _ _ _ _ hserves) rfl .refl (fun _ _ h => h) hwaiting trivial
  | refused _ _ hserves =>
      exact howned.rest (hserved _ _ _ _ hserves) rfl .refl fun _ _ h => h
  | @stands txn operation stage _ _ hwaiting hstage hholds hstrides =>
      exact howned.stands horderly.sound hwaiting hstage (horderly.fits hwaiting hstage) hholds
        (fun ref => hpinned txn stage ref hstage) hstrides
  | @leaves txn _ stage _ _ hwaiting hstage _ hstrides =>
      exact howned.leaves hwaiting hstage (fun ref => hpinned txn stage ref hstage) hstrides
  | completes _ hstage => exact howned.completes horderly.sound hstage _
  | flushes pages =>
      have hflushed := Database.flushEach_undisturbed threads.session.db pages
      refine howned.withDb (howned.db.flushEach pages) hflushed.catalog hflushed.grows
        fun other page himage => ?_
      rw [hflushed.images]
      exact himage
  | discards _ hdrops =>
      rcases hdrops with ⟨page, rfl⟩ | ⟨table, rfl⟩ <;> simp [Move.isOrdinary] at hordinary
  | releases | writes | changesCatalog => simp [Move.isOrdinary] at hordinary

/-- A database that was opened has no dirty page and no before-image. -/
theorem of_opened {db : Database} (hopened : db.Opened) : Owned ⟨{ db }, ∅⟩ := by
  obtain ⟨_, hframes, hjournal, _⟩ := hopened.sound
  refine ⟨⟨⟨?_, ?_, ?_⟩, ?_, ?_⟩, fun txn operation stage _ hstage => ?_⟩
  all_goals simp_all [Journal.imageBytes?]

end Threads.Owned

namespace Schedule

variable {db : Database} {history : List Turn} {threads : Threads}

/-- Ordinary moves keep the pages owned. -/
theorem owned (hopened : db.Opened) (hschedule : Schedule ⟨{ db }, ∅⟩ history threads)
    (hordinary : ∀ turn ∈ history, turn.move.isOrdinary = true) : threads.Owned := by
  have hstart := Threads.Orderly.of_opened hopened
  induction hschedule with
  | start => exact .of_opened hopened
  | @step history threads move hschedule hallows ih =>
      have horderly := hschedule.orderly hstart
      have hearlier : ∀ turn ∈ history, turn.move.isOrdinary = true :=
        fun turn hturn => hordinary turn (by simp [hturn])
      have hpinned := hschedule.pinned hopened fun turn hturn =>
        Move.drops_of_isOrdinary (hearlier turn hturn)
      exact (ih hearlier).of_effect horderly hpinned
        (hordinary ⟨threads, move⟩ (by simp)) (horderly.effect hallows)

/-- Whatever order the threads make their ordinary moves in: a page that is dirty on behalf of a
transaction is one that this transaction holds exclusively and has a before-image of, whoever has a
before-image of a page holds the page exclusively, and no page has before-images of two
transactions. -/
theorem dirty_pages_owned (hopened : db.Opened) (hschedule : Schedule ⟨{ db }, ∅⟩ history threads)
    (hordinary : ∀ turn ∈ history, turn.move.isOrdinary = true) :
    let db := threads.session.db
    (∀ (page : PageId) (resident : Resident) (txn : TxnId),
      db.cache.frames[page]? = some resident → resident.dirtiedBy = some txn →
      (db.locks.lockOf page).exclusive = some txn ∧
        (db.journal.image? txn page).isSome = true) ∧
    (∀ (txn : TxnId) (page : PageId), (db.journal.image? txn page).isSome = true →
      (db.locks.lockOf page).exclusive = some txn) ∧
    ∀ (first second : TxnId) (page : PageId), (db.journal.image? first page).isSome = true →
      (db.journal.image? second page).isSome = true → first = second := by
  have howned := (hschedule.owned hopened hordinary).db
  refine ⟨fun page resident txn hframe hdirty => ?_, howned.owner, ?_⟩
  · have hnoted := howned.noted page resident txn hframe hdirty
    exact ⟨howned.owner txn page hnoted, hnoted⟩
  · intro first second page hfirst hsecond
    exact Option.some.inj
      ((howned.owner first page hfirst).symm.trans (howned.owner second page hsecond))

/-- Two readers of a page upgrade their locks at the same time, and one of them, which is granted
the page, changes it before and after a flush. -/
def upgradeTogether : List Move :=
  [.begin ⟨1⟩ (.insert ⟨1⟩ (Session.sampleRow 7)), .submit ⟨1⟩, .stride ⟨1⟩, .stride ⟨1⟩,
    .stride ⟨1⟩, .stride ⟨1⟩, .stride ⟨1⟩, .complete ⟨1⟩ true,
    .begin ⟨2⟩ (.getPage ⟨⟨1⟩, 0⟩ .shared), .begin ⟨3⟩ (.getPage ⟨⟨1⟩, 0⟩ .shared),
    .submit ⟨2⟩, .submit ⟨3⟩, .stride ⟨2⟩, .stride ⟨3⟩, .stride ⟨2⟩, .stride ⟨3⟩, .stride ⟨2⟩,
    .stride ⟨3⟩,
    .begin ⟨2⟩ (.getPage ⟨⟨1⟩, 0⟩ .exclusive), .submit ⟨2⟩, .advance ⟨2⟩,
    .begin ⟨3⟩ (.insert ⟨1⟩ (Session.sampleRow 8)), .submit ⟨3⟩, .stride ⟨3⟩, .stride ⟨3⟩,
    .stride ⟨3⟩, .submit ⟨3⟩, .stride ⟨3⟩, .stride ⟨3⟩, .stride ⟨3⟩, .flushPage ⟨⟨1⟩, 0⟩,
    .begin ⟨3⟩ (.insert ⟨1⟩ (Session.sampleRow 9)), .submit ⟨3⟩, .stride ⟨3⟩, .stride ⟨3⟩,
    .stride ⟨3⟩, .submit ⟨3⟩, .stride ⟨3⟩, .stride ⟨3⟩, .stride ⟨3⟩]

/-- The page is dirty on behalf of the transaction that was granted it, while the other is still a
shared holder and waits for its upgrade. -/
theorem dirty_pages_owned_while_upgrading :
    ∃ history threads resident,
      Schedule ⟨{ db := Session.sampleTables "a.dat" "b.dat" }, ∅⟩ history threads ∧
      threads.session.db.cache.frames[(⟨⟨1⟩, 0⟩ : PageId)]? = some resident ∧
      resident.dirtiedBy = some ⟨3⟩ ∧
      (threads.session.db.locks.lockOf ⟨⟨1⟩, 0⟩).exclusive = some ⟨3⟩ ∧
      (threads.session.db.journal.image? ⟨3⟩ ⟨⟨1⟩, 0⟩).isSome = true ∧
      ⟨2⟩ ∈ (threads.session.db.locks.lockOf ⟨⟨1⟩, 0⟩).shared ∧
      threads.session.waiting[(⟨2⟩ : TxnId)]? = some (.getPage ⟨⟨1⟩, 0⟩ .exclusive) := by
  have hschedule : Schedule ⟨{ db := Session.sampleTables "a.dat" "b.dat" }, ∅⟩ _ _ :=
    Schedule.of_moves .start (by decide +kernel : Threads.AllowsEach _ upgradeTogether)
  obtain ⟨resident, hframe, hdirty⟩ := (Option.any_eq_true ..).mp
    (by decide +kernel : ((Threads.makeEach
      ⟨{ db := Session.sampleTables "a.dat" "b.dat" }, ∅⟩
      upgradeTogether).session.db.cache.frames[(⟨⟨1⟩, 0⟩ : PageId)]?).any
        (fun resident => resident.dirtiedBy = some ⟨3⟩) = true)
  rw [decide_eq_true_eq] at hdirty
  obtain ⟨howner, hnoted⟩ := (dirty_pages_owned (Session.sampleTables_opened "a.dat" "b.dat")
    hschedule (by decide +kernel)).1 _ _ _ hframe hdirty
  exact ⟨_, _, resident, hschedule, hframe, hdirty, howner, hnoted, by decide +kernel,
    by decide +kernel⟩

end Schedule

end RowStore
