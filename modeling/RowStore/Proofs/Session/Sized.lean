import RowStore.Proofs.Database.Stowed
import RowStore.Proofs.Session.Accounted

/-!
# The length of pages in memory

All tables of a catalog share one page size, also those that replace others. So every page in
memory is that long, wherever it is kept: in the cache, in a frame that has left it, in a
before-image, or read by a fetch that has not installed it yet. This holds whatever the threads do,
and even if the files are changed from outside while they do it, which is what `Reaches` allows.
-/

namespace RowStore

/-- What threads can come to by their moves if the files may also change from outside at any
time. -/
inductive Reaches (start : Threads) : Threads → Prop where
  | start : Reaches start start
  | move {threads : Threads} {move : Move} :
      Reaches start threads → threads.Allows move → Reaches start (threads.make move).2
  | outside {threads : Threads} (storage : Storage) :
      Reaches start threads → Reaches start (threads.withDb { threads.session.db with storage })

/-- What a schedule comes to is reached. -/
theorem Schedule.reaches {start threads : Threads} {history : List Turn}
    (hschedule : Schedule start history threads) : Reaches start threads := by
  induction hschedule with
  | start => exact .start
  | step _ hallows ih => exact ih.move hallows

namespace Cache

/-- Every page in a frame is so long, whether the frame is in the cache or has left it. -/
structure Sized (length : Nat) (cache : Cache) : Prop where
  frames : ∀ (page : PageId) (resident : Resident), cache.frames[page]? = some resident →
    resident.page.bytes.length = length
  retired : ∀ (serial : Nat) (frame : Frame), cache.retired[serial]? = some frame →
    frame.page.bytes.length = length

namespace Sized

variable {cache : Cache} {length : Nat} {page : PageId}

/-- A page that leaves the cache stays as long as it is. -/
theorem remove (hsized : cache.Sized length) (page : PageId) :
    (cache.remove page).Sized length := by
  simp only [Cache.remove]
  split
  · exact ⟨hsized.frames, hsized.retired⟩
  · rename_i resident hframe
    refine ⟨fun other found hfound => ?_, fun serial frame hretired => ?_⟩
    · simp only [Std.ExtTreeMap.getElem?_erase] at hfound
      split at hfound
      · simp at hfound
      · exact hsized.frames other found hfound
    · simp only [Std.ExtTreeMap.getElem?_insert] at hretired
      split at hretired
      · rw [← Option.some.inj hretired]
        exact hsized.frames page resident hframe
      · exact hsized.retired serial frame hretired

/-- Pages leave the cache one after the other. -/
theorem removeEach (hsized : cache.Sized length) (pages : List PageId) :
    (pages.foldl Cache.remove cache).Sized length := by
  induction pages generalizing cache with
  | nil => exact hsized
  | cons page rest ih => exact ih (hsized.remove page)

/-- A page that is so long comes into the cache. -/
theorem add (hsized : cache.Sized length) {heapPage : HeapPage}
    (hlength : heapPage.bytes.length = length) (origin : PageFile) :
    (cache.add heapPage origin).Sized length := by
  refine ⟨fun other found hfound => ?_, hsized.retired⟩
  rw [frames_add] at hfound
  split at hfound
  · rw [← Option.some.inj hfound]
    exact hlength
  · exact hsized.frames other found hfound

/-- A page in the cache gets other contents of the same length. -/
theorem setFrame (hsized : cache.Sized length) {resident : Resident} {frame : Frame}
    (hframe : cache.frames[page]? = some resident)
    (hlength : frame.page.bytes.length = resident.page.bytes.length) :
    (cache.setFrame page frame).Sized length := by
  refine ⟨fun other found hfound => ?_, hsized.retired⟩
  rw [frames_setFrame_of_resident _ _ _ hframe] at hfound
  split at hfound
  · rw [← Option.some.inj hfound]
    exact hlength.trans (hsized.frames page resident hframe)
  · exact hsized.frames other found hfound

/-- The page that a reference leads to is so long. -/
theorem of_frame? (hsized : cache.Sized length) {ref : FrameRef} {frame : Frame}
    (hframe : cache.frame? ref = some frame) : frame.page.bytes.length = length := by
  simp only [frame?] at hframe
  split at hframe
  · rename_i resident hresident
    split at hframe
    · rw [← Option.some.inj hframe]
      exact hsized.frames ref.page resident hresident
    · exact hsized.retired ref.serial frame hframe
  · exact hsized.retired ref.serial frame hframe

/-- The page that a reference leads to gets other contents of the same length. -/
theorem putFrame (hsized : cache.Sized length) {ref : FrameRef} {frame changed : Frame}
    (hframe : cache.frame? ref = some frame)
    (hlength : changed.page.bytes.length = frame.page.bytes.length) :
    (cache.putFrame ref changed).Sized length := by
  have hchanged := hlength.trans (hsized.of_frame? hframe)
  have hretired : Sized length
      { cache with retired := cache.retired.modify ref.serial fun _ => changed } := by
    refine ⟨hsized.frames, fun serial found hfound => ?_⟩
    simp only [Std.ExtTreeMap.getElem?_modify] at hfound
    split at hfound
    · obtain ⟨_, _, rfl⟩ := Option.map_eq_some_iff.mp hfound
      exact hchanged
    · exact hsized.retired serial found hfound
  simp only [Cache.putFrame]
  split
  · rename_i resident hresident
    split
    · exact hsized.setFrame hresident (hchanged.trans (hsized.frames _ _ hresident).symm)
    · exact hretired
  · exact hretired

end Sized

end Cache

namespace Database

/-- Every page in memory is as long as the pages of the catalog. -/
structure Sized (db : Database) : Prop where
  cache : db.cache.Sized db.catalog.pageSize
  images : ∀ (txn : TxnId) (page : PageId) (bytes : Bytes),
    db.journal.imageBytes? txn page = some bytes → bytes.length = db.catalog.pageSize

variable {db after : Database} {txn : TxnId} {page : PageId}

/-- A page that was read is as long as the pages of the catalog. -/
theorem length_of_load {heapPage : HeapPage} {origin : PageFile} (hsound : db.catalog.Sound)
    (hload : db.load page = (.ok (heapPage, origin), after)) :
    heapPage.bytes.length = db.catalog.pageSize := by
  obtain ⟨heap, hheap, hlength, _⟩ := HasPlace.of_load hsound hload
  exact hlength.trans (hsound.fits _ heap hheap).pageSize

namespace Sized

/-- What is noted of a page is as long as the page. -/
theorem noteFor (hsized : db.Sized) (txn : TxnId) (ref : FrameRef) (mode : LockMode) :
    (db.noteFor txn ref mode).Sized := by
  cases mode with
  | shared => exact hsized
  | exclusive =>
      simp only [Database.noteFor, noteBefore]
      split
      · exact hsized
      · rename_i frame hframe
        refine ⟨hsized.cache, fun owner page bytes himage => ?_⟩
        simp only [Journal.imageBytes?, Journal.image?_record] at himage
        split at himage
        · rename_i hsame
          obtain ⟨rfl, rfl⟩ := hsame
          cases hbefore : db.journal.image? txn ref.page with
          | some image =>
              rw [hbefore] at himage
              refine hsized.images txn ref.page bytes ?_
              rw [Journal.imageBytes?, hbefore]
              exact himage
          | none =>
              rw [hbefore] at himage
              rw [← Option.some.inj himage]
              exact hsized.cache.of_frame? hframe
        · exact hsized.images owner page bytes himage

/-- The end of a transaction leaves every page in memory as long as it is. -/
theorem complete (hsized : db.Sized) (txn : TxnId) :
    (db.commit txn).2.Sized ∧ (db.abort txn).2.Sized := by
  obtain ⟨hcommit, habort⟩ := complete_preserves_cache
    (fun _ _ _ _ hframe _ hlength h => Cache.Sized.setFrame h hframe hlength) db txn hsized.cache
  have himages : ∀ (ended : Database), ended.catalog = db.catalog →
      (∀ other page, ended.journal.imageBytes? other page = db.journal.imageBytes? other page) →
      ended.cache.Sized db.catalog.pageSize → (ended.finish txn).Sized := by
    intro ended hcatalog hkept hcache
    refine ⟨hcatalog ▸ hcache, fun other page bytes himage => ?_⟩
    have himage : Journal.imageBytes? (ended.journal.erase txn) other page = some bytes := himage
    rw [Journal.imageBytes?, Journal.image?_erase] at himage
    show bytes.length = ended.catalog.pageSize
    rw [hcatalog]
    split at himage
    · simp at himage
    · exact hsized.images other page bytes (hkept other page ▸ himage)
  exact ⟨himages _ (flushEach_undisturbed db _).catalog (imageBytes_flushEach db _) hcommit,
    himages _ (rollBack_undisturbed db txn).catalog
      (fun other page => congrArg (Journal.imageBytes? · other page) (journal_rollBack db txn))
      habort⟩

/-- Flushes leave every page in memory as long as it is. -/
theorem flushEach (hsized : db.Sized) (pages : List PageId) : (db.flushEach pages).2.Sized := by
  have hcatalog := (flushEach_undisturbed db pages).catalog
  refine ⟨?_, fun txn page bytes himage => ?_⟩
  · rw [hcatalog]
    exact flushEach_preserves_cache
      (fun _ _ _ _ hframe _ hlength h => Cache.Sized.setFrame h hframe hlength) db pages
      hsized.cache
  · rw [imageBytes_flushEach] at himage
    rw [hcatalog]
    exact hsized.images txn page bytes himage

end Sized

end Database

/-- Every page in memory is as long as the pages of the catalog, also one that a fetch has read and
not installed yet. -/
structure Threads.Sized (threads : Threads) : Prop where
  db : threads.session.db.Sized
  stages : ∀ (txn : TxnId) (loaded : HeapPage × PageFile),
    threads.stages[txn]? = some (.read (.ok loaded)) →
    loaded.1.bytes.length = threads.session.db.catalog.pageSize

namespace Threads.Sized

variable {threads after : Threads} {txn : TxnId} {db : Database} {operation : Operation}
  {stage next : Stage} {progress : Progress}

/-- An operation has ended or has come to its next demand. -/
theorem rest (hsized : threads.Sized) (hdb : db.Sized)
    (hcatalog : db.catalog = threads.session.db.catalog) :
    (threads.rest txn progress db).2.Sized where
  db := by rwa [db_rest]
  stages other loaded hstage := by
    rw [db_rest, hcatalog]
    rw [stages_rest, Std.ExtTreeMap.getElem?_erase] at hstage
    split at hstage
    · simp at hstage
    · exact hsized.stages other loaded hstage

/-- An operation has come to a stage. -/
theorem stand (hsized : threads.Sized) (hdb : db.Sized)
    (hcatalog : db.catalog = threads.session.db.catalog)
    (hread : ∀ loaded, stage = .read (.ok loaded) →
      loaded.1.bytes.length = threads.session.db.catalog.pageSize) :
    (threads.stand txn stage db).Sized where
  db := hdb
  stages other loaded hstage := by
    rw [db_stand, hcatalog]
    rw [stages_stand, Std.ExtTreeMap.getElem?_insert] at hstage
    split at hstage
    · exact hread loaded (Option.some.inj hstage)
    · exact hsized.stages other loaded hstage

/-- Something happened to the database alone. -/
theorem withDb (hsized : threads.Sized) (hdb : db.Sized)
    (hpageSize : db.catalog.pageSize = threads.session.db.catalog.pageSize) :
    (threads.withDb db).Sized :=
  ⟨hdb, fun txn loaded hstage => (hsized.stages txn loaded hstage).trans hpageSize.symm⟩

/-- An operation comes to another stage of its fetch. -/
theorem stands (hsized : threads.Sized) (hsound : threads.session.db.catalog.Sound)
    (hstage : threads.stages[txn]? = some stage)
    (hstrides : Strides txn operation threads.session.db stage (.stands next) db) :
    (threads.stand txn next db).Sized := by
  obtain ⟨hcache, himages⟩ := hsized.db
  cases hstrides with
  | present | reserves | finds =>
      exact hsized.stand ⟨⟨hcache.frames, hcache.retired⟩, himages⟩ rfl (by simp)
  | @evicts victim =>
      have hremoved := hcache.remove victim
      exact hsized.stand ⟨⟨hremoved.frames, hremoved.retired⟩, himages⟩ rfl (by simp)
  | reads hload =>
      refine hsized.stand ⟨⟨hcache.frames, hcache.retired⟩, himages⟩ rfl ?_
      intro loaded hread
      simp only [Stage.read.injEq] at hread
      subst hread
      exact Database.length_of_load hsound hload
  | @installs _ origin =>
      have hadded := hcache.add (hsized.stages txn _ hstage) origin
      exact hsized.stand ⟨⟨hadded.frames, hadded.retired⟩, himages⟩ rfl (by simp)
  | @notes ref =>
      obtain ⟨journal, hnoted⟩ := threads.session.db.noteFor_eq txn ref operation.demand.2
      exact hsized.stand (hsized.db.noteFor txn ref _) (by rw [hnoted]) (by simp)

/-- An operation is done with its page. -/
theorem leaves (hsized : threads.Sized)
    (hstrides : Strides txn operation threads.session.db stage (.leaves progress) db) :
    (threads.rest txn progress db).2.Sized := by
  obtain ⟨hcache, himages⟩ := hsized.db
  cases hstrides with
  | full => exact hsized.rest hsized.db rfl
  | fails => exact hsized.rest ⟨⟨hcache.frames, hcache.retired⟩, himages⟩ rfl
  | handles hhandles =>
      cases hhandles with
      | looks => exact hsized.rest ⟨hcache, himages⟩ rfl
      | changes _ hframe hedits =>
          exact hsized.rest ⟨hcache.putFrame hframe hedits.edited.keeps.2.2, himages⟩ rfl

/-- Every move leaves the pages in memory as long as they are. -/
theorem of_effect (hsized : threads.Sized) (hsound : threads.session.db.catalog.Sound) {move : Move}
    (heffect : MoveEffect threads move after) : after.Sized := by
  obtain ⟨hcache, himages⟩ := hsized.db
  cases heffect with
  | quiet => exact hsized
  | begins | refused => exact hsized.rest ⟨hcache, himages⟩ rfl
  | asks | releases => exact hsized.withDb ⟨hcache, himages⟩ rfl
  | granted => exact hsized.stand ⟨hcache, himages⟩ rfl (by simp)
  | stands _ hstage _ hstrides => exact hsized.stands hsound hstage hstrides
  | leaves _ _ _ hstrides => exact hsized.leaves hstrides
  | @completes txn commits =>
      obtain ⟨hcommit, habort⟩ := hsized.db.complete txn
      cases commits with
      | true =>
          exact ⟨hcommit, fun other loaded hstage => (hsized.stages other loaded hstage).trans
            (congrArg Catalog.pageSize
              (Database.flushEach_undisturbed threads.session.db _).catalog).symm⟩
      | false =>
          exact ⟨habort, fun other loaded hstage => (hsized.stages other loaded hstage).trans
            (congrArg Catalog.pageSize
              (Database.rollBack_undisturbed threads.session.db txn).catalog).symm⟩
  | writes hframe hrestore =>
      exact hsized.withDb
        ⟨hcache.putFrame hframe (HeapPage.length_of_restore hrestore), himages⟩ rfl
  | flushes pages =>
      exact hsized.withDb (hsized.db.flushEach pages)
        (congrArg Catalog.pageSize
          (Database.flushEach_undisturbed threads.session.db pages).catalog)
  | discards pages => exact hsized.withDb ⟨hcache.removeEach pages, himages⟩ rfl
  | @changesCatalog _ catalog _ hharmless =>
      have hpageSize : catalog.pageSize = threads.session.db.catalog.pageSize := hharmless.pageSize
      exact hsized.withDb ⟨hpageSize ▸ hcache, hpageSize ▸ himages⟩ hpageSize

/-- A database that was opened has no page in memory. -/
theorem of_opened {db : Database} (hopened : db.Opened) : Sized ⟨{ db }, ∅⟩ := by
  obtain ⟨_, _, hjournal, _⟩ := hopened.sound
  refine ⟨⟨⟨?_, ?_⟩, ?_⟩, ?_⟩
  · intro page resident hframe
    rw [hopened.cache] at hframe
    simp at hframe
  · intro serial frame hretired
    rw [hopened.cache] at hretired
    simp at hretired
  · simp [hjournal, Journal.imageBytes?]
  · simp

end Threads.Sized

namespace Reaches

variable {db : Database} {threads : Threads}

/-- Threads stay orderly, whatever becomes of the files. -/
theorem orderly {start : Threads} (hstart : start.Orderly) (hreaches : Reaches start threads) :
    threads.Orderly := by
  induction hreaches with
  | start => exact hstart
  | move _ hallows ih => exact ih.of_effect (ih.effect hallows)
  | outside storage _ ih => exact ⟨ih.sound, ih.standing⟩

/-- The cache is accounted for at any time, whatever becomes of the files. -/
theorem accounted (hopened : db.Opened) (hreaches : Reaches ⟨{ db }, ∅⟩ threads) :
    threads.Accounted db.cache.capacity := by
  have hstart := Threads.Orderly.of_opened hopened
  induction hreaches with
  | start => exact Schedule.accounted hopened .start
  | move hreaches hallows ih =>
      exact ih.of_effect (hreaches.orderly hstart) ((hreaches.orderly hstart).effect hallows)
  | outside storage _ ih => exact ih

/-- Every page in memory is as long as the pages of the catalog. -/
theorem sized (hopened : db.Opened) (hreaches : Reaches ⟨{ db }, ∅⟩ threads) : threads.Sized := by
  have hstart := Threads.Orderly.of_opened hopened
  induction hreaches with
  | start => exact .of_opened hopened
  | move hreaches hallows ih =>
      exact ih.of_effect (hreaches.orderly hstart).sound
        ((hreaches.orderly hstart).effect hallows)
  | outside storage _ ih => exact ih.withDb ⟨ih.db.cache, ih.db.images⟩ rfl

end Reaches

end RowStore
