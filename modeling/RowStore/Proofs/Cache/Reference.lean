import RowStore.Proofs.Cache.Frames

/-!
# References to frames

A reference leads to the frame that its page has in the cache, or to a frame that has left it. Every
frame has a number of its own, so that a reference leads to the same frame wherever that goes and
whatever comes into the cache besides: `Names.frame?_remove` and `Names.frame?_add`.
-/

namespace RowStore

namespace Cache

/-- The frame that the reference is of is the one of its page in the cache. -/
def Shows (cache : Cache) (ref : FrameRef) : Prop :=
  ∃ resident, cache.frames[ref.page]? = some resident ∧ resident.serial = ref.serial

/-- The number of the reference was given to a frame before, and no frame of another page in the
cache has it. -/
structure Names (cache : Cache) (ref : FrameRef) : Prop where
  below : ref.serial < cache.nextSerial
  own : ∀ other, cache.Shows other → other.serial = ref.serial → other.page = ref.page

/-- No two frames in the cache have the same number, and none has the number of the next one. -/
def Numbered (cache : Cache) : Prop :=
  ∀ ref, cache.Shows ref → cache.Names ref

variable {cache after : Cache} {ref target : FrameRef} {page : PageId} {frame changed : Frame}
  {heapPage : HeapPage} {origin : PageFile}

namespace Shows

variable {other : FrameRef}

/-- A reference to a frame in the cache leads to that frame. -/
theorem frame? (hshows : cache.Shows ref) :
    ∃ resident, cache.frames[ref.page]? = some resident ∧
      cache.frame? ref = some resident.toFrame := by
  obtain ⟨resident, hframe, hserial⟩ := hshows
  refine ⟨resident, hframe, ?_⟩
  simp only [Cache.frame?, hframe, if_pos hserial]

/-- A page has one frame in the cache. -/
theorem unique (hshows : cache.Shows ref) (hother : cache.Shows other)
    (hpage : other.page = ref.page) : other = ref := by
  obtain ⟨resident, hframe, hserial⟩ := hshows
  obtain ⟨found, hfound, hsame⟩ := hother
  rw [hpage, hframe, Option.some.injEq] at hfound
  cases ref
  cases other
  simp_all

end Shows

/-- The pages in the cache keep their frames when the frame of one gets other contents. -/
theorem shows_setFrame : (cache.setFrame page frame).Shows ref ↔ cache.Shows ref := by
  simp only [Shows, frames_setFrame]
  split
  · cases cache.frames[ref.page]? <;> simp
  · rfl

/-- Changing the frame that a reference leads to changes the frame of its page. -/
theorem Shows.putFrame_eq (hshows : cache.Shows ref) (frame : Frame) :
    cache.putFrame ref frame = cache.setFrame ref.page frame := by
  obtain ⟨resident, hframe, hserial⟩ := hshows
  simp only [Cache.putFrame, hframe, if_pos hserial]

/-- Changing the frame that a reference leads to changes a frame that has left the cache, if it is
not in the cache. -/
theorem putFrame_of_not_shows (hshows : ¬ cache.Shows target) (frame : Frame) :
    cache.putFrame target frame =
      { cache with retired := cache.retired.modify target.serial fun _ => frame } := by
  simp only [Cache.putFrame]
  split
  · rename_i resident hframe
    rw [if_neg fun hserial => hshows ⟨resident, hframe, hserial⟩]
  · rfl

/-- The pages in the cache keep their frames when the frame that a reference leads to gets other
contents. -/
theorem shows_putFrame : (cache.putFrame target frame).Shows ref ↔ cache.Shows ref := by
  by_cases htarget : cache.Shows target
  · rw [htarget.putFrame_eq, shows_setFrame]
  · rw [putFrame_of_not_shows htarget]
    rfl

@[simp] theorem nextSerial_putFrame :
    (cache.putFrame target frame).nextSerial = cache.nextSerial := by
  simp only [Cache.putFrame]
  split
  · split <;> rfl
  · rfl

@[simp] theorem nextSerial_remove : (cache.remove page).nextSerial = cache.nextSerial := by
  simp only [Cache.remove]
  split <;> rfl

/-- A page that was removed has no frame. -/
theorem shows_remove : (cache.remove page).Shows ref ↔ page ≠ ref.page ∧ cache.Shows ref := by
  simp only [Shows, frames_remove]
  split <;> simp_all

/-- A page that was added has the next frame. -/
theorem Shows.of_add (hshows : (cache.add heapPage origin).Shows ref) :
    cache.Shows ref ∨ ref = ⟨heapPage.id, cache.nextSerial⟩ := by
  obtain ⟨resident, hframe, hserial⟩ := hshows
  rw [frames_add] at hframe
  split at hframe
  · rename_i hpage
    rw [← Option.some.inj hframe] at hserial
    obtain ⟨_, _⟩ := ref
    simp_all
  · exact .inl ⟨resident, hframe, hserial⟩

namespace Names

/-- A reference names a frame as long as no frame comes into the cache. -/
theorem of_shows (hnames : cache.Names ref) (hnext : after.nextSerial = cache.nextSerial)
    (hshows : ∀ other, after.Shows other → cache.Shows other) : after.Names ref :=
  ⟨hnext ▸ hnames.below, fun other hother => hnames.own other (hshows other hother)⟩

/-- A frame that comes into the cache has another number than all before. -/
theorem add (hnames : cache.Names ref) (heapPage : HeapPage) (origin : PageFile) :
    (cache.add heapPage origin).Names ref := by
  refine ⟨Nat.lt_succ_of_lt hnames.below, fun other hother hserial => ?_⟩
  rcases hother.of_add with hshows | rfl
  · exact hnames.own other hshows hserial
  · exact absurd hserial (Nat.ne_of_gt hnames.below)

/-- A reference leads to the same frame when a page has left the cache. -/
theorem frame?_remove (hnames : cache.Names ref) (page : PageId) :
    (cache.remove page).frame? ref = cache.frame? ref := by
  cases hframe : cache.frames[page]? with
  | none => simp only [Cache.frame?, Cache.remove, hframe]
  | some resident =>
      have hretired : (cache.remove page).retired =
          cache.retired.insert resident.serial resident.toFrame := by
        simp only [Cache.remove, hframe]
      have hown := hnames.own ⟨page, resident.serial⟩ ⟨resident, hframe, rfl⟩
      simp only [Cache.frame?, frames_remove, hretired, Std.ExtTreeMap.getElem?_insert,
        Std.compare_eq_iff_eq]
      by_cases hpage : page = ref.page
      · subst hpage
        simp only [if_true, hframe]
      · rw [if_neg hpage, if_neg fun hserial => hpage (hown hserial)]

/-- A reference leads to the same frame when pages have left the cache. -/
theorem frame?_removeEach (hnames : cache.Names ref) (pages : List PageId) :
    (pages.foldl Cache.remove cache).frame? ref = cache.frame? ref := by
  induction pages generalizing cache with
  | nil => rfl
  | cons first rest ih =>
      have hkept : (cache.remove first).Names ref :=
        hnames.of_shows nextSerial_remove fun _ h => (shows_remove.mp h).2
      exact (ih hkept).trans (hnames.frame?_remove first)

/-- A reference leads to the same frame when another page has come into the cache. -/
theorem frame?_add (hnames : cache.Names ref) (habsent : cache.frames[heapPage.id]? = none)
    (origin : PageFile) : (cache.add heapPage origin).frame? ref = cache.frame? ref := by
  have hretired : (cache.add heapPage origin).retired = cache.retired := rfl
  simp only [Cache.frame?, frames_add, hretired]
  by_cases hpage : heapPage.id = ref.page
  · rw [if_pos hpage, ← hpage, habsent]
    simp only [Nat.ne_of_gt hnames.below, if_false]
  · rw [if_neg hpage]

end Names

namespace Numbered

/-- The frames are numbered as long as none comes into the cache. -/
theorem of_shows (hnumbered : cache.Numbered) (hnext : after.nextSerial = cache.nextSerial)
    (hshows : ∀ ref, after.Shows ref → cache.Shows ref) : after.Numbered :=
  fun ref hafter => (hnumbered ref (hshows ref hafter)).of_shows hnext hshows

/-- A frame that comes into the cache gets the next number. -/
theorem add (hnumbered : cache.Numbered) (heapPage : HeapPage) (origin : PageFile) :
    (cache.add heapPage origin).Numbered := by
  intro ref hafter
  rcases hafter.of_add with hshows | rfl
  · exact (hnumbered ref hshows).add heapPage origin
  · refine ⟨Nat.lt_succ_self _, fun other hother hserial => ?_⟩
    rcases hother.of_add with hshows | rfl
    · exact absurd hserial (Nat.ne_of_lt (hnumbered other hshows).below)
    · rfl

end Numbered

/-- The frame of a page is kept, or it is the one that gets other contents. -/
theorem frames_putFrame (hframe : cache.frame? target = some frame) (changed : Frame)
    (page : PageId) :
    (cache.putFrame target changed).frames[page]? = cache.frames[page]? ∨
      ∃ resident, cache.frames[page]? = some resident ∧ resident.toFrame = frame ∧
        (cache.putFrame target changed).frames[page]? =
          some { resident with toFrame := changed } := by
  by_cases htarget : cache.Shows target
  · obtain ⟨resident, hresident, hfound⟩ := htarget.frame?
    rw [htarget.putFrame_eq, frames_setFrame_of_resident _ _ _ hresident]
    split
    · rename_i hpage
      subst hpage
      exact .inr ⟨resident, hresident, Option.some.inj (hfound.symm.trans hframe), rfl⟩
    · exact .inl rfl
  · rw [putFrame_of_not_shows htarget]
    exact .inl rfl

/-- A reference that leads to no frame in the cache leads to one that has left it. -/
theorem frame?_of_not_shows (hshows : ¬ cache.Shows ref) :
    cache.frame? ref = cache.retired[ref.serial]? := by
  simp only [Cache.frame?]
  split
  · rename_i resident hframe
    rw [if_neg fun hserial => hshows ⟨resident, hframe, hserial⟩]
  · rfl

/-- A reference leads to a frame as it was, or to the frame that gets other contents. -/
theorem frame?_putFrame (hframe : cache.frame? target = some frame) (changed : Frame)
    (ref : FrameRef) :
    (cache.putFrame target changed).frame? ref = cache.frame? ref ∨
      cache.frame? ref = some frame ∧
        (cache.putFrame target changed).frame? ref = some changed := by
  by_cases hshows : cache.Shows ref
  · obtain ⟨resident, hresident, hserial⟩ := hshows
    have hled : cache.frame? ref = some resident.toFrame := by
      simp only [Cache.frame?, hresident, if_pos hserial]
    rcases frames_putFrame hframe changed ref.page with hsame | ⟨found, hfound, rfl, hafter⟩
    · rw [hled, Cache.frame?, hsame, hresident]
      exact .inl (if_pos hserial)
    · obtain rfl := Option.some.inj (hresident.symm.trans hfound)
      rw [hled, Cache.frame?, hafter]
      exact .inr ⟨rfl, if_pos hserial⟩
  · have hafter : ¬ (cache.putFrame target changed).Shows ref :=
      fun h => hshows (shows_putFrame.mp h)
    rw [frame?_of_not_shows hshows, frame?_of_not_shows hafter]
    by_cases htarget : cache.Shows target
    · rw [htarget.putFrame_eq]
      exact .inl rfl
    · rw [frame?_of_not_shows htarget] at hframe
      rw [putFrame_of_not_shows htarget]
      simp only [Std.ExtTreeMap.getElem?_modify, Std.compare_eq_iff_eq]
      split
      · rename_i hserial
        rw [← hserial, hframe]
        exact .inr ⟨rfl, rfl⟩
      · exact .inl rfl

end Cache

end RowStore
