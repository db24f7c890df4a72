import RowStore.Proofs.Session.Pinned
import RowStore.Proofs.Session.Renewed

/-!
# A table that was given another file

When a table has been given another file, the pages that are cached of it are dropped by a
`discardTable`. From then on, `replaced_pages_stay_out` says, what its pages hold comes from the new
file alone: every frame that is handed out, every frame in the cache, and the file hold what the
file held when the pages were dropped, but for the rows that calls have stored and deleted since and
for what has been written through frames. `Descends` spells this out. Two things are not dropped
with the pages, and are excepted: the journal, so no transaction may abort that has a before-image of
a page of the table from before, and what a fetch has in hand between the read of a page and the
moment that it hands out the frame.
-/

namespace RowStore

/-- In the turn a call stores a row on the page or deletes one from it, which makes of the page what
it holds then, and is answered that it has done so. -/
def Turn.Edits (turn : Turn) (page : PageId) (before after : HeapPage) : Prop :=
  ∃ txn operation ref frame answer, turn.move = .stride txn ∧
    turn.threads.session.waiting[txn]? = some operation ∧
    turn.threads.stages[txn]? = some (.reached ref) ∧
    turn.threads.session.db.frame? ref = some frame ∧ frame.page = before ∧ before.id = page ∧
    operation.Edits ref before after answer ∧ turn.reply = .answered answer

/-- In the turn a transaction writes the bytes to a frame of the page, over what the frame holds
then. -/
def Turn.Writes (turn : Turn) (page : PageId) (before : HeapPage) (bytes : Bytes) : Prop :=
  ∃ txn ref frame, turn.move = .write txn ref bytes ∧
    turn.threads.session.db.frame? ref = some frame ∧ frame.page = before ∧ before.id = page ∧
    turn.reply = .finished (.ok ())

/-- What a page can hold that began with given contents: after each turn it holds what it held
before, what the call of that turn has made of this, or what was written over this in that turn. A
change of a frame that holds something else does not count. -/
inductive Descends (page : PageId) (first : Bytes) : List Turn → Bytes → Prop where
  | first : Descends page first [] first
  | keeps {history : List Turn} {turn : Turn} {bytes : Bytes} :
      Descends page first history bytes → Descends page first (history ++ [turn]) bytes
  | edit {history : List Turn} {turn : Turn} {before after : HeapPage} :
      Descends page first history before.bytes → turn.Edits page before after →
      Descends page first (history ++ [turn]) after.bytes
  | write {history : List Turn} {turn : Turn} {before : HeapPage} {bytes : Bytes} :
      Descends page first history before.bytes → turn.Writes page before bytes →
      Descends page first (history ++ [turn]) bytes

/-- A page that no call has edited and nobody has written to holds what it held at first. -/
theorem Descends.eq_first {page : PageId} {first bytes : Bytes} {history : List Turn}
    (hdescends : Descends page first history bytes)
    (hedits : ∀ turn ∈ history, ∀ before after, ¬ turn.Edits page before after)
    (hwrites : ∀ turn ∈ history, ∀ before bytes, ¬ turn.Writes page before bytes) :
    bytes = first := by
  induction hdescends with
  | first => rfl
  | keeps _ ih =>
      exact ih (fun turn hturn => hedits turn (List.mem_append_left _ hturn))
        fun turn hturn => hwrites turn (List.mem_append_left _ hturn)
  | edit _ hedit => exact absurd hedit (hedits _ (by simp) _ _)
  | write _ hwrite => exact absurd hwrite (hwrites _ (by simp) _ _)

/-- The page that a fetch has in hand: it has read the page or has found its frame, and has not
handed out the frame yet. -/
def Stage.inHand? : Stage → Option PageId
  | read (.ok loaded) => some loaded.1.id
  | fetched ref => some ref.page
  | locked | reserved | read (.error _) | reached _ => none

/-- No fetch has a page of the table in hand. -/
def Threads.NoneInHand (threads : Threads) (table : TableId) : Prop :=
  ∀ (txn : TxnId) (stage : Stage) (page : PageId), threads.stages[txn]? = some stage →
    stage.inHand? = some page → page.table ≠ table

/-- No fetch has a page in hand if no operation is at its page. -/
theorem Threads.NoneInHand.of_isEmpty {threads : Threads} {table : TableId}
    (hempty : threads.stages.isEmpty = true) : threads.NoneInHand table := by
  intro txn stage page hstage
  rw [Std.ExtTreeMap.isEmpty_iff.mp hempty] at hstage
  simp at hstage

variable {table : TableId} {file : PageFile} {stale : TxnId → Prop}
  {may later : PageId → Bytes → Prop}

/-- What happened to a database has left the pages of a table holding what they may hold later, in
the cache, on disk, and wherever a reference leads to a frame. -/
structure Database.Carries (before : Database) (table : TableId) (file : PageFile)
    (stale : TxnId → Prop) (may later : PageId → Bytes → Prop) (after : Database) : Prop where
  renewed : after.Renewed table file stale later
  leads : ∀ ref : FrameRef, ref.page.table = table → before.cache.Names ref →
    before.Leads may ref → after.Leads later ref

namespace Database.Carries

variable {before after : Database}

/-- References lead to the same frames. -/
theorem of_same (hrenewed : after.Renewed table file stale later)
    (hlater : ∀ page bytes, may page bytes → later page bytes)
    (hsame : ∀ ref, before.cache.Names ref → after.frame? ref = before.frame? ref) :
    before.Carries table file stale may later after where
  renewed := hrenewed
  leads ref _ hnames hleads := by
    obtain ⟨frame, hframe, hid, hmay⟩ := hleads
    exact ⟨frame, (hsame ref hnames).trans hframe, hid, hlater _ _ hmay⟩

/-- Frames get other contents, and none leaves the cache. -/
theorem of_contents (hrenewed : after.Renewed table file stale later)
    (hlater : ∀ page bytes, may page bytes → later page bytes)
    (hkept : (∀ ref, before.cache.Shows ref → after.cache.Shows ref) ∧
      after.cache.retired = before.cache.retired) :
    before.Carries table file stale may later after where
  renewed := hrenewed
  leads ref htable _ hleads := by
    by_cases hshows : after.cache.Shows ref
    · exact hrenewed.leads htable hshows
    · have hsame : after.frame? ref = before.frame? ref := by
        rw [Database.frame?, Cache.frame?_of_not_shows hshows, hkept.2,
          ← Cache.frame?_of_not_shows fun h => hshows (hkept.1 ref h)]
        rfl
      obtain ⟨frame, hframe, hid, hmay⟩ := hleads
      exact ⟨frame, hsame.trans hframe, hid, hlater _ _ hmay⟩

/-- The frame that a reference leads to gets other contents. -/
theorem putFrame {target : FrameRef} {frame changed : Frame}
    (hrenewed : before.Renewed table file stale may)
    (hlater : ∀ page bytes, may page bytes → later page bytes)
    (hframe : before.frame? target = some frame) (hid : changed.page.id = frame.page.id)
    (hmay : frame.page.id.table = table → may frame.page.id frame.page.bytes →
      later frame.page.id changed.page.bytes) :
    before.Carries table file stale may later
      { before with cache := before.cache.putFrame target changed } where
  renewed := hrenewed.putFrame hlater hframe hid hmay
  leads ref htable _ hleads := by
    obtain ⟨found, hfound, hpage, hheld⟩ := hleads
    rcases Cache.frame?_putFrame hframe changed ref with hsame | ⟨hled, hafter⟩
    · exact ⟨found, hsame.trans hfound, hpage, hlater _ _ hheld⟩
    · obtain rfl : frame = found := Option.some.inj (hled.symm.trans hfound)
      rw [← hpage] at htable hheld
      exact ⟨changed, hafter, hid.trans hpage, hpage ▸ hmay htable hheld⟩

/-- Pages leave the cache. -/
theorem removeEach (hrenewed : before.Renewed table file stale may)
    (hlater : ∀ page bytes, may page bytes → later page bytes) (pages : List PageId) :
    before.Carries table file stale may later
      { before with cache := pages.foldl Cache.remove before.cache } := by
  refine of_same ((hrenewed.mono hlater).withCache fun page resident _ hframe => ?_) hlater
    fun ref hnames => hnames.frame?_removeEach pages
  rw [Cache.frames_removeEach] at hframe
  split at hframe
  · simp at hframe
  · exact .inl hframe

/-- What leaves the cache and the files alone. -/
theorem of_idle (hrenewed : before.Renewed table file stale may)
    (hlater : ∀ page bytes, may page bytes → later page bytes) (locks : LockTable) :
    before.Carries table file stale may later { before with locks } :=
  of_same ((hrenewed.mono hlater).withLocks locks) hlater fun _ _ => rfl

end Database.Carries

/-- Adding a page to a file leaves the pages of a table as they are. -/
theorem Storage.MayAppend.pageAt {before after : Storage} (happend : before.MayAppend after)
    (file : PageFile) (number : Nat) : after.pageAt file number = before.pageAt file number := by
  rcases happend with rfl | ⟨heap, hsize, rfl⟩
  · rfl
  · exact Storage.pageAt_appendPage hsize number

namespace Strides

variable {txn : TxnId} {operation : Operation} {stage next : Stage} {progress : Progress}
  {db after : Database}

/-- A stride to another stage carries over what the pages of a table hold. -/
theorem carries (hstrides : Strides txn operation db stage (.stands next) after)
    (hfits : stage.Fits operation.demand.1) (hrenewed : db.Renewed table file stale may)
    (hlater : ∀ page bytes, may page bytes → later page bytes)
    (hread : ∀ heapPage origin, stage = .read (.ok (heapPage, origin)) →
      heapPage.id.table = table → origin.name = file.name ∧ may heapPage.id heapPage.bytes)
    (hleads : ∀ ref, stage = .fetched ref → ref.page.table = table → db.Leads may ref) :
    db.Carries table file stale may later after := by
  have hrenewed' := hrenewed.mono hlater
  cases hstrides with
  | present | reserves | finds =>
      exact .of_same (hrenewed'.withCache fun _ _ _ h => .inl h) hlater fun _ _ => rfl
  | @evicts victim resident _ =>
      have hremoved := Database.Carries.removeEach hrenewed hlater [victim]
      have hreclaimed := hremoved.renewed.withLocks (db.locks.reclaim victim).2
      exact ⟨hreclaimed.withCache fun _ _ _ h => .inl h, hremoved.leads⟩
  | reads hload hdirectory =>
      refine .of_same (hrenewed'.withStorage ?_) hlater fun _ _ => rfl
      exact Storage.pageAt_congr (by rw [Storage.bytes, hdirectory, Storage.bytes])
  | @installs heapPage origin habsent =>
      have hid : heapPage.id = operation.demand.1 := hfits
      refine .of_same (hrenewed'.withCache fun page resident htable hframe => ?_) hlater ?_
      · rw [Cache.frames_touch, Cache.frames_add] at hframe
        split at hframe
        · rename_i hpage
          subst hpage
          obtain ⟨horigin, hmay⟩ := hread heapPage origin rfl htable
          rw [← Option.some.inj hframe]
          exact .inr ⟨rfl, horigin, hlater _ _ hmay⟩
        · exact .inl hframe
      · intro ref hnames
        have hnames' : Cache.Names { db.cache with loading := db.cache.loading - 1 } ref :=
          hnames.of_shows rfl fun _ h => h
        exact hnames'.frame?_add (hid ▸ habsent) origin
  | @notes ref =>
      refine .of_same (hrenewed'.noteFor txn ?_ _) hlater fun _ _ => ?_
      · exact fun htable => (hleads ref rfl htable).mono hlater
      · rw [Database.frame?, Database.cache_noteFor]
        rfl

/-- A fetch reads its page. -/
theorem load_of_read {loaded : Except Error (HeapPage × PageFile)}
    (hstrides : Strides txn operation db stage (.stands (.read loaded)) after) :
    ∃ read, db.load operation.demand.1 = (loaded, read) := by
  cases hstrides with
  | reads hload => exact ⟨_, hload⟩

/-- A fetch finds the frame that its page has in the cache. -/
theorem shows_of_fetched {ref : FrameRef}
    (hstrides : Strides txn operation db stage (.stands (.fetched ref)) after)
    (hfits : stage.Fits operation.demand.1) : after.cache.Shows ref := by
  rcases hstrides.comes_to_frame hfits rfl with hshows | ⟨hfound, _⟩
  · exact hshows
  · cases hstrides <;> simp [Stage.ref?] at hfound

/-- What is said of the numbers of frames is kept by a stride, if it is kept as long as no frame comes
into the cache, and when the next one comes. -/
theorem keeps_numbers {stride : Stride} (hstrides : Strides txn operation db stage stride after)
    (holds : Cache → Prop)
    (hshows : ∀ cache after : Cache, after.nextSerial = cache.nextSerial →
      (∀ ref, after.Shows ref → cache.Shows ref) → holds cache → holds after)
    (hadd : ∀ (cache : Cache) (heapPage : HeapPage) (origin : PageFile), holds cache →
      holds (cache.add heapPage origin))
    (h : holds db.cache) : holds after.cache := by
  cases hstrides with
  | full => exact h
  | present | reserves | reads | fails | finds => exact hshows db.cache _ rfl (fun _ h => h) h
  | @evicts victim =>
      have hremoved : holds (db.cache.remove victim) :=
        hshows db.cache _ Cache.nextSerial_remove (fun _ h => (Cache.shows_remove.mp h).2) h
      exact hshows (db.cache.remove victim) _ rfl (fun _ h => h) hremoved
  | @installs heapPage origin _ =>
      have hgivenUp : holds { db.cache with loading := db.cache.loading - 1 } :=
        hshows db.cache _ rfl (fun _ h => h) h
      have hadded := hadd _ heapPage origin hgivenUp
      exact hshows (Cache.add _ heapPage origin) _ rfl (fun _ h => h) hadded
  | notes => rwa [Database.cache_noteFor]
  | handles hhandles =>
      cases hhandles with
      | looks => exact h
      | changes =>
          exact hshows db.cache _ Cache.nextSerial_putFrame (fun _ => Cache.shows_putFrame.mp) h

end Strides

namespace MoveEffect

variable {before after : Threads} {move : Move}

/-- What is said of the numbers of frames is kept by a move, if it is kept as long as no frame comes
into the cache, and when the next one comes. -/
theorem keeps_numbers (heffect : MoveEffect before move after) (holds : Cache → Prop)
    (hshows : ∀ cache after : Cache, after.nextSerial = cache.nextSerial →
      (∀ ref, after.Shows ref → cache.Shows ref) → holds cache → holds after)
    (hadd : ∀ (cache : Cache) (heapPage : HeapPage) (origin : PageFile), holds cache →
      holds (cache.add heapPage origin))
    (h : holds before.session.db.cache) : holds after.session.db.cache := by
  refine heffect.keeps_cache holds ?_ ?_ ?_ ?_ h
  · exact fun cache _ _ => hshows cache _ rfl fun _ => Cache.shows_setFrame.mp
  · exact fun cache _ _ => hshows cache _ Cache.nextSerial_putFrame fun _ => Cache.shows_putFrame.mp
  · exact fun _ cache _ => hshows cache _ Cache.nextSerial_remove
      fun _ h => (Cache.shows_remove.mp h).2
  · exact fun _ _ _ _ _ _ _ _ hstrides => hstrides.keeps_numbers holds hshows hadd h

/-- A reference names its frame whatever happens. -/
theorem names (heffect : MoveEffect before move after) {ref : FrameRef}
    (hnames : before.session.db.cache.Names ref) : after.session.db.cache.Names ref :=
  heffect.keeps_numbers (fun cache => cache.Names ref)
    (fun _ _ hnext hshows h => h.of_shows hnext hshows) (fun _ _ _ h => h.add _ _) hnames

/-- The frames in the cache have numbers of their own whatever happens. -/
theorem numbered (heffect : MoveEffect before move after)
    (hnumbered : before.session.db.cache.Numbered) : after.session.db.cache.Numbered :=
  heffect.keeps_numbers Cache.Numbered (fun _ _ hnext hshows h => h.of_shows hnext hshows)
    (fun _ _ _ h => h.add _ _) hnumbered

end MoveEffect

/-- What pages of a table may hold before a turn they may hold later, and so they may after an edit
or a write of the turn. The turn aborts no stale transaction, and leaves the table its file. -/
structure Turn.Accords (turn : Turn) (table : TableId) (file : PageFile) (stale : TxnId → Prop)
    (may later : PageId → Bytes → Prop) : Prop where
  mono : ∀ page bytes, may page bytes → later page bytes
  edits : ∀ (page : PageId) (before after : HeapPage), page.table = table →
    turn.Edits page before after → may page before.bytes → later page after.bytes
  writes : ∀ (page : PageId) (before : HeapPage) (bytes : Bytes), page.table = table →
    turn.Writes page before bytes → may page before.bytes → later page bytes
  aborts : ∀ txn, turn.move = .complete txn false → ¬ stale txn
  keeps : turn.after.session.db.catalog.Keeps table file

/-- The pages of a table hold what they may, also those that fetches have in hand and those in the
frames that were given to somebody. -/
structure Threads.Renewed (threads : Threads) (table : TableId) (file : PageFile)
    (stale : TxnId → Prop) (may : PageId → Bytes → Prop) (given : FrameRef → Prop) : Prop where
  db : threads.session.db.Renewed table file stale may
  numbered : threads.session.db.cache.Numbered
  read : ∀ (txn : TxnId) (heapPage : HeapPage) (origin : PageFile),
    threads.stages[txn]? = some (.read (.ok (heapPage, origin))) → heapPage.id.table = table →
    origin.name = file.name ∧ may heapPage.id heapPage.bytes
  leads : ∀ ref : FrameRef, ref.page.table = table →
    given ref ∨ (∃ txn : TxnId, threads.stages[txn]? = some (.fetched ref)) →
    threads.session.db.cache.Names ref ∧ threads.session.db.Leads may ref

/-- A call that edits its page is answered that it has done so. -/
theorem Turn.edits_of_handles {threads : Threads} {txn : TxnId} {operation : Operation}
    {ref : FrameRef} {frame : Frame} {changed : HeapPage} {answer : Except Error Answer}
    (hwaiting : threads.session.waiting[txn]? = some operation)
    (hstage : threads.stages[txn]? = some (.reached ref))
    (hmode : operation.demand.2 = .exclusive) (hframe : threads.session.db.frame? ref = some frame)
    (hedits : operation.Edits ref frame.page changed answer) :
    Turn.Edits ⟨threads, .stride txn⟩ frame.page.id frame.page changed := by
  refine ⟨txn, operation, ref, frame, answer, rfl, hwaiting, hstage, hframe, rfl, rfl, hedits, ?_⟩
  have hended : (threads.session.db.proceedFrom txn ref operation).1 = .ended answer :=
    Database.proceedFrom_of_edits hmode hframe hedits
  simp [Turn.reply, Threads.make, Threads.stride, hwaiting, hstage, Database.stride, hended,
    Threads.rest, Session.rest, Session.note, Database.runFor]

/-- An operation that is done with its page carries over what the pages of a table hold. -/
theorem Strides.leaves_carries {threads : Threads} {after : Database} {txn : TxnId}
    {operation : Operation} {stage : Stage} {progress : Progress}
    (hstrides : Strides txn operation threads.session.db stage (.leaves progress) after)
    (hwaiting : threads.session.waiting[txn]? = some operation)
    (hstage : threads.stages[txn]? = some stage)
    (haccords : Turn.Accords ⟨threads, .stride txn⟩ table file stale may later)
    (hrenewed : threads.session.db.Renewed table file stale may) :
    threads.session.db.Carries table file stale may later after := by
  have hrenewed' := hrenewed.mono haccords.mono
  cases hstrides with
  | full => exact .of_same hrenewed' haccords.mono fun _ _ => rfl
  | fails =>
      exact .of_same (hrenewed'.withCache fun _ _ _ h => .inl h) haccords.mono fun _ _ => rfl
  | handles hhandles =>
      cases hhandles with
      | @looks _ locks storage _ happend _ _ =>
          have hstored := hrenewed'.withStorage (Storage.MayAppend.pageAt happend file)
          exact .of_same (hstored.withLocks locks) haccords.mono fun _ _ => rfl
      | changes hmode hframe hedits =>
          exact .putFrame hrenewed haccords.mono hframe hedits.edited.keeps.1 fun htable hmay =>
            haccords.edits _ _ _ htable (Turn.edits_of_handles hwaiting hstage hmode hframe hedits)
              hmay

/-- What a turn does carries over what the pages of a table hold. -/
theorem Turn.Accords.carries {turn : Turn} {given : FrameRef → Prop}
    (haccords : turn.Accords table file stale may later)
    (hrenewed : turn.threads.Renewed table file stale may given) (horderly : turn.threads.Orderly)
    (hallows : turn.threads.Allows turn.move) :
    turn.threads.session.db.Carries table file stale may later turn.after.session.db := by
  obtain ⟨threads, move⟩ := turn
  have heffect := horderly.effect hallows
  have hkeeps : ((threads.make move).2).session.db.catalog.Keeps table file := haccords.keeps
  have hreply : Turn.reply ⟨threads, move⟩ = (threads.make move).1 := rfl
  have hdb := hrenewed.db
  have hdb' := hdb.mono haccords.mono
  show threads.session.db.Carries table file stale may later ((threads.make move).2).session.db
  generalize (threads.make move).2 = after at heffect hkeeps
  have hset : ∀ (cache : Cache) (page : PageId) (frame : Frame),
      (∀ ref, threads.session.db.cache.Shows ref → cache.Shows ref) ∧
        cache.retired = threads.session.db.cache.retired →
      (∀ ref, threads.session.db.cache.Shows ref → (cache.setFrame page frame).Shows ref) ∧
        (cache.setFrame page frame).retired = threads.session.db.cache.retired :=
    fun _ _ _ h => ⟨fun ref hshows => Cache.shows_setFrame.mpr (h.1 ref hshows), h.2⟩
  cases heffect with
  | quiet => exact .of_idle hdb haccords.mono _
  | begins _ _ _ happend =>
      rw [Threads.db_rest]
      exact .of_same (hdb'.withStorage (happend.pageAt file)) haccords.mono fun _ _ => rfl
  | refused =>
      rw [Threads.db_rest]
      exact .of_idle hdb haccords.mono _
  | asks | releases | granted => exact .of_idle hdb haccords.mono _
  | @stands txn operation stage next db hwaiting hstage _ hstrides =>
      refine hstrides.carries (horderly.fits hwaiting hstage) hdb haccords.mono ?_ ?_
      · rintro heapPage origin rfl
        exact hrenewed.read txn heapPage origin hstage
      · rintro ref rfl htable
        exact (hrenewed.leads ref htable (.inr ⟨txn, hstage⟩)).2
  | leaves hwaiting hstage _ hstrides =>
      rw [Threads.db_rest]
      exact hstrides.leaves_carries hwaiting hstage haccords hdb
  | @completes txn commits =>
      obtain ⟨hcommit, habort⟩ := Database.complete_preserves_cache
        (fun cache page _ frame _ _ _ h => hset cache page frame h) threads.session.db txn
        ⟨fun _ h => h, rfl⟩
      cases commits with
      | true => exact .of_contents ((hdb'.flushEach _).finish txn) haccords.mono hcommit
      | false => exact .of_contents (hdb'.abort (haccords.aborts txn rfl)) haccords.mono habort
  | @writes txn ref bytes frame changed hframe hrestore =>
      obtain ⟨hid, hbytes⟩ := HeapPage.restore_eq_ok hrestore
      refine .putFrame hdb haccords.mono hframe hid fun htable hmay => ?_
      rw [hbytes]
      refine haccords.writes _ _ _ htable ⟨txn, ref, frame, rfl, hframe, rfl, rfl, ?_⟩ hmay
      simp [hreply, Threads.make, Database.modifyFrame, hframe, Frame.modify, hrestore, Except.map]
  | flushes pages =>
      exact .of_contents (hdb'.flushEach pages) haccords.mono (Database.flushEach_preserves_cache
        (fun cache page _ frame _ _ _ h => hset cache page frame h) threads.session.db pages
        ⟨fun _ h => h, rfl⟩)
  | discards pages => exact .removeEach hdb haccords.mono pages
  | changesCatalog hharmless =>
      exact .of_same (hdb'.of_harmless hharmless hkeeps) haccords.mono fun _ _ => rfl

/-- A turn that accords with what the pages of a table may hold leaves them holding it, and so does
the frame that it may hand out. -/
theorem Threads.Renewed.of_turn {turn : Turn} {given : FrameRef → Prop}
    (hrenewed : turn.threads.Renewed table file stale may given) (horderly : turn.threads.Orderly)
    (hallows : turn.threads.Allows turn.move)
    (haccords : turn.Accords table file stale may later) :
    turn.after.Renewed table file stale later
      fun ref => given ref ∨ ∃ txn, turn.handsOut = some (txn, ref) := by
  have hcarries := haccords.carries hrenewed horderly hallows
  obtain ⟨threads, move⟩ := turn
  have heffect : MoveEffect threads move (Turn.after ⟨threads, move⟩) := horderly.effect hallows
  have hkept : ∀ ref : FrameRef, ref.page.table = table →
      given ref ∨ (∃ txn : TxnId, threads.stages[txn]? = some (.fetched ref)) →
      (Turn.after ⟨threads, move⟩).session.db.cache.Names ref ∧
        (Turn.after ⟨threads, move⟩).session.db.Leads later ref := by
    intro ref htable hgiven
    obtain ⟨hnames, hleads⟩ := hrenewed.leads ref htable hgiven
    exact ⟨heffect.names hnames, hcarries.leads ref htable hnames hleads⟩
  refine ⟨hcarries.renewed, heffect.numbered hrenewed.numbered, ?_, ?_⟩
  · intro txn heapPage origin hstage htable
    rcases heffect.stage_cases hstage with hbefore | hlocked |
      ⟨operation, earlier, _, hwaiting, hbefore, hstrides⟩
    · obtain ⟨horigin, hmay⟩ := hrenewed.read txn heapPage origin hbefore htable
      exact ⟨horigin, haccords.mono _ _ hmay⟩
    · simp at hlocked
    · have hid := hstrides.fits horderly.sound (horderly.fits hwaiting hbefore)
      obtain ⟨_, hload⟩ := hstrides.load_of_read
      have hpage : heapPage.id = operation.demand.1 := hid
      rw [hpage] at htable ⊢
      obtain ⟨_, horigin, hmay⟩ := hrenewed.db.load horderly.sound htable hload
      exact ⟨horigin, haccords.mono _ _ hmay⟩
  · rintro ref htable (hgiven | ⟨txn, hstage⟩)
    · refine hkept ref htable ?_
      rcases hgiven with hgiven | ⟨txn, hout⟩
      · exact .inl hgiven
      · exact .inr ⟨txn, (Turn.stage_of_handsOut hout).2⟩
    · rcases heffect.stage_cases hstage with hbefore | hlocked |
        ⟨operation, earlier, _, hwaiting, hbefore, hstrides⟩
      · exact hkept ref htable (.inr ⟨txn, hbefore⟩)
      · simp at hlocked
      · have hshows := hstrides.shows_of_fetched (horderly.fits hwaiting hbefore)
        exact ⟨heffect.numbered hrenewed.numbered ref hshows, hcarries.renewed.leads htable hshows⟩

namespace Schedule

variable {db : Database} {start threads last : Threads} {earlier history : List Turn}

/-- The frames in the cache have numbers of their own, whatever order the threads make their moves
in. -/
theorem numbered (hopened : db.Opened) (hschedule : Schedule ⟨{ db }, ∅⟩ history threads) :
    threads.session.db.cache.Numbered := by
  have hstart := Threads.Orderly.of_opened hopened
  induction hschedule with
  | start =>
      rintro ref ⟨resident, hframe, _⟩
      have hframe : db.cache.frames[ref.page]? = some resident := hframe
      rw [hopened.cache] at hframe
      simp at hframe
  | step hschedule hallows ih => exact ((hschedule.orderly hstart).effect hallows).numbered ih

/-- The pages of a table that were dropped from the cache are those of its file, if no fetch has one
of them in hand. -/
theorem renewed_discardTable (hopened : db.Opened)
    (hschedule : Schedule ⟨{ db }, ∅⟩ history threads)
    (hkeeps : threads.session.db.catalog.Keeps table file) (hinHand : threads.NoneInHand table)
    (hmay : ∀ page : PageId, page.table = table →
      may page (threads.session.db.storage.pageAt file page.number)) :
    (Turn.after ⟨threads, .discardTable table⟩).Renewed table file
      (fun txn => ∃ page, page.table = table ∧
        (threads.session.db.journal.image? txn page).isSome = true) may fun _ => False where
  db := Database.renewed_discardTable hkeeps hmay
  numbered := by
    have heffect : MoveEffect threads (.discardTable table) _ :=
      (hschedule.orderly (.of_opened hopened)).effect trivial
    exact heffect.numbered (hschedule.numbered hopened)
  read txn heapPage origin hstage htable :=
    absurd htable (hinHand txn _ heapPage.id hstage rfl)
  leads := by
    rintro ref htable (hgiven | ⟨txn, hstage⟩)
    · exact hgiven.elim
    · exact absurd htable (hinHand txn _ ref.page hstage rfl)

/-- As long as a table keeps to its file and no stale transaction aborts, what its pages hold is what
descends from the contents that they had at first. -/
theorem renewed (hstart : start.Orderly) {first : PageId → Bytes}
    (hrenewed : start.Renewed table file stale (fun page => Descends page (first page) [])
      fun _ => False)
    (hschedule : Schedule start history last)
    (hlater : ∀ turn ∈ history, turn.after.session.db.catalog.Keeps table file)
    (haborts : ∀ turn ∈ history, ∀ txn, turn.move = .complete txn false → ¬ stale txn) :
    last.Renewed table file stale (fun page => Descends page (first page) history)
      fun ref => ∃ turn ∈ history, ∃ txn, turn.handsOut = some (txn, ref) := by
  induction hschedule with
  | start => exact ⟨hrenewed.db, hrenewed.numbered, hrenewed.read, by simpa using hrenewed.leads⟩
  | @step history before move hschedule hallows ih =>
      have hbefore := ih (fun turn h => hlater turn (List.mem_append_left _ h))
        fun turn h => haborts turn (List.mem_append_left _ h)
      have hturn : (⟨before, move⟩ : Turn) ∈ history ++ [⟨before, move⟩] := by simp
      have haccords : Turn.Accords ⟨before, move⟩ table file stale
          (fun page => Descends page (first page) history)
          (fun page => Descends page (first page) (history ++ [⟨before, move⟩])) :=
        ⟨fun _ _ => .keeps, fun _ _ _ _ hedits hold => .edit hold hedits,
          fun _ _ _ _ hwrites hold => .write hold hwrites, haborts _ hturn, hlater _ hturn⟩
      obtain ⟨hdb, hnumbered, hread, hleads⟩ :=
        hbefore.of_turn (hschedule.orderly hstart) hallows haccords
      refine ⟨hdb, hnumbered, hread, fun ref htable hgiven => hleads ref htable ?_⟩
      refine hgiven.imp_left ?_
      rintro ⟨turn, hmem, txn, hout⟩
      rcases List.mem_append.mp hmem with hmem | hmem
      · exact .inl ⟨turn, hmem, txn, hout⟩
      · exact .inr ⟨txn, List.mem_singleton.mp hmem ▸ hout⟩

/-- The pages of a table that was given another file stay out of it. Threads have come to where a
table keeps its pages in a file that no other table uses, and its cached pages are dropped while no
fetch has one of them in hand. From then on, as long as the table keeps to this file and no
transaction aborts that has a before-image of a page of the table from before, every frame of a page
of the table that an access hands out holds, for as long as anybody uses it, what the file held there
when the pages were dropped, but for rows that calls have stored and deleted since and for what has
been written through frames. So do the frames in the cache, which were read from the file, and the
file itself. -/
theorem replaced_pages_stay_out (hopened : db.Opened)
    (hearlier : Schedule ⟨{ db }, ∅⟩ earlier threads)
    (hkeeps : threads.session.db.catalog.Keeps table file) (hinHand : threads.NoneInHand table)
    (hschedule : Schedule (Turn.after ⟨threads, .discardTable table⟩) history last)
    (hlater : ∀ turn ∈ history, turn.after.session.db.catalog.Keeps table file)
    (haborts : ∀ turn ∈ history, ∀ txn, turn.move = .complete txn false →
      ∀ page : PageId, page.table = table →
        threads.session.db.journal.image? txn page = none) :
    (∀ turn ∈ history, ∀ txn ref, turn.handsOut = some (txn, ref) → ref.page.table = table →
      ∃ frame, last.session.db.frame? ref = some frame ∧ frame.page.id = ref.page ∧
        Descends ref.page (threads.session.db.storage.pageAt file ref.page.number) history
          frame.page.bytes) ∧
    ∀ page : PageId, page.table = table →
      (∀ resident, last.session.db.cache.frames[page]? = some resident →
        resident.origin.name = file.name ∧
          Descends page (threads.session.db.storage.pageAt file page.number) history
            resident.page.bytes) ∧
      Descends page (threads.session.db.storage.pageAt file page.number) history
        (last.session.db.storage.pageAt file page.number) := by
  have horderly := hearlier.orderly (.of_opened hopened)
  have heffect : MoveEffect threads (.discardTable table) (Turn.after ⟨threads, _⟩) :=
    horderly.effect trivial
  have hdropped : (Turn.after ⟨threads, .discardTable table⟩).Renewed table file _
      (fun page => Descends page (threads.session.db.storage.pageAt file page.number) []) _ :=
    hearlier.renewed_discardTable hopened hkeeps hinHand fun page _ => .first
  have hrenewed := hschedule.renewed (horderly.of_effect heffect) hdropped hlater (by
    rintro turn hturn txn hmove ⟨page, htable, himage⟩
    simp [haborts turn hturn txn hmove page htable] at himage)
  refine ⟨fun turn hturn txn ref hout htable => ?_,
    fun page htable => ⟨fun resident hframe => ?_, hrenewed.db.disk page htable⟩⟩
  · exact (hrenewed.leads ref htable (.inl ⟨turn, hturn, txn, hout⟩)).2
  · exact (hrenewed.db.frame page resident htable hframe).2

open Session (sampleTables sampleTables_opened sampleSchema sampleRow)

/-- The moves of a call that has to wait for no lock and makes one demand. -/
def movesOf (txn : TxnId) (call : Call) : List Move :=
  .begin txn call :: .submit txn :: List.replicate 5 (.stride txn)

/-- A row is stored in a table. A transaction takes write access to its page, and another one waits
for the page, when the table is given another file. -/
def movesOfOriginal : List Move :=
  movesOf ⟨1⟩ (.insert ⟨1⟩ (sampleRow 7)) ++ [.complete ⟨1⟩ true] ++
    movesOf ⟨2⟩ (.getPage ⟨⟨1⟩, 0⟩ .exclusive) ++
    [.begin ⟨4⟩ (.getPage ⟨⟨1⟩, 0⟩ .shared), .submit ⟨4⟩,
      .changeCatalog (.add ⟨1⟩ "a" sampleSchema "c.dat" 16 none)]

/-- The writer commits. Another transaction stores a row in the new file and aborts, and then the
one that waits gets the page. -/
def movesOfReplaced : List Move :=
  .complete ⟨2⟩ true :: movesOf ⟨3⟩ (.insert ⟨1⟩ (sampleRow 9)) ++
    [.flushAll, .complete ⟨3⟩ false, .advance ⟨4⟩] ++ List.replicate 3 (.stride ⟨4⟩)

/-- A file that a table can be given. -/
def sampleFile : PageFile := ⟨2, "c.dat", 16⟩

/-- Threads in which a table has been given another file. -/
def replacedThreads : Threads :=
  Threads.makeEach ⟨{ db := sampleTables "a.dat" "b.dat" }, ∅⟩ movesOfOriginal

theorem schedule_replacedThreads :
    Schedule ⟨{ db := sampleTables "a.dat" "b.dat" }, ∅⟩
      (Threads.turns ⟨{ db := sampleTables "a.dat" "b.dat" }, ∅⟩ movesOfOriginal)
      replacedThreads :=
  .of_moves .start (by decide +kernel : Threads.AllowsEach _ movesOfOriginal)

theorem noneInHand_replacedThreads : replacedThreads.NoneInHand ⟨1⟩ :=
  .of_isEmpty (by decide +kernel)

/-- A transaction has the before-image of a page that is not empty when the table of the page is
given another file. It commits when the cached pages are dropped. Another transaction stores a row
in the new file and aborts, and one that has waited for the page since before is handed an empty
page, as it was in the new file at first. -/
theorem replaced_pages_stay_out_after_commit :
    let dropped := Turn.after ⟨replacedThreads, .discardTable ⟨1⟩⟩
    let history := dropped.turns movesOfReplaced
    let last := dropped.makeEach movesOfReplaced
    let ref : FrameRef := ⟨⟨⟨1⟩, 0⟩, 1⟩
    (∃ image, replacedThreads.session.db.journal.image? ⟨2⟩ ⟨⟨1⟩, 0⟩ = some image ∧
      image.bytes ≠ Bytes.zeros 16) ∧
    Schedule dropped history last ∧
    (∃ turn ∈ history, turn.reply = .answered
      (.ok (.inserted { sampleRow 9 with place := some ⟨⟨⟨1⟩, 0⟩, 0⟩ } ref))) ∧
    (∃ turn ∈ history, turn.handsOut = some (⟨4⟩, ref)) ∧
    ∃ frame, last.session.db.frame? ref = some frame ∧ frame.page.bytes = Bytes.zeros 16 ∧
      Descends ⟨⟨1⟩, 0⟩ (Bytes.zeros 16) history frame.page.bytes := by
  intro dropped history last ref
  have hschedule : Schedule dropped history last :=
    .of_moves .start (by decide +kernel : Threads.AllowsEach _ movesOfReplaced)
  have hzeros : replacedThreads.session.db.storage.pageAt sampleFile 0 = Bytes.zeros 16 := by
    decide +kernel
  have hout : ∃ turn ∈ history, turn.handsOut = some (⟨4⟩, ref) := by decide +kernel
  have hpages := replaced_pages_stay_out (sampleTables_opened "a.dat" "b.dat")
    schedule_replacedThreads (by decide +kernel : Catalog.Keeps _ ⟨1⟩ sampleFile)
    noneInHand_replacedThreads hschedule (by decide +kernel) ?_
  · obtain ⟨turn, hturn, hgiven⟩ := hout
    obtain ⟨frame, hframe, _, hdescends⟩ := hpages.1 turn hturn ⟨4⟩ ref hgiven rfl
    have hfound : (last.session.db.frame? ref).map (fun frame => frame.page.bytes) =
        some (Bytes.zeros 16) := by decide +kernel
    rw [hframe] at hfound
    rw [hzeros] at hdescends
    refine ⟨?_, hschedule, by decide +kernel, ⟨turn, hturn, hgiven⟩, frame, hframe,
      Option.some.inj hfound, hdescends⟩
    have himage : (replacedThreads.session.db.journal.image? ⟨2⟩ ⟨⟨1⟩, 0⟩).any
        (fun image => image.bytes ≠ Bytes.zeros 16) = true := by decide +kernel
    simpa [Option.any_eq_true] using himage
  · -- The only abort is that of a transaction that has come later.
    intro turn hturn txn hmove page _
    have hmade : .complete txn false ∈ movesOfReplaced := hmove ▸ Threads.move_of_mem_turns hturn
    obtain rfl : txn = ⟨3⟩ := by simpa [movesOfReplaced, movesOf] using hmade
    have hnone : (replacedThreads.session.db.journal.imagesOf ⟨3⟩).isEmpty = true := by
      decide +kernel
    rw [Journal.image?, Std.ExtTreeMap.isEmpty_iff.mp hnone, Std.ExtTreeMap.getElem?_empty]

/-- A page is read for a fetch. Its table is given another file and its cached pages are dropped
before the fetch installs what it has in hand. -/
def movesOfLoad : List Move :=
  movesOf ⟨1⟩ (.insert ⟨1⟩ (sampleRow 7)) ++
    [.complete ⟨1⟩ true, .discardPage ⟨⟨1⟩, 0⟩, .begin ⟨2⟩ (.getPage ⟨⟨1⟩, 0⟩ .shared), .submit ⟨2⟩,
      .stride ⟨2⟩, .stride ⟨2⟩, .changeCatalog (.add ⟨1⟩ "a" sampleSchema "c.dat" 16 none),
      .discardTable ⟨1⟩, .stride ⟨2⟩]

/-- What a fetch has in hand comes back after the pages of its table were dropped. -/
example :
    (Threads.makeEach ⟨{ db := sampleTables "a.dat" "b.dat" }, ∅⟩
        movesOfLoad).session.db.cache.frames[(⟨⟨1⟩, 0⟩ : PageId)]?.any (fun resident =>
      resident.origin.name = "a.dat" ∧ resident.page.bytes ≠ Bytes.zeros 16) = true := by
  decide +kernel

/-- A transaction has write access to a page of a table that is given another file. When the cached
pages have been dropped it aborts, and the page of the old file is written into the new one. -/
theorem abort_writes_replaced_page :
    ¬ ∀ {db : Database} {earlier history : List Turn} {threads last : Threads} {table : TableId}
        {file : PageFile}, db.Opened → Schedule ⟨{ db }, ∅⟩ earlier threads →
      threads.session.db.catalog.Keeps table file → threads.NoneInHand table →
      Schedule (Turn.after ⟨threads, .discardTable table⟩) history last →
      (∀ turn ∈ history, turn.after.session.db.catalog.Keeps table file) →
      ∀ page : PageId, page.table = table →
        Descends page (threads.session.db.storage.pageAt file page.number) history
          (last.session.db.storage.pageAt file page.number) := by
  intro hclaim
  have hschedule := Schedule.of_moves .start (by decide +kernel : Threads.AllowsEach
    (Turn.after ⟨replacedThreads, .discardTable ⟨1⟩⟩) [.complete ⟨2⟩ false])
  have hdescends := hclaim (sampleTables_opened "a.dat" "b.dat") schedule_replacedThreads
    (by decide +kernel : Catalog.Keeps _ ⟨1⟩ sampleFile) noneInHand_replacedThreads hschedule
    (by decide +kernel) ⟨⟨1⟩, 0⟩ rfl
  have hfirst := hdescends.eq_first (by simp [Threads.turns, Turn.Edits])
    (by simp [Threads.turns, Turn.Writes])
  exact absurd hfirst (by decide +kernel)

end Schedule

end RowStore
