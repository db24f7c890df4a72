import Mathlib.Data.List.Induction
import RowStore.Proofs.Database.Settled
import RowStore.Proofs.Session.Undo

/-!
# Commits are durable

`commit_durable` says what a commit does in any run over an unchanging catalog whose tables keep
their pages in files of their own, as long as no page is dropped from the cache unwritten: it
succeeds, every page that the transaction changed has on disk what it left there, and this stays
what the page is settled to hold until a transaction commits that changed the page as well. Along a
run, whatever is unwritten or stolen was changed by the transaction that it is attributed to.
-/

namespace RowStore

variable {layout : Layout}

/-- Whether the transaction has changed the page. -/
def Changed (history : List Moment) (txn : TxnId) (page : PageId) : Prop :=
  ∃ moment ∈ history, moment.changes txn page = true

instance (history : List Moment) (txn : TxnId) (page : PageId) :
    Decidable (Changed history txn page) :=
  inferInstanceAs (Decidable (∃ moment ∈ history, moment.changes txn page = true))

/-- The last event by which the transaction has changed the page. -/
def lastChange (history : List Moment) (txn : TxnId) (page : PageId) : Option Moment :=
  history.reverse.find? fun moment => moment.changes txn page

theorem lastChange_append (history : List Moment) (moment : Moment) (txn : TxnId)
    (page : PageId) :
    lastChange (history ++ [moment]) txn page =
      if moment.changes txn page = true then some moment else lastChange history txn page := by
  simp only [lastChange, List.reverse_append, List.reverse_singleton, List.singleton_append,
    List.find?_cons]
  cases moment.changes txn page <;> rfl

theorem Changed.append {history : List Moment} {txn : TxnId} {page : PageId}
    (h : Changed history txn page) (moment : Moment) : Changed (history ++ [moment]) txn page := by
  obtain ⟨change, hmem, hchange⟩ := h
  exact ⟨change, List.mem_append_left _ hmem, hchange⟩

theorem Changed.of_last (history : List Moment) {moment : Moment} {txn : TxnId} {page : PageId}
    (h : moment.changes txn page = true) : Changed (history ++ [moment]) txn page :=
  ⟨moment, List.mem_append_right _ (List.mem_singleton.mpr rfl), h⟩

namespace Act

variable {txn writer : TxnId} {before after : Database} {accesses : List Access}
  {changes : List PageId} {page : PageId}

/-- No act steals a page. -/
theorem stolen (hact : Act txn before accesses changes after) {image : BeforeImage}
    (himage : after.journal.image? writer page = some image) (hstolen : image.stolen = true) :
    ∃ found, before.journal.image? writer page = some found ∧ found.stolen = true := by
  rcases hact.image writer page with hsame | ⟨_, _, _, _, _, hnew, _⟩
  · exact ⟨image, hsame ▸ himage, hstolen⟩
  · rw [himage, Option.some.injEq] at hnew
    simp [hnew] at hstolen

end Act

namespace Work

variable {txn writer : TxnId} {before after : Database} {accesses : List Access}
  {changes : List PageId} {page : PageId}

/-- A page that a work leaves unwritten was unwritten before, or the work has changed it. -/
theorem dirtied (hwork : Work txn before accesses changes after) {resident : Resident}
    (hframe : after.cache.frames[page]? = some resident)
    (hdirty : resident.dirtiedBy = some writer) :
    (∃ found : Resident, before.cache.frames[page]? = some found ∧
      found.dirtiedBy = some writer) ∨ writer = txn ∧ page ∈ changes := by
  induction hwork with
  | none => exact .inl ⟨resident, hframe, hdirty⟩
  | cons hact _ ih =>
      rcases ih hframe with ⟨found, hfound, hdirty⟩ | ⟨hwriter, hpage⟩
      · rcases hact.dirtied hfound hdirty with hkept | ⟨hwriter, hpage⟩
        · exact .inl hkept
        · exact .inr ⟨hwriter, List.mem_append_left _ hpage⟩
      · exact .inr ⟨hwriter, List.mem_append_right _ hpage⟩

/-- No work steals a page. -/
theorem stolen (hwork : Work txn before accesses changes after) {image : BeforeImage}
    (himage : after.journal.image? writer page = some image) (hstolen : image.stolen = true) :
    ∃ found, before.journal.image? writer page = some found ∧ found.stolen = true := by
  induction hwork with
  | none => exact ⟨image, himage, hstolen⟩
  | cons hact _ ih =>
      obtain ⟨found, hfound, hstolen⟩ := ih himage
      exact hact.stolen hfound hstolen

/-- A before-image is kept by every work. -/
theorem imaged (hwork : Work txn before accesses changes after)
    (h : (before.journal.image? writer page).isSome = true) :
    (after.journal.image? writer page).isSome = true :=
  hwork.preserves (fun db => (db.journal.image? writer page).isSome = true)
    (fun hact => hact.imaged) h

/-- A page that a work changes was noted. -/
theorem changes_imaged (hwork : Work txn before accesses changes after) (hpage : page ∈ changes) :
    (after.journal.image? txn page).isSome = true := by
  induction hwork with
  | none => simp at hpage
  | cons hact hrest ih =>
      rcases List.mem_append.mp hpage with hpage | hpage
      · exact hrest.imaged (hact.imaged (hact.changes_noted hpage).2)
      · exact ih hpage

/-- A page that another transaction has noted is changed by no work. -/
theorem changes_owner (hwork : Work txn before accesses changes after)
    (hplaced : before.Placed layout) (hpage : page ∈ changes)
    (h : (before.journal.image? writer page).isSome = true) : writer = txn := by
  induction hwork with
  | none => simp at hpage
  | cons hact _ ih =>
      rcases List.mem_append.mp hpage with hpage | hpage
      · obtain ⟨image, himage⟩ := Option.isSome_iff_exists.mp h
        have hwriter := hplaced.owner writer page image himage
        rw [(hact.changes_noted hpage).1, Option.some.injEq] at hwriter
        exact hwriter.symm
      · exact ih (hact.placed hplaced) hpage (hact.imaged h)

end Work

/-- What is unwritten or stolen was changed by the transaction that it is attributed to, and a
transaction that has not ended finds every page as its last change left it. -/
structure Session.Attributed (layout : Layout) (history : List Moment) (session : Session) :
    Prop where
  dirty : ∀ (page : PageId) (resident : Resident) (writer : TxnId),
    session.db.cache.frames[page]? = some resident → resident.dirtiedBy = some writer →
    Changed history writer page
  stolen : ∀ writer page image, session.db.journal.image? writer page = some image →
    image.stolen = true → Changed history writer page
  left : ∀ writer page change, (∀ moment ∈ history, moment.event.completes writer = false) →
    lastChange history writer page = some change →
    (session.db.journal.image? writer page).isSome = true ∧
      layout.contentOf session.db page = layout.contentOf change.after.db page

namespace Session

variable {history : List Moment} {session : Session} {event : Event}

/-- An event that changes no page keeps the attribution, if it makes nothing unwritten, steals only
what was unwritten, and leaves the noted pages of the transactions that go on as they are. -/
theorem Attributed.of_unchanged (hattributed : session.Attributed layout history)
    (hchanges : (Moment.mk session event).reply.changes = [])
    (hdirty : ∀ (page : PageId) (resident : Resident) (writer : TxnId),
      (session.apply event).db.cache.frames[page]? = some resident →
      resident.dirtiedBy = some writer → ∃ found : Resident,
        session.db.cache.frames[page]? = some found ∧ found.dirtiedBy = some writer)
    (hstolen : ∀ writer page image,
      (session.apply event).db.journal.image? writer page = some image → image.stolen = true →
      Changed history writer page)
    (hleft : ∀ writer page, event.completes writer = false →
      (session.db.journal.image? writer page).isSome = true →
      ((session.apply event).db.journal.image? writer page).isSome = true ∧
        layout.contentOf (session.apply event).db page = layout.contentOf session.db page) :
    (session.apply event).Attributed layout (history ++ [⟨session, event⟩]) where
  dirty page resident writer hframe hby := by
    obtain ⟨found, hfound, hby⟩ := hdirty page resident writer hframe hby
    exact (hattributed.dirty page found writer hfound hby).append _
  stolen writer page image himage hmarked := (hstolen writer page image himage hmarked).append _
  left writer page change hopen hlast := by
    have hsilent : (Moment.mk session event).changes writer page = false := by
      simp [Moment.changes, hchanges]
    rw [lastChange_append, hsilent, if_neg Bool.false_ne_true] at hlast
    obtain ⟨himage, hcontent⟩ := hattributed.left writer page change
      (fun moment h => hopen moment (List.mem_append_left _ h)) hlast
    obtain ⟨himage', hcontent'⟩ := hleft writer page
      (hopen ⟨session, event⟩ (List.mem_append_right _ (List.mem_singleton.mpr rfl))) himage
    exact ⟨himage', hcontent'.trans hcontent⟩

/-- Flushes keep the attribution: a page becomes stolen only if it was unwritten. -/
theorem Attributed.flushEach (hattributed : session.Attributed layout history)
    (hplaced : session.db.Placed layout) (pages : List PageId) :
    (∀ (page : PageId) (resident : Resident) (writer : TxnId),
      (session.db.flushEach pages).2.cache.frames[page]? = some resident →
      resident.dirtiedBy = some writer → ∃ found : Resident,
        session.db.cache.frames[page]? = some found ∧ found.dirtiedBy = some writer) ∧
      ∀ writer page image,
        (session.db.flushEach pages).2.journal.image? writer page = some image →
        image.stolen = true → Changed history writer page := by
  -- A flush may steal a page only for the transaction that the frame is marked with, so the mark of
  -- the frame has to be kept track of as well.
  have hkept := Database.flushEach_preserves
    (fun db => db.Placed layout ∧
      (∀ (page : PageId) (resident : Resident) (writer : TxnId),
        db.cache.frames[page]? = some resident → resident.dirtiedBy = some writer →
        ∃ found : Resident, session.db.cache.frames[page]? = some found ∧
          found.dirtiedBy = some writer) ∧
      ∀ writer page image, db.journal.image? writer page = some image → image.stolen = true →
        Changed history writer page) pages
    (fun {db} written _ h => by
      obtain ⟨hplaced, hdirty, hstolen⟩ := h
      have hflushed := (Database.flushPage_flushed hplaced written).1
      refine ⟨hflushed.placed hplaced, ?_⟩
      rcases hflushed.page with ⟨_, hjournal, hframes⟩ |
        ⟨resident, owner, hframe, howned, _, hframes, _, hjournal⟩
      · simp only [hframes, hjournal]
        exact ⟨hdirty, hstolen⟩
      · refine ⟨?_, ?_⟩
        · intro page found writer hfound hby
          rw [hframes] at hfound
          split at hfound
          · simp only [Option.some.injEq] at hfound
            rw [← hfound] at hby
            simp [Frame.markClean] at hby
          · exact hdirty page found writer hfound hby
        · intro writer page image himage hmarked
          rw [hjournal, Journal.image?_markStolen] at himage
          split at himage
          · rename_i hsame
            obtain ⟨rfl, rfl⟩ := hsame
            obtain ⟨found, hfound, hby⟩ := hdirty written resident owner hframe howned
            exact hattributed.dirty written found owner hfound hby
          · exact hstolen writer page image himage hmarked)
    ⟨hplaced, fun _ resident _ h hby => ⟨resident, h, hby⟩, hattributed.stolen⟩
  exact hkept.2

/-- The work of a transaction keeps the attribution: what it leaves unwritten, it has changed. -/
theorem Attributed.work (hattributed : session.Attributed layout history)
    (hplaced : session.db.Placed layout) (hintact : session.db.Intact layout) {txn : TxnId}
    (hactor : event.actor? = some txn)
    (hwork : Work txn session.db (Moment.mk session event).accesses
      (Moment.mk session event).reply.changes (session.apply event).db) :
    (session.apply event).Attributed layout (history ++ [⟨session, event⟩]) := by
  have hchanged : ∀ page, page ∈ (Moment.mk session event).reply.changes →
      (Moment.mk session event).changes txn page = true := by
    intro page hpage
    simpa [Moment.changes, hactor] using hpage
  refine ⟨?_, ?_, ?_⟩
  · intro page resident writer hframe hdirty
    rcases hwork.dirtied hframe hdirty with ⟨found, hfound, hby⟩ | ⟨rfl, hpage⟩
    · exact (hattributed.dirty page found writer hfound hby).append _
    · exact .of_last history (hchanged page hpage)
  · intro writer page image himage hstolen
    obtain ⟨found, hfound, hmarked⟩ := hwork.stolen himage hstolen
    exact (hattributed.stolen writer page found hfound hmarked).append _
  · intro writer page change hopen hlast
    rw [lastChange_append] at hlast
    split at hlast
    · rename_i hchange
      simp only [Option.some.injEq] at hlast
      subst hlast
      simp only [Moment.changes, hactor, Option.some.injEq, Bool.and_eq_true,
        decide_eq_true_eq, List.contains_iff_mem] at hchange
      obtain ⟨rfl, hpage⟩ := hchange
      exact ⟨hwork.changes_imaged hpage, rfl⟩
    · rename_i hchange
      obtain ⟨himage, hcontent⟩ := hattributed.left writer page change
        (fun moment h => hopen moment (List.mem_append_left _ h)) hlast
      refine ⟨hwork.imaged himage, Eq.trans ?_ hcontent⟩
      obtain ⟨image, hnoted⟩ := Option.isSome_iff_exists.mp himage
      -- Whoever else works cannot change the page, as it is noted for its writer.
      apply hwork.contentOf hplaced hintact (hplaced.image writer page image hnoted).2
      intro hpage
      have howner := hwork.changes_owner hplaced hpage himage
      subst howner
      exact hchange (hchanged page hpage)

/-- The commit of a transaction keeps the attribution for the other ones. -/
theorem Attributed.commit (hattributed : session.Attributed layout history)
    (hplaced : session.db.Placed layout) (hintact : session.db.Intact layout) {txn : TxnId}
    (hevent : event = .complete txn true)
    (hafter : (session.apply event).db = (session.db.commit txn).2)
    (hreply : (Moment.mk session event).reply = .finished (session.db.commit txn).1) :
    (session.apply event).Attributed layout (history ++ [⟨session, event⟩]) := by
  obtain ⟨hdirty, hstolen⟩ := hattributed.flushEach hplaced
    (session.db.cache.pagesWhere fun frame => frame.dirtiedBy = some txn)
  refine hattributed.of_unchanged (by rw [hreply]; rfl) ?_ ?_ ?_
  · rw [hafter]
    exact hdirty
  · intro writer page image himage hmarked
    rw [hafter, Database.commit, Database.image?_finish] at himage
    split at himage
    · simp at himage
    · exact hstolen writer page image himage hmarked
  · intro writer page hopen himage
    subst hevent
    rw [hafter, ← Journal.isSome_imageBytes?,
      Database.imageBytes_commit (ne_of_completes hopen), Journal.isSome_imageBytes?]
    exact ⟨himage, Database.contentOf_commit hplaced hintact txn page⟩

/-- The abort of a transaction keeps the attribution for the other ones: it leaves the pages that
they have noted alone. -/
theorem Attributed.abort (hattributed : session.Attributed layout history)
    (hplaced : session.db.Placed layout) (hintact : session.db.Intact layout) {txn : TxnId}
    (hevent : event = .complete txn false)
    (hafter : (session.apply event).db = (session.db.abort txn).2)
    (hreply : (Moment.mk session event).reply = .finished (session.db.abort txn).1) :
    (session.apply event).Attributed layout (history ++ [⟨session, event⟩]) := by
  obtain ⟨_, hundone, _⟩ := hintact.abort hplaced txn
  obtain ⟨_, _, _, hjournal⟩ := Database.rollBack_undone hplaced hintact txn
  refine hattributed.of_unchanged (by rw [hreply]; rfl) ?_ ?_ ?_
  · intro page resident writer hframe hdirty
    rw [hafter] at hframe
    rcases hundone.frame hframe with ⟨_, _, _, _, _, _, hclean⟩ | ⟨_, hfound⟩
    · simp [hclean] at hdirty
    · exact ⟨resident, hfound, hdirty⟩
  · intro writer page image himage hmarked
    rw [hafter, Database.abort, Database.image?_finish, hjournal] at himage
    split at himage
    · simp at himage
    · exact hattributed.stolen writer page image himage hmarked
  · intro writer page hopen himage
    subst hevent
    have hne := ne_of_completes hopen
    obtain ⟨hframe, hbytes⟩ := hundone.others page (hplaced.image?_eq_none himage hne)
    rw [hafter, ← Journal.isSome_imageBytes?, Database.imageBytes_abort hplaced hne,
      Journal.isSome_imageBytes?]
    exact ⟨himage, Layout.contentOf_congr hframe hbytes⟩

/-- Every event that drops no page and leaves the catalog alone keeps the attribution. -/
theorem Attributed.apply (hattributed : session.Attributed layout history)
    (hplaced : session.db.Placed layout) (hintact : session.db.Intact layout)
    (heffect : Effect ⟨session, event⟩) (hcatalog : event.keepsCatalog = true)
    (hpages : event.keepsPages = true) :
    (session.apply event).Attributed layout (history ++ [⟨session, event⟩]) := by
  cases heffect with
  | work txn hactor _ hwork => exact hattributed.work hplaced hintact hactor hwork
  | flush pages hsilent _ hafter =>
      have hafter : (session.apply event).db = (session.db.flushEach pages).2 := hafter
      obtain ⟨hdirty, hstolen⟩ := hattributed.flushEach hplaced pages
      refine hattributed.of_unchanged hsilent.changes ?_ ?_ ?_
      · rwa [hafter]
      · rwa [hafter]
      · intro writer page _ himage
        rw [hafter, ← Journal.isSome_imageBytes?, Database.imageBytes_flushEach,
          Journal.isSome_imageBytes?]
        exact ⟨himage, (Database.flushEach_contents hplaced hintact pages page).1⟩
  | discard page _ hevent _ =>
      have hevent : event = .discard page := hevent
      simp [hevent, Event.keepsPages] at hpages
  | commit txn hevent hafter hreply =>
      exact hattributed.commit hplaced hintact hevent hafter hreply
  | abort txn hevent hafter hreply =>
      exact hattributed.abort hplaced hintact hevent hafter hreply
  | catalog _ _ _ hchanges _ _ => simp [hcatalog] at hchanges

/-- No event changes what a page is settled to hold but the commit of a transaction that has
changed the page. -/
theorem Attributed.settled (hattributed : session.Attributed layout history)
    (hplaced : session.db.Placed layout) (hintact : session.db.Intact layout)
    (heffect : Effect ⟨session, event⟩) (hcatalog : event.keepsCatalog = true)
    (hpages : event.keepsPages = true) {page : PageId}
    (hquiet : ∀ writer, event = .complete writer true → ¬ Changed history writer page)
    (hcovers : layout.Covers session.db.storage page) :
    layout.settled (session.apply event).db page = layout.settled session.db page ∧
      layout.Covers (session.apply event).db.storage page := by
  cases heffect with
  | work txn _ _ hwork => exact hwork.settled hplaced hintact hcovers
  | flush pages _ _ hafter =>
      have hafter : (session.apply event).db = (session.db.flushEach pages).2 := hafter
      rw [hafter]
      exact ⟨(Database.flushEach_contents hplaced hintact pages page).2,
        hplaced.covers_flushEach pages hcovers⟩
  | discard page _ hevent _ =>
      have hevent : event = .discard page := hevent
      simp [hevent, Event.keepsPages] at hpages
  | commit txn hevent hafter _ =>
      have hafter : (session.apply event).db = (session.db.commit txn).2 := hafter
      have hunchanged := hquiet txn hevent
      rw [hafter]
      refine ⟨Database.settled_commit hplaced hintact ?_ ?_, hplaced.covers_flushEach _ hcovers⟩
      · intro resident hframe hdirty
        exact hunchanged (hattributed.dirty page resident txn hframe hdirty)
      · intro image himage
        cases hstolen : image.stolen with
        | false => rfl
        | true => exact absurd (hattributed.stolen txn page image himage hstolen) hunchanged
  | abort txn _ hafter _ =>
      have hafter : (session.apply event).db = (session.db.abort txn).2 := hafter
      obtain ⟨_, _, hothers, _⟩ := Database.rollBack_putBack hplaced txn
      rw [hafter]
      exact ⟨Database.settled_abort hplaced hintact txn page, hothers.covers page hcovers⟩
  | catalog _ _ _ hchanges _ _ => simp [hcatalog] at hchanges

/-- Every run over an unchanging catalog that drops no page keeps track and attributes what it
leaves unwritten. -/
theorem Run.attributed {db : Database} (hopened : db.Opened) (hapart : db.catalog.FilesApart)
    (hrun : Run { db } history session)
    (hevents : ∀ moment ∈ history, moment.event.keepsCatalog = true ∧
      moment.event.keepsPages = true) :
    session.Orderly ∧ session.db.Placed (db.catalog.layout hapart) ∧
      session.Tracked (db.catalog.layout hapart) db.catalog history ∧
      session.Attributed (db.catalog.layout hapart) history := by
  obtain ⟨hsound, hframes, hjournal, _⟩ := hopened.sound
  refine Run.preserves
    (fun moment => moment.event.keepsCatalog = true ∧ moment.event.keepsPages = true)
    (fun history session => session.Tracked (db.catalog.layout hapart) db.catalog history ∧
      session.Attributed (db.catalog.layout hapart) history)
    hopened (fun table heap => Catalog.locates_layout hapart hsound) hrun hevents
    (fun moment h hchanges => by simp [h.1] at hchanges) ⟨?_, ?_⟩
    fun _ hplaced _ hallowed heffect h =>
      ⟨h.1.apply hplaced heffect hallowed.1,
        h.2.apply hplaced h.1.intact heffect hallowed.1 hallowed.2⟩
  · exact (Run.tracked hopened hapart .start (by simp)).2.2
  · exact ⟨by simp [hframes], by simp [hjournal],
      by simp [lastChange]⟩

/-- What a page is settled to hold stays until a transaction commits that has changed the page. -/
theorem Run.settled {db : Database} {last : Session} {further : List Moment} {page : PageId}
    (hopened : db.Opened) (hapart : db.catalog.FilesApart) (hrun : Run { db } history session)
    (hlater : Run { db } (history ++ further) last)
    (hevents : ∀ moment ∈ history ++ further, moment.event.keepsCatalog = true ∧
      moment.event.keepsPages = true)
    (hquiet : ∀ moment ∈ further, ∀ writer, moment.event = .complete writer true →
      ¬ Changed (history ++ further) writer page)
    (hcovers : (db.catalog.layout hapart).Covers session.db.storage page) :
    (db.catalog.layout hapart).settled last.db page =
        (db.catalog.layout hapart).settled session.db page ∧
      (db.catalog.layout hapart).Covers last.db.storage page := by
  induction further using List.reverseRecOn generalizing last with
  | nil =>
      rw [List.append_nil] at hlater
      rw [hrun.unique hlater] at hcovers ⊢
      exact ⟨rfl, hcovers⟩
  | append_singleton further moment ih =>
      rw [← List.append_assoc] at hlater hevents hquiet
      obtain ⟨hbefore, _, rfl⟩ := hlater.of_append
      have hearlier : ∀ moment ∈ history ++ further, moment.event.keepsCatalog = true ∧
          moment.event.keepsPages = true :=
        fun moment h => hevents moment (List.mem_append_left _ h)
      obtain ⟨hsettled, hcovers⟩ := ih hbefore hearlier fun other hother writer hcommit hchanged =>
        hquiet other (List.mem_append_left _ hother) writer hcommit (hchanged.append moment)
      obtain ⟨horderly, hplaced, htracked, hattributed⟩ :=
        hbefore.attributed hopened hapart hearlier
      have hmoment := hevents moment (List.mem_append_right _ (List.mem_singleton.mpr rfl))
      obtain ⟨heffect, _⟩ := effect horderly hplaced hlater.of_append.2.1
        fun hchanges => absurd hchanges (by simp [hmoment.1])
      obtain ⟨hsettled', hcovers'⟩ := hattributed.settled hplaced htracked.intact heffect hmoment.1
        hmoment.2 (fun writer hcommit hchanged => hquiet moment
          (List.mem_append_right _ (List.mem_singleton.mpr rfl)) writer hcommit
          (hchanged.append moment)) hcovers
      exact ⟨hsettled'.trans hsettled, hcovers'⟩

/-- Commits are durable. In every run over an unchanging catalog whose tables keep their pages in
files of their own, and in which no page is dropped from the cache unwritten, a transaction that may
end now can commit: this succeeds, every page that it changed has on disk what its last change left
there, and has this again whenever nobody holds the page exclusively, as long as no transaction has
committed since that changed the page. -/
theorem commit_durable {db : Database} {txn : TxnId} (hopened : db.Opened)
    (hapart : db.catalog.FilesApart) (hrun : Run { db } history session)
    (hevents : ∀ moment ∈ history, moment.event.keepsCatalog = true ∧
      moment.event.keepsPages = true)
    (hadmits : session.Admits history (.complete txn true)) :
    (session.perform (.complete txn true)).1 = .finished (.ok ()) ∧
      ∀ page change, lastChange history txn page = some change →
        (session.apply (.complete txn true)).db.onDisk page = change.after.db.content page ∧
        ∀ further last, Run { db } (history ++ ⟨session, .complete txn true⟩ :: further) last →
          (∀ moment ∈ further, moment.event.keepsCatalog = true ∧
            moment.event.keepsPages = true) →
          (∀ moment ∈ further, ∀ writer, moment.event = .complete writer true →
            ¬ Changed (history ++ ⟨session, .complete txn true⟩ :: further) writer page) →
          (last.db.locks.lockOf page).exclusive = none →
          last.db.onDisk page = change.after.db.content page := by
  obtain ⟨_, hplaced, htracked, hattributed⟩ := hrun.attributed hopened hapart hevents
  have hsound := hopened.sound.1
  have hintact := htracked.intact
  obtain ⟨hok, _⟩ := hintact.commit hplaced txn
  refine ⟨congrArg Reply.finished hok, ?_⟩
  intro page change hlast
  obtain ⟨himage, hcontent⟩ := hattributed.left txn page change hadmits.2 hlast
  obtain ⟨image, hnoted⟩ := Option.isSome_iff_exists.mp himage
  have hholder := hplaced.owner txn page image hnoted
  have hchange : change ∈ history := by
    have hmem := List.mem_of_find?_eq_some hlast
    rwa [List.mem_reverse] at hmem
  have hchanged : (db.catalog.layout hapart).contentOf change.after.db page =
      change.after.db.content page :=
    Catalog.contentOf_layout hapart hsound
      (hrun.catalog_after hopened hapart (fun moment h => (hevents moment h).1) hchange) page
  have hcommit : Run { db } (history ++ [⟨session, .complete txn true⟩])
      (session.apply (.complete txn true)) := .step hrun hadmits
  have hcommitted : ∀ moment ∈ history ++ [Moment.mk session (.complete txn true)],
      moment.event.keepsCatalog = true ∧ moment.event.keepsPages = true := by
    intro moment hmoment
    rcases List.mem_append.mp hmoment with hmoment | hmoment
    · exact hevents moment hmoment
    · rw [List.mem_singleton.mp hmoment]
      exact ⟨rfl, rfl⟩
  obtain ⟨_, _, htracked', _⟩ := hcommit.attributed hopened hapart hcommitted
  have hdisk : (db.catalog.layout hapart).bytes
      (session.apply (.complete txn true)).db.storage page = change.after.db.content page := by
    rw [← hchanged, ← hcontent]
    exact Database.bytes_commit hplaced hintact hholder
  refine ⟨?_, ?_⟩
  · rw [← hdisk, Catalog.bytes_layout hapart hsound htracked'.catalog]
  · intro further last hlater hkeeps hquiet hfree
    rw [← List.singleton_append, ← List.append_assoc] at hlater hquiet
    have hall : ∀ moment ∈ history ++ [Moment.mk session (.complete txn true)] ++ further,
        moment.event.keepsCatalog = true ∧ moment.event.keepsPages = true := by
      intro moment hmoment
      rcases List.mem_append.mp hmoment with hmoment | hmoment
      · exact hcommitted moment hmoment
      · exact hkeeps moment hmoment
    obtain ⟨_, _, htracked'', _⟩ := hlater.attributed hopened hapart hall
    have hcovers := hplaced.covers_flushEach
      (session.db.cache.pagesWhere fun frame => frame.dirtiedBy = some txn)
      (hplaced.image txn page image hnoted).2
    -- Nobody holds the page right after the commit, nor at the end, so in both states it is
    -- settled to hold what is on disk.
    obtain ⟨hsettled, _⟩ := hcommit.settled hopened hapart hlater hall hquiet hcovers
    have hreleased : ((session.apply (.complete txn true)).db.locks.lockOf page).exclusive =
        none :=
      (Database.exclusive_commit hplaced txn page).trans (if_pos hholder)
    rw [Layout.settled_of_free hfree, Layout.settled_of_free hreleased, hdisk,
      Catalog.bytes_layout hapart hsound htracked''.catalog] at hsettled
    exact hsettled

/-- A row is committed, another transaction stores a second one on the same page, which is written
early, and aborts: the page has what was committed. -/
theorem commit_durable_stolen_page :
    ∃ history session change further last,
      Run { db := sampleTables "a.dat" "b.dat" }
        (history ++ ⟨session, .complete ⟨1⟩ true⟩ :: further) last ∧
      lastChange history ⟨1⟩ ⟨⟨1⟩, 0⟩ = some change ∧
      last.db.onDisk ⟨⟨1⟩, 0⟩ = change.after.db.content ⟨⟨1⟩, 0⟩ := by
  have hreplay : ((replay { db := sampleTables "a.dat" "b.dat" } []
      [.call ⟨1⟩ (.insert ⟨1⟩ (sampleRow 7))]).any fun (history, session) =>
        decide (session.Admits history (.complete ⟨1⟩ true)) &&
        (lastChange history ⟨1⟩ ⟨⟨1⟩, 0⟩).isSome &&
        ((session.apply (.complete ⟨1⟩ true)).replay (history ++ [⟨session, .complete ⟨1⟩ true⟩])
          [.call ⟨2⟩ (.insert ⟨1⟩ (sampleRow 9)), .flushAll, .complete ⟨2⟩ false]).any
            fun (_, last) => (last.db.locks.lockOf ⟨⟨1⟩, 0⟩).exclusive.isNone) = true := by
    decide +kernel
  obtain ⟨⟨history, session⟩, hreplay, hchecks⟩ := (Option.any_eq_true _ _).mp hreplay
  simp only [Bool.and_eq_true, decide_eq_true_eq, Option.any_eq_true, Prod.exists,
    Option.isNone_iff_eq_none] at hchecks
  obtain ⟨⟨hadmits, hchange⟩, full, last, hlater, hfree⟩ := hchecks
  obtain ⟨change, hchange⟩ := Option.isSome_iff_exists.mp hchange
  have hrun := Run.of_replay .start hreplay
  have hfull := Run.of_replay (.step hrun hadmits) hlater
  obtain ⟨_, rfl, hevents⟩ := replay_eq_append hreplay
  obtain ⟨further, rfl, hfurther⟩ := replay_eq_append hlater
  simp only [List.append_assoc, List.singleton_append] at *
  obtain ⟨_, hdurable⟩ := commit_durable (sampleTables_opened "a.dat" "b.dat")
    (by decide +kernel) hrun (fun moment hmoment => by
      have hevent := List.mem_map_of_mem (f := Moment.event) hmoment
      rw [hevents, List.mem_singleton] at hevent
      rw [hevent]
      exact ⟨rfl, rfl⟩) hadmits
  refine ⟨_, session, change, further, last, hfull, hchange, ?_⟩
  have hkinds : ∀ moment ∈ further, (moment.event.keepsCatalog = true ∧
      moment.event.keepsPages = true) ∧ ∀ writer, moment.event ≠ .complete writer true := by
    intro moment hmoment
    have hevent := List.mem_map_of_mem (f := Moment.event) hmoment
    rw [hfurther] at hevent
    simp only [List.mem_cons, List.not_mem_nil, or_false] at hevent
    rcases hevent with hevent | hevent | hevent <;> rw [hevent] <;>
      exact ⟨⟨rfl, rfl⟩, fun _ => by simp⟩
  exact (hdurable ⟨⟨1⟩, 0⟩ change hchange).2 further last hfull
    (fun moment h => (hkinds moment h).1)
    (fun moment h writer hcommit => absurd hcommit ((hkinds moment h).2 writer)) hfree

/-- Tables that share a file have two names for each page, and a frame for each name: a page that
was committed under one name is lost when a transaction commits that has changed it, out of date,
under the other. -/
theorem commit_of_shared_file :
    ¬ ∀ {db : Database} {history further : List Moment} {session last : Session} {txn : TxnId}
      {page : PageId} {change : Moment}, db.Opened → Run { db } history session →
      session.Admits history (.complete txn true) →
      lastChange history txn page = some change →
      Run { db } (history ++ ⟨session, .complete txn true⟩ :: further) last →
      (∀ moment ∈ history ++ ⟨session, .complete txn true⟩ :: further,
        moment.event.keepsCatalog = true ∧ moment.event.keepsPages = true) →
      (∀ moment ∈ further, ∀ writer, moment.event = .complete writer true →
        ¬ Changed (history ++ ⟨session, .complete txn true⟩ :: further) writer page) →
      (last.db.locks.lockOf page).exclusive = none →
      last.db.onDisk page = change.after.db.content page := by
  intro hclaim
  have hreplay : ((replay { db := sampleTables "x.dat" "x.dat" } []
      [.call ⟨1⟩ (.insert ⟨1⟩ (sampleRow 7)), .complete ⟨1⟩ true,
        .call ⟨2⟩ (.getPage ⟨⟨2⟩, 0⟩ .shared), .complete ⟨2⟩ true,
        .call ⟨3⟩ (.insert ⟨1⟩ (sampleRow 9))]).any fun (history, session) =>
        decide (session.Admits history (.complete ⟨3⟩ true)) &&
        (lastChange history ⟨3⟩ ⟨⟨1⟩, 0⟩).any fun change =>
          ((session.apply (.complete ⟨3⟩ true)).replay
            (history ++ [⟨session, .complete ⟨3⟩ true⟩])
            [.call ⟨4⟩ (.insert ⟨2⟩ (sampleRow 5)), .complete ⟨4⟩ true]).any fun (full, last) =>
              (last.db.locks.lockOf ⟨⟨1⟩, 0⟩).exclusive.isNone &&
              !decide (Changed full ⟨4⟩ ⟨⟨1⟩, 0⟩) &&
              last.db.onDisk ⟨⟨1⟩, 0⟩ ≠ change.after.db.content ⟨⟨1⟩, 0⟩) = true := by
    decide +kernel
  obtain ⟨⟨history, session⟩, hreplay, hchecks⟩ := (Option.any_eq_true _ _).mp hreplay
  simp only [Bool.and_eq_true, decide_eq_true_eq, Option.any_eq_true, Prod.exists,
    Option.isNone_iff_eq_none, Bool.not_eq_true', decide_eq_false_iff_not] at hchecks
  obtain ⟨hadmits, change, hchange, full, last, hlater, ⟨hfree, hother⟩, hdiffers⟩ := hchecks
  have hrun := Run.of_replay .start hreplay
  have hfull := Run.of_replay (.step hrun hadmits) hlater
  obtain ⟨_, rfl, hevents⟩ := replay_eq_append hreplay
  obtain ⟨further, rfl, hfurther⟩ := replay_eq_append hlater
  simp only [List.append_assoc, List.singleton_append] at *
  refine hdiffers (hclaim (sampleTables_opened "x.dat" "x.dat") hrun hadmits hchange hfull
    ?_ ?_ hfree)
  · intro moment hmoment
    have hevent := List.mem_map_of_mem (f := Moment.event) hmoment
    rw [List.map_append, List.map_cons, hevents, hfurther] at hevent
    simp only [List.mem_append, List.mem_cons, List.not_mem_nil, or_false] at hevent
    rcases hevent with (hevent | hevent | hevent | hevent | hevent) | hevent | hevent | hevent <;>
      rw [hevent] <;> exact ⟨rfl, rfl⟩
  · intro moment hmoment writer hcommit
    have hevent := List.mem_map_of_mem (f := Moment.event) hmoment
    rw [hfurther, hcommit] at hevent
    simp only [List.mem_cons, reduceCtorEq, Event.complete.injEq, and_true, List.not_mem_nil,
      or_false, false_or] at hevent
    rw [hevent]
    exact hother

end Session

end RowStore
