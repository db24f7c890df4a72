import Mathlib.Algebra.Order.Floor.Div
import RowStore.Proofs.Disk.Padded

/-!
# A page file is an array of pages

`Opening.perform` makes a call on an opened page file: it reads, writes, or adds a page, or opens
the file once more. The main statement, `Opening.page_array`, says what every call does after any
calls on a file with any bytes. `Opening.IsArray` lists it: a page is read if the file holds it in
full, and it is what was last written or added under its number or else what the file held there
at first, filled up with zeros.
-/

namespace RowStore

namespace Storage

variable {storage : Storage} {file : PageFile}

/-- A page that begins behind the end of the file is empty. -/
theorem pageAt_of_length_le {number : Nat}
    (h : (storage.bytes file).length ≤ number * file.pageSize) :
    storage.pageAt file number = Bytes.zeros file.pageSize := by
  rw [pageAt, Bytes.slice, List.drop_eq_nil_of_le h]
  simp [Bytes.resize]

end Storage

/-- A page file, and the storage that it is opened in. -/
structure Opening where
  file : PageFile
  storage : Storage

namespace Opening

/-- The bytes of the file. -/
def bytes (opening : Opening) : Bytes :=
  opening.storage.bytes opening.file

/-- The page with this number, with zeros for what the file lacks of it. -/
def pageAt (opening : Opening) (number : Nat) : Bytes :=
  opening.storage.pageAt opening.file number

/-- A call on a page file. -/
inductive Call where
  | read (number : Nat)
  | write (number : Nat) (page : Bytes)
  | append
  | reopen
deriving DecidableEq

/-- What a call answers that succeeds. -/
inductive Reply where
  | page (bytes : Bytes)
  | done
  | added (number : Nat)
deriving DecidableEq

/-- A call and its answer. -/
abbrev Event := Call × Except Error Reply

/-- Make a call. The file is opened again at the path, for pages of the same size. -/
def perform (path : String) (opening : Opening) : Call → Opening × Except Error Reply
  | .read number =>
      let (outcome, storage) := opening.storage.readPage opening.file number
      (⟨opening.file, storage⟩, outcome.map .page)
  | .write number page =>
      let (outcome, storage) := opening.storage.writePage opening.file number page
      (⟨opening.file, storage⟩, outcome.map fun _ => .done)
  | .append =>
      let (number, storage) := opening.storage.appendPage opening.file
      (⟨opening.file, storage⟩, .ok (.added number))
  | .reopen =>
      match opening.storage.openFile path opening.file.pageSize with
      | .error error => (opening, .error error)
      | .ok (file, storage) => (⟨file, storage⟩, .ok .done)

/-- Make one call after the other, and note each with its answer. -/
def run (path : String) (opening : Opening) : List Call → Opening × List Event
  | [] => (opening, [])
  | call :: calls =>
      let (after, answer) := opening.perform path call
      let (last, events) := after.run path calls
      (last, (call, answer) :: events)

/-- The page that an event put under the number. -/
def Event.put? (pageSize number : Nat) : Event → Option Bytes
  | (.write written page, .ok _) => if written = number then some page else none
  | (.append, .ok (.added last)) => if last = number then some (Bytes.zeros pageSize) else none
  | _ => none

/-- The page that was last put under the number. -/
def latest? (pageSize : Nat) (events : List Event) (number : Nat) : Option Bytes :=
  (events.filterMap (Event.put? pageSize number)).getLast?

/-- The page under the number in a byte string, filled up with zeros. -/
def pageIn (bytes : Bytes) (pageSize number : Nat) : Bytes :=
  Bytes.resize (Bytes.slice bytes (number * pageSize) pageSize) pageSize

/-- What every call does to an opened file that held `initial` at first, when the events have
happened since. -/
structure IsArray (path : String) (pageSize : Nat) (initial : Bytes) (events : List Event)
    (opening : Opening) : Prop where
  /-- A page that the file holds in full is read, and it is the latest one. -/
  read : ∀ (number : Nat) (page : Bytes),
    (opening.perform path (.read number)).2 = .ok (.page page) ↔
      (number + 1) * pageSize ≤ opening.bytes.length ∧
        page = (latest? pageSize events number).getD (pageIn initial pageSize number)
  /-- What lies behind the initial bytes was written or added. -/
  known : ∀ number : Nat, initial.length ≤ number * pageSize →
    number * pageSize < opening.bytes.length → (latest? pageSize events number).isSome = true
  /-- A whole page is written if it begins in the file or at its end. -/
  write : ∀ (number : Nat) (page : Bytes),
    (opening.perform path (.write number page)).2 = .ok .done ↔
      page.length = pageSize ∧ number * pageSize ≤ opening.bytes.length
  /-- A write changes its page and nothing else. -/
  written : ∀ (number : Nat) (page : Bytes) (after : Opening),
    opening.perform path (.write number page) = (after, .ok .done) →
      Bytes.slice after.bytes (number * pageSize) pageSize = page ∧
        ∀ i, i / pageSize ≠ number → after.bytes[i]? = opening.bytes[i]?
  /-- A page is added behind all others. It is empty, and no byte of the file changes. -/
  append : ∃ after : Opening,
    opening.perform path .append = (after, .ok (.added (opening.bytes.length ⌈/⌉ pageSize))) ∧
      after.bytes.length = (opening.bytes.length ⌈/⌉ pageSize + 1) * pageSize ∧
      Bytes.slice after.bytes (opening.bytes.length ⌈/⌉ pageSize * pageSize) pageSize =
        Bytes.zeros pageSize ∧
      ∀ i, i < opening.bytes.length → after.bytes[i]? = opening.bytes[i]?
  /-- The file is opened again with all its bytes. -/
  reopen : ∃ after : Opening,
    opening.perform path .reopen = (after, .ok .done) ∧ after.bytes = opening.bytes
  /-- The file never gets shorter. -/
  grows : ∀ call, opening.bytes.length ≤ (opening.perform path call).1.bytes.length
  /-- A file of whole pages stays one. -/
  whole : ∀ call, pageSize ∣ opening.bytes.length →
    pageSize ∣ (opening.perform path call).1.bytes.length
  /-- A call that fails changes neither a file nor the traffic. -/
  failed : ∀ (call : Call) (after : Opening) (error : Error),
    opening.perform path call = (after, .error error) → after = opening

section Latest

variable {pageSize : Nat}

/-- The first of several events counts only if none of the others put a page under the number. -/
theorem latest?_cons (event : Event) (events : List Event) (number : Nat) :
    latest? pageSize (event :: events) number =
      (latest? pageSize events number).or (event.put? pageSize number) := by
  unfold latest?
  rw [List.filterMap_cons]
  cases event.put? pageSize number with
  | none => simp
  | some page =>
      rw [List.getLast?_cons]
      cases (events.filterMap (Event.put? pageSize number)).getLast? <;> rfl

end Latest

/-- How an opened file comes about from another one by events. -/
structure Leads (pageSize : Nat) (before : Opening) (events : List Event) (after : Opening) :
    Prop where
  name_eq : after.file.name = before.file.name
  size_eq : after.file.pageSize = before.file.pageSize
  pages : ∀ number,
    after.pageAt number = (latest? pageSize events number).getD (before.pageAt number)
  grows : before.bytes.length ≤ after.bytes.length
  known : ∀ number, before.bytes.length ≤ number * pageSize →
    number * pageSize < after.bytes.length → (latest? pageSize events number).isSome = true

namespace Leads

variable {pageSize : Nat} {before middle after : Opening} {event : Event} {events : List Event}

theorem refl (opening : Opening) : Leads pageSize opening [] opening where
  name_eq := rfl
  size_eq := rfl
  pages := fun _ => rfl
  grows := Nat.le_refl _
  known := fun _ hle hlt => absurd hlt (Nat.not_lt.mpr hle)

/-- Events lead on from where the first one led. -/
theorem cons (hfirst : Leads pageSize before [event] middle)
    (hrest : Leads pageSize middle events after) : Leads pageSize before (event :: events) after where
  name_eq := hrest.name_eq.trans hfirst.name_eq
  size_eq := hrest.size_eq.trans hfirst.size_eq
  pages := by
    intro number
    rw [hrest.pages, hfirst.pages, latest?_cons, latest?_cons]
    cases latest? pageSize events number <;> rfl
  grows := Nat.le_trans hfirst.grows hrest.grows
  known := by
    intro number hle hlt
    rw [latest?_cons, Option.isSome_or]
    by_cases hmiddle : number * pageSize < middle.bytes.length
    · have hknown := hfirst.known number hle hmiddle
      rw [latest?_cons, Option.isSome_or] at hknown
      simpa [latest?] using .inr hknown
    · rw [hrest.known number (Nat.not_lt.mp hmiddle) hlt, Bool.true_or]

/-- An event that puts no page anywhere leads to a file with the same bytes. -/
theorem of_bytes_eq (hname : after.file.name = before.file.name)
    (hsize : after.file.pageSize = before.file.pageSize) (hbytes : after.bytes = before.bytes)
    (hput : ∀ number, event.put? pageSize number = none) :
    Leads pageSize before [event] after where
  name_eq := hname
  size_eq := hsize
  pages := by
    intro number
    have hlatest : latest? pageSize [event] number = none := by simp [latest?, hput]
    rw [hlatest, Option.getD_none]
    unfold bytes at hbytes
    unfold pageAt Storage.pageAt
    rw [hbytes, hsize]
  grows := Nat.le_of_eq (congrArg List.length hbytes.symm)
  known := fun _ hle hlt => absurd hlt (by rw [hbytes]; exact Nat.not_lt.mpr hle)

end Leads

section Perform

variable {path : String} {pageSize : Nat} {opening after : Opening}

/-- A page that is read is the one that the file holds. -/
theorem perform_read (path : String) (opening : Opening) (number : Nat) :
    (∃ error, opening.perform path (.read number) = (opening, .error error) ∧
        opening.bytes.length < (number + 1) * opening.file.pageSize) ∨
      ∃ after : Opening,
        opening.perform path (.read number) = (after, .ok (.page (opening.pageAt number))) ∧
          (number + 1) * opening.file.pageSize ≤ opening.bytes.length ∧
          after.file = opening.file ∧ after.bytes = opening.bytes := by
  simp only [perform, Storage.readPage, Nat.succ_mul, bytes]
  split
  · rename_i hshort
    exact .inl ⟨_, rfl, hshort⟩
  · rename_i hlong
    rw [pageAt, Storage.pageAt_of_le (Nat.not_lt.mp hlong)]
    exact .inr ⟨_, rfl, Nat.not_lt.mp hlong, rfl, rfl⟩

/-- A page that is written goes to its place. -/
theorem perform_write (path : String) (opening : Opening) (number : Nat) (page : Bytes) :
    (∃ error, opening.perform path (.write number page) = (opening, .error error) ∧
        ¬ (page.length = opening.file.pageSize ∧
          number * opening.file.pageSize ≤ opening.bytes.length)) ∨
      ∃ after : Opening,
        opening.perform path (.write number page) = (after, .ok .done) ∧
          page.length = opening.file.pageSize ∧
          number * opening.file.pageSize ≤ opening.bytes.length ∧ after.file = opening.file ∧
          opening.storage.writePage opening.file number page = (.ok (), after.storage) ∧
          after.bytes =
            Bytes.overwrite opening.bytes (number * opening.file.pageSize) page := by
  by_cases hpage : page.length = opening.file.pageSize
  · by_cases hplace : number * opening.file.pageSize ≤ opening.bytes.length
    · have hwrite : opening.storage.writePage opening.file number page =
          (.ok (), opening.storage.putBytes opening.file
            (Bytes.overwrite opening.bytes (number * opening.file.pageSize) page)) := by
        unfold bytes at hplace ⊢
        simp only [Storage.writePage, hpage, ne_eq, not_true_eq_false, if_false,
          if_neg (Nat.not_lt.mpr hplace)]
      exact .inr ⟨⟨opening.file, opening.storage.putBytes opening.file _⟩,
        by simp only [perform, hwrite]; rfl, hpage, hplace, rfl, hwrite,
        Storage.bytes_putBytes ..⟩
    · have hwrite : opening.storage.writePage opening.file number page =
          (.error (.pageOutOfBounds number (opening.storage.pageCount opening.file)),
            opening.storage) := by
        unfold bytes at hplace
        simp only [Storage.writePage, hpage, ne_eq, not_true_eq_false, if_false,
          if_pos (Nat.not_le.mp hplace), Storage.pageCount]
      exact .inl ⟨_, by simp only [perform, hwrite]; rfl, fun h => hplace h.2⟩
  · have hwrite : opening.storage.writePage opening.file number page =
        (.error (.pageSizeMismatch opening.file.pageSize page.length), opening.storage) := by
      simp only [Storage.writePage, ne_eq, hpage, not_false_eq_true, if_true]
    exact .inl ⟨_, by simp only [perform, hwrite]; rfl, fun h => hpage h.1⟩

/-- An added page comes after all others. -/
theorem perform_append (path : String) (opening : Opening) :
    ∃ after : Opening,
      opening.perform path .append =
          (after, .ok (.added (opening.bytes.length ⌈/⌉ opening.file.pageSize))) ∧
        after.file = opening.file ∧
        after.storage = (opening.storage.appendPage opening.file).2 ∧
        after.bytes = Bytes.resize opening.bytes
          ((opening.bytes.length ⌈/⌉ opening.file.pageSize + 1) * opening.file.pageSize) := by
  refine ⟨_, rfl, rfl, rfl, ?_⟩
  rw [Nat.succ_mul, Nat.ceilDiv_eq_add_pred_div]
  exact Storage.bytes_putBytes ..

/-- A file that is opened again has its name and its bytes. -/
theorem perform_reopen (hsize : opening.file.pageSize ≠ 0)
    (hname : Directory.entryName? path = some opening.file.name) :
    ∃ after : Opening,
      opening.perform path .reopen = (after, .ok .done) ∧ after.file.name = opening.file.name ∧
        after.file.pageSize = opening.file.pageSize ∧ after.bytes = opening.bytes := by
  obtain ⟨file, storage, hopen, hfile⟩ := opening.storage.openFile_of_entryName hsize hname
  obtain ⟨_, _, hpageSize, hcontent⟩ := Storage.openFile_eq_ok hopen
  refine ⟨⟨file, storage⟩, by simp only [perform, hopen], hfile, hpageSize, ?_⟩
  show storage.directory.content file.name = opening.storage.directory.content opening.file.name
  rw [hcontent, hfile]

/-- What a call leads to. -/
theorem leads_perform (hsize : opening.file.pageSize ≠ 0)
    (hname : Directory.entryName? path = some opening.file.name) (call : Call) :
    Leads opening.file.pageSize opening [(call, (opening.perform path call).2)]
      (opening.perform path call).1 := by
  cases call with
  | read number =>
      rcases perform_read path opening number with ⟨error, hread, _⟩ | ⟨after, hread, _, hfile, hbytes⟩
      · rw [hread]
        exact .of_bytes_eq rfl rfl rfl fun _ => rfl
      · rw [hread]
        exact .of_bytes_eq (by rw [hfile]) (by rw [hfile]) hbytes fun _ => rfl
  | reopen =>
      obtain ⟨after, hreopen, hfile, hpages, hbytes⟩ := perform_reopen hsize hname
      rw [hreopen]
      exact .of_bytes_eq hfile hpages hbytes fun _ => rfl
  | write number page =>
      rcases perform_write path opening number page with
        ⟨error, hwrite, _⟩ | ⟨after, hwrite, hpage, hplace, hfile, hstored, hbytes⟩
      · rw [hwrite]
        exact .of_bytes_eq rfl rfl rfl fun _ => rfl
      · rw [hwrite]
        have hlatest : ∀ other, latest? opening.file.pageSize
            [(.write number page, .ok .done)] other = if number = other then some page else none := by
          intro other
          by_cases hsame : number = other <;> simp [latest?, Event.put?, hsame]
        exact
          { name_eq := by rw [hfile]
            size_eq := by rw [hfile]
            pages := by
              intro other
              rw [hlatest, pageAt, hfile, Storage.pageAt_writePage hstored]
              by_cases hsame : number = other
              · simp [hsame]
              · simp [hsame, Ne.symm hsame, pageAt]
            grows := by
              rw [hbytes, Bytes.length_overwrite_eq_max hplace]
              exact Nat.le_max_left ..
            known := by
              intro other hle (hlt : other * opening.file.pageSize < after.bytes.length)
              rw [hbytes, Bytes.length_overwrite_eq_max hplace, hpage, ← Nat.add_one_mul] at hlt
              -- The page begins behind the old end, and before the end of the written page.
              have hlast : other < number + 1 :=
                Nat.lt_of_mul_lt_mul_right (a := opening.file.pageSize) (by omega)
              have hfirst : number ≤ other :=
                Nat.le_of_mul_le_mul_right (Nat.le_trans hplace hle) (Nat.pos_of_ne_zero hsize)
              rw [hlatest, if_pos (by omega)]
              rfl }
  | append =>
      obtain ⟨after, happend, hfile, hstorage, hbytes⟩ := perform_append path opening
      rw [happend]
      have hlatest : ∀ other, latest? opening.file.pageSize
          [(.append, .ok (.added (opening.bytes.length ⌈/⌉ opening.file.pageSize)))] other =
            if opening.bytes.length ⌈/⌉ opening.file.pageSize = other then
              some (Bytes.zeros opening.file.pageSize) else none := by
        intro other
        by_cases hsame : opening.bytes.length ⌈/⌉ opening.file.pageSize = other <;>
          simp [latest?, Event.put?, hsame]
      have hend : opening.bytes.length ≤
          opening.bytes.length ⌈/⌉ opening.file.pageSize * opening.file.pageSize :=
        Storage.le_pagesFor_mul opening.file _ hsize
      exact
        { name_eq := by rw [hfile]
          size_eq := by rw [hfile]
          pages := by
            intro other
            rw [hlatest, pageAt, hfile, hstorage, Storage.pageAt_appendPage hsize]
            split
            · rename_i hsame
              rw [Option.getD_some, ← hsame]
              exact Storage.pageAt_of_length_le hend
            · rfl
          grows := by
            rw [hbytes, Bytes.length_resize, Nat.succ_mul]
            omega
          known := by
            intro other hle (hlt : other * opening.file.pageSize < after.bytes.length)
            rw [hbytes, Bytes.length_resize] at hlt
            have hlast := Nat.lt_of_mul_lt_mul_right hlt
            have hfirst : opening.bytes.length ⌈/⌉ opening.file.pageSize ≤ other := by
              rw [ceilDiv_le_iff_le_mul (Nat.pos_of_ne_zero hsize), Nat.mul_comm]
              exact hle
            rw [hlatest, if_pos (by omega)]
            rfl }

/-- What calls lead to, one after the other. -/
theorem leads_run (hsize : opening.file.pageSize ≠ 0)
    (hname : Directory.entryName? path = some opening.file.name) (calls : List Call) :
    Leads opening.file.pageSize opening (opening.run path calls).2 (opening.run path calls).1 := by
  -- Opening the file again keeps its name and the size of pages, which the next call relies on.
  induction calls generalizing opening with
  | nil => exact .refl opening
  | cons call calls ih =>
      have hfirst := leads_perform hsize hname call
      have hrest := @ih (opening.perform path call).1 (by rwa [hfirst.size_eq])
        (by rwa [hfirst.name_eq])
      rw [hfirst.size_eq] at hrest
      exact hfirst.cons hrest

/-- A call that fails leaves the storage as it was. -/
theorem eq_of_perform_error (hsize : opening.file.pageSize ≠ 0)
    (hname : Directory.entryName? path = some opening.file.name) {call : Call} {error : Error}
    (h : opening.perform path call = (after, .error error)) : after = opening := by
  cases call with
  | read number =>
      rcases perform_read path opening number with ⟨_, hread, _⟩ | ⟨_, hread, _⟩ <;>
        simp [hread] at h
      exact h.1.symm
  | write number page =>
      rcases perform_write path opening number page with ⟨_, hwrite, _⟩ | ⟨_, hwrite, _⟩ <;>
        simp [hwrite] at h
      exact h.1.symm
  | append =>
      obtain ⟨_, happend, _⟩ := perform_append path opening
      simp [happend] at h
  | reopen =>
      obtain ⟨_, hreopen, _⟩ := perform_reopen hsize hname
      simp [hreopen] at h

/-- A file of whole pages stays one. -/
theorem dvd_perform (hsize : opening.file.pageSize ≠ 0)
    (hname : Directory.entryName? path = some opening.file.name) (call : Call)
    (hwhole : opening.file.pageSize ∣ opening.bytes.length) :
    opening.file.pageSize ∣ (opening.perform path call).1.bytes.length := by
  cases call with
  | read number =>
      rcases perform_read path opening number with ⟨_, hread, _⟩ | ⟨_, hread, _, _, hbytes⟩
      · rwa [hread]
      · rwa [hread, hbytes]
  | write number page =>
      rcases perform_write path opening number page with
        ⟨_, hwrite, _⟩ | ⟨_, hwrite, hpage, hplace, _, _, hbytes⟩
      · rwa [hwrite]
      · rw [hwrite, hbytes, Bytes.length_overwrite_eq_max hplace, hpage, ← Nat.add_one_mul]
        rcases Nat.le_total opening.bytes.length ((number + 1) * opening.file.pageSize) with hle | hle
        · rw [Nat.max_eq_right hle]
          exact Nat.dvd_mul_left ..
        · rwa [Nat.max_eq_left hle]
  | append =>
      obtain ⟨_, happend, _, _, hbytes⟩ := perform_append path opening
      rw [happend, hbytes, Bytes.length_resize]
      exact Nat.dvd_mul_left ..
  | reopen =>
      obtain ⟨_, hreopen, _, _, hbytes⟩ := perform_reopen hsize hname
      rwa [hreopen, hbytes]

/-- A write changes its page and nothing else. -/
theorem bytes_perform_write (hsize : opening.file.pageSize ≠ 0) {number : Nat} {page : Bytes}
    (h : opening.perform path (.write number page) = (after, .ok .done)) :
    Bytes.slice after.bytes (number * opening.file.pageSize) opening.file.pageSize = page ∧
      ∀ i, i / opening.file.pageSize ≠ number → after.bytes[i]? = opening.bytes[i]? := by
  rcases perform_write path opening number page with
    ⟨_, hwrite, _⟩ | ⟨found, hwrite, hpage, hplace, _, _, hbytes⟩
  · simp [hwrite] at h
  · obtain rfl : found = after := by simpa [hwrite] using h
    have hpos := Nat.pos_of_ne_zero hsize
    rw [hbytes]
    refine ⟨by rw [← hpage, Bytes.slice_overwrite_self (by rwa [hpage])], fun i hi => ?_⟩
    rcases Nat.lt_or_gt_of_ne hi with hbefore | hafter
    · exact Bytes.getElem?_overwrite_before hplace ((Nat.div_lt_iff_lt_mul hpos).mp hbefore)
    · have hplaced := (Nat.le_div_iff_mul_le hpos).mp hafter
      rw [Nat.succ_mul] at hplaced
      exact Bytes.getElem?_overwrite_after hplace (by rwa [hpage])

/-- An added page is empty, and no byte before it changes. -/
theorem bytes_perform_append (path : String) (hsize : opening.file.pageSize ≠ 0) :
    ∃ after : Opening,
      opening.perform path .append =
          (after, .ok (.added (opening.bytes.length ⌈/⌉ opening.file.pageSize))) ∧
        after.bytes.length =
          (opening.bytes.length ⌈/⌉ opening.file.pageSize + 1) * opening.file.pageSize ∧
        Bytes.slice after.bytes
            (opening.bytes.length ⌈/⌉ opening.file.pageSize * opening.file.pageSize)
            opening.file.pageSize = Bytes.zeros opening.file.pageSize ∧
        ∀ i, i < opening.bytes.length → after.bytes[i]? = opening.bytes[i]? := by
  obtain ⟨after, happend, hfile, hstorage, hbytes⟩ := perform_append path opening
  have hend : opening.bytes.length ≤
      opening.bytes.length ⌈/⌉ opening.file.pageSize * opening.file.pageSize :=
    Storage.le_pagesFor_mul opening.file _ hsize
  have hlength : after.bytes.length =
      (opening.bytes.length ⌈/⌉ opening.file.pageSize + 1) * opening.file.pageSize := by
    rw [hbytes, Bytes.length_resize]
  refine ⟨after, happend, hlength, ?_, fun i hi => ?_⟩
  · have hpage : after.pageAt (opening.bytes.length ⌈/⌉ opening.file.pageSize) =
        Bytes.zeros opening.file.pageSize := by
      rw [pageAt, hfile, hstorage, Storage.pageAt_appendPage hsize,
        Storage.pageAt_of_length_le hend]
    have hheld : opening.bytes.length ⌈/⌉ opening.file.pageSize * after.file.pageSize +
        after.file.pageSize ≤ (after.storage.bytes after.file).length := by
      rw [hfile, ← Nat.add_one_mul, ← hlength, bytes, hfile]
    rw [pageAt, Storage.pageAt_of_le hheld] at hpage
    rw [← hpage, hfile, bytes, hfile]
  · rw [hbytes, Bytes.getElem?_resize, if_pos (by rw [Nat.succ_mul]; omega),
      List.getElem?_eq_getElem hi, Option.getD_some]

/-- An opened file that events have led to is an array of pages. -/
theorem Leads.isArray {start : Opening} {events : List Event}
    (hleads : Leads start.file.pageSize start events opening) (hsize : start.file.pageSize ≠ 0)
    (hname : Directory.entryName? path = some start.file.name) :
    IsArray path start.file.pageSize start.bytes events opening := by
  rw [← hleads.size_eq] at hsize
  rw [← hleads.name_eq] at hname
  have hpages : ∀ number, opening.pageAt number =
      (latest? start.file.pageSize events number).getD
        (pageIn start.bytes start.file.pageSize number) := hleads.pages
  have hgrows : ∀ call, opening.bytes.length ≤ (opening.perform path call).1.bytes.length :=
    fun call => (leads_perform hsize hname call).grows
  have hknown := hleads.known
  rw [← hleads.size_eq] at hknown hpages ⊢
  exact
    { read := by
        intro number page
        rw [← hpages]
        rcases perform_read path opening number with
          ⟨error, hread, hshort⟩ | ⟨after, hread, hlong, _⟩
        · rw [hread]
          simp [Nat.not_le.mpr hshort]
        · rw [hread]
          simp [hlong, eq_comm]
      known := hknown
      write := by
        intro number page
        rcases perform_write path opening number page with
          ⟨error, hwrite, hrefused⟩ | ⟨after, hwrite, hpage, hplace, _⟩
        · rw [hwrite]
          simp [hrefused]
        · rw [hwrite]
          exact iff_of_true rfl ⟨hpage, hplace⟩
      written := fun number page after hwrite => bytes_perform_write hsize hwrite
      append := bytes_perform_append path hsize
      reopen := by
        obtain ⟨after, hreopen, _, _, hbytes⟩ := perform_reopen hsize hname
        exact ⟨after, hreopen, hbytes⟩
      grows := hgrows
      whole := fun call hwhole => dvd_perform hsize hname call hwhole
      failed := fun call after error hfailed => eq_of_perform_error hsize hname hfailed }

/-- A page file that is opened on any bytes is an array of pages, whatever calls are made on it. -/
theorem page_array {initial storage : Storage} {file : PageFile}
    (hopen : initial.openFile path pageSize = .ok (file, storage)) (calls : List Call) :
    IsArray path pageSize (initial.bytes file) (run path ⟨file, storage⟩ calls).2
      (run path ⟨file, storage⟩ calls).1 := by
  obtain ⟨hsize, hname, hpageSize, hcontent⟩ := Storage.openFile_eq_ok hopen
  subst hpageSize
  have hstart : (⟨file, storage⟩ : Opening).bytes = initial.bytes file := hcontent file.name
  have hleads : Leads file.pageSize ⟨file, storage⟩ (run path ⟨file, storage⟩ calls).2
      (run path ⟨file, storage⟩ calls).1 := @leads_run path ⟨file, storage⟩ hsize hname calls
  rw [← hstart]
  exact @Leads.isArray path _ ⟨file, storage⟩ _ hleads hsize hname

/-- A directory with one file, which has a page of four bytes and one byte of another page. -/
def partialStorage : Storage :=
  { directory := (∅ : Directory).insert "pages" [1, 2, 3, 4, 5] }

/-- The file opened. -/
def partialOpening : Opening :=
  ⟨⟨0, "pages", 4⟩, { partialStorage with
    directory := partialStorage.directory.touch "pages"
    opened := 1 }⟩

/-- A page is added, the first page is written, and the file is opened again. -/
def partialCalls : List Call :=
  [.append, .write 0 [9, 9, 9, 9], .reopen]

/-- The partial page is filled up when a page is added, and is read then. The pages that were
written and added are read as well, and there is no page after them. -/
theorem page_array_partial_page :
    partialStorage.openFile "pages" 4 = .ok (partialOpening.file, partialOpening.storage) ∧
      ∃ last, last = (partialOpening.run "pages" partialCalls).1 ∧ last.bytes.length = 12 ∧
        (last.perform "pages" (.read 0)).2 = .ok (.page [9, 9, 9, 9]) ∧
        (last.perform "pages" (.read 1)).2 = .ok (.page [5, 0, 0, 0]) ∧
        (last.perform "pages" (.read 2)).2 = .ok (.page [0, 0, 0, 0]) ∧
        (∀ page, (last.perform "pages" (.read 3)).2 ≠ .ok (.page page)) ∧
        (last.perform "pages" (.write 3 [7, 7, 7, 7])).2 = .ok .done := by
  have hopen : partialStorage.openFile "pages" 4 =
      .ok (partialOpening.file, partialOpening.storage) := by decide +kernel
  have hinitial : partialStorage.bytes partialOpening.file = [1, 2, 3, 4, 5] := by decide +kernel
  have hlength : (partialOpening.run "pages" partialCalls).1.bytes.length = 12 := by
    decide +kernel
  have hevents : (partialOpening.run "pages" partialCalls).2 =
      [(.append, .ok (.added 2)), (.write 0 [9, 9, 9, 9], .ok .done), (.reopen, .ok .done)] := by
    decide +kernel
  have harray : IsArray "pages" 4 (partialStorage.bytes partialOpening.file)
      (partialOpening.run "pages" partialCalls).2 (partialOpening.run "pages" partialCalls).1 :=
    page_array hopen partialCalls
  rw [hinitial, hevents] at harray
  refine ⟨hopen, _, rfl, hlength, (harray.read 0 _).mpr ⟨?_, by decide⟩,
    (harray.read 1 _).mpr ⟨?_, by decide⟩, (harray.read 2 _).mpr ⟨?_, by decide⟩, ?_,
    (harray.write 3 _).mpr ⟨rfl, ?_⟩⟩
  case refine_4 =>
    intro page hpage
    have hheld := ((harray.read 3 page).mp hpage).1
    omega
  all_goals omega

end Perform

end Opening

end RowStore
