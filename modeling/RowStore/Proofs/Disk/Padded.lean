import RowStore.Proofs.Disk.Layout

/-!
# Pages of a file that may end before them

`Storage.pageAt` is the page with a number, with zeros for what the file lacks of it. So every file
has all pages, adding one changes none of them, and writing one changes no other.
-/

namespace RowStore

namespace Bytes

/-- The bytes of a string that was cut or filled with zeros, one by one. -/
theorem getElem?_resize (bytes : Bytes) (length i : Nat) :
    (resize bytes length)[i]? = if i < length then some ((bytes[i]?).getD 0) else none := by
  by_cases hi : i < length
  · rw [if_pos hi, resize]
    by_cases hbytes : i < bytes.length
    · rw [List.getElem?_append_left (by simp; omega), List.getElem?_take_of_lt hi,
        List.getElem?_eq_getElem hbytes, Option.getD_some]
    · rw [List.getElem?_append_right (by simp; omega), zeros,
        List.getElem?_replicate_of_lt (by simp; omega),
        List.getElem?_eq_none (show bytes.length ≤ i by omega), Option.getD_none]
  · rw [if_neg hi, List.getElem?_eq_none (by simp; omega)]

/-- A string of the right length is neither cut nor filled. -/
theorem resize_of_length {bytes : Bytes} {length : Nat} (h : bytes.length = length) :
    resize bytes length = bytes := by
  rw [resize, List.take_of_length_le (Nat.le_of_eq h), h, Nat.sub_self, zeros,
    List.replicate_zero, List.append_nil]

end Bytes

namespace Storage

variable {storage after : Storage} {file : PageFile} {number : Nat} {page : Bytes}

/-- The page with this number, with zeros for what the file lacks of it. -/
def pageAt (storage : Storage) (file : PageFile) (number : Nat) : Bytes :=
  Bytes.resize (Bytes.slice (storage.bytes file) (number * file.pageSize) file.pageSize)
    file.pageSize

/-- The bytes of a page, one by one. -/
theorem getElem?_pageAt (storage : Storage) (file : PageFile) (number i : Nat) :
    (storage.pageAt file number)[i]? = if i < file.pageSize then
      some (((storage.bytes file)[number * file.pageSize + i]?).getD 0) else none := by
  rw [pageAt, Bytes.getElem?_resize]
  split
  · rename_i hi
    rw [Bytes.getElem?_slice, if_pos hi]
  · rfl

/-- A page that the file holds in full. -/
theorem pageAt_of_le (h : number * file.pageSize + file.pageSize ≤ (storage.bytes file).length) :
    storage.pageAt file number =
      Bytes.slice (storage.bytes file) (number * file.pageSize) file.pageSize :=
  Bytes.resize_of_length (Bytes.length_slice h)

/-- Files that are equally long and have the same pages are equal. -/
theorem bytes_eq_of_pageAt (hsize : file.pageSize ≠ 0)
    (hlength : (after.bytes file).length = (storage.bytes file).length)
    (hpages : ∀ number, after.pageAt file number = storage.pageAt file number) :
    after.bytes file = storage.bytes file := by
  apply List.ext_getElem?
  intro i
  by_cases hi : i < (storage.bytes file).length
  · have hpage := congrArg (fun page : Bytes => page[i % file.pageSize]?)
      (hpages (i / file.pageSize))
    simp only [getElem?_pageAt, if_pos (Nat.mod_lt i (Nat.pos_of_ne_zero hsize)),
      Nat.div_add_mod', Option.some.injEq] at hpage
    rw [List.getElem?_eq_getElem hi, List.getElem?_eq_getElem (hlength ▸ hi)] at hpage ⊢
    exact congrArg some hpage
  · rw [List.getElem?_eq_none (by omega), List.getElem?_eq_none (by omega)]

/-- Storages with the same bytes in a file have the same pages there. -/
theorem pageAt_congr (h : after.bytes file = storage.bytes file) (number : Nat) :
    after.pageAt file number = storage.pageAt file number := by
  rw [pageAt, h, pageAt]

/-- A file that is filled up with zeros has the pages that it had. -/
theorem pageAt_resize {length : Nat} (hlength : (storage.bytes file).length ≤ length)
    (hafter : after.bytes file = Bytes.resize (storage.bytes file) length) (number : Nat) :
    after.pageAt file number = storage.pageAt file number := by
  have hzero : ∀ j : Nat, ((after.bytes file)[j]?).getD 0 =
      ((storage.bytes file)[j]?).getD 0 := by
    intro j
    rw [hafter, Bytes.getElem?_resize]
    split
    · rfl
    · rw [List.getElem?_eq_none (show (storage.bytes file).length ≤ j by omega)]
  apply List.ext_getElem?
  intro i
  rw [getElem?_pageAt, getElem?_pageAt, hzero]

/-- Adding a page to a file changes the pages of none. -/
theorem pageAt_appendPage {grown : PageFile} (hsize : grown.pageSize ≠ 0) (number : Nat) :
    (storage.appendPage grown).2.pageAt file number = storage.pageAt file number := by
  have hgrows := le_pagesFor_mul grown (storage.bytes grown).length hsize
  by_cases hname : grown.name = file.name
  · have hsame : storage.bytes grown = storage.bytes file := by rw [bytes, hname, bytes]
    rw [hsame] at hgrows
    refine pageAt_resize (Nat.le_trans hgrows (Nat.le_add_right _ grown.pageSize)) ?_ number
    rw [bytes, appendPage, content_putBytes, if_pos hname, hsame]
  · refine pageAt_congr ?_ number
    rw [bytes, appendPage, content_putBytes, if_neg hname, bytes]

/-- A write changes its page and no other. -/
theorem pageAt_writePage (hwrite : storage.writePage file number page = (.ok (), after))
    (other : Nat) :
    after.pageAt file other = if other = number then page else storage.pageAt file other := by
  rcases writePage_cases storage file number page with ⟨error, herror⟩ | ⟨hpage, hoffset, hok⟩
  · simp [herror] at hwrite
  rw [hok] at hwrite
  obtain rfl : storage.putBytes file _ = after := congrArg Prod.snd hwrite
  rw [pageAt, bytes_putBytes]
  split
  · rename_i hsame
    subst hsame
    rw [← hpage, Bytes.slice_overwrite_self (by rwa [hpage]), Bytes.resize_of_length rfl]
  · rename_i hother
    rw [pageAt]
    congr 1
    rcases Bytes.place_disjoint hother with hbefore | hafter
    · exact Bytes.slice_overwrite_before hoffset hbefore
    · exact Bytes.slice_overwrite_after hoffset (by rwa [hpage])

/-- A write to a file of another name changes no page. -/
theorem pageAt_writePage_other {written : PageFile} (hname : written.name ≠ file.name)
    (page : Bytes) (number other : Nat) :
    (storage.writePage written number page).2.pageAt file other = storage.pageAt file other := by
  rcases writePage_cases storage written number page with ⟨error, hwrite⟩ | ⟨_, _, hwrite⟩
  · rw [hwrite]
  · rw [hwrite]
    refine pageAt_congr ?_ other
    rw [bytes, content_putBytes, if_neg hname, bytes]

end Storage

end RowStore
