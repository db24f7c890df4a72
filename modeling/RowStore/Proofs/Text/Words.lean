import Mathlib.Data.List.TakeWhile
import RowStore.Proofs.Text.Lines

/-!
# Pieces and words of a text

`CutInto` is the grammar of a text that is cut into pieces at the characters of a class, and
`Spaced` that of a text that consists of words with blanks around them. The main statements are
`cutInto_iff` and `spaced_iff`: a text is cut into the pieces that `splitWhen` finds, and consists
of the words that `words` finds, and of no others. `exists_trim` and `trim_eq` say that a text is
what `trim` leaves of it, with blanks before and after.
-/

namespace RowStore.Text

/-- The text has no characters but blanks. -/
def IsGap (text : List Char) : Prop :=
  ∀ c ∈ text, isBlank c = true

instance (text : List Char) : Decidable (IsGap text) :=
  List.decidableBAll (isBlank · = true) text

/-- The text has characters, and none of them is a blank. -/
structure IsWord (text : List Char) : Prop where
  nonempty : text ≠ []
  solid : ∀ c ∈ text, isBlank c = false

/-- The text neither begins nor ends with a blank. -/
structure IsTrimmed (text : List Char) : Prop where
  first : ∀ c, text.head? = some c → isBlank c = false
  last : ∀ c, text.getLast? = some c → isBlank c = false

/-- The text is made up of these pieces. Between two of them stands a character that cuts, and none
stands in a piece. -/
inductive CutInto (cuts : Char → Bool) : List (List Char) → List Char → Prop where
  | last {piece : List Char} : (∀ c ∈ piece, cuts c = false) → CutInto cuts [piece] piece
  | more {piece rest : List Char} {pieces : List (List Char)} {c : Char} :
      (∀ c ∈ piece, cuts c = false) → cuts c = true → CutInto cuts pieces rest →
      CutInto cuts (piece :: pieces) (piece ++ c :: rest)

/-- The text is made up of these words, with at least one blank between two of them, and any number
of blanks before the first and after the last one. -/
inductive Spaced : List (List Char) → List Char → Prop where
  | gap {text : List Char} : IsGap text → Spaced [] text
  | last {before word : List Char} : IsGap before → IsWord word → Spaced [word] (before ++ word)
  | more {before word rest : List Char} {words : List (List Char)} {c : Char} :
      IsGap before → IsWord word → isBlank c = true → Spaced words rest →
      Spaced (word :: words) (before ++ word ++ c :: rest)

variable {cuts : Char → Bool} {c : Char} {text rest word before after : List Char}
  {pieces found : List (List Char)}

/-- A text is cut into the pieces that are found. -/
theorem cutInto_splitWhen (cuts : Char → Bool) (text : List Char) :
    CutInto cuts (splitWhen cuts text) text := by
  induction text with
  | nil => exact .last (by simp)
  | cons c rest ih =>
      rw [splitWhen]
      split
      · rename_i hcut
        exact .more (by simp) hcut ih
      · rename_i hkeep
        have hkeep : cuts c = false := by simpa using hkeep
        generalize splitWhen cuts rest = pieces at ih
        cases ih with
        | last hpiece => exact .last (List.forall_mem_cons.mpr ⟨hkeep, hpiece⟩)
        | more hpiece hcut hrest =>
            exact .more (List.forall_mem_cons.mpr ⟨hkeep, hpiece⟩) hcut hrest

/-- A text is cut into the pieces that are found, and into no others. -/
theorem cutInto_iff : CutInto cuts pieces text ↔ pieces = splitWhen cuts text := by
  constructor
  · intro h
    induction h with
    | last hpiece => rw [splitWhen_of_not_cuts hpiece]
    | more hpiece hcut _ ih => rw [splitWhen_append hpiece hcut, ih]
  · rintro rfl
    exact cutInto_splitWhen cuts text

theorem isGap_nil : IsGap [] := by
  simp [IsGap]

theorem isGap_cons : IsGap (c :: rest) ↔ isBlank c = true ∧ IsGap rest :=
  List.forall_mem_cons

/-- A blank in front of the words of a text makes no difference. -/
theorem Spaced.cons (h : Spaced found text) (hblank : isBlank c = true) :
    Spaced found (c :: text) := by
  cases h with
  | gap htext => exact .gap (isGap_cons.mpr ⟨hblank, htext⟩)
  | last hbefore hword => exact .last (isGap_cons.mpr ⟨hblank, hbefore⟩) hword
  | more hbefore hword hc hrest => exact .more (isGap_cons.mpr ⟨hblank, hbefore⟩) hword hc hrest

/-- The words of a text are its pieces between blanks, without the empty ones. -/
theorem CutInto.spaced (h : CutInto isBlank pieces text) :
    Spaced (pieces.filter fun piece => !piece.isEmpty) text := by
  induction h with
  | @last piece hpiece =>
      by_cases hempty : piece = []
      · subst hempty
        exact .gap isGap_nil
      · rw [List.filter_cons_of_pos (by simpa using hempty)]
        exact .last isGap_nil ⟨hempty, hpiece⟩
  | @more piece rest pieces c hpiece hblank _ ih =>
      by_cases hempty : piece = []
      · subst hempty
        exact ih.cons hblank
      · rw [List.filter_cons_of_pos (by simpa using hempty)]
        exact .more isGap_nil ⟨hempty, hpiece⟩ hblank ih

/-- A text is made up of its words. -/
theorem spaced_words (text : List Char) : Spaced (words text) text :=
  (cutInto_splitWhen isBlank text).spaced

/-- Blanks in front of a text add no word. -/
theorem words_gap_append (hbefore : IsGap before) (text : List Char) :
    words (before ++ text) = words text := by
  induction before with
  | nil => rfl
  | cons c before ih =>
      obtain ⟨hblank, hbefore⟩ := isGap_cons.mp hbefore
      rw [List.cons_append, words, splitWhen, if_pos hblank]
      exact ih hbefore

/-- A blank ends a word. -/
theorem words_word_append (hword : IsWord word) (hblank : isBlank c = true) (rest : List Char) :
    words (word ++ c :: rest) = word :: words rest := by
  rw [words, splitWhen_append hword.solid hblank,
    List.filter_cons_of_pos (by simpa using hword.nonempty), words]

/-- A text is made up of its words, and of no others. -/
theorem spaced_iff : Spaced found text ↔ found = words text := by
  constructor
  · intro h
    induction h with
    | gap hgap => simpa [words, splitWhen] using (words_gap_append hgap []).symm
    | last hbefore hword =>
        rw [words_gap_append hbefore, words, splitWhen_of_not_cuts hword.solid,
          List.filter_cons_of_pos (by simpa using hword.nonempty), List.filter_nil]
    | more hbefore hword hblank _ ih =>
        rw [List.append_assoc, words_gap_append hbefore, words_word_append hword hblank, ih]
  · rintro rfl
    exact spaced_words text

/-- Blanks in front of a text are dropped, up to a character that is none. -/
theorem dropWhile_isBlank (hbefore : IsGap before)
    (hfirst : ∀ c, text.head? = some c → isBlank c = false) :
    (before ++ text).dropWhile isBlank = text := by
  rw [List.dropWhile_append_of_pos hbefore]
  cases text with
  | nil => rfl
  | cons c rest => rw [List.dropWhile_cons_of_neg (by simp [hfirst c rfl])]

/-- The blanks around a text are cut off. -/
theorem trim_eq (hbefore : IsGap before) (hafter : IsGap after) (htrimmed : IsTrimmed text)
    (hsome : text ≠ []) : trim (before ++ text ++ after) = text := by
  have hfirst : ∀ c, (text ++ after).head? = some c → isBlank c = false := by
    cases text with
    | nil => exact absurd rfl hsome
    | cons first rest => exact htrimmed.first
  have hlast : ∀ c, text.reverse.head? = some c → isBlank c = false := by
    simpa using htrimmed.last
  have hafter : IsGap after.reverse := fun c hc => hafter c (List.mem_reverse.mp hc)
  rw [trim, List.append_assoc, dropWhile_isBlank hbefore hfirst, List.reverse_append,
    dropWhile_isBlank hafter hlast, List.reverse_reverse]

/-- The first character that is left is none of those that are dropped. -/
theorem of_head?_dropWhile (h : (text.dropWhile cuts).head? = some c) : cuts c = false := by
  have hhead := List.head?_dropWhile_not cuts text
  rwa [h] at hhead

/-- A text is what is left of it when the blanks around it are cut off, with blanks around it. -/
theorem exists_trim (text : List Char) : ∃ before after, IsGap before ∧ IsGap after ∧
    text = before ++ trim text ++ after ∧ IsTrimmed (trim text) := by
  have hmiddle : text.dropWhile isBlank =
      trim text ++ ((text.dropWhile isBlank).reverse.takeWhile isBlank).reverse := by
    rw [trim, ← List.reverse_append, List.takeWhile_append_dropWhile, List.reverse_reverse]
  refine ⟨text.takeWhile isBlank, ((text.dropWhile isBlank).reverse.takeWhile isBlank).reverse,
    fun c => List.mem_takeWhile_imp, fun c hc => List.mem_takeWhile_imp (List.mem_reverse.mp hc),
    ?_, fun c hc => ?_, fun c hc => ?_⟩
  · rw [List.append_assoc, ← hmiddle, List.takeWhile_append_dropWhile]
  · have hfirst : (text.dropWhile isBlank).head? = some c := by
      rw [hmiddle, List.head?_append, hc]
      rfl
    exact of_head?_dropWhile hfirst
  · rw [trim, List.getLast?_reverse] at hc
    exact of_head?_dropWhile hc

end RowStore.Text
