import Mathlib.Data.List.TakeWhile
import RowStore.Text.Blank

/-!
# The lines of a text

`IsLines` is the grammar of a text that is made up of lines: each line but the last one ends with
a line feed, or with a carriage return and a line feed, and the last one has at least one character.
The main statement is `isLines_iff`, that a text is made up of its `lines` and of no others.
-/

namespace RowStore.Text

variable {cuts : Char → Bool} {c : Char} {text line piece rest : List Char}
  {found : List (List Char)}

/-- A text without a character that cuts is one piece. -/
theorem splitWhen_of_not_cuts (h : ∀ c ∈ text, cuts c = false) : splitWhen cuts text = [text] := by
  induction text with
  | nil => rfl
  | cons c rest ih =>
      rw [List.forall_mem_cons] at h
      rw [splitWhen, if_neg (by simp [h.1]), ih h.2]

/-- A piece ends where a character cuts. -/
theorem splitWhen_append (hpiece : ∀ c ∈ piece, cuts c = false) (hcut : cuts c = true)
    (rest : List Char) : splitWhen cuts (piece ++ c :: rest) = piece :: splitWhen cuts rest := by
  induction piece with
  | nil => rw [List.nil_append, splitWhen, if_pos hcut]
  | cons first piece ih =>
      rw [List.forall_mem_cons] at hpiece
      rw [List.cons_append, splitWhen, if_neg (by simp [hpiece.1]), ih hpiece.2]

/-- The text is made up of these lines. -/
inductive IsLines : List Char → List (List Char) → Prop where
  | nil : IsLines [] []
  | last {line : List Char} : line ≠ [] → '\n' ∉ line → IsLines line [line]
  | feed {line rest : List Char} {lines : List (List Char)} : '\n' ∉ line →
      line.getLast? ≠ some '\r' → IsLines rest lines →
      IsLines (line ++ '\n' :: rest) (line :: lines)
  | returnFeed {line rest : List Char} {lines : List (List Char)} : '\n' ∉ line →
      IsLines rest lines → IsLines (line ++ '\r' :: '\n' :: rest) (line :: lines)

/-- A text without a line feed is one line, or none if it is empty. -/
theorem lines_of_not_mem (h : '\n' ∉ text) : lines text = if text.isEmpty then [] else [text] := by
  have hcuts : ∀ c ∈ text, decide (c = '\n') = false :=
    fun c hc => decide_eq_false fun heq => h (heq ▸ hc)
  rw [lines, splitWhen_of_not_cuts hcuts]
  rfl

/-- A line feed ends a line. -/
theorem lines_append (h : '\n' ∉ piece) (rest : List Char) :
    lines (piece ++ '\n' :: rest) = stripReturn piece :: lines rest := by
  have hpiece : ∀ c ∈ piece, decide (c = '\n') = false :=
    fun c hc => decide_eq_false fun heq => h (heq ▸ hc)
  rw [lines, splitWhen_append hpiece (decide_eq_true rfl)]
  cases hrest : splitWhen (· = '\n') rest with
  | nil => exact absurd hrest (splitWhen_ne_nil _ _)
  | cons next pieces => rw [linesOfPieces, lines, hrest]; simp

theorem stripReturn_append_return (line : List Char) : stripReturn (line ++ ['\r']) = line := by
  simp [stripReturn]

/-- A text is made up of its lines. -/
theorem isLines_lines (text : List Char) : IsLines text (lines text) := by
  by_cases hfeed : '\n' ∈ text
  · obtain ⟨piece, rest, rfl, hpiece⟩ := List.eq_append_cons_of_mem hfeed
    have hrest := isLines_lines rest
    rw [lines_append hpiece]
    by_cases hreturn : piece.getLast? = some '\r'
    · obtain ⟨line, rfl⟩ := List.getLast?_eq_some_iff.mp hreturn
      rw [stripReturn_append_return, List.append_assoc]
      exact .returnFeed (fun hline => hpiece (by simp [hline])) hrest
    · rw [stripReturn, if_neg hreturn]
      exact .feed hpiece hreturn hrest
  · rw [lines_of_not_mem hfeed]
    split
    · rename_i hempty
      rw [List.isEmpty_iff.mp hempty]
      exact .nil
    · rename_i hsome
      exact .last (fun hempty => hsome (by simp [hempty])) hfeed
termination_by text.length
decreasing_by
  subst_vars
  simp
  omega

/-- A text is made up of its lines, and of no others. -/
theorem isLines_iff : IsLines text found ↔ found = lines text := by
  constructor
  · intro h
    induction h with
    | nil => rfl
    | last hsome hfeed => rw [lines_of_not_mem hfeed, if_neg (by simpa using hsome)]
    | feed hfeed hreturn _ ih => rw [lines_append hfeed, stripReturn, if_neg hreturn, ih]
    | @returnFeed line rest found hfeed _ ih =>
        have hpiece : '\n' ∉ line ++ ['\r'] := by simp [hfeed]
        rw [show line ++ '\r' :: '\n' :: rest = (line ++ ['\r']) ++ '\n' :: rest by simp,
          lines_append hpiece, stripReturn_append_return, ih]
  · rintro rfl
    exact isLines_lines text

/-- Nothing is left of a text without its outer blanks if it has blanks only. -/
theorem trim_isEmpty_iff : (trim text).isEmpty = true ↔ ∀ c ∈ text, isBlank c = true := by
  rw [trim, List.isEmpty_iff, List.reverse_eq_nil_iff, List.dropWhile_eq_nil_iff]
  simp only [List.mem_reverse]
  induction text with
  | nil => simp
  | cons first rest ih =>
      rw [List.dropWhile_cons, List.forall_mem_cons]
      cases hfirst : isBlank first with
      | true => simpa using ih
      | false => simp [hfirst]

end RowStore.Text
