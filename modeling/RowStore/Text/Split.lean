/-!
# Cutting a text into pieces

`splitWhen` cuts a text at every character of a class, and `lines` cuts it into lines. A line
ends with a line feed, or with a carriage return and a line feed, which do not belong to it.
What follows the last line feed is a line if it is not empty, and a carriage return at its end
belongs to it.
-/

namespace RowStore.Text

/-- The pieces between the characters that satisfy `cuts`. There is always one more piece than
there are such characters. -/
def splitWhen (cuts : Char → Bool) : List Char → List (List Char)
  | [] => [[]]
  | c :: rest =>
      if cuts c then [] :: splitWhen cuts rest
      else
        match splitWhen cuts rest with
        | [] => [[c]]
        | piece :: pieces => (c :: piece) :: pieces

/-- A line without a carriage return at its end. -/
def stripReturn (line : List Char) : List Char :=
  if line.getLast? = some '\r' then line.dropLast else line

/-- The lines among the pieces of a text that was cut at its line feeds. -/
def linesOfPieces : List (List Char) → List (List Char)
  | [] => []
  | [last] => if last.isEmpty then [] else [last]
  | piece :: pieces => stripReturn piece :: linesOfPieces pieces

/-- The lines of a text. -/
def lines (text : List Char) : List (List Char) :=
  linesOfPieces (splitWhen (· = '\n') text)

/-- A text has at least one piece. -/
theorem splitWhen_ne_nil (cuts : Char → Bool) (text : List Char) :
    splitWhen cuts text ≠ [] := by
  cases text with
  | nil => simp [splitWhen]
  | cons c rest =>
      simp only [splitWhen]
      split
      · simp
      · split <;> simp

end RowStore.Text
