import RowStore.Text.Unprinted
import RowStore.Text.GraphemeExtend

/-!
# Quoted text

Messages quote a text so that every character of it can be seen: between double quotes, with the
quote, the backslash, and the common controls written as two characters, and with each character
that has no printed form of its own, or that attaches to the one before it, written by its
number.
-/

namespace RowStore.Text

/-- Whether a range of the table holds the code point. -/
def inRanges (ranges : List (Nat × Nat)) (code : Nat) : Bool :=
  ranges.any fun range => range.1 ≤ code && code ≤ range.2

/-- Whether the character can stand for itself in quoted text. -/
def isPrinted (c : Char) : Bool :=
  if c.toNat < 0x7F then 0x20 ≤ c.toNat
  else !inRanges graphemeExtend c.toNat && !inRanges unprinted c.toNat

/-- A character by its number, in the fewest hexadecimal digits. -/
def escapeNumber (c : Char) : List Char :=
  ['\\', 'u', '\x7b'] ++ Nat.toDigits 16 c.toNat ++ ['\x7d']

/-- A character as it stands between the quotes. -/
def quoteChar (c : Char) : List Char :=
  match c with
  | '\x00' => ['\\', '0']
  | '\t' => ['\\', 't']
  | '\r' => ['\\', 'r']
  | '\n' => ['\\', 'n']
  | '"' => ['\\', '"']
  | '\\' => ['\\', '\\']
  | _ => if isPrinted c then [c] else escapeNumber c

/-- The text between double quotes. -/
def quote (text : String) : String :=
  .ofList (['"'] ++ text.toList.flatMap quoteChar ++ ['"'])

end RowStore.Text
