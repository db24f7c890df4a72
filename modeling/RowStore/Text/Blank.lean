import RowStore.Text.Split

/-!
# White space

`isBlank` decides the Unicode property White_Space. `trim` cuts blanks at both ends of a text,
and `words` cuts a text at its blanks.
-/

namespace RowStore.Text

/-- The code points with the property White_Space outside ASCII. -/
def wideBlanks : List Nat :=
  [0x85, 0xA0, 0x1680, 0x2000, 0x2001, 0x2002, 0x2003, 0x2004, 0x2005, 0x2006, 0x2007, 0x2008,
    0x2009, 0x200A, 0x2028, 0x2029, 0x202F, 0x205F, 0x3000]

/-- Whether the character is white space. -/
def isBlank (c : Char) : Bool :=
  c = ' ' || (9 ≤ c.toNat && c.toNat ≤ 13) || wideBlanks.contains c.toNat

/-- The text without the blanks at its ends. -/
def trim (text : List Char) : List Char :=
  ((text.dropWhile isBlank).reverse.dropWhile isBlank).reverse

/-- The longest pieces without a blank. -/
def words (text : List Char) : List (List Char) :=
  (splitWhen isBlank text).filter fun piece => !piece.isEmpty

end RowStore.Text
