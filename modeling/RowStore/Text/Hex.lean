import RowStore.Bytes

/-!
# Hexadecimal text

A byte string as text, two digits for each byte, the more significant digit first. Writing uses
lower-case digits; reading takes either case.
-/

namespace RowStore.Text.Hex

/-- The two digits of a byte. -/
def digits (byte : UInt8) : List Char :=
  [Nat.digitChar (byte.toNat / 16), Nat.digitChar (byte.toNat % 16)]

/-- The text of a byte string. -/
def encode (bytes : Bytes) : String :=
  .ofList (bytes.flatMap digits)

/-- The number that a digit stands for. -/
def value? (c : Char) : Option Nat :=
  if '0' ≤ c ∧ c ≤ '9' then some (c.toNat - '0'.toNat)
  else if 'a' ≤ c ∧ c ≤ 'f' then some (c.toNat - 'a'.toNat + 10)
  else if 'A' ≤ c ∧ c ≤ 'F' then some (c.toNat - 'A'.toNat + 10)
  else none

/-- The bytes that the characters write. -/
def decodeChars : List Char → Option Bytes
  | [] => some []
  | high :: low :: rest => do
      let byte := (← value? high) * 16 + (← value? low)
      return .ofNat byte :: (← decodeChars rest)
  | [_] => none

/-- The bytes that the text writes. -/
def decode? (text : String) : Option Bytes :=
  decodeChars text.toList

end RowStore.Text.Hex
