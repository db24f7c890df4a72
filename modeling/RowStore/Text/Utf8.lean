import RowStore.Bytes

/-!
# UTF-8

`encode` writes a text as bytes. `decode` reads any bytes as a text: it walks over them once,
keeping the character that it is in the middle of, and where the bytes are not UTF-8 it puts one
replacement character for each maximal subpart, that is for the longest run of bytes that begins
a character and cannot be continued, or for a byte that begins none. `decode?` accepts only bytes
that are UTF-8 throughout, which are the bytes that `encode` writes back.
-/

namespace RowStore.Text.Utf8

/-- The bytes of one character. -/
def encodeChar (c : Char) : Bytes :=
  let code := c.toNat
  if code < 0x80 then [.ofNat code]
  else if code < 0x800 then [.ofNat (0xC0 + code / 64), .ofNat (0x80 + code % 64)]
  else if code < 0x10000 then
    [.ofNat (0xE0 + code / 4096), .ofNat (0x80 + code / 64 % 64), .ofNat (0x80 + code % 64)]
  else
    [.ofNat (0xF0 + code / 262144), .ofNat (0x80 + code / 4096 % 64),
      .ofNat (0x80 + code / 64 % 64), .ofNat (0x80 + code % 64)]

/-- The bytes of a text. -/
def encode (text : String) : Bytes :=
  text.toList.flatMap encodeChar

/-- A range of bytes that may continue a character, both ends included. -/
structure Range where
  low : Nat
  high : Nat
deriving DecidableEq

/-- Whether the byte lies in the range. -/
def Range.admits (range : Range) (byte : UInt8) : Bool :=
  range.low ≤ byte.toNat && byte.toNat ≤ range.high

/-- Any continuation byte. -/
def Range.any : Range := ⟨0x80, 0xBF⟩

/-- A character that has begun: the number that its bytes write so far, the range of the next
byte, and the ranges of the bytes after it. -/
structure Partial where
  code : Nat
  next : Range
  later : List Range
deriving DecidableEq

/-- What a byte says where a character may begin. -/
inductive Lead where
  | single (c : Char)
  | begins (part : Partial)
  | invalid

/-- Read a byte where a character may begin. The first continuation byte is restricted where
a wider range would admit a longer form than needed, a surrogate, or a number above the last
character. -/
def lead (byte : UInt8) : Lead :=
  let b := byte.toNat
  if b < 0x80 then .single (Char.ofNat b)
  else if b < 0xC2 then .invalid
  else if b < 0xE0 then .begins ⟨b - 0xC0, .any, []⟩
  else if b = 0xE0 then .begins ⟨0, ⟨0xA0, 0xBF⟩, [.any]⟩
  else if b = 0xED then .begins ⟨13, ⟨0x80, 0x9F⟩, [.any]⟩
  else if b < 0xF0 then .begins ⟨b - 0xE0, .any, [.any]⟩
  else if b = 0xF0 then .begins ⟨0, ⟨0x90, 0xBF⟩, [.any, .any]⟩
  else if b < 0xF4 then .begins ⟨b - 0xF0, .any, [.any, .any]⟩
  else if b = 0xF4 then .begins ⟨4, ⟨0x80, 0x8F⟩, [.any, .any]⟩
  else .invalid

/-- The character that stands for bytes that are not UTF-8. -/
def replacement : Char := '\uFFFD'

/-- Read the bytes that follow a character that has begun, or that begin one. -/
def decodeFrom : Option Partial → Bytes → List Char
  | none, [] => []
  | some _, [] => [replacement]
  | none, byte :: rest =>
      match lead byte with
      | .single c => c :: decodeFrom none rest
      | .begins part => decodeFrom (some part) rest
      | .invalid => replacement :: decodeFrom none rest
  | some part, byte :: rest =>
      if part.next.admits byte then
        let code := part.code * 64 + (byte.toNat - 0x80)
        match part.later with
        | [] => Char.ofNat code :: decodeFrom none rest
        | next :: later => decodeFrom (some ⟨code, next, later⟩) rest
      else
        match lead byte with
        | .single c => replacement :: c :: decodeFrom none rest
        | .begins part => replacement :: decodeFrom (some part) rest
        | .invalid => replacement :: replacement :: decodeFrom none rest

/-- The text that the bytes write, with a replacement character for each maximal subpart that
is not UTF-8. -/
def decode (bytes : Bytes) : String :=
  .ofList (decodeFrom none bytes)

/-- The text that the bytes write, if they are UTF-8. -/
def decode? (bytes : Bytes) : Option String :=
  let text := decode bytes
  if encode text = bytes then some text else none

end RowStore.Text.Utf8
