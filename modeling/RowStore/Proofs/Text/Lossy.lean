import RowStore.Proofs.Text.Utf8

/-!
# How bytes that are not UTF-8 are read

A byte string falls into pieces in one way only: the bytes of characters and, wherever no character
stands, a maximal subpart, that is the longest run of bytes that begins a character, or one byte if
it begins none. `Splits` is this division. The main statements are `splits_decode`, that `decode`
shows the characters as they are and one replacement character for every other piece,
`Splits.unique`, and `length_encode_decode`, how many bytes the text has that is read.
-/

namespace RowStore.Text.Utf8

/-- The bytes begin a character. -/
def Begins (bytes : Bytes) : Prop :=
  ∃ c, bytes <+: encodeChar c

/-- A piece of a byte string: the bytes of a character, or bytes that are part of none. -/
inductive Piece where
  | whole (c : Char)
  | broken (bytes : Bytes)

/-- The bytes of a piece. -/
def Piece.bytes : Piece → Bytes
  | whole c => encodeChar c
  | broken bytes => bytes

/-- The character that a piece is read as. -/
def Piece.shown : Piece → Char
  | whole c => c
  | broken _ => replacement

/-- The number of bytes of the text that pieces are read as: a replacement character has three. -/
def shownSize : List Piece → Nat
  | [] => 0
  | .whole c :: rest => (encodeChar c).length + shownSize rest
  | .broken _ :: rest => 3 + shownSize rest

theorem length_flatMap_shown (pieces : List Piece) :
    ((pieces.map Piece.shown).flatMap encodeChar).length = shownSize pieces := by
  have hreplacement : (encodeChar replacement).length = 3 := by decide
  induction pieces with
  | nil => rfl
  | cons piece rest ih =>
      rw [List.map_cons, List.flatMap_cons, List.length_append, ih]
      cases piece with
      | whole c => rfl
      | broken bytes => rw [Piece.shown, hreplacement, shownSize]

/-- No character stands where `part` begins in front of `rest`, and `part` is a maximal subpart. -/
structure IsBroken (part rest : Bytes) : Prop where
  nonempty : part ≠ []
  noCharacter : ∀ c, ¬ encodeChar c <+: part ++ rest
  begins : Begins part ∨ part.length = 1
  longest : ∀ more, more <+: rest → Begins (part ++ more) → more = []

/-- The division of a byte string into characters and broken pieces. -/
inductive Splits : Bytes → List Piece → Prop where
  | nil : Splits [] []
  | whole {rest : Bytes} {pieces : List Piece} (c : Char) :
      Splits rest pieces → Splits (encodeChar c ++ rest) (.whole c :: pieces)
  | broken {part rest : Bytes} {pieces : List Piece} :
      IsBroken part rest → Splits rest pieces → Splits (part ++ rest) (.broken part :: pieces)

theorem Begins.of_append {first second : Bytes} (h : Begins (first ++ second)) : Begins first := by
  obtain ⟨c, hc⟩ := h
  exact ⟨c, (List.prefix_append first second).trans hc⟩

/-- No character is written by the first bytes of another one. -/
theorem encodeChar_inj_of_begins {c d : Char} (h : encodeChar c <+: encodeChar d) : c = d := by
  obtain ⟨rest, hrest⟩ := h
  have hread : decodeFrom none (encodeChar c ++ rest ++ []) = decodeFrom none (encodeChar d ++ []) := by
    rw [hrest]
  rw [List.append_assoc, decodeFrom_encodeChar, decodeFrom_encodeChar, List.cons.injEq] at hread
  exact hread.1

theorem encodeChar_ne_nil (c : Char) : encodeChar c ≠ [] := by
  unfold encodeChar
  dsimp only
  split
  · simp
  · split
    · simp
    · split <;> simp

/-- The number of a character that the bytes after its beginning write, if they lie in their
ranges. -/
def finish (code : Nat) : List Range → Bytes → Option Nat
  | [], [] => some code
  | range :: ranges, byte :: rest =>
      if range.admits byte then finish (code * 64 + (byte.toNat - 0x80)) ranges rest else none
  | _, _ => none

section Lead

variable {byte : UInt8} {rest : Bytes} {code : Nat} {range : Range} {part : Partial} {c : Char}

/-- A number that is one of a character gives this character. -/
theorem toNat_ofNat_of_valid (h : code < 0xD800 ∨ 0xDFFF < code ∧ code < 0x110000) :
    (Char.ofNat code).toNat = code := by
  have hvalid : code.isValidChar := h
  rw [Char.ofNat, dif_pos hvalid]
  rfl

/-- What the first byte of a character says, and that the bytes after it finish what it begins. -/
theorem lead_encodeChar (h : encodeChar c = byte :: rest) :
    (lead byte = .single c ∧ rest = []) ∨
      ∃ part, lead byte = .begins part ∧
        finish part.code (part.next :: part.later) rest = some c.toNat := by
  have hvalid : c.toNat < 0xD800 ∨ 0xDFFF < c.toNat ∧ c.toNat < 0x110000 := c.valid
  have hany : ∀ code, Range.any.admits (.ofNat (0x80 + code % 64)) = true :=
    fun code => admits_any (Nat.mod_lt _ (by omega))
  have hsix : ∀ code, (UInt8.ofNat (0x80 + code % 64)).toNat - 0x80 = code % 64 := by
    intro code
    rw [UInt8.toNat_ofNat']
    omega
  unfold encodeChar at h
  by_cases hone : c.toNat < 0x80
  · have hbyte : (UInt8.ofNat c.toNat).toNat = c.toNat := by
      rw [UInt8.toNat_ofNat']
      omega
    simp only [if_pos hone, List.cons.injEq] at h
    obtain ⟨rfl, rfl⟩ := h
    refine .inl ⟨?_, rfl⟩
    simp only [lead, hbyte, if_pos hone, Char.ofNat_toNat]
  by_cases htwo : c.toNat < 0x800
  · simp only [if_neg hone, if_pos htwo, List.cons.injEq] at h
    obtain ⟨rfl, rfl⟩ := h
    refine .inr ⟨_, lead_two (by omega) htwo, ?_⟩
    simp only [finish, if_pos (hany _), hsix, Option.some.injEq]
    omega
  by_cases hthree : c.toNat < 0x10000
  · simp only [if_neg hone, if_neg htwo, if_pos hthree, List.cons.injEq] at h
    obtain ⟨rfl, rfl⟩ := h
    obtain ⟨range, hlead, hadmits⟩ := @lead_three c.toNat (by omega) hthree (by omega)
    refine .inr ⟨_, hlead, ?_⟩
    simp only [finish, if_pos hadmits, if_pos (hany _), hsix, Option.some.injEq]
    omega
  · simp only [if_neg hone, if_neg htwo, if_neg hthree, List.cons.injEq] at h
    obtain ⟨rfl, rfl⟩ := h
    obtain ⟨range, hlead, hadmits⟩ := @lead_four c.toNat (by omega) (by omega)
    refine .inr ⟨_, hlead, ?_⟩
    simp only [finish, if_pos hadmits, if_pos (hany _), hsix, Option.some.injEq]
    omega

/-- A byte that is a character of its own is what writes this character. -/
theorem encodeChar_of_single (h : lead byte = .single c) : encodeChar c = [byte] := by
  unfold lead at h
  dsimp only at h
  split at h
  · rename_i hone
    simp only [Lead.single.injEq] at h
    rw [← h, encodeChar, toNat_ofNat_of_valid (.inl (by omega))]
    simp [hone]
  · repeat' split at h
    all_goals simp at h

/-- A range of continuation bytes that is not empty. -/
def Range.Continues (range : Range) : Prop :=
  0x80 ≤ range.low ∧ range.low ≤ range.high ∧ range.high ≤ 0xBF

theorem continues_any : Range.any.Continues :=
  ⟨by decide, by decide, by decide⟩

/-- A byte in such a range holds six bits. -/
theorem Range.Continues.eq_ofNat (hrange : range.Continues) (h : range.admits byte = true) :
    ∃ six, six < 64 ∧ range.low ≤ 0x80 + six ∧ 0x80 + six ≤ range.high ∧
      byte = .ofNat (0x80 + six) ∧ byte.toNat - 0x80 = six := by
  obtain ⟨hlow, _, hhigh⟩ := hrange
  simp only [Range.admits, Bool.and_eq_true, decide_eq_true_eq] at h
  refine ⟨byte.toNat - 0x80, by omega, by omega, by omega, ?_, rfl⟩
  rw [show 0x80 + (byte.toNat - 0x80) = byte.toNat by omega, UInt8.ofNat_toNat]

/-- A byte that finishes a part lies in its range, and the rest finishes what is left. -/
theorem finish_cons {ranges : List Range} {number : Nat} (hrange : range.Continues)
    (h : finish code (range :: ranges) rest = some number) :
    ∃ six left, six < 64 ∧ range.low ≤ 0x80 + six ∧ 0x80 + six ≤ range.high ∧
      rest = .ofNat (0x80 + six) :: left ∧ finish (code * 64 + six) ranges left = some number := by
  cases rest with
  | nil => simp [finish] at h
  | cons byte left =>
      simp only [finish] at h
      split at h
      · rename_i hadmits
        obtain ⟨six, hsix, hlow, hhigh, hbyte, hbits⟩ := hrange.eq_ofNat hadmits
        rw [hbits] at h
        exact ⟨six, left, hsix, hlow, hhigh, congrArg (· :: left) hbyte, h⟩
      · simp at h

theorem finish_nil {number : Nat} (h : finish code [] rest = some number) :
    rest = [] ∧ code = number := by
  cases rest with
  | nil => exact ⟨rfl, by simpa [finish] using h⟩
  | cons byte left => simp [finish] at h

/-- Ranges that are not empty can be finished. -/
theorem exists_finish {ranges : List Range} (hranges : ∀ range ∈ ranges, range.Continues)
    (code : Nat) : ∃ rest number, finish code ranges rest = some number := by
  induction ranges generalizing code with
  | nil => exact ⟨[], code, rfl⟩
  | cons range ranges ih =>
      obtain ⟨hlow, hrange, hhigh⟩ := hranges range (by simp)
      obtain ⟨rest, number, hrest⟩ := ih (fun other hother => hranges other (by simp [hother]))
        (code * 64 + (range.low - 0x80))
      have hbyte : (UInt8.ofNat range.low).toNat = range.low := by
        rw [UInt8.toNat_ofNat']
        omega
      refine ⟨.ofNat range.low :: rest, number, ?_⟩
      rw [finish, hbyte, if_pos, hrest]
      simp only [Range.admits, hbyte, Bool.and_eq_true, decide_eq_true_eq]
      omega

/-- Two bytes of a character. -/
theorem encodeChar_of_two (hcode : 2 ≤ code ∧ code < 32) (hbyte : byte.toNat = 0xC0 + code)
    {number : Nat} (h : finish code [.any] rest = some number) :
    encodeChar (Char.ofNat number) = byte :: rest := by
  obtain ⟨six, left, hsix, _, _, rfl, hleft⟩ := finish_cons continues_any h
  obtain ⟨rfl, rfl⟩ := finish_nil hleft
  have hfirst : byte = .ofNat (0xC0 + code) := by rw [← hbyte, UInt8.ofNat_toNat]
  rw [encodeChar, toNat_ofNat_of_valid (.inl (by omega)), hfirst, if_neg (by omega),
    if_pos (by omega), show (code * 64 + six) / 64 = code by omega,
    show (code * 64 + six) % 64 = six by omega]

/-- Three bytes of a character, the second of which keeps out overlong forms and surrogates. -/
theorem encodeChar_of_three (hcode : code < 16) (hbyte : byte.toNat = 0xE0 + code)
    (hrange : range.Continues)
    (hvalid : ∀ six, range.low ≤ 0x80 + six → 0x80 + six ≤ range.high →
      0x20 ≤ code * 64 + six ∧ (code * 64 + six < 0x360 ∨ 0x37F < code * 64 + six))
    {number : Nat} (h : finish code [range, .any] rest = some number) :
    encodeChar (Char.ofNat number) = byte :: rest := by
  obtain ⟨mid, afterMid, hmid, hlow, hhigh, rfl, hafterMid⟩ := finish_cons hrange h
  obtain ⟨six, left, hsix, _, _, rfl, hleft⟩ := finish_cons continues_any hafterMid
  obtain ⟨rfl, rfl⟩ := finish_nil hleft
  have hfirst : byte = .ofNat (0xE0 + code) := by rw [← hbyte, UInt8.ofNat_toNat]
  have hmiddle := hvalid mid hlow hhigh
  rw [encodeChar, toNat_ofNat_of_valid (by omega), hfirst, if_neg (by omega), if_neg (by omega),
    if_pos (by omega), show ((code * 64 + mid) * 64 + six) / 4096 = code by omega,
    show ((code * 64 + mid) * 64 + six) / 64 % 64 = mid by omega,
    show ((code * 64 + mid) * 64 + six) % 64 = six by omega]

/-- Four bytes of a character, the second of which keeps out overlong forms and what lies beyond
the last character. -/
theorem encodeChar_of_four (hbyte : byte.toNat = 0xF0 + code)
    (hrange : range.Continues)
    (hvalid : ∀ six, range.low ≤ 0x80 + six → 0x80 + six ≤ range.high →
      0x10 ≤ code * 64 + six ∧ code * 64 + six < 0x110)
    {number : Nat} (h : finish code [range, .any, .any] rest = some number) :
    encodeChar (Char.ofNat number) = byte :: rest := by
  obtain ⟨high, afterHigh, hsecond, hlow, hhigh, rfl, hafterHigh⟩ := finish_cons hrange h
  obtain ⟨mid, afterMid, hmid, _, _, rfl, hafterMid⟩ := finish_cons continues_any hafterHigh
  obtain ⟨six, left, hsix, _, _, rfl, hleft⟩ := finish_cons continues_any hafterMid
  obtain ⟨rfl, rfl⟩ := finish_nil hleft
  have hfirst : byte = .ofNat (0xF0 + code) := by rw [← hbyte, UInt8.ofNat_toNat]
  have hvalid := hvalid high hlow hhigh
  rw [encodeChar, toNat_ofNat_of_valid (by omega), hfirst, if_neg (by omega), if_neg (by omega),
    if_neg (by omega), show (((code * 64 + high) * 64 + mid) * 64 + six) / 262144 = code by omega,
    show (((code * 64 + high) * 64 + mid) * 64 + six) / 4096 % 64 = high by omega,
    show (((code * 64 + high) * 64 + mid) * 64 + six) / 64 % 64 = mid by omega,
    show (((code * 64 + high) * 64 + mid) * 64 + six) % 64 = six by omega]

/-- The forms of what a first byte begins. The range of the second byte is the one that makes the
whole number one of a character of this length. -/
inductive Form (byte : UInt8) : Partial → Prop where
  | two {code : Nat} : 2 ≤ code ∧ code < 32 → byte.toNat = 0xC0 + code →
      Form byte ⟨code, .any, []⟩
  | three {code : Nat} {range : Range} : code < 16 → byte.toNat = 0xE0 + code →
      range.Continues →
      (∀ six, range.low ≤ 0x80 + six → 0x80 + six ≤ range.high →
        0x20 ≤ code * 64 + six ∧ (code * 64 + six < 0x360 ∨ 0x37F < code * 64 + six)) →
      Form byte ⟨code, range, [.any]⟩
  | four {code : Nat} {range : Range} : byte.toNat = 0xF0 + code →
      range.Continues →
      (∀ six, range.low ≤ 0x80 + six → 0x80 + six ≤ range.high →
        0x10 ≤ code * 64 + six ∧ code * 64 + six < 0x110) →
      Form byte ⟨code, range, [.any, .any]⟩

theorem form_of_lead (h : lead byte = .begins part) : Form byte part := by
  unfold lead at h
  dsimp only at h
  repeat' split at h
  all_goals simp only [Lead.begins.injEq, reduceCtorEq] at h
  all_goals subst h
  · exact .two (by omega) (by omega)
  all_goals first
    | refine .three (by omega) (by omega) ⟨by decide, by decide, by decide⟩ ?_
    | refine .four (by omega) ⟨by decide, by decide, by decide⟩ ?_
  all_goals
    intro six hlow hhigh
    dsimp only [Range.any] at hlow hhigh
    omega

end Lead

/-- Whatever continues the bytes that were read to a character finishes the part, whatever finishes
the part continues them to this character, and something does. -/
structure Partial.StandsFor (part : Partial) (read : Bytes) : Prop where
  nonempty : read ≠ []
  finishes : ∀ c rest, encodeChar c = read ++ rest →
    finish part.code (part.next :: part.later) rest = some c.toNat
  writes : ∀ rest number, finish part.code (part.next :: part.later) rest = some number →
    encodeChar (Char.ofNat number) = read ++ rest
  continues : ∀ range ∈ part.next :: part.later, range.Continues

namespace Partial.StandsFor

variable {part : Partial} {read rest : Bytes} {byte : UInt8}

/-- A part stands for the first byte that begins it. -/
theorem of_lead (h : lead byte = .begins part) : part.StandsFor [byte] where
  nonempty := by simp
  finishes := by
    intro c rest hc
    rcases lead_encodeChar hc with ⟨hsingle, _⟩ | ⟨found, hfound, hfinish⟩
    · simp [h] at hsingle
    · rw [h, Lead.begins.injEq] at hfound
      rwa [hfound]
  writes := by
    intro rest number hfinish
    cases form_of_lead h with
    | two hcode hbyte => exact encodeChar_of_two hcode hbyte hfinish
    | three hcode hbyte hrange hvalid =>
        exact encodeChar_of_three hcode hbyte hrange hvalid hfinish
    | four hbyte hrange hvalid => exact encodeChar_of_four hbyte hrange hvalid hfinish
  continues := by
    cases form_of_lead h with
    | two => simpa using continues_any
    | three _ _ hrange => simpa using ⟨hrange, continues_any⟩
    | four _ hrange => simpa using ⟨hrange, continues_any⟩

/-- A byte of the range leaves a part that stands for one byte more. -/
theorem next {after : Range} {later : List Range} (h : part.StandsFor read)
    (hadmits : part.next.admits byte = true) (hlater : part.later = after :: later) :
    Partial.StandsFor ⟨part.code * 64 + (byte.toNat - 0x80), after, later⟩ (read ++ [byte]) where
  nonempty := by simp
  finishes := by
    intro c rest hc
    have hfinish := h.finishes c (byte :: rest) (by simpa using hc)
    rwa [finish, if_pos hadmits, hlater] at hfinish
  writes := by
    intro rest number hfinish
    have hwrites := h.writes (byte :: rest) number
      (by rwa [finish, if_pos hadmits, hlater])
    simpa using hwrites
  continues := fun range hrange => h.continues range (hlater ▸ List.mem_cons_of_mem _ hrange)

/-- A byte of the range that is the last one completes a character. -/
theorem last (h : part.StandsFor read) (hadmits : part.next.admits byte = true)
    (hlater : part.later = []) :
    encodeChar (Char.ofNat (part.code * 64 + (byte.toNat - 0x80))) = read ++ [byte] :=
  h.writes [byte] _ (by rw [finish, if_pos hadmits, hlater, finish])

theorem begins (h : part.StandsFor read) : Begins read := by
  obtain ⟨rest, number, hfinish⟩ := exists_finish h.continues part.code
  exact ⟨Char.ofNat number, rest, (h.writes rest number hfinish).symm⟩

/-- A byte outside the range begins nothing together with those before it. -/
theorem not_begins (h : part.StandsFor read) (hadmits : part.next.admits byte = false) :
    ¬ Begins (read ++ [byte]) := by
  rintro ⟨c, rest, hrest⟩
  have hfinish := h.finishes c (byte :: rest) (by simpa using hrest.symm)
  simp [finish, hadmits] at hfinish

/-- The bytes that were read are no character yet. -/
theorem not_whole (h : part.StandsFor read) (c : Char) : ¬ encodeChar c <+: read := by
  intro hc
  obtain ⟨d, hd⟩ := h.begins
  obtain rfl := encodeChar_inj_of_begins (hc.trans hd)
  have hread : encodeChar c = read := hc.eq_of_length_le hd.length_le
  have hfinish := h.finishes c [] (by simpa using hread)
  simp [finish] at hfinish

/-- The bytes that were read are a maximal subpart if the next byte does not go on with them. -/
theorem isBroken (h : part.StandsFor read)
    (hstop : ∀ byte left, rest = byte :: left → part.next.admits byte = false) :
    IsBroken read rest where
  nonempty := h.nonempty
  noCharacter := by
    intro c hc
    rcases List.prefix_or_prefix_of_prefix hc (List.prefix_append read rest) with hshort | hlong
    · exact h.not_whole c hshort
    · obtain ⟨more, hmore⟩ := hlong
      cases more with
      | nil => exact h.not_whole c (by rw [← hmore]; simp)
      | cons byte more =>
          rw [← hmore, List.prefix_append_right_inj] at hc
          obtain ⟨left, rfl⟩ := hc
          refine h.not_begins (hstop byte _ rfl) ⟨c, more, ?_⟩
          simpa using hmore
  begins := .inl h.begins
  longest := by
    intro more hmore hbegins
    cases more with
    | nil => rfl
    | cons byte more =>
        obtain ⟨left, rfl⟩ := hmore
        rw [List.append_cons] at hbegins
        exact absurd hbegins.of_append (h.not_begins (hstop byte _ rfl))

end Partial.StandsFor

/-- A byte that begins nothing is a maximal subpart. -/
theorem isBroken_of_invalid {byte : UInt8} (h : lead byte = .invalid) (rest : Bytes) :
    IsBroken [byte] rest := by
  have hnone : ∀ more, ¬ Begins (byte :: more) := by
    rintro more ⟨c, left, hleft⟩
    rcases lead_encodeChar hleft.symm with ⟨hsingle, _⟩ | ⟨part, hbegins, _⟩
    · simp [h] at hsingle
    · simp [h] at hbegins
  refine ⟨by simp, ?_, .inr rfl, fun more _ hbegins => absurd hbegins (hnone more)⟩
  intro c hc
  cases hbytes : encodeChar c with
  | nil => exact encodeChar_ne_nil c hbytes
  | cons first more =>
      rw [hbytes, List.singleton_append, List.cons_prefix_cons] at hc
      have hwhole : byte :: more = encodeChar c := by rw [hbytes, hc.1]
      exact hnone more ⟨c, hwhole ▸ List.prefix_refl _⟩

/-- A byte that does not go on with a character ends it, and is then read anew. -/
theorem decodeFrom_of_not_admits {part : Partial} {byte : UInt8}
    (h : part.next.admits byte = false) (rest : Bytes) :
    decodeFrom (some part) (byte :: rest) = replacement :: decodeFrom none (byte :: rest) := by
  cases hlead : lead byte <;> simp [decodeFrom, h, hlead]

/-- The reader shows the pieces of the bytes that it has read and of those that follow. -/
theorem splits_decodeFrom (bytes : Bytes) :
    (∃ pieces, Splits bytes pieces ∧ decodeFrom none bytes = pieces.map Piece.shown) ∧
      ∀ {part : Partial} {read : Bytes}, part.StandsFor read →
        ∃ pieces, Splits (read ++ bytes) pieces ∧
          decodeFrom (some part) bytes = pieces.map Piece.shown := by
  -- Both at once: a byte may begin a character, and one that does not go on with it is read anew.
  induction bytes with
  | nil =>
      refine ⟨⟨[], .nil, rfl⟩, fun {part read} hpart => ⟨[.broken read], ?_, rfl⟩⟩
      exact .broken (hpart.isBroken (by simp)) .nil
  | cons byte rest ih =>
      obtain ⟨⟨pieces, hpieces, hread⟩, hpartial⟩ := ih
      have hnone : ∃ pieces, Splits (byte :: rest) pieces ∧
          decodeFrom none (byte :: rest) = pieces.map Piece.shown := by
        rw [decodeFrom]
        cases hlead : lead byte with
        | single c =>
            refine ⟨.whole c :: pieces, ?_, by simp [hread, Piece.shown]⟩
            have hwhole := hpieces.whole c
            rwa [encodeChar_of_single hlead] at hwhole
        | begins part => exact hpartial (.of_lead hlead)
        | invalid =>
            exact ⟨.broken [byte] :: pieces, .broken (isBroken_of_invalid hlead rest) hpieces,
              by simp [hread, Piece.shown]⟩
      refine ⟨hnone, fun {part read} hpart => ?_⟩
      cases hadmits : part.next.admits byte with
      | false =>
          obtain ⟨pieces, hpieces, hread⟩ := hnone
          refine ⟨.broken read :: pieces, .broken (hpart.isBroken ?_) hpieces, ?_⟩
          · rintro first left hleft
            rw [List.cons.injEq] at hleft
            rwa [← hleft.1]
          · rw [decodeFrom_of_not_admits hadmits, hread]
            rfl
      | true =>
          rw [decodeFrom, if_pos hadmits]
          cases hlater : part.later with
          | nil =>
              have hwhole := hpieces.whole
                (Char.ofNat (part.code * 64 + (byte.toNat - 0x80)))
              rw [hpart.last hadmits hlater] at hwhole
              exact ⟨_, by simpa using hwhole, by simp [hread, Piece.shown]⟩
          | cons after later =>
              simpa using hpartial (hpart.next hadmits hlater)

/-- What is read from a byte string are its pieces. -/
theorem splits_decode (bytes : Bytes) :
    ∃ pieces, Splits bytes pieces ∧ (decode bytes).toList = pieces.map Piece.shown := by
  obtain ⟨pieces, hpieces, hread⟩ := (splits_decodeFrom bytes).1
  exact ⟨pieces, hpieces, by rw [decode, String.toList_ofList, hread]⟩

/-- Of two broken pieces in one place, none is longer than the other. -/
theorem IsBroken.append_eq {part more rest : Bytes}
    (h : IsBroken part (more ++ rest)) (hlong : IsBroken (part ++ more) rest) : more = [] := by
  rcases hlong.begins with hbegins | hone
  · exact h.longest more (List.prefix_append more rest) hbegins
  · have hpart := List.length_pos_iff.mpr h.nonempty
    rw [List.length_append] at hone
    exact List.length_eq_zero_iff.mp (by omega)

namespace Splits

variable {bytes : Bytes} {pieces : List Piece}

/-- A byte string falls into pieces in one way. -/
theorem unique {others : List Piece} (h : Splits bytes pieces) (hothers : Splits bytes others) :
    others = pieces := by
  induction h generalizing others with
  | nil =>
      generalize hbytes : ([] : Bytes) = bytes at hothers
      cases hothers with
      | nil => rfl
      | whole c => simp [encodeChar_ne_nil] at hbytes
      | broken hbroken => simp [hbroken.nonempty] at hbytes
  | @whole rest pieces c hrest ih =>
      generalize hbytes : encodeChar c ++ rest = bytes at hothers
      cases hothers with
      | nil => simp [encodeChar_ne_nil] at hbytes
      | @whole otherRest _ d hother =>
          have hsame : c = d := by
            have hother : encodeChar d <+: encodeChar c ++ rest := ⟨otherRest, hbytes.symm⟩
            rcases List.prefix_or_prefix_of_prefix (List.prefix_append _ rest) hother with hc | hd
            · exact encodeChar_inj_of_begins hc
            · exact (encodeChar_inj_of_begins hd).symm
          subst hsame
          rw [List.append_cancel_left_eq] at hbytes
          subst hbytes
          rw [ih hother]
      | broken hbroken _ =>
          exact absurd ⟨rest, hbytes⟩ (hbroken.noCharacter c)
  | @broken part rest pieces hbroken hrest ih =>
      generalize hbytes : part ++ rest = bytes at hothers
      cases hothers with
      | nil => simp [hbroken.nonempty] at hbytes
      | whole d _ => exact absurd ⟨_, hbytes.symm⟩ (hbroken.noCharacter d)
      | @broken otherPart otherRest _ hotherBroken hother =>
          obtain ⟨more, ⟨rfl, rfl⟩ | ⟨rfl, rfl⟩⟩ :
              ∃ more, (otherPart = part ++ more ∧ rest = more ++ otherRest) ∨
                (part = otherPart ++ more ∧ otherRest = more ++ rest) := by
            rcases List.append_eq_append_iff.mp hbytes with ⟨more, h⟩ | ⟨more, h⟩
            · exact ⟨more, .inl h⟩
            · exact ⟨more, .inr h⟩
          · obtain rfl := hbroken.append_eq hotherBroken
            simp only [List.append_nil, List.nil_append] at *
            rw [ih hother]
          · obtain rfl := hotherBroken.append_eq hbroken
            simp only [List.append_nil, List.nil_append] at *
            rw [ih hother]

/-- How many bytes the text has that is read: three for each broken piece. -/
theorem length_encode_decode (h : Splits bytes pieces) :
    (encode (decode bytes)).length = shownSize pieces := by
  obtain ⟨found, hfound, hread⟩ := splits_decode bytes
  obtain rfl := h.unique hfound
  rw [encode, hread, length_flatMap_shown]

end Splits

end RowStore.Text.Utf8
