import RowStore.Text.Utf8

/-!
# Texts survive UTF-8

`decode` gives back every text that `encode` has written. The reader walks over the bytes one at
a time, so the theorem follows from what it does with the bytes of one character: `lead_two`,
`lead_three`, and `lead_four` say what the first byte of a longer form announces, and that the
second byte lies in the range that it announces.
-/

namespace RowStore.Text.Utf8

variable {code : Nat}

/-- The first byte of two. -/
theorem lead_two (hlow : 0x80 ≤ code) (hhigh : code < 0x800) :
    lead (.ofNat (0xC0 + code / 64)) = .begins ⟨code / 64, .any, []⟩ := by
  have hbyte : (UInt8.ofNat (0xC0 + code / 64)).toNat = 0xC0 + code / 64 := by
    rw [UInt8.toNat_ofNat']
    omega
  unfold lead
  simp only [hbyte]
  rw [if_neg (by omega), if_neg (by omega), if_pos (by omega), Nat.add_sub_cancel_left]

/-- The first byte of three, and the second one. -/
theorem lead_three (hlow : 0x800 ≤ code) (hhigh : code < 0x10000)
    (hvalid : code < 0xD800 ∨ 0xDFFF < code) :
    ∃ range, lead (.ofNat (0xE0 + code / 4096)) = .begins ⟨code / 4096, range, [.any]⟩ ∧
      range.admits (.ofNat (0x80 + code / 64 % 64)) = true := by
  have hfirst : (UInt8.ofNat (0xE0 + code / 4096)).toNat = 0xE0 + code / 4096 := by
    rw [UInt8.toNat_ofNat']
    omega
  have hsecond : (UInt8.ofNat (0x80 + code / 64 % 64)).toNat = 0x80 + code / 64 % 64 := by
    rw [UInt8.toNat_ofNat']
    omega
  unfold lead Range.admits
  simp only [hfirst, hsecond, Bool.and_eq_true, decide_eq_true_eq]
  rw [if_neg (by omega), if_neg (by omega), if_neg (by omega)]
  -- The second byte has a range of its own after the first bytes that could begin an overlong form
  -- or a surrogate.
  by_cases hshort : code / 4096 = 0
  · refine ⟨⟨0xA0, 0xBF⟩, ?_, ?_⟩
    · rw [if_pos (by omega), hshort]
    · show 0xA0 ≤ 0x80 + code / 64 % 64 ∧ 0x80 + code / 64 % 64 ≤ 0xBF
      omega
  · by_cases hsurrogate : code / 4096 = 13
    · refine ⟨⟨0x80, 0x9F⟩, ?_, ?_⟩
      · rw [if_neg (by omega), if_pos (by omega), hsurrogate]
      · show 0x80 ≤ 0x80 + code / 64 % 64 ∧ 0x80 + code / 64 % 64 ≤ 0x9F
        omega
    · refine ⟨.any, ?_, ?_⟩
      · rw [if_neg (by omega), if_neg (by omega), if_pos (by omega), Nat.add_sub_cancel_left]
      · show 0x80 ≤ 0x80 + code / 64 % 64 ∧ 0x80 + code / 64 % 64 ≤ 0xBF
        omega

/-- The first byte of four, and the second one. -/
theorem lead_four (hlow : 0x10000 ≤ code) (hhigh : code < 0x110000) :
    ∃ range, lead (.ofNat (0xF0 + code / 262144)) =
        .begins ⟨code / 262144, range, [.any, .any]⟩ ∧
      range.admits (.ofNat (0x80 + code / 4096 % 64)) = true := by
  have hfirst : (UInt8.ofNat (0xF0 + code / 262144)).toNat = 0xF0 + code / 262144 := by
    rw [UInt8.toNat_ofNat']
    omega
  have hsecond : (UInt8.ofNat (0x80 + code / 4096 % 64)).toNat = 0x80 + code / 4096 % 64 := by
    rw [UInt8.toNat_ofNat']
    omega
  unfold lead Range.admits
  simp only [hfirst, hsecond, Bool.and_eq_true, decide_eq_true_eq]
  rw [if_neg (by omega), if_neg (by omega), if_neg (by omega), if_neg (by omega),
    if_neg (by omega), if_neg (by omega)]
  -- Likewise for overlong forms, and for what lies beyond the last character.
  by_cases hshort : code / 262144 = 0
  · refine ⟨⟨0x90, 0xBF⟩, ?_, ?_⟩
    · rw [if_pos (by omega), hshort]
    · show 0x90 ≤ 0x80 + code / 4096 % 64 ∧ 0x80 + code / 4096 % 64 ≤ 0xBF
      omega
  · by_cases hlast : code / 262144 = 4
    · refine ⟨⟨0x80, 0x8F⟩, ?_, ?_⟩
      · rw [if_neg (by omega), if_neg (by omega), if_pos (by omega), hlast]
      · show 0x80 ≤ 0x80 + code / 4096 % 64 ∧ 0x80 + code / 4096 % 64 ≤ 0x8F
        omega
    · refine ⟨.any, ?_, ?_⟩
      · rw [if_neg (by omega), if_pos (by omega), Nat.add_sub_cancel_left]
      · show 0x80 ≤ 0x80 + code / 4096 % 64 ∧ 0x80 + code / 4096 % 64 ≤ 0xBF
        omega

/-- A continuation byte adds its six bits to the number that a character is written by. -/
theorem decodeFrom_continue (range : Range) (later : List Range) (rest : Bytes) {six : Nat}
    (hsix : six < 64) (hadmits : range.admits (.ofNat (0x80 + six)) = true) :
    decodeFrom (some ⟨code, range, later⟩) (.ofNat (0x80 + six) :: rest) =
      match later with
      | [] => Char.ofNat (code * 64 + six) :: decodeFrom none rest
      | next :: later => decodeFrom (some ⟨code * 64 + six, next, later⟩) rest := by
  have hbyte : (UInt8.ofNat (0x80 + six)).toNat - 0x80 = six := by
    rw [UInt8.toNat_ofNat']
    omega
  cases later <;> rw [decodeFrom, if_pos hadmits, hbyte]

/-- A byte that begins a character leaves the reader in the middle of it. -/
theorem decodeFrom_begins {byte : UInt8} {part : Partial} (hlead : lead byte = .begins part)
    (rest : Bytes) : decodeFrom none (byte :: rest) = decodeFrom (some part) rest := by
  rw [decodeFrom, hlead]

/-- Any continuation byte is admitted where no range is announced. -/
theorem admits_any {six : Nat} (hsix : six < 64) :
    Range.any.admits (.ofNat (0x80 + six)) = true := by
  have hbyte : (UInt8.ofNat (0x80 + six)).toNat = 0x80 + six := by
    rw [UInt8.toNat_ofNat']
    omega
  unfold Range.admits
  simp only [hbyte, Bool.and_eq_true, decide_eq_true_eq]
  show 0x80 ≤ 0x80 + six ∧ 0x80 + six ≤ 0xBF
  omega

/-- The bytes of a character are read as this character. -/
theorem decodeFrom_encodeChar (c : Char) (rest : Bytes) :
    decodeFrom none (encodeChar c ++ rest) = c :: decodeFrom none rest := by
  have hvalid : c.toNat < 0xD800 ∨ 0xDFFF < c.toNat ∧ c.toNat < 0x110000 := c.valid
  have hany : ∀ code, Range.any.admits (.ofNat (0x80 + code % 64)) = true :=
    fun code => admits_any (Nat.mod_lt _ (by omega))
  have hsix : ∀ code, code % 64 < 64 := fun code => Nat.mod_lt _ (by omega)
  -- The cases are the lengths of the encoding. In each, the first byte announces which bytes come,
  -- and every byte after it adds six bits.
  by_cases hone : c.toNat < 0x80
  · have hbyte : (UInt8.ofNat c.toNat).toNat = c.toNat := by
      rw [UInt8.toNat_ofNat']
      omega
    have hbytes : encodeChar c = [.ofNat c.toNat] := by
      simp only [encodeChar, if_pos hone]
    rw [hbytes, List.singleton_append, decodeFrom]
    simp only [lead, hbyte, if_pos hone, Char.ofNat_toNat]
  by_cases htwo : c.toNat < 0x800
  · have hbytes : encodeChar c =
        [.ofNat (0xC0 + c.toNat / 64), .ofNat (0x80 + c.toNat % 64)] := by
      simp only [encodeChar, if_neg hone, if_pos htwo]
    rw [hbytes, List.cons_append, List.singleton_append,
      decodeFrom_begins (lead_two (by omega) htwo),
      decodeFrom_continue _ _ _ (hsix _) (hany _)]
    show Char.ofNat (c.toNat / 64 * 64 + c.toNat % 64) :: _ = _
    rw [show c.toNat / 64 * 64 + c.toNat % 64 = c.toNat from by omega, Char.ofNat_toNat]
  by_cases hthree : c.toNat < 0x10000
  · have hbytes : encodeChar c = [.ofNat (0xE0 + c.toNat / 4096),
        .ofNat (0x80 + c.toNat / 64 % 64), .ofNat (0x80 + c.toNat % 64)] := by
      simp only [encodeChar, if_neg hone, if_neg htwo, if_pos hthree]
    obtain ⟨range, hlead, hadmits⟩ := @lead_three c.toNat (by omega) hthree (by omega)
    rw [hbytes, List.cons_append, List.cons_append, List.singleton_append,
      decodeFrom_begins hlead, decodeFrom_continue _ _ _ (hsix _) hadmits]
    show decodeFrom (some ⟨_, .any, []⟩) _ = _
    rw [decodeFrom_continue _ _ _ (hsix _) (hany _)]
    show Char.ofNat ((c.toNat / 4096 * 64 + c.toNat / 64 % 64) * 64 + c.toNat % 64) :: _ = _
    rw [show (c.toNat / 4096 * 64 + c.toNat / 64 % 64) * 64 + c.toNat % 64 = c.toNat from by
      omega, Char.ofNat_toNat]
  · have hbytes : encodeChar c = [.ofNat (0xF0 + c.toNat / 262144),
        .ofNat (0x80 + c.toNat / 4096 % 64), .ofNat (0x80 + c.toNat / 64 % 64),
        .ofNat (0x80 + c.toNat % 64)] := by
      simp only [encodeChar, if_neg hone, if_neg htwo, if_neg hthree]
    obtain ⟨range, hlead, hadmits⟩ := @lead_four c.toNat (by omega) (by omega)
    rw [hbytes, List.cons_append, List.cons_append, List.cons_append, List.singleton_append,
      decodeFrom_begins hlead, decodeFrom_continue _ _ _ (hsix _) hadmits]
    show decodeFrom (some ⟨_, .any, [.any]⟩) _ = _
    rw [decodeFrom_continue _ _ _ (hsix _) (hany _)]
    show decodeFrom (some ⟨_, .any, []⟩) _ = _
    rw [decodeFrom_continue _ _ _ (hsix _) (hany _)]
    show Char.ofNat (((c.toNat / 262144 * 64 + c.toNat / 4096 % 64) * 64 +
      c.toNat / 64 % 64) * 64 + c.toNat % 64) :: _ = _
    rw [show ((c.toNat / 262144 * 64 + c.toNat / 4096 % 64) * 64 + c.toNat / 64 % 64) * 64 +
      c.toNat % 64 = c.toNat from by omega, Char.ofNat_toNat]

/-- The bytes of characters, one after the other, are read as these characters. -/
theorem decodeFrom_encode (text : List Char) :
    decodeFrom none (text.flatMap encodeChar) = text := by
  induction text with
  | nil => rfl
  | cons c rest ih =>
      rw [List.flatMap_cons, decodeFrom_encodeChar, ih]

/-- The bytes of a text are read as the text. -/
theorem decode_encode (text : String) : decode (encode text) = text := by
  unfold decode encode
  rw [decodeFrom_encode, String.ofList_toList]

end RowStore.Text.Utf8
