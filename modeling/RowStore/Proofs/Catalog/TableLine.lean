import Mathlib.Data.List.Forall2
import RowStore.Catalog.TableLine
import RowStore.Proofs.Text.Words

/-!
# The form of the lines of a schema file

`TableLine.Written` is the grammar of the lines that are accepted: a name, then fields in
parentheses, and then any text without a closing parenthesis. `Documented` asks for more, that only
blanks follow the fields and that at most one field is marked. `parse_documented` says that a line
of the documented form is read as the table that it was written for, however its blanks are laid
out and in whatever letter case its types are named. `parse_accepts_iff` says which lines are
accepted and how they are read, and when such a line has the documented form.
-/

namespace RowStore

namespace ColumnType

/-- Every character of the word is the letter of the name at its place, or the capital one. -/
def Spells (word name : List Char) : Prop :=
  List.Forall₂ (fun c letter => c = letter ∨ c = letter.toUpper) word name

/-- The word names the type, in any letter case. -/
inductive Named : ColumnType → List Char → Prop where
  | integer {word : List Char} : Spells word ['i', 'n', 't'] → Named .integer word
  | text {word : List Char} : Spells word ['s', 't', 'r', 'i', 'n', 'g'] →
      Named (.text declaredLimit) word

variable {type : ColumnType} {word name : List Char}

/-- The number of a character in lower case. -/
theorem toNat_toLower (c : Char) : c.toLower.toNat =
    if 65 ≤ c.toNat ∧ c.toNat ≤ 90 then c.toNat + 32 else c.toNat := by
  delta Char.toLower
  split
  · rename_i hcapital
    have hlow : 65 ≤ c.toNat := hcapital.1
    have hhigh : c.toNat ≤ 90 := hcapital.2
    rw [if_pos ⟨hlow, hhigh⟩]
    show (c.val + 32).toNat = _
    rw [UInt32.toNat_add]
    show (c.toNat + 32) % 2 ^ 32 = _
    omega
  · rename_i hcapital
    exact (if_neg (show ¬ (65 ≤ c.toNat ∧ c.toNat ≤ 90) from hcapital)).symm

/-- The number of a character in upper case. -/
theorem toNat_toUpper (c : Char) : c.toUpper.toNat =
    if 97 ≤ c.toNat ∧ c.toNat ≤ 122 then c.toNat - 32 else c.toNat := by
  delta Char.toUpper
  split
  · rename_i hsmall
    have hlow : 97 ≤ c.toNat := hsmall.1
    have hhigh : c.toNat ≤ 122 := hsmall.2
    rw [if_pos ⟨hlow, hhigh⟩]
    -- The difference of the letters is negative, so that the sum wraps around.
    show (c.val + ('A'.val - 'a'.val)).toNat = _
    rw [UInt32.toNat_add]
    show (c.toNat + 4294967264) % 2 ^ 32 = _
    omega
  · rename_i hsmall
    exact (if_neg (show ¬ (97 ≤ c.toNat ∧ c.toNat ≤ 122) from hsmall)).symm

/-- The numbers of the small letters. -/
theorem isLower_iff (c : Char) : c.isLower = true ↔ 97 ≤ c.toNat ∧ c.toNat ≤ 122 := by
  delta Char.isLower
  rw [Bool.and_eq_true, decide_eq_true_eq, decide_eq_true_eq]
  rfl

/-- A character that becomes a small letter in lower case is that letter or the capital one. -/
theorem toLower_eq_iff {c letter : Char} (hletter : letter.isLower = true) :
    c.toLower = letter ↔ c = letter ∨ c = letter.toUpper := by
  rw [isLower_iff] at hletter
  simp only [← Char.toNat_inj, toNat_toLower, toNat_toUpper, if_pos hletter]
  split <;> omega

/-- A word spells a name in small letters if it is that name in lower case. -/
theorem spells_iff (hname : ∀ letter ∈ name, letter.isLower = true) :
    Spells word name ↔ word.map Char.toLower = name := by
  induction name generalizing word with
  | nil => simp [Spells]
  | cons letter name ih =>
      rw [List.forall_mem_cons] at hname
      cases word with
      | nil => simp [Spells]
      | cons c word =>
          rw [Spells, List.forall₂_cons, List.map_cons, List.cons.injEq, toLower_eq_iff hname.1]
          exact and_congr_right' (ih hname.2)

/-- A type is found for the words that name it. -/
theorem named_iff : Named type word ↔ ofName? (.ofList word) = some type := by
  have hinteger : Spells word ['i', 'n', 't'] ↔
      (String.ofList word).map Char.toLower = "int" := by
    rw [spells_iff (by simp), ← String.toList_inj, String.toList_map, String.toList_ofList]
    rfl
  have htext : Spells word ['s', 't', 'r', 'i', 'n', 'g'] ↔
      (String.ofList word).map Char.toLower = "string" := by
    rw [spells_iff (by simp), ← String.toList_inj, String.toList_map, String.toList_ofList]
    rfl
  rw [ofName?]
  constructor
  · rintro (h | h)
    · rw [if_pos (hinteger.mp h)]
    · have hfolded := htext.mp h
      rw [if_neg (by rw [hfolded]; decide), if_pos hfolded]
  · intro h
    split at h
    · rename_i hfolded
      rw [← Option.some.inj h]
      exact .integer (hinteger.mpr hfolded)
    · split at h
      · rename_i hfolded
        rw [← Option.some.inj h]
        exact .text (htext.mpr hfolded)
      · simp at h

end ColumnType

namespace FieldEntry

/-- The field is written like this: the name of the column and that of its type, and the mark `pk`
if the column is the key. -/
inductive Written : FieldEntry → List Char → Prop where
  | plain {name : String} {type : ColumnType} {typeName text : List Char} :
      type.Named typeName → Text.Spaced [name.toList, typeName] text →
      Written ⟨⟨name, type⟩, false⟩ text
  | key {name : String} {type : ColumnType} {typeName text : List Char} :
      type.Named typeName → Text.Spaced [name.toList, typeName, ['p', 'k']] text →
      Written ⟨⟨name, type⟩, true⟩ text

variable {entry : FieldEntry} {text : List Char}

/-- A field is read as what it was written for. -/
theorem parse_of_written (h : Written entry text) : parse text = .ok entry := by
  cases h with
  | plain htype hwords | key htype hwords =>
      rw [parse, ← Text.spaced_iff.mp hwords]
      simp [ofWords, ColumnType.named_iff.mp htype]

/-- The words of a field are accepted if the second one names a type and a third one is the mark. -/
theorem ofWords_eq_ok {name typeName : List Char} {mark : Option (List Char)}
    (h : ofWords name typeName mark = .ok entry) : ∃ type, ColumnType.Named type typeName ∧
      (mark = none ∧ entry = ⟨⟨.ofList name, type⟩, false⟩ ∨
        mark = some ['p', 'k'] ∧ entry = ⟨⟨.ofList name, type⟩, true⟩) := by
  rw [ofWords] at h
  split at h
  · simp at h
  · rename_i type htype
    refine ⟨type, ColumnType.named_iff.mpr htype, ?_⟩
    cases mark with
    | none => exact .inl ⟨rfl, (Except.ok.inj h).symm⟩
    | some mark =>
        simp only at h
        split at h
        · rename_i hmark
          exact .inr ⟨congrArg some hmark, (Except.ok.inj h).symm⟩
        · simp at h

/-- A field that is accepted was written for what it is read as. -/
theorem written_of_parse (h : parse text = .ok entry) : Written entry text := by
  have hwords := Text.spaced_words text
  rw [parse] at h
  split at h
  · simp at h
  · rename_i name typeName hfound
    rw [hfound, ← String.toList_ofList (l := name)] at hwords
    obtain ⟨type, htype, ⟨-, rfl⟩ | ⟨hmark, -⟩⟩ := ofWords_eq_ok h
    · exact .plain htype hwords
    · simp at hmark
  · rename_i name typeName mark hfound
    rw [hfound, ← String.toList_ofList (l := name)] at hwords
    obtain ⟨type, htype, ⟨hmark, -⟩ | ⟨hmark, rfl⟩⟩ := ofWords_eq_ok h
    · simp at hmark
    · rw [Option.some.inj hmark] at hwords
      exact .key htype hwords
  · simp at h

/-- A field is accepted if it is written like this, and is read as what it was written for. -/
theorem written_iff : Written entry text ↔ parse text = .ok entry :=
  ⟨parse_of_written, written_of_parse⟩

/-- Fields are read one after the other. -/
theorem mapM_parse_iff {entries : List FieldEntry} {pieces : List (List Char)} :
    pieces.mapM parse = .ok entries ↔ List.Forall₂ Written entries pieces := by
  induction pieces generalizing entries with
  | nil =>
      rw [List.mapM_nil, List.forall₂_nil_right_iff]
      exact ⟨fun h => (Except.ok.inj h).symm, fun h => congrArg Except.ok h.symm⟩
  | cons piece rest ih =>
      rw [List.mapM_cons, List.forall₂_cons_right_iff]
      constructor
      · intro h
        cases hpiece : parse piece with
        | error fault => simp [hpiece, bind, Except.bind] at h
        | ok entry =>
            cases hrest : rest.mapM parse with
            | error fault => simp [hpiece, hrest, bind, Except.bind] at h
            | ok later =>
                simp only [hpiece, hrest, bind, Except.bind, pure, Except.pure] at h
                exact ⟨entry, later, written_of_parse hpiece, ih.mp hrest, (Except.ok.inj h).symm⟩
      · rintro ⟨entry, later, hentry, hlater, rfl⟩
        rw [parse_of_written hentry, ih.mpr hlater]
        rfl

end FieldEntry

namespace TableLine

/-- The line is written like this: a name, these fields in parentheses, with commas between them,
and then a text. Blanks may stand around the name. -/
inductive Written (name : String) (entries : List FieldEntry) (rest : List Char) :
    List Char → Prop where
  | line {before gap inside : List Char} {pieces : List (List Char)} :
      Text.IsGap before → Text.IsGap gap → name ≠ "" → Text.IsTrimmed name.toList →
      '(' ∉ name.toList → Text.CutInto (· = ',') pieces inside →
      List.Forall₂ FieldEntry.Written entries pieces →
      Written name entries rest (before ++ name.toList ++ gap ++ '(' :: (inside ++ ')' :: rest))

/-- The line has the form `name (field type [pk], ...)`. Only blanks follow the fields, and at most
one field is marked. -/
structure Documented (name : String) (entries : List FieldEntry) (line : List Char) : Prop where
  written : ∃ rest, Text.IsGap rest ∧ Written name entries rest line
  once : entries.countP FieldEntry.isKey ≤ 1

/-- The table has this name and the columns of these fields. The last of the marked columns, if
there is one, is the key. -/
structure Tells (name : String) (entries : List FieldEntry) (described : TableLine) : Prop where
  name : described.name = name
  columns : described.columns = entries.map FieldEntry.column
  key : ∀ key, described.primaryKey = some key ↔ ∃ earlier entry later,
    entries = earlier ++ entry :: later ∧ entry.isKey = true ∧ entry.column.name = key ∧
      ∀ other ∈ later, other.isKey = false

variable {name : String} {entries : List FieldEntry} {line before inside rest : List Char}
  {described : TableLine}

/-- The key is the last of the marked columns. -/
theorem keyOf_eq_some_iff {key : String} : keyOf entries = some key ↔
    ∃ earlier entry later, entries = earlier ++ entry :: later ∧ entry.isKey = true ∧
      entry.column.name = key ∧ ∀ other ∈ later, other.isKey = false := by
  simp only [keyOf, List.getLast?_filter, Option.map_eq_some_iff, List.find?_eq_some_iff_append]
  constructor
  · rintro ⟨entry, ⟨hkey, later, earlier, hentries, hlater⟩, rfl⟩
    refine ⟨earlier.reverse, entry, later.reverse, ?_, hkey, rfl, fun other hother => ?_⟩
    · simpa using congrArg List.reverse hentries
    · simpa using hlater other (List.mem_reverse.mp hother)
  · rintro ⟨earlier, entry, later, rfl, hkey, rfl, hlater⟩
    exact ⟨entry, ⟨hkey, later.reverse, earlier.reverse, by simp, by simpa using hlater⟩, rfl⟩

/-- There is one table that fields tell of. -/
theorem tells_iff : Tells name entries described ↔
    described = ⟨name, entries.map FieldEntry.column, keyOf entries⟩ := by
  constructor
  · rintro ⟨hname, hcolumns, hkey⟩
    have hsame : described.primaryKey = keyOf entries :=
      Option.ext fun key => (hkey key).trans keyOf_eq_some_iff.symm
    rw [← hname, ← hcolumns, ← hsame]
  · rintro rfl
    exact ⟨rfl, rfl, fun key => keyOf_eq_some_iff⟩

/-- A text up to the first one of a character. -/
theorem takeWhile_ne_append {c : Char} (h : c ∉ before) (rest : List Char) :
    (before ++ c :: rest).takeWhile (· ≠ c) = before := by
  have hbefore : ∀ other ∈ before, decide (other ≠ c) = true :=
    fun other hother => decide_eq_true fun heq => h (heq ▸ hother)
  rw [List.takeWhile_append_of_pos hbefore, List.takeWhile_cons_of_neg (by simp), List.append_nil]

/-- A text through the last one of a character. -/
theorem reverse_dropWhile_ne_append {c : Char} (h : c ∉ rest) (front : List Char) :
    ((front ++ c :: rest).reverse.dropWhile (· ≠ c)).reverse = front ++ [c] := by
  have hrest : ∀ other ∈ rest.reverse, decide (other ≠ c) = true :=
    fun other hother => decide_eq_true fun heq => h (heq ▸ List.mem_reverse.mp hother)
  rw [List.reverse_append, List.reverse_cons, List.append_assoc,
    List.dropWhile_append_of_pos hrest, List.singleton_append,
    List.dropWhile_cons_of_neg (by simp), List.reverse_cons, List.reverse_reverse]

/-- The parts of a line whose first opening and last closing parenthesis are known. -/
theorem parts_of_cuts {tail front : List Char} (hopening : line = before ++ '(' :: tail)
    (hbefore : '(' ∉ before) (hclosing : line = front ++ ')' :: rest) (hrest : ')' ∉ rest) :
    parts line =
      if (front ++ [')']).length ≤ before.length then .error .closingFirst
      else .ok (before, ((front ++ [')']).drop (before.length + 1)).dropLast) := by
  have hfirst : line.takeWhile (· ≠ '(') = before := hopening ▸ takeWhile_ne_append hbefore tail
  have hlast : (line.reverse.dropWhile (· ≠ ')')).reverse = front ++ [')'] :=
    hclosing ▸ reverse_dropWhile_ne_append hrest front
  have hlength : before.length ≠ line.length := by
    rw [hopening]
    simp
  simp only [parts, hfirst, hlast]
  rw [if_neg hlength, if_neg (by simp)]

/-- The parts of a line are what is before its parentheses and what is between them. -/
theorem parts_of_split (hbefore : '(' ∉ before) (hrest : ')' ∉ rest) :
    parts (before ++ '(' :: (inside ++ ')' :: rest)) = .ok (before, inside) := by
  have hclosing : before ++ '(' :: (inside ++ ')' :: rest) =
      (before ++ '(' :: inside) ++ ')' :: rest := by simp
  have hthrough : before ++ '(' :: inside ++ [')'] = (before ++ ['(']) ++ (inside ++ [')']) := by
    simp
  rw [parts_of_cuts rfl hbefore hclosing hrest, if_neg (by simp), hthrough,
    List.drop_left' (by simp), List.dropLast_concat]

/-- A line that is cut has both parentheses. -/
theorem mem_of_parts (h : parts line = .ok (before, inside)) : '(' ∈ line ∧ ')' ∈ line := by
  simp only [parts] at h
  constructor
  · by_contra hnone
    have hall : line.takeWhile (· ≠ '(') = line :=
      List.takeWhile_eq_self_iff.mpr fun c hc => decide_eq_true fun heq => hnone (heq ▸ hc)
    rw [hall, if_pos rfl] at h
    simp at h
  · by_contra hnone
    have hall : line.reverse.dropWhile (· ≠ ')') = [] :=
      List.dropWhile_eq_nil_iff.mpr fun c hc =>
        decide_eq_true fun heq => hnone (heq ▸ List.mem_reverse.mp hc)
    rw [hall] at h
    split at h <;> simp at h

/-- A line is cut at its first opening and its last closing parenthesis. -/
theorem parts_eq_ok_iff : parts line = .ok (before, inside) ↔
    ∃ rest, line = before ++ '(' :: (inside ++ ')' :: rest) ∧ '(' ∉ before ∧ ')' ∉ rest := by
  constructor
  · intro h
    obtain ⟨hopening, hclosing⟩ := mem_of_parts h
    obtain ⟨found, tail, hfirst, hfound⟩ := List.eq_append_cons_of_mem hopening
    obtain ⟨behind, ahead, hlast, hbehind⟩ :=
      List.eq_append_cons_of_mem (List.mem_reverse.mpr hclosing)
    have hlast : line = ahead.reverse ++ ')' :: behind.reverse := by
      simpa using congrArg List.reverse hlast
    have hrest : ')' ∉ behind.reverse := fun hmem => hbehind (List.mem_reverse.mp hmem)
    rcases List.append_eq_append_iff.mp (hfirst.symm.trans hlast) with
      ⟨between, hahead, htail⟩ | ⟨between, hbefore, htail⟩
    · cases between with
      | nil => simp at htail
      | cons c between =>
          rw [List.cons_append, List.cons.injEq] at htail
          rw [hfirst, htail.2, parts_of_split hfound hrest] at h
          obtain ⟨rfl, rfl⟩ := Prod.mk.inj (Except.ok.inj h)
          exact ⟨_, by rw [hfirst, htail.2], hfound, hrest⟩
    · -- The last closing parenthesis stands before the first opening one.
      rw [parts_of_cuts hfirst hfound hlast hrest, if_pos] at h
      · simp at h
      · cases between with
        | nil => simp at htail
        | cons c between =>
            rw [hbefore]
            simp
  · rintro ⟨rest, rfl, hbefore, hrest⟩
    exact parts_of_split hbefore hrest

/-- Blanks are no parentheses. -/
theorem not_mem_of_isGap {gap : List Char} (hgap : Text.IsGap gap) : '(' ∉ gap ∧ ')' ∉ gap :=
  ⟨fun h => absurd (hgap _ h) (by decide), fun h => absurd (hgap _ h) (by decide)⟩

/-- A line is written with a name, fields, and a text after them if these are its parts. -/
theorem written_iff (hrest : ')' ∉ rest) : Written name entries rest line ↔
    ∃ front inside, line = front ++ '(' :: (inside ++ ')' :: rest) ∧
      parts line = .ok (front, inside) ∧ Text.trim front = name.toList ∧ name ≠ "" ∧
      (Text.splitWhen (· = ',') inside).mapM FieldEntry.parse = .ok entries := by
  constructor
  · rintro ⟨hbefore, hgap, hname, htrimmed, hopening, hcut, hentries⟩
    rename_i before gap inside pieces
    have hfront : '(' ∉ before ++ name.toList ++ gap := by
      simp [(not_mem_of_isGap hbefore).1, (not_mem_of_isGap hgap).1, hopening]
    have hsome : name.toList ≠ [] := fun h => hname (String.toList_eq_nil_iff.mp h)
    refine ⟨_, inside, rfl, parts_of_split hfront hrest,
      Text.trim_eq hbefore hgap htrimmed hsome, hname, ?_⟩
    rw [← Text.cutInto_iff.mp hcut]
    exact FieldEntry.mapM_parse_iff.mpr hentries
  · rintro ⟨front, inside, rfl, hparts, hname, hsome, hentries⟩
    obtain ⟨before, gap, hbefore, hgap, hfront, htrimmed⟩ := Text.exists_trim front
    rw [hname] at hfront htrimmed
    have hopening : '(' ∉ name.toList := by
      obtain ⟨_, _, hnone, _⟩ := parts_eq_ok_iff.mp hparts
      rw [hfront] at hnone
      simp_all
    rw [hfront]
    exact .line hbefore hgap hsome htrimmed hopening (Text.cutInto_splitWhen _ inside)
      (FieldEntry.mapM_parse_iff.mp hentries)

/-- What is accepted has been written, and is read as the table that it tells of. -/
theorem parse_iff_written : parse line = .ok described ↔ ∃ name entries rest,
    Written name entries rest line ∧ ')' ∉ rest ∧ Tells name entries described := by
  constructor
  · intro h
    rw [parse] at h
    split at h
    · simp at h
    · rename_i before inside hparts
      obtain ⟨rest, hline, _, hrest⟩ := parts_eq_ok_iff.mp hparts
      simp only at h
      split at h
      · simp at h
      · rename_i hsome
        split at h
        · simp at h
        · rename_i entries hentries
          refine ⟨.ofList (Text.trim before), entries, rest, (written_iff hrest).mpr
            ⟨before, inside, hline, hparts, String.toList_ofList.symm, fun hempty => ?_, hentries⟩,
            hrest, tells_iff.mpr (Except.ok.inj h).symm⟩
          exact hsome (by simpa using congrArg String.toList hempty)
  · rintro ⟨name, entries, rest, hwritten, hrest, htells⟩
    obtain ⟨front, inside, -, hparts, hname, hsome, hentries⟩ := (written_iff hrest).mp hwritten
    have hempty : ¬ name.toList.isEmpty = true := fun h =>
      hsome (String.toList_eq_nil_iff.mp (List.isEmpty_iff.mp h))
    simp only [parse, hparts, hname, hentries]
    rw [if_neg hempty, String.ofList_toList, tells_iff.mp htells]

/-- The key of the table that a line describes is one of its columns. -/
theorem exists_column_of_parse {key : String} (h : parse line = .ok described)
    (hkey : described.primaryKey = some key) :
    ∃ column ∈ described.columns, column.name = key := by
  obtain ⟨name, entries, rest, -, -, htells⟩ := parse_iff_written.mp h
  obtain ⟨earlier, entry, later, rfl, -, hname, -⟩ := (htells.key key).mp hkey
  exact ⟨entry.column, by simp [htells.columns], hname⟩

/-- There is one way in which a line has been written. -/
theorem Written.unique {otherName : String} {others : List FieldEntry} {other : List Char}
    (h : Written name entries rest line) (hrest : ')' ∉ rest)
    (hother : Written otherName others other line) (hclosing : ')' ∉ other) :
    entries = others ∧ rest = other := by
  obtain ⟨front, inside, hline, hparts, -, -, hentries⟩ := (written_iff hrest).mp h
  obtain ⟨_, _, hsame, hcut, -, -, hothers⟩ := (written_iff hclosing).mp hother
  rw [hcut, Except.ok.injEq, Prod.mk.injEq] at hparts
  obtain ⟨rfl, rfl⟩ := hparts
  refine ⟨Except.ok.inj (hentries.symm.trans hothers), ?_⟩
  simpa using hline.symm.trans hsame

/-- A line has the documented form if nothing follows its fields and at most one is marked. -/
theorem documented_iff (h : Written name entries rest line) (hrest : ')' ∉ rest) :
    (∃ name entries, Documented name entries line) ↔
      Text.IsGap rest ∧ entries.countP FieldEntry.isKey ≤ 1 := by
  constructor
  · rintro ⟨_, _, ⟨other, hgap, hother⟩, honce⟩
    obtain ⟨rfl, rfl⟩ := h.unique hrest hother (not_mem_of_isGap hgap).2
    exact ⟨hgap, honce⟩
  · rintro ⟨hgap, honce⟩
    exact ⟨name, entries, ⟨rest, hgap, h⟩, honce⟩

/-- If at most one field is marked, the key is the column of a marked field. -/
theorem Tells.key_iff_of_once (h : Tells name entries described)
    (honce : entries.countP FieldEntry.isKey ≤ 1) (key : String) :
    described.primaryKey = some key ↔
      ∃ entry ∈ entries, entry.isKey = true ∧ entry.column.name = key := by
  rw [h.key]
  constructor
  · rintro ⟨earlier, entry, later, rfl, hkey, hname, _⟩
    exact ⟨entry, by simp, hkey, hname⟩
  · rintro ⟨entry, hmem, hkey, hname⟩
    obtain ⟨earlier, later, rfl⟩ := List.append_of_mem hmem
    -- A marked field after this one would be counted as well.
    rw [List.countP_append, List.countP_cons_of_pos hkey] at honce
    have hlater : later.countP FieldEntry.isKey = 0 := by omega
    exact ⟨earlier, entry, later, rfl, hkey, hname,
      fun other hother => by simpa using List.countP_eq_zero.mp hlater other hother⟩

/-- A line of the documented form is read as what it was written for: the table with this name and
these columns, whose key is the marked one, if there is one. -/
theorem parse_documented (h : Documented name entries line) :
    ∃ described, parse line = .ok described ∧ described.name = name ∧
      described.columns = entries.map FieldEntry.column ∧
      ∀ key, described.primaryKey = some key ↔
        ∃ entry ∈ entries, entry.isKey = true ∧ entry.column.name = key := by
  obtain ⟨⟨rest, hgap, hwritten⟩, honce⟩ := h
  obtain ⟨described, htells⟩ : ∃ described, Tells name entries described :=
    ⟨_, tells_iff.mpr rfl⟩
  have hparse : parse line = .ok described := parse_iff_written.mpr
    ⟨name, entries, rest, hwritten, (not_mem_of_isGap hgap).2, htells⟩
  exact ⟨described, hparse, htells.name, htells.columns, htells.key_iff_of_once honce⟩

/-- Parentheses in the names, wide blanks, and types in mixed letters are read back. -/
theorem parse_documented_odd_names :
    ∃ described, parse "\t a)b  (  (x\u3000InT  pk ,y)\tSTRING )\u2003".toList = .ok described ∧
      described.name = "a)b" ∧
      described.columns = [⟨"(x", .integer⟩, ⟨"y)", .text ColumnType.declaredLimit⟩] ∧
      described.primaryKey = some "(x" := by
  have hkey : FieldEntry.Written ⟨⟨"(x", .integer⟩, true⟩ "  (x\u3000InT  pk ".toList :=
    .key (.integer (ColumnType.spells_iff (by simp) |>.mpr rfl)) (Text.spaced_iff.mpr rfl)
  have hplain : FieldEntry.Written ⟨⟨"y)", .text ColumnType.declaredLimit⟩, false⟩
      "y)\tSTRING ".toList :=
    .plain (.text (ColumnType.spells_iff (by simp) |>.mpr rfl)) (Text.spaced_iff.mpr rfl)
  have htrimmed : Text.IsTrimmed "a)b".toList :=
    ⟨by rintro c ⟨⟩; decide, by rintro c ⟨⟩; decide⟩
  have hlayout : "\t a)b  (  (x\u3000InT  pk ,y)\tSTRING )\u2003".toList =
      "\t ".toList ++ "a)b".toList ++ "  ".toList ++
        '(' :: ("  (x\u3000InT  pk ,y)\tSTRING ".toList ++ ')' :: "\u2003".toList) := by
    decide +kernel
  have hwritten := @Written.line "a)b" _ "\u2003".toList "\t ".toList "  ".toList
    "  (x\u3000InT  pk ,y)\tSTRING ".toList _ (by decide) (by decide) (by decide)
    htrimmed (by decide) (Text.cutInto_iff.mpr rfl) (.cons hkey (.cons hplain .nil))
  rw [hlayout]
  obtain ⟨described, hparse, hname, hcolumns, hfound⟩ :=
    parse_documented ⟨⟨"\u2003".toList, by decide, hwritten⟩, by decide⟩
  exact ⟨described, hparse, hname, hcolumns, (hfound "(x").mpr ⟨_, .head _, rfl, rfl⟩⟩

/-- A line is accepted exactly if it is a name and fields in parentheses, with any text behind them
that has no closing parenthesis. It is read as the table with this name and the columns of these
fields, whose key is the last of the marked ones. Such a line has the documented form if only blanks
are behind the fields and at most one of them is marked. -/
theorem parse_accepts_iff : parse line = .ok described ↔
    ∃ name entries rest, Written name entries rest line ∧ ')' ∉ rest ∧
      Tells name entries described ∧
      ((∃ name entries, Documented name entries line) ↔
        Text.IsGap rest ∧ entries.countP FieldEntry.isKey ≤ 1) := by
  rw [parse_iff_written]
  constructor
  · rintro ⟨name, entries, rest, hwritten, hrest, htells⟩
    exact ⟨name, entries, rest, hwritten, hrest, htells, documented_iff hwritten hrest⟩
  · rintro ⟨name, entries, rest, hwritten, hrest, htells, _⟩
    exact ⟨name, entries, rest, hwritten, hrest, htells⟩

/-- A line with a word behind its fields, and one with two marked fields, are accepted, and neither
has the documented form. The second of the marked columns becomes the key. -/
theorem accepted_undocumented :
    (parse "t (v int) w".toList = .ok ⟨"t", [⟨"v", .integer⟩], none⟩ ∧
      ¬ ∃ name entries, Documented name entries "t (v int) w".toList) ∧
    parse "t (v int pk, w int pk)".toList =
        .ok ⟨"t", [⟨"v", .integer⟩, ⟨"w", .integer⟩], some "w"⟩ ∧
      ¬ ∃ name entries, Documented name entries "t (v int pk, w int pk)".toList := by
  have hword : Written "t" [⟨⟨"v", .integer⟩, false⟩] " w".toList "t (v int) w".toList :=
    (written_iff (by decide)).mpr
      ⟨"t ".toList, "v int".toList, rfl, rfl, rfl, by decide, by decide +kernel⟩
  have hmarks : Written "t" [⟨⟨"v", .integer⟩, true⟩, ⟨⟨"w", .integer⟩, true⟩] []
      "t (v int pk, w int pk)".toList :=
    (written_iff (by decide)).mpr
      ⟨"t ".toList, "v int pk, w int pk".toList, rfl, rfl, rfl, by decide, by decide +kernel⟩
  refine ⟨⟨parse_iff_written.mpr ⟨_, _, _, hword, by decide, tells_iff.mpr rfl⟩, ?_⟩,
    parse_iff_written.mpr ⟨_, _, _, hmarks, by decide, tells_iff.mpr rfl⟩, ?_⟩
  · rw [documented_iff hword (by decide)]
    decide
  · rw [documented_iff hmarks (by decide)]
    decide

end TableLine

end RowStore
