import RowStore.Proofs.Catalog.Registry
import RowStore.Proofs.Catalog.TableLine

/-!
# Schema files are loaded line by line

`Creates` says what it is to create the tables of some lines one after the other, and `Stops` what
it is for a line to end this: it is malformed, or its columns make no schema, or its table cannot
be created. Loading a schema file creates the tables of all lines that are not blank, or of those
before the first line that stops it, and what is after that line does not matter.

A line that is malformed leaves the catalog as it finds it. A table that cannot be created has
taken its number by then, so the catalog has the same tables as after the lines before it, and
hands out another number next.
-/

namespace RowStore

namespace SchemaFile

/-- These are the lines that are not blank, in order and with their numbers. Lines are counted from
one, and blank lines count. -/
structure Numbered (all : List (List Char)) (lines : List (Nat × List Char)) : Prop where
  ordered : lines.Pairwise fun first second => first.1 < second.1
  mem_iff : ∀ {number : Nat} {line : List Char}, (number, line) ∈ lines ↔
    ∃ index, number = index + 1 ∧ all[index]? = some line ∧
      ∃ c ∈ line, Text.isBlank c = false

/-- The lines of a text that are not blank, with their numbers. -/
theorem numbered_numberedLines (text : String) :
    Numbered (Text.lines text.toList) (numberedLines text) := by
  constructor
  · rw [numberedLines, List.pairwise_filterMap]
    have hordered : ((Text.lines text.toList).zipIdx 1).Pairwise
        fun first second => first.2 < second.2 := by
      rw [← List.pairwise_map, List.zipIdx_map_snd]
      exact List.pairwise_lt_range' 1
    refine hordered.imp fun {first second} hlt one hone other hother => ?_
    simp only [Option.ite_none_left_eq_some, Option.some.injEq] at hone hother
    rw [← hone.2, ← hother.2]
    exact hlt
  · intro number line
    have hblank : ¬ (Text.trim line).isEmpty = true ↔ ∃ c ∈ line, Text.isBlank c = false := by
      rw [Text.trim_isEmpty_iff]
      simp
    simp only [numberedLines, List.mem_filterMap, Option.ite_none_left_eq_some,
      Option.some.injEq, Prod.mk.injEq, Prod.exists]
    constructor
    · rintro ⟨_, _, hmem, hsome, rfl, rfl⟩
      obtain ⟨hpositive, hline⟩ := List.mk_mem_zipIdx_iff_le_and_getElem?_sub.mp hmem
      exact ⟨_, (Nat.sub_add_cancel hpositive).symm, hline, hblank.mp hsome⟩
    · rintro ⟨index, rfl, hline, hsome⟩
      refine ⟨line, index + 1, ?_, hblank.mpr hsome, rfl, rfl⟩
      exact List.mk_mem_zipIdx_iff_le_and_getElem?_sub.mpr ⟨Nat.le_add_left .., hline⟩

end SchemaFile

namespace Catalog

/-- The tables of these lines are created one after the other, with these numbers. -/
inductive Creates (folder : String) : Catalog → Storage → List (Nat × List Char) →
    List TableId → Catalog → Storage → Prop where
  | nil {catalog : Catalog} {storage : Storage} :
      Creates folder catalog storage [] [] catalog storage
  | cons {catalog middle after : Catalog} {storage opened left : Storage} {number : Nat}
      {line : List Char} {described : TableLine} {schema : Schema} {table : TableId}
      {rest : List (Nat × List Char)} {tables : List TableId} :
      TableLine.parse line = .ok described →
      Schema.ofColumns described.columns = .ok schema →
      catalog.create storage described.name schema (SchemaFile.dataPath folder described.name)
        described.primaryKey = (.ok table, middle, opened) →
      Creates folder middle opened rest tables after left →
      Creates folder catalog storage ((number, line) :: rest) (table :: tables) after left

/-- No table is created for this line, with this error, and the catalog is left like this. -/
inductive Stops (folder : String) (catalog : Catalog) (storage : Storage) :
    Nat × List Char → Error → Catalog → Prop where
  | malformed {number : Nat} {line : List Char} {fault : LineFault} :
      TableLine.parse line = .error fault →
      Stops folder catalog storage (number, line) (.invalidLine number fault) catalog
  | invalid {number : Nat} {line : List Char} {described : TableLine} {fault : SchemaFault} :
      TableLine.parse line = .ok described →
      Schema.ofColumns described.columns = .error fault →
      Stops folder catalog storage (number, line)
        (.invalidLine number (.invalidSchema fault)) catalog
  | uncreated {number : Nat} {line : List Char} {described : TableLine} {schema : Schema}
      {error : Error} :
      TableLine.parse line = .ok described →
      Schema.ofColumns described.columns = .ok schema →
      (catalog.create storage described.name schema (SchemaFile.dataPath folder described.name)
        described.primaryKey).1 = .error error →
      Stops folder catalog storage (number, line) error catalog.allocate.2

variable {catalog middle after : Catalog} {storage opened left : Storage} {folder : String}
  {lines earlier later : List (Nat × List Char)} {bad : Nat × List Char}
  {tables : List TableId} {error : Error}

/-- A table whose key is one of its columns fails to be created before any file is touched. Its
number is used up. -/
theorem create_of_error {name path : String} {schema : Schema} {primaryKey : Option String}
    (hkey : ∀ key, primaryKey = some key → ∃ column ∈ schema.columns, column.name = key)
    (h : (catalog.create storage name schema path primaryKey).1 = .error error) :
    catalog.create storage name schema path primaryKey =
      (.error error, catalog.allocate.2, storage) := by
  simp only [create] at h ⊢
  split at h
  · rw [Except.error.inj h]
  · rename_i heap opened hopen
    obtain ⟨hfits, hschema, _⟩ := HeapFile.openAt_eq_ok hopen
    have hadd : ∃ after, catalog.allocate.2.add heap name primaryKey = .ok after :=
      exists_add name hfits.pageSize (hschema ▸ hkey)
    obtain ⟨after, hadd⟩ := hadd
    simp [hadd] at h

/-- Loading goes on after lines whose tables are created. -/
theorem Creates.loadLines_append
    (h : Creates folder catalog storage earlier tables middle left)
    (later : List (Nat × List Char)) :
    catalog.loadLines storage folder (earlier ++ later) =
      let rest := middle.loadLines left folder later
      (rest.1.map (tables ++ ·), rest.2) := by
  induction h with
  | @nil catalog storage =>
      cases hload : catalog.loadLines storage folder later with
      | mk answer state => cases answer <;> simp [hload, Except.map]
  | @cons _ _ last _ _ left _ _ _ _ _ _ _ hparse hschema hcreate _ ih =>
      simp only [List.cons_append, loadLines, SchemaFile.readLine, hparse, hschema, hcreate, ih]
      cases last.loadLines left folder later with
      | mk answer state => cases answer <;> rfl

/-- The tables of all lines are created. -/
theorem Creates.loadLines_eq (h : Creates folder catalog storage lines tables after left) :
    catalog.loadLines storage folder lines = (.ok tables, after, left) := by
  simpa [loadLines, Except.map] using h.loadLines_append []

/-- Loading ends at the line that stops it. -/
theorem Stops.loadLines_eq (h : Stops folder catalog storage bad error after)
    (later : List (Nat × List Char)) :
    catalog.loadLines storage folder (bad :: later) = (.error error, after, storage) := by
  cases h with
  | malformed hparse => simp only [loadLines, SchemaFile.readLine, hparse]
  | invalid hparse hschema => simp only [loadLines, SchemaFile.readLine, hparse, hschema]
  | uncreated hparse hschema herror =>
      have hcreate := create_of_error (fun key hkey => by
        rw [Schema.columns_of_ofColumns hschema]
        exact TableLine.exists_column_of_parse hparse hkey) herror
      simp only [loadLines, SchemaFile.readLine, hparse, hschema, hcreate]

/-- The tables of all lines are created, or those of the lines before one that stops loading. -/
theorem creates_or_stops (folder : String) (catalog : Catalog) (storage : Storage)
    (lines : List (Nat × List Char)) :
    (∃ tables after left, Creates folder catalog storage lines tables after left) ∨
      ∃ earlier bad later tables middle left error after, lines = earlier ++ bad :: later ∧
        Creates folder catalog storage earlier tables middle left ∧
        Stops folder middle left bad error after := by
  induction lines generalizing catalog storage with
  | nil => exact .inl ⟨[], catalog, storage, .nil⟩
  | cons line rest ih =>
      obtain ⟨number, line⟩ := line
      -- A line that stops loading at once has no lines before it.
      have hstops : ∀ {error after}, Stops folder catalog storage (number, line) error after →
          ∃ earlier bad later tables middle left error after,
            (number, line) :: rest = earlier ++ bad :: later ∧
            Creates folder catalog storage earlier tables middle left ∧
            Stops folder middle left bad error after :=
        fun h => ⟨[], _, rest, [], catalog, storage, _, _, rfl, .nil, h⟩
      cases hparse : TableLine.parse line with
      | error fault => exact .inr (hstops (.malformed hparse))
      | ok described =>
          cases hschema : Schema.ofColumns described.columns with
          | error fault => exact .inr (hstops (.invalid hparse hschema))
          | ok schema =>
              rcases hcreate : catalog.create storage described.name schema
                (SchemaFile.dataPath folder described.name) described.primaryKey with
                ⟨error | table, middle, opened⟩
              · exact .inr (hstops (.uncreated hparse hschema (congrArg Prod.fst hcreate)))
              · refine (ih middle opened).imp ?_ ?_
                · rintro ⟨tables, after, left, hrest⟩
                  exact ⟨table :: tables, after, left, .cons hparse hschema hcreate hrest⟩
                · rintro ⟨earlier, bad, later, tables, middle, left, error, after, rfl, hearlier,
                    hbad⟩
                  exact ⟨(number, line) :: earlier, bad, later, table :: tables, middle, left,
                    error, after, rfl, .cons hparse hschema hcreate hearlier, hbad⟩

/-- Loading succeeds if the tables of all lines are created. -/
theorem loadLines_eq_ok_iff : catalog.loadLines storage folder lines = (.ok tables, after, left) ↔
    Creates folder catalog storage lines tables after left := by
  refine ⟨fun h => ?_, Creates.loadLines_eq⟩
  rcases creates_or_stops folder catalog storage lines with
    ⟨tables, after, left, hcreates⟩ |
      ⟨earlier, bad, later, tables, middle, left, error, after, rfl, hearlier, hbad⟩
  · rw [hcreates.loadLines_eq] at h
    cases h
    exact hcreates
  · rw [hearlier.loadLines_append, hbad.loadLines_eq] at h
    simp [Except.map] at h

/-- Loading fails at the first line that stops it. -/
theorem loadLines_eq_error_iff :
    catalog.loadLines storage folder lines = (.error error, after, left) ↔
      ∃ earlier bad later tables middle, lines = earlier ++ bad :: later ∧
        Creates folder catalog storage earlier tables middle left ∧
        Stops folder middle left bad error after := by
  constructor
  · intro h
    rcases creates_or_stops folder catalog storage lines with
      ⟨_, _, _, hcreates⟩ | ⟨earlier, bad, later, tables, middle, _, _, _, rfl, hearlier, hbad⟩
    · rw [hcreates.loadLines_eq] at h
      simp at h
    · rw [hearlier.loadLines_append, hbad.loadLines_eq] at h
      cases h
      exact ⟨earlier, bad, later, tables, middle, rfl, hearlier, hbad⟩
  · rintro ⟨earlier, bad, later, tables, middle, rfl, hearlier, hbad⟩
    rw [hearlier.loadLines_append, hbad.loadLines_eq]
    rfl

namespace Creates

/-- There is one table for each line. -/
theorem length_eq (h : Creates folder catalog storage lines tables after left) :
    tables.length = lines.length := by
  induction h with
  | nil => rfl
  | cons _ _ _ _ ih => simp [ih]

/-- The numbers of the tables are taken one after the other. -/
theorem takes (h : Creates folder catalog storage lines tables after left) :
    Takes catalog tables after := by
  induction h with
  | nil => exact .nil
  | @cons catalog middle _ storage _ _ _ _ described schema table _ _ _ _ hcreate _ ih =>
      have hnext := catalog.takesNext_create storage described.name schema
        (SchemaFile.dataPath folder described.name) described.primaryKey
      have htable := eq_allocate_of_create (congrArg Prod.fst hcreate)
      rw [hcreate] at hnext
      rw [htable]
      exact .cons hnext ih

/-- The number of each table is greater than those of the tables before it and than all that the
catalog has seen, unless the greatest of all numbers was taken. -/
theorem fresh {pageSize : Nat} {history : List CatalogMoment} {before rest : List TableId}
    {table : TableId}
    (h : Creates folder catalog storage lines (before ++ table :: rest) after left)
    (hrun : Run pageSize history catalog) (hgreatest : .greatest ∉ takenIn history ++ before) :
    ∀ seen, seen ∈ seenIn history ∨ seen ∈ catalog.tables ∨ seen ∈ before →
      seen.number < table.number := by
  obtain ⟨middle, hmiddle, rfl⟩ := h.takes.exists_allocate
  intro seen hseen
  refine (hrun.ahead.takes hmiddle).fresh_iff.mpr hgreatest seen ?_
  rcases hseen with hseen | hregistered | hbefore
  · exact .inl (.inl hseen)
  · exact .inl (.inr hregistered)
  · exact .inr hbefore

end Creates

/-- A schema file is loaded line by line, up to the first bad one. The lines of its text that are
not blank are taken in order, and each has its table created in the catalog that the lines before
it have left, with a data file that bears the name of the table. Loading answers the numbers of
the tables if all of them are created, one for each line. Otherwise it answers the error of the
first line that stops it, with the number of the line among all lines of the text if the line is
malformed or its columns make no schema. The catalog is then the one that the lines before have
left, but for the number of a table that could not be created, and the lines after have no part in
it. The numbers of the tables are fresh and ascend as long as the greatest of all numbers has not
been taken. -/
theorem loadSchema_by_lines {path text : String} (htext : readText storage path = some text) :
    ∃ all lines, Text.IsLines text.toList all ∧ SchemaFile.Numbered all lines ∧
      (∀ tables after left, catalog.loadSchema storage path = (.ok tables, after, left) ↔
        Creates (SchemaFile.folderOf path) catalog storage lines tables after left) ∧
      (∀ error after left, catalog.loadSchema storage path = (.error error, after, left) ↔
        ∃ earlier bad later tables middle, lines = earlier ++ bad :: later ∧
          Creates (SchemaFile.folderOf path) catalog storage earlier tables middle left ∧
          Stops (SchemaFile.folderOf path) middle left bad error after) ∧
      ∀ created tables after left,
        Creates (SchemaFile.folderOf path) catalog storage created tables after left →
        tables.length = created.length ∧
          ∀ pageSize history, Run pageSize history catalog → ∀ before table rest,
            tables = before ++ table :: rest → .greatest ∉ takenIn history ++ before →
            ∀ seen, seen ∈ seenIn history ∨ seen ∈ catalog.tables ∨ seen ∈ before →
              seen.number < table.number := by
  have hload : catalog.loadSchema storage path = catalog.loadLines storage
      (SchemaFile.folderOf path) (SchemaFile.numberedLines text) := by
    simp only [loadSchema, htext]
  refine ⟨Text.lines text.toList, SchemaFile.numberedLines text, Text.isLines_lines _,
    SchemaFile.numbered_numberedLines text, ?_, ?_, ?_⟩
  · intro tables after left
    rw [hload, loadLines_eq_ok_iff]
  · intro error after left
    rw [hload, loadLines_eq_error_iff]
  · intro created tables after left hcreates
    refine ⟨hcreates.length_eq, ?_⟩
    rintro pageSize history hrun before table rest rfl hgreatest
    exact hcreates.fresh hrun hgreatest

/-- The files of a directory that has only a schema file with this text. -/
def schemaFile (text : String) : Storage :=
  { directory := (∅ : Directory).insert "s.txt" (Text.Utf8.encode text) }

/-- The lines of a schema file for three tables, the last of which bears the name of the first one.
The second line is blank and the last one is malformed. -/
def sampleLines : String :=
  "a (v int)\r\n \nb (w int pk)\na (v int)\nc"

/-- Loading the sample ends at its fifth line, with the tables created that are described before. -/
theorem loadSchema_by_lines_sample :
    ∃ earlier bad tables middle after left,
      Catalog.loadSchema { pageSize := 16 } (schemaFile sampleLines) "s.txt" =
        (.error (.invalidLine 5 .noOpening), after, left) ∧
      after.tableNamed "b" = .ok ⟨2⟩ ∧ after.tableNamed "a" = .ok ⟨3⟩ ∧
      Creates "" { pageSize := 16 } (schemaFile sampleLines) earlier tables middle left ∧
      Stops "" middle left bad (.invalidLine 5 .noOpening) after ∧
      tables.length = earlier.length ∧
      ∀ before table rest, tables = before ++ table :: rest → .greatest ∉ before →
        ∀ seen ∈ before, seen.number < table.number := by
  have htext : readText (schemaFile sampleLines) "s.txt" = some sampleLines := by decide +kernel
  obtain ⟨after, left, hload, hkept, hreplaced⟩ : ∃ after left,
      Catalog.loadSchema { pageSize := 16 } (schemaFile sampleLines) "s.txt" =
        (.error (.invalidLine 5 .noOpening), after, left) ∧
      after.tableNamed "b" = .ok ⟨2⟩ ∧ after.tableNamed "a" = .ok ⟨3⟩ :=
    ⟨_, _, Prod.ext (by decide +kernel) rfl, by decide +kernel, by decide +kernel⟩
  have hfolder : SchemaFile.folderOf "s.txt" = "" := by decide +kernel
  obtain ⟨all, lines, -, -, -, herror, hfresh⟩ :=
    @loadSchema_by_lines { pageSize := 16 } _ _ _ htext
  rw [hfolder] at herror hfresh
  obtain ⟨earlier, bad, later, tables, middle, -, hcreates, hstops⟩ :=
    (herror _ after left).mp hload
  obtain ⟨hlength, hascending⟩ := hfresh earlier tables middle left hcreates
  refine ⟨earlier, bad, tables, middle, after, left, hload, hkept, hreplaced, hcreates,
    hstops, hlength, fun before table rest htables hgreatest seen hseen => ?_⟩
  exact hascending 16 [] .start before table rest htables hgreatest seen (.inr (.inr hseen))

/-- The second of two tables cannot be created because its records are too wide for a page. The
catalog then has the table of the first line, as it had before the second one, but does not hand
out the number that it would have handed out. -/
theorem number_of_wide_table_used_up :
    ∃ first second middle after left,
      SchemaFile.numberedLines "a (v int)\nb (w string)" = [first, second] ∧
      Creates "" { pageSize := 16 } (schemaFile "a (v int)\nb (w string)") [first] [⟨1⟩]
        middle left ∧
      Catalog.loadSchema { pageSize := 16 } (schemaFile "a (v int)\nb (w string)") "s.txt" =
        (.error (.invalidSchema (.recordTooWide 132 16)), after, left) ∧
      after.tables = middle.tables ∧ middle.allocate.1 = ⟨2⟩ ∧ after.allocate.1 = ⟨3⟩ := by
  refine ⟨(1, "a (v int)".toList), (2, "b (w string)".toList), _, _, _, by decide +kernel,
    loadLines_eq_ok_iff.mp (Prod.ext ?_ rfl), Prod.ext ?_ (Prod.ext rfl ?_), ?_⟩
  all_goals decide +kernel

end Catalog

end RowStore
