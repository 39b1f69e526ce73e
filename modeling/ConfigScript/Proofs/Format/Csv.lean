import ConfigScript.Format.Report
import ConfigScript.Proofs.Text.Pieces
import Mathlib.Data.List.TakeWhile

/-!
# Records that read back

The format is given by its grammar: cells in quotes or without, records of cells, tables of records
(`Csv.IsTable`). Reading accepts the texts of the grammar and no others, and finds the table that a text
stands for (`Csv.read?_eq_some_iff`), so a text stands for one table at most. What is written for a table
with cells in all its records stands for that table (`Csv.isTable_render`), whatever the cells hold.
-/

namespace ConfigScript.Format.Csv

/-! ### The grammar -/

/-- The inside of quotes and the text that it stands for: a quote is written twice. -/
inductive IsInside : List Char → List Char → Prop
  | done : IsInside [] []
  | quote {t cs : List Char} (more : IsInside t cs) : IsInside ('"' :: '"' :: t) ('"' :: cs)
  | other {c : Char} {t cs : List Char} (plain : c ≠ '"') (more : IsInside t cs) :
      IsInside (c :: t) (c :: cs)

/-- The text of a cell and the cell. Without quotes it holds no comma, quote or line break. -/
inductive IsCell : List Char → List Char → Prop
  | bare {cs : List Char} (plain : ∀ c ∈ cs, ¬isSpecial c) : IsCell cs cs
  | quoted {t cs : List Char} (inside : IsInside t cs) : IsCell ('"' :: (t ++ ['"'])) cs

/-- The text of a record and its cells: commas part them. -/
inductive IsRecord : List Char → List (List Char) → Prop
  | last {t cell : List Char} (only : IsCell t cell) : IsRecord t [cell]
  | more {t u cell : List Char} {cells : List (List Char)} (first : IsCell t cell)
      (others : IsRecord u cells) : IsRecord (t ++ ',' :: u) (cell :: cells)

/-- A text and its records: line feeds part them. -/
inductive IsTable : List Char → List (List (List Char)) → Prop
  | last {t : List Char} {cells : List (List Char)} (only : IsRecord t cells) : IsTable t [cells]
  | more {t u : List Char} {cells : List (List Char)} {records : List (List (List Char))}
      (first : IsRecord t cells) (others : IsTable u records) : IsTable (t ++ '\n' :: u) (cells :: records)

variable {t u cs cell rest : List Char} {cells : List (List Char)} {records : List (List (List Char))}

/-- A cell in front of the first record. -/
theorem IsTable.addCell (first : IsCell t cell) (others : IsTable u records) :
    IsTable (t ++ ',' :: u) (Csv.addCell cell records) := by
  cases others with
  | last only => exact .last (.more first only)
  | @more v w cells records front behind =>
    have whole : t ++ ',' :: (v ++ '\n' :: w) = t ++ ',' :: v ++ '\n' :: w := by simp
    exact whole ▸ .more (.more first front) behind

/-! ### Reading a text of the grammar -/

/-- What may stand behind a cell. -/
def ParsCells (rest : List Char) : Prop := ∀ c ∈ rest.head?, c = ',' ∨ c = '\n'

theorem parsCells_nil : ParsCells [] := nofun

theorem parsCells_comma (rest : List Char) : ParsCells (',' :: rest) := fun _ h ↦
  .inl (Option.some.inj h).symm

theorem parsCells_line (rest : List Char) : ParsCells ('\n' :: rest) := fun _ h ↦
  .inr (Option.some.inj h).symm

/-- The closing quote is the first one that is not written twice. -/
theorem readQuoted?_append (inside : IsInside t cs) (behind : ParsCells rest) :
    readQuoted? (t ++ '"' :: rest) = some (cs, rest) := by
  induction inside with
  | done =>
    cases rest with
    | nil => rfl
    | cons c rest =>
      have single : c ≠ '"' := by
        rcases behind c rfl with rfl | rfl <;> decide
      rw [List.nil_append, readQuoted?]
      simpa using single
  | quote _ ih => simp [readQuoted?, ih]
  | other plain _ ih =>
    rw [List.cons_append, readQuoted?, ih]
    · rfl
    · exact fun _ same ↦ (plain same).elim
    · exact plain

/-- A cell without quotes ends where the comma or the line feed is. -/
theorem readCell?_bare (plain : ∀ c ∈ cell, ¬isSpecial c) (behind : ParsCells rest) :
    readCell? (cell ++ rest) = some (cell, rest) := by
  have front : ∀ c ∈ cell, (!isSpecial c) = true := fun c hc ↦ by simpa using plain c hc
  have unquoted (r : List Char) : cell ++ rest ≠ '"' :: r := fun starts ↦ by
    cases cell with
    | nil =>
      rcases behind '"' (congrArg List.head? starts) with h | h <;> cases h
    | cons c cell => exact plain c List.mem_cons_self ((List.cons.inj starts).1 ▸ rfl)
  rw [readCell?, List.takeWhile_append_of_pos front, List.dropWhile_append_of_pos front]
  · cases rest with
    | nil => simp
    | cons c rest =>
      have special : isSpecial c = true := by
        rcases behind c rfl with rfl | rfl <;> rfl
      simp [special]
  · exact unquoted

/-- A cell is read up to what ends it. -/
theorem readCell?_append (h : IsCell t cell) (behind : ParsCells rest) :
    readCell? (t ++ rest) = some (cell, rest) := by
  cases h with
  | bare plain => exact readCell?_bare plain behind
  | quoted inside =>
    rw [List.cons_append, List.append_assoc, readCell?]
    exact readQuoted?_append inside behind

/-- How reading goes on behind a cell. -/
def readOn (cell : List Char) : List Char → Option (List (List (List Char)))
  | [] => some [[cell]]
  | mark :: rest =>
    if mark == ',' then (read? rest).map (addCell cell)
    else if mark == '\n' then (read? rest).map ([cell] :: ·)
    else none

theorem read?_of_readCell? (found : readCell? cs = some (cell, rest)) :
    read? cs = readOn cell rest := by
  rw [read?]
  split <;> rename_i here <;> cases found.symm.trans here <;> rfl

theorem read?_cell (h : IsCell t cell) : read? t = some [[cell]] := by
  have found := readCell?_append h parsCells_nil
  rw [List.append_nil] at found
  exact read?_of_readCell? found

theorem read?_comma (h : IsCell t cell) (rest : List Char) :
    read? (t ++ ',' :: rest) = (read? rest).map (addCell cell) :=
  read?_of_readCell? (readCell?_append h (parsCells_comma rest))

theorem read?_line (h : IsCell t cell) (rest : List Char) :
    read? (t ++ '\n' :: rest) = (read? rest).map ([cell] :: ·) :=
  read?_of_readCell? (readCell?_append h (parsCells_line rest))

/-- A record at the end of a text is a table of its own. -/
theorem read?_record (h : IsRecord t cells) : read? t = some [cells] := by
  induction h with
  | last only => exact read?_cell only
  | @more t u cell cells first _ ih =>
    rw [read?_comma first, ih]
    rfl

/-- A record is read with its line break in front of the others. -/
theorem read?_record_line (h : IsRecord t cells) (rest : List Char) :
    read? (t ++ '\n' :: rest) = (read? rest).map (cells :: ·) := by
  induction h with
  | last only => exact read?_line only rest
  | @more t u cell cells first _ ih =>
    rw [List.append_assoc, List.cons_append, read?_comma first, ih, Option.map_map]
    rfl

/-- A table is read as its records. -/
theorem read?_eq_some (h : IsTable t records) : read? t = some records := by
  induction h with
  | last only => exact read?_record only
  | more first _ ih =>
    rw [read?_record_line first, ih]
    rfl

/-! ### What is read follows the grammar -/

/-- What is read between quotes is the inside of a cell. -/
theorem exists_of_readQuoted? (h : readQuoted? cs = some (cell, rest)) :
    ∃ t, IsInside t cell ∧ cs = t ++ '"' :: rest := by
  fun_induction readQuoted? cs generalizing cell rest with
  | case1 => cases h
  | case2 r ih =>
    obtain ⟨⟨cell, rest⟩, more, same⟩ := Option.map_eq_some_iff.1 h
    obtain ⟨rfl, rfl⟩ := Prod.mk.inj same
    obtain ⟨t, inside, rfl⟩ := ih more
    exact ⟨_, .quote inside, rfl⟩
  | case3 r =>
    obtain ⟨rfl, rfl⟩ := Prod.mk.inj (Option.some.inj h)
    exact ⟨[], .done, rfl⟩
  | case4 c r _ plain ih =>
    obtain ⟨⟨cell, rest⟩, more, same⟩ := Option.map_eq_some_iff.1 h
    obtain ⟨rfl, rfl⟩ := Prod.mk.inj same
    obtain ⟨t, inside, rfl⟩ := ih more
    exact ⟨_, .other plain inside, rfl⟩

/-- What is read as a cell is one, and nothing is lost. -/
theorem exists_of_readCell? (h : readCell? cs = some (cell, rest)) :
    ∃ t, IsCell t cell ∧ cs = t ++ rest := by
  unfold readCell? at h
  split at h
  · obtain ⟨t, inside, rfl⟩ := exists_of_readQuoted? h
    exact ⟨_, .quoted inside, by simp⟩
  · obtain ⟨rfl, rfl⟩ := Prod.mk.inj (Option.some.inj h)
    refine ⟨_, .bare fun c hc ↦ ?_, List.takeWhile_append_dropWhile.symm⟩
    simpa using List.mem_takeWhile_imp hc

/-- What is read is a table. -/
theorem isTable_of_read? (h : read? cs = some records) : IsTable cs records := by
  fun_induction read? cs generalizing records with
  | case1 => cases h
  | case2 cs cell found =>
    obtain ⟨t, isCell, rfl⟩ := exists_of_readCell? found
    obtain rfl := Option.some.inj h
    rw [List.append_nil]
    exact .last (.last isCell)
  | case3 cs cell mark rest found _ comma ih =>
    obtain ⟨t, isCell, rfl⟩ := exists_of_readCell? found
    obtain ⟨others, more, rfl⟩ := Option.map_eq_some_iff.1 h
    rw [beq_iff_eq.1 comma]
    exact .addCell isCell (ih more)
  | case4 cs cell mark rest found _ _ line ih =>
    obtain ⟨t, isCell, rfl⟩ := exists_of_readCell? found
    obtain ⟨others, more, rfl⟩ := Option.map_eq_some_iff.1 h
    rw [beq_iff_eq.1 line]
    exact .more (.last isCell) (ih more)
  | case5 => cases h

/-- Reading finds the table that a text stands for. -/
theorem read?_eq_some_iff : read? cs = some records ↔ IsTable cs records :=
  ⟨isTable_of_read?, read?_eq_some⟩

/-! ### Writing -/

/-- An escaped text is the inside of a cell. -/
theorem isInside_escape (cs : List Char) : IsInside (escape cs) cs := by
  induction cs with
  | nil => exact .done
  | cons c cs ih =>
    rw [escape, List.flatMap_cons]
    split
    · rename_i quote
      rw [beq_iff_eq.1 quote]
      exact .quote ih
    · rename_i plain
      exact .other (fun same ↦ plain (beq_iff_eq.2 same)) ih

/-- Whatever a cell holds, it is written as that cell. -/
theorem isCell_cell (cs : List Char) : IsCell (Csv.cell cs) cs := by
  unfold Csv.cell
  split
  · exact .quoted (isInside_escape cs)
  · rename_i plain
    exact .bare fun c hc special ↦ plain (List.any_eq_true.2 ⟨c, hc, special⟩)

/-- A row with cells is written as a record. -/
theorem isRecord_record {row : List String} (some : row ≠ []) :
    IsRecord (record row) (row.map String.toList) := by
  induction row with
  | nil => exact absurd rfl some
  | cons s row ih =>
    cases row with
    | nil => exact .last (isCell_cell _)
    | cons next row =>
      rw [record, List.map_cons, List.map_cons, Text.join_cons_cons]
      exact .more (isCell_cell _) (ih (List.cons_ne_nil _ _))

/-- The text that is written for a table stands for it. -/
theorem isTable_render {table : List (List String)} (some : table ≠ [])
    (cells : ∀ row ∈ table, row ≠ []) :
    IsTable (render table).toList (table.map (·.map String.toList)) := by
  rw [render, String.toList_ofList]
  induction table with
  | nil => exact absurd rfl some
  | cons row table ih =>
    have first := isRecord_record (cells row List.mem_cons_self)
    cases table with
    | nil => exact .last first
    | cons next table =>
      rw [List.map_cons, List.map_cons, Text.join_cons_cons]
      exact .more first (ih (List.cons_ne_nil _ _) fun r hr ↦ cells r (List.mem_cons_of_mem _ hr))

/-! ### Entries -/

/-- The names of fields, and below them a record for each entry with the texts of its fields. -/
def fieldTexts (entries : List Entry) (fields : List Field) : List (List String) :=
  fields.map Field.label :: entries.map fun e ↦ fields.map (·.text e)

/-- Entries written as records read back as the texts of their fields, below the names of the fields,
and by the grammar the text stands for nothing else. -/
theorem isTable_renderEntries (entries : List Entry) {fields : List Field} (some : fields ≠ []) :
    Csv.read? (renderEntries entries fields .csv).toList =
        .some ((fieldTexts entries fields).map (·.map String.toList)) ∧
      ∀ records, IsTable (renderEntries entries fields .csv).toList records ↔
        records = (fieldTexts entries fields).map (·.map String.toList) := by
  have cells : ∀ row ∈ fieldTexts entries fields, row ≠ [] := by
    intro row hrow
    rcases List.mem_cons.1 hrow with rfl | hrow
    · simpa using some
    · obtain ⟨e, -, rfl⟩ := List.mem_map.1 hrow
      simpa using some
  have read : Csv.read? (renderEntries entries fields .csv).toList =
      .some ((fieldTexts entries fields).map (·.map String.toList)) :=
    read?_eq_some (isTable_render (List.cons_ne_nil _ _) cells)
  refine ⟨read, fun records ↦ ?_⟩
  rw [← read?_eq_some_iff, read, Option.some.injEq, eq_comm]

/-- Entries whose texts need quotes, and one without a name. -/
def quotedEntries : List Entry :=
  [⟨.var, "a,b", .string "x\"y\n"⟩, ⟨.const, "", .string "\r"⟩]

/-- The records of these entries. -/
def quotedText : String := "name,value\n\"a,b\",\"x\"\"y\n\"\n,\"\r\""

/-- Commas, quotes and line breaks inside cells, and a cell without characters. -/
theorem isTable_renderEntries_quoted :
    renderEntries quotedEntries [.name, .value] .csv = quotedText ∧
      ∀ records, IsTable quotedText.toList records ↔
        records = [["name".toList, "value".toList], ["a,b".toList, ['x', '"', 'y', '\n']],
          [[], ['\r']]] := by
  have text : renderEntries quotedEntries [.name, .value] .csv = quotedText := by decide +kernel
  exact ⟨text, text ▸ (isTable_renderEntries quotedEntries (by decide)).2⟩

end ConfigScript.Format.Csv
