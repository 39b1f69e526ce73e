import ConfigScript.Proofs.Written.Edit
import ConfigScript.Salt.Set

/-!
# The document of a new file

The text of a new file without source text of the caller's own is that of a sound document: rows for
the database settings, for the salts, and for the table prefix (`Template.text_document`,
`Template.sound_document`). With salts of the usual names it is a legal one (`Template.legal_document`).
-/

namespace ConfigScript

open Script

/-- Whether a text is whole lines without tokens and without the marker. -/
def isFiller (cs : List Char) : Bool :=
  isGapText .between cs && Text.isClear Edit.standardAnchor cs && cs.getLast? == some '\n'

theorem filler_of_isFiller {cs : List Char} (h : isFiller cs) : Filler cs := by
  simp only [isFiller, Bool.and_eq_true, beq_iff_eq] at h
  exact ⟨gap_of_isGapText h.1.1, .inr (List.getLast?_eq_some_iff.1 h.2),
    Text.clear_of_isClear h.1.2⟩

/-- A filler that is written as a literal. -/
theorem filler_of_literal (s : String) {cs : List Char} (h : s = String.ofList cs)
    (filler : isFiller cs) : Filler s.toList :=
  Template.toList_of_literal h ▸ filler_of_isFiller filler

namespace Template

/-! ### The lines of a new file -/

/-- A line with a comment for an entry. -/
def commented (comment : String) (row : Row) : Line := ⟨comment.toList, row⟩

@[simp]
theorem row_commented (comment : String) (row : Row) : (commented comment row).row = row := rfl

/-- The comments in front of the first database setting. -/
def nameComment : String :=
"/**
 * The base configuration for WordPress
 *
 * This file contains the following configurations:
 *
 * * Database settings
 * * Secret keys
 * * Database table prefix
 * * ABSPATH
 */

// ** Database settings - You can get this info from your web host ** //
/** The name of the database for WordPress */
"

/-- The comment in front of the salts. -/
def saltsComment : String := "\n/**#@+\n * Authentication unique keys and salts.\n */\n"

/-- The comments in front of the table prefix, behind a line without its line break. -/
def prefixComment : String := "/**#@-*/\n\n/**\n * WordPress database table prefix.\n */\n"

/-- The lines of the database settings. -/
def databaseLines : List Line :=
  [commented nameComment (.fresh .const "DB_NAME" ""),
    commented "\n/** Database username */\n" (.fresh .const "DB_USER" ""),
    commented "\n/** Database password */\n" (.fresh .const "DB_PASSWORD" ""),
    commented "\n/** Database hostname */\n" (.fresh .const "DB_HOST" "localhost"),
    commented "\n/** Database charset to use in creating database tables. */\n"
      (.fresh .const "DB_CHARSET" "utf8"),
    commented "\n/** The database collate type. Don't change this if in doubt. */\n"
      (.fresh .const "DB_COLLATE" "")]

/-- The constants of the database settings. -/
def databaseNames : List String :=
  ["DB_NAME", "DB_USER", "DB_PASSWORD", "DB_HOST", "DB_CHARSET", "DB_COLLATE"]

/-- The row of a salt, whose value is lined up with the others. -/
def saltRow (name value : String) : Row where
  kind := .const
  name := name
  padding := List.replicate (20 - (Quoted.quote name.toList ++ [',']).length) ' ' ++ [' ']
  value := value

/-- The row of the table prefix. -/
def prefixRow : Row := .fresh .var "table_prefix" "wp_"

/-- The lines behind the database settings. -/
def laterLines : List (String × String) → List Line
  | [] => [⟨saltsComment.toList ++ '\n' :: prefixComment.toList, prefixRow⟩]
  | (name, value) :: salts =>
    commented saltsComment (saltRow name value) ::
      (salts.map (fun (name, value) ↦ ⟨[], saltRow name value⟩) ++
        [commented prefixComment prefixRow])

/-- The document of a new file. -/
def document (salts : List (String × String)) : Document :=
  ⟨databaseLines ++ laterLines salts, ['\n']⟩

/-- What a new file defines. -/
def table (salts : List (String × String)) : List ((EntryKind × String) × String) :=
  [((.const, "DB_NAME"), ""), ((.const, "DB_USER"), ""), ((.const, "DB_PASSWORD"), ""),
    ((.const, "DB_HOST"), "localhost"), ((.const, "DB_CHARSET"), "utf8"),
    ((.const, "DB_COLLATE"), "")] ++
    salts.map (fun (name, value) ↦ ((.const, name), value)) ++
    [((.var, "table_prefix"), "wp_")]

/-- A new document defines the database settings, the salts and the table prefix. -/
theorem table_document (salts : List (String × String)) : (document salts).table = table salts := by
  cases salts with
  | nil => simp [document, Document.table, table, databaseLines, laterLines, Row.key, Row.fresh, prefixRow]
  | cons s salts =>
    simp [document, Document.table, table, databaseLines, laterLines, Row.key, Row.fresh, saltRow,
      prefixRow, Function.comp_def]

/-! ### Its text -/

/-- A line that is written for a salt is the text of its row. -/
theorem saltLine_eq (name value : String) :
    saltLine name value = (saltRow name value).text ++ ['\n'] := by
  have start : "define( ".toList = "define".toList ++ ['('] ++ [' '] := by decide
  have stop : " );\n".toList = [' '] ++ [')'] ++ [';'] ++ ['\n'] := by decide
  unfold saltLine
  simp only [start]
  simp only [stop]
  simp only [pad, saltRow, Row.text, Row.lead, Row.trail, List.append_assoc, List.cons_append,
    List.nil_append]

/-- Of the lines of salts, the line break of the last one is left out. -/
theorem dropEndWhile_saltLines (s : String × String) (salts : List (String × String)) :
    Text.dropEndWhile (· == '\n') ((s :: salts).flatMap fun (name, value) ↦ saltLine name value) ++
      ['\n'] = (s :: salts).flatMap fun (name, value) ↦ saltLine name value := by
  have whole : ∃ front, ((s :: salts).flatMap fun (name, value) ↦ saltLine name value) =
      front ++ [';', '\n'] := by
    rcases List.eq_nil_or_concat (s :: salts) with h | ⟨init, last, h⟩
    · cases h
    · refine ⟨(init.flatMap fun (name, value) ↦ saltLine name value) ++
        (saltRow last.1 last.2).lead ++ Quoted.quote last.2.toList ++ [' ', ')'], ?_⟩
      rw [h, List.concat_eq_append, List.flatMap_append]
      simp [saltLine_eq, Row.text, Row.trail, saltRow]
  obtain ⟨front, h⟩ := whole
  rw [h, Text.dropEndWhile]
  simp [List.dropWhile]

set_option maxRecDepth 8000 in
/-- The opening tag, the database settings and the comment of the salts are the head of a new file. -/
theorem text_databaseLines :
    Document.opening ++ Line.texts databaseLines ++ saltsComment.toList = head.toList := by
  have whole : head.toList = _ := toList_of_literal rfl
  have comment : nameComment.toList = _ := toList_of_literal rfl
  have comment' : saltsComment.toList = _ := toList_of_literal rfl
  simp only [whole, comment, comment', databaseLines, commented, Line.texts_cons, Line.texts_nil,
    Line.text, Row.fresh, Row.text, Row.lead, Row.trail, String.reduceToList]
  decide +kernel

set_option maxRecDepth 4000 in
/-- The table prefix with its comment is the middle of a new file. -/
theorem text_middle :
    '\n' :: (prefixComment.toList ++ (prefixRow.text ++ ['\n', '\n'])) = middle.toList := by
  have whole : middle.toList = _ := toList_of_literal rfl
  have comment : prefixComment.toList = _ := toList_of_literal rfl
  simp only [whole, comment, prefixRow, Row.fresh, Row.text, Row.lead, Row.trail,
    String.reduceToList]
  decide +kernel

/-- The text of a new file is that of a document. -/
theorem text_document (salts : List (String × String)) :
    (document salts).text = render salts [] := by
  have none : extraText [] = [] := rfl
  rw [render, none, List.append_nil, ← text_databaseLines, ← text_middle]
  cases salts with
  | nil =>
    have noLines : Text.dropEndWhile (· == '\n') ([] : List Char) = [] := rfl
    simp [document, Document.text, Document.body, laterLines, Line.text, noLines]
  | cons s salts =>
    have lines : Line.texts (salts.map fun (name, value) ↦ ⟨[], saltRow name value⟩) =
        salts.flatMap fun (name, value) ↦ saltLine name value := by
      simp [Line.texts, List.flatMap_map, Line.text, saltLine_eq]
    have whole := dropEndWhile_saltLines s salts
    generalize Text.dropEndWhile _ _ = dropped at whole ⊢
    have joined : ∀ xs, dropped ++ '\n' :: xs = dropped ++ ['\n'] ++ xs := by simp
    simp only [List.append_assoc]
    rw [List.cons_append, joined, whole]
    simp [document, Document.text, Document.body, laterLines, commented, Line.text, lines,
      saltLine_eq]

/-! ### It is legal -/

theorem legal_commented {comment : String} {row : Row} (filler : Filler comment.toList)
    (legal : row.Legal) : (commented comment row).Legal := ⟨filler, legal⟩

set_option maxRecDepth 4000 in
/-- The lines of the database settings may stand in a document. -/
theorem legal_databaseLines : ∀ l ∈ databaseLines, l.Legal := by
  have row : ∀ name value, (Row.fresh .const name value).Legal := fun _ _ ↦
    ⟨.inl rfl, by simp [Row.fresh]⟩
  intro l hl
  simp only [databaseLines, List.mem_cons, List.not_mem_nil, or_false] at hl
  rcases hl with rfl | rfl | rfl | rfl | rfl | rfl <;> refine legal_commented ?_ (row _ _)
  all_goals exact filler_of_literal _ rfl (by decide +kernel)

/-- The lines of the salts and of the table prefix may stand in a document. -/
theorem legal_laterLines (salts : List (String × String)) : ∀ l ∈ laterLines salts, l.Legal := by
  have salt : ∀ name value, (saltRow name value).Legal := by
    refine fun name value ↦ ⟨.inl rfl, fun c hc ↦ ?_⟩
    rcases List.mem_append.1 hc with hc | hc
    · exact (List.mem_replicate.1 hc).2
    · exact List.mem_singleton.1 hc
  have last : prefixRow.Legal := ⟨.inr ⟨rfl, by decide⟩, by simp [prefixRow, Row.fresh]⟩
  have comment : Filler saltsComment.toList := filler_of_literal _ rfl (by decide +kernel)
  have comment' : Filler prefixComment.toList := filler_of_literal _ rfl (by decide +kernel)
  intro l hl
  cases salts with
  | nil =>
    rw [laterLines, List.mem_singleton] at hl
    subst hl
    have line : Filler ['\n'] := filler_of_isFiller (by decide)
    exact ⟨comment.append (line.append comment'), last⟩
  | cons s salts =>
    simp only [laterLines, List.mem_cons, List.mem_append, List.mem_map, List.not_mem_nil,
      or_false] at hl
    rcases hl with rfl | ⟨t, -, rfl⟩ | rfl
    · exact legal_commented comment (salt _ _)
    · exact ⟨Filler.nil, salt _ _⟩
    · exact legal_commented comment' last

/-- The text of a new file is that of a sound document, whatever its salts are. -/
theorem sound_document (salts : List (String × String)) : (document salts).Sound := by
  have line : Filler ['\n'] := filler_of_isFiller (by decide)
  refine ⟨fun l hl ↦ ?_, line⟩
  rcases List.mem_append.1 hl with hl | hl
  · exact legal_databaseLines l hl
  · exact legal_laterLines salts l hl

/-- The rows of a new file: the database settings, the salts and the table prefix. -/
theorem keys_document (salts : List (String × String)) : Line.keys (document salts).lines =
    (databaseNames ++ salts.map (·.1)).map (EntryKind.const, ·) ++ [(.var, "table_prefix")] := by
  rw [← Document.keys_table, table_document, table, Assoc.keys]
  simp [databaseNames, Function.comp_def]

/-- With salts of distinct names that are not in use otherwise, the document is legal: it has an entry
for each setting and each salt. -/
theorem legal_document_of_free {salts : List (String × String)} (distinct : (salts.map (·.1)).Nodup)
    (free : ∀ n ∈ salts.map (·.1), n ∉ databaseNames ∧ n ∉ reservedNames) :
    (document salts).Legal := by
  have names : (databaseNames ++ salts.map (·.1)).Nodup :=
    List.nodup_append.2 ⟨by decide, distinct, fun m database n hn eq ↦ (free n hn).1 (eq ▸ database)⟩
  refine ⟨sound_document salts, ?_, fun l hl ↦ ?_⟩
  · have constants : ((databaseNames ++ salts.map (·.1)).map (EntryKind.const, ·)).Nodup :=
      List.Pairwise.map _ (fun m n ne eq ↦ ne (Prod.mk.inj eq).2) names
    rw [keys_document]
    refine List.nodup_append.2 ⟨constants, by decide, fun k hk k' hk' eq ↦ ?_⟩
    obtain ⟨n, -, rfl⟩ := List.mem_map.1 hk
    rw [List.mem_singleton] at hk'
    exact absurd (Prod.mk.inj (eq.trans hk')).1 (by decide)
  · have key : l.row.key ∈ Line.keys (document salts).lines := List.mem_map_of_mem hl
    rw [keys_document, List.mem_append, List.map_append, List.mem_append, List.mem_singleton] at key
    rcases key with (database | salt) | last
    · obtain ⟨n, hn, eq⟩ := List.mem_map.1 database
      have every : ∀ n ∈ databaseNames, n ∉ reservedNames := by decide
      exact (Prod.mk.inj eq).2 ▸ every n hn
    · obtain ⟨n, hn, eq⟩ := List.mem_map.1 salt
      exact (Prod.mk.inj eq).2 ▸ (free n hn).2
    · rw [(Prod.mk.inj last).2]
      decide

/-- So it is with salts of the usual names. -/
theorem legal_document {salts : List (String × String)}
    (names : (salts.map (·.1)).Sublist (Salt.freshNames true)) : (document salts).Legal := by
  have usual : (Salt.freshNames true).Nodup ∧
      ∀ n ∈ Salt.freshNames true, n ∉ databaseNames ∧ n ∉ reservedNames := by decide
  exact legal_document_of_free (usual.1.sublist names) fun n hn ↦ usual.2 n (names.subset hn)

/-- The constants that a new file has rows for are database settings and its salts. -/
theorem mem_keys_document {salts : List (String × String)} {n : String} :
    (.const, n) ∈ Line.keys (document salts).lines ↔ n ∈ databaseNames ∨ n ∈ salts.map (·.1) := by
  simp [keys_document]

end Template

end ConfigScript
