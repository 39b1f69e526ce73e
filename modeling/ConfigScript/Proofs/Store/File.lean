import ConfigScript.Proofs.Files.Change
import ConfigScript.Proofs.Written.Read

/-!
# Files that represent a table

A file represents a table if it holds the text of a legal document with that table. The operations on
files, seen through what they represent: a name is defined if it has a key in the table, setting is
insertion, removing is erasure, and reading yields the table (`Represents.fileDefines`,
`Represents.setInFile`, `Represents.removeFromFile`, `Represents.read`).

Where entries may be defined twice, less can be told: a file has rows for some entries if it holds the
text of a sound document with them. Then these are defined, setting adds one, and reading yields the
constants among them (`HasRows.fileDefines`, `HasRows.setInFile`, `HasRows.read`).
-/

namespace ConfigScript

open Script

/-- What a configuration file defines: texts by namespace and name. -/
abbrev Table := List ((EntryKind × String) × String)

/-- The file at the path holds the text of a legal document with the table. -/
def Represents (env : Environment) (path : Path) (t : Table) : Prop :=
  ∃ d : Document, d.Legal ∧ d.table = t ∧ env.Holds path d.text

/-- The file at the path holds the text of a sound document with rows for the given entries and no
others. -/
def HasRows (env : Environment) (path : Path) (ks : List (EntryKind × String)) : Prop :=
  ∃ d : Document, d.Sound ∧ (∀ k, k ∈ Line.keys d.lines ↔ k ∈ ks) ∧ env.Holds path d.text

/-- Reading a file that is reached is reading its text. -/
theorem Reader.read_of_readSource {r : Reader} {env : Environment} {source : List Char}
    {path file : Path} (held : env.Holds path source) (reached : env.IsReached path)
    (canonical : env.canonical path = .ok file) {es : List Entry}
    (read : r.readSource env source file = .ok es) : r.read env path = .ok es := by
  obtain ⟨resolved, same, there⟩ := held.canonical reached
  obtain rfl := Except.ok.inj (canonical.symm.trans same)
  rw [Reader.readSource] at read
  simp only [Reader.read, held.pathExists, canonical, Scope.afterFile, readScript, there,
    mapError_ok, bind, Except.bind, pure, Except.pure, Bool.not_true, Bool.false_eq_true,
    if_false]
  rcases run : (r.start file).executeSource env source file with ⟨a | a, after⟩
  · simp [run] at read
  · simp only [run] at read ⊢
    injection read with read
    rw [read]

/-- A file that was read is reached, if the names of the working directory are such as a directory may
hold. -/
theorem Environment.Holds.isReached_of_read {r : Reader} {env : Environment} {source : List Char}
    {path : Path} {es : List Entry} (held : env.Holds path source)
    (origin : ∀ n ∈ env.origin path, Environment.IsLegal n) (read : r.read env path = .ok es) :
    env.IsReached path := by
  refine held.isReached origin fun place resolved ↦ ?_
  have canonical : env.canonical path = .ok (Environment.pathOf place) := by
    rw [Environment.canonical, resolved]
    rfl
  simp only [Reader.read, held.pathExists, canonical, Scope.afterFile, readScript,
    Environment.read, mapError_ok, bind, Except.bind, Bool.not_true, Bool.false_eq_true,
    if_false] at read
  cases there : env.resolve (Environment.pathOf place) with
  | error e => simp [there] at read
  | ok _ => exact (Environment.resolvePieces_eq_ok.1 there).1.short

namespace Document.Sound

variable {d : Document} {env : Environment} {path : Path} {kind : EntryKind} {name : String}

/-- A name is defined in the file of a document if it has an occurrence. -/
theorem fileDefines (sound : d.Sound) (held : env.Holds path d.text) (hk : kind ≠ .inclusion) :
    ∃ guard bootstrap, Template.IsGuard guard ∧ Template.IsBootstrap bootstrap ∧
      Edit.fileDefines env path kind name = .ok (!(Occurrence.all kind name
        (Line.stmts Document.first d.lines ++ [guard, bootstrap])).isEmpty) := by
  obtain ⟨guard, bootstrap, parsed, hg, hb⟩ := sound.parse_text
  exact ⟨guard, bootstrap, hg, hb,
    Edit.fileDefines_of_loadFile hk (Edit.loadFile_of_holds held parsed)⟩

/-- Setting an entry in the file of a document gives the file of the document behind that. -/
theorem setInFile (sound : d.Sound) (held : env.Holds path d.text)
    (hk : kind = .const ∨ kind = .var ∧ Edit.isVariableName name.toList) {value : String}
    {d' : Document} (set : ∀ file source, parse d.text = .ok source →
      Edit.set .standard file kind name value.toList d.text source = .ok d'.text) :
    ∃ changed env', Edit.setInFile env path kind name value.toList .standard = (.ok changed, env') ∧
      env'.Holds path d'.text ∧ (env.IsReached path → env'.IsReached path) := by
  obtain ⟨guard, bootstrap, parsed, -, -⟩ := sound.parse_text
  obtain ⟨editable, legal⟩ := Edit.editable_of_legal hk
  obtain ⟨changed, env', done, held', -, reached⟩ :=
    Edit.exists_setInFile held parsed editable legal (set _ _ parsed)
  exact ⟨changed, env', done, held', reached⟩

end Document.Sound

namespace Represents

variable {env : Environment} {path : Path} {t : Table} {kind : EntryKind} {name : String}

/-- What the table has is defined. -/
theorem fileDefines (h : Represents env path t) (hk : kind ≠ .inclusion)
    (free : name ∉ reservedNames) :
    Edit.fileDefines env path kind name = .ok (Assoc.contains (kind, name) t) := by
  obtain ⟨d, legal, rfl, held⟩ := h
  obtain ⟨guard, bootstrap, hg, hb, defines⟩ := legal.fileDefines held hk
  rw [defines]
  by_cases mem : (kind, name) ∈ Line.keys d.lines
  · obtain ⟨as, l, bs, hd, key, -, -⟩ := legal.exists_line mem
    obtain ⟨rfl, rfl⟩ : l.row.kind = kind ∧ l.row.name = name := Prod.mk.injEq .. ▸ key
    rw [legal.all_of_row hd hg hb, Assoc.contains_iff.2 (d.keys_table ▸ mem)]
    rfl
  · have absolute : name ≠ "ABSPATH" := fun e ↦ free (e ▸ List.mem_cons_self)
    have absent : Assoc.contains (kind, name) d.table = false := by
      rw [Bool.eq_false_iff, ne_eq, Assoc.contains_iff, Document.keys_table]
      exact mem
    rw [legal.all_of_not_mem hk absolute mem hg hb, absent]
    rfl

/-- An entry that may be written is set: the file represents the table with the entry. -/
theorem setInFile (h : Represents env path t)
    (hk : kind = .const ∨ kind = .var ∧ Edit.isVariableName name.toList)
    (free : name ∉ reservedNames) (value : String) :
    ∃ changed env', Edit.setInFile env path kind name value.toList .standard = (.ok changed, env') ∧
      Represents env' path (Assoc.insert (kind, name) value t) ∧
      (env.IsReached path → env'.IsReached path) := by
  obtain ⟨d, legal, rfl, held⟩ := h
  obtain ⟨d', legal', table, set⟩ := legal.exists_set hk free value
  obtain ⟨changed, env', done, held', reached⟩ := legal.setInFile held hk set
  exact ⟨changed, env', done, ⟨d', legal', table, held'⟩, reached⟩

/-- An entry of the table is removed: the file represents the table without it. -/
theorem removeFromFile (h : Represents env path t) (hk : kind ≠ .inclusion)
    (mem : (kind, name) ∈ Assoc.keys t) :
    ∃ env', Edit.removeFromFile env path kind name = (.ok true, env') ∧
      Represents env' path (Assoc.erase (kind, name) t) ∧
      (env.IsReached path → env'.IsReached path) := by
  obtain ⟨d, legal, rfl, held⟩ := h
  obtain ⟨d', legal', table, remove⟩ := legal.exists_remove (Document.keys_table d ▸ mem)
  obtain ⟨guard, bootstrap, parsed, -, -⟩ := legal.parse_text
  obtain ⟨s, owned, cut⟩ := remove _ parsed
  obtain ⟨env', done, held', reached⟩ :=
    Edit.exists_removeFromFile held parsed hk (List.cons_ne_nil s []) owned
  exact ⟨env', done, ⟨d', legal', table, cut ▸ held'⟩, reached⟩

/-- Reading yields the table: what it has for a name in a namespace, and nothing else. -/
theorem read (h : Represents env path t) (reached : env.IsReached path) :
    ∃ es, Reader.standard.read env path = .ok es ∧
      ∀ kind ≠ EntryKind.inclusion, ∀ name ∉ reservedNames,
        (es.filter fun e ↦ e.name == name && (TypeFilter.only kind).admits e.kind) =
          ((Assoc.lookup (kind, name) t).map fun v ↦ (⟨kind, name, .string v⟩ : Entry)).toList := by
  obtain ⟨d, legal, rfl, held⟩ := h
  obtain ⟨resolved, canonical, -⟩ := held.canonical reached
  exact ⟨_, Reader.read_of_readSource held reached canonical (legal.readSource_text env resolved),
    fun kind hk name free ↦ legal.filter_entries _ hk free⟩

end Represents

namespace HasRows

variable {env : Environment} {path : Path} {ks : List (EntryKind × String)} {kind : EntryKind}
  {name : String}

/-- What has a row is defined. -/
theorem fileDefines (h : HasRows env path ks) (hk : kind ≠ .inclusion)
    (absolute : name ≠ "ABSPATH") :
    Edit.fileDefines env path kind name = .ok (ks.contains (kind, name)) := by
  obtain ⟨d, sound, rows, held⟩ := h
  obtain ⟨guard, bootstrap, hg, hb, defines⟩ := sound.fileDefines held hk
  rw [defines]
  by_cases mem : (kind, name) ∈ Line.keys d.lines
  · have there : ks.contains (kind, name) = true := List.contains_iff_mem.2 ((rows _).1 mem)
    obtain ⟨as, l, bs, hd, key, notBefore⟩ := Document.exists_first_line mem
    obtain ⟨rfl, rfl⟩ : l.row.kind = kind ∧ l.row.name = name := Prod.mk.injEq .. ▸ key
    obtain ⟨more, found⟩ := sound.exists_all_of_row hd notBefore [guard, bootstrap]
    rw [found, there]
    rfl
  · have absent : ks.contains (kind, name) = false := by
      rw [Bool.eq_false_iff, ne_eq, List.contains_iff_mem]
      exact fun hm ↦ mem ((rows _).2 hm)
    rw [sound.all_of_not_mem hk absolute mem hg hb, absent]
    rfl

/-- An entry that may be written is set: the file has a row for it besides. -/
theorem setInFile (h : HasRows env path ks)
    (hk : kind = .const ∨ kind = .var ∧ Edit.isVariableName name.toList)
    (absolute : name ≠ "ABSPATH") (value : String) :
    ∃ changed env', Edit.setInFile env path kind name value.toList .standard = (.ok changed, env') ∧
      HasRows env' path ((kind, name) :: ks) := by
  obtain ⟨d, sound, rows, held⟩ := h
  obtain ⟨d', sound', rows', set⟩ := sound.exists_set hk absolute value
  obtain ⟨changed, env', done, held', -⟩ := sound.setInFile held hk set
  refine ⟨changed, env', done, d', sound', fun k ↦ ?_, held'⟩
  rw [rows', rows, List.mem_cons]

/-- Reading yields the constants that have a row, and `ABSPATH`. -/
theorem read (h : HasRows env path ks) (free : (.const, "ABSPATH") ∉ ks)
    (reached : env.IsReached path) :
    ∃ es, Reader.standard.read env path = .ok es ∧
      ∀ n, n ∈ Entry.constantNames es ↔
        ((.const, n) ∈ ks ∨ n = "ABSPATH") ∧ n ∉ Assoc.keys Scope.builtins := by
  obtain ⟨d, sound, rows, held⟩ := h
  obtain ⟨resolved, canonical, -⟩ := held.canonical reached
  obtain ⟨es, read, names⟩ :=
    sound.exists_readSource (fun hm ↦ free ((rows _).1 hm)) env resolved
  refine ⟨es, Reader.read_of_readSource held reached canonical read, fun n ↦ ?_⟩
  rw [names, rows]

end HasRows

end ConfigScript
