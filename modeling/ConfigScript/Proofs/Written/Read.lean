import ConfigScript.Proofs.Written.Run
import ConfigScript.Proofs.Written.Template
import ConfigScript.Store.Basic

/-!
# Reading written documents

Running a legal document from the standard scope yields an entry for each row, and one for `ABSPATH`
(`Document.Legal.readSource_text`). A sound one yields these constants as well, whatever else it says of
them (`Document.Sound.exists_readSource`). Among them, the entries of a name in a namespace are what the
table says (`Document.Legal.filter_entries`). A new file reads back as what was put in
(`Template.readSource_render`).
-/

namespace ConfigScript

open Script

/-- The names of the constants among entries. -/
def Entry.constantNames (es : List Entry) : List String :=
  (es.filter (·.kind = .const)).map (·.name)

/-- The constants that a scope holds beyond a snapshot. -/
theorem Snapshot.mem_constantNames_diff {before : Snapshot} {after : Scope} {n : String} :
    n ∈ Entry.constantNames (before.diff after) ↔
      n ∈ Assoc.keys after.constants ∧ n ∉ before.constants := by
  have vars : ∀ vs : Bindings, Entry.constantNames
      (vs.map fun v ↦ (⟨.var, v.1, v.2⟩ : Entry)) = [] := fun vs ↦ by
    simp [Entry.constantNames, List.filter_map, Function.comp_def]
  have files : ∀ ps : List Path, Entry.constantNames (ps.map Snapshot.inclusion) = [] := fun ps ↦ by
    simp [Entry.constantNames, Snapshot.inclusion, List.filter_map, Function.comp_def]
  have constants : ∀ cs : Bindings, Entry.constantNames
      (cs.map fun c ↦ (⟨.const, c.1, c.2⟩ : Entry)) = Assoc.keys cs := fun cs ↦ by
    induction cs with
    | nil => rfl
    | cons c cs ih => simpa [Entry.constantNames, Assoc.keys] using ih
  have append : ∀ as bs, Entry.constantNames (as ++ bs) =
      Entry.constantNames as ++ Entry.constantNames bs := fun as bs ↦ by
    simp [Entry.constantNames]
  rw [Snapshot.diff, append, append, vars, files, constants, List.nil_append, List.append_nil]
  simp [Assoc.keys, Snapshot.hasConstant]

/-- The entry that a row defines. -/
def Row.entry (r : Row) : Entry := ⟨r.kind, r.name, .string r.value⟩

namespace Document

/-- The scope in which a file starts. -/
theorem start_standard (path : Path) :
    Reader.standard.start path = ⟨Scope.builtins, [], [path]⟩ := by
  simp [Reader.start, Reader.standard, Scope.withBuiltins, Scope.empty, Scope.markLoaded,
    Scope.isLoaded]

/-- Of a scope with what every script may rely on, the rest is what the script defined. -/
theorem diff_standard (path : Path) {constants vars : Bindings}
    (free : ∀ c ∈ constants, c.1 ∉ Assoc.keys Scope.builtins) :
    (Reader.standard.start path).snapshot.diff ⟨Scope.builtins ++ constants, vars, [path]⟩ =
      vars.map (fun (name, value) ↦ ⟨.var, name, value⟩) ++
        constants.map (fun (name, value) ↦ ⟨.const, name, value⟩) := by
  rw [start_standard]
  have same : path.same path = true := by simp [Path.same]
  have known : Scope.builtins.filter
      (fun c ↦ !(Scope.snapshot ⟨Scope.builtins, [], [path]⟩).hasConstant c.1) = [] := rfl
  have defined : constants.filter
      (fun c ↦ !(Scope.snapshot ⟨Scope.builtins, [], [path]⟩).hasConstant c.1) = constants := by
    refine List.filter_eq_self.2 fun c hc ↦ ?_
    simpa [Snapshot.hasConstant, Scope.snapshot] using free c hc
  have novel : vars.filter
      (fun v ↦ !(Scope.snapshot ⟨Scope.builtins, [], [path]⟩).hasVariable v.1) = vars :=
    List.filter_eq_self.2 fun _ _ ↦ rfl
  have loaded : [path].filter
      (fun p ↦ !(Scope.snapshot ⟨Scope.builtins, [], [path]⟩).hasLoaded p) = [] := by
    simp [Snapshot.hasLoaded, Scope.snapshot, same]
  simp only [Snapshot.diff, List.filter_append, known, defined, novel, loaded, List.nil_append,
    List.map_nil, List.append_nil]

/-- What a file starts with does not hold the entry of a row with a free name. -/
theorem fresh_start {l : Line} (free : l.row.name ∉ reservedNames) (path : Path) :
    Line.Fresh (Reader.standard.start path) l := by
  rw [start_standard, Line.Fresh]
  split
  · simp [Assoc.keys]
  · exact fun hm ↦ free (List.mem_cons_of_mem _ hm)

/-- The names of the constants of lines are names of rows. -/
theorem exists_of_mem_constants {ls : List Line} {n : String} {v : Value}
    (h : (n, v) ∈ Line.constants ls) : ∃ l ∈ ls, l.row.name = n := by
  obtain ⟨l, hl, heq⟩ := List.mem_filterMap.1 h
  split at heq
  · cases heq
  · exact ⟨l, hl, by injection heq with heq; injection heq⟩

/-- The scope behind a document. -/
def scope (d : Document) (path : Path) (f : Frame) : Scope where
  constants := Scope.builtins ++ Line.constants d.lines ++ [("ABSPATH", Template.absolutePath f)]
  vars := Line.vars d.lines
  loaded := [path]

/-- Running a document defines what its rows say, and `ABSPATH`. -/
theorem Legal.execAll_text {d : Document} (h : d.Legal) {guard bootstrap : Stmt}
    (hg : Template.IsGuard guard) (hb : Template.IsBootstrap bootstrap) (f : Frame)
    (runner : Option Runner) (path : Path) :
    (f.execAll runner (Line.stmts first d.lines ++ [guard, bootstrap])).outcome
      (Reader.standard.start path) = (.ok .goOn, d.scope path f) := by
  have fresh : ∀ l ∈ d.lines, Line.Fresh (Reader.standard.start path) l := fun l hl ↦
    fresh_start (h.free l hl) path
  have absent : "ABSPATH" ∉ Assoc.keys (Scope.builtins ++ Line.constants d.lines) := by
    intro hm
    simp only [Assoc.keys, List.map_append, List.mem_append] at hm
    rcases hm with hm | hm
    · exact absurd hm (by decide)
    · obtain ⟨⟨n, v⟩, hmem, hn⟩ := List.mem_map.1 hm
      obtain ⟨l, hl, name⟩ := exists_of_mem_constants hmem
      have hn : n = "ABSPATH" := hn
      exact h.free l hl (by simp [name, hn, reservedNames])
  rw [Line.execAll_effects h.lines, Line.effects_of_fresh h.lines h.distinct fresh, start_standard]
  exact Template.execAll_tail hg hb f runner absent

/-- What is read from a document. -/
def entries (d : Document) (f : Frame) : List Entry :=
  (Line.vars d.lines).map (fun (name, value) ↦ ⟨.var, name, value⟩) ++
    (Line.constants d.lines).map (fun (name, value) ↦ ⟨.const, name, value⟩) ++
    [⟨.const, "ABSPATH", Template.absolutePath f⟩]

/-- Beyond what every script may rely on, a document adds its entries. -/
theorem Legal.diff_scope {d : Document} (h : d.Legal) (path : Path) (f : Frame) :
    (Reader.standard.start path).snapshot.diff (d.scope path f) = d.entries f := by
  have free : ∀ c ∈ Line.constants d.lines ++ [("ABSPATH", Template.absolutePath f)],
      c.1 ∉ Assoc.keys Scope.builtins := by
    intro c hc
    rcases List.mem_append.1 hc with hc | hc
    · obtain ⟨l, hl, name⟩ := exists_of_mem_constants hc
      exact fun hm ↦ h.free l hl (List.mem_cons_of_mem _ (name ▸ hm))
    · rw [List.mem_singleton.1 hc]
      exact show "ABSPATH" ∉ Assoc.keys Scope.builtins by decide
  rw [scope, List.append_assoc, diff_standard path free, entries, List.map_append,
    List.map_singleton, List.append_assoc]

/-- Running the text of a document is running its lines and the end. -/
theorem Sound.executeSource_text {d : Document} (h : d.Sound) (env : Environment) (path : Path)
    {after : Scope} (run : ∀ guard bootstrap, Template.IsGuard guard → Template.IsBootstrap bootstrap →
      (Frame.execAll ⟨env, d.text, path⟩ (some (runNested env 31))
        (Line.stmts first d.lines ++ [guard, bootstrap])).outcome (Reader.standard.start path) =
          (.ok .goOn, after)) :
    (Reader.standard.start path).executeSource env d.text path = (.ok (), after) := by
  obtain ⟨guard, bootstrap, parsed, hg, hb⟩ := h.parse_text
  exact Scope.executeSource_of_execAll parsed (run guard bootstrap hg hb)

/-- Reading a document. -/
theorem Legal.readSource_text {d : Document} (h : d.Legal) (env : Environment) (path : Path) :
    Reader.standard.readSource env d.text path = .ok (d.entries ⟨env, d.text, path⟩) := by
  have executed := h.executeSource_text env path fun guard bootstrap hg hb ↦
    h.execAll_text hg hb ⟨env, d.text, path⟩ (some (runNested env 31)) path
  rw [Reader.readSource, executed, ← h.diff_scope]

/-- The constants that are read from a document are those that it has rows for and `ABSPATH`, without
what every script may rely on. This also holds where constants are defined twice: the first row
counts. -/
theorem Sound.exists_readSource {d : Document} (h : d.Sound)
    (free : (.const, "ABSPATH") ∉ Line.keys d.lines) (env : Environment) (path : Path) :
    ∃ es, Reader.standard.readSource env d.text path = .ok es ∧
      ∀ n, n ∈ Entry.constantNames es ↔
        ((.const, n) ∈ Line.keys d.lines ∨ n = "ABSPATH") ∧ n ∉ Assoc.keys Scope.builtins := by
  have names := Line.mem_constants_effects h.lines (Reader.standard.start path)
  have start : (Reader.standard.start path).constants = Scope.builtins := by rw [start_standard]
  rw [start] at names
  have absent : "ABSPATH" ∉
      Assoc.keys (Line.effects d.lines (Reader.standard.start path)).constants := fun hm ↦
    ((names _).1 hm).elim (absurd · (by decide)) free
  have executed := h.executeSource_text env path fun guard bootstrap hg hb ↦
    (Line.execAll_effects h.lines ..).trans (Template.execAll_tail hg hb _ _ absent)
  refine ⟨_, by rw [Reader.readSource, executed], fun n ↦ ?_⟩
  rw [Snapshot.mem_constantNames_diff, Scope.snapshot, start]
  simp only [Assoc.keys, List.map_append, List.mem_append]
  rw [← Assoc.keys, names]
  simp only [List.map_cons, List.map_nil, List.mem_singleton, and_congr_left_iff]
  intro new
  exact or_congr_left (or_iff_right new)

/-! ### Looking up entries -/

/-- The variables in a table. -/
theorem vars_table (d : Document) : Line.vars d.lines =
    d.table.filterMap fun e ↦ if e.1.1 = .var then some (e.1.2, .string e.2) else none := by
  rw [table, List.filterMap_map]
  rfl

/-- The constants in a table. -/
theorem constants_table (d : Document) : Line.constants d.lines =
    d.table.filterMap fun e ↦ if e.1.1 = .var then none else some (e.1.2, .string e.2) := by
  rw [table, List.filterMap_map]
  rfl

/-- The entries of the variables of lines. -/
theorem map_variables (ls : List Line) :
    (Line.vars ls).map (fun (n, v) ↦ (⟨.var, n, v⟩ : Entry)) =
      (ls.filter (·.row.kind = .var)).map (·.row.entry) := by
  induction ls with
  | nil => rfl
  | cons l ls ih =>
    by_cases h : l.row.kind = .var
    · simpa [Line.vars, h, Row.entry] using ih
    · simpa [Line.vars, h] using ih

/-- The entries of the constants of lines. -/
theorem map_constants {ls : List Line} (legal : ∀ l ∈ ls, l.Legal) :
    (Line.constants ls).map (fun (n, v) ↦ (⟨.const, n, v⟩ : Entry)) =
      (ls.filter (·.row.kind = .const)).map (·.row.entry) := by
  induction ls with
  | nil => rfl
  | cons l ls ih =>
    have more := ih fun k hk ↦ legal k (List.mem_cons_of_mem l hk)
    rcases (legal l List.mem_cons_self).row.kind with h | ⟨h, -⟩
    · simpa [Line.constants, h, Row.entry] using more
    · simpa [Line.constants, h] using more

/-- In lines that define nothing twice, a key has the entry that the table tells. -/
theorem filter_key {ls : List Line} (distinct : (Line.keys ls).Nodup) (k : EntryKind)
    (name : String) : (ls.filter (·.row.key = (k, name))).map (·.row.entry) =
      ((Assoc.lookup (k, name) (ls.map fun l ↦ (l.row.key, l.row.value))).map fun v ↦
        (⟨k, name, .string v⟩ : Entry)).toList := by
  induction ls with
  | nil => rfl
  | cons l ls ih =>
    rw [Line.keys, List.map_cons, List.nodup_cons] at distinct
    rw [List.map_cons, Assoc.lookup_cons]
    by_cases h : l.row.key = (k, name)
    · have none : ls.filter (·.row.key = (k, name)) = [] := by
        refine List.filter_eq_nil_iff.2 fun m hm ↦ ?_
        have ne : m.row.key ≠ (k, name) := fun e ↦ distinct.1 (h ▸ e ▸ List.mem_map_of_mem hm)
        simpa using ne
      obtain ⟨rfl, rfl⟩ : l.row.kind = k ∧ l.row.name = name := Prod.mk.injEq .. ▸ h
      simp [h, none, Row.entry]
    · rw [List.filter_cons_of_neg (by simpa using h), if_neg h, ih distinct.2]

/-- The entries of a name in a namespace are what the table says. -/
theorem Legal.filter_entries {d : Document} (h : d.Legal) (f : Frame) {k : EntryKind}
    (hk : k ≠ .inclusion) {name : String} (free : name ∉ reservedNames) :
    (d.entries f).filter (fun e ↦ e.name == name && (TypeFilter.only k).admits e.kind) =
      ((Assoc.lookup (k, name) d.table).map fun v ↦ (⟨k, name, .string v⟩ : Entry)).toList := by
  have absolute : ("ABSPATH" == name) = false :=
    beq_eq_false_iff_ne.2 fun e ↦ free (e ▸ List.mem_cons_self)
  have part : ∀ j : EntryKind, ((d.lines.filter (·.row.kind = j)).map (·.row.entry)).filter
      (fun e ↦ e.name == name && (TypeFilter.only k).admits e.kind) =
        if j = k then (d.lines.filter (·.row.key = (k, name))).map (·.row.entry) else [] := by
    intro j
    rw [List.filter_map, List.filter_filter]
    split
    · rename_i hj
      congr 1
      refine List.filter_congr fun l _ ↦ ?_
      subst hj
      by_cases hkind : l.row.kind = j <;> by_cases hname : l.row.name = name <;>
        simp [Row.entry, Row.key, TypeFilter.admits, hkind, hname]
    · rename_i hj
      rw [List.map_eq_nil_iff]
      refine List.filter_eq_nil_iff.2 fun l _ ↦ ?_
      simp only [Function.comp_apply, Row.entry, TypeFilter.admits, Bool.and_eq_true, beq_iff_eq,
        decide_eq_true_eq, not_and]
      rintro ⟨-, rfl⟩ rfl
      exact hj rfl
  rw [entries, map_variables, map_constants h.lines, List.filter_append, List.filter_append, part,
    part, filter_key h.distinct]
  cases k <;> simp_all [table]

end Document

/-! ### New files -/

namespace Template

/-- The variables of a new file. -/
theorem vars_document (salts : List (String × String)) :
    Line.vars (document salts).lines = [("table_prefix", .string "wp_")] := by
  rw [Document.vars_table, table_document]
  simp [table]

/-- The constants of a new file. -/
theorem constants_document (salts : List (String × String)) :
    Line.constants (document salts).lines =
      ([("DB_NAME", ""), ("DB_USER", ""), ("DB_PASSWORD", ""), ("DB_HOST", "localhost"),
        ("DB_CHARSET", "utf8"), ("DB_COLLATE", "")] ++ salts).map
          fun (name, value) ↦ (name, .string value) := by
  rw [Document.constants_table, table_document]
  simp [table]

/-- A new file reads back as what was put in: the table prefix, the database settings with their
placeholders, the salts in their order, each with its value, and the directory of the file. -/
theorem readSource_render (env : Environment) {salts : List (String × String)}
    (distinct : (salts.map (·.1)).Nodup)
    (free : ∀ n ∈ salts.map (·.1), n ∉ databaseNames ∧ n ≠ "ABSPATH" ∧
      n ∉ Assoc.keys Scope.builtins) (path : Path) :
    Reader.standard.readSource env (render salts []) path =
      .ok (⟨.var, "table_prefix", .string "wp_"⟩ ::
        ([("DB_NAME", ""), ("DB_USER", ""), ("DB_PASSWORD", ""), ("DB_HOST", "localhost"),
          ("DB_CHARSET", "utf8"), ("DB_COLLATE", "")] ++ salts ++
            [("ABSPATH", (path.parent?.getD (.ofString ".")).toString ++ "/")]).map
              fun (name, value) ↦ ⟨.const, name, .string value⟩) := by
  have legal : (document salts).Legal := by
    refine legal_document_of_free distinct fun n hn ↦ ⟨(free n hn).1, ?_⟩
    rw [reservedNames, List.mem_cons, not_or]
    exact (free n hn).2
  rw [← text_document, legal.readSource_text, Document.entries, vars_document, constants_document]
  simp only [List.map_append, List.map_map]
  rfl

/-- A name with a quote, one that is longer than the room for names, and values with a backslash at the
end and with tags. -/
theorem readSource_render_quoted :
    Reader.standard.readSource .bare
        (render [("KEY'S", "a\\"), ("A_NAME_WITHOUT_PADDING", "?> */ <?php\n")] [])
        (.ofString "/srv/site/wp-config.php") =
      .ok [⟨.var, "table_prefix", .string "wp_"⟩, ⟨.const, "DB_NAME", .string ""⟩,
        ⟨.const, "DB_USER", .string ""⟩, ⟨.const, "DB_PASSWORD", .string ""⟩,
        ⟨.const, "DB_HOST", .string "localhost"⟩, ⟨.const, "DB_CHARSET", .string "utf8"⟩,
        ⟨.const, "DB_COLLATE", .string ""⟩, ⟨.const, "KEY'S", .string "a\\"⟩,
        ⟨.const, "A_NAME_WITHOUT_PADDING", .string "?> */ <?php\n"⟩,
        ⟨.const, "ABSPATH", .string "/srv/site/"⟩] := by
  have directory : ((Path.ofString "/srv/site/wp-config.php").parent?.getD
      (.ofString ".")).toString ++ "/" = "/srv/site/" := by decide +kernel
  rw [readSource_render _ (by decide) (by decide), directory]
  rfl

end Template

end ConfigScript
