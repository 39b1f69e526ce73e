import ConfigScript.Proofs.Files.Remove
import ConfigScript.Proofs.Store.Refinement

/-!
# A new file that cannot be finished

Making a file first writes the template and then the settings, each of which may fail on source text
of the caller's own. Up to the template nothing is changed (`newSalts_environment`), from then on a
file is there (`holds_applySettings`), so if a setting fails it can be removed. A failure therefore
leaves the path as it was, or empty (`create_error`). What was to be replaced is not brought back
(`create_discards`).
-/

namespace ConfigScript.Store

open Script

variable {s : Store} {path : Path} {reader : Reader} {o : CreateOptions} {m m' : Machine}
  {e : ConfigError}

/-! ### What the steps do to the path -/

/-- Setting an entry of a file that is held leaves a file there, whether it fails or not. -/
theorem holds_setInFile {env env' : Environment} {kind : EntryKind} {name : String}
    {value : List Char} {options : Edit.Options} {r : Except ConfigError Bool}
    (held : ∃ text, env.Holds path text)
    (h : Edit.setInFile env path kind name value options = (r, env')) :
    ∃ text, env'.Holds path text := by
  cases r with
  | error e => rwa [Edit.eq_of_setInFile_error h]
  | ok changed =>
    obtain ⟨_, _, text, -, -, ⟨-, -, rfl⟩ | ⟨-, -, written⟩⟩ := Edit.exists_of_setInFile h
    · exact held
    · exact ⟨text, Environment.exists_held written⟩

/-- A text that cannot be written leaves everything as it is. -/
theorem exists_of_writeFile_error {env env' : Environment} {text : List Char}
    (h : (Edit.writeFile path text).outcome env = (.error e, env')) :
    env' = env ∧ ∃ fault, e = .io fault := by
  cases written : env.write path (.text text) with
  | error fault =>
    have made : Edit.writeText env path text = .error (.io fault) := by
      rw [Edit.writeText, written]
      rfl
    have failed : (Edit.writeFile path text).outcome env = _ := OperationOn.outcome_attempt_error made
    cases failed.symm.trans h
    exact ⟨rfl, fault, rfl⟩
  | ok env₁ => cases (Edit.outcome_writeFile written).symm.trans h

/-- While settings are written, a file stays there. -/
theorem holds_applySettings {settings : List (EntryKind × String × String)}
    {r : Except ConfigError Unit} (held : ∃ text, m.environment.Holds s.path text)
    (h : (s.applySettings settings).outcome m = (r, m')) :
    ∃ text, m'.environment.Holds s.path text := by
  induction settings generalizing m with
  | nil =>
    cases h
    exact held
  | cons x settings ih =>
    obtain ⟨kind, name, value⟩ := x
    rw [applySettings, OperationOn.outcome_bind, Operation.outcome_change] at h
    rcases set : Edit.setInFile m.environment s.path kind name value.toList .standard with
      ⟨e | changed, env⟩ <;> rw [set] at h
    · cases h
      exact holds_setInFile held set
    · exact ih (holds_setInFile held set) h

/-- Fetching salts counts the request and changes nothing else. -/
theorem outcome_fetchSalts (insecure : Bool) (m : Machine) :
    (Operation.fetchSalts insecure).outcome m =
      ((m.service.fetch insecure).bind fun body ↦
        (Salt.parse m.environment body).mapError .script, { m with fetches := m.fetches + 1 }) := by
  have counted : (modify fun m : Machine ↦ { m with fetches := m.fetches + 1 } :
      Operation Unit).outcome m = (.ok (), { m with fetches := m.fetches + 1 }) := rfl
  rw [Operation.fetchSalts, OperationOn.outcome_bind_ok counted,
    OperationOn.outcome_bind_ok (OperationOn.outcome_get _), OperationOn.outcome_bind,
    Operation.outcome_query]
  cases m.service.fetch insecure with
  | error e => rfl
  | ok body => exact Operation.outcome_query _ _

/-- Salts are drawn, or fetched if the source runs dry. -/
theorem outcome_newSalts_of_salted (salted : o.skipSalts = false) :
    (newSalts o).outcome m =
      match Salt.keysFor (Salt.freshNames true) m.entropy with
      | (some keys, e) => (.ok keys, { m with entropy := e })
      | (none, e) => (Operation.fetchSalts o.insecure).outcome { m with entropy := e } := by
  have drawn : (Operation.drawKeys (Salt.freshNames true)).outcome m =
      (.ok (Salt.keysFor (Salt.freshNames true) m.entropy).1,
        { m with entropy := (Salt.keysFor (Salt.freshNames true) m.entropy).2 }) := rfl
  rw [newSalts, salted, if_neg Bool.false_ne_true, OperationOn.outcome_bind_ok drawn]
  rcases Salt.keysFor (Salt.freshNames true) m.entropy with ⟨_ | keys, e⟩ <;> rfl

/-- Salts are found without touching files. -/
theorem newSalts_environment {r : Except ConfigError (List (String × String))}
    (h : (newSalts o).outcome m = (r, m')) : m'.environment = m.environment := by
  cases salted : o.skipSalts with
  | true =>
    rw [newSalts, salted, if_pos rfl] at h
    cases h
    rfl
  | false =>
    rw [outcome_newSalts_of_salted salted] at h
    rcases drawn : Salt.keysFor (Salt.freshNames true) m.entropy with ⟨_ | keys, e⟩ <;>
      rw [drawn] at h
    · cases (outcome_fetchSalts o.insecure _).symm.trans h
      rfl
    · cases h
      rfl

/-- Where salts come from, no file is made. -/
theorem ne_creation_of_newSalts (h : (newSalts o).outcome m = (.error e, m')) (path : Path)
    (cause : ConfigError) : e ≠ .creation path cause := by
  cases salted : o.skipSalts with
  | true =>
    rw [newSalts, salted, if_pos rfl] at h
    cases h
  | false =>
    rw [outcome_newSalts_of_salted salted] at h
    rcases drawn : Salt.keysFor (Salt.freshNames true) m.entropy with ⟨_ | keys, entropy⟩ <;>
      rw [drawn] at h
    · replace h := congrArg Prod.fst ((outcome_fetchSalts o.insecure _).symm.trans h)
      dsimp only at h
      cases fetched : m.service.fetch o.insecure with
      | error e₁ =>
        rw [fetched] at h
        rw [SaltService.fetch] at fetched
        split at fetched
        · cases fetched
        · cases fetched
          rw [← Except.error.inj h]
          simp
      | ok body =>
        cases parsed : Salt.parse m.environment body with
        | error fault =>
          rw [fetched, Except.bind, parsed] at h
          rw [← Except.error.inj h]
          simp
        | ok salts =>
          rw [fetched, Except.bind, parsed] at h
          cases h
    · cases h

/-- A file that is held is discarded. -/
theorem exists_discard (held : ∃ text, m.environment.Holds s.path text) :
    ∃ m', s.discard.outcome m = (.ok (), m') ∧ m'.environment.find? s.path = none := by
  obtain ⟨text, held⟩ := held
  obtain ⟨env, removed, gone⟩ := held.removeFile
  refine ⟨{ m with environment := env }, ?_, gone⟩
  rw [discard]
  show (Except.ok (), _) = _
  dsimp only
  rw [removed]

/-! ### Failures -/

/-- Where a failed creation leaves the files: as they were, or without the file at the path, and
then it could be written but not set up, and what stood there was to be replaced. The error says which. -/
theorem create_cases (h : (create path reader o).outcome m = (.error e, m')) :
    (∀ cause, e ≠ .creation path cause) ∧ m'.environment = m.environment ∨
      (∃ cause, e = .creation path cause) ∧ m'.environment.find? path = none ∧
        (m.environment.pathExists path → o.force) := by
  rw [create] at h
  split at h
  · cases h
    exact .inl ⟨by simp, rfl⟩
  rw [OperationOn.outcome_bind_ok (OperationOn.outcome_get m)] at h
  split at h
  · cases h
    exact .inl ⟨by simp, rfl⟩
  rename_i room
  rw [OperationOn.outcome_bind] at h
  rcases salts : (newSalts o).outcome m with ⟨e₁ | keys, m₁⟩
  · rw [salts] at h
    cases h
    exact .inl ⟨ne_creation_of_newSalts salts path, newSalts_environment salts⟩
  have same := newSalts_environment salts
  rw [salts] at h
  dsimp only at h
  rw [OperationOn.outcome_bind, Operation.outcome_change] at h
  -- Only a write can begin the file, and from then on only the settings can fail.
  rcases written : (Edit.writeFile path (Template.render keys o.extra)).outcome m₁.environment with
    ⟨fault | _, env⟩ <;> rw [written] at h
  · obtain ⟨idle, cause, rfl⟩ := exists_of_writeFile_error written
    cases h
    exact .inl ⟨by simp, idle.trans same⟩
  dsimp only at h
  rw [OperationOn.outcome_bind, OperationOn.outcome_tryCatch] at h
  have held := Environment.exists_held (Edit.write_of_writeFile written)
  rcases applied : ((⟨path, reader⟩ : Store).applySettings o.settings).outcome
      { m₁ with environment := env } with ⟨cause | _, m₂⟩ <;> rw [applied] at h
  · obtain ⟨m₃, discarded, gone⟩ := exists_discard (holds_applySettings ⟨_, held⟩ applied)
    dsimp only at h
    rw [OperationOn.outcome_bind_ok discarded] at h
    cases h
    refine .inr ⟨⟨cause, rfl⟩, gone, fun there ↦ ?_⟩
    rw [there] at room
    simpa using room
  · cases h

/-- If making a file fails, the path leads to what it led to before. Otherwise a setting could not be
written to a file that was to replace another one: then the path leads nowhere. The error tells both cases
apart: if it names a reason why the file could not be made, the path leads nowhere, and if not, all files are
as they were. -/
theorem create_error (h : (create path reader o).outcome m = (.error e, m')) :
    (m'.environment.find? path = m.environment.find? path ∨
      (∃ cause, e = .creation path cause) ∧ o.force ∧ m.environment.pathExists path ∧
        m'.environment.find? path = none) ∧
      (∀ cause, e = .creation path cause → m'.environment.find? path = none) ∧
      ((∀ cause, e ≠ .creation path cause) → m'.environment = m.environment) := by
  rcases create_cases h with ⟨other, same⟩ | ⟨⟨cause, made⟩, gone, forced⟩
  · exact ⟨.inl (congrArg (·.find? path) same), fun cause made ↦ absurd made (other cause), fun _ ↦ same⟩
  refine ⟨?_, fun _ _ ↦ gone, fun other ↦ absurd made (other cause)⟩
  by_cases there : m.environment.pathExists path
  · exact .inr ⟨⟨cause, made⟩, forced there, there, gone⟩
  · rw [Environment.pathExists, Bool.not_eq_true, Option.isSome_eq_false_iff,
      Option.isNone_iff_eq_none] at there
    exact .inl (gone.trans there.symm)

/-! ### A file that is lost -/

/-- A text that cannot be parsed cannot be edited. -/
theorem exists_setInFile_error {env : Environment} {text : List Char} {fault : ScriptError}
    (held : env.Holds path text) (bad : parse text = .error fault) (kind : EntryKind)
    (name : String) (value : List Char) (options : Edit.Options) :
    ∃ e, Edit.setInFile env path kind name value options = (.error e, env) := by
  rcases set : Edit.setInFile env path kind name value options with ⟨e | changed, env'⟩
  · exact ⟨e, by rw [Edit.eq_of_setInFile_error set]⟩
  · obtain ⟨source, body, -, loaded, -⟩ := Edit.exists_of_setInFile set
    obtain ⟨read, parsed⟩ := Edit.loaded_of_loadFile loaded
    obtain rfl := Except.ok.inj (held.readText.symm.trans read)
    cases bad.symm.trans parsed

/-- The table prefix is always written. -/
theorem settings_ne_nil (named : isDatabasePrefix o.dbprefix.toList) : o.settings ≠ [] := by
  have some : o.dbprefix ≠ "" := by
    intro none
    rw [none] at named
    cases named
  refine List.ne_nil_of_mem (a := (.var, "table_prefix", o.dbprefix)) (List.mem_filter.2 ⟨?_, ?_⟩)
  · simp
  · simpa using some

/-- If the caller's own source text cannot be parsed within the template, making the file fails, and
nothing is there afterwards. -/
theorem exists_create_error (reader : Reader) {env : Environment} {fault : ScriptError}
    (named : isDatabasePrefix o.dbprefix.toList)
    (room : (m.environment.pathExists path && !o.force) = false) (bare : o.skipSalts = true)
    (written : m.environment.write path (.text (Template.render [] o.extra)) = .ok env)
    (bad : parse (Template.render [] o.extra) = .error fault) :
    ∃ cause m', (create path reader o).outcome m = (.error (.creation path cause), m') ∧
      m'.environment.find? path = none := by
  have held := Environment.exists_held written
  obtain ⟨cause, applied⟩ : ∃ e, ((⟨path, reader⟩ : Store).applySettings o.settings).outcome
      { m with environment := env } = (.error e, { m with environment := env }) := by
    cases settings : o.settings with
    | nil => exact absurd settings (settings_ne_nil named)
    | cons x rest =>
      obtain ⟨kind, name, value⟩ := x
      obtain ⟨e, fails⟩ := exists_setInFile_error held bad kind name value.toList .standard
      refine ⟨e, ?_⟩
      rw [applySettings, OperationOn.outcome_bind, Operation.outcome_change, fails]
  obtain ⟨m', discarded, gone⟩ := exists_discard (s := ⟨path, reader⟩)
    (m := { m with environment := env }) ⟨_, held⟩
  have salts : (newSalts o).outcome m = (.ok [], m) := by
    rw [newSalts, if_pos bare]
    rfl
  have put : (Operation.change (Edit.writeFile path (Template.render [] o.extra)).outcome).outcome m =
      (.ok (), { m with environment := env }) := by
    rw [Operation.outcome_change, Edit.outcome_writeFile written]
  refine ⟨cause, m', ?_, gone⟩
  rw [create, if_neg (by simp [named]), OperationOn.outcome_bind_ok (OperationOn.outcome_get m),
    if_neg (by simp [room]), OperationOn.outcome_bind_ok salts, OperationOn.outcome_bind_ok put,
    OperationOn.outcome_bind, OperationOn.outcome_tryCatch, applied]
  dsimp only
  rw [OperationOn.outcome_bind_ok discarded]
  rfl

/-- The caller's own source text stands behind the body of the document. -/
theorem render_extra (salts : List (String × String)) (extra : List Char) :
    Template.render salts extra = (Template.document salts).body ++
      (Template.extraText extra ++ Template.tail.toList) := by
  have whole := Template.text_document salts
  have none : Template.extraText [] = [] := rfl
  rw [Document.text, Template.render, none, List.append_nil] at whole
  rw [Template.render, ← List.append_cancel_right whole]
  simp

/-- Attributes are not supported. -/
theorem exists_tokenize_error {d : Document} (h : d.Sound) (rest : List Char) :
    ∃ e, tokenize (d.body ++ '#' :: '[' :: rest) = .error e := by
  have body := (Document.lexes_opening _).append
    ((Line.lexes h.lines _ Document.first).append (h.filler.gap ('#' :: '[' :: rest) _))
  have whole := body.tokensFrom_append
  have stop : piece .script '#' ('[' :: rest) = .error (.unsupportedSyntax .attributes) := rfl
  rw [tokensFrom_cons, stop] at whole
  have shape : d.body ++ '#' :: '[' :: rest =
      Document.opening ++ (Line.texts d.lines ++ d.gap) ++ '#' :: '[' :: rest := by
    rw [Document.body, List.append_assoc Document.opening]
  exact ⟨_, by rw [shape]; exact whole⟩

/-- A machine with one file in its root directory. -/
def occupiedMachine : Machine :=
  { bareMachine with
    environment :=
      { bareMachine.environment with
        files := bareMachine.environment.files.put [['a']] (.file (.text "<?php $old = 1;".toList)) } }

theorem holds_occupied :
    occupiedMachine.environment.Holds ⟨['/', 'a']⟩ "<?php $old = 1;".toList :=
  ⟨[], ['a'], writable_root.put _, FileTree.get?_put_self _ _ _⟩

/-- Options that replace a file and begin the caller's own source text with an attribute. -/
def attributeOptions : CreateOptions :=
  { CreateOptions.standard with skipSalts := true, force := true, extra := ['#', '['] }

/-- With the caller's own source text cut off at an attribute, the settings cannot be written, so the
file that was to be replaced is removed. -/
theorem exists_create_occupied : ∃ cause m',
    (create ⟨['/', 'a']⟩ .standard attributeOptions).outcome occupiedMachine =
        (.error (.creation ⟨['/', 'a']⟩ cause), m') ∧
      m'.environment.find? ⟨['/', 'a']⟩ = none := by
  obtain ⟨fault, bad⟩ : ∃ fault, parse (Template.render [] ['#', '[']) = .error fault := by
    obtain ⟨fault, cut⟩ := exists_tokenize_error (Template.sound_document [])
      ('\n' :: '\n' :: Template.tail.toList)
    have extra : Template.extraText ['#', '['] = ['#', '[', '\n', '\n'] := by decide
    refine ⟨fault, ?_⟩
    rw [render_extra, extra, parse]
    exact congrArg (· >>= parseTokens) cut
  obtain ⟨env, written, -⟩ := holds_occupied.write (Template.render [] ['#', '['])
  exact exists_create_error .standard (by decide) (by simp [attributeOptions]) rfl written bad

/-- A file that was to be replaced is lost if the caller's own source text cannot be parsed. -/
theorem create_discards : ∃ cause m',
    (create ⟨['/', 'a']⟩ .standard attributeOptions).outcome occupiedMachine =
        (.error (.creation ⟨['/', 'a']⟩ cause), m') ∧
      occupiedMachine.environment.find? ⟨['/', 'a']⟩ =
        some (.file (.text "<?php $old = 1;".toList)) ∧
      m'.environment.find? ⟨['/', 'a']⟩ = none := by
  obtain ⟨cause, m', fails, gone⟩ := exists_create_occupied
  exact ⟨cause, m', fails, holds_occupied.find?, gone⟩

/-- The failure that replaces a file by nothing is of the second kind. -/
theorem create_error_occupied : ∃ e m',
    (create ⟨['/', 'a']⟩ .standard attributeOptions).outcome occupiedMachine = (.error e, m') ∧
      m'.environment.find? ⟨['/', 'a']⟩ ≠ occupiedMachine.environment.find? ⟨['/', 'a']⟩ ∧
      (∃ cause, e = .creation ⟨['/', 'a']⟩ cause) := by
  obtain ⟨cause, m', fails, gone⟩ := exists_create_occupied
  have changed : m'.environment.find? ⟨['/', 'a']⟩ ≠
      occupiedMachine.environment.find? ⟨['/', 'a']⟩ := by
    rw [gone, holds_occupied.find?]
    simp
  exact ⟨_, m', fails, changed, ((create_error fails).1.resolve_left changed).1⟩

end ConfigScript.Store
