import ConfigScript.Proofs.Store.Failure

/-!
# The salts of a new file

The salts of a new file are keys that are drawn or, if the source of randomness runs dry on the way,
what the service hands out. Drawn keys have the names of all salts. The service may define what it
likes: its answer is run, and every text constant in it becomes a row of the new file. Nothing makes
sure that these rows do not define an entry twice, so the file is that of a sound document, not of a
legal one (`Store.hasRows_of_create`).

So the salts that a new file has are just those that were drawn or answered, and what is read from it
besides is its own (`Store.create_salts`). An answer may leave salts out and bring other constants
(`Store.create_unsalted`). One that defines `ABSPATH` decides which file the end of the new file loads,
and then nothing can be told of what is read.
-/

namespace ConfigScript.Store

open Script

variable {s : Store} {path : Path} {reader : Reader} {o : CreateOptions} {m m' m₁ : Machine}
  {salts : List (String × String)}

/-! ### Rows -/

/-- The constants that a new file has besides its salts: those of settings, and `ABSPATH`. -/
def ownNames : List String :=
  ["DB_NAME", "DB_USER", "DB_PASSWORD", "DB_HOST", "DB_CHARSET", "DB_COLLATE", "WPLANG", "ABSPATH"]

/-- What a new file has rows for: its settings, its placeholders and its salts. -/
def rows (o : CreateOptions) (salts : List (String × String)) : List (EntryKind × String) :=
  (o.settings.map fun x ↦ (x.1, x.2.1)).reverse ++ Line.keys (Template.document salts).lines

/-- A constant with a row is a setting or a salt. -/
theorem mem_rows {n : String} (h : (.const, n) ∈ rows o salts) :
    n ∈ salts.map (·.1) ∨ n ∈ ownNames ∧ n ≠ "ABSPATH" := by
  have setting : ∀ k ∈ settingKeys, k.1 = .const → k.2 ∈ ownNames ∧ k.2 ≠ "ABSPATH" := by decide
  have placeholder : ∀ n ∈ Template.databaseNames, n ∈ ownNames ∧ n ≠ "ABSPATH" := by decide
  rcases List.mem_append.1 h with hn | hn
  · obtain ⟨x, hx, key⟩ := List.mem_map.1 (List.mem_reverse.1 hn)
    exact .inr (setting _ (key ▸ mem_settingKeys hx) rfl)
  · exact (Template.mem_keys_document.1 hn).symm.imp_right (placeholder n)

theorem mem_rows_of_salt {n : String} (h : n ∈ salts.map (·.1)) : (.const, n) ∈ rows o salts :=
  List.mem_append_right _ (Template.mem_keys_document.2 (.inr h))

/-- The salts of every configuration file are no settings. -/
theorem contains_rows {n : String} (hn : n ∈ Salt.names) :
    (rows o salts).contains (.const, n) = (salts.map (·.1)).contains n := by
  have foreign : ∀ n ∈ Salt.names, n ∉ ownNames := by decide
  rw [Bool.eq_iff_iff, List.contains_iff_mem, List.contains_iff_mem]
  exact ⟨fun h ↦ (mem_rows h).resolve_right fun own ↦ foreign n hn own.1, mem_rows_of_salt⟩

/-- Settings add rows to a file. -/
theorem hasRows_applySettings {ks : List (EntryKind × String)}
    (h : HasRows m.environment s.path ks) (o : CreateOptions) :
    ∃ m', (s.applySettings o.settings).outcome m = (.ok (), m') ∧
      HasRows m'.environment s.path ((o.settings.map fun x ↦ (x.1, x.2.1)).reverse ++ ks) := by
  rw [← List.foldl_flip_cons_eq_append]
  refine exists_applySettings (P := fun ks env ↦ HasRows env s.path ks) (fun x hx ks env h ↦ ?_) h
  obtain ⟨hk, free⟩ := legal_settings o x hx
  exact h.setInFile hk (fun absolute ↦ free (absolute ▸ List.mem_cons_self)) x.2.2

/-- A new file has its rows, whatever its salts are. -/
theorem hasRows_of_written (reader : Reader) {env : Environment} (plain : o.extra = [])
    (written : m₁.environment.write path (.text (Template.render salts o.extra)) = .ok env) :
    ∃ m', (applySettings ⟨path, reader⟩ o.settings).outcome { m₁ with environment := env } =
        (.ok (), m') ∧ HasRows m'.environment path (rows o salts) := by
  rw [plain, ← Template.text_document] at written
  exact hasRows_applySettings (s := ⟨path, reader⟩) (m := { m₁ with environment := env })
    ⟨_, Template.sound_document salts, fun _ ↦ Iff.rfl, Environment.exists_held written⟩ o

/-- A new file has rows for its salts, wherever these are from, and for its own entries. -/
theorem hasRows_of_create (created : (create path reader o).outcome m = (.ok s, m'))
    (plain : o.extra = []) :
    s = ⟨path, reader⟩ ∧ ∃ salts m₁, (newSalts o).outcome m = (.ok salts, m₁) ∧
      HasRows m'.environment path (rows o salts) := by
  obtain ⟨rfl, salts, m₁, env, found, written, applied⟩ := create_ok created
  obtain ⟨m₂, done, rows⟩ := hasRows_of_written reader plain written
  cases done.symm.trans applied
  exact ⟨rfl, salts, m₁, found, rows⟩

/-! ### Salts -/

/-- Where the salts of a new file come from. -/
theorem newSalts_cases (salted : o.skipSalts = false)
    (h : (newSalts o).outcome m = (.ok salts, m')) :
    match (Salt.keysFor (Salt.freshNames true) m.entropy).1 with
    | some keys => salts = keys
    | none => ∃ body, m.service.fetch o.insecure = .ok body ∧
        Salt.parse m.environment body = .ok salts := by
  rw [outcome_newSalts_of_salted salted] at h
  rcases drawn : Salt.keysFor (Salt.freshNames true) m.entropy with ⟨_ | keys, e⟩ <;>
    rw [drawn] at h
  · replace h := congrArg Prod.fst ((outcome_fetchSalts o.insecure _).symm.trans h)
    cases fetched : m.service.fetch o.insecure with
    | error e => simp [fetched, Except.bind] at h
    | ok body =>
      refine ⟨body, rfl, ?_⟩
      cases parsed : Salt.parse m.environment body with
      | error e => simp [fetched, parsed, Except.bind, Except.mapError] at h
      | ok answered => simpa [fetched, parsed, Except.bind] using h
  · exact (Except.ok.inj (congrArg Prod.fst h)).symm

/-- A constant with a row is found. -/
theorem outcome_has_rows (h : HasRows m.environment s.path (rows o salts)) {n : String}
    (hn : n ∈ Salt.names) :
    (s.has n (.only .const)).outcome m = (.ok ((salts.map (·.1)).contains n), m) := by
  have absolute : ∀ n ∈ Salt.names, n ≠ "ABSPATH" := by decide
  have defined : (Operation.query fun env ↦ Edit.fileDefines env s.path .const n).outcome m =
      (.ok ((salts.map (·.1)).contains n), m) := by
    rw [Operation.outcome_query, h.fileDefines (by simp) (absolute n hn), contains_rows hn]
  rw [has, locate, bind_assoc, OperationOn.outcome_bind_ok defined]
  rfl

/-- What is read from a file with the rows of a new one: its salts, and else only what is its own. -/
theorem constantNames_of_rows (h : HasRows m.environment path (rows o salts))
    (legal : ∀ n ∈ m.environment.origin path, Environment.IsLegal n)
    (free : "ABSPATH" ∉ salts.map (·.1)) {es : List Entry}
    (read : (entries ⟨path, .standard⟩).outcome m = (.ok es, m)) :
    (∀ n ∈ Salt.names, n ∈ Entry.constantNames es ↔ n ∈ salts.map (·.1)) ∧
      ∀ n ∈ Entry.constantNames es, n ∈ salts.map (·.1) ∨ n ∈ ownNames := by
  have plain : ∀ n ∈ Salt.names, n ∉ ownNames ∧ n ∉ Assoc.keys Scope.builtins := by decide
  have read : Reader.standard.read m.environment path = .ok es := congrArg Prod.fst read
  obtain ⟨d, -, -, held⟩ := id h
  obtain ⟨es', read', names⟩ := h.read (fun hm ↦ (mem_rows hm).elim free fun own ↦ own.2 rfl)
    (held.isReached_of_read legal read)
  obtain rfl := Except.ok.inj (read'.symm.trans read)
  have known : ∀ n ∈ Entry.constantNames es', n ∈ salts.map (·.1) ∨ n ∈ ownNames := by
    intro n hn
    rcases ((names n).1 hn).1 with hm | rfl
    · exact (mem_rows hm).imp_right And.left
    · exact .inr (by decide)
  exact ⟨fun n hn ↦ ⟨fun hm ↦ (known n hm).resolve_right (plain n hn).1,
    fun hm ↦ (names n).2 ⟨.inl (mem_rows_of_salt hm), (plain n hn).2⟩⟩, known⟩

/-- A new file carries its salts. If keys can be drawn, it has all of them, and every constant that is
read from it is a salt or its own. Otherwise it has those that the service defines as texts and, unless
these decide which file is loaded at its end, every constant that is read from it is one of them or its
own. What is read is that file if the working directory is one that can be. -/
theorem create_salts (created : (create path .standard o).outcome m = (.ok s, m'))
    (salted : o.skipSalts = false) (plain : o.extra = [])
    (legal : ∀ n ∈ m'.environment.origin path, Environment.IsLegal n) :
    match (Salt.keysFor (Salt.freshNames true) m.entropy).1 with
    | some _ =>
      (∀ n ∈ Salt.names, (s.has n (.only .const)).outcome m' = (.ok true, m')) ∧
        ∀ es, s.entries.outcome m' = (.ok es, m') →
          (∀ n ∈ Salt.names, n ∈ Entry.constantNames es) ∧
            ∀ n ∈ Entry.constantNames es, n ∈ Salt.freshNames true ∨ n ∈ ownNames
    | none => ∃ body salts, m.service.fetch o.insecure = .ok body ∧
        Salt.parse m.environment body = .ok salts ∧
        (∀ n ∈ Salt.names, (s.has n (.only .const)).outcome m' =
          (.ok ((salts.map (·.1)).contains n), m')) ∧
        ("ABSPATH" ∉ salts.map (·.1) → ∀ es, s.entries.outcome m' = (.ok es, m') →
          (∀ n ∈ Salt.names, n ∈ Entry.constantNames es ↔ n ∈ salts.map (·.1)) ∧
            ∀ n ∈ Entry.constantNames es, n ∈ salts.map (·.1) ∨ n ∈ ownNames) := by
  obtain ⟨rfl, salts, m₁, found, rows⟩ := hasRows_of_create created plain
  have source := newSalts_cases salted found
  cases drawn : (Salt.keysFor (Salt.freshNames true) m.entropy).1 with
  | some keys =>
    rw [drawn] at source
    obtain rfl : salts = keys := source
    have names := names_keysFor drawn
    have all : ∀ n ∈ Salt.names, n ∈ Salt.freshNames true := by decide
    refine ⟨fun n hn ↦ ?_, fun es read ↦ ?_⟩
    · rw [outcome_has_rows (s := ⟨path, .standard⟩) rows hn, names,
        List.contains_iff_mem.2 (all n hn)]
    · have free : "ABSPATH" ∉ salts.map (·.1) := names ▸ by decide
      obtain ⟨there, known⟩ := constantNames_of_rows rows legal free read
      rw [names] at there known
      exact ⟨fun n hn ↦ (there n hn).2 (all n hn), known⟩
  | none =>
    rw [drawn] at source
    obtain ⟨body, fetched, parsed⟩ := source
    exact ⟨body, salts, fetched, parsed,
      fun n hn ↦ outcome_has_rows (s := ⟨path, .standard⟩) rows hn,
      fun free es read ↦ constantNames_of_rows rows legal free read⟩

/-! ### An answer that is not what it should be -/

/-- An answer that defines one of the salts and another constant. -/
def partialAnswer : List Char := "define('AUTH_KEY','k');define('EVIL','x');".toList

/-- What is found in it. -/
def partialSalts : List (String × String) := [("AUTH_KEY", "k"), ("EVIL", "x")]

theorem parse_partialAnswer :
    Salt.parse bareMachine.environment partialAnswer = .ok partialSalts :=
  eq_ok_of_toOption (by decide +kernel)

/-- A machine without files and randomness, with a service that answers so. -/
def answeredMachine : Machine :=
  { bareMachine with service := ⟨some partialAnswer, none, ""⟩ }

theorem keysFor_answered : Salt.keysFor (Salt.freshNames true) answeredMachine.entropy =
    (none, answeredMachine.entropy) := by
  simp [Salt.keysFor, Salt.freshNames, Salt.names, Salt.drawAll, Salt.draw, Salt.keyLength,
    answeredMachine, bareMachine]

/-- Without randomness, the salts are those of the answer, and the service was asked once. -/
theorem outcome_newSalts_answered : (newSalts .standard).outcome answeredMachine =
    (.ok partialSalts, { answeredMachine with fetches := 1 }) := by
  rw [outcome_newSalts_of_salted rfl, keysFor_answered]
  refine (outcome_fetchSalts _ _).trans ?_
  show ((Salt.parse bareMachine.environment partialAnswer).mapError ConfigError.script, _) = _
  rw [parse_partialAnswer]
  rfl

/-- The file is made, and may be read. -/
theorem exists_create_answered : ∃ m',
    (create ⟨['/', 'a']⟩ .standard .standard).outcome answeredMachine =
        (.ok ⟨⟨['/', 'a']⟩, .standard⟩, m') ∧
      HasRows m'.environment ⟨['/', 'a']⟩ (rows .standard partialSalts) ∧
      m'.environment.IsReached ⟨['/', 'a']⟩ := by
  let asked : Machine := { answeredMachine with fetches := 1 }
  have written : asked.environment.write ⟨['/', 'a']⟩
      (.text (Template.render partialSalts CreateOptions.standard.extra)) = .ok _ :=
    writable_root.write _
  obtain ⟨m', applied, rows⟩ := hasRows_of_written .standard rfl written
  refine ⟨m', outcome_create (by decide) (by decide) outcome_newSalts_answered written applied, rows,
    ?_⟩
  obtain ⟨d, -, -, held⟩ := rows
  refine held.isReached (fun n hn ↦ nomatch hn) fun place hp ↦ ?_
  rw [place_root hp]
  decide

/-- A file is made although salts are missing, and a constant that is no salt comes in. -/
theorem create_unsalted : ∃ s m',
    (create ⟨['/', 'a']⟩ .standard .standard).outcome answeredMachine = (.ok s, m') ∧
      (s.has "AUTH_SALT" (.only .const)).outcome m' = (.ok false, m') ∧
      ∃ es, s.entries.outcome m' = (.ok es, m') ∧ "EVIL" ∈ Entry.constantNames es := by
  obtain ⟨m', created, rows, reached⟩ := exists_create_answered
  obtain ⟨es, read, names⟩ :=
    rows.read (fun hm ↦ (mem_rows hm).elim (by decide) fun own ↦ own.2 rfl) reached
  refine ⟨_, m', created, outcome_has_rows (s := ⟨_, .standard⟩) rows (by decide), es, ?_,
    (names _).2 ⟨.inl (mem_rows_of_salt (by decide)), by decide⟩⟩
  rw [entries, Operation.outcome_query, read]

/-- The salt in the answer is there, and nothing comes in but what the answer defines. -/
theorem create_salts_answered : ∃ s m',
    (create ⟨['/', 'a']⟩ .standard .standard).outcome answeredMachine = (.ok s, m') ∧
      (s.has "AUTH_KEY" (.only .const)).outcome m' = (.ok true, m') ∧
      ∀ es, s.entries.outcome m' = (.ok es, m') → "AUTH_KEY" ∈ Entry.constantNames es ∧
        ∀ n ∈ Entry.constantNames es, n ∈ partialSalts.map (·.1) ∨ n ∈ ownNames := by
  obtain ⟨m', created, -, -⟩ := exists_create_answered
  have carries := create_salts created rfl rfl fun n hn ↦ nomatch hn
  rw [keysFor_answered] at carries
  obtain ⟨body, salts, fetched, parsed, has, read⟩ := carries
  obtain rfl := Except.ok.inj fetched
  obtain rfl : partialSalts = salts := Except.ok.inj (parse_partialAnswer.symm.trans parsed)
  refine ⟨_, m', created, has "AUTH_KEY" (by decide), fun es hes ↦ ?_⟩
  obtain ⟨there, known⟩ := read (by decide) es hes
  exact ⟨(there _ (by decide)).2 (by decide), known⟩

end ConfigScript.Store
