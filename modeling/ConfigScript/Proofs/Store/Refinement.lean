import ConfigScript.Proofs.Files.Absolute
import ConfigScript.Proofs.Store.File
import ConfigScript.Proofs.Store.Outcome
import ConfigScript.Proofs.Written.Template
import Mathlib

/-!
# The store is a finite map

A store of a file that represents a table answers like the table: what is set and deleted changes the
table (`Store.outcome_call`), what is asked is looked up in it (`Store.outcome_has`, `Store.outcome_get`).
A new file represents the table of its placeholders, salts and settings (`Store.represents_create`). So
over a whole run a new store behaves like a map (`Store.create_refines`), and if its path is absolute,
nothing has to be known of the machine for that (`Store.create_follows`).
-/

namespace ConfigScript

open Script

/-! ### Calls, and what they do to a table -/

/-- A call that changes a store. -/
inductive Call where
  | set (name value : String) (filter : TypeFilter)
  | delete (name : String) (filter : TypeFilter)
deriving DecidableEq, Repr

/-- The name that a call is about. -/
def Call.name : Call → String
  | .set name _ _ => name
  | .delete name _ => name

/-- Why a call is refused. -/
inductive Refusal where
  | ambiguous
  | notFound
  | invalid
deriving DecidableEq, Repr

namespace Table

/-- The namespace in which a name is changed. Unless one is asked for, it is where the name has a
key, and that of constants if it has none. -/
def kindOf (t : Table) (name : String) : TypeFilter → Except Refusal EntryKind
  | .only .inclusion => .error .invalid
  | .only kind => .ok kind
  | .all =>
    if Assoc.contains (.var, name) t then
      if Assoc.contains (.const, name) t then .error .ambiguous else .ok .var
    else .ok .const

/-- The table behind a call. -/
def call (t : Table) : Call → Except Refusal Table
  | .set name value filter => do
    let kind ← t.kindOf name filter
    if kind = .var && !Edit.isVariableName name.toList then .error .invalid
    else .ok (Assoc.insert (kind, name) value t)
  | .delete name filter => do
    let kind ← t.kindOf name filter
    if Assoc.contains (kind, name) t then .ok (Assoc.erase (kind, name) t) else .error .notFound

/-- The answers to calls, one after the other, and the table behind them. A call that is refused
leaves the table alone. -/
def run (t : Table) : List Call → List (Except Refusal Unit) × Table
  | [] => ([], t)
  | c :: cs =>
    match t.call c with
    | .ok t' => (.ok () :: (run t' cs).1, (run t' cs).2)
    | .error r => (.error r :: (run t cs).1, (run t cs).2)

/-- The table of a new file: the placeholders and salts, with the settings written over them. -/
def created (o : CreateOptions) (salts : List (String × String)) : Table :=
  o.settings.foldl (fun t (kind, name, value) ↦ Assoc.insert (kind, name) value t)
    (Template.table salts)

end Table

/-- The refusal that an error stands for. -/
def ConfigError.refusal? : ConfigError → Option Refusal
  | .ambiguous .. => some .ambiguous
  | .entryNotFound .. => some .notFound
  | .inclusionEdited | .variableName _ => some .invalid
  | _ => none

namespace Store

/-- Make a call, whatever it answers. -/
def call (s : Store) : Call → Operation Unit
  | .set name value filter => do
    let _ ← s.set name value.toList filter .standard
  | .delete name filter => do
    let _ ← s.delete name filter

/-- The answers to calls, one after the other, and the machine behind them. -/
def run (s : Store) (m : Machine) : List Call → List (Except ConfigError Unit) × Machine
  | [] => ([], m)
  | c :: cs =>
    let (answer, m') := (s.call c).outcome m
    (answer :: (s.run m' cs).1, (s.run m' cs).2)

/-- Two answers say the same: nothing is refused, or the same is. -/
def Agree : Except ConfigError Unit → Except Refusal Unit → Prop
  | .ok _, .ok _ => True
  | .error e, .error r => e.refusal? = some r
  | _, _ => False

/-! ### Single calls -/

variable {s : Store} {m : Machine} {t : Table} {name : String}

/-- The namespace in which a name is edited is that of the table. -/
theorem outcome_locate (h : Represents m.environment s.path t) (free : name ∉ reservedNames)
    (filter : TypeFilter) :
    match t.kindOf name filter with
    | .ok kind => kind ≠ .inclusion ∧
        (s.locate name filter).outcome m = (.ok (kind, Assoc.contains (kind, name) t), m)
    | .error r => ∃ e : ConfigError, e.refusal? = some r ∧
        (s.locate name filter).outcome m = (.error e, m) := by
  have defines : ∀ kind ≠ EntryKind.inclusion,
      (Operation.query fun env ↦ Edit.fileDefines env s.path kind name).outcome m =
        (.ok (Assoc.contains (kind, name) t), m) := fun kind hk ↦ by
    rw [Operation.outcome_query, h.fileDefines hk free]
  cases filter with
  | only kind =>
    by_cases hk : kind = .inclusion
    · subst hk
      refine ⟨.inclusionEdited, rfl, ?_⟩
      rfl
    · have only : t.kindOf name (.only kind) = .ok kind := by
        cases kind <;> first | rfl | exact absurd rfl hk
      rw [only]
      refine ⟨hk, ?_⟩
      rw [Store.locate, OperationOn.outcome_bind_ok (defines kind hk), OperationOn.outcome_pure]
  | all =>
    rw [Store.locate, OperationOn.outcome_bind_ok (defines .const (by simp)),
      OperationOn.outcome_bind_ok (defines .var (by simp)), Table.kindOf]
    cases hc : Assoc.contains (.const, name) t <;> cases hv : Assoc.contains (.var, name) t <;>
      simp [hc, hv, ConfigError.refusal?]

/-- Looking for a name to suggest changes nothing and does not fail. -/
theorem exists_suggestion (s : Store) (name : String) (m : Machine) :
    ∃ hint, (s.suggestion name).outcome m = (.ok hint, m) := by
  rw [Store.suggestion, OperationOn.outcome_tryCatch, OperationOn.outcome_bind, Store.entries,
    Operation.outcome_query]
  cases s.reader.read m.environment s.path with
  | error e => exact ⟨none, rfl⟩
  | ok es => exact ⟨_, rfl⟩

/-- Setting a name that was located. -/
theorem outcome_set {kind : EntryKind} {there : Bool} {value : String} {filter : TypeFilter}
    (located : (s.locate name filter).outcome m = (.ok (kind, there), m)) :
    (s.call (.set name value filter)).outcome m =
      Prod.map (·.map fun _ ↦ ()) id ((Operation.change fun env ↦
        Edit.setInFile env s.path kind name value.toList .standard).outcome m) := by
  have add : (!there && !Edit.Options.standard.add) = false := by
    rw [Bool.and_eq_false_iff]
    exact .inr rfl
  rw [Store.call, Store.set, bind_assoc, OperationOn.outcome_bind_ok located]
  simp only [add, Bool.false_eq_true, if_false, bind_assoc, pure_bind]
  rw [OperationOn.outcome_bind]
  rcases (Operation.change fun env ↦
    Edit.setInFile env s.path kind name value.toList .standard).outcome m with ⟨e | a, m'⟩ <;> rfl

/-- What a call of `set` does to the file is what it does to the table. -/
theorem outcome_call_set (h : Represents m.environment s.path t) (free : name ∉ reservedNames)
    (value : String) (filter : TypeFilter) :
    match t.call (.set name value filter) with
    | .ok t' => ∃ m', (s.call (.set name value filter)).outcome m = (.ok (), m') ∧
        Represents m'.environment s.path t' ∧
        (m.environment.IsReached s.path → m'.environment.IsReached s.path)
    | .error r => ∃ e : ConfigError, e.refusal? = some r ∧
        (s.call (.set name value filter)).outcome m = (.error e, m) := by
  have located := outcome_locate h free filter
  simp only [Table.call, bind, Except.bind]
  cases hkind : t.kindOf name filter with
  | error r =>
    simp only [hkind] at located ⊢
    obtain ⟨e, he, refused⟩ := located
    refine ⟨e, he, ?_⟩
    rw [Store.call, Store.set, OperationOn.outcome_bind_error
      (OperationOn.outcome_bind_error refused)]
  | ok kind =>
    simp only [hkind] at located ⊢
    obtain ⟨hk, located⟩ := located
    rw [outcome_set located]
    by_cases legal : (decide (kind = .var) && !Edit.isVariableName name.toList) = true
    · obtain ⟨rfl, illegal⟩ : kind = .var ∧ ¬Edit.isVariableName name.toList := by simpa using legal
      rw [if_pos legal, Operation.outcome_change, Edit.setInFile_of_illegal illegal]
      exact ⟨.variableName name, rfl, rfl⟩
    · have legalName : kind = .const ∨ kind = .var ∧ Edit.isVariableName name.toList := by
        cases kind <;> simp_all
      obtain ⟨changed, env', set, after, reached⟩ := h.setInFile legalName free value
      rw [if_neg legal, Operation.outcome_change, set]
      exact ⟨{ m with environment := env' }, rfl, after, reached⟩

/-- What a call of `delete` does to the file is what it does to the table. -/
theorem outcome_call_delete (h : Represents m.environment s.path t) (free : name ∉ reservedNames)
    (filter : TypeFilter) :
    match t.call (.delete name filter) with
    | .ok t' => ∃ m', (s.call (.delete name filter)).outcome m = (.ok (), m') ∧
        Represents m'.environment s.path t' ∧
        (m.environment.IsReached s.path → m'.environment.IsReached s.path)
    | .error r => ∃ e : ConfigError, e.refusal? = some r ∧
        (s.call (.delete name filter)).outcome m = (.error e, m) := by
  have located := outcome_locate h free filter
  simp only [Table.call, bind, Except.bind]
  cases hkind : t.kindOf name filter with
  | error r =>
    simp only [hkind] at located ⊢
    obtain ⟨e, he, refused⟩ := located
    refine ⟨e, he, ?_⟩
    rw [Store.call, Store.delete, OperationOn.outcome_bind_error
      (OperationOn.outcome_bind_error refused)]
  | ok kind =>
    simp only [hkind] at located ⊢
    obtain ⟨hk, located⟩ := located
    rw [Store.call, Store.delete, bind_assoc, OperationOn.outcome_bind_ok located]
    by_cases there : Assoc.contains (kind, name) t = true
    · obtain ⟨env', removed, after, reached⟩ := h.removeFromFile hk (Assoc.contains_iff.1 there)
      rw [if_pos there]
      refine ⟨{ m with environment := env' }, ?_, after, reached⟩
      simp only [there, Bool.not_true, Bool.false_eq_true, if_false, bind_assoc, pure_bind]
      rw [OperationOn.outcome_bind, Operation.outcome_change, removed]
      rfl
    · obtain ⟨hint, suggested⟩ := exists_suggestion s name m
      rw [if_neg there]
      refine ⟨.entryNotFound filter.kind? name s.fileName hint, rfl, ?_⟩
      simp only [there, Bool.not_false, if_true, bind_assoc]
      rw [OperationOn.outcome_bind_ok suggested]
      rfl

/-- What a call does to the file is what it does to the table. -/
theorem outcome_call (h : Represents m.environment s.path t) {c : Call}
    (free : c.name ∉ reservedNames) :
    match t.call c with
    | .ok t' => ∃ m', (s.call c).outcome m = (.ok (), m') ∧
        Represents m'.environment s.path t' ∧
        (m.environment.IsReached s.path → m'.environment.IsReached s.path)
    | .error r => ∃ e : ConfigError, e.refusal? = some r ∧ (s.call c).outcome m = (.error e, m) := by
  cases c with
  | set name value filter => exact outcome_call_set h free value filter
  | delete name filter => exact outcome_call_delete h free filter

/-! ### Questions -/

/-- Whether a name is defined is looked up in the table. -/
theorem outcome_has (h : Represents m.environment s.path t) {kind : EntryKind}
    (hk : kind ≠ .inclusion) (free : name ∉ reservedNames) :
    (s.has name (.only kind)).outcome m = (.ok (Assoc.lookup (kind, name) t).isSome, m) := by
  have located := outcome_locate h free (.only kind)
  have only : t.kindOf name (.only kind) = .ok kind := by
    cases kind <;> first | rfl | exact absurd rfl hk
  simp only [only] at located
  rw [Store.has, OperationOn.outcome_bind_ok located.2]
  rfl

/-- The entry of a name is looked up in the table. -/
theorem outcome_get (h : Represents m.environment s.path t) (hr : s.reader = .standard)
    (reached : m.environment.IsReached s.path) {kind : EntryKind} (hk : kind ≠ .inclusion)
    (free : name ∉ reservedNames) :
    match Assoc.lookup (kind, name) t with
    | some v => (s.get name (.only kind)).outcome m = (.ok ⟨kind, name, .string v⟩, m)
    | none => ∃ hint, (s.get name (.only kind)).outcome m =
        (.error (.entryNotFound (some kind) name s.fileName hint), m) := by
  obtain ⟨es, read, found⟩ := h.read reached
  have entries : s.entries.outcome m = (.ok es, m) := by
    rw [Store.entries, Operation.outcome_query, hr, read]
  have found := found kind hk name free
  rw [Store.get, OperationOn.outcome_bind_ok entries, found]
  cases Assoc.lookup (kind, name) t with
  | some v => rfl
  | none => exact ⟨_, rfl⟩

/-! ### Runs -/

/-- Over a run, the answers of the store are those of the table, and the file goes on representing
the table. -/
theorem run_refines (h : Represents m.environment s.path t)
    (reached : m.environment.IsReached s.path) {calls : List Call}
    (free : ∀ c ∈ calls, c.name ∉ reservedNames) :
    List.Forall₂ Agree (s.run m calls).1 (t.run calls).1 ∧
      Represents (s.run m calls).2.environment s.path (t.run calls).2 ∧
      (s.run m calls).2.environment.IsReached s.path := by
  induction calls generalizing m t with
  | nil => exact ⟨.nil, h, reached⟩
  | cons c cs ih =>
    have step := outcome_call h (free c List.mem_cons_self)
    have more := fun k hk ↦ free k (List.mem_cons_of_mem c hk)
    rw [Store.run, Table.run]
    cases hc : t.call c with
    | ok t' =>
      simp only [hc] at step ⊢
      obtain ⟨m', done, after, stays⟩ := step
      obtain ⟨answers, rest⟩ := ih after (stays reached) more
      rw [done]
      exact ⟨.cons trivial answers, rest⟩
    | error r =>
      simp only [hc] at step ⊢
      obtain ⟨e, he, refused⟩ := step
      obtain ⟨answers, rest⟩ := ih h reached more
      rw [refused]
      exact ⟨.cons he answers, rest⟩

/-- Over a run of calls a store goes like a table: it gives the answers of the table, and behind the run
every name that is not reserved is there if and only if it has a key, with the text that the table has for
it. -/
def Follows (s : Store) (m : Machine) (t : Table) (calls : List Call) : Prop :=
  let table := t.run calls
  let store := s.run m calls
  List.Forall₂ Agree store.1 table.1 ∧
    ∀ kind ≠ EntryKind.inclusion, ∀ name ∉ reservedNames,
      (s.has name (.only kind)).outcome store.2 =
          (.ok (Assoc.lookup (kind, name) table.2).isSome, store.2) ∧
        match Assoc.lookup (kind, name) table.2 with
        | some v => (s.get name (.only kind)).outcome store.2 =
            (.ok ⟨kind, name, .string v⟩, store.2)
        | none => ∃ hint, (s.get name (.only kind)).outcome store.2 =
            (.error (.entryNotFound (some kind) name s.fileName hint), store.2)

/-- A store of a file that represents a table goes like it. -/
theorem follows_of_represents (h : Represents m.environment s.path t) (standard : s.reader = .standard)
    (reached : m.environment.IsReached s.path) {calls : List Call}
    (free : ∀ c ∈ calls, c.name ∉ reservedNames) : s.Follows m t calls := by
  obtain ⟨answers, after, stays⟩ := run_refines h reached free
  exact ⟨answers, fun kind hk name hn ↦
    ⟨outcome_has after hk hn, outcome_get after standard stays hk hn⟩⟩

/-! ### New files -/

/-- What settings are written to. -/
def settingKeys : List (EntryKind × String) :=
  [(.const, "DB_HOST"), (.const, "DB_PASSWORD"), (.var, "table_prefix"), (.const, "DB_CHARSET"),
    (.const, "DB_COLLATE"), (.const, "WPLANG"), (.const, "DB_NAME"), (.const, "DB_USER")]

theorem legal_settingKeys : ∀ k ∈ settingKeys,
    (k.1 = .const ∨ k.1 = .var ∧ Edit.isVariableName k.2.toList) ∧ k.2 ∉ reservedNames := by
  decide +kernel

/-- Whatever the options are, the same entries are written. -/
theorem mem_settingKeys {o : CreateOptions} {x : EntryKind × String × String}
    (hx : x ∈ o.settings) : (x.1, x.2.1) ∈ settingKeys := by
  have hx := (List.mem_filter.1 hx).1
  simp only [List.mem_cons, List.not_mem_nil, or_false] at hx
  rcases hx with rfl | rfl | rfl | rfl | rfl | rfl | rfl | rfl <;> simp [settingKeys]

/-- Every setting may be written. -/
theorem legal_settings (o : CreateOptions) : ∀ x ∈ o.settings,
    (x.1 = .const ∨ x.1 = .var ∧ Edit.isVariableName x.2.1.toList) ∧ x.2.1 ∉ reservedNames :=
  fun x hx ↦ legal_settingKeys (x.1, x.2.1) (mem_settingKeys hx)

/-- Writing settings keeps what writing one of them keeps. -/
theorem exists_applySettings {α : Type} {P : α → Environment → Prop}
    {f : α → EntryKind × String × String → α} {settings : List (EntryKind × String × String)}
    (step : ∀ x ∈ settings, ∀ a env, P a env → ∃ changed env',
      Edit.setInFile env s.path x.1 x.2.1 x.2.2.toList .standard = (.ok changed, env') ∧ P (f a x) env')
    {a : α} (h : P a m.environment) :
    ∃ m', (s.applySettings settings).outcome m = (.ok (), m') ∧
      P (settings.foldl f a) m'.environment := by
  induction settings generalizing m a with
  | nil => exact ⟨m, rfl, h⟩
  | cons x xs ih =>
    obtain ⟨changed, env', set, after⟩ := step x List.mem_cons_self a _ h
    obtain ⟨m', done, rest⟩ := ih (m := { m with environment := env' })
      (fun y hy ↦ step y (List.mem_cons_of_mem x hy)) after
    refine ⟨m', ?_, rest⟩
    rw [Store.applySettings, OperationOn.outcome_bind, Operation.outcome_change, set]
    exact done

/-- Writing settings inserts them into the table. -/
theorem outcome_applySettings (h : Represents m.environment s.path t)
    {settings : List (EntryKind × String × String)}
    (legal : ∀ x ∈ settings,
      (x.1 = .const ∨ x.1 = .var ∧ Edit.isVariableName x.2.1.toList) ∧ x.2.1 ∉ reservedNames) :
    ∃ m', (s.applySettings settings).outcome m = (.ok (), m') ∧
      Represents m'.environment s.path
        (settings.foldl (fun t (kind, name, value) ↦ Assoc.insert (kind, name) value t) t) := by
  refine exists_applySettings (P := fun t env ↦ Represents env s.path t) (fun x hx t env h ↦ ?_) h
  obtain ⟨hk, free⟩ := legal x hx
  obtain ⟨changed, env', set, after, -⟩ := h.setInFile hk free x.2.2
  exact ⟨changed, env', set, after⟩

/-- The salts of a new file: none, or keys that are drawn. -/
def salts (o : CreateOptions) (e : Salt.Entropy) : List (String × String) :=
  if o.skipSalts then [] else (Salt.keysFor (Salt.freshNames true) e).1.getD []

/-- As many keys are drawn as were asked for. -/
theorem length_drawAll {lengths : List Nat} {e : Salt.Entropy} {keys : List (List Char)}
    (h : (Salt.drawAll lengths e).1 = some keys) : keys.length = lengths.length := by
  induction lengths generalizing e keys with
  | nil =>
    obtain rfl := Option.some.inj h
    rfl
  | cons n ns ih =>
    rw [Salt.drawAll] at h
    rcases first : Salt.draw n e with ⟨_ | key, e₁⟩ <;> rw [first] at h
    · cases h
    · dsimp only at h
      rcases more : Salt.drawAll ns e₁ with ⟨_ | keys', e₂⟩
      · rw [more] at h
        cases h
      · rw [more] at h
        obtain rfl := Option.some.inj h
        rw [List.length_cons, List.length_cons, ih (by rw [more])]

/-- Drawn keys have the names that were asked for. -/
theorem names_keysFor {wanted : List String} {e : Salt.Entropy} {keys : List (String × String)}
    (h : (Salt.keysFor wanted e).1 = some keys) : keys.map (·.1) = wanted := by
  rw [Salt.keysFor] at h
  rcases drawn : Salt.drawAll (wanted.map fun _ ↦ Salt.keyLength) e with ⟨_ | texts, e'⟩ <;>
    rw [drawn] at h
  · cases h
  · obtain rfl := Option.some.inj h
    have length := length_drawAll (congrArg Prod.fst drawn)
    rw [List.length_map] at length
    exact List.map_fst_zip (by simp [length])

/-- As many salts as are drawn belong to the first of the names. -/
theorem sublist_salts (o : CreateOptions) (e : Salt.Entropy) :
    ((salts o e).map (·.1)).Sublist (Salt.freshNames true) := by
  rw [salts]
  split
  · exact List.nil_sublist _
  · cases drawn : (Salt.keysFor (Salt.freshNames true) e).1 with
    | none => exact List.nil_sublist _
    | some keys => exact names_keysFor drawn ▸ List.Sublist.refl _

/-- Salts that need not be fetched. -/
theorem outcome_newSalts {o : CreateOptions}
    (drawn : o.skipSalts ∨ (Salt.keysFor (Salt.freshNames true) m.entropy).1.isSome) :
    ∃ m', (newSalts o).outcome m = (.ok (salts o m.entropy), m') ∧
      m'.environment = m.environment := by
  rw [newSalts, salts]
  by_cases skip : o.skipSalts = true
  · rw [if_pos skip, if_pos skip]
    exact ⟨m, rfl, rfl⟩
  · rw [if_neg skip, if_neg skip]
    obtain ⟨keys, hkeys⟩ := Option.isSome_iff_exists.1 (drawn.resolve_left skip)
    have draw : (Operation.drawKeys (Salt.freshNames true)).outcome m =
        (.ok (some keys), { m with entropy := (Salt.keysFor (Salt.freshNames true) m.entropy).2 }) := by
      rw [← hkeys]
      rfl
    rw [OperationOn.outcome_bind_ok draw, hkeys]
    exact ⟨_, rfl, rfl⟩

/-- Making a file is finding salts, writing the file with them, and then the settings. -/
theorem outcome_create {path : Path} {reader : Reader} {o : CreateOptions}
    (named : isDatabasePrefix o.dbprefix.toList)
    (room : (m.environment.pathExists path && !o.force) = false)
    {salts : List (String × String)} {m₁ m' : Machine} {env : Environment}
    (found : (newSalts o).outcome m = (.ok salts, m₁))
    (written : m₁.environment.write path (.text (Template.render salts o.extra)) = .ok env)
    (applied : (applySettings ⟨path, reader⟩ o.settings).outcome { m₁ with environment := env } =
      (.ok (), m')) :
    (Store.create path reader o).outcome m = (.ok ⟨path, reader⟩, m') := by
  have put : (Operation.change (Edit.writeFile path (Template.render salts o.extra)).outcome).outcome
      m₁ = (.ok (), { m₁ with environment := env }) := by
    rw [Operation.outcome_change, Edit.outcome_writeFile written]
  have caught : ∀ handler : ConfigError → Operation Unit,
      (tryCatch (applySettings ⟨path, reader⟩ o.settings) handler).outcome
        { m₁ with environment := env } = (.ok (), m') := by
    intro handler
    rw [OperationOn.outcome_tryCatch, applied]
  rw [Store.create, if_neg (by simp [named]), OperationOn.outcome_bind_ok (OperationOn.outcome_get m),
    if_neg (by simp [room]), OperationOn.outcome_bind_ok found, OperationOn.outcome_bind_ok put,
    OperationOn.outcome_bind_ok (caught _)]
  rfl

/-- Without source text of the caller's own, the settings can always be written. -/
theorem exists_create {path : Path} {o : CreateOptions} (reader : Reader)
    (named : isDatabasePrefix o.dbprefix.toList) (plain : o.extra = [])
    (room : (m.environment.pathExists path && !o.force) = false)
    (drawn : o.skipSalts ∨ (Salt.keysFor (Salt.freshNames true) m.entropy).1.isSome)
    {env : Environment} (written : m.environment.write path
      (.text (Template.render (salts o m.entropy) [])) = .ok env) :
    ∃ m', (Store.create path reader o).outcome m = (.ok ⟨path, reader⟩, m') ∧
      Represents m'.environment path (Table.created o (salts o m.entropy)) := by
  obtain ⟨m₁, made, same⟩ := outcome_newSalts drawn
  have fresh : Represents env path (Template.table (salts o m.entropy)) := by
    refine ⟨_, Template.legal_document (sublist_salts o _), Template.table_document _, ?_⟩
    rw [Template.text_document]
    exact Environment.exists_held written
  obtain ⟨m', applied, after⟩ := outcome_applySettings (s := ⟨path, reader⟩)
    (m := { m₁ with environment := env }) fresh (legal_settings o)
  rw [← same, ← plain] at written
  exact ⟨m', outcome_create named room made written applied, after⟩

/-- What was done if a file was made: salts were found, the file was written with them, and then the
settings. -/
theorem create_ok {path : Path} {reader : Reader} {o : CreateOptions} {m' : Machine}
    (h : (Store.create path reader o).outcome m = (.ok s, m')) :
    s = ⟨path, reader⟩ ∧ ∃ salts m₁ env, (newSalts o).outcome m = (.ok salts, m₁) ∧
      m₁.environment.write path (.text (Template.render salts o.extra)) = .ok env ∧
      (s.applySettings o.settings).outcome { m₁ with environment := env } = (.ok (), m') := by
  rw [Store.create] at h
  split at h
  · rw [OperationOn.outcome_bind_error (OperationOn.outcome_throw _ _)] at h
    cases h
  rw [OperationOn.outcome_bind_ok (OperationOn.outcome_get m)] at h
  split at h
  · rw [OperationOn.outcome_bind_error (OperationOn.outcome_throw _ _)] at h
    cases h
  obtain ⟨salts, m₁, found, h⟩ := OperationOn.exists_of_bind_ok h
  obtain ⟨_, m₂, put, h⟩ := OperationOn.exists_of_bind_ok h
  obtain ⟨env, wrote, rfl⟩ := Operation.exists_of_change_ok put
  obtain ⟨_, m₃, settled, h⟩ := OperationOn.exists_of_bind_ok h
  obtain ⟨rfl, rfl⟩ : s = ⟨path, reader⟩ ∧ m' = m₃ := by
    injection h with hs hm
    exact ⟨(Except.ok.inj hs).symm, hm.symm⟩
  refine ⟨rfl, salts, m₁, env, found, Edit.write_of_writeFile wrote, ?_⟩
  rw [OperationOn.outcome_tryCatch] at settled
  rcases applied : (applySettings ⟨path, reader⟩ o.settings).outcome
      { m₁ with environment := env } with ⟨e | _, m₄⟩ <;> rw [applied] at settled
  · obtain ⟨_, _, -, thrown⟩ := OperationOn.exists_of_bind_ok settled
    cases thrown
  · exact settled

/-- A new file represents its placeholders and salts, with the settings written over them. -/
theorem represents_create {path : Path} {reader : Reader} {o : CreateOptions} {m' : Machine}
    (created : (Store.create path reader o).outcome m = (.ok s, m')) (plain : o.extra = [])
    (drawn : o.skipSalts ∨ (Salt.keysFor (Salt.freshNames true) m.entropy).1.isSome) :
    s = ⟨path, reader⟩ ∧
      Represents m'.environment path (Table.created o (salts o m.entropy)) := by
  obtain ⟨rfl, given, m₁, env, found, written, applied⟩ := create_ok created
  obtain ⟨m₂, made, -⟩ := outcome_newSalts drawn
  obtain rfl : given = salts o m.entropy := by
    rw [found] at made
    injection made with hs _
    exact Except.ok.inj hs
  rw [plain, ← Template.text_document] at written
  have fresh : Represents env path (Template.table (salts o m.entropy)) :=
    ⟨_, Template.legal_document (sublist_salts o _), Template.table_document _,
      Environment.exists_held written⟩
  obtain ⟨m₃, done, after⟩ := outcome_applySettings (s := ⟨path, reader⟩)
    (m := { m₁ with environment := env }) fresh (legal_settings o)
  cases done.symm.trans applied
  exact ⟨rfl, after⟩

/-- A new store behaves like a map over every run. Begun with the table of the new file, the answers
of `set` and `delete` are those of the table, and behind the run every name that is not reserved is
there if and only if it has a key, with the text that the table has for it. -/
theorem create_refines {path : Path} {o : CreateOptions} {m' : Machine}
    (created : (Store.create path .standard o).outcome m = (.ok s, m')) (plain : o.extra = [])
    (drawn : o.skipSalts ∨ (Salt.keysFor (Salt.freshNames true) m.entropy).1.isSome)
    (reached : m'.environment.IsReached path) (calls : List Call)
    (free : ∀ c ∈ calls, c.name ∉ reservedNames) :
    let table := (Table.created o (salts o m.entropy)).run calls
    let store := s.run m' calls
    List.Forall₂ Agree store.1 table.1 ∧
      ∀ kind ≠ EntryKind.inclusion, ∀ name ∉ reservedNames,
        (s.has name (.only kind)).outcome store.2 =
            (.ok (Assoc.lookup (kind, name) table.2).isSome, store.2) ∧
          match Assoc.lookup (kind, name) table.2 with
          | some v => (s.get name (.only kind)).outcome store.2 =
              (.ok ⟨kind, name, .string v⟩, store.2)
          | none => ∃ hint, (s.get name (.only kind)).outcome store.2 =
              (.error (.entryNotFound (some kind) name s.fileName hint), store.2) := by
  obtain ⟨rfl, start⟩ := represents_create created plain drawn
  exact follows_of_represents start rfl reached free

/-- A new file is reached if its path is absolute. Otherwise the names of the working directory have to be
such as a directory may hold, and the path that it leads to may not be too long. -/
theorem create_follows {path : Path} {o : CreateOptions} {m' : Machine}
    (created : (Store.create path .standard o).outcome m = (.ok s, m')) (plain : o.extra = [])
    (drawn : o.skipSalts ∨ (Salt.keysFor (Salt.freshNames true) m.entropy).1.isSome)
    (placed : path.isAbsolute ∨ (∀ n ∈ m'.environment.origin path, Environment.IsLegal n) ∧
      ∀ place, m'.environment.resolve path = .ok place →
        Environment.isPathTooLong (Environment.pathOf place) = false)
    {calls : List Call} (free : ∀ c ∈ calls, c.name ∉ reservedNames) :
    s.Follows m' (Table.created o (salts o m.entropy)) calls := by
  obtain ⟨rfl, start⟩ := represents_create created plain drawn
  refine follows_of_represents start rfl ?_ free
  rcases placed with absolute | ⟨legal, short⟩
  · exact Environment.isReached_of_isAbsolute absolute
  · obtain ⟨d, -, -, held⟩ := start
    exact held.isReached legal short

/-- A machine without files. -/
def bareMachine : Machine where
  environment := ⟨.directory [], [], []⟩
  entropy := ⟨fun _ ↦ 0, 0, 0, ""⟩
  service := default
  fetches := 0

/-- In the root directory a file may be made. -/
theorem writable_root : bareMachine.environment.Writable ⟨['/', 'a']⟩ [] ['a'] :=
  Environment.writable_bare

/-- In any environment, this path leads to one place only. -/
theorem place_root {env : Environment} {place : List (List Char)}
    (h : env.resolve ⟨['/', 'a']⟩ = .ok place) : place = [['a']] := by
  have name : Environment.IsName ['a'] := ⟨by decide, by decide, by decide⟩
  obtain ⟨-, h⟩ := Environment.resolvePieces_eq_ok.1 h
  change Environment.follow env.files [] [[], ['a']] = .ok place at h
  obtain ⟨root, -⟩ := Environment.follow_cons_ok h
  rw [Environment.follow_cons, if_pos root, if_pos (by rfl), Environment.follow_name root name,
    Environment.follow] at h
  split at h
  · exact (Except.ok.inj h).symm
  · cases h

/-- On a machine without files, a new store has what is set, and not what is deleted. -/
theorem create_refines_bare : ∃ s m', (Store.create ⟨['/', 'a']⟩ .standard
      { CreateOptions.standard with skipSalts := true }).outcome bareMachine = (.ok s, m') ∧
    let calls := [Call.set "X" "it's" .all, .delete "DB_NAME" .all]
    (s.get "X" (.only .const)).outcome (s.run m' calls).2 =
        (.ok ⟨.const, "X", .string "it's"⟩, (s.run m' calls).2) ∧
      (s.has "DB_NAME" (.only .const)).outcome (s.run m' calls).2 =
        (.ok false, (s.run m' calls).2) := by
  obtain ⟨m', created, after⟩ := exists_create (m := bareMachine)
    (o := { CreateOptions.standard with skipSalts := true }) .standard (by decide) rfl (by decide) (.inl rfl)
    (writable_root.write _)
  have reached : m'.environment.IsReached ⟨['/', 'a']⟩ := by
    obtain ⟨d, -, -, held⟩ := after
    refine held.isReached (fun n hn ↦ nomatch hn) fun place hp ↦ ?_
    rw [place_root hp]
    decide
  have refines := create_refines created rfl (.inl rfl) reached
    [.set "X" "it's" .all, .delete "DB_NAME" .all] (by decide)
  have there := refines.2 .const (by simp) "X" (by decide)
  have gone := refines.2 .const (by simp) "DB_NAME" (by decide)
  exact ⟨_, m', created, there.2, gone.1⟩

end Store

end ConfigScript
