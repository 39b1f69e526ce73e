import ConfigScript.Proofs.Store.Failure
import ConfigScript.Store.Shuffle

/-!
# Edits that fail

An edit that fails leaves all files as they were. Nothing would take a write back, so the reason is the order
of the steps, and it is the same for every edit: what may fail comes first and only looks at the environment
(`OperationOn.Looks`), and the one step that changes a file is the last that can fail
(`OperationOn.Spares.bind_succeeds`). Giving out new salts changes one file many times, but once it has begun
to do so it does not fail any more (`Store.succeeds_setAll`).

The answer of a change that does not fail says whether the file has other bytes than before, and then
it was replaced as a whole (`Edit.update_bytes`).
-/

namespace ConfigScript

/-! ### Bytes -/

/-- The bytes of the file that the path leads to, if they can be read. -/
def Environment.bytes (env : Environment) (path : Path) : Except IoFault ByteArray :=
  (env.read path).map Content.toBytes

/-- Texts with the same bytes are the same: the encoding can be read back. -/
theorem Content.toBytes_text_inj {as bs : List Char} :
    (Content.text as).toBytes = (Content.text bs).toBytes ↔ as = bs := by
  refine ⟨fun same ↦ ?_, fun same ↦ same ▸ rfl⟩
  exact String.ofList_injective (String.toByteArray_inj.1 same)

/-- What is read as a text is a text. -/
theorem Environment.read_of_readText {env : Environment} {path : Path} {text : List Char}
    (h : env.readText path = .ok text) : env.read path = .ok (.text text) := by
  simp only [Environment.readText, bind, Except.bind] at h
  split at h
  · cases h
  split at h
  · rename_i there
    rw [there, Except.ok.inj h]
  · cases h

namespace Edit

variable {env env' : Environment} {path : Path} {kind : EntryKind} {name : String} {value : List Char}
  {o : Options} {r : Except ConfigError Bool}

theorem bytes_of_holds {text : List Char} (held : env.Holds path text) :
    env.bytes path = .ok (Content.text text).toBytes := by
  rw [Environment.bytes, Environment.read_of_readText held.readText]
  rfl

/-- An update says whether the file has other bytes than before, and then it was replaced as a whole by a
text. -/
theorem update_bytes (run : (update path kind name value o).outcome env = (r, env')) :
    (r = .ok true ↔ env'.bytes path ≠ env.bytes path) ∧
      (r = .ok true → ∃ text, env.write path (.text text) = .ok env' ∧
        env'.bytes path = .ok (Content.text text).toBytes) := by
  -- Without a change the bytes are the same, and the answer is not that there was one.
  have idle (same : env' = env) (other : r ≠ .ok true) :
      (r = .ok true ↔ env'.bytes path ≠ env.bytes path) ∧
        (r = .ok true → ∃ text, env.write path (.text text) = .ok env' ∧
          env'.bytes path = .ok (Content.text text).toBytes) := by
    rw [same]
    exact ⟨⟨fun h ↦ (other h).elim, fun h ↦ (h rfl).elim⟩, fun h ↦ (other h).elim⟩
  cases r with
  | error e => exact idle (eq_of_setInFile_error run) nofun
  | ok changed =>
    obtain ⟨source, body, text, loaded, -, ⟨rfl, -, same⟩ | ⟨rfl, other, written⟩⟩ :=
      exists_of_setInFile run
    · exact idle same nofun
    · have before : env.bytes path = .ok (Content.text source).toBytes := by
        rw [Environment.bytes, Environment.read_of_readText (loaded_of_loadFile loaded).1]
        rfl
      have after := bytes_of_holds (Environment.exists_held written)
      refine ⟨⟨fun _ same ↦ ?_, fun _ ↦ rfl⟩, fun _ ↦ ⟨text, written, after⟩⟩
      exact other (Content.toBytes_text_inj.1 (Except.ok.inj (after.symm.trans (same.trans before))))

end Edit

namespace Operation

open OperationOn

variable {α : Type}

theorem looks_query (f : Environment → Except ConfigError α) :
    Looks Machine.environment (query f) := fun _ ↦ rfl

/-- What spares the files of an environment spares those of a machine. -/
theorem spares_change {x : FileOperation α} (h : Spares id x) :
    Spares Machine.environment (change x.outcome) := by
  intro m e m' run
  obtain ⟨fails, rfl⟩ := Prod.mk.inj run
  exact h m.environment e _ (Prod.ext fails rfl)

theorem looks_drawKeys (names : List String) : Looks Machine.environment (drawKeys names) :=
  fun _ ↦ rfl

theorem looks_fetchSalts (insecure : Bool) : Looks Machine.environment (fetchSalts insecure) :=
  fun m ↦ congrArg (·.2.environment) (Store.outcome_fetchSalts insecure m)

end Operation

namespace Store

open Operation OperationOn

variable (s : Store)

/-- Locating a name reads the file and leaves it alone. -/
theorem looks_locate (name : String) (filter : TypeFilter) :
    Looks Machine.environment (s.locate name filter) := by
  cases filter with
  | only kind => exact (looks_query _).bind fun _ ↦ looks_pure _
  | all =>
    refine (looks_query _).bind fun isConstant ↦ (looks_query _).bind fun isVariable ↦ ?_
    split
    · exact looks_throw _
    · exact looks_pure _
    · exact looks_pure _

theorem looks_suggestion (name : String) : Looks Machine.environment (s.suggestion name) :=
  ((looks_query _).bind fun _ ↦ looks_pure _).tryCatch fun _ ↦ looks_pure _

/-- Finding the values of salts may change the source of randomness and count a request, but no file. -/
theorem looks_newValues (targets : List String) (insecure : Bool) :
    Looks Machine.environment (newValues targets insecure) := by
  refine (looks_drawKeys targets).bind fun keys ↦ ?_
  split
  · exact looks_pure _
  · exact (looks_fetchSalts insecure).bind fun _ ↦ looks_pure _

/-- Setting an entry locates it first, and its only change is an update. -/
theorem spares_set (name : String) (value : List Char) (filter : TypeFilter) (o : Edit.Options) :
    Spares Machine.environment (s.set name value filter o) := by
  refine (s.looks_locate name filter).bind_spares fun ⟨kind, there⟩ ↦ ?_
  dsimp only
  have last : Spares Machine.environment (do
      let changed ← change fun env ↦ Edit.setInFile env s.path kind name value o
      return (⟨kind, !there, changed, o.raw⟩ : SetOutcome)) :=
    (spares_change (Edit.spares_update s.path kind name value o)).bind_succeeds fun _ ↦ succeeds_pure _
  split
  · exact (looks_throw _).bind_spares fun _ ↦ last
  · exact last

/-- Deleting an entry locates it first, and its only change is a removal. -/
theorem spares_delete (name : String) (filter : TypeFilter) :
    Spares Machine.environment (s.delete name filter) := by
  refine (s.looks_locate name filter).bind_spares fun ⟨kind, there⟩ ↦ ?_
  dsimp only
  have last : Spares Machine.environment (do
      let _ ← change fun env ↦ Edit.removeFromFile env s.path kind name
      return kind) :=
    (spares_change (Edit.spares_remove s.path kind name)).bind_succeeds fun _ ↦ succeeds_pure kind
  split
  · exact (s.looks_suggestion name).bind_spares fun _ ↦ (looks_throw _).bind_spares fun _ ↦ last
  · exact last

/-- A key that cannot be set is counted. -/
theorem succeeds_setCounted (key value : String) (report : ShuffleReport) :
    Succeeds (s.setCounted key value report) := by
  intro m
  rw [setCounted, outcome_tryCatch]
  split
  · exact ⟨_, _, rfl⟩
  · exact ⟨_, _, rfl⟩

/-- Once the values are known, setting them does not fail. -/
theorem succeeds_setAll (values : List (String × Option String)) (report : ShuffleReport) :
    Succeeds (s.setAll values report) := by
  induction values generalizing report with
  | nil => exact fun m ↦ ⟨report, m, rfl⟩
  | cons x rest ih =>
    obtain ⟨key, value⟩ := x
    cases value with
    | none => exact ih _
    | some value =>
      intro m
      obtain ⟨counted, m₁, set⟩ := s.succeeds_setCounted key value report m
      rw [setAll, outcome_bind_ok set]
      exact ih counted m₁

theorem spares_shuffle (keys : List String) (force insecure : Bool) :
    Spares Machine.environment (s.shuffle keys force insecure) :=
  (looks_newValues _ insecure).bind_spares fun _ ↦ (s.succeeds_setAll _ _).spares

/-- Whatever edit of a file fails leaves all files as they were. An update says whether the file has
other bytes than before, and then it was replaced as a whole by a text. -/
theorem edits_spare :
    (∀ kind name value o, Spares id (Edit.update s.path kind name value o)) ∧
    (∀ kind name, Spares id (Edit.remove s.path kind name)) ∧
    (∀ name value filter o, Spares Machine.environment (s.set name value filter o)) ∧
    (∀ name filter, Spares Machine.environment (s.delete name filter)) ∧
    (∀ keys force insecure, Spares Machine.environment (s.shuffle keys force insecure)) ∧
    ∀ kind name value o env r env',
      (Edit.update s.path kind name value o).outcome env = (r, env') →
        (r = .ok true ↔ env'.bytes s.path ≠ env.bytes s.path) ∧
          (r = .ok true → ∃ text, env.write s.path (.text text) = .ok env' ∧
            env'.bytes s.path = .ok (Content.text text).toBytes) :=
  ⟨Edit.spares_update s.path, Edit.spares_remove s.path, s.spares_set, s.spares_delete,
    s.spares_shuffle, fun _ _ _ _ _ _ _ run ↦ Edit.update_bytes run⟩

/-- A machine with one file, where two constants are declared together. -/
def sharedMachine : Machine :=
  { bareMachine with environment := Environment.single "<?php const A = 1, B = 2;".toList }

/-- One of two constants that are declared together cannot be removed, but it can be given another
value. -/
theorem edits_spare_shared : ∃ s : Store, s.path = ⟨['/', 'a']⟩ ∧
    (∃ e env', (Edit.remove s.path .const "A").outcome sharedMachine.environment = (.error e, env') ∧
      env' = sharedMachine.environment) ∧
    (∃ e m', (s.delete "A" .all).outcome sharedMachine = (.error e, m') ∧
      m'.environment = sharedMachine.environment) ∧
    ∃ env', (Edit.update s.path .const "A" ['7'] .standard).outcome sharedMachine.environment =
        (.ok true, env') ∧
      env'.bytes s.path ≠ sharedMachine.environment.bytes s.path := by
  let s : Store := ⟨⟨['/', 'a']⟩, .standard⟩
  obtain ⟨-, removed, -, deleted, -, updated⟩ := edits_spare s
  refine ⟨s, rfl, ?_, ?_, ?_⟩
  · have fails : ((Edit.remove s.path .const "A").outcome
        sharedMachine.environment).1.toOption.isNone := by decide +kernel
    rcases run : (Edit.remove s.path .const "A").outcome sharedMachine.environment with ⟨e | kind, env'⟩
    · exact ⟨e, env', rfl, removed _ _ _ _ _ run⟩
    · rw [run] at fails
      cases fails
  · have fails : ((s.delete "A" .all).outcome sharedMachine).1.toOption.isNone := by decide +kernel
    rcases run : (s.delete "A" .all).outcome sharedMachine with ⟨e | kind, m'⟩
    · exact ⟨e, m', rfl, deleted _ _ _ _ _ run⟩
    · rw [run] at fails
      cases fails
  · have changes : ((Edit.update s.path .const "A" ['7'] .standard).outcome
        sharedMachine.environment).1.toOption = some true := by decide +kernel
    rcases run : (Edit.update s.path .const "A" ['7'] .standard).outcome sharedMachine.environment with
      ⟨r, env'⟩
    rw [run] at changes
    obtain rfl := Script.eq_ok_of_toOption changes
    exact ⟨env', rfl, (updated _ _ _ _ _ _ _ run).1.1 rfl⟩

end Store

end ConfigScript
