import ConfigScript.Edit.File
import ConfigScript.Proofs.Files.Rewrite
import ConfigScript.Proofs.Operation

/-!
# Editing a file that is held

Where a text is held and can be parsed, editing the file comes down to changing the text: what `set` makes
of it, or what is left when the statements of a definition are cut out, is held afterwards
(`Edit.exists_setInFile`, `Edit.exists_removeFromFile`).

An edit takes several steps, each of which may fail, but all of them stand in front of the one that writes.
So an edit that fails has written nothing (`Edit.spares_update`, `Edit.spares_remove`).
-/

namespace ConfigScript

open Script OperationOn

@[simp]
theorem mapError_ok {α ε ε' : Type} (f : ε → ε') (a : α) :
    (Except.ok a : Except ε α).mapError f = .ok a := rfl

namespace Edit

variable {env env' : Environment} {path : Path} {source value : List Char} {body : List Stmt}
  {kind : EntryKind} {name : String} {o : Options} {τ : Type} {view : Environment → τ}

/-! ### Steps -/

/-- What is loaded from a file was read and parsed. -/
theorem loaded_of_loadFile (h : loadFile env path = .ok (source, body)) :
    env.readText path = .ok source ∧ parse source = .ok body := by
  rw [loadFile] at h
  cases there : env.readText path with
  | error e => rw [there] at h; cases h
  | ok text =>
    rw [there, mapError_ok] at h
    simp only [bind, Except.bind] at h
    cases parsed : parse text with
    | error e => rw [parsed] at h; cases h
    | ok ss =>
      rw [parsed] at h
      obtain ⟨rfl, rfl⟩ := Prod.mk.inj (Except.ok.inj h)
      exact ⟨rfl, parsed⟩

/-- A file that is held and can be parsed is loaded. -/
theorem loadFile_of_holds (held : env.Holds path source) (parsed : parse source = .ok body) :
    loadFile env path = .ok (source, body) := by
  simp only [loadFile, held.readText, parsed, bind, Except.bind, mapError_ok, pure, Except.pure]

/-- A new text that was written is in the tree. -/
theorem write_of_writeText {text : List Char} (h : writeText env path text = .ok env') :
    env.write path (.text text) = .ok env' := by
  rw [writeText] at h
  cases written : env.write path (.text text) with
  | error e => rw [written] at h; cases h
  | ok env₁ =>
    rw [written, mapError_ok] at h
    rw [Except.ok.inj h]

/-- A text that can be written is written. -/
theorem outcome_writeFile {text : List Char} (written : env.write path (.text text) = .ok env') :
    (writeFile path text).outcome env = (.ok (), env') := by
  refine outcome_attempt_ok ?_
  rw [writeText, written]
  rfl

/-- A text that was written could be written. -/
theorem write_of_writeFile {text : List Char}
    (h : (writeFile path text).outcome env = (.ok (), env')) :
    env.write path (.text text) = .ok env' := by
  cases made : writeText env path text with
  | error e =>
    have failed : (writeFile path text).outcome env = (.error e, env) := outcome_attempt_error made
    cases failed.symm.trans h
  | ok env₁ =>
    have done : (writeFile path text).outcome env = (.ok (), env₁) := outcome_attempt_ok made
    cases done.symm.trans h
    exact write_of_writeText made

theorem requireEditable_of_ne (editable : kind ≠ .inclusion) : requireEditable kind = .ok () := by
  rw [requireEditable, if_neg editable]

theorem outcome_requireEditable (editable : kind ≠ .inclusion) (env : Environment) :
    (MonadExcept.ofExcept (requireEditable kind) : FileOperation Unit).outcome env =
      (.ok (), env) := by
  rw [outcome_ofExcept, requireEditable_of_ne editable]

theorem outcome_loadFile (loaded : loadFile env path = .ok (source, body)) :
    (inspect fun env ↦ loadFile env path).outcome env = (.ok (source, body), env) := by
  rw [outcome_inspect, loaded]

/-- The name of a variable must be legal, that of a constant may be any. -/
theorem accepts_of_legal (legal : kind = .var → isVariableName name.toList) :
    (decide (kind = .var) && !isVariableName name.toList) = false := by
  by_cases var : kind = .var
  · simp [legal var]
  · simp [var]

/-- Constants and variables with a legal name may be set. -/
theorem editable_of_legal (legal : kind = .const ∨ kind = .var ∧ isVariableName name.toList) :
    kind ≠ .inclusion ∧ (kind = .var → isVariableName name.toList) := by
  rcases legal with rfl | ⟨rfl, hn⟩
  · exact ⟨nofun, nofun⟩
  · exact ⟨nofun, fun _ ↦ hn⟩

/-! ### What a file defines -/

/-- What a file that is loaded defines is looked up in its statements. -/
theorem fileDefines_of_loadFile (editable : kind ≠ .inclusion)
    (loaded : loadFile env path = .ok (source, body)) :
    fileDefines env path kind name = .ok !(Occurrence.all kind name body).isEmpty := by
  rw [fileDefines, requireEditable_of_ne editable, loaded]
  rfl

/-! ### Setting an entry -/

/-- A file that is loaded gets its new text, unless that is there already. -/
theorem setInFile_of_loadFile {text : List Char} (editable : kind ≠ .inclusion)
    (legal : kind = .var → isVariableName name.toList)
    (loaded : loadFile env path = .ok (source, body))
    (done : set o (String.ofList path.displayName) kind name value source body = .ok text) :
    setInFile env path kind name value o =
      if text = source then (.ok false, env)
      else (do writeFile path text; return true : FileOperation Bool).outcome env := by
  have change : (MonadExcept.ofExcept (set o (String.ofList path.displayName) kind name value source
      body) : FileOperation (List Char)).outcome env = (.ok text, env) := by
    rw [outcome_ofExcept, done]
  rw [setInFile, update, outcome_bind_ok (outcome_requireEditable editable env)]
  simp only [accepts_of_legal legal, Bool.false_eq_true, if_false]
  rw [updateText, outcome_bind_ok (outcome_loadFile loaded), outcome_bind_ok change]
  split <;> rfl

/-- A variable needs a legal name. -/
theorem setInFile_of_illegal (illegal : ¬isVariableName name.toList) (env : Environment) (path : Path)
    (value : List Char) (o : Options) :
    setInFile env path .var name value o = (.error (.variableName name), env) := by
  have editable : EntryKind.var ≠ .inclusion := nofun
  rw [setInFile, update, outcome_bind_ok (outcome_requireEditable editable env)]
  simp only [illegal, decide_true, Bool.not_false, Bool.and_self, if_true]
  exact outcome_bind_error (outcome_throw _ env)

/-- A new text that differs from the old one is written. -/
theorem setInFile_of_ne {text : List Char} (editable : kind ≠ .inclusion)
    (legal : kind = .var → isVariableName name.toList)
    (loaded : loadFile env path = .ok (source, body))
    (done : set o (String.ofList path.displayName) kind name value source body = .ok text)
    (other : text ≠ source) (written : env.write path (.text text) = .ok env') :
    setInFile env path kind name value o = (.ok true, env') := by
  rw [setInFile_of_loadFile editable legal loaded done, if_neg other,
    outcome_bind_ok (outcome_writeFile written)]
  rfl

/-- A file that is held goes on being held, with its new text. -/
theorem exists_setInFile {text : List Char} (held : env.Holds path source)
    (parsed : parse source = .ok body) (editable : kind ≠ .inclusion)
    (legal : kind = .var → isVariableName name.toList)
    (done : set o (String.ofList path.displayName) kind name value source body = .ok text) :
    ∃ changed env', setInFile env path kind name value o = (.ok changed, env') ∧
      env'.Holds path text ∧ env.Alike env' ∧ (env.IsReached path → env'.IsReached path) := by
  have loaded := loadFile_of_holds held parsed
  by_cases same : text = source
  · refine ⟨false, env, ?_, same ▸ held, .refl env, id⟩
    rw [setInFile_of_loadFile editable legal loaded done, if_pos same]
  · obtain ⟨env', written, held', reached⟩ := held.write text
    exact ⟨true, env', setInFile_of_ne editable legal loaded done same written, held',
      held.alike written, reached⟩

/-- Up to the write, the steps only look: the file is loaded and the new text is made. -/
theorem spares_updateText (path : Path) (kind : EntryKind) (name : String) (value : List Char)
    (o : Options) : Spares view (updateText path kind name value o) := by
  refine (looks_inspect _).bind_spares fun ⟨source, body⟩ ↦
    (looks_ofExcept _).bind_spares fun updated ↦ ?_
  split
  · exact (looks_pure false).spares
  · exact (spares_attempt _).bind_succeeds fun _ ↦ succeeds_pure true

/-- Before a new text is written, everything that may be wrong with it has been looked at. -/
theorem spares_update (path : Path) (kind : EntryKind) (name : String) (value : List Char)
    (o : Options) : Spares view (update path kind name value o) := by
  refine (looks_ofExcept _).bind_spares fun _ ↦ ?_
  have text : Spares view (updateText path kind name value o) :=
    spares_updateText path kind name value o
  dsimp only
  split
  · exact (looks_throw _).bind_spares fun _ ↦ text
  · exact text

/-- A change that fails leaves everything as it is. -/
theorem eq_of_setInFile_error {e : ConfigError}
    (h : setInFile env path kind name value o = (.error e, env')) : env' = env :=
  (spares_update path kind name value o : Spares id _) env e env' h

/-- A change that does not fail has read and parsed the file and found a text to put there. It writes this
text unless it is there already. The answer says which. -/
theorem exists_of_setInFile {changed : Bool}
    (h : setInFile env path kind name value o = (.ok changed, env')) :
    ∃ source body text, loadFile env path = .ok (source, body) ∧
      set o (String.ofList path.displayName) kind name value source body = .ok text ∧
      (changed = false ∧ text = source ∧ env' = env ∨
        changed = true ∧ text ≠ source ∧ env.write path (.text text) = .ok env') := by
  obtain ⟨_, env₁, editable, h⟩ := exists_of_bind_ok h
  obtain ⟨-, rfl⟩ := Prod.mk.inj ((outcome_ofExcept _ _).symm.trans editable)
  dsimp only at h
  split at h
  · obtain ⟨_, _, thrown, -⟩ := exists_of_bind_ok h
    cases thrown
  obtain ⟨⟨source, body⟩, env₂, load, h⟩ := exists_of_bind_ok h
  obtain ⟨loaded, rfl⟩ := Prod.mk.inj load
  obtain ⟨text, env₃, found, h⟩ := exists_of_bind_ok h
  obtain ⟨done, rfl⟩ := Prod.mk.inj ((outcome_ofExcept _ _).symm.trans found)
  refine ⟨source, body, text, loaded, done, ?_⟩
  split at h
  · rename_i same
    obtain ⟨answer, rfl⟩ := Prod.mk.inj h
    exact .inl ⟨(Except.ok.inj answer).symm, same, rfl⟩
  · rename_i other
    obtain ⟨_, env₄, wrote, h⟩ := exists_of_bind_ok h
    obtain ⟨answer, rfl⟩ := Prod.mk.inj h
    exact .inr ⟨(Except.ok.inj answer).symm, other, write_of_writeFile wrote⟩

/-! ### Removing an entry -/

/-- Statements that are not shared are cut out, and nothing is written on the way. -/
theorem outcome_cutEach {os : List Occurrence} {ss : List Span}
    (owned : os.map (·.statement) = ss.map some) (kind : EntryKind) (name : String) (text : List Char)
    (env : Environment) :
    (cutEach kind name os text).outcome env = (.ok (ss.foldl cut text), env) := by
  induction os generalizing ss text with
  | nil =>
    obtain rfl : ss = [] := by simpa using owned.symm
    rfl
  | cons o os ih =>
    obtain ⟨s, ss, rfl, own, rest⟩ := List.map_eq_cons_iff.1 owned.symm
    rw [cutEach, show o.statement = some s from own.symm]
    exact ih rest.symm (cut text s)

/-- If statements were cut out, none of them was shared, and nothing was written. -/
theorem exists_of_cutEach {os : List Occurrence} {text left : List Char}
    (h : (cutEach kind name os text).outcome env = (.ok left, env')) :
    env' = env ∧ ∃ ss : List Span, os.map (·.statement) = ss.map some ∧ left = ss.foldl cut text := by
  induction os generalizing text with
  | nil =>
    obtain ⟨same, rfl⟩ := Prod.mk.inj h
    exact ⟨rfl, [], rfl, (Except.ok.inj same).symm⟩
  | cons o os ih =>
    rw [cutEach] at h
    cases own : o.statement with
    | none => rw [own] at h; cases h
    | some s =>
      rw [own] at h
      obtain ⟨idle, ss, same, rfl⟩ := ih h
      exact ⟨idle, s :: ss, by rw [List.map_cons, List.map_cons, same, own], rfl⟩

/-- A loop that cuts out statements only looks, also where it stops at one that is shared. -/
theorem looks_cutEach (kind : EntryKind) (name : String) (os : List Occurrence) (text : List Char) :
    Looks view (cutEach kind name os text) := by
  induction os generalizing text with
  | nil => exact looks_pure text
  | cons o os ih =>
    rw [cutEach]
    split
    · exact ih _
    · exact looks_throw _

/-- The definitions of an entry are cut out of a file that is loaded. -/
theorem removeFromFile_of_loadFile {ss : List Span} (editable : kind ≠ .inclusion)
    (loaded : loadFile env path = .ok (source, body)) (there : ss ≠ [])
    (owned : (Occurrence.all kind name body).map (·.statement) = ss.map some)
    (written : env.write path (.text (ss.foldr (fun s text ↦ cut text s) source)) = .ok env') :
    removeFromFile env path kind name = (.ok true, env') := by
  have found : (Occurrence.all kind name body).isEmpty = false := by
    rw [List.isEmpty_eq_false_iff]
    rintro none
    rw [none] at owned
    exact there (by simpa using owned.symm)
  have owned' : (Occurrence.all kind name body).reverse.map (·.statement) = ss.reverse.map some := by
    rw [List.map_reverse, owned, List.map_reverse]
  have cuts := outcome_cutEach owned' kind name source env
  rw [List.foldl_reverse] at cuts
  rw [removeFromFile, remove, outcome_bind_ok (outcome_requireEditable editable env),
    outcome_bind_ok (outcome_loadFile loaded)]
  simp only [found, Bool.false_eq_true, if_false]
  rw [outcome_bind_ok cuts, outcome_bind_ok (outcome_writeFile written)]
  rfl

/-- A file that is held goes on being held, without the definitions of the entry. -/
theorem exists_removeFromFile {ss : List Span} (held : env.Holds path source)
    (parsed : parse source = .ok body) (editable : kind ≠ .inclusion) (there : ss ≠ [])
    (owned : (Occurrence.all kind name body).map (·.statement) = ss.map some) :
    ∃ env', removeFromFile env path kind name = (.ok true, env') ∧
      env'.Holds path (ss.foldr (fun s text ↦ cut text s) source) ∧
      (env.IsReached path → env'.IsReached path) := by
  obtain ⟨env', written, held', reached⟩ := held.write (ss.foldr (fun s text ↦ cut text s) source)
  exact ⟨env', removeFromFile_of_loadFile editable (loadFile_of_holds held parsed) there owned written,
    held', reached⟩

/-- What was removed from a file was there, and the text without its statements is read afterwards. -/
theorem exists_of_removeFromFile (h : removeFromFile env path kind name = (.ok true, env')) :
    ∃ source body, ∃ ss : List Span, env.readText path = .ok source ∧ parse source = .ok body ∧
      (Occurrence.all kind name body).map (·.statement) = ss.map some ∧
      env'.readText path = .ok (ss.foldr (fun s text ↦ cut text s) source) := by
  obtain ⟨_, env₁, editable, h⟩ := exists_of_bind_ok h
  obtain ⟨-, rfl⟩ := Prod.mk.inj ((outcome_ofExcept _ _).symm.trans editable)
  obtain ⟨⟨source, body⟩, env₂, load, h⟩ := exists_of_bind_ok h
  obtain ⟨loaded, rfl⟩ := Prod.mk.inj load
  dsimp only at h
  split at h
  · cases h
  obtain ⟨text, env₃, cuts, write⟩ := exists_of_bind_ok h
  obtain ⟨rfl, ss, owned, rfl⟩ := exists_of_cutEach cuts
  obtain ⟨_, env₄, wrote, last⟩ := exists_of_bind_ok write
  obtain ⟨-, rfl⟩ := Prod.mk.inj last
  obtain ⟨read, parsed⟩ := loaded_of_loadFile loaded
  refine ⟨source, body, ss.reverse, read, parsed, ?_, ?_⟩
  · rw [List.map_reverse, ← owned, List.map_reverse, List.reverse_reverse]
  · rw [List.foldr_reverse]
    exact (Environment.exists_held (write_of_writeFile wrote)).readText

/-- Before a file is written without an entry, all statements have been cut out of its text. -/
theorem spares_remove (path : Path) (kind : EntryKind) (name : String) :
    Spares view (remove path kind name) := by
  refine (looks_ofExcept _).bind_spares fun _ ↦ (looks_inspect _).bind_spares fun ⟨source, body⟩ ↦ ?_
  dsimp only
  split
  · exact (looks_pure false).spares
  · exact (looks_cutEach kind name _ source).bind_spares fun _ ↦
      (spares_attempt _).bind_succeeds fun _ ↦ succeeds_pure true

end Edit

end ConfigScript
