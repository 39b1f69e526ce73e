import ConfigScript.Proofs.Store.Outcome

/-!
# Edits that are never ambiguous

Once it is known in which namespace an entry is edited, an edit may fail for many reasons, but never for
the name being ambiguous. Each step is followed through its own errors, and an operation whose steps never
answer so does not either (`OperationOn.Decides.bind`): neither an update of a file nor a removal does
(`Edit.decides_update`, `Edit.decides_remove`).
-/

namespace ConfigScript

/-! ### Answers that a name is ambiguous -/

/-- The answer is that a name is ambiguous. -/
def IsAmbiguous {α : Type} (r : Except ConfigError α) : Prop :=
  ∃ name file, r = .error (.ambiguous name file)

section Except

variable {α β ε : Type}

theorem not_isAmbiguous_ok (a : α) : ¬IsAmbiguous (.ok a : Except ConfigError α) := by
  rintro ⟨_, _, h⟩
  cases h

theorem not_isAmbiguous_error {e : ConfigError} (other : ∀ name file, e ≠ .ambiguous name file) :
    ¬IsAmbiguous (.error e : Except ConfigError α) := by
  rintro ⟨name, file, h⟩
  exact other name file (Except.error.inj h)

/-- If neither a first step nor what follows is ambiguous, the whole is not. -/
theorem not_isAmbiguous_bind {x : Except ConfigError α} {f : α → Except ConfigError β}
    (first : ¬IsAmbiguous x) (more : ∀ a, ¬IsAmbiguous (f a)) : ¬IsAmbiguous (x >>= f) := by
  cases x with
  | ok a => exact more a
  | error e =>
    rintro ⟨name, file, h⟩
    exact first ⟨name, file, congrArg Except.error (Except.error.inj h)⟩

/-- An error that is turned into another one, of which none is of ambiguity, is no ambiguity. -/
theorem not_isAmbiguous_mapError {f : ε → ConfigError}
    (other : ∀ e name file, f e ≠ .ambiguous name file) (x : Except ε α) :
    ¬IsAmbiguous (x.mapError f) := by
  cases x with
  | ok a => exact not_isAmbiguous_ok a
  | error e => exact not_isAmbiguous_error (other e)

end Except

/-! ### Operations -/

namespace OperationOn

variable {σ α β : Type} {x : OperationOn σ α} {f : α → OperationOn σ β}

/-- The operation never answers that a name is ambiguous. -/
def Decides (x : OperationOn σ α) : Prop := ∀ s, ¬IsAmbiguous (x.outcome s).1

theorem decides_pure (a : α) : Decides (pure a : OperationOn σ α) := fun _ ↦ not_isAmbiguous_ok a

/-- Neither is an operation whose steps never are. -/
theorem Decides.bind (first : Decides x) (more : ∀ a, Decides (f a)) : Decides (x >>= f) := by
  intro s
  rw [outcome_bind]
  rcases run : x.outcome s with ⟨e | a, s₁⟩
  · rintro ⟨name, file, h⟩
    exact first s ⟨name, file, (congrArg Prod.fst run).trans (congrArg _ (Except.error.inj h))⟩
  · exact more a s₁

theorem decides_throw {e : ConfigError} (other : ∀ name file, e ≠ .ambiguous name file) :
    Decides (throw e : OperationOn σ α) := fun _ ↦ not_isAmbiguous_error other

theorem decides_inspect {f : σ → Except ConfigError α} (h : ∀ s, ¬IsAmbiguous (f s)) :
    Decides (inspect f) := h

theorem decides_ofExcept {r : Except ConfigError α} (h : ¬IsAmbiguous r) :
    Decides (MonadExcept.ofExcept r : OperationOn σ α) := fun s ↦ by
  rwa [outcome_ofExcept]

/-- A single step answers as the change that it makes. -/
theorem decides_attempt {f : σ → Except ConfigError σ} (h : ∀ s, ¬IsAmbiguous (f s)) :
    Decides (attempt f) := by
  intro s
  cases made : f s with
  | ok s' => exact outcome_attempt_ok made ▸ not_isAmbiguous_ok ()
  | error e =>
    rw [outcome_attempt_error made]
    rintro ⟨name, file, same⟩
    exact h s ⟨name, file, made.trans (congrArg _ (Except.error.inj same))⟩

theorem decides_query {f : Environment → Except ConfigError α} (h : ∀ env, ¬IsAmbiguous (f env)) :
    Decides (Operation.query f) := fun m ↦ h m.environment

/-- What is done to the files of a machine answers as it does on files. -/
theorem decides_change {x : FileOperation α} (h : Decides x) :
    Decides (Operation.change x.outcome) := fun m ↦ h m.environment

end OperationOn

/-! ### Edits of a file -/

namespace Edit

open OperationOn

theorem not_isAmbiguous_requireEditable (kind : EntryKind) : ¬IsAmbiguous (requireEditable kind) := by
  unfold requireEditable
  split
  · exact not_isAmbiguous_error nofun
  · exact not_isAmbiguous_ok _

theorem not_isAmbiguous_loadFile (env : Environment) (path : Path) :
    ¬IsAmbiguous (loadFile env path) :=
  not_isAmbiguous_bind (not_isAmbiguous_mapError nofun _) fun _ ↦
    not_isAmbiguous_bind (not_isAmbiguous_mapError nofun _) fun _ ↦ not_isAmbiguous_ok _

theorem not_isAmbiguous_writeText (env : Environment) (path : Path) (text : List Char) :
    ¬IsAmbiguous (writeText env path text) := not_isAmbiguous_mapError nofun _

/-- A new statement may find no place, but its name is not ambiguous. -/
theorem not_isAmbiguous_insert (o : Options) (file : String) (source addition : List Char) :
    ¬IsAmbiguous (Edit.insert o file source addition) := by
  unfold Edit.insert
  split
  · exact not_isAmbiguous_ok _
  · exact not_isAmbiguous_ok _
  · split
    · exact not_isAmbiguous_error nofun
    · split
      · exact not_isAmbiguous_ok _
      · exact not_isAmbiguous_error fun _ _ ↦ by simp

/-- Setting an entry in a text may fail for several reasons, none of which is that its name is ambiguous.
-/
theorem not_isAmbiguous_set (o : Options) (file : String) (kind : EntryKind) (name : String)
    (value source : List Char) (body : List Stmt) :
    ¬IsAmbiguous (Edit.set o file kind name value source body) := by
  unfold Edit.set
  dsimp only
  split
  · exact not_isAmbiguous_ok _
  · split
    · exact not_isAmbiguous_insert _ _ _ _
    · exact not_isAmbiguous_error fun _ _ ↦ by simp

theorem not_isAmbiguous_fileDefines (env : Environment) (path : Path) (kind : EntryKind)
    (name : String) : ¬IsAmbiguous (fileDefines env path kind name) :=
  not_isAmbiguous_bind (not_isAmbiguous_requireEditable kind) fun _ ↦
    not_isAmbiguous_bind (not_isAmbiguous_loadFile env path) fun _ ↦ not_isAmbiguous_ok _

theorem decides_writeFile (path : Path) (text : List Char) : Decides (writeFile path text) :=
  decides_attempt fun env ↦ not_isAmbiguous_writeText env path text

/-- The steps from loading a file to writing it answer with errors of their own. -/
theorem decides_updateText (path : Path) (kind : EntryKind) (name : String) (value : List Char)
    (o : Options) : Decides (updateText path kind name value o) := by
  refine (decides_inspect fun env ↦ not_isAmbiguous_loadFile env path).bind fun ⟨source, body⟩ ↦
    (decides_ofExcept (not_isAmbiguous_set _ _ _ _ _ _ _)).bind fun updated ↦ ?_
  split
  · exact decides_pure false
  · exact (decides_writeFile path updated).bind fun _ ↦ decides_pure true

/-- Setting an entry of a file is never ambiguous: the kind of the entry is given. -/
theorem decides_update (path : Path) (kind : EntryKind) (name : String) (value : List Char)
    (o : Options) : Decides (update path kind name value o) := by
  refine (decides_ofExcept (not_isAmbiguous_requireEditable kind)).bind fun _ ↦ ?_
  have text := decides_updateText path kind name value o
  dsimp only
  split
  · exact (decides_throw fun _ _ ↦ by simp).bind fun _ ↦ text
  · exact text

/-- A loop that cuts out statements stops at a shared one only. -/
theorem decides_cutEach (kind : EntryKind) (name : String) (os : List Occurrence)
    (text : List Char) : Decides (cutEach kind name os text) := by
  induction os generalizing text with
  | nil => exact decides_pure text
  | cons o os ih =>
    rw [cutEach]
    split
    · exact ih _
    · exact decides_throw fun _ _ ↦ by simp

/-- Removing an entry of a file is never ambiguous: the kind of the entry is given. -/
theorem decides_remove (path : Path) (kind : EntryKind) (name : String) :
    Decides (remove path kind name) := by
  refine (decides_ofExcept (not_isAmbiguous_requireEditable kind)).bind fun _ ↦
    (decides_inspect fun env ↦ not_isAmbiguous_loadFile env path).bind fun ⟨source, body⟩ ↦ ?_
  dsimp only
  split
  · exact decides_pure false
  · exact (decides_cutEach kind name _ source).bind fun updated ↦
      (decides_writeFile path updated).bind fun _ ↦ decides_pure true

end Edit

end ConfigScript
