import ConfigScript.Error

/-!
# Operations

An operation changes a state and may fail. What it has changed before a failure stays changed: nothing
is taken back by itself. `OperationOn.outcome` applies an operation to a state, and its laws take an
operation apart at its first step.
-/

namespace ConfigScript

/-- An operation on a state. -/
abbrev OperationOn (σ α : Type) := ExceptT ConfigError (StateM σ) α

/-- An operation on the files of an environment. -/
abbrev FileOperation (α : Type) := OperationOn Environment α

namespace OperationOn

variable {σ α β : Type}

/-- An operation, applied to a state: its result, and the state that it leaves behind. -/
def outcome (x : OperationOn σ α) (s : σ) : Except ConfigError α × σ := (ExceptT.run x).run s

/-- An operation that only looks at the state. -/
def inspect (f : σ → Except ConfigError α) : OperationOn σ α :=
  ExceptT.mk fun s => pure (f s, s)

/-- A single step that changes the state, or fails and leaves it alone. -/
def attempt (f : σ → Except ConfigError σ) : OperationOn σ Unit :=
  ExceptT.mk fun s =>
    match f s with
    | .ok s' => pure (.ok (), s')
    | .error e => pure (.error e, s)

@[simp]
theorem outcome_pure (a : α) (s : σ) : (pure a : OperationOn σ α).outcome s = (.ok a, s) := rfl

@[simp]
theorem outcome_throw (e : ConfigError) (s : σ) :
    (throw e : OperationOn σ α).outcome s = (.error e, s) := rfl

@[simp]
theorem outcome_get (s : σ) : (MonadState.get : OperationOn σ σ).outcome s = (.ok s, s) := rfl

theorem outcome_inspect (f : σ → Except ConfigError α) (s : σ) :
    (inspect f).outcome s = (f s, s) := rfl

theorem outcome_ofExcept (x : Except ConfigError α) (s : σ) :
    (MonadExcept.ofExcept x : OperationOn σ α).outcome s = (x, s) := by
  cases x <;> rfl

/-- An attempt that succeeds goes on with the new state. -/
theorem outcome_attempt_ok {f : σ → Except ConfigError σ} {s s' : σ} (h : f s = .ok s') :
    (attempt f).outcome s = (.ok (), s') := by
  show ((match f s with
    | .ok s' => pure (.ok (), s')
    | .error e => pure (.error e, s) : Id (Except ConfigError Unit × σ))) = _
  rw [h]
  rfl

/-- An attempt that fails leaves the state as it is. -/
theorem outcome_attempt_error {f : σ → Except ConfigError σ} {s : σ} {e : ConfigError}
    (h : f s = .error e) : (attempt f).outcome s = (.error e, s) := by
  show ((match f s with
    | .ok s' => pure (.ok (), s')
    | .error e => pure (.error e, s) : Id (Except ConfigError Unit × σ))) = _
  rw [h]
  rfl

/-- The second step begins in the state that the first one leaves behind, unless that one fails. -/
theorem outcome_bind (x : OperationOn σ α) (f : α → OperationOn σ β) (s : σ) :
    (x >>= f).outcome s =
      match x.outcome s with
      | (.ok a, s') => (f a).outcome s'
      | (.error e, s') => (.error e, s') := by
  show (ExceptT.run (x >>= f)).run s = _
  rw [ExceptT.run_bind, StateT.run_bind]
  rcases h : x.outcome s with ⟨a | a, s'⟩ <;> (unfold outcome at h; rw [h]; rfl)

/-- A first step without an error. -/
theorem outcome_bind_ok {x : OperationOn σ α} {f : α → OperationOn σ β} {s s' : σ} {a : α}
    (h : x.outcome s = (.ok a, s')) : (x >>= f).outcome s = (f a).outcome s' := by
  rw [outcome_bind, h]

/-- A first step with an error. -/
theorem outcome_bind_error {x : OperationOn σ α} {f : α → OperationOn σ β} {s s' : σ}
    {e : ConfigError} (h : x.outcome s = (.error e, s')) :
    (x >>= f).outcome s = (.error e, s') := by
  rw [outcome_bind, h]

/-- An operation that does not fail, begun with a step. -/
theorem exists_of_bind_ok {x : OperationOn σ α} {f : α → OperationOn σ β} {s s' : σ} {b : β}
    (h : (x >>= f).outcome s = (.ok b, s')) :
    ∃ a s₁, x.outcome s = (.ok a, s₁) ∧ (f a).outcome s₁ = (.ok b, s') := by
  rw [outcome_bind] at h
  rcases hx : x.outcome s with ⟨a | a, s₁⟩ <;> rw [hx] at h
  · cases h
  · exact ⟨a, s₁, rfl, h⟩

/-- A handler begins in the state that the failure leaves behind. -/
theorem outcome_tryCatch (x : OperationOn σ α) (f : ConfigError → OperationOn σ α) (s : σ) :
    (tryCatch x f).outcome s =
      match x.outcome s with
      | (.ok a, s') => (.ok a, s')
      | (.error e, s') => (f e).outcome s' := by
  show (ExceptT.run (ExceptT.tryCatch x f)).run s = _
  rw [ExceptT.tryCatch, ExceptT.run_mk, StateT.run_bind]
  rcases h : x.outcome s with ⟨a | a, s'⟩ <;> (unfold outcome ExceptT.run at h; rw [h]; rfl)

end OperationOn

end ConfigScript
