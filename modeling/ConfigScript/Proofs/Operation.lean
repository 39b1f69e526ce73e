import ConfigScript.Operation

/-!
# Operations that leave something alone

What a failure leaves behind, as far as it is seen through a view of the state. Steps that only look
(`OperationOn.Looks`) may fail wherever they stand in front of a change. Behind a change, only steps that
do not fail may follow (`OperationOn.Spares.bind_succeeds`): nothing would take it back.
-/

namespace ConfigScript.OperationOn

variable {σ τ α β : Type} {view : σ → τ} {x : OperationOn σ α} {f : α → OperationOn σ β}

/-- The operation leaves what is seen of the state as it is. -/
def Looks (view : σ → τ) (x : OperationOn σ α) : Prop := ∀ s, view (x.outcome s).2 = view s

/-- If the operation fails, it has left what is seen of the state as it was. -/
def Spares (view : σ → τ) (x : OperationOn σ α) : Prop :=
  ∀ s e s', x.outcome s = (.error e, s') → view s' = view s

/-- The operation does not fail. -/
def Succeeds (x : OperationOn σ α) : Prop :=
  ∀ s, ∃ a s', x.outcome s = (.ok a, s')

theorem looks_pure (a : α) : Looks view (pure a : OperationOn σ α) := fun _ ↦ rfl

theorem looks_throw (e : ConfigError) : Looks view (throw e : OperationOn σ α) := fun _ ↦ rfl

theorem looks_inspect (f : σ → Except ConfigError α) : Looks view (inspect f) := fun _ ↦ rfl

theorem looks_ofExcept (r : Except ConfigError α) :
    Looks view (MonadExcept.ofExcept r : OperationOn σ α) := fun s ↦
  congrArg (fun x ↦ view x.2) (outcome_ofExcept r s)

/-- Steps that only look may stand one behind the other. -/
theorem Looks.bind (first : Looks view x) (more : ∀ a, Looks view (f a)) :
    Looks view (x >>= f) := by
  intro s
  rw [outcome_bind]
  rcases run : x.outcome s with ⟨e | a, s₁⟩
  · exact (congrArg (fun x ↦ view x.2) run).symm.trans (first s)
  · exact (more a s₁).trans ((congrArg (fun x ↦ view x.2) run).symm.trans (first s))

/-- Nor does a handler that only looks change anything. -/
theorem Looks.tryCatch {g : ConfigError → OperationOn σ α} (first : Looks view x)
    (more : ∀ e, Looks view (g e)) : Looks view (tryCatch x g) := by
  intro s
  rw [outcome_tryCatch]
  rcases run : x.outcome s with ⟨e | a, s₁⟩
  · exact (more e s₁).trans ((congrArg (fun x ↦ view x.2) run).symm.trans (first s))
  · exact (congrArg (fun x ↦ view x.2) run).symm.trans (first s)

theorem Looks.spares (looks : Looks view x) : Spares view x := fun s _ _ h ↦
  (congrArg (fun x ↦ view x.2) h).symm.trans (looks s)

theorem succeeds_pure (a : α) : Succeeds (pure a : OperationOn σ α) := fun s ↦ ⟨a, s, rfl⟩

theorem Succeeds.spares (succeeds : Succeeds x) : Spares view x := by
  intro s e s' h
  obtain ⟨a, s₁, run⟩ := succeeds s
  cases run.symm.trans h

/-- A single step that fails has changed nothing. -/
theorem spares_attempt (f : σ → Except ConfigError σ) : Spares view (attempt f) := by
  intro s e s' h
  cases made : f s with
  | error e => rw [outcome_attempt_error made] at h; cases h; rfl
  | ok s₁ => rw [outcome_attempt_ok made] at h; cases h

/-- Behind steps that only look, an operation that spares still does. -/
theorem Looks.bind_spares (first : Looks view x) (more : ∀ a, Spares view (f a)) :
    Spares view (x >>= f) := by
  intro s e s' h
  rw [outcome_bind] at h
  have same := first s
  rcases run : x.outcome s with ⟨e | a, s₁⟩ <;> rw [run] at h same
  · cases h
    exact same
  · exact (more a s₁ e s' h).trans same

/-- In front of steps that do not fail, too. -/
theorem Spares.bind_succeeds (first : Spares view x) (more : ∀ a, Succeeds (f a)) :
    Spares view (x >>= f) := by
  intro s e s' h
  rw [outcome_bind] at h
  rcases run : x.outcome s with ⟨e | a, s₁⟩ <;> rw [run] at h
  · cases h
    exact first s _ _ run
  · obtain ⟨b, s₂, ran⟩ := more a s₁
    cases ran.symm.trans h

end ConfigScript.OperationOn
