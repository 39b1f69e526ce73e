import ConfigScript.Reader

/-!
# Steps of a run

A run applied to a scope yields a result and a scope. `Run.outcome` is that application, and its laws
take a run apart at its first step; nothing about the representation of runs is needed elsewhere. The
run of a source text is that of its statements (`Scope.executeSource_of_execAll`).
-/

namespace ConfigScript

open Script

namespace Run

variable {α β : Type}

/-- A run, applied to a scope. -/
def outcome (x : Run α) (s : Scope) : Except ScriptError α × Scope := (ExceptT.run x).run s

@[simp]
theorem outcome_pure (a : α) (s : Scope) : (pure a : Run α).outcome s = (.ok a, s) := rfl

@[simp]
theorem outcome_throw (e : ScriptError) (s : Scope) : (throw e : Run α).outcome s = (.error e, s) := rfl

@[simp]
theorem outcome_lift (x : StateM Scope α) (s : Scope) :
    Run.outcome (ExceptT.lift x) s = (.ok (x.run s).1, (x.run s).2) := rfl

/-- A run in two steps fails with the first, or does what the second does behind it. -/
theorem outcome_bind (x : Run α) (f : α → Run β) (s : Scope) :
    (x >>= f).outcome s =
      match x.outcome s with
      | (.ok a, s') => (f a).outcome s'
      | (.error e, s') => (.error e, s') := by
  show (ExceptT.run (x >>= f)).run s = _
  rw [ExceptT.run_bind, StateT.run_bind]
  rcases h : x.outcome s with ⟨a | a, s'⟩ <;> (unfold outcome at h; rw [h]; rfl)

/-- A first step without an error. -/
theorem outcome_bind_ok {x : Run α} {f : α → Run β} {s s' : Scope} {a : α} (h : x.outcome s = (.ok a, s')) :
    (x >>= f).outcome s = (f a).outcome s' := by rw [outcome_bind, h]

end Run

variable {env : Environment} {source : List Char} {file : Path} {body : List Stmt} {flow : Flow}
  {scope after : Scope}

/-- Running a source text is running its statements. -/
theorem Scope.executeSource_of_execAll (parsed : parse source = .ok body)
    (run : (Frame.execAll ⟨env, source, file⟩ (some (runNested env 31)) body).outcome scope =
      (.ok flow, after)) : scope.executeSource env source file = (.ok (), after) := by
  show Run.outcome (runSource env source file) _ = _
  rw [runSource, Run.outcome_bind, maxDepth, runNested, runWith, parsed]
  simp only [run, Run.outcome_pure]

/-- What is read is what the scope holds behind the last statement beyond what it held before. -/
theorem Reader.readSource_of_execAll {r : Reader} (parsed : parse source = .ok body)
    (run : (Frame.execAll ⟨env, source, file⟩ (some (runNested env 31)) body).outcome (r.start file) =
      (.ok flow, after)) :
    r.readSource env source file = .ok ((r.start file).snapshot.diff after) := by
  rw [readSource, Scope.executeSource_of_execAll parsed run]

end ConfigScript
