import ConfigScript.Store.Create

/-!
# Outcomes of the operations of a store

What an operation of a store does with the files of a machine is told by what the operation on files does:
a question leaves the machine as it is (`Operation.outcome_query`), and behind a change it has the files that
the change leaves behind, whether that has failed or not (`Operation.outcome_change`).
-/

namespace ConfigScript.Operation

open OperationOn

variable {α : Type}

/-- Looking at the environment. -/
theorem outcome_query (f : Environment → Except ConfigError α) (m : Machine) :
    (query f).outcome m = (f m.environment, m) := rfl

/-- Changing the environment. -/
theorem outcome_change (f : Environment → Except ConfigError α × Environment) (m : Machine) :
    (change f).outcome m =
      ((f m.environment).1, { m with environment := (f m.environment).2 }) := rfl

/-- A change that does not fail is made. -/
theorem exists_of_change_ok {f : Environment → Except ConfigError α × Environment} {m m' : Machine}
    {a : α} (h : (change f).outcome m = (.ok a, m')) :
    ∃ env, f m.environment = (.ok a, env) ∧ m' = { m with environment := env } := by
  obtain ⟨result, after⟩ := Prod.mk.inj h
  exact ⟨(f m.environment).2, Prod.ext result rfl, after.symm⟩

end ConfigScript.Operation
