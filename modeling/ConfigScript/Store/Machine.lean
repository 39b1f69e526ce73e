import ConfigScript.Operation
import ConfigScript.Salt.Set

/-!
# What a store works with

The environment with its files, a source of random bytes and a service that hands out salts. An
operation changes these, and may fail; what was changed before a failure stays changed.
-/

namespace ConfigScript

/-- A service that hands out salts. -/
structure SaltService where
  /-- The answer over a verified connection. -/
  answer : Option (List Char)
  /-- The answer when the connection need not be verified. -/
  insecureAnswer : Option (List Char)
  /-- Why there is no answer. -/
  reason : String
deriving Repr, Inhabited

/-- Ask the service. -/
def SaltService.fetch (s : SaltService) (insecure : Bool) : Except ConfigError (List Char) :=
  match (if insecure then s.insecureAnswer.or s.answer else s.answer) with
  | some body => .ok body
  | none => .error (.remoteService s.reason)

/-- Everything that operations may change. -/
structure Machine where
  environment : Environment
  entropy : Salt.Entropy
  service : SaltService
  /-- How often the service was asked. -/
  fetches : Nat

/-- An operation of a store. -/
abbrev Operation (α : Type) := OperationOn Machine α

namespace Operation

/-- An operation that only looks at the environment. -/
def query {α : Type} (f : Environment → Except ConfigError α) : Operation α :=
  OperationOn.inspect fun m => f m.environment

/-- What an operation on files does, on the files of the machine. They are those that it leaves behind,
whether it fails or not. -/
def change {α : Type} (f : Environment → Except ConfigError α × Environment) : Operation α :=
  ExceptT.mk fun m =>
    let (result, env) := f m.environment
    pure (result, { m with environment := env })

/-- Keys for the given names, drawn here. -/
def drawKeys (names : List String) : Operation (Option (List (String × String))) :=
  modifyGet fun m =>
    let (keys, entropy) := Salt.keysFor names m.entropy
    (keys, { m with entropy := entropy })

/-- The salts that the service hands out. -/
def fetchSalts (insecure : Bool) : Operation (List (String × String)) := do
  modify fun m => { m with fetches := m.fetches + 1 }
  let m ← get
  let body ← query fun _ => m.service.fetch insecure
  query fun env => (Salt.parse env body).mapError .script

end Operation

end ConfigScript
