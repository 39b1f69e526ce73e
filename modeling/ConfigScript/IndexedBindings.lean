import ConfigScript.Scope
import Std.Data.HashMap

/-!
# Bindings with an index

Values with their names, in the order in which they came, and an index that says where each name stands,
so that a name is found without a search. Removing a binding moves those behind it up, and the index
follows. An access to the entries takes its place from the index alone, and is an error where the entries
end before that place.
-/

namespace ConfigScript

/-- An access to a place that a list of that length does not have. -/
structure OutOfRange where
  place : Nat
  length : Nat
deriving DecidableEq, Repr

/-- Bindings, and where each name stands in them. -/
structure IndexedBindings where
  entries : Bindings
  places : Std.HashMap String Nat

namespace IndexedBindings

/-- No bindings. -/
def empty : IndexedBindings := ⟨[], ∅⟩

/-- The binding at a place. -/
def entryAt (b : IndexedBindings) (i : Nat) : Except OutOfRange (String × Value) :=
  match b.entries[i]? with
  | some e => .ok e
  | none => .error ⟨i, b.entries.length⟩

/-- The value of a name. -/
def get (b : IndexedBindings) (name : String) : Except OutOfRange (Option Value) :=
  match b.places[name]? with
  | none => .ok none
  | some i => (b.entryAt i).map fun e => some e.2

/-- Give a name a value, in its old place if it has one and at the end otherwise. -/
def insert (b : IndexedBindings) (name : String) (value : Value) :
    Except OutOfRange IndexedBindings :=
  match b.places[name]? with
  | some i => (b.entryAt i).map fun e => { b with entries := b.entries.set i (e.1, value) }
  | none => .ok ⟨b.entries ++ [(name, value)], b.places.insert name b.entries.length⟩

/-- Where a binding stands when the one at place `i` is gone. -/
def moveUp (i j : Nat) : Nat := if i < j then j - 1 else j

/-- Drop a name. The answer is the value that it had. -/
def remove (b : IndexedBindings) (name : String) :
    Except OutOfRange (Option Value × IndexedBindings) :=
  match b.places[name]? with
  | none => .ok (none, b)
  | some i =>
    (b.entryAt i).map fun e =>
      (some e.2, ⟨b.entries.eraseIdx i, (b.places.erase name).map fun _ j => moveUp i j⟩)

end IndexedBindings

end ConfigScript
