import ConfigScript.Proofs.Running.Growth
import ConfigScript.Proofs.Store.Refinement
import ConfigScript.Proofs.Store.Unambiguous

/-!
# Ambiguous names

What is read of a script has each name once in a namespace, so two entries of one name are a constant and
a variable, and looking up a name in both namespaces is ambiguous only then
(`Store.isAmbiguous_get_all_iff`).

Edits do not run the script. Where its text defines a name as a constant and as a variable
(`Occurrence.InBoth`), an operation that does not say which one is meant does nothing (`Store.Refuses`).
Otherwise it acts in the namespace in which the name occurs (`Store.ActsOn`), and takes a name that does
not occur for a constant (`Store.Adds`).
-/

namespace ConfigScript

/-! ### Looking up -/

namespace Entry

/-- The entries of a name in one namespace. -/
theorem length_filter_only (kind : EntryKind) (name : String) (es : List Entry) :
    (es.filter fun e ↦ e.name == name && (TypeFilter.only kind).admits e.kind).length =
      (names kind es).count name := by
  rw [← List.countP_eq_length_filter, names, List.count, List.countP_map, List.countP_filter]
  rfl

/-- The entries of a name that are constants or variables. -/
theorem length_filter_all (name : String) (es : List Entry) :
    (es.filter fun e ↦ e.name == name && TypeFilter.all.admits e.kind).length =
      (names .const es).count name + (names .var es).count name := by
  rw [← length_filter_only, ← length_filter_only]
  induction es with
  | nil => rfl
  | cons e es ih =>
    obtain ⟨kind, n, v⟩ := e
    by_cases same : n = name
    · cases kind <;> simp [TypeFilter.admits, same] at ih ⊢ <;> omega
    · simpa [same] using ih

end Entry

/-! ### Occurrences in a file -/

namespace Occurrence

/-- The script defines the name in a namespace, somewhere in its text. -/
def Occurs (kind : EntryKind) (name : String) (body : List Stmt) : Prop := all kind name body ≠ []

/-- The script defines the name as a constant and as a variable. -/
def InBoth (name : String) (body : List Stmt) : Prop :=
  Occurs .const name body ∧ Occurs .var name body

variable {kind : EntryKind} {name : String} {body : List Stmt}

theorem Occurs.isEmpty (h : Occurs kind name body) : (all kind name body).isEmpty = false :=
  List.isEmpty_eq_false_iff.2 h

theorem isEmpty_of_not_occurs (h : ¬Occurs kind name body) : (all kind name body).isEmpty = true :=
  List.isEmpty_iff.2 (not_not.1 h)

end Occurrence

namespace Store

open Operation OperationOn Occurrence

variable {s : Store} {m : Machine} {name : String} {filter : TypeFilter}

/-- Looking up a name is ambiguous just if two of the entries that the file reads as fit. -/
theorem isAmbiguous_get_iff {es : List Entry}
    (read : s.reader.read m.environment s.path = .ok es) :
    IsAmbiguous ((s.get name filter).outcome m).1 ↔
      2 ≤ (es.filter fun e ↦ e.name == name && filter.admits e.kind).length := by
  have entries : s.entries.outcome m = (.ok es, m) := by
    rw [Store.entries, outcome_query, read]
  rw [Store.get, outcome_bind_ok entries]
  generalize es.filter (fun e ↦ e.name == name && filter.admits e.kind) = found
  rcases found with _ | ⟨e, _ | ⟨e', more⟩⟩
  · refine ⟨?_, fun h ↦ absurd h (by simp)⟩
    rintro ⟨_, _, h⟩
    cases h
  · exact ⟨fun h ↦ (not_isAmbiguous_ok e h).elim, fun h ↦ absurd h (by simp)⟩
  · exact ⟨fun _ ↦ by simp, fun _ ↦ ⟨_, _, rfl⟩⟩

/-- What is read has a name once at most in each namespace. -/
theorem count_names_le_one {es : List Entry} (distinct : s.reader.host.Distinct)
    (read : s.reader.read m.environment s.path = .ok es) (name : String) :
    (Entry.names .const es).count name ≤ 1 ∧ (Entry.names .var es).count name ≤ 1 := by
  obtain ⟨file, source, -, -, readSource⟩ := Reader.exists_of_read read
  have reports := Reader.reports distinct readSource
  exact ⟨List.nodup_iff_count_le_one.1 reports.constants name,
    List.nodup_iff_count_le_one.1 reports.vars name⟩

/-- Looking up a name in both namespaces is ambiguous just if it is read in both of them. -/
theorem isAmbiguous_get_all_iff {es : List Entry} (distinct : s.reader.host.Distinct)
    (read : s.reader.read m.environment s.path = .ok es) :
    IsAmbiguous ((s.get name .all).outcome m).1 ↔
      name ∈ Entry.names .const es ∧ name ∈ Entry.names .var es := by
  have once := count_names_le_one distinct read name
  rw [isAmbiguous_get_iff read, Entry.length_filter_all, ← List.count_pos_iff, ← List.count_pos_iff]
  omega

/-- A look-up in one namespace is not ambiguous. Loaded files are left out: they may share a name. -/
theorem not_isAmbiguous_get_only {es : List Entry} (distinct : s.reader.host.Distinct)
    (read : s.reader.read m.environment s.path = .ok es) {kind : EntryKind} (hk : kind ≠ .inclusion) :
    ¬IsAmbiguous ((s.get name (.only kind)).outcome m).1 := by
  have once := count_names_le_one distinct read name
  rw [isAmbiguous_get_iff read, Entry.length_filter_only]
  cases kind with
  | const => omega
  | var => omega
  | inclusion => exact absurd rfl hk

/-! ### Changing -/

/-- What setting comes to once the namespace is known. -/
def setIn (s : Store) (name : String) (value : List Char) (filter : TypeFilter) (o : Edit.Options)
    (kind : EntryKind) (there : Bool) : Operation SetOutcome := do
  if !there && !o.add then throw (.notFoundWithoutAdd filter.kind? name s.fileName)
  let changed ← change fun env ↦ Edit.setInFile env s.path kind name value o
  return ⟨kind, !there, changed, o.raw⟩

/-- What deleting comes to once the namespace is known. -/
def deleteIn (s : Store) (name : String) (filter : TypeFilter) (kind : EntryKind) (there : Bool) :
    Operation EntryKind := do
  if !there then
    throw (.entryNotFound filter.kind? name s.fileName (← s.suggestion name))
  let _ ← change fun env ↦ Edit.removeFromFile env s.path kind name
  return kind

theorem set_eq (value : List Char) (o : Edit.Options) : s.set name value filter o =
    s.locate name filter >>= fun x ↦ s.setIn name value filter o x.1 x.2 := rfl

theorem delete_eq : s.delete name filter =
    s.locate name filter >>= fun x ↦ s.deleteIn name filter x.1 x.2 := rfl

/-- Once the namespace is known, setting is never ambiguous. -/
theorem decides_setIn (value : List Char) (o : Edit.Options) (kind : EntryKind) (there : Bool) :
    Decides (s.setIn name value filter o kind there) := by
  have last : Decides (do
      let changed ← change fun env ↦ Edit.setInFile env s.path kind name value o
      return (⟨kind, !there, changed, o.raw⟩ : SetOutcome)) :=
    (decides_change (Edit.decides_update s.path kind name value o)).bind fun _ ↦ decides_pure _
  unfold setIn
  dsimp only
  split
  · exact (decides_throw fun _ _ ↦ by simp).bind fun _ ↦ last
  · exact last

/-- Once the namespace is known, deleting is never ambiguous, not even where a name is suggested. -/
theorem decides_deleteIn (kind : EntryKind) (there : Bool) :
    Decides (s.deleteIn name filter kind there) := by
  have last : Decides (do
      let _ ← change fun env ↦ Edit.removeFromFile env s.path kind name
      return kind) :=
    (decides_change (Edit.decides_remove s.path kind name)).bind fun _ ↦ decides_pure _
  have suggests : Decides (s.suggestion name) := fun m ↦ by
    obtain ⟨hint, found⟩ := exists_suggestion s name m
    rw [found]
    exact not_isAmbiguous_ok hint
  unfold deleteIn
  dsimp only
  split
  · exact suggests.bind fun _ ↦ (decides_throw fun _ _ ↦ by simp).bind fun _ ↦ last
  · exact last

theorem decides_locate_only (kind : EntryKind) : Decides (s.locate name (.only kind)) :=
  (decides_query fun env ↦ Edit.not_isAmbiguous_fileDefines env s.path kind name).bind fun _ ↦
    decides_pure _

/-- An operation that says where to look is never ambiguous. -/
theorem decides_only (s : Store) (name : String) (kind : EntryKind) :
    Decides (s.has name (.only kind)) ∧
      (∀ value o, Decides (s.set name value (.only kind) o)) ∧
      Decides (s.delete name (.only kind)) :=
  ⟨(decides_locate_only kind).bind fun _ ↦ decides_pure _,
    fun value o ↦ (decides_locate_only kind).bind fun x ↦ decides_setIn value o x.1 x.2,
    (decides_locate_only kind).bind fun x ↦ decides_deleteIn x.1 x.2⟩

/-- Setting a name that is there or may be added comes to one update of the file. -/
theorem outcome_setIn {kind : EntryKind} {there : Bool} {o : Edit.Options}
    (may : (!there && !o.add) = false) (value : List Char) :
    (s.setIn name value filter o kind there).outcome m =
      Prod.map (·.map fun changed ↦ ⟨kind, !there, changed, o.raw⟩) id
        ((change fun env ↦ Edit.setInFile env s.path kind name value o).outcome m) := by
  rw [setIn]
  simp only [may, Bool.false_eq_true, if_false]
  rw [outcome_bind]
  rcases (change fun env ↦ Edit.setInFile env s.path kind name value o).outcome m with ⟨e | a, m'⟩ <;>
    rfl

/-- Deleting a name that is there comes to one removal from the file. -/
theorem outcome_deleteIn (kind : EntryKind) :
    (s.deleteIn name filter kind true).outcome m =
      Prod.map (·.map fun _ ↦ kind) id
        ((change fun env ↦ Edit.removeFromFile env s.path kind name).outcome m) := by
  rw [deleteIn]
  simp only [Bool.not_true, Bool.false_eq_true, if_false]
  rw [outcome_bind]
  rcases (change fun env ↦ Edit.removeFromFile env s.path kind name).outcome m with ⟨e | a, m'⟩ <;>
    rfl

/-- A name that is not there is not deleted. The error may suggest another one. -/
theorem outcome_deleteIn_absent (kind : EntryKind) : ∃ hint,
    (s.deleteIn name filter kind false).outcome m =
      (.error (.entryNotFound filter.kind? name s.fileName hint), m) := by
  obtain ⟨hint, found⟩ := exists_suggestion s name m
  refine ⟨hint, ?_⟩
  rw [deleteIn]
  simp only [Bool.not_false, if_true]
  rw [outcome_bind_ok found]
  rfl

/-! ### The namespace of a name -/

section Located

variable {source : List Char} {body : List Stmt}
  (loaded : Edit.loadFile m.environment s.path = .ok (source, body))
include loaded

/-- With no namespace asked for, the statements of the file decide in which one a name is. -/
theorem outcome_locate_all :
    (s.locate name .all).outcome m =
      (match !(all .const name body).isEmpty, !(all .var name body).isEmpty with
        | true, true => .error (.ambiguous name s.fileName)
        | false, true => .ok (.var, true)
        | there, false => .ok (.const, there), m) := by
  have defines {kind : EntryKind} (hk : kind ≠ .inclusion) :
      (query fun env ↦ Edit.fileDefines env s.path kind name).outcome m =
        (.ok !(all kind name body).isEmpty, m) := by
    rw [outcome_query, Edit.fileDefines_of_loadFile hk loaded]
  rw [locate, outcome_bind_ok (defines (by decide)), outcome_bind_ok (defines (by decide))]
  cases (all .const name body).isEmpty <;> cases (all .var name body).isEmpty <;> rfl

/-- A name that occurs in both namespaces is not located. -/
theorem outcome_locate_of_inBoth (both : InBoth name body) :
    (s.locate name .all).outcome m = (.error (.ambiguous name s.fileName), m) := by
  rw [outcome_locate_all loaded, both.1.isEmpty, both.2.isEmpty]
  rfl

/-- A name that occurs in one namespace only is located there. -/
theorem outcome_locate_of_occurs {kind : EntryKind} (hk : kind ≠ .inclusion)
    (here : Occurs kind name body) (single : ¬InBoth name body) :
    (s.locate name .all).outcome m = (.ok (kind, true), m) := by
  rw [outcome_locate_all loaded]
  cases kind with
  | const =>
    rw [here.isEmpty, isEmpty_of_not_occurs fun other ↦ single ⟨here, other⟩]
    rfl
  | var =>
    rw [here.isEmpty, isEmpty_of_not_occurs fun other ↦ single ⟨other, here⟩]
    rfl
  | inclusion => exact absurd rfl hk

/-- A name that occurs in neither namespace is taken for a constant that is to be added. -/
theorem outcome_locate_of_absent (noConstant : ¬Occurs .const name body)
    (noVariable : ¬Occurs .var name body) :
    (s.locate name .all).outcome m = (.ok (.const, false), m) := by
  rw [outcome_locate_all loaded, isEmpty_of_not_occurs noConstant, isEmpty_of_not_occurs noVariable]
  rfl

end Located

/-! ### All operations -/

/-- The operations on a name, with no namespace asked for, if it occurs in the given one only. -/
structure ActsOn (s : Store) (m : Machine) (name : String) (kind : EntryKind) : Prop where
  has : (s.has name .all).outcome m = (.ok true, m)
  set : ∀ value o, (s.set name value .all o).outcome m =
    Prod.map (·.map fun changed ↦ ⟨kind, false, changed, o.raw⟩) id
      ((change fun env ↦ Edit.setInFile env s.path kind name value o).outcome m)
  delete : (s.delete name .all).outcome m =
    Prod.map (·.map fun _ ↦ kind) id
      ((change fun env ↦ Edit.removeFromFile env s.path kind name).outcome m)

/-- The operations on a name that occurs nowhere, with no namespace asked for: it is set as a constant,
if it may be added. -/
structure Adds (s : Store) (m : Machine) (name : String) : Prop where
  has : (s.has name .all).outcome m = (.ok false, m)
  set : ∀ value o, o.add → (s.set name value .all o).outcome m =
    Prod.map (·.map fun changed ↦ ⟨.const, true, changed, o.raw⟩) id
      ((change fun env ↦ Edit.setInFile env s.path .const name value o).outcome m)
  refuses : ∀ value o, ¬o.add → (s.set name value .all o).outcome m =
    (.error (.notFoundWithoutAdd none name s.fileName), m)
  delete : ∃ hint, (s.delete name .all).outcome m =
    (.error (.entryNotFound none name s.fileName hint), m)

/-- The operations on a name that occurs in both namespaces, with none asked for: nothing is done. -/
structure Refuses (s : Store) (m : Machine) (name : String) : Prop where
  has : (s.has name .all).outcome m = (.error (.ambiguous name s.fileName), m)
  set : ∀ value o, (s.set name value .all o).outcome m = (.error (.ambiguous name s.fileName), m)
  delete : (s.delete name .all).outcome m = (.error (.ambiguous name s.fileName), m)

section

variable {source : List Char} {body : List Stmt}
  (loaded : Edit.loadFile m.environment s.path = .ok (source, body))
include loaded

theorem refuses_of_inBoth (both : InBoth name body) : s.Refuses m name := by
  have located := outcome_locate_of_inBoth loaded both
  exact ⟨outcome_bind_error located, fun _ _ ↦ outcome_bind_error located, outcome_bind_error located⟩

/-- An operation on a name that occurs in one namespace acts there. -/
theorem actsOn_of_occurs {kind : EntryKind} (hk : kind ≠ .inclusion) (here : Occurs kind name body)
    (single : ¬InBoth name body) : s.ActsOn m name kind := by
  have located := outcome_locate_of_occurs loaded hk here single
  refine ⟨outcome_bind_ok located, fun value o ↦ ?_, ?_⟩
  · rw [set_eq, outcome_bind_ok located]
    exact outcome_setIn rfl value
  · rw [delete_eq, outcome_bind_ok located]
    exact outcome_deleteIn kind

/-- An operation on a name that occurs nowhere takes it for a new constant. -/
theorem adds_of_absent (noConstant : ¬Occurs .const name body) (noVariable : ¬Occurs .var name body) :
    s.Adds m name := by
  have located := outcome_locate_of_absent loaded noConstant noVariable
  refine ⟨outcome_bind_ok located, fun value o add ↦ ?_, fun value o refuse ↦ ?_, ?_⟩
  · rw [set_eq, outcome_bind_ok located]
    exact outcome_setIn (by simp [add]) value
  · rw [set_eq, outcome_bind_ok located, setIn]
    simp only [Bool.not_eq_true] at refuse
    simp only [refuse, Bool.not_false, Bool.and_self, if_true]
    rfl
  · rw [delete_eq, outcome_bind_ok located]
    exact outcome_deleteIn_absent .const

/-- A name that does not occur in both namespaces is located in one. -/
theorem exists_located (single : ¬InBoth name body) :
    ∃ x, (s.locate name .all).outcome m = (.ok x, m) := by
  by_cases isConstant : Occurs .const name body
  · exact ⟨_, outcome_locate_of_occurs loaded (by decide) isConstant single⟩
  by_cases isVariable : Occurs .var name body
  · exact ⟨_, outcome_locate_of_occurs loaded (by decide) isVariable single⟩
  · exact ⟨_, outcome_locate_of_absent loaded isConstant isVariable⟩

/-- An operation that first locates a name, and is never ambiguous from there on. -/
theorem isAmbiguous_iff_inBoth {α : Type} {f : EntryKind × Bool → Operation α}
    (more : ∀ x, Decides (f x)) :
    IsAmbiguous ((s.locate name .all >>= f).outcome m).1 ↔ InBoth name body := by
  constructor
  · intro ambiguous
    by_contra single
    obtain ⟨x, located⟩ := exists_located loaded single
    rw [outcome_bind_ok located] at ambiguous
    exact more x m ambiguous
  · intro both
    rw [outcome_bind_error (outcome_locate_of_inBoth loaded both)]
    exact ⟨name, s.fileName, rfl⟩

end

/-- That a name is ambiguous is told when it is, and only then. Looking it up in both namespaces does if the
file reads as a constant and a variable of the name. The other operations do if it occurs as both in the
text, and then they do nothing; else they act in the one namespace in which the name occurs, and in that of
constants if it occurs in none. With a namespace asked for, no operation does. -/
theorem ambiguity (s : Store) (m : Machine) (name : String) :
    (∀ es, s.reader.host.Distinct → s.reader.read m.environment s.path = .ok es →
      (IsAmbiguous ((s.get name .all).outcome m).1 ↔
        name ∈ Entry.names .const es ∧ name ∈ Entry.names .var es) ∧
      ∀ kind ≠ EntryKind.inclusion, ¬IsAmbiguous ((s.get name (.only kind)).outcome m).1) ∧
    (∀ kind, ¬IsAmbiguous ((s.has name (.only kind)).outcome m).1 ∧
      (∀ value o, ¬IsAmbiguous ((s.set name value (.only kind) o).outcome m).1) ∧
      ¬IsAmbiguous ((s.delete name (.only kind)).outcome m).1) ∧
    ∀ source body, Edit.loadFile m.environment s.path = .ok (source, body) →
      (IsAmbiguous ((s.has name .all).outcome m).1 ↔ InBoth name body) ∧
      (∀ value o, IsAmbiguous ((s.set name value .all o).outcome m).1 ↔ InBoth name body) ∧
      (IsAmbiguous ((s.delete name .all).outcome m).1 ↔ InBoth name body) ∧
      (InBoth name body → s.Refuses m name) ∧
      (∀ kind ≠ EntryKind.inclusion, Occurs kind name body → ¬InBoth name body →
        s.ActsOn m name kind) ∧
      (¬Occurs .const name body → ¬Occurs .var name body → s.Adds m name) := by
  refine ⟨fun es distinct read ↦ ⟨isAmbiguous_get_all_iff distinct read, fun kind hk ↦
    not_isAmbiguous_get_only distinct read hk⟩, fun kind ↦ ?_, fun source body loaded ↦ ?_⟩
  · obtain ⟨has, set, delete⟩ := decides_only s name kind
    exact ⟨has m, fun value o ↦ set value o m, delete m⟩
  · exact ⟨isAmbiguous_iff_inBoth loaded fun _ ↦ decides_pure _,
      fun value o ↦ isAmbiguous_iff_inBoth loaded fun x ↦ decides_setIn value o x.1 x.2,
      isAmbiguous_iff_inBoth loaded fun x ↦ decides_deleteIn x.1 x.2,
      refuses_of_inBoth loaded, fun _ ↦ actsOn_of_occurs loaded, adds_of_absent loaded⟩

/-- A machine with one file, where one name is a constant and a variable and another is a variable. -/
def twofoldMachine : Machine :=
  { bareMachine with environment := .single "<?php const A = 1; $A = 2; $b = 3;".toList }

/-- A name in both namespaces, one in a single namespace, and one in none. -/
theorem ambiguity_twofold : ∃ s : Store, s.path = ⟨['/', 'a']⟩ ∧ s.reader.host.Distinct ∧
    IsAmbiguous ((s.get "A" .all).outcome twofoldMachine).1 ∧
      ¬IsAmbiguous ((s.get "b" .all).outcome twofoldMachine).1 ∧
      ¬IsAmbiguous ((s.get "A" (.only .var)).outcome twofoldMachine).1 ∧
      s.Refuses twofoldMachine "A" ∧ s.ActsOn twofoldMachine "b" .var ∧ s.Adds twofoldMachine "C" := by
  let s : Store := ⟨⟨['/', 'a']⟩, .standard⟩
  have distinct : s.reader.host.Distinct := Scope.Made.withBuiltins.distinct
  obtain ⟨es, read, names⟩ := Script.exists_of_any
    (p := fun es : List Entry ↦ Entry.names .const es == ["A"] && Entry.names .var es == ["A", "b"])
    (show (s.reader.read twofoldMachine.environment s.path).toOption.any _ by decide +kernel)
  obtain ⟨constants, vars⟩ : Entry.names .const es = ["A"] ∧ Entry.names .var es = ["A", "b"] := by
    simpa using names
  obtain ⟨⟨source, body⟩, loaded, occurs⟩ := Script.exists_of_any
    (p := fun x : List Char × List Stmt ↦ (all .const "A" x.2 != [] && all .var "A" x.2 != []) &&
      (all .const "b" x.2 == [] && all .var "b" x.2 != []) &&
      (all .const "C" x.2 == [] && all .var "C" x.2 == []))
    (show (Edit.loadFile twofoldMachine.environment s.path).toOption.any _ by decide +kernel)
  obtain ⟨⟨A, noConstant, b⟩, absent⟩ : (InBoth "A" body ∧ ¬Occurs .const "b" body ∧
      Occurs .var "b" body) ∧ ¬Occurs .const "C" body ∧ ¬Occurs .var "C" body := by
    simpa [InBoth, Occurs] using occurs
  obtain ⟨getA, onlyA⟩ := (ambiguity s twofoldMachine "A").1 es distinct read
  obtain ⟨getB, -⟩ := (ambiguity s twofoldMachine "b").1 es distinct read
  obtain ⟨-, -, -, refuses, -, -⟩ := (ambiguity s twofoldMachine "A").2.2 source body loaded
  obtain ⟨-, -, -, -, acts, -⟩ := (ambiguity s twofoldMachine "b").2.2 source body loaded
  obtain ⟨-, -, -, -, -, adds⟩ := (ambiguity s twofoldMachine "C").2.2 source body loaded
  refine ⟨s, rfl, distinct, getA.2 ?_, fun both ↦ ?_, onlyA .var (by decide), refuses A,
    acts .var (by decide) b fun both ↦ noConstant both.1, adds absent.1 absent.2⟩
  · rw [constants, vars]
    decide
  · have inConstants := (getB.1 both).1
    rw [constants] at inConstants
    exact absurd inConstants (by decide)

end Store

end ConfigScript
