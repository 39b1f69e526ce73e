import ConfigScript.Proofs.Files.Absolute
import ConfigScript.Proofs.Running.Eval
import ConfigScript.Proofs.Written.Edit

/-!
# Running written documents

Running a row gives its entry its value, unless it is a constant that has one. So the lines of a
document define the constants that they have rows for (`Line.mem_constants_effects`), and where nothing is defined
twice just what the rows say (`Line.effects_of_fresh`). The end of the document adds `ABSPATH` and leaves
the bootstrap file alone (`Template.execAll_tail`), so nothing else of the machine matters.
-/

namespace ConfigScript

open Script

namespace Row

/-- What running a row does. -/
def effect (r : Row) (s : Scope) : Scope :=
  match r.kind with
  | .var => s.setVariable r.name (.string r.value)
  | _ => (s.define r.name (.string r.value)).2

/-- Running a row defines its entry. -/
theorem Legal.exec_stmt {r : Row} (h : r.Legal) (f : Frame) (runner : Option Runner) (p : Place)
    (s : Scope) : (f.exec runner (r.stmt p)).outcome s = (.ok .goOn, r.effect s) := by
  obtain ⟨kind, name, padding, value⟩ := r
  rcases h.kind with rfl | ⟨rfl, -⟩
  · exact f.exec_define runner _ _ _ name (f.eval_text s _ value)
  · simp only [stmt, Frame.exec, Run.outcome_bind, Run.outcome_lift, Run.outcome_pure, effect,
      Frame.assign_plain, Frame.eval_text]

/-- Running a row defines its constant, if it is one. -/
theorem Legal.mem_constants_effect {r : Row} (h : r.Legal) (s : Scope) (n : String) :
    n ∈ Assoc.keys (r.effect s).constants ↔
      n ∈ Assoc.keys s.constants ∨ r.key = (.const, n) := by
  obtain ⟨kind, name, padding, value⟩ := r
  rcases h.kind with rfl | ⟨rfl, -⟩
  · by_cases there : name ∈ Assoc.keys s.constants
    · simp only [effect, Scope.define, Assoc.contains_iff.2 there, if_true, key, Prod.mk.injEq,
        true_and]
      exact ⟨.inl, fun hn ↦ hn.elim id (· ▸ there)⟩
    · have new : Assoc.contains name s.constants = false := by
        rw [Bool.eq_false_iff, ne_eq, Assoc.contains_iff]
        exact there
      simp [effect, Scope.define, new, Assoc.keys_insert, there, key, eq_comm]
  · simp [effect, Scope.setVariable, key]

end Row

namespace Line

/-- The constants of lines. -/
def constants (ls : List Line) : Bindings :=
  ls.filterMap fun l ↦ if l.row.kind = .var then none else some (l.row.name, .string l.row.value)

/-- The variables of lines. -/
def vars (ls : List Line) : Bindings :=
  ls.filterMap fun l ↦ if l.row.kind = .var then some (l.row.name, .string l.row.value) else none

/-- The scope does not hold the entry of a row yet. -/
def Fresh (s : Scope) (l : Line) : Prop :=
  if l.row.kind = .var then l.row.name ∉ Assoc.keys s.vars
  else l.row.name ∉ Assoc.keys s.constants

/-- What a row adds to a scope that does not hold its entry. -/
theorem effect_of_fresh {s : Scope} {l : Line} (h : l.Legal) (fresh : Fresh s l) :
    l.row.effect s =
      { s with constants := s.constants ++ constants [l], vars := s.vars ++ vars [l] } := by
  obtain ⟨gap, kind, name, padding, value⟩ := l
  rcases h.row.kind with hk | ⟨hk, -⟩ <;> obtain rfl : kind = _ := hk
  · have new : name ∉ Assoc.keys s.constants := by simpa [Fresh] using fresh
    simp [Row.effect, Scope.define, Assoc.contains, Assoc.lookup_eq_none new,
      Assoc.insert_of_not_mem new, constants, vars]
  · have new : name ∉ Assoc.keys s.vars := by simpa [Fresh] using fresh
    simp [Row.effect, Scope.setVariable, Assoc.insert_of_not_mem new, constants, vars]

/-- A scope still does not hold an entry behind the row of another one. -/
theorem Fresh.effect {s : Scope} {k l : Line} (hk : k.Legal) (hl : l.Legal) (here : Fresh s l)
    (fresh : Fresh s k) (ne : k.row.key ≠ l.row.key) : Fresh (l.row.effect s) k := by
  rw [effect_of_fresh hl here]
  obtain ⟨_, kind, name, _, _⟩ := k
  obtain ⟨_, kind', name', _, _⟩ := l
  rcases hk.row.kind with h | ⟨h, -⟩ <;> obtain rfl : kind = _ := h <;>
    rcases hl.row.kind with h' | ⟨h', -⟩ <;> obtain rfl : kind' = _ := h' <;>
    simp_all [Fresh, constants, vars, Row.key, Assoc.keys]

/-- What running lines does. -/
def effects (ls : List Line) (s : Scope) : Scope := ls.foldl (fun s l ↦ l.row.effect s) s

/-- Running lines has their effects, one after the other. -/
theorem execAll_effects {ls : List Line} (h : ∀ l ∈ ls, l.Legal) (f : Frame)
    (runner : Option Runner) (p : Place) (rest : List Stmt) (s : Scope) :
    (f.execAll runner (stmts p ls ++ rest)).outcome s =
      (f.execAll runner rest).outcome (effects ls s) := by
  induction ls generalizing p s with
  | nil => rfl
  | cons l ls ih =>
    rw [stmts, List.cons_append,
      Frame.execAll_cons _ ((h l List.mem_cons_self).row.exec_stmt f runner _ s),
      ih (fun k hk ↦ h k (List.mem_cons_of_mem l hk)), effects, effects, List.foldl_cons]

/-- Lines whose entries are not held yet, each for another one, add what they define in their
order. -/
theorem effects_of_fresh {ls : List Line} (h : ∀ l ∈ ls, l.Legal) (distinct : (keys ls).Nodup)
    {s : Scope} (fresh : ∀ l ∈ ls, Fresh s l) :
    effects ls s =
      { s with constants := s.constants ++ constants ls, vars := s.vars ++ vars ls } := by
  induction ls generalizing s with
  | nil => simp [effects, constants, vars]
  | cons l ls ih =>
    have hl := h l List.mem_cons_self
    have here := fresh l List.mem_cons_self
    rw [keys, List.map_cons, List.nodup_cons] at distinct
    have more : ∀ k ∈ ls, Fresh (l.row.effect s) k := fun k hk ↦
      Fresh.effect (h k (List.mem_cons_of_mem l hk)) hl here (fresh k (List.mem_cons_of_mem l hk))
        fun heq ↦ distinct.1 (heq ▸ List.mem_map_of_mem hk)
    have first : effects (l :: ls) s = effects ls (l.row.effect s) := rfl
    have constants' : constants (l :: ls) = constants [l] ++ constants ls :=
      List.filterMap_append (l := [l])
    have vars' : vars (l :: ls) = vars [l] ++ vars ls :=
      List.filterMap_append (l := [l])
    rw [first, ih (fun k hk ↦ h k (List.mem_cons_of_mem l hk)) distinct.2 more,
      effect_of_fresh hl here, constants', vars']
    simp only [List.append_assoc]

/-- Lines define the constants that they have rows for. -/
theorem mem_constants_effects {ls : List Line} (h : ∀ l ∈ ls, l.Legal) (s : Scope) (n : String) :
    n ∈ Assoc.keys (effects ls s).constants ↔
      n ∈ Assoc.keys s.constants ∨ (.const, n) ∈ keys ls := by
  induction ls generalizing s with
  | nil => simp [effects, keys]
  | cons l ls ih =>
    have first : effects (l :: ls) s = effects ls (l.row.effect s) := rfl
    have named : keys (l :: ls) = l.row.key :: keys ls := rfl
    rw [first, ih fun k hk ↦ h k (List.mem_cons_of_mem l hk),
      (h l List.mem_cons_self).row.mem_constants_effect, named, List.mem_cons, or_assoc,
      eq_comm (a := l.row.key)]

end Line

namespace Template

/-- The value that the end of a new file gives to `ABSPATH`. -/
def absolutePath (f : Frame) : Value := .string (f.directory.toString ++ "/")

/-- The directory of the running file, joined to a text. -/
theorem eval_besides (f : Frame) (s₁ s₂ s₃ : Span) (s : Scope) :
    (f.eval (.binary s₁ .concat (.magic s₂ .dir) (.str s₃ [.text "/"]))).run s =
      (absolutePath f, s) :=
  f.eval_binary s₁ .concat (f.eval_magic s s₂ .dir) (f.eval_text s s₃ "/") ⟨rfl, rfl⟩ rfl

/-- The conditional statement defines `ABSPATH`. -/
theorem IsGuard.exec {stmt : Stmt} (h : IsGuard stmt) (f : Frame) (runner : Option Runner)
    {s : Scope} (fresh : "ABSPATH" ∉ Assoc.keys s.constants) :
    (f.exec runner stmt).outcome s =
      (.ok .goOn, { s with constants := s.constants ++ [("ABSPATH", absolutePath f)] }) := by
  obtain ⟨s₁, s₂, s₃, s₄, s₅, s₆, s₇, s₈, s₉, s₁₀⟩ := h
  have absent : (s.constant? "ABSPATH").isSome = false := by
    rw [Scope.constant?, Assoc.lookup_eq_none fresh]
    rfl
  have condition : (f.eval (.unary s₂ .not (.call s₃ "defined" [.str s₄ [.text "ABSPATH"]]))).run s =
      (.bool true, s) := by
    simp only [Frame.eval_unary, Frame.eval_defined, absent]
    rfl
  have defined : s.define "ABSPATH" (absolutePath f) =
      (true, { s with constants := s.constants ++ [("ABSPATH", absolutePath f)] }) := by
    simp [Scope.define, Assoc.contains, Assoc.lookup_eq_none fresh, Assoc.insert_of_not_mem fresh]
  have define := f.exec_define runner s₅ s₆ s₇ "ABSPATH" (eval_besides f s₈ s₉ s₁₀ s)
  have known : (Value.bool true).isOpaque = false ∧ (Value.bool true).isTruthy = true := ⟨rfl, rfl⟩
  have body : (f.execAll runner [.expr s₅ (.call s₆ "define" [.str s₇ [.text "ABSPATH"],
      .binary s₈ .concat (.magic s₉ .dir) (.str s₁₀ [.text "/"])])]).outcome s =
      (.ok .goOn, (s.define "ABSPATH" (absolutePath f)).2) := Frame.execAll_cons [] define
  simp only [Frame.exec, Frame.choose, Frame.value, Run.outcome_bind, Run.outcome_lift, condition,
    known, Bool.false_eq_true, if_false, if_true, body, defined]

/-- Below whatever directory it is looked for, the bootstrap file has its name. -/
theorem fileName_bootstrap (directory : Path) (d : String) :
    (directory.join (.ofString (d ++ "/" ++ "wp-settings.php"))).fileName? = some bootstrapName := by
  have text : (Path.ofString (d ++ "/" ++ "wp-settings.php")).text = d.toList ++ '/' :: bootstrapName := by
    rw [Path.ofString, String.toList_append, String.toList_append, List.append_assoc]
    rfl
  have joined : ∃ x, (directory.join (.ofString (d ++ "/" ++ "wp-settings.php"))).text =
      x ++ '/' :: bootstrapName := by
    rw [Path.join]
    split
    · exact ⟨_, text⟩
    · split
      · exact ⟨directory.text ++ d.toList, by rw [text, List.append_assoc]⟩
      · exact ⟨directory.text ++ '/' :: d.toList, by rw [text]; simp⟩
  obtain ⟨x, hx⟩ := joined
  have plain : '/' ∉ bootstrapName ∧ bootstrapName ≠ [] ∧ bootstrapName ≠ ['.'] ∧
      bootstrapName ≠ ['.', '.'] := by
    have letters : bootstrapName = ['w', 'p', '-', 's', 'e', 't', 't', 'i', 'n', 'g', 's', '.',
        'p', 'h', 'p'] := Template.toList_of_literal rfl
    rw [letters]
    decide
  have name := Path.fileName?_append (x := x) plain.1 plain.2
  rwa [← hx] at name

/-- The bootstrap file is not loaded. -/
theorem IsBootstrap.exec {stmt : Stmt} (h : IsBootstrap stmt) (f : Frame)
    (runner : Option Runner) {s : Scope} (hs : s.constant? "ABSPATH" = some (absolutePath f)) :
    (f.exec runner stmt).outcome s = (.ok .goOn, s) := by
  obtain ⟨s₁, s₂, s₃, s₄⟩ := h
  have path : (f.eval (.binary s₂ .concat (.const s₃ "ABSPATH")
      (.str s₄ [.text "wp-settings.php"]))).run s =
      (.string (f.directory.toString ++ "/" ++ "wp-settings.php"), s) := by
    have const : (f.eval (.const s₃ "ABSPATH")).run s = (absolutePath f, s) := by
      rw [Frame.eval_const, hs]
      rfl
    exact f.eval_binary s₂ .concat const (f.eval_text s s₄ "wp-settings.php") ⟨rfl, rfl⟩ rfl
  have name := fileName_bootstrap f.directory f.directory.toString
  simp only [Frame.exec, Frame.value, Run.outcome_bind, Run.outcome_lift, path, Frame.load]
  show Run.outcome (if ((f.directory.join (.ofString (f.directory.toString ++ "/" ++
    "wp-settings.php"))).fileName? == some bootstrapName) = true then _ else _) s = _
  rw [name, beq_self_eq_true, if_pos rfl]
  rfl

/-- The end of a new file defines `ABSPATH`, unless that is defined already. -/
theorem execAll_tail {guard bootstrap : Stmt} (hg : IsGuard guard) (hb : IsBootstrap bootstrap)
    (f : Frame) (runner : Option Runner) {s : Scope} (fresh : "ABSPATH" ∉ Assoc.keys s.constants) :
    (f.execAll runner [guard, bootstrap]).outcome s =
      (.ok .goOn, { s with constants := s.constants ++ [("ABSPATH", absolutePath f)] }) := by
  have guard' := hg.exec f runner fresh
  have bootstrap' := hb.exec f runner
    (s := { s with constants := s.constants ++ [("ABSPATH", absolutePath f)] }) (by
      rw [Scope.constant?]
      exact Assoc.lookup_append_self fresh _)
  rw [Frame.execAll_cons _ guard']
  exact Frame.execAll_cons _ bootstrap'

end Template

end ConfigScript
