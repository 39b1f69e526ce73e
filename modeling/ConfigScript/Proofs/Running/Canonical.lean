import ConfigScript.Proofs.Files.Held
import ConfigScript.Proofs.Running.Growth
import ConfigScript.Proofs.Value.Comparison

/-!
# Runs keep arrays in canonical form

If all values of a scope are in canonical form, then so are all values that expressions have there and all
that is held behind a run. What a step provides is told together with what it leaves behind (`Provides`),
construct by construct for expressions (`Frame.isCanonical_meaning`) and statement by statement for
executions (`Executes.isCanonical`).
-/

namespace ConfigScript

open Value

/-! ### Scopes -/

/-- All values that the scope holds are in canonical form. -/
structure Scope.IsCanonical (s : Scope) : Prop where
  constants : ∀ x ∈ s.constants, x.2.IsCanonical
  vars : ∀ x ∈ s.vars, x.2.IsCanonical

namespace Scope.IsCanonical

variable {s : Scope} {n : String} {v : Value}

theorem constant? (h : s.IsCanonical) (found : s.constant? n = some v) : v.IsCanonical :=
  h.constants _ (Assoc.mem_of_lookup found)

theorem var? (h : s.IsCanonical) (found : s.var? n = some v) : v.IsCanonical :=
  h.vars _ (Assoc.mem_of_lookup found)

/-- A definition in canonical form leaves the scope in it. -/
theorem define (h : s.IsCanonical) (n : String) (value : v.IsCanonical) :
    (s.define n v).2.IsCanonical := by
  unfold Scope.define
  split
  · exact h
  · refine ⟨fun x hx ↦ ?_, h.vars⟩
    rcases Assoc.mem_insert hx with rfl | hx
    · exact value
    · exact h.constants x hx

/-- A variable in canonical form leaves the scope in it. -/
theorem setVariable (h : s.IsCanonical) (n : String) (value : v.IsCanonical) :
    (s.setVariable n v).IsCanonical where
  constants := h.constants
  vars x hx := by
    rcases Assoc.mem_insert hx with rfl | hx
    · exact value
    · exact h.vars x hx

theorem unsetVariable (h : s.IsCanonical) (n : String) : (s.unsetVariable n).IsCanonical where
  constants := h.constants
  vars x hx := h.vars x (List.mem_of_mem_filter hx)

theorem markLoaded (h : s.IsCanonical) (path : Path) : (s.markLoaded path).IsCanonical := by
  unfold Scope.markLoaded
  split <;> exact ⟨h.constants, h.vars⟩

end Scope.IsCanonical

/-! ### Steps -/

/-- Where all values are in canonical form, a step provides a result with a property, and leaves such a
scope behind. -/
def Provides {α : Type} (P : α → Prop) (x : StateM Scope α) : Prop :=
  ∀ s : Scope, s.IsCanonical → P (x.run s).1 ∧ (x.run s).2.IsCanonical

namespace Provides

variable {α β : Type} {P : α → Prop} {Q : β → Prop} {x : StateM Scope α} {f : α → StateM Scope β}

protected theorem pure {a : α} (h : P a) : Provides P (pure a) := fun _ hs ↦ ⟨h, hs⟩

theorem bind (h : Provides P x) (more : ∀ a, P a → Provides Q (f a)) : Provides Q (x >>= f) := fun s hs ↦
  more _ (h s hs).1 _ (h s hs).2

/-- A step that looks at the scope. -/
theorem read {g : Scope → α} (h : ∀ s, s.IsCanonical → P (g s)) : Provides P (do return g (← get)) :=
  fun s hs ↦ ⟨h s hs, hs⟩

theorem state : Provides Scope.IsCanonical get := fun _ hs ↦ ⟨hs, hs⟩

theorem modify {g : Scope → Scope} (h : ∀ s, s.IsCanonical → (g s).IsCanonical) :
    Provides (fun _ ↦ True) (modify g) := fun s hs ↦ ⟨trivial, h s hs⟩

theorem define (n : String) {v : Value} (value : v.IsCanonical) :
    Provides (fun _ ↦ True) (modifyGet fun s : Scope ↦ s.define n v) := fun _ hs ↦
  ⟨trivial, hs.define n value⟩

end Provides

/-! ### Meanings -/

/-- The value is in canonical form, if there is one. -/
def Value.IsCanonical? (a : Option Value) : Prop := ∀ v, a = some v → v.IsCanonical

/-- The value of an expression is in canonical form. -/
structure Meaning.IsCanonical (m : Meaning) : Prop where
  value : Provides Value.IsCanonical m.value
  isSet : Provides (fun _ ↦ True) m.isSet

namespace Meaning

variable {u : Value} {m b i c e : Meaning}

theorem IsCanonical.ofValue {x : StateM Scope Value} (h : Provides Value.IsCanonical x) :
    IsCanonical (.ofValue x) := ⟨h, h.bind fun _ _ ↦ .pure trivial⟩

theorem IsCanonical.fixed {v : Value} (h : v.IsCanonical) : IsCanonical (.fixed v) :=
  .ofValue (.pure h)

/-- A known value, or an unknown one. -/
theorem isCanonical_getD {a : Option Value} (h : IsCanonical? a)
    (unknown : u.IsCanonical) : (a.getD u).IsCanonical := by
  cases a with
  | none => exact unknown
  | some v => exact h v rfl

theorem IsCanonical.ofVariable (n : String) : IsCanonical (.ofVariable n) where
  value := .read fun s hs ↦ isCanonical_getD (fun _ found ↦ hs.var? found) (isCanonical_of_flat nofun)
  isSet := Provides.state.bind fun s _ ↦ by
    rcases s.var? n with _ | _ | _ | _ | _ | _ | _ | _ <;> exact .pure trivial

/-- An element of an array in canonical form is in it. -/
theorem IsCanonical.index (unknown : u.IsCanonical) (base : b.IsCanonical) (by' : i.IsCanonical) :
    IsCanonical (.index u b i) where
  value := base.value.bind fun _ hv ↦ by'.value.bind fun _ _ ↦
    .pure (isCanonical_getD (fun _ found ↦ hv.index? found) unknown)
  isSet := base.isSet.bind fun set _ ↦ by
    match set with
    | none => exact .pure trivial
    | some false => exact .pure trivial
    | some true =>
      refine base.value.bind fun _ _ ↦ by'.value.bind fun _ _ ↦ ?_
      split <;> exact .pure trivial

/-- The elements of an array literal are added one after the other. -/
theorem provides_elements {items : List (Option Meaning × Meaning)}
    (keys : ∀ x ∈ items, ∀ k, x.1 = some k → k.IsCanonical) (values : ∀ x ∈ items, x.2.IsCanonical)
    {done : List (Key × Value)} (start : AreCanonical done) :
    Provides (fun all ↦ ∀ a, all = some a → AreCanonical a) (elements done items) := by
  induction items generalizing done with
  | nil => exact .pure fun a same ↦ Option.some.inj same ▸ start
  | cons x items ih =>
    rw [List.forall_mem_cons] at keys values
    obtain ⟨key, value⟩ := x
    have more (key? : Option Key) (canonical : ∀ k, key? = some k → k.IsCanonical) :
        Provides (fun all ↦ ∀ a, all = some a → AreCanonical a) (keyed done value items key?) := by
      cases key? with
      | none => exact .pure nofun
      | some k =>
        refine values.1.value.bind fun v hv ↦ ?_
        split
        · exact .pure nofun
        · exact ih keys.2 values.2 (start.insert (canonical k rfl) hv)
    cases key with
    | none =>
      refine more (some (.int (Value.nextIndex done))) fun k same ↦ ?_
      obtain rfl := Option.some.inj same
      trivial
    | some k => exact (keys.1 k rfl).value.bind fun v _ ↦ more v.key? fun _ ↦ isCanonical_of_key?

/-- A function that keeps values in canonical form does so with the value of an expression. -/
theorem provides_apply (unknown : u.IsCanonical) {f : Value → Option Value}
    (keeps : ∀ v w, v.IsCanonical → f v = some w → w.IsCanonical) (h : m.IsCanonical) :
    Provides Value.IsCanonical (apply u f m) := h.value.bind fun v hv ↦ by
  split
  · exact .pure unknown
  · exact .pure (isCanonical_getD (fun w ↦ keeps v w hv) unknown)

/-- The value of an operator that looks at its left operand only is in canonical form. -/
theorem isCanonical_shortcut? {op : BinaryOp} {v w : Value} (h : v.IsCanonical)
    (found : shortcut? op v = some w) : w.IsCanonical := by
  unfold shortcut? at found
  split at found
  · split at found <;> cases found
    exact isCanonical_of_flat nofun
  · split at found <;> cases found
    exact isCanonical_of_flat nofun
  · split at found <;> cases found
    exact h
  · cases found

/-- An operator provides values in canonical form. -/
theorem provides_binary (unknown : u.IsCanonical) (op : BinaryOp) (left : b.IsCanonical)
    (right : e.IsCanonical) : Provides Value.IsCanonical (binary u op b e) := by
  refine left.value.bind fun v hv ↦ ?_
  split
  · exact .pure unknown
  cases short : shortcut? op v with
  | some w => exact .pure (isCanonical_shortcut? hv short)
  | none =>
    refine right.value.bind fun w hw ↦ ?_
    split
    · exact .pure unknown
    · exact .pure (isCanonical_getD (fun _ ↦ hv.binary? hw) unknown)

/-- A conditional provides values in canonical form. -/
theorem provides_conditional (unknown : u.IsCanonical) (condition : c.IsCanonical) {t : Option Meaning}
    (first : ∀ m, t = some m → m.IsCanonical) (second : e.IsCanonical) :
    Provides Value.IsCanonical (conditional u c t e) := by
  have finish (v : Value) (hv : v.IsCanonical) :
      Provides Value.IsCanonical (pure (if v.isOpaque then u else v)) := by
    split
    · exact .pure unknown
    · exact .pure hv
  refine condition.value.bind fun v hv ↦ ?_
  split
  · exact .pure unknown
  dsimp only
  split
  · cases t with
    | none => exact finish v hv
    | some m => exact (first m rfl).value.bind finish
  · exact second.value.bind finish

/-! ### Calls -/

section Calls

variable {ms : List Meaning} (h : ∀ m ∈ ms, IsCanonical m)

include h

/-- Several expressions leave the scope in canonical form. -/
theorem provides_values : Provides (fun _ ↦ True) (values ms) := by
  induction ms with
  | nil => exact .pure trivial
  | cons m ms ih =>
    rw [List.forall_mem_cons] at h
    exact h.1.value.bind fun _ _ ↦ (ih h.2).bind fun _ _ ↦ .pure trivial

/-- Asking whether arguments are set leaves the scope in canonical form. -/
theorem provides_allSet : Provides (fun _ ↦ True) (allSet ms) := by
  induction ms with
  | nil => exact .pure trivial
  | cons m ms ih =>
    rw [List.forall_mem_cons] at h
    refine h.1.isSet.bind fun set _ ↦ ?_
    cases set with
    | none => exact .pure trivial
    | some b => exact (ih h.2).bind fun _ _ ↦ .pure trivial

/-- A call of `define` defines a value in canonical form. -/
theorem provides_define : Provides IsCanonical? (Meaning.define ms) := by
  match ms with
  | [] | [_] => exact .pure nofun
  | name :: value :: _ =>
    rw [List.forall_mem_cons, List.forall_mem_cons] at h
    refine h.1.value.bind fun n _ ↦ ?_
    cases n with
    | expression | array => exact .pure nofun
    | null | bool | int | float | string =>
      refine h.2.1.value.bind fun v hv ↦ (Provides.define _ hv).bind fun _ _ ↦ .pure fun w same ↦ ?_
      obtain rfl := Option.some.inj same
      exact isCanonical_of_flat nofun

/-- Asking whether the argument is empty leaves the scope in canonical form. -/
theorem provides_isEmpty : Provides IsCanonical? (isEmpty ms) := by
  have flag (b : Bool) : Provides IsCanonical? (pure (some (.bool b))) :=
    .pure fun v same ↦ Option.some.inj same ▸ isCanonical_of_flat nofun
  match ms with
  | [] | _ :: _ :: _ => exact .pure nofun
  | [m] =>
    rw [List.forall_mem_singleton] at h
    refine h.isSet.bind fun set _ ↦ ?_
    match set with
    | none => exact .pure nofun
    | some false => exact flag true
    | some true =>
      refine h.value.bind fun v _ ↦ ?_
      split
      · exact .pure nofun
      · exact flag _

omit h in
/-- Of the functions, only the one that asks for a constant may yield an array. -/
theorem isCanonical_builtin {env : Environment} {s : Scope} (hs : s.IsCanonical) {name : String}
    {args : List Value} {v : Value} (found : Builtin.call env s name args = some v) : v.IsCanonical := by
  by_cases asks : name = "constant"
  · subst asks
    match args with
    | [] | _ :: _ :: _ => cases found
    | [c] => exact hs.constant? found
  refine isCanonical_of_flat ?_
  rintro items rfl
  unfold Builtin.call at found
  -- Most functions yield a text or a flag outright.
  split at found <;> first | exact absurd rfl asks | cases found | skip
  · rename_i v
    cases told : Assoc.lookup v.toText env.exported <;> rw [told] at found <;> cases found
  · obtain ⟨n, -, float⟩ := Option.map_eq_some_iff.1 found
    cases float
  · obtain ⟨cs, -, text⟩ := Option.map_eq_some_iff.1 found
    cases text

/-- A builtin function provides values in canonical form. -/
theorem provides_callBuiltin (env : Environment) (name : String) :
    Provides IsCanonical? (callBuiltin env name ms) := by
  refine (provides_values h).bind fun vs _ ↦ ?_
  split
  · exact .pure nofun
  · exact .read fun s hs v ↦ isCanonical_builtin hs

/-- A call provides values in canonical form, whatever it calls. -/
theorem provides_call (env : Environment) (word : String) :
    Provides IsCanonical? (Meaning.call env word ms) := by
  unfold Meaning.call
  split
  · exact provides_define h
  · refine (provides_allSet h).bind fun set _ ↦ .pure fun v found ↦ ?_
    obtain ⟨b, -, rfl⟩ := Option.map_eq_some_iff.1 found
    exact isCanonical_of_flat nofun
  · exact provides_isEmpty h
  · exact provides_callBuiltin h env _

end Calls

end Meaning

/-! ### Expressions -/

namespace Frame

open Meaning

variable (f : Frame)

theorem isCanonical_unknown (sp : Span) : (f.unknown sp).IsCanonical := isCanonical_of_flat nofun

/-- Values of expressions are in canonical form. -/
theorem isCanonical_meaning (e : Expr) : (f.meaning e).IsCanonical := by
  induction e using Expr.induction_parts with
  | step e ih =>
    cases e with
    | null | bool | int | float | opaqueExpr =>
      rw [meaning]
      exact .fixed (isCanonical_of_flat nofun)
    | magic s k =>
      rw [meaning]
      exact .fixed (isCanonical_of_flat (by cases k <;> exact nofun))
    | str s ps =>
      rw [meaning]
      refine .ofValue (.read fun s' _ ↦ isCanonical_getD (fun v text ↦ ?_) (f.isCanonical_unknown s))
      obtain ⟨t, -, rfl⟩ := Option.map_eq_some_iff.1 text
      exact isCanonical_of_flat nofun
    | const s n =>
      rw [meaning]
      exact .ofValue (.read fun s' hs ↦
        isCanonical_getD (fun v found ↦ hs.constant? found) (f.isCanonical_unknown s))
    | var s n =>
      rw [meaning]
      exact .ofVariable n
    | array s is =>
      have parts (i : Item) (hi : i ∈ is) (p : Expr) (hp : p ∈ i.parts) : (f.meaning p).IsCanonical :=
        ih p (List.mem_flatMap.2 ⟨i, hi, hp⟩)
      have elements : Provides (fun all ↦ ∀ a, all = some a → AreCanonical a)
          (Meaning.elements [] (f.itemMeanings is)) := by
        rw [itemMeanings_eq_map]
        refine provides_elements (fun x hx k same ↦ ?_) (fun x hx ↦ ?_) .nil
        · obtain ⟨i, hi, rfl⟩ := List.mem_map.1 hx
          cases i with
          | value => cases same
          | keyed a b =>
            obtain rfl := Option.some.inj same
            exact parts _ hi a (by simp [Item.parts])
        · obtain ⟨i, hi, rfl⟩ := List.mem_map.1 hx
          cases i with
          | value b => exact parts _ hi b (by simp [Item.parts])
          | keyed a b => exact parts _ hi b (by simp [Item.parts])
      rw [meaning]
      refine .ofValue (elements.bind fun all done ↦
        .pure (isCanonical_getD (fun v same ↦ ?_) (f.isCanonical_unknown s)))
      obtain ⟨a, here, rfl⟩ := Option.map_eq_some_iff.1 same
      exact isCanonical_array.2 (done a here)
    | index s b i =>
      rw [meaning]
      exact .index (f.isCanonical_unknown s) (ih b (by simp [Expr.parts])) (ih i (by simp [Expr.parts]))
    | call s n es =>
      have args : ∀ m ∈ f.meanings es, m.IsCanonical := by
        rw [meanings_eq_map]
        intro m hm
        obtain ⟨p, hp, rfl⟩ := List.mem_map.1 hm
        exact ih p hp
      rw [meaning]
      exact .ofValue ((provides_call args f.environment _).bind fun a ha ↦
        .pure (isCanonical_getD ha (f.isCanonical_unknown s)))
    | cast s kind a =>
      rw [meaning]
      refine .ofValue (provides_apply (f.isCanonical_unknown s) (fun v w hv same ↦ ?_)
        (ih a (by simp [Expr.parts])))
      exact Option.some.inj same ▸ hv.castTo kind
    | unary s op a =>
      rw [meaning]
      exact .ofValue (provides_apply (f.isCanonical_unknown s) (fun v w hv ↦ hv.unary?)
        (ih a (by simp [Expr.parts])))
    | binary s op a b =>
      rw [meaning]
      exact .ofValue (provides_binary (f.isCanonical_unknown s) op (ih a (by simp [Expr.parts]))
        (ih b (by simp [Expr.parts])))
    | ternary s c a b =>
      rw [meaning]
      refine .ofValue (provides_conditional (f.isCanonical_unknown s) (ih c (by simp [Expr.parts]))
        (fun m same ↦ ?_) (ih b (by simp [Expr.parts])))
      exact Option.some.inj same ▸ ih a (by simp [Expr.parts])
    | elvis s c b =>
      rw [meaning]
      exact .ofValue (provides_conditional (f.isCanonical_unknown s) (ih c (by simp [Expr.parts]))
        (by simp) (ih b (by simp [Expr.parts])))

theorem provides_eval (e : Expr) : Provides Value.IsCanonical (f.eval e) := (f.isCanonical_meaning e).value

/-! ### Statements that only change the scope -/

/-- The keys of a path are in canonical form. -/
theorem provides_keys (is : List (Option Expr)) :
    Provides (fun path ↦ ∀ ks, path = some ks → ∀ k, some k ∈ ks → k.IsCanonical) (f.keys is) := by
  induction is with
  | nil =>
    refine .pure fun ks same ↦ ?_
    obtain rfl := Option.some.inj same
    exact nofun
  | cons i is ih =>
    cases i with
    | none =>
      refine ih.bind fun path rest ↦ .pure fun ks same k hk ↦ ?_
      obtain ⟨ls, here, rfl⟩ := Option.map_eq_some_iff.1 same
      exact rest ls here k ((List.mem_cons.1 hk).resolve_left nofun)
    | some e =>
      refine (f.provides_eval e).bind fun v _ ↦ ?_
      cases key : v.key? with
      | none => exact .pure nofun
      | some l =>
        refine ih.bind fun path rest ↦ .pure fun ks same k hk ↦ ?_
        obtain ⟨ls, here, rfl⟩ := Option.map_eq_some_iff.1 same
        rcases List.mem_cons.1 hk with first | hk
        · exact Option.some.inj first ▸ isCanonical_of_key? key
        · exact rest ls here k hk

/-- The keys of a target leave the scope in canonical form. -/
theorem provides_closedKeys (is : List (Option Expr)) : Provides (fun _ ↦ True) (f.closedKeys is) := by
  induction is with
  | nil => exact .pure trivial
  | cons i is ih =>
    cases i with
    | none => exact .pure trivial
    | some e =>
      refine (f.provides_eval e).bind fun v _ ↦ ?_
      cases v.key? with
      | none => exact .pure trivial
      | some k => exact ih.bind fun _ _ ↦ .pure trivial

/-- What an assignment stores is in canonical form if the old value and the right side are. -/
theorem isCanonical_assigned {op : AssignOp} {old : Option Value} {right unknown : Value}
    (known : IsCanonical? old) (hr : right.IsCanonical) (hu : unknown.IsCanonical) :
    (assigned op old right unknown).IsCanonical := by
  have left : (old.getD .null).IsCanonical := isCanonical_getD known (isCanonical_of_flat nofun)
  cases op with
  | assign | coalesce => exact hr
  | concat | add | sub =>
    unfold assigned
    exact isCanonical_getD (fun _ found ↦ left.binary? hr found) hu

/-- An assignment leaves the scope in canonical form, also one to an element. -/
theorem provides_assign (op : AssignOp) (t : Target) (e : Expr) :
    Provides (fun _ ↦ True) (f.assign op t e) := by
  refine (f.provides_keys t.indices).bind fun path keys ↦ ?_
  cases path with
  | none => exact .pure trivial
  | some path =>
    refine Provides.state.bind fun s hs ↦ ?_
    have slot : ((s.var? t.name).getD .null).IsCanonical :=
      isCanonical_getD (fun _ found ↦ hs.var? found) (isCanonical_of_flat nofun)
    dsimp only
    split
    · exact .pure trivial
    · refine (f.provides_eval e).bind fun v hv ↦ Provides.modify fun s' hs' ↦ hs'.setVariable _ ?_
      refine slot.setPath (keys path rfl) (isCanonical_assigned (fun _ found ↦ ?_) hv ?_)
      · exact slot.lookupPath found
      · exact f.isCanonical_unknown _

/-- Unsetting a target leaves the scope in canonical form. -/
theorem provides_unset (t : Target) : Provides (fun _ ↦ True) (f.unset t) := by
  unfold unset
  split
  · exact .modify fun s hs ↦ hs.unsetVariable _
  · refine (f.provides_closedKeys t.indices).bind fun path _ ↦ ?_
    cases path with
    | none => exact .pure trivial
    | some path =>
      refine Provides.state.bind fun s hs ↦ ?_
      cases found : s.var? t.name with
      | none => exact .pure trivial
      | some slot => exact .modify fun s' hs' ↦ hs'.setVariable _ (hs.var? found).removePath

theorem provides_unsets (ts : List Target) : Provides (fun _ ↦ True) (ts.forM f.unset) := by
  induction ts with
  | nil => exact .pure trivial
  | cons t ts ih => exact (f.provides_unset t).bind fun _ _ ↦ ih

/-- Declared constants leave the scope in canonical form. -/
theorem provides_declare (is : List ConstItem) : Provides (fun _ ↦ True) (f.declare is) := by
  induction is with
  | nil => exact .pure trivial
  | cons i is ih =>
    exact (f.provides_eval i.value).bind fun v hv ↦ (Provides.define _ hv).bind fun _ _ ↦ ih

variable {f}

/-- Evaluating an expression leaves the scope in canonical form. -/
theorem isCanonical_value {e : Expr} {s s' : Scope} {v : Value} {ds : Bindings} (hs : s.IsCanonical)
    (asked : (f.recordedEval e).outcome s = (v, ds, s')) : s'.IsCanonical := by
  have run := ((f.recordedEval_of e).run_eq asked).1
  have kept := (f.provides_eval e s hs).2
  rwa [run] at kept

/-- A statement that only changes the scope leaves it in canonical form. -/
theorem isCanonical_effect {st : Stmt} {x : Recorded Unit} {s s' : Scope} {ds : Bindings}
    (hs : s.IsCanonical) (plain : f.effect? st = some x) (done : x.outcome s = ((), ds, s')) :
    s'.IsCanonical := by
  have behind {y : StateM Scope Unit} (of : x.Of y) (keeps : Provides (fun _ ↦ True) y) :
      s'.IsCanonical := by
    have kept := (keeps s hs).2
    rwa [(of.run_eq done).1] at kept
  cases st with
  | expr sp e =>
    obtain rfl := Option.some.inj plain
    exact behind ((f.recordedEval_of e).bind fun _ ↦ .pure _)
      ((f.provides_eval e).bind fun _ _ ↦ .pure trivial)
  | assign sp op t e =>
    obtain rfl := Option.some.inj plain
    exact behind (f.recordedAssign_of op t e) (f.provides_assign op t e)
  | const sp is =>
    obtain rfl := Option.some.inj plain
    exact behind (f.recordedDeclare_of is) (f.provides_declare is)
  | unset sp ts =>
    obtain rfl := Option.some.inj plain
    exact behind (f.recordedUnsets_of ts) (f.provides_unsets ts)
  | global | inlineHtml | opaqueStmt =>
    obtain rfl := Option.some.inj plain
    exact behind (.pure _) (.pure trivial)
  | load | conditional | block | ret | exit => cases plain

end Frame

/-! ### Executions -/

/-- An execution keeps values in canonical form, however it ends. -/
theorem Executes.isCanonical {task : Task} {t t' : Turn} {log : List Event} {r : Ending}
    (h : Executes task t log r t') (start : t.scope.IsCanonical) : t'.scope.IsCanonical := by
  induction h with
  | unreadable | done | leave | stop => exact start
  | file _ _ ih | ended _ _ ih | block _ ih | conditional _ ih | otherwise _ ih => exact ih start
  | next _ _ first more => exact more (first start)
  | effect plain done => exact Frame.isCanonical_effect start plain done
  | unknown asked _ | skipped asked _ | refused asked _ => exact Frame.isCanonical_value start asked
  | holds asked _ _ _ ih | fails asked _ _ _ ih => exact ih (Frame.isCanonical_value start asked)
  | entered asked _ _ ih => exact ih ((Frame.isCanonical_value start asked).markLoaded _)

/-- Running a source text keeps values in canonical form, whether it fails or not. -/
theorem Scope.IsCanonical.executeSource {scope : Scope} (h : scope.IsCanonical) (env : Environment)
    (source : List Char) (file : Path) : (scope.executeSource env source file).2.IsCanonical := by
  obtain ⟨log, r, t, run⟩ := ends_file 0 ⟨env, source, file⟩ ⟨scope, 0⟩ rfl
  rw [run.executeSource]
  exact run.isCanonical h

/-- Behind the run of a script, any two values that are held are loosely equal from both sides or from none:
the keys of their arrays are distinct. -/
theorem Scope.IsCanonical.looselyEqual_comm {scope : Scope} (h : scope.IsCanonical) (env : Environment)
    (source : List Char) (file : Path) {x y : String × Value} :
    let after := (scope.executeSource env source file).2
    x ∈ after.constants ++ after.vars → y ∈ after.constants ++ after.vars →
      looselyEqual x.2 y.2 = looselyEqual y.2 x.2 := by
  intro after hx hy
  have behind := h.executeSource env source file
  have canonical : ∀ z ∈ after.constants ++ after.vars, z.2.IsCanonical := fun z hz ↦
    (List.mem_append.1 hz).elim (behind.constants z) (behind.vars z)
  exact Value.looselyEqual_comm (canonical x hx).hasDistinctKeys (canonical y hy).hasDistinctKeys

/-- If all arrays that a scope holds, at any depth, have distinct keys in canonical form, then so do all
that it holds behind the run of a script: a key is an integer, or a text that is no integer in decimal
notation. So the texts of the keys are distinct, too, and as a mapping the array keeps all elements, also
when it is read back. -/
theorem arrays_stay_canonical {scope : Scope}
    (start : ∀ x ∈ scope.constants ++ scope.vars, ∀ items,
      Value.Within (.array items) x.2 → HasCanonicalKeys items)
    (env : Environment) (source : List Char) (file : Path) :
    let after := (scope.executeSource env source file).2
    ∀ x ∈ after.constants ++ after.vars, ∀ items, Value.Within (.array items) x.2 →
      (Assoc.keys items).Nodup ∧
        (∀ k ∈ Assoc.keys items,
          (∃ i, k = .int i) ∨ ∃ text, k = .text text ∧ ∀ i, text ≠ Integer.render i) ∧
        ((Assoc.keys items).map Key.toText).Nodup ∧
        (isList items = false →
          (Value.array items).toData = .mapping (items.map fun y ↦ (y.1.toText, y.2.toData)) ∧
            Format.Json.readBack (Value.array items).toData =
              .mapping (items.map fun y ↦ (y.1.toText, Format.Json.readBack y.2.toData))) := by
  intro after x hx items inside
  have before : scope.IsCanonical :=
    ⟨fun y hy ↦ start y (List.mem_append_left _ hy), fun y hy ↦ start y (List.mem_append_right _ hy)⟩
  have behind := before.executeSource env source file
  have canonical : x.2.IsCanonical :=
    (List.mem_append.1 hx).elim (behind.constants x) (behind.vars x)
  have keys := canonical items inside
  refine ⟨keys.distinct, fun k hk ↦ ?_, keys.nodup_texts, fun mapping ↦
    ⟨?_, Format.Json.readBack_array keys.nodup_texts mapping⟩⟩
  · have key := keys.canonical k hk
    cases k with
    | int i => exact .inl ⟨i, rfl⟩
    | text s => exact .inr ⟨s, rfl, key⟩
    | other v => exact key.elim
  · rw [Value.toData, mapping, if_neg Bool.false_ne_true, dataEntries_eq_map]

/-- Texts of integers become integers, other texts with the value of one stay texts. -/
theorem arrays_stay_canonical_mixed :
    let source := "<?php $a = ['x' => 1, '5' => ['08' => 2, '8' => 3]]; $a[] = 4;".toList
    ∃ items, (Scope.withBuiltins.executeSource .bare source ⟨['/', 'a']⟩).2.var? "a" = some (.array items) ∧
      Assoc.keys items = [.text "x", .int 5, .int 6] ∧ ((Assoc.keys items).map Key.toText).Nodup := by
  intro source
  have value : (Scope.withBuiltins.executeSource .bare source ⟨['/', 'a']⟩).2.var? "a" =
      some (.array [(.text "x", .int 1), (.int 5, .array [(.text "08", .int 2), (.int 8, .int 3)]),
        (.int 6, .int 4)]) := by decide +kernel
  have flat : ∀ x ∈ Scope.withBuiltins.constants ++ Scope.withBuiltins.vars, ∀ items,
      Value.Within (.array items) x.2 → HasCanonicalKeys items := by
    intro x hx
    have plain : x.2.IsFlat := by
      simp only [Scope.withBuiltins, Scope.builtins, Scope.empty, List.append_nil, List.mem_cons,
        List.not_mem_nil, or_false] at hx
      rcases hx with rfl | rfl | rfl | rfl <;> rintro items ⟨⟩
    exact isCanonical_of_flat plain
  have stays := arrays_stay_canonical flat .bare source ⟨['/', 'a']⟩
  have here := List.mem_append_right
    (Scope.executeSource .withBuiltins .bare source ⟨['/', 'a']⟩).2.constants (Assoc.mem_of_lookup value)
  exact ⟨_, value, rfl, (stays _ here _ .self).2.2.1⟩

end ConfigScript
