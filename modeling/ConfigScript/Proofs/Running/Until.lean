import ConfigScript.Proofs.Running.Invariant

/-!
# Up to a definition

An expression holds the definition of a constant, and its value is replaced. Until the definition is
evaluated, the two expressions do the same: their values are the same or unknown, and so are the
constants. Then the constant has the new value and keeps it (`Frame.until_alike`).

Before that the two may differ in what is unknown, for its text may contain the value. No evaluation looks at that.
-/

namespace ConfigScript

open Script

/-! ### The expression around another one -/

namespace Expr

/-- No two expressions inside one have the same span. -/
def Distinct (e : Expr) : Prop := e.nodes.Pairwise fun m n ↦ m.span ≠ n.span

variable {e m n p q : Expr}

/-- What is inside a part of an inner expression is inside a part of the whole. -/
theorem mem_inside (hn : n ∈ e.nodes) (hp : p ∈ n.parts) : p ∈ e.parts.flatMap nodes := by
  rw [nodes_eq_parts] at hn
  rcases List.mem_cons.1 hn with rfl | hn
  · exact List.mem_flatMap.2 ⟨p, hp, p.mem_nodes⟩
  · obtain ⟨l, part, inside⟩ := List.mem_flatMap.1 hn
    refine List.mem_flatMap.2 ⟨l, part, nodes_trans ?_ inside⟩
    rw [nodes_eq_parts]
    exact List.mem_cons_of_mem _ (List.mem_flatMap.2 ⟨p, hp, p.mem_nodes⟩)

namespace Distinct

theorem span_ne (h : e.Distinct) (hn : n ∈ e.nodes) (hp : p ∈ n.parts) : e.span ≠ p.span := by
  unfold Distinct at h
  rw [nodes_eq_parts, List.pairwise_cons] at h
  exact h.1 p (mem_inside hn hp)

theorem parts (h : e.Distinct) (hp : p ∈ e.parts) : p.Distinct := by
  unfold Distinct at h
  rw [nodes_eq_parts, List.pairwise_cons, List.pairwise_flatMap] at h
  exact h.2.1 p hp

/-- An expression inside others has distinct spans if the whole has. -/
theorem inside (h : e.Distinct) (hn : n ∈ e.nodes) : n.Distinct := by
  induction e using induction_parts with
  | step e ih =>
    rw [nodes_eq_parts] at hn
    rcases List.mem_cons.1 hn with rfl | hn
    · exact h
    · obtain ⟨l, part, hn⟩ := List.mem_flatMap.1 hn
      exact ih l part (h.parts part) hn

/-- Of two elements of which neither is before the other, both are one. -/
theorem eq_of_pairwise {α : Type} {R : α → α → Prop} {as : List α} (h : as.Pairwise R) {a b : α}
    (ha : a ∈ as) (hb : b ∈ as) (no : ¬R a b) (no' : ¬R b a) : a = b := by
  induction as with
  | nil => cases ha
  | cons c as ih =>
    rw [List.pairwise_cons] at h
    rcases List.mem_cons.1 ha with rfl | ha' <;> rcases List.mem_cons.1 hb with rfl | hb'
    · rfl
    · exact absurd (h.1 b hb') no
    · exact absurd (h.1 a ha') no'
    · exact ih h.2 ha' hb'

/-- Expressions inside two parts have spans of their own. -/
theorem part_unique (h : e.Distinct) (hp : p ∈ e.parts) (hq : q ∈ e.parts) (hm : m ∈ p.nodes)
    (hn : n ∈ q.nodes) (same : m.span = n.span) : p = q := by
  unfold Distinct at h
  rw [nodes_eq_parts, List.pairwise_cons, List.pairwise_flatMap] at h
  exact eq_of_pairwise h.2.2 hp hq (fun apart ↦ apart m hm n hn same)
    fun apart ↦ apart n hn m hm same.symm

/-- An expression is a part of one other only. -/
theorem parent_unique (h : e.Distinct) (hm : m ∈ e.nodes) (hn : n ∈ e.nodes) (hp : p ∈ m.parts)
    (hq : q ∈ n.parts) (same : p.span = q.span) : m = n := by
  have below : ∀ {l k : Expr}, k ∈ l.nodes → ∀ {x}, x ∈ k.parts → x ∈ l.nodes := fun hk _ hx ↦ by
    rw [nodes_eq_parts]
    exact List.mem_cons_of_mem _ (mem_inside hk hx)
  induction e using induction_parts with
  | step e ih =>
    -- One of the two around the other one has a part that holds both the part and itself.
    have apart : ∀ {l x y : Expr}, x ∈ e.parts → l ∈ e.parts.flatMap nodes → y ∈ l.parts →
        x.span ≠ y.span := by
      intro l x y hx hl hy same
      obtain ⟨z, hz, hl⟩ := List.mem_flatMap.1 hl
      obtain rfl := h.part_unique hx hz x.mem_nodes (below hl hy) same
      exact (h.parts hx).span_ne hl hy same
    rw [nodes_eq_parts] at hm hn
    rcases List.mem_cons.1 hm with rfl | hm <;> rcases List.mem_cons.1 hn with rfl | hn
    · rfl
    · exact absurd same (apart hp hn hq)
    · exact absurd same.symm (apart hq hm hp)
    · obtain ⟨x, hx, hm⟩ := List.mem_flatMap.1 hm
      obtain ⟨y, hy, hn⟩ := List.mem_flatMap.1 hn
      obtain rfl := h.part_unique hx hy (below hm hp) (below hn hq) same
      exact ih x hx (h.parts hx) hm hn

end Distinct

end Expr

/-! ### Until a constant is defined -/

/-- Values that are the same, or unknown both. -/
def Value.Alike (v w : Value) : Prop := v = w ∨ v.isOpaque ∧ w.isOpaque

/-- Two scopes with alike constants, of which one is not defined; the second evaluation is settled when
that one has its value. -/
def Likeness.until (name : String) (x : Value) : Likeness where
  value := Value.Alike
  scope s s' := s.vars = s'.vars ∧
    (∀ n, Option.Rel Value.Alike (s.constant? n) (s'.constant? n)) ∧ s.constant? name = none
  settled s := s.constant? name = some x
  names n := n ≠ name
  refl _ := .inl rfl
  same_or_unknown _ _ h := h
  vars _ _ h := h.1
  constants _ _ h := h.2.1
  define n v w s s' ne alike h := by
    obtain ⟨vars, constants, absent⟩ := h
    refine ⟨by rw [Scope.vars_define, Scope.vars_define, vars], fun m ↦ ?_,
      by rw [Scope.constant?_define_of_ne (Ne.symm ne), absent]⟩
    by_cases same : m = n
    · subst same
      have here := constants m
      cases first : s.constant? m with
      | none =>
        cases second : s'.constant? m with
        | none =>
          rw [Scope.constant?_define_self first, Scope.constant?_define_self second]
          exact .some alike
        | some y =>
          rw [first, second] at here
          cases here
      | some y =>
        cases second : s'.constant? m with
        | none =>
          rw [first, second] at here
          cases here
        | some z =>
          rw [Scope.constant?_define_of_some first, Scope.constant?_define_of_some second, ← first,
            ← second]
          exact here
    · rw [Scope.constant?_define_of_ne same, Scope.constant?_define_of_ne same]
      exact constants m
  define_settled _ _ _ _ h := Scope.constant?_define_of_some h _ _

namespace Frame

variable {f f' : Frame} {k : Patch} {name : String} {x : Value}

/-- A definition is not its own value. -/
theorem ne_hole_of_defines {e d w : Expr} (distinct : e.Distinct) (hd : d ∈ e.nodes)
    (defines : Occurrence.definedValue? name d = some w) (hole : k.hole = some w.span) :
    k.hole ≠ some e.span := fun same ↦ by
  obtain ⟨sp, n, a, es, rfl, -⟩ := Occurrence.definedValue?_eq_some defines
  exact distinct.span_ne hd (List.mem_cons_of_mem _ List.mem_cons_self)
    (Option.some.inj (same.symm.trans hole))

/-- The definition itself, with its new value. -/
theorem run_definition {d w : Expr} (distinct : d.Distinct)
    (defines : Occurrence.definedValue? name d = some w) (hole : k.hole = some w.span)
    (new : ∀ f : Frame, (f.meaning k.new).value = pure x) (s : Scope) :
    ((f.eval (k.expr d)).run s).2 = (s.define name x).2 := by
  have whole := ne_hole_of_defines distinct d.mem_nodes defines hole
  obtain ⟨sp, n, a, es, rfl, text⟩ := Occurrence.definedValue?_eq_some defines
  have word : String.ofList (lower n.toList) = "define" := by
    unfold Occurrence.definedValue? at defines
    dsimp only at defines
    split at defines
    · rename_i defining
      simp only [Bool.and_eq_true, sameWord, beq_iff_eq] at defining
      rw [defining.1]
      decide
    · cases defines
  have named : k.hole ≠ some a.span := fun same ↦ by
    have flat := distinct
    unfold Expr.Distinct at flat
    rw [Expr.nodes_eq_parts, List.pairwise_cons, List.pairwise_flatMap] at flat
    have apart := (List.pairwise_cons.1 flat.2.2).1 w List.mem_cons_self a a.mem_nodes w w.mem_nodes
    exact apart (Option.some.inj (same.symm.trans hole))
  have literal : (k.expr a).literalText? = some name := by
    rw [Patch.literalText?_of_ne named, text]
  rw [Patch.expr, Patch.put_of_ne (by exact whole), Patch.exprs, Patch.exprs,
    Patch.expr_of_hole hole, eval_call,
    word]
  show ((Meaning.define (f.meanings (k.expr a :: k.new :: k.exprs es))).run s).2 = _
  simp only [Meaning.define, meanings, value_of_literalText? literal f, new f, pure_bind]
  rfl

/-- The definition itself: its new value is known. -/
theorem definition_alike {d w : Expr} (distinct : d.Distinct)
    (defines : Occurrence.definedValue? name d = some w) (hole : k.hole = some w.span)
    (new : ∀ f : Frame, (f.meaning k.new).value = pure x) :
    Meaning.Alike (.until name x) (f.meaning d) (f'.meaning (k.expr d)) := by
  have value := run_definition (f := f') distinct defines hole new
  have related : (Likeness.until name x).Related (Likeness.until name x).value (f.eval d)
      (f'.eval (k.expr d)) := by
    refine ⟨fun s settled ↦ ?_, fun s₁ s₂ near ↦ .inl ?_⟩
    · exact (congrArg (·.constant? name = some x) (value s)).mpr
        (Scope.constant?_define_of_some settled name x)
    · have absent : s₂.constant? name = none := by
        obtain ⟨-, constants, absent⟩ := near
        have here := constants name
        rw [absent] at here
        generalize s₂.constant? name = y at here ⊢
        cases here
        rfl
      exact (congrArg (·.constant? name = some x) (value s₂)).mpr
        (Scope.constant?_define_self absent x)
  have called : ∀ (f : Frame) sp n es, f.meaning (.call sp n es) = .ofValue (f.eval (.call sp n es)) :=
    fun f sp n es ↦ by
      rw [eval, meaning]
      rfl
  have whole := ne_hole_of_defines distinct d.mem_nodes defines hole
  obtain ⟨sp, n, a, es, rfl, -⟩ := Occurrence.definedValue?_eq_some defines
  rw [Patch.expr, Patch.put_of_ne (by exact whole)] at related ⊢
  rw [called, called]
  exact .ofValue related

/-- Until the definition in an expression is evaluated with its new value, the patched expression does
the same. -/
theorem until_alike
    (same : ∀ s name vs, Builtin.call f.environment s name vs = Builtin.call f'.environment s name vs)
    {e d w : Expr} (distinct : e.Distinct) (hd : d ∈ e.nodes)
    (defines : Occurrence.definedValue? name d = some w) (hole : k.hole = some w.span)
    (new : ∀ f : Frame, (f.meaning k.new).value = pure x)
    (others : ∀ n ∈ e.nodes, n ≠ d → ∀ s m a v es, n = .call s m (a :: v :: es) →
      sameWord m.toList "define".toList → ∃ l, a.literalText? = some l ∧ l ≠ name)
    (lines : ∀ s, .magic s .line ∈ e.nodes → (k.move s).line = s.line)
    (file : f.file = f'.file) :
    Meaning.Alike (.until name x) (f.meaning e) (f'.meaning (k.expr e)) := by
  have kept := ne_hole_of_defines distinct hd defines hole
  obtain ⟨s, n, a, es, rfl, text⟩ := Occurrence.definedValue?_eq_some defines
  have part : w ∈ (Expr.call s n (a :: w :: es)).parts := List.mem_cons_of_mem _ List.mem_cons_self
  refine meaning_alike same (fun m hm ↦ ?_) kept
  by_cases there : m = .call s n (a :: w :: es)
  · subst there
    exact .inr (definition_alike (distinct.inside hm) defines hole new)
  refine .inl ⟨fun p hp here ↦ ?_, .inr ⟨rfl, rfl⟩, fun sp c is ↦ ?_, fun sp m' b v ws is word ↦ ?_⟩
  · exact there (distinct.parent_unique hm hd hp part (Option.some.inj (here.symm.trans hole)))
  · subst is
    refine .inl ?_
    cases c with
    | dir => rw [magic, magic, directory, directory, file]
    | file => rw [magic, magic, file]
    | line => rw [magic, magic, lines sp hm]
  · exact .inr (others m hm there sp m' b v ws is word)

end Frame

end ConfigScript
