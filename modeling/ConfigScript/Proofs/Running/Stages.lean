import ConfigScript.Proofs.Running.Until

/-!
# Stages of an evaluation

An expression is evaluated part by part. In front of a definition two evaluations do the same, behind
it each of them only keeps what holds; so if one part gets to define something, the whole expression
does (`Attaining`). This holds of everything but `isset` and `empty`, which may evaluate their
arguments twice.
-/

namespace ConfigScript

open Script

namespace Invariant

variable {α β : Type} {I old new : Invariant} {x y : StateM Scope α} {f g : α → StateM Scope β}

/-- A computation keeps the invariant. -/
def Kept (I : Invariant) (x : StateM Scope α) : Prop := ∀ s, I.holds s → I.holds (x.run s).2

/-- What holds in front of the first computation holds behind it, or else something holds behind the
second one. -/
def Attains (old new : Invariant) (x y : StateM Scope α) : Prop :=
  ∀ s, old.holds s → new.holds (y.run s).2 ∨ old.holds (x.run s).2

theorem Kept.pure (a : α) : I.Kept (pure a) := fun _ hs ↦ hs

theorem Kept.bind (h : I.Kept x) (more : ∀ a, I.Kept (f a)) : I.Kept (x >>= f) :=
  fun s hs ↦ more _ _ (h s hs)

/-- Either way keeps the invariant. -/
theorem Kept.ite {c : Bool} {x y : StateM Scope α} (hx : I.Kept x) (hy : I.Kept y) :
    I.Kept (if c then x else y) := by
  split
  · exact hx
  · exact hy

theorem Pure.kept (h : I.Pure x y) : I.Kept x := fun s hs ↦ by
  rcases h.alike s s ⟨rfl, hs⟩ with settled | ⟨-, -, holds⟩
  · exact settled.elim
  · exact holds

theorem Kept.attains (h : old.Kept x) : Attains old new x y := fun s hs ↦ .inr (h s hs)

theorem Attains.bind (h : Attains old new x y) (first : ∀ a, old.Kept (f a))
    (second : ∀ a, new.Kept (g a)) : Attains old new (x >>= f) (y >>= g) := fun s hs ↦
  (h s hs).imp (second _ _) (first _ _)

/-- Two evaluations that do the same attain the definition if what follows them does. -/
theorem Pure.attains (h : old.Pure x y) (more : ∀ a, Attains old new (f a) (g a)) :
    Attains old new (x >>= f) (y >>= g) := fun s hs ↦ by
  rcases h.alike s s ⟨rfl, hs⟩ with settled | ⟨same, state, holds⟩
  · exact settled.elim
  · show new.holds (StateT.run (g (StateT.run y s).1) (StateT.run y s).2).2 ∨
      old.holds (StateT.run (f (StateT.run x s).1) (StateT.run x s).2).2
    rw [← same, ← state]
    exact more _ _ holds

/-! ### Parts -/

/-- Of several pairs of meanings, one pair gets to define something. The pairs in front of it do the
same, and those behind it only keep what holds. -/
inductive Attaining (old new : Invariant) : List (Meaning × Meaning) → Prop
  | here {m m' : Meaning} {ms : List (Meaning × Meaning)} (attains : Attains old new m.value m'.value)
      (behind : ∀ p ∈ ms, old.Kept p.1.value ∧ new.Kept p.2.value) : Attaining old new ((m, m') :: ms)
  | before {m m' : Meaning} {ms : List (Meaning × Meaning)} (same : old.Pure m.value m'.value)
      (more : Attaining old new ms) : Attaining old new ((m, m') :: ms)

section Kept

variable {m t e : Meaning} {u : Value} {ι : Type} {es : List ι} {h : ι → Meaning}

/-- An operator keeps the invariant if its right operand does, whether it looks at that or not. -/
theorem Kept.shortcut (operand : I.Kept e.value) (op : BinaryOp) (left : Value) :
    I.Kept (match Meaning.shortcut? op left with
      | some v => return v
      | none => do
        let right ← e.value
        return if right.isOpaque then u else (Value.binary? op left right).getD u) := by
  split
  · exact .pure _
  · exact operand.bind fun _ ↦ .pure _

/-- The values of arguments keep the invariant if each of them does. -/
theorem Kept.values (all : ∀ e ∈ es, I.Kept (h e).value) : I.Kept (Meaning.values (es.map h)) := by
  induction es with
  | nil => exact .pure _
  | cons e es ih =>
    exact (all e List.mem_cons_self).bind fun _ ↦
      (ih fun e he ↦ all e (List.mem_cons_of_mem _ he)).bind fun _ ↦ .pure _

/-- An element and those behind it keep the invariant if they do. -/
theorem Kept.keyed {rest : List (Option Meaning × Meaning)} (value : I.Kept m.value)
    (more : ∀ done, I.Kept (Meaning.elements done rest)) (done : List (Key × Value))
    (key? : Option Key) : I.Kept (Meaning.keyed done m rest key?) := by
  cases key? with
  | none => exact .pure _
  | some k => exact value.bind fun _ ↦ .ite (.pure _) (more _)

/-- What elements are made of keeps the invariant, and so do they. -/
theorem Kept.elements {is : List Item} {f : Frame}
    (all : ∀ p ∈ is.flatMap Item.parts, I.Kept (f.meaning p).value) (done : List (Key × Value)) :
    I.Kept (Meaning.elements done (is.map f.itemMeaning)) := by
  induction is generalizing done with
  | nil => exact .pure _
  | cons i is ih =>
    have more := ih fun p hp ↦ all p (List.mem_append_right _ hp)
    cases i with
    | value e =>
      have value := all e (by simp [Item.parts])
      exact value.keyed more done (some (.int (Value.nextIndex done)))
    | keyed a e =>
      have value := all e (by simp [Item.parts])
      exact (all a (by simp [Item.parts])).bind fun v ↦ value.keyed more done v.key?

end Kept

namespace Attaining

variable {m m' b b' c c' t t' e e' : Meaning} {u u' : Value} {ι : Type}

theorem single (h : Attaining old new [(m, m')]) : Attains old new m.value m'.value := by
  cases h with
  | here attains => exact attains
  | before _ more => cases more

/-- An element of an array attains the definition if the array and the index do. -/
theorem index (h : Attaining old new [(b, b'), (m, m')]) :
    Attains old new (Meaning.index u b m).value (Meaning.index u' b' m').value := by
  cases h with
  | here attains behind =>
    have last := behind _ List.mem_cons_self
    exact attains.bind (fun _ ↦ last.1.bind fun _ ↦ .pure _) fun _ ↦ last.2.bind fun _ ↦ .pure _
  | before same more => exact same.attains fun _ ↦ more.single.bind (fun _ ↦ .pure _) fun _ ↦ .pure _

theorem apply (h : Attaining old new [(m, m')]) (g : Value → Option Value) :
    Attains old new (Meaning.apply u g m) (Meaning.apply u' g m') :=
  h.single.bind (fun _ ↦ .pure _) fun _ ↦ .pure _

/-- An operator attains the definition if its operands do. The right one may not be evaluated; then the
first evaluation keeps away from a definition in it. -/
theorem binary (h : Attaining old new [(m, m'), (e, e')]) (op : BinaryOp) :
    Attains old new (Meaning.binary u op m e) (Meaning.binary u' op m' e') := by
  cases h with
  | here attains behind =>
    have last := behind _ List.mem_cons_self
    exact attains.bind (fun _ ↦ .ite (.pure _) (last.1.shortcut op _)) fun _ ↦
      .ite (.pure _) (last.2.shortcut op _)
  | before same more =>
    refine same.attains fun left ↦ ?_
    split
    · exact (Kept.pure _).attains
    split
    · exact (Kept.pure _).attains
    · exact more.single.bind (fun _ ↦ .pure _) fun _ ↦ .pure _

/-- A conditional attains the definition if its parts do, whichever of them is evaluated. -/
theorem ternary (h : Attaining old new [(c, c'), (t, t'), (e, e')]) :
    Attains old new (Meaning.conditional u c (some t) e) (Meaning.conditional u' c' (some t') e') := by
  cases h with
  | here attains behind =>
    have chosen := behind _ List.mem_cons_self
    have other := behind _ (List.mem_cons_of_mem _ List.mem_cons_self)
    exact attains.bind
      (fun _ ↦ .ite (.pure _) (.ite (chosen.1.bind fun _ ↦ .pure _) (other.1.bind fun _ ↦ .pure _)))
      fun _ ↦ .ite (.pure _) (.ite (chosen.2.bind fun _ ↦ .pure _) (other.2.bind fun _ ↦ .pure _))
  | before same more =>
    refine same.attains fun v ↦ ?_
    split
    · exact (Kept.pure _).attains
    have finish : ∀ {x y : StateM Scope Value}, Attains old new x y → Attains old new
        (do let v ← x; return if v.isOpaque then u else v)
        (do let v ← y; return if v.isOpaque then u' else v) := fun h ↦
      h.bind (fun _ ↦ .pure _) fun _ ↦ .pure _
    dsimp only
    cases more with
    | here attains behind =>
      split
      · exact finish attains
      · exact finish (behind _ List.mem_cons_self).1.attains
    | before same more =>
      split
      · exact finish same.kept.attains
      · exact finish more.single

/-- A conditional without a first value attains the definition if its parts do. -/
theorem elvis (h : Attaining old new [(c, c'), (e, e')]) :
    Attains old new (Meaning.conditional u c none e) (Meaning.conditional u' c' none e') := by
  cases h with
  | here attains behind =>
    have other := behind _ List.mem_cons_self
    exact attains.bind
      (fun _ ↦ .ite (.pure _) (.ite (.pure _) (other.1.bind fun _ ↦ .pure _)))
      fun _ ↦ .ite (.pure _) (.ite (.pure _) (other.2.bind fun _ ↦ .pure _))
  | before same more =>
    refine same.attains fun v ↦ ?_
    split
    · exact (Kept.pure _).attains
    dsimp only
    split
    · exact (Kept.pure _).attains
    · exact more.single.bind (fun _ ↦ .pure _) fun _ ↦ .pure _

theorem behind_map {es : List ι} {g g' : ι → Meaning}
    (h : ∀ p ∈ es.map fun e ↦ (g e, g' e), old.Kept p.1.value ∧ new.Kept p.2.value) :
    (∀ e ∈ es, old.Kept (g e).value) ∧ ∀ e ∈ es, new.Kept (g' e).value :=
  ⟨fun _ he ↦ (h _ (List.mem_map_of_mem he)).1, fun _ he ↦ (h _ (List.mem_map_of_mem he)).2⟩

/-- The values of several expressions. -/
theorem values {es : List ι} {g g' : ι → Meaning}
    (h : Attaining old new (es.map fun e ↦ (g e, g' e))) :
    Attains old new (Meaning.values (es.map g)) (Meaning.values (es.map g')) := by
  induction es with
  | nil => cases h
  | cons e es ih =>
    cases h with
    | here attains behind =>
      obtain ⟨first, second⟩ := behind_map behind
      exact attains.bind (fun _ ↦ (Kept.values first).bind fun _ ↦ .pure _) fun _ ↦
        (Kept.values second).bind fun _ ↦ .pure _
    | before same more =>
      exact same.attains fun _ ↦ (ih more).bind (fun _ ↦ .pure _) fun _ ↦ .pure _

/-- An element behind its key, and the elements behind it. -/
theorem keyed {rest rest' : List (Option Meaning × Meaning)} {ms : List (Meaning × Meaning)}
    (h : Attaining old new ((m, m') :: ms))
    (first : (∀ p ∈ ms, old.Kept p.1.value ∧ new.Kept p.2.value) →
      (∀ done, old.Kept (Meaning.elements done rest)) ∧ ∀ done, new.Kept (Meaning.elements done rest'))
    (more : Attaining old new ms → ∀ done, Attains old new (Meaning.elements done rest)
      (Meaning.elements done rest')) (done : List (Key × Value)) (key? : Option Key) :
    Attains old new (Meaning.keyed done m rest key?) (Meaning.keyed done m' rest' key?) := by
  cases key? with
  | none => exact (Kept.pure _).attains
  | some k =>
    cases h with
    | here attains behind =>
      obtain ⟨kept, kept'⟩ := first behind
      exact attains.bind (fun _ ↦ .ite (.pure _) (kept _)) fun _ ↦ .ite (.pure _) (kept' _)
    | before same others =>
      refine same.attains fun v ↦ ?_
      split
      · exact (Kept.pure _).attains
      · exact more others _

/-- The elements of an array literal. -/
theorem elements {is : List Item} {f f' : Frame} {k : Patch}
    (h : Attaining old new ((is.flatMap Item.parts).map fun p ↦ (f.meaning p, f'.meaning (k.expr p))))
    (done : List (Key × Value)) :
    Attains old new (Meaning.elements done (is.map f.itemMeaning))
      (Meaning.elements done ((is.map k.item).map f'.itemMeaning)) := by
  induction is generalizing done with
  | nil => cases h
  | cons i is ih =>
    let ms := (is.flatMap Item.parts).map fun p ↦ (f.meaning p, f'.meaning (k.expr p))
    have kept : (∀ p ∈ ms, old.Kept p.1.value ∧ new.Kept p.2.value) →
        (∀ done, old.Kept (Meaning.elements done (is.map f.itemMeaning))) ∧
          ∀ done, new.Kept (Meaning.elements done ((is.map k.item).map f'.itemMeaning)) := by
      intro behind
      obtain ⟨first, second⟩ := behind_map behind
      refine ⟨.elements first, .elements fun p hp ↦ ?_⟩
      rw [← Patch.items_eq_map, Patch.parts_items] at hp
      obtain ⟨q, hq, rfl⟩ := List.mem_map.1 hp
      exact second q hq
    cases i with
    | value e => exact keyed h kept ih done (some (.int (Value.nextIndex done)))
    | keyed a e =>
      cases h with
      | here attains behind =>
        have value := behind _ List.mem_cons_self
        obtain ⟨first, second⟩ := kept fun p hp ↦ behind p (List.mem_cons_of_mem _ hp)
        exact attains.bind (fun v ↦ value.1.keyed first done v.key?) fun v ↦
          value.2.keyed second done v.key?
      | before same more => exact same.attains fun v ↦ keyed more kept ih done v.key?

/-! ### Calls -/

/-- A call of a function that needs the values of all its arguments. -/
theorem callBuiltin {es : List ι} {g g' : ι → Meaning}
    (h : Attaining old new (es.map fun e ↦ (g e, g' e))) (env env' : Environment) (name : String) :
    Attains old new (Meaning.callBuiltin env name (es.map g))
      (Meaning.callBuiltin env' name (es.map g')) := by
  have look : ∀ {I : Invariant} (env : Environment) (vs : List Value),
      I.Kept (do return Builtin.call env (← get) name vs) := fun _ _ _ hs ↦ hs
  exact h.values.bind (fun vs ↦ .ite (.pure _) (look env vs)) fun vs ↦
    .ite (.pure _) (look env' vs)

/-- A definition whose name is a text, and in whose value something is defined. -/
theorem define {n : String} {ms ms' : List Meaning} (name : m.value = pure (.string n))
    (name' : m'.value = pure (.string n)) (value : Attains old new e.value e'.value)
    (first : old.constants n) (second : new.constants n) :
    Attains old new (Meaning.define (m :: e :: ms)) (Meaning.define (m' :: e' :: ms')) := by
  simp only [Meaning.define, name, name', pure_bind]
  exact value.bind (fun v s hs ↦ old.define n v s first hs) fun v s hs ↦ new.define n v s second hs

/-- Whatever stands behind the value of a definition is not evaluated. -/
theorem define_kept {n : String} {ms : List Meaning} (name : m.value = pure (.string n))
    (value : I.Kept e.value) (constants : I.constants n) : I.Kept (Meaning.define (m :: e :: ms)) := by
  simp only [Meaning.define, name, pure_bind]
  exact value.bind fun v s hs ↦ I.define n v s constants hs

/-! ### Expressions -/

variable {fr fr' : Frame} {k : Patch}

/-- If a part of an expression gets to define something, then so does the expression. -/
theorem eval {x : Expr} (kept : k.hole ≠ some x.span)
    (h : Attaining old new (x.parts.map fun p ↦ (fr.meaning p, fr'.meaning (k.expr p))))
    (calls : ∀ s n es, x = .call s n es →
      Attains old new (Meaning.call fr.environment (String.ofList (lower n.toList)) (es.map fr.meaning))
        (Meaning.call fr'.environment (String.ofList (lower n.toList))
          ((es.map k.expr).map fr'.meaning))) :
    Attains old new (fr.eval x) (fr'.eval (k.expr x)) := by
  cases x with
  | null | bool | int | float | str | const | magic | var | opaqueExpr => cases h
  | array s is =>
    rw [Patch.expr, Patch.put_of_ne (by exact kept)]
    have inside := h.elements []
    rw [← Patch.items_eq_map, ← Frame.itemMeanings_eq_map, ← Frame.itemMeanings_eq_map] at inside
    exact inside.bind (fun _ ↦ .pure _) fun _ ↦ .pure _
  | index s b i =>
    rw [Patch.expr, Patch.put_of_ne (by exact kept)]
    exact h.index
  | call s n es =>
    rw [Patch.expr, Patch.put_of_ne (by exact kept)]
    have inside := calls s n es rfl
    rw [← Patch.exprs_eq_map, ← Frame.meanings_eq_map, ← Frame.meanings_eq_map] at inside
    exact inside.bind (fun _ ↦ .pure _) fun _ ↦ .pure _
  | cast s c e =>
    rw [Patch.expr, Patch.put_of_ne (by exact kept)]
    exact h.apply _
  | unary s op e =>
    rw [Patch.expr, Patch.put_of_ne (by exact kept)]
    exact h.apply _
  | binary s op l r =>
    rw [Patch.expr, Patch.put_of_ne (by exact kept)]
    exact h.binary op
  | ternary s c t e =>
    rw [Patch.expr, Patch.put_of_ne (by exact kept)]
    exact h.ternary
  | elvis s c e =>
    rw [Patch.expr, Patch.put_of_ne (by exact kept)]
    exact h.elvis

/-- One part of several, with those in front of it and those behind. -/
theorem of_parts {as bs : List Expr} {p : Expr}
    (before : ∀ a ∈ as, old.Pure (fr.eval a) (fr'.eval (k.expr a)))
    (here : Attains old new (fr.eval p) (fr'.eval (k.expr p)))
    (behind : ∀ b ∈ bs, old.Kept (fr.eval b) ∧ new.Kept (fr'.eval (k.expr b))) :
    Attaining old new ((as ++ p :: bs).map fun q ↦ (fr.meaning q, fr'.meaning (k.expr q))) := by
  induction as with
  | nil =>
    refine .here here fun q hq ↦ ?_
    obtain ⟨b, mem, rfl⟩ := List.mem_map.1 hq
    exact behind b mem
  | cons a as ih =>
    exact .before (before a List.mem_cons_self) (ih fun a ha ↦ before a (List.mem_cons_of_mem _ ha))

end Attaining

end Invariant

end ConfigScript
