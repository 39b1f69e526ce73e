import ConfigScript.Proofs.Running.Stages

/-!
# What runs keep

A run keeps an invariant if it holds behind the run, whether that fails or not (`Invariant.Keeps`). Of
two runs the first may go on without a definition that the second one gets to (`Invariant.Reaches`). An
expression whose definitions do not break an invariant keeps it (`Invariant.pure_still`).
-/

namespace ConfigScript

open Script

namespace Invariant

variable {α β : Type} {old new I : Invariant} {x y : Run α} {f g : α → Run β}

/-- A run keeps the invariant, whether it fails or not. -/
def Keeps (I : Invariant) (x : Run α) : Prop := ∀ s, I.holds s → I.holds (x.outcome s).2

theorem Same.keeps (h : I.Same x y) : I.Keeps x := fun s hs ↦ by
  obtain ⟨a, t, hx, -, ht⟩ := h s hs
  rw [hx]
  exact ht

theorem Keeps.pure (a : α) : I.Keeps (pure a) := fun _ hs ↦ hs

/-- What holds behind a run holds behind what follows, if that keeps it. -/
theorem Keeps.behind (more : ∀ a, I.Keeps (f a)) {s : Scope} (h : I.holds (x.outcome s).2) :
    I.holds ((x >>= f).outcome s).2 := by
  rw [Run.outcome_bind]
  generalize x.outcome s = r at h ⊢
  obtain ⟨e | a, t⟩ := r
  · exact h
  · exact more a t h

theorem Keeps.bind (h : I.Keeps x) (more : ∀ a, I.Keeps (f a)) : I.Keeps (x >>= f) :=
  fun s hs ↦ Keeps.behind more (h s hs)

theorem Same.keeps_lift {σ : Type} {a b : StateM Scope σ} (h : I.Pure a b) :
    I.Keeps (ExceptT.lift a) := (Same.lift h).keeps

/-- Branches keep what all their conditions and bodies keep, and what is run otherwise. -/
theorem keeps_choose {f : Frame} {runner : Option Runner} {otherwise : Run Flow}
    (other : I.Keeps otherwise) {bs : List Branch}
    (inside : ∀ c body, .mk c body ∈ bs → I.Keeps (f.value c) ∧ I.Keeps (f.execAll runner body)) :
    I.Keeps (f.choose runner otherwise bs) := by
  induction bs with
  | nil => exact other
  | cons b bs ih =>
    obtain ⟨c, body⟩ := b
    obtain ⟨condition, here⟩ := inside c body List.mem_cons_self
    refine condition.bind fun v ↦ ?_
    split
    · exact .pure _
    split
    · exact here
    · exact ih fun c body mem ↦ inside c body (List.mem_cons_of_mem _ mem)

/-- What holds in front of the first run holds behind it, or else something holds behind the second
run. -/
def Reaches (old new : Invariant) (x y : Run α) : Prop :=
  ∀ s, old.holds s → new.holds (y.outcome s).2 ∨ old.holds (x.outcome s).2

theorem Keeps.reaches (h : old.Keeps x) : Reaches old new x y := fun s hs ↦ .inr (h s hs)

theorem Reaches.bind (h : Reaches old new x y) (first : ∀ a, old.Keeps (f a))
    (second : ∀ a, new.Keeps (g a)) : Reaches old new (x >>= f) (y >>= g) := fun s hs ↦
  (h s hs).imp (Keeps.behind second) (Keeps.behind first)

/-- Two runs that do the same reach the definition if what follows them does. -/
theorem Same.reaches (h : old.Same x y) (more : ∀ a, Reaches old new (f a) (g a)) :
    Reaches old new (x >>= f) (y >>= g) := fun s hs ↦ by
  obtain ⟨a, t, hx, hy, ht⟩ := h s hs
  rw [Run.outcome_bind_ok hx, Run.outcome_bind_ok hy]
  exact more a t ht

/-- Both runs may be taken apart. -/
theorem lift_bind {σ : Type} (x : StateM Scope σ) (f : σ → StateM Scope α) :
    (ExceptT.lift (x >>= f) : Run α) = ExceptT.lift x >>= fun a ↦ ExceptT.lift (f a) := rfl

end Invariant

/-! ### Expressions -/

/-- A patch that changes nothing. -/
def Script.Patch.still : Patch := ⟨id, none, .null default, fun _ _ ↦ rfl⟩

namespace Invariant

variable {I : Invariant} {f f' : Frame} {k : Patch} {e : Expr}

/-- Whether the names of the constants that an expression defines may be defined. -/
def MayDefine (I : Invariant) (e : Expr) : Prop :=
  ∀ n ∈ e.nodes, ∀ s m a v es, n = .call s m (a :: v :: es) → sameWord m.toList "define".toList →
    (∀ n, I.constants n) ∨ ∃ n, a.literalText? = some n ∧ I.constants n

/-- Away from the hole, an expression and the patched one do the same. -/
theorem pure_of_away
    (same : ∀ s name vs, Builtin.call f.environment s name vs = Builtin.call f'.environment s name vs)
    (file : f.file = f'.file) (names : I.MayDefine e) (away : ∀ n ∈ e.nodes, k.hole ≠ some n.span)
    (unknown : ∀ n ∈ e.nodes, f.unknown n.span = f'.unknown (k.move n.span))
    (lines : ∀ n ∈ e.nodes, (k.move n.span).line = n.span.line) :
    I.Pure (f.eval e) (f'.eval (k.expr e)) := by
  have alike : Meaning.Alike I.likeness (f.meaning e) (f'.meaning (k.expr e)) := by
    refine Frame.meaning_alike same (fun n hn ↦ .inl ⟨fun p hp ↦ ?_, unknown n hn, fun s m is ↦ ?_,
      names n hn⟩) (away e e.mem_nodes)
    · refine away p (Expr.nodes_trans ?_ hn)
      rw [Expr.nodes_eq_parts]
      exact List.mem_cons_of_mem _ (List.mem_flatMap.2 ⟨p, hp, p.mem_nodes⟩)
    · subst is
      have line := lines _ hn
      show f.magic s m = f'.magic (k.move s) m
      cases m with
      | dir => rw [Frame.magic, Frame.magic, Frame.directory, Frame.directory, file]
      | file => rw [Frame.magic, Frame.magic, file]
      | line => rw [Frame.magic, Frame.magic, show (k.move s).line = s.line from line]
  exact alike.value

/-- An expression keeps an invariant that its definitions do not break. -/
theorem pure_still (names : I.MayDefine e) (f : Frame) :
    I.Pure (f.eval e) (f.eval (Patch.still.expr e)) :=
  pure_of_away (fun _ _ _ ↦ rfl) rfl names (fun _ _ ↦ nofun) (fun _ _ ↦ rfl) fun _ _ ↦ rfl

theorem mayDefine_of_all (all : ∀ n, I.constants n) (e : Expr) : I.MayDefine e :=
  fun _ _ _ _ _ _ _ _ _ ↦ .inl all

end Invariant

end ConfigScript
