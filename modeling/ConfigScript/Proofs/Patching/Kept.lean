import ConfigScript.Proofs.Patching.Exact

/-!
# Definitions besides the replaced value

A patch keeps every definition of a script whose value is not part of the replaced one
(`Occurrence.follows_inStmts`): what is found in the old tree is found in the new one, where it has moved
to and in the same order. Only the new value can bring others.
-/

namespace ConfigScript

open Script

/-! ### Expressions inside others -/

/-- The expressions of an element. -/
def Item.parts : Item → List Expr
  | .value e => [e]
  | .keyed a e => [a, e]

namespace Expr

/-- The expressions that an expression is made up of. -/
def parts : Expr → List Expr
  | .array _ is => is.flatMap Item.parts
  | .index _ b i => [b, i]
  | .call _ _ es => es
  | .cast _ _ e | .unary _ _ e => [e]
  | .binary _ _ a b => [a, b]
  | .ternary _ c t e => [c, t, e]
  | .elvis _ c e => [c, e]
  | _ => []

theorem listNodes_eq_flatMap (es : List Expr) : listNodes es = es.flatMap nodes := by
  induction es with
  | nil => rfl
  | cons e es ih => rw [listNodes, ih, List.flatMap_cons]

theorem itemNodes_eq_flatMap (is : List Item) :
    itemNodes is = (is.flatMap Item.parts).flatMap nodes := by
  induction is with
  | nil => rfl
  | cons i is ih => cases i <;> simp [itemNodes, Item.parts, ih]

/-- An expression, and those inside what it is made up of. -/
theorem nodes_eq_parts (e : Expr) : e.nodes = e :: e.parts.flatMap nodes := by
  cases e <;> simp [nodes, parts, listNodes_eq_flatMap, itemNodes_eq_flatMap]

/-- A part of an expression is smaller. -/
theorem sizeOf_lt_of_mem_parts {p e : Expr} (h : p ∈ e.parts) : sizeOf p < sizeOf e := by
  cases e with
  | array s is =>
    obtain ⟨i, mem, part⟩ := List.mem_flatMap.1 h
    have below := List.sizeOf_lt_of_mem mem
    have inside : sizeOf p < sizeOf i := by
      cases i with
      | value v =>
        obtain rfl : p = v := List.mem_singleton.1 part
        rw [Item.value.sizeOf_spec]
        omega
      | keyed k v =>
        simp only [Item.parts, List.mem_cons, List.not_mem_nil, or_false] at part
        rw [Item.keyed.sizeOf_spec]
        rcases part with rfl | rfl <;> omega
    simp only [array.sizeOf_spec]
    omega
  | call s f es =>
    have below : sizeOf p < sizeOf es := List.sizeOf_lt_of_mem h
    simp only [call.sizeOf_spec]
    omega
  | index | cast | unary | binary | ternary | elvis =>
    simp only [parts, List.mem_cons, List.not_mem_nil, or_false] at h
    simp only [index.sizeOf_spec, cast.sizeOf_spec, unary.sizeOf_spec, binary.sizeOf_spec,
      ternary.sizeOf_spec, elvis.sizeOf_spec]
    rcases h with rfl | rfl | rfl <;> omega
  | _ => cases h

/-- Induction on what an expression is made up of. -/
theorem induction_parts {P : Expr → Prop} (step : ∀ e, (∀ p ∈ e.parts, P p) → P e) (e : Expr) :
    P e :=
  step e fun p _ ↦ induction_parts step p
termination_by sizeOf e
decreasing_by exact sizeOf_lt_of_mem_parts ‹_›

/-- What is inside an inner expression is inside the outer one. -/
theorem nodes_trans {l m n : Expr} (inner : l ∈ n.nodes) (outer : n ∈ m.nodes) : l ∈ m.nodes := by
  induction m using induction_parts with
  | step m ih =>
    rw [nodes_eq_parts] at outer
    rcases List.mem_cons.1 outer with rfl | outer
    · exact inner
    · obtain ⟨p, part, mem⟩ := List.mem_flatMap.1 outer
      rw [nodes_eq_parts]
      exact List.mem_cons_of_mem _ (List.mem_flatMap.2 ⟨p, part, ih p part mem⟩)

theorem mem_nodes (e : Expr) : e ∈ e.nodes := by
  rw [nodes_eq_parts]
  exact List.mem_cons_self

/-- What is inside an expression is not larger. -/
theorem sizeOf_le_of_mem_nodes {n e : Expr} (h : n ∈ e.nodes) : sizeOf n ≤ sizeOf e := by
  induction e using induction_parts with
  | step e ih =>
    rw [nodes_eq_parts] at h
    rcases List.mem_cons.1 h with rfl | h
    · exact Nat.le_refl _
    · obtain ⟨p, part, mem⟩ := List.mem_flatMap.1 h
      have := ih p part mem
      have := sizeOf_lt_of_mem_parts part
      omega

end Expr

namespace Script.Patch

variable {k : Patch}

theorem put_of_ne {s : Span} (h : k.hole ≠ some s) (node : Span → Expr) :
    k.put s node = node (k.move s) := if_neg h

theorem parts_items (is : List Item) :
    (k.items is).flatMap Item.parts = (is.flatMap Item.parts).map k.expr := by
  induction is with
  | nil => rfl
  | cons i is ih => cases i <;> simp [Patch.items, Item.parts, ih]

/-- An expression that is not replaced is made up of the patched ones. -/
theorem parts_expr {e : Expr} (h : k.hole ≠ some e.span) : (k.expr e).parts = e.parts.map k.expr := by
  cases e <;> rw [expr, put_of_ne (by exact h)] <;>
    simp only [Expr.parts, exprs_eq_map, parts_items, List.map_cons, List.map_nil]

/-- An expression that is not replaced moves. -/
theorem span_of_ne {e : Expr} (h : k.hole ≠ some e.span) : (k.expr e).span = k.move e.span := by
  cases e <;> rw [expr] <;> exact congrArg Expr.span (put_of_ne h _)

/-- An expression that is not replaced is the same text, if it is one. -/
theorem literalText?_of_ne {e : Expr} (h : k.hole ≠ some e.span) :
    (k.expr e).literalText? = e.literalText? := by
  cases e with
  | str s ps =>
    rw [expr, put_of_ne (by exact h)]
    match ps with
    | [] | [.text _] | [.var _] | .text _ :: _ :: _ | .var _ :: _ :: _ => rfl
  | _ => rw [expr, put_of_ne (by exact h)]; rfl

/-- Where an expression stands in the patched tree. -/
theorem span_expr_eq (e : Expr) :
    (k.expr e).span = if k.hole = some e.span then k.new.span else k.move e.span := by
  split
  · rw [expr_of_hole ‹_›]
  · exact span_of_ne ‹_›

end Script.Patch

/-! ### Definitions -/

/-- A defining value is an expression of the script. -/
theorem Defining.mem {rs : List Root} {v : Expr} (h : Defining rs v) : v ∈ Root.nodes rs := by
  cases h with
  | assigned mem => exact List.mem_flatMap.2 ⟨_, mem, v.mem_nodes⟩
  | call mem inside =>
    refine List.mem_flatMap.2 ⟨_, mem, Expr.nodes_trans ?_ inside⟩
    rw [Expr.nodes_eq_parts]
    refine List.mem_cons_of_mem _ (List.mem_flatMap.2 ⟨v, ?_, v.mem_nodes⟩)
    exact List.mem_cons_of_mem _ List.mem_cons_self

theorem Root.nodes_subset {rs qs : List Root} (sub : ∀ q ∈ qs, q ∈ rs) :
    ∀ n ∈ Root.nodes qs, n ∈ Root.nodes rs := fun _ hn ↦
  let ⟨q, mem, inside⟩ := List.mem_flatMap.1 hn
  List.mem_flatMap.2 ⟨q, sub q mem, inside⟩

/-- The span `s` is a part of the span `t`. -/
def Span.Within (s t : Span) : Prop := t.start ≤ s.start ∧ s.stop ≤ t.stop

/-- What is replaced holds only what stands within it, nothing else has its span, and it is not the
first argument of a call. -/
structure Script.Patch.Apart (k : Patch) (ns : List Expr) : Prop where
  inner : ∀ m ∈ ns, k.hole = some m.span → ∀ n ∈ m.nodes,
    n.span.Within m.span ∧ (n.span = m.span → n = m)
  name : ∀ s f a v es, .call s f (a :: v :: es) ∈ ns → k.hole ≠ some a.span

theorem Script.Patch.Apart.mono {k : Patch} {ns ms : List Expr} (h : k.Apart ns)
    (sub : ∀ m ∈ ms, m ∈ ns) : k.Apart ms :=
  ⟨fun m hm ↦ h.inner m (sub m hm), fun s f a v es hc ↦ h.name s f a v es (sub _ hc)⟩

/-- Where a definition moves to. -/
def Occurrence.moved (k : Patch) (o : Occurrence) : Occurrence := ⟨o.statement.map k.move, k.move o.value⟩

namespace Occurrence

variable {kind : EntryKind} {name : String} {o : Occurrence} {k : Patch}

/-- The value of the definition is no part of what is replaced. -/
def Outside (k : Patch) (o : Occurrence) : Prop := ∀ h ∈ k.hole, ¬o.value.Within h

/-- What becomes of a definition. If its value is the replaced one, it gets the new one. -/
def patched (k : Patch) (o : Occurrence) : Occurrence :=
  ⟨o.statement.map k.move, if k.hole = some o.value then k.new.span else k.move o.value⟩

theorem value_patched_of_hole (h : k.hole = some o.value) : (o.patched k).value = k.new.span :=
  if_pos h

theorem patched_of_outside (h : o.Outside k) : o.patched k = o.moved k := by
  have kept : k.hole ≠ some o.value := fun hole ↦ h _ hole ⟨Nat.le_refl _, Nat.le_refl _⟩
  rw [patched, if_neg kept, moved]

/-- The value of the definition is inside of what is replaced. -/
def Lost (k : Patch) (o : Occurrence) : Prop := ∃ h ∈ k.hole, o.value.Within h ∧ o.value ≠ h

/-- What becomes of the definitions of a name: the lost ones are gone, and the new value may bring
others. -/
inductive Follows (k : Patch) (name : String) : List Occurrence → List Occurrence → Prop
  | nil : Follows k name [] []
  | kept (o : Occurrence) {os os' : List Occurrence} :
    Follows k name os os' → Follows k name (o :: os) (o.patched k :: os')
  | lost {o : Occurrence} {os os' : List Occurrence} :
    o.Lost k → Follows k name os os' → Follows k name (o :: os) os'
  | fresh {o : Occurrence} {os os' : List Occurrence} :
    o ∈ inExpr name o.statement k.new → Follows k name os os' → Follows k name os (o :: os')

namespace Follows

variable {os os' ps ps' : List Occurrence}

/-- What is found in two parts follows if it does in each. -/
theorem append (h : Follows k name os os') (h' : Follows k name ps ps') :
    Follows k name (os ++ ps) (os' ++ ps') := by
  induction h with
  | nil => exact h'
  | kept o _ ih => exact .kept o ih
  | lost inside _ ih => exact .lost inside ih
  | fresh new _ ih => exact .fresh new ih

/-- What is found in the parts of a list follows if it does in each. -/
theorem flatMap {α : Type} {as : List α} {f g : α → List Occurrence}
    (h : ∀ a ∈ as, Follows k name (f a) (g a)) : Follows k name (as.flatMap f) (as.flatMap g) := by
  induction as with
  | nil => exact .nil
  | cons a as ih =>
    rw [List.flatMap_cons, List.flatMap_cons]
    exact (h a List.mem_cons_self).append (ih fun b hb ↦ h b (List.mem_cons_of_mem _ hb))

/-- All definitions are kept. -/
theorem all (k : Patch) (name : String) (os : List Occurrence) :
    Follows k name os (os.map (patched k)) := by
  induction os with
  | nil => exact .nil
  | cons o os ih => exact .kept o ih

/-- All definitions are lost, and those of the new value take their place. -/
theorem exchanged {statement : Option Span} (gone : ∀ o ∈ os, o.Lost k)
    (new : ∀ o ∈ os', o ∈ inExpr name statement k.new) : Follows k name os os' := by
  have first : Follows k name os [] := by
    induction os with
    | nil => exact .nil
    | cons o os ih =>
      exact .lost (gone o List.mem_cons_self) (ih fun p hp ↦ gone p (List.mem_cons_of_mem _ hp))
  have second : Follows k name [] os' := by
    clear first gone
    induction os' with
    | nil => exact .nil
    | cons o os' ih =>
      have here := new o List.mem_cons_self
      obtain ⟨v, -, rfl⟩ := List.mem_map.1 here
      exact .fresh here (ih fun p hp ↦ new p (List.mem_cons_of_mem _ hp))
  have both := first.append second
  rwa [List.append_nil] at both

/-- What is outside of the replaced value is still there. -/
theorem mem (h : Follows k name os os') (ho : o ∈ os) (outside : o.Outside k) : o.moved k ∈ os' := by
  induction h with
  | nil => cases ho
  | kept p _ ih =>
    rcases List.mem_cons.1 ho with rfl | ho
    · rw [patched_of_outside outside]
      exact List.mem_cons_self
    · exact List.mem_cons_of_mem _ (ih ho)
  | lost inside _ ih =>
    rcases List.mem_cons.1 ho with rfl | ho
    · obtain ⟨h, hole, within, -⟩ := inside
      exact absurd within (outside h hole)
    · exact ih ho
  | fresh _ _ ih => exact List.mem_cons_of_mem _ (ih ho)

/-- If the new value defines nothing, the first definition is still the first one, unless it is lost. -/
theorem head (h : Follows k name os os') (none : inExpr name none k.new = []) (first : o ∈ os.head?)
    (kept : ¬o.Lost k) : o.patched k ∈ os'.head? := by
  induction h with
  | nil => cases first
  | kept p _ _ =>
    obtain rfl := Option.some.inj first
    rfl
  | lost inside _ _ =>
    obtain rfl := Option.some.inj first
    exact absurd inside kept
  | fresh new _ _ =>
    rw [inExpr, List.map_eq_nil_iff] at none
    rw [inExpr, none] at new
    cases new

end Follows

/-! ### Definitions in expressions -/

/-- The definitions in an expression: the one that it is itself, and those in what it is made up of. -/
theorem inExpr_eq_parts (name : String) (statement : Option Span) (e : Expr) :
    inExpr name statement e = ((definedValue? name e).map fun v ↦ ⟨statement, v.span⟩).toList ++
      e.parts.flatMap (inExpr name statement) := by
  have inside : e.parts.flatMap (inExpr name statement) =
      ((e.parts.flatMap Expr.nodes).filterMap (definedValue? name)).map fun v ↦ ⟨statement, v.span⟩ := by
    rw [List.filterMap_flatMap, List.map_flatMap]
    rfl
  rw [inside, inExpr, Expr.nodes_eq_parts, List.filterMap_cons]
  cases definedValue? name e <;> rfl

/-- An expression that is not replaced defines the patched value. -/
theorem definedValue?_expr {e : Expr} (apart : k.Apart e.nodes) (unreplaced : k.hole ≠ some e.span) :
    definedValue? name (k.expr e) = (definedValue? name e).map k.expr := by
  cases e with
  | call s f es =>
    rw [Patch.expr, Patch.put_of_ne (by exact unreplaced)]
    match es with
    | [] | [_] => rfl
    | a :: v :: es =>
      have named : k.hole ≠ some a.span := apart.name s f a v es (Expr.mem_nodes _)
      simp only [Patch.exprs, definedValue?, Patch.literalText?_of_ne named]
      split <;> rfl
  | _ =>
    rw [Patch.expr, Patch.put_of_ne (by exact unreplaced)]
    rfl

/-- Every definition in the replaced expression is lost. -/
theorem lost_of_inExpr {statement : Option Span} {e : Expr} (apart : k.Apart e.nodes)
    (hole : k.hole = some e.span) (h : o ∈ inExpr name statement e) : o.Lost k := by
  obtain ⟨v, mem, rfl⟩ := List.mem_map.1 h
  obtain ⟨n, inside, value⟩ := List.mem_filterMap.1 mem
  obtain ⟨s, f, a, es, rfl, -⟩ := definedValue?_eq_some value
  have part : v ∈ (Expr.call s f (a :: v :: es)).parts := List.mem_cons_of_mem _ List.mem_cons_self
  have node : v ∈ e.nodes := Expr.nodes_trans (by
    rw [Expr.nodes_eq_parts]
    exact List.mem_cons_of_mem _ (List.mem_flatMap.2 ⟨v, part, v.mem_nodes⟩)) inside
  obtain ⟨within, same⟩ := apart.inner e e.mem_nodes hole v node
  refine ⟨_, hole, within, fun equal ↦ ?_⟩
  obtain rfl := same equal
  have := Expr.sizeOf_lt_of_mem_parts part
  have := Expr.sizeOf_le_of_mem_nodes inside
  omega

/-- What is found in an expression follows the patch. -/
theorem follows_inExpr (statement : Option Span) (e : Expr) (apart : k.Apart e.nodes) :
    Follows k name (inExpr name statement e) (inExpr name (statement.map k.move) (k.expr e)) := by
  induction e using Expr.induction_parts with
  | step e ih =>
    by_cases hole : k.hole = some e.span
    · rw [Patch.expr_of_hole hole]
      exact .exchanged (fun o ho ↦ lost_of_inExpr apart hole ho) fun o ho ↦ ho
    · rw [inExpr_eq_parts, inExpr_eq_parts, definedValue?_expr apart hole, Patch.parts_expr hole,
        List.flatMap_map]
      refine .append ?_ (.flatMap fun p part ↦ ih p part (apart.mono fun m hm ↦ ?_))
      · cases definedValue? name e with
        | none => exact .nil
        | some v =>
          have own : Follows k name _ _ := .kept ⟨statement, v.span⟩ .nil
          rwa [patched, ← Patch.span_expr_eq] at own
      · rw [Expr.nodes_eq_parts]
        exact List.mem_cons_of_mem _ (List.mem_flatMap.2 ⟨p, part, hm⟩)

/-! ### Definitions in statements -/

/-- What a declaration defines moves with it. -/
theorem inDeclaration_constItem (name : String) (statement : Span) (is : List ConstItem) :
    inDeclaration name (k.move statement) (is.map k.constItem) =
      (inDeclaration name statement is).map (patched k) := by
  have filtered : (is.map k.constItem).filter (·.name == name) =
      (is.filter (·.name == name)).map k.constItem := by
    rw [List.filter_map]
    rfl
  rw [inDeclaration, inDeclaration, filtered, List.length_map, List.map_map, List.map_map]
  refine List.map_congr_left fun i _ ↦ ?_
  show (⟨_, (k.expr i.value).span⟩ : Occurrence) = ⟨_, _⟩
  rw [Patch.span_expr_eq]
  split <;> rfl

/-- What an assignment defines moves with it. -/
theorem inAssignment_expr (name : String) (statement : Span) (op : AssignOp) (t : Target) (e : Expr) :
    inAssignment name (k.move statement) op (k.target t) (k.expr e) =
      (inAssignment name statement op t e).map (patched k) := by
  have plain : ((k.target t).name == name && (k.target t).indices.isEmpty && op == .assign) =
      (t.name == name && t.indices.isEmpty && op == .assign) := by
    rw [Patch.target, List.isEmpty_map]
  rw [inAssignment, inAssignment, plain]
  split
  · rw [Patch.span_expr_eq]
    rfl
  · rfl

mutual

/-- What becomes of the definitions in a statement. -/
theorem follows_inStmt (s : Stmt) (apart : k.Apart (Root.nodes s.roots)) :
    Follows k name (inStmt kind name s) (inStmt kind name (k.stmt s)) := by
  match s with
  | .conditional _ bs none => exact follows_inBranches bs apart
  | .conditional _ bs (some body) =>
    exact (follows_inBranches bs (apart.mono (Root.nodes_subset fun r hr ↦ List.mem_append_left _ hr))).append
      (follows_inStmts body (apart.mono (Root.nodes_subset fun r hr ↦ List.mem_append_right _ hr)))
  | .block _ body => exact follows_inStmts body apart
  | .expr s e =>
    rw [inStmt, Patch.stmt, inStmt]
    split
    · exact follows_inExpr (some s) e (apart.mono fun m hm ↦ List.mem_append_left _ hm)
    · exact .nil
  | .const s is =>
    rw [inStmt, Patch.stmt, inStmt]
    split
    · rw [inDeclaration_constItem]
      exact .all k name _
    · exact .nil
  | .assign s op t e =>
    cases kind with
    | const =>
      refine follows_inExpr none e (apart.mono fun m hm ↦ ?_)
      refine List.mem_flatMap.2 ⟨_, List.mem_append_right _ List.mem_cons_self, ?_⟩
      split <;> exact hm
    | var =>
      show Follows k name _ (inAssignment name (k.move s) op (k.target t) (k.expr e))
      rw [inAssignment_expr]
      exact .all k name _
    | inclusion => exact .nil
  | .load .. | .unset .. | .global .. | .ret _ | .exit _ | .inlineHtml _ | .opaqueStmt _ => exact .nil

/-- What is found in statements follows the patch. -/
theorem follows_inStmts (ss : List Stmt) (apart : k.Apart (Root.nodes (Stmt.rootsOfList ss))) :
    Follows k name (inStmts kind name ss) (inStmts kind name (k.stmts ss)) := by
  match ss with
  | [] => exact .nil
  | s :: ss =>
    exact (follows_inStmt s (apart.mono (Root.nodes_subset fun r hr ↦ List.mem_append_left _ hr))).append
      (follows_inStmts ss (apart.mono (Root.nodes_subset fun r hr ↦ List.mem_append_right _ hr)))

/-- What is found in branches follows the patch. -/
theorem follows_inBranches (bs : List Branch) (apart : k.Apart (Root.nodes (Stmt.rootsOfBranches bs))) :
    Follows k name (inBranches kind name bs) (inBranches kind name (k.branches bs)) := by
  match bs with
  | [] => exact .nil
  | .mk c body :: bs =>
    refine .append (.append ?_ (follows_inStmts body (apart.mono (Root.nodes_subset fun r hr ↦
      List.mem_cons_of_mem _ (List.mem_append_left _ hr))))) (follows_inBranches bs (apart.mono
        (Root.nodes_subset fun r hr ↦ List.mem_cons_of_mem _ (List.mem_append_right _ hr))))
    split
    · exact follows_inExpr none c (apart.mono fun m hm ↦ List.mem_append_left _ hm)
    · exact .nil

end

end Occurrence

end ConfigScript
