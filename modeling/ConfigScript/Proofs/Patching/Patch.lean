import ConfigScript.Script.Syntax

/-!
# Patched syntax trees

A patch moves every span of a syntax tree and puts another expression in the place of the one whose
span is its hole. This is what becomes of the tree of a text in which one expression is replaced:
everything behind it has moved. Without a hole a patch only moves.

Moving commutes with joining spans, so patching commutes with how the parser builds nodes, as long
as the span of the node is not the hole. What is `Off` the hole begins elsewhere, which is all that
joining spans preserves.
-/

namespace ConfigScript.Script

/-- How a syntax tree changes when one of its expressions is replaced in the text. -/
structure Patch where
  move : Span → Span
  /-- The span of the expression that is replaced, if there is one. -/
  hole : Option Span
  /-- What takes its place. -/
  new : Expr
  move_through : ∀ s t, move (s.through t) = (move s).through (move t)

namespace Patch

variable (k : Patch)

/-- The span begins elsewhere than the hole. -/
def Off (s : Span) : Prop := ∀ h ∈ k.hole, s.start ≠ h.start

/-- A node, unless it is the one that is replaced. -/
def put (s : Span) (node : Span → Expr) : Expr :=
  if k.hole = some s then k.new else node (k.move s)

/-- A patched token. -/
def token (t : Token) : Token := { t with span := k.move t.span }

mutual

/-- A patched expression. -/
def expr : Expr → Expr
  | .null s => k.put s .null
  | .bool s b => k.put s (.bool · b)
  | .int s i => k.put s (.int · i)
  | .float s x => k.put s (.float · x)
  | .str s ps => k.put s (.str · ps)
  | .const s n => k.put s (.const · n)
  | .magic s m => k.put s (.magic · m)
  | .var s n => k.put s (.var · n)
  | .array s is => k.put s (.array · (items is))
  | .index s b i => k.put s (.index · (expr b) (expr i))
  | .call s n as => k.put s (.call · n (exprs as))
  | .cast s c e => k.put s (.cast · c (expr e))
  | .unary s op e => k.put s (.unary · op (expr e))
  | .binary s op l r => k.put s (.binary · op (expr l) (expr r))
  | .ternary s c t e => k.put s (.ternary · (expr c) (expr t) (expr e))
  | .elvis s c e => k.put s (.elvis · (expr c) (expr e))
  | .opaqueExpr s => k.put s .opaqueExpr

/-- Patched expressions. -/
def exprs : List Expr → List Expr
  | [] => []
  | e :: es => expr e :: exprs es

/-- Patched elements of an array literal. -/
def items : List Item → List Item
  | [] => []
  | .value e :: is => .value (expr e) :: items is
  | .keyed a e :: is => .keyed (expr a) (expr e) :: items is

end

/-- A patched element of an array literal. -/
def item : Item → Item
  | .value e => .value (k.expr e)
  | .keyed a e => .keyed (k.expr a) (k.expr e)

/-- A patched target. -/
def target (t : Target) : Target := ⟨t.name, t.indices.map (·.map k.expr), k.move t.span⟩

/-- A patched name of a declaration. -/
def constItem (i : ConstItem) : ConstItem := ⟨i.name, k.move i.nameSpan, k.expr i.value⟩

mutual

/-- A patched statement. -/
def stmt : Stmt → Stmt
  | .expr s e => .expr (k.move s) (k.expr e)
  | .assign s op t e => .assign (k.move s) op (k.target t) (k.expr e)
  | .const s is => .const (k.move s) (is.map k.constItem)
  | .load s kind p => .load (k.move s) kind (k.expr p)
  | .conditional s bs none => .conditional (k.move s) (branches bs) none
  | .conditional s bs (some body) => .conditional (k.move s) (branches bs) (some (stmts body))
  | .block s body => .block (k.move s) (stmts body)
  | .unset s ts => .unset (k.move s) (ts.map k.target)
  | .global s ns => .global (k.move s) ns
  | .ret s => .ret (k.move s)
  | .exit s => .exit (k.move s)
  | .inlineHtml s => .inlineHtml (k.move s)
  | .opaqueStmt s => .opaqueStmt (k.move s)

/-- Patched statements. -/
def stmts : List Stmt → List Stmt
  | [] => []
  | s :: ss => stmt s :: stmts ss

/-- Patched branches. -/
def branches : List Branch → List Branch
  | [] => []
  | .mk c body :: bs => .mk (k.expr c) (stmts body) :: branches bs

end

/-! ### Off the hole -/

variable {k}

theorem Off.through {s : Span} (h : k.Off s) (t : Span) : k.Off (s.through t) := h

theorem Off.ne {s : Span} (h : k.Off s) : k.hole ≠ some s := fun e ↦ h s e rfl

theorem put_of_off {s : Span} (h : k.Off s) (node : Span → Expr) :
    k.put s node = node (k.move s) := if_neg h.ne

/-- The replaced expression. -/
theorem expr_of_hole {e : Expr} (h : k.hole = some e.span) : k.expr e = k.new := by
  have at_hole : ∀ node, k.put e.span node = k.new := fun _ ↦ if_pos h
  cases e <;> rw [expr] <;> exact at_hole _

/-- An expression off the hole keeps its form, and its span moves. -/
theorem span_expr {e : Expr} (h : k.Off e.span) : (k.expr e).span = k.move e.span := by
  cases e <;> rw [expr] <;> exact congrArg Expr.span (put_of_off h _)

theorem expr_withSpan {e : Expr} {s : Span} (he : k.Off e.span) (hs : k.Off s) :
    k.expr (e.withSpan s) = (k.expr e).withSpan (k.move s) := by
  cases e <;> simp only [Expr.withSpan, expr] <;>
    rw [put_of_off hs, put_of_off (by exact he)]

theorem off_withSpan {e : Expr} {s : Span} (h : k.Off s) : k.Off (e.withSpan s).span := by
  rwa [Expr.span_withSpan]

theorem exprs_eq_map (es : List Expr) : k.exprs es = es.map k.expr := by
  induction es with
  | nil => rfl
  | cons e es ih => rw [exprs, ih, List.map_cons]

theorem items_eq_map (is : List Item) : k.items is = is.map k.item := by
  induction is with
  | nil => rfl
  | cons i is ih => cases i <;> rw [items, ih, List.map_cons, item]

theorem stmts_eq_map (ss : List Stmt) : k.stmts ss = ss.map k.stmt := by
  induction ss with
  | nil => rfl
  | cons s ss ih => rw [stmts, ih, List.map_cons]

theorem stmts_append (as bs : List Stmt) : k.stmts (as ++ bs) = k.stmts as ++ k.stmts bs := by
  simp only [stmts_eq_map, List.map_append]

/-! ### Tokens -/

@[simp]
theorem kind_token (t : Token) : (k.token t).kind = t.kind := rfl

@[simp]
theorem span_token (t : Token) : (k.token t).span = k.move t.span := rfl

@[simp]
theorem isPunct_token (t : Token) (p : Punct) : (k.token t).isPunct p = t.isPunct p := rfl

@[simp]
theorem keyword?_token (t : Token) : (k.token t).keyword? = t.keyword? := rfl

@[simp]
theorem isKeyword_token (t : Token) (w : String) : (k.token t).isKeyword w = t.isKeyword w := rfl

end Patch

end ConfigScript.Script
