import ConfigScript.Script.Token

/-!
# Syntax trees

Expressions and statements, each with the span of source text it was read from. What the parser
does not understand is kept as an opaque node, which has a span and nothing else.

Two trees that differ in their spans only have the same `unplaced` form.
-/

namespace ConfigScript

/-! ### Expressions -/

/-- Constants that stand for the place they are written at. -/
inductive MagicConstant where
  | dir
  | file
  | line
deriving DecidableEq, Repr

/-- Targets of a cast. -/
inductive CastKind where
  | int
  | float
  | string
  | bool
  | array
deriving DecidableEq, Repr

/-- Prefix operators. -/
inductive UnaryOp where
  | not
  | neg
  | plus
  | bitNot
  | silence
deriving DecidableEq, Repr

/-- Operators between two operands. -/
inductive BinaryOp where
  | add | sub | mul | div | mod | pow | concat
  | eq | notEq | identical | notIdentical | lt | gt | ltEq | gtEq | spaceship
  | and | or | xor | coalesce
  | bitAnd | bitOr | bitXor | shiftLeft | shiftRight
deriving DecidableEq, Repr

mutual

/-- An expression with its span. -/
inductive Expr where
  | null (span : Span)
  | bool (span : Span) (value : Bool)
  | int (span : Span) (value : Int64)
  | float (span : Span) (value : Float)
  | str (span : Span) (parts : List Part)
  | const (span : Span) (name : String)
  | magic (span : Span) (kind : MagicConstant)
  | var (span : Span) (name : String)
  | array (span : Span) (items : List Item)
  | index (span : Span) (base index : Expr)
  | call (span : Span) (name : String) (args : List Expr)
  | cast (span : Span) (kind : CastKind) (operand : Expr)
  | unary (span : Span) (op : UnaryOp) (operand : Expr)
  | binary (span : Span) (op : BinaryOp) (lhs rhs : Expr)
  | ternary (span : Span) (condition thenBranch elseBranch : Expr)
  /-- A conditional that yields its condition when that is true. -/
  | elvis (span : Span) (condition elseBranch : Expr)
  /-- Access to objects and classes, calls of anything but a named function. -/
  | opaqueExpr (span : Span)
deriving Repr

/-- Element of an array literal, with or without a key. -/
inductive Item where
  | value (value : Expr)
  | keyed (key value : Expr)
deriving Repr

end

instance : Inhabited Expr := ⟨.null default⟩

namespace Expr

/-- The source text an expression was read from. -/
def span : Expr → Span
  | null s | bool s _ | int s _ | float s _ | str s _ | const s _ | magic s _ | var s _
  | array s _ | index s _ _ | call s _ _ | cast s _ _ | unary s _ _ | binary s _ _ _
  | ternary s _ _ _ | elvis s _ _ | opaqueExpr s => s

/-- The same expression with another span. -/
def withSpan (s : Span) : Expr → Expr
  | null _ => null s
  | bool _ b => bool s b
  | int _ i => int s i
  | float _ x => float s x
  | str _ ps => str s ps
  | const _ n => const s n
  | magic _ k => magic s k
  | var _ n => var s n
  | array _ items => array s items
  | index _ b i => index s b i
  | call _ n args => call s n args
  | cast _ k e => cast s k e
  | unary _ op e => unary s op e
  | binary _ op l r => binary s op l r
  | ternary _ c t e => ternary s c t e
  | elvis _ c e => elvis s c e
  | opaqueExpr _ => opaqueExpr s

/-- The text of a string literal without variables. -/
def literalText? : Expr → Option String
  | str _ [.text s] => some s
  | _ => none

@[simp]
theorem span_withSpan (s : Span) (e : Expr) : (e.withSpan s).span = s := by cases e <;> rfl

mutual

/-- The expression and all expressions inside it, parents first, in source order. -/
def nodes : Expr → List Expr
  | array s items => array s items :: itemNodes items
  | index s b i => index s b i :: (nodes b ++ nodes i)
  | call s n args => call s n args :: listNodes args
  | cast s k e => cast s k e :: nodes e
  | unary s op e => unary s op e :: nodes e
  | binary s op l r => binary s op l r :: (nodes l ++ nodes r)
  | ternary s c t e => ternary s c t e :: (nodes c ++ nodes t ++ nodes e)
  | elvis s c e => elvis s c e :: (nodes c ++ nodes e)
  | e => [e]

/-- The expressions inside a list of expressions. -/
def listNodes : List Expr → List Expr
  | [] => []
  | e :: es => nodes e ++ listNodes es

/-- The expressions inside the elements of an array literal. -/
def itemNodes : List Item → List Expr
  | [] => []
  | .value e :: items => nodes e ++ itemNodes items
  | .keyed k e :: items => nodes k ++ nodes e ++ itemNodes items

end

mutual

/-- The expression without its spans. -/
def unplaced : Expr → Expr
  | null _ => null default
  | bool _ b => bool default b
  | int _ i => int default i
  | float _ x => float default x
  | str _ ps => str default ps
  | const _ n => const default n
  | magic _ k => magic default k
  | var _ n => var default n
  | array _ items => array default (unplacedItems items)
  | index _ b i => index default (unplaced b) (unplaced i)
  | call _ n args => call default n (unplacedList args)
  | cast _ k e => cast default k (unplaced e)
  | unary _ op e => unary default op (unplaced e)
  | binary _ op l r => binary default op (unplaced l) (unplaced r)
  | ternary _ c t e => ternary default (unplaced c) (unplaced t) (unplaced e)
  | elvis _ c e => elvis default (unplaced c) (unplaced e)
  | opaqueExpr _ => opaqueExpr default

/-- Expressions without their spans. -/
def unplacedList : List Expr → List Expr
  | [] => []
  | e :: es => unplaced e :: unplacedList es

/-- Array elements without their spans. -/
def unplacedItems : List Item → List Item
  | [] => []
  | .value e :: items => .value (unplaced e) :: unplacedItems items
  | .keyed k e :: items => .keyed (unplaced k) (unplaced e) :: unplacedItems items

end

@[simp]
theorem unplaced_withSpan (s : Span) (e : Expr) : (e.withSpan s).unplaced = e.unplaced := by
  cases e <;> rfl

end Expr

/-! ### Statements -/

/-- A variable, perhaps with indices, that an assignment or `unset` names. The index `none` is the
form `$a[]`, which appends. -/
structure Target where
  name : String
  indices : List (Option Expr)
  span : Span
deriving Repr

/-- Assignments. -/
inductive AssignOp where
  | assign
  | concat
  | add
  | sub
  | coalesce
deriving DecidableEq, Repr

/-- The statements that load another file. -/
inductive IncludeKind where
  | includeFile
  | includeOnce
  | requireFile
  | requireOnce
deriving DecidableEq, Repr

namespace IncludeKind

/-- Whether a file that is loaded already is not loaded again. -/
def isOnce : IncludeKind → Bool
  | includeOnce | requireOnce => true
  | _ => false

/-- Whether a missing file is an error. -/
def isRequired : IncludeKind → Bool
  | requireFile | requireOnce => true
  | _ => false

end IncludeKind

/-- One name of a `const` declaration. -/
structure ConstItem where
  name : String
  nameSpan : Span
  value : Expr
deriving Repr

mutual

/-- A statement with its span. -/
inductive Stmt where
  | expr (span : Span) (e : Expr)
  | assign (span : Span) (op : AssignOp) (target : Target) (value : Expr)
  | const (span : Span) (items : List ConstItem)
  | load (span : Span) (kind : IncludeKind) (path : Expr)
  | conditional (span : Span) (branches : List Branch) (otherwise : Option (List Stmt))
  | block (span : Span) (body : List Stmt)
  | unset (span : Span) (targets : List Target)
  | global (span : Span) (names : List String)
  | ret (span : Span)
  | exit (span : Span)
  | inlineHtml (span : Span)
  /-- A statement that is skipped. -/
  | opaqueStmt (span : Span)
deriving Repr

/-- A condition and the statements that run if it holds. -/
inductive Branch where
  | mk (condition : Expr) (body : List Stmt)
deriving Repr

end

/-- The source text a statement was read from. -/
def Stmt.span : Stmt → Span
  | expr s _ | assign s _ _ _ | const s _ | load s _ _ | conditional s _ _ | block s _
  | unset s _ | global s _ | ret s | exit s | inlineHtml s | opaqueStmt s => s

/-- A target without its spans. -/
def Target.unplaced (t : Target) : Target :=
  ⟨t.name, t.indices.map (·.map Expr.unplaced), default⟩

/-- One name of a declaration without its spans. -/
def ConstItem.unplaced (i : ConstItem) : ConstItem := ⟨i.name, default, i.value.unplaced⟩

namespace Stmt

mutual

/-- The statement without its spans. -/
def unplaced : Stmt → Stmt
  | expr _ e => expr default e.unplaced
  | assign _ op t e => assign default op t.unplaced e.unplaced
  | const _ items => const default (items.map ConstItem.unplaced)
  | load _ k p => load default k p.unplaced
  | conditional _ bs none => conditional default (unplacedBranches bs) none
  | conditional _ bs (some body) =>
    conditional default (unplacedBranches bs) (some (unplacedList body))
  | block _ body => block default (unplacedList body)
  | unset _ ts => unset default (ts.map Target.unplaced)
  | global _ ns => global default ns
  | ret _ => ret default
  | exit _ => exit default
  | inlineHtml _ => inlineHtml default
  | opaqueStmt _ => opaqueStmt default

/-- Statements without their spans. -/
def unplacedList : List Stmt → List Stmt
  | [] => []
  | s :: ss => unplaced s :: unplacedList ss

/-- Branches without their spans. -/
def unplacedBranches : List Branch → List Branch
  | [] => []
  | .mk c body :: bs => .mk c.unplaced (unplacedList body) :: unplacedBranches bs

end

end Stmt

end ConfigScript
