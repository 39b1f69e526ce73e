import ConfigScript.Scope
import ConfigScript.Script.Syntax

/-!
# Where a script defines something

Occurrences are found in the syntax tree, without running the script: calls of `define` with a
literal name and `const` declarations for a constant, plain assignments for a variable. An
occurrence that can be removed knows its statement.
-/

namespace ConfigScript

/-- A definition in a syntax tree. -/
structure Occurrence where
  /-- The statement that goes when the definition is removed, unless others share it. -/
  statement : Option Span
  /-- The defined value. -/
  value : Span
deriving DecidableEq, Repr

namespace Occurrence

/-- The value that a call of `define` gives to the constant `name`. -/
def definedValue? (name : String) : Expr → Option Expr
  | .call _ function (constant :: value :: _) =>
    if Script.sameWord function.toList "define".toList && constant.literalText? == some name then
      some value
    else none
  | _ => none

/-- The definitions of the constant `name` in an expression. -/
def inExpr (name : String) (statement : Option Span) (e : Expr) : List Occurrence :=
  (e.nodes.filterMap (definedValue? name)).map fun value => ⟨statement, value.span⟩

/-- The definitions of the constant `name` in a declaration. -/
def inDeclaration (name : String) (statement : Span) (items : List ConstItem) : List Occurrence :=
  let owner := if items.length = 1 then some statement else none
  (items.filter (·.name == name)).map fun item => ⟨owner, item.value.span⟩

/-- The definition of the variable `name` in an assignment. -/
def inAssignment (name : String) (statement : Span) (op : AssignOp) (t : Target) (value : Expr) :
    List Occurrence :=
  if t.name == name && t.indices.isEmpty && op == .assign then [⟨some statement, value.span⟩]
  else []

mutual

/-- The definitions in a statement. -/
def inStmt (kind : EntryKind) (name : String) : Stmt → List Occurrence
  | .conditional _ branches none => inBranches kind name branches
  | .conditional _ branches (some body) =>
    inBranches kind name branches ++ inStmts kind name body
  | .block _ body => inStmts kind name body
  | .expr s e => if kind = .const then inExpr name (some s) e else []
  | .const s items => if kind = .const then inDeclaration name s items else []
  | .assign s op t e =>
    match kind with
    -- The constant is defined on the way: its statement assigns a variable and must stay.
    | .const => inExpr name none e
    | .var => inAssignment name s op t e
    | .inclusion => []
  | _ => []

/-- The definitions in statements. -/
def inStmts (kind : EntryKind) (name : String) : List Stmt → List Occurrence
  | [] => []
  | s :: ss => inStmt kind name s ++ inStmts kind name ss

/-- The definitions in branches and their conditions. -/
def inBranches (kind : EntryKind) (name : String) : List Branch → List Occurrence
  | [] => []
  | .mk condition body :: bs =>
    (if kind = .const then inExpr name none condition else []) ++ inStmts kind name body ++
      inBranches kind name bs

end

/-- Keep only the first of neighbours that belong to the same statement. -/
def firstPerStatement : List Occurrence → List Occurrence
  | a :: b :: rest =>
    if b.statement.isSome && b.statement == a.statement then firstPerStatement (a :: rest)
    else a :: firstPerStatement (b :: rest)
  | rest => rest
termination_by os => os.length

/-- The definitions of `name` in a script, in source order. -/
def all (kind : EntryKind) (name : String) (body : List Stmt) : List Occurrence :=
  firstPerStatement (inStmts kind name body)

end Occurrence

end ConfigScript
