import ConfigScript.Proofs.Running.Alike
import Mathlib.Control.Monad.Writer
import Mathlib.Data.List.Nodup

/-!
# Evaluations with a record

Constants may be defined anywhere in an expression, and which definitions an evaluation gets to is not
told by the scope behind it: a definition that came too late leaves no trace. Here expressions, and the
statements that only change the scope, are evaluated again, with a record of the definitions that are
carried out, in their order.

A recorded evaluation does what the evaluation does and changes constants by the definitions of its
record alone (`Recorded.Of`), one construct after the other (`Frame.account_of`, `Frame.recordedEval_of`).
-/

namespace ConfigScript

/-! ### Definitions one after the other -/

namespace Assoc

variable {α β : Type} [DecidableEq α]

/-- Give `a` the value `b` if it has none. -/
def offer (a : α) (b : β) (xs : List (α × β)) : List (α × β) :=
  if contains a xs then xs else insert a b xs

/-- Offer a value for one key after the other. -/
def offerAll (ds xs : List (α × β)) : List (α × β) := ds.foldl (fun xs d ↦ offer d.1 d.2 xs) xs

@[simp]
theorem offerAll_append (ds es xs : List (α × β)) :
    offerAll (ds ++ es) xs = offerAll es (offerAll ds xs) := List.foldl_append

end Assoc

/-- What is done to a scope besides loading files: its constants are those from before, with some
definitions behind them, and no variable gets two values. -/
structure Scope.Defines (ds : Bindings) (s s' : Scope) : Prop where
  constants : s'.constants = Assoc.offerAll ds s.constants
  loaded : s'.loaded = s.loaded
  vars : (Assoc.keys s.vars).Nodup → (Assoc.keys s'.vars).Nodup

namespace Scope

variable {s s₁ s₂ : Scope} {ds es : Bindings}

theorem Defines.refl (s : Scope) : Defines [] s s := ⟨rfl, rfl, id⟩

/-- What is defined by definitions and then by more is defined by both. -/
theorem Defines.trans (first : Defines ds s s₁) (second : Defines es s₁ s₂) :
    Defines (ds ++ es) s s₂ where
  constants := by rw [second.constants, first.constants, Assoc.offerAll_append]
  loaded := second.loaded.trans first.loaded
  vars := second.vars ∘ first.vars

/-- Defining a constant is one definition, whether it counts or not. -/
theorem defines_define (s : Scope) (n : String) (v : Value) :
    Defines [(n, v)] s (s.define n v).2 := by
  unfold define
  split
  · rename_i there
    exact ⟨(if_pos there).symm, rfl, id⟩
  · rename_i new
    exact ⟨(if_neg new).symm, rfl, id⟩

theorem defines_setVariable (s : Scope) (n : String) (v : Value) :
    Defines [] s (s.setVariable n v) := ⟨rfl, rfl, fun h ↦ Assoc.nodup_keys_insert h v⟩

theorem defines_unsetVariable (s : Scope) (n : String) : Defines [] s (s.unsetVariable n) :=
  ⟨rfl, rfl, fun h ↦ h.sublist (List.filter_sublist.map _)⟩

end Scope

/-! ### Recorded evaluations -/

/-- An evaluation with a record of the constants it defines, in the order in which it does so. A
definition is recorded whether or not the constant is defined already. -/
abbrev Recorded (α : Type) := WriterT Bindings (StateM Scope) α

namespace Recorded

variable {α β : Type}

/-- The result, the record and the scope behind the evaluation. -/
def outcome (x : Recorded α) (s : Scope) : α × Bindings × Scope :=
  ((x.run s).1.1, (x.run s).1.2, (x.run s).2)

/-- Define a constant, and record it. -/
def define (name : String) (value : Value) : Recorded Bool := do
  tell [(name, value)]
  modifyGet fun s ↦ s.define name value

/-- A recorded evaluation in two steps has both records, one behind the other. -/
theorem outcome_bind (x : Recorded α) (f : α → Recorded β) (s : Scope) :
    (x >>= f).outcome s =
      let (a, ds, s₁) := x.outcome s
      let (b, es, s₂) := (f a).outcome s₁
      (b, ds ++ es, s₂) := rfl

/-- The evaluation `x` does what `y` does, and constants are defined as it records. -/
def Of (x : Recorded α) (y : StateM Scope α) : Prop :=
  ∀ s, ∃ ds, x.outcome s = ((y.run s).1, ds, (y.run s).2) ∧ Scope.Defines ds s (y.run s).2

namespace Of

variable {x : Recorded α} {y : StateM Scope α}

protected theorem pure (a : α) : Of (pure a) (pure a) := fun s ↦ ⟨[], rfl, .refl s⟩

/-- Recorded steps are the record of the steps. -/
theorem bind {f : α → Recorded β} {g : α → StateM Scope β} (h : x.Of y) (more : ∀ a, (f a).Of (g a)) :
    Of (x >>= f) (y >>= g) := fun s ↦ by
  obtain ⟨ds, hx, first⟩ := h s
  obtain ⟨es, hf, second⟩ := more (y.run s).1 (y.run s).2
  refine ⟨ds ++ es, ?_, first.trans second⟩
  rw [outcome_bind, hx]
  dsimp only
  rw [hf]
  rfl

/-- An evaluation that is recorded is the one that runs. -/
theorem run_eq (h : x.Of y) {s s' : Scope} {a : α} {ds : Bindings} (done : x.outcome s = (a, ds, s')) :
    y.run s = (a, s') ∧ Scope.Defines ds s s' := by
  obtain ⟨ds', same, defines⟩ := h s
  obtain ⟨rfl, same⟩ := Prod.mk.inj (done.symm.trans same)
  obtain ⟨rfl, rfl⟩ := Prod.mk.inj same
  exact ⟨rfl, defines⟩

theorem state : Of (get : Recorded Scope) get := fun s ↦ ⟨[], rfl, .refl s⟩

theorem read (g : Scope → α) : Of (do return g (← get)) (do return g (← get)) := fun s ↦ ⟨[], rfl, .refl s⟩

theorem define (n : String) (v : Value) :
    Of (Recorded.define n v) (modifyGet fun s ↦ s.define n v) := fun s ↦
  ⟨[(n, v)], rfl, s.defines_define n v⟩

theorem modify {g : Scope → Scope} (h : ∀ s, Scope.Defines [] s (g s)) : Of (modify g) (modify g) :=
  fun s ↦ ⟨[], rfl, h s⟩

end Of

end Recorded

/-! ### Expressions -/

/-- What an expression means, with records of what it defines. -/
structure Account where
  value : Recorded Value
  isSet : Recorded (Option Bool)

namespace Account

/-- The account of an expression that is set if its value is not `null`. -/
def ofValue (value : Recorded Value) : Account where
  value := value
  isSet := do
    let v ← value
    return if v.isOpaque then none else some (!v.isNull)

/-- An expression with a fixed value. -/
def fixed (v : Value) : Account := ofValue (return v)

/-- The values of several expressions, from left to right. -/
def values : List Account → Recorded (List Value)
  | [] => return []
  | m :: ms => do
    let v ← m.value
    let vs ← values ms
    return v :: vs

/-- Whether all of several expressions are set. -/
def allSet : List Account → Recorded (Option Bool)
  | [] => return some true
  | m :: ms => do
    match ← m.isSet with
    | none => return none
    | some b => return (← allSet ms).map (b && ·)

/-- A variable. -/
def ofVariable (name : String) : Account where
  value := do return ((← get).var? name).getD .null
  isSet := do
    match (← get).var? name with
    | none | some .null => return some false
    | some (.expression _) => return none
    | some _ => return some true

/-- An element of `base`. -/
def index (unknown : Value) (base i : Account) : Account where
  value := do
    let b ← base.value
    let k ← i.value
    return (Value.index? b k).getD unknown
  isSet := do
    match ← base.isSet with
    | none => return none
    | some false => return some false
    | some true =>
      let b ← base.value
      let k ← i.value
      if k.isOpaque then return none
      else return (Value.index? b k).map fun v ↦ !v.isNull

/-- The elements of an array literal, added to those in `done`. -/
def elements (done : List (Key × Value)) :
    List (Option Account × Account) → Recorded (Option (List (Key × Value)))
  | [] => return some done
  | (key, value) :: rest => do
    let key? ← match key with
      | none => pure (some (Key.int (Value.nextIndex done)))
      | some k => do
        let v ← k.value
        pure v.key?
    match key? with
    | none => return none
    | some k =>
      let v ← value.value
      if v.isOpaque then return none else elements (Assoc.insert k v done) rest

/-- Apply a function to a known value. -/
def apply (unknown : Value) (f : Value → Option Value) (m : Account) : Recorded Value := do
  let v ← m.value
  return if v.isOpaque then unknown else (f v).getD unknown

/-- A binary operator. -/
def binary (unknown : Value) (op : BinaryOp) (lhs rhs : Account) : Recorded Value := do
  let left ← lhs.value
  if left.isOpaque then return unknown
  else match Meaning.shortcut? op left with
    | some v => return v
    | none =>
      let right ← rhs.value
      return if right.isOpaque then unknown else (Value.binary? op left right).getD unknown

/-- A conditional; without `thenBranch` it yields its condition. -/
def conditional (unknown : Value) (condition : Account) (thenBranch : Option Account)
    (elseBranch : Account) : Recorded Value := do
  let c ← condition.value
  if c.isOpaque then return unknown
  else
    let chosen ← if c.isTruthy then match thenBranch with
        | some t => t.value
        | none => pure c
      else elseBranch.value
    return if chosen.isOpaque then unknown else chosen

/-- Define a constant: here is what goes into the record. -/
def define : List Account → Recorded (Option Value)
  | name :: value :: _ => do
    match ← name.value with
    | .expression _ | .array _ => return none
    | n =>
      let v ← value.value
      let fresh ← Recorded.define n.toText v
      return some (.bool fresh)
  | _ => return none

/-- Whether a single expression is not set or not true. -/
def isEmpty : List Account → Recorded (Option Value)
  | [m] => do
    match ← m.isSet with
    | none => return none
    | some false => return some (.bool true)
    | some true =>
      let v ← m.value
      return if v.isOpaque then none else some (.bool (!v.isTruthy))
  | _ => return none

/-- Call a function on known values. -/
def callBuiltin (env : Environment) (name : String) (args : List Account) :
    Recorded (Option Value) := do
  let vs ← values args
  if vs.any Value.isOpaque then return none else return Builtin.call env (← get) name vs

/-- A call of the function `name`, which is given in lower case. -/
def call (env : Environment) (name : String) (args : List Account) : Recorded (Option Value) :=
  match name with
  | "define" => define args
  | "isset" => do return (← allSet args).map fun b ↦ .bool (!args.isEmpty && b)
  | "empty" => isEmpty args
  | name => callBuiltin env name args

/-- The account belongs to the meaning: value and answer are the same, with records. -/
structure Of (a : Account) (m : Meaning) : Prop where
  value : a.value.Of m.value
  isSet : a.isSet.Of m.isSet

open Recorded

variable {u : Value} {a b i c e : Account} {m n k d r : Meaning}

theorem Of.ofValue {x : Recorded Value} {y : StateM Scope Value} (h : x.Of y) :
    Of (.ofValue x) (.ofValue y) := ⟨h, h.bind fun _ ↦ .pure _⟩

theorem Of.fixed (v : Value) : Of (.fixed v) (.fixed v) := .ofValue (.pure v)

theorem Of.ofVariable (name : String) : Of (.ofVariable name) (.ofVariable name) where
  value := .read fun s ↦ (s.var? name).getD .null
  isSet := Recorded.Of.state.bind fun s ↦ by
    rcases s.var? name with _ | _ | _ | _ | _ | _ | _ | _ <;> exact .pure _

/-- The record of an element of an array. -/
theorem Of.index (base : Of a m) (by' : Of i k) : Of (.index u a i) (.index u m k) where
  value := base.value.bind fun _ ↦ by'.value.bind fun _ ↦ .pure _
  isSet := base.isSet.bind fun set ↦ by
    match set with
    | none => exact .pure _
    | some false => exact .pure _
    | some true =>
      refine base.value.bind fun _ ↦ by'.value.bind fun _ ↦ ?_
      split <;> exact .pure _

/-- An element behind its key, and the elements behind it. -/
def keyed (done : List (Key × Value)) (a : Account) (rest : List (Option Account × Account)) :
    Option Key → Recorded (Option (List (Key × Value)))
  | none => return none
  | some k => do
    let v ← a.value
    if v.isOpaque then return none else elements (Assoc.insert k v done) rest

/-- The record of elements, one after the other, with keys or without. -/
theorem of_elements {xs : List (Option Account × Account)} {ys : List (Option Meaning × Meaning)}
    (h : List.Forall₂ (fun x y ↦ Option.Rel Of x.1 y.1 ∧ Of x.2 y.2) xs ys)
    (done : List (Key × Value)) : (elements done xs).Of (Meaning.elements done ys) := by
  induction h generalizing done with
  | nil => exact .pure _
  | @cons x y xs ys here _ ih =>
    obtain ⟨k, a⟩ := x
    obtain ⟨l, m⟩ := y
    obtain ⟨key, value⟩ : Option.Rel Of k l ∧ Of a m := here
    -- From the key on, elements with and without one go the same way.
    have more : ∀ key?, (keyed done a xs key?).Of (Meaning.keyed done m ys key?) := fun key? ↦ by
      cases key? with
      | none => exact .pure _
      | some key =>
        refine value.value.bind fun v ↦ ?_
        split
        · exact .pure _
        · exact ih _
    cases key with
    | none => exact more (some (.int (Value.nextIndex done)))
    | some key => exact key.value.bind fun v ↦ more v.key?

theorem of_apply (f : Value → Option Value) (h : Of a m) : (apply u f a).Of (Meaning.apply u f m) :=
  h.value.bind fun _ ↦ .pure _

/-- The record of an operator. -/
theorem of_binary (op : BinaryOp) (left : Of a m) (right : Of b n) :
    (binary u op a b).Of (Meaning.binary u op m n) := by
  refine left.value.bind fun v ↦ ?_
  split
  · exact .pure _
  cases Meaning.shortcut? op v with
  | some v => exact .pure _
  | none => exact right.value.bind fun _ ↦ .pure _

/-- The record of a conditional. -/
theorem of_conditional (condition : Of c d) {t : Option Account} {t' : Option Meaning}
    (first : Option.Rel Of t t') (second : Of e r) :
    (conditional u c t e).Of (Meaning.conditional u d t' r) := by
  refine condition.value.bind fun v ↦ ?_
  split
  · exact .pure _
  dsimp only
  split
  · cases first with
    | none => exact .pure _
    | some first => exact first.value.bind fun _ ↦ .pure _
  · exact second.value.bind fun _ ↦ .pure _

section Calls

variable {as : List Account} {ms : List Meaning} (h : List.Forall₂ Of as ms)

include h

theorem of_values : (values as).Of (Meaning.values ms) := by
  induction h with
  | nil => exact .pure _
  | cons here _ ih => exact here.value.bind fun _ ↦ ih.bind fun _ ↦ .pure _

/-- The record of asking whether all arguments are set. -/
theorem of_allSet : (allSet as).Of (Meaning.allSet ms) := by
  induction h with
  | nil => exact .pure _
  | cons here _ ih =>
    refine here.isSet.bind fun set ↦ ?_
    cases set with
    | none => exact .pure _
    | some b => exact ih.bind fun _ ↦ .pure _

/-- The record of `define`, the only function that adds to it. -/
theorem of_define : (define as).Of (Meaning.define ms) := by
  match h with
  | .nil | .cons _ .nil => exact .pure _
  | .cons name (.cons value _) =>
    refine name.value.bind fun n ↦ ?_
    cases n with
    | expression | array => exact .pure _
    | null | bool | int | float | string =>
      exact value.value.bind fun v ↦ (Recorded.Of.define _ v).bind fun _ ↦ .pure _

/-- The record of asking whether the argument is empty. -/
theorem of_isEmpty : (isEmpty as).Of (Meaning.isEmpty ms) := by
  match h with
  | .nil | .cons _ (.cons _ _) => exact .pure _
  | .cons only .nil =>
    refine only.isSet.bind fun set ↦ ?_
    match set with
    | none => exact .pure _
    | some false => exact .pure _
    | some true => exact only.value.bind fun _ ↦ .pure _

/-- The record of a builtin function, which is that of its arguments. -/
theorem of_callBuiltin (env : Environment) (name : String) :
    (callBuiltin env name as).Of (Meaning.callBuiltin env name ms) := by
  refine (of_values h).bind fun vs ↦ ?_
  split
  · exact .pure _
  · exact .read fun s ↦ Builtin.call env s name vs

/-- The record of a call, whatever it calls. -/
theorem of_call (env : Environment) (name : String) :
    (call env name as).Of (Meaning.call env name ms) := by
  have same : as.isEmpty = ms.isEmpty := by cases h <;> rfl
  by_cases isDefine : name = "define"
  · subst isDefine
    exact of_define h
  by_cases isIsset : name = "isset"
  · subst isIsset
    refine (of_allSet h).bind fun _ ↦ ?_
    rw [same]
    exact .pure _
  by_cases isEmpty : name = "empty"
  · subst isEmpty
    exact of_isEmpty h
  rw [Meaning.call_eq_callBuiltin isDefine isIsset isEmpty]
  unfold call
  split <;> first | contradiction | exact of_callBuiltin h env _

end Calls

end Account

namespace Frame

mutual

/-- The account of an expression. -/
def account (f : Frame) : Expr → Account
  | .null _ => .fixed .null
  | .bool _ b => .fixed (.bool b)
  | .int _ i => .fixed (.int i)
  | .float _ x => .fixed (.float x)
  | .str s parts => .ofValue do
    return ((Meaning.interpolate (← get) parts).map Value.string).getD (f.unknown s)
  | .const s name => .ofValue do return ((← get).constant? name).getD (f.unknown s)
  | .magic s kind => .fixed (f.magic s kind)
  | .var _ name => .ofVariable name
  | .array s items => .ofValue do
    return ((← Account.elements [] (itemAccounts f items)).map Value.array).getD (f.unknown s)
  | .index s base i => .index (f.unknown s) (account f base) (account f i)
  | .call s name args => .ofValue do
    let word := String.ofList (Script.lower name.toList)
    return (← Account.call f.environment word (accounts f args)).getD (f.unknown s)
  | .cast s kind e =>
    .ofValue (Account.apply (f.unknown s) (fun v ↦ some (v.castTo kind)) (account f e))
  | .unary s op e => .ofValue (Account.apply (f.unknown s) (Value.unary? op) (account f e))
  | .binary s op lhs rhs =>
    .ofValue (Account.binary (f.unknown s) op (account f lhs) (account f rhs))
  | .ternary s c t e =>
    .ofValue
      (Account.conditional (f.unknown s) (account f c) (some (account f t)) (account f e))
  | .elvis s c e => .ofValue (Account.conditional (f.unknown s) (account f c) none (account f e))
  | .opaqueExpr s => .fixed (f.unknown s)

/-- The accounts of several expressions. -/
def accounts (f : Frame) : List Expr → List Account
  | [] => []
  | e :: es => account f e :: accounts f es

/-- The accounts of keys and values of an array literal. -/
def itemAccounts (f : Frame) : List Item → List (Option Account × Account)
  | [] => []
  | .value e :: items => (none, account f e) :: itemAccounts f items
  | .keyed k e :: items => (some (account f k), account f e) :: itemAccounts f items

end

/-- The value of an expression, with a record. -/
def recordedEval (f : Frame) (e : Expr) : Recorded Value := (f.account e).value

open Account

/-- The records of several expressions. -/
theorem accounts_of (f : Frame) {es : List Expr} (h : ∀ e ∈ es, (f.account e).Of (f.meaning e)) :
    List.Forall₂ Of (f.accounts es) (f.meanings es) := by
  induction es with
  | nil =>
    rw [accounts, meanings]
    exact .nil
  | cons e es ih =>
    rw [accounts, meanings]
    exact .cons (h e List.mem_cons_self) (ih fun p hp ↦ h p (List.mem_cons_of_mem _ hp))

/-- The records of the elements of an array. -/
theorem itemAccounts_of (f : Frame) {is : List Item}
    (h : ∀ e ∈ is.flatMap Item.parts, (f.account e).Of (f.meaning e)) :
    List.Forall₂ (fun x y ↦ Option.Rel Of x.1 y.1 ∧ Of x.2 y.2) (f.itemAccounts is)
      (f.itemMeanings is) := by
  induction is with
  | nil =>
    rw [itemAccounts, itemMeanings]
    exact .nil
  | cons i is ih =>
    have rest := ih fun e he ↦ h e (List.mem_append_right _ he)
    have here : ∀ e ∈ i.parts, (f.account e).Of (f.meaning e) := fun e he ↦
      h e (List.mem_append_left _ he)
    cases i with
    | value e =>
      rw [itemAccounts, itemMeanings]
      exact .cons ⟨.none, here e (by simp [Item.parts])⟩ rest
    | keyed k e =>
      rw [itemAccounts, itemMeanings]
      exact .cons ⟨.some (here k (by simp [Item.parts])), here e (by simp [Item.parts])⟩ rest

/-- The account of an expression belongs to its meaning. -/
theorem account_of (f : Frame) (e : Expr) : (f.account e).Of (f.meaning e) := by
  induction e using Expr.induction_parts with
  | step e ih =>
    cases e with
    | null | bool | int | float | opaqueExpr => exact .fixed _
    | str s ps =>
      exact .ofValue (.read fun s' ↦ ((Meaning.interpolate s' ps).map Value.string).getD (f.unknown s))
    | const s n => exact .ofValue (.read fun s' ↦ (s'.constant? n).getD (f.unknown s))
    | magic s k => exact .fixed _
    | var s n => exact .ofVariable n
    | array s is =>
      have items : (Account.elements [] (f.itemAccounts is)).Of
          (Meaning.elements [] (f.itemMeanings is)) := of_elements (f.itemAccounts_of ih) []
      exact .ofValue (items.bind fun _ ↦ .pure _)
    | index s b i => exact .index (ih b (by simp [Expr.parts])) (ih i (by simp [Expr.parts]))
    | call s n es =>
      exact .ofValue ((of_call (f.accounts_of ih) _ _).bind fun _ ↦ .pure _)
    | cast s c e => exact .ofValue (of_apply _ (ih e (by simp [Expr.parts])))
    | unary s op e => exact .ofValue (of_apply _ (ih e (by simp [Expr.parts])))
    | binary s op l r =>
      exact .ofValue (of_binary op (ih l (by simp [Expr.parts])) (ih r (by simp [Expr.parts])))
    | ternary s c t e =>
      exact .ofValue (of_conditional (ih c (by simp [Expr.parts]))
        (.some (ih t (by simp [Expr.parts]))) (ih e (by simp [Expr.parts])))
    | elvis s c e =>
      exact .ofValue (of_conditional (ih c (by simp [Expr.parts])) .none
        (ih e (by simp [Expr.parts])))

theorem recordedEval_of (f : Frame) (e : Expr) : (f.recordedEval e).Of (f.eval e) :=
  (f.account_of e).value

/-! ### Statements that only change the scope -/

/-- The path of keys that indices stand for. -/
def recordedKeys (f : Frame) : List (Option Expr) → Recorded (Option (List (Option Key)))
  | [] => return some []
  | none :: rest => do return (← recordedKeys f rest).map (none :: ·)
  | some e :: rest => do
    match (← f.recordedEval e).key? with
    | none => return none
    | some k => return (← recordedKeys f rest).map (some k :: ·)

/-- Run an assignment. -/
def recordedAssign (f : Frame) (op : AssignOp) (t : Target) (e : Expr) : Recorded Unit := do
  match ← f.recordedKeys t.indices with
  | none => return ()
  | some path =>
    let slot := ((← get).var? t.name).getD .null
    let old := Value.lookupPath slot path
    if op == .coalesce && old.any (!·.isNull) then return ()
    else
      let right ← f.recordedEval e
      let new := assigned op old right (f.unknown (t.span.through e.span))
      modify (·.setVariable t.name (Value.setPath slot path new))

/-- The path of keys that indices stand for, where none may be left open. -/
def recordedClosedKeys (f : Frame) : List (Option Expr) → Recorded (Option (List Key))
  | [] => return some []
  | none :: _ => return none
  | some e :: rest => do
    match (← f.recordedEval e).key? with
    | none => return none
    | some k => return (← recordedClosedKeys f rest).map (k :: ·)

/-- Drop a variable or an element of one. -/
def recordedUnset (f : Frame) (t : Target) : Recorded Unit := do
  if t.indices.isEmpty then modify (·.unsetVariable t.name)
  else
    match ← f.recordedClosedKeys t.indices with
    | none => return ()
    | some path =>
      match (← get).var? t.name with
      | none => return ()
      | some slot => modify (·.setVariable t.name (slot.removePath path))

/-- Define the constants of a declaration. -/
def recordedDeclare (f : Frame) : List ConstItem → Recorded Unit
  | [] => return ()
  | item :: items => do
    let v ← f.recordedEval item.value
    let _ ← Recorded.define item.name v
    recordedDeclare f items

/-- What a statement does that only changes the scope. The others end a file or a run, contain other
statements or load a file. -/
def effect? (f : Frame) : Stmt → Option (Recorded Unit)
  | .expr _ e => some do
    let _ ← f.recordedEval e
    return ()
  | .assign _ op t e => some (f.recordedAssign op t e)
  | .const _ items => some (f.recordedDeclare items)
  | .unset _ ts => some (ts.forM f.recordedUnset)
  | .global _ _ | .inlineHtml _ | .opaqueStmt _ => some (return ())
  | .load .. | .conditional .. | .block .. | .ret _ | .exit _ => none

/-- The record of the keys of a target. -/
theorem recordedKeys_of (f : Frame) (is : List (Option Expr)) :
    (f.recordedKeys is).Of (f.keys is) := by
  induction is with
  | nil => exact .pure _
  | cons i is ih =>
    cases i with
    | none => exact ih.bind fun _ ↦ .pure _
    | some e =>
      refine (f.recordedEval_of e).bind fun v ↦ ?_
      cases v.key? with
      | none => exact .pure _
      | some k => exact ih.bind fun _ ↦ .pure _

/-- The record of an assignment. -/
theorem recordedAssign_of (f : Frame) (op : AssignOp) (t : Target) (e : Expr) :
    (f.recordedAssign op t e).Of (f.assign op t e) := by
  refine (f.recordedKeys_of t.indices).bind fun path ↦ ?_
  cases path with
  | none => exact .pure _
  | some path =>
    refine Recorded.Of.state.bind fun s ↦ ?_
    dsimp only
    split
    · exact .pure _
    · exact (f.recordedEval_of e).bind fun _ ↦ .modify fun s ↦ s.defines_setVariable _ _

/-- The record of the keys of a target to be unset. -/
theorem recordedClosedKeys_of (f : Frame) (is : List (Option Expr)) :
    (f.recordedClosedKeys is).Of (f.closedKeys is) := by
  induction is with
  | nil => exact .pure _
  | cons i is ih =>
    cases i with
    | none => exact .pure _
    | some e =>
      refine (f.recordedEval_of e).bind fun v ↦ ?_
      cases v.key? with
      | none => exact .pure _
      | some k => exact ih.bind fun _ ↦ .pure _

/-- The record of unsetting a target. -/
theorem recordedUnset_of (f : Frame) (t : Target) : (f.recordedUnset t).Of (f.unset t) := by
  unfold recordedUnset unset
  split
  · exact .modify fun s ↦ s.defines_unsetVariable _
  · refine (f.recordedClosedKeys_of t.indices).bind fun path ↦ ?_
    cases path with
    | none => exact .pure _
    | some path =>
      refine Recorded.Of.state.bind fun s ↦ ?_
      cases s.var? t.name with
      | none => exact .pure _
      | some slot => exact .modify fun s ↦ s.defines_setVariable _ _

/-- The record of unsetting several targets. -/
theorem recordedUnsets_of (f : Frame) (ts : List Target) :
    Recorded.Of (ts.forM f.recordedUnset) (ts.forM f.unset) := by
  induction ts with
  | nil => exact .pure _
  | cons t ts ih => exact (f.recordedUnset_of t).bind fun _ ↦ ih

/-- The record of declaring constants, which are definitions themselves. -/
theorem recordedDeclare_of (f : Frame) (is : List ConstItem) :
    (f.recordedDeclare is).Of (f.declare is) := by
  induction is with
  | nil => exact .pure _
  | cons i is ih =>
    exact (f.recordedEval_of i.value).bind fun v ↦ (Recorded.Of.define _ v).bind fun _ ↦ ih

/-- A statement that only changes the scope is run by its effect, however files are run. -/
theorem outcome_effect {f : Frame} {st : Stmt} {x : Recorded Unit} (h : f.effect? st = some x)
    {s s' : Scope} {ds : Bindings} (done : x.outcome s = ((), ds, s')) (runner : Option Runner) :
    (f.exec runner st).outcome s = (.ok .goOn, s') ∧ Scope.Defines ds s s' := by
  have behind : ∀ {y : StateM Scope Unit}, x.Of y →
      (f.exec runner st).outcome s = (.ok .goOn, (y.run s).2) →
        (f.exec runner st).outcome s = (.ok .goOn, s') ∧ Scope.Defines ds s s' := fun of run ↦ by
    obtain ⟨same, defines⟩ := of.run_eq done
    rw [same] at run
    exact ⟨run, defines⟩
  cases st with
  | expr sp e =>
    obtain rfl := Option.some.inj h
    exact behind ((f.recordedEval_of e).bind fun _ ↦ .pure _) (by rw [exec]; rfl)
  | assign sp op t e =>
    obtain rfl := Option.some.inj h
    exact behind (f.recordedAssign_of op t e) (by rw [exec]; rfl)
  | const sp is =>
    obtain rfl := Option.some.inj h
    exact behind (f.recordedDeclare_of is) (by rw [exec]; rfl)
  | unset sp ts =>
    obtain rfl := Option.some.inj h
    exact behind (f.recordedUnsets_of ts) (by rw [exec]; rfl)
  | global | inlineHtml | opaqueStmt =>
    obtain rfl := Option.some.inj h
    exact behind (.pure _) (by rw [exec]; rfl)
  | load | conditional | block | ret | exit => cases h

end Frame

end ConfigScript
