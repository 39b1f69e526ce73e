import ConfigScript.Proofs.Parsing.Placed
import ConfigScript.Proofs.Patching.Statement

/-!
# Replacing a value

The tokens of a value are exchanged for those of another one, and the tokens behind them move. If the
parser reads the new ones as an expression there, it makes of all of them the old tree with the value
replaced (`Placed.statements_replaced`): the two lists are twins, with the value as the hole.
-/

namespace ConfigScript.Script

/-! ### Moving -/

namespace Patch

/-- All spans behind `p` move as `p` moves to `q`. -/
def moving (p q : Place) : Patch where
  move := Span.moved p q
  hole := none
  new := .null default
  move_through s t := by
    have stop : max t.stop s.stop - p.offset + q.offset =
        max (t.stop - p.offset + q.offset) (s.stop - p.offset + q.offset) := by omega
    unfold Span.moved Span.through
    rw [Span.mk.injEq]
    exact ⟨rfl, stop, rfl, rfl⟩

/-- Where byte `n` goes if the text from byte `start` up to byte `stop` is replaced by one that ends in
front of byte `stop'`. -/
def offset (start stop stop' n : Nat) : Nat := if n ≤ start then n else n - stop + stop'

theorem offset_max {start stop stop' : Nat} (le : start ≤ stop') (m n : Nat) :
    offset start stop stop' (max m n) =
      max (offset start stop stop' m) (offset start stop stop' n) := by
  unfold offset
  grind

/-- The text from byte `start` up to the place `p` is replaced by one that ends at the place `q`: what is
behind moves, and what surrounds the text ends elsewhere. -/
def replacing (start : Nat) (p q : Place) (le : start ≤ q.offset) (new : Expr) (hole : Span) :
    Patch where
  move s :=
    if s.start < p.offset then { s with stop := offset start p.offset q.offset s.stop }
    else { s.moved p q with stop := offset start p.offset q.offset s.stop }
  hole := some hole
  new := new
  move_through s t := by
    by_cases front : s.start < p.offset
    · have whole : (s.through t).start < p.offset := front
      rw [if_pos whole, if_pos front, Span.through, Span.through, offset_max le]
      split <;> rfl
    · have whole : ¬(s.through t).start < p.offset := front
      rw [if_neg whole, if_neg front, Span.through, Span.through, offset_max le]
      split <;> rfl

theorem put_of_none {k : Patch} (none : k.hole = none) (s : Span) (node : Span → Expr) :
    k.put s node = node (k.move s) := if_neg (by rw [none]; nofun)

mutual

/-- A patch without a hole leaves an expression as it is, up to its spans. -/
theorem unplaced_expr {k : Patch} (none : k.hole = none) (e : Expr) :
    (k.expr e).unplaced = e.unplaced := by
  match e with
  | .null _ | .bool _ _ | .int _ _ | .float _ _ | .str _ _ | .const _ _ | .magic _ _ | .var _ _
  | .opaqueExpr _ => rw [expr, put_of_none none]; rfl
  | .array s is =>
    rw [expr, put_of_none none, Expr.unplaced, Expr.unplaced, unplaced_items none is]
  | .index s b i =>
    rw [expr, put_of_none none, Expr.unplaced, Expr.unplaced, unplaced_expr none b,
      unplaced_expr none i]
  | .call s n as =>
    rw [expr, put_of_none none, Expr.unplaced, Expr.unplaced, unplaced_exprs none as]
  | .cast s c e => rw [expr, put_of_none none, Expr.unplaced, Expr.unplaced, unplaced_expr none e]
  | .unary s op e => rw [expr, put_of_none none, Expr.unplaced, Expr.unplaced, unplaced_expr none e]
  | .binary s op l r =>
    rw [expr, put_of_none none, Expr.unplaced, Expr.unplaced, unplaced_expr none l,
      unplaced_expr none r]
  | .ternary s c t e =>
    rw [expr, put_of_none none, Expr.unplaced, Expr.unplaced, unplaced_expr none c,
      unplaced_expr none t, unplaced_expr none e]
  | .elvis s c e =>
    rw [expr, put_of_none none, Expr.unplaced, Expr.unplaced, unplaced_expr none c,
      unplaced_expr none e]

/-- Expressions that only move are the same up to their places. -/
theorem unplaced_exprs {k : Patch} (none : k.hole = none) (es : List Expr) :
    Expr.unplacedList (k.exprs es) = Expr.unplacedList es := by
  match es with
  | [] => rfl
  | e :: es =>
    rw [exprs, Expr.unplacedList, Expr.unplacedList, unplaced_expr none e, unplaced_exprs none es]

/-- Elements of an array that only move are the same up to their places. -/
theorem unplaced_items {k : Patch} (none : k.hole = none) (is : List Item) :
    Expr.unplacedItems (k.items is) = Expr.unplacedItems is := by
  match is with
  | [] => rfl
  | .value e :: is =>
    rw [items, Expr.unplacedItems, Expr.unplacedItems, unplaced_expr none e, unplaced_items none is]
  | .keyed a e :: is =>
    rw [items, Expr.unplacedItems, Expr.unplacedItems, unplaced_expr none a, unplaced_expr none e,
      unplaced_items none is]

end

theorem unplaced_target {k : Patch} (none : k.hole = none) (t : Target) :
    (k.target t).unplaced = t.unplaced := by
  simp only [target, Target.unplaced, List.map_map, Function.comp_def, Option.map_map,
    unplaced_expr none]

theorem unplaced_constItem {k : Patch} (none : k.hole = none) (i : ConstItem) :
    (k.constItem i).unplaced = i.unplaced := by
  rw [constItem, ConstItem.unplaced, ConstItem.unplaced, unplaced_expr none]

mutual

/-- A patch without a hole leaves a statement as it is, up to its spans. -/
theorem unplaced_stmt {k : Patch} (none : k.hole = none) (s : Stmt) :
    (k.stmt s).unplaced = s.unplaced := by
  match s with
  | .global _ _ | .ret _ | .exit _ | .inlineHtml _ | .opaqueStmt _ => rw [stmt]; rfl
  | .expr _ e => rw [stmt, Stmt.unplaced, Stmt.unplaced, unplaced_expr none e]
  | .assign _ op t e =>
    rw [stmt, Stmt.unplaced, Stmt.unplaced, unplaced_target none t, unplaced_expr none e]
  | .const _ is =>
    rw [stmt, Stmt.unplaced, Stmt.unplaced, List.map_map]
    exact congrArg _ (List.map_congr_left fun i _ ↦ unplaced_constItem none i)
  | .load _ kind p => rw [stmt, Stmt.unplaced, Stmt.unplaced, unplaced_expr none p]
  | .conditional _ bs .none => rw [stmt, Stmt.unplaced, Stmt.unplaced, unplaced_branches none bs]
  | .conditional _ bs (some body) =>
    rw [stmt, Stmt.unplaced, Stmt.unplaced, unplaced_branches none bs, unplaced_stmts none body]
  | .block _ body => rw [stmt, Stmt.unplaced, Stmt.unplaced, unplaced_stmts none body]
  | .unset _ ts =>
    rw [stmt, Stmt.unplaced, Stmt.unplaced, List.map_map]
    exact congrArg _ (List.map_congr_left fun t _ ↦ unplaced_target none t)

/-- Statements that only move are the same up to their places. -/
theorem unplaced_stmts {k : Patch} (none : k.hole = none) (ss : List Stmt) :
    Stmt.unplacedList (k.stmts ss) = Stmt.unplacedList ss := by
  match ss with
  | [] => rfl
  | s :: ss =>
    rw [stmts, Stmt.unplacedList, Stmt.unplacedList, unplaced_stmt none s, unplaced_stmts none ss]

/-- Branches that only move are the same up to their places. -/
theorem unplaced_branches {k : Patch} (none : k.hole = none) (bs : List Branch) :
    Stmt.unplacedBranches (k.branches bs) = Stmt.unplacedBranches bs := by
  match bs with
  | [] => rfl
  | .mk c body :: bs =>
    rw [branches, Stmt.unplacedBranches, Stmt.unplacedBranches, unplaced_expr none c,
      unplaced_stmts none body, unplaced_branches none bs]

end

section Replacing

variable {start : Nat} {p q : Place} {new : Expr} {hole s : Span}

theorem move_of_before (le : start ≤ q.offset) (front : s.start < p.offset) (before : s.stop ≤ start) :
    (replacing start p q le new hole).move s = s := by
  show (if _ then _ else _) = _
  rw [if_pos front, offset, if_pos before]

theorem move_of_behind (le : start ≤ q.offset) (behind : p.offset ≤ s.start) (after : start < s.stop) :
    (replacing start p q le new hole).move s = s.moved p q := by
  show (if _ then _ else _) = _
  rw [if_neg (Nat.not_lt.2 behind), offset, if_neg (Nat.not_le.2 after)]
  rfl

theorem stop_move (le : start ≤ q.offset) : ((replacing start p q le new hole).move s).stop =
    offset start p.offset q.offset s.stop := by
  show (if _ then _ else _ : Span).stop = _
  split <;> rfl

end Replacing

end Patch

/-! ### The tokens around a value -/

namespace Placed

variable {ts : List Token} {v : Expr} {before : List Token} {lead : Token} {us : List Token}
  {next : Token} {after : List Token}

theorem parts (placed : Placed ts v before lead us next after) :
    ts = (before ++ [lead]) ++ (us ++ next :: after) := by
  rw [placed.tokens]
  simp

theorem ne_openTag_lead (placed : Placed ts v before lead us next after) :
    lead.kind ≠ .openTag := by
  rcases placed.sign with hk | ⟨hk, -⟩ <;> simp [hk]

/-- The token in front of a value that stands alone is no opening tag. -/
theorem alone (placed : Placed ts v before lead us next after) :
    ∀ o ∈ (before ++ [lead]).getLast?, o.kind ≠ .openTag := by
  intro o ho
  rw [List.getLast?_concat] at ho
  obtain rfl := Option.some.inj ho
  exact placed.ne_openTag_lead

/-- The value spans its tokens. -/
theorem covers (placed : Placed ts v before lead us next after) (laid : Laid ts) :
    Covers v.span.start v.span.stop us ∧ ∀ t ∈ next :: after, v.span.stop ≤ t.span.start := by
  have inner : Laid (us ++ next :: after) := by
    rw [placed.parts] at laid
    exact laid.append_right
  obtain ⟨lo, hi, covers, behind⟩ := inner.covers placed.spells.enclosed placed.spells.some
  obtain ⟨rfl, rfl, -⟩ := placed.spells.spans covers
  exact ⟨covers, behind⟩

/-- What stands in front of the value. -/
theorem front (placed : Placed ts v before lead us next after) (laid : Laid ts) {t : Token}
    (mem : t ∈ before ++ [lead]) : t.span.start < v.span.start ∧ t.span.stop ≤ v.span.start := by
  obtain ⟨u, memu, start⟩ := (placed.covers laid).1.mem_first
  have tokens := placed.parts
  have memu' : u ∈ us ++ next :: after := List.mem_append_left _ memu
  obtain ⟨some, stops, apart⟩ := laid
  subst tokens
  have long := some t (List.mem_append_left _ mem)
  have stop : lead.span.stop ≤ v.span.start := by
    rw [← start]
    exact (List.pairwise_append.1 apart).2.2 lead (by simp) u memu' placed.ne_openTag_lead
  have le : t.span.stop ≤ lead.span.stop := by
    rcases List.mem_append.1 mem with mem | mem
    · have inner := (List.pairwise_append.1 stops).1
      exact (List.pairwise_append.1 inner).2.2 t mem lead (List.mem_singleton_self _)
    · obtain rfl := List.mem_singleton.1 mem
      exact Nat.le_refl _
  omega

end Placed

/-- Tokens in the place of those of the value `v`: the parser reads them as the expression `e` in front of
what followed the value, which has moved. -/
structure Exchanged (v : Expr) (p q : Place) (rs behind : List Token) (e : Expr) : Prop where
  place : p.offset = v.span.stop
  le : v.span.start ≤ q.offset
  some : rs ≠ []
  closed : Enclosed rs
  asked : Asked rs (behind.map (Token.moved p q)) e
  last : ∀ s, (lastSpan s rs).stop = q.offset
  stop : e.span.stop = q.offset

namespace Exchanged

variable {ts : List Token} {v : Expr} {before : List Token} {lead : Token} {us : List Token}
  {next : Token} {after : List Token} {p q : Place} {rs : List Token} {e : Expr}

/-- The twins that the lists of tokens are. -/
def twinning (x : Exchanged v p q rs (next :: after) e) (us : List Token) : Twinning where
  patch := .replacing v.span.start p q x.le e v.span
  strict := True
  whole := True
  hole as as' := as = us ++ next :: after ∧ as' = rs ++ (next :: after).map (Token.moved p q)

variable (x : Exchanged v p q rs (next :: after) e)
  (placed : Placed ts v before lead us next after) (laid : Laid ts)

/-- What ends with the value ends with the new one. -/
theorem stop_move {s : Span} (lt : v.span.start < v.span.stop) (stop : s.stop = v.span.stop) :
    ((x.twinning us).patch.move s).stop = q.offset := by
  have moved : ((x.twinning us).patch.move s).stop = _ := Patch.stop_move x.le
  rw [moved, Patch.offset, stop, if_neg (Nat.not_le.2 lt), x.place]
  omega

include placed laid in
/-- What is behind the value moves. -/
theorem twins_behind {as : List Token} (behind : ∀ t ∈ as, v.span.stop ≤ t.span.start)
    (long : ∀ t ∈ as, t.span.start < t.span.stop) (short : as.length ≤ (next :: after).length) :
    Twins (x.twinning us) as (as.map (Token.moved p q)) := by
  have lt := (placed.covers laid).1.lt
  induction as with
  | nil => exact .nil
  | cons t as ih =>
    have here := behind t List.mem_cons_self
    have some := long t List.mem_cons_self
    have token : (x.twinning us).patch.token t = t.moved p q := by
      have moved : (x.twinning us).patch.move t.span = t.span.moved p q :=
        Patch.move_of_behind x.le (by rw [x.place]; exact here) (by omega)
      rw [Patch.token, moved]
      rfl
    rw [List.map_cons, ← token]
    refine .cons ?_ ?_ (ih (fun u hu ↦ behind u (List.mem_cons_of_mem _ hu))
      (fun u hu ↦ long u (List.mem_cons_of_mem _ hu)) (Nat.le_of_succ_le short))
    · intro s hs
      obtain rfl := Option.some.inj hs
      omega
    · rintro u us' us'' rfl ⟨same, -⟩ -
      have := congrArg List.length same
      have := List.length_pos_iff.2 placed.spells.some
      simp only [List.length_append, List.length_cons] at *
      omega

include placed laid in
/-- With the value exchanged, the tokens are strict and whole twins of the old ones, with an expression
on both sides of the hole. -/
theorem settled : (x.twinning us).Settled := by
  obtain ⟨covers, behind⟩ := placed.covers laid
  have long : ∀ t ∈ next :: after, t.span.start < t.span.stop := fun t ht ↦
    laid.some t (by rw [placed.tokens]; simp [List.mem_cons.1 ht])
  have at_behind : ∀ s s', (x.twinning us).At ⟨lastSpan s us, next :: after⟩
      ⟨lastSpan s' rs, (next :: after).map (Token.moved p q)⟩ := by
    intro s s'
    refine ⟨?_, twins_behind x placed laid behind long (Nat.le_refl _)⟩
    rw [x.stop_move covers.lt (covers.lastSpan s)]
    exact x.last s'
  exact {
    strict := trivial
    whole := trivial
    sound := by
      rintro as as' ⟨rfl, rfl⟩ s s'
      refine ⟨v, e, _, _, placed.asked s, x.asked s', ⟨?_, ?_⟩, at_behind s s'⟩
      · exact (Patch.expr_of_hole (k := (x.twinning us).patch) rfl).symm
      · rw [x.stop, x.stop_move covers.lt rfl]
    closed := by
      rintro as as' ⟨rfl, rfl⟩
      refine ⟨us, next :: after, rs, (next :: after).map (Token.moved p q), rfl, rfl,
        placed.spells.some, x.some, placed.spells.enclosed, x.closed, ?_, ?_, at_behind⟩
      · exact placed.ends
      · exact placed.ends }

include placed laid in
/-- The lists are twins from their beginnings. -/
theorem twins : Twins (x.twinning us) ts
    (before ++ lead :: (rs ++ (next :: after).map (Token.moved p q))) := by
  have lt := (placed.covers laid).1.lt
  have front : ∀ t ∈ before ++ [lead], (x.twinning us).patch.token t = t ∧
      (x.twinning us).patch.Off t.span := by
    intro t mem
    obtain ⟨start, stop⟩ := placed.front laid mem
    have same : (x.twinning us).patch.move t.span = t.span :=
      Patch.move_of_before x.le (by rw [x.place]; omega) stop
    refine ⟨by rw [Patch.token, same], fun s hs ↦ ?_⟩
    obtain rfl := Option.some.inj hs
    omega
  have go : ∀ pre bs : List Token, before = pre ++ bs →
      Twins (x.twinning us) (bs ++ lead :: (us ++ next :: after))
        (bs ++ lead :: (rs ++ (next :: after).map (Token.moved p q))) := by
    intro pre bs
    induction bs generalizing pre with
    | nil =>
      intro _
      obtain ⟨same, off⟩ := front lead (by simp)
      rw [List.nil_append, List.nil_append]
      have hole := Twins.hole (w := x.twinning us) off ?_ ⟨rfl, rfl⟩
      · rwa [same] at hole
      · rcases placed.sign with hk | ⟨hk, -⟩ <;> simp [leadsToHole, hk]
    | cons t bs ih =>
      intro parts
      obtain ⟨same, off⟩ := front t (by simp [parts])
      have more := ih (pre ++ [t]) (by simp [parts])
      have cons := Twins.cons off ?_ more
      · rwa [same] at cons
      rintro u us' us'' text ⟨rfl, -⟩ comma
      -- A hole behind the next token: that is the one in front of the value.
      have short := congrArg List.length text
      simp only [List.length_append, List.length_cons] at short
      obtain rfl := List.length_eq_zero_iff.1 (show bs.length = 0 by omega)
      obtain ⟨rfl, -⟩ := List.cons.inj text
      rw [Token.isPunct, beq_iff_eq] at comma
      rcases placed.sign with hk | ⟨-, front, t', whole, ends⟩
      · rw [hk] at comma
        cases comma
      · obtain ⟨-, last⟩ := List.append_inj' (parts.symm.trans whole) rfl
        rw [List.singleton_inj.1 last]
        exact ends
  have whole := go [] before rfl
  rwa [← placed.tokens] at whole

include placed laid in
/-- The parser makes of the new tokens the old tree with the value replaced. -/
theorem statements_replaced {body : List Stmt} (parsed : statements ⟨default, ts⟩ = .ok body) :
    statements ⟨default, before ++ lead :: (rs ++ (next :: after).map (Token.moved p q))⟩ =
      .ok ((Patch.replacing v.span.start p q x.le e v.span).stmts body) := by
  refine (settled x placed laid).statements_patched ⟨?_, twins x placed laid⟩ parsed
  have moved : ((x.twinning us).patch.move default).stop = _ := Patch.stop_move x.le
  exact (moved.trans (if_pos (Nat.zero_le _))).symm

end Exchanged

end ConfigScript.Script
