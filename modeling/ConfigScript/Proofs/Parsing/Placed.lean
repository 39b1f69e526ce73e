import ConfigScript.Edit.Occurrence
import ConfigScript.Proofs.Lexing.Row
import ConfigScript.Proofs.Parsing.Outline

/-!
# Where values stand

A definition in a script has its value behind an equals sign, or behind the comma in a call of
`define` whose first argument is a text (`Holds.placed`). There the value is a whole expression,
and what follows it ends a value (`Placed`). No two expressions of a script have the same span
(`Holds.nested`), so the span of a value tells which expression it is.
-/

namespace ConfigScript

open Script

/-! ### Definitions -/

/-- An expression of a script that a name is defined by. -/
inductive Defining (rs : List Root) : Expr → Prop
  | assigned {v : Expr} (mem : .assigned v ∈ rs) : Defining rs v
  | call {r : Root} {s : Span} {f : String} {a v : Expr} {es : List Expr} (mem : r ∈ rs)
      (inside : .call s f (a :: v :: es) ∈ r.expr.nodes) (text : a.literalText?.isSome) :
      Defining rs v

/-- A value that defines a name among some expressions does so among more. -/
theorem Defining.mono {rs qs : List Root} {v : Expr} (h : Defining rs v)
    (sub : ∀ r ∈ rs, r ∈ qs) : Defining qs v := by
  cases h with
  | assigned mem => exact .assigned (sub _ mem)
  | call mem inside text => exact .call (sub _ mem) inside text

namespace Occurrence

variable {kind : EntryKind} {name : String} {o : Occurrence}

/-- A call that defines a name is one of its name, as a text, and of the value. -/
theorem definedValue?_eq_some {n v : Expr} (h : definedValue? name n = some v) :
    ∃ s f a es, n = .call s f (a :: v :: es) ∧ a.literalText? = some name := by
  unfold definedValue? at h
  split at h
  · split at h
    · rename_i s f a w es defines
      obtain rfl := Option.some.inj h
      simp only [Bool.and_eq_true, beq_iff_eq] at defines
      exact ⟨s, f, a, es, rfl, defines.2⟩
    · cases h
  · cases h

/-- What is found in an expression is the value of a definition in it. -/
theorem defining_of_inExpr {statement : Option Span} {r : Root}
    (h : o ∈ inExpr name statement r.expr) : ∃ v, o.value = v.span ∧ Defining [r] v := by
  obtain ⟨v, mem, rfl⟩ := List.mem_map.1 h
  obtain ⟨n, inside, value⟩ := List.mem_filterMap.1 mem
  obtain ⟨s, f, a, es, rfl, text⟩ := definedValue?_eq_some value
  exact ⟨v, rfl, .call (List.mem_singleton_self _) inside (by rw [text]; rfl)⟩

mutual

/-- The value of a definition is one of the values that names are defined by. -/
theorem defining_of_inStmt {s : Stmt} (h : o ∈ inStmt kind name s) :
    ∃ v, o.value = v.span ∧ Defining s.roots v := by
  match s with
  | .conditional _ bs none => exact defining_of_inBranches (show o ∈ inBranches kind name bs from h)
  | .conditional _ bs (some body) =>
    rcases List.mem_append.1 h with h | h
    · obtain ⟨v, same, defining⟩ := defining_of_inBranches h
      exact ⟨v, same, defining.mono fun r hr ↦ List.mem_append_left _ hr⟩
    · obtain ⟨v, same, defining⟩ := defining_of_inStmts h
      exact ⟨v, same, defining.mono fun r hr ↦ List.mem_append_right _ hr⟩
  | .block _ body => exact defining_of_inStmts (show o ∈ inStmts kind name body from h)
  | .expr s e =>
    rw [inStmt] at h
    split at h
    · exact defining_of_inExpr (r := .inner e) h
    · cases h
  | .const s is =>
    rw [inStmt] at h
    split at h
    · obtain ⟨i, mem, rfl⟩ := List.mem_map.1 h
      exact ⟨i.value, rfl, .assigned (List.mem_map.2 ⟨i, (List.mem_filter.1 mem).1, rfl⟩)⟩
    · cases h
  | .assign s op t e =>
    cases kind with
    | const =>
      replace h : o ∈ inExpr name none e := h
      -- Only a plain assignment has its value as an outermost expression of its own kind.
      by_cases assign : op = .assign
      · obtain ⟨v, same, defining⟩ := defining_of_inExpr (r := .assigned e) h
        exact ⟨v, same, defining.mono fun r hr ↦ by
          obtain rfl := List.mem_singleton.1 hr
          simp [Stmt.roots, assign]⟩
      · obtain ⟨v, same, defining⟩ := defining_of_inExpr (r := .inner e) h
        exact ⟨v, same, defining.mono fun r hr ↦ by
          obtain rfl := List.mem_singleton.1 hr
          simp [Stmt.roots, assign]⟩
    | var =>
      replace h : o ∈ inAssignment name s op t e := h
      unfold inAssignment at h
      split at h
      · rename_i plain
        obtain rfl := List.mem_singleton.1 h
        simp only [Bool.and_eq_true, beq_iff_eq] at plain
        exact ⟨e, rfl, .assigned (by simp [Stmt.roots, plain.2])⟩
      · cases h
    | inclusion => cases h
  | .load .. | .unset .. | .global .. | .ret _ | .exit _ | .inlineHtml _ | .opaqueStmt _ => cases h

/-- What is found in statements is the value of a definition in them. -/
theorem defining_of_inStmts {ss : List Stmt} (h : o ∈ inStmts kind name ss) :
    ∃ v, o.value = v.span ∧ Defining (Stmt.rootsOfList ss) v := by
  match ss with
  | [] => cases h
  | s :: ss =>
    rcases List.mem_append.1 h with h | h
    · obtain ⟨v, same, defining⟩ := defining_of_inStmt h
      exact ⟨v, same, defining.mono fun r hr ↦ List.mem_append_left _ hr⟩
    · obtain ⟨v, same, defining⟩ := defining_of_inStmts h
      exact ⟨v, same, defining.mono fun r hr ↦ List.mem_append_right _ hr⟩

/-- What is found in branches is the value of a definition in them. -/
theorem defining_of_inBranches {bs : List Branch} (h : o ∈ inBranches kind name bs) :
    ∃ v, o.value = v.span ∧ Defining (Stmt.rootsOfBranches bs) v := by
  match bs with
  | [] => cases h
  | .mk c body :: bs =>
    rcases List.mem_append.1 h with h | h
    · rcases List.mem_append.1 h with h | h
      · split at h
        · obtain ⟨v, same, defining⟩ := defining_of_inExpr (r := .inner c) h
          exact ⟨v, same, defining.mono fun r hr ↦ by
            obtain rfl := List.mem_singleton.1 hr
            exact List.mem_cons_self⟩
        · cases h
      · obtain ⟨v, same, defining⟩ := defining_of_inStmts h
        exact ⟨v, same, defining.mono fun r hr ↦
          List.mem_cons_of_mem _ (List.mem_append_left _ hr)⟩
    · obtain ⟨v, same, defining⟩ := defining_of_inBranches h
      exact ⟨v, same, defining.mono fun r hr ↦
        List.mem_cons_of_mem _ (List.mem_append_right _ hr)⟩

end

/-- The first occurrence is kept when each statement keeps its first. -/
theorem head_firstPerStatement (os : List Occurrence) :
    (firstPerStatement os).head? = os.head? := by
  fun_induction firstPerStatement os with
  | case1 a b rest same ih => exact ih
  | case2 => rfl
  | case3 => rfl

end Occurrence

namespace Script

/-! ### The tokens around a value -/

/-- The expression `v` stands alone in the tokens `ts`, behind a token that leads to it and in front of
one that ends a value. -/
structure Placed (ts : List Token) (v : Expr) (before : List Token) (lead : Token)
    (us : List Token) (next : Token) (after : List Token) : Prop where
  tokens : ts = before ++ lead :: (us ++ next :: after)
  sign : lead.kind = .punct .assign ∨
    lead.kind = .punct .comma ∧ ∃ front t, before = front ++ [t] ∧ endsText t
  ends : endsValue next
  spells : Spells (next :: after) us (.expr v)
  asked : Asked us (next :: after) v

/-- An assigned value stands behind an equals sign, alone in its tokens, and what follows ends a value.
-/
theorem Holds.placed_assigned {rest ts : List Token} {rs : List Root} {v : Expr}
    (h : Holds rest ts rs) (mem : .assigned v ∈ rs) :
    ∃ before t us more, ts ++ rest = before ++ t :: (us ++ more) ∧ t.kind = .punct .assign ∧
      Spells more us (.expr v) ∧ Asked us more v ∧ more.head?.any endsValue := by
  induction h with
  | nil => cases mem
  | @token t ts rs _ ih =>
    obtain ⟨before, sign, us, more, same, found⟩ := ih mem
    exact ⟨t :: before, sign, us, more, by rw [List.cons_append, same]; rfl, found⟩
  | @first us' ts e rs _ _ _ _ ih =>
    obtain ⟨before, sign, us, more, same, found⟩ := ih ((List.mem_cons.1 mem).resolve_left nofun)
    exact ⟨us' ++ before, sign, us, more, by rw [List.append_assoc, same, List.append_assoc], found⟩
  | @behind t us' ts r rs _ spells asked value _ ih =>
    rcases List.mem_cons.1 mem with rfl | mem
    · obtain ⟨sign', ends⟩ := value v rfl
      exact ⟨[], t, us', ts ++ rest, by simp, sign', spells, asked, ends⟩
    · obtain ⟨before, sign, us, more, same, found⟩ := ih mem
      exact ⟨t :: (us' ++ before), sign, us, more, by
        rw [List.cons_append, List.append_assoc, same]; simp, found⟩

/-- All expressions of a script. -/
def Root.nodes (rs : List Root) : List Expr := rs.flatMap fun r ↦ r.expr.nodes

/-- Every expression of a script is spelled by some of its tokens. -/
theorem Holds.inside {rest ts : List Token} {rs : List Root} (h : Holds rest ts rs) {n : Expr}
    (mem : n ∈ Root.nodes rs) : Inside rest ts n := by
  induction h with
  | nil => cases mem
  | token t _ ih => exact (ih mem).within [t] [] (by simp) (by simp)
  | @first us ts e rs spells _ _ _ ih =>
    rcases List.mem_append.1 mem with mem | mem
    · exact (spells.inside mem).within [] ts (by simp) rfl
    · exact (ih mem).within us [] (by simp) (by simp)
  | @behind t us ts r rs _ spells _ _ _ ih =>
    rcases List.mem_append.1 mem with mem | mem
    · exact (spells.inside mem).within [t] ts (by simp) rfl
    · exact (ih mem).within (t :: us) [] (by simp) (by simp)

/-- A call among the expressions that tokens hold has its first two arguments in these. -/
theorem Holds.hasArgs {rest ts : List Token} {rs : List Root} (h : Holds rest ts rs) {s : Span}
    {f : String} {a v : Expr} {es : List Expr} (mem : .call s f (a :: v :: es) ∈ Root.nodes rs) :
    HasArgs rest ts a v := by
  obtain ⟨us, vs, ws, same, spells⟩ := h.inside mem
  exact spells.hasArgs_of_call.within us ws same rfl

/-- Where the value of a definition stands. -/
theorem Holds.placed {ts : List Token} {rs : List Root} (h : Holds [] ts rs) {v : Expr}
    (defining : Defining rs v) : ∃ before lead us next after,
      Placed ts v before lead us next after := by
  cases defining with
  | assigned mem =>
    obtain ⟨before, t, us, more, same, sign, spells, asked, ends⟩ := h.placed_assigned mem
    cases more with
    | nil => cases ends
    | cons next after =>
      rw [List.append_nil] at same
      exact ⟨before, t, us, next, after, same, .inl sign, ends, spells, asked⟩
  | call mem inside text =>
    obtain ⟨before, o, us, c, vs, next, behind, same, -, comma, ends, first, second, asked⟩ :=
      h.hasArgs (List.mem_flatMap.2 ⟨_, mem, inside⟩)
    obtain ⟨front, t, rfl, last⟩ := first.endsText text
    rw [List.append_nil] at second asked
    refine ⟨before ++ o :: (front ++ [t]), c, vs, next, behind, ?_, .inr ⟨comma, ?_⟩, ?_, second,
      asked⟩
    · rw [same]
      simp
    · exact ⟨before ++ o :: front, t, by simp, last⟩
    · rcases ends with hk | hk <;> simp [endsValue, hk]

/-! ### Spans of expressions -/

/-- Tokens of an expression are no tags. -/
theorem Enclosed.ne_openTag {us : List Token} (h : Enclosed us) {t : Token} (mem : t ∈ us) :
    t.kind ≠ .openTag ∧ isScript t.kind := by
  rcases h.kinds mem with plain | group | group
  · unfold isPlain at plain
    split at plain <;> simp_all [isScript]
  · rw [opensGroup, Token.isPunct, Token.isPunct, Bool.or_eq_true, beq_iff_eq, beq_iff_eq] at group
    rcases group with hk | hk <;> simp [hk, isScript]
  · rw [closesGroup, Token.isPunct, Token.isPunct, Bool.or_eq_true, beq_iff_eq, beq_iff_eq] at group
    rcases group with hk | hk <;> simp [hk, isScript]

/-- A row ends with one of its tokens. -/
theorem Covers.mem_last {lo hi : Nat} {us : List Token} (h : Covers lo hi us) :
    ∃ u ∈ us, u.span.stop = hi := by
  induction h with
  | single _ stop => exact ⟨_, List.mem_singleton_self _, stop⟩
  | cons _ _ _ _ ih =>
    obtain ⟨u, mem, stop⟩ := ih
    exact ⟨u, List.mem_cons_of_mem _ mem, stop⟩

/-- A row begins with one of its tokens. -/
theorem Covers.mem_first {lo hi : Nat} {us : List Token} (h : Covers lo hi us) :
    ∃ u ∈ us, u.span.start = lo := by
  cases h with
  | single start => exact ⟨_, List.mem_singleton_self _, start⟩
  | cons start => exact ⟨_, List.mem_cons_self, start⟩

/-- Some of the tokens that are laid out are laid out. -/
theorem Laid.sublist {us ts : List Token} (laid : Laid ts) (sub : us.Sublist ts) : Laid us where
  some t ht := laid.some t (sub.subset ht)
  stops := laid.stops.sublist sub
  apart := laid.apart.sublist sub

theorem Laid.append_right {us ts : List Token} (laid : Laid (us ++ ts)) : Laid ts :=
  laid.sublist (List.sublist_append_right us ts)

theorem Laid.tail {t : Token} {ts : List Token} (laid : Laid (t :: ts)) : Laid ts :=
  laid.sublist (List.sublist_cons_self t ts)

/-- The tokens of an expression cover what it spans, and the next ones stand behind. -/
theorem Laid.covers {us ts : List Token} (laid : Laid (us ++ ts)) (closed : Enclosed us)
    (some : us ≠ []) : ∃ lo hi, Covers lo hi us ∧ ∀ t ∈ ts, hi ≤ t.span.start := by
  obtain ⟨long, -, apart⟩ := laid
  obtain ⟨front, -, between⟩ := List.pairwise_append.1 apart
  have apart' : us.Pairwise fun t u ↦ t.span.stop ≤ u.span.start :=
    front.imp_of_mem fun ht _ behind ↦ behind (closed.ne_openTag ht).1
  obtain ⟨lo, hi, covers⟩ := exists_covers (fun t ht ↦ long t (List.mem_append_left _ ht)) apart' some
  refine ⟨lo, hi, covers, fun t ht ↦ ?_⟩
  obtain ⟨u, mem, rfl⟩ := covers.mem_last
  exact between u mem t ht (closed.ne_openTag mem).1

/-- An expression is spelled by tokens in a row. -/
theorem Spells.exists_covers {rest us : List Token} {e : Expr} (h : Spells rest us (.expr e))
    (laid : Laid us) : ∃ lo hi, Covers lo hi us := by
  rw [← List.append_nil us] at laid
  obtain ⟨lo, hi, covers, -⟩ := laid.covers h.enclosed h.some
  exact ⟨lo, hi, covers⟩

/-- No two expressions of a script have the same span. -/
theorem Holds.nested {rest ts : List Token} {rs : List Root} (h : Holds rest ts rs) (laid : Laid ts)
    {lo hi : Nat} (within : ∀ t ∈ ts, lo ≤ t.span.start ∧ t.span.stop ≤ hi) :
    Nested lo hi (Root.nodes rs) := by
  have first : ∀ {us ts : List Token} {e : Expr} {rs : List Root} {rest' : List Token} {lo : Nat},
      Laid (us ++ ts) → Spells rest' us (.expr e) →
      (∀ t ∈ us ++ ts, lo ≤ t.span.start ∧ t.span.stop ≤ hi) →
      (∀ {lo}, (∀ t ∈ ts, lo ≤ t.span.start ∧ t.span.stop ≤ hi) → Nested lo hi (Root.nodes rs)) →
      Nested lo hi (e.nodes ++ Root.nodes rs) := by
    intro us ts e rs rest' lo laid spells within more
    obtain ⟨lo', hi', covers, behind⟩ := laid.covers spells.enclosed spells.some
    obtain ⟨-, -, nested⟩ := spells.spans covers
    obtain ⟨u, mem, start⟩ := covers.mem_first
    obtain ⟨v, mem', stop⟩ := covers.mem_last
    have := within u (List.mem_append_left _ mem)
    have := within v (List.mem_append_left _ mem')
    have := covers.lt
    have others := more fun t ht ↦ ⟨behind t ht, (within t (List.mem_append_right _ ht)).2⟩
    exact (nested.mono (by omega) (Nat.le_refl _)).append others (Nat.le_refl _) (by omega) (by omega)
  induction h generalizing lo with
  | nil => exact .nil
  | @token t ts rs _ ih =>
    exact ih laid.tail fun t ht ↦ within t (List.mem_cons_of_mem _ ht)
  | @first us ts e rs spells _ _ _ ih =>
    exact first laid spells within (ih laid.append_right)
  | @behind t us ts r rs _ spells _ _ _ ih =>
    have laid' := laid.tail
    exact first laid' spells (fun t ht ↦ within t (List.mem_cons_of_mem _ ht)) (ih laid'.append_right)

end Script

end ConfigScript
