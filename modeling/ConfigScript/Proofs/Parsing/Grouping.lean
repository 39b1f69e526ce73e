import ConfigScript.Script.Parser.Operator

/-!
# How operators group

A row of symbols holds operands, the prefix operators and casts in front of them, and the binary
operators between them. A grouping is a tree over such symbols, and its symbols from left to right
are its reading. `Grouping.IsGrouped` says which trees the precedence of operators allows, by what
may stand on either side of an operator and behind a prefix operator or cast; nothing in it follows
how a parser goes about it.

Main statement: no row of symbols is the reading of two such trees (`Grouping.eq_of_reading_eq`).
The reason is that the operator at the root is the loosest of its row:
`Grouping.le_leftBinding_of_mem` bounds all operators of a tree by what its root holds, and two
places of one row cannot both be the root.
-/

namespace ConfigScript.Script

/-! ### The table of operators -/

namespace Operator

/-- How tightly the operator asks its left operand to be bound. -/
def leftNeed (o : Operator) : Nat := if o.rightAssoc then o.leftBinding + 1 else o.leftBinding

/-- Some token is the operator. -/
def IsKnown (o : Operator) : Prop := ∃ t, operator? t = some o

/-- How tightly the power binds, which is more than any other operator. -/
def powerBinding : Nat := 38

/-- All operators that are written with punctuation or as words. -/
def table : List Operator :=
  Punct.all.filterMap punctOperator? ++ ["or", "xor", "and"].filterMap wordOperator?

variable {o p : Operator}

/-- A known operator is in the table. -/
theorem IsKnown.mem_table (h : o.IsKnown) : o ∈ table := by
  obtain ⟨t, h⟩ := h
  unfold operator? at h
  split at h
  · rename_i p _
    exact List.mem_append_left _ (List.mem_filterMap.2 ⟨p, Punct.mem_all p, h⟩)
  · obtain ⟨w, -, h⟩ := Option.bind_eq_some_iff.1 h
    refine List.mem_append_right _ ?_
    unfold wordOperator? at h
    split at h <;> cases h <;> decide

/-- Prefix operators and casts bind tighter than every operator but the power. -/
theorem IsKnown.op_eq_pow_iff (h : o.IsKnown) : o.op = .pow ↔ prefixBinding ≤ o.leftBinding :=
  (by decide : ∀ o ∈ table, o.op = .pow ↔ prefixBinding ≤ o.leftBinding) o h.mem_table

theorem IsKnown.leftBinding_of_pow (h : o.IsKnown) (pow : o.op = .pow) :
    o.leftBinding = powerBinding :=
  (by decide : ∀ o ∈ table, o.op = .pow → o.leftBinding = powerBinding) o h.mem_table pow

theorem IsKnown.leftNeed_le (h : o.IsKnown) (other : o.op ≠ .pow) : o.leftNeed ≤ powerBinding :=
  (by decide : ∀ o ∈ table, o.op ≠ .pow → o.leftNeed ≤ powerBinding) o h.mem_table other

theorem IsKnown.rightBinding_le (h : o.IsKnown) : o.rightBinding ≤ powerBinding :=
  (by decide : ∀ o ∈ table, o.rightBinding ≤ powerBinding) o h.mem_table

/-- Nothing binds tighter than the power, and powers group to the right. -/
theorem IsKnown.lt_leftNeed (ho : o.IsKnown) (hp : p.IsKnown) (pow : o.op = .pow) :
    p.leftBinding < o.leftNeed :=
  (by decide : ∀ o ∈ table, ∀ p ∈ table, o.op = .pow → p.leftBinding < o.leftNeed)
    o ho.mem_table p hp.mem_table pow

/-- Operators of one level group to the same side. -/
theorem IsKnown.rightAssoc_eq (ho : o.IsKnown) (hp : p.IsKnown) (level : o.level = p.level) :
    o.rightAssoc = p.rightAssoc :=
  (by decide : ∀ o ∈ table, ∀ p ∈ table, o.level = p.level → o.rightAssoc = p.rightAssoc)
    o ho.mem_table p hp.mem_table level

/-- What an operator asks of its left operand is at least its own binding. -/
theorem leftBinding_le_leftNeed (o : Operator) : o.leftBinding ≤ o.leftNeed := by
  unfold leftNeed
  split
  · exact Nat.le_succ _
  · exact Nat.le_refl _

/-- An operator asks at least as much of its right operand as it binds on its left. -/
theorem leftBinding_le_rightBinding (o : Operator) : o.leftBinding ≤ o.rightBinding := by
  unfold rightBinding leftBinding
  split
  · exact Nat.le_refl _
  · exact Nat.le_succ _

end Operator

/-! ### Symbols and trees -/

/-- What stands in front of an operand, a prefix operator or a cast, and the span of its first
token. -/
inductive Mark where
  | sign (span : Span) (op : UnaryOp)
  | cast (span : Span) (kind : CastKind)

/-- The expression of the mark and its operand. -/
def Mark.apply : Mark → Expr → Expr
  | sign s op, e => .unary (s.through e.span) op e
  | cast s kind, e => .cast (s.through e.span) kind e

/-- A symbol of a chain of operators. -/
inductive Symbol where
  | operand (e : Expr)
  | mark (m : Mark)
  | operator (o : Operator)

/-- A tree over symbols. -/
inductive Grouping where
  | operand (e : Expr)
  | marked (m : Mark) (g : Grouping)
  | binary (o : Operator) (lhs rhs : Grouping)

namespace Grouping

/-- The symbols of the tree from left to right. -/
def reading : Grouping → List Symbol
  | operand e => [.operand e]
  | marked m g => .mark m :: g.reading
  | binary o l r => l.reading ++ .operator o :: r.reading

/-- The expression that the tree means. -/
def expr : Grouping → Expr
  | operand e => e
  | marked m g => m.apply g.expr
  | binary o l r => .binary (l.expr.span.through r.expr.span) o.op l.expr r.expr

/-- Whether the tree may stand left of the operator: it has a higher level, or the same one if that
groups to the left. A prefix operator or cast yields to the power alone. -/
def MayPrecede (o : Operator) : Grouping → Prop
  | operand _ => True
  | marked _ _ => o.op ≠ .pow
  | binary p _ _ => o.level < p.level ∨ p.level = o.level ∧ o.rightAssoc = false

/-- Whether the tree may stand right of the operator: it has a higher level, or the same one if that
groups to the right. -/
def MayFollow (o : Operator) : Grouping → Prop
  | operand _ | marked _ _ => True
  | binary p _ _ => o.level < p.level ∨ p.level = o.level ∧ o.rightAssoc = true

/-- Whether the tree may be what a prefix operator or cast applies to: an operand, perhaps with such
marks of its own, or a power. -/
def MayBeMarked : Grouping → Prop
  | operand _ | marked _ _ => True
  | binary p _ _ => p.op = .pow

/-- Whether the precedence of operators allows the tree. -/
def IsGrouped : Grouping → Prop
  | operand _ => True
  | marked _ g => g.MayBeMarked ∧ g.IsGrouped
  | binary o l r => l.MayPrecede o ∧ r.MayFollow o ∧ l.IsGrouped ∧ r.IsGrouped

/-- All operators of the tree stand in the table. -/
def IsKnown (g : Grouping) : Prop := ∀ o, .operator o ∈ g.reading → o.IsKnown

/-- Whether the tree is held together at least as tightly as `min`. What is marked holds together as
tightly as the power, which is all that it may have inside. -/
def IsTight (min : Nat) : Grouping → Prop
  | operand _ => True
  | marked _ _ => min ≤ Operator.powerBinding
  | binary p _ _ => min ≤ p.leftBinding

variable {o : Operator} {m : Mark} {g h l r : Grouping}

theorem IsKnown.of_marked (known : (marked m g).IsKnown) : g.IsKnown :=
  fun p mem ↦ known p (List.mem_cons_of_mem _ mem)

theorem IsKnown.root (known : (binary o l r).IsKnown) : o.IsKnown :=
  known o (List.mem_append_right _ List.mem_cons_self)

theorem IsKnown.left (known : (binary o l r).IsKnown) : l.IsKnown :=
  fun p mem ↦ known p (List.mem_append_left _ mem)

theorem IsKnown.right (known : (binary o l r).IsKnown) : r.IsKnown :=
  fun p mem ↦ known p (List.mem_append_right _ (List.mem_cons_of_mem _ mem))

/-! ### The root is the loosest -/

/-- Where precedence allows an expression in front of an operator, it is bound as tightly as the operator
asks. -/
theorem isTight_of_mayPrecede (ho : o.IsKnown) (h : l.MayPrecede o) : l.IsTight o.leftNeed := by
  match l, h with
  | operand _, _ => trivial
  | marked _ _, h => exact ho.leftNeed_le h
  | binary p _ _, h =>
    show o.leftNeed ≤ p.leftBinding
    simp only [Operator.leftNeed, Operator.leftBinding]
    rcases h with higher | ⟨same, left⟩
    · split <;> omega
    · rw [left, same]
      exact Nat.le_refl _

/-- An expression may follow an operator just if it is bound as tightly as the operator asks on its
right. -/
theorem mayFollow_iff_isTight (ho : o.IsKnown) : r.MayFollow o ↔ r.IsTight o.rightBinding := by
  match r with
  | operand _ => exact Iff.rfl
  | marked _ _ => exact iff_of_true trivial ho.rightBinding_le
  | binary p _ _ =>
    show (o.level < p.level ∨ p.level = o.level ∧ o.rightAssoc = true) ↔
      o.rightBinding ≤ p.leftBinding
    simp only [Operator.rightBinding, Operator.leftBinding]
    cases o.rightAssoc with
    | false =>
      rw [if_neg Bool.false_ne_true]
      simp only [Bool.false_eq_true, and_false, or_false]
      omega
    | true =>
      rw [if_pos rfl]
      simp only [and_true]
      omega

/-- An expression may stand behind a prefix operator just if it is bound as tightly as those ask. -/
theorem mayBeMarked_iff_isTight (known : g.IsKnown) : g.MayBeMarked ↔ g.IsTight prefixBinding := by
  match g, known with
  | operand _, _ => exact Iff.rfl
  | marked _ _, _ =>
    exact iff_of_true trivial (show prefixBinding ≤ Operator.powerBinding by decide)
  | binary _ _ _, known => exact known.root.op_eq_pow_iff

/-- What stops in front of an operator that is looser than its right operand may stand left of
it. -/
theorem mayPrecede_of_lt {p : Operator} (ho : o.IsKnown) (hp : p.IsKnown)
    (loose : o.leftBinding < p.rightBinding) : (binary p l r).MayPrecede o := by
  have same := ho.rightAssoc_eq hp
  show o.level < p.level ∨ p.level = o.level ∧ o.rightAssoc = false
  simp only [Operator.rightBinding, Operator.leftBinding] at loose
  split at loose
  · exact .inl (by omega)
  · rename_i left
    rcases Nat.lt_or_ge o.level p.level with higher | level
    · exact .inl higher
    · have level : o.level = p.level := by omega
      exact .inr ⟨level.symm, (same level).trans (Bool.eq_false_iff.2 left)⟩

/-- No operator of the tree is looser than what holds the tree together. -/
theorem le_leftBinding_of_mem {min : Nat} (known : g.IsKnown) (grouped : g.IsGrouped)
    (tight : g.IsTight min) (mem : .operator o ∈ g.reading) : min ≤ o.leftBinding := by
  -- The bound grows on the way down: each side of an operator is held tighter than the operator.
  induction g generalizing min with
  | operand e => simp [reading] at mem
  | marked m g ih =>
    have inside : g.IsTight Operator.powerBinding := by
      match g, grouped.1, known with
      | operand _, _, _ => trivial
      | marked _ _, _, _ => exact Nat.le_refl _
      | binary p _ _, pow, known =>
        exact Nat.le_of_eq (known.of_marked.root.leftBinding_of_pow pow).symm
    have mem : .operator o ∈ g.reading := by simpa [reading] using mem
    exact Nat.le_trans tight (ih known.of_marked grouped.2 inside mem)
  | binary p l r ihl ihr =>
    obtain ⟨before, behind, groupedL, groupedR⟩ := grouped
    have tight : min ≤ p.leftBinding := tight
    have cases : .operator o ∈ l.reading ∨ o = p ∨ .operator o ∈ r.reading := by
      simpa [reading] using mem
    rcases cases with mem | rfl | mem
    · have need := ihl known.left groupedL (isTight_of_mayPrecede known.root before) mem
      exact Nat.le_trans tight (Nat.le_trans p.leftBinding_le_leftNeed need)
    · exact tight
    · have need := ihr known.right groupedR ((mayFollow_iff_isTight known.root).1 behind) mem
      exact Nat.le_trans tight (Nat.le_trans p.leftBinding_le_rightBinding need)

/-! ### One tree for a row -/

/-- A tree reads as some symbols. -/
theorem reading_ne_nil (g : Grouping) : g.reading ≠ [] := by
  match g with
  | operand _ => simp [reading]
  | marked _ _ => simp [reading]
  | binary _ _ _ => simp [reading]

/-- A tree with an operator does not read as a single operand. -/
theorem reading_binary_ne_operand {e : Expr} : (binary o l r).reading ≠ [.operand e] := by
  intro eq
  have length := congrArg List.length eq
  have some := List.length_pos_iff.2 (reading_ne_nil l)
  simp only [reading, List.length_append, List.length_cons, List.length_nil] at length
  omega

/-- A row that begins with a prefix operator or cast is not held together by another operator if
that mark may have all the rest: then only powers follow, and left of a power stands a bare
operand. -/
theorem reading_marked_ne_binary (known : (binary o l r).IsKnown) (marks : (marked m g).IsGrouped)
    (grouped : (binary o l r).IsGrouped) : (marked m g).reading ≠ (binary o l r).reading := by
  intro eq
  have inside : (marked m g).IsKnown := fun p mem ↦ known p (eq ▸ mem)
  have mem : .operator o ∈ (marked m g).reading := eq ▸ List.mem_append_right _ List.mem_cons_self
  have tight : Operator.powerBinding ≤ o.leftBinding :=
    le_leftBinding_of_mem inside marks (Nat.le_refl _) mem
  have pow : o.op = .pow := known.root.op_eq_pow_iff.2 (Nat.le_trans (by decide) tight)
  match l, grouped.1, known with
  | operand _, _, _ => simp [reading] at eq
  | marked _ _, yields, _ => exact yields pow
  | binary p _ _, higher, known =>
    have lower := known.root.lt_leftNeed known.left.root pow
    have tight : o.leftNeed ≤ p.leftBinding := isTight_of_mayPrecede known.root higher
    exact absurd lower (Nat.not_lt.2 tight)

/-- Of two operators of a row, not each can be the root while the other one stands on its far
side. -/
theorem not_mem_both {o' : Operator} {l' r' : Grouping} (known : (binary o l r).IsKnown)
    (known' : (binary o' l' r').IsKnown) (grouped : (binary o l r).IsGrouped)
    (grouped' : (binary o' l' r').IsGrouped) (left : .operator o ∈ l'.reading)
    (right : .operator o' ∈ r.reading) : False := by
  have fromLeft : o'.leftNeed ≤ o.leftBinding := le_leftBinding_of_mem known'.left
    grouped'.2.2.1 (isTight_of_mayPrecede known'.root grouped'.1) left
  have fromRight : o.rightBinding ≤ o'.leftBinding := le_leftBinding_of_mem known.right
    grouped.2.2.2 ((mayFollow_iff_isTight known.root).1 grouped.2.1) right
  have same := known.root.rightAssoc_eq known'.root
  simp only [Operator.leftNeed, Operator.rightBinding, Operator.leftBinding] at *
  have level : o.level = o'.level := by split at fromLeft <;> split at fromRight <;> omega
  rw [same level] at fromRight
  by_cases assoc : o'.rightAssoc = true
  · rw [if_pos assoc] at fromLeft
    omega
  · rw [if_neg assoc] at fromRight
    omega

/-- The readings of two trees over one row split at the same operator. -/
theorem split_of_reading_eq {o' : Operator} {l' r' : Grouping} (known : (binary o l r).IsKnown)
    (grouped : (binary o l r).IsGrouped) (grouped' : (binary o' l' r').IsGrouped)
    (eq : (binary o l r).reading = (binary o' l' r').reading) :
    l.reading = l'.reading ∧ o = o' ∧ r.reading = r'.reading := by
  have known' : (binary o' l' r').IsKnown := fun p mem ↦ known p (eq ▸ mem)
  have rows : l.reading ++ .operator o :: r.reading = l'.reading ++ .operator o' :: r'.reading := eq
  rcases List.append_eq_append_iff.1 rows with
    ⟨_ | ⟨s, more⟩, left, rest⟩ | ⟨_ | ⟨s, more⟩, left, rest⟩
  · simp_all
  · obtain ⟨rfl, right⟩ := List.cons.inj rest
    exact (not_mem_both known known' grouped grouped'
      (left ▸ List.mem_append_right _ List.mem_cons_self)
      (right ▸ List.mem_append_right _ List.mem_cons_self)).elim
  · simp_all
  · obtain ⟨rfl, right⟩ := List.cons.inj rest
    exact (not_mem_both known' known grouped' grouped
      (left ▸ List.mem_append_right _ List.mem_cons_self)
      (right ▸ List.mem_append_right _ List.mem_cons_self)).elim

/-- No row of symbols groups in two ways. -/
theorem eq_of_reading_eq (known : g.IsKnown) (hg : g.IsGrouped) (hh : h.IsGrouped)
    (eq : g.reading = h.reading) : g = h := by
  induction g generalizing h with
  | operand e =>
    match h with
    | operand _ => simpa [reading] using eq
    | marked _ _ => simp [reading] at eq
    | binary _ _ _ => exact absurd eq.symm reading_binary_ne_operand
  | marked m g ih =>
    match h, hh with
    | operand _, _ => simp [reading] at eq
    | marked _ _, hh =>
      obtain ⟨mark, eq⟩ := List.cons.inj eq
      rw [Symbol.mark.inj mark, ih known.of_marked hg.2 hh.2 eq]
    | binary _ _ _, hh =>
      exact absurd eq (reading_marked_ne_binary (fun p mem ↦ known p (eq ▸ mem)) hg hh)
  | binary o l r ihl ihr =>
    match h, hh with
    | operand _, _ => exact absurd eq reading_binary_ne_operand
    | marked _ _, hh => exact absurd eq.symm (reading_marked_ne_binary known hh hg)
    | binary _ _ _, hh =>
      obtain ⟨left, rfl, right⟩ := split_of_reading_eq known hg hh eq
      rw [ihl known.left hg.2.2.1 hh.2.2.1 left, ihr known.right hg.2.2.2 hh.2.2.2 right]

end Grouping

end ConfigScript.Script
