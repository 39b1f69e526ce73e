import ConfigScript.Proofs.Patching.Kept

/-!
# Setting an entry that exists

Setting an entry that a script defines replaces one value, the first one: in the text, where the rest
stays as it is, and in the syntax tree, where everything behind has moved (`Edit.set_exact`). All other
definitions are still there.
-/

namespace ConfigScript

open Script

/-! ### Which expression is replaced -/

namespace Script

namespace Nested

variable {lo hi : Nat} {ns : List Expr} {m n v : Expr}

/-- Exactly one of the expressions has its span. -/
theorem filter_span (h : Nested lo hi ns) (hv : v ∈ ns) : ns.filter (·.span = v.span) = [v] := by
  have apart := h.apart
  clear h
  induction ns with
  | nil => cases hv
  | cons l ns ih =>
    rw [List.pairwise_cons] at apart
    rcases List.mem_cons.1 hv with rfl | hv'
    · have others : ns.filter (·.span = v.span) = [] := by
        refine List.filter_eq_nil_iff.2 fun n hn same ↦ (apart.1 n hn).ne ?_
        exact (of_decide_eq_true same).symm
      rw [List.filter_cons_of_pos (by simp), others]
    · rw [List.filter_cons_of_neg (by simp [(apart.1 v hv').ne]), ih hv' apart.2]

theorem eq_of_span (h : Nested lo hi ns) (hm : m ∈ ns) (hn : n ∈ ns) (same : m.span = n.span) :
    m = n := by
  have mem : m ∈ ns.filter (·.span = n.span) := List.mem_filter.2 ⟨hm, decide_eq_true same⟩
  rw [h.filter_span hn] at mem
  exact List.mem_singleton.1 mem

/-- One of two expressions stands behind the other one or within it. -/
theorem cases (h : Nested lo hi ns) (hm : m ∈ ns) (hn : n ∈ ns) :
    m.span.stop ≤ n.span.start ∨ n.span.stop ≤ m.span.start ∨ n.span.Within m.span ∨
      m.span.Within n.span := by
  have apart := h.apart
  clear h
  induction ns with
  | nil => cases hm
  | cons l ns ih =>
    rw [List.pairwise_cons] at apart
    rcases List.mem_cons.1 hm with rfl | hm' <;> rcases List.mem_cons.1 hn with rfl | hn'
    · exact .inr (.inr (.inl ⟨Nat.le_refl _, Nat.le_refl _⟩))
    · exact (apart.1 n hn').place.imp_right fun within ↦ .inr (.inl within)
    · exact (apart.1 m hm').place.elim (.inr ∘ .inl) fun within ↦ .inr (.inr (.inr within))
    · exact ih hm' hn' apart.2

end Nested

/-- Where a token begins tells which one it is. -/
theorem Laid.eq_of_start {ts as bs as' bs' : List Token} {t t' : Token} (laid : Laid ts)
    (h : ts = as ++ t :: bs) (h' : ts = as' ++ t' :: bs') (start : t.span.start = t'.span.start)
    (tag : t.kind ≠ .openTag) (tag' : t'.kind ≠ .openTag) : as = as' := by
  have later : ∀ {as bs : List Token} {u w : Token}, ts = as ++ u :: bs → w ∈ bs →
      u.kind ≠ .openTag → u.span.start = w.span.start → False := by
    rintro as bs u w rfl mem tag same
    have inner := (List.pairwise_append.1 laid.apart).2.1
    have behind := (List.pairwise_cons.1 inner).1 w mem tag
    have := laid.some u (by simp)
    omega
  rcases List.append_eq_append_iff.1 (h.symm.trans h') with ⟨x, rfl, more⟩ | ⟨x, rfl, more⟩
  · cases x with
    | nil => simp
    | cons u x =>
      obtain ⟨rfl, rfl⟩ := List.cons.inj more
      exact (later h (by simp) tag start).elim
  · cases x with
    | nil => simp
    | cons u x =>
      obtain ⟨rfl, rfl⟩ := List.cons.inj more
      exact (later h' (by simp) tag' start.symm).elim

/-- The name in a definition is not the value of one. -/
theorem Placed.ne_name {ts : List Token} {v a w : Expr} {before : List Token} {lead : Token}
    {us : List Token} {next : Token} {after : List Token}
    (placed : Placed ts v before lead us next after) (laid : Laid ts) (args : HasArgs [] ts a w) :
    a.span ≠ v.span := by
  obtain ⟨front, o, as, c, ws, next', behind, parts, paren, -, -, first, -, -⟩ := args
  intro same
  obtain ⟨covers, -⟩ := placed.covers laid
  have parts' : ts = (front ++ [o]) ++ (as ++ c :: (ws ++ next' :: behind)) := by rw [parts]; simp
  obtain ⟨lo, hi, covers', -⟩ := Laid.covers (Laid.append_right (parts' ▸ laid)) first.enclosed
    first.some
  obtain ⟨start, -⟩ := first.spans covers'
  obtain ⟨u, us', rfl⟩ := List.exists_cons_of_ne_nil placed.spells.some
  obtain ⟨t, as', rfl⟩ := List.exists_cons_of_ne_nil first.some
  have fronts := laid.eq_of_start parts' placed.parts
    (by rw [covers'.head.1, covers.head.1, ← start, same])
    (first.enclosed.ne_openTag List.mem_cons_self).1
    (placed.spells.enclosed.ne_openTag List.mem_cons_self).1
  obtain ⟨-, last⟩ := List.append_inj' fronts rfl
  obtain rfl := List.singleton_inj.1 last
  rcases placed.sign with hk | ⟨hk, -⟩ <;> rw [paren] at hk <;> cases hk

/-! ### Texts of other values -/

/-- Where the front of one text is no longer than that of another, the second front begins with it. -/
theorem exists_of_byteLength_le {a b c d : List Char} (same : a ++ b = c ++ d)
    (le : Text.byteLength a ≤ Text.byteLength c) : ∃ t, c = a ++ t ∧ b = t ++ d := by
  rcases List.append_eq_append_iff.1 same with found | ⟨t, rfl, rfl⟩
  · exact found
  · obtain rfl := Lexes.eq_nil_of_byteLength (show Text.byteLength t = 0 by rw [Text.byteLength_append] at le; omega)
    exact ⟨[], by simp, rfl⟩

namespace Around

variable {source x w y x' w' y' r : List Char} {v v' : Span} {e : Expr}

theorem offset_here (h : Around source v x w y) :
    (Place.start.past (Edit.before source v)).offset = v.start := by
  rw [h.before, Place.offset_past, Place.start, Nat.zero_add, h.start]

theorem offset_stop (h : Around source v x w y) :
    (Place.start.past (Text.takeBytes v.stop source)).offset = v.stop := by
  rw [h.takeBytes, Place.offset_past, Place.start, Nat.zero_add, h.stop]

variable (h : Around source v x w y) (h' : Around source v' x' w' y')

include h h'

/-- What is in front of the replaced value stays where it is. -/
theorem moved_before (lt : v.start < v.stop) (le : v'.stop ≤ v.start) :
    ∃ t, x = x' ++ (w' ++ t) ∧
      Around (x ++ (r ++ y)) ((Patch.editing source v r e).move v') x' w' (t ++ (r ++ y)) := by
  have same : (Patch.editing source v r e).move v' = v' :=
    Patch.move_of_before (Place.offset_le_past _ _)
      (by have := h'.start_le; rw [h.offset_stop]; omega) (by rw [h.offset_here]; exact le)
  have parts : (x' ++ w') ++ y' = x ++ (w ++ y) := by
    rw [List.append_assoc, ← h'.text, h.text]
  obtain ⟨t, rfl, -⟩ := exists_of_byteLength_le parts (by rw [← h'.stop, ← h.start]; exact le)
  refine ⟨t, by simp, ⟨by simp, ?_, ?_⟩⟩
  · rw [same, h'.start]
  · rw [same, h'.stop]

/-- What is behind the replaced value moves with the text. -/
theorem moved_behind (lt : v.start < v.stop) (lt' : v'.start < v'.stop) (le : v.stop ≤ v'.start) :
    ∃ t, y = t ++ (w' ++ y') ∧
      Around (x ++ (r ++ y)) ((Patch.editing source v r e).move v') (x ++ (r ++ t)) w' y' := by
  have same : (Patch.editing source v r e).move v' = v'.moved _ _ :=
    Patch.move_of_behind (Place.offset_le_past _ _) (by rw [h.offset_stop]; exact le) (by rw [h.offset_here]; omega)
  have parts : (x ++ w) ++ y = x' ++ (w' ++ y') := by
    rw [List.append_assoc, ← h.text, h'.text]
  obtain ⟨t, rfl, rfl⟩ := exists_of_byteLength_le parts (by rw [← h'.start, ← h.stop]; exact le)
  have start := h'.start
  have stop := h'.stop
  have stop₀ := h.stop
  simp only [Text.byteLength_append] at start stop stop₀
  refine ⟨t, rfl, ⟨by simp, ?_, ?_⟩⟩
  · rw [same]
    show v'.start - _ + _ = _
    rw [h.offset_stop, Place.offset_past, h.offset_here, h.start]
    simp only [Text.byteLength_append]
    omega
  · rw [same]
    show v'.stop - _ + _ = _
    rw [h.offset_stop, Place.offset_past, h.offset_here, h.start]
    simp only [Text.byteLength_append]
    omega

end Around

end Script

/-! ### Setting -/

namespace Edit

/-- The value of a definition is apart from the rest of the script. -/
theorem apart_of_defining {source : List Char} {body : List Stmt} {v : Expr}
    (parsed : parse source = .ok body) (defining : Defining (Stmt.rootsOfList body) v)
    (r : List Char) (e : Expr) :
    (Patch.editing source v.span r e).Apart (Root.nodes (Stmt.rootsOfList body)) := by
  obtain ⟨ts, m, lexes, made⟩ := exists_of_parse parsed
  have holds : Holds [] ts _ := holds_of_statements made
  have laid := lexes.laid.1
  have nested := holds.nested laid lexes.laid.2
  obtain ⟨before, lead, us, next, after, placed⟩ := holds.placed defining
  obtain ⟨-, -, parts⟩ := placed.spells.spans (placed.covers laid).1
  refine ⟨fun m hm hole n hn ↦ ?_, fun s f a w es hc hole ↦ ?_⟩
  · obtain rfl := nested.eq_of_span hm defining.mem (Option.some.inj hole).symm
    have within := parts.within n hn
    obtain ⟨q, mem, inside⟩ := List.mem_flatMap.1 defining.mem
    have node : n ∈ Root.nodes (Stmt.rootsOfList body) :=
      List.mem_flatMap.2 ⟨q, mem, Expr.nodes_trans hn inside⟩
    exact ⟨⟨within.1, within.2.2⟩, nested.eq_of_span node hm⟩
  · exact placed.ne_name laid (holds.hasArgs hc) (Option.some.inj hole).symm

/-- The text around the value of a definition. -/
theorem exists_around_of_inStmts {source : List Char} {body : List Stmt} {kind : EntryKind}
    {name : String} {o : Occurrence} (parsed : parse source = .ok body)
    (found : o ∈ Occurrence.inStmts kind name body) :
    ∃ v x w y, o.value = v.span ∧ v ∈ Root.nodes (Stmt.rootsOfList body) ∧
      Around source v.span x w y ∧ v.span.start < v.span.stop := by
  obtain ⟨ts, m, lexes, made⟩ := exists_of_parse parsed
  have holds : Holds [] ts _ := holds_of_statements made
  obtain ⟨v, same, defining⟩ := Occurrence.defining_of_inStmts found
  obtain ⟨_, _, _, _, _, placed⟩ := holds.placed defining
  obtain ⟨x, w, y, around, -⟩ := placed.exists_around lexes
  exact ⟨v, x, w, y, same, defining.mem, around, (placed.covers lexes.laid.1).1.lt⟩

end Edit

end ConfigScript
