import ConfigScript.Proofs.Patching.Expression

/-!
# Lists of expressions in two texts at once

In an argument list or an array literal the hole may be next behind a comma. There both texts have an
expression, and behind it they are twins again. With this the last functions of the parser of
expressions agree, so all of them do, whatever is ahead (`mirror`).
-/

namespace ConfigScript.Script.Twinning

variable {w : Twinning} {c c' : Cursor}

/-- What is read as an expression begins with a token that operands begin with. -/
theorem begins_of_yields {min : Nat} {s : Span} {ts : List Token} {e : Expr} {c : Cursor}
    (h : Yields (expression min ⟨s, ts⟩) e c) : ∃ t us, ts = t :: us ∧ beginsOperand t := by
  obtain ⟨_, h⟩ := h
  cases ts with
  | nil =>
    rw [expression, unary] at h
    cases h
  | cons t us =>
    refine ⟨t, us, rfl, ?_⟩
    cases ht : beginsOperand t with
    | true => rfl
    | false =>
      obtain ⟨e, fails⟩ := expression_of_begins min (s := s) (r := us) ht
      rw [fails] at h
      cases h

/-- An expression behind a comma or an equals sign, perhaps the one at the hole. -/
theorem entry_agree (sound : w.Sound) (ih : w.Mirror c.size) (h : AtItem w c c') :
    w.Agree w.Patched (expression 0 c) (expression 0 c') := by
  rcases h with h | hole
  · have agree := expression_agree ih h 0
    revert agree
    cases expression 0 c <;> cases expression 0 c' <;> intro agree <;>
      first | exact agree | exact ⟨agree.1.patched, agree.2⟩
  · obtain ⟨e, e', d, d', ⟨_, read⟩, ⟨_, read'⟩, same, next⟩ := sound hole c.last c'.last
    rw [show c = ⟨c.last, c.rest⟩ from rfl, show c' = ⟨c'.last, c'.rest⟩ from rfl, read, read']
    exact .ok same next

/-! ### The beginning of an entry -/

/-- Whether the token unpacks what follows it, or passes it as a reference. -/
def unpacks (t : Token) : Bool := t.isPunct .ellipsis || t.isPunct .ampersand

theorem unpacks_of_begins {t : Token} (h : beginsOperand t) : unpacks t = false := by
  refine Bool.eq_false_iff.2 fun marked ↦ ?_
  rw [unpacks, Bool.or_eq_true, Token.isPunct, Token.isPunct, beq_iff_eq, beq_iff_eq] at marked
  rcases marked with kind | kind <;> (rw [beginsOperand, kind] at h; cases h)

theorem unpacks_of_isStop {t : Token} (h : isStop t) : unpacks t = false := by
  rcases kind_of_isStop h with h | h | h | h | h | h | h | h | h <;> simp [unpacks, Token.isPunct, h]

/-- The token that an entry begins with. -/
theorem AtItem.advance (sound : w.Sound) (h : AtItem w c c') :
    w.AgreeTo (fun _ _ ↦ True) (fun t t' ↦ unpacks t' = unpacks t) c.advance c'.advance := by
  rcases h with h | hole
  · rcases h.cases with ⟨s, s', rfl, rfl⟩ | ⟨s, t, ts, s', ts', rfl, rfl, -, -, -⟩ |
      ⟨s, t, ts, s', t', ts', rfl, rfl, stop, stop'⟩
    · exact .error
    · exact .ok rfl trivial
    · refine .ok ?_ trivial
      show unpacks t' = unpacks t
      rw [unpacks_of_isStop stop, unpacks_of_isStop stop']
  · obtain ⟨s, rest⟩ := c
    obtain ⟨s', rest'⟩ := c'
    obtain ⟨_, _, _, _, read, read', -, -⟩ := sound hole s s'
    obtain ⟨t, ts, rfl, ht⟩ := begins_of_yields read
    obtain ⟨t', ts', rfl, ht'⟩ := begins_of_yields read'
    refine .ok ?_ trivial
    show unpacks t' = unpacks t
    rw [unpacks_of_begins ht, unpacks_of_begins ht']

/-- The end of a list. -/
theorem AtItem.punct?_close (sound : w.Sound) (h : AtItem w c c') {p : Punct}
    (hp : p = .closeParen ∨ p = .closeBracket) :
    (c.punct? p = none ∧ c'.punct? p = none) ∨ Loose w c ∨
      ∃ r r', c.punct? p = some r ∧ c'.punct? p = some r' ∧
        r'.value.span = w.patch.move r.value.span ∧ w.At r.next r'.next := by
  rcases h with h | hole
  · exact h.punct?_close hp
  · obtain ⟨s, rest⟩ := c
    obtain ⟨s', rest'⟩ := c'
    obtain ⟨_, _, _, _, read, read', -, -⟩ := sound hole s s'
    obtain ⟨t, ts, rfl, ht⟩ := begins_of_yields read
    obtain ⟨t', ts', rfl, ht'⟩ := begins_of_yields read'
    have differs : ∀ u : Token, beginsOperand u → u.kind ≠ .punct p := by
      intro u hu hk
      rcases hp with rfl | rfl <;> simp [beginsOperand, hk] at hu
    exact .inl ⟨Cursor.punct?_eq_none (differs t ht), Cursor.punct?_eq_none (differs t' ht')⟩

/-! ### Arguments and elements -/

/-- At a semicolon, there are no arguments. -/
theorem Loose.arguments (h : Loose w c) : ∃ e, arguments c = .error e := by
  have close := h.punct? (p := .closeParen) (by decide)
  obtain ⟨e, first⟩ := h.expression 0
  obtain ⟨-, s, t, ts, rfl, ht⟩ := h
  obtain ⟨_, step⟩ := Cursor.advance_cons s t ts
  rw [Token.isPunct, beq_iff_eq] at ht
  rw [Script.arguments, close, step]
  simp only [ok_bind, Token.isPunct, ht, first]
  exact ⟨e, rfl⟩

theorem Loose.item (h : Loose w c) : ∃ e, item c = .error e := by
  obtain ⟨e, first⟩ := h.expression 0
  rw [Script.item, first]
  exact ⟨e, rfl⟩

/-- At a semicolon, there are no elements of an array. -/
theorem Loose.items (h : Loose w c) {p : Punct} (hp : p = .closeParen ∨ p = .closeBracket) :
    ∃ e, items p c = .error e := by
  have close : c.punct? p = none := h.punct? (by rcases hp with rfl | rfl <;> decide)
  obtain ⟨e, first⟩ := h.item
  obtain ⟨-, s, t, ts, rfl, ht⟩ := h
  obtain ⟨_, step⟩ := Cursor.advance_cons s t ts
  rw [Token.isPunct, beq_iff_eq] at ht
  rw [Script.items, close, step]
  simp only [ok_bind, Token.isPunct, ht, first]
  exact ⟨e, rfl⟩

theorem exists_unexpected {α : Type} (c : Cursor) : ∃ e, (c.unexpected : Parse α) = .error e := by
  unfold Cursor.unexpected
  split <;> exact ⟨_, rfl⟩

/-- What follows an entry: a comma, the end of the list, or something else. -/
theorem At.entryEnd (h : w.At c c') {p : Punct} (hp : p = .closeParen ∨ p = .closeBracket) :
    (∃ r r', c.punct? .comma = some r ∧ c'.punct? .comma = some r' ∧ AtItem w r.next r'.next) ∨
      (c.punct? .comma = none ∧ c'.punct? .comma = none ∧
        ∃ r r', c.punct? p = some r ∧ c'.punct? p = some r' ∧
          r'.value.span = w.patch.move r.value.span ∧ w.At r.next r'.next) ∨
      c.punct? .comma = none ∧ c.punct? p = none ∧
        (¬w.strict ∨ c'.punct? .comma = none ∧ c'.punct? p = none) := by
  have other : p ≠ .semicolon := by rcases hp with rfl | rfl <;> decide
  rcases h.punct?_comma with ⟨none, none'⟩ | loose | ⟨r, r', some, some', item, -⟩
  · rcases h.punct?_close hp with ⟨open', open''⟩ | loose | close
    · exact .inr (.inr ⟨none, open', .inr ⟨none', open''⟩⟩)
    · exact .inr (.inr ⟨none, loose.punct? other, .inl loose.1⟩)
    · exact .inr (.inl ⟨none, none', close⟩)
  · exact .inr (.inr ⟨loose.punct? (by decide), loose.punct? other, .inl loose.1⟩)
  · exact .inl ⟨r, r', some, some', item⟩

/-- Arguments agree, also with the hole next: there both texts have an expression, and behind it they are
twins. -/
theorem arguments_agree (sound : w.Sound) (ih : w.Mirror c.size) (h : AtItem w c c') :
    w.Agree w.SameArgs (arguments c) (arguments c') := by
  rcases h.punct?_close sound (p := .closeParen) (.inl rfl) with
    ⟨none, none'⟩ | loose | ⟨r, r', some, some', span, next⟩
  · rw [arguments, arguments, none, none']
    refine (h.advance sound).bind fun t t' same _ ↦ ?_
    show w.Agree w.SameArgs (if unpacks t.value then _ else _) (if unpacks t'.value then _ else _)
    rw [same]
    split
    · exact .error
    refine (entry_agree sound ih h).bind fun e e' first next ↦ ?_
    rcases next.entryEnd (p := .closeParen) (.inl rfl) with ⟨r, r', some, some', item⟩ |
      ⟨none, none', r, r', some, some', span, next⟩ | ⟨none, open', second⟩
    · rw [some, some']
      refine (ih.arguments item (Nat.lt_trans r.shorter e.shorter)).bind fun a a' more next ↦ ?_
      refine .ok ⟨?_, more.2⟩ next
      show e'.value :: a'.value.1 = w.patch.exprs (e.value :: a.value.1)
      rw [Patch.exprs, first.1, more.1]
    · rw [none, none', some, some']
      refine .ok ⟨?_, span⟩ next
      show [e'.value] = w.patch.exprs [e.value]
      rw [Patch.exprs, Patch.exprs, first.1]
    · rw [none, open']
      rcases second with loose | ⟨none', open''⟩
      · exact .loose loose (exists_unexpected _) _
      · rw [none', open'']
        exact .errors (exists_unexpected _) (exists_unexpected _)
  · exact .loose loose.1 loose.arguments _
  · rw [arguments, arguments, some, some']
    exact .ok ⟨rfl, span⟩ next

/-- Elements of an array agree, also with the hole next. -/
theorem item_agree (sound : w.Sound) (ih : w.Mirror c.size) (h : AtItem w c c') :
    w.Agree (fun i i' ↦ i' = w.patch.item i) (item c) (item c') := by
  rw [item, item]
  refine (entry_agree sound ih h).bind fun e e' first next ↦ ?_
  rcases next.punct? (p := .doubleArrow) rfl with ⟨none, none'⟩ | ⟨r, r', some, some', -, -, next⟩
  · rw [none, none']
    refine .ok ?_ next
    show Item.value e'.value = w.patch.item (.value e.value)
    rw [Patch.item, first.1]
  · rw [some, some']
    refine (ih.expression 0 next (Nat.lt_trans r.shorter e.shorter)).bind fun v v' value next ↦ ?_
    refine .ok ?_ next
    show Item.keyed e'.value v'.value = w.patch.item (.keyed e.value v.value)
    rw [Patch.item, first.1, value.1]

/-- The elements of an array agree up to its end, also with the hole among them. -/
theorem items_agree (sound : w.Sound) (ih : w.Mirror c.size) (h : AtItem w c c') {p : Punct}
    (hp : p = .closeParen ∨ p = .closeBracket) :
    w.Agree w.SameItems (items p c) (items p c') := by
  rcases h.punct?_close sound hp with
    ⟨none, none'⟩ | loose | ⟨r, r', some, some', span, next⟩
  · rw [items, items, none, none']
    refine (h.advance sound).bind fun t t' same _ ↦ ?_
    show w.Agree w.SameItems (if unpacks t.value then _ else _) (if unpacks t'.value then _ else _)
    rw [same]
    split
    · exact .error
    refine (item_agree sound ih h).bind fun e e' first next ↦ ?_
    rcases next.entryEnd hp with ⟨r, r', some, some', item⟩ |
      ⟨none, none', r, r', some, some', span, next⟩ | ⟨none, open', second⟩
    · rw [some, some']
      refine (ih.items hp item (Nat.lt_trans r.shorter e.shorter)).bind fun a a' more next ↦ ?_
      refine .ok ⟨?_, more.2⟩ next
      show e'.value :: a'.value.1 = w.patch.items (e.value :: a.value.1)
      rw [first, more.1, Patch.items_eq_map, Patch.items_eq_map, List.map_cons]
    · rw [none, none', some, some']
      refine .ok ⟨?_, span⟩ next
      show [e'.value] = w.patch.items [e.value]
      rw [first, Patch.items_eq_map, List.map_cons, List.map_nil]
    · rw [none, open']
      rcases second with loose | ⟨none', open''⟩
      · exact .loose loose (exists_unexpected _) _
      · rw [none', open'']
        exact .errors (exists_unexpected _) (exists_unexpected _)
  · exact .loose loose.1 (loose.items hp) _
  · rw [items, items, some, some']
    exact .ok ⟨rfl, span⟩ next

/-! ### All of it -/

/-- At twin cursors the parser of expressions agrees. -/
theorem mirror (sound : w.Sound) (n : Nat) : w.Mirror n := by
  induction n with
  | zero =>
    exact ⟨fun _ _ lt ↦ absurd lt (Nat.not_lt_zero _), fun _ _ _ lt ↦ absurd lt (Nat.not_lt_zero _),
      fun _ lt ↦ absurd lt (Nat.not_lt_zero _), fun _ lt ↦ absurd lt (Nat.not_lt_zero _),
      fun _ _ lt ↦ absurd lt (Nat.not_lt_zero _)⟩
  | succ n ih =>
    have below : ∀ {c : Cursor}, c.size < n + 1 → w.Mirror c.size := fun lt ↦
      ih.mono (Nat.le_of_lt_succ lt)
    exact {
      expression := fun min h lt ↦ expression_agree (below lt) h min
      operators := fun min _ h lt off ↦ operators_agree (below lt) h min off
      suffixes := fun h lt off ↦ suffixes_agree (below lt) h off
      arguments := fun h lt ↦ arguments_agree sound (below lt) h
      items := fun hp h lt ↦ items_agree sound (below lt) h hp }

end ConfigScript.Script.Twinning
