import ConfigScript.Proofs.Patching.Stop

/-!
# Twin cursors

What the steps of a cursor do at twin cursors. A token that is read at one of them is read at the
other one, moved; behind it the cursors are twins again, unless a hole begins there.
-/

namespace ConfigScript.Script.Twinning

variable {w : Twinning} {c c' : Cursor}

theorem ok_bind {α β : Type} (a : α) (f : α → Parse β) : ((.ok a : Parse α) >>= f) = f a := rfl

/-- The same token stands ahead of both cursors, with twin cursors behind it. -/
def Level (w : Twinning) (c c' : Cursor) : Prop :=
  ∃ s t ts s' ts', c = ⟨s, t :: ts⟩ ∧ c' = ⟨s', w.patch.token t :: ts'⟩ ∧ w.patch.Off t.span ∧
    w.At ⟨t.span, ts⟩ ⟨w.patch.move t.span, ts'⟩ ∧
    (¬endsText t → w.Clear ⟨t.span, ts⟩ ⟨w.patch.move t.span, ts'⟩)

/-- Both cursors stand in front of a token where expressions stop. -/
def Stopped (c c' : Cursor) : Prop :=
  ∃ s t ts s' t' ts', c = ⟨s, t :: ts⟩ ∧ c' = ⟨s', t' :: ts'⟩ ∧ isStop t ∧ isStop t'

/-- What stands ahead of twin cursors: nothing, the same token with twin cursors behind it, or a token
where expressions stop. -/
theorem At.cases (h : w.At c c') :
    (∃ s s', c = ⟨s, []⟩ ∧ c' = ⟨s', []⟩) ∨ Level w c c' ∨ Stopped c c' := by
  obtain ⟨s, ts⟩ := c
  obtain ⟨s', ts'⟩ := c'
  obtain ⟨-, rest⟩ := h
  cases rest with
  | nil => exact .inl ⟨s, s', rfl, rfl⟩
  | cons off before more =>
    refine .inr (.inl ⟨_, _, _, _, _, rfl, rfl, off, ⟨rfl, more⟩, fun text ↦ ⟨⟨rfl, more⟩, ?_⟩⟩)
    intro u us us' hu hole comma
    exact text (before u us us' hu hole comma)
  | @hole t ts ts' off lead here =>
    have stop : isStop t := by simp [isStop, lead]
    exact .inr (.inr ⟨_, _, _, _, _, _, rfl, rfl, stop, stop⟩)
  | @barrier t ts ts' part off bar =>
    have stop : isStop t := by simp [isStop, bar]
    exact .inr (.inr ⟨_, _, _, _, _, _, rfl, rfl, stop, stop⟩)
  | @ends t u ts us loose stop stop' =>
    have first : isStop t := by
      rw [Token.isPunct, beq_iff_eq] at stop
      simp [isStop, isBarrier, stop]
    exact .inr (.inr ⟨_, _, _, _, _, _, rfl, rfl, first, by simp [isStop, stop']⟩)

/-- Tokens that are told apart by no stop. -/
def plain (p : Punct) : Bool :=
  p ∉ [Punct.semicolon, .openBrace, .closeBrace, .comma, .closeParen, .assign]

/-- Reading a token where expressions do not stop. -/
theorem At.punct? (h : w.At c c') {p : Punct} (hp : plain p) :
    (c.punct? p = none ∧ c'.punct? p = none) ∨
      ∃ r r', c.punct? p = some r ∧ c'.punct? p = some r' ∧ r'.value = w.patch.token r.value ∧
        w.patch.Off r.value.span ∧ w.At r.next r'.next := by
  rcases h.cases with ⟨s, s', rfl, rfl⟩ | ⟨s, t, ts, s', ts', rfl, rfl, off, more, -⟩ |
    ⟨s, t, ts, s', t', ts', rfl, rfl, stop, stop'⟩
  · exact .inl ⟨rfl, rfl⟩
  · by_cases is : t.kind = .punct p
    · obtain ⟨_, read⟩ := Cursor.punct?_of_kind (s := s) (r := ts) is
      obtain ⟨_, read'⟩ := Cursor.punct?_of_kind (s := s') (t := w.patch.token t) (r := ts') is
      exact .inr ⟨_, _, read, read', rfl, off, more⟩
    · exact .inl ⟨Cursor.punct?_eq_none is, Cursor.punct?_eq_none is⟩
  · have hp : p ∉ [Punct.semicolon, .openBrace, .closeBrace, .comma, .closeParen, .assign] := by
      simpa [plain] using hp
    exact .inl ⟨punct?_of_isStop stop hp, punct?_of_isStop stop' hp⟩

/-- Whether a token stands ahead at which expressions do not stop. -/
theorem At.atPunct (h : w.At c c') {p : Punct} (hp : plain p) : c'.atPunct p = c.atPunct p := by
  rcases h.cases with ⟨s, s', rfl, rfl⟩ | ⟨s, t, ts, s', ts', rfl, rfl, off, more, -⟩ |
    ⟨s, t, ts, s', t', ts', rfl, rfl, stop, stop'⟩
  · rfl
  · rfl
  · have differs : ∀ u : Token, isStop u → u.isPunct p = false := by
      intro u hu
      simp only [plain, List.mem_cons, List.not_mem_nil, or_false, not_or, decide_eq_true_eq] at hp
      rcases kind_of_isStop hu with h | h | h | h | h | h | h | h | h <;>
        simp [Token.isPunct, h, Ne.symm hp.1, Ne.symm hp.2.1, Ne.symm hp.2.2.1,
          Ne.symm hp.2.2.2.1, Ne.symm hp.2.2.2.2.1, Ne.symm hp.2.2.2.2.2]
    rw [Cursor.atPunct_cons, Cursor.atPunct_cons, differs t stop, differs t' stop']

/-- The first cursor stands in front of a semicolon at which loose twins end. -/
def Loose (w : Twinning) (c : Cursor) : Prop :=
  ¬w.strict ∧ ∃ s t ts, c = ⟨s, t :: ts⟩ ∧ t.isPunct .semicolon

/-- At a semicolon, no other punctuation is found. -/
theorem Loose.punct? (h : Loose w c) {p : Punct} (hp : p ≠ .semicolon) : c.punct? p = none := by
  obtain ⟨-, s, t, ts, rfl, ht⟩ := h
  rw [Token.isPunct, beq_iff_eq] at ht
  refine Cursor.punct?_eq_none fun hk ↦ hp ?_
  rw [ht] at hk
  injection hk with hk
  exact hk.symm

theorem Loose.expression (h : Loose w c) (min : Nat) : ∃ e, expression min c = .error e := by
  obtain ⟨-, s, t, ts, rfl, ht⟩ := h
  rw [Token.isPunct, beq_iff_eq] at ht
  exact expression_of_begins min (by simp [beginsOperand, ht])

/-- Reading a closing parenthesis or bracket. -/
theorem At.punct?_close (h : w.At c c') {p : Punct} (hp : p = .closeParen ∨ p = .closeBracket) :
    (c.punct? p = none ∧ c'.punct? p = none) ∨ Loose w c ∨
      ∃ r r', c.punct? p = some r ∧ c'.punct? p = some r' ∧
        r'.value.span = w.patch.move r.value.span ∧ w.At r.next r'.next := by
  obtain ⟨s, ts⟩ := c
  obtain ⟨s', ts'⟩ := c'
  obtain ⟨-, rest⟩ := h
  have differs : ∀ t : Token, (leadsToHole t ∨ isBarrier t) → t.kind ≠ .punct p := by
    intro t ht hk
    rcases hp with rfl | rfl <;> simp [leadsToHole, isBarrier, hk] at ht
  cases rest with
  | nil => exact .inl ⟨rfl, rfl⟩
  | @cons t ts ts' off before more =>
    by_cases is : t.kind = .punct p
    · obtain ⟨_, read⟩ := Cursor.punct?_of_kind (s := s) (r := ts) is
      obtain ⟨_, read'⟩ := Cursor.punct?_of_kind (s := s') (t := w.patch.token t) (r := ts') is
      exact .inr (.inr ⟨_, _, read, read', rfl, rfl, more⟩)
    · exact .inl ⟨Cursor.punct?_eq_none is, Cursor.punct?_eq_none is⟩
  | hole off lead here =>
    have ne := differs _ (.inl lead)
    exact .inl ⟨Cursor.punct?_eq_none ne, Cursor.punct?_eq_none ne⟩
  | barrier ts ts' part off bar =>
    have ne := differs _ (.inr bar)
    exact .inl ⟨Cursor.punct?_eq_none ne, Cursor.punct?_eq_none ne⟩
  | ends ts us loose stop stop' => exact .inr (.inl ⟨loose, _, _, _, rfl, stop⟩)

/-- Cursors behind a comma: at twins again, or in front of the expressions that differ. -/
def AtItem (w : Twinning) (c c' : Cursor) : Prop := w.At c c' ∨ w.hole c.rest c'.rest

/-- Reading a comma. -/
theorem At.punct?_comma (h : w.At c c') :
    (c.punct? .comma = none ∧ c'.punct? .comma = none) ∨ Loose w c ∨
      ∃ r r', c.punct? .comma = some r ∧ c'.punct? .comma = some r' ∧ AtItem w r.next r'.next ∧
        (w.Clear c c' → w.At r.next r'.next) := by
  obtain ⟨s, ts⟩ := c
  obtain ⟨s', ts'⟩ := c'
  obtain ⟨-, rest⟩ := h
  cases rest with
  | nil => exact .inl ⟨rfl, rfl⟩
  | @cons t ts ts' off before more =>
    by_cases is : t.kind = .punct .comma
    · obtain ⟨_, read⟩ := Cursor.punct?_of_kind (s := s) (r := ts) is
      obtain ⟨_, read'⟩ := Cursor.punct?_of_kind (s := s') (t := w.patch.token t) (r := ts') is
      exact .inr (.inr ⟨_, _, read, read', .inl ⟨rfl, more⟩, fun _ ↦ ⟨rfl, more⟩⟩)
    · exact .inl ⟨Cursor.punct?_eq_none is, Cursor.punct?_eq_none is⟩
  | @hole t ts ts' off lead here =>
    by_cases is : t.kind = .punct .comma
    · obtain ⟨_, read⟩ := Cursor.punct?_of_kind (s := s) (r := ts) is
      obtain ⟨_, read'⟩ := Cursor.punct?_of_kind (s := s') (t := w.patch.token t) (r := ts') is
      refine .inr (.inr ⟨_, _, read, read', .inr here, fun clear ↦ ?_⟩)
      exact absurd (by simp [Token.isPunct, is]) (clear.comma t ts ts' rfl here)
    · exact .inl ⟨Cursor.punct?_eq_none is, Cursor.punct?_eq_none is⟩
  | @barrier t ts ts' part off bar =>
    have ne : t.kind ≠ .punct .comma := fun hk ↦ by simp [isBarrier, hk] at bar
    exact .inl ⟨Cursor.punct?_eq_none ne, Cursor.punct?_eq_none ne⟩
  | ends ts us loose stop stop' => exact .inr (.inl ⟨loose, _, _, _, rfl, stop⟩)

/-- Where another token is ahead, what is expected is not there. -/
theorem expect_of_ne {s : Span} {t : Token} {r : List Token} {p : Punct} (h : t.kind ≠ .punct p) :
    ∃ e, (Cursor.mk s (t :: r)).expect p = .error e := by
  obtain ⟨_, step⟩ := Cursor.advance_cons s t r
  have is : t.isPunct p = false := by simp [Token.isPunct, h]
  rw [Cursor.expect, step]
  simp only [bind, Except.bind, is]
  exact ⟨_, rfl⟩

/-- Reading a token that must follow. -/
theorem At.expect (h : w.At c c') {p : Punct}
    (hp : p = .closeParen ∨ p = .closeBracket ∨ p = .colon ∨ p = .openParen) :
    w.Agree (fun s s' ↦ s' = w.patch.move s) (c.expect p) (c'.expect p) := by
  obtain ⟨s, ts⟩ := c
  obtain ⟨s', ts'⟩ := c'
  obtain ⟨-, rest⟩ := h
  have differs : ∀ t : Token, (leadsToHole t ∨ isBarrier t) → t.kind ≠ .punct p := by
    intro t ht hk
    rcases hp with rfl | rfl | rfl | rfl <;> simp [leadsToHole, isBarrier, hk] at ht
  cases rest with
  | nil => exact .error
  | @cons t ts ts' off before more =>
    by_cases is : t.kind = .punct p
    · obtain ⟨_, read⟩ := Cursor.expect_of_kind (s := s) (r := ts) is
      obtain ⟨_, read'⟩ := Cursor.expect_of_kind (s := s') (t := w.patch.token t) (r := ts') is
      rw [read, read']
      exact .ok rfl ⟨rfl, more⟩
    · exact .errors (expect_of_ne is) (expect_of_ne is)
  | hole off lead here =>
    exact .errors (expect_of_ne (differs _ (.inl lead))) (expect_of_ne (differs _ (.inl lead)))
  | barrier ts ts' part off bar =>
    exact .errors (expect_of_ne (differs _ (.inr bar))) (expect_of_ne (differs _ (.inr bar)))
  | @ends t u ts us loose stop stop' =>
    refine .loose loose (expect_of_ne ?_) _
    exact differs t (.inr (by rw [Token.isPunct, beq_iff_eq] at stop; simp [isBarrier, stop]))

end ConfigScript.Script.Twinning
