import ConfigScript.Proofs.Parsing.Spelling
import ConfigScript.Proofs.Patching.Mirror

/-!
# Twins up to the end

Statements go on behind barriers, so for them lists of tokens are compared up to their ends: twins that
are strict and whole (`Settled`). At such twins the same token stands ahead of both cursors, or none
does; behind it they are twins again, or a hole begins (`Settled.front`). What is skipped may hold the
hole, so the expressions there are known to have closed brackets.
-/

namespace ConfigScript.Script

theorem through_congr {s t u : Span} (h : t.stop = u.stop) : s.through t = s.through u := by
  rw [Span.through, Span.through, h]

namespace Twinning

/-- Whole and strict twins, with what is known of the expressions at a hole. -/
structure Settled (w : Twinning) : Prop where
  strict : w.strict
  whole : w.whole
  sound : w.Sound
  /-- The expressions have closed brackets and are followed by what ends a value. -/
  closed : ∀ {ts ts' : List Token}, w.hole ts ts' → ∃ us rest us' rest', ts = us ++ rest ∧
    ts' = us' ++ rest' ∧ us ≠ [] ∧ us' ≠ [] ∧ Enclosed us ∧ Enclosed us' ∧
    rest.head?.any endsValue ∧ rest'.head?.any endsValue ∧
    ∀ s s', w.At ⟨lastSpan s us, rest⟩ ⟨lastSpan s' us', rest'⟩

/-- Where both cursors stand behind a token of the kind `p`. -/
structure Past (w : Twinning) (p : TokenKind) (c c' : Cursor) : Prop where
  item : AtItem w c c'
  twin : p ≠ .punct .comma → p ≠ .punct .assign → w.At c c'
  clear : p ≠ .punct .comma → p ≠ .punct .assign → p ≠ .punct .closeParen → (∀ ps, p ≠ .str ps) →
    w.Clear c c'

/-- Spans that end at the same place of the two texts. -/
def Ends (w : Twinning) (s s' : Span) : Prop := s'.stop = (w.patch.move s).stop

variable {w : Twinning} {c c' : Cursor}

theorem Ends.move (s : Span) : w.Ends s (w.patch.move s) := rfl

theorem Ends.through {s t t' : Span} (h : w.Ends t t') :
    (w.patch.move s).through t' = w.patch.move (s.through t) := by
  rw [w.patch.move_through]
  exact through_congr h

theorem Clear.at (h : w.Clear c c') : w.At c c' := h.toAt

namespace Settled

variable (S : w.Settled)

include S in
/-- What stands ahead of twin cursors. -/
theorem front (h : w.At c c') :
    (∃ s s', c = ⟨s, []⟩ ∧ c' = ⟨s', []⟩) ∨
      ∃ s t ts s' ts', c = ⟨s, t :: ts⟩ ∧ c' = ⟨s', w.patch.token t :: ts'⟩ ∧ w.patch.Off t.span ∧
        w.Past t.kind ⟨t.span, ts⟩ ⟨w.patch.move t.span, ts'⟩ := by
  obtain ⟨s, ts⟩ := c
  obtain ⟨s', ts'⟩ := c'
  obtain ⟨-, rest⟩ := h
  cases rest with
  | nil => exact .inl ⟨s, s', rfl, rfl⟩
  | @cons t ts ts' off before more =>
    refine .inr ⟨s, t, ts, s', ts', rfl, rfl, off, ⟨.inl ⟨rfl, more⟩, fun _ _ ↦ ⟨rfl, more⟩, ?_⟩⟩
    intro _ _ paren text
    refine ⟨⟨rfl, more⟩, fun u us us' hu hole comma ↦ ?_⟩
    have ends := before u us us' hu hole comma
    unfold endsText at ends
    split at ends
    · rename_i ps hk
      exact text ps hk
    · rename_i hk
      exact paren hk
    · cases ends
  | @hole t ts ts' off lead here =>
    refine .inr ⟨s, t, ts, s', ts', rfl, rfl, off, ⟨.inr here, ?_, ?_⟩⟩ <;>
      (intro comma assign; unfold leadsToHole at lead; split at lead <;> simp_all)
  | barrier ts ts' part => exact absurd S.whole part
  | ends ts us loose => exact absurd S.strict loose

include S in
/-- Parsers that agree both accept or both do not. -/
theorem agree_cases {α α' : Type} {n n' : Nat} {N : Cursor → Cursor → Prop} {R : α → α' → Prop}
    {x : Parse (Read α n)} {x' : Parse (Read α' n')} (h : w.AgreeTo N R x x') :
    (∃ e e', x = .error e ∧ x' = .error e') ∨
      ∃ r r', x = .ok r ∧ x' = .ok r' ∧ R r.value r'.value ∧ N r.next r'.next := by
  cases x <;> cases x'
  · exact .inl ⟨_, _, rfl, rfl⟩
  · exact absurd S.strict h
  · exact h.elim
  · exact .inr ⟨_, _, rfl, rfl, h⟩

/-! ### Steps -/

include S in
/-- The same punctuation is ahead at twins, or neither of them has it. -/
theorem punct? (h : w.At c c') (p : Punct) :
    (c.punct? p = none ∧ c'.punct? p = none) ∨
      ∃ r r', c.punct? p = some r ∧ c'.punct? p = some r' ∧ r'.value = w.patch.token r.value ∧
        w.Past (.punct p) r.next r'.next := by
  rcases S.front h with ⟨s, s', rfl, rfl⟩ | ⟨s, t, ts, s', ts', rfl, rfl, -, past⟩
  · exact .inl ⟨rfl, rfl⟩
  · by_cases is : t.kind = .punct p
    · obtain ⟨_, read⟩ := Cursor.punct?_of_kind (s := s) (r := ts) is
      obtain ⟨_, read'⟩ := Cursor.punct?_of_kind (s := s') (t := w.patch.token t) (r := ts') is
      exact .inr ⟨_, _, read, read', rfl, is ▸ past⟩
    · exact .inl ⟨Cursor.punct?_eq_none is, Cursor.punct?_eq_none is⟩

theorem keyword?_cons {s : Span} {t : Token} {ts : List Token} {word : String} :
    (Cursor.mk s (t :: ts)).keyword? word =
      if t.isKeyword word then some ⟨t, ⟨t.span, ts⟩, Nat.lt_succ_self _⟩ else none := rfl

include S in
/-- The same keyword is ahead at twins, or neither of them has it. -/
theorem keyword? (h : w.At c c') (word : String) :
    (c.keyword? word = none ∧ c'.keyword? word = none) ∨
      ∃ r r', c.keyword? word = some r ∧ c'.keyword? word = some r' ∧ w.At r.next r'.next := by
  rcases S.front h with ⟨s, s', rfl, rfl⟩ | ⟨s, t, ts, s', ts', rfl, rfl, -, past⟩
  · exact .inl ⟨rfl, rfl⟩
  · rw [keyword?_cons, keyword?_cons, Patch.isKeyword_token]
    split
    · rename_i is
      refine .inr ⟨_, _, rfl, rfl, past.twin ?_ ?_⟩ <;>
        (intro hk; simp [Token.isKeyword, Token.keyword?, hk] at is)
    · exact .inl ⟨rfl, rfl⟩

include S in
/-- What is expected is ahead at both twins or at neither. -/
theorem expect (h : w.At c c') (p : Punct) :
    w.AgreeTo (w.Past (.punct p)) (fun s s' ↦ s' = w.patch.move s) (c.expect p) (c'.expect p) := by
  rcases S.front h with ⟨s, s', rfl, rfl⟩ | ⟨s, t, ts, s', ts', rfl, rfl, -, past⟩
  · exact .error
  · by_cases is : t.kind = .punct p
    · obtain ⟨_, read⟩ := Cursor.expect_of_kind (s := s) (r := ts) is
      obtain ⟨_, read'⟩ := Cursor.expect_of_kind (s := s') (t := w.patch.token t) (r := ts') is
      rw [read, read']
      exact .ok rfl (is ▸ past)
    · exact .errors (expect_of_ne is) (expect_of_ne is)

include S in
theorem current? (h : w.At c c') : c'.current? = c.current?.map w.patch.token := by
  rcases S.front h with ⟨s, s', rfl, rfl⟩ | ⟨s, t, ts, s', ts', rfl, rfl, -, -⟩ <;> rfl

include S in
theorem atPunct (h : w.At c c') (p : Punct) : c'.atPunct p = c.atPunct p := by
  rw [Cursor.atPunct, Cursor.atPunct, S.current? h]
  cases c.current? <;> rfl

include S in
/-- A statement ends at both twins or at neither. -/
theorem terminator (h : w.At c c') {last last' : Span} (ends : w.Ends last last') :
    w.Agree w.Ends (c.terminator last) (c'.terminator last') := by
  rcases S.front h with ⟨s, s', rfl, rfl⟩ | ⟨s, t, ts, s', ts', rfl, rfl, -, past⟩
  · exact .error
  · obtain ⟨_, step⟩ := Cursor.advance_cons s t ts
    obtain ⟨_, step'⟩ := Cursor.advance_cons s' (w.patch.token t) ts'
    rw [Cursor.terminator, Cursor.terminator, step, step']
    dsimp only
    rw [Patch.isPunct_token, Patch.kind_token]
    split
    · rename_i is
      rw [Token.isPunct, beq_iff_eq] at is
      refine .ok rfl (past.twin ?_ ?_) <;> simp [is]
    split
    · exact .ok ends h
    · exact .error

end Settled

end Twinning

end ConfigScript.Script
