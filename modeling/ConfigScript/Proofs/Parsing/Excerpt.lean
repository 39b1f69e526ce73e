import ConfigScript.Proofs.Lexing.Row
import ConfigScript.Proofs.Parsing.Placed

/-!
# The text of an expression

The tokens of an expression are cut from a text of their own, with the tokens before and behind it cut
from what is before and behind (`Lexes.excerpt`).
-/

namespace ConfigScript.Script

/-- An operand ends in front of whatever may stand behind one. -/
theorem isFirm_of_endsAtom {t : Token} (h : endsAtom t) : isFirm [t.kind] := by
  unfold endsAtom at h
  split at h
  · rename_i hk
    rw [hk]
    decide +kernel
  · rename_i hk
    rw [hk]
    decide +kernel
  · cases h
  · cases h
  · cases h
  · cases h
  · rename_i other _ _ _
    unfold isFirm
    split
    · contradiction
    · rename_i heq
      injection heq with heq
      exact absurd heq (other _)
    · rfl

/-! ### Moved tokens -/

/-- Tokens stay enclosed when they are moved, since their kinds stay. -/
theorem Enclosed.map {us : List Token} (h : Enclosed us) {f : Token → Token}
    (kind : ∀ t, (f t).kind = t.kind) : Enclosed (us.map f) := by
  induction h with
  | nil => exact .nil
  | @plain t ts plain _ ih =>
    refine .plain ?_ ih
    rwa [isPlain, kind]
  | @nest o c ts us opens closes _ _ ih ih' =>
    rw [List.map_cons, List.map_append, List.map_cons]
    refine .nest ?_ ?_ ih ih'
    · rwa [opensGroup, Token.isPunct, Token.isPunct, kind]
    · rwa [closesGroup, Token.isPunct, Token.isPunct, kind]

/-- Tokens in a row that are moved stay in a row, by as much. -/
theorem Covers.moved {lo hi : Nat} {us : List Token} (h : Covers lo hi us) {a b : Place}
    (behind : a.offset ≤ lo) : Covers (lo - a.offset + b.offset) (hi - a.offset + b.offset)
      (us.map (Token.moved a b)) := by
  induction h with
  | @single lo hi t start stop some =>
    refine .single ?_ ?_ (by omega)
    · show t.span.start - _ + _ = _
      rw [start]
    · show t.span.stop - _ + _ = _
      rw [stop]
  | @cons lo lo' hi t ts start some le more ih =>
    refine .cons ?_ ?_ ?_ (ih (by omega))
    · show t.span.start - _ + _ = _
      rw [start]
    · show _ < t.span.stop - _ + _
      omega
    · show t.span.stop - _ + _ ≤ _
      omega

/-! ### Excerpts -/

namespace Lexes

variable {rest : List Char} {m m' : Mode} {p : Place} {cs : List Char} {as us bs : List Token}

/-- The text of an expression is cut into its tokens. -/
theorem excerpt (h : Lexes rest m p cs (as ++ (us ++ bs)) m') (closed : Enclosed us) (some : us ≠ [])
    (alone : (∀ u ∈ us.head?, u.kind ≠ .ident "echo") ∨ ∀ o ∈ as.getLast?, o.kind ≠ .openTag) {lo hi : Nat} (covers : Covers lo hi us) :
    ∃ x w y, cs = x ++ (w ++ y) ∧ Lexes (w ++ (y ++ rest)) m p x as .script ∧
      Lexes (y ++ rest) .script (p.past x) w us .script ∧
      Lexes rest .script (p.past (x ++ w)) y bs m' ∧
      (p.past x).offset = lo ∧ (p.past (x ++ w)).offset = hi ∧
      ∀ u ∈ us.head?, BeginsWith u.kind (w ++ (y ++ rest)) := by
  obtain ⟨u, us', rfl⟩ := List.exists_cons_of_ne_nil some
  obtain ⟨x, text, y₀, rfl, front, fits, first, back⟩ := h.split
    (closed.ne_openTag List.mem_cons_self).2 fun echo ↦ alone.resolve_left fun word ↦ word u rfl echo
  have start : (p.past x).offset = lo := by
    rw [← covers.head.1, first]
    rfl
  have inner : Lexes rest .script (p.past x) (text ++ y₀) (u :: us' ++ bs) m' := by
    have piece : Lexes (y₀ ++ rest) .script (p.past x) text [u] .script := by
      have cut := fits.lexes (p.past x)
      rwa [← first] at cut
    rw [Place.past_append] at back
    exact piece.append back
  obtain ⟨us₀, l, last⟩ : ∃ us₀ l, u :: us' = us₀ ++ [l] :=
    ⟨_, _, (List.dropLast_concat_getLast (List.cons_ne_nil u us')).symm⟩
  have mem : ∀ t ∈ us₀ ++ [l], t.kind ≠ .openTag ∧ isScript t.kind := fun t ht ↦
    closed.ne_openTag (last ▸ ht)
  rw [last, List.append_assoc] at inner
  obtain ⟨x', text', y, parts, front', fits', final, back'⟩ := inner.split (mem l (by simp)).2
    fun _ o ho ↦ (mem o (List.mem_append_left _ (List.mem_of_getLast? ho))).1
  have stop : (p.past (x ++ (x' ++ text'))).offset = hi := by
    have span := covers.lastSpan default
    rw [last, lastSpan_append, lastSpan_cons, lastSpan_nil, final] at span
    rw [← span, Place.past_append, Place.past_append]
    rfl
  have whole : text ++ (y₀ ++ rest) = x' ++ text' ++ (y ++ rest) := by
    rw [← List.append_assoc, parts]
    simp
  refine ⟨x, x' ++ text', y, by rw [parts]; simp, whole ▸ front, ?_, ?_, start, stop, ?_⟩
  · have piece : Lexes (y ++ rest) .script ((p.past x).past x') text' [l] .script := by
      have cut := fits'.lexes ((p.past x).past x')
      rwa [← final] at cut
    rw [last]
    exact front'.append piece
  · rw [Place.past_append]
    exact back'
  · intro u' hu
    obtain rfl := Option.some.inj hu
    exact ⟨(closed.ne_openTag List.mem_cons_self).2, text, y₀ ++ rest, fits, whole.symm⟩

end Lexes

/-! ### Where characters begin -/

/-- A character of the text begins at byte `n`, or the text ends there. -/
def IsBoundary (cs : List Char) (n : Nat) : Prop := ∃ as bs, cs = as ++ bs ∧ Text.byteLength as = n

/-- A span begins where a character of the text does, and in its line. -/
def BeginsIn (source : List Char) (s : Span) : Prop :=
  ∃ as bs, source = as ++ bs ∧ s.start = (Place.start.past as).offset ∧
    s.line = (Place.start.past as).line

theorem BeginsIn.through {source : List Char} (s t : Span) (h : BeginsIn source s) :
    BeginsIn source (s.through t) := h

/-- An equals sign fits where no operator goes on with it. -/
theorem fits_assign {rest : List Char} (h : ∀ c ∈ rest.head?, c ≠ '=' ∧ c ≠ '>') :
    Fits (.punct .assign) ['='] rest := by
  have start : Start.of '=' rest = .punct := by
    simp [Start.of, isGap, isNameStart]
  have read : punct? ('=' :: rest) = some (.assign, rest) := by
    refine punct?_eq_some.2 ⟨rfl, fun q hq ↦ ?_⟩
    have longer : Punct.all.all fun q ↦ (symbol q).head? != some '=' || (symbol q).length ≤ 1 ||
        (symbol q)[1]? == some '=' || (symbol q)[1]? == some '>' := by decide +kernel
    have here := List.all_eq_true.1 longer q (Punct.mem_all q)
    obtain ⟨more, text⟩ := hq
    rcases hs : symbol q with _ | ⟨a, _ | ⟨b, s⟩⟩
    · exact Nat.zero_le _
    · exact Nat.le_refl _
    · rw [hs] at here text
      obtain ⟨rfl, rfl⟩ := List.cons.inj text
      obtain ⟨equal, greater⟩ := h b rfl
      simp [equal, greater] at here
  refine ⟨'=', [], rfl, ?_⟩
  rw [List.nil_append, scriptPiece, start]
  dsimp only [punctPiece]
  rw [read]

/-- No operator begins a gap. -/
theorem Gap.head {c : Char} {g : List Char} (h : Gap (c :: g)) : c ≠ '=' ∧ c ≠ '>' := by
  have cut := h [] .start
  generalize whole : c :: g = cs at cut
  generalize none : ([] : List Token) = ts at cut
  generalize script : Mode.script = m at cut
  cases cut with
  | done => cases whole
  | @piece _ m₁ _ _ d w g cs kinds ts here more =>
    obtain ⟨rfl, -⟩ := List.cons.inj whole
    obtain ⟨rfl, -⟩ : kinds = [] ∧ ts = [] := by simpa using none.symm
    subst script
    rcases scriptPiece_kinds here with ⟨k, rest, same, -⟩ | ⟨rest, -, skips⟩ | ⟨tag, -⟩
    · cases (Piece.mk.inj same).1
    · cases skips with
      | blank blank => refine ⟨?_, ?_⟩ <;> rintro rfl <;> cases blank
      | line start => rcases start with rfl | ⟨rfl, -⟩ <;> decide
      | block slash => subst slash; decide
    · cases tag

/-- Behind a comma or an equals sign, everything may be exchanged with which no operator goes on. -/
theorem Lexes.exchange_value {z z' : List Char} {m : Mode} {p : Place} {x : List Char}
    {before : List Token} {lead : Token} {k : TokenKind} (h : Lexes z m p x (before ++ [lead]) .script)
    (sign : lead.kind = .punct .assign ∨ lead.kind = .punct .comma) (begins : BeginsWith k z)
    (head : ∀ c ∈ z'.head?, c ≠ '=' ∧ c ≠ '>') : Lexes z' m p x (before ++ [lead]) .script := by
  have script : isScript lead.kind := by rcases sign with hk | hk <;> rw [hk] <;> rfl
  obtain ⟨x₀, text, g, rfl, front, fits, token, back⟩ := @Lexes.split _ _ _ _ _ _ [] _ h script fun echo ↦ by
    rcases sign with hk | hk <;> rw [hk] at echo <;> cases echo
  obtain ⟨gap, -⟩ := gap_of_lexes back begins rfl rfl
  obtain ⟨c, rfl, edge, fits'⟩ : ∃ c, text = [c] ∧ isEdge c ∧ Fits lead.kind [c] (g ++ z') := by
    rcases sign with hk | hk <;> rw [hk] at fits ⊢
    · refine ⟨'=', fits.text_punct.1, rfl, fits_assign ?_⟩
      cases g with
      | nil => exact head
      | cons d g =>
        intro c hc
        obtain rfl := Option.some.inj hc
        exact gap.head
    · exact ⟨',', fits.text_punct.1, rfl, fits_bracket _ (by decide)⟩
  have first : Lexes ([c] ++ g ++ z') m p x₀ before .script := front.exchange edge _
  have second := fits'.lexes (p.past x₀)
  rw [← token] at second
  exact first.append (second.append (gap z' _))

end ConfigScript.Script
