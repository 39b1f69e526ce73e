import ConfigScript.Script.Lexer

/-!
# Cutting a prefix of a text

The tokens of a text are not the tokens of its parts: a piece may end where it does only because of
what follows. `Lexes rest` therefore cuts a text *with what follows it present*: every piece is cut
from the whole remaining text, and `rest` is what is left in the end. So cuts compose
(`Lexes.append`), and the tokens of a text are those of a cut prefix followed by those of the rest
(`Lexes.tokensFrom_append`). Whatever tokenizes is a cut (`exists_lexes`).
-/

namespace ConfigScript.Script

/-- `Lexes rest m p cs ts m'`: with `rest` behind it, the text `cs` that begins at `p` in mode `m` is
cut into whole pieces; `ts` are their tokens, and `rest` is reached in mode `m'`. -/
inductive Lexes (rest : List Char) : Mode → Place → List Char → List Token → Mode → Prop
  | done {m : Mode} {p : Place} : Lexes rest m p [] [] m
  /-- A piece with the text `c :: w` and the gap `g`, and more behind it. -/
  | piece {m m₁ m' : Mode} {p : Place} {c : Char} {w g cs : List Char} {kinds : List TokenKind}
      {ts : List Token}
      (here : piece m c (w ++ (g ++ (cs ++ rest))) =
        .ok ⟨kinds, g ++ (cs ++ rest), cs ++ rest, m₁⟩)
      (more : Lexes rest m₁ ((p.past (c :: w)).past g) cs ts m') :
      Lexes rest m p (c :: (w ++ (g ++ cs)))
        (kinds.map (fun kind ↦ ⟨kind, Span.ofPlace p (p.past (c :: w)).offset, c :: w⟩) ++ ts) m'

theorem consumed_append (as rest : List Char) : consumed (as ++ rest) rest = as := by
  simp [consumed]

/-- One piece of the token list, with the recursion opened. -/
theorem tokensFrom_cons (m : Mode) (p : Place) (c : Char) (r : List Char) :
    tokensFrom m p (c :: r) =
      match piece m c r with
      | .error fault => .error (.atPlace p fault)
      | .ok pc =>
        (tokensFrom pc.mode
            ((p.past (consumed (c :: r) pc.afterText)).past (consumed pc.afterText pc.rest))
            pc.rest).map
          (pc.tokens p (consumed (c :: r) pc.afterText) ++ ·) := by
  rw [tokensFrom]
  split
  · rename_i fault h
    rw [h]
  · rename_i pc h
    dsimp only
    rw [h]
    dsimp only
    split <;> rename_i heq <;> rw [heq] <;> rfl

namespace Lexes

variable {rest : List Char} {m m' m'' : Mode} {p : Place} {cs ds : List Char}
  {ts us : List Token}

/-- Cuts compose. The first is made with the text of the second behind it. -/
theorem append (first : Lexes (ds ++ rest) m p cs ts m')
    (second : Lexes rest m' (p.past cs) ds us m'') : Lexes rest m p (cs ++ ds) (ts ++ us) m'' := by
  induction first with
  | done => exact second
  | @piece m m₁ m' p c w g cs kinds ts here more ih =>
    have past : (p.past (c :: (w ++ (g ++ cs)))) = ((p.past (c :: w)).past g).past cs := by
      rw [← Place.past_append, ← Place.past_append]
      simp
    rw [past] at second
    have shape : c :: (w ++ (g ++ cs)) ++ ds = c :: (w ++ (g ++ (cs ++ ds))) := by simp
    rw [shape, List.append_assoc]
    refine .piece ?_ (ih second)
    simpa using here

/-- The tokens of a text are those of a cut prefix, followed by those of what is left. -/
theorem tokensFrom_append (h : Lexes rest m p cs ts m') :
    tokensFrom m p (cs ++ rest) = (tokensFrom m' (p.past cs) rest).map (ts ++ ·) := by
  induction h with
  | @done m p =>
    rw [Place.past_nil, List.nil_append]
    cases tokensFrom m p rest <;> rfl
  | @piece m m₁ m' p c w g cs kinds ts here more ih =>
    have past : (p.past (c :: (w ++ (g ++ cs)))) = ((p.past (c :: w)).past g).past cs := by
      rw [← Place.past_append, ← Place.past_append]
      simp
    have shape : c :: (w ++ (g ++ cs)) ++ rest = c :: (w ++ (g ++ (cs ++ rest))) := by simp
    have text : consumed (c :: (w ++ (g ++ (cs ++ rest)))) (g ++ (cs ++ rest)) = c :: w :=
      consumed_append (c :: w) _
    rw [shape, tokensFrom_cons, here, past]
    dsimp only
    rw [text, consumed_append, ih]
    cases tokensFrom m' _ rest with
    | error e => rfl
    | ok us =>
      simp only [Except.map, Piece.tokens, List.append_assoc]

/-- A cut text that nothing follows tokenizes to the tokens of the cut. -/
theorem tokensFrom_eq (h : Lexes [] m p cs ts m') : tokensFrom m p cs = .ok ts := by
  have whole := h.tokensFrom_append
  rw [List.append_nil, tokensFrom] at whole
  rw [whole]
  simp [Except.map]

end Lexes

/-- Whatever tokenizes is cut into pieces up to its end. -/
theorem exists_lexes {m : Mode} {p : Place} {cs : List Char} {ts : List Token}
    (h : tokensFrom m p cs = .ok ts) : ∃ m', Lexes [] m p cs ts m' := by
  induction hn : cs.length using Nat.strongRecOn generalizing m p cs ts with
  | _ n ih =>
    cases cs with
    | nil =>
      rw [tokensFrom] at h
      injection h with h
      subst h
      exact ⟨m, .done⟩
    | cons c r =>
      rw [tokensFrom_cons] at h
      cases hp : piece m c r with
      | error fault => rw [hp] at h; cases h
      | ok pc =>
        rw [hp] at h
        dsimp only at h
        -- What is left behind a piece is the end of the text, so the piece is what stands in front of
        -- it.
        obtain ⟨⟨w, hw⟩, ⟨g, hg⟩⟩ := piece_cuts hp
        have text : consumed (c :: r) pc.afterText = c :: w := by
          rw [← hw]
          exact consumed_append (c :: w) _
        have gap : consumed pc.afterText pc.rest = g := by
          rw [← hg]
          exact consumed_append g _
        rw [text, gap] at h
        cases hts : tokensFrom pc.mode ((p.past (c :: w)).past g) pc.rest with
        | error e => rw [hts] at h; cases h
        | ok us =>
          rw [hts] at h
          injection h with h
          subst h
          have shorter : pc.rest.length < n := by
            rw [← hn, ← hw, ← hg]
            simp only [List.length_cons, List.length_append]
            omega
          obtain ⟨m', more⟩ := ih _ shorter hts rfl
          refine ⟨m', ?_⟩
          have shape : c :: r = c :: (w ++ (g ++ pc.rest)) := by rw [hg, hw]
          rw [shape]
          have here : piece m c (w ++ (g ++ (pc.rest ++ []))) =
              .ok ⟨pc.kinds, g ++ (pc.rest ++ []), pc.rest ++ [], pc.mode⟩ := by
            rw [List.append_nil, hg, hw, hp]
          exact .piece here more

end ConfigScript.Script
