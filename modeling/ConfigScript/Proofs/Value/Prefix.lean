import ConfigScript.Proofs.Value.Arithmetic

/-!
# Numeric prefixes

A text is in numeric form if it is white space and a numeral: a sign, digits with a point among or around
them, and an exponent, where all but the digits may be missing (`IsNumeric`). The number that a text begins
with is read from its longest prefix in numeric form, and there is such a number unless no prefix has this
form (`numericPrefix?_spec`).

A numeral is read piece by piece, and each piece takes all digits it can get. That this finds the longest
numeral is shown against any other one at the beginning of the text: as long as the other numeral goes on,
both have the same pieces, and where it ends, the rest of the text is all that reading on can take from
(`Reaches`).
-/

namespace ConfigScript

namespace Numeral

/-! ### How numerals are written -/

/-- A sign, or nothing. -/
def IsSign (cs : List Char) : Prop := cs = [] ∨ cs = ['+'] ∨ cs = ['-']

/-- Nothing but decimal digits. -/
def AreDigits (cs : List Char) : Prop := ∀ c ∈ cs, c.isDigit

/-- A point and digits behind it, or nothing. -/
def IsFraction (cs : List Char) : Prop := cs = [] ∨ ∃ ds, AreDigits ds ∧ cs = '.' :: ds

/-- An exponent, which has a digit at least, or nothing. -/
def IsExponent (cs : List Char) : Prop :=
  cs = [] ∨ ∃ c sign ds, (c = 'e' ∨ c = 'E') ∧ IsSign sign ∧ AreDigits ds ∧ ds ≠ [] ∧
    cs = c :: (sign ++ ds)

/-- The pieces are written as those of a numeral, and there is a digit on one side of the point. -/
structure IsLegal (n : Numeral) : Prop where
  sign : IsSign n.sign
  whole : AreDigits n.whole
  fraction : IsFraction n.fraction
  digits : n.whole = [] → ∃ d ds, n.fraction = '.' :: d :: ds
  exponent : IsExponent n.exponent

/-- The integer that sign and digits denote. -/
def intValue (n : Numeral) : Int :=
  if n.sign = ['-'] then -(Nat.ofDigitChars 10 n.whole 0 : Int) else Nat.ofDigitChars 10 n.whole 0

/-- The numeral is written as an integer, and the integer fits into 64 bits. -/
structure IsInteger (n : Numeral) : Prop where
  fraction : n.fraction = []
  exponent : n.exponent = []
  fits : Integer.Fits n.intValue

/-! ### Pieces are what they should be -/

theorem areDigits_takeWhile (cs : List Char) : AreDigits (cs.takeWhile Char.isDigit) :=
  fun c hc ↦ List.all_eq_true.1 (List.all_takeWhile (l := cs)) c hc

/-- The sign that is split off is one, and nothing is lost. -/
theorem splitSign_sound (cs : List Char) :
    IsSign (splitSign cs).1 ∧ (splitSign cs).1 ++ (splitSign cs).2 = cs := by
  unfold splitSign
  split
  · exact ⟨.inr (.inl rfl), rfl⟩
  · exact ⟨.inr (.inr rfl), rfl⟩
  · exact ⟨.inl rfl, rfl⟩

theorem splitFraction_point (whole cs : List Char) :
    splitFraction whole ('.' :: cs) =
      if whole.isEmpty && (cs.takeWhile Char.isDigit).isEmpty then ([], '.' :: cs)
      else ('.' :: cs.takeWhile Char.isDigit, cs.dropWhile Char.isDigit) := rfl

/-- Without a point, there is no fraction. -/
theorem splitFraction_other {whole cs : List Char} (h : cs.head? ≠ some '.') :
    splitFraction whole cs = ([], cs) := by
  unfold splitFraction
  split
  · exact absurd rfl h
  · rfl

/-- The fraction that is split off is one, and nothing is lost. Without digits in front it has digits of
its own. -/
theorem splitFraction_sound (whole cs : List Char) :
    IsFraction (splitFraction whole cs).1 ∧
      (splitFraction whole cs).1 ++ (splitFraction whole cs).2 = cs ∧
      ((splitFraction whole cs).1 ≠ [] → whole = [] →
        ∃ d ds, (splitFraction whole cs).1 = '.' :: d :: ds) := by
  by_cases point : cs.head? = some '.'
  · obtain ⟨cs, rfl⟩ := List.head?_eq_some_iff.1 point
    rw [splitFraction_point]
    split
    · exact ⟨.inl rfl, rfl, fun some ↦ absurd rfl some⟩
    · rename_i digits
      refine ⟨.inr ⟨_, areDigits_takeWhile cs, rfl⟩, ?_, ?_⟩
      · rw [List.cons_append, List.takeWhile_append_dropWhile]
      · rintro - rfl
        cases behind : cs.takeWhile Char.isDigit with
        | nil =>
          rw [behind] at digits
          exact absurd rfl digits
        | cons d ds => exact ⟨d, ds, rfl⟩
  · rw [splitFraction_other point]
    exact ⟨.inl rfl, rfl, fun some ↦ absurd rfl some⟩

/-- Behind its mark, an exponent is split off if it has digits. -/
theorem splitExponent_mark {c : Char} (mark : c = 'e' ∨ c = 'E') (cs : List Char) :
    splitExponent (c :: cs) =
      if ((splitSign cs).2.takeWhile Char.isDigit).isEmpty then ([], c :: cs)
      else (c :: ((splitSign cs).1 ++ (splitSign cs).2.takeWhile Char.isDigit),
        (splitSign cs).2.dropWhile Char.isDigit) := by
  have known : (c == 'e' || c == 'E') = true := by
    rcases mark with rfl | rfl <;> rfl
  rw [splitExponent]
  exact if_pos known

/-- Without a mark, there is no exponent. -/
theorem splitExponent_other {cs : List Char} (h : ∀ c ∈ cs.head?, ¬(c = 'e' ∨ c = 'E')) :
    splitExponent cs = ([], cs) := by
  cases cs with
  | nil => rfl
  | cons c cs =>
    have known : ¬(c == 'e' || c == 'E') = true := by simpa using h c rfl
    rw [splitExponent]
    exact if_neg known

/-- The exponent that is split off is one, and nothing is lost. -/
theorem splitExponent_sound (cs : List Char) :
    IsExponent (splitExponent cs).1 ∧ (splitExponent cs).1 ++ (splitExponent cs).2 = cs := by
  by_cases other : ∀ c ∈ cs.head?, ¬(c = 'e' ∨ c = 'E')
  · rw [splitExponent_other other]
    exact ⟨.inl rfl, rfl⟩
  · obtain ⟨c, first⟩ := Classical.not_forall.1 other
    obtain ⟨first, mark⟩ := Classical.not_imp.1 first
    replace mark := Classical.not_not.1 mark
    obtain ⟨cs, rfl⟩ := List.head?_eq_some_iff.1 (Option.mem_def.1 first)
    rw [splitExponent_mark mark]
    split
    · exact ⟨.inl rfl, rfl⟩
    · rename_i digits
      obtain ⟨sign, text⟩ := splitSign_sound cs
      refine ⟨.inr ⟨c, _, _, mark, sign, areDigits_takeWhile _, ?_, rfl⟩, ?_⟩
      · simpa using digits
      · rw [List.cons_append, List.append_assoc, List.takeWhile_append_dropWhile, text]

/-- A numeral is read without its rest and with the pieces of a numeral. -/
theorem read?_sound {cs : List Char} {n : Numeral} (h : read? cs = some n) :
    n.IsLegal ∧ n.text ++ n.rest = cs := by
  obtain ⟨sign, signed⟩ := splitSign_sound cs
  obtain ⟨fraction, pointed, behind⟩ := splitFraction_sound
    ((splitSign cs).2.takeWhile Char.isDigit) ((splitSign cs).2.dropWhile Char.isDigit)
  obtain ⟨exponent, raised⟩ := splitExponent_sound (splitFraction
    ((splitSign cs).2.takeWhile Char.isDigit) ((splitSign cs).2.dropWhile Char.isDigit)).2
  unfold read? splitDigits at h
  dsimp only at h
  split at h
  · cases h
  · rename_i digits
    obtain rfl := Option.some.inj h
    refine ⟨⟨sign, areDigits_takeWhile _, fraction, fun none ↦ ?_, exponent⟩, ?_⟩
    · refine behind (fun empty ↦ digits ?_) none
      rw [empty]
      exact congrArg (List.isEmpty · && true) none
    · show _ ++ _ ++ _ ++ _ ++ _ = cs
      rw [List.append_assoc, raised, List.append_assoc, pointed, List.append_assoc,
        List.takeWhile_append_dropWhile, signed]

/-! ### Pieces are as long as they can be -/

/-- Where reading on may stand with `x ++ more` ahead, of which it ought to take `x`: right there, or in
`more` if nothing ought to be taken. -/
def Reaches (x more cs : List Char) : Prop := cs = x ++ more ∨ x = [] ∧ cs <:+ more

variable {more cs sign fraction exponent : List Char}

theorem Reaches.nil (h : cs <:+ more) : Reaches [] more cs := .inr ⟨rfl, h⟩

/-- A sign in front of anything else is split off as a whole. -/
theorem splitSign_append (h : IsSign sign) (other : ∀ c ∈ cs.head?, c ≠ '+' ∧ c ≠ '-') :
    splitSign (sign ++ cs) = (sign, cs) := by
  rcases h with rfl | rfl | rfl
  · rw [List.nil_append]
    unfold splitSign
    split
    · exact absurd rfl (other '+' rfl).1
    · exact absurd rfl (other '-' rfl).2
    · rfl
  · rfl
  · rfl

/-- Digits are taken up to a piece that begins with none. -/
theorem reaches_dropWhile {x : List Char} (h : ∀ c ∈ x.head?, c.isDigit = false) (more : List Char) :
    Reaches x more ((x ++ more).dropWhile Char.isDigit) := by
  cases x with
  | nil => exact .nil (List.dropWhile_suffix _)
  | cons c x =>
    left
    rw [List.cons_append, List.dropWhile_cons_of_neg (by simp [h c rfl])]

/-- Both readers of numerals split off the same sign. -/
theorem takeSign_snd (cs : List Char) : (Decimal.takeSign cs).2 = (splitSign cs).2 := by
  unfold Decimal.takeSign splitSign
  split <;> simp_all

theorem AreDigits.signless (h : AreDigits cs) : ∀ c ∈ cs.head?, c ≠ '+' ∧ c ≠ '-' := by
  intro c hc
  have digit := h c (List.mem_of_mem_head? hc)
  constructor <;> rintro rfl <;> cases digit

theorem IsExponent.head (h : IsExponent exponent) : ∀ c ∈ exponent.head?, c = 'e' ∨ c = 'E' := by
  obtain rfl | ⟨c, sign, ds, mark, -, -, -, rfl⟩ := h
  · exact nofun
  · intro c hc
    exact Option.some.inj hc ▸ mark

/-- Neither a fraction nor an exponent begins with a digit. -/
theorem not_digit_of_mem_head? (hf : IsFraction fraction) (he : IsExponent exponent) :
    ∀ c ∈ (fraction ++ exponent).head?, c.isDigit = false := by
  obtain rfl | ⟨ds, -, rfl⟩ := hf
  · intro c hc
    rcases he.head c hc with rfl | rfl <;> rfl
  · rintro - ⟨⟩
    rfl

/-- An exponent that the text begins with is split off as a whole, or more is. -/
theorem splitExponent_suffix (h : IsExponent exponent) (reached : Reaches exponent more cs) :
    (splitExponent cs).2 <:+ more := by
  have whole : (splitExponent cs).2 <:+ cs := ⟨_, (splitExponent_sound cs).2⟩
  obtain rfl | ⟨c, sign, ds, mark, hs, hd, some, rfl⟩ := h
  · rcases reached with rfl | ⟨-, suffix⟩
    · exact whole
    · exact whole.trans suffix
  · obtain rfl := reached.resolve_right fun h ↦ List.cons_ne_nil _ _ h.1
    obtain ⟨d, es, rfl⟩ := List.exists_cons_of_ne_nil some
    have digit := hd d List.mem_cons_self
    have split : splitSign (sign ++ (d :: es ++ more)) = (sign, d :: es ++ more) := by
      refine splitSign_append hs fun e he ↦ ?_
      obtain rfl := Option.some.inj he
      constructor <;> rintro rfl <;> cases digit
    rw [List.cons_append, List.append_assoc, splitExponent_mark mark, split,
      List.takeWhile_append_of_pos hd, List.dropWhile_append_of_pos hd]
    exact List.dropWhile_suffix _

/-- A fraction that the text begins with is split off, so that the exponent behind it is reached. -/
theorem splitFraction_reaches {whole : List Char} (hf : IsFraction fraction) (he : IsExponent exponent)
    (digits : whole = [] → ∃ d ds, fraction = '.' :: d :: ds)
    (reached : Reaches (fraction ++ exponent) more cs) :
    Reaches exponent more (splitFraction whole cs).2 := by
  have suffix : (splitFraction whole cs).2 <:+ cs := ⟨_, (splitFraction_sound whole cs).2.1⟩
  rcases reached with rfl | ⟨none, inside⟩
  · obtain rfl | ⟨ds, hd, rfl⟩ := hf
    · cases exponent with
      | nil => exact .nil suffix
      | cons c r =>
        left
        have other : ([] ++ c :: r ++ more).head? ≠ some '.' := by
          rintro ⟨⟩
          rcases he.head '.' rfl with eq | eq <;> exact absurd eq (by decide)
        rw [splitFraction_other other, List.nil_append]
    · have digits' : ¬(whole.isEmpty &&
          ((ds ++ exponent ++ more).takeWhile Char.isDigit).isEmpty) = true := by
        rw [Bool.and_eq_true, List.isEmpty_iff]
        rintro ⟨none, empty⟩
        obtain ⟨d, es, eq⟩ := digits none
        obtain rfl := (List.cons.inj eq).2
        rw [List.append_assoc, List.takeWhile_append_of_pos hd] at empty
        cases empty
      rw [List.cons_append, List.cons_append, splitFraction_point, if_neg digits', List.append_assoc,
        List.dropWhile_append_of_pos hd]
      exact reaches_dropWhile (not_digit_of_mem_head? (.inl rfl) he) more
  · obtain ⟨-, rfl⟩ := List.append_eq_nil_iff.1 none
    exact .nil (suffix.trans inside)

/-- Digits end where a piece begins with none. -/
theorem digits_append {ds x : List Char} (hd : AreDigits ds) (hx : ∀ c ∈ x.head?, c.isDigit = false) :
    (ds ++ x).takeWhile Char.isDigit = ds ∧ (ds ++ x).dropWhile Char.isDigit = x := by
  rw [List.takeWhile_append_of_pos hd, List.dropWhile_append_of_pos hd]
  cases x with
  | nil => simp
  | cons c x =>
    have other := hx c rfl
    rw [List.takeWhile_cons_of_neg (by simp [other]), List.dropWhile_cons_of_neg (by simp [other])]
    exact ⟨List.append_nil _, rfl⟩

/-- An exponent has a value. -/
theorem exists_parseExponent? {ds : List Char} (hs : IsSign sign) (hd : AreDigits ds) (some' : ds ≠ []) :
    ∃ e, Decimal.parseExponent? (sign ++ ds) = some e := by
  have unsigned : (Decimal.takeSign (sign ++ ds)).2 = ds := by
    rw [takeSign_snd, splitSign_append hs (hd.signless)]
  have legal : ¬(ds.isEmpty || !ds.all Char.isDigit) = true := by
    simpa [AreDigits, some'] using hd
  rw [Decimal.parseExponent?]
  dsimp only
  rw [unsigned, if_neg legal]
  exact ⟨_, rfl⟩

namespace IsLegal

variable {n : Numeral}

/-- Behind the sign there is a digit or a point, and no other sign. -/
theorem signless (h : n.IsLegal) (more : List Char) :
    ∀ c ∈ (n.whole ++ (n.fraction ++ more)).head?, (c.isDigit ∨ c = '.') ∧ c ≠ '+' ∧ c ≠ '-' := by
  have begins : ∀ c ∈ (n.whole ++ (n.fraction ++ more)).head?, c.isDigit ∨ c = '.' := by
    intro c hc
    cases digits : n.whole with
    | nil =>
      obtain ⟨d, ds, eq⟩ := h.digits digits
      rw [digits, eq] at hc
      exact .inr (Option.some.inj hc).symm
    | cons d ds =>
      rw [digits] at hc
      obtain rfl := Option.some.inj hc
      exact .inl (h.whole d (digits ▸ List.mem_cons_self))
  refine fun c hc ↦ ⟨begins c hc, ?_⟩
  rcases begins c hc with digit | rfl
  · constructor <;> rintro rfl <;> cases digit
  · decide

/-- A text that begins with a numeral is read, and not short of it. -/
theorem exists_read? (h : n.IsLegal) (more : List Char) :
    ∃ m, read? (n.text ++ more) = some m ∧ m.rest <:+ more := by
  have signed : splitSign (n.text ++ more) =
      (n.sign, n.whole ++ (n.fraction ++ n.exponent ++ more)) := by
    have text : n.text ++ more = n.sign ++ (n.whole ++ (n.fraction ++ n.exponent ++ more)) := by
      simp only [text, List.append_assoc]
    rw [text]
    refine splitSign_append h.sign fun c hc ↦ (h.signless (n.exponent ++ more) c ?_).2
    rwa [List.append_assoc] at hc
  have reached := reaches_dropWhile (not_digit_of_mem_head? h.fraction h.exponent) more
  have taken := @List.takeWhile_append_of_pos _ _ _ (n.fraction ++ n.exponent ++ more) h.whole
  have dropped := @List.dropWhile_append_of_pos _ _ _ (n.fraction ++ n.exponent ++ more) h.whole
  -- The digits in front of the point may go on behind the numeral, but only if it ends there.
  have digits (none : n.whole ++ (n.fraction ++ n.exponent ++ more).takeWhile Char.isDigit = []) :
      ∃ d ds, n.fraction = '.' :: d :: ds := h.digits (List.append_eq_nil_iff.1 none).1
  have pointed := splitFraction_reaches h.fraction h.exponent digits reached
  have raised := splitExponent_suffix h.exponent pointed
  unfold read? splitDigits
  dsimp only
  rw [signed]
  dsimp only
  rw [taken, dropped, if_neg ?_]
  · exact ⟨_, rfl, raised⟩
  · rw [Bool.and_eq_true, List.isEmpty_iff, List.isEmpty_iff]
    rintro ⟨none, empty⟩
    obtain ⟨d, ds, eq⟩ := digits none
    have digit : d.isDigit := by
      obtain none' | ⟨es, hes, eq'⟩ := h.fraction
      · rw [none'] at eq
        cases eq
      · rw [eq] at eq'
        exact hes d ((List.cons.inj eq').2 ▸ List.mem_cons_self)
    have stays : (n.fraction ++ n.exponent ++ more).dropWhile Char.isDigit =
        '.' :: (d :: ds ++ n.exponent ++ more) := by
      rw [eq]
      rfl
    rw [none, stays, splitFraction_point, List.cons_append, List.cons_append,
      List.takeWhile_cons_of_pos digit] at empty
    cases empty

/-! ### What number a numeral denotes -/

/-- Without a point there are digits behind the sign. -/
theorem whole_ne_nil (h : n.IsLegal) (fraction : n.fraction = []) : n.whole ≠ [] := by
  intro none
  obtain ⟨d, ds, eq⟩ := h.digits none
  rw [fraction] at eq
  cases eq

/-- A numeral without point and exponent is its integer, if that fits into 64 bits. -/
theorem parse?_text (h : n.IsLegal) (fraction : n.fraction = []) (exponent : n.exponent = []) :
    Integer.parse? n.text = Integer.fit? n.intValue := by
  have some' := h.whole_ne_nil fraction
  have value : Text.numeral? 10 n.whole = some (Nat.ofDigitChars 10 n.whole 0) := by
    rw [Text.numeral?_eq_some (fun d hd ↦ Text.isDigitIn_of_isDigit (h.whole d hd)) some',
      Text.ofDigitValues_eq_ofDigitChars h.whole]
  have other := h.signless []
  rw [fraction, List.append_nil, List.append_nil] at other
  rw [text, fraction, exponent, List.append_nil, List.append_nil, intValue]
  rcases h.sign with eq | eq | eq <;> rw [eq]
  · rw [List.nil_append, Integer.parse?, value, Option.bind_some, if_neg (by decide)]
    · intro ds eq
      exact (other '-' (congrArg List.head? eq)).2.2 rfl
    · intro ds eq
      exact (other '+' (congrArg List.head? eq)).2.1 rfl
  · rw [if_neg (by decide), List.cons_append, Integer.parse?, List.nil_append, value, Option.bind_some]
  · rw [if_pos rfl, List.cons_append, Integer.parse?, List.nil_append, value, Option.bind_some]

/-- Every numeral can be read as a double. -/
theorem isSome_float? (h : n.IsLegal) : (Decimal.float? n.text).isSome := by
  have signed : (Decimal.takeSign n.text).2 = n.whole ++ (n.fraction ++ n.exponent) := by
    rw [takeSign_snd, text, List.append_assoc, List.append_assoc,
      splitSign_append h.sign fun c hc ↦ (h.signless n.exponent c hc).2]
  have cut := digits_append h.whole (not_digit_of_mem_head? h.fraction h.exponent)
  rw [Decimal.float?, Decimal.parse?]
  dsimp only
  rw [signed, cut.1, cut.2]
  obtain fraction | ⟨es, behind, fraction⟩ := h.fraction
  · have some' := h.whole_ne_nil fraction
    obtain exponent | ⟨c, sign, ds, mark, hs, hd, digits, exponent⟩ := h.exponent
    · simp [fraction, exponent, some']
    · obtain ⟨e, raised⟩ := exists_parseExponent? hs hd digits
      rcases mark with rfl | rfl <;> simp [fraction, exponent, some', raised]
  · have cut := digits_append behind (not_digit_of_mem_head? (.inl rfl) h.exponent)
    have some' : n.whole = [] → ¬es = [] := by
      rintro none rfl
      obtain ⟨d, ds, eq⟩ := h.digits none
      rw [fraction] at eq
      cases eq
    obtain exponent | ⟨c, sign, ds, mark, hs, hd, digits, exponent⟩ := h.exponent
    · rw [List.nil_append, exponent, List.append_nil] at cut
      simpa [fraction, exponent, cut] using some'
    · obtain ⟨e, raised⟩ := exists_parseExponent? hs hd digits
      rw [List.nil_append, exponent] at cut
      rcases mark with rfl | rfl <;> simpa [fraction, exponent, cut, raised] using some'

/-- What number is read: the integer, if the numeral is written as one that fits, or else a double. -/
theorem exists_value? (h : n.IsLegal) : ∃ v, n.value? = some v ∧
    ((∃ i, v = .int i) ↔ n.IsInteger) ∧ ∀ i, v = .int i → i.toInt = n.intValue := by
  obtain ⟨x, double⟩ := Option.isSome_iff_exists.1 h.isSome_float?
  rw [value?]
  by_cases plain : n.fraction = [] ∧ n.exponent = []
  · rw [if_pos (by simp [plain]), h.parse?_text plain.1 plain.2]
    cases fit : Integer.fit? n.intValue with
    | some i =>
      have value := Integer.fit?_eq_some fit
      refine ⟨.int i, rfl, ⟨fun _ ↦ ⟨plain.1, plain.2, ?_⟩, fun _ ↦ ⟨i, rfl⟩⟩, ?_⟩
      · exact value ▸ Integer.fits_toInt i
      · rintro _ ⟨⟩
        exact value
    | none =>
      refine ⟨.float x, by rw [double]; rfl, ⟨nofun, fun integer ↦ ?_⟩, nofun⟩
      exact absurd integer.fits (Integer.not_fits fit)
  · rw [if_neg (by simpa using plain), double]
    exact ⟨.float x, rfl, ⟨nofun, fun integer ↦ absurd ⟨integer.fraction, integer.exponent⟩ plain⟩, nofun⟩

end IsLegal

end Numeral

/-! ### The longest prefix -/

/-- White space and a numeral. -/
def IsNumeric (cs : List Char) : Prop :=
  ∃ (gap : List Char) (n : Numeral), (∀ c ∈ gap, Script.isGap c) ∧ n.IsLegal ∧ cs = gap ++ n.text

theorem not_isGap_of_isDigit {c : Char} (h : c.isDigit) : Script.isGap c = false := by
  refine Bool.eq_false_iff.2 fun gap ↦ ?_
  simp only [Script.isGap, Bool.or_eq_true, beq_iff_eq] at gap
  rcases gap with ((((rfl | rfl) | rfl) | rfl) | rfl) | rfl <;> cases h

/-- No numeral begins with white space. -/
theorem Numeral.IsLegal.dropWhile_isGap {n : Numeral} (h : n.IsLegal) (more : List Char) :
    (n.text ++ more).dropWhile Script.isGap = n.text ++ more := by
  have begins : ∀ c ∈ (n.text ++ more).head?, Script.isGap c = false := by
    intro c hc
    rw [text, List.append_assoc, List.append_assoc, List.append_assoc] at hc
    rcases h.sign with eq | eq | eq <;> rw [eq] at hc
    · rcases (h.signless _ c hc).1 with digit | rfl
      · exact not_isGap_of_isDigit digit
      · rfl
    · exact Option.some.inj hc ▸ rfl
    · exact Option.some.inj hc ▸ rfl
  cases text : n.text ++ more with
  | nil => rfl
  | cons c r => exact List.dropWhile_cons_of_neg (by simp [begins c (text ▸ rfl)])

/-- A text that begins with a text in numeric form begins with a number, and what is left of it stands
behind that form. -/
theorem exists_numericPrefix? {pre : List Char} (h : IsNumeric pre) (more : List Char) :
    ∃ v rest, numericPrefix? (pre ++ more) = some (v, rest) ∧ rest <:+ more := by
  obtain ⟨gap, n, white, legal, rfl⟩ := h
  obtain ⟨m, read, behind⟩ := legal.exists_read? more
  obtain ⟨v, value, -⟩ := (Numeral.read?_sound read).1.exists_value?
  refine ⟨v, m.rest, ?_, behind⟩
  rw [numericPrefix?, List.append_assoc, List.dropWhile_append_of_pos white, legal.dropWhile_isGap, read,
    Option.bind_some, value, Option.map_some]

/-- The number that a text begins with is that of a numeral behind white space. -/
theorem numericPrefix?_sound {cs rest : List Char} {v : Numeric} (h : numericPrefix? cs = some (v, rest)) :
    ∃ (gap : List Char) (n : Numeral), cs = gap ++ n.text ++ rest ∧ (∀ c ∈ gap, Script.isGap c) ∧
      n.IsLegal ∧ n.value? = some v := by
  obtain ⟨n, read, h⟩ := Option.bind_eq_some_iff.1 h
  obtain ⟨v, value, eq⟩ := Option.map_eq_some_iff.1 h
  cases eq
  obtain ⟨legal, text⟩ := Numeral.read?_sound read
  refine ⟨cs.takeWhile Script.isGap, n, ?_, ?_, legal, value⟩
  · rw [List.append_assoc, text, List.takeWhile_append_dropWhile]
  · exact fun c hc ↦ List.all_eq_true.1 (List.all_takeWhile (l := cs)) c hc

/-- No prefix in numeric form is longer than what is read. -/
theorem length_le_of_numericPrefix? {cs pre rest : List Char} {v : Numeric} (begins : pre <+: cs)
    (form : IsNumeric pre) (h : numericPrefix? cs = some (v, rest)) : pre.length + rest.length ≤ cs.length := by
  obtain ⟨more, rfl⟩ := begins
  obtain ⟨w, rest', found, behind⟩ := exists_numericPrefix? form more
  obtain ⟨-, rfl⟩ := Prod.mk.inj (Option.some.inj (h.symm.trans found))
  rw [List.length_append]
  exact Nat.add_le_add_left behind.length_le _

/-- A text is numeric just if nothing but white space stands behind the number it begins with. -/
theorem numericText?_eq_some_iff {cs : List Char} {v : Numeric} : numericText? cs = some v ↔
    ∃ rest, numericPrefix? cs = some (v, rest) ∧ ∀ c ∈ rest, Script.isGap c := by
  constructor
  · intro h
    obtain ⟨⟨w, rest⟩, found, h⟩ := Option.bind_eq_some_iff.1 h
    obtain ⟨white, eq⟩ := Option.ite_none_right_eq_some.1 h
    obtain rfl := Option.some.inj eq
    exact ⟨rest, found, List.all_eq_true.1 white⟩
  · rintro ⟨rest, found, white⟩
    rw [numericText?, found, Option.bind_some]
    exact if_pos (List.all_eq_true.2 white)

/-- The number that a text begins with is read from its longest prefix in numeric form. There is none just
if no prefix has this form; the number is an integer just if the numeral is written as one that fits; and
the text as a whole denotes a number just if all that is left of it is white space. -/
theorem numericPrefix?_spec (cs : List Char) :
    (numericPrefix? cs = none ↔ ∀ pre, pre <+: cs → ¬IsNumeric pre) ∧
      (∀ v rest, numericPrefix? cs = some (v, rest) →
        ∃ (gap : List Char) (n : Numeral), cs = gap ++ n.text ++ rest ∧ (∀ c ∈ gap, Script.isGap c) ∧
          n.IsLegal ∧ (∀ pre, pre <+: cs → IsNumeric pre → pre.length ≤ (gap ++ n.text).length) ∧
          ((∃ i, v = .int i) ↔ n.IsInteger) ∧ ∀ i, v = .int i → i.toInt = n.intValue) ∧
      ∀ v, numericText? cs = some v ↔
        ∃ rest, numericPrefix? cs = some (v, rest) ∧ ∀ c ∈ rest, Script.isGap c := by
  refine ⟨⟨?_, ?_⟩, ?_, fun v ↦ numericText?_eq_some_iff⟩
  · rintro none pre ⟨more, rfl⟩ form
    obtain ⟨v, rest, found, -⟩ := exists_numericPrefix? form more
    rw [none] at found
    cases found
  · intro none
    refine Option.eq_none_iff_forall_ne_some.2 fun ⟨v, rest⟩ found ↦ ?_
    obtain ⟨gap, n, text, white, legal, -⟩ := numericPrefix?_sound found
    exact none _ ⟨rest, text.symm⟩ ⟨gap, n, white, legal, rfl⟩
  · intro v rest found
    obtain ⟨gap, n, text, white, legal, value⟩ := numericPrefix?_sound found
    obtain ⟨w, value', int⟩ := legal.exists_value?
    obtain rfl := Option.some.inj (value.symm.trans value')
    refine ⟨gap, n, text, white, legal, fun pre begins form ↦ ?_, int⟩
    have short := length_le_of_numericPrefix? begins form found
    have length := congrArg List.length text
    rw [List.length_append] at length
    omega

/-- A letter that announces an exponent is left over with the sign behind it, if there is no digit. -/
theorem numericPrefix?_dangling_exponent :
    numericPrefix? " -12e+x".toList = some (.int (-12), "e+x".toList) ∧
      ∃ (gap : List Char) (n : Numeral), " -12e+x".toList = gap ++ n.text ++ "e+x".toList ∧
        n.IsInteger ∧ n.intValue = -12 := by
  have found : numericPrefix? " -12e+x".toList = some (.int (-12), "e+x".toList) := by decide +kernel
  obtain ⟨gap, n, text, -, -, -, int, value⟩ := (numericPrefix?_spec _).2.1 _ _ found
  exact ⟨found, gap, n, text, int.1 ⟨_, rfl⟩, (value _ rfl).symm⟩

end ConfigScript
