import ConfigScript.Script.Lexer

/-!
# Looking ahead

Where a token ends depends on what follows it, but only on a few characters, and never on anything
behind an edge. Two texts are `Alike` if they agree up to an edge, up to places where operands may
end, or up to a character of which an operand is made. What is cut off in front of one of them is then cut off in front of the other one: this module
shows it of the readers that look ahead, those of names, numbers, operators and line comments.
-/

namespace ConfigScript.Script

/-- A character behind which no reader looks that ends in front of it. -/
def isEdge (c : Char) : Bool := c == ',' || c == '=' || c == '\n'

/-- The characters that may stand behind an operand. -/
def isQuiet (c : Char) : Bool := isGap c || [',', ';', ')', '?', '/', '#'].contains c

/-- Whether an operand may end in front of the text. -/
def endsHere : List Char → Bool
  | [] => true
  | '?' :: r => r.head? == some '>'
  | '/' :: r => r.head? == some '/' || r.head? == some '*'
  | c :: _ => isQuiet c

/-- The characters of names and numbers, and those that begin or end other operands. No operator goes on
with them. -/
def isSolid (c : Char) : Bool := isNameChar c || ['$', '\'', '"', ')', ']'].contains c

/-- Texts that readers do not tell apart which stop in front of them. Where that is allowed, the ends of
operands count as alike, and so does what follows a solid character; only behind the mark of an exponent
a number may go on. -/
inductive Alike (loose : Prop) : List Char → List Char → Prop
  | edge {c : Char} (h : isEdge c) (v v' : List Char) : Alike loose (c :: v) (c :: v')
  | ends {v v' : List Char} (allowed : loose) (h : endsHere v) (h' : endsHere v') : Alike loose v v'
  | solid {c : Char} {r r' : List Char} (allowed : loose) (h : isSolid c)
      (power : c == 'e' || c == 'E' → startsExponent r' = false) : Alike loose (c :: r) (c :: r')
  | cons {v v' : List Char} (c : Char) (more : Alike loose v v') : Alike loose (c :: v) (c :: v')

/-- What an operand may end in front of begins with a character that may stand behind an operand. -/
theorem isQuiet_of_endsHere {c : Char} {v : List Char} (h : endsHere (c :: v)) : isQuiet c := by
  unfold endsHere at h
  split at h
  · contradiction
  · rename_i heq
    cases heq
    decide
  · rename_i heq
    cases heq
    decide
  · rename_i heq
    cases heq
    exact h

namespace Alike

variable {loose : Prop} {v v' : List Char}

theorem append (u : List Char) (h : Alike loose v v') : Alike loose (u ++ v) (u ++ v') := by
  induction u with
  | nil => exact h
  | cons c u ih => exact .cons c ih

/-- The first characters agree, or both texts begin with the end of an operand. -/
theorem head (h : Alike loose v v') :
    v.head? = v'.head? ∨ loose ∧ endsHere v ∧ endsHere v' := by
  cases h with
  | edge => exact .inl rfl
  | ends allowed h h' => exact .inr ⟨allowed, h, h'⟩
  | solid | cons => exact .inl rfl

theorem head_eq (h : Alike False v v') : v.head? = v'.head? := h.head.resolve_right fun h ↦ h.1

/-- A test of the first character that no end of an operand passes. -/
theorem any_head {p : Char → Bool} (hp : ∀ c, isQuiet c → p c = false) (h : Alike loose v v') :
    v'.head?.any p = v.head?.any p := by
  have fails : ∀ {u : List Char}, endsHere u → u.head?.any p = false := by
    intro u hu
    cases u with
    | nil => rfl
    | cons c u => exact hp c (isQuiet_of_endsHere hu)
  rcases h.head with heads | ⟨-, h, h'⟩
  · rw [heads]
  · rw [fails h, fails h']

/-- Texts that are told apart by nothing, not even by the ends of operands, are not empty. -/
theorem ne_nil (h : Alike False v v') : v ≠ [] := by
  cases h with
  | edge => exact List.cons_ne_nil _ _
  | ends allowed => exact allowed.elim
  | solid | cons => exact List.cons_ne_nil _ _

end Alike

/-! ### Classes of characters -/

/-- The quiet characters, one by one. -/
theorem forall_isQuiet {p : Char → Prop} (h : p ' ' ∧ p '\t' ∧ p '\r' ∧ p '\n' ∧ p '\x0b' ∧ p '\x0c' ∧
    p ',' ∧ p ';' ∧ p ')' ∧ p '?' ∧ p '/' ∧ p '#') (c : Char) (hc : isQuiet c) : p c := by
  obtain ⟨h₁, h₂, h₃, h₄, h₅, h₆, h₇, h₈, h₉, h₁₀, h₁₁, h₁₂⟩ := h
  simp only [isQuiet, isGap, List.contains_eq_mem, Bool.or_eq_true, beq_iff_eq, decide_eq_true_eq,
    List.mem_cons, List.not_mem_nil, or_false] at hc
  rcases hc with ((((((h | h) | h) | h) | h) | h)) | h | h | h | h | h | h <;> (subst h; assumption)

theorem isNameChar_of_isQuiet : ∀ c, isQuiet c → isNameChar c = false :=
  forall_isQuiet (by decide)

theorem isDigit_of_isQuiet : ∀ c, isQuiet c → c.isDigit = false := forall_isQuiet (by decide)

theorem isNameStart_of_isQuiet : ∀ c, isQuiet c → isNameStart c = false :=
  forall_isQuiet (by decide)

/-! ### Runs of characters -/

variable {loose : Prop} {u v v' : List Char}

/-- What is left of a text begins with no character that was to be dropped. -/
theorem any_head_of_dropWhile {p : Char → Bool} {cs : List Char} (h : cs.dropWhile p = v) :
    v.head?.any p = false := by
  have stops := List.head?_dropWhile_not p cs
  rw [h] at stops
  cases v with
  | nil => rfl
  | cons d v => exact stops

/-- A run of characters that ends in front of `v` ends in front of `v'` as well, unless that goes on
with the run. -/
theorem dropWhile_append_same {p : Char → Bool} (h : (u ++ v).dropWhile p = v)
    (heads : v'.head?.any p = v.head?.any p) :
    (u ++ v').takeWhile p = (u ++ v).takeWhile p ∧ (u ++ v').dropWhile p = v' := by
  induction u with
  | nil =>
    have stops : ∀ {w : List Char}, w.head?.any p = false → w.takeWhile p = [] ∧
        w.dropWhile p = w := by
      intro w hw
      cases w with
      | nil => exact ⟨rfl, rfl⟩
      | cons c w => simp_all
    have here : v.head?.any p = false := any_head_of_dropWhile h
    rw [List.nil_append, List.nil_append, (stops here).1, (stops (heads.trans here)).1]
    exact ⟨rfl, (stops (heads.trans here)).2⟩
  | cons c u ih =>
    rw [List.cons_append, List.dropWhile_cons] at h
    split at h
    · rename_i hc
      have more := ih h
      simp [hc, more]
    · have long := congrArg List.length h
      simp only [List.length_cons, List.length_append] at long
      omega

/-! ### Names -/

/-- A name ends in front of alike texts in the same place. -/
theorem name_alike {n : List Char} (h : name (u ++ v) = (n, v)) (alike : Alike loose v v') :
    name (u ++ v') = (n, v') := by
  injection h with text rest
  have same := dropWhile_append_same rest (alike.any_head isNameChar_of_isQuiet)
  rw [name, same.1, same.2, text]

/-- A backslash in front of a name, or a character of one. -/
def goesOn (c : Char) (r : List Char) : Bool := isNameChar c || (c == '\\' && startsName r)

theorem goesOn_alike (c : Char) (alike : Alike loose v v') : goesOn c v' = goesOn c v := by
  unfold goesOn startsName
  rw [alike.any_head isNameStart_of_isQuiet]

theorem goesOn_of_isQuiet {c : Char} (h : isQuiet c) (r : List Char) : goesOn c r = false := by
  have back : (c == '\\') = false := forall_isQuiet (p := fun c ↦ (c == '\\') = false) (by decide) c h
  rw [goesOn, isNameChar_of_isQuiet c h, back]
  rfl

theorem goesOn_of_isEdge {c : Char} (h : isEdge c) (r : List Char) : goesOn c r = false := by
  simp only [isEdge, Bool.or_eq_true, beq_iff_eq] at h
  rcases h with (rfl | rfl) | rfl <;> rfl

/-- A solid character that belongs to no name does not go on with one. -/
theorem goesOn_of_isSolid {c : Char} (h : isSolid c) (hc : isNameChar c = false) (r : List Char) :
    goesOn c r = false := by
  have ne : (c == '\\') = false := by
    refine beq_eq_false_iff_ne.2 ?_
    rintro rfl
    exact absurd h (by decide)
  rw [goesOn, hc, ne]
  rfl

theorem qualified_of_goesOn {c : Char} {r : List Char} (h : goesOn c r = true) :
    qualified (c :: r) = (c :: (qualified r).1, (qualified r).2) := by
  rw [qualified]
  exact if_pos h

theorem qualified_of_stops {c : Char} {r : List Char} (h : goesOn c r = false) :
    qualified (c :: r) = ([], c :: r) := by
  rw [qualified]
  exact if_neg (by rw [← goesOn, h]; decide)

/-- A qualified name ends in front of alike texts in the same place: it looks at one character, or at two
behind a backslash. -/
theorem qualified_alike {n : List Char} (h : qualified (u ++ v) = (n, v)) (alike : Alike loose v v') :
    qualified (u ++ v') = (n, v') := by
  induction u generalizing n with
  | nil =>
    have stays : ∀ {w : List Char}, endsHere w → qualified w = ([], w) := by
      intro w hw
      cases w with
      | nil => rfl
      | cons c w => exact qualified_of_stops (goesOn_of_isQuiet (isQuiet_of_endsHere hw) w)
    rw [List.nil_append] at h ⊢
    have empty : n = [] := by
      have whole := qualified_append v
      rw [h] at whole
      simpa using whole
    subst empty
    cases alike with
    | edge hc => exact qualified_of_stops (goesOn_of_isEdge hc _)
    | ends _ _ h' => exact stays h'
    | @solid c w w' _ solid =>
      cases hc : isNameChar c with
      | false => exact qualified_of_stops (goesOn_of_isSolid solid hc w')
      | true =>
        rw [qualified_of_goesOn (by rw [goesOn, hc, Bool.true_or])] at h
        cases h
    | @cons w w' c more =>
      cases hc : goesOn c w with
      | false => exact qualified_of_stops ((goesOn_alike c more).trans hc)
      | true =>
        rw [qualified_of_goesOn hc] at h
        cases h
  | cons c u ih =>
    have same := goesOn_alike c (alike.append u)
    rw [List.cons_append] at h ⊢
    cases hc : goesOn c (u ++ v) with
    | false =>
      rw [qualified_of_stops hc] at h
      injection h with _ h
      have long := congrArg List.length h
      simp only [List.length_cons, List.length_append] at long
      omega
    | true =>
      rw [qualified_of_goesOn hc] at h
      injection h with text rest
      have inner := ih (n := (qualified (u ++ v)).1) (Prod.ext rfl rest)
      rw [qualified_of_goesOn (same.trans hc), inner, ← text]

/-! ### Numbers -/

/-- No digit of a radix may stand behind an operand. -/
theorem isRadixChar_of_isQuiet {radix : Nat} (hr : radix ∈ [2, 8, 16]) :
    ∀ c, isQuiet c → isRadixChar radix c = false := by
  simp only [List.mem_cons, List.not_mem_nil, or_false] at hr
  rcases hr with rfl | rfl | rfl <;> exact forall_isQuiet (by decide)

/-- Whether an exponent begins does not depend on which of two alike texts follows: the sign and the
digit behind its mark are looked at, which no end of an operand is. -/
theorem startsExponent_alike (alike : Alike loose v v') : startsExponent v' = startsExponent v := by
  have none_of_isQuiet : ∀ {c : Char}, isQuiet c → ∀ w, startsExponent (c :: w) = false := by
    intro c hc w
    have digit := isDigit_of_isQuiet c hc
    have sign : (c == '+' || c == '-') = false :=
      forall_isQuiet (p := fun c ↦ (c == '+' || c == '-') = false) (by decide) c hc
    rw [startsExponent, digit, sign]
    rfl
  have none_of_ends : ∀ {w : List Char}, endsHere w → startsExponent w = false := by
    intro w hw
    cases w with
    | nil => rfl
    | cons c w => exact none_of_isQuiet (isQuiet_of_endsHere hw) w
  cases alike with
  | @edge c hc w w' =>
    simp only [isEdge, Bool.or_eq_true, beq_iff_eq] at hc
    rcases hc with (rfl | rfl) | rfl <;> rfl
  | ends _ h h' => rw [none_of_ends h, none_of_ends h']
  | @solid c w w' _ solid =>
    have sign : (c == '+' || c == '-') = false := by
      rw [Bool.or_eq_false_iff, beq_eq_false_iff_ne, beq_eq_false_iff_ne]
      refine ⟨?_, ?_⟩ <;> rintro rfl <;> exact absurd solid (by decide)
    rw [startsExponent, startsExponent, sign, Bool.false_and, Bool.false_and]
  | cons c more => rw [startsExponent, startsExponent, more.any_head isDigit_of_isQuiet]

/-- Whether a point belongs to a decimal literal, given what follows it. -/
theorem head_point_alike (alike : Alike loose v v') :
    (v'.head? != some '.') = (v.head? != some '.') := by
  have eq_any : ∀ w : List Char, (w.head? != some '.') = !w.head?.any (· == '.') := by
    intro w
    cases w <;> rfl
  rw [eq_any, eq_any, alike.any_head (forall_isQuiet (by decide))]

/-- One step of reading a decimal literal. -/
theorem afterDecimal_cons (b : Bool) (c : Char) (r : List Char) :
    afterDecimal b (c :: r) =
      if c.isDigit || c == '_' then afterDecimal b r
      else if c == '.' && !b && r.head? != some '.' then afterDecimal true r
      else if (c == 'e' || c == 'E') && startsExponent r then afterDecimal true r.tail
      else (b, c :: r) := by
  cases r with
  | nil => simp [afterDecimal, startsExponent]
  | cons d r => rfl

/-- A decimal literal that stops here: only these steps read nothing. -/
theorem afterDecimal_stops {b b' : Bool} {c : Char} {r : List Char}
    (h : afterDecimal b (c :: r) = (b', c :: r)) :
    b' = b ∧ (c.isDigit || c == '_') = false ∧ (c == '.' && !b && r.head? != some '.') = false ∧
      ((c == 'e' || c == 'E') && startsExponent r) = false := by
  have reads : ∀ {d : Bool} {s : List Char}, s <:+ r → afterDecimal d s = (b', c :: r) → False := by
    intro d s suffix h
    have short := (afterDecimal_suffix d s).length_le
    have := suffix.length_le
    rw [h, List.length_cons] at short
    omega
  rw [afterDecimal_cons] at h
  split at h
  · exact (reads (List.suffix_refl _) h).elim
  split at h
  · exact (reads (List.suffix_refl _) h).elim
  split at h
  · exact (reads (List.tail_suffix _) h).elim
  · injection h with h
    simp_all

/-- A decimal literal that ends in front of `v` ends in front of `v'` as well, if nothing of that belongs
to it. Whether an exponent follows is told by what is read of it. -/
theorem afterDecimal_congr {b b' : Bool} (h : afterDecimal b (u ++ v) = (b', v))
    (stays : ∀ d, afterDecimal d v = (d, v) → afterDecimal d v' = (d, v'))
    (noPoint : (v.head? != some '.') = true → (v'.head? != some '.') = true) :
    afterDecimal b (u ++ v') = (b', v') := by
  induction hn : u.length using Nat.strongRecOn generalizing u b with
  | _ n ih =>
    cases u with
    | nil =>
      have same : b' = b := by
        cases v with
        | nil => exact (Prod.mk.inj h).1.symm
        | cons c v => exact (afterDecimal_stops h).1
      subst same
      exact stays b' h
    | cons c u =>
      have shorter : u.length < n := by rw [← hn]; exact Nat.lt_succ_self _
      rw [List.cons_append, afterDecimal_cons] at h ⊢
      split at h <;> rename_i digit
      · rw [if_pos digit]
        exact ih _ shorter h rfl
      rw [if_neg digit]
      split at h <;> rename_i point
      · have point' : (c == '.' && !b && (u ++ v').head? != some '.') = true := by
          cases u with
          | nil =>
            rw [Bool.and_eq_true] at point ⊢
            exact ⟨point.1, noPoint point.2⟩
          | cons d u => exact point
        rw [if_pos point']
        exact ih _ shorter h rfl
      split at h <;> rename_i exponent
      · have point' : ¬(c == '.' && !b && (u ++ v').head? != some '.') = true := by
          intro point'
          rw [Bool.and_eq_true, Bool.and_eq_true, beq_iff_eq] at point'
          rw [point'.1.1] at exponent
          cases exponent
        rw [if_neg point']
        match u with
        | [] =>
          have short := (afterDecimal_suffix true (([] : List Char) ++ v).tail).length_le
          have begins : v ≠ [] := by
            rintro rfl
            simp [startsExponent] at exponent
          have := List.length_pos_iff.2 begins
          rw [h, List.nil_append, List.length_tail] at short
          dsimp only at short
          omega
        | d :: u =>
          have exponent' : ((c == 'e' || c == 'E') && startsExponent (d :: u ++ v')) = true := by
            obtain ⟨mark, power⟩ := Bool.and_eq_true_iff.1 exponent
            refine Bool.and_eq_true_iff.2 ⟨mark, ?_⟩
            rw [List.cons_append, startsExponent, Bool.or_eq_true] at power ⊢
            refine power.imp_right fun signed ↦ ?_
            match u with
            | e :: u => exact signed
            | [] =>
              -- Behind a sign the digits would be read.
              cases v with
              | nil => simp at signed
              | cons x v =>
                have digit' : x.isDigit = true := (Bool.and_eq_true_iff.1 signed).2
                have stops := (afterDecimal_stops h).2.1
                rw [digit'] at stops
                cases stops
          rw [if_pos exponent']
          exact ih _ (Nat.lt_of_succ_lt shorter) h rfl
      · injection h with _ h
        have long := congrArg List.length h
        simp only [List.length_cons, List.length_append] at long
        omega

/-- A number in decimal notation stops where an operand may end. -/
theorem afterDecimal_of_isQuiet {c : Char} (hc : isQuiet c) (b : Bool) (w : List Char) :
    afterDecimal b (c :: w) = (b, c :: w) := by
  have digit : (c.isDigit || c == '_') = false :=
    forall_isQuiet (p := fun c ↦ (c.isDigit || c == '_') = false) (by decide) c hc
  have point : (c == '.') = false :=
    forall_isQuiet (p := fun c ↦ (c == '.') = false) (by decide) c hc
  have exponent : (c == 'e' || c == 'E') = false :=
    forall_isQuiet (p := fun c ↦ (c == 'e' || c == 'E') = false) (by decide) c hc
  rw [afterDecimal_cons, digit, point, exponent]
  rfl

/-- Of texts that are alike, both go on with a decimal literal or none does. -/
theorem afterDecimal_stays_alike {b : Bool} (alike : Alike loose v v')
    (h : afterDecimal b v = (b, v)) : afterDecimal b v' = (b, v') := by
  cases alike with
  | @edge c hc w w' =>
    rw [afterDecimal_cons]
    simp only [isEdge, Bool.or_eq_true, beq_iff_eq] at hc
    rcases hc with (rfl | rfl) | rfl <;> rfl
  | ends _ hv hv' =>
    cases v' with
    | nil => rfl
    | cons c w => exact afterDecimal_of_isQuiet (isQuiet_of_endsHere hv') b w
  | @solid c w w' _ solid power =>
    obtain ⟨-, digit, -, -⟩ := afterDecimal_stops h
    have point : (c == '.') = false := by
      refine beq_eq_false_iff_ne.2 ?_
      rintro rfl
      exact absurd solid (by decide)
    have exponent : ((c == 'e' || c == 'E') && startsExponent w') = false := by
      cases hc : c == 'e' || c == 'E' with
      | false => rfl
      | true => rw [power hc]; rfl
    rw [afterDecimal_cons, digit, point, exponent]
    rfl
  | cons c more =>
    obtain ⟨-, digit, point, exponent⟩ := afterDecimal_stops h
    rw [afterDecimal_cons, head_point_alike more, startsExponent_alike more, digit, point, exponent]
    rfl

theorem afterDecimal_alike {b b' : Bool} (h : afterDecimal b (u ++ v) = (b', v))
    (alike : Alike loose v v') : afterDecimal b (u ++ v') = (b', v') :=
  afterDecimal_congr h (fun _ ↦ afterDecimal_stays_alike alike) (head_point_alike alike).trans

/-- What a decimal literal is, if it ends in front of `v`. -/
theorem decimalLiteral_append {c : Char} {b : Bool} (h : afterDecimal (c == '.') (u ++ v) = (b, v)) :
    decimalLiteral c (u ++ v) = (decimalNumber b (withoutUnderscores (c :: u)), v) := by
  have text : (c :: (u ++ v)).take ((c :: (u ++ v)).length - v.length) = c :: u := by
    rw [← List.cons_append, List.length_append, Nat.add_sub_cancel, List.take_left]
  rw [decimalLiteral, h]
  dsimp only
  rw [text]

/-- Behind a zero with the mark of a radix, the digits of that radix are read, of which there has to be
one. -/
theorem number_of_radix {x : Char} {radix : Nat} (h : announcedRadix? x = some radix)
    (r : List Char) :
    number '0' (x :: r) =
      if (withoutUnderscores (r.takeWhile (isRadixChar radix))).isEmpty then
        .error (.unexpectedCharacter '0')
      else .ok (radixNumber radix (withoutUnderscores (r.takeWhile (isRadixChar radix))),
        r.dropWhile (isRadixChar radix)) := by
  simp only [number, h]

/-- Whether a radix is announced behind `c`. -/
def announces (c : Char) (r : List Char) : Bool :=
  c == '0' && r.head?.any fun x ↦ (announcedRadix? x).isSome

/-- Where no radix is announced, a number is in decimal notation. -/
theorem number_of_decimal {c : Char} {r : List Char} (h : announces c r = false) :
    number c r = .ok (decimalLiteral c r) := by
  unfold number
  split
  · rename_i x s
    have none : announcedRadix? x = none := by simpa [announces] using h
    rw [none]
  · rfl

/-- A radix is announced by a zero and a mark behind it. -/
theorem exists_of_announces {c : Char} {r : List Char} (h : announces c r = true) :
    c = '0' ∧ ∃ x s radix, r = x :: s ∧ announcedRadix? x = some radix ∧ radix ∈ [2, 8, 16] := by
  rw [announces, Bool.and_eq_true, beq_iff_eq] at h
  refine ⟨h.1, ?_⟩
  cases r with
  | nil => cases h.2
  | cons x s =>
    obtain ⟨radix, hx⟩ := Option.isSome_iff_exists.1 h.2
    refine ⟨x, s, radix, rfl, hx, ?_⟩
    unfold announcedRadix? at hx
    split at hx
    · cases hx; decide
    split at hx
    · cases hx; decide
    split at hx <;> cases hx
    decide

/-- A number of an announced radix is longer than its first character. -/
theorem announces_of_number {c : Char} {k : TokenKind} (h : number c v = .ok (k, v)) :
    announces c v = false := by
  cases announced : announces c v with
  | false => rfl
  | true =>
    obtain ⟨rfl, x, s, radix, rfl, hx, -⟩ := exists_of_announces announced
    rw [number_of_radix hx] at h
    split at h
    · cases h
    · have short := (List.dropWhile_suffix (l := s) (isRadixChar radix)).length_le
      rw [(Prod.mk.inj (Except.ok.inj h)).2, List.length_cons] at short
      omega

/-- A number that ends in front of `v` ends in front of `v'` as well, unless a radix is announced there
or digits go on. -/
theorem number_congr {c : Char} {k : TokenKind} (h : number c (u ++ v) = .ok (k, v))
    (plain : announces c v = false → announces c v' = false)
    (decimal : ∀ b, afterDecimal (c == '.') (u ++ v) = (b, v) →
      afterDecimal (c == '.') (u ++ v') = (b, v'))
    (digits : ∀ radix ∈ [2, 8, 16], v.head?.any (isRadixChar radix) = false →
      v'.head?.any (isRadixChar radix) = false) : number c (u ++ v') = .ok (k, v') := by
  have same : announces c (u ++ v') = announces c (u ++ v) := by
    cases u with
    | nil => exact (plain (announces_of_number h)).trans (announces_of_number h).symm
    | cons d u => rfl
  cases announced : announces c (u ++ v) with
  | false =>
    rw [number_of_decimal announced] at h
    obtain ⟨kind, rest⟩ := Prod.ext_iff.1 (Except.ok.inj h)
    have here : afterDecimal (c == '.') (u ++ v) = ((afterDecimal (c == '.') (u ++ v)).1, v) :=
      Prod.ext rfl rest
    rw [decimalLiteral_append here] at kind
    rw [number_of_decimal (same.trans announced), decimalLiteral_append (decimal _ here)]
    exact congrArg (fun k ↦ (.ok (k, v') : Except Fault (TokenKind × List Char))) kind
  | true =>
    cases u with
    | nil => cases (announces_of_number h).symm.trans announced
    | cons y u =>
      obtain ⟨rfl, x, s, radix, text, hx, known⟩ := exists_of_announces announced
      rw [List.cons_append, List.cons.injEq] at text
      obtain ⟨rfl, rfl⟩ := text
      rw [List.cons_append, number_of_radix hx] at h
      split at h
      · cases h
      rename_i digits'
      obtain ⟨number, rest⟩ := Prod.mk.inj (Except.ok.inj h)
      have stops := any_head_of_dropWhile rest
      have same := dropWhile_append_same rest ((digits radix known stops).trans stops.symm)
      rw [List.cons_append, number_of_radix hx, same.1, same.2, if_neg digits', number]

/-- A number ends in front of alike texts in the same place. -/
theorem number_alike {c : Char} {k : TokenKind} (h : number c (u ++ v) = .ok (k, v))
    (alike : Alike loose v v') : number c (u ++ v') = .ok (k, v') := by
  refine number_congr h (fun plain ↦ ?_) (fun b hb ↦ afterDecimal_alike hb alike)
    fun radix known stops ↦ ?_
  · rw [announces, alike.any_head (forall_isQuiet (by decide))]
    exact plain
  · rw [alike.any_head (isRadixChar_of_isQuiet known)]
    exact stops

/-! ### Comments to the end of the line -/

/-- Whether a comment ends in front of `c`, which `r` follows. -/
def endsLine (c : Char) (r : List Char) : Bool := c == '\n' || (c == '?' && r.head? == some '>')

/-- A line comment takes one character after the other, up to where it ends. -/
theorem afterLineComment_cons (c : Char) (r : List Char) :
    afterLineComment (c :: r) = if endsLine c r then c :: r else afterLineComment r := by
  by_cases line : c = '\n'
  · subst line
    rfl
  by_cases tag : c = '?' ∧ r.head? = some '>'
  · obtain ⟨rfl, head⟩ := tag
    cases r with
    | nil => cases head
    | cons d s =>
      obtain rfl := Option.some.inj head
      rfl
  · rw [if_neg (by simp [endsLine, line, tag]), afterLineComment]
    · exact line
    · rintro s rfl rfl
      exact tag ⟨rfl, rfl⟩

/-- Where a line comment ends in front of one of two alike texts, it ends in front of the other: the end
is an edge, or a closing tag. -/
theorem endsLine_alike {c : Char} (h : endsLine c v) (alike : Alike loose (c :: v) (c :: v')) :
    endsLine c v' := by
  simp only [endsLine, Bool.or_eq_true, Bool.and_eq_true, beq_iff_eq] at h ⊢
  refine h.imp_right fun ⟨mark, head⟩ ↦ ⟨mark, ?_⟩
  subst mark
  cases alike with
  | edge hc => exact absurd hc (by decide)
  | ends _ _ h' => simpa [endsHere] using h'
  | solid _ solid => exact absurd solid (by decide)
  | cons _ more =>
    have heads := more.any_head (p := (· == '>')) (forall_isQuiet (by decide))
    cases v with
    | nil => cases head
    | cons d w =>
      obtain rfl := Option.some.inj head
      cases v' with
      | nil => simp at heads
      | cons d' w' => simpa using heads

/-- A line comment ends in the same place in front of alike texts that begin with the same character. -/
theorem afterLineComment_alike (h : afterLineComment (u ++ v) = v) (alike : Alike loose v v')
    (heads : v.head? = v'.head?) : afterLineComment (u ++ v') = v' := by
  induction u with
  | nil =>
    rw [List.nil_append] at h ⊢
    cases v with
    | nil =>
      cases v' with
      | nil => rfl
      | cons c w => cases heads
    | cons c r =>
      have stops : endsLine c r = true := by
        rw [afterLineComment_cons] at h
        split at h
        · assumption
        · have short := (afterLineComment_suffix r).length_le
          rw [h, List.length_cons] at short
          omega
      cases v' with
      | nil => cases heads
      | cons c' r' =>
        obtain rfl : c = c' := Option.some.inj heads
        rw [afterLineComment_cons, if_pos (endsLine_alike stops alike)]
  | cons c u ih =>
    rw [List.cons_append, afterLineComment_cons] at h ⊢
    split at h
    · have long := congrArg List.length h
      simp only [List.length_cons, List.length_append] at long
      omega
    · rename_i goes
      have same : (u ++ v').head? = (u ++ v).head? := by
        cases u with
        | nil => exact heads.symm
        | cons d u => rfl
      have goes' : ¬endsLine c (u ++ v') = true := by rwa [endsLine, same, ← endsLine]
      rw [if_neg goes']
      exact ih h

/-! ### Operators -/

/-- The characters of an operator. -/
def symbol (p : Punct) : List Char := p.text.toList

/-- No operator begins with `p` and goes on. -/
def isLone (p : Punct) : Bool :=
  Punct.all.all fun q ↦ !(symbol p).isPrefixOf (symbol q) || q == p

/-- The longer operators come first. -/
theorem pairwise_all : Punct.all.Pairwise fun p q ↦ (symbol q).length ≤ (symbol p).length := by
  decide +kernel

/-- An operator has up to three characters. No operand ends in front of the last two of three, the last
one is not quiet, the second one not solid, and if that is an edge, an operator ends behind it. -/
theorem symbol_cases (p : Punct) :
    (∃ a, symbol p = [a]) ∨ (∃ a b, symbol p = [a, b]) ∨
      ∃ a b c, symbol p = [a, b, c] ∧ (∀ w, endsHere (b :: c :: w) = false) ∧ isQuiet c = false ∧
        isSolid b = false ∧ (isEdge b → ∃ q : Punct, symbol q = [a, b]) := by
  cases p <;> first
    | exact .inl ⟨_, rfl⟩
    | exact .inr (.inl ⟨_, _, rfl⟩)
    | exact .inr (.inr ⟨_, _, _, rfl, fun _ ↦ rfl, rfl, rfl, fun edge ↦ absurd edge (by decide)⟩)
    | exact .inr (.inr ⟨_, _, _, rfl, fun _ ↦ rfl, rfl, rfl, fun _ ↦ ⟨.equal, rfl⟩⟩)
    | exact .inr (.inr ⟨_, _, _, rfl, fun _ ↦ rfl, rfl, rfl, fun _ ↦ ⟨.notEqual, rfl⟩⟩)
    | exact .inr (.inr ⟨_, _, _, rfl, fun _ ↦ rfl, rfl, rfl, fun _ ↦ ⟨.lessEqual, rfl⟩⟩)

/-- Operators are told apart by their symbols. -/
theorem symbol_injective {p q : Punct} (h : symbol p = symbol q) : p = q := by
  have found : ∀ p : Punct, Punct.all.find? (fun q ↦ symbol q == symbol p) = some p := by
    intro p
    cases p <;> decide +kernel
  have same := found p
  rw [h, found q] at same
  exact (Option.some.inj same).symm

/-- The operator that is read is the longest one that the text begins with. -/
theorem punct?_eq_some {cs v : List Char} {p : Punct} :
    punct? cs = some (p, v) ↔ cs = symbol p ++ v ∧
      ∀ q : Punct, symbol q <+: cs → (symbol q).length ≤ (symbol p).length := by
  have longest : ∀ {p : Punct} {v : List Char}, punct? cs = some (p, v) → cs = symbol p ++ v ∧
      ∀ q : Punct, symbol q <+: cs → (symbol q).length ≤ (symbol p).length := by
    intro p v h
    obtain ⟨r, found, same⟩ := Option.map_eq_some_iff.1 h
    obtain ⟨rfl, rfl⟩ := Prod.mk.inj same
    obtain ⟨here, before, behind, all, others⟩ := List.find?_eq_some_iff_append.1 found
    refine ⟨?_, fun q hq ↦ ?_⟩
    · obtain ⟨w, rfl⟩ := List.isPrefixOf_iff_prefix.1 here
      exact congrArg _ List.drop_left.symm
    · have mem := Punct.mem_all q
      have sorted := pairwise_all
      rw [all] at mem sorted
      rcases List.mem_append.1 mem with first | later
      · have fails := others q first
        rw [show q.text.toList.isPrefixOf cs = true from List.isPrefixOf_iff_prefix.2 hq] at fails
        cases fails
      · rcases List.mem_cons.1 later with rfl | later
        · exact Nat.le_refl _
        · exact (List.pairwise_cons.1 (List.pairwise_append.1 sorted).2.1).1 q later
  refine ⟨longest, fun ⟨text, most⟩ ↦ ?_⟩
  have starts : symbol p <+: cs := ⟨v, text.symm⟩
  cases found : punct? cs with
  | none =>
    have none := List.find?_eq_none.1 (Option.map_eq_none_iff.1 found) p (Punct.mem_all p)
    exact absurd (List.isPrefixOf_iff_prefix.2 starts) none
  | some r =>
    obtain ⟨q, w⟩ := r
    obtain ⟨text', most'⟩ := longest found
    have length := Nat.le_antisymm (most' p starts) (most q ⟨w, text'.symm⟩)
    obtain ⟨same, rest⟩ := List.append_inj (text.symm.trans text') length
    rw [symbol_injective same, rest]

/-- Nothing goes on with an operator that is alone. -/
theorem length_le_of_isLone {p q : Punct} (lone : isLone p) (h : symbol p <+: symbol q) :
    (symbol q).length ≤ (symbol p).length := by
  have all := List.all_eq_true.1 lone q (Punct.mem_all q)
  rw [List.isPrefixOf_iff_prefix.2 h] at all
  obtain rfl : q = p := by simpa using all
  exact Nat.le_refl _

/-- The longest operator is read, so another text behind it might make it longer. In front of alike texts
it does not: either no operator goes on with it, or the texts begin with the same character, and a third
one is part of no operator. -/
theorem punct?_alike {p : Punct} (h : punct? (u ++ v) = some (p, v)) (alike : Alike loose v v')
    (firm : isLone p ∨ v.head? = v'.head?) : punct? (u ++ v') = some (p, v') := by
  obtain ⟨text, most⟩ := punct?_eq_some.1 h
  obtain rfl := List.append_cancel_right text
  refine punct?_eq_some.2 ⟨rfl, fun q hq ↦ ?_⟩
  by_cases le : (symbol q).length ≤ (symbol p).length
  · exact le
  -- A longer operator goes on with the first characters of `v'`.
  exfalso
  have begins : symbol p <+: symbol q :=
    List.prefix_of_prefix_length_le (List.prefix_append _ _) hq (by omega)
  have longer : isLone p = false := Bool.eq_false_iff.2 fun lone ↦ le (length_le_of_isLone lone begins)
  have heads := firm.resolve_left (by simp [longer])
  obtain ⟨x, hx⟩ := begins
  rw [← hx] at hq
  have tail : x <+: v' := (List.prefix_append_right_inj _).1 hq
  -- It is not in front of `v`, so it has a second character, which is missing there.
  have absent : ¬x <+: v := fun hx' ↦ le (most q (hx ▸ (List.prefix_append_right_inj _).2 hx'))
  obtain ⟨z, zs, hz⟩ := List.exists_cons_of_ne_nil (Punct.text_ne_empty p)
  change symbol p = z :: zs at hz
  obtain ⟨w', rfl⟩ := tail
  obtain ⟨a, b, c, hq, apart, quiet, open', joined⟩ := (symbol_cases q).resolve_left (by
    rintro ⟨a, ha⟩
    rw [ha, List.length_singleton, hz, List.length_cons] at le
    omega) |>.resolve_left (by
    rintro ⟨a, b, hab⟩
    rw [← hx, hz] at hab
    match zs, x, hab with
    | [], [d], _ =>
      cases v with
      | nil => cases heads
      | cons e w => exact absent ⟨w, by rw [Option.some.inj heads]; rfl⟩
    | [_], [], _ => exact absent List.nil_prefix)
  rw [← hx, hz] at hq
  match zs, x, hq with
  | [], [b', c'], hq =>
    obtain ⟨rfl, rfl, rfl⟩ : a = z ∧ b = b' ∧ c = c' := by simpa [eq_comm] using hq
    cases alike with
    | edge hb w =>
      obtain ⟨r, hr⟩ := joined hb
      have short := most r (by rw [hr, hz]; exact ⟨w, rfl⟩)
      rw [hr, hz] at short
      simp at short
    | ends _ _ h' => exact absurd h' (by rw [show [b, c] ++ w' = b :: c :: w' from rfl, apart]; decide)
    | solid _ solid =>
      rw [open'] at solid
      cases solid
    | @cons w _ _ more =>
      have other : ∀ d, isQuiet d → (d == c) = false := by
        intro d hd
        refine beq_eq_false_iff_ne.2 ?_
        rintro rfl
        rw [quiet] at hd
        cases hd
      have second := more.any_head other
      cases w with
      | nil => simp at second
      | cons d w =>
        obtain rfl : d = c := by simpa using second.symm
        exact absent ⟨w, rfl⟩
  | [_], [d], _ =>
    cases v with
    | nil => cases heads
    | cons e w => exact absent ⟨w, by rw [Option.some.inj heads]; rfl⟩
  | [_, _], [], _ => exact absent List.nil_prefix

end ConfigScript.Script
