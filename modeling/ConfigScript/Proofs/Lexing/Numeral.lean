import ConfigScript.Proofs.Lexing.Closed
import ConfigScript.Proofs.Lexing.Last

/-!
# Integers

An integer in any notation, written with digits of its radix, is one token: the integer that the digits
denote, or a float if that does not fit into 64 bits (`fits_numeral`). Nothing of the text is left over,
whatever follows that does not go on with it.

Behind a leading zero the digits `8` and `9` are taken as well, although they are no octal digits. Such a
text is no integer, but it is read without complaint: as the float that the octal digits in it denote
(`fits_numeral_of_foreign`).
-/

namespace ConfigScript

namespace Text

/-- In radices up to ten, digits are decimal digits. -/
theorem isDigit_of_isDigitIn {radix : Nat} {c : Char} (small : radix ≤ 10) (h : isDigitIn radix c) :
    c.isDigit := by
  obtain ⟨n, hn⟩ := Option.isSome_iff_exists.1 h
  obtain ⟨hn, lt⟩ := Option.filter_eq_some_iff.1 hn
  unfold digitValue at hn
  split at hn
  · rename_i digit
    simpa [Char.isDigit, Char.le_def] using digit
  · rw [decide_eq_true_eq] at lt
    split at hn
    · rw [← Option.some.inj hn] at lt
      omega
    split at hn
    · rw [← Option.some.inj hn] at lt
      omega
    · cases hn

/-- A decimal digit is a digit to base ten. -/
theorem isDigitIn_of_isDigit {c : Char} (h : c.isDigit) : isDigitIn 10 c := by
  have digit : ('0' ≤ c && c ≤ '9') = true := by simpa [Char.isDigit, Char.le_def] using h
  have range : 48 ≤ c.toNat ∧ c.toNat ≤ 57 := by
    simp only [Char.isDigit, Bool.and_eq_true, decide_eq_true_eq, ge_iff_le,
      UInt32.le_iff_toNat_le] at h
    exact h
  have small : c.toNat - 48 < 10 := by omega
  simpa [isDigitIn, digitIn, digitValue, digit] using small

/-- Digits denote a number. -/
theorem numeral?_eq_some {radix : Nat} {ds : List Char} (h : ∀ d ∈ ds, isDigitIn radix d)
    (some' : ds ≠ []) : numeral? radix ds = some (ofDigitValues radix (ds.filterMap (digitIn radix))) := by
  have values : ds.mapM (digitIn radix) = some (ds.filterMap (digitIn radix)) := by
    clear some'
    induction ds with
    | nil => rfl
    | cons d ds ih =>
      obtain ⟨n, hn⟩ := Option.isSome_iff_exists.1 (h d List.mem_cons_self)
      rw [List.mapM_cons, hn, ih fun e he ↦ h e (List.mem_cons_of_mem d he), List.filterMap_cons, hn]
      rfl
  rw [numeral?, values, if_neg (by simpa using some')]
  rfl

end Text

namespace Script

variable {rest : List Char}

/-- The token of a natural number: the integer with this value, or a float if it is too large for one. -/
def Denotes (n : Nat) : TokenKind → Prop
  | .int i => i.toInt = n
  | .float _ => 0x8000000000000000 ≤ n
  | _ => False

/-- A natural number that does not fit is too large. -/
theorem le_of_fit?_eq_none {n : Nat} (h : Integer.fit? n = none) : 0x8000000000000000 ≤ n := by
  unfold Integer.fit? at h
  split at h
  · cases h
  · omega

theorem bind_fit? {radix n : Nat} {ds : List Char} (h : Text.numeral? radix ds = some n) :
    ((Text.numeral? radix ds).bind fun n ↦ Integer.fit? n) = Integer.fit? n := by
  rw [h]
  exact Option.bind_some ..

/-- A number in a radix denotes what its digits do: an integer if that fits, and otherwise the nearest
float. -/
theorem denotes_radixNumber {radix n : Nat} {ds : List Char} (h : Text.numeral? radix ds = some n) :
    Denotes n (radixNumber radix ds) := by
  rw [radixNumber, bind_fit? h]
  cases fit : Integer.fit? n with
  | some i => exact Integer.fit?_eq_some fit
  | none => exact le_of_fit?_eq_none fit

/-- Without a leading zero, digits denote a decimal number. -/
theorem denotes_decimalNumber {n : Nat} {c : Char} {ds : List Char} (first : c.isDigit)
    (plain : c = '0' → ds = []) (h : Text.numeral? 10 (c :: ds) = some n) :
    Denotes n (decimalNumber false (c :: ds)) := by
  have parsed : Integer.parse? (c :: ds) = Integer.fit? n := by
    unfold Integer.parse?
    split
    · rename_i eq
      rw [(List.cons.inj eq).1] at first
      cases first
    · rename_i eq
      rw [(List.cons.inj eq).1] at first
      cases first
    · exact bind_fit? h
  have unrooted : ∀ d ds', c :: ds ≠ '0' :: d :: ds' := by
    intro d ds' eq
    obtain ⟨zero, more⟩ := List.cons.inj eq
    rw [plain zero] at more
    cases more
  rw [decimalNumber, if_neg Bool.false_ne_true, parsed]
  · cases fit : Integer.fit? n with
    | some i => exact Integer.fit?_eq_some fit
    | none => exact le_of_fit?_eq_none fit
  · exact unrooted

/-! ### How integers are written -/

/-- An integer in a script: in decimal notation with its first digit, in octal notation behind a leading
zero, or behind a zero and a mark that announces the radix. -/
inductive Numeral where
  | decimal (first : Char) (more : List Char)
  | octal (more : List Char)
  | announced (mark : Char) (more : List Char)

namespace Numeral

/-- The text. -/
def text : Numeral → List Char
  | decimal c ds => c :: ds
  | octal ds => '0' :: ds
  | announced x ds => '0' :: x :: ds

/-- The radix of the notation. -/
def radix : Numeral → Nat
  | decimal _ _ => 10
  | octal _ => 8
  | announced x _ => (announcedRadix? x).getD 10

/-- The digits that count, without the underscores between them. -/
def digits : Numeral → List Char
  | decimal c ds => withoutUnderscores (c :: ds)
  | octal ds => withoutUnderscores ds
  | announced _ ds => withoutUnderscores ds

/-- The number that the digits denote in positional notation. -/
def value (l : Numeral) : Nat :=
  Text.ofDigitValues l.radix (l.digits.filterMap (Text.digitIn l.radix))

/-- Every digit is one of the radix, there is one, and decimal notation has no leading zero. -/
inductive Legal : Numeral → Prop
  | decimal {c : Char} {ds : List Char} (first : c.isDigit) (more : ∀ d ∈ ds, isRadixChar 10 d)
    (plain : c = '0' → withoutUnderscores ds = []) : Legal (.decimal c ds)
  | octal {ds : List Char} (more : ∀ d ∈ ds, isRadixChar 8 d) (some : withoutUnderscores ds ≠ []) :
    Legal (.octal ds)
  | announced {x : Char} {radix : Nat} {ds : List Char} (mark : announcedRadix? x = some radix)
    (more : ∀ d ∈ ds, isRadixChar radix d) (some : withoutUnderscores ds ≠ []) :
    Legal (.announced x ds)

/-- Whether the character may go on with a decimal number. -/
def isDecimalChar (c : Char) : Bool :=
  c.isDigit || c == '_' || c == '.' || c == 'e' || c == 'E'

/-- Whether the number may go on with the character. Behind a single zero a radix may be announced. -/
def mayContinue : Numeral → Char → Bool
  | decimal first more, c =>
    isDecimalChar c || (first == '0' && more.isEmpty && (announcedRadix? c).isSome)
  | octal _, c => isDecimalChar c
  | announced x _, c => isRadixChar ((announcedRadix? x).getD 10) c

end Numeral

/-! ### Reading them -/

/-- Without underscores, a number consists of digits. -/
theorem isDigitIn_of_mem {radix : Nat} {ds : List Char} (h : ∀ d ∈ ds, isRadixChar radix d) :
    ∀ d ∈ withoutUnderscores ds, Text.isDigitIn radix d := by
  intro d hd
  obtain ⟨mem, plain⟩ := List.mem_filter.1 hd
  have known := h d mem
  rw [bne_iff_ne] at plain
  rw [isRadixChar, Bool.or_eq_true, beq_iff_eq] at known
  exact known.resolve_left plain

/-- A decimal number takes digits and underscores. -/
theorem afterDecimal_digits {ds : List Char} (h : ∀ d ∈ ds, d.isDigit || d == '_') (b : Bool) :
    afterDecimal b (ds ++ rest) = afterDecimal b rest := by
  induction ds with
  | nil => rfl
  | cons d ds ih =>
    rw [List.cons_append, afterDecimal_cons, if_pos (h d List.mem_cons_self)]
    exact ih fun e he ↦ h e (List.mem_cons_of_mem d he)

/-- A number ends in front of a character that is no part of it. -/
theorem afterDecimal_ends (ends : rest.head?.any Numeral.isDecimalChar = false) (b : Bool) :
    afterDecimal b rest = (b, rest) := by
  cases rest with
  | nil => rfl
  | cons c r =>
    have char : Numeral.isDecimalChar c = false := ends
    simp only [Numeral.isDecimalChar, Bool.or_eq_false_iff] at char
    obtain ⟨⟨⟨⟨digit, low⟩, point⟩, small⟩, large⟩ := char
    rw [afterDecimal_cons, digit, low, point, small, large]
    rfl

/-- Digits and underscores behind a first digit are a decimal literal without point and exponent. -/
theorem fits_digits {c : Char} {ds : List Char} (first : c.isDigit)
    (more : ∀ d ∈ ds, d.isDigit || d == '_') (ends : rest.head?.any Numeral.isDecimalChar = false)
    (plain : announces c (ds ++ rest) = false) :
    Fits (decimalNumber false (withoutUnderscores (c :: ds))) (c :: ds) rest := by
  have noPoint : (c == '.') = false := by
    refine beq_eq_false_iff_ne.2 ?_
    rintro rfl
    cases first
  have after : afterDecimal (c == '.') (ds ++ rest) = (false, rest) := by
    rw [noPoint, afterDecimal_digits more, afterDecimal_ends ends]
  refine ⟨c, ds, rfl, ?_⟩
  rw [scriptPiece, Start.of_digit first]
  show Piece.ofRead id (number c (ds ++ rest)) = _
  rw [number_of_decimal plain, decimalLiteral_append after]
  rfl

/-- Digits of a radix are digits of decimal numbers, if the radix is no larger. -/
theorem isDigit_of_isRadixChar {radix : Nat} (small : radix ≤ 10) {ds : List Char}
    (h : ∀ d ∈ ds, isRadixChar radix d) : ∀ d ∈ ds, d.isDigit || d == '_' := by
  intro d hd
  have known := h d hd
  rw [isRadixChar, Bool.or_eq_true] at known
  rw [Bool.or_eq_true]
  exact known.symm.imp_left (Text.isDigit_of_isDigitIn small)

/-- No radix is announced by digits and underscores. -/
theorem announces_of_digits {c : Char} {ds : List Char} (more : ∀ d ∈ ds, d.isDigit || d == '_')
    (ends : c = '0' → ds = [] → rest.head?.any (fun x ↦ (announcedRadix? x).isSome) = false) :
    announces c (ds ++ rest) = false := by
  rw [announces, Bool.and_eq_false_iff]
  by_cases zero : c = '0'
  · right
    cases ds with
    | nil => exact ends zero rfl
    | cons d ds =>
      have here := more d List.mem_cons_self
      have marks : ∀ x ∈ ['x', 'X', 'b', 'B', 'o', 'O'], (d == x) = false := by
        intro x hx
        refine beq_eq_false_iff_ne.2 ?_
        rintro rfl
        have letter : ['x', 'X', 'b', 'B', 'o', 'O'].all fun x ↦ !(x.isDigit || x == '_') := by
          decide
        have other := List.all_eq_true.1 letter d hx
        rw [here] at other
        cases other
      have none : announcedRadix? d = none := by
        simp only [announcedRadix?, marks 'x' (by decide), marks 'X' (by decide),
          marks 'b' (by decide), marks 'B' (by decide), marks 'o' (by decide),
          marks 'O' (by decide), Bool.or_self, Bool.false_eq_true, if_false]
      simp [none]
  · exact .inl (beq_eq_false_iff_ne.2 zero)

/-- Decimal notation: the token denotes the number, if nothing goes on with the digits. -/
theorem fits_decimal {c : Char} {ds : List Char} (first : c.isDigit)
    (more : ∀ d ∈ ds, isRadixChar 10 d) (plain : c = '0' → withoutUnderscores ds = [])
    (ends : rest.head?.any (Numeral.decimal c ds).mayContinue = false) :
    ∃ kind, Fits kind (c :: ds) rest ∧ Denotes (Numeral.decimal c ds).value kind := by
  have more' := isDigit_of_isRadixChar (Nat.le_refl 10) more
  have ends' : rest.head?.any Numeral.isDecimalChar = false ∧ (c = '0' → ds = [] →
      rest.head?.any (fun x ↦ (announcedRadix? x).isSome) = false) := by
    cases rest with
    | nil => exact ⟨rfl, fun _ _ ↦ rfl⟩
    | cons d r =>
      obtain ⟨char, mark⟩ := Bool.or_eq_false_iff.1 ends
      refine ⟨char, ?_⟩
      rintro rfl rfl
      exact mark
  have low : (c != '_') = true := by
    refine bne_iff_ne.2 ?_
    rintro rfl
    cases first
  have digits : withoutUnderscores (c :: ds) = c :: withoutUnderscores ds := List.filter_cons_of_pos low
  have all : ∀ d ∈ c :: withoutUnderscores ds, Text.isDigitIn 10 d := by
    intro d hd
    rcases List.mem_cons.1 hd with rfl | hd
    · exact Text.isDigitIn_of_isDigit first
    · exact isDigitIn_of_mem more d hd
  refine ⟨_, fits_digits first more' ends'.1 (announces_of_digits more' ends'.2), ?_⟩
  rw [digits]
  refine denotes_decimalNumber first plain ?_
  rw [Text.numeral?_eq_some all (List.cons_ne_nil _ _), Numeral.value, Numeral.digits, digits]
  rfl

/-- Behind a leading zero, digits are read as octal ones. -/
theorem decimalNumber_of_zero {ds : List Char} (some : withoutUnderscores ds ≠ []) :
    decimalNumber false (withoutUnderscores ('0' :: ds)) = radixNumber 8 (withoutUnderscores ds) := by
  have zero : withoutUnderscores ('0' :: ds) = '0' :: withoutUnderscores ds := rfl
  obtain ⟨d, es, digits⟩ := List.exists_cons_of_ne_nil some
  rw [zero, digits]
  rfl

/-- Digits behind a leading zero are one token, whether they are octal or not. -/
theorem fits_zero {ds : List Char} (more : ∀ d ∈ ds, d.isDigit || d == '_')
    (some : withoutUnderscores ds ≠ []) (ends : rest.head?.any Numeral.isDecimalChar = false) :
    Fits (radixNumber 8 (withoutUnderscores ds)) ('0' :: ds) rest := by
  have plain : announces '0' (ds ++ rest) = false := announces_of_digits more fun _ empty ↦
    absurd (congrArg withoutUnderscores empty) some
  exact decimalNumber_of_zero some ▸ fits_digits rfl more ends plain

/-- Octal notation behind a leading zero. -/
theorem fits_octal {ds : List Char} (more : ∀ d ∈ ds, isRadixChar 8 d)
    (some : withoutUnderscores ds ≠ []) (ends : rest.head?.any Numeral.isDecimalChar = false) :
    ∃ kind, Fits kind ('0' :: ds) rest ∧ Denotes (Numeral.octal ds).value kind :=
  ⟨_, fits_zero (isDigit_of_isRadixChar (by decide) more) some ends,
    denotes_radixNumber (Text.numeral?_eq_some (isDigitIn_of_mem more) some)⟩

/-- A notation whose radix is announced. -/
theorem fits_announced {x : Char} {radix : Nat} {ds : List Char} (mark : announcedRadix? x = some radix)
    (more : ∀ d ∈ ds, isRadixChar radix d) (some : withoutUnderscores ds ≠ [])
    (ends : rest.head?.any (isRadixChar radix) = false) :
    ∃ kind, Fits kind ('0' :: x :: ds) rest ∧ Denotes (Numeral.announced x ds).value kind := by
  have cut : (ds ++ rest).takeWhile (isRadixChar radix) = ds ∧
      (ds ++ rest).dropWhile (isRadixChar radix) = rest := by
    rw [List.takeWhile_append_of_pos more, List.dropWhile_append_of_pos more]
    cases rest with
    | nil => simp
    | cons d r =>
      have stops : isRadixChar radix d = false := ends
      simp [stops]
  have read : number '0' (x :: (ds ++ rest)) =
      .ok (radixNumber radix (withoutUnderscores ds), rest) := by
    rw [number_of_radix mark, cut.1, cut.2, if_neg (by simpa using some)]
  have known : (Numeral.announced x ds).radix = radix := by
    rw [Numeral.radix, mark, Option.getD_some]
  have value : (Numeral.announced x ds).value =
      Text.ofDigitValues radix ((withoutUnderscores ds).filterMap (Text.digitIn radix)) := by
    rw [Numeral.value, known]
    rfl
  refine ⟨_, ⟨'0', x :: ds, rfl, ?_⟩, value ▸ denotes_radixNumber
    (Text.numeral?_eq_some (isDigitIn_of_mem more) some)⟩
  rw [scriptPiece, Start.of_digit rfl]
  show Piece.ofRead id (number '0' (x :: (ds ++ rest))) = _
  rw [read]
  rfl

/-- An integer in any notation is one token, whose kind is told by its value. -/
theorem fits_numeral {l : Numeral} (legal : l.Legal)
    (ends : rest.head?.any l.mayContinue = false) :
    ∃ kind, Fits kind l.text rest ∧ Denotes l.value kind := by
  cases legal with
  | decimal first more plain => exact fits_decimal first more plain ends
  | octal more some => exact fits_octal more some ends
  | @announced x radix ds mark more some =>
    have known : Numeral.mayContinue (.announced x ds) = isRadixChar radix := by
      funext c
      rw [Numeral.mayContinue, mark, Option.getD_some]
    exact fits_announced mark more some (known ▸ ends)

/-- Wherever an integer stands that nothing goes on with, it is one token with just its text, which tells
its value, and the lexer goes on behind it. -/
theorem tokensFrom_numeral (front : List Char) {l : Numeral} (legal : l.Legal)
    (ends : rest.head?.any l.mayContinue = false) :
    ∃ (kind : TokenKind) (s : Span), Denotes l.value kind ∧ s.start = Text.byteLength front ∧
      s.stop = Text.byteLength front + Text.byteLength l.text ∧
      s.text (front ++ l.text ++ rest) = l.text ∧
      tokensFrom .script (Place.start.past front) (l.text ++ rest) =
        (tokensFrom .script (Place.start.past (front ++ l.text)) rest).map
          (⟨kind, s, l.text⟩ :: ·) := by
  obtain ⟨kind, fits, value⟩ := fits_numeral legal ends
  obtain ⟨s, token⟩ := fits.tokensFrom front
  exact ⟨kind, s, value, token⟩

/-- All notations of 31, with digits set apart. -/
example : (tokenize "<?php 31 3_1 0x1f 0X1_F 0b1_1111 0o37 0_37;".toList).toOption.map
    (·.map (·.kind)) = some (.openTag :: List.replicate 7 (.int 31) ++ [.punct .semicolon]) := by
  decide +kernel

/-- Behind a leading zero, a digit that is no octal one makes a float of the digits that are. -/
theorem fits_numeral_of_foreign {ds : List Char} (more : ∀ d ∈ ds, d.isDigit || d == '_')
    (foreign : '8' ∈ ds ∨ '9' ∈ ds) (ends : rest.head?.any Numeral.isDecimalChar = false) :
    Fits (.float (radixFloat 8 (withoutUnderscores ds))) ('0' :: ds) rest := by
  obtain ⟨d, mem, none, low⟩ : ∃ d ∈ ds, Text.digitIn 8 d = none ∧ (d != '_') = true := by
    rcases foreign with mem | mem
    · exact ⟨'8', mem, by decide, by decide⟩
    · exact ⟨'9', mem, by decide, by decide⟩
  have mem' : d ∈ withoutUnderscores ds := List.mem_filter.2 ⟨mem, low⟩
  have number : radixNumber 8 (withoutUnderscores ds) = .float (radixFloat 8 (withoutUnderscores ds)) := by
    rw [radixNumber, numeral?_eq_none none mem']
    rfl
  exact number ▸ fits_zero more (List.ne_nil_of_mem mem') ends

end Script

end ConfigScript
