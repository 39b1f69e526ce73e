import ConfigScript.Proofs.Lexing.Ahead
import Mathlib.Data.List.TakeWhile

/-!
# Closed literals

A quoted literal ends with its quote and a block comment with its mark, whatever follows. Inside a
literal a reader may look far ahead, for the brace that ends the number of a character, but what it
finds behind the quote is never a number. A heredoc ends with its label, behind which only the next
character is looked at.

Each lemma says what a reader read, and that it reads the same in front of another text.
-/

namespace ConfigScript.Script

/-! ### Single quotes -/

/-- A text in single quotes is read up to the quote that closes it, whatever follows. -/
theorem exists_quoted {cs text rest : List Char} (h : Quoted.read? cs = some (text, rest)) :
    ∃ u, cs = u ++ rest ∧ ∀ rest', Quoted.read? (u ++ rest') = some (text, rest') := by
  fun_induction Quoted.read? cs generalizing text with
  | case1 => cases h
  | case2 r =>
    obtain ⟨rfl, rfl⟩ := Prod.mk.inj (Option.some.inj h)
    exact ⟨['\''], rfl, fun _ ↦ rfl⟩
  | case3 c r hc ih =>
    obtain ⟨⟨t, _⟩, hr, same⟩ := Option.map_eq_some_iff.1 h
    obtain ⟨rfl, rfl⟩ := Prod.mk.inj same
    obtain ⟨u, rfl, all⟩ := ih hr
    refine ⟨'\\' :: c :: u, rfl, fun rest' ↦ ?_⟩
    rw [List.cons_append, List.cons_append, Quoted.read?, if_pos hc, all]
    rfl
  | case4 c r hc ih =>
    obtain ⟨⟨t, _⟩, hr, same⟩ := Option.map_eq_some_iff.1 h
    obtain ⟨rfl, rfl⟩ := Prod.mk.inj same
    obtain ⟨u, hu, all⟩ := ih hr
    cases u with
    | nil => cases all []
    | cons d u =>
      obtain ⟨rfl, rfl⟩ := List.cons.inj hu
      refine ⟨'\\' :: c :: u, rfl, fun rest' ↦ ?_⟩
      rw [List.cons_append, List.cons_append, Quoted.read?, if_neg hc, ← List.cons_append, all]
      rfl
  | case5 c r quote back ih =>
    obtain ⟨⟨t, _⟩, hr, same⟩ := Option.map_eq_some_iff.1 h
    obtain ⟨rfl, rfl⟩ := Prod.mk.inj same
    obtain ⟨u, rfl, all⟩ := ih hr
    refine ⟨c :: u, rfl, fun rest' ↦ ?_⟩
    rw [List.cons_append, Quoted.read?, all]
    · rfl
    · exact quote
    · rintro d s rfl -
      cases u with
      | nil => cases all []
      | cons e u => exact back e _ rfl rfl

/-! ### Block comments -/

/-- A block comment is read up to the mark that closes it, whatever follows. -/
theorem exists_blockComment {cs rest : List Char} (h : afterBlockComment? cs = some rest) :
    ∃ u, cs = u ++ rest ∧ ∀ rest', afterBlockComment? (u ++ rest') = some rest' := by
  fun_induction afterBlockComment? cs with
  | case1 => cases h
  | case2 r =>
    obtain rfl := Option.some.inj h
    exact ⟨['*', '/'], rfl, fun _ ↦ rfl⟩
  | case3 c r goes ih =>
    obtain ⟨u, rfl, all⟩ := ih h
    refine ⟨c :: u, rfl, fun rest' ↦ ?_⟩
    rw [List.cons_append, afterBlockComment?, all]
    rintro s rfl text
    cases u with
    | nil => cases all []
    | cons d u => exact goes (u ++ rest) rfl (by rw [(List.cons.inj text).1]; rfl)

/-! ### Escapes -/

/-- A text with a character that is no digit is no numeral. -/
theorem numeral?_eq_none {radix : Nat} {c : Char} {cs : List Char} (hc : Text.digitIn radix c = none)
    (mem : c ∈ cs) : Text.numeral? radix cs = none := by
  have fails : cs.mapM (Text.digitIn radix) = none := by
    induction cs with
    | nil => cases mem
    | cons d cs ih =>
      rw [List.mapM_cons]
      rcases List.mem_cons.1 mem with rfl | mem
      · rw [hc]
        rfl
      · rw [ih mem]
        cases Text.digitIn radix d <;> rfl
  rw [Text.numeral?, fails]
  split <;> rfl

/-- The character whose number stands in braces. -/
def numbered? (cs : List Char) : Option Char :=
  (Text.numeral? 16 (match cs with
    | '+' :: ds => ds
    | ds => ds)).bind charOf?

/-- The number of a character is read up to the brace that closes it. -/
theorem codePoint?_of_brace {u : List Char} (h : '\x7d' ∉ u) (v : List Char) :
    codePoint? (u ++ '\x7d' :: v) = (numbered? u).map (·, v) := by
  have inside : ∀ c ∈ u, (c != '\x7d') = true := by
    rintro c hc
    exact bne_iff_ne.2 fun eq ↦ h (eq ▸ hc)
  have rest : (u ++ '\x7d' :: v).dropWhile (· != '\x7d') = '\x7d' :: v := by
    rw [List.dropWhile_append_of_pos inside]
    rfl
  have text : (u ++ '\x7d' :: v).takeWhile (· != '\x7d') = u := by
    rw [List.takeWhile_append_of_pos inside, List.takeWhile_cons_of_neg (by decide),
      List.append_nil]
  rw [codePoint?, rest, text]
  rfl

/-- Without a brace, no number of a character is read. -/
theorem codePoint?_of_open {cs : List Char} (h : '\x7d' ∉ cs) : codePoint? cs = none := by
  have rest : cs.dropWhile (· != '\x7d') = [] := by
    have inside : ∀ c ∈ cs, (c != '\x7d') = true := by
      rintro c hc
      exact bne_iff_ne.2 fun eq ↦ h (eq ▸ hc)
    exact List.dropWhile_eq_nil_iff.2 inside
  rw [codePoint?, rest]

/-- A text with a quote in it is no number of a character. So a brace behind the end of a literal is not
taken for one that ends such a number. -/
theorem numbered?_of_quote {cs : List Char} (h : '"' ∈ cs) : numbered? cs = none := by
  have digits : '"' ∈ (match cs with
      | '+' :: ds => ds
      | ds => ds) := by
    split
    · exact (List.mem_cons.1 h).resolve_left (by decide)
    · exact h
  unfold numbered?
  rw [numeral?_eq_none (by decide) digits]
  rfl

/-- The number of a character ends with its brace. -/
theorem exists_codePoint {cs rest : List Char} {c : Char} (h : codePoint? cs = some (c, rest)) :
    ∃ u, cs = u ++ rest ∧ ∀ rest', codePoint? (u ++ rest') = some (c, rest') := by
  by_cases brace : '\x7d' ∈ cs
  · obtain ⟨u, v, rfl, first⟩ := List.eq_append_cons_of_mem brace
    rw [codePoint?_of_brace first] at h
    obtain ⟨d, known, same⟩ := Option.map_eq_some_iff.1 h
    obtain ⟨rfl, rfl⟩ := Prod.mk.inj same
    refine ⟨u ++ ['\x7d'], by simp, fun rest' ↦ ?_⟩
    rw [List.append_assoc, List.singleton_append, codePoint?_of_brace first, known]
    rfl
  · rw [codePoint?_of_open brace] at h
    cases h

/-- Behind the quote there is no number. -/
theorem codePoint?_of_quote {u v : List Char} (h : codePoint? (u ++ '"' :: v) = none)
    (v' : List Char) : codePoint? (u ++ '"' :: v') = none := by
  by_cases brace : '\x7d' ∈ u
  · obtain ⟨w, x, rfl, first⟩ := List.eq_append_cons_of_mem brace
    rw [List.append_assoc, List.cons_append, codePoint?_of_brace first] at h ⊢
    rw [Option.map_eq_none_iff] at h ⊢
    exact h
  by_cases behind : '\x7d' ∈ v'
  · obtain ⟨w, x, rfl, first⟩ := List.eq_append_cons_of_mem behind
    have all : '\x7d' ∉ u ++ '"' :: w := by simp [brace, first]
    rw [← List.cons_append, ← List.append_assoc, codePoint?_of_brace all,
      numbered?_of_quote (by simp)]
    rfl
  · exact codePoint?_of_open (by simp [brace, behind])

/-- Of what follows at most two digits are taken, and a character that is none ends them. -/
theorem digits_append {p : Char → Bool} {ds y y' : List Char}
    (h : ((ds ++ y).take 2).takeWhile p = ds) (heads : y'.head? = y.head?) :
    ((ds ++ y').take 2).takeWhile p = ds := by
  match ds with
  | [] =>
    cases y with
    | nil => simp_all
    | cons c y =>
      obtain ⟨z, rfl⟩ : ∃ z, y' = c :: z := by
        cases y' with
        | nil => cases heads
        | cons d z => exact ⟨z, by rw [Option.some.inj heads]⟩
      have stops : p c = false := by
        cases hc : p c with
        | false => rfl
        | true => simp [hc] at h
      simp [stops]
  | [a] =>
    cases y with
    | nil => simp_all
    | cons c y =>
      obtain ⟨z, rfl⟩ : ∃ z, y' = c :: z := by
        cases y' with
        | nil => cases heads
        | cons d z => exact ⟨z, by rw [Option.some.inj heads]⟩
      simpa using h
  | [a, b] => simpa using h
  | a :: b :: c :: ds =>
    have short := (List.takeWhile_sublist p (l := (a :: b :: c :: ds ++ y).take 2)).length_le
    rw [h, List.length_take] at short
    simp only [List.length_cons] at short
    omega

theorem head_quote (u v v' : List Char) : (u ++ '"' :: v').head? = (u ++ '"' :: v).head? := by
  cases u <;> rfl

/-- The digits of an escape, with the closing quote behind them. -/
theorem digits_of_drop {p : Char → Bool} {r u v : List Char}
    (h : r.drop ((r.take 2).takeWhile p).length = u ++ '"' :: v) :
    r = (r.take 2).takeWhile p ++ (u ++ '"' :: v) ∧
      ∀ v', (((r.take 2).takeWhile p ++ (u ++ '"' :: v')).take 2).takeWhile p =
        (r.take 2).takeWhile p := by
  have begins : (r.take 2).takeWhile p <+: r := (List.takeWhile_prefix _).trans (List.take_prefix _ _)
  have text : r = (r.take 2).takeWhile p ++ (u ++ '"' :: v) := by
    rw [← h]
    exact (List.prefix_iff_eq_append.1 begins).symm
  exact ⟨text, fun v' ↦ digits_append (by rw [← text]) (head_quote u v v')⟩

/-- An escape in front of a quote is read the same whatever stands behind the quote. It may look for a
brace far behind, but a number does not reach over the quote. -/
theorem exists_bracedEscape {c : Char} {r u v : List Char}
    (h : (bracedEscape c r).2 = u ++ '"' :: v) :
    ∃ w, r = w ++ '"' :: v ∧
      ∀ v', bracedEscape c (w ++ '"' :: v') = ((bracedEscape c r).1, u ++ '"' :: v') := by
  by_cases braced : c = 'u' ∧ ∃ body, r = '\x7b' :: body
  · obtain ⟨rfl, body, rfl⟩ := braced
    rw [bracedEscape] at h ⊢
    cases point : codePoint? body with
    | some found =>
      obtain ⟨d, rest⟩ := found
      simp only [point] at h ⊢
      subst h
      obtain ⟨w, rfl, all⟩ := exists_codePoint point
      refine ⟨'\x7b' :: (w ++ u), by simp, fun v' ↦ ?_⟩
      rw [List.cons_append, bracedEscape, List.append_assoc, all]
    | none =>
      simp only [point] at h ⊢
      cases u with
      | nil => cases h
      | cons d u =>
        obtain ⟨rfl, rfl⟩ := List.cons.inj h
        refine ⟨'\x7b' :: u, rfl, fun v' ↦ ?_⟩
        rw [List.cons_append, bracedEscape, codePoint?_of_quote point]
  · have plain : ∀ {s : List Char}, s.head? = r.head? → bracedEscape c s = (['\\', c], s) := by
      intro s heads
      unfold bracedEscape
      split
      · rename_i body
        refine absurd ⟨rfl, ?_⟩ braced
        cases r with
        | nil => cases heads
        | cons d r => exact ⟨r, by rw [Option.some.inj heads]⟩
      · rfl
    rw [plain rfl] at h ⊢
    subst h
    exact ⟨u, rfl, fun v' ↦ plain (head_quote u v v')⟩

/-- An escape in front of the closing quote. -/
theorem exists_escape {cs u v : List Char} (h : (escape cs).2 = u ++ '"' :: v) :
    ∃ w, cs = w ++ '"' :: v ∧
      ∀ v', escape (w ++ '"' :: v') = ((escape cs).1, u ++ '"' :: v') := by
  cases cs with
  | nil => cases u <;> cases h
  | cons c r =>
    rw [escape] at h ⊢
    cases letter : letterEscape? c with
    | some d =>
      simp only [letter] at h ⊢
      subst h
      exact ⟨c :: u, rfl, fun v' ↦ by rw [List.cons_append, escape, letter]⟩
    | none =>
      simp only [letter] at h ⊢
      by_cases octal : Text.isDigitIn 8 c
      · rw [if_pos octal] at h ⊢
        obtain ⟨text, more⟩ := digits_of_drop h
        refine ⟨c :: ((r.take 2).takeWhile (Text.isDigitIn 8) ++ u), by simpa using text,
          fun v' ↦ ?_⟩
        rw [List.cons_append, escape, letter, List.append_assoc]
        dsimp only
        rw [if_pos octal, more, List.drop_left]
      rw [if_neg octal] at h ⊢
      by_cases hex : c == 'x' && r.head?.any (Text.isDigitIn 16)
      · rw [if_pos hex] at h ⊢
        obtain ⟨text, more⟩ := digits_of_drop h
        refine ⟨c :: ((r.take 2).takeWhile (Text.isDigitIn 16) ++ u), by simpa using text,
          fun v' ↦ ?_⟩
        rw [List.cons_append, escape, letter, List.append_assoc]
        dsimp only
        have hex' : (c == 'x' && ((r.take 2).takeWhile (Text.isDigitIn 16) ++
            (u ++ '"' :: v')).head?.any (Text.isDigitIn 16)) = true := by
          rw [← List.append_assoc, head_quote _ v v', List.append_assoc, ← text, hex]
        rw [if_neg octal, if_pos hex', more, List.drop_left]
      · rw [if_neg hex] at h ⊢
        obtain ⟨w, rfl, all⟩ := exists_bracedEscape h
        refine ⟨c :: w, rfl, fun v' ↦ ?_⟩
        rw [List.cons_append, escape, letter]
        dsimp only
        rw [if_neg octal, head_quote w v v', if_neg hex, all]

/-! ### Variables -/

/-- A name ends in the same place whatever stands behind the next character but one. -/
theorem name_quote {n u v : List Char} {c : Char}
    (h : name (n ++ (u ++ c :: v)) = (n, u ++ c :: v)) (v' : List Char) :
    name (n ++ (u ++ c :: v')) = (n, u ++ c :: v') := by
  injection h with text rest
  have heads : (u ++ c :: v').head?.any isNameChar = (u ++ c :: v).head?.any isNameChar := by
    cases u <;> rfl
  have same := dropWhile_append_same rest heads
  rw [name, same.1, same.2, text]

/-- A name in braces is a name with a brace behind it. -/
theorem bracedName_eq_ok {cs n rest : List Char} :
    bracedName cs = .ok (n, rest) ↔ n ≠ [] ∧ name cs = (n, '\x7d' :: rest) := by
  unfold bracedName
  split <;> rename_i found <;> rw [found]
  · simp_all
  · rename_i nonempty
    constructor
    · intro h
      obtain ⟨rfl, rfl⟩ := Prod.mk.inj (Except.ok.inj h)
      exact ⟨nonempty, rfl⟩
    · rintro ⟨-, h⟩
      injection h with h h'
      injection h' with _ h'
      rw [h, h']
  · rename_i other
    refine ⟨nofun, fun ⟨_, h⟩ ↦ ?_⟩
    exact (other _ (Prod.mk.inj h).2).elim

/-- A name in braces is read up to its closing brace, whatever follows. -/
theorem exists_bracedName {cs n rest : List Char} (h : bracedName cs = .ok (n, rest)) :
    ∃ u, cs = u ++ rest ∧ ∀ rest', bracedName (u ++ rest') = .ok (n, rest') := by
  obtain ⟨nonempty, found⟩ := bracedName_eq_ok.1 h
  have text := name_append cs
  rw [found] at text
  rw [← text] at found
  refine ⟨n ++ ['\x7d'], by simp [← text], fun rest' ↦ bracedName_eq_ok.2 ⟨nonempty, ?_⟩⟩
  simpa using name_quote (u := []) found rest'

/-- What is read of a variable in a literal in front of a quote is read the same whatever stands behind
the quote. -/
theorem exists_interpolation {c : Char} {r n u v : List Char}
    (h : interpolation? c r = some (.ok (n, u ++ '"' :: v))) :
    ∃ w, r = w ++ '"' :: v ∧
      ∀ v', interpolation? c (w ++ '"' :: v') = some (.ok (n, u ++ '"' :: v')) := by
  unfold interpolation? at h
  split at h
  · rename_i d s
    split at h
    · rename_i start
      injection h with h
      injection h with h
      have text := name_append (d :: s)
      rw [h] at text
      rw [← text] at h
      obtain ⟨m, rfl⟩ : ∃ m, n = d :: m := by
        cases n with
        | nil =>
          rw [List.nil_append] at text
          rw [List.nil_append, text] at h
          simp [name, isNameChar_of_isNameStart start] at h
        | cons e m => exact ⟨m, by rw [(List.cons.inj text).1]⟩
      refine ⟨d :: (m ++ u), by simpa using (List.cons.inj text).2.symm, fun v' ↦ ?_⟩
      have read := name_quote h v'
      rw [List.cons_append, List.append_assoc, interpolation?, if_pos start]
      rw [List.cons_append] at read
      rw [read]
    · rename_i start
      split at h
      · rename_i brace
        injection h with h
        obtain ⟨w, rfl, all⟩ := exists_bracedName h
        refine ⟨d :: (w ++ u), by simp, fun v' ↦ ?_⟩
        rw [List.cons_append, List.append_assoc, interpolation?, if_neg start, if_pos brace, all]
      · cases h
  · rename_i s
    injection h with h
    obtain ⟨w, rfl, all⟩ := exists_bracedName h
    refine ⟨'$' :: (w ++ u), by simp, fun v' ↦ ?_⟩
    rw [List.cons_append, List.append_assoc, interpolation?, all]
  · cases h

/-- Whether a variable begins in a literal depends on the next character only. -/
theorem interpolation?_eq_none {c : Char} {r r' : List Char} (h : interpolation? c r = none)
    (heads : r'.head? = r.head?) : interpolation? c r' = none := by
  cases r with
  | nil =>
    cases r' with
    | nil => exact h
    | cons d s => cases heads
  | cons d s =>
    cases r' with
    | nil => cases heads
    | cons d' s' =>
      obtain rfl := Option.some.inj heads
      unfold interpolation? at h ⊢
      split at h
      · rename_i eq
        obtain ⟨rfl, rfl⟩ := List.cons.inj eq
        split at h
        · cases h
        rename_i start
        split at h
        · cases h
        rename_i brace
        rw [if_neg start, if_neg brace]
      · cases h
      · rename_i dollar brace
        split
        · rename_i eq
          exact (dollar _ _ rfl rfl).elim
        · rename_i eq
          injection eq with eq
          exact (brace _ rfl (by rw [eq])).elim
        · rfl

/-! ### Double quotes -/

section Interpolated

variable {closing : Option Char} {c : Char} {r : List Char} (other : ¬some c = closing)
  (plain : ¬(c == '\\') = true)
include other plain

/-- A variable in a literal is one part of it. -/
theorem interpolated_of_var {n s : List Char} (h : interpolation? c r = some (.ok (n, s))) :
    interpolated closing (c :: r) =
      (interpolated closing s).map fun (fs, rest) ↦ (.var n :: fs, rest) := by
  rw [interpolated, if_neg other, if_neg plain]
  split <;> rename_i eq <;> rw [h] at eq
  · cases eq
  · obtain ⟨rfl, rfl⟩ := Prod.mk.inj (Except.ok.inj (Option.some.inj eq))
    cases interpolated closing s <;> rfl
  · cases eq

/-- What begins no variable stands for itself. -/
theorem interpolated_of_char (h : interpolation? c r = none) :
    interpolated closing (c :: r) =
      (interpolated closing r).map fun (fs, rest) ↦ (.char c :: fs, rest) := by
  rw [interpolated, if_neg other, if_neg plain]
  split <;> rename_i eq <;> rw [h] at eq
  · cases eq
  · cases eq
  · cases interpolated closing r <;> rfl

end Interpolated

/-- A text in double quotes is read up to the quote that closes it, whatever follows. -/
theorem exists_interpolated {cs rest : List Char} {fs : List Fragment}
    (h : interpolated (some '"') cs = .ok (fs, rest)) :
    ∃ u, cs = u ++ '"' :: rest ∧
      ∀ rest', interpolated (some '"') (u ++ '"' :: rest') = .ok (fs, rest') := by
  fun_induction interpolated (some '"') cs generalizing fs rest with
  | case1 => cases h
  | case2 no => exact absurd rfl no
  | case3 c r quote =>
    obtain ⟨rfl, rfl⟩ := Prod.mk.inj (Except.ok.inj h)
    obtain rfl := Option.some.inj quote
    exact ⟨[], rfl, fun rest' ↦ by rw [List.nil_append, interpolated, if_pos rfl]⟩
  | case4 => cases h
  | case5 c r quote back _ fs' rest hr ih =>
    obtain ⟨rfl, rfl⟩ := Prod.mk.inj (Except.ok.inj h)
    obtain ⟨u, text, all⟩ := ih hr
    obtain ⟨w, rfl, escapes⟩ := exists_escape text
    refine ⟨c :: w, rfl, fun rest' ↦ ?_⟩
    rw [List.cons_append, interpolated, if_neg quote, if_pos back, escapes, all]
  | case6 => cases h
  | case7 => cases h
  | case8 c r quote back n s hi _ fs' rest hr ih =>
    obtain ⟨rfl, rfl⟩ := Prod.mk.inj (Except.ok.inj h)
    obtain ⟨u, rfl, all⟩ := ih hr
    obtain ⟨w, rfl, reads⟩ := exists_interpolation hi
    refine ⟨c :: w, rfl, fun rest' ↦ ?_⟩
    rw [List.cons_append, interpolated_of_var quote back (reads rest'), all]
    rfl
  | case9 => cases h
  | case10 c r quote back none fs' rest hr ih =>
    obtain ⟨rfl, rfl⟩ := Prod.mk.inj (Except.ok.inj h)
    obtain ⟨u, rfl, all⟩ := ih hr
    refine ⟨c :: u, rfl, fun rest' ↦ ?_⟩
    have none' := interpolation?_eq_none none (head_quote u rest rest')
    rw [List.cons_append, interpolated_of_char quote back none', all]
    rfl

/-! ### Heredocs -/

namespace Heredoc

variable {label : List Char}

/-- What matters behind a label: whether the word goes on. -/
def SameWord (v v' : List Char) : Prop := v'.head?.any isNameChar = v.head?.any isNameChar

/-- A word of name characters is not indentation. -/
theorem isIndent_of_isNameChar {c : Char} (h : isNameChar c) : isIndent c = false := by
  cases hc : isIndent c with
  | false => rfl
  | true =>
    simp only [isIndent, Bool.or_eq_true, beq_iff_eq] at hc
    rcases hc with rfl | rfl <;> exact absurd h (by decide)

/-- Characters that are not to be dropped stay behind what is. -/
theorem suffix_dropWhile {p : Char → Bool} {xs : List Char} (h : ∀ c ∈ xs, p c = false)
    (ys : List Char) : xs <:+ (ys ++ xs).dropWhile p := by
  induction ys with
  | nil =>
    cases xs with
    | nil => exact List.nil_suffix
    | cons c xs =>
      refine ⟨[], ?_⟩
      rw [List.nil_append, List.dropWhile_cons_of_neg (by simp [h c List.mem_cons_self])]
  | cons c ys ih =>
    rw [List.cons_append, List.dropWhile_cons]
    split
    · exact ih
    · exact (List.suffix_append ys xs).trans (List.suffix_cons _ _)

/-- Whether a line closes the heredoc does not depend on what follows the closing line. -/
theorem closes_append (nonempty : label ≠ []) (word : ∀ c ∈ label, isNameChar c) {v v' : List Char}
    (same : SameWord v v') (x : List Char) :
    closes label (x ++ (label ++ v')) = closes label (x ++ (label ++ v)) := by
  obtain ⟨y, hy⟩ := suffix_dropWhile (fun c hc ↦ isIndent_of_isNameChar (word c hc)) x
  have after : ∀ w : List Char, (x ++ (label ++ w)).dropWhile isIndent = y ++ label ++ w := by
    intro w
    have some : ((x ++ label).dropWhile isIndent).isEmpty = false := by
      rw [← hy]
      simp [nonempty]
    rw [← List.append_assoc, List.dropWhile_append, some, ← hy]
    rfl
  have begins : ∀ w : List Char, label.isPrefixOf (y ++ label ++ w) = label.isPrefixOf (y ++ label) := by
    intro w
    rw [Bool.eq_iff_iff, List.isPrefixOf_iff_prefix, List.isPrefixOf_iff_prefix]
    refine ⟨fun h ↦ ?_, fun h ↦ h.trans (List.prefix_append _ _)⟩
    exact List.prefix_of_prefix_length_le h (List.prefix_append _ _) (by simp)
  have behind : ((y ++ label ++ v').drop label.length).head?.any isNameChar =
      ((y ++ label ++ v).drop label.length).head?.any isNameChar := by
    have le : label.length ≤ (y ++ label).length := by simp
    rw [List.drop_append_of_le_length le, List.drop_append_of_le_length le]
    cases (y ++ label).drop label.length with
    | nil => exact same
    | cons c z => rfl
  simp only [closes, after, begins, behind]

/-- The body of a heredoc ends in front of a line that closes it. -/
theorem exists_body {b : Bool} {cs lines closing : List Char}
    (h : body? label b cs = some (lines, closing)) : cs = lines ++ closing ∧ closes label closing := by
  induction cs generalizing b lines with
  | nil => cases h
  | cons c r ih =>
    rw [body?] at h
    split at h
    · rename_i here
      obtain ⟨rfl, rfl⟩ := Prod.mk.inj (Option.some.inj h)
      exact ⟨rfl, (Bool.and_eq_true_iff.1 here).2⟩
    · obtain ⟨⟨ls, rest⟩, found, same⟩ := Option.map_eq_some_iff.1 h
      obtain ⟨rfl, rfl⟩ := Prod.mk.inj same
      obtain ⟨rfl, closed⟩ := ih found
      exact ⟨rfl, closed⟩

/-- The body of a heredoc ends in the same place in front of another text, if that goes on with a word
behind the label just as the first one does. No line in front of the closing one is looked at
differently. -/
theorem body?_append (nonempty : label ≠ []) (word : ∀ c ∈ label, isNameChar c)
    {v v' : List Char} (same : SameWord v v') (i : List Char) {b : Bool} {lines : List Char}
    (h : body? label b (lines ++ (i ++ (label ++ v))) = some (lines, i ++ (label ++ v))) :
    body? label b (lines ++ (i ++ (label ++ v'))) = some (lines, i ++ (label ++ v')) := by
  induction lines generalizing b with
  | nil =>
    have first : ∀ w, ∃ c r, i ++ (label ++ w) = c :: r := fun w ↦
      List.exists_cons_of_ne_nil (by simp [nonempty])
    obtain ⟨c, r, text⟩ := first v
    obtain ⟨c', r', text'⟩ := first v'
    have closed := closes_append nonempty word same i
    rw [List.nil_append] at h ⊢
    rw [text, text'] at closed
    rw [text, body?] at h
    rw [text', body?, closed]
    split at h
    · rename_i here
      rw [if_pos here]
    · obtain ⟨⟨ls, rest⟩, _, other⟩ := Option.map_eq_some_iff.1 h
      cases other
  | cons c ls ih =>
    have closed := closes_append nonempty word same (c :: (ls ++ i))
    simp only [List.cons_append, List.append_assoc] at closed h ⊢
    rw [body?] at h ⊢
    rw [closed]
    split at h
    · cases h
    · rename_i here
      obtain ⟨⟨ms, rest⟩, found, other⟩ := Option.map_eq_some_iff.1 h
      obtain ⟨lines, rfl⟩ := Prod.mk.inj other
      obtain ⟨-, rfl⟩ := List.cons.inj lines
      rw [if_neg here, ih found]
      rfl

/-- The parts of a heredoc behind `<<<`: indentation, the label in its quotes, a line break, the lines,
and the closing line, up to the label. -/
structure Layout where
  gap : List Char
  quote : Option Char
  label : List Char
  linebreak : List Char
  lines : List Char
  indent : List Char

namespace Layout

variable (l : Layout)

/-- The heredoc in front of `rest`. -/
def text (rest : List Char) : List Char :=
  l.gap ++ (l.quote.toList ++ (l.label ++ (l.quote.toList ++ (l.linebreak ++ (l.lines ++
    (l.indent ++ (l.label ++ rest)))))))

/-- The parts are what their names say, and the lines end where the closing line begins. -/
structure Legal (rest : List Char) : Prop where
  gap : ∀ c ∈ l.gap, isIndent c
  quote : ∀ q ∈ l.quote, q = '\'' ∨ q = '"'
  nonempty : l.label ≠ []
  word : ∀ c ∈ l.label, isNameChar c
  linebreak : l.linebreak = ['\n'] ∨ l.linebreak = ['\r', '\n']
  indent : ∀ c ∈ l.indent, isIndent c
  body : body? l.label true (l.lines ++ (l.indent ++ (l.label ++ rest))) =
    some (l.lines, l.indent ++ (l.label ++ rest))

variable {l}

theorem Legal.append {rest rest' : List Char} (h : l.Legal rest) (same : SameWord rest rest') :
    l.Legal rest' := { h with body := body?_append h.nonempty h.word same l.indent h.body }

/-- What a heredoc is read as. -/
theorem Legal.read {rest : List Char} (h : l.Legal rest) :
    Heredoc.read (l.text rest) =
      (bodyParts l.quote (dedent l.indent.length (chompLine l.lines))).map (·, rest) := by
  obtain ⟨gap, quote, label, linebreak, lines, indent⟩ := l
  obtain ⟨hgap, hquote, nonempty, word, hbreak, hindent, hbody⟩ := h
  dsimp only [text] at *
  obtain ⟨c, ls, rfl⟩ := List.exists_cons_of_ne_nil nonempty
  have first := word c List.mem_cons_self
  -- Each scanner takes its part of the layout, whatever follows.
  have afterGap : ∀ {x : List Char}, x.head?.any isIndent = false →
      (gap ++ x).dropWhile isIndent = x := by
    intro x hx
    rw [List.dropWhile_append_of_pos hgap]
    cases x with
    | nil => rfl
    | cons d x => exact List.dropWhile_cons_of_neg (by simpa using hx)
  have named : ∀ {x : List Char}, x.head?.any isNameChar = false →
      name (c :: ls ++ x) = (c :: ls, x) := by
    intro x hx
    have stops : x.takeWhile isNameChar = [] ∧ x.dropWhile isNameChar = x := by
      cases x with
      | nil => exact ⟨rfl, rfl⟩
      | cons d x => simp_all
    rw [name, List.takeWhile_append_of_pos word, List.dropWhile_append_of_pos word, stops.1,
      stops.2, List.append_nil]
  have unbroken : ∀ x, (linebreak ++ x).head?.any isNameChar = false := by
    rcases hbreak with rfl | rfl <;> intro x <;> rfl
  have broken : ∀ x, afterBreak (linebreak ++ x) = .ok x := by
    rcases hbreak with rfl | rfl <;> intro x <;> rfl
  have width : ((indent ++ (c :: ls ++ rest)).takeWhile isIndent).length = indent.length := by
    rw [List.takeWhile_append_of_pos hindent, List.cons_append,
      List.takeWhile_cons_of_neg (by simp [isIndent_of_isNameChar first]), List.append_nil]
  have behind : (indent ++ (c :: ls ++ rest)).drop (indent.length + (c :: ls).length) = rest := by
    rw [← List.append_assoc, ← List.length_append, List.drop_left]
  -- A quote stands on both sides of the label or on none.
  cases quote with
  | none =>
    have unquoted : ∀ x, openQuote (c :: x) = (none, c :: x) := by
      intro x
      unfold openQuote
      split
      · rename_i eq
        rw [(List.cons.inj eq).1] at first
        exact absurd first (by decide)
      · rename_i eq
        rw [(List.cons.inj eq).1] at first
        exact absurd first (by decide)
      · rfl
    simp only [Option.toList_none, List.nil_append]
    rw [Heredoc.read, afterGap (by simpa using isIndent_of_isNameChar first), List.cons_append,
      unquoted, ← List.cons_append]
    simp only [named (unbroken _), closeQuote, broken, bind, Except.bind, hbody, width, behind]
    cases bodyParts none (dedent indent.length (chompLine lines)) <;> rfl
  | some q =>
    have marks : isIndent q = false ∧ isNameChar q = false ∧
        ∀ x, openQuote (q :: x) = (some q, x) := by
      rcases hquote q rfl with rfl | rfl <;> exact ⟨rfl, rfl, fun _ ↦ rfl⟩
    have closed : ∀ x, closeQuote (some q) (q :: x) = .ok x := fun x ↦ by simp [closeQuote]
    simp only [Option.toList_some, List.singleton_append]
    rw [Heredoc.read, afterGap (by simpa using marks.1), marks.2.2]
    simp only [named (x := q :: _) (by simpa using marks.2.1), closed, broken, bind, Except.bind,
      hbody, width, behind]
    cases bodyParts (some q) (dedent indent.length (chompLine lines)) <;> rfl

/-- The label of a heredoc may stand in quotes, single or double. -/
theorem exists_openQuote (cs : List Char) : ∃ q : Option Char, (∀ c ∈ q, c = '\'' ∨ c = '"') ∧
    ∃ r, openQuote cs = (q, r) ∧ cs = q.toList ++ r := by
  unfold openQuote
  split
  · exact ⟨some '\'', by simp, _, rfl, rfl⟩
  · exact ⟨some '"', by simp, _, rfl, rfl⟩
  · exact ⟨none, by simp, _, rfl, rfl⟩

/-- The quote behind a label is the one in front of it. -/
theorem eq_of_closeQuote {q : Option Char} {cs r : List Char} (h : closeQuote q cs = .ok r) :
    cs = q.toList ++ r := by
  unfold closeQuote at h
  split at h
  · exact Except.ok.inj h
  · split at h
    · rename_i same
      rw [beq_iff_eq] at same
      rw [same, Except.ok.inj h]
      rfl
    · cases h
  · cases h

/-- Behind a label there is a line break, with a carriage return in front of it or without. -/
theorem exists_break {cs r : List Char} (h : afterBreak cs = .ok r) :
    ∃ b, (b = ['\n'] ∨ b = ['\r', '\n']) ∧ cs = b ++ r := by
  unfold afterBreak at h
  split at h
  · exact ⟨_, .inl rfl, congrArg _ (Except.ok.inj h)⟩
  · exact ⟨_, .inr rfl, congrArg (fun r ↦ '\r' :: '\n' :: r) (Except.ok.inj h)⟩
  · cases h

/-- The closing line: indentation and the label. -/
theorem exists_closing {closing : List Char} (h : closes label closing) :
    ∃ rest, closing = closing.takeWhile isIndent ++ (label ++ rest) := by
  obtain ⟨rest, hrest⟩ := List.isPrefixOf_iff_prefix.1 (Bool.and_eq_true_iff.1 h).1
  exact ⟨rest, by rw [hrest, List.takeWhile_append_dropWhile]⟩

/-- Whatever is read as a heredoc is laid out like one. -/
theorem exists_layout {cs rest : List Char} {parts : List Part}
    (h : Heredoc.read cs = .ok (parts, rest)) : ∃ l : Layout, l.Legal rest ∧ cs = l.text rest ∧
      bodyParts l.quote (dedent l.indent.length (chompLine l.lines)) = .ok parts := by
  obtain ⟨q, quote, r, opens, text⟩ := exists_openQuote (cs.dropWhile isIndent)
  -- The scanners are gone through in their order, and each tells one part of the layout.
  have labelled : r = (name r).1 ++ (name r).2 := (name_append r).symm
  rw [Heredoc.read, opens] at h
  dsimp only at h
  split at h
  · cases h
  rename_i nonempty
  cases closes' : closeQuote q (name r).2 with
  | error e => rw [closes'] at h; cases h
  | ok r₁ =>
    rw [closes'] at h
    cases breaks : afterBreak r₁ with
    | error e => simp only [bind, Except.bind, breaks] at h; cases h
    | ok r₂ =>
      simp only [bind, Except.bind, breaks] at h
      cases found : body? (name r).1 true r₂ with
      | none => rw [found] at h; cases h
      | some pair =>
        obtain ⟨lines, closing⟩ := pair
        rw [found] at h
        dsimp only at h
        cases body : bodyParts q (dedent (closing.takeWhile isIndent).length (chompLine lines)) with
        | error e => rw [body] at h; cases h
        | ok parts' =>
          rw [body] at h
          obtain ⟨rfl, last⟩ := Prod.mk.inj (Except.ok.inj h)
          obtain ⟨linebreak, known, broken⟩ := exists_break breaks
          obtain ⟨joined, closed⟩ := exists_body found
          obtain ⟨tail, closing'⟩ := exists_closing closed
          have behind : rest = tail := by
            rw [← last, congrArg (List.drop _) closing', ← List.append_assoc, ← List.length_append,
              List.drop_left]
          subst behind
          refine ⟨⟨cs.takeWhile isIndent, q, (name r).1, linebreak, lines,
            closing.takeWhile isIndent⟩, ⟨?_, quote, ?_, ?_, known, ?_, ?_⟩, ?_, body⟩
          · exact fun c hc ↦ List.all_eq_true.1 (List.all_takeWhile (l := cs)) c hc
          · exact fun empty ↦ nonempty (List.isEmpty_iff.2 empty)
          · exact fun c hc ↦ List.all_eq_true.1 (List.all_takeWhile (l := r)) c hc
          · exact fun c hc ↦ List.all_eq_true.1 (List.all_takeWhile (l := closing)) c hc
          · dsimp only
            rw [← closing', ← joined, found]
          · rw [Layout.text, ← closing', ← joined, ← broken, ← eq_of_closeQuote closes',
              ← labelled, ← text, List.takeWhile_append_dropWhile]

end Layout

/-- A heredoc ends with its label, if the word does not go on. -/
theorem exists_read {cs rest : List Char} {parts : List Part} (h : read cs = .ok (parts, rest)) :
    ∃ u, cs = u ++ rest ∧ ∀ rest', SameWord rest rest' → read (u ++ rest') = .ok (parts, rest') := by
  obtain ⟨l, legal, rfl, body⟩ := Layout.exists_layout h
  refine ⟨l.text [], by simp [Layout.text], fun rest' same ↦ ?_⟩
  have text : l.text [] ++ rest' = l.text rest' := by simp [Layout.text]
  rw [text, (legal.append same).read, body]
  rfl

end Heredoc

end ConfigScript.Script
