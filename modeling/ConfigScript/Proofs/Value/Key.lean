import ConfigScript.Proofs.Lexing.Numeral
import ConfigScript.Value.Element

/-!
# Keys in canonical form

The decimal notation of an integer reads back as that integer (`Integer.parse?_render`), so of the texts
with the value of an integer one is canonical. A key is in canonical form if it is no such text. All keys
that values stand for are (`Value.isCanonical_of_key?`), and keys in canonical form are told apart by their
texts (`Key.IsCanonical.toText_inj`).
-/

namespace ConfigScript

/-! ### Integers in decimal notation -/

namespace Text

/-- The value of decimal digits, as the library has it. -/
theorem ofDigitValues_eq_ofDigitChars {ds : List Char} (h : ∀ d ∈ ds, d.isDigit) :
    ofDigitValues 10 (ds.filterMap (digitIn 10)) = Nat.ofDigitChars 10 ds 0 := by
  have value {c : Char} (digit : c.isDigit) : digitIn 10 c = some (c.toNat - '0'.toNat) := by
    obtain ⟨n, hn⟩ := Option.isSome_iff_exists.1 (isDigitIn_of_isDigit digit)
    have range : ('0' ≤ c && c ≤ '9') = true := by simpa [Char.isDigit, Char.le_def] using digit
    rw [hn]
    obtain ⟨known, -⟩ := Option.filter_eq_some_iff.1 hn
    rw [digitValue, if_pos range] at known
    exact known.symm
  rw [ofDigitValues, Nat.ofDigitChars]
  generalize 0 = start
  induction ds generalizing start with
  | nil => rfl
  | cons d ds ih =>
    have digit := h d List.mem_cons_self
    rw [List.filterMap_cons_some (value digit), List.foldl_cons, List.foldl_cons, Nat.mul_comm start]
    exact ih (fun e he ↦ h e (List.mem_cons_of_mem d he)) _

theorem numeral?_toDigits (n : Nat) : numeral? 10 (Nat.toDigits 10 n) = some n := by
  have digits : ∀ d ∈ Nat.toDigits 10 n, d.isDigit := fun d hd ↦
    Nat.isDigit_of_mem_toDigits (by decide) (by decide) hd
  rw [numeral?_eq_some (fun d hd ↦ isDigitIn_of_isDigit (digits d hd)) Nat.toDigits_ne_nil,
    ofDigitValues_eq_ofDigitChars digits, Nat.ofDigitChars_ten_toDigits]

end Text

namespace Integer

theorem fit?_toInt (n : Int64) : fit? n.toInt = some n := by
  have lower := Int64.le_toInt n
  have upper := Int64.toInt_lt n
  rw [fit?, if_pos ⟨by omega, by omega⟩, Int64.ofInt_toInt]

/-- Digits have no sign. -/
theorem parse?_toDigits (n : Nat) : parse? (Nat.toDigits 10 n) = fit? n := by
  have numeral := Text.numeral?_toDigits n
  have digits (c : Char) (mem : c ∈ Nat.toDigits 10 n) : c.isDigit :=
    Nat.isDigit_of_mem_toDigits (by decide) (by decide) mem
  generalize Nat.toDigits 10 n = ds at numeral digits
  unfold parse?
  split
  · exact absurd (digits '-' List.mem_cons_self) (by decide)
  · exact absurd (digits '+' List.mem_cons_self) (by decide)
  · rw [numeral, Option.bind_some]

/-- The decimal notation of an integer reads back as the integer. -/
theorem parse?_render (n : Int64) : parse? (render n).toList = some n := by
  rw [← fit?_toInt n, render]
  cases n.toInt with
  | ofNat m =>
    have text : (toString (Int.ofNat m)).toList = Nat.toDigits 10 m := Nat.toList_repr
    rw [text, parse?_toDigits, Int.ofNat_eq_natCast]
  | negSucc m =>
    have text : (toString (Int.negSucc m)).toList = '-' :: Nat.toDigits 10 (m + 1) := by
      show ("-" ++ Nat.repr (m + 1)).toList = _
      rw [String.toList_append, Nat.toList_repr]
      rfl
    have value : Int.negSucc m = -((m + 1 : Nat) : Int) := rfl
    rw [text, parse?, Text.numeral?_toDigits, Option.bind_some, value]

theorem render_inj {m n : Int64} (h : render m = render n) : m = n := by
  have same := parse?_render m
  rw [h, parse?_render n] at same
  exact (Option.some.inj same).symm

theorem render_ne_empty (n : Int64) : render n ≠ "" := by
  intro empty
  have read := parse?_render n
  rw [empty] at read
  cases read

end Integer

/-! ### Keys -/

/-- A key in canonical form: an integer, or a text that is no integer in decimal notation. -/
def Key.IsCanonical : Key → Prop
  | .int _ => True
  | .text s => ∀ i, s ≠ Integer.render i
  | .other _ => False

/-- A value stands for a key in canonical form, if for any. -/
theorem Value.isCanonical_of_key? {v : Value} {k : Key} (h : v.key? = some k) : k.IsCanonical := by
  cases v with
  | int i =>
    obtain rfl := Option.some.inj h
    trivial
  | bool b =>
    obtain rfl := Option.some.inj h
    trivial
  | float x =>
    obtain ⟨-, rfl⟩ : x.isFinite ∧ Key.int (Number.toInt64 x) = k := by simpa [key?] using h
    trivial
  | null =>
    obtain rfl := Option.some.inj h
    exact fun i empty ↦ Integer.render_ne_empty i empty.symm
  | string s =>
    rw [key?] at h
    split at h
    · rename_i i read
      obtain rfl := Option.some.inj h
      split
      · trivial
      · rename_i other
        rintro j rfl
        rw [Integer.parse?_render] at read
        exact other (congrArg Integer.render (Option.some.inj read).symm)
    · rename_i unread
      obtain rfl := Option.some.inj h
      rintro j rfl
      rw [Integer.parse?_render] at unread
      cases unread
  | array | expression => cases h

/-- Keys in canonical form are told apart by their texts. -/
theorem Key.IsCanonical.toText_inj {k l : Key} (hk : k.IsCanonical) (hl : l.IsCanonical)
    (h : k.toText = l.toText) : k = l := by
  cases k with
  | int i =>
    cases l with
    | int j => rw [Integer.render_inj h]
    | text t => exact absurd h.symm (hl i)
    | other v => exact hl.elim
  | text s =>
    cases l with
    | int j => exact absurd h (hk j)
    | text t => exact congrArg Key.text h
    | other v => exact hl.elim
  | other v => exact hk.elim

end ConfigScript
