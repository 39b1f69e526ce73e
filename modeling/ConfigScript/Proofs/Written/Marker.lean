import ConfigScript.Proofs.Written.Row

/-!
# Finding the marker

New entries are put in front of the first place where the standard marker occurs. A text is *clear*
of a marker if no occurrence begins in it, whatever follows; clear texts may be put together
(`Clear.append`), and behind a clear text the search goes on where the text ends.

Every row is clear of the standard marker (`Row.Legal.clear_text`), whatever its name and value are: the
marker holds a quote between two letters, while in a quoted text a backslash stands in front of
every quote but the last one.
-/

namespace ConfigScript.Text

/-- No occurrence of `marker` begins in the text, whatever follows it. -/
def Clear (marker cs : List Char) : Prop :=
  ∀ rest, splitAtFirst marker (cs ++ rest) =
    (splitAtFirst marker rest).map fun (before, found) ↦ (cs ++ before, found)

namespace Clear

variable {marker as bs : List Char}

theorem nil : Clear marker [] := by
  intro rest
  rw [List.nil_append]
  cases splitAtFirst marker rest <;> rfl

theorem append (ha : Clear marker as) (hb : Clear marker bs) : Clear marker (as ++ bs) := by
  intro rest
  rw [List.append_assoc, ha, hb]
  cases splitAtFirst marker rest <;> simp

/-- One more character in front, at which no occurrence begins. -/
theorem cons {c : Char} (here : ∀ rest, marker.isPrefixOf (c :: (as ++ rest)) = false)
    (ha : Clear marker as) : Clear marker (c :: as) := by
  intro rest
  rw [List.cons_append, splitAtFirst, here, ha]
  cases splitAtFirst marker rest <;> simp

/-- A text without the first character of the marker. -/
theorem of_forall_ne {m : Char} {ms : List Char} (h : ∀ c ∈ as, c ≠ m) :
    Clear (m :: ms) as := by
  induction as with
  | nil => exact nil
  | cons c as ih =>
    refine cons (fun rest ↦ ?_) (ih fun d hd ↦ h d (List.mem_cons_of_mem c hd))
    have ne : (m == c) = false := beq_eq_false_iff_ne.2 (Ne.symm (h c List.mem_cons_self))
    simp [List.isPrefixOf, ne]

end Clear

/-- Whether two texts differ somewhere before one of them ends. -/
def clash : List Char → List Char → Bool
  | a :: as, b :: bs => a != b || clash as bs
  | _, _ => false

/-- A text that clashes with a marker does not begin with it, whatever follows. -/
theorem isPrefixOf_of_clash {as bs : List Char} (h : clash as bs) (rest : List Char) :
    as.isPrefixOf (bs ++ rest) = false := by
  fun_induction clash as bs with
  | case1 a as b bs ih =>
    rw [List.cons_append, List.isPrefixOf]
    rw [Bool.or_eq_true, bne_iff_ne] at h
    rcases h with h | h
    · simp [h]
    · simp [ih h]
  | case2 => cases h

/-- Whether the marker differs from the text at every place of it. -/
def isClear (marker : List Char) : List Char → Bool
  | [] => true
  | c :: cs => clash marker (c :: cs) && isClear marker cs

/-- A text that differs from the marker at every place is clear of it. -/
theorem clear_of_isClear {marker cs : List Char} (h : isClear marker cs) : Clear marker cs := by
  induction cs with
  | nil => exact .nil
  | cons c cs ih =>
    rw [isClear, Bool.and_eq_true] at h
    exact .cons (fun rest ↦ isPrefixOf_of_clash h.1 rest) (ih h.2)

end ConfigScript.Text

namespace ConfigScript

open Script

/-- Where the rest of a literal begins, no text begins that holds a quote in front of an `s`: the
quotes of the literal have a backslash in front of them, and behind it stands no `s`. -/
theorem not_prefix_escape (front back : List Char) {cs : List Char} {x : Char} {rest : List Char}
    (plain : ∀ c ∈ front, c ≠ '\'' ∧ c ≠ '\\') (hx : x ≠ 's') :
    ¬ front ++ '\'' :: 's' :: back <+: Quoted.escape cs ++ '\'' :: x :: rest := by
  induction front generalizing cs with
  | nil =>
    rw [List.nil_append]
    cases cs with
    | nil =>
      intro h
      rw [Quoted.escape, List.nil_append, List.cons_prefix_cons, List.cons_prefix_cons] at h
      exact hx h.2.1.symm
    | cons c cs =>
      intro h
      rw [Quoted.escape] at h
      split at h
      · rw [List.cons_append, List.cons_prefix_cons] at h
        exact absurd h.1 (by decide)
      · rename_i hc
        rw [List.cons_append, List.cons_prefix_cons] at h
        exact hc (by simp [← h.1])
  | cons d front ih =>
    have hd := plain d List.mem_cons_self
    intro h
    rw [List.cons_append] at h
    cases cs with
    | nil =>
      rw [Quoted.escape, List.nil_append, List.cons_prefix_cons] at h
      exact hd.1 h.1
    | cons c cs =>
      rw [Quoted.escape] at h
      split at h
      · rw [List.cons_append, List.cons_prefix_cons] at h
        exact hd.2 h.1
      · rw [List.cons_append, List.cons_prefix_cons] at h
        exact ih (fun e he ↦ plain e (List.mem_cons_of_mem d he)) h.2

/-- The rest of a quoted text, with one character behind the literal. -/
theorem clear_escape (cs : List Char) {x : Char} (hx : x ≠ 's' ∧ x ≠ '/') :
    Text.Clear Edit.standardAnchor (Quoted.escape cs ++ ['\'', x]) := by
  have other : ∀ c, c ≠ '/' → Text.Clear Edit.standardAnchor [c] := fun c hc ↦
    Text.Clear.of_forall_ne fun d hd ↦ List.mem_singleton.1 hd ▸ hc
  induction cs with
  | nil => exact (other '\'' (by decide)).append (other x hx.2)
  | cons c cs ih =>
    rw [Quoted.escape]
    split
    · rename_i hc
      rw [Bool.or_eq_true, beq_iff_eq, beq_iff_eq] at hc
      have special : c ≠ '/' := by
        rcases hc with rfl | rfl <;> decide
      exact (other '\\' (by decide)).append ((other c special).append ih)
    · rename_i hc
      refine .cons (fun rest ↦ ?_) ih
      have whole : c :: (Quoted.escape cs ++ ['\'', x] ++ rest) =
          Quoted.escape (c :: cs) ++ '\'' :: x :: rest := by
        simp [Quoted.escape, hc]
      show Edit.standardAnchor.isPrefixOf (c :: (Quoted.escape cs ++ ['\'', x] ++ rest)) = false
      rw [whole, Bool.eq_false_iff, ne_eq, List.isPrefixOf_iff_prefix]
      exact not_prefix_escape "/* That".toList " all, stop editing!".toList (by simp) hx.1

/-- A quoted text is clear of the standard marker, with a character behind it that is neither the one
that follows the quote in the marker nor the first one of it. -/
theorem clear_quote (cs : List Char) {x : Char} (hx : x ≠ 's' ∧ x ≠ '/') :
    Text.Clear Edit.standardAnchor (Quoted.quote cs ++ [x]) := by
  have opening : Text.Clear Edit.standardAnchor ['\''] :=
    Text.Clear.of_forall_ne fun c hc ↦
      List.mem_singleton.1 hc ▸ (show '\'' ≠ '/' by decide)
  simpa [Quoted.quote] using opening.append (clear_escape cs hx)

/-- The marker does not begin in a row. -/
theorem Row.Legal.clear_text {r : Row} (h : r.Legal) :
    Text.Clear Edit.standardAnchor (r.text ++ ['\n']) := by
  obtain ⟨kind, name, padding, value⟩ := r
  rcases h.kind with rfl | ⟨rfl, hn⟩
  · have padding' : Text.Clear Edit.standardAnchor padding := Text.Clear.of_forall_ne
      fun c hc ↦ by rw [h.padding c hc]; decide
    have start : Text.Clear Edit.standardAnchor "define( ".toList :=
      Text.clear_of_isClear (by decide)
    have stop : Text.Clear Edit.standardAnchor [')', ';', '\n'] :=
      Text.clear_of_isClear (by decide)
    have whole := start.append ((clear_quote name.toList (x := ',') (by decide)).append
      (padding'.append ((clear_quote value.toList (x := ' ') (by decide)).append stop)))
    simpa [Row.text, Row.lead, Row.trail] using whole
  · obtain ⟨c, cs, hcs, hc, hr⟩ := Row.name_of_isVariableName hn
    have start : Text.Clear Edit.standardAnchor ('$' :: name.toList) := by
      refine Text.Clear.of_forall_ne fun d hd ↦ ?_
      rintro rfl
      simp only [hcs, List.mem_cons] at hd
      rcases hd with hd | rfl | hd
      · exact absurd hd (by decide)
      · exact absurd hc (by decide)
      · exact absurd (hr _ hd) (by decide)
    have sign : Text.Clear Edit.standardAnchor [' ', '=', ' '] :=
      Text.clear_of_isClear (by decide)
    have stop : Text.Clear Edit.standardAnchor ['\n'] := Text.clear_of_isClear (by decide)
    have whole := start.append (sign.append
      ((clear_quote value.toList (x := ';') (by decide)).append stop))
    simpa [Row.text, Row.lead, Row.trail] using whole

end ConfigScript
