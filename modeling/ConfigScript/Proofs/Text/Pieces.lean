import ConfigScript.Text.Search

/-!
# Pieces of a text

Cutting a text at a separator gives pieces without separators, and one that begins where the text does.
Cutting undoes joining as joining undoes cutting (`Text.splitOn_join`), so a list of such pieces and the
text in which they are joined say the same.
-/

namespace ConfigScript.Text

variable {sep : Char}

/-- The pieces of a text hold characters of the text, but no separator. -/
theorem mem_of_mem_splitOn {cs piece : List Char} (h : piece ∈ splitOn sep cs) {c : Char}
    (hc : c ∈ piece) : c ∈ cs ∧ c ≠ sep := by
  induction cs generalizing piece with
  | nil =>
    rw [splitOn, List.mem_singleton] at h
    subst h
    cases hc
  | cons d cs ih =>
    rw [splitOn] at h
    split at h
    · rcases List.mem_cons.1 h with rfl | h
      · cases hc
      · exact ⟨List.mem_cons_of_mem d (ih h hc).1, (ih h hc).2⟩
    · rename_i hd
      have ne : d ≠ sep := fun e ↦ hd (by simp [e])
      split at h
      · rw [List.mem_singleton] at h
        subst h
        rw [List.mem_singleton] at hc
        exact ⟨hc ▸ List.mem_cons_self, hc ▸ ne⟩
      · rename_i first rest heq
        rcases List.mem_cons.1 h with rfl | h
        · rcases List.mem_cons.1 hc with rfl | hc
          · exact ⟨List.mem_cons_self, ne⟩
          · have := ih (heq ▸ List.mem_cons_self) hc
            exact ⟨List.mem_cons_of_mem d this.1, this.2⟩
        · have := ih (heq ▸ List.mem_cons_of_mem first h) hc
          exact ⟨List.mem_cons_of_mem d this.1, this.2⟩

/-- A text without separators is one piece. -/
theorem splitOn_of_not_mem {cs : List Char} (h : sep ∉ cs) : splitOn sep cs = [cs] := by
  induction cs with
  | nil => rfl
  | cons c cs ih =>
    rw [List.mem_cons, not_or] at h
    have ne : (c == sep) = false := beq_eq_false_iff_ne.2 (Ne.symm h.1)
    simp [splitOn, ne, ih h.2]

/-- Cutting where a separator stands. -/
theorem splitOn_append {as : List Char} (h : sep ∉ as) (bs : List Char) :
    splitOn sep (as ++ sep :: bs) = as :: splitOn sep bs := by
  induction as with
  | nil => simp [splitOn]
  | cons a as ih =>
    rw [List.mem_cons, not_or] at h
    have ne : (a == sep) = false := beq_eq_false_iff_ne.2 (Ne.symm h.1)
    simp [splitOn, ne, ih h.2]

/-- The last piece is what follows the last separator. -/
theorem exists_splitOn_concat (sep : Char) (cs : List Char) :
    ∃ before last, splitOn sep cs = before ++ [last] ∧
      (last = [] → cs = [] ∨ cs.getLast? = some sep) := by
  induction cs with
  | nil => exact ⟨[], [], rfl, fun _ ↦ .inl rfl⟩
  | cons c cs ih =>
    obtain ⟨before, last, heq, hlast⟩ := ih
    rw [splitOn, heq]
    split
    · rename_i hc
      refine ⟨[] :: before, last, rfl, fun hl ↦ .inr ?_⟩
      rcases hlast hl with rfl | h
      · simpa using hc
      · cases cs with
        | nil => cases h
        | cons d cs => simpa [List.getLast?_cons_cons] using h
    · cases before with
      | nil => exact ⟨[], c :: last, rfl, fun hl ↦ by cases hl⟩
      | cons first before =>
        refine ⟨(c :: first) :: before, last, rfl, fun hl ↦ .inr ?_⟩
        rcases hlast hl with rfl | h
        · simp [splitOn] at heq
        · cases cs with
          | nil => cases h
          | cons d cs => simpa [List.getLast?_cons_cons] using h

theorem splitOn_ne_nil (sep : Char) (cs : List Char) : splitOn sep cs ≠ [] := by
  intro none
  obtain ⟨before, last, pieces, -⟩ := exists_splitOn_concat sep cs
  simp [none] at pieces

/-- Joined pieces: a separator follows the first one, if it is not the only one. -/
theorem join_cons_cons (sep : Char) (piece next : List Char) (pieces : List (List Char)) :
    join [sep] (piece :: next :: pieces) = piece ++ sep :: join [sep] (next :: pieces) := by
  simp [join]

/-- Each but the last one has a separator behind it. -/
theorem join_concat (sep : List Char) (before : List (List Char)) (last : List Char) :
    join sep (before ++ [last]) = before.flatMap (· ++ sep) ++ last := by
  induction before with
  | nil => rfl
  | cons piece before ih =>
    rw [List.cons_append, join, ih]
    · simp
    · simp

/-- The last piece stands behind a separator, if it is not the only one. -/
theorem exists_append_of_splitOn {cs last : List Char} {before : List (List Char)}
    (h : splitOn sep cs = before ++ [last]) (more : before ≠ []) : ∃ x, cs = x ++ sep :: last := by
  obtain ⟨front, piece, rfl⟩ := (List.eq_nil_or_concat before).resolve_left more
  rw [← join_splitOn sep cs, h, join_concat, List.concat_eq_append]
  exact ⟨front.flatMap (· ++ [sep]) ++ piece, by simp⟩

/-- Cutting at the separator undoes joining. -/
theorem splitOn_join {pieces : List (List Char)} (plain : ∀ piece ∈ pieces, sep ∉ piece)
    (some : pieces ≠ []) : splitOn sep (join [sep] pieces) = pieces := by
  induction pieces with
  | nil => exact absurd rfl some
  | cons piece pieces ih =>
    have here : sep ∉ piece := plain piece List.mem_cons_self
    cases pieces with
    | nil => exact splitOn_of_not_mem here
    | cons next pieces =>
      have more := ih (fun p hp ↦ plain p (List.mem_cons_of_mem piece hp)) (List.cons_ne_nil _ _)
      rw [join_cons_cons, splitOn_append here, more]

end ConfigScript.Text
