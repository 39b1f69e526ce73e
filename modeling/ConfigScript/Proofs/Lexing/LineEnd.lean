import ConfigScript.Proofs.Lexing.Layout

/-!
# Texts that end with a line break

A text whose last token is a semicolon and that ends with a line break is cut into the same tokens whatever
follows it (`Lexes.append_line`): behind the semicolon there are only gaps, no comment takes the last line
break with it, and the semicolon itself cannot go on.
-/

namespace ConfigScript.Script

/-- The last part of a gap in a text that ends with a line break is this line break. -/
theorem Skips.eq_nil_of_line {c : Char} {r cs : List Char} (skips : Skips c r [])
    (line : c :: r = cs ++ ['\n']) : cs = [] := by
  generalize rest : ([] : List Char) = s at skips
  cases skips with
  | blank =>
    subst rest
    exact (List.append_inj' (show [] ++ [c] = cs ++ ['\n'] from line) rfl).1.symm
  | line start =>
    obtain ⟨body, same, feed, -⟩ := exists_afterLineComment r
    rw [← rest, List.append_nil] at same
    subst same
    have mem : '\n' ∈ c :: r := by simp [line]
    rcases List.mem_cons.1 mem with rfl | mem
    · rcases start with mark | ⟨mark, -⟩ <;> cases mark
    · exact absurd mem feed
  | block slash text closed =>
    subst rest text
    obtain ⟨body, rfl, -⟩ := exists_afterBlockComment closed
    have split : (c :: '*' :: (body ++ ['*'])) ++ ['/'] = cs ++ ['\n'] := by simpa using line
    cases (List.append_inj' split rfl).2

/-- A piece that is a semicolon or has no tokens is a piece of the script, without a gap behind it. -/
theorem piece_of_semicolon {m : Mode} {c : Char} {r : List Char} {pc : Piece}
    (h : piece m c r = .ok pc) (mode : pc.kinds = [] → m = .script)
    (last : ∀ k ∈ pc.kinds.getLast?, k = .punct .semicolon) :
    m = .script ∧ pc.mode = .script ∧ pc.afterText = pc.rest ∧
      (pc.kinds = [.punct .semicolon] ∨ pc.kinds = [] ∧ Skips c r pc.rest) := by
  rcases piece_kinds h with none | ⟨k, one⟩ | echo
  · obtain rfl := mode none
    rcases scriptPiece_kinds h with ⟨k, rest, rfl, -⟩ | ⟨rest, rfl, skips⟩ | ⟨tag, -⟩
    · cases none
    · exact ⟨rfl, rfl, rfl, .inr ⟨rfl, skips⟩⟩
    · rw [tag] at none
      cases none
  · obtain rfl := last k (by rw [one]; rfl)
    obtain ⟨script, same⟩ := piece_script h one rfl
    rw [same]
    exact ⟨script, rfl, rfl, .inl rfl⟩
  · cases last (.ident "echo") (by rw [echo]; rfl)

namespace Lexes

variable {m m' : Mode} {p : Place} {cs : List Char} {ts : List Token}

/-- The line break behind the last semicolon is a gap of its own. -/
theorem before_line (h : Lexes [] m p (cs ++ ['\n']) ts m') (mode : ts = [] → m = .script)
    (last : ∀ t ∈ ts.getLast?, t.kind = .punct .semicolon) : Lexes ['\n'] m p cs ts .script := by
  generalize line : cs ++ ['\n'] = text at h
  induction h generalizing cs with
  | done => cases cs <;> cases line
  | @piece m m₁ m' p c w g r kinds ts here more ih =>
    have own (none : ts = []) : m = .script ∧ m₁ = .script ∧ g ++ (r ++ []) = r ++ [] ∧
        (kinds = [.punct .semicolon] ∨ kinds = [] ∧ Skips c (w ++ (g ++ (r ++ []))) (r ++ [])) := by
      subst none
      refine piece_of_semicolon here (fun none ↦ mode ?_) fun k hk ↦ ?_
      · rw [show kinds = [] from none]
        rfl
      · rw [List.append_nil, List.getLast?_map] at last
        exact last _ (by rw [show kinds.getLast? = some k from hk]; rfl)
    rcases List.eq_nil_or_concat r with rfl | ⟨r, d, rfl⟩
    · cases more
      obtain ⟨rfl, rfl, gap, rfl | ⟨rfl, skips⟩⟩ := own rfl
      -- The semicolon is no line break.
      · obtain rfl := List.append_left_eq_self.1 gap
        have semicolon : c :: w = [';'] := (Fits.text_punct ⟨c, w, rfl, here⟩).1
        rw [List.append_nil, List.append_nil, semicolon] at line
        cases (List.append_inj' (show cs ++ ['\n'] = [] ++ [';'] from line) rfl).2
      · obtain rfl := skips.eq_nil_of_line (by simpa using line.symm)
        exact .done
    · rw [List.concat_eq_append] at line here ih
      have split : cs ++ ['\n'] = (c :: (w ++ (g ++ r))) ++ [d] := by simpa using line
      obtain ⟨rfl, feed⟩ := List.append_inj' split rfl
      obtain rfl := List.singleton_inj.1 feed
      refine .piece (by simpa using here) (ih (fun none ↦ (own none).2.1) (fun t ht ↦ last t ?_) rfl)
      rw [List.getLast?_append, Option.mem_def.1 ht]
      rfl

/-- Whatever follows it, a text with a semicolon as its last token that ends with a line break is cut into
the same tokens. -/
theorem append_line (h : Lexes [] m p (cs ++ ['\n']) ts m') (some : ts ≠ [])
    (last : ∀ t ∈ ts.getLast?, t.kind = .punct .semicolon) (rest : List Char) :
    Lexes rest m p (cs ++ ['\n']) ts .script := by
  have front := h.before_line (fun none ↦ absurd none some) last
  have whole := (front.exchange rfl rest).append (Gap.blank (c := '\n') rfl rest _)
  rwa [List.append_nil] at whole

end Lexes

end ConfigScript.Script
