import ConfigScript.Proofs.Parsing.Balanced

/-!
# What is read closes its brackets

Whatever the parser accepts as a statement closes the brackets that it opens, and no others; the rest of a
block closes one more, and the rest of a skipped statement as many as are open (`closesAll`). Brackets are
only counted here (`Closing`), for a skipped statement does not ask of which kind they are. So all the
tokens that are accepted together close the brackets that they open (`closing_of_statements`).
-/

namespace ConfigScript.Script

/-! ### Counting brackets -/

/-- Tokens that close `n` brackets in front of them and all that they open themselves, with brackets of
any kind. -/
inductive Closing : Nat → List Token → Prop
  | nil : Closing 0 []
  | opens {n : Nat} {o : Token} {ts : List Token} (opens : opensBracket o) (more : Closing (n + 1) ts) :
    Closing n (o :: ts)
  | closes {n : Nat} {x : Token} {ts : List Token} (closes : closesBracket x) (more : Closing n ts) :
    Closing (n + 1) (x :: ts)
  | plain {n : Nat} {t : Token} {ts : List Token} (opens : opensBracket t = false)
    (closes : closesBracket t = false) (more : Closing n ts) : Closing n (t :: ts)

namespace Closing

variable {m n : Nat} {t : Token} {ts us : List Token}

/-- Behind an opening bracket one more is to be closed. -/
theorem of_opens (h : Closing n (t :: ts)) (opens : opensBracket t) : Closing (n + 1) ts := by
  cases h with
  | opens _ more => exact more
  | closes closes =>
    rw [opensBracket_of_closesBracket closes] at opens
    cases opens
  | plain other =>
    rw [other] at opens
    cases opens

/-- A closing bracket closes one in front of it. -/
theorem of_closes (h : Closing n (t :: ts)) (closes : closesBracket t) :
    ∃ m, n = m + 1 ∧ Closing m ts := by
  cases h with
  | opens opens =>
    rw [opensBracket_of_closesBracket closes] at opens
    cases opens
  | closes _ more => exact ⟨_, rfl, more⟩
  | plain _ other =>
    rw [other] at closes
    cases closes

/-- A token that is no bracket leaves the number to be closed. -/
theorem of_plain (h : Closing n (t :: ts)) (opens : opensBracket t = false)
    (closes : closesBracket t = false) : Closing n ts := by
  cases h with
  | opens other =>
    rw [opens] at other
    cases other
  | closes other =>
    rw [closes] at other
    cases other
  | plain _ _ more => exact more

/-- Tokens behind others close what both of them close. -/
theorem append (h : Closing n ts) (h' : Closing m us) : Closing (n + m) (ts ++ us) := by
  induction h with
  | nil => rwa [Nat.zero_add]
  | opens opens _ ih => exact .opens opens (by rwa [Nat.add_right_comm] at ih)
  | closes closes _ ih =>
    rw [Nat.add_right_comm]
    exact .closes closes ih
  | plain opens closes _ ih => exact .plain opens closes ih

/-- Behind tokens that close `n` brackets the others are still open. -/
theorem behind (h : Closing n ts) (whole : Closing (n + m) (ts ++ us)) : Closing m us := by
  induction h with
  | nil => rwa [Nat.zero_add] at whole
  | opens opens _ ih =>
    refine ih ?_
    rw [Nat.add_right_comm]
    exact whole.of_opens opens
  | @closes n _ _ closes _ ih =>
    obtain ⟨k, same, more⟩ := whole.of_closes closes
    obtain rfl : n + m = k := by omega
    exact ih more
  | plain opens closes _ ih => exact ih (whole.of_plain opens closes)

end Closing

/-- Balanced tokens close no bracket in front of them. -/
theorem Balanced.closing {ts : List Token} (h : Balanced ts) : Closing 0 ts := by
  induction h with
  | nil => exact .nil
  | plain _ opens closes _ ih => exact .plain opens closes ih
  | nest opens closes _ _ ih ih' => exact .opens opens (ih.append (.closes closes ih'))

/-! ### What is read closes brackets -/

variable {c d e : Cursor} {t o x : Token}

/-- What is read from `c` to `next` closes `n` of the brackets in front of it, and its own. -/
def ClosesUpTo (n : Nat) (c next : Cursor) : Prop := ∃ us, Took c us next ∧ Closing n us

namespace ClosesUpTo

variable {n : Nat}

theorem refl (c : Cursor) : ClosesUpTo 0 c c := ⟨[], .refl c, .nil⟩

/-- What closes only its own brackets leaves those that the next is to close. -/
theorem trans (h : ClosesUpTo 0 c d) (h' : ClosesUpTo n d e) : ClosesUpTo n c e := by
  obtain ⟨us, took, closing⟩ := h
  obtain ⟨vs, took', closing'⟩ := h'
  exact ⟨_, took.trans took', Nat.zero_add n ▸ closing.append closing'⟩

/-- An opening bracket is closed by what follows it. -/
theorem opens (took : Took c [o] d) (opens : opensBracket o) (h : ClosesUpTo (n + 1) d e) :
    ClosesUpTo n c e := by
  obtain ⟨us, took', closing⟩ := h
  exact ⟨_, took.cons took', .opens opens closing⟩

/-- A closing bracket closes one in front of it. -/
theorem closes (took : Took c [x] d) (closes : closesBracket x) (h : ClosesUpTo n d e) :
    ClosesUpTo (n + 1) c e := by
  obtain ⟨us, took', closing⟩ := h
  exact ⟨_, took.cons took', .closes closes closing⟩

/-- A token that is no bracket closes none. -/
theorem plain (took : Took c [t] d) (opens : opensBracket t = false) (closes : closesBracket t = false)
    (h : ClosesUpTo n d e) : ClosesUpTo n c e := by
  obtain ⟨us, took', closing⟩ := h
  exact ⟨_, took.cons took', .plain opens closes closing⟩

/-- As many brackets are open behind what was read as in front of it. -/
theorem closing (h : ClosesUpTo 0 c d) (open' : Closing n c.rest) : Closing n d.rest := by
  obtain ⟨us, took, closing⟩ := h
  rw [took.rest, ← Nat.zero_add n] at open'
  exact closing.behind open'

end ClosesUpTo

theorem Balances.closes (h : Balances c d) : ClosesUpTo 0 c d := by
  obtain ⟨us, took, balanced⟩ := h
  exact ⟨us, took, balanced.closing⟩

/-! ### Skipping -/

/-- Skipping closes all brackets that are open. -/
theorem closes_of_skipRest {c : Cursor} {opened : List Token} {r : Peeked Unit c.size}
    (h : skipRest opened c = .ok r) : ClosesUpTo opened.length c r.next := by
  cases skipping_of_skipRest h with
  | stays done _ behind =>
    rw [done, behind]
    exact .refl c
  | semicolon done took kind =>
    rw [done]
    exact .plain took (by simp [opensBracket, Token.isPunct, kind])
      (by simp [closesBracket, Token.isPunct, kind]) (.refl _)
  | block last took closes =>
    rw [last]
    exact .closes took closes (.refl _)
  | opening took lt opens rest behind =>
    rw [behind]
    exact .opens took opens (closes_of_skipRest rest)
  | closing inner took lt closes rest behind =>
    rw [inner, behind]
    exact .closes took closes (closes_of_skipRest rest)
  | plain took lt opens closes _ rest behind =>
    rw [behind]
    exact .plain took opens closes (closes_of_skipRest rest)
termination_by c.size

/-- A skipped statement closes its own brackets and no others. -/
theorem closes_of_skipped {r : Read Stmt c.size} (h : opaqueStatement c = .ok r) :
    ClosesUpTo 0 c r.next := by
  cases passed_of_opaqueStatement h with
  | mk took closes more =>
    have behind := closes_of_skipRest more
    split at behind
    · rename_i opens
      exact .opens took opens behind
    · rename_i opens
      exact .plain took (Bool.eq_false_iff.2 opens) closes behind

/-! ### Statements -/

/-- With fewer than `n` tokens ahead, what the parser of statements accepts closes its brackets; a block
closes the brace in front of it, too. -/
structure ClosesAll (n : Nat) : Prop where
  branch : ∀ {c : Cursor} {r : Read (Branch × Span) c.size}, c.size < n → branch c = .ok r →
    ClosesUpTo 0 c r.next
  alternatives : ∀ {c : Cursor} {stop : Span} {r : Peeked Alternatives c.size}, c.size < n →
    alternatives stop c = .ok r → ClosesUpTo 0 c r.next
  body : ∀ {c : Cursor} {r : Peeked (List Stmt × Span) c.size}, c.size < n → body c = .ok r →
    ClosesUpTo 0 c r.next
  block : ∀ {c : Cursor} {r : Read (List Stmt × Span) c.size}, c.size < n → block c = .ok r →
    ClosesUpTo 1 c r.next

namespace ClosesAll

/-- What holds below a bound holds below each smaller one. -/
theorem mono {m n : Nat} (h : ClosesAll n) (le : m ≤ n) : ClosesAll m where
  branch lt := h.branch (Nat.lt_of_lt_of_le lt le)
  alternatives lt := h.alternatives (Nat.lt_of_lt_of_le lt le)
  body lt := h.body (Nat.lt_of_lt_of_le lt le)
  block lt := h.block (Nat.lt_of_lt_of_le lt le)

theorem of_words {us : List Token} (took : Took c us d) (words : ∀ u ∈ us, ∃ n, u.kind = .ident n) :
    ClosesUpTo 0 c d := Balances.closes ⟨us, took, balanced_of_words words⟩

theorem of_word {t : Token} {name : String} (took : Took c [t] d) (word : t.kind = .ident name) :
    ClosesUpTo 0 c d := of_words took (List.forall_mem_singleton.2 ⟨name, word⟩)

/-- A branch closes its own brackets. -/
theorem of_branch (ih : ClosesAll c.size) {r : Read (Branch × Span) c.size} (h : Script.branch c = .ok r) :
    ClosesUpTo 0 c r.next := by
  cases branched_of_branch h with
  | mk took opens inner took' closes lt inside =>
    have group := Balances.group took (opensBracket_of_kind (.inl opens)) (balances_of_expression inner)
      took' (closesBracket_of_kind (.inl closes))
    exact group.closes.trans (ih.body lt inside)

/-- The alternatives of a conditional close their own brackets. -/
theorem of_alternatives (ih : ClosesAll c.size) {stop : Span} {r : Peeked Alternatives c.size}
    (h : Script.alternatives stop c = .ok r) : ClosesUpTo 0 c r.next := by
  cases continued_of_alternatives h with
  | nothing => exact .refl c
  | @branch us d next more r took _ words lt one others value behind =>
    rw [behind]
    have rest := ih.alternatives (Nat.lt_trans next.shorter lt) others
    exact (of_words took words).trans ((ih.branch lt one).trans rest)
  | @otherwise t run n took word inside =>
    exact (of_word took word).trans (ih.body t.shorter inside)

/-- A statement with a grammar closes its own brackets. -/
theorem of_structured (ih : ClosesAll c.size) {r : Read Stmt c.size} (h : structured c = .ok r) :
    ClosesUpTo 0 c r.next := by
  cases structured_cases h with
  | @conditional name t first more took kind one others =>
    have rest := ih.alternatives (Nat.lt_trans first.shorter t.shorter) others
    exact (of_word took kind).trans ((ih.branch t.shorter one).trans rest)
  | word took kind worded =>
    exact (of_word took kind).trans (worded.forms took.last.symm).balances.closes
  | assignment h =>
    obtain ⟨_, -, forms⟩ := forms_of_assignment h
    exact forms.balances.closes
  | expression _ h =>
    obtain ⟨_, -, forms⟩ := forms_of_expressionStatement h
    exact forms.balances.closes

/-- A statement closes its own brackets, also one that is a tag or a semicolon, or is skipped. -/
theorem of_statement (ih : ClosesAll c.size) {r : Read (Option Stmt) c.size} (h : statement c = .ok r) :
    ClosesUpTo 0 c r.next := by
  cases stated_of_statement h with
  | @separator t took kind =>
    have plain : opensBracket t.value = false ∧ closesBracket t.value = false := by
      simp only [List.mem_cons, List.not_mem_nil, or_false] at kind
      rcases kind with kind | kind | kind <;> simp [opensBracket, closesBracket, Token.isPunct, kind]
    exact .plain took plain.1 plain.2 (.refl _)
  | html took kind =>
    exact .plain took (by simp [opensBracket, Token.isPunct, kind])
      (by simp [closesBracket, Token.isPunct, kind]) (.refl _)
  | @block t run took opens inside =>
    exact .opens took (by simp [opensBracket, Token.isPunct, opens]) (ih.block t.shorter inside)
  | grammar result => exact of_structured ih result
  | skipped head result => exact closes_of_skipped result

/-- A body closes its own brackets. -/
theorem of_body (ih : ClosesAll c.size) {r : Peeked (List Stmt × Span) c.size}
    (h : Script.body c = .ok r) : ClosesUpTo 0 c r.next := by
  cases bodied_of_body h with
  | @block brace run took opens inside =>
    exact .opens took (by simp [opensBracket, Token.isPunct, opens]) (ih.block brace.shorter inside)
  | nothing => exact .refl c
  | single result => exact of_statement ih result

/-- The rest of a block closes the brace in front of it. -/
theorem of_block (ih : ClosesAll c.size) {r : Read (List Stmt × Span) c.size}
    (h : Script.block c = .ok r) : ClosesUpTo 1 c r.next := by
  cases braced_of_block h with
  | close took closes =>
    exact .closes took (by simp [closesBracket, Token.isPunct, closes]) (.refl _)
  | @more s rest result others =>
    have closed : ClosesUpTo 1 s.next rest.next := ih.block s.shorter others
    exact (of_statement ih result).trans closed

end ClosesAll

/-- What is read closes brackets, however many tokens are ahead. By induction on their number, as a
statement calls the parser for what is inside it. -/
theorem closesAll (n : Nat) : ClosesAll n := by
  induction n with
  | zero =>
    exact ⟨fun lt ↦ absurd lt (Nat.not_lt_zero _), fun lt ↦ absurd lt (Nat.not_lt_zero _),
      fun lt ↦ absurd lt (Nat.not_lt_zero _), fun lt ↦ absurd lt (Nat.not_lt_zero _)⟩
  | succ n ih =>
    have below : ∀ {c : Cursor}, c.size < n + 1 → ClosesAll c.size := fun lt ↦
      ih.mono (Nat.le_of_lt_succ lt)
    exact {
      branch := fun lt h ↦ (below lt).of_branch h
      alternatives := fun lt h ↦ (below lt).of_alternatives h
      body := fun lt h ↦ (below lt).of_body h
      block := fun lt h ↦ (below lt).of_block h }

theorem closes_of_branch {r : Read (Branch × Span) c.size} (h : branch c = .ok r) : ClosesUpTo 0 c r.next :=
  (closesAll _).of_branch h

theorem closes_of_statement {r : Read (Option Stmt) c.size} (h : statement c = .ok r) :
    ClosesUpTo 0 c r.next := (closesAll _).of_statement h

/-- All statements together close the brackets that they open. -/
theorem closing_of_statements {c : Cursor} {ss : List Stmt} (h : statements c = .ok ss) :
    Closing 0 c.rest := by
  rw [statements] at h
  split at h
  · rename_i none
    rw [List.isEmpty_iff.1 none]
    exact .nil
  · obtain ⟨r, one, h⟩ := exists_of_bind h
    obtain ⟨more, others, -⟩ := exists_of_bind h
    have shorter := r.shorter
    obtain ⟨us, took, closing⟩ := closes_of_statement one
    rw [took.rest]
    exact closing.append (closing_of_statements others)
termination_by c.size

end ConfigScript.Script
