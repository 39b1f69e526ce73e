import ConfigScript.Proofs.Parsing.Depth
import ConfigScript.Script.Parser

/-!
# Scripts with properly nested brackets

Tokens whose brackets are properly nested are always accepted (`exists_parse`). A statement that the
grammar does not know is skipped by counting brackets, which succeeds as long as every bracket that was
opened is closed (`exists_skipRest`). What the parser accepts as a statement leaves the brackets around
it as they were (`leaves_of_statement`), so that each statement begins at the depth of its block, where a
closing bracket is the end of the block.
-/

namespace ConfigScript.Script

/-! ### Nesting -/

/-- The bracket that closes an opening one. -/
def closer? (t : Token) : Option Punct :=
  match t.kind with
  | .punct .openParen => some .closeParen
  | .punct .openBracket => some .closeBracket
  | .punct .openBrace => some .closeBrace
  | _ => none

/-- Whether the brackets of tokens are properly nested, where the brackets that were opened in front of
the tokens are closed by those awaited, the innermost first. -/
def isNested : List Punct → List Token → Bool
  | awaited, [] => awaited.isEmpty
  | awaited, t :: ts =>
    match closer? t with
    | some p => isNested (p :: awaited) ts
    | none =>
      if closesBracket t then awaited.head?.any t.isPunct && isNested awaited.tail ts
      else isNested awaited ts

section Nesting

variable {awaited : List Punct} {t : Token} {ts us rest : List Token}

theorem closer?_eq_none (h : opensBracket t = false) : closer? t = none := by
  unfold closer?
  split <;> simp_all [opensBracket, Token.isPunct]

/-- An opening bracket adds the one that closes it to those awaited. -/
theorem isNested_opens (opens : opensBracket t) :
    ∃ p, isNested awaited (t :: ts) = isNested (p :: awaited) ts := by
  simp only [opensBracket, Token.isPunct, Bool.or_eq_true, beq_iff_eq] at opens
  rcases opens with (h | h) | h <;> exact ⟨_, by rw [isNested, closer?, h]⟩

/-- A closing bracket is the awaited one. -/
theorem awaited_of_isNested (closes : closesBracket t) (h : isNested awaited (t :: ts)) :
    ∃ p outer, awaited = p :: outer ∧ t.kind = .punct p ∧ isNested outer ts := by
  rw [isNested, closer?_eq_none (opensBracket_of_closesBracket closes)] at h
  dsimp only at h
  rw [if_pos closes, Bool.and_eq_true] at h
  cases awaited with
  | nil => cases h.1
  | cons p outer => exact ⟨p, outer, rfl, beq_iff_eq.1 h.1, h.2⟩

/-- A token that is no bracket leaves the brackets awaited as they were. -/
theorem isNested_plain (opens : opensBracket t = false) (closes : closesBracket t = false) :
    isNested awaited (t :: ts) = isNested awaited ts := by
  rw [isNested, closer?_eq_none opens]
  dsimp only
  rw [if_neg (Bool.eq_false_iff.1 closes)]

/-- Tokens that close `n` brackets close the innermost ones of those that are open. -/
theorem Closing.isNested_rest {n : Nat} (h : Closing n us) :
    ∀ {inner awaited : List Punct} {rest : List Token}, inner.length = n →
      isNested (inner ++ awaited) (us ++ rest) → isNested awaited rest := by
  induction h with
  | nil =>
    intro inner awaited rest length nested
    rwa [List.eq_nil_of_length_eq_zero length] at nested
  | @opens n o ts opens _ ih =>
    intro inner awaited rest length nested
    obtain ⟨p, same⟩ := @isNested_opens (inner ++ awaited) o (ts ++ rest) opens
    exact @ih (p :: inner) awaited rest (congrArg (· + 1) length) (same ▸ nested)
  | closes closes _ ih =>
    intro inner awaited rest length nested
    obtain ⟨p, outer, stack, -, behind⟩ := awaited_of_isNested closes nested
    cases inner with
    | nil => cases length
    | cons q inner =>
      obtain ⟨rfl, rfl⟩ := List.cons.inj stack
      exact ih (Nat.succ.inj length) behind
  | plain opens closes _ ih =>
    intro inner awaited rest length nested
    rw [List.cons_append, isNested_plain opens closes] at nested
    exact ih length nested

end Nesting

/-! ### What is read leaves the brackets around it -/

variable {c d e : Cursor} {t o x : Token} {awaited : List Punct}

/-- What is read from `c` to `next` closes `n` of the brackets around it and leaves the others. -/
def Leaves (n : Nat) (c next : Cursor) : Prop :=
  ∀ inner awaited : List Punct, inner.length = n → isNested (inner ++ awaited) c.rest →
    isNested awaited next.rest

theorem ClosesUpTo.leaves {n : Nat} (h : ClosesUpTo n c d) : Leaves n c d := fun inner awaited length nested ↦ by
  obtain ⟨us, took, closing⟩ := h
  exact closing.isNested_rest length (took.rest ▸ nested)

theorem leaves_of_statement {r : Read (Option Stmt) c.size} (h : statement c = .ok r) :
    Leaves 0 c r.next := (closes_of_statement h).leaves

/-! ### Skipping -/

/-- Skipping succeeds where every open bracket is closed. -/
theorem exists_skipRest {c : Cursor} {opened : List Token} {awaited : List Punct}
    (inner : List Punct) (length : inner.length = opened.length)
    (nested : isNested (inner ++ awaited) c.rest) : ∃ r, skipRest opened c = .ok r := by
  rw [skipRest]
  split
  · rename_i e read
    obtain ⟨s, ts⟩ := c
    cases ts with
    | cons t ts => cases read
    | nil =>
      obtain ⟨rfl, -⟩ := List.append_eq_nil_iff.1 (List.isEmpty_iff.1 nested)
      rw [List.eq_nil_of_length_eq_zero length.symm]
      exact ⟨_, rfl⟩
  rename_i t read
  have took := took_of_advance read
  have lt := t.shorter
  -- Skipping goes on behind the token with the brackets that are open then.
  have go : ∀ {more : List Token} (inner : List Punct), inner.length = more.length →
      isNested (inner ++ awaited) t.next.rest →
      ∃ r, (skipRest more t.next).map (fun rest ↦ (t.andMaybe rest).peeked) = .ok r := by
    intro more inner length nested
    obtain ⟨r, skipped⟩ := exists_skipRest inner length nested
    exact ⟨_, by rw [skipped]; rfl⟩
  rw [took.rest] at nested
  dsimp only
  split
  · rename_i opens
    obtain ⟨p, same⟩ := isNested_opens (t := t.value) opens
    exact go (p :: inner) (congrArg (· + 1) length) (same ▸ nested)
  rename_i opens
  rw [Bool.not_eq_true] at opens
  split
  · split
    · exact ⟨_, rfl⟩
    split
    · exact ⟨_, rfl⟩
    · rename_i stays
      rw [Bool.or_eq_true, not_or, Bool.not_eq_true] at stays
      exact go inner length ((isNested_plain opens stays.1).symm.trans nested)
  · split
    · rename_i closes
      rw [Bool.not_eq_true'] at closes
      exact go inner length ((isNested_plain opens closes).symm.trans nested)
    rename_i closes
    rw [Bool.not_eq_true', Bool.not_eq_false] at closes
    split
    · exact ⟨_, rfl⟩
    -- The bracket that closes is the innermost one that is awaited.
    · obtain ⟨p, outer, stack, -, behind⟩ := awaited_of_isNested closes nested
      cases inner with
      | nil => cases length
      | cons q inner =>
        obtain ⟨rfl, rfl⟩ := List.cons.inj stack
        exact go inner (Nat.succ.inj length) behind
termination_by c.size

/-- A statement can be skipped unless it begins with a closing bracket. -/
theorem exists_opaqueStatement {r : Read Token c.size} (read : c.advance = .ok r)
    (closes : closesBracket r.value = false) (nested : isNested awaited c.rest) :
    ∃ r, opaqueStatement c = .ok r := by
  rw [(took_of_advance read).rest] at nested
  have skips : ∃ q, skipRest (if opensBracket r.value then [r.value] else []) r.next = .ok q := by
    split
    · rename_i opens
      obtain ⟨p, same⟩ := isNested_opens (t := r.value) opens
      exact exists_skipRest [p] rfl (same ▸ nested)
    · rename_i opens
      exact exists_skipRest [] rfl
        ((isNested_plain (Bool.eq_false_iff.2 opens) closes).symm.trans nested)
  obtain ⟨q, skipped⟩ := skips
  rw [opaqueStatement, read]
  simp only [bind, Except.bind, closes, Bool.false_eq_true, if_false, skipped]
  exact ⟨_, rfl⟩

/-! ### Nested tokens are accepted -/

mutual

/-- A statement is accepted unless it begins with a closing bracket. -/
theorem exists_statement {c : Cursor} {awaited : List Punct} {t : Read Token c.size}
    (read : c.advance = .ok t) (closes : closesBracket t.value = false)
    (nested : isNested awaited c.rest) : ∃ r, statement c = .ok r := by
  rw [statement, read]
  simp only [bind, Except.bind]
  split
  · exact ⟨_, rfl⟩
  · exact ⟨_, rfl⟩
  · exact ⟨_, rfl⟩
  · exact ⟨_, rfl⟩
  · rename_i kind
    have inside : isNested (.closeBrace :: awaited) t.next.rest := by
      rw [(took_of_advance read).rest] at nested
      simpa [isNested, closer?, kind] using nested
    have lt := t.shorter
    obtain ⟨r, block⟩ := exists_block inside
    rw [block]
    exact ⟨_, rfl⟩
  · rename_i kind
    simp [closesBracket, Token.isPunct, kind] at closes
  · split
    · exact ⟨_, rfl⟩
    · obtain ⟨r, skipped⟩ := exists_opaqueStatement read closes nested
      rw [skipped]
      exact ⟨_, rfl⟩
termination_by 2 * c.size

/-- Statements up to the brace that closes them are accepted. -/
theorem exists_block {c : Cursor} {awaited : List Punct}
    (nested : isNested (.closeBrace :: awaited) c.rest) : ∃ r, block c = .ok r := by
  rw [block]
  split
  · exact ⟨_, rfl⟩
  rename_i other
  cases read : c.advance with
  | error e =>
    obtain ⟨s, ts⟩ := c
    cases ts with
    | nil => cases nested
    | cons t ts => cases read
  | ok t =>
    have took := took_of_advance read
    have closes : closesBracket t.value = false := by
      rw [Bool.eq_false_iff]
      intro closes
      rw [took.rest] at nested
      obtain ⟨p, outer, stack, kind, -⟩ := awaited_of_isNested closes nested
      obtain ⟨rfl, -⟩ := List.cons.inj stack
      obtain ⟨s, _ | ⟨u, us⟩⟩ := c
      · cases read
      obtain rfl := Except.ok.inj read
      obtain ⟨_, here⟩ := Cursor.punct?_of_kind (s := s) (r := us) kind
      rw [here] at other
      cases other
    obtain ⟨s, first⟩ := exists_statement read closes nested
    have behind := leaves_of_statement first [] (.closeBrace :: awaited) rfl nested
    have lt := s.shorter
    obtain ⟨r, more⟩ := exists_block behind
    simp only [bind, Except.bind, first, more]
    exact ⟨_, rfl⟩
termination_by 2 * c.size + 1

end

/-- Statements are always read where brackets are nested. By recursion on the number of tokens ahead: a
statement takes some of them and leaves the brackets around it. -/
theorem exists_statements {c : Cursor} (nested : isNested [] c.rest) :
    ∃ ss, statements c = .ok ss := by
  rw [statements]
  split
  · exact ⟨[], rfl⟩
  rename_i some
  cases read : c.advance with
  | error e =>
    obtain ⟨s, ts⟩ := c
    cases ts with
    | nil => exact absurd rfl some
    | cons t ts => cases read
  | ok t =>
    have closes : closesBracket t.value = false := by
      rw [Bool.eq_false_iff]
      intro closes
      rw [(took_of_advance read).rest] at nested
      obtain ⟨p, outer, stack, -⟩ := awaited_of_isNested closes nested
      cases stack
    obtain ⟨s, first⟩ := exists_statement read closes nested
    have behind := leaves_of_statement first [] [] rfl nested
    have lt := s.shorter
    obtain ⟨ss, more⟩ := exists_statements behind
    simp only [bind, Except.bind, first, more]
    exact ⟨_, rfl⟩
termination_by c.size

/-- A text is parsed if it is cut into tokens whose brackets are properly nested. -/
theorem exists_parse {source : List Char} {ts : List Token} (cut : tokenize source = .ok ts)
    (nested : isNested [] ts) : ∃ body, parse source = .ok body := by
  obtain ⟨body, parsed⟩ := exists_statements (c := ⟨default, ts⟩) nested
  refine ⟨body, ?_⟩
  rw [parse, cut]
  simp only [bind, Except.bind, parseTokens, parsed]
  rfl

/-- A class, a loop, a closure, a match and a condition before a closing tag. -/
theorem exists_parse_unknown : ∃ body, parse
    ("<?php class A \x7b function f() \x7b return [1]; \x7d \x7d " ++
      "foreach ($a as $b): $x = 1; endforeach; $f = function () use ($y) \x7b return 1; \x7d; " ++
      "if (x) ?> text <?php $z = match (1) \x7b default => 2 \x7d;").toList = .ok body := by
  obtain ⟨ts, cut, nested⟩ := exists_of_any (p := (isNested [] ·)) (show (tokenize
    ("<?php class A \x7b function f() \x7b return [1]; \x7d \x7d " ++
      "foreach ($a as $b): $x = 1; endforeach; $f = function () use ($y) \x7b return 1; \x7d; " ++
      "if (x) ?> text <?php $z = match (1) \x7b default => 2 \x7d;").toList).toOption.any _ by
        decide +kernel)
  exact exists_parse cut nested

end ConfigScript.Script
