import ConfigScript.Script.Fault
import ConfigScript.Script.Syntax

/-!
# Reading tokens

A cursor is a place in a list of tokens: the tokens ahead, and the span of the token just behind.
Every step of the parser yields a value and the cursor behind what was read. That fewer tokens lie
ahead of it is part of the result, which is what makes the parser's recursion end.

A parser that runs out of tokens reports the end of the file; where that is, the whole list of
tokens tells.
-/

namespace ConfigScript.Script

/-- A place in a list of tokens. -/
structure Cursor where
  /-- The span of the token read last. -/
  last : Span
  rest : List Token

/-- The number of tokens ahead. -/
def Cursor.size (c : Cursor) : Nat := c.rest.length

/-- Why tokens do not parse. -/
inductive Misfit where
  | atEnd
  | here (span : Span) (fault : Fault)

/-- What parsing yields. -/
abbrev Parse (α : Type) := Except Misfit α

/-- A value, and a cursor with fewer than `n` tokens ahead. -/
structure Read (α : Type) (n : Nat) where
  value : α
  next : Cursor
  shorter : next.size < n

/-- A value, and a cursor with no more than `n` tokens ahead. -/
abbrev Peeked (α : Type) (n : Nat) := Read α (n + 1)

/-- The same result, measured against more tokens. -/
def Read.widen {α : Type} {m n : Nat} (r : Read α m) (h : m ≤ n) : Read α n :=
  ⟨r.value, r.next, Nat.lt_of_lt_of_le r.shorter h⟩

/-- The same place with another value. -/
def Read.map {α β : Type} {n : Nat} (f : α → β) (r : Read α n) : Read β n :=
  ⟨f r.value, r.next, r.shorter⟩

/-- The same result, without saying that something was read. -/
def Read.peeked {α : Type} {n : Nat} (r : Read α n) : Peeked α n := r.widen (Nat.le_succ n)

/-- `r` and behind it `s`, whose value is kept. -/
def Read.andThen {α β : Type} {n : Nat} (r : Read α n) (s : Read β r.next.size) : Read β n :=
  ⟨s.value, s.next, Nat.lt_trans s.shorter r.shorter⟩

/-- `r` and behind it `s`, which may have read nothing; the value of `s` is kept. -/
def Read.andMaybe {α β : Type} {n : Nat} (r : Read α n) (s : Peeked β r.next.size) : Read β n :=
  ⟨s.value, s.next, Nat.lt_of_le_of_lt (Nat.le_of_lt_succ s.shorter) r.shorter⟩

namespace Read

variable {α β : Type} {n : Nat}

@[simp]
theorem value_map (f : α → β) (r : Read α n) : (r.map f).value = f r.value := rfl

@[simp]
theorem next_map (f : α → β) (r : Read α n) : (r.map f).next = r.next := rfl

@[simp]
theorem value_peeked (r : Read α n) : r.peeked.value = r.value := rfl

@[simp]
theorem next_peeked (r : Read α n) : r.peeked.next = r.next := rfl

@[simp]
theorem value_andThen (r : Read α n) (s : Read β r.next.size) : (r.andThen s).value = s.value := rfl

@[simp]
theorem next_andThen (r : Read α n) (s : Read β r.next.size) : (r.andThen s).next = s.next := rfl

@[simp]
theorem value_andMaybe (r : Read α n) (s : Peeked β r.next.size) :
    (r.andMaybe s).value = s.value := rfl

@[simp]
theorem next_andMaybe (r : Read α n) (s : Peeked β r.next.size) :
    (r.andMaybe s).next = s.next := rfl

end Read

namespace Cursor

theorem size_lt_of_rest {c : Cursor} {t : Token} {ts : List Token} (s : Span)
    (h : c.rest = t :: ts) : (Cursor.mk s ts).size < c.size := by
  simp [size, h]

/-- Read nothing. -/
def stay {α : Type} (c : Cursor) (value : α) : Peeked α c.size := ⟨value, c, Nat.lt_succ_self _⟩

/-- The token ahead. -/
def current? (c : Cursor) : Option Token := c.rest.head?

/-- Read one token. -/
def advance (c : Cursor) : Parse (Read Token c.size) :=
  match h : c.rest with
  | [] => .error .atEnd
  | t :: ts => .ok ⟨t, ⟨t.span, ts⟩, size_lt_of_rest _ h⟩

/-- Read the token ahead if it satisfies `p`. -/
def accept? (c : Cursor) (p : Token → Bool) : Option (Read Token c.size) :=
  match h : c.rest with
  | [] => none
  | t :: ts => if p t then some ⟨t, ⟨t.span, ts⟩, size_lt_of_rest _ h⟩ else none

/-- Read the token ahead if it is `p`. -/
def punct? (c : Cursor) (p : Punct) : Option (Read Token c.size) := c.accept? (·.isPunct p)

/-- Read the token ahead if it is the keyword `word`. -/
def keyword? (c : Cursor) (word : String) : Option (Read Token c.size) :=
  c.accept? (·.isKeyword word)

/-- Whether the token ahead is `p`. -/
def atPunct (c : Cursor) (p : Punct) : Bool := c.current?.any (·.isPunct p)

end Cursor

/-- A token that does not fit. -/
def unexpected {α : Type} (t : Token) : Parse α :=
  .error (.here t.span (.unexpectedToken t.describe))

/-- A token that begins something unsupported. -/
def unsupported {α : Type} (t : Token) (feature : Feature) : Parse α :=
  .error (.here t.span (.unsupportedSyntax feature))

/-- The token ahead does not fit. -/
def Cursor.unexpected {α : Type} (c : Cursor) : Parse α :=
  match c.current? with
  | some t => Script.unexpected t
  | none => .error .atEnd

/-- What is ahead begins something unsupported. -/
def Cursor.unsupported {α : Type} (c : Cursor) (feature : Feature) : Parse α :=
  match c.current? with
  | some t => Script.unsupported t feature
  | none => .error .atEnd

/-- Read the token `p`. -/
def Cursor.expect (c : Cursor) (p : Punct) : Parse (Read Span c.size) := do
  let t ← c.advance
  if t.value.isPunct p then .ok (t.map (·.span)) else Script.unexpected t.value

/-- Read the end of a statement: a semicolon, which belongs to it, or a closing tag, which does
not. `last` is the span that the statement ends with in the second case. -/
def Cursor.terminator (c : Cursor) (last : Span) : Parse (Peeked Span c.size) :=
  match c.advance with
  | .error e => .error e
  | .ok t =>
    if t.value.isPunct .semicolon then .ok (t.map (·.span)).peeked
    else if t.value.kind == .closeTag then .ok (c.stay last)
    else Script.unexpected t.value

end ConfigScript.Script
