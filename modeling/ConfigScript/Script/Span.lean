import ConfigScript.Text.Bytes

/-!
# Places and spans

A place is where a character of the source stands: its byte offset, and the line and column that
messages show. A span is the source text between two byte offsets, with the line and column of its
start.
-/

namespace ConfigScript

/-- Where a character stands. Lines and columns count from 1; columns count characters. -/
structure Place where
  offset : Nat
  line : Nat
  column : Nat
deriving DecidableEq, Repr, Inhabited

namespace Place

/-- The place of the first character. -/
def start : Place := ⟨0, 1, 1⟩

/-- The place behind the character `c`, which stands at `p`. -/
def after (p : Place) (c : Char) : Place :=
  if c == '\n' then ⟨p.offset + c.utf8Size, p.line + 1, 1⟩
  else ⟨p.offset + c.utf8Size, p.line, p.column + 1⟩

/-- The place behind the text `cs`, which begins at `p`. -/
def past (p : Place) (cs : List Char) : Place := cs.foldl after p

@[simp]
theorem past_nil (p : Place) : p.past [] = p := rfl

theorem past_append (p : Place) (as bs : List Char) : p.past (as ++ bs) = (p.past as).past bs :=
  List.foldl_append

/-- Offsets count bytes. -/
@[simp]
theorem offset_past (p : Place) (cs : List Char) :
    (p.past cs).offset = p.offset + Text.byteLength cs := by
  induction cs generalizing p with
  | nil => simp
  | cons c cs ih =>
    have step : (p.after c).offset = p.offset + c.utf8Size := by
      unfold after
      split <;> rfl
    show ((p.after c).past cs).offset = _
    rw [ih, step, Text.byteLength_cons, Nat.add_assoc]

end Place

/-- The source text from byte `start` up to byte `stop`, and where it begins. -/
structure Span where
  start : Nat
  stop : Nat
  line : Nat
  column : Nat
deriving DecidableEq, Repr, Inhabited

namespace Span

/-- The span of a text that begins at `p` and ends before byte `stop`. -/
def ofPlace (p : Place) (stop : Nat) : Span := ⟨p.offset, stop, p.line, p.column⟩

/-- The span from the start of `s` to the end of `t`, or to the end of `s` if that lies behind. -/
def through (s t : Span) : Span := { s with stop := max t.stop s.stop }

/-- The text of a span. -/
def text (s : Span) (source : List Char) : List Char := Text.sliceBytes s.start s.stop source

end Span

end ConfigScript
