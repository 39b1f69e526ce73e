import ConfigScript.Proofs.Parsing.Yields
import ConfigScript.Proofs.Patching.Patch

/-!
# Parsing in two texts at once

Two lists of tokens are twins under a patch if they go on alike, token by token, up to a place where
their difference no longer matters to the parser:

* at the *hole*, an expression that both lists have in the same place, behind a comma or an equals
  sign, where it is only read as a whole;
* behind a *barrier*, a token that no expression holds, such as a semicolon;
* at a semicolon in the first list and another end of an expression in the second one, where whatever
  the first parser accepts ends. Such twins are *loose*: only what is accepted in the first list is
  accepted in the second one.

At twin cursors the parser does the same in both lists (`Agree`), up to the patch. Of the token read
last it only ever uses where it stops.
-/

namespace ConfigScript.Script

/-- How two lists of tokens are compared. -/
structure Twinning where
  patch : Patch
  /-- What one list does not accept, the other one does not accept either. -/
  strict : Prop
  /-- The lists are compared up to their ends, not only up to a barrier. -/
  whole : Prop
  /-- The lists that begin with the expressions that differ. -/
  hole : List Token → List Token → Prop

/-- Lists of tokens that go on alike. -/
inductive Twins (w : Twinning) : List Token → List Token → Prop
  | nil : Twins w [] []
  | cons {t : Token} {ts ts' : List Token} (off : w.patch.Off t.span)
      -- In front of a hole behind a comma stands a text.
      (before : ∀ u us us', ts = u :: us → w.hole us us' → u.isPunct .comma → endsText t)
      (more : Twins w ts ts') : Twins w (t :: ts) (w.patch.token t :: ts')
  | hole {t : Token} {ts ts' : List Token} (off : w.patch.Off t.span) (lead : leadsToHole t)
      (here : w.hole ts ts') : Twins w (t :: ts) (w.patch.token t :: ts')
  | barrier {t : Token} (ts ts' : List Token) (part : ¬w.whole) (off : w.patch.Off t.span)
      (bar : isBarrier t) : Twins w (t :: ts) (w.patch.token t :: ts')
  | ends {t u : Token} (ts us : List Token) (loose : ¬w.strict) (stop : t.isPunct .semicolon)
      (stop' : endsValue u) : Twins w (t :: ts) (u :: us)

namespace Twinning

variable (w : Twinning)

/-- Cursors at twin lists. -/
structure At (c c' : Cursor) : Prop where
  last : c'.last.stop = (w.patch.move c.last).stop
  rest : Twins w c.rest c'.rest

/-- Cursors at twin lists that do not go on with a comma in front of the hole. -/
structure Clear (c c' : Cursor) : Prop extends w.At c c' where
  comma : ∀ u us us', c.rest = u :: us → w.hole us us' → ¬u.isPunct .comma

/-- Parsers agree: both accept, with values and cursors that are related, or both do not. Unless the
lists are strict twins, the second one may accept alone. -/
def AgreeTo {α α' : Type} {n n' : Nat} (N : Cursor → Cursor → Prop) (R : α → α' → Prop)
    (x : Parse (Read α n)) (x' : Parse (Read α' n')) : Prop :=
  match x, x' with
  | .ok r, .ok r' => R r.value r'.value ∧ N r.next r'.next
  | .error _, .error _ => True
  | .ok _, .error _ => False
  | .error _, .ok _ => ¬w.strict

/-- Parsers agree, with twin cursors in the end. -/
abbrev Agree {α α' : Type} {n n' : Nat} (R : α → α' → Prop) (x : Parse (Read α n))
    (x' : Parse (Read α' n')) : Prop := w.AgreeTo w.At R x x'

variable {w} {α α' β β' : Type} {n n' m m' : Nat} {N M : Cursor → Cursor → Prop}
  {R : α → α' → Prop} {S : β → β' → Prop}

theorem AgreeTo.error {e e' : Misfit} :
    w.AgreeTo N R (.error e : Parse (Read α n)) (.error e' : Parse (Read α' n')) := trivial

theorem AgreeTo.errors {x : Parse (Read α n)} {x' : Parse (Read α' n')} (h : ∃ e, x = .error e)
    (h' : ∃ e, x' = .error e) : w.AgreeTo N R x x' := by
  obtain ⟨e, rfl⟩ := h
  obtain ⟨e', rfl⟩ := h'
  exact .error

theorem AgreeTo.ok {r : Read α n} {r' : Read α' n'} (value : R r.value r'.value)
    (next : N r.next r'.next) : w.AgreeTo N R (.ok r) (.ok r') := ⟨value, next⟩

/-- Loose twins agree where the first list is not accepted. -/
theorem AgreeTo.loose {x : Parse (Read α n)} (loose : ¬w.strict) (h : ∃ e, x = .error e)
    (x' : Parse (Read α' n')) : w.AgreeTo N R x x' := by
  obtain ⟨e, rfl⟩ := h
  cases x' with
  | error e' => exact .error
  | ok r' => exact loose

/-- One step behind another. -/
theorem AgreeTo.bind {x : Parse (Read α n)} {x' : Parse (Read α' n')}
    {f : Read α n → Parse (Read β m)} {f' : Read α' n' → Parse (Read β' m')}
    (first : w.AgreeTo N R x x')
    (more : ∀ r r', R r.value r'.value → N r.next r'.next → w.AgreeTo M S (f r) (f' r')) :
    w.AgreeTo M S (x >>= f) (x' >>= f') := by
  cases x with
  | error e =>
    cases x' with
    | error e' => exact .error
    | ok r' => exact AgreeTo.loose first ⟨e, rfl⟩ _
  | ok r =>
    cases x' with
    | error e' => exact first.elim
    | ok r' => exact more r r' first.1 first.2

end Twinning

end ConfigScript.Script
