import ConfigScript.Proofs.Patching.Value
import ConfigScript.Proofs.Written.Edit

/-!
# The tree of an edited text

A text in which the value of a definition is replaced by the text of another value parses, and its tree
is the old one with that value replaced (`parse_splice`).
-/

namespace ConfigScript

theorem Place.offset_le_past (p : Place) (cs : List Char) : p.offset ≤ (p.past cs).offset := by
  rw [offset_past]
  omega

namespace Script

/-- The patch for a text in which the text `r` of the value `e` takes the place of a span: the new value
stands where the old one began, and everything behind moves. -/
def Patch.editing (source : List Char) (hole : Span) (r : List Char) (e : Expr) : Patch :=
  let here := Place.start.past (Edit.before source hole)
  .replacing here.offset (Place.start.past (Text.takeBytes hole.stop source)) (here.past r)
    (here.offset_le_past r) ((Patch.moving assignedPlace here).expr e) hole

/-- The text around a value: `source` is the text `x` in front of it, its own text `w` and the text `y`
behind it. -/
structure Around (source : List Char) (v : Span) (x w y : List Char) : Prop where
  text : source = x ++ (w ++ y)
  start : v.start = Text.byteLength x
  stop : v.stop = Text.byteLength (x ++ w)

namespace Around

variable {source x w y : List Char} {v : Span}

theorem splice (h : Around source v x w y) (r : List Char) :
    Edit.splice source v r = x ++ (r ++ y) := by
  have cut := Edit.splice_append h.start h.stop y r
  rwa [List.append_assoc, List.append_assoc, ← h.text] at cut

theorem before (h : Around source v x w y) : Edit.before source v = x := by
  rw [Edit.before, h.text, h.start, Text.takeBytes_byteLength_append]

theorem takeBytes (h : Around source v x w y) : Text.takeBytes v.stop source = x ++ w := by
  rw [h.text, h.stop, ← List.append_assoc, Text.takeBytes_byteLength_append]

theorem start_le (h : Around source v x w y) : v.start ≤ v.stop := by
  rw [h.start, h.stop, Text.byteLength_append]
  omega

end Around

/-- The text around the value of a definition, and the tokens it is cut into. -/
theorem Placed.exists_around {source : List Char} {m : Mode} {ts : List Token} {v : Expr}
    {before : List Token} {lead : Token} {us : List Token} {next : Token} {after : List Token}
    (placed : Placed ts v before lead us next after) (lexes : Lexes [] .html .start source ts m) :
    ∃ x w y, Around source v.span x w y ∧
      (∃ k, BeginsWith k (w ++ y) ∧ Lexes (w ++ y) .html .start x (before ++ [lead]) .script) ∧
      Lexes [] .script (Place.start.past (x ++ w)) y (next :: after) m := by
  obtain ⟨covers, -⟩ := placed.covers lexes.laid.1
  rw [placed.parts] at lexes
  obtain ⟨x, w, y, rfl, front, -, back, start, stop, begins⟩ := lexes.excerpt placed.spells.enclosed
    placed.spells.some (.inr placed.alone) covers
  rw [Place.offset_past, Place.start, Nat.zero_add] at start stop
  obtain ⟨u, us', rfl⟩ := List.exists_cons_of_ne_nil placed.spells.some
  rw [List.append_nil] at front begins
  exact ⟨x, w, y, ⟨rfl, start.symm, stop.symm⟩, ⟨_, begins u rfl, front⟩, back⟩

/-- If the value of a definition is replaced by the text of another value, the text still parses, and its
tree is the old one with that value replaced. -/
theorem parse_splice {source r : List Char} {body : List Stmt} {v e : Expr}
    (parsed : parse source = .ok body) (defining : Defining (Stmt.rootsOfList body) v)
    (text : ValueText r e) :
    parse (Edit.splice source v.span r) = .ok ((Patch.editing source v.span r e).stmts body) := by
  obtain ⟨ts, m, lexes, made⟩ := exists_of_parse parsed
  have holds : Holds [] ts _ := holds_of_statements made
  -- The text and its tokens are cut in three: what is in front of the value, the value, and the rest.
  obtain ⟨before, lead, us, next, after, placed⟩ := holds.placed defining
  have laid := lexes.laid.1
  obtain ⟨-, behind⟩ := placed.covers laid
  obtain ⟨x, w, y, around, ⟨k, begins, front⟩, back⟩ := placed.exists_around lexes
  have long : ∀ t ∈ next :: after, v.span.stop ≤ t.span.start ∧ t.span.start < t.span.stop :=
    fun t ht ↦ ⟨behind t ht, laid.some t (by rw [placed.tokens]; simp [List.mem_cons.1 ht])⟩
  have ends : endsHere y := by
    refine endsHere_of_lexes back ?_
    have ends := placed.ends
    unfold endsValue at ends
    split at ends <;> simp_all
  have low : (Place.start.past x).offset = v.span.start := by
    rw [Place.offset_past, Place.start, around.start, Nat.zero_add]
  have high : (Place.start.past (x ++ w)).offset = v.span.stop := by
    rw [Place.offset_past, Place.start, around.stop, Nat.zero_add]
  obtain ⟨rs, inside, exchanged⟩ := text.exchanged ends low high placed.ends long
  have sign : lead.kind = .punct .assign ∨ lead.kind = .punct .comma := placed.sign.imp_right And.left
  -- With the new value in between, the front is cut as before and the back has moved.
  obtain ⟨c, r', rfl, head⟩ := text.head
  have front' : Lexes (c :: r' ++ y) .html .start x (before ++ [lead]) .script := by
    refine front.exchange_value sign begins fun d hd ↦ ?_
    obtain rfl := Option.some.inj hd
    exact head
  have back' := back.moved (p := Place.start.past (x ++ w))
    (q := (Place.start.past x).past (c :: r')) (.refl _)
  rw [Place.moved_self] at back'
  have inside' : Lexes (y ++ []) .script (Place.start.past x) (c :: r') rs .script := by
    rwa [List.append_nil]
  have start : Lexes (c :: r' ++ y ++ []) .html .start x (before ++ [lead]) .script := by
    rwa [List.append_nil]
  have whole := start.append (inside'.append back')
  rw [around.splice]
  have made' := exchanged.statements_replaced placed laid made
  rw [List.append_assoc] at whole
  rw [parse_of_lexes whole made']
  have patch : Patch.editing source v.span (c :: r') e = Patch.replacing v.span.start
      (Place.start.past (x ++ w)) ((Place.start.past x).past (c :: r')) exchanged.le
      ((Patch.moving assignedPlace (Place.start.past x)).expr e) v.span := by
    have start : (Place.start.past x).offset = v.span.start := by
      rw [Place.offset_past, Place.start, around.start, Nat.zero_add]
    simp only [Patch.editing, around.before, around.takeBytes, start]
  rw [patch]

end Script

end ConfigScript
