import ConfigScript.Proofs.Files.Change
import ConfigScript.Proofs.Patching.Update

/-!
# Setting one entry after the other

A value that was set is found again where it was put: what is set last remains, and setting it to the
same text again changes nothing (`Edit.setInFile_again`). Values that stand beside each other may be set
in either order (`Edit.setInFile_comm`): each change moves the other value, but finds it first again, for
a quoted text defines nothing.
-/

namespace ConfigScript

open Script

namespace Script.Around

variable {source x w y x' w' y' r r' : List Char} {v v' : Span} {e e' : Expr}

/-- Where the new value stands. -/
theorem moved_new (h : Around source v x w y) (text : ValueText r e) :
    Around (x ++ (r ++ y)) (Patch.editing source v r e).new.span x r y := by
  have place : (Patch.editing source v r e).new.span =
      e.span.moved assignedPlace (Place.start.past (Edit.before source v)) :=
    Patch.span_of_ne (Option.some_ne_none _).symm
  have origin : assignedPlace.offset = Text.byteLength assigning := by
    rw [assignedPlace, Place.offset_past, Place.start, Nat.zero_add]
  refine ⟨rfl, ?_, ?_⟩
  · rw [place]
    show e.span.start - _ + _ = _
    rw [text.start, origin, h.offset_here, h.start, Nat.sub_self, Nat.zero_add]
  · rw [place]
    show e.span.stop - _ + _ = _
    rw [text.stop, origin, h.offset_here, h.start, Nat.add_sub_cancel_left, Text.byteLength_append,
      Nat.add_comm]

/-- The texts of two values, one behind the other, are replaced in either order. -/
theorem splice_comm (h : Around source v x w y) (h' : Around source v' x' w' y')
    (lt : v.start < v.stop) (lt' : v'.start < v'.stop) (le : v.stop ≤ v'.start) :
    Edit.splice (Edit.splice source v r) ((Patch.editing source v r e).move v') r' =
      Edit.splice (Edit.splice source v' r') ((Patch.editing source v' r' e').move v) r := by
  obtain ⟨t, rfl, behind⟩ := h.moved_behind (r := r) (e := e) h' lt lt' le
  obtain ⟨t', rfl, front⟩ := h'.moved_before (r := r') (e := e') h lt' le
  have same : t' = t := by
    have whole := h'.text.symm.trans h.text
    simp only [List.append_assoc, List.append_cancel_left_eq] at whole
    exact List.append_cancel_right whole
  subst same
  rw [h.splice, behind.splice, h'.splice, front.splice]
  simp

end Script.Around

/-! ### What is found again -/

namespace Occurrence

variable {source r : List Char} {body : List Stmt} {kind kind' : EntryKind} {name name' : String}
  {e : Expr} {d d' : Occurrence}

/-- A text defines nothing. -/
theorem inExpr_of_literalText? (statement : Option Span) (h : e.literalText?.isSome) :
    inExpr name statement e = [] := by
  cases e with
  | str => rfl
  | _ => cases h

theorem mem_of_head (h : d ∈ (all kind name body).head?) : d ∈ inStmts kind name body := by
  rw [all, head_firstPerStatement] at h
  exact List.mem_of_mem_head? h

/-- When a value has been replaced by a text, the definition that is found first is the same as before,
unless it was inside of that value. -/
theorem head_patched (parsed : parse source = .ok body) (replaced : d ∈ inStmts kind name body)
    (literal : e.literalText?.isSome) (first : d' ∈ (all kind' name' body).head?)
    (kept : ¬d'.Lost (Patch.editing source d.value r e)) :
    d'.patched (Patch.editing source d.value r e) ∈
      (all kind' name' ((Patch.editing source d.value r e).stmts body)).head? := by
  obtain ⟨v, same, defining⟩ := defining_of_inStmts replaced
  have apart := Edit.apart_of_defining parsed defining r e
  rw [← same] at apart
  rw [all, head_firstPerStatement] at first ⊢
  refine (follows_inStmts body apart).head (inExpr_of_literalText? none ?_) first kept
  show ((Patch.moving assignedPlace _).expr e).literalText?.isSome
  rwa [Patch.literalText?_of_ne (Option.some_ne_none _).symm]

end Occurrence

/-! ### Setting -/

namespace Edit

variable {o o' : Options} {kind kind' : EntryKind} {name name' : String} {source : List Char}
  {body : List Stmt} {d d' : Occurrence} (file : String) (value value' source' : List Char)

/-- Setting an entry replaces the value of its first definition, and nothing else, by the quoted text. -/
theorem set_of_head (plain : o.raw = false) (keep : o.normalize = false)
    (first : d ∈ (Occurrence.all kind name body).head?) :
    set o file kind name value source' body = .ok (splice source' d.value (Quoted.quote value)) := by
  obtain ⟨others, found⟩ : ∃ others, Occurrence.all kind name body = d :: others := by
    cases all : Occurrence.all kind name body with
    | nil => rw [all] at first; cases first
    | cons d₁ others =>
      rw [all] at first
      obtain rfl := Option.some.inj first
      exact ⟨others, rfl⟩
  rw [set, found, plain]
  simp only [substitute, keep, Bool.false_eq_true, if_false]

/-- The tree of the text in which a value is replaced by a quoted text. -/
theorem exists_quoted (parsed : parse source = .ok body)
    (found : d ∈ Occurrence.inStmts kind name body) :
    ∃ e, ValueText (Quoted.quote value) e ∧ e.literalText?.isSome ∧
      parse (splice source d.value (Quoted.quote value)) =
        .ok ((Patch.editing source d.value (Quoted.quote value) e).stmts body) := by
  obtain ⟨v, same, defining⟩ := Occurrence.defining_of_inStmts found
  have text := ValueText.quote value
  exact ⟨_, text, rfl, same ▸ parse_splice parsed defining text⟩

/-- Of two texts that an entry is set to, the last one remains. -/
theorem set_again (plain : o.raw = false) (keep : o.normalize = false)
    (parsed : parse source = .ok body) (first : d ∈ (Occurrence.all kind name body).head?) :
    ∃ text body', set o file kind name value source body = .ok text ∧ parse text = .ok body' ∧
      ∀ value', set o file kind name value' text body' = set o file kind name value' source body := by
  have found := Occurrence.mem_of_head first
  obtain ⟨v, x, w, y, same, -, around, -⟩ := exists_around_of_inStmts parsed found
  rw [← same] at around
  obtain ⟨e, text, literal, parsed'⟩ := exists_quoted value parsed found
  have again := Occurrence.head_patched (r := Quoted.quote value) parsed found literal first
    fun ⟨_, hole, _, ne⟩ ↦ ne (Option.some.inj hole)
  refine ⟨_, _, set_of_head file value source plain keep first, parsed', fun value' ↦ ?_⟩
  rw [set_of_head _ _ _ plain keep again, set_of_head _ _ _ plain keep first, Occurrence.value_patched_of_hole rfl,
    around.splice, around.splice, (around.moved_new text).splice]

/-- Setting an entry whose value stands beside one that was set. -/
theorem set_beside (plain : o'.raw = false) (keep : o'.normalize = false)
    (parsed : parse source = .ok body) (first : d ∈ (Occurrence.all kind name body).head?)
    (first' : d' ∈ (Occurrence.all kind' name' body).head?)
    (apart : d.value.stop ≤ d'.value.start ∨ d'.value.stop ≤ d.value.start) :
    ∃ e body', parse (splice source d.value (Quoted.quote value)) = .ok body' ∧
      set o' file kind' name' value' (splice source d.value (Quoted.quote value)) body' =
        .ok (splice (splice source d.value (Quoted.quote value))
          ((Patch.editing source d.value (Quoted.quote value) e).move d'.value)
          (Quoted.quote value')) := by
  have found := Occurrence.mem_of_head first
  obtain ⟨v', _, _, _, same', -, -, lt⟩ :=
    exists_around_of_inStmts parsed (Occurrence.mem_of_head first')
  rw [← same'] at lt
  obtain ⟨e, text, literal, parsed'⟩ := exists_quoted value parsed found
  have outside : d'.Outside (Patch.editing source d.value (Quoted.quote value) e) := by
    intro h hole ⟨le, le'⟩
    obtain rfl := Option.some.inj hole
    omega
  have again := Occurrence.head_patched (r := Quoted.quote value) parsed found literal first'
    fun ⟨h, hole, within, _⟩ ↦ outside h hole within
  refine ⟨e, _, parsed', ?_⟩
  rw [set_of_head _ _ _ plain keep again, Occurrence.patched_of_outside outside]
  rfl

/-- Entries whose values stand beside each other may be set in either order. -/
theorem set_comm (plain : o.raw = false) (keep : o.normalize = false) (plain' : o'.raw = false)
    (keep' : o'.normalize = false) (parsed : parse source = .ok body)
    (first : d ∈ (Occurrence.all kind name body).head?)
    (first' : d' ∈ (Occurrence.all kind' name' body).head?)
    (apart : d.value.stop ≤ d'.value.start ∨ d'.value.stop ≤ d.value.start) :
    ∃ text body₁ text' body₂ both,
      set o file kind name value source body = .ok text ∧ parse text = .ok body₁ ∧
      set o' file kind' name' value' text body₁ = .ok both ∧
      set o' file kind' name' value' source body = .ok text' ∧ parse text' = .ok body₂ ∧
      set o file kind name value text' body₂ = .ok both := by
  obtain ⟨v, _, _, _, same, -, around, lt⟩ :=
    exists_around_of_inStmts parsed (Occurrence.mem_of_head first)
  obtain ⟨v', _, _, _, same', -, around', lt'⟩ :=
    exists_around_of_inStmts parsed (Occurrence.mem_of_head first')
  rw [← same] at around lt
  rw [← same'] at around' lt'
  obtain ⟨e, body₁, parsed₁, one⟩ :=
    set_beside file value value' plain' keep' parsed first first' apart
  obtain ⟨e', body₂, parsed₂, other⟩ :=
    set_beside file value' value plain keep parsed first' first apart.symm
  refine ⟨_, body₁, _, body₂, _, set_of_head file value source plain keep first, parsed₁, one,
    set_of_head file value' source plain' keep' first', parsed₂, ?_⟩
  rw [other]
  rcases apart with le | le
  · rw [around.splice_comm around' lt lt' le]
  · rw [around'.splice_comm around lt' lt le]

/-! ### Setting in a file -/

section File

variable {env : Environment} {path : Path} (held : env.Holds path source)
  (parsed : parse source = .ok body)

include held parsed

/-- If an entry of a file is set to one text and then to another one, the file holds the same as if it
were set to the second one only. Setting it to the same text again changes nothing. -/
theorem setInFile_again (plain : o.raw = false) (keep : o.normalize = false)
    (legal : kind = .const ∨ kind = .var ∧ isVariableName name.toList)
    (first : d ∈ (Occurrence.all kind name body).head?) :
    ∃ changed env₁, setInFile env path kind name value o = (.ok changed, env₁) ∧
      setInFile env₁ path kind name value o = (.ok false, env₁) ∧
      ∃ again env₂ direct env₃ text, setInFile env₁ path kind name value' o = (.ok again, env₂) ∧
        setInFile env path kind name value' o = (.ok direct, env₃) ∧
        env₂.Holds path text ∧ env₃.Holds path text := by
  obtain ⟨editable, named⟩ := editable_of_legal legal
  obtain ⟨text, body', set, parsed', same⟩ := set_again (String.ofList path.displayName)
    value plain keep parsed first
  obtain ⟨changed, env₁, done, held₁, -, -⟩ := exists_setInFile held parsed editable named set
  have last := set_of_head (String.ofList path.displayName) value' source plain keep first
  obtain ⟨direct, env₃, done₃, held₃, -, -⟩ := exists_setInFile held parsed editable named last
  obtain ⟨again, env₂, done₂, held₂, -, -⟩ :=
    exists_setInFile held₁ parsed' editable named ((same value').trans last)
  refine ⟨changed, env₁, done, ?_, again, env₂, direct, env₃, _, done₂, done₃, held₂, held₃⟩
  rw [setInFile_of_loadFile editable named (loadFile_of_holds held₁ parsed') ((same value).trans set),
    if_pos rfl]

/-- If the values that two entries of a file are defined by first stand beside each other, setting both
leaves the same text in either order. -/
theorem setInFile_comm (plain : o.raw = false) (keep : o.normalize = false) (plain' : o'.raw = false)
    (keep' : o'.normalize = false)
    (legal : kind = .const ∨ kind = .var ∧ isVariableName name.toList)
    (legal' : kind' = .const ∨ kind' = .var ∧ isVariableName name'.toList)
    (first : d ∈ (Occurrence.all kind name body).head?)
    (first' : d' ∈ (Occurrence.all kind' name' body).head?)
    (apart : d.value.stop ≤ d'.value.start ∨ d'.value.stop ≤ d.value.start) :
    ∃ b₁ env₁ b₂ env₂ b₃ env₃ b₄ env₄ text,
      setInFile env path kind name value o = (.ok b₁, env₁) ∧
      setInFile env₁ path kind' name' value' o' = (.ok b₂, env₂) ∧
      setInFile env path kind' name' value' o' = (.ok b₃, env₃) ∧
      setInFile env₃ path kind name value o = (.ok b₄, env₄) ∧
      env₂.Holds path text ∧ env₄.Holds path text := by
  obtain ⟨editable, named⟩ := editable_of_legal legal
  obtain ⟨editable', named'⟩ := editable_of_legal legal'
  obtain ⟨text, body₁, text', body₂, both, set₁, parsed₁, set₂, set₃, parsed₂, set₄⟩ :=
    set_comm (String.ofList path.displayName) value value' plain keep plain' keep' parsed first first'
      apart
  obtain ⟨b₁, env₁, done₁, held₁, -, -⟩ := exists_setInFile held parsed editable named set₁
  obtain ⟨b₂, env₂, done₂, held₂, -, -⟩ := exists_setInFile held₁ parsed₁ editable' named' set₂
  obtain ⟨b₃, env₃, done₃, held₃, -, -⟩ := exists_setInFile held parsed editable' named' set₃
  obtain ⟨b₄, env₄, done₄, held₄, -, -⟩ := exists_setInFile held₃ parsed₂ editable named set₄
  exact ⟨b₁, env₁, b₂, env₂, b₃, env₃, b₄, env₄, both, done₁, done₂, done₃, done₄, held₂, held₄⟩

end File

/-- A constant and a variable, each of which is defined first around another definition. -/
theorem setInFile_comm_around : ∃ b₁ env₁ b₂ env₂ b₃ env₃ b₄ env₄ text,
    setInFile (.single "<?php define('A', define('B', 1) || $b);\n$b = [define('A', 2)]; $b = 'é';".toList)
      ⟨['/', 'a']⟩ .const "A" "it's".toList .standard = (.ok b₁, env₁) ∧
    setInFile env₁ ⟨['/', 'a']⟩ .var "b" "\\\n".toList .standard = (.ok b₂, env₂) ∧
    setInFile (.single "<?php define('A', define('B', 1) || $b);\n$b = [define('A', 2)]; $b = 'é';".toList)
      ⟨['/', 'a']⟩ .var "b" "\\\n".toList .standard = (.ok b₃, env₃) ∧
    setInFile env₃ ⟨['/', 'a']⟩ .const "A" "it's".toList .standard = (.ok b₄, env₄) ∧
    env₂.Holds ⟨['/', 'a']⟩ text ∧ env₄.Holds ⟨['/', 'a']⟩ text := by
  obtain ⟨body, parsed, found⟩ := exists_of_any (p := fun body ↦
    (Occurrence.all .const "A" body).head? = some ⟨some ⟨6, 40, 1, 7⟩, ⟨18, 38, 1, 19⟩⟩ ∧
      (Occurrence.all .var "b" body).head? = some ⟨some ⟨41, 63, 2, 1⟩, ⟨46, 62, 2, 6⟩⟩) (show (parse
        "<?php define('A', define('B', 1) || $b);\n$b = [define('A', 2)]; $b = 'é';".toList).toOption.any
        _ by decide +kernel)
  obtain ⟨first, first'⟩ := of_decide_eq_true found
  have plain : Options.standard.raw = false := rfl
  have keep : Options.standard.normalize = false := rfl
  exact setInFile_comm _ _ (Environment.holds_single _) parsed plain keep plain keep (.inl rfl)
    (.inr ⟨rfl, by decide⟩) first first' (.inl (by decide))

end Edit

end ConfigScript
