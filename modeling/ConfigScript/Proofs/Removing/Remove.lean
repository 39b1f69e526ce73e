import ConfigScript.Proofs.Files.Change
import ConfigScript.Proofs.Lexing.Layout
import ConfigScript.Proofs.Patching.Update
import ConfigScript.Proofs.Removing.Cut
import ConfigScript.Proofs.Removing.Owner

/-!
# What a removal takes out of a text

When an entry is removed from a file, the statements of its definitions go, and besides them only white
space on lines that hold nothing else (`Edit.removeFromFile_exact`). The statements are found in the text as
it was, while each cut goes by the text that the cuts behind it have left. That does no harm, for a statement
that is cut out ends with a semicolon or in front of a closing tag (`Script.Sealed`), so there is a character
between any two of them that no blank line takes away (`Script.Sealed.parted`).
-/

namespace ConfigScript

namespace Script

variable {m m' : Mode} {p : Place} {rest cs : List Char} {ts : List Token}

/-- Operators are spelled as their symbols, and a closing tag begins with a question mark. -/
theorem Lexes.spelled (h : Lexes rest m p cs ts m') :
    ∀ t ∈ ts, (∀ q, t.kind = .punct q → t.text = symbol q) ∧
      (t.kind = .closeTag → t.text.head? = some '?') := by
  induction h with
  | done => exact List.forall_mem_nil _
  | @piece m m₁ m' p c w g cs kinds ts here more ih =>
    refine List.forall_mem_append.2 ⟨List.forall_mem_map.2 fun k hk ↦ ?_, ih⟩
    cases m with
    | html =>
      have none : (∀ q, .punct q ∉ kinds) ∧ .closeTag ∉ kinds := by
        have same := Except.ok.inj here
        unfold htmlPiece at same
        split at same <;> obtain ⟨rfl, -⟩ := Piece.mk.inj same <;> simp
      exact ⟨fun q same ↦ absurd (same ▸ hk) (none.1 q), fun same ↦ absurd (same ▸ hk) none.2⟩
    | script =>
      rcases scriptPiece_kinds here with ⟨k', rest', same, script⟩ | ⟨rest', same, -⟩ | ⟨tag, rfl, -⟩
      · have fits := here
        obtain ⟨rfl, behind, behind', rfl⟩ := Piece.mk.inj same
        obtain rfl := List.mem_singleton.1 hk
        rw [behind, behind'] at fits
        refine ⟨?_, ?_⟩
        · rintro q rfl
          exact (Fits.text_punct ⟨c, w, rfl, fits⟩).1
        · rintro rfl
          cases script
      · obtain ⟨rfl, -⟩ := Piece.mk.inj same
        cases hk
      · dsimp only at tag
        subst tag
        obtain rfl := List.mem_singleton.1 hk
        exact ⟨nofun, fun _ ↦ rfl⟩

/-- A token stands in the text that it was cut from. -/
theorem Lexes.exists_stretch (h : Lexes [] .html .start cs ts m) {t : Token} (mem : t ∈ ts) :
    ∃ x y, cs = x ++ (t.text ++ y) ∧ t.span.start = Text.byteLength x ∧
      t.span.stop = Text.byteLength (x ++ t.text) := by
  obtain ⟨x, y, whole, -, span⟩ := h.exists_text t mem
  refine ⟨x, y, whole, ?_, ?_⟩
  · rw [span]
    show (Place.start.past x).offset = _
    rw [Place.offset_past, Place.start, Nat.zero_add]
  · rw [span]
    show (Place.start.past (x ++ t.text)).offset = _
    rw [Place.offset_past, Place.start, Nat.zero_add]

variable {s s' : Span}

/-- The span of a statement that is cut from a text is a part of that text, with more around it. -/
theorem Sealed.exists_around (h : Sealed ts s) (lexes : Lexes [] .html .start cs ts m) :
    ∃ x w y, Around cs s x w y := by
  obtain ⟨us, vs, t, u, part, first, last, -, -, rfl, -⟩ := h
  have sub : us.Sublist ts := (List.sublist_append_left us vs).trans part.sublist
  have ht : t ∈ us := List.mem_of_mem_head? first
  have laid := lexes.laid.1.sublist sub
  obtain ⟨x, y, whole, start, -⟩ := lexes.exists_stretch (sub.subset ht)
  obtain ⟨x', y', whole', -, stop⟩ := lexes.exists_stretch (sub.subset (List.mem_of_getLast? last))
  have le : Text.byteLength x ≤ Text.byteLength (x' ++ u.text) := by
    have := laid.some t ht
    have := laid.stop_le_last last t ht
    omega
  obtain ⟨w, same, -⟩ := exists_of_byteLength_le
    (show x ++ (t.text ++ y) = (x' ++ u.text) ++ y' by rw [← whole, whole', List.append_assoc]) le
  exact ⟨x, w, y', by rw [whole', ← List.append_assoc, same, List.append_assoc], start, by rw [← same, stop]⟩

/-- What ends a statement is a character that is no white space. -/
theorem Sealed.parted (h : Sealed ts s) (h' : Sealed ts s') (lexes : Lexes [] .html .start cs ts m)
    (le : s.stop ≤ s'.start) : Edit.Parted cs s s' := by
  obtain ⟨us, vs, t, u, ⟨pre, rfl⟩, first, last, -, script, rfl, ends⟩ := h
  obtain ⟨us', vs', t', u', part, first', -, script', -, rfl, -⟩ := h'
  have laid := lexes.laid.1
  have hu : u ∈ us := List.mem_of_getLast? last
  rcases ends with kind | ⟨w, head, kind⟩
  · obtain ⟨x, y, whole, start, stop⟩ := lexes.exists_stretch (t := u) (by simp [hu])
    have text := (lexes.spelled u (by simp [hu])).1 _ kind
    have mem : (Text.byteLength x, ';') ∈ Text.placed 0 cs := by
      rw [whole, text]
      exact Text.mem_placed x y
    have one : Text.byteLength (symbol .semicolon) = 1 := rfl
    rw [Text.byteLength_append, text, one] at stop
    exact ⟨_, mem, rfl, by dsimp only; omega, by dsimp only at le ⊢; omega⟩
  · obtain ⟨vs, rfl⟩ := List.head?_eq_some_iff.1 head
    obtain ⟨x, y, whole, start, -⟩ := lexes.exists_stretch (t := w) (by simp)
    obtain ⟨text, spelled⟩ := List.head?_eq_some_iff.1 ((lexes.spelled w (by simp)).2 kind)
    have mem : (Text.byteLength x, '?') ∈ Text.placed 0 cs := by
      rw [whole, spelled]
      exact Text.mem_placed x _
    have mem' : t' ∈ (pre ++ us) ++ w :: vs := by
      rw [List.append_assoc]
      exact part.subset (List.mem_append_left _ (List.mem_of_mem_head? first'))
    rw [← List.append_assoc] at laid
    have front : u.span.stop ≤ w.span.start :=
      (List.pairwise_append.1 laid.apart).2.2 u (by simp [hu]) w List.mem_cons_self script
    have long := laid.some w (by simp)
    refine ⟨_, mem, rfl, by dsimp only; omega, ?_⟩
    dsimp only at le ⊢
    -- The other statement does not begin in front of the tag, and not with it either.
    rcases List.mem_append.1 mem' with inside | inside
    · have long' := laid.some t' mem'
      have last' : (pre ++ us).getLast? = some u := by rw [List.getLast?_append, last]; rfl
      have := (laid.sublist (List.sublist_append_left _ _)).stop_le_last last' t' inside
      omega
    rcases List.mem_cons.1 inside with rfl | inside
    · rw [kind] at script'
      cases script'
    · have := (List.pairwise_cons.1 laid.append_right.apart).1 t' inside (by simp [kind])
      omega

end Script

namespace Edit

open Script

variable {kind : EntryKind} {name : String} {source : List Char} {body : List Stmt}

/-- The statements of the definitions in a script stand one behind the other, and each is sealed. -/
theorem owned_of_parse (kind : EntryKind) (name : String) (parsed : parse source = .ok body) :
    ∃ ts m, Lexes [] .html .start source ts m ∧ Occurrence.Owned (Sealed ts) 0 (Text.byteLength source)
      (Occurrence.inStmts kind name body) := by
  obtain ⟨ts, m, lexes, made⟩ := exists_of_parse parsed
  obtain ⟨laid, within⟩ := lexes.laid
  have ready : Ready ⟨default, ts⟩ :=
    ⟨laid, (lexes.tagged (t := ⟨.closeTag, default, []⟩) fun _ ↦ .inl rfl).of_cons⟩
  obtain ⟨tiles, sits⟩ := tiles_of_statements ready made
  refine ⟨ts, m, lexes, Occurrence.owned_inStmts (tiles.runs.inOrder laid fun t ht ↦ ?_) fun n hn ↦
    ⟨(sits n hn).inOrder laid, sealed_of_statements ready made n hn⟩⟩
  have := within t ht
  rw [Place.offset_past, Place.start, Nat.zero_add] at this
  exact ⟨Nat.zero_le _, this.2⟩

/-- The statements that a removal cuts out stand one behind the other, parted by characters that are no
white space. -/
theorem chain_of_owned {spans : List Span} (parsed : parse source = .ok body)
    (same : (Occurrence.all kind name body).map (·.statement) = spans.map some) :
    (∀ s ∈ spans, ∃ x w y, Around source s x w y) ∧ spans.IsChain (Parted source) := by
  obtain ⟨ts, m, lexes, owned⟩ := owned_of_parse kind name parsed
  refine ⟨fun s hs ↦ ?_, ?_⟩
  · obtain ⟨o, mem, owner⟩ := List.mem_map.1 (same ▸ List.mem_map_of_mem hs)
    have found := (Occurrence.sublist_firstPerStatement _).subset mem
    exact (owned.owner o found s owner).2.2.exists_around lexes
  · have chain : (Occurrence.all kind name body).IsChain fun o o' ↦
        ∀ s ∈ o.statement, ∀ s' ∈ o'.statement, Parted source s s' :=
      Occurrence.chain_firstPerStatement <| owned.apart.imp_of_mem fun ho ho' apart s hs s' hs' ↦
        (apart s hs s' hs').imp_right fun le ↦
          (owned.owner _ ho s hs).2.2.parted (owned.owner _ ho' s' hs').2.2 lexes le
    have statements : ((Occurrence.all kind name body).map (·.statement)).IsChain fun x x' ↦
        ∀ s ∈ x, ∀ s' ∈ x', Parted source s s' := (List.isChain_map _).2 chain
    rw [same, List.isChain_map] at statements
    exact statements.imp fun s s' parted ↦ parted s rfl s' rfl

/-- A removal takes the statements of the definitions out of the text of a file, and besides them only
white space on lines that hold nothing else. -/
theorem removeFromFile_exact {env env' : Environment} {path : Path} {kind : EntryKind} {name : String}
    (h : removeFromFile env path kind name = (.ok true, env')) :
    ∃ (source : List Char) (body : List Stmt) (spans : List Span) (gone : Nat → Bool),
      env.readText path = .ok source ∧ parse source = .ok body ∧
      (Occurrence.all kind name body).map (·.statement) = spans.map some ∧
      (∀ s ∈ spans, ∃ x w y, Around source s x w y) ∧
      env'.readText path = .ok (Text.without gone 0 source) ∧ Removed source spans gone := by
  obtain ⟨source, body, spans, read, parsed, same, read'⟩ := exists_of_removeFromFile h
  obtain ⟨bounded, parted⟩ := chain_of_owned parsed same
  obtain ⟨gone, cuts, left⟩ := exists_cuts bounded parted
  exact ⟨source, body, spans, gone, read, parsed, same, bounded, left ▸ read', cuts.toRemoved⟩

/-- Statements on one line and on several lines, in front of a closing tag, in a block and at the end of the
text. Two definitions share a statement. -/
theorem removeFromFile_exact_lines : ∃ source text env' spans gone,
    source = "<?php\r\n define('A', 1);\tconst A = 'é'; \r\nf(); define('A',\n2) ?>\n".toList ++
      "<?php if (B) \x7b define('A', define('A', 3));\n\x7d\n\tdefine(\n'A', 4);".toList ∧
    text = "<?php\r\nf();  ?>\n<?php if (B) \x7b \n\x7d\n".toList ∧
    removeFromFile (.single source) ⟨['/', 'a']⟩ .const "A" = (.ok true, env') ∧
    env'.readText ⟨['/', 'a']⟩ = .ok text ∧ spans.length = 5 ∧ Text.without gone 0 source = text ∧
    Removed source spans gone := by
  obtain ⟨source, is⟩ : ∃ source, source =
      "<?php\r\n define('A', 1);\tconst A = 'é'; \r\nf(); define('A',\n2) ?>\n".toList ++
      "<?php if (B) \x7b define('A', define('A', 3));\n\x7d\n\tdefine(\n'A', 4);".toList := ⟨_, rfl⟩
  obtain ⟨text, is'⟩ : ∃ text,
      text = "<?php\r\nf();  ?>\n<?php if (B) \x7b \n\x7d\n".toList := ⟨_, rfl⟩
  obtain ⟨body, parsed, checks⟩ := exists_of_any (x := parse source) (p := fun body ↦
    let ss := (Occurrence.all .const "A" body).filterMap (·.statement)
    (Occurrence.all .const "A" body).map (·.statement) == ss.map some && ss.length == 5 &&
      ss.foldr (fun s text ↦ cut text s) source == text) (by rw [is, is']; decide +kernel)
  rw [Bool.and_eq_true, Bool.and_eq_true, beq_iff_eq, beq_iff_eq, beq_iff_eq] at checks
  obtain ⟨⟨owned, length⟩, cuts⟩ := checks
  have held := Environment.holds_single source
  obtain ⟨env', done, held', -⟩ := exists_removeFromFile held parsed (by decide)
    (List.ne_nil_of_length_eq_add_one length) owned
  rw [cuts] at held'
  obtain ⟨source', body', spans, gone, read, parsed', same, -, left, removed⟩ :=
    removeFromFile_exact done
  obtain rfl := Except.ok.inj (read.symm.trans held.readText)
  obtain rfl := Except.ok.inj (parsed'.symm.trans parsed)
  obtain rfl := List.map_injective_iff.2 (Option.some_injective _) (owned.symm.trans same)
  exact ⟨source', text, env', _, gone, is, is', done, held'.readText, length,
    Except.ok.inj (left.symm.trans held'.readText), removed⟩

end Edit

end ConfigScript
