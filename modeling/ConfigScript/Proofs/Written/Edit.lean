import ConfigScript.Proofs.Assoc
import ConfigScript.Proofs.Written.Document

/-!
# Editing written documents

The text operations of `ConfigScript.Edit`, done on the text of a document, give the text of a
document again: setting an entry that has a row changes the value of its first row in place
(`Document.Sound.set_of_row`), setting another one puts a new row in front of the end
(`Document.Sound.set_of_not_mem`), and removing an entry drops its line and joins the gaps around it
(`Document.Legal.cut_of_row`). On the table of a legal document these are insertion and erasure; the
keys of a sound one are those that were there and those that were set (`Document.Sound.exists_set`).
-/

namespace ConfigScript

open Script

namespace Edit

/-- Cutting a text where a span begins and ends. -/
theorem splice_append {as bs : List Char} {s : Span} (hs : s.start = Text.byteLength as)
    (ht : s.stop = Text.byteLength (as ++ bs)) (cs r : List Char) :
    splice (as ++ bs ++ cs) s r = as ++ r ++ cs := by
  rw [splice, before, after, hs, ht, Text.dropBytes_byteLength_append, List.append_assoc as bs cs,
    Text.takeBytes_byteLength_append]

/-- Cutting out a span that fills a line takes the line break with it. -/
theorem cut_line {as bs : List Char} {s : Span} (hs : s.start = Text.byteLength as)
    (ht : s.stop = Text.byteLength (as ++ bs)) (whole : ∃ h, as = h ++ ['\n']) (cs : List Char) :
    cut (as ++ bs ++ '\n' :: cs) s = as ++ cs := by
  obtain ⟨h, rfl⟩ := whole
  have head : before (h ++ ['\n'] ++ bs ++ '\n' :: cs) s = h ++ ['\n'] := by
    rw [before, hs, List.append_assoc, Text.takeBytes_byteLength_append]
  have tail : after (h ++ ['\n'] ++ bs ++ '\n' :: cs) s = '\n' :: cs := by
    rw [after, ht, Text.dropBytes_byteLength_append]
  rw [cut, head, tail]
  have noHead : lineHead (h ++ ['\n']) = [] := by simp [lineHead]
  have lineBreak : lineTail ('\n' :: cs) = ['\n'] := by simp [lineTail]
  have blank : Text.isBlank '\n' = true := by decide
  have all : (h ++ ['\n']).take (h ++ ['\n']).length = h ++ ['\n'] := List.take_length
  simp only [noHead, lineBreak, blank, List.all_nil, List.all_cons, Bool.and_self, if_true,
    List.length_nil, Nat.sub_zero, all]
  rfl

end Edit

/-- The first definition is always kept. -/
theorem Occurrence.exists_firstPerStatement (a : Occurrence) (os : List Occurrence) :
    ∃ more, firstPerStatement (a :: os) = a :: more := by
  induction os with
  | nil => exact ⟨[], by simp [firstPerStatement]⟩
  | cons b os ih =>
    rw [firstPerStatement]
    split
    · exact ih
    · exact ⟨_, rfl⟩

namespace Document

variable {d : Document} {as bs : List Line} {l : Line}

/-! ### The parts of a document -/

/-- The text in front of a line's row. -/
def upTo (as : List Line) (l : Line) : List Char := opening ++ Line.texts as ++ l.gap

/-- What is in front of a row ends with a line break. -/
theorem upTo_whole (as : List Line) {l : Line} (h : Filler l.gap) :
    ∃ k, upTo as l = k ++ ['\n'] := by
  rcases h.whole with hg | ⟨g, hg⟩
  · rw [upTo, hg, List.append_nil]
    rcases List.eq_nil_or_concat as with rfl | ⟨bs, b, rfl⟩
    · exact ⟨['<', '?', 'p', 'h', 'p'], rfl⟩
    · exact ⟨opening ++ Line.texts bs ++ b.gap ++ b.row.text, by simp [Line.text, Line.texts]⟩
  · exact ⟨opening ++ Line.texts as ++ g, by simp [upTo, hg]⟩

/-- Where the row of a line stands. -/
def rowPlace (as : List Line) (l : Line) : Place := Place.start.past (upTo as l)

theorem past_rowPlace (as : List Line) (l : Line) :
    (first.past (Line.texts as)).past l.gap = rowPlace as l := by
  rw [rowPlace, upTo, Place.past_append, Place.past_append, first]

/-- The first definition of an entry that has a row is the first such row. -/
theorem Sound.exists_all_of_row (h : d.Sound) (hd : d.lines = as ++ l :: bs)
    (notBefore : l.row.key ∉ Line.keys as) (behind : List Stmt) :
    ∃ more, Occurrence.all l.row.kind l.row.name (Line.stmts first d.lines ++ behind) =
      ⟨some (l.row.span (rowPlace as l)), l.row.valueSpan (rowPlace as l)⟩ :: more := by
  have mem : l ∈ d.lines := by simp [hd]
  have kind : l.row.kind ≠ .inclusion := by
    rcases (h.lines l mem).row.kind with hk | ⟨hk, -⟩ <;> simp [hk]
  have legal : ∀ k ∈ as, k.Legal := fun k hk ↦ h.lines k (by simp [hd, hk])
  have key : l.row.key = (l.row.kind, l.row.name) := rfl
  rw [Occurrence.all, hd, Line.stmts_append, Line.stmts, past_rowPlace, List.append_assoc,
    Occurrence.inStmts_append, Line.inStmts_of_not_mem legal _ kind notBefore, List.nil_append,
    List.cons_append, Occurrence.inStmts, Row.inStmt_stmt (h.lines l mem).row _ _ kind, if_pos key]
  exact Occurrence.exists_firstPerStatement _ _

/-- The only definition of an entry that has a row is that row. -/
theorem Legal.all_of_row (h : d.Legal)
    (hd : d.lines = as ++ l :: bs) {guard bootstrap : Stmt} (hg : Template.IsGuard guard)
    (hb : Template.IsBootstrap bootstrap) :
    Occurrence.all l.row.kind l.row.name (Line.stmts first d.lines ++ [guard, bootstrap]) =
      [⟨some (l.row.span (rowPlace as l)), l.row.valueSpan (rowPlace as l)⟩] := by
  have mem : l ∈ d.lines := by simp [hd]
  have kind : l.row.kind ≠ .inclusion := by
    rcases (h.lines l mem).row.kind with hk | ⟨hk, -⟩ <;> simp [hk]
  have absolute : l.row.name ≠ "ABSPATH" := fun hn ↦ h.free l mem (by simp [reservedNames, hn])
  have distinct := h.distinct
  rw [hd, Line.keys, List.map_append, List.map_cons, List.nodup_append, List.nodup_cons] at distinct
  obtain ⟨-, ⟨notAfter, -⟩, disjoint⟩ := distinct
  have notBefore : (l.row.kind, l.row.name) ∉ Line.keys as := fun hm ↦
    disjoint _ hm l.row.key List.mem_cons_self rfl
  have legal : ∀ k ∈ as ++ l :: bs, k.Legal := hd ▸ h.lines
  have key : l.row.key = (l.row.kind, l.row.name) := rfl
  rw [Occurrence.all, hd, Line.stmts_append, Line.stmts, past_rowPlace]
  rw [Occurrence.inStmts_append, Occurrence.inStmts_append, Occurrence.inStmts,
    Line.inStmts_of_not_mem (fun k hk ↦ legal k (List.mem_append_left _ hk)) _ kind notBefore,
    Line.inStmts_of_not_mem
      (fun k hk ↦ legal k (List.mem_append_right _ (List.mem_cons_of_mem _ hk))) _ kind notAfter,
    Row.inStmt_stmt (h.lines l mem).row _ _ kind, if_pos key,
    Template.inStmts_tail hg hb _ absolute]
  simp [Occurrence.firstPerStatement]

/-- An entry without a row has no definition. -/
theorem Sound.all_of_not_mem (h : d.Sound) {kind : EntryKind} {name : String}
    (hk : kind ≠ .inclusion) (absolute : name ≠ "ABSPATH") (hn : (kind, name) ∉ Line.keys d.lines)
    {guard bootstrap : Stmt} (hg : Template.IsGuard guard) (hb : Template.IsBootstrap bootstrap) :
    Occurrence.all kind name (Line.stmts first d.lines ++ [guard, bootstrap]) = [] := by
  rw [Occurrence.all, Occurrence.inStmts_append, Line.inStmts_of_not_mem h.lines _ hk hn,
    Template.inStmts_tail hg hb _ absolute]
  simp [Occurrence.firstPerStatement]

/-! ### Setting an entry -/

/-- The text around a row's value. -/
theorem text_split (hd : d.lines = as ++ l :: bs) :
    d.text = (upTo as l ++ l.row.lead) ++ Quoted.quote l.row.value.toList ++
      (l.row.trail ++ '\n' :: (Line.texts bs ++ d.gap ++ Template.tail.toList)) := by
  simp [text, body, hd, upTo, Line.text, Row.text]

/-- A document with another value in one of its lines. -/
def revalue (as : List Line) (l : Line) (bs : List Line) (gap : List Char) (value : String) :
    Document :=
  ⟨as ++ ⟨l.gap, { l.row with value := value }⟩ :: bs, gap⟩

theorem keys_revalue (hd : d.lines = as ++ l :: bs) (value : String) :
    Line.keys (revalue as l bs d.gap value).lines = Line.keys d.lines := by
  simp [revalue, hd, Line.keys, Row.key]

/-- A line of a document with another value is one of the old lines, or the line that has the value. -/
theorem mem_revalue (hd : d.lines = as ++ l :: bs) {value : String} {k : Line}
    (hk : k ∈ (revalue as l bs d.gap value).lines) :
    k ∈ d.lines ∨ k = ⟨l.gap, { l.row with value := value }⟩ := by
  simp only [revalue, List.mem_append, List.mem_cons] at hk
  simp only [hd, List.mem_append, List.mem_cons]
  rcases hk with hk | hk | hk
  · exact .inl (.inl hk)
  · exact .inr hk
  · exact .inl (.inr (.inr hk))

/-- A sound document is sound with another value. -/
theorem Sound.revalue (h : d.Sound) (hd : d.lines = as ++ l :: bs) (value : String) :
    (revalue as l bs d.gap value).Sound := by
  have legal := h.lines l (by simp [hd])
  refine ⟨fun k hk ↦ ?_, h.filler⟩
  rcases mem_revalue hd hk with hk | rfl
  · exact h.lines k hk
  · exact ⟨legal.filler, legal.row.kind, legal.row.padding⟩

/-- A legal document is legal with another value, since its names stay. -/
theorem Legal.revalue (h : d.Legal) (hd : d.lines = as ++ l :: bs) (value : String) :
    (revalue as l bs d.gap value).Legal := by
  refine ⟨h.toSound.revalue hd value, keys_revalue hd value ▸ h.distinct, fun k hk ↦ ?_⟩
  rcases mem_revalue hd hk with hk | rfl
  · exact h.free k hk
  · exact h.free l (by simp [hd])

/-- Setting an entry that has a row changes the value of the first one. -/
theorem Sound.set_of_row (h : d.Sound) (hd : d.lines = as ++ l :: bs)
    (notBefore : l.row.key ∉ Line.keys as) (value : String)
    (file : String) {source : List Stmt} (hs : parse d.text = .ok source) :
    Edit.set .standard file l.row.kind l.row.name value.toList d.text source =
      .ok (Document.revalue as l bs d.gap value).text := by
  obtain ⟨guard, bootstrap, parsed, -, -⟩ := h.parse_text
  obtain rfl : _ = source := Except.ok.inj (parsed.symm.trans hs)
  obtain ⟨more, found⟩ := h.exists_all_of_row hd notBefore [guard, bootstrap]
  have start : (l.row.valueSpan (rowPlace as l)).start =
      Text.byteLength (upTo as l ++ l.row.lead) := by
    simp [Row.valueSpan, Span.ofPlace, rowPlace, Place.start]
  have stop : (l.row.valueSpan (rowPlace as l)).stop =
      Text.byteLength (upTo as l ++ l.row.lead ++ Quoted.quote l.row.value.toList) := by
    simp only [Row.valueSpan, Span.ofPlace, rowPlace, Place.start, Place.offset_past,
      Text.byteLength_append, Nat.zero_add]
  have spliced := Edit.splice_append start stop
    (l.row.trail ++ '\n' :: (Line.texts bs ++ d.gap ++ Template.tail.toList))
    (Quoted.quote value.toList)
  rw [← text_split hd] at spliced
  simp only [Edit.set, found, Edit.Options.standard, Bool.false_eq_true, if_false,
    Edit.substitute, spliced]
  rw [text_split (d := Document.revalue as l bs d.gap value) rfl]
  rfl

/-- The marker is found where the end begins. -/
theorem Sound.splitAtFirst_text (h : d.Sound) :
    Text.splitAtFirst Edit.standardAnchor d.text = some (d.body, Template.tail.toList) := by
  have clearLines : ∀ ls : List Line, (∀ l ∈ ls, l.Legal) →
      Text.Clear Edit.standardAnchor (Line.texts ls) := by
    intro ls hl
    induction ls with
    | nil => exact .nil
    | cons l ls ih =>
      have here := hl l List.mem_cons_self
      exact (here.filler.clear.append here.row.clear_text).append
        (ih fun k hk ↦ hl k (List.mem_cons_of_mem l hk))
  have clear : Text.Clear Edit.standardAnchor d.body :=
    ((Text.clear_of_isClear (by decide)).append (clearLines _ h.lines)).append h.filler.clear
  have here : Text.splitAtFirst Edit.standardAnchor Template.tail.toList =
      some ([], Template.tail.toList) := Template.splitAtFirst_tail
  rw [text, clear, here]
  simp

/-- A document with one more row in front of the end. -/
def add (d : Document) (r : Row) : Document := ⟨d.lines ++ [⟨d.gap, r⟩], []⟩

/-- A sound document is sound with one more row. -/
theorem Sound.add (h : d.Sound) {r : Row} (hr : r.Legal) : (d.add r).Sound := by
  refine ⟨fun k hk ↦ ?_, Filler.nil⟩
  rcases List.mem_append.1 hk with hk | hk
  · exact h.lines k hk
  · rw [List.mem_singleton.1 hk]
    exact ⟨h.filler, hr⟩

/-- A legal document is legal with one more row, if nothing has its name yet, in the document or in front
of it. -/
theorem Legal.add (h : d.Legal) {r : Row} (hr : r.Legal) (hn : r.key ∉ Line.keys d.lines)
    (free : r.name ∉ reservedNames) : (d.add r).Legal := by
  refine ⟨h.toSound.add hr, ?_, fun k hk ↦ ?_⟩
  · simp only [Document.add, Line.keys, List.map_append, List.nodup_append]
    refine ⟨h.distinct, by simp, fun a ha b hb ↦ ?_⟩
    rintro rfl
    simp only [List.map_cons, List.map_nil, List.mem_singleton] at hb
    exact hn (hb ▸ ha)
  · rcases List.mem_append.1 hk with hk | hk
    · exact h.free k hk
    · rw [List.mem_singleton.1 hk]
      exact free

/-- Setting an entry without a row puts one in front of the end. -/
theorem Sound.set_of_not_mem (h : d.Sound) {kind : EntryKind} {name : String}
    (hk : kind ≠ .inclusion) (absolute : name ≠ "ABSPATH") (hn : (kind, name) ∉ Line.keys d.lines)
    (value file : String) {source : List Stmt} (hs : parse d.text = .ok source) :
    Edit.set .standard file kind name value.toList d.text source =
      .ok (d.add (Row.fresh kind name value)).text := by
  obtain ⟨guard, bootstrap, parsed, hg, hb⟩ := h.parse_text
  obtain rfl : _ = source := Except.ok.inj (parsed.symm.trans hs)
  have inserted := h.splitAtFirst_text
  simp only [Edit.set, h.all_of_not_mem hk absolute hn hg hb, Edit.Options.standard,
    Bool.false_eq_true, if_false, if_true, Edit.insert, Edit.insertAt, inserted, Option.map_some,
    Option.getD_some]
  rw [← Row.text_fresh]
  simp [Document.add, text, body, Line.text]

/-! ### Removing an entry -/

/-- A document without one of its lines, with the gaps around it joined. -/
def drop (as : List Line) (l : Line) : List Line → List Char → Document
  | [], gap => ⟨as, l.gap ++ gap⟩
  | b :: bs, gap => ⟨as ++ ⟨l.gap ++ b.gap, b.row⟩ :: bs, gap⟩

theorem text_drop (as : List Line) (l : Line) (bs : List Line) (gap : List Char) :
    (drop as l bs gap).text = upTo as l ++ (Line.texts bs ++ gap ++ Template.tail.toList) := by
  cases bs <;> simp [drop, text, body, upTo, Line.text]

/-- A legal document is legal without one of its lines. The gaps around that line are joined, so the row
behind it has both in front of it. -/
theorem Legal.drop (h : d.Legal) (hd : d.lines = as ++ l :: bs) :
    (drop as l bs d.gap).Legal := by
  have member : ∀ k ∈ as ++ bs, k ∈ d.lines := by
    intro k hk
    rcases List.mem_append.1 hk with hk | hk <;> simp [hd, hk]
  have legal := h.lines l (by simp [hd])
  have distinct : (Line.keys (as ++ bs)).Nodup := by
    refine h.distinct.sublist ?_
    rw [hd, Line.keys, Line.keys, List.map_append, List.map_append, List.map_cons]
    exact (List.sublist_cons_self _ _).append_left _
  cases bs with
  | nil =>
    rw [List.append_nil] at distinct member
    exact ⟨⟨fun k hk ↦ h.lines k (member k hk), legal.filler.append h.filler⟩, distinct,
      fun k hk ↦ h.free k (member k hk)⟩
  | cons b bs =>
    have hb := h.lines b (by simp [hd])
    have keys : Line.keys (as ++ ⟨l.gap ++ b.gap, b.row⟩ :: bs) = Line.keys (as ++ b :: bs) := by
      simp [Line.keys]
    have other : ∀ k ∈ as ++ ⟨l.gap ++ b.gap, b.row⟩ :: bs, k = ⟨l.gap ++ b.gap, b.row⟩ ∨
        k ∈ d.lines := by
      intro k hk
      rcases List.mem_append.1 hk with hk | hk
      · exact .inr (member k (List.mem_append_left _ hk))
      · rcases List.mem_cons.1 hk with hk | hk
        · exact .inl hk
        · exact .inr (member k (List.mem_append_right _ (List.mem_cons_of_mem b hk)))
    refine ⟨⟨fun k hk ↦ ?_, h.filler⟩, keys ▸ distinct, fun k hk ↦ ?_⟩
    · rcases other k hk with rfl | hk
      · exact ⟨legal.filler.append hb.filler, hb.row⟩
      · exact h.lines k hk
    · rcases other k hk with rfl | hk
      · exact h.free b (by simp [hd])
      · exact h.free k hk

/-- An entry that has a row is defined by it alone, and when it is cut out, its line goes. -/
theorem Legal.cut_of_row (h : d.Legal) (hd : d.lines = as ++ l :: bs) {source : List Stmt}
    (hs : parse d.text = .ok source) :
    ∃ s, (Occurrence.all l.row.kind l.row.name source).map (·.statement) = [some s] ∧
      Edit.cut d.text s = (Document.drop as l bs d.gap).text := by
  obtain ⟨guard, bootstrap, parsed, hg, hb⟩ := h.parse_text
  obtain rfl : _ = source := Except.ok.inj (parsed.symm.trans hs)
  have start : (l.row.span (rowPlace as l)).start = Text.byteLength (upTo as l) := by
    simp [Row.span, Span.ofPlace, rowPlace, Place.start]
  have stop : (l.row.span (rowPlace as l)).stop = Text.byteLength (upTo as l ++ l.row.text) := by
    simp only [Row.span, Span.ofPlace, rowPlace, Place.start, Place.offset_past,
      Text.byteLength_append, Nat.zero_add]
  have cut := Edit.cut_line start stop (upTo_whole as (h.lines l (by simp [hd])).filler)
    (Line.texts bs ++ d.gap ++ Template.tail.toList)
  have whole : upTo as l ++ l.row.text ++
      '\n' :: (Line.texts bs ++ d.gap ++ Template.tail.toList) = d.text := by
    simp [text_split hd, Row.text]
  rw [whole] at cut
  exact ⟨_, congrArg (List.map (·.statement)) (h.all_of_row hd hg hb), by rw [cut, text_drop]⟩

/-! ### On the table -/

theorem keys_table (d : Document) : Assoc.keys d.table = Line.keys d.lines := by
  simp [Assoc.keys, table, Line.keys, Function.comp_def]

/-- The first line of an entry that has a row. -/
theorem exists_first_line {ls : List Line} {k : EntryKind × String} (hk : k ∈ Line.keys ls) :
    ∃ as l bs, ls = as ++ l :: bs ∧ l.row.key = k ∧ k ∉ Line.keys as := by
  obtain ⟨ks, ks', split, notBefore⟩ := List.eq_append_cons_of_mem hk
  obtain ⟨as, rest, rfl, rfl, here⟩ := List.map_eq_append_iff.1 split
  obtain ⟨l, bs, rfl, key, -⟩ := List.map_eq_cons_iff.1 here
  exact ⟨as, l, bs, rfl, key, notBefore⟩

/-- The line of an entry that is in the table. -/
theorem Legal.exists_line (h : d.Legal) {k : EntryKind × String} (hk : k ∈ Line.keys d.lines) :
    ∃ as l bs, d.lines = as ++ l :: bs ∧ l.row.key = k ∧ k ∉ Line.keys as ∧ k ∉ Line.keys bs := by
  obtain ⟨as, l, bs, hd, key, notBefore⟩ := exists_first_line hk
  have distinct := h.distinct
  rw [hd, Line.keys, List.map_append, List.map_cons, List.nodup_append, List.nodup_cons] at distinct
  exact ⟨as, l, bs, hd, key, notBefore, key ▸ distinct.2.1.1⟩

/-- Setting an entry gives a document that has rows for it and for what had one. -/
theorem Sound.exists_set (h : d.Sound) {kind : EntryKind} {name : String}
    (hk : kind = .const ∨ kind = .var ∧ Edit.isVariableName name.toList)
    (absolute : name ≠ "ABSPATH") (value : String) :
    ∃ d' : Document, d'.Sound ∧
      (∀ k, k ∈ Line.keys d'.lines ↔ k = (kind, name) ∨ k ∈ Line.keys d.lines) ∧
      ∀ file source, parse d.text = .ok source →
        Edit.set .standard file kind name value.toList d.text source = .ok d'.text := by
  by_cases mem : (kind, name) ∈ Line.keys d.lines
  · obtain ⟨as, l, bs, hd, key, notBefore⟩ := exists_first_line mem
    obtain ⟨rfl, rfl⟩ : l.row.kind = kind ∧ l.row.name = name := Prod.mk.injEq .. ▸ key
    refine ⟨Document.revalue as l bs d.gap value, h.revalue hd value, fun k ↦ ?_,
      fun file source hs ↦ h.set_of_row hd notBefore value file hs⟩
    rw [keys_revalue hd]
    exact ⟨.inr, fun hk ↦ hk.elim (· ▸ mem) id⟩
  · have legal : (Row.fresh kind name value).Legal := ⟨hk, by simp [Row.fresh]⟩
    have kind' : kind ≠ .inclusion := by
      rcases hk with rfl | ⟨rfl, -⟩ <;> simp
    refine ⟨d.add (Row.fresh kind name value), h.add legal, fun k ↦ ?_,
      fun file source hs ↦ h.set_of_not_mem kind' absolute mem value file hs⟩
    simp [Line.keys, Document.add, Row.key, Row.fresh, or_comm]

/-- Setting an entry gives a document whose table has the entry set. -/
theorem Legal.exists_set (h : d.Legal) {kind : EntryKind} {name : String}
    (hk : kind = .const ∨ kind = .var ∧ Edit.isVariableName name.toList)
    (free : name ∉ reservedNames) (value : String) :
    ∃ d' : Document, d'.Legal ∧ d'.table = Assoc.insert (kind, name) value d.table ∧
      ∀ file source, parse d.text = .ok source →
        Edit.set .standard file kind name value.toList d.text source = .ok d'.text := by
  by_cases mem : (kind, name) ∈ Line.keys d.lines
  · obtain ⟨as, l, bs, hd, key, notBefore, -⟩ := h.exists_line mem
    obtain ⟨rfl, rfl⟩ : l.row.kind = kind ∧ l.row.name = name := Prod.mk.injEq .. ▸ key
    refine ⟨Document.revalue as l bs d.gap value, h.revalue hd value, ?_,
      fun file source hs ↦ h.set_of_row hd (key ▸ notBefore) value file hs⟩
    have before : (l.row.kind, l.row.name) ∉ Assoc.keys
        (as.map fun l ↦ (l.row.key, l.row.value)) := by
      simpa [Assoc.keys, Line.keys, Function.comp_def] using notBefore
    have inserted := Assoc.insert_of_mem before (bs.map fun l ↦ (l.row.key, l.row.value))
      value l.row.value
    simpa [table, hd, Document.revalue, Row.key] using inserted.symm
  · have legal : (Row.fresh kind name value).Legal := ⟨hk, by simp [Row.fresh]⟩
    have kind' : kind ≠ .inclusion := by
      rcases hk with rfl | ⟨rfl, -⟩ <;> simp
    have absolute : name ≠ "ABSPATH" := fun ha ↦ free (by simp [reservedNames, ha])
    refine ⟨d.add (Row.fresh kind name value), h.add legal mem free, ?_,
      fun file source hs ↦ h.set_of_not_mem kind' absolute mem value file hs⟩
    rw [Assoc.insert_of_not_mem (keys_table d ▸ mem)]
    simp [table, Document.add, Row.key, Row.fresh]

/-- Removing an entry of the table gives a document whose table has it erased. -/
theorem Legal.exists_remove (h : d.Legal) {kind : EntryKind} {name : String}
    (mem : (kind, name) ∈ Line.keys d.lines) :
    ∃ d' : Document, d'.Legal ∧ d'.table = Assoc.erase (kind, name) d.table ∧
      ∀ source, parse d.text = .ok source → ∃ s,
        (Occurrence.all kind name source).map (·.statement) = [some s] ∧
          Edit.cut d.text s = d'.text := by
  obtain ⟨as, l, bs, hd, key, notBefore, notAfter⟩ := h.exists_line mem
  obtain ⟨rfl, rfl⟩ : l.row.kind = kind ∧ l.row.name = name := Prod.mk.injEq .. ▸ key
  refine ⟨Document.drop as l bs d.gap, h.drop hd, ?_, fun source hs ↦ h.cut_of_row hd hs⟩
  have before : (l.row.kind, l.row.name) ∉ Assoc.keys
      (as.map fun l ↦ (l.row.key, l.row.value)) := by
    simpa [Assoc.keys, Line.keys, Function.comp_def] using notBefore
  have after : (l.row.kind, l.row.name) ∉ Assoc.keys
      (bs.map fun l ↦ (l.row.key, l.row.value)) := by
    simpa [Assoc.keys, Line.keys, Function.comp_def] using notAfter
  have erased := Assoc.erase_of_mem before after l.row.value
  have table' : (Document.drop as l bs d.gap).table =
      as.map (fun l ↦ (l.row.key, l.row.value)) ++ bs.map fun l ↦ (l.row.key, l.row.value) := by
    cases bs <;> simp [Document.drop, table]
  rw [table', ← erased, table, hd, List.map_append, List.map_cons]
  rfl

end Document

end ConfigScript
