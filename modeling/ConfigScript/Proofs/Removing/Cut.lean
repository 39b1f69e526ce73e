import ConfigScript.Proofs.Patching.Exact
import Mathlib.Data.List.Chain

/-!
# Cutting out spans

Cutting spans out of a text, the last one first, takes away what is in the spans, and besides that only
white space on lines that are blank without them (`Edit.exists_cuts`). Which characters are gone is told
by the bytes at which they begin in the first text, which all spans are about. A cut goes by the text as
it is at that time; it does not reach the spans that are still to be cut out if a character that is no
white space stands in between, or ends the one in front (`Edit.Parted`).
-/

namespace ConfigScript

namespace Text

variable {gone gone' : Nat → Bool} {n : Nat} {as bs cs : List Char} {p : Nat × Char}

/-- The characters of a text that begins at byte `n`, each with the byte at which it begins. -/
def placed (n : Nat) : List Char → List (Nat × Char)
  | [] => []
  | c :: cs => (n, c) :: placed (n + c.utf8Size) cs

/-- What is left of a text that begins at byte `n` without the characters that are gone. -/
def without (gone : Nat → Bool) (n : Nat) (cs : List Char) : List Char :=
  ((placed n cs).filter fun p ↦ !gone p.1).map Prod.snd

/-- No line break lies between bytes `m` and `n` of the text. The one at the end of a line belongs to that
line. -/
def OnOneLine (source : List Char) (m n : Nat) : Prop :=
  ∀ p ∈ placed 0 source, p.2 = '\n' → ¬(min m n ≤ p.1 ∧ p.1 < max m n)

theorem placed_append (n : Nat) (as bs : List Char) :
    placed n (as ++ bs) = placed n as ++ placed (n + byteLength as) bs := by
  induction as generalizing n with
  | nil => rfl
  | cons a as ih => rw [List.cons_append, placed, placed, ih, byteLength_cons, Nat.add_assoc]; rfl

theorem map_snd_placed (n : Nat) (cs : List Char) : (placed n cs).map Prod.snd = cs := by
  induction cs generalizing n with
  | nil => rfl
  | cons c cs ih => rw [placed, List.map_cons, ih]

/-- The characters of a text begin within its bytes. -/
theorem bounds_of_mem_placed (h : p ∈ placed n cs) : n ≤ p.1 ∧ p.1 < n + byteLength cs := by
  induction cs generalizing n with
  | nil => cases h
  | cons c cs ih =>
    have pos := Char.utf8Size_pos c
    rw [byteLength_cons]
    rcases List.mem_cons.1 h with rfl | h
    · exact ⟨Nat.le_refl n, by show n < _; omega⟩
    · have := ih h
      omega

theorem mem_of_mem_placed (h : p ∈ placed n cs) : p.2 ∈ cs := by
  rw [← map_snd_placed n cs]
  exact List.mem_map_of_mem h

/-- A character stands where the text in front of it ends. -/
theorem mem_placed (as : List Char) {c : Char} (bs : List Char) :
    (byteLength as, c) ∈ placed 0 (as ++ c :: bs) := by
  rw [placed_append, Nat.zero_add]
  exact List.mem_append_right _ List.mem_cons_self

theorem without_append (gone : Nat → Bool) (n : Nat) (as bs : List Char) :
    without gone n (as ++ bs) = without gone n as ++ without gone (n + byteLength as) bs := by
  rw [without, placed_append, List.filter_append, List.map_append]
  rfl

theorem without_congr (same : ∀ p ∈ placed n cs, gone p.1 = gone' p.1) :
    without gone n cs = without gone' n cs := by
  rw [without, without, List.filter_congr fun p hp ↦ by rw [same p hp]]

theorem without_of_kept (kept : ∀ p ∈ placed n cs, gone p.1 = false) : without gone n cs = cs := by
  rw [without, List.filter_eq_self.2 fun p hp ↦ by rw [kept p hp]; rfl, map_snd_placed]

theorem without_of_gone (all : ∀ p ∈ placed n cs, gone p.1) : without gone n cs = [] := by
  rw [without, List.filter_eq_nil_iff.2 fun p hp ↦ by rw [all p hp]; nofun]
  rfl

theorem mem_without (h : p ∈ placed n cs) (kept : gone p.1 = false) : p.2 ∈ without gone n cs :=
  List.mem_map_of_mem (List.mem_filter.2 ⟨h, by rw [kept]; rfl⟩)

theorem without_cons (gone : Nat → Bool) (n : Nat) (c : Char) (cs : List Char) :
    without gone n (c :: cs) = if gone n then without gone (n + c.utf8Size) cs
      else c :: without gone (n + c.utf8Size) cs := by
  rw [without, placed, List.filter_cons]
  cases gone n <;> rfl

/-- What begins within a stretch of the text is in the stretch. -/
theorem mem_placed_of_bounds (h : p ∈ placed 0 (as ++ (bs ++ cs))) (low : byteLength as ≤ p.1)
    (high : p.1 < byteLength (as ++ bs)) : p ∈ placed (byteLength as) bs := by
  rw [placed_append, placed_append, Nat.zero_add] at h
  rw [byteLength_append] at high
  rcases List.mem_append.1 h with front | h
  · have := bounds_of_mem_placed front
    omega
  rcases List.mem_append.1 h with here | back
  · exact here
  · have := bounds_of_mem_placed back
    omega

/-- One more stretch is gone, and nothing in front of it. -/
theorem without_stretch (lower : ∀ n, gone n → byteLength as ≤ n)
    (more : ∀ n, gone' n ↔ gone n ∨ byteLength as ≤ n ∧ n < byteLength (as ++ bs)) :
    without gone' 0 (as ++ (bs ++ cs)) = as ++ without gone (byteLength (as ++ bs)) cs := by
  have kept : ∀ p ∈ placed 0 as, gone' p.1 = false := by
    intro p hp
    have := bounds_of_mem_placed hp
    rw [Bool.eq_false_iff, ne_eq, more]
    rintro (lost | ⟨low, -⟩)
    · have := lower p.1 lost
      omega
    · omega
  have dropped : ∀ p ∈ placed (byteLength as) bs, gone' p.1 := by
    intro p hp
    rw [more, byteLength_append]
    exact .inr (bounds_of_mem_placed hp)
  have same : ∀ p ∈ placed (byteLength as + byteLength bs) cs, gone' p.1 = gone p.1 := by
    intro p hp
    have := bounds_of_mem_placed hp
    rw [Bool.eq_iff_iff, more, byteLength_append]
    exact ⟨fun h ↦ h.resolve_right (by omega), .inl⟩
  rw [without_append, without_append, Nat.zero_add, without_of_kept kept, without_of_gone dropped,
    without_congr same, byteLength_append, List.nil_append]

/-- A text is split behind a character that is left of it. -/
theorem exists_of_without {c : Char} (h : without gone n cs = as ++ c :: bs) :
    ∃ xs ys, cs = xs ++ c :: ys ∧ without gone n (xs ++ [c]) = as ++ [c] ∧
      without gone (n + byteLength (xs ++ [c])) ys = bs := by
  induction cs generalizing n as with
  | nil => simp [without, placed] at h
  | cons d cs ih =>
    rw [without_cons] at h
    have later : ∀ {as' : List Char}, without gone (n + d.utf8Size) cs = as' ++ c :: bs →
        (∀ zs, without gone (n + d.utf8Size) zs = as' ++ [c] → without gone n (d :: zs) = as ++ [c]) →
        ∃ xs ys, d :: cs = xs ++ c :: ys ∧ without gone n (xs ++ [c]) = as ++ [c] ∧
          without gone (n + byteLength (xs ++ [c])) ys = bs := by
      intro as' rest front
      obtain ⟨xs, ys, rfl, left, right⟩ := ih rest
      refine ⟨d :: xs, ys, rfl, front _ left, ?_⟩
      rwa [List.cons_append, byteLength_cons, ← Nat.add_assoc]
    split at h
    · rename_i here
      exact later h fun zs left ↦ by rw [without_cons, if_pos here, left]
    · rename_i here
      cases as with
      | nil =>
        obtain ⟨rfl, rest⟩ := List.cons.inj h
        exact ⟨[], cs, rfl, by rw [List.nil_append, without_cons, if_neg here]; rfl, by simpa using rest⟩
      | cons a as =>
        obtain ⟨rfl, rest⟩ := List.cons.inj h
        exact later rest fun zs left ↦ by rw [without_cons, if_neg here, left]; rfl

/-- A text is split as what is left of it is, at the end or behind a certain character. -/
theorem exists_split_of_without {c : Char} (h : without gone n cs = as ++ bs)
    (ends : bs = [] ∨ ∃ ds, as = ds ++ [c]) :
    ∃ u v, cs = u ++ v ∧ without gone n u = as ∧ without gone (n + byteLength u) v = bs ∧
      (v = [] ∨ ∃ ds, u = ds ++ [c]) := by
  rcases ends with rfl | ⟨ds, rfl⟩
  · exact ⟨cs, [], by simp, by simpa using h, rfl, .inl rfl⟩
  · obtain ⟨xs, ys, rfl, left, right⟩ :=
      exists_of_without (h.trans (List.append_assoc ds [c] bs))
    exact ⟨xs ++ [c], ys, by simp, left, right, .inr ⟨xs, rfl⟩⟩

end Text

namespace Edit

open Script

/-! ### A cut -/

/-- The head of a line is behind a line break or begins the text. -/
theorem exists_lineHead (cs : List Char) : ∃ front, cs = front ++ lineHead cs ∧
    (front = [] ∨ ∃ ds, front = ds ++ ['\n']) := by
  refine ⟨(cs.reverse.dropWhile (· != '\n')).reverse, ?_, ?_⟩
  · rw [lineHead, ← List.reverse_append, List.takeWhile_append_dropWhile, List.reverse_reverse]
  · cases rest : cs.reverse.dropWhile (· != '\n') with
    | nil => exact .inl rfl
    | cons d ds =>
      have feed := List.head?_dropWhile_not (· != '\n') cs.reverse
      rw [rest] at feed
      exact .inr ⟨ds.reverse, by simpa using feed⟩

/-- The tail of a line ends with a line break or ends the text. -/
theorem exists_lineTail (cs : List Char) : ∃ back, cs = lineTail cs ++ back ∧
    (back = [] ∨ ∃ ds, lineTail cs = ds ++ ['\n']) := by
  refine ⟨(cs.dropWhile (· != '\n')).drop 1, ?_, ?_⟩
  · rw [lineTail, List.append_assoc, List.take_append_drop, List.takeWhile_append_dropWhile]
  · cases rest : cs.dropWhile (· != '\n') with
    | nil => exact .inl rfl
    | cons d ds =>
      have feed := List.head?_dropWhile_not (· != '\n') cs
      rw [rest] at feed
      refine .inr ⟨cs.takeWhile (· != '\n'), ?_⟩
      rw [lineTail, rest]
      simpa using feed

/-- A cut takes away the text of the span, or whole lines on which besides that only white space is. -/
theorem cut_cases {text x w y : List Char} {s : Span} (around : Around text s x w y) :
    cut text s = x ++ y ∨ ∃ front head tail back, x = front ++ head ∧ y = tail ++ back ∧
      (∀ c ∈ head, Text.isBlank c) ∧ (∀ c ∈ tail, Text.isBlank c) ∧
      (front = [] ∨ ∃ ds, front = ds ++ ['\n']) ∧ (back = [] ∨ ∃ ds, tail = ds ++ ['\n']) ∧
      cut text s = front ++ back := by
  have behind : after text s = y := by
    rw [after, around.text, around.stop, ← List.append_assoc, Text.dropBytes_byteLength_append]
  unfold cut
  rw [around.before, behind]
  dsimp only
  split
  · rename_i blank
    rw [Bool.and_eq_true, List.all_eq_true, List.all_eq_true] at blank
    obtain ⟨front, whole, begins⟩ := exists_lineHead x
    obtain ⟨back, whole', ends⟩ := exists_lineTail y
    refine .inr ⟨front, _, _, back, whole, whole', blank.1, blank.2, begins, ends, ?_⟩
    have left : x.take (x.length - (lineHead x).length) = front := by
      have length := congrArg List.length whole
      rw [List.length_append] at length
      rw [show x.length - (lineHead x).length = front.length by omega]
      exact (congrArg (List.take front.length) whole).trans List.take_left
    have right : y.drop (lineTail y).length = back :=
      (congrArg (List.drop (lineTail y).length) whole').trans List.drop_left
    rw [left, right]
  · exact .inl rfl

/-! ### Cuts from the back -/

/-- The byte at `n` is in one of the spans. -/
def Covered (spans : List Span) (n : Nat) : Prop := ∃ s ∈ spans, s.start ≤ n ∧ n < s.stop

/-- A character that is no white space ends the span `s` or stands between it and the span `t`. -/
def Parted (source : List Char) (s t : Span) : Prop :=
  ∃ p ∈ Text.placed 0 source, Text.isBlank p.2 = false ∧ s.stop ≤ p.1 + 1 ∧ p.1 < t.start

/-- What is gone from a text: the spans, and besides them white space that they leave on lines. -/
structure Removed (source : List Char) (spans : List Span) (gone : Nat → Bool) : Prop where
  /-- All that is in the spans is gone. -/
  covered : ∀ p ∈ Text.placed 0 source, Covered spans p.1 → gone p.1
  /-- What else is gone is white space, on a line with nothing else besides the spans. -/
  blank : ∀ p ∈ Text.placed 0 source, gone p.1 → Covered spans p.1 ∨ Text.isBlank p.2 ∧
    ∀ q ∈ Text.placed 0 source, Text.OnOneLine source p.1 q.1 → Covered spans q.1 ∨ Text.isBlank q.2

/-- What is gone from a text after spans were cut out of it, the last one first. -/
structure Cuts (source : List Char) (spans : List Span) (gone : Nat → Bool) : Prop
    extends Removed source spans gone where
  /-- Nothing is gone up to a character in front of the first span that is no white space. -/
  behind : ∀ s ∈ spans.head?, ∀ p ∈ Text.placed 0 source, Text.isBlank p.2 = false → p.1 < s.start →
    ∀ n, gone n → p.1 < n
  none : spans = [] → ∀ n, gone n = false

section Step

variable {source : List Char} {s : Span} {ss : List Span} {gone : Nat → Bool}

theorem Covered.tail {n : Nat} (h : Covered ss n) : Covered (s :: ss) n := by
  obtain ⟨t, mem, inside⟩ := h
  exact ⟨t, List.mem_cons_of_mem _ mem, inside⟩

/-- One more stretch of the text is taken away, with a span in it. -/
theorem Cuts.cons {a b d : List Char} (cuts : Cuts source ss gone) (whole : source = a ++ (b ++ d))
    (lower : ∀ n, gone n → Text.byteLength a ≤ n) (start : Text.byteLength a ≤ s.start)
    (stop : s.stop ≤ Text.byteLength (a ++ b))
    (inside : ∀ p ∈ Text.placed (Text.byteLength a) b, Covered (s :: ss) p.1 ∨ Text.isBlank p.2 ∧
      ∀ q ∈ Text.placed 0 source, Text.OnOneLine source p.1 q.1 →
        Covered (s :: ss) q.1 ∨ Text.isBlank q.2)
    (front : ∀ p ∈ Text.placed 0 source, Text.isBlank p.2 = false → p.1 < s.start →
      p.1 < Text.byteLength a) :
    ∃ gone', Cuts source (s :: ss) gone' ∧ Text.without gone' 0 source =
      a ++ Text.without gone (Text.byteLength (a ++ b)) d := by
  let gone' : Nat → Bool := fun n ↦
    gone n || decide (Text.byteLength a ≤ n ∧ n < Text.byteLength (a ++ b))
  have gone_iff : ∀ n, gone' n ↔ gone n ∨ Text.byteLength a ≤ n ∧ n < Text.byteLength (a ++ b) := by
    intro n
    simp only [gone', Bool.or_eq_true, decide_eq_true_eq]
  refine ⟨gone', ⟨⟨?_, ?_⟩, ?_, nofun⟩, ?_⟩
  · rintro p hp ⟨t, mem, low, high⟩
    rw [gone_iff]
    rcases List.mem_cons.1 mem with rfl | mem
    · exact .inr ⟨by omega, by omega⟩
    · exact .inl (cuts.covered p hp ⟨t, mem, low, high⟩)
  · intro p hp lost
    rcases (gone_iff _).1 lost with lost | ⟨low, high⟩
    · exact (cuts.blank p hp lost).imp .tail fun ⟨blank, line⟩ ↦
        ⟨blank, fun q hq near ↦ (line q hq near).imp_left .tail⟩
    · exact inside p (Text.mem_placed_of_bounds (whole ▸ hp) low high)
  · intro t ht p hp solid lt n lost
    obtain rfl := Option.some.inj ht
    have := front p hp solid lt
    rcases (gone_iff _).1 lost with lost | ⟨low, -⟩
    · have := lower n lost
      omega
    · omega
  · rw [whole, Text.without_stretch lower gone_iff]

/-- A stretch between line breaks holds the lines of all of its characters. -/
theorem mem_of_onOneLine {a b d : List Char} (whole : source = a ++ (b ++ d))
    (begins : a = [] ∨ ∃ ds, a = ds ++ ['\n']) (ends : d = [] ∨ ∃ ds, b = ds ++ ['\n'])
    {p q : Nat × Char} (hp : p ∈ Text.placed (Text.byteLength a) b) (hq : q ∈ Text.placed 0 source)
    (near : Text.OnOneLine source p.1 q.1) : q ∈ Text.placed (Text.byteLength a) b := by
  have feed : ∀ xs ys : List Char, source = xs ++ '\n' :: ys →
      (Text.byteLength xs, '\n') ∈ Text.placed 0 source := by
    rintro xs ys rfl
    exact Text.mem_placed xs ys
  have one : Text.byteLength ['\n'] = 1 := rfl
  have here := Text.bounds_of_mem_placed hp
  have mem := hq
  rw [whole, Text.placed_append, Text.placed_append, Nat.zero_add] at mem
  rcases List.mem_append.1 mem with front | mem
  · rcases begins with rfl | ⟨ds, rfl⟩
    · cases front
    have there := Text.bounds_of_mem_placed front
    rw [Text.byteLength_append, one] at here there
    have between := near _ (feed ds (b ++ d) (by simp [whole])) rfl
    exact absurd ⟨by dsimp only; omega, by dsimp only; omega⟩ between
  rcases List.mem_append.1 mem with mem | back
  · exact mem
  · rcases ends with rfl | ⟨ds, rfl⟩
    · cases back
    have there := Text.bounds_of_mem_placed back
    rw [Text.byteLength_append, one] at here there
    have between := near _ (feed (a ++ ds) d (by simp [whole])) rfl
    rw [Text.byteLength_append] at between
    exact absurd ⟨by dsimp only; omega, by dsimp only; omega⟩ between

/-- The lines of a span are taken away, on which besides that only white space is left. -/
theorem Cuts.lines {front head w u v : List Char} (cuts : Cuts source ss gone)
    (whole : source = (front ++ head) ++ (w ++ (u ++ v)))
    (start : s.start = Text.byteLength (front ++ head))
    (stop : s.stop = Text.byteLength (front ++ head ++ w)) (lower : ∀ n, gone n → s.stop ≤ n)
    (heads : ∀ c ∈ head, Text.isBlank c) (tails : ∀ c ∈ Text.without gone s.stop u, Text.isBlank c)
    (begins : front = [] ∨ ∃ ds, front = ds ++ ['\n']) (ends : v = [] ∨ ∃ ds, u = ds ++ ['\n']) :
    ∃ gone', Cuts source (s :: ss) gone' ∧ Text.without gone' 0 source =
      front ++ Text.without gone (s.stop + Text.byteLength u) v := by
  have parts : source = front ++ ((head ++ (w ++ u)) ++ v) := by simp [whole]
  have blank : ∀ p ∈ Text.placed (Text.byteLength front) (head ++ (w ++ u)),
      Covered (s :: ss) p.1 ∨ Text.isBlank p.2 := by
    intro p hp
    rw [Text.placed_append, Text.placed_append, ← Text.byteLength_append, ← Text.byteLength_append]
      at hp
    rcases List.mem_append.1 hp with hp | hp
    · exact .inr (heads p.2 (Text.mem_of_mem_placed hp))
    rcases List.mem_append.1 hp with hp | hp
    · have := Text.bounds_of_mem_placed hp
      rw [← Text.byteLength_append] at this
      exact .inl ⟨s, List.mem_cons_self, by omega, by omega⟩
    cases lost : gone p.1 with
    | false => exact .inr (tails p.2 (Text.mem_without (stop ▸ hp) lost))
    | true =>
      have mem : p ∈ Text.placed 0 source := by
        rw [show source = (front ++ head ++ w) ++ (u ++ v) by simp [whole],
          Text.placed_append 0 (front ++ head ++ w), Nat.zero_add, Text.placed_append _ u]
        exact List.mem_append_right _ (List.mem_append_left _ hp)
      exact (cuts.blank p mem lost).imp .tail And.left
  have closes : v = [] ∨ ∃ ds, head ++ (w ++ u) = ds ++ ['\n'] :=
    ends.imp_right fun ⟨ds, same⟩ ↦ ⟨head ++ (w ++ ds), by simp [same]⟩
  -- A character in front of the span that is no white space is not in the head of the line.
  have clear : ∀ p ∈ Text.placed 0 source, Text.isBlank p.2 = false → p.1 < s.start →
      p.1 < Text.byteLength front := by
    intro p hp solid lt
    rw [start] at lt
    by_contra low
    rw [whole, List.append_assoc] at hp
    have inside := Text.mem_placed_of_bounds hp (by omega) lt
    rw [heads p.2 (Text.mem_of_mem_placed inside)] at solid
    cases solid
  have length : Text.byteLength (front ++ (head ++ (w ++ u))) = s.stop + Text.byteLength u := by
    rw [stop, ← Text.byteLength_append]
    simp
  rw [Text.byteLength_append] at start stop
  rw [Text.byteLength_append] at stop
  obtain ⟨gone', after, same⟩ := cuts.cons parts (fun n lost ↦ by have := lower n lost; omega)
    (by omega) (by omega)
    (fun p hp ↦ (blank p hp).imp_right fun isBlank ↦
      ⟨isBlank, fun q hq near ↦ blank q (mem_of_onOneLine parts begins closes hp hq near)⟩) clear
  exact ⟨gone', after, by rw [same, length]⟩

/-- A span is cut out in front of others. -/
theorem Cuts.cut {x w y : List Char} (cuts : Cuts source ss gone) (around : Around source s x w y)
    (lower : ∀ n, gone n → s.stop ≤ n) : ∃ gone', Cuts source (s :: ss) gone' ∧
      Text.without gone' 0 source = cut (Text.without gone 0 source) s := by
  obtain ⟨whole, start, stop⟩ := around
  have kept : Text.without gone 0 (x ++ w) = x ++ w := Text.without_of_kept fun p hp ↦ by
    have := Text.bounds_of_mem_placed hp
    rw [Bool.eq_false_iff]
    intro lost
    have := lower p.1 lost
    omega
  -- Up to the end of the span the text is still the first one.
  have left : Around (Text.without gone 0 source) s x w (Text.without gone s.stop y) := by
    refine ⟨?_, start, stop⟩
    rw [whole, ← List.append_assoc, Text.without_append, kept, Nat.zero_add, ← stop, List.append_assoc]
  rcases cut_cases left with done | ⟨front, head, tail, back, rfl, rest, hb, tb, begins, ends, done⟩
  · rw [Text.byteLength_append] at stop
    obtain ⟨gone', after, same⟩ := cuts.cons whole (fun n lost ↦ by have := lower n lost; omega)
      (Nat.le_of_eq start.symm) (by rw [Text.byteLength_append, stop])
      (fun p hp ↦ .inl ⟨s, List.mem_cons_self, by have := Text.bounds_of_mem_placed hp; omega⟩)
      fun p _ _ lt ↦ start ▸ lt
    exact ⟨gone', after, same.trans (by rw [done, Text.byteLength_append, stop])⟩
  · -- The tail of the line is what is left of `u`.
    obtain ⟨u, v, rfl, hu, hv, closes⟩ := Text.exists_split_of_without rest ends
    obtain ⟨gone', after, same⟩ := cuts.lines whole start stop lower hb (hu ▸ tb) begins closes
    exact ⟨gone', after, same.trans (by rw [done, hv])⟩

/-- Spans that are parted are cut out, the last one first. -/
theorem exists_cuts {source : List Char} {ss : List Span}
    (bounded : ∀ s ∈ ss, ∃ x w y, Around source s x w y) (parted : ss.IsChain (Parted source)) :
    ∃ gone, Cuts source ss gone ∧
      Text.without gone 0 source = ss.foldr (fun s text ↦ cut text s) source := by
  induction ss with
  | nil =>
    refine ⟨fun _ ↦ false, ⟨⟨?_, nofun⟩, nofun, fun _ _ ↦ rfl⟩, Text.without_of_kept fun _ _ ↦ rfl⟩
    rintro p - ⟨s, mem, -⟩
    cases mem
  | cons s ss ih =>
    obtain ⟨gone, cuts, same⟩ := ih (fun t ht ↦ bounded t (List.mem_cons_of_mem _ ht)) parted.tail
    obtain ⟨x, w, y, around⟩ := bounded s List.mem_cons_self
    rw [List.foldr_cons, ← same]
    refine cuts.cut around fun n lost ↦ ?_
    cases ss with
    | nil =>
      rw [cuts.none rfl n] at lost
      cases lost
    | cons t ss =>
      obtain ⟨p, mem, solid, behind, front⟩ := (List.isChain_cons_cons.1 parted).1
      have := cuts.behind t rfl p mem solid front n lost
      omega

end Step

end Edit

end ConfigScript
