import ConfigScript.Proofs.Parsing.Arranged
import ConfigScript.Proofs.Parsing.Order
import ConfigScript.Proofs.Running.Keeping

/-!
# Scripts with an edited value

Two scripts that differ in the value of one definition (`Edited`). In front of the value their
expressions do the same, and the one around the value reaches the definition in both
(`Edited.reaches_value`).
-/

namespace ConfigScript

open Script

/-! ### The edited script -/

/-- A call that asks whether its arguments are set, which may evaluate them twice. -/
def Expr.asks : Expr → Bool
  | .call _ n _ => sameWord n.toList "isset".toList || sameWord n.toList "empty".toList
  | _ => false

/-- Two scripts, the second of which is the patched first one, with another value `x` in the definition
at `hole`. The outermost expressions of the first one are `rs`. -/
structure Edited (kind : EntryKind) (name : String) (x : Value) (f f' : Frame) (k : Patch)
    (hole : Span) (rs : List Root) : Prop where
  place : k.hole = some hole
  nonempty : hole.start < hole.stop
  new : ∀ f : Frame, (f.meaning k.new).value = pure x
  same : ∀ s name vs, Builtin.call f.environment s name vs = Builtin.call f'.environment s name vs
  file : f.file = f'.file
  /-- In front of the value the scripts are the same. -/
  unknown : ∀ s : Span, IsBoundary f.source s.start → s.start < s.stop → s.stop ≤ hole.start →
    f.unknown s = f'.unknown (k.move s)
  line : ∀ s : Span, s.start < s.stop → s.stop ≤ hole.start → (k.move s).line = s.line
  long : ∀ r ∈ rs, ∀ n ∈ r.expr.nodes, n.span.start < n.span.stop
  begins : ∀ r ∈ rs, BeginAt (fun s ↦ IsBoundary f.source s.start) r.expr
  distinct : ∀ r ∈ rs, r.expr.Distinct
  arranged : ∀ r ∈ rs, r.expr.Arranged
  /-- The constants that are defined have texts for their names. -/
  named : kind = .const → ∀ r ∈ rs, ∀ n ∈ r.expr.nodes, ∀ s m a v es,
    n = .call s m (a :: v :: es) → sameWord m.toList "define".toList → a.literalText?.isSome
  /-- Where the value may be evaluated twice, the lines that are asked for stay the same. -/
  lines : ∀ r ∈ rs, ∀ c ∈ r.expr.nodes, c.asks → ∀ w ∈ c.nodes, w.span = hole →
    ∀ s, .magic s .line ∈ c.nodes → (k.move s).line = s.line

namespace Edited

open Invariant

variable {kind : EntryKind} {name : String} {x : Value} {f f' : Frame} {k : Patch} {hole : Span}
  {rs qs : List Root} {r : Root} {runner runner' : Option Runner}
  (E : Edited kind name x f f' k hole rs)

/-- A call of `define` with a text for the name defines its second argument. -/
theorem definedValue?_call {s : Span} {m : String} {a v : Expr} {es : List Expr}
    (word : sameWord m.toList "define".toList) (text : a.literalText? = some name) :
    Occurrence.definedValue? name (.call s m (a :: v :: es)) = some v := by
  show (if _ && _ then some v else none) = some v
  rw [word, text, Bool.true_and, beq_self_eq_true, if_pos rfl]

include E

/-- An expression without a definition of the entry defines others only. -/
theorem mayDefine {e : Expr} (mem : r ∈ rs) (sub : ∀ n ∈ e.nodes, n ∈ r.expr.nodes)
    (none : e.definitions kind name = 0) : (lacks kind name).MayDefine e := by
  intro n hn s m a v es is word
  match kind with
  | .var | .inclusion => exact .inl fun _ ↦ nofun
  | .const =>
    obtain ⟨l, text⟩ := Option.isSome_iff_exists.1 (E.named rfl r mem n (sub n hn) s m a v es is word)
    refine .inr ⟨l, text, fun _ same ↦ ?_⟩
    have absent := List.countP_eq_zero.1 none n hn
    subst is same
    rw [definedValue?_call word text] at absent
    exact absent rfl

theorem keeps_value {e : Expr} (mem : r ∈ rs) (sub : ∀ n ∈ e.nodes, n ∈ r.expr.nodes)
    (none : e.definitions kind name = 0) :
    (lacks kind name).Pure (f.eval e) (f.eval (Patch.still.expr e)) :=
  pure_still (E.mayDefine mem sub none) f

theorem ne_hole {e : Expr} (before : e.span.stop ≤ hole.start) : k.hole ≠ some e.span := fun here ↦ by
  have := E.nonempty
  rw [← Option.some.inj (E.place.symm.trans here)] at before
  omega

/-- An expression in front of the value does the same in both scripts. -/
theorem pure_of_before {e : Expr} (mem : r ∈ rs) (sub : ∀ n ∈ e.nodes, n ∈ r.expr.nodes)
    (none : e.definitions kind name = 0) (before : ∀ n ∈ e.nodes, n.span.stop ≤ hole.start) :
    (lacks kind name).Pure (f.eval e) (f'.eval (k.expr e)) := by
  refine pure_of_away E.same E.file (E.mayDefine mem sub none) (fun n hn ↦ E.ne_hole (before n hn))
    (fun n hn ↦ ?_) fun n hn ↦ E.line _ (E.long r mem n (sub n hn)) (before n hn)
  exact E.unknown _ (E.begins r mem n (sub n hn)) (E.long r mem n (sub n hn)) (before n hn)

omit E in
/-- Of the elements of a list, only one is counted. -/
theorem eq_of_countP {α : Type} {p : α → Bool} {as : List α} (once : as.countP p ≤ 1) {a b : α}
    (ha : a ∈ as) (hb : b ∈ as) (pa : p a) (pb : p b) : a = b := by
  induction as with
  | nil => cases ha
  | cons c as ih =>
    rw [List.countP_cons] at once
    have later : ∀ {d}, d ∈ as → p d → 0 < as.countP p := fun hd pd ↦ List.countP_pos_iff.2 ⟨_, hd, pd⟩
    rcases List.mem_cons.1 ha with rfl | ha' <;> rcases List.mem_cons.1 hb with rfl | hb'
    · rfl
    · have := later hb' pb
      rw [if_pos pa] at once
      omega
    · have := later ha' pa
      rw [if_pos pb] at once
      omega
    · exact ih (by omega) ha' hb'

/-! ### The expression around the value -/

section Around

variable (const : kind = .const) (mem : r ∈ rs) (once : r.expr.definitions kind name ≤ 1) {d w : Expr}
  (inside : d ∈ r.expr.nodes) (defines : Occurrence.definedValue? name d = some w)
  (value : w.span = hole)

include const mem once inside defines

omit E mem in
/-- Beside the definition, the entry is not defined. -/
theorem only_definition {e : Expr} (sub : ∀ n ∈ e.nodes, n ∈ r.expr.nodes) (other : d ∉ e.nodes) :
    e.definitions kind name = 0 := by
  subst const
  refine List.countP_eq_zero.2 fun n hn defined ↦ other ?_
  rwa [eq_of_countP once inside (sub n hn) (by rw [defines]; rfl) defined]

include value

/-- A call that may evaluate the definition twice. -/
theorem attains_of_asks {e : Expr} (sub : ∀ n ∈ e.nodes, n ∈ r.expr.nodes) (here : d ∈ e.nodes)
    (part : w ∈ e.nodes) (asks : e.asks) :
    Attains (lacks kind name) (has kind name x) (f.eval e) (f'.eval (k.expr e)) := by
  subst const
  have own : e ∈ r.expr.nodes := sub e e.mem_nodes
  have alike : Meaning.Alike (.until name x) (f.meaning e) (f'.meaning (k.expr e)) := by
    refine Frame.until_alike E.same ((E.distinct r mem).inside own) here defines
      (by rw [E.place, value]) E.new (fun n hn other s m a v es is word ↦ ?_)
      (E.lines r mem e own asks w part value) E.file
    obtain ⟨l, text⟩ := Option.isSome_iff_exists.1 (E.named rfl r mem n (sub n hn) s m a v es is word)
    refine ⟨l, text, fun same ↦ other ?_⟩
    refine eq_of_countP once (sub n hn) inside ?_ (by rw [defines]; rfl)
    subst is same
    rw [definedValue?_call word text]
    rfl
  intro s absent
  have near : (Likeness.until name x).scope s s :=
    ⟨rfl, fun n ↦ (Likeness.until name x).rel_refl _, absent⟩
  rcases alike.value.alike s s near with settled | ⟨-, near⟩
  · exact .inl settled
  · exact .inr near.2.2

/-- Around the definition, the other parts stand in front of the part that holds it or behind that. -/
theorem beside_definition {e p : Expr} {as bs : List Expr} (sub : ∀ n ∈ e.nodes, n ∈ r.expr.nodes)
    (parts : e.parts = as ++ p :: bs) (here : d ∈ p.nodes) :
    (∀ a ∈ as, a.definitions kind name = 0 ∧ ∀ n ∈ a.nodes, n.span.stop ≤ hole.start) ∧
      ∀ b ∈ bs, b.definitions kind name = 0 := by
  have within : ∀ q ∈ e.parts, ∀ n ∈ q.nodes, n ∈ r.expr.nodes := fun q hq n hn ↦ sub n <| by
    rw [Expr.nodes_eq_parts]
    exact List.mem_cons_of_mem _ (List.mem_flatMap.2 ⟨q, hq, hn⟩)
  have arranged := E.arranged r mem e (sub e e.mem_nodes)
  rw [parts] at arranged within
  obtain ⟨-, behind, front⟩ := List.pairwise_append.1 arranged
  have long := E.long r mem d inside
  have whole : w ∈ p.nodes := by
    obtain ⟨s, n, a, es, rfl, -⟩ := Occurrence.definedValue?_eq_some defines
    refine Expr.nodes_trans ?_ here
    rw [Expr.nodes_eq_parts]
    exact List.mem_cons_of_mem _
      (List.mem_flatMap.2 ⟨w, List.mem_cons_of_mem _ List.mem_cons_self, w.mem_nodes⟩)
  refine ⟨fun a ha ↦ ⟨?_, fun n hn ↦ ?_⟩, fun b hb ↦ ?_⟩
  · refine only_definition const once inside defines (within a (by simp [ha])) fun there ↦ ?_
    have := front a ha p List.mem_cons_self d there d here
    omega
  · rw [← value]
    exact front a ha p List.mem_cons_self n hn w whole
  · refine only_definition const once inside defines (within b (by simp [hb])) fun there ↦ ?_
    have := (List.pairwise_cons.1 behind).1 b hb d here d there
    omega

omit E const mem once inside value in
/-- A definition is no text. -/
theorem not_mem_of_literalText? {a : Expr} (text : a.literalText?.isSome) : d ∉ a.nodes := by
  obtain ⟨s, n, b, es, rfl, -⟩ := Occurrence.definedValue?_eq_some defines
  unfold Expr.literalText? at text
  split at text
  · simp [Expr.nodes]
  · cases text

/-- A call of `define` around the definition: the definition is part of its value, or is not
evaluated. -/
theorem attains_define {s : Span} {m : String} {es as bs : List Expr} {p : Expr}
    (sub : ∀ n ∈ (Expr.call s m es).nodes, n ∈ r.expr.nodes) (parts : es = as ++ p :: bs)
    (here : d ∈ p.nodes) (other : d ≠ .call s m es) (word : sameWord m.toList "define".toList)
    (part : Attains (lacks kind name) (has kind name x) (f.eval p) (f'.eval (k.expr p))) :
    Attains (lacks kind name) (has kind name x) (Meaning.define (es.map f.meaning))
      (Meaning.define ((es.map k.expr).map f'.meaning)) := by
  obtain ⟨front, -⟩ := E.beside_definition const mem once inside defines value sub
    (e := .call s m es) parts here
  have own : .call s m es ∈ r.expr.nodes := sub _ (Expr.mem_nodes _)
  match es with
  | [] => simp at parts
  | [a] => exact (Kept.pure _).attains
  | a :: v :: es =>
    subst const
    obtain ⟨l, text⟩ := Option.isSome_iff_exists.1 (E.named rfl r mem _ own s m a v es rfl word)
    have ne : l ≠ name := by
      rintro rfl
      refine other (eq_of_countP once inside own (by rw [defines]; rfl) ?_)
      rw [definedValue?_call word text]
      rfl
    -- The definition is not in the name, which is a text. It is in the value, or behind it, where it is
    -- not evaluated.
    match as with
    | [] =>
      obtain ⟨rfl, -⟩ := List.cons.inj parts
      exact absurd here (not_mem_of_literalText? defines (by rw [text]; rfl))
    | [_] =>
      obtain ⟨rfl, rest⟩ := List.cons.inj parts
      obtain ⟨rfl, -⟩ := List.cons.inj rest
      have before := (front a List.mem_cons_self).2 a a.mem_nodes
      refine Attaining.define (Frame.value_of_literalText? text f) (Frame.value_of_literalText? ?_ f') part
        (fun _ ↦ ne) trivial
      rw [Patch.literalText?_of_ne (E.ne_hole before), text]
    | _ :: _ :: as =>
      obtain ⟨rfl, rest⟩ := List.cons.inj parts
      obtain ⟨rfl, -⟩ := List.cons.inj rest
      obtain ⟨none, before⟩ := front v (by simp)
      have within : ∀ n ∈ v.nodes, n ∈ r.expr.nodes := fun n hn ↦ sub n <| by
        rw [Expr.nodes_eq_parts]
        exact List.mem_cons_of_mem _ (List.mem_flatMap.2 ⟨v, by simp [Expr.parts], hn⟩)
      have kept := (E.pure_of_before mem within none before).kept
      exact (Attaining.define_kept (Frame.value_of_literalText? text f) kept fun _ ↦ ne).attains

/-- A call around the definition that evaluates each of its arguments once. -/
theorem attains_call {s : Span} {m : String} {es as bs : List Expr} {p : Expr}
    (sub : ∀ n ∈ (Expr.call s m es).nodes, n ∈ r.expr.nodes) (parts : es = as ++ p :: bs)
    (here : d ∈ p.nodes) (other : d ≠ .call s m es) (once' : (Expr.call s m es).asks = false)
    (part : Attains (lacks kind name) (has kind name x) (f.eval p) (f'.eval (k.expr p)))
    (attaining : Attaining (lacks kind name) (has kind name x)
      (es.map fun q ↦ (f.meaning q, f'.meaning (k.expr q)))) :
    Attains (lacks kind name) (has kind name x)
      (Meaning.call f.environment (String.ofList (lower m.toList)) (es.map f.meaning))
      (Meaning.call f'.environment (String.ofList (lower m.toList)) ((es.map k.expr).map f'.meaning)) := by
  have lowered : ∀ {word : String}, String.ofList (lower m.toList) = word →
      lower word.toList = word.toList → sameWord m.toList word.toList := by
    intro word same plain
    rw [sameWord, beq_iff_eq, plain, ← same, String.toList_ofList]
  simp only [Expr.asks, Bool.or_eq_false_iff] at once'
  by_cases isDefine : String.ofList (lower m.toList) = "define"
  · rw [isDefine]
    exact E.attains_define const mem once inside defines value sub parts here other
      (lowered isDefine (by decide)) part
  have isset : String.ofList (lower m.toList) ≠ "isset" := fun same ↦ by
    rw [lowered same (by decide)] at once'
    cases once'.1
  have empty : String.ofList (lower m.toList) ≠ "empty" := fun same ↦ by
    rw [lowered same (by decide)] at once'
    cases once'.2
  rw [Meaning.call_eq_callBuiltin isDefine isset empty, Meaning.call_eq_callBuiltin isDefine isset empty,
    List.map_map]
  exact attaining.callBuiltin _ _ _

/-- An expression around the definition reaches it with the new value. -/
theorem attains_eval {e : Expr} (sub : ∀ n ∈ e.nodes, n ∈ r.expr.nodes) (here : d ∈ e.nodes) :
    Attains (lacks kind name) (has kind name x) (f.eval e) (f'.eval (k.expr e)) := by
  induction e using Expr.induction_parts with
  | step e ih =>
    have own := sub e e.mem_nodes
    have hole' : k.hole = some w.span := by rw [E.place, value]
    have distinct := (E.distinct r mem).inside own
    -- The expression is the definition, or it asks for what its arguments are, or the definition is in a
    -- part of it, with the same in front and nothing behind.
    by_cases same : d = e
    · subst same const
      intro s absent
      have after : ((f'.eval (k.expr d)).run s).2.constant? name = some x := by
        rw [Frame.run_definition distinct defines hole' E.new]
        exact Scope.constant?_define_self absent x
      exact .inl after
    by_cases asks : e.asks
    · refine E.attains_of_asks const mem once inside defines value sub here ?_ asks
      obtain ⟨s, n, a, es, rfl, -⟩ := Occurrence.definedValue?_eq_some defines
      refine Expr.nodes_trans ?_ here
      rw [Expr.nodes_eq_parts]
      exact List.mem_cons_of_mem _
        (List.mem_flatMap.2 ⟨w, List.mem_cons_of_mem _ List.mem_cons_self, w.mem_nodes⟩)
    obtain ⟨p, part, below⟩ : ∃ p ∈ e.parts, d ∈ p.nodes := by
      rw [Expr.nodes_eq_parts] at here
      exact List.mem_flatMap.1 ((List.mem_cons.1 here).resolve_left same)
    obtain ⟨as, bs, parts⟩ := List.append_of_mem part
    have within : ∀ q ∈ e.parts, ∀ n ∈ q.nodes, n ∈ r.expr.nodes := fun q hq n hn ↦ sub n <| by
      rw [Expr.nodes_eq_parts]
      exact List.mem_cons_of_mem _ (List.mem_flatMap.2 ⟨q, hq, hn⟩)
    obtain ⟨front, behind⟩ := E.beside_definition const mem once inside defines value sub parts below
    have reached := ih p part (within p part) below
    have attaining : Attaining (lacks kind name) (has kind name x)
        (e.parts.map fun q ↦ (f.meaning q, f'.meaning (k.expr q))) := by
      rw [parts]
      refine .of_parts (fun a ha ↦ ?_) reached fun b hb ↦ ⟨?_, ?_⟩
      · exact E.pure_of_before mem (within a (by simp [parts, ha])) (front a ha).1 (front a ha).2
      · exact (E.keeps_value mem (within b (by simp [parts, hb])) (behind b hb)).kept
      · exact (pure_still (mayDefine_of_all (fun _ ↦ trivial) _) f').kept
    refine attaining.eval (Frame.ne_hole_of_defines distinct here defines hole') fun s m es is ↦ ?_
    subst is
    exact E.attains_call const mem once inside defines value sub parts below same
      (Bool.eq_false_iff.2 asks) reached attaining

end Around

/-- The expression around the value reaches the definition with the new value. -/
theorem reaches_value (const : kind = .const) (mem : r ∈ rs)
    (once : r.expr.definitions kind name ≤ 1) {statement : Option Span} {o : Occurrence}
    (found : o ∈ Occurrence.inExpr name statement r.expr) (value : o.value = hole) :
    Reaches (lacks kind name) (has kind name x) (f.value r.expr) (f'.value (k.expr r.expr)) := by
  obtain ⟨w, mem', rfl⟩ := List.mem_map.1 found
  obtain ⟨d, inside, defines⟩ := List.mem_filterMap.1 mem'
  exact E.attains_eval const mem once inside defines value (fun _ hn ↦ hn) inside

end Edited

end ConfigScript
