import ConfigScript.Proofs.Patching.Kept
import ConfigScript.Proofs.Running.Eval

/-!
# Two evaluations side by side

Two expressions are evaluated side by side, from scopes that are alike. Then the values are alike and so
are the scopes that are left, or the second evaluation has got to where nothing more is asked of it: it
is settled (`Likeness.Related`). Everything that expressions are made with keeps this
(`Meaning.Alike`).

What is alike is a parameter. Values may be asked to be the same, or unknown values may be told apart
by their texts only, which no evaluation looks at.
-/

namespace ConfigScript

/-! ### Being alike -/

/-- What is alike in two evaluations, and when the second one is settled. -/
structure Likeness where
  value : Value → Value → Prop
  scope : Scope → Scope → Prop
  settled : Scope → Prop
  /-- The names that constants are defined with. -/
  names : String → Prop
  refl : ∀ v, value v v
  same_or_unknown : ∀ v w, value v w → v = w ∨ v.isOpaque ∧ w.isOpaque
  vars : ∀ s s', scope s s' → s.vars = s'.vars
  constants : ∀ s s', scope s s' → ∀ n, Option.Rel value (s.constant? n) (s'.constant? n)
  define : ∀ n v w s s', names n → value v w → scope s s' →
    scope (s.define n v).2 (s'.define n w).2
  define_settled : ∀ n v s, names n → settled s → settled (s.define n v).2

namespace Likeness

variable (L : Likeness) {α β : Type}

/-- Two evaluations with results that are alike, unless the second one gets settled. -/
structure Related (R : α → α → Prop) (x y : StateM Scope α) : Prop where
  settled : ∀ s, L.settled s → L.settled (y.run s).2
  alike : ∀ s s', L.scope s s' → L.settled (y.run s').2 ∨
    R (x.run s).1 (y.run s').1 ∧ L.scope (x.run s).2 (y.run s').2

namespace Related

variable {L} {R : α → α → Prop} {Q : β → β → Prop} {x y : StateM Scope α}

protected theorem pure {a b : α} (h : R a b) : L.Related R (pure a) (pure b) :=
  ⟨fun _ settled ↦ settled, fun _ _ near ↦ .inr ⟨h, near⟩⟩

/-- Reading the scope. -/
theorem read {g g' : Scope → α} (h : ∀ s s', L.scope s s' → R (g s) (g' s')) :
    L.Related R (do return g (← get)) (do return g' (← get)) :=
  ⟨fun _ settled ↦ settled, fun s s' near ↦ .inr ⟨h s s' near, near⟩⟩

/-- One evaluation behind the other. -/
theorem bind {f g : α → StateM Scope β} (refl : ∀ a, R a a) (h : L.Related R x y)
    (more : ∀ a b, R a b → L.Related Q (f a) (g b)) : L.Related Q (x >>= f) (y >>= g) where
  settled s settled := (more _ _ (refl (y.run s).1)).settled _ (h.settled s settled)
  alike s s' near := by
    rcases h.alike s s' near with settled | ⟨alike, near⟩
    · exact .inl ((more _ _ (refl (y.run s').1)).settled _ settled)
    · exact (more _ _ alike).alike _ _ near

theorem bind_eq {f g : α → StateM Scope β} (h : L.Related Eq x y)
    (more : ∀ a, L.Related Q (f a) (g a)) : L.Related Q (x >>= f) (y >>= g) :=
  h.bind (fun _ ↦ rfl) fun a _ same ↦ same ▸ more a

theorem mono {Q : α → α → Prop} (h : L.Related R x y) (weaker : ∀ a b, R a b → Q a b) :
    L.Related Q x y :=
  ⟨h.settled, fun s s' near ↦ (h.alike s s' near).imp_right (And.imp_left (weaker _ _))⟩

/-- A value is the same in both evaluations, or unknown in both. -/
theorem bind_value {x y : StateM Scope Value} {f g : Value → StateM Scope β} (h : L.Related L.value x y)
    (same : ∀ v, L.Related Q (f v) (g v))
    (unknown : ∀ v w, v.isOpaque → w.isOpaque → L.Related Q (f v) (g w)) :
    L.Related Q (x >>= f) (y >>= g) :=
  h.bind L.refl fun v w alike ↦ by
    rcases L.same_or_unknown v w alike with rfl | ⟨hv, hw⟩
    · exact same v
    · exact unknown v w hv hw

/-- Defining a constant. -/
theorem define {n : String} {v w : Value} (name : L.names n) (alike : L.value v w) :
    L.Related Eq (modifyGet fun s ↦ s.define n v) (modifyGet fun s ↦ s.define n w) where
  settled s settled := L.define_settled n w s name settled
  alike s s' near := by
    refine .inr ⟨?_, L.define n v w s s' name alike near⟩
    show (s.define n v).1 = (s'.define n w).1
    have known := L.constants s s' near n
    unfold Scope.define Assoc.contains
    unfold Scope.constant? at known
    generalize Assoc.lookup n s.constants = x at known ⊢
    generalize Assoc.lookup n s'.constants = y at known ⊢
    cases known <;> rfl

end Related

/-- What is chosen where a value may be missing. -/
theorem value_getD {a b : Option Value} {u u' : Value} (h : Option.Rel L.value a b)
    (unknown : L.value u u') : L.value (a.getD u) (b.getD u') := by
  cases h with
  | some alike => exact alike
  | none => exact unknown

theorem rel_refl (a : Option Value) : Option.Rel L.value a a := by
  cases a with
  | none => exact .none
  | some v => exact .some (L.refl v)

end Likeness

/-! ### Meanings -/

namespace Meaning

/-- Two meanings with values that are alike, and the same answer to whether they are set. -/
structure Alike (L : Likeness) (m m' : Meaning) : Prop where
  value : L.Related L.value m.value m'.value
  isSet : L.Related Eq m.isSet m'.isSet

open Likeness

variable {L : Likeness} {u u' : Value} {m m' b b' i i' c c' e e' : Meaning} {ι : Type}

/-- A value that is alike answers alike whether it is set. -/
theorem Alike.ofValue {x y : StateM Scope Value} (h : L.Related L.value x y) :
    Alike L (.ofValue x) (.ofValue y) where
  value := h
  isSet := h.bind_value (fun _ ↦ .pure rfl) fun v w hv hw ↦ by
    rw [hv, hw]
    exact .pure rfl

theorem Alike.fixed {v w : Value} (h : L.value v w) : Alike L (.fixed v) (.fixed w) :=
  .ofValue (.pure h)

/-- Whether a variable with the content is set; `none` if that cannot be told. -/
def answer : Option Value → Option Bool
  | none | some .null => some false
  | some (.expression _) => none
  | some _ => some true

/-- A variable is set unless it is missing or null, and it is not known whether it is where its value is
not. -/
theorem isSet_ofVariable (n : String) (s : Scope) :
    (Meaning.ofVariable n).isSet.run s = (answer (s.var? n), s) := by
  unfold Meaning.ofVariable
  rw [StateT.run_bind, StateT.run_get]
  show StateT.run _ s = _
  rcases s.var? n with _ | _ | _ | _ | _ | _ | _ | _ <;> rfl

/-- A variable is alike where the scopes are. -/
theorem Alike.ofVariable (n : String) : Alike L (.ofVariable n) (.ofVariable n) where
  value := Related.read (g := fun s ↦ (s.var? n).getD .null) fun s s' near ↦ by
    rw [Scope.var?, Scope.var?, L.vars s s' near]
    exact L.refl _
  isSet := by
    refine ⟨fun s settled ↦ by rwa [isSet_ofVariable], fun s s' near ↦ .inr ⟨?_, ?_⟩⟩
    · rw [isSet_ofVariable, isSet_ofVariable, Scope.var?, Scope.var?, L.vars s s' near]
    · rwa [isSet_ofVariable, isSet_ofVariable]

/-- Literals with variables. -/
theorem interpolate_congr {s s' : Scope} (vars : s.vars = s'.vars) (ps : List Part) :
    interpolate s ps = interpolate s' ps := by
  induction ps with
  | nil => rfl
  | cons p ps ih =>
    cases p with
    | text => rw [interpolate, interpolate, ih]
    | var n => rw [interpolate, interpolate, ih, Scope.var?, Scope.var?, vars]

theorem index?_unknown {v : Value} (h : v.isOpaque) (k : Value) : v.index? k = none := by
  cases v <;> first | rfl | cases h

theorem key?_unknown {v : Value} (h : v.isOpaque) : v.key? = none := by
  cases v <;> first | rfl | cases h

theorem index?_by_unknown {k k' : Value} (h : k.isOpaque) (h' : k'.isOpaque) (v : Value) :
    v.index? k = v.index? k' := by
  cases v <;> simp only [Value.index?, key?_unknown h, key?_unknown h']

/-- An element of an array is alike if the array and the index are. -/
theorem Alike.index (unknown : L.value u u') (hb : Alike L b b') (hi : Alike L i i') :
    Alike L (.index u b i) (.index u' b' i') where
  value := by
    refine hb.value.bind_value (fun v ↦ ?_) fun v w hv hw ↦ ?_
    · refine hi.value.bind_value (fun k ↦ .pure ?_) fun k l hk hl ↦ .pure ?_
      · exact L.value_getD (L.rel_refl _) unknown
      · rw [index?_by_unknown hk hl]
        exact L.value_getD (L.rel_refl _) unknown
    · refine hi.value.bind L.refl fun k l _ ↦ .pure ?_
      rw [index?_unknown hv, index?_unknown hw]
      exact unknown
  isSet := by
    refine hb.isSet.bind_eq fun set ↦ ?_
    match set with
    | none => exact .pure rfl
    | some false => exact .pure rfl
    | some true =>
      refine hb.value.bind_value (fun v ↦ ?_) fun v w hv hw ↦ ?_
      · refine hi.value.bind_value (fun k ↦ ?_) fun k l hk hl ↦ ?_
        · split <;> exact .pure rfl
        · rw [hk, hl]
          exact .pure rfl
      · refine hi.value.bind L.refl fun k l _ ↦ ?_
        rw [index?_unknown hv, index?_unknown hw]
        split <;> split <;> exact .pure rfl

/-- An element behind its key, and the elements behind it. -/
def keyed (done : List (Key × Value)) (m : Meaning) (rest : List (Option Meaning × Meaning)) :
    Option Key → StateM Scope (Option (List (Key × Value)))
  | none => return none
  | some k => do
    let v ← m.value
    if v.isOpaque then return none else elements (Assoc.insert k v done) rest

/-- An element and those behind it are alike, whatever its key. -/
theorem Related.keyed {rest rest' : List (Option Meaning × Meaning)} {done : List (Key × Value)}
    (value : Alike L m m')
    (more : ∀ done, L.Related Eq (elements done rest) (elements done rest')) (key? : Option Key) :
    L.Related Eq (keyed done m rest key?) (keyed done m' rest' key?) := by
  cases key? with
  | none => exact .pure rfl
  | some k =>
    refine value.value.bind_value (fun v ↦ ?_) fun v w hv hw ↦ ?_
    · split
      · exact .pure rfl
      · exact more _
    · rw [if_pos hv, if_pos hw]
      exact .pure rfl

/-- Elements of array literals. -/
theorem Related.elements {g g' : ι → Option Meaning × Meaning} {is : List ι}
    (h : ∀ i ∈ is, Option.Rel (Alike L) (g i).1 (g' i).1 ∧ Alike L (g i).2 (g' i).2)
    (done : List (Key × Value)) :
    L.Related Eq (elements done (is.map g)) (elements done (is.map g')) := by
  induction is generalizing done with
  | nil => exact .pure rfl
  | cons i is ih =>
    obtain ⟨key, value⟩ := h i List.mem_cons_self
    have more := fun done ↦ ih (fun j hj ↦ h j (List.mem_cons_of_mem _ hj)) done
    rw [List.map_cons, List.map_cons]
    generalize g i = p at key value ⊢
    generalize g' i = p' at key value ⊢
    obtain ⟨k, m⟩ := p
    obtain ⟨k', m'⟩ := p'
    replace key : Option.Rel (Alike L) k k' := key
    have rest : ∀ key?, L.Related Eq (Meaning.keyed done m (is.map g) key?)
        (Meaning.keyed done m' (is.map g') key?) :=
      Related.keyed value more
    cases key with
    | none => exact rest (some (.int (Value.nextIndex done)))
    | some alike =>
      refine alike.value.bind_value (fun v ↦ rest v.key?) fun v w hv hw ↦ ?_
      rw [key?_unknown hv, key?_unknown hw]
      exact rest none

/-- A function of a value is alike if the value is. -/
theorem Related.apply (unknown : L.value u u') (f : Value → Option Value) (h : Alike L m m') :
    L.Related L.value (apply u f m) (apply u' f m') := by
  refine h.value.bind_value (fun v ↦ .pure ?_) fun v w hv hw ↦ .pure ?_
  · split
    · exact unknown
    · exact L.value_getD (L.rel_refl _) unknown
  · rw [if_pos hv, if_pos hw]
    exact unknown

/-- An operator is alike if its operands are: it looks at the left one before it evaluates the right one.
-/
theorem Related.binary (unknown : L.value u u') (op : BinaryOp) (hl : Alike L m m') (hr : Alike L e e') :
    L.Related L.value (binary u op m e) (binary u' op m' e') := by
  refine hl.value.bind_value (fun v ↦ ?_) fun v w hv hw ↦ ?_
  · split
    · exact .pure unknown
    · split
      · exact .pure (L.refl _)
      · refine hr.value.bind_value (fun w ↦ .pure ?_) fun w w' hw hw' ↦ .pure ?_
        · split
          · exact unknown
          · exact L.value_getD (L.rel_refl _) unknown
        · rw [if_pos hw, if_pos hw']
          exact unknown
  · rw [if_pos hv, if_pos hw]
    exact .pure unknown

/-- A conditional is alike if its parts are: it evaluates one of the branches, or none if the condition
is unknown. -/
theorem Related.conditional (unknown : L.value u u') (hc : Alike L c c') {t t' : Option Meaning}
    (ht : Option.Rel (Alike L) t t') (he : Alike L e e') :
    L.Related L.value (conditional u c t e) (conditional u' c' t' e') := by
  have finish : ∀ {x y : StateM Scope Value}, L.Related L.value x y →
      L.Related L.value (do let v ← x; return if v.isOpaque then u else v)
        (do let v ← y; return if v.isOpaque then u' else v) := fun chosen ↦ by
    refine chosen.bind_value (fun v ↦ .pure ?_) fun v w hv hw ↦ .pure ?_
    · split
      · exact unknown
      · exact L.refl v
    · rw [if_pos hv, if_pos hw]
      exact unknown
  refine hc.value.bind_value (fun v ↦ ?_) fun v w hv hw ↦ ?_
  · split
    · exact .pure unknown
    · dsimp only
      split
      · cases ht with
        | some alike => exact finish alike.value
        | none => exact finish (.pure (L.refl v))
      · exact finish he.value
  · rw [if_pos hv, if_pos hw]
    exact .pure unknown

/-! ### Calls -/

section Calls

variable {es : List ι} {g g' : ι → Meaning} (h : ∀ e ∈ es, Alike L (g e) (g' e))

include h

/-- The values of arguments are the same, or some are unknown in both evaluations. -/
theorem Related.values :
    L.Related (fun vs ws ↦ vs = ws ∨ vs.any Value.isOpaque ∧ ws.any Value.isOpaque)
      (values (es.map g)) (values (es.map g')) := by
  induction es with
  | nil => exact .pure (.inl rfl)
  | cons e es ih =>
    have more := ih fun e he ↦ h e (List.mem_cons_of_mem _ he)
    refine (h e List.mem_cons_self).value.bind_value (fun v ↦ ?_) fun v w hv hw ↦ ?_
    · refine more.bind (fun _ ↦ .inl rfl) fun vs ws alike ↦ .pure ?_
      rcases alike with rfl | ⟨hvs, hws⟩
      · exact .inl rfl
      · exact .inr ⟨by simp [hvs], by simp [hws]⟩
    · refine more.bind (fun _ ↦ .inl rfl) fun vs ws _ ↦ .pure (.inr ?_)
      exact ⟨by simp [hv], by simp [hw]⟩

/-- Whether all arguments are set is alike if they are. -/
theorem Related.allSet : L.Related Eq (allSet (es.map g)) (allSet (es.map g')) := by
  induction es with
  | nil => exact .pure rfl
  | cons e es ih =>
    refine (h e List.mem_cons_self).isSet.bind_eq fun set ↦ ?_
    cases set with
    | none => exact .pure rfl
    | some b => exact (ih fun e he ↦ h e (List.mem_cons_of_mem _ he)).bind_eq fun _ ↦ .pure rfl

/-- Whether the argument is empty is alike if it is. -/
theorem Related.isEmpty : L.Related Eq (isEmpty (es.map g)) (isEmpty (es.map g')) := by
  match es with
  | [] => exact .pure rfl
  | [e] =>
    have alike := h e List.mem_cons_self
    refine alike.isSet.bind_eq fun set ↦ ?_
    match set with
    | none => exact .pure rfl
    | some false => exact .pure rfl
    | some true =>
      refine alike.value.bind_value (fun _ ↦ .pure rfl) fun v w hv hw ↦ .pure ?_
      rw [if_pos hv, if_pos hw]
  | _ :: _ :: _ => exact .pure rfl

omit h in
/-- Only two functions look at the scope, and they ask for constants. -/
theorem rel_builtin (env : Environment) {s s' : Scope} (near : L.scope s s') (name : String)
    (vs : List Value) :
    Option.Rel L.value (Builtin.call env s name vs) (Builtin.call env s' name vs) := by
  by_cases notDefined : name = "defined"
  · subst notDefined
    match vs with
    | [] | _ :: _ :: _ => exact .none
    | [c] =>
      have known := L.constants s s' near c.toText
      show Option.Rel L.value (some (.bool (s.constant? c.toText).isSome))
        (some (.bool (s'.constant? c.toText).isSome))
      generalize s.constant? c.toText = x at known ⊢
      generalize s'.constant? c.toText = y at known ⊢
      cases known <;> exact L.rel_refl _
  by_cases notConstant : name = "constant"
  · subst notConstant
    match vs with
    | [] | _ :: _ :: _ => exact .none
    | [c] => exact L.constants s s' near c.toText
  have same : Builtin.call env s name vs = Builtin.call env s' name vs := by
    unfold Builtin.call
    split <;> first | rfl | exact absurd rfl notDefined | exact absurd rfl notConstant
  rw [same]
  exact L.rel_refl _

/-- A call of a function that the environment answers alike. -/
theorem Related.callBuiltin {env env' : Environment}
    (same : ∀ s name vs, Builtin.call env s name vs = Builtin.call env' s name vs) (name : String) :
    L.Related (Option.Rel L.value) (callBuiltin env name (es.map g))
      (callBuiltin env' name (es.map g')) := by
  refine (Related.values h).bind (fun _ ↦ .inl rfl) fun vs ws alike ↦ ?_
  rcases alike with rfl | ⟨hvs, hws⟩
  · split
    · exact .pure .none
    · refine Related.read (g := fun s ↦ Builtin.call env s name vs) fun s s' near ↦ ?_
      rw [← same]
      exact rel_builtin env near name vs
  · rw [if_pos hvs, if_pos hws]
    exact .pure .none

/-- A call of `define` whose name is a text, unless every name may be defined. -/
theorem Related.define_call (named : ∀ e v rest, es = e :: v :: rest → (∀ n, L.names n) ∨
      ∃ n, L.names n ∧ (g e).value = pure (.string n) ∧ (g' e).value = pure (.string n)) :
    L.Related (Option.Rel L.value) (Meaning.define (es.map g)) (Meaning.define (es.map g')) := by
  match es with
  | [] | [_] => exact .pure .none
  | e :: v :: es =>
    have alike := h v (List.mem_cons_of_mem _ List.mem_cons_self)
    have rest : ∀ n, L.names n → L.Related (Option.Rel L.value)
        (do
          let v ← (g v).value
          let fresh ← modifyGet fun s => s.define n v
          return some (.bool fresh))
        (do
          let v ← (g' v).value
          let fresh ← modifyGet fun s => s.define n v
          return some (.bool fresh)) := fun n name ↦
      alike.value.bind L.refl fun _ _ same ↦ (Related.define name same).bind_eq fun _ ↦
        .pure (L.rel_refl _)
    rcases named e v es rfl with all | text
    · refine (h e List.mem_cons_self).value.bind_value (fun n ↦ ?_) fun n n' hn hn' ↦ ?_
      · cases n with
        | expression | array => exact .pure .none
        | null | bool | int | float | string => exact rest _ (all _)
      · cases n <;> cases hn
        cases n' <;> cases hn'
        exact .pure .none
    · obtain ⟨n, name, first, first'⟩ := text
      simp only [Meaning.define, List.map_cons, first, first', pure_bind]
      exact rest n name

omit h in
/-- A call of any other name is one of a builtin function. -/
theorem call_eq_callBuiltin {word : String} (define : word ≠ "define") (isset : word ≠ "isset")
    (empty : word ≠ "empty") (env : Environment) :
    Meaning.call env word = Meaning.callBuiltin env word := by
  funext args
  unfold Meaning.call
  split <;> first | contradiction | rfl

/-- A call is alike if its arguments are and the functions answer alike. One of `define` has to define a
name that may be defined. -/
theorem Related.call {env env' : Environment}
    (same : ∀ s name vs, Builtin.call env s name vs = Builtin.call env' s name vs) (word : String)
    (named : word = "define" → ∀ e v rest, es = e :: v :: rest → (∀ n, L.names n) ∨
      ∃ n, L.names n ∧ (g e).value = pure (.string n) ∧ (g' e).value = pure (.string n)) :
    L.Related (Option.Rel L.value) (call env word (es.map g)) (call env' word (es.map g')) := by
  by_cases isDefine : word = "define"
  · subst isDefine
    exact Related.define_call h (named rfl)
  by_cases isIsset : word = "isset"
  · subst isIsset
    refine (Related.allSet h).bind_eq fun set ↦ .pure ?_
    rw [List.isEmpty_map, List.isEmpty_map]
    exact L.rel_refl _
  by_cases isEmpty : word = "empty"
  · subst isEmpty
    exact (Related.isEmpty h).mono fun _ _ same ↦ same ▸ L.rel_refl _
  rw [call_eq_callBuiltin isDefine isIsset isEmpty, call_eq_callBuiltin isDefine isIsset isEmpty]
  exact Related.callBuiltin h same word

end Calls

end Meaning

/-! ### Syntax trees -/

namespace Frame

open Script Meaning

/-- What the key and the value of an element of an array literal mean. -/
def itemMeaning (f : Frame) : Item → Option Meaning × Meaning
  | .value e => (none, f.meaning e)
  | .keyed k e => (some (f.meaning k), f.meaning e)

theorem meanings_eq_map (f : Frame) (es : List Expr) : f.meanings es = es.map f.meaning := by
  induction es with
  | nil => rw [meanings, List.map_nil]
  | cons e es ih => rw [meanings, ih, List.map_cons]

/-- The elements of an array mean what each of them means. -/
theorem itemMeanings_eq_map (f : Frame) (is : List Item) :
    f.itemMeanings is = is.map f.itemMeaning := by
  induction is with
  | nil => rw [itemMeanings, List.map_nil]
  | cons i is ih => cases i <;> rw [itemMeanings, ih, List.map_cons, itemMeaning]

/-- What is asked of an expression and the patched one, besides their parts. -/
structure Agrees (L : Likeness) (f f' : Frame) (k : Patch) (e : Expr) : Prop where
  parts : ∀ p ∈ e.parts, k.hole ≠ some p.span
  unknown : L.value (f.unknown e.span) (f'.unknown (k.move e.span))
  magic : ∀ s m, e = .magic s m → L.value (f.magic s m) (f'.magic (k.move s) m)
  named : ∀ s n a v es, e = .call s n (a :: v :: es) → sameWord n.toList "define".toList →
    (∀ n, L.names n) ∨ ∃ n, a.literalText? = some n ∧ L.names n

variable {L : Likeness} {f f' : Frame} {k : Patch}

/-- A text without variables means that text, in every frame. -/
theorem value_of_literalText? {e : Expr} {n : String} (h : e.literalText? = some n) (f : Frame) :
    (f.meaning e).value = pure (.string n) := by
  unfold Expr.literalText? at h
  split at h
  · obtain rfl := Option.some.inj h
    funext s
    exact f.eval_text s _ _
  · cases h

/-- An expression and the patched one mean things that are alike, if all inside agree or are known to
be alike. -/
theorem meaning_alike
    (same : ∀ s name vs, Builtin.call f.environment s name vs = Builtin.call f'.environment s name vs)
    {e : Expr} (inside : ∀ n ∈ e.nodes, Agrees L f f' k n ∨
      Meaning.Alike L (f.meaning n) (f'.meaning (k.expr n)))
    (kept : k.hole ≠ some e.span) : Meaning.Alike L (f.meaning e) (f'.meaning (k.expr e)) := by
  induction e using Expr.induction_parts with
  | step e ih =>
    rcases inside e e.mem_nodes with ⟨parts, unknown, magic, named⟩ | alike
    case inr => exact alike
    -- An expression that agrees is alike if its parts are, and none of these is the replaced one.
    replace ih : ∀ p ∈ e.parts, Meaning.Alike L (f.meaning p) (f'.meaning (k.expr p)) := by
      intro p hp
      refine ih p hp (fun n hn ↦ inside n ?_) (parts p hp)
      rw [Expr.nodes_eq_parts]
      exact List.mem_cons_of_mem _ (List.mem_flatMap.2 ⟨p, hp, hn⟩)
    cases e with
    | null | bool | int | float => 
      rw [Patch.expr, Patch.put_of_ne (by exact kept)]
      exact .fixed (L.refl _)
    | str s ps =>
      rw [Patch.expr, Patch.put_of_ne (by exact kept)]
      refine .ofValue (Likeness.Related.read (g := fun s' ↦ _) fun s₁ s₂ near ↦ ?_)
      rw [interpolate_congr (L.vars s₁ s₂ near)]
      exact L.value_getD (L.rel_refl _) unknown
    | const s n =>
      rw [Patch.expr, Patch.put_of_ne (by exact kept)]
      refine .ofValue (Likeness.Related.read (g := fun s' ↦ _) fun s₁ s₂ near ↦ ?_)
      exact L.value_getD (L.constants s₁ s₂ near n) unknown
    | magic s m =>
      rw [Patch.expr, Patch.put_of_ne (by exact kept)]
      exact .fixed (magic s m rfl)
    | var s n =>
      rw [Patch.expr, Patch.put_of_ne (by exact kept)]
      exact .ofVariable n
    | array s is =>
      rw [Patch.expr, Patch.put_of_ne (by exact kept)]
      refine .ofValue (Likeness.Related.bind_eq (x := Meaning.elements [] (f.itemMeanings is)) ?_
        fun items ↦ .pure ?_)
      · rw [itemMeanings_eq_map, itemMeanings_eq_map, Patch.items_eq_map, List.map_map]
        refine Related.elements (fun i hi ↦ ?_) []
        have parts : ∀ p ∈ i.parts, p ∈ is.flatMap Item.parts := fun p hp ↦
          List.mem_flatMap.2 ⟨i, hi, hp⟩
        cases i with
        | value e => exact ⟨.none, ih e (parts e (by simp [Item.parts]))⟩
        | keyed a e =>
          exact ⟨.some (ih a (parts a (by simp [Item.parts]))), ih e (parts e (by simp [Item.parts]))⟩
      · exact L.value_getD (L.rel_refl _) unknown
    | index s b i =>
      rw [Patch.expr, Patch.put_of_ne (by exact kept)]
      exact .index unknown (ih b (by simp [Expr.parts])) (ih i (by simp [Expr.parts]))
    | call s n es =>
      rw [Patch.expr, Patch.put_of_ne (by exact kept)]
      let word := String.ofList (lower n.toList)
      refine .ofValue (Likeness.Related.bind L.rel_refl
        (x := Meaning.call f.environment word (f.meanings es)) ?_ fun x y alike ↦ .pure ?_)
      · rw [meanings_eq_map, meanings_eq_map, Patch.exprs_eq_map, List.map_map]
        refine Related.call (fun p hp ↦ ih p hp) same word fun isDefine ↦ ?_
        rintro a v rest rfl
        have defines : sameWord n.toList "define".toList := by
          have lowered := congrArg String.toList isDefine
          rw [String.toList_ofList] at lowered
          rw [sameWord, lowered]
          decide
        -- A call of `define` has the same name in both scripts, as its first argument is not replaced.
        refine (named s n a v rest rfl defines).imp_right ?_
        rintro ⟨m, text, name⟩
        have whole : k.hole ≠ some a.span := parts a List.mem_cons_self
        refine ⟨m, name, value_of_literalText? text f, value_of_literalText? ?_ f'⟩
        rw [Patch.literalText?_of_ne whole, text]
      · exact L.value_getD alike unknown
    | cast s c e =>
      rw [Patch.expr, Patch.put_of_ne (by exact kept)]
      exact .ofValue (Related.apply unknown _ (ih e (by simp [Expr.parts])))
    | unary s op e =>
      rw [Patch.expr, Patch.put_of_ne (by exact kept)]
      exact .ofValue (Related.apply unknown _ (ih e (by simp [Expr.parts])))
    | binary s op l r =>
      rw [Patch.expr, Patch.put_of_ne (by exact kept)]
      exact .ofValue (Related.binary unknown op (ih l (by simp [Expr.parts])) (ih r (by simp [Expr.parts])))
    | ternary s c t e =>
      rw [Patch.expr, Patch.put_of_ne (by exact kept)]
      exact .ofValue (Related.conditional unknown (ih c (by simp [Expr.parts]))
        (.some (ih t (by simp [Expr.parts]))) (ih e (by simp [Expr.parts])))
    | elvis s c e =>
      rw [Patch.expr, Patch.put_of_ne (by exact kept)]
      exact .ofValue (Related.conditional unknown (ih c (by simp [Expr.parts])) .none
        (ih e (by simp [Expr.parts])))
    | opaqueExpr s =>
      rw [Patch.expr, Patch.put_of_ne (by exact kept)]
      exact .fixed unknown

end Frame

end ConfigScript
