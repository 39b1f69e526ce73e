import ConfigScript.Proofs.Number.Double
import ConfigScript.Proofs.Value.Canonical
import Mathlib

/-!
# Comparison from both sides

Numbers, texts and truth values are ordered in the same way from both sides, and so are all values that are
not both arrays (`compare?_swap`). Two arrays are equal if they have as many elements and each element of
the left one agrees with one of the right one (`compare?_array_eq`). Elements with distinct keys agree with
distinct elements, so that none of the right one is left over (`exists_back`), and equality holds from the
other side, too (`compare?_eq_back`). Keys are told apart by identity, which is symmetric and transitive but,
because of NaN, not reflexive.
-/

namespace ConfigScript.Value

/-! ### Identity -/

mutual

/-- Keys are identical both ways. -/
theorem identicalKeys_comm (k l : Key) : identicalKeys k l = identicalKeys l k := by
  cases k with
  | int i =>
    cases l with
    | int j => exact Bool.beq_comm
    | text | other => rfl
  | text s =>
    cases l with
    | text t => exact Bool.beq_comm
    | int | other => rfl
  | other v =>
    cases l with
    | other w => exact identical_comm v w
    | int | text => rfl

/-- Values are identical both ways. -/
theorem identical_comm (v w : Value) : identical v w = identical w v := by
  cases v with
  | array a =>
    cases w with
    | array b => exact identicalItems_comm a b
    | null | bool | int | float | string | expression => rfl
  | null => cases w <;> rfl
  | bool a =>
    cases w with
    | bool b => exact Bool.beq_comm
    | null | int | float | string | array | expression => rfl
  | int i =>
    cases w with
    | int j => exact Bool.beq_comm
    | null | bool | float | string | array | expression => rfl
  | float x =>
    cases w with
    | float y => exact Number.beq_comm x y
    | null | bool | int | string | array | expression => rfl
  | string s =>
    cases w with
    | string t => exact Bool.beq_comm
    | null | bool | int | float | array | expression => rfl
  | expression s =>
    cases w with
    | expression t => exact Bool.beq_comm
    | null | bool | int | float | string | array => rfl

/-- Elements of arrays are identical both ways. -/
theorem identicalItems_comm (a b : List (Key × Value)) : identicalItems a b = identicalItems b a := by
  cases a with
  | nil => cases b <;> rfl
  | cons x a =>
    cases b with
    | nil => rfl
    | cons y b =>
      obtain ⟨k, v⟩ := x
      obtain ⟨l, w⟩ := y
      rw [identicalItems, identicalItems, identicalKeys_comm k l, identical_comm v w,
        identicalItems_comm a b]

end

mutual

/-- Identical keys are so across a third. -/
theorem identicalKeys_trans {k l m : Key} (h : identicalKeys k l) (h' : identicalKeys l m) :
    identicalKeys k m := by
  cases k with
  | int i =>
    cases l with
    | int j => exact beq_iff_eq.1 h ▸ h'
    | text | other => cases h
  | text s =>
    cases l with
    | text t => exact beq_iff_eq.1 h ▸ h'
    | int | other => cases h
  | other v =>
    cases l with
    | other w =>
      cases m with
      | other u => exact identical_trans h h'
      | int | text => cases h'
    | int | text => cases h
termination_by structural k

/-- Identical values are so across a third, also if they are doubles. -/
theorem identical_trans {v w u : Value} (h : identical v w) (h' : identical w u) : identical v u := by
  cases v with
  | array a =>
    cases w with
    | array b =>
      cases u with
      | array c => exact identicalItems_trans h h'
      | null | bool | int | float | string | expression => cases h'
    | null | bool | int | float | string | expression => cases h
  | float x =>
    cases w with
    | float y =>
      cases u with
      | float z => exact Number.beq_trans h h'
      | null | bool | int | string | array | expression => cases h'
    | null | bool | int | string | array | expression => cases h
  | null =>
    cases w with
    | null => exact h'
    | bool | int | float | string | array | expression => cases h
  | bool a =>
    cases w with
    | bool b => exact beq_iff_eq.1 h ▸ h'
    | null | int | float | string | array | expression => cases h
  | int i =>
    cases w with
    | int j => exact beq_iff_eq.1 h ▸ h'
    | null | bool | float | string | array | expression => cases h
  | string s =>
    cases w with
    | string t => exact beq_iff_eq.1 h ▸ h'
    | null | bool | int | float | array | expression => cases h
  | expression s =>
    cases w with
    | expression t => exact beq_iff_eq.1 h ▸ h'
    | null | bool | int | float | string | array => cases h
termination_by structural v

/-- Identical elements are so across a third. -/
theorem identicalItems_trans {a b c : List (Key × Value)} (h : identicalItems a b)
    (h' : identicalItems b c) : identicalItems a c := by
  cases a with
  | nil =>
    cases b with
    | nil => exact h'
    | cons => cases h
  | cons x a =>
    cases b with
    | nil => cases h
    | cons y b =>
      cases c with
      | nil => cases h'
      | cons z c =>
        obtain ⟨k, v⟩ := x
        obtain ⟨l, w⟩ := y
        obtain ⟨m, u⟩ := z
        simp only [identicalItems, Bool.and_eq_true] at h h' ⊢
        exact ⟨⟨identicalKeys_trans h.1.1 h'.1.1, identical_trans h.1.2 h'.1.2⟩,
          identicalItems_trans h.2 h'.2⟩
termination_by structural a

end

/-! ### Values that are not both arrays -/

variable {v w : Value} {a b : List (Key × Value)}

/-- Unless both values are arrays, comparing them does not look into elements. -/
theorem compare?_of_flat (h : v.IsFlat ∨ w.IsFlat) : compare? v w = compareFlat? v w := by
  cases v with
  | array a =>
    cases w with
    | array b => exact (h.elim (· a rfl) (· b rfl)).elim
    | null | bool | int | float | string | expression => rfl
  | null | bool | int | float | string | expression => cases w <;> rfl

/-- Texts are compared in reverse from the other side, as numbers or else by their characters. -/
theorem compareTexts_swap (s t : String) : compareTexts t s = (compareTexts s t).map Ordering.swap := by
  unfold compareTexts
  cases numericText? s.toList with
  | none => 
    cases numericText? t.toList with
    | none => exact congrArg some Std.OrientedCmp.eq_swap
    | some => exact congrArg some Std.OrientedCmp.eq_swap
  | some n =>
    cases numericText? t.toList with
    | none => exact congrArg some Std.OrientedCmp.eq_swap
    | some m => exact Numeric.compare?_swap n m

theorem truth_swap (a b : Bool) : some (compare b a) = (some (compare a b)).map Ordering.swap :=
  congrArg some Std.OrientedCmp.eq_swap

/-- Values are compared as numbers in reverse from the other side. -/
theorem numbers_swap (v w : Value) :
    (w.numeric?.bind fun n ↦ v.numeric?.bind n.compare?) =
      (v.numeric?.bind fun n ↦ w.numeric?.bind n.compare?).map Ordering.swap := by
  cases v.numeric? with
  | none => cases w.numeric? <;> rfl
  | some n =>
    cases w.numeric? with
    | none => rfl
    | some m => exact Numeric.compare?_swap n m

theorem swap_twice (o : Option Ordering) : o = (o.map Ordering.swap).map Ordering.swap := by
  cases o with
  | none => rfl
  | some o => exact congrArg some Ordering.swap_swap.symm

/-- Values of which one is no array are compared in reverse from the other side. -/
theorem compareFlat?_swap (h : v.IsFlat ∨ w.IsFlat) :
    compareFlat? w v = (compareFlat? v w).map Ordering.swap := by
  cases v with
  | null =>
    cases w with
    | null | expression => rfl
    | string t => exact congrArg some Std.OrientedCmp.eq_swap
    | bool | int | float | array => exact truth_swap _ _
  | bool b =>
    cases w with
    | expression => rfl
    | null | bool | int | float | string | array => exact truth_swap _ _
  | int i =>
    cases w with
    | null | bool => exact truth_swap _ _
    | int j => exact numbers_swap (int i) (int j)
    | float y => exact numbers_swap (int i) (float y)
    | string | array | expression => rfl
  | float x =>
    cases w with
    | null | bool => exact truth_swap _ _
    | int j => exact numbers_swap (float x) (int j)
    | float y => exact numbers_swap (float x) (float y)
    | string | array | expression => rfl
  | string s =>
    cases w with
    | null => exact congrArg some Std.OrientedCmp.eq_swap
    | bool => exact truth_swap _ _
    | int | float => exact swap_twice _
    | string t => exact compareTexts_swap s t
    | array | expression => rfl
  | array a =>
    cases w with
    | null | bool => exact truth_swap _ _
    | int | float | string | expression => rfl
    | array b => exact (h.elim (· a rfl) (· b rfl)).elim
  | expression s => cases w <;> rfl

/-- Values that are not both arrays are compared in the same way from both sides. -/
theorem compare?_swap (h : v.IsFlat ∨ w.IsFlat) : compare? w v = (compare? v w).map Ordering.swap := by
  rw [compare?_of_flat h, compare?_of_flat h.symm, compareFlat?_swap h]

/-! ### Arrays -/

/-- What holds of a value if it holds of all its elements holds of every value. -/
theorem induction_on_elements {motive : Value → Prop} (flat : ∀ v : Value, v.IsFlat → motive v)
    (elements : ∀ items, (∀ x ∈ items, motive x.2) → motive (array items)) : (v : Value) → motive v
  | .array items => elements items fun x _ ↦ induction_on_elements flat elements x.2
  | .null | .bool _ | .int _ | .float _ | .string _ | .expression _ => flat _ nofun
termination_by v => sizeOf v
decreasing_by
  have smaller := List.sizeOf_lt_of_mem ‹x ∈ items›
  have inside : sizeOf x.2 < sizeOf x := by
    cases x
    simp only [Prod.mk.sizeOf_spec]
    omega
  simp only [array.sizeOf_spec]
  omega

/-- The keys of elements are distinct, as identity of keys tells them apart. -/
def DistinctKeys (items : List (Key × Value)) : Prop :=
  items.Pairwise fun x y ↦ identicalKeys x.1 y.1 = false

instance (items : List (Key × Value)) : Decidable (DistinctKeys items) :=
  inferInstanceAs (Decidable (List.Pairwise _ _))

/-- All arrays within the value have distinct keys. -/
def HasDistinctKeys (v : Value) : Prop := ∀ items, Within (array items) v → DistinctKeys items

theorem hasDistinctKeys_array :
    (array a).HasDistinctKeys ↔ DistinctKeys a ∧ ∀ x ∈ a, x.2.HasDistinctKeys :=
  forall_within_array

theorem hasDistinctKeys_of_flat (h : v.IsFlat) : v.HasDistinctKeys :=
  fun _ inside ↦ absurd inside (not_within_flat h)

/-- An element of `b` has the key of an element of `a`, and an equal value. -/
def Agrees (b : List (Key × Value)) (x y : Key × Value) : Prop :=
  b.find? (fun y ↦ identicalKeys y.1 x.1) = some y ∧ compare? x.2 y.2 = some .eq

/-- Elements of two arrays are equal just if each of the first has one in the second that agrees with it.
-/
theorem compareItems?_eq_some_eq :
    compareItems? a b = some .eq ↔ ∀ x ∈ a, ∃ y ∈ b, Agrees b x y := by
  induction a with
  | nil => exact iff_of_true rfl nofun
  | cons x a ih =>
    obtain ⟨k, v⟩ := x
    rw [List.forall_mem_cons, ← ih, compareItems?]
    cases found : b.find? fun y ↦ identicalKeys y.1 k with
    | none => exact iff_of_false nofun fun h ↦ by simp [Agrees, found] at h
    | some y =>
      obtain ⟨l, w⟩ := y
      have first : (∃ z ∈ b, Agrees b (k, v) z) ↔ compare? v w = some .eq := by
        constructor
        · rintro ⟨z, -, here, equal⟩
          obtain rfl := Option.some.inj (found.symm.trans here)
          exact equal
        · exact fun equal ↦ ⟨(l, w), List.mem_of_find?_eq_some found, found, equal⟩
      rw [first]
      dsimp only
      split
      · rename_i equal
        exact (and_iff_right equal).symm
      · rename_i unequal
        exact iff_of_false unequal fun h ↦ unequal h.1

/-- Two arrays are equal just if they have as many elements and those of the first agree with some of the
second. -/
theorem compare?_array_eq :
    compare? (array a) (array b) = some .eq ↔ a.length = b.length ∧ ∀ x ∈ a, ∃ y ∈ b, Agrees b x y := by
  rw [compare?, ← compareItems?_eq_some_eq]
  split
  · simp [*]
  · simp [*]

/-- A relation that takes each of as many elements to others, and no two to the same, reaches all of
them. -/
theorem exists_back {α β : Type} {r : α → β → Prop} {xs : List α} {ys : List β}
    (same : xs.length = ys.length) (total : ∀ x ∈ xs, ∃ y ∈ ys, r x y)
    (apart : xs.Pairwise fun x x' ↦ ∀ y, r x y → ¬r x' y) : ∀ y ∈ ys, ∃ x ∈ xs, r x y := by
  choose image mem related using total
  have nodup : (xs.pmap image fun _ hx ↦ hx).Nodup :=
    apart.pmap _ fun x hx x' hx' apart same ↦ apart _ (related x hx) (same ▸ related x' hx')
  have sub : xs.pmap image (fun _ hx ↦ hx) ⊆ ys := fun y hy ↦ by
    obtain ⟨x, hx, rfl⟩ := List.mem_pmap.1 hy
    exact mem x hx
  have perm := (List.subperm_of_subset nodup sub).perm_of_length_le (by rw [List.length_pmap, same])
  intro y hy
  obtain ⟨x, hx, rfl⟩ := List.mem_pmap.1 (perm.mem_iff.2 hy)
  exact ⟨x, hx, related x hx⟩

theorem key_of_find? {y : Key × Value} {k : Key}
    (h : b.find? (fun y ↦ identicalKeys y.1 k) = some y) : identicalKeys y.1 k :=
  @List.find?_some _ (fun y ↦ identicalKeys y.1 k) y b h

/-- Of elements with distinct keys, the one with a key is found. -/
theorem find?_of_distinct {x : Key × Value} {k : Key} (distinct : DistinctKeys a) (mem : x ∈ a)
    (key : identicalKeys x.1 k) : a.find? (fun y ↦ identicalKeys y.1 k) = some x := by
  cases found : a.find? fun y ↦ identicalKeys y.1 k with
  | none => exact absurd key (List.find?_eq_none.1 found x mem)
  | some z =>
    have first := key_of_find? found
    have alike : identicalKeys z.1 x.1 := identicalKeys_trans first (identicalKeys_comm x.1 k ▸ key)
    have : Std.Symm fun x y : Key × Value ↦ identicalKeys x.1 y.1 = false :=
      ⟨fun x y h ↦ identicalKeys_comm x.1 y.1 ▸ h⟩
    by_contra ne
    have apart := distinct.forall (List.mem_of_find?_eq_some found) mem fun same ↦
      ne (congrArg some same)
    rw [apart] at alike
    cases alike

/-- Equality holds from both sides. -/
theorem compare?_eq_back (hv : v.HasDistinctKeys) (hw : w.HasDistinctKeys)
    (h : compare? v w = some .eq) : compare? w v = some .eq := by
  induction v using induction_on_elements generalizing w with
  | flat v flat => exact Eq.trans (compare?_swap (.inl flat)) (congrArg (Option.map Ordering.swap) h)
  | elements a ih =>
    cases w with
    | null | bool | int | float | string | expression =>
      exact Eq.trans (compare?_swap (.inr nofun)) (congrArg (Option.map Ordering.swap) h)
    | array b =>
      rw [hasDistinctKeys_array] at hv hw
      obtain ⟨same, agree⟩ := compare?_array_eq.1 h
      have apart : a.Pairwise fun x x' ↦ ∀ y, Agrees b x y → ¬Agrees b x' y := by
        refine hv.1.imp fun {x x'} apart y here there ↦ ?_
        have alike := identicalKeys_trans (identicalKeys_comm y.1 x.1 ▸ key_of_find? here.1)
          (key_of_find? there.1)
        rw [apart] at alike
        cases alike
      refine compare?_array_eq.2 ⟨same.symm, fun y hy ↦ ?_⟩
      obtain ⟨x, hx, found, equal⟩ := exists_back same agree apart y hy
      refine ⟨x, hx, find?_of_distinct hv.1 hx ?_, ih x hx (hv.2 x hx) (hw.2 y hy) equal⟩
      exact identicalKeys_comm y.1 x.1 ▸ key_of_find? found

/-! ### Symmetry -/

/-- If the keys of arrays are distinct, loose equality does not depend on the side. -/
theorem looselyEqual_comm (hv : v.HasDistinctKeys) (hw : w.HasDistinctKeys) :
    looselyEqual v w = looselyEqual w v := by
  rw [looselyEqual, looselyEqual, Bool.eq_iff_iff, beq_iff_eq, beq_iff_eq]
  exact ⟨compare?_eq_back hv hw, compare?_eq_back hw hv⟩

/-- Arrays in canonical form have distinct keys. -/
theorem IsCanonical.hasDistinctKeys (h : v.IsCanonical) : v.HasDistinctKeys := by
  intro items inside
  have keys := h items inside
  have distinct : items.Pairwise fun x y ↦ x.1 ≠ y.1 := List.pairwise_map.1 keys.distinct
  refine distinct.imp_of_mem fun {x y} hx hy ne ↦ Bool.eq_false_iff.2 fun same ↦ ne ?_
  exact (identicalKeys_iff (keys.canonical _ (List.mem_map_of_mem hx))
    (keys.canonical _ (List.mem_map_of_mem hy))).1 same

/-- Loose equality is symmetric if the keys of arrays are distinct, and values that are not both arrays are
ordered in the same way from both sides. -/
theorem comparison_symmetric :
    (∀ v w : Value, v.HasDistinctKeys → w.HasDistinctKeys → looselyEqual v w = looselyEqual w v) ∧
    ∀ v w : Value, v.IsFlat ∨ w.IsFlat → compare? w v = (compare? v w).map Ordering.swap :=
  ⟨fun _ _ ↦ looselyEqual_comm, fun _ _ ↦ compare?_swap⟩

/-- Arrays with their elements in different orders, and a text that is compared with a number. -/
theorem comparison_symmetric_reordered :
    let v := array [(.text "a", int 1), (.int 0, null), (.other (float 2), string "x")]
    let w := array [(.other (float 2), string "x"), (.int 0, bool false), (.text "a", string " 1.0")]
    v.HasDistinctKeys ∧ w.HasDistinctKeys ∧ looselyEqual v w = true ∧ looselyEqual w v = true ∧
    ((string "10").IsFlat ∨ (int 9).IsFlat) ∧
      compare? (int 9) (string "10") = (compare? (string "10") (int 9)).map Ordering.swap := by
  intro v w
  have flat {items : List (Key × Value)} (distinct : DistinctKeys items)
      (h : ∀ x ∈ items, x.2.IsFlat) : (array items).HasDistinctKeys :=
    hasDistinctKeys_array.2 ⟨distinct, fun x hx ↦ hasDistinctKeys_of_flat (h x hx)⟩
  have hv : v.HasDistinctKeys := flat (by decide) (by simp [IsFlat])
  have hw : w.HasDistinctKeys := flat (by decide) (by simp [IsFlat])
  have equal : looselyEqual v w = true := by decide +kernel
  exact ⟨hv, hw, equal, comparison_symmetric.1 v w hv hw ▸ equal, .inl nofun,
    comparison_symmetric.2 _ _ (.inl nofun)⟩

end ConfigScript.Value
