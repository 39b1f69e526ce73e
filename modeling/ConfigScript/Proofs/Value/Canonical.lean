import ConfigScript.Format.Json
import ConfigScript.Proofs.Assoc
import ConfigScript.Proofs.Value.Key
import ConfigScript.Value.Arithmetic
import Mathlib.Data.List.Nodup

/-!
# Arrays in canonical form

An array is in canonical form if its keys are distinct and in canonical form, and so are all arrays
within it (`Value.IsCanonical`). Whatever the operations on values make of such arrays is in canonical form
again: elements that are put in or dropped under a path, sums of arrays, casts and all else that operators
yield. As data, an array in canonical form keeps all its elements (`Format.Json.readBack_array`).
-/

namespace ConfigScript

/-! ### Canonical form -/

/-- A value stands somewhere within another one, or is that value. -/
inductive Value.Within (v : Value) : Value → Prop
  | self : Within v v
  | element {items : List (Key × Value)} {k : Key} {w : Value} (mem : (k, w) ∈ items)
      (inside : Within v w) : Within v (.array items)

/-- The keys of elements are distinct and in canonical form. -/
structure HasCanonicalKeys (items : List (Key × Value)) : Prop where
  distinct : (Assoc.keys items).Nodup
  canonical : ∀ k ∈ Assoc.keys items, k.IsCanonical

/-- All arrays within the value have distinct keys in canonical form. -/
def Value.IsCanonical (v : Value) : Prop :=
  ∀ items, Value.Within (.array items) v → HasCanonicalKeys items

/-- Elements of an array in canonical form. -/
structure AreCanonical (items : List (Key × Value)) : Prop where
  keys : HasCanonicalKeys items
  values : ∀ x ∈ items, x.2.IsCanonical

namespace Value

variable {items : List (Key × Value)} {v w : Value} {k : Key}

/-- The value is no array. -/
def IsFlat (v : Value) : Prop := ∀ items, v ≠ array items

/-- The arrays within an array are that array and those within its elements. -/
theorem forall_within_array {p : List (Key × Value) → Prop} :
    (∀ inner, Within (array inner) (array items) → p inner) ↔
      p items ∧ ∀ x ∈ items, ∀ inner, Within (array inner) x.2 → p inner := by
  constructor
  · intro h
    exact ⟨h items .self, fun x hx inner inside ↦ h inner (.element hx inside)⟩
  · rintro ⟨whole, elements⟩ inner inside
    cases inside with
    | self => exact whole
    | element mem inside => exact elements _ mem inner inside

/-- What is no array has no arrays within it. -/
theorem not_within_flat (flat : v.IsFlat) : ¬Within (array items) v := by
  intro inside
  cases inside with
  | self => exact flat items rfl
  | element => exact flat _ rfl

theorem isCanonical_array : (array items).IsCanonical ↔ AreCanonical items :=
  forall_within_array.trans ⟨fun h ↦ ⟨h.1, h.2⟩, fun h ↦ ⟨h.keys, h.values⟩⟩

theorem isCanonical_of_flat (flat : v.IsFlat) : v.IsCanonical :=
  fun _ inside ↦ absurd inside (not_within_flat flat)

end Value

open Value

/-! ### Elements -/

namespace AreCanonical

variable {items a b : List (Key × Value)} {k : Key} {v : Value}

theorem nil : AreCanonical [] := ⟨⟨.nil, nofun⟩, nofun⟩

/-- Elements in canonical form are in it with one more. -/
theorem insert (h : AreCanonical items) (key : k.IsCanonical) (value : v.IsCanonical) :
    AreCanonical (Assoc.insert k v items) where
  keys := by
    refine ⟨Assoc.nodup_keys_insert h.keys.distinct v, fun l hl ↦ ?_⟩
    obtain ⟨x, mem, rfl⟩ := List.mem_map.1 hl
    rcases Assoc.mem_insert mem with rfl | mem
    · exact key
    · exact h.keys.canonical _ (List.mem_map_of_mem mem)
  values x hx := by
    rcases Assoc.mem_insert hx with rfl | mem
    · exact value
    · exact h.values x mem

theorem sublist (h : AreCanonical items) (sub : a.Sublist items) : AreCanonical a where
  keys := ⟨h.keys.distinct.sublist (sub.map _),
    fun k hk ↦ h.keys.canonical k ((sub.map _).subset hk)⟩
  values x hx := h.values x (sub.subset hx)

theorem erase (h : AreCanonical items) (k : Key) : AreCanonical (Assoc.erase k items) :=
  h.sublist List.filter_sublist

theorem lookup (h : AreCanonical items) (found : Assoc.lookup k items = some v) : v.IsCanonical :=
  h.values _ (Assoc.mem_of_lookup found)

/-- The element under a key, or `null`. -/
theorem lookup_getD (h : AreCanonical items) (k : Key) :
    ((Assoc.lookup k items).getD .null).IsCanonical := by
  cases found : Assoc.lookup k items with
  | none => exact isCanonical_of_flat nofun
  | some v => exact h.lookup found

/-- One more element, whose key is new. -/
theorem append (h : AreCanonical items) (new : k ∉ Assoc.keys items) (key : k.IsCanonical)
    (value : v.IsCanonical) : AreCanonical (items ++ [(k, v)]) := by
  rw [← Assoc.insert_of_not_mem new]
  exact h.insert key value

end AreCanonical

/-- Keys in canonical form are identical if they are the same. -/
theorem identicalKeys_iff {k l : Key} (hk : k.IsCanonical) (hl : l.IsCanonical) :
    identicalKeys k l = true ↔ k = l := by
  cases k with
  | other => exact hk.elim
  | int i => cases l with
    | int j => simp [identicalKeys]
    | text t => simp [identicalKeys]
    | other => exact hl.elim
  | text s => cases l with
    | int j => simp [identicalKeys]
    | text t => simp [identicalKeys]
    | other => exact hl.elim

/-- The sum of arrays takes elements over whose keys are new. -/
theorem AreCanonical.union {a b : List (Key × Value)} (ha : AreCanonical a) (hb : AreCanonical b) :
    AreCanonical (Value.union a b) := by
  unfold Value.union
  have keys : ∀ x ∈ b, x.1.IsCanonical := fun x hx ↦ hb.keys.canonical _ (List.mem_map_of_mem hx)
  have values := hb.values
  clear hb
  induction b generalizing a with
  | nil => exact ha
  | cons x b ih =>
    rw [List.forall_mem_cons] at keys values
    rw [List.foldl_cons]
    refine ih ?_ keys.2 values.2
    obtain ⟨k, v⟩ := x
    dsimp only
    split
    · exact ha
    · rename_i new
      refine ha.append (fun there ↦ new ?_) keys.1 values.1
      obtain ⟨y, mem, rfl⟩ := List.mem_map.1 there
      exact List.any_eq_true.2 ⟨y, mem, (identicalKeys_iff keys.1 keys.1).2 rfl⟩

/-! ### Paths -/

namespace Value

variable {items : List (Key × Value)} {slot base i v w new : Value}

/-- An element of a value in canonical form is in it. -/
theorem IsCanonical.index? (h : base.IsCanonical) (found : base.index? i = some v) : v.IsCanonical := by
  cases base with
  | array items =>
    obtain ⟨k, -, rfl⟩ := Option.map_eq_some_iff.1 found
    exact (isCanonical_array.1 h).lookup_getD k
  | string s =>
    refine isCanonical_of_flat ?_
    rintro items rfl
    simp only [Value.index?] at found
    split at found
    · split at found
      · cases found
      split at found <;> cases found
    · cases found
  | null => exact Option.some.inj found ▸ h
  | bool | int | float | expression => cases found

/-- What a path leads to in a value in canonical form is in it. -/
theorem IsCanonical.lookupPath {path : List (Option Key)} (h : slot.IsCanonical)
    (found : slot.lookupPath path = some v) : v.IsCanonical := by
  induction path generalizing slot with
  | nil => exact Option.some.inj found ▸ h
  | cons step path ih =>
    cases step with
    | none => cases found
    | some k =>
      cases slot with
      | array items =>
        obtain ⟨child, here, rest⟩ := Option.bind_eq_some_iff.1 found
        exact ih ((isCanonical_array.1 h).lookup here) rest
      | null | bool | int | float | string | expression => cases found

/-- Putting a value under a path. -/
theorem IsCanonical.setPath {path : List (Option Key)} (h : slot.IsCanonical)
    (keys : ∀ k, some k ∈ path → k.IsCanonical) (value : new.IsCanonical) :
    (slot.setPath path new).IsCanonical := by
  induction path generalizing slot with
  | nil => exact value
  | cons step path ih =>
    -- The key of an element that is appended is an integer.
    have key (items : List (Key × Value)) : (step.getD (.int (nextIndex items))).IsCanonical := by
      cases step with
      | none => trivial
      | some k => exact keys k List.mem_cons_self
    have put {items : List (Key × Value)} (all : AreCanonical items) :
        AreCanonical (Assoc.insert (step.getD (.int (nextIndex items)))
          (Value.setPath ((Assoc.lookup (step.getD (.int (nextIndex items))) items).getD null) path new)
          items) :=
      all.insert (key items) (ih (all.lookup_getD _) fun k hk ↦ keys k (List.mem_cons_of_mem _ hk))
    cases slot with
    | expression => exact h
    | array items => exact isCanonical_array.2 (put (isCanonical_array.1 h))
    | null | bool | int | float | string => exact isCanonical_array.2 (put .nil)

/-- Dropping what stands under a path. -/
theorem IsCanonical.removePath {path : List Key} (h : slot.IsCanonical) :
    (slot.removePath path).IsCanonical := by
  induction path generalizing slot with
  | nil => cases slot <;> exact h
  | cons k path ih =>
    cases slot with
    | array items =>
      have all := isCanonical_array.1 h
      cases path with
      | nil => exact isCanonical_array.2 (all.erase k)
      | cons l path =>
        rw [Value.removePath]
        split
        · rename_i child found
          refine isCanonical_array.2 (all.insert ?_ (ih (all.lookup found)))
          exact all.keys.canonical _ (List.mem_map_of_mem (Assoc.mem_of_lookup found))
        · exact h
    | null | bool | int | float | string | expression => exact h

/-! ### Operators -/

/-- A cast of a value in canonical form is in it. -/
theorem IsCanonical.castTo (h : v.IsCanonical) (kind : CastKind) : (v.castTo kind).IsCanonical := by
  cases kind with
  | array =>
    cases v with
    | array => exact h
    | null => exact isCanonical_array.2 .nil
    | bool | int | float | string | expression =>
      exact isCanonical_array.2 (AreCanonical.nil.insert (k := .int 0) trivial h)
  | int | float | string | bool => exact isCanonical_of_flat nofun

theorem isFlat_toValue (n : Numeric) : IsFlat n.toValue := by cases n <;> exact nofun

/-- A negated number holds no array. -/
theorem isFlat_negate (n : Numeric) : IsFlat (negate n) := by
  intro items
  cases n with
  | float => exact nofun
  | int i =>
    rw [negate]
    split <;> exact nofun

/-- The result of arithmetic holds no array. -/
theorem isFlat_arithmetic? {op : ArithmeticOp} {m n : Numeric} (h : arithmetic? op m n = some v) :
    IsFlat v := by
  have floats {x y : Float} (h : (approximate? op x y).map float = some v) : IsFlat v := by
    obtain ⟨z, -, rfl⟩ := Option.map_eq_some_iff.1 h
    exact nofun
  unfold arithmetic? at h
  dsimp only at h
  split at h
  · split at h
    · obtain rfl := Option.some.inj h
      exact nofun
    · exact floats h
  · exact floats h

theorem isFlat_arithmeticOf? {op : ArithmeticOp} (h : arithmeticOf? op v w = some new) : IsFlat new := by
  obtain ⟨m, -, h⟩ := Option.bind_eq_some_iff.1 h
  obtain ⟨n, -, h⟩ := Option.bind_eq_some_iff.1 h
  exact isFlat_arithmetic? h

/-- A remainder holds no array. -/
theorem isFlat_remainder? (h : remainder? v w = some new) : IsFlat new := by
  unfold remainder? at h
  split at h
  · cases h
  dsimp only at h
  split at h
  · cases h
  obtain rfl := Option.some.inj h
  exact nofun

/-- The result of an operator on bits holds no array. -/
theorem isFlat_bitwise? {f : Int64 → Int64 → Int64} (h : bitwise? f v w = some new) : IsFlat new := by
  unfold bitwise? at h
  split at h
  · cases h
  obtain rfl := Option.some.inj h
  exact nofun

/-- The result of a shift holds no array. -/
theorem isFlat_shift? {f : Int64 → Nat → Int64} (h : shift? f v w = some new) : IsFlat new := by
  unfold shift? at h
  split at h
  · cases h
  dsimp only at h
  split at h
  · obtain rfl := Option.some.inj h
    exact nofun
  · cases h

/-- A prefix operator keeps values in canonical form. -/
theorem IsCanonical.unary? {op : UnaryOp} (h : v.IsCanonical) (found : Value.unary? op v = some w) :
    w.IsCanonical := by
  cases op with
  | silence => exact Option.some.inj found ▸ h
  | not =>
    obtain rfl := Option.some.inj found
    exact isCanonical_of_flat nofun
  | plus =>
    obtain ⟨n, -, rfl⟩ := Option.map_eq_some_iff.1 found
    exact isCanonical_of_flat (isFlat_toValue n)
  | neg =>
    obtain ⟨n, -, rfl⟩ := Option.map_eq_some_iff.1 found
    exact isCanonical_of_flat (isFlat_negate n)
  | bitNot =>
    cases v <;> cases found <;> exact isCanonical_of_flat nofun

/-- Of binary operators, the sum of arrays and the choice of an operand yield arrays. -/
theorem IsCanonical.binary? {op : BinaryOp} (hv : v.IsCanonical) (hw : w.IsCanonical)
    (found : Value.binary? op v w = some new) : new.IsCanonical := by
  cases op with
  | concat | and | or | xor | eq | notEq | identical | notIdentical =>
    obtain rfl := Option.some.inj found
    exact isCanonical_of_flat nofun
  | coalesce =>
    obtain rfl := Option.some.inj found
    split
    · exact hw
    · exact hv
  | lt | gt | ltEq | gtEq =>
    obtain ⟨o, -, rfl⟩ := Option.map_eq_some_iff.1 found
    exact isCanonical_of_flat nofun
  | spaceship =>
    obtain ⟨o, -, rfl⟩ := Option.map_eq_some_iff.1 found
    cases o <;> exact isCanonical_of_flat nofun
  | add =>
    simp only [Value.binary?] at found
    split at found
    · obtain rfl := Option.some.inj found
      exact isCanonical_array.2 ((isCanonical_array.1 hv).union (isCanonical_array.1 hw))
    · exact isCanonical_of_flat (isFlat_arithmeticOf? found)
  | sub | mul | div | pow => exact isCanonical_of_flat (isFlat_arithmeticOf? found)
  | mod => exact isCanonical_of_flat (isFlat_remainder? found)
  | bitAnd | bitOr | bitXor => exact isCanonical_of_flat (isFlat_bitwise? found)
  | shiftLeft | shiftRight => exact isCanonical_of_flat (isFlat_shift? found)

end Value

/-! ### Data -/

theorem dataEntries_eq_map (items : List (Key × Value)) :
    dataEntries items = items.map fun x ↦ (x.1.toText, x.2.toData) := by
  induction items with
  | nil => rw [dataEntries, List.map_nil]
  | cons x items ih => rw [dataEntries, ih, List.map_cons]

/-- The texts of the keys are distinct, too. -/
theorem HasCanonicalKeys.nodup_texts {items : List (Key × Value)} (h : HasCanonicalKeys items) :
    ((Assoc.keys items).map Key.toText).Nodup :=
  h.distinct.map_on fun k hk l hl ↦ (h.canonical k hk).toText_inj (h.canonical l hl)

namespace Format.Json

/-- Entries with distinct keys are all read. -/
theorem readBackEntries_eq {done entries : List (String × Data)}
    (distinct : ((done ++ entries).map (·.1)).Nodup) :
    readBackEntries done entries = done ++ entries.map fun x ↦ (x.1, readBack x.2) := by
  induction entries generalizing done with
  | nil => rw [readBackEntries, List.map_nil, List.append_nil]
  | cons x entries ih =>
    obtain ⟨k, d⟩ := x
    have new : k ∉ Assoc.keys done := by
      rw [List.map_append, List.map_cons, List.nodup_middle, List.nodup_cons, List.mem_append,
        not_or] at distinct
      exact distinct.1.1
    rw [readBackEntries, Assoc.insert_of_not_mem new, ih (by simpa using distinct)]
    simp

/-- An array whose keys have distinct texts, and that is no list, is read back with all its elements. -/
theorem readBack_array {items : List (Key × Value)} (h : ((Assoc.keys items).map Key.toText).Nodup)
    (mapping : isList items = false) :
    readBack (Value.array items).toData =
      .mapping (items.map fun x ↦ (x.1.toText, readBack x.2.toData)) := by
  have distinct : ((([] : List (String × Data)) ++ dataEntries items).map (·.1)).Nodup := by
    rw [List.nil_append, dataEntries_eq_map, List.map_map]
    rwa [Assoc.keys, List.map_map] at h
  rw [Value.toData, mapping, if_neg Bool.false_ne_true, readBack, readBackEntries_eq distinct,
    dataEntries_eq_map, List.nil_append, List.map_map]
  rfl

end Format.Json

end ConfigScript
