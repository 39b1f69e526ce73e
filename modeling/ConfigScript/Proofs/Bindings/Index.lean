import ConfigScript.IndexedBindings
import ConfigScript.Proofs.Bindings.History
import Mathlib.Data.List.InsertIdx

/-!
# Bindings with an index are bindings

As long as the index says of each name where it stands (`Locates`), an access by the index finds the
binding of the name, and inserting and removing do to the entries what they do to bindings without an
index (`IsIndexed.insert`, `IsIndexed.remove`). Both keep the index right: a new name comes last
(`Locates.concat`), and where one is dropped, those behind it move up (`Locates.eraseIdx`). So no series of
changes ever leads to an access out of range, and it leads to the variables that a scope has after the
same changes (`exists_run`).
-/

namespace ConfigScript

/-! ### The place of a key -/

namespace Assoc

variable {α β : Type} {a : α} {es : List (α × β)} {i : Nat}

/-- The pair at the place of a key, in a list without repeated keys. -/
theorem exists_of_place (distinct : (keys es).Nodup) (there : (keys es)[i]? = some a) :
    ∃ xs b ys, es = xs ++ (a, b) :: ys ∧ xs.length = i ∧ a ∉ keys xs ∧ a ∉ keys ys := by
  rw [keys, List.getElem?_map, Option.map_eq_some_iff] at there
  obtain ⟨⟨k, b⟩, found, rfl⟩ := there
  obtain ⟨short, same⟩ := List.getElem?_eq_some_iff.1 found
  have parts : es = es.take i ++ (k, b) :: es.drop (i + 1) := by
    rw [← same, List.getElem_cons_drop, List.take_append_drop]
  refine ⟨es.take i, b, es.drop (i + 1), parts, List.length_take_of_le short.le, ?_⟩
  rw [parts, keys, List.map_append, List.map_cons, List.nodup_append] at distinct
  obtain ⟨-, behind, apart⟩ := distinct
  exact ⟨fun h ↦ apart k h k List.mem_cons_self rfl, (List.nodup_cons.1 behind).1⟩

end Assoc

namespace IndexedBindings

/-! ### Indices of a list of names -/

/-- The index says of each name where it stands, and of no other that it does. -/
def Locates (places : Std.HashMap String Nat) (names : List String) : Prop :=
  ∀ (name : String) (i : Nat), places[name]? = some i ↔ names[i]? = some name

variable {places : Std.HashMap String Nat} {names : List String} {name : String} {i : Nat}

/-- A name without a place is none of the names. -/
theorem Locates.not_mem (h : Locates places names) (absent : places[name]? = none) :
    name ∉ names := by
  intro mem
  obtain ⟨i, there⟩ := List.mem_iff_getElem?.1 mem
  rw [(h name i).2 there] at absent
  cases absent

/-- A new name comes last. -/
theorem Locates.concat (h : Locates places names) (new : name ∉ names) :
    Locates (places.insert name names.length) (names ++ [name]) := by
  intro n i
  rw [Std.HashMap.getElem?_insert, List.getElem?_append]
  by_cases same : name = n
  · subst same
    rw [beq_self_eq_true, if_pos rfl]
    constructor
    · intro last
      obtain rfl := Option.some.inj last
      simp
    · intro there
      split at there
      · exact absurd (List.mem_of_getElem? there) new
      · rename_i long
        obtain ⟨only, -⟩ := List.getElem?_eq_some_iff.1 there
        rw [List.length_singleton] at only
        exact congrArg some (by omega)
  · rw [beq_eq_false_iff_ne.2 same, if_neg Bool.false_ne_true, h n i]
    split
    · rfl
    · rename_i long
      have none : names[i]? = none := List.getElem?_eq_none (by omega)
      rw [none]
      refine ⟨nofun, fun there ↦ absurd ?_ same⟩
      exact (List.mem_singleton.1 (List.mem_of_getElem? there)).symm

/-- Where a binding stood that now stands at place `j`. -/
theorem moveUp_eq_iff {k j : Nat} (other : k ≠ i) :
    moveUp i k = j ↔ k = if j < i then j else j + 1 := by
  unfold moveUp
  split <;> split <;> omega

/-- A place is given up, and the names behind it move up. -/
theorem Locates.eraseIdx (h : Locates places names) (distinct : names.Nodup)
    (there : names[i]? = some name) :
    Locates ((places.erase name).map fun _ j ↦ moveUp i j) (names.eraseIdx i) := by
  intro n j
  have moved : (names.eraseIdx i)[j]? = names[if j < i then j else j + 1]? := by
    rw [List.getElem?_eraseIdx]
    split <;> rfl
  rw [Std.HashMap.getElem?_map, Std.HashMap.getElem?_erase, moved, ← h n]
  by_cases same : name = n
  · -- The name that is dropped stood at the place itself only.
    subst same
    rw [beq_self_eq_true, if_pos rfl, h name]
    refine ⟨nofun, fun found ↦ ?_⟩
    have places_eq := (List.getElem?_inj ?_ distinct).1 (there.trans found.symm)
    · split at places_eq <;> omega
    · exact (List.getElem?_eq_some_iff.1 there).1
  · rw [beq_eq_false_iff_ne.2 same, if_neg Bool.false_ne_true, Option.map_eq_some_iff]
    have other {k : Nat} (found : places[n]? = some k) : k ≠ i := fun at_i ↦
      same (Option.some.inj (there.symm.trans (at_i ▸ (h n k).1 found)))
    constructor
    · rintro ⟨k, found, up⟩
      rwa [← (moveUp_eq_iff (other found)).1 up]
    · intro found
      exact ⟨_, found, (moveUp_eq_iff (other found)).2 rfl⟩

/-! ### Operations -/

/-- No name has two values, and the index fits. -/
structure IsIndexed (b : IndexedBindings) : Prop where
  distinct : (Assoc.keys b.entries).Nodup
  places : Locates b.places (Assoc.keys b.entries)

variable {b : IndexedBindings}

theorem isIndexed_empty : empty.IsIndexed where
  distinct := List.nodup_nil
  places name i := by simp [empty, Assoc.keys]

namespace IsIndexed

/-- An access by the index finds the binding of the name, which is the only one. -/
theorem exists_entry (h : b.IsIndexed) (found : b.places[name]? = some i) :
    ∃ xs v ys, b.entries = xs ++ (name, v) :: ys ∧ xs.length = i ∧ name ∉ Assoc.keys xs ∧
      name ∉ Assoc.keys ys ∧ b.entryAt i = .ok (name, v) ∧ Assoc.lookup name b.entries = some v := by
  obtain ⟨xs, v, ys, entries, length, before, behind⟩ :=
    Assoc.exists_of_place h.distinct ((h.places name i).1 found)
  have there : b.entries[i]? = some (name, v) := by
    rw [entries, ← length, List.getElem?_append_right (Nat.le_refl _), Nat.sub_self]
    rfl
  refine ⟨xs, v, ys, entries, length, before, behind, ?_, ?_⟩
  · rw [entryAt, there]
  · exact Assoc.lookup_of_mem h.distinct (List.mem_of_getElem? there)

/-- A name that has a value is found by the index. -/
theorem get (h : b.IsIndexed) (name : String) : b.get name = .ok (Assoc.lookup name b.entries) := by
  rw [IndexedBindings.get]
  cases found : b.places[name]? with
  | none => rw [Assoc.lookup_eq_none (h.places.not_mem found)]
  | some i =>
    obtain ⟨_, v, _, -, -, -, -, there, value⟩ := h.exists_entry found
    simp only [there, value]
    rfl

/-- Inserting never fails an access: the entry gets its new value, and the places are those of the names.
-/
theorem insert (h : b.IsIndexed) (name : String) (value : Value) :
    ∃ b', b.insert name value = .ok b' ∧ b'.IsIndexed ∧
      b'.entries = Assoc.insert name value b.entries := by
  rw [IndexedBindings.insert]
  cases found : b.places[name]? with
  | none =>
    have new := h.places.not_mem found
    have entries := Assoc.insert_of_not_mem new value
    refine ⟨_, rfl, ⟨entries ▸ Assoc.nodup_keys_insert h.distinct value, ?_⟩, entries.symm⟩
    have keys : Assoc.keys (b.entries ++ [(name, value)]) = Assoc.keys b.entries ++ [name] :=
      List.map_append
    have length : b.entries.length = (Assoc.keys b.entries).length := (List.length_map _).symm
    rw [keys, length]
    exact h.places.concat new
  | some i =>
    obtain ⟨xs, v, ys, entries, length, before, -, there, -⟩ := h.exists_entry found
    have set : b.entries.set i (name, value) = Assoc.insert name value b.entries := by
      rw [entries, Assoc.insert_of_mem before, ← length, List.set_append_right _ _ (Nat.le_refl _),
        Nat.sub_self, List.set_cons_zero]
    have keys : Assoc.keys (b.entries.set i (name, value)) = Assoc.keys b.entries := by
      rw [set, Assoc.keys_insert, if_pos]
      rw [entries]
      simp [Assoc.keys]
    simp only [there]
    exact ⟨_, rfl, ⟨keys ▸ h.distinct, keys ▸ h.places⟩, set⟩

/-- Removing never fails an access: the entry is gone, and the places of those behind it move down by
one. -/
theorem remove (h : b.IsIndexed) (name : String) :
    ∃ b', b.remove name = .ok (Assoc.lookup name b.entries, b') ∧ b'.IsIndexed ∧
      b'.entries = Assoc.erase name b.entries := by
  rw [IndexedBindings.remove]
  cases found : b.places[name]? with
  | none =>
    have absent := h.places.not_mem found
    rw [Assoc.lookup_eq_none absent, Assoc.erase_of_not_mem absent]
    exact ⟨b, rfl, h, rfl⟩
  | some i =>
    obtain ⟨xs, v, ys, entries, length, before, behind, there, value⟩ := h.exists_entry found
    have cut : b.entries.eraseIdx i = Assoc.erase name b.entries := by
      rw [entries, Assoc.erase_of_mem before behind, ← length,
        List.eraseIdx_append_of_length_le (Nat.le_refl _), Nat.sub_self, List.eraseIdx_cons_zero]
    have keys : Assoc.keys (b.entries.eraseIdx i) = (Assoc.keys b.entries).eraseIdx i :=
      (List.eraseIdx_map Prod.fst b.entries i).symm
    simp only [there, value]
    refine ⟨_, rfl, ⟨?_, ?_⟩, cut⟩
    · exact keys ▸ h.distinct.sublist (List.eraseIdx_sublist _ _)
    · exact keys ▸ h.places.eraseIdx h.distinct ((h.places name i).1 found)

end IsIndexed

/-! ### Series of changes -/

/-- Make a change. -/
def change (b : IndexedBindings) : BindingChange → Except OutOfRange IndexedBindings
  | .insert n v => b.insert n v
  | .remove n => (b.remove n).map (·.2)

/-- Make changes to no bindings, one after the other. -/
def run (h : History) : Except OutOfRange IndexedBindings := h.foldlM change empty

/-- A change does to indexed bindings what it does to the variables of a scope. -/
theorem IsIndexed.change (h : b.IsIndexed) (s : Scope) (same : b.entries = s.vars) (c : BindingChange) :
    ∃ b', b.change c = .ok b' ∧ b'.IsIndexed ∧ b'.entries = (c.onScope s).vars := by
  cases c with
  | insert n v =>
    obtain ⟨b', made, indexed, entries⟩ := h.insert n v
    exact ⟨b', made, indexed, by rw [entries, same]; rfl⟩
  | remove n =>
    obtain ⟨b', made, indexed, entries⟩ := h.remove n
    exact ⟨b', by rw [IndexedBindings.change, made]; rfl, indexed, by rw [entries, same]; rfl⟩

/-- Changes are made without an access out of range, to the entries and the index alike. -/
theorem exists_run (h : History) :
    ∃ b, run h = .ok b ∧ b.IsIndexed ∧ b.entries = h.scope.vars := by
  induction h using List.reverseRecOn with
  | nil => exact ⟨empty, rfl, isIndexed_empty, rfl⟩
  | append_singleton h c ih =>
    obtain ⟨b, made, indexed, entries⟩ := ih
    obtain ⟨b', changed, indexed', entries'⟩ := indexed.change (History.scope h) entries c
    refine ⟨b', ?_, indexed', by rw [entries', History.scope_concat]⟩
    rw [run] at made ⊢
    rw [List.foldlM_append, made]
    exact (bind_pure _).trans changed

/-- Bindings with an index are a map that remembers the order of insertion: whatever changes are made to
them, no access is out of range, no name occurs twice, and the index says of each name where it stands. A
name has the value that it got last since its last removal, also when it is removed, and the names stand in
the order in which they came since then. These are the variables that a scope has after the same changes. -/
theorem history_indexed (h : History) :
    ∃ b, run h = .ok b ∧
      b.entries = h.scope.vars ∧
      (b.entries.map (·.1)).Nodup ∧
      (∀ (name : String) (i : Nat), b.places[name]? = some i ↔ b.entries[i]?.map (·.1) = some name) ∧
      (∀ name, b.get name = .ok (h.latest? name)) ∧
      (∀ name, (b.remove name).map (·.1) = .ok (h.latest? name)) ∧
      (∀ name, name ∈ b.entries.map (·.1) ↔ (h.latest? name).isSome) ∧
      (b.entries.map (·.1)).Pairwise fun m n ↦ h.born m < h.born n := by
  obtain ⟨b, made, indexed, entries⟩ := exists_run h
  have value (name : String) : Assoc.lookup name b.entries = h.latest? name := by
    rw [entries]
    exact History.var?_scope name h
  refine ⟨b, made, entries, indexed.distinct, fun name i ↦ ?_, fun name ↦ ?_, fun name ↦ ?_,
    fun name ↦ ?_, ?_⟩
  · rw [indexed.places name i, Assoc.keys, List.getElem?_map]
  · rw [indexed.get, value]
  · obtain ⟨b', removed, -, -⟩ := indexed.remove name
    rw [removed, value]
    rfl
  · rw [entries]
    exact History.mem_keys_scope
  · rw [entries]
    exact History.pairwise_born h

end IndexedBindings

end ConfigScript
