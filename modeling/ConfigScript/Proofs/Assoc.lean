import ConfigScript.Assoc

/-!
# Association lists and the place of a key

Where the pair with a key stands in a list, insertion and erasure change the list there and nowhere
else. The key must not occur in front of that pair, and for erasure not behind it either. To insert the
value that a key has changes nothing. What is looked up stands in the list, and in a list without
repeated keys, which insertion keeps, what stands in the list is looked up.
-/

namespace ConfigScript.Assoc

variable {α β : Type} [DecidableEq α] {a : α} {xs ys : List (α × β)}

/-- An entry with a new key goes behind all others. -/
theorem insert_of_not_mem (h : a ∉ keys xs) (b : β) : insert a b xs = xs ++ [(a, b)] := by
  induction xs with
  | nil => rfl
  | cons x xs ih =>
    obtain ⟨k, v⟩ := x
    rw [keys_cons, List.mem_cons, not_or] at h
    rw [insert, if_neg (Ne.symm h.1), ih h.2, List.cons_append]

/-- An entry whose key is there is replaced in its place. -/
theorem insert_of_mem (h : a ∉ keys xs) (ys : List (α × β)) (b v : β) :
    insert a b (xs ++ (a, v) :: ys) = xs ++ (a, b) :: ys := by
  induction xs with
  | nil => simp [insert]
  | cons x xs ih =>
    obtain ⟨k, w⟩ := x
    rw [keys_cons, List.mem_cons, not_or] at h
    rw [List.cons_append, insert, if_neg (Ne.symm h.1), ih h.2, List.cons_append]

theorem erase_of_not_mem (h : a ∉ keys xs) : erase a xs = xs := by
  refine List.filter_eq_self.2 fun x hx ↦ ?_
  have ne : x.1 ≠ a := fun hxa ↦ h (hxa ▸ List.mem_map_of_mem hx)
  simpa using ne

theorem erase_of_mem (hx : a ∉ keys xs) (hy : a ∉ keys ys) (v : β) :
    erase a (xs ++ (a, v) :: ys) = xs ++ ys := by
  have first : xs.filter (·.1 ≠ a) = xs := erase_of_not_mem hx
  have second : ys.filter (·.1 ≠ a) = ys := erase_of_not_mem hy
  rw [erase, List.filter_append, List.filter_cons_of_neg (by simp), first, second]

/-- A key that is not there leads to nothing. -/
theorem lookup_eq_none (h : a ∉ keys xs) : lookup a xs = none := by
  induction xs with
  | nil => rfl
  | cons x xs ih =>
    obtain ⟨k, v⟩ := x
    rw [keys_cons, List.mem_cons, not_or] at h
    rw [lookup_cons, if_neg (Ne.symm h.1), ih h.2]

/-- A key is contained just if it is one of the keys. -/
theorem contains_iff {a : α} {xs : List (α × β)} : contains a xs ↔ a ∈ keys xs := by
  constructor
  · intro h
    refine Decidable.byContradiction fun hn ↦ ?_
    rw [contains, lookup_eq_none hn] at h
    cases h
  · intro h
    induction xs with
    | nil => cases h
    | cons x xs ih =>
      obtain ⟨k, v⟩ := x
      rw [contains, lookup_cons]
      split
      · rfl
      · rename_i ne
        exact ih ((List.mem_cons.1 h).resolve_left (Ne.symm ne))

theorem lookup_append_self (h : a ∉ keys xs) (b : β) : lookup a (xs ++ [(a, b)]) = some b := by
  rw [← insert_of_not_mem h, lookup_insert_self]

/-- To insert the value that is there already changes nothing. -/
theorem insert_eq_self {b : β} (h : lookup a xs = some b) : insert a b xs = xs := by
  induction xs with
  | nil => cases h
  | cons x xs ih =>
    obtain ⟨k, v⟩ := x
    rw [lookup_cons] at h
    by_cases same : k = a
    · rw [if_pos same] at h
      rw [insert, if_pos same, Option.some.inj h]
    · rw [if_neg same] at h
      rw [insert, if_neg same, ih h]

/-- A key is looked up in the first list, and then in the second. -/
theorem lookup_append (a : α) (xs ys : List (α × β)) :
    lookup a (xs ++ ys) = (lookup a xs).or (lookup a ys) := by
  induction xs with
  | nil => rfl
  | cons x xs ih =>
    obtain ⟨k, b⟩ := x
    rw [List.cons_append, lookup_cons, lookup_cons]
    split
    · rfl
    · exact ih

/-! ### Pairs of a list -/

section Pairs

variable {b : β} {x : α × β}

/-- What is looked up is an entry. -/
theorem mem_of_lookup (h : lookup a xs = some b) : (a, b) ∈ xs := by
  induction xs with
  | nil => cases h
  | cons x xs ih =>
    obtain ⟨k, v⟩ := x
    rw [lookup_cons] at h
    split at h
    · rename_i same
      obtain rfl := Option.some.inj h
      exact same ▸ List.mem_cons_self
    · exact List.mem_cons_of_mem _ (ih h)

theorem isSome_lookup_of_mem (h : (a, b) ∈ xs) : (lookup a xs).isSome :=
  contains_iff.2 (List.mem_map_of_mem (f := Prod.fst) h)

/-- With distinct keys, each entry is found by its key. -/
theorem lookup_of_mem (distinct : (keys xs).Nodup) (h : (a, b) ∈ xs) : lookup a xs = some b := by
  obtain ⟨as, bs, rfl⟩ := List.append_of_mem h
  have new : a ∉ keys as := by
    rw [keys, List.map_append, List.nodup_append] at distinct
    exact fun there ↦ distinct.2.2 a there a List.mem_cons_self rfl
  rw [lookup_append, lookup_eq_none new, Option.none_or, lookup_cons, if_pos rfl]

/-- An entry behind an insertion is the inserted one or was there. -/
theorem mem_insert (h : x ∈ insert a b xs) : x = (a, b) ∨ x ∈ xs := by
  induction xs with
  | nil => exact .inl (List.mem_singleton.1 h)
  | cons y ys ih =>
    obtain ⟨k, v⟩ := y
    by_cases same : k = a
    · subst same
      rw [insert, if_pos rfl] at h
      exact (List.mem_cons.1 h).imp_right (List.mem_cons_of_mem _)
    · rw [insert, if_neg same] at h
      rcases List.mem_cons.1 h with rfl | h
      · exact .inr List.mem_cons_self
      · exact (ih h).imp_right (List.mem_cons_of_mem _)

/-- An insertion leaves the keys distinct. -/
theorem nodup_keys_insert (h : (keys xs).Nodup) (b : β) : (keys (insert a b xs)).Nodup := by
  rw [keys_insert]
  split
  · exact h
  · rename_i new
    refine List.nodup_append.2 ⟨h, List.nodup_cons.2 ⟨List.not_mem_nil, List.nodup_nil⟩, ?_⟩
    rintro k there l only rfl
    exact new (List.mem_singleton.1 only ▸ there)

end Pairs

end ConfigScript.Assoc
