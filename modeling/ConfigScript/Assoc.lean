/-!
# Association lists in order of insertion

A table is a list of pairs. Looking up finds the first pair with the key, `insert` puts a new value
in its place or a new pair at the end, and `erase` drops every pair with the key. The laws state
each operation through `lookup`; they need no assumption on the list.
-/

namespace ConfigScript.Assoc

variable {α β : Type} [DecidableEq α]

/-- The value of `a`. -/
def lookup (a : α) : List (α × β) → Option β
  | [] => none
  | (k, b) :: rest => if k = a then some b else lookup a rest

/-- Whether there is a value of `a`. -/
def contains (a : α) (xs : List (α × β)) : Bool := (lookup a xs).isSome

/-- Give `a` the value `b`, in its old place if it has one and at the end otherwise. -/
def insert (a : α) (b : β) : List (α × β) → List (α × β)
  | [] => [(a, b)]
  | (k, v) :: rest => if k = a then (k, b) :: rest else (k, v) :: insert a b rest

/-- Drop what `a` has. -/
def erase (a : α) (xs : List (α × β)) : List (α × β) := xs.filter (·.1 ≠ a)

/-- The keys in order. -/
def keys (xs : List (α × β)) : List α := xs.map (·.1)

@[simp]
theorem lookup_nil (a : α) : lookup a ([] : List (α × β)) = none := rfl

theorem lookup_cons (a k : α) (b : β) (xs : List (α × β)) :
    lookup a ((k, b) :: xs) = if k = a then some b else lookup a xs := rfl

/-- What was inserted for a key is found by it. -/
@[simp]
theorem lookup_insert_self (a : α) (b : β) (xs : List (α × β)) :
    lookup a (insert a b xs) = some b := by
  induction xs with
  | nil => simp [insert, lookup]
  | cons x xs ih =>
    obtain ⟨k, v⟩ := x
    by_cases h : k = a <;> simp [insert, lookup, h, ih]

/-- Other keys lead to what they led to. -/
theorem lookup_insert_of_ne {a c : α} (h : c ≠ a) (b : β) (xs : List (α × β)) :
    lookup c (insert a b xs) = lookup c xs := by
  induction xs with
  | nil => simp [insert, lookup, Ne.symm h]
  | cons x xs ih =>
    obtain ⟨k, v⟩ := x
    by_cases hk : k = a
    · subst hk
      simp [insert, lookup, Ne.symm h]
    · simp [insert, lookup, hk, ih]

@[simp]
theorem lookup_erase_self (a : α) (xs : List (α × β)) : lookup a (erase a xs) = none := by
  induction xs with
  | nil => rfl
  | cons x xs ih =>
    obtain ⟨k, v⟩ := x
    by_cases h : k = a <;> simp_all [erase, lookup]

/-- Other keys lead to what they led to. -/
theorem lookup_erase_of_ne {a c : α} (h : c ≠ a) (xs : List (α × β)) :
    lookup c (erase a xs) = lookup c xs := by
  induction xs with
  | nil => rfl
  | cons x xs ih =>
    obtain ⟨k, v⟩ := x
    by_cases hk : k = a
    · subst hk
      simp_all [erase, lookup, Ne.symm h]
    · by_cases hc : k = c <;> simp_all [erase, lookup]

omit [DecidableEq α] in
@[simp]
theorem keys_cons (a : α) (b : β) (xs : List (α × β)) : keys ((a, b) :: xs) = a :: keys xs := rfl

/-- Insertion keeps the keys and their order, and a new key comes last. -/
theorem keys_insert (a : α) (b : β) (xs : List (α × β)) :
    keys (insert a b xs) = if a ∈ keys xs then keys xs else keys xs ++ [a] := by
  induction xs with
  | nil => rfl
  | cons x xs ih =>
    obtain ⟨k, v⟩ := x
    by_cases h : k = a
    · subst h
      simp [insert]
    · have ne : ¬a = k := fun e => h e.symm
      by_cases hm : a ∈ keys xs <;> simp [insert, h, ih, hm, ne]

theorem keys_erase (a : α) (xs : List (α × β)) : keys (erase a xs) = (keys xs).filter (· ≠ a) := by
  induction xs with
  | nil => rfl
  | cons x xs ih =>
    obtain ⟨k, v⟩ := x
    by_cases h : k = a <;> simp_all [erase, keys]

end ConfigScript.Assoc
