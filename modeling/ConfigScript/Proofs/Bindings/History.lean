import ConfigScript.Proofs.Assoc
import ConfigScript.Scope
import Mathlib.Data.List.DropRight

/-!
# The history of bindings

What the variables of a scope are can be told from the changes that were made to them: a name has the
value that it got last since its last removal (`History.var?_scope`), and the names stand in the order in
which they came since then (`History.pairwise_born`), each once.
-/

namespace ConfigScript

/-- A change of bindings. -/
inductive BindingChange where
  | insert (name : String) (value : Value)
  | remove (name : String)

namespace BindingChange

/-- Whether the change removes a name. -/
def removes (name : String) : BindingChange → Bool
  | insert _ _ => false
  | remove n => n == name

/-- The value that the change gives to a name. -/
def value? (name : String) : BindingChange → Option Value
  | insert n v => if n = name then some v else none
  | remove _ => none

/-- The change, made to the variables of a scope. -/
def onScope (s : Scope) : BindingChange → Scope
  | insert n v => s.setVariable n v
  | remove n => s.unsetVariable n

end BindingChange

/-- Changes in their order. -/
abbrev History := List BindingChange

namespace History

/-- The changes behind the last removal of a name. -/
def sinceRemoval (name : String) (h : History) : History := h.rtakeWhile (!·.removes name)

/-- The changes up to the last removal of a name. -/
def upToRemoval (name : String) (h : History) : History := h.rdropWhile (!·.removes name)

/-- The value that a name got last since its last removal. -/
def latest? (name : String) (h : History) : Option Value :=
  ((sinceRemoval name h).filterMap (·.value? name)).getLast?

/-- The number of changes in front of the first one since its last removal that gave the name a value. -/
def born (name : String) (h : History) : Nat :=
  (upToRemoval name h).length + (sinceRemoval name h).findIdx fun c ↦ (c.value? name).isSome

/-- The scope behind the changes. -/
def scope (h : History) : Scope := h.foldl BindingChange.onScope .empty

variable {h : History} {c : BindingChange} {name : String}

/-! ### One more change -/

theorem upToRemoval_append_sinceRemoval (name : String) (h : History) :
    upToRemoval name h ++ sinceRemoval name h = h := by
  rw [upToRemoval, sinceRemoval, List.rdropWhile, List.rtakeWhile, ← List.reverse_append,
    List.takeWhile_append_dropWhile, List.reverse_reverse]

theorem sinceRemoval_concat (name : String) (h : History) (c : BindingChange) :
    sinceRemoval name (h ++ [c]) = if c.removes name then [] else sinceRemoval name h ++ [c] := by
  rw [sinceRemoval, List.rtakeWhile_concat]
  cases c.removes name <;> rfl

theorem upToRemoval_concat (stays : c.removes name = false) (h : History) :
    upToRemoval name (h ++ [c]) = upToRemoval name h :=
  List.rdropWhile_concat_pos _ _ _ (by rw [stays]; rfl)

/-- The latest value behind one more change is that of the change, or the one before unless it is
removed. -/
theorem latest?_concat (name : String) (h : History) (c : BindingChange) :
    latest? name (h ++ [c]) =
      if c.removes name then none else (c.value? name).or (latest? name h) := by
  rw [latest?, sinceRemoval_concat]
  split
  · rfl
  · rw [List.filterMap_append, List.getLast?_append, List.filterMap_cons, List.filterMap_nil]
    cases c.value? name <;> rfl

/-- A name has a value if it got one since its last removal. -/
theorem isSome_latest?_iff :
    (latest? name h).isSome ↔
      (sinceRemoval name h).findIdx (fun c ↦ (c.value? name).isSome) <
        (sinceRemoval name h).length := by
  rw [List.findIdx_lt_length, latest?, List.getLast?_isSome]
  simp [Option.isSome_iff_exists, List.filterMap_eq_nil_iff, Option.ne_none_iff_exists']

theorem length_history (name : String) (h : History) :
    (upToRemoval name h).length + (sinceRemoval name h).length = h.length := by
  rw [← List.length_append, upToRemoval_append_sinceRemoval]

/-- A name that has a value was born in the history. -/
theorem born_lt (there : (latest? name h).isSome) : born name h < h.length := by
  rw [← length_history name h]
  exact Nat.add_lt_add_left (isSome_latest?_iff.1 there) _

/-- As long as a name stays, it is not born again. -/
theorem born_concat (there : (latest? name h).isSome) (stays : c.removes name = false) :
    born name (h ++ [c]) = born name h := by
  rw [born, upToRemoval_concat stays, sinceRemoval_concat, stays, if_neg Bool.false_ne_true,
    List.findIdx_append, if_pos (isSome_latest?_iff.1 there), born]

/-- A name without a value is born when it gets one. -/
theorem born_new (absent : latest? name h = none) (value : Value) :
    born name (h ++ [.insert name value]) = h.length := by
  have unborn : ¬(latest? name h).isSome := by
    rw [absent]
    exact Bool.false_ne_true
  have stays : (BindingChange.insert name value).removes name = false := rfl
  have first : [BindingChange.insert name value].findIdx (fun c ↦ (c.value? name).isSome) = 0 := by
    simp [BindingChange.value?]
  rw [born, upToRemoval_concat stays, sinceRemoval_concat, stays, if_neg Bool.false_ne_true,
    List.findIdx_append, if_neg fun found ↦ unborn (isSome_latest?_iff.2 found), first, Nat.zero_add,
    length_history]

/-! ### The variables of a scope -/

theorem scope_concat (h : History) (c : BindingChange) : scope (h ++ [c]) = c.onScope (scope h) := by
  rw [scope, List.foldl_append]
  rfl

/-- A variable has the value that it got last since its last removal. -/
theorem var?_scope (name : String) (h : History) : (scope h).var? name = latest? name h := by
  induction h using List.reverseRecOn with
  | nil => rfl
  | append_singleton h c ih =>
    rw [scope_concat, latest?_concat]
    cases c with
    | insert n v =>
      show Assoc.lookup name (Assoc.insert n v (scope h).vars) = (if n = name then some v else none).or _
      by_cases same : n = name
      · rw [if_pos same, same, Assoc.lookup_insert_self]
        rfl
      · rw [if_neg same, Assoc.lookup_insert_of_ne (Ne.symm same), Option.none_or]
        exact ih
    | remove n =>
      show Assoc.lookup name (Assoc.erase n (scope h).vars) = if (n == name) then none else _
      by_cases same : n = name
      · rw [if_pos (beq_iff_eq.2 same), same, Assoc.lookup_erase_self]
      · rw [if_neg (by simpa using same), Assoc.lookup_erase_of_ne (Ne.symm same)]
        exact ih

theorem mem_keys_scope : name ∈ Assoc.keys (scope h).vars ↔ (latest? name h).isSome := by
  rw [← Assoc.contains_iff, ← var?_scope]
  rfl

/-- Names that stay keep their order. -/
theorem pairwise_born_concat {names : List String}
    (order : names.Pairwise fun m n ↦ born m h < born n h)
    (stay : ∀ n ∈ names, (latest? n h).isSome ∧ c.removes n = false) :
    names.Pairwise fun m n ↦ born m (h ++ [c]) < born n (h ++ [c]) := by
  refine order.imp_of_mem fun hm hn earlier ↦ ?_
  rwa [born_concat (stay _ hm).1 (stay _ hm).2, born_concat (stay _ hn).1 (stay _ hn).2]

/-- The names of the variables stand in the order in which they were born. -/
theorem pairwise_born (h : History) :
    (Assoc.keys (scope h).vars).Pairwise fun m n ↦ born m h < born n h := by
  induction h using List.reverseRecOn with
  | nil => exact .nil
  | append_singleton h c ih =>
    rw [scope_concat]
    cases c with
    | insert n v =>
      have old := pairwise_born_concat (c := .insert n v) ih fun m hm ↦ ⟨mem_keys_scope.1 hm, rfl⟩
      show (Assoc.keys (Assoc.insert n v (scope h).vars)).Pairwise _
      rw [Assoc.keys_insert]
      split
      · exact old
      · rename_i new
        refine List.pairwise_append.2 ⟨old, List.pairwise_singleton _ _, fun m hm k hk ↦ ?_⟩
        have absent : latest? n h = none := by
          rw [← Option.not_isSome_iff_eq_none, ← mem_keys_scope]
          exact new
        rw [List.mem_singleton.1 hk, born_new absent, born_concat (mem_keys_scope.1 hm) rfl]
        exact born_lt (mem_keys_scope.1 hm)
    | remove n =>
      show (Assoc.keys (Assoc.erase n (scope h).vars)).Pairwise _
      rw [Assoc.keys_erase]
      refine pairwise_born_concat (ih.sublist List.filter_sublist) fun m hm ↦ ?_
      obtain ⟨mem, other⟩ := List.mem_filter.1 hm
      refine ⟨mem_keys_scope.1 mem, beq_eq_false_iff_ne.2 fun same ↦ ?_⟩
      exact of_decide_eq_true other same.symm

/-- A name that comes again keeps its place, one that was removed comes last. -/
example : Assoc.keys (scope [.insert "a" .null, .insert "b" .null, .insert "c" .null,
    .insert "b" (.bool true), .remove "a", .insert "a" .null]).vars = ["b", "c", "a"] := by
  decide

end History

end ConfigScript
