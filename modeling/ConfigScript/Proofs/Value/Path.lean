import ConfigScript.Proofs.Assoc
import ConfigScript.Value.Element
import Mathlib.Data.List.Basic

/-!
# Laws of paths

What is put under a path stands there, and what is dropped under a path is gone; the rest stays as it is.
The rest are the paths that lead elsewhere (`DiffersUnder.lookupPath_eq`), and the keys of all arrays in
their order (`keys_setPath`, `keys_removePath`). Nothing is put behind an unknown value on the way
(`setPath_of_isBlocked`). The laws need no assumption on the keys of the arrays.
-/

namespace ConfigScript

/-- Two paths part: neither is the beginning of the other. -/
def ArePart {α : Type} (ks ls : List α) : Prop := ¬ks <+: ls ∧ ¬ls <+: ks

instance {α : Type} [DecidableEq α] (ks ls : List α) : Decidable (ArePart ks ls) :=
  inferInstanceAs (Decidable (_ ∧ _))

theorem arePart_map {ks ls : List Key} (hk : ¬ks <+: ls) (hl : ¬ls <+: ks) :
    ArePart (ks.map some) (ls.map some) :=
  ⟨(List.prefix_map_iff_of_injective fun _ _ ↦ Option.some.inj).not.2 hk,
    (List.prefix_map_iff_of_injective fun _ _ ↦ Option.some.inj).not.2 hl⟩

namespace Value

variable {slot slot' child new v : Value} {items : List (Key × Value)} {k l : Key}
  {ks above rest : List Key}

/-! ### One step -/

/-- The elements of a value; only arrays have any. -/
def elements : Value → List (Key × Value)
  | array items => items
  | _ => []

theorem array_elements (h : Assoc.lookup k slot.elements = some child) : array slot.elements = slot := by
  cases slot with
  | array => rfl
  | null | bool | int | float | string | expression => cases h

theorem lookupPath_cons (slot : Value) (k : Key) (path : List (Option Key)) :
    slot.lookupPath (some k :: path) = (Assoc.lookup k slot.elements).bind (·.lookupPath path) := by
  cases slot <;> rfl

/-- A path with known keys in front leads as these do, and then on. -/
theorem lookupPath_append (slot : Value) (ks : List Key) (path : List (Option Key)) :
    slot.lookupPath (ks.map some ++ path) = (slot.lookupPath (ks.map some)).bind (·.lookupPath path) := by
  induction ks generalizing slot with
  | nil => rfl
  | cons k ks ih =>
    rw [List.map_cons, List.cons_append, lookupPath_cons, lookupPath_cons, Option.bind_assoc]
    exact congrArg _ (funext fun child ↦ ih child)

/-- Nothing stands under `null`. -/
theorem lookupPath_null {path : List (Option Key)} (h : path ≠ []) : null.lookupPath path = none := by
  cases path with
  | nil => exact absurd rfl h
  | cons step path => cases step <;> rfl

/-- A missing element counts as `null` for all that is looked up below. -/
theorem lookupPath_getD {path : List (Option Key)} (h : path ≠ []) (found : Option Value) :
    (found.getD null).lookupPath path = found.bind (·.lookupPath path) := by
  cases found with
  | none => exact lookupPath_null h
  | some child => rfl

theorem setPath_of_isOpaque (h : slot.isOpaque) (step : Option Key) (path : List (Option Key))
    (new : Value) : slot.setPath (step :: path) new = slot := by
  cases slot with
  | expression => rfl
  | null | bool | int | float | string | array => cases h

/-- Setting along a path sets the rest of it in the element of the first key, which is there from then
on. -/
theorem setPath_cons (h : slot.isOpaque = false) (k : Key) (path : List (Option Key)) (new : Value) :
    slot.setPath (some k :: path) new =
      array (Assoc.insert k (((Assoc.lookup k slot.elements).getD null).setPath path new)
        slot.elements) := by
  cases slot with
  | expression => cases h
  | null | bool | int | float | string | array => rfl

/-- Setting along a path leaves the elements of other keys. -/
theorem lookup_setPath_of_ne (h : l ≠ k) (path : List (Option Key)) (new : Value) :
    Assoc.lookup l (slot.setPath (some k :: path) new).elements = Assoc.lookup l slot.elements := by
  cases known : slot.isOpaque with
  | true => rw [setPath_of_isOpaque known]
  | false =>
    rw [setPath_cons known]
    exact Assoc.lookup_insert_of_ne h _ _

theorem elements_removePath_single (slot : Value) (k : Key) :
    (slot.removePath [k]).elements = Assoc.erase k slot.elements := by
  cases slot <;> rfl

/-- Removing along a path removes the rest of it in the element of the first key, if there is one. -/
theorem elements_removePath_cons (h : ks ≠ []) :
    (slot.removePath (k :: ks)).elements =
      ((Assoc.lookup k slot.elements).map fun child ↦
        Assoc.insert k (child.removePath ks) slot.elements).getD slot.elements := by
  obtain ⟨l, rest, rfl⟩ := List.exists_cons_of_ne_nil h
  cases slot with
  | array items =>
    rw [removePath]
    cases found : Assoc.lookup k items <;> simp [elements, found]
  | null | bool | int | float | string | expression => rfl

/-- An array that something is dropped from is an array. -/
theorem removePath_array (items : List (Key × Value)) (ks : List Key) :
    (array items).removePath ks = array ((array items).removePath ks).elements := by
  cases ks with
  | nil => rfl
  | cons k ks =>
    cases ks with
    | nil => rfl
    | cons l rest =>
      rw [removePath]
      split <;> rfl

/-- Removing along a path leaves the elements of other keys. -/
theorem lookup_removePath_of_ne (h : l ≠ k) (ks : List Key) :
    Assoc.lookup l (slot.removePath (k :: ks)).elements = Assoc.lookup l slot.elements := by
  by_cases last : ks = []
  · rw [last, elements_removePath_single, Assoc.lookup_erase_of_ne h]
  · rw [elements_removePath_cons last]
    cases Assoc.lookup k slot.elements with
    | none => rfl
    | some child => exact Assoc.lookup_insert_of_ne h _ _

/-- Behind the first key, the rest of the path is removed. -/
theorem lookup_removePath_self (h : ks ≠ []) :
    Assoc.lookup k (slot.removePath (k :: ks)).elements =
      (Assoc.lookup k slot.elements).map (·.removePath ks) := by
  rw [elements_removePath_cons h]
  cases found : Assoc.lookup k slot.elements with
  | none => exact found
  | some child => exact Assoc.lookup_insert_self k _ _

/-! ### Elsewhere -/

/-- Two values differ under a path only. Elements that are missing count as `null`. -/
inductive DiffersUnder : List Key → Value → Value → Prop
  | here (slot slot' : Value) : DiffersUnder [] slot slot'
  | element {k : Key} {ks : List Key} {slot slot' : Value}
      (others : ∀ l, l ≠ k → Assoc.lookup l slot'.elements = Assoc.lookup l slot.elements)
      (inside : DiffersUnder ks ((Assoc.lookup k slot.elements).getD null)
        ((Assoc.lookup k slot'.elements).getD null)) :
      DiffersUnder (k :: ks) slot slot'

namespace DiffersUnder

theorem refl (ks : List Key) (slot : Value) : DiffersUnder ks slot slot := by
  induction ks generalizing slot with
  | nil => exact .here slot slot
  | cons k ks ih => exact .element (fun _ _ ↦ rfl) (ih _)

/-- Paths that part from the path lead to the same values. -/
theorem lookupPath_eq (h : DiffersUnder ks slot slot') {path : List (Option Key)}
    (part : ArePart (ks.map some) path) : slot'.lookupPath path = slot.lookupPath path := by
  induction h generalizing path with
  | here => exact absurd (List.nil_prefix) part.1
  | @element k ks slot slot' others inside ih =>
    match path with
    | [] => exact absurd (List.nil_prefix) part.2
    | none :: path => rfl
    | some l :: path =>
      rw [lookupPath_cons, lookupPath_cons]
      by_cases same : l = k
      · subst same
        have part : ArePart (ks.map some) path :=
          ⟨fun h ↦ part.1 (List.cons_prefix_cons.2 ⟨rfl, h⟩), fun h ↦ part.2 (List.cons_prefix_cons.2 ⟨rfl, h⟩)⟩
        have nonempty : path ≠ [] := fun h ↦ part.2 (h ▸ List.nil_prefix)
        rw [← lookupPath_getD nonempty, ← lookupPath_getD nonempty]
        exact ih part
      · rw [others l same]

end DiffersUnder

/-- Setting along a path changes nothing but what is under it. -/
theorem differsUnder_setPath (slot : Value) (ks : List Key) (new : Value) :
    DiffersUnder ks slot (slot.setPath (ks.map some) new) := by
  induction ks generalizing slot with
  | nil => exact .here slot new
  | cons k ks ih =>
    rw [List.map_cons]
    cases known : slot.isOpaque with
    | true =>
      rw [setPath_of_isOpaque known]
      exact .refl _ slot
    | false =>
      refine .element (fun l ne ↦ lookup_setPath_of_ne ne _ _) ?_
      rw [setPath_cons known, elements, Assoc.lookup_insert_self]
      exact ih _

/-- Removing along a path changes nothing but what is under it. -/
theorem differsUnder_removePath (slot : Value) (ks : List Key) :
    DiffersUnder ks slot (slot.removePath ks) := by
  induction ks generalizing slot with
  | nil => exact .here slot _
  | cons k ks ih =>
    refine .element (fun l ne ↦ lookup_removePath_of_ne ne ks) ?_
    by_cases last : ks = []
    · exact last ▸ .here _ _
    · rw [lookup_removePath_self last]
      cases Assoc.lookup k slot.elements with
      | none => exact .refl ks null
      | some child => exact ih child

/-! ### What is dropped -/

/-- Above the end of the path the rest of the path is dropped. -/
theorem lookupPath_removePath_above (slot : Value) (above : List Key) (h : rest ≠ []) :
    (slot.removePath (above ++ rest)).lookupPath (above.map some) =
      (slot.lookupPath (above.map some)).map (·.removePath rest) := by
  induction above generalizing slot with
  | nil => rfl
  | cons k above ih =>
    have more : above ++ rest ≠ [] := fun h' ↦ h (List.append_eq_nil_iff.1 h').2
    rw [List.cons_append, List.map_cons, lookupPath_cons, lookupPath_cons, lookup_removePath_self more]
    cases Assoc.lookup k slot.elements with
    | none => rfl
    | some child => exact ih child

/-- What is dropped is gone. -/
theorem lookupPath_removePath (h : ks ≠ []) : (slot.removePath ks).lookupPath (ks.map some) = none := by
  obtain ⟨above, k, rfl⟩ := (List.eq_nil_or_concat ks).resolve_left h
  rw [List.concat_eq_append, List.map_append, lookupPath_append,
    lookupPath_removePath_above slot above (List.cons_ne_nil k [])]
  cases slot.lookupPath (above.map some) with
  | none => rfl
  | some v =>
    show (v.removePath [k]).lookupPath [some k] = none
    rw [lookupPath_cons, elements_removePath_single, Assoc.lookup_erase_self, Option.bind_none]

/-- One key goes, if it is the last of the path. -/
theorem keys_removePath_elements (h : ks ≠ []) (slot : Value) :
    Assoc.keys (slot.removePath ks).elements = (Assoc.keys slot.elements).filter ([·] ≠ ks) := by
  obtain ⟨k, ks, rfl⟩ := List.exists_cons_of_ne_nil h
  by_cases last : ks = []
  · rw [last, elements_removePath_single, Assoc.keys_erase]
    simp
  · have all : (Assoc.keys slot.elements).filter ([·] ≠ k :: ks) = Assoc.keys slot.elements :=
      List.filter_eq_self.2 fun l _ ↦ by simp [Ne.symm last]
    rw [all, elements_removePath_cons last]
    cases found : Assoc.lookup k slot.elements with
    | none => rfl
    | some child =>
      have there : k ∈ Assoc.keys slot.elements :=
        List.mem_map_of_mem (f := Prod.fst) (Assoc.mem_of_lookup found)
      rw [Option.map_some, Option.getD_some, Assoc.keys_insert, if_pos there]

/-- The arrays that remain keep their keys in order, but for the last key of the path in its array. -/
theorem keys_removePath (h : ks ≠ []) {ls : List Key} (found : slot.lookupPath (ls.map some) = some (array items))
    (outside : ¬ks <+: ls) :
    ∃ kept, (slot.removePath ks).lookupPath (ls.map some) = some (array kept) ∧
      Assoc.keys kept = (Assoc.keys items).filter (ls ++ [·] ≠ ks) := by
  by_cases on : ls <+: ks
  · obtain ⟨rest, rfl⟩ := on
    have more : rest ≠ [] := fun h ↦ outside (by simp [h])
    refine ⟨((array items).removePath rest).elements, ?_, ?_⟩
    · rw [lookupPath_removePath_above slot ls more, found, Option.map_some, removePath_array]
      rfl
    · simp only [ne_eq, List.append_cancel_left_eq]
      exact keys_removePath_elements more (array items)
  · refine ⟨items, ?_, (List.filter_eq_self.2 fun k _ ↦ ?_).symm⟩
    · rw [(differsUnder_removePath slot ks).lookupPath_eq (arePart_map outside on), found]
    · exact decide_eq_true fun whole ↦ on (whole ▸ List.prefix_append ls [k])

/-! ### What is put -/

/-- An unknown value stands on the way: under a part of the path that is not the whole path. -/
def IsBlocked (slot : Value) (ks : List Key) : Prop :=
  ∃ above rest v, ks = above ++ rest ∧ rest ≠ [] ∧ slot.lookupPath (above.map some) = some v ∧
    v.isOpaque

/-- Below null no path is blocked. -/
theorem not_isBlocked_null (ks : List Key) : ¬null.IsBlocked ks := by
  rintro ⟨above, rest, v, -, -, found, unknown⟩
  cases above with
  | nil =>
    obtain rfl := Option.some.inj found
    cases unknown
  | cons k above => cases found

/-- A path is blocked at the value itself or in the element of its first key. -/
theorem isBlocked_cons (slot : Value) (k : Key) (ks : List Key) :
    slot.IsBlocked (k :: ks) ↔
      slot.isOpaque ∨ ((Assoc.lookup k slot.elements).getD null).IsBlocked ks := by
  constructor
  · rintro ⟨above, rest, v, whole, more, found, unknown⟩
    cases above with
    | nil =>
      obtain rfl := Option.some.inj found
      exact .inl unknown
    | cons l above =>
      obtain ⟨rfl, rfl⟩ := List.cons.inj whole
      rw [List.map_cons, lookupPath_cons] at found
      obtain ⟨child, element, found⟩ := Option.bind_eq_some_iff.1 found
      refine .inr ⟨above, rest, v, rfl, more, ?_, unknown⟩
      rw [element]
      exact found
  · rintro (unknown | inside)
    · exact ⟨[], k :: ks, slot, rfl, List.cons_ne_nil k ks, rfl, unknown⟩
    · cases element : Assoc.lookup k slot.elements with
      | none =>
        rw [element] at inside
        exact absurd inside (not_isBlocked_null ks)
      | some child =>
        rw [element] at inside
        obtain ⟨above, rest, v, rfl, more, found, unknown⟩ := inside
        refine ⟨k :: above, rest, v, rfl, more, ?_, unknown⟩
        rw [List.map_cons, lookupPath_cons, element]
        exact found

theorem not_isBlocked_nil (slot : Value) : ¬slot.IsBlocked [] := by
  rintro ⟨above, rest, v, whole, more, -⟩
  exact more (List.append_eq_nil_iff.1 whole.symm).2

instance decidableIsBlocked : (slot : Value) → (ks : List Key) → Decidable (slot.IsBlocked ks)
  | slot, [] => isFalse (not_isBlocked_nil slot)
  | slot, k :: ks =>
    have := decidableIsBlocked ((Assoc.lookup k slot.elements).getD null) ks
    decidable_of_iff _ (isBlocked_cons slot k ks).symm

/-- Nothing is put behind an unknown value. -/
theorem setPath_of_isBlocked (h : slot.IsBlocked ks) (new : Value) :
    slot.setPath (ks.map some) new = slot := by
  induction ks generalizing slot with
  | nil => exact absurd h (not_isBlocked_nil slot)
  | cons k ks ih =>
    rw [List.map_cons]
    cases known : slot.isOpaque with
    | true => exact setPath_of_isOpaque known _ _ new
    | false =>
      have inside := ((isBlocked_cons slot k ks).1 h).resolve_left (by rw [known]; nofun)
      have same := ih inside
      rw [setPath_cons known]
      cases element : Assoc.lookup k slot.elements with
      | none =>
        rw [element] at inside
        exact absurd inside (not_isBlocked_null ks)
      | some child =>
        rw [element] at same
        rw [same, Option.getD_some, Assoc.insert_eq_self element, array_elements element]

/-- Above the end of the path the value is put under the rest of the path. What is missing counts as
`null`. -/
theorem lookupPath_setPath_above (above rest : List Key) (new : Value)
    (h : ¬slot.IsBlocked (above ++ rest)) :
    (slot.setPath ((above ++ rest).map some) new).lookupPath (above.map some) =
      some (((slot.lookupPath (above.map some)).getD null).setPath (rest.map some) new) := by
  induction above generalizing slot with
  | nil => rfl
  | cons k above ih =>
    rw [List.cons_append, isBlocked_cons, not_or] at h
    rw [List.cons_append, List.map_cons, List.map_cons, setPath_cons (Bool.not_eq_true _ ▸ h.1),
      lookupPath_cons, lookupPath_cons, elements, Assoc.lookup_insert_self, Option.bind_some, ih h.2]
    cases Assoc.lookup k slot.elements with
    | some child => rfl
    | none => cases above <;> rfl

/-- What is put under a path stands there. -/
theorem lookupPath_setPath (h : ¬slot.IsBlocked ks) (new : Value) :
    (slot.setPath (ks.map some) new).lookupPath (ks.map some) = some new := by
  rw [← List.append_nil ks] at h
  have whole := lookupPath_setPath_above ks [] new h
  rwa [List.append_nil] at whole

/-- The arrays that remain keep their keys in order, and a new key comes last. -/
theorem keys_setPath (new : Value) {ls : List Key}
    (found : slot.lookupPath (ls.map some) = some (array items)) (outside : ¬ks <+: ls) :
    ∃ kept, (slot.setPath (ks.map some) new).lookupPath (ls.map some) = some (array kept) ∧
      Assoc.keys items <+: Assoc.keys kept := by
  by_cases blocked : slot.IsBlocked ks
  · exact ⟨items, (setPath_of_isBlocked blocked new).symm ▸ found, List.prefix_rfl⟩
  by_cases on : ls <+: ks
  · obtain ⟨rest, rfl⟩ := on
    have more : rest ≠ [] := fun h ↦ outside (by simp [h])
    obtain ⟨k, rest, rfl⟩ := List.exists_cons_of_ne_nil more
    refine ⟨Assoc.insert k (((Assoc.lookup k items).getD null).setPath (rest.map some) new) items, ?_, ?_⟩
    · rw [lookupPath_setPath_above ls _ new blocked, found]
      rfl
    · rw [Assoc.keys_insert]
      split
      · exact List.prefix_rfl
      · exact List.prefix_append _ _
  · refine ⟨items, ?_, List.prefix_rfl⟩
    rw [(differsUnder_setPath slot ks new).lookupPath_eq (arePart_map outside on), found]

/-! ### All laws together -/

/-- What is put under a path stands there, unless an unknown value stands on the way; then nothing
changes. What is dropped under a path is gone, and a beginning of the path sees it dropped from its value.
Under paths that part from the path nothing changes, and all arrays that are not behind it keep the order
of their keys: a new key comes last, and the one key dropped is the last of the path. -/
theorem path_laws (slot new : Value) (h : ks ≠ []) :
    (¬slot.IsBlocked ks → (slot.setPath (ks.map some) new).lookupPath (ks.map some) = some new) ∧
    (slot.IsBlocked ks → slot.setPath (ks.map some) new = slot) ∧
    (slot.removePath ks).lookupPath (ks.map some) = none ∧
    (∀ above rest, ks = above ++ rest → rest ≠ [] →
      (slot.removePath ks).lookupPath (above.map some) =
        (slot.lookupPath (above.map some)).map (·.removePath rest)) ∧
    (∀ path, ArePart (ks.map some) path →
      (slot.setPath (ks.map some) new).lookupPath path = slot.lookupPath path ∧
      (slot.removePath ks).lookupPath path = slot.lookupPath path) ∧
    ∀ ls items, slot.lookupPath (ls.map some) = some (array items) → ¬ks <+: ls →
      (∃ kept, (slot.setPath (ks.map some) new).lookupPath (ls.map some) = some (array kept) ∧
        Assoc.keys items <+: Assoc.keys kept) ∧
      ∃ kept, (slot.removePath ks).lookupPath (ls.map some) = some (array kept) ∧
        Assoc.keys kept = (Assoc.keys items).filter (ls ++ [·] ≠ ks) := by
  refine ⟨fun free ↦ lookupPath_setPath free new, fun blocked ↦ setPath_of_isBlocked blocked new,
    lookupPath_removePath h, ?_, fun path part ↦ ⟨?_, ?_⟩, fun ls items found outside ↦ ⟨?_, ?_⟩⟩
  · rintro above rest rfl more
    exact lookupPath_removePath_above slot above more
  · exact (differsUnder_setPath slot ks new).lookupPath_eq part
  · exact (differsUnder_removePath slot ks).lookupPath_eq part
  · exact keys_setPath new found outside
  · exact keys_removePath h found outside

/-- An element between others is replaced and dropped, and nothing is put behind an unknown one. -/
theorem path_laws_nested :
    let slot := array [(.text "a", array [(.int 0, null), (.int 1, expression "f()"), (.int 2, int 7)]),
      (.text "b", bool true)]
    let free := [Key.text "a", .int 2]
    let blocked := [Key.text "a", .int 1, .text "c"]
    (free ≠ [] ∧ ¬slot.IsBlocked free ∧
      (slot.setPath (free.map some) (int 8)).lookupPath (free.map some) = some (int 8)) ∧
    (blocked ≠ [] ∧ slot.IsBlocked blocked ∧ slot.setPath (blocked.map some) (int 8) = slot) ∧
    (slot.removePath free).lookupPath (free.map some) = none ∧
    (ArePart (free.map some) [some (.text "a"), some (.int 1)] ∧
      (slot.removePath free).lookupPath [some (.text "a"), some (.int 1)] =
        some (expression "f()")) ∧
    ∃ kept, (slot.removePath free).lookupPath [some (.text "a")] = some (array kept) ∧
      Assoc.keys kept = [.int 0, .int 1] := by
  intro slot free blocked
  have laws := path_laws slot (int 8) (show free ≠ [] by decide)
  refine ⟨⟨by decide, by decide, laws.1 (by decide)⟩, ⟨by decide, by decide, ?_⟩, laws.2.2.1,
    ⟨by decide, ?_⟩, ?_⟩
  · exact (path_laws slot (int 8) (show blocked ≠ [] by decide)).2.1 (by decide)
  · exact (laws.2.2.2.2.1 [some (.text "a"), some (.int 1)] (by decide)).2
  · exact (laws.2.2.2.2.2 [.text "a"] _ rfl (by decide)).2

end Value

end ConfigScript
