import ConfigScript.Store.Suggestion
import Mathlib.Order.Bounds.Basic
import Mathlib.Order.MinMax

/-!
# The nearest name

The distance of two texts is the least number of edits that turn one into the other, an edit being the
insertion, deletion or substitution of a single character (`isLeast_distance`). The table is computed row by
row over the beginnings of the texts; it holds the values of a recursion over the ends (`leastEdits`), read
backwards (`nextRow_eq`, `rows_eq`). A suggestion is the first of the nearest other names
(`exists_of_suggest`).
-/

namespace ConfigScript.Suggestion

/-! ### Edits -/

/-- One character is inserted, deleted or substituted. -/
inductive Edit : List Char → List Char → Prop
  | insertion (before : List Char) (c : Char) (behind : List Char) :
      Edit (before ++ behind) (before ++ c :: behind)
  | deletion (before : List Char) (c : Char) (behind : List Char) :
      Edit (before ++ c :: behind) (before ++ behind)
  | substitution (before : List Char) (c d : Char) (behind : List Char) :
      Edit (before ++ c :: behind) (before ++ d :: behind)

/-- That many edits, one after the other, turn a text into another. -/
inductive Edits : Nat → List Char → List Char → Prop
  | none (a : List Char) : Edits 0 a a
  | more {n : Nat} {a b c : List Char} (first : Edit a b) (others : Edits n b c) : Edits (n + 1) a c

variable {n : Nat} {a b : List Char}

/-- A common first letter does not matter for an edit. -/
theorem Edit.cons (h : Edit a b) (c : Char) : Edit (c :: a) (c :: b) := by
  cases h with
  | insertion before d behind => exact .insertion (c :: before) d behind
  | deletion before d behind => exact .deletion (c :: before) d behind
  | substitution before d e behind => exact .substitution (c :: before) d e behind

theorem Edits.cons (h : Edits n a b) (c : Char) : Edits n (c :: a) (c :: b) := by
  induction h with
  | none a => exact .none (c :: a)
  | more first _ ih => exact .more (first.cons c) ih

/-- An edit may be read from the end. -/
theorem Edit.reverse (h : Edit a b) : Edit a.reverse b.reverse := by
  cases h with
  | insertion before c behind => simpa using Edit.insertion behind.reverse c before.reverse
  | deletion before c behind => simpa using Edit.deletion behind.reverse c before.reverse
  | substitution before c d behind => simpa using Edit.substitution behind.reverse c d before.reverse

theorem Edits.reverse (h : Edits n a b) : Edits n a.reverse b.reverse := by
  induction h with
  | none a => exact .none a.reverse
  | more first _ ih => exact .more first.reverse ih

/-! ### The recursion over the first characters -/

/-- The least number of edits: either the first character of the one text or that of the other has no
counterpart, or the two are counterparts. -/
def leastEdits : List Char → List Char → Nat
  | [], b => b.length
  | c :: a, [] => a.length + 1
  | c :: a, d :: b =>
    min (min (leastEdits a (d :: b) + 1) (leastEdits (c :: a) b + 1))
      (leastEdits a b + if c = d then 0 else 1)
termination_by a b => a.length + b.length

theorem leastEdits_nil (b : List Char) : leastEdits [] b = b.length := by rw [leastEdits]

theorem leastEdits_nil_right (a : List Char) : leastEdits a [] = a.length := by
  cases a <;> simp [leastEdits]

/-- Of two texts, the first letters are edited last: one of them is dropped, or both go, at the cost of
an edit if they differ. -/
theorem leastEdits_cons (c d : Char) (a b : List Char) :
    leastEdits (c :: a) (d :: b) =
      min (min (leastEdits a (d :: b) + 1) (leastEdits (c :: a) b + 1))
        (leastEdits a b + if c = d then 0 else 1) := by
  rw [leastEdits]

/-- So many edits are enough. -/
theorem edits_leastEdits (a b : List Char) : Edits (leastEdits a b) a b := by
  induction a generalizing b with
  | nil =>
    rw [leastEdits_nil]
    induction b with
    | nil => exact .none []
    | cons d b ih => exact .more (.insertion [] d []) (ih.cons d)
  | cons c a iha =>
    induction b with
    | nil =>
      have rest := iha []
      rw [leastEdits_nil_right] at rest ⊢
      exact .more (.deletion [] c a) rest
    | cons d b ihb =>
      have deleted : Edits (leastEdits a (d :: b) + 1) (c :: a) (d :: b) :=
        .more (.deletion [] c a) (iha (d :: b))
      have inserted : Edits (leastEdits (c :: a) b + 1) (c :: a) (d :: b) :=
        .more (.insertion [] d (c :: a)) (ihb.cons d)
      have substituted : Edits (leastEdits a b + if c = d then 0 else 1) (c :: a) (d :: b) := by
        split
        · rename_i same
          exact same ▸ (iha b).cons c
        · exact .more (.substitution [] c d a) ((iha b).cons d)
      rw [leastEdits_cons]
      have either := min_rec' (Edits · (c :: a) (d :: b)) deleted inserted
      exact min_rec' (Edits · (c :: a) (d :: b)) either substituted

theorem leastEdits_self (a : List Char) : leastEdits a a = 0 := by
  induction a with
  | nil => exact leastEdits_nil []
  | cons c a ih => simp [leastEdits_cons, ih]

/-- A letter more on the left takes one edit more at most. -/
theorem leastEdits_cons_left_le (c : Char) (a b : List Char) :
    leastEdits (c :: a) b ≤ leastEdits a b + 1 := by
  cases b with
  | nil => simp [leastEdits_nil_right]
  | cons d b =>
    rw [leastEdits_cons]
    omega

/-- A letter more on the right takes one edit more at most. -/
theorem leastEdits_cons_right_le (d : Char) (a b : List Char) :
    leastEdits a (d :: b) ≤ leastEdits a b + 1 := by
  cases a with
  | nil => simp [leastEdits_nil]
  | cons c a =>
    rw [leastEdits_cons]
    omega

/-- A letter less on the left takes one edit more at most. -/
theorem leastEdits_le_cons_left (c : Char) (a b : List Char) :
    leastEdits a b ≤ leastEdits (c :: a) b + 1 := by
  induction b with
  | nil =>
    rw [leastEdits_nil_right, leastEdits_nil_right, List.length_cons]
    omega
  | cons d b ih =>
    have longer := leastEdits_cons_right_le d a b
    rw [leastEdits_cons]
    omega

/-- Another first letter takes one edit more at most. -/
theorem leastEdits_substitute (c d : Char) (a b : List Char) :
    leastEdits (c :: a) b ≤ leastEdits (d :: a) b + 1 := by
  induction b with
  | nil => simp [leastEdits_nil_right]
  | cons e b ih =>
    rw [leastEdits_cons, leastEdits_cons]
    split <;> omega

/-- What holds for the ends of two texts holds behind a common first character. -/
theorem leastEdits_cons_le {a a' : List Char} (h : ∀ b, leastEdits a b ≤ leastEdits a' b + 1) (c : Char)
    (b : List Char) : leastEdits (c :: a) b ≤ leastEdits (c :: a') b + 1 := by
  induction b with
  | nil =>
    have ends := h []
    simp only [leastEdits_nil_right, List.length_cons] at ends ⊢
    omega
  | cons d b ih =>
    have first := h (d :: b)
    have both := h b
    rw [leastEdits_cons, leastEdits_cons]
    omega

/-- One edit saves one edit at most. -/
theorem leastEdits_le_of_edit {a a' : List Char} (h : Edit a a') (b : List Char) :
    leastEdits a b ≤ leastEdits a' b + 1 := by
  have behind {before a a' : List Char} (h : ∀ b, leastEdits a b ≤ leastEdits a' b + 1) :
      ∀ b, leastEdits (before ++ a) b ≤ leastEdits (before ++ a') b + 1 := by
    induction before with
    | nil => exact h
    | cons c before ih => exact leastEdits_cons_le ih c
  cases h with
  | insertion before c rest => exact behind (leastEdits_le_cons_left c rest) b
  | deletion before c rest => exact behind (leastEdits_cons_left_le c rest) b
  | substitution before c d rest => exact behind (leastEdits_substitute c d rest) b

/-- Fewer edits are not enough. -/
theorem leastEdits_le (h : Edits n a b) : leastEdits a b ≤ n := by
  induction h with
  | none a => exact (leastEdits_self a).le
  | @more n a b c first _ ih =>
    have step := leastEdits_le_of_edit first c
    omega

/-! ### The table -/

/-- A part of the row of the table for the text `a`, both texts being read backwards: from the column behind
`b` on, for the characters `ds`. -/
def rowFrom (a b : List Char) : List Char → List Nat
  | [] => []
  | d :: ds => leastEdits a (d :: b) :: rowFrom a (d :: b) ds

/-- A row of the table is made from the row before: it holds the least numbers of edits for a text with
one letter more. -/
theorem nextRow_eq (c : Char) (a b ds : List Char) :
    nextRow c (leastEdits (c :: a) b) (leastEdits a b) ds (rowFrom a b ds) = rowFrom (c :: a) b ds := by
  induction ds generalizing b with
  | nil => rfl
  | cons d ds ih =>
    rw [rowFrom, nextRow]
    simp only [← leastEdits_cons]
    rw [ih, rowFrom]

/-- Each row is that of one more character. -/
theorem rows_eq (a b cs : List Char) :
    rows b (leastEdits a [] :: rowFrom a [] b) cs =
      leastEdits (cs.reverse ++ a) [] :: rowFrom (cs.reverse ++ a) [] b := by
  induction cs generalizing a with
  | nil => rfl
  | cons c cs ih =>
    have first : leastEdits a [] + 1 = leastEdits (c :: a) [] := by
      rw [leastEdits_nil_right, leastEdits_nil_right, List.length_cons]
    rw [rows, first, nextRow_eq, ih, List.reverse_cons, List.append_assoc, List.singleton_append]

theorem rowFrom_nil (b ds : List Char) : rowFrom [] b ds = List.range' (b.length + 1) ds.length := by
  induction ds generalizing b with
  | nil => rfl
  | cons d ds ih => rw [rowFrom, ih, leastEdits_nil, List.length_cons, List.length_cons, List.range'_succ]

/-- The last entry of a row is the number for the whole text. -/
theorem getLast?_rowFrom (a b ds : List Char) :
    (leastEdits a b :: rowFrom a b ds).getLast? = some (leastEdits a (ds.reverse ++ b)) := by
  induction ds generalizing b with
  | nil => rfl
  | cons d ds ih =>
    rw [rowFrom, List.getLast?_cons_cons, ih, List.reverse_cons, List.append_assoc,
      List.singleton_append]

/-- The table is filled from the first letters on, so it counts the edits of the reversed texts. -/
theorem distance_eq (a b : List Char) : distance a b = leastEdits a.reverse b.reverse := by
  have start : List.range (b.length + 1) = leastEdits [] [] :: rowFrom [] [] b := by
    rw [rowFrom_nil, leastEdits_nil, List.range_eq_range', List.range'_succ]
    rfl
  rw [distance, start, rows_eq, getLast?_rowFrom, List.append_nil, List.append_nil, Option.getD_some]

/-- The distance is the least number of edits. -/
theorem isLeast_distance (a b : List Char) : IsLeast {n | Edits n a b} (distance a b) := by
  rw [distance_eq]
  constructor
  · have enough := (edits_leastEdits a.reverse b.reverse).reverse
    rwa [List.reverse_reverse, List.reverse_reverse] at enough
  · exact fun n h ↦ leastEdits_le h.reverse

/-! ### The nearest name -/

/-- There is a nearest candidate unless there is none at all. -/
theorem nearest_eq_none {cs : List (Nat × String)} : nearest cs = none ↔ cs = [] := by
  cases cs with
  | nil => exact ⟨fun _ ↦ rfl, fun _ ↦ rfl⟩
  | cons c cs =>
    refine iff_of_false ?_ (List.cons_ne_nil c cs)
    rw [nearest]
    split
    · split <;> exact nofun
    · exact nofun

/-- The first of the least is found. -/
theorem exists_of_nearest {cs : List (Nat × String)} {c : Nat × String} (h : nearest cs = some c) :
    ∃ before behind, cs = before ++ c :: behind ∧ (∀ x ∈ before, c.1 < x.1) ∧
      ∀ x ∈ behind, c.1 ≤ x.1 := by
  induction cs generalizing c with
  | nil => cases h
  | cons d cs ih =>
    rw [nearest] at h
    cases found : nearest cs with
    | none =>
      rw [found] at h
      obtain rfl := Option.some.inj h
      rw [nearest_eq_none.1 found]
      exact ⟨[], [], rfl, nofun, nofun⟩
    | some e =>
      obtain ⟨before, behind, rfl, less, least⟩ := ih found
      simp only [found] at h
      split at h
      · rename_i nearer
        obtain rfl := Option.some.inj h
        exact ⟨d :: before, behind, rfl, List.forall_mem_cons.2 ⟨nearer, less⟩, least⟩
      · rename_i near
        obtain rfl := Option.some.inj h
        have near := Nat.le_of_not_lt near
        refine ⟨[], _, rfl, nofun, fun x hx ↦ ?_⟩
        rcases List.mem_append.1 hx with hx | hx
        · exact near.trans (less x hx).le
        · rcases List.mem_cons.1 hx with rfl | hx
          · exact near
          · exact near.trans (least x hx)

/-- A constant or a variable with another name. -/
def IsOther (name : String) (e : Entry) : Prop := e.kind ≠ .inclusion ∧ e.name ≠ name

instance (name : String) (e : Entry) : Decidable (IsOther name e) :=
  inferInstanceAs (Decidable (_ ∧ _))

/-- The distance of a name from that of an entry. -/
def distanceTo (name : String) (e : Entry) : Nat := distance name.toList e.name.toList

variable {name other : String} {entries : List Entry}

/-- A suggestion is the nearest of the other names that are near enough. -/
theorem suggest_eq (name : String) (entries : List Entry) :
    suggest name entries =
      (nearest ((entries.filter fun e ↦ distanceTo name e ≤ reach ∧ IsOther name e).map
        fun e ↦ (distanceTo name e, e.name))).map (·.2) := by
  rw [suggest, List.filter_map, List.filter_filter]
  congr 3
  refine List.filter_congr fun e _ ↦ Bool.eq_iff_iff.2 ?_
  rw [decide_eq_true_iff]
  simp [distanceTo, IsOther]

/-- Nothing is suggested if no other name is near enough. -/
theorem suggest_eq_none :
    suggest name entries = none ↔ ∀ e ∈ entries, IsOther name e → reach < distanceTo name e := by
  rw [suggest_eq, Option.map_eq_none_iff, nearest_eq_none, List.map_eq_nil_iff, List.filter_eq_nil_iff]
  refine forall₂_congr fun e _ ↦ ?_
  rw [decide_eq_true_iff, not_and', Nat.not_le]

/-- A suggestion is the name of the first of the nearest entries. -/
theorem exists_of_suggest (h : suggest name entries = some other) :
    ∃ before e behind, entries = before ++ e :: behind ∧ IsOther name e ∧ e.name = other ∧
      distanceTo name e ≤ reach ∧
      (∀ d ∈ before, IsOther name d → distanceTo name e < distanceTo name d) ∧
      ∀ d ∈ behind, IsOther name d → distanceTo name e ≤ distanceTo name d := by
  rw [suggest_eq, Option.map_eq_some_iff] at h
  obtain ⟨c, found, rfl⟩ := h
  obtain ⟨before, behind, parts, less, least⟩ := exists_of_nearest found
  -- The entries in front of the nearest one and behind it, taken back through the filter.
  obtain ⟨front, back, whole, rfl, mapped⟩ := List.map_eq_append_iff.1 parts
  obtain ⟨e, rest, rfl, rfl, rfl⟩ := List.map_eq_cons_iff.1 mapped
  obtain ⟨first, second, rfl, rfl, filtered⟩ := List.filter_eq_append_iff.1 whole
  obtain ⟨far, last, rfl, none, found, rfl⟩ := List.filter_eq_cons_iff.1 filtered
  obtain ⟨near, isOther⟩ := of_decide_eq_true found
  rw [List.forall_mem_map] at less least
  refine ⟨first ++ far, e, last, (List.append_assoc ..).symm, isOther, rfl, near, fun d hd other ↦ ?_,
    fun d hd other ↦ ?_⟩
  · by_cases within : distanceTo name d ≤ reach
    · rcases List.mem_append.1 hd with hd | hd
      · exact less d (List.mem_filter.2 ⟨hd, decide_eq_true ⟨within, other⟩⟩)
      · exact absurd (decide_eq_true ⟨within, other⟩) (none d hd)
    · omega
  · by_cases within : distanceTo name d ≤ reach
    · exact least d (List.mem_filter.2 ⟨hd, decide_eq_true ⟨within, other⟩⟩)
    · omega

/-- The distance is the least number of edits of single characters. Nothing is suggested just if no constant
or variable with another name is within two edits, and else the name of the first of the nearest ones. -/
theorem suggestion_is_nearest :
    (∀ a b : String, IsLeast {n | Edits n a.toList b.toList} (distance a.toList b.toList)) ∧
    (∀ name entries, suggest name entries = none ↔
      ∀ e ∈ entries, IsOther name e → 2 < distanceTo name e) ∧
    ∀ name entries other, suggest name entries = some other →
      ∃ before e behind, entries = before ++ e :: behind ∧ IsOther name e ∧ e.name = other ∧
        distanceTo name e ≤ 2 ∧
        (∀ d ∈ before, IsOther name d → distanceTo name e < distanceTo name d) ∧
        ∀ d ∈ behind, IsOther name d → distanceTo name e ≤ distanceTo name d :=
  ⟨fun a b ↦ isLeast_distance a.toList b.toList, fun _ _ ↦ suggest_eq_none,
    fun _ _ _ ↦ exists_of_suggest⟩

/-- Of two names that are equally near, the first is suggested. -/
theorem suggestion_is_nearest_first :
    let entries : List Entry := [⟨.inclusion, "DB_NAM", .null⟩, ⟨.const, "DB_HOST", .null⟩,
      ⟨.var, "DB_NAMES", .null⟩, ⟨.const, "DB_NAME", .null⟩, ⟨.var, "DB_NAM", .null⟩]
    suggest "DB_NAM" entries = some "DB_NAME" ∧
    ∃ before e behind, entries = before ++ e :: behind ∧ IsOther "DB_NAM" e ∧ e.name = "DB_NAME" ∧
      distanceTo "DB_NAM" e ≤ 2 ∧
      (∀ d ∈ before, IsOther "DB_NAM" d → distanceTo "DB_NAM" e < distanceTo "DB_NAM" d) ∧
      ∀ d ∈ behind, IsOther "DB_NAM" d → distanceTo "DB_NAM" e ≤ distanceTo "DB_NAM" d := by
  intro entries
  have suggested : suggest "DB_NAM" entries = some "DB_NAME" := by decide
  exact ⟨suggested, suggestion_is_nearest.2.2 "DB_NAM" entries "DB_NAME" suggested⟩

end ConfigScript.Suggestion
