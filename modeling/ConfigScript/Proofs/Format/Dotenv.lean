import ConfigScript.Format.Report
import ConfigScript.Proofs.Text.Pieces

/-!
# Items that read back

An item ends with the first quote that is not escaped, and the escapes leave no quote of the value bare,
so reading finds each item as it was written and goes on behind it (`Dotenv.readItem?_append`). A list of
items of any length reads back item by item (`Dotenv.read?_render`), if only no name holds an equals sign.
-/

namespace ConfigScript.Format.Dotenv

open Script

/-! ### Escapes -/

/-- Put `new` for every `c`. -/
def replaceAll (c : Char) (new : List Char) (cs : List Char) : List Char :=
  cs.flatMap fun d ↦ if d = c then new else [d]

/-- The escapes may be put in one character after the other: backslashes have to come first, as the
escape of a quote has a backslash, too. -/
theorem replaceAll_replaceAll (cs : List Char) :
    replaceAll '\'' ['\\', '\''] (replaceAll '\\' ['\\', '\\'] cs) = Quoted.escape cs := by
  induction cs with
  | nil => rfl
  | cons c cs ih =>
    rw [Quoted.escape, ← ih]
    by_cases backslash : c = '\\'
    · subst backslash
      simp [replaceAll]
    · by_cases quote : c = '\''
      · subst quote
        simp [replaceAll]
      · simp [replaceAll, backslash, quote]

/-- The other order escapes the escapes. -/
example : replaceAll '\\' ['\\', '\\'] (replaceAll '\'' ['\\', '\''] ['\'']) = ['\\', '\\', '\''] := by
  decide

/-! ### Items -/

variable {name value : String} {rest : List Char}

/-- An item reads back, whatever follows: its name ends with the first equals sign. -/
theorem readItem?_append (plain : '=' ∉ name.toList) (value : String) (rest : List Char) :
    readItem? (item name value ++ rest) = some ((name.toList, value.toList), rest) := by
  have front : ∀ c ∈ name.toList, (c != '=') = true := fun c hc ↦
    bne_iff_ne.2 fun same ↦ plain (same ▸ hc)
  have shape : item name value ++ rest =
      name.toList ++ '=' :: '\'' :: (Quoted.escape value.toList ++ '\'' :: rest) := by
    simp [item, Quoted.quote]
  have behind : (item name value ++ rest).dropWhile (· != '=') =
      '=' :: '\'' :: (Quoted.escape value.toList ++ '\'' :: rest) := by
    rw [shape, List.dropWhile_append_of_pos front]
    rfl
  have before : (item name value ++ rest).takeWhile (· != '=') = name.toList := by
    rw [shape, List.takeWhile_append_of_pos front]
    exact List.append_nil _
  rw [readItem?, behind, before]
  exact congrArg (Option.map _) (Quoted.read?_escape value.toList rest)

/-- How reading goes on behind an item. -/
def readOn (x : List Char × List Char) : List Char → Option (List (List Char × List Char))
  | [] => some [x]
  | mark :: rest => if mark == '\n' then (readItems? rest).map (x :: ·) else none

theorem readItems?_of_readItem? {cs : List Char} {x : List Char × List Char}
    (found : readItem? cs = some (x, rest)) : readItems? cs = readOn x rest := by
  rw [readItems?]
  split <;> rename_i here <;> cases found.symm.trans here <;> rfl

theorem readItems?_item (plain : '=' ∉ name.toList) (value : String) :
    readItems? (item name value) = some [(name.toList, value.toList)] := by
  have found := readItem?_append plain value []
  rw [List.append_nil] at found
  exact readItems?_of_readItem? found

theorem readItems?_line (plain : '=' ∉ name.toList) (value : String) (rest : List Char) :
    readItems? (item name value ++ '\n' :: rest) =
      (readItems? rest).map ((name.toList, value.toList) :: ·) :=
  readItems?_of_readItem? (readItem?_append plain value _)

/-! ### Lists of items -/

/-- The lines of items. -/
def lines (items : List (String × String)) : List Char :=
  Text.join ['\n'] (items.map fun x ↦ item x.1 x.2)

theorem lines_cons_cons (x y : String × String) (items : List (String × String)) :
    lines (x :: y :: items) = item x.1 x.2 ++ '\n' :: lines (y :: items) :=
  Text.join_cons_cons '\n' _ _ _

/-- Written lines are read back, if no name holds an equals sign. -/
theorem readItems?_lines {items : List (String × String)} (some : items ≠ [])
    (plain : ∀ x ∈ items, '=' ∉ x.1.toList) :
    readItems? (lines items) = .some (items.map fun x ↦ (x.1.toList, x.2.toList)) := by
  induction items with
  | nil => exact absurd rfl some
  | cons x items ih =>
    have first : '=' ∉ x.1.toList := plain x List.mem_cons_self
    cases items with
    | nil => exact readItems?_item first x.2
    | cons y items =>
      have more := ih (List.cons_ne_nil _ _) fun z hz ↦ plain z (List.mem_cons_of_mem x hz)
      rw [lines_cons_cons, readItems?_line first, more]
      rfl

/-- Every list of items reads back, also the one without items. -/
theorem read?_render {items : List (String × String)} (plain : ∀ x ∈ items, '=' ∉ x.1.toList) :
    read? (render items).toList = some (items.map fun x ↦ (x.1.toList, x.2.toList)) := by
  rw [show render items = String.ofList (lines items) from rfl, String.toList_ofList, read?]
  cases items with
  | nil => rfl
  | cons x items =>
    have filled : (lines (x :: items)).isEmpty = false := by
      cases items with
      | nil => simp [lines, Text.join, item]
      | cons y items => simp [lines_cons_cons]
    rw [filled, if_neg Bool.false_ne_true]
    exact readItems?_lines (List.cons_ne_nil _ _) plain

/-! ### Entries -/

/-- The entries that have a name of their own. -/
def named (entries : List Entry) : List Entry := entries.filter (·.kind ≠ .inclusion)

/-- A line of an environment file, with the escapes put into the value one after the other. -/
def line (e : Entry) : List Char :=
  e.name.toList ++ '=' :: '\'' ::
    (replaceAll '\'' ['\\', '\''] (replaceAll '\\' ['\\', '\\'] e.value.plainText.toList) ++ ['\''])

/-- Constants and variables written as an environment file have a line each, and read back as their
names and the texts of their values, if no name holds an equals sign. -/
theorem renderEntries_reads_back {entries : List Entry} (fields : List Field)
    (plain : ∀ e ∈ entries, e.kind ≠ .inclusion → '=' ∉ e.name.toList) :
    (renderEntries entries fields .dotenv).toList =
        Text.join ['\n'] ((named entries).map line) ∧
      Dotenv.read? (renderEntries entries fields .dotenv).toList =
        some ((named entries).map fun e ↦ (e.name.toList, e.value.plainText.toList)) := by
  have written : renderEntries entries fields .dotenv =
      render ((named entries).map fun e ↦ (e.name, e.value.plainText)) := rfl
  constructor
  · have item_eq : ∀ e : Entry, item e.name e.value.plainText = line e := fun e ↦ by
      rw [line, replaceAll_replaceAll]
      rfl
    rw [written, render, String.toList_ofList, List.map_map]
    exact congrArg (Text.join ['\n']) (List.map_congr_left fun e _ ↦ item_eq e)
  · rw [written, read?_render]
    · rw [List.map_map]
      rfl
    · intro x hx
      obtain ⟨e, he, rfl⟩ := List.mem_map.1 hx
      obtain ⟨mem, kind⟩ := List.mem_filter.1 he
      exact plain e mem (of_decide_eq_true kind)

/-- Entries of all kinds. -/
def sampleEntries : List Entry :=
  [⟨.var, "a", .string "it's\n='\\"⟩, ⟨.inclusion, "x=y", .string "/x=y"⟩, ⟨.const, "", .null⟩]

/-- Quotes, a line feed, and a backslash at the end of a value. -/
theorem renderEntries_reads_back_escaped :
    renderEntries sampleEntries [] .dotenv = "a='it\\'s\n=\\'\\\\'\n=''" ∧
      (∀ e ∈ sampleEntries, e.kind ≠ .inclusion → '=' ∉ e.name.toList) ∧
      Dotenv.read? (renderEntries sampleEntries [] .dotenv).toList =
        some [(['a'], "it's\n='\\".toList), ([], [])] := by
  have plain : ∀ e ∈ sampleEntries, e.kind ≠ .inclusion → '=' ∉ e.name.toList := by
    simp [sampleEntries]
  exact ⟨by decide +kernel, plain, (renderEntries_reads_back [] plain).2⟩

end ConfigScript.Format.Dotenv
