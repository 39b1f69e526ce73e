import ConfigScript.Salt.Set
import Mathlib

/-!
# Keys are samples of the byte stream

A key is the beginning of the letters that the stream picks from the first requested block on: bytes
from 182 on are dropped, every other byte picks its letter. A call requests the least number of blocks
that pick enough letters, it fails just if the source cannot deliver them (`draw_spec`), and a further
call goes on with the block behind them, whatever is left of the last block (`drawAll_spec`).
-/

namespace ConfigScript.Salt

/-! ### The stream -/

namespace Entropy

/-- The source behind the next `n` blocks. -/
def after (e : Entropy) (n : Nat) : Entropy :=
  { e with served := e.served + n, supply := e.supply - n }

/-- The bytes of the next `n` blocks. -/
def bytes (e : Entropy) (n : Nat) : List UInt8 := (List.range n).flatMap fun i ↦ (e.after i).block

@[simp] theorem after_zero (e : Entropy) : e.after 0 = e := rfl

@[simp] theorem supply_after (e : Entropy) (n : Nat) : (e.after n).supply = e.supply - n := rfl

@[simp] theorem after_after (e : Entropy) (k n : Nat) : (e.after k).after n = e.after (k + n) := by
  simp only [after, Nat.add_assoc, Nat.sub_sub]

theorem consume_eq (e : Entropy) : e.consume = e.after 1 := rfl

@[simp] theorem bytes_zero (e : Entropy) : e.bytes 0 = [] := rfl

/-- The bytes of consecutive blocks follow each other. -/
theorem bytes_add (e : Entropy) (k n : Nat) : e.bytes (k + n) = e.bytes k ++ (e.after k).bytes n := by
  simp only [bytes, List.range_add, List.flatMap_append, List.flatMap_map, after_after]

@[simp] theorem bytes_one (e : Entropy) : e.bytes 1 = e.block := by
  simp only [bytes, List.range_one, List.flatMap_singleton, after_zero]

end Entropy

/-! ### Letters -/

/-- The letter that a byte picks. -/
def letter (b : UInt8) : Char :=
  alphabet.get ⟨b.toNat % 91, alphabet_length ▸ Nat.mod_lt _ (by decide)⟩

/-- The letters that bytes pick: the bytes from 182 on are dropped. -/
def letters (bs : List UInt8) : List Char := (bs.filter (·.toNat < 182)).map letter

@[simp] theorem letters_nil : letters [] = [] := rfl

@[simp] theorem letters_append (bs cs : List UInt8) : letters (bs ++ cs) = letters bs ++ letters cs := by
  simp only [letters, List.filter_append, List.map_append]

/-- A byte picks a letter unless it is one of those that are dropped. -/
theorem character?_eq (b : UInt8) : character? b = if b.toNat < 182 then some (letter b) else none := by
  have bound : 256 / alphabet.length * alphabet.length = 182 := by rw [alphabet_length]
  have picked : alphabet[b.toNat % alphabet.length]? = some (letter b) := by
    simp only [letter, List.get_eq_getElem, alphabet_length]
    exact List.getElem?_eq_getElem _
  rw [character?, bound, picked]

/-- The letters that bytes pick are those of the bytes that are not dropped. -/
theorem filterMap_character? (bs : List UInt8) : bs.filterMap character? = letters bs := by
  induction bs with
  | nil => rfl
  | cons b bs ih =>
    by_cases low : b.toNat < 182
    · rw [List.filterMap_cons_some (by rw [character?_eq, if_pos low]), ih]
      simp [letters, low]
    · rw [List.filterMap_cons_none (by rw [character?_eq, if_neg low]), ih]
      simp [letters, low]

theorem letter_mem (b : UInt8) : letter b ∈ alphabet := List.get_mem _ _

theorem mem_alphabet_of_mem_letters {bs : List UInt8} {c : Char} (h : c ∈ letters bs) :
    c ∈ alphabet := by
  obtain ⟨b, -, rfl⟩ := List.mem_map.1 h
  exact letter_mem b

/-! ### One key -/

/-- Whether the next `n` blocks pick `length` letters. -/
def Suffice (e : Entropy) (length n : Nat) : Prop := length ≤ (letters (e.bytes n)).length

/-- A key of the given length that takes the next `n` blocks, and no fewer. -/
structure Sample (e : Entropy) (length n : Nat) (key : List Char) : Prop where
  /-- The blocks are the least number that pick enough letters. -/
  least : IsLeast {n | Suffice e length n} n
  /-- The key is the beginning of their letters. -/
  key_eq : key = (letters (e.bytes n)).take length

variable {e e' : Entropy} {length k n : Nat} {key : List Char}

theorem Suffice.mono (enough : Suffice e length k) (le : k ≤ n) : Suffice e length n := by
  obtain ⟨d, rfl⟩ := Nat.exists_eq_add_of_le le
  rw [Suffice, Entropy.bytes_add, letters_append, List.length_append]
  exact enough.trans (Nat.le_add_right _ _)

/-- What has to follow a first block. -/
theorem suffice_succ :
    Suffice e length (n + 1) ↔ Suffice e.consume (length - (letters e.block).length) n := by
  rw [Suffice, Suffice, Nat.add_comm n 1, Entropy.bytes_add, Entropy.bytes_one, letters_append,
    List.length_append, Entropy.consume_eq]
  omega

namespace Sample

/-- A sample has the length that was asked for. -/
theorem length_eq (s : Sample e length n key) : key.length = length := by
  have enough : Suffice e length n := s.least.1
  rw [s.key_eq, List.length_take]
  exact Nat.min_eq_left enough

theorem mem_alphabet (s : Sample e length n key) {c : Char} (h : c ∈ key) : c ∈ alphabet :=
  mem_alphabet_of_mem_letters (List.mem_of_mem_take (s.key_eq ▸ h))

/-- The number of blocks and the key are determined. -/
theorem unique {m : Nat} {key' : List Char} (s : Sample e length n key)
    (s' : Sample e length m key') : n = m ∧ key = key' := by
  obtain rfl := s.least.unique s'.least
  exact ⟨rfl, s.key_eq.trans s'.key_eq.symm⟩

/-- The empty key takes no block. -/
theorem zero (e : Entropy) : Sample e 0 0 [] where
  least := ⟨Nat.zero_le _, fun _ _ ↦ Nat.zero_le _⟩
  key_eq := rfl

/-- Only the empty key takes no block. -/
theorem eq_zero_iff (s : Sample e length n key) : n = 0 ↔ length = 0 := by
  constructor
  · rintro rfl
    simpa [Suffice] using s.least.1
  · rintro rfl
    exact (s.unique (zero e)).1

/-- A key that begins with the letters of one more block. -/
theorem succ (positive : length ≠ 0)
    (s : Sample e.consume (length - (letters e.block).length) n key) :
    Sample e length (n + 1) ((letters e.block).take length ++ key) where
  least := by
    refine ⟨suffice_succ.2 s.least.1, fun m enough ↦ ?_⟩
    cases m with
    | zero => exact absurd (Nat.le_zero.1 enough) positive
    | succ m => exact Nat.succ_le_succ (s.least.2 (suffice_succ.1 enough))
  key_eq := by
    rw [s.key_eq, Nat.add_comm n 1, Entropy.bytes_add, Entropy.bytes_one, letters_append,
      List.take_append, Entropy.consume_eq]

end Sample

/-- A call that needs a block goes on behind it. -/
theorem draw_step (positive : length ≠ 0) (wet : e.supply ≠ 0) :
    draw length e =
      ((draw (length - (letters e.block).length) e.consume).1.map ((letters e.block).take length ++ ·),
        (draw (length - (letters e.block).length) e.consume).2) := by
  have rest : length - ((letters e.block).take length).length = length - (letters e.block).length := by
    rw [List.length_take]
    omega
  rw [draw, if_neg positive, dif_neg wet, filterMap_character?]
  dsimp only
  rw [rest]
  rcases draw (length - (letters e.block).length) e.consume with ⟨_ | key, e'⟩ <;> rfl

/-- What a call returns, and where it leaves the source: a sample, or nothing if all blocks together
do not pick enough letters. -/
theorem draw_spec (length : Nat) (e : Entropy) :
    (∃ n key, Sample e length n key ∧ n ≤ e.supply ∧ draw length e = (some key, e.after n)) ∨
      ¬ Suffice e length e.supply ∧ draw length e = (none, e.after e.supply) := by
  induction supply : e.supply generalizing length e with
  | zero =>
    by_cases positive : length = 0
    · subst positive
      exact .inl ⟨0, [], Sample.zero e, Nat.le_refl _, by rw [draw, if_pos rfl, Entropy.after_zero]⟩
    · refine .inr ⟨fun enough ↦ positive (Nat.le_zero.1 enough), ?_⟩
      rw [draw, if_neg positive, dif_pos supply, Entropy.after_zero]
  | succ rest ih =>
    by_cases positive : length = 0
    · subst positive
      exact .inl ⟨0, [], Sample.zero e, Nat.zero_le _, by rw [draw, if_pos rfl, Entropy.after_zero]⟩
    have step := draw_step positive (by omega : e.supply ≠ 0)
    have left : e.consume.supply = rest := by rw [Entropy.consume, supply, Nat.add_sub_cancel]
    obtain ⟨n, key, sample, le, drawn⟩ | ⟨few, drawn⟩ := ih (length - (letters e.block).length) _ left
    · refine .inl ⟨n + 1, _, sample.succ positive, Nat.succ_le_succ le, ?_⟩
      rw [step, drawn, Entropy.consume_eq, Entropy.after_after, Nat.add_comm 1]
      rfl
    · refine .inr ⟨fun enough ↦ few (suffice_succ.1 enough), ?_⟩
      rw [step, drawn, Entropy.consume_eq, Entropy.after_after, Nat.add_comm 1]
      rfl

/-- A call that returns a key returns a sample of the stream, and leaves the source behind it. -/
theorem sample_of_draw (h : draw length e = (some key, e')) :
    ∃ n ≤ e.supply, Sample e length n key ∧ e' = e.after n := by
  obtain ⟨n, key', sample, le, drawn⟩ | ⟨-, drawn⟩ := draw_spec length e
  · obtain ⟨same, rfl⟩ := Prod.mk.inj (h.symm.trans drawn)
    exact ⟨n, le, Option.some.inj same ▸ sample, rfl⟩
  · cases h.symm.trans drawn

/-- A call fails just if the source is at its end before the last block that it needs. -/
theorem draw_eq_none_iff :
    (draw length e).1 = none ↔ ∀ n, IsLeast {n | Suffice e length n} n → e.supply < n := by
  obtain ⟨n, key, sample, le, drawn⟩ | ⟨few, drawn⟩ := draw_spec length e
  · rw [drawn]
    exact ⟨nofun, fun short ↦ absurd (short n sample.least) (Nat.not_lt.2 le)⟩
  · rw [drawn]
    exact iff_of_true rfl fun n least ↦ Nat.lt_of_not_le fun le ↦ few (Suffice.mono least.1 le)

/-! ### Keys one after the other -/

/-- Keys for the given lengths, with the numbers of blocks that they take: each key goes on with the
block behind those of the key before. -/
inductive Samples : Entropy → List Nat → List Nat → List (List Char) → Prop
  | nil (e : Entropy) : Samples e [] [] []
  | cons {e : Entropy} {length n : Nat} {key : List Char} {lengths counts : List Nat}
      {keys : List (List Char)} (first : Sample e length n key)
      (rest : Samples (e.after n) lengths counts keys) :
      Samples e (length :: lengths) (n :: counts) (key :: keys)

namespace Samples

variable {lengths counts : List Nat} {keys : List (List Char)}

theorem length_keys (s : Samples e lengths counts keys) : keys.length = lengths.length := by
  induction s with
  | nil => rfl
  | cons _ _ ih => rw [List.length_cons, List.length_cons, ih]

theorem length_counts (s : Samples e lengths counts keys) : counts.length = lengths.length := by
  induction s with
  | nil => rfl
  | cons _ _ ih => rw [List.length_cons, List.length_cons, ih]

/-- The key at a place takes the blocks behind those of all keys before it. -/
theorem sample_at (s : Samples e lengths counts keys) {i : Nat} (at_ : lengths[i]? = some length) :
    ∃ n key, counts[i]? = some n ∧ keys[i]? = some key ∧
      Sample (e.after (counts.take i).sum) length n key := by
  induction s generalizing i with
  | nil => cases at_
  | @cons e l n key ls ns keys first rest ih =>
    cases i with
    | zero =>
      obtain rfl := Option.some.inj at_
      exact ⟨n, key, rfl, rfl, first⟩
    | succ i =>
      obtain ⟨m, key', count, here, sample⟩ := ih at_
      rw [Entropy.after_after] at sample
      exact ⟨m, key', count, here, by rwa [List.take_succ_cons, List.sum_cons]⟩

end Samples

/-- What calls one after the other return, and where they leave the source. -/
theorem drawAll_spec (lengths : List Nat) (e : Entropy) :
    (∃ counts keys, Samples e lengths counts keys ∧ counts.sum ≤ e.supply ∧
        drawAll lengths e = (some keys, e.after counts.sum)) ∨
      (∀ counts keys, Samples e lengths counts keys → e.supply < counts.sum) ∧
        (drawAll lengths e).1 = none := by
  induction lengths generalizing e with
  | nil => exact .inl ⟨[], [], .nil e, Nat.zero_le _, rfl⟩
  | cons length lengths ih =>
    -- The first key may fail, or those behind it, or none. A first sample is the only one, so its blocks
    -- are missing for the others.
    obtain ⟨n, key, sample, le, drawn⟩ | ⟨few, drawn⟩ := draw_spec length e
    · obtain ⟨counts, keys, samples, le', drawn'⟩ | ⟨few, drawn'⟩ := ih (e.after n)
      · rw [Entropy.supply_after] at le'
        refine .inl ⟨n :: counts, key :: keys, .cons sample samples, ?_, ?_⟩
        · rw [List.sum_cons]
          omega
        · rw [drawAll, drawn]
          dsimp only
          rw [drawn', Entropy.after_after, List.sum_cons]
      · refine .inr ⟨fun counts keys samples ↦ ?_, ?_⟩
        · cases samples with
          | cons first rest =>
            obtain ⟨rfl, -⟩ := first.unique sample
            have short := few _ _ rest
            rw [Entropy.supply_after] at short
            rw [List.sum_cons]
            omega
        · rw [drawAll, drawn]
          dsimp only
          rcases more : drawAll lengths (e.after n) with ⟨_ | keys, e'⟩
          · rfl
          · rw [more] at drawn'
            cases drawn'
    · refine .inr ⟨fun counts keys samples ↦ ?_, by rw [drawAll, drawn]⟩
      cases samples with
      | cons first rest =>
        have short := draw_eq_none_iff.1 (congrArg Prod.fst drawn) _ first.least
        rw [List.sum_cons]
        omega

/-- Keys that were drawn are samples, one behind the other, and the blocks they took were delivered and
are gone. -/
theorem samples_of_drawAll {lengths : List Nat} {keys : List (List Char)}
    (h : drawAll lengths e = (some keys, e')) :
    ∃ counts, Samples e lengths counts keys ∧ counts.sum ≤ e.supply ∧ e' = e.after counts.sum := by
  obtain ⟨counts, keys', samples, le, drawn⟩ | ⟨-, drawn⟩ := drawAll_spec lengths e
  · obtain ⟨same, rfl⟩ := Prod.mk.inj (h.symm.trans drawn)
    exact ⟨counts, Option.some.inj same ▸ samples, le, rfl⟩
  · rw [h] at drawn
    cases drawn

/-- No keys are drawn just if samples of these lengths would take more blocks than are left. -/
theorem drawAll_eq_none_iff {lengths : List Nat} :
    (drawAll lengths e).1 = none ↔
      ∀ counts keys, Samples e lengths counts keys → e.supply < counts.sum := by
  obtain ⟨counts, keys, samples, le, drawn⟩ | ⟨few, drawn⟩ := drawAll_spec lengths e
  · rw [drawn]
    exact ⟨nofun, fun short ↦ absurd (short counts keys samples) (Nat.not_lt.2 le)⟩
  · exact iff_of_true drawn few

/-! ### Named keys -/

/-- Named keys are keys drawn one after the other. -/
theorem drawAll_of_keysFor {wanted : List String} {keys : List (String × String)}
    (h : keysFor wanted e = (some keys, e')) :
    ∃ texts, drawAll (wanted.map fun _ ↦ 64) e = (some texts, e') ∧
      texts.length = wanted.length ∧ keys = wanted.zip (texts.map String.ofList) := by
  rw [keysFor] at h
  rcases drawn : drawAll (wanted.map fun _ ↦ keyLength) e with ⟨_ | texts, e₁⟩ <;> rw [drawn] at h
  · cases h
  · obtain ⟨same, rfl⟩ := Prod.mk.inj h
    obtain ⟨counts, samples, -⟩ := samples_of_drawAll drawn
    exact ⟨texts, drawn, by rw [samples.length_keys, List.length_map], (Option.some.inj same).symm⟩

/-- Drawing keys is rejection sampling: a key is the beginning of the letters that the stream picks from
the first requested block on, the blocks are the least number that pick enough, and a call fails just if
the source cannot deliver them. Of calls one after the other, each takes the blocks behind those of the
calls before it; the salts of a new file and the new keys of a shuffle are drawn in this way. -/
theorem rejection_sampling :
    (∀ (length : Nat) (e : Entropy),
      (∀ key e', draw length e = (some key, e') →
        key.length = length ∧
          ∃ n, IsLeast {n | length ≤ (letters (e.bytes n)).length} n ∧ (n = 0 ↔ length = 0) ∧
            n ≤ e.supply ∧ key = (letters (e.bytes n)).take length ∧ e' = e.after n) ∧
      ((draw length e).1 = none ↔
        ∀ n, IsLeast {n | length ≤ (letters (e.bytes n)).length} n → e.supply < n)) ∧
    (∀ (lengths : List Nat) (e : Entropy),
      (∀ keys e', drawAll lengths e = (some keys, e') →
        ∃ counts : List Nat, counts.length = lengths.length ∧ keys.length = lengths.length ∧
          counts.sum ≤ e.supply ∧ e' = e.after counts.sum ∧
          ∀ i length, lengths[i]? = some length → ∃ n key, counts[i]? = some n ∧ keys[i]? = some key ∧
            Sample (e.after (counts.take i).sum) length n key) ∧
      ((drawAll lengths e).1 = none ↔
        ∀ counts keys, Samples e lengths counts keys → e.supply < counts.sum)) ∧
    ∀ (wanted : List String) (e : Entropy),
      (∀ keys e', keysFor wanted e = (some keys, e') →
        keys.map (·.1) = wanted ∧
          drawAll (wanted.map fun _ ↦ 64) e = (some (keys.map (·.2.toList)), e')) ∧
      ((keysFor wanted e).1 = none ↔ (drawAll (wanted.map fun _ ↦ 64) e).1 = none) := by
  refine ⟨fun length e ↦ ⟨fun key e' drawn ↦ ?_, draw_eq_none_iff⟩,
    fun lengths e ↦ ⟨fun keys e' drawn ↦ ?_, drawAll_eq_none_iff⟩, fun wanted e ↦ ⟨fun keys e' drawn ↦ ?_, ?_⟩⟩
  · obtain ⟨n, le, sample, rfl⟩ := sample_of_draw drawn
    exact ⟨sample.length_eq, n, sample.least, sample.eq_zero_iff, le, sample.key_eq, rfl⟩
  · obtain ⟨counts, samples, le, rfl⟩ := samples_of_drawAll drawn
    exact ⟨counts, samples.length_counts, samples.length_keys, le, rfl, fun _ _ ↦ samples.sample_at⟩
  · obtain ⟨texts, drawnAll, length, rfl⟩ := drawAll_of_keysFor drawn
    refine ⟨List.map_fst_zip (by simp [length]), ?_⟩
    have values : (wanted.zip (texts.map String.ofList)).map (·.2) = texts.map String.ofList :=
      List.map_snd_zip (by simp [length])
    rw [drawnAll, ← Function.comp_def String.toList, ← List.map_map, values, List.map_map]
    simp [Function.comp_def]
  · rw [keysFor, Option.map_eq_none_iff]
    rfl

/-- A source that delivers nine blocks, each with two bytes that are not dropped. -/
def trickle : Entropy := ⟨fun i ↦ if i % 64 < 62 then 200 else i.toUInt8, 0, 9, "dry"⟩

theorem draw_trickle : draw 3 trickle = (some ['!', '@', 'J'], trickle.after 2) := by
  have first : letters trickle.block = ['!', '@'] := by decide +kernel
  have second : letters trickle.consume.block = ['J', 'K'] := by decide +kernel
  rw [draw_step (by decide) (by decide), first, draw_step (by decide) (by decide), second, draw]
  rfl

/-- The third letter is in the second block, which is requested for its sake. -/
theorem rejection_sampling_trickle :
    draw 3 trickle = (some ['!', '@', 'J'], trickle.after 2) ∧
      ∃ n, IsLeast {n | 3 ≤ (letters (trickle.bytes n)).length} n ∧ n ≤ 9 ∧
        ['!', '@', 'J'] = (letters (trickle.bytes n)).take 3 ∧ trickle.after 2 = trickle.after n := by
  obtain ⟨-, n, least, -, le, key, after⟩ := (rejection_sampling.1 3 trickle).1 _ _ draw_trickle
  exact ⟨draw_trickle, n, least, le, key, after⟩

end ConfigScript.Salt
