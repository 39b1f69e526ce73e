/-!
# Byte offsets

Texts are lists of characters; places in them are counted in the bytes of their UTF-8 encoding.
These functions cut a text at byte offsets. An offset inside a character is taken as the end of
that character when it is skipped and as its start when it is kept.
-/

namespace ConfigScript.Text

/-- Length of the UTF-8 encoding. -/
def byteLength : List Char → Nat
  | [] => 0
  | c :: cs => c.utf8Size + byteLength cs

/-- Drop the characters that begin within the first `n` bytes. -/
def dropBytes : Nat → List Char → List Char
  | 0, cs => cs
  | _ + 1, [] => []
  | n + 1, c :: cs => dropBytes (n + 1 - c.utf8Size) cs

/-- Keep the characters that end within the first `n` bytes. -/
def takeBytes : Nat → List Char → List Char
  | _, [] => []
  | n, c :: cs => if c.utf8Size ≤ n then c :: takeBytes (n - c.utf8Size) cs else []

/-- The text between two byte offsets. -/
def sliceBytes (start stop : Nat) (cs : List Char) : List Char :=
  takeBytes (stop - start) (dropBytes start cs)

/-- The character that begins exactly at byte offset `n`, if there is one. -/
def charAtByte : Nat → List Char → Option Char
  | _, [] => none
  | 0, c :: _ => some c
  | n + 1, c :: cs => if c.utf8Size ≤ n + 1 then charAtByte (n + 1 - c.utf8Size) cs else none

@[simp]
theorem byteLength_nil : byteLength [] = 0 := rfl

@[simp]
theorem byteLength_cons (c : Char) (cs : List Char) :
    byteLength (c :: cs) = c.utf8Size + byteLength cs := rfl

@[simp]
theorem byteLength_append (as bs : List Char) :
    byteLength (as ++ bs) = byteLength as + byteLength bs := by
  induction as with
  | nil => simp
  | cons c as ih => simp [ih, Nat.add_assoc]

/-- Dropping as many bytes as a prefix has drops that prefix. -/
@[simp]
theorem dropBytes_byteLength_append (as bs : List Char) :
    dropBytes (byteLength as) (as ++ bs) = bs := by
  induction as with
  | nil => cases bs <;> rfl
  | cons c as ih =>
    have pos : 0 < c.utf8Size := Char.utf8Size_pos c
    obtain ⟨k, hk⟩ : ∃ k, c.utf8Size + byteLength as = k + 1 := ⟨_, (Nat.succ_pred (by omega)).symm⟩
    rw [List.cons_append, byteLength_cons, hk, dropBytes, ← hk, Nat.add_sub_cancel_left, ih]

/-- Keeping as many bytes as a prefix has keeps that prefix. -/
@[simp]
theorem takeBytes_byteLength_append (as bs : List Char) :
    takeBytes (byteLength as) (as ++ bs) = as := by
  induction as with
  | nil =>
    cases bs with
    | nil => rfl
    | cons c bs =>
      have pos : 0 < c.utf8Size := Char.utf8Size_pos c
      simp [takeBytes, Nat.not_le.2 pos]
  | cons c as ih => simp [takeBytes, ih]

/-- The slice between two offsets that fall between characters is the text between them. -/
theorem sliceBytes_append (as bs cs : List Char) :
    sliceBytes (byteLength as) (byteLength as + byteLength bs) (as ++ bs ++ cs) = bs := by
  simp [sliceBytes, List.append_assoc]

end ConfigScript.Text
