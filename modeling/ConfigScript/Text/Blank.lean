/-!
# White space

The Unicode property `White_Space`, and trimming by it. Trimming is stated on lists of characters,
where it is `dropWhile` at one end or at both.
-/

namespace ConfigScript.Text

/-- The characters with the Unicode property `White_Space`. -/
def isBlank (c : Char) : Bool :=
  let n := c.toNat
  (9 ≤ n && n ≤ 13) || n == 0x20 || n == 0x85 || n == 0xA0 || n == 0x1680 ||
    (0x2000 ≤ n && n ≤ 0x200A) || n == 0x2028 || n == 0x2029 || n == 0x202F || n == 0x205F ||
    n == 0x3000

/-- Drop the longest suffix whose characters all satisfy `p`. -/
def dropEndWhile (p : Char → Bool) (cs : List Char) : List Char :=
  (cs.reverse.dropWhile p).reverse

/-- Drop the longest prefix and the longest suffix whose characters all satisfy `p`. -/
def dropBothWhile (p : Char → Bool) (cs : List Char) : List Char :=
  dropEndWhile p (cs.dropWhile p)

/-- Drop white space at the front. -/
def trimStart (cs : List Char) : List Char := cs.dropWhile isBlank

/-- Drop white space at the end. -/
def trimEnd (cs : List Char) : List Char := dropEndWhile isBlank cs

/-- Drop white space at both ends. -/
def trim (cs : List Char) : List Char := dropBothWhile isBlank cs

/-- The maximal runs of characters that are not white space, in order. -/
def words (cs : List Char) : List (List Char) :=
  match h : trimStart cs with
  | [] => []
  | c :: r =>
    have : (r.dropWhile (!isBlank ·)).length < cs.length := by
      have h1 : (trimStart cs).length ≤ cs.length := (List.dropWhile_sublist _).length_le
      have h2 : (r.dropWhile (!isBlank ·)).length ≤ r.length :=
        (List.dropWhile_sublist _).length_le
      simp only [h, List.length_cons] at h1
      omega
    (c :: r.takeWhile (!isBlank ·)) :: words (r.dropWhile (!isBlank ·))
termination_by cs.length

end ConfigScript.Text
