import ConfigScript.Script.Fault
import ConfigScript.Script.Lexer.Name
import ConfigScript.Script.Token

/-!
# Text with escapes and variables

The body of a double-quoted literal or a heredoc. It is read as a list of fragments, characters and
variables; neighbouring characters are then joined.

A backslash escapes control characters, the dollar sign, the double quote and itself, and it
introduces a character by its number; in front of anything else it stands for itself. A variable is
written as `$name`, `${name}` or `{$name}`; braces around anything else are not supported.
-/

namespace ConfigScript.Script

/-- One character or one variable of an interpolated text. -/
inductive Fragment where
  | char (c : Char)
  | var (name : List Char)
deriving DecidableEq, Repr

namespace Fragment

/-- The text piece of the characters collected so far, in reverse; nothing if there are none. -/
def flush (pending : List Char) : List Part :=
  if pending.isEmpty then [] else [.text (String.ofList pending.reverse)]

/-- Join neighbouring characters; `pending` holds the ones before, in reverse. -/
def join (pending : List Char) : List Fragment → List Part
  | [] => flush pending
  | .char c :: fs => join (c :: pending) fs
  | .var n :: fs => flush pending ++ .var (String.ofList n) :: join [] fs

/-- The pieces of a literal; an empty literal has one empty piece. -/
def parts (fs : List Fragment) : List Part :=
  match join [] fs with
  | [] => [.text ""]
  | ps => ps

end Fragment

/-! ### Escapes -/

/-- The character that a single letter stands for after a backslash. -/
def letterEscape? (c : Char) : Option Char :=
  if c == 'n' then some '\n'
  else if c == 't' then some '\t'
  else if c == 'r' then some '\r'
  else if c == 'v' then some '\x0b'
  else if c == 'e' then some '\x1b'
  else if c == 'f' then some '\x0c'
  else if c == '\\' || c == '$' || c == '"' then some c
  else none

/-- The character with number `n`, which must not be a surrogate. -/
def charOf? (n : Nat) : Option Char :=
  if n < 0xD800 || (0xDFFF < n && n < 0x110000) then some (Char.ofNat n) else none

/-- A character number in hexadecimal notation up to a closing brace, given what follows the opening
brace. A plus sign may stand in front. -/
def codePoint? (cs : List Char) : Option (Char × List Char) :=
  match cs.dropWhile (· != '\x7d') with
  | [] => none
  | _ :: rest =>
    let digits := match cs.takeWhile (· != '\x7d') with
      | '+' :: ds => ds
      | ds => ds
    (Text.numeral? 16 digits).bind charOf? |>.map (·, rest)

/-- An escape that is none of the shorter ones: a character number in braces, or a backslash that
stands for itself. -/
def bracedEscape (c : Char) (r : List Char) : List Char × List Char :=
  match c, r with
  | 'u', '\x7b' :: body =>
    match codePoint? body with
    | some (d, rest) => ([d], rest)
    | none => (['\\', 'u'], r)
  | _, _ => (['\\', c], r)

/-- The characters that the text behind a backslash stands for, and what follows the escape. -/
def escape : List Char → List Char × List Char
  | [] => (['\\'], [])
  | c :: r =>
    match letterEscape? c with
    | some d => ([d], r)
    | none =>
      if Text.isDigitIn 8 c then
        let more := (r.take 2).takeWhile (Text.isDigitIn 8)
        let value := Text.ofDigitValues 8 ((c :: more).filterMap (Text.digitIn 8))
        ([Char.ofNat (value % 256)], r.drop more.length)
      else if c == 'x' && r.head?.any (Text.isDigitIn 16) then
        let ds := (r.take 2).takeWhile (Text.isDigitIn 16)
        ([Char.ofNat (Text.ofDigitValues 16 (ds.filterMap (Text.digitIn 16)))], r.drop ds.length)
      else bracedEscape c r

/-- What is left behind a code point is the end of the text. -/
theorem codePoint?_suffix {cs rest : List Char} {c : Char} (h : codePoint? cs = some (c, rest)) :
    rest <:+ cs := by
  unfold codePoint? at h
  split at h
  · cases h
  · rename_i tail heq
    obtain ⟨_, _, hpair⟩ := Option.map_eq_some_iff.1 h
    injection hpair with _ hpair
    subst hpair
    have := List.dropWhile_suffix (l := cs) (fun x : Char => x != '\x7d')
    rw [heq] at this
    exact (List.suffix_cons _ _).trans this

/-- What is left behind an escape in braces is the end of the text. -/
theorem bracedEscape_suffix (c : Char) (r : List Char) : (bracedEscape c r).2 <:+ r := by
  unfold bracedEscape
  split
  · split
    · rename_i h
      exact (codePoint?_suffix h).trans (List.suffix_cons _ _)
    · exact List.suffix_refl _
  · exact List.suffix_refl _

/-- What is left behind an escape is the end of the text. -/
theorem escape_suffix (cs : List Char) : (escape cs).2 <:+ cs := by
  cases cs with
  | nil => exact List.suffix_refl _
  | cons c r =>
    refine List.IsSuffix.trans ?_ (List.suffix_cons c r)
    rw [escape]
    split
    · exact List.suffix_refl _
    · split
      · exact List.drop_suffix _ _
      · split
        · exact List.drop_suffix _ _
        · exact bracedEscape_suffix c r

/-! ### Variables and the whole body -/

/-- A name and the closing brace behind it. -/
def bracedName (cs : List Char) : Except Fault (List Char × List Char) :=
  match name cs with
  | ([], _) => .error (.unsupportedSyntax .complexInterpolation)
  | (n, '\x7d' :: rest) => .ok (n, rest)
  | (_, _) => .error (.unsupportedSyntax .complexInterpolation)

/-- What is left behind a name in braces is the end of the text. -/
theorem bracedName_suffix {cs n rest : List Char} (h : bracedName cs = .ok (n, rest)) :
    rest <:+ cs := by
  unfold bracedName at h
  split at h
  · cases h
  · rename_i heq
    injection h with h
    injection h with _ h
    subst h
    have := name_suffix cs
    rw [heq] at this
    exact (List.suffix_cons _ _).trans this
  · cases h

/-- A variable at the start of the text, if there is one. -/
def interpolation? (c : Char) (r : List Char) : Option (Except Fault (List Char × List Char)) :=
  match c, r with
  | '$', d :: s =>
    if isNameStart d then some (.ok (name (d :: s)))
    else if d == '\x7b' then some (bracedName s)
    else none
  | '\x7b', '$' :: s => some (bracedName s)
  | _, _ => none

/-- What is left behind a variable in a text is the end of the text. -/
theorem interpolation?_suffix {c : Char} {r n rest : List Char}
    (h : interpolation? c r = some (.ok (n, rest))) : rest <:+ r := by
  unfold interpolation? at h
  split at h
  · split at h
    · injection h with h
      injection h with h
      have rest_eq : (name _).2 = rest := congrArg Prod.snd h
      exact rest_eq ▸ name_suffix _
    · split at h
      · injection h with h
        exact (bracedName_suffix h).trans (List.suffix_cons _ _)
      · cases h
  · injection h with h
    exact (bracedName_suffix h).trans (List.suffix_cons _ _)
  · cases h

/-- Read up to the character `closing`, or to the end of the text when there is none: the fragments
and what follows. -/
def interpolated (closing : Option Char) (cs : List Char) :
    Except Fault (List Fragment × List Char) :=
  match cs with
  | [] => if closing.isSome then .error .unterminatedString else .ok ([], [])
  | c :: r =>
    if some c = closing then .ok ([], r)
    else if c == '\\' then
      have := (escape_suffix r).length_le
      match interpolated closing (escape r).2 with
      | .error e => .error e
      | .ok (fs, rest) => .ok ((escape r).1.map .char ++ fs, rest)
    else match h : interpolation? c r with
      | some (.error e) => .error e
      | some (.ok (n, s)) =>
        have := (interpolation?_suffix h).length_le
        match interpolated closing s with
        | .error e => .error e
        | .ok (fs, rest) => .ok (.var n :: fs, rest)
      | none =>
        match interpolated closing r with
        | .error e => .error e
        | .ok (fs, rest) => .ok (.char c :: fs, rest)
termination_by cs.length

/-- What is left behind a text with variables is the end of the text. By recursion as the text is read,
one fragment after the other. -/
theorem interpolated_suffix {closing : Option Char} {cs rest : List Char} {fs : List Fragment}
    (h : interpolated closing cs = .ok (fs, rest)) : rest <:+ cs := by
  fun_induction interpolated closing cs generalizing fs rest with
  | case1 => cases h
  | case2 =>
    injection h with h
    injection h with _ h
    exact h ▸ List.suffix_refl _
  | case3 c r _ =>
    injection h with h
    injection h with _ h
    exact h ▸ List.suffix_cons _ _
  | case4 => cases h
  | case5 c r _ _ _ fs' rest' hr ih =>
    injection h with h
    injection h with _ h
    subst h
    exact (ih hr).trans ((escape_suffix r).trans (List.suffix_cons c r))
  | case6 => cases h
  | case7 => cases h
  | case8 c r _ _ n s hi _ fs' rest' hr ih =>
    injection h with h
    injection h with _ h
    subst h
    exact (ih hr).trans ((interpolation?_suffix hi).trans (List.suffix_cons c r))
  | case9 => cases h
  | case10 c r _ _ _ fs' rest' hr ih =>
    injection h with h
    injection h with _ h
    subst h
    exact (ih hr).trans (List.suffix_cons c r)

end ConfigScript.Script
