import ConfigScript.Script.Span
import ConfigScript.Text.Blank
import ConfigScript.Text.Search

/-!
# Cutting and inserting source text

Changes of a source text at spans and at markers. What is outside the place of the change stays as
it is; only a removal that leaves a line blank takes the rest of the line with it.
-/

namespace ConfigScript.Edit

/-- The text before a span. -/
def before (source : List Char) (s : Span) : List Char := Text.takeBytes s.start source

/-- The text behind a span. -/
def after (source : List Char) (s : Span) : List Char := Text.dropBytes s.stop source

/-- Put `replacement` in the place of a span. -/
def splice (source : List Char) (s : Span) (replacement : List Char) : List Char :=
  before source s ++ replacement ++ after source s

/-- The beginning of the line that ends with the text. -/
def lineHead (cs : List Char) : List Char := (cs.reverse.takeWhile (· != '\n')).reverse

/-- The rest of the line that begins the text, with its line break. -/
def lineTail (cs : List Char) : List Char :=
  cs.takeWhile (· != '\n') ++ (cs.dropWhile (· != '\n')).take 1

/-- Cut out a span, and the whole lines it is on if nothing else is on them. -/
def cut (source : List Char) (s : Span) : List Char :=
  let head := lineHead (before source s)
  let tail := lineTail (after source s)
  if head.all Text.isBlank && tail.all Text.isBlank then
    (before source s).take ((before source s).length - head.length) ++
      (after source s).drop tail.length
  else before source s ++ after source s

/-- Add `addition` at the end, in front of a closing tag that ends the text. -/
def appendAtEnd (source separator addition : List Char) : List Char :=
  let trimmed := Text.trimEnd source
  -- Behind a closing tag the addition would be plain text.
  if ['?', '>'].isSuffixOf trimmed then
    let body := Text.trimEnd (trimmed.take (trimmed.length - 2))
    body ++ separator ++ addition ++ source.drop body.length
  else trimmed ++ separator ++ addition ++ ['\n']

/-- On which side of a marker something is put. -/
inductive Placement where
  | beforeAnchor
  | afterAnchor
deriving DecidableEq, Repr

/-- Add `addition` beside the first `marker`; `none` if there is no marker. -/
def insertAt (source marker separator addition : List Char) (placement : Placement) :
    Option (List Char) :=
  (Text.splitAtFirst marker source).map fun (head, rest) =>
    match placement with
    | .beforeAnchor => head ++ addition ++ separator ++ rest
    | .afterAnchor => head ++ marker ++ separator ++ addition ++ rest.drop marker.length

end ConfigScript.Edit
