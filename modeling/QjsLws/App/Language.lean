import QjsLws.App.Path

/-!
# The language of a path pattern

The patterns `compilePath` is documented for, and the paths they describe segment by segment.
-/

namespace QjsLws.App

open QjsLws.Misc

/-- Text that describes itself: no parameter, and not the final star. -/
structure Word where
  text : Text
  nonempty : text ≠ []
  noSlash : '/' ∉ text
  noColon : text.head? ≠ some ':'
  notStar : text ≠ ['*']

/-- A segment of a pattern other than the final star. -/
inductive Piece where
  | word (w : Word)
  | param (name : Text) (noSlash : '/' ∉ name)

namespace Piece

/-- The segment as it is written. -/
def text : Piece → Text
  | .word w => w.text
  | .param name _ => ':' :: name

/-- The keys it adds. -/
def keys : Piece → List Text
  | .word _ => []
  | .param name _ => [keyOf (':' :: name)]

/-- The segments of a path that it describes. -/
def Accepts : Piece → Text → Prop
  | .word w, t => t = w.text
  | .param .., t => t ≠ [] ∧ '/' ∉ t

/-- What it captures of a segment. -/
def captures : Piece → Text → List Text
  | .word _, _ => []
  | .param .., t => [t]

end Piece

/-- Segments one by one, each after a slash, with what they capture. -/
inductive Reads : List Piece → Text → List Text → Prop
  | nil : Reads [] [] []
  | cons {piece pieces t path params} (accepted : piece.Accepts t)
      (later : Reads pieces path params) :
      Reads (piece :: pieces) ('/' :: (t ++ path)) (piece.captures t ++ params)

/-- A pattern: `/` and one or more segments, the last of them possibly a star. -/
structure Pattern where
  pieces : List Piece
  star : Bool
  nonempty : pieces ≠ [] ∨ star = true

namespace Pattern

variable (p : Pattern)

/-- The pattern as it is written. -/
def text : Text :=
  p.pieces.flatMap (fun piece => '/' :: piece.text) ++ if p.star then ['/', '*'] else []

/-- The keys of its parameters. -/
def keys : List Text := p.pieces.flatMap Piece.keys

/-- The paths of its form: the segments, and any rest after the slash of a final star. -/
def Form (path : Text) (params : List Text) : Prop :=
  ∃ front back, path = front ++ back ∧ Reads p.pieces front params ∧
    if p.star then back.head? = some '/' else back = []

/-- The paths it stands for: as a whole with one more slash allowed, or as a prefix that ends at a
slash or at the end. -/
def Describes (whole : Bool) (path : Text) (params : List Text) : Prop :=
  if whole then p.Form path params ∨ ∃ front, path = front ++ ['/'] ∧ p.Form front params
  else ∃ front back, path = front ++ back ∧ (back = [] ∨ back.head? = some '/') ∧
    p.Form front params

/-- It compiles to an expression that matches exactly the paths it stands for, and captures their
parameters, one for each key. -/
def Faithful (whole : Bool) : Prop :=
  ∃ regex, compilePath p.text whole = some (regex, p.keys) ∧
    ∀ path : Text, (∀ c ∈ path, isLineTerminator c = false) → ∀ params,
      (regex.exec path = some params ↔ p.Describes whole path params) ∧
        (regex.exec path = some params → params.length = p.keys.length)

/-- No word has a star in it. -/
def Starless : Prop := ∀ w, .word w ∈ p.pieces → '*' ∉ w.text

end Pattern

/-- A word with a line terminator in it that no star makes optional. -/
def Word.Unmatched (w : Word) : Prop :=
  ∃ before c after, w.text = before ++ c :: after ∧ isLineTerminator c = true ∧
    after.head? ≠ some '*'

/-- The pattern is a regular expression, but one of its words has a line terminator that every match
needs. -/
def Pattern.Hopeless (p : Pattern) : Prop :=
  (∀ w, .word w ∈ p.pieces → ¬['*', '*'] <:+: w.text) ∧ ∃ w, .word w ∈ p.pieces ∧ w.Unmatched

end QjsLws.App
