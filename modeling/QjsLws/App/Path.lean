import QjsLws.Misc.Assoc
import QjsLws.Misc.Utf8

/-!
# Path patterns

`compilePath` of `lib/lws/app.js` and the regular expressions it builds. A compiled pattern is kept
as the list of its parts and run by backtracking, longest alternative first, as the host language
does.
-/

namespace QjsLws.App

open QjsLws.Misc

/-! ## Regular expressions -/

/-- A part of a compiled pattern: escaped text, `([^/]+)`, `.*` or a repeated character, `c*`. -/
inductive Part where
  | text (t : Text)
  | segment
  | rest
  | many (c : Char)
  deriving DecidableEq, Repr

/-- The regular expressions of `compilePath`: `/^.*/`, `/^\/?$/`, `/^\//`, and `^` followed by
parts and the suffix `/?$` (for a whole path) or `(?:/|$)`. -/
inductive PathRegex where
  | anything
  | optionalSlash
  | slash
  | parts (l : List Part) (whole : Bool)
  deriving DecidableEq, Repr

/-- The characters `.` does not match. -/
def isLineTerminator (c : Char) : Bool :=
  c = '\n' || c = '\r' || c.toNat = 0x2028 || c.toNat = 0x2029

/-- The first success of the attempts from `n` down to `least`. -/
def longest {β : Type} (attempt : Nat → Option β) (least : Nat) : Nat → Option β
  | 0 => if least = 0 then attempt 0 else none
  | n + 1 => if n + 1 < least then none else (attempt (n + 1)).or (longest attempt least n)

/-- The suffix `/?$` or `(?:/|$)`. -/
def matchSuffix (whole : Bool) (t : Text) : Bool :=
  if whole then t = [] || t = ['/'] else t.head?.all (· = '/')

/-- Runs parts and suffix on the text and returns what the groups captured. -/
def matchParts (whole : Bool) : List Part → Text → Option (List Text)
  | [], t => if matchSuffix whole t then some [] else none
  | .text u :: l, t =>
    if u.isPrefixOf t then matchParts whole l (t.drop u.length) else none
  | .segment :: l, t =>
    longest (fun n => (matchParts whole l (t.drop n)).map (t.take n :: ·)) 1
      (t.takeWhile (· ≠ '/')).length
  | .rest :: l, t =>
    longest (fun n => matchParts whole l (t.drop n)) 0
      (t.takeWhile fun c => !isLineTerminator c).length
  | .many c :: l, t =>
    longest (fun n => matchParts whole l (t.drop n)) 0 (t.takeWhile (· = c)).length

/-- `regex.exec(path)`: what the groups captured. -/
def PathRegex.exec : PathRegex → Text → Option (List Text)
  | .anything, _ => some []
  | .optionalSlash, t => if t = [] ∨ t = ['/'] then some [] else none
  | .slash, t => if t.head? = some '/' then some [] else none
  | .parts l whole, t => matchParts whole l t

/-! ## `compilePath` -/

/-- `seg.slice(1).replace(/[^a-zA-Z0-9_]/g, '')`. -/
def keyOf (seg : Text) : Text := (seg.drop 1).filter fun c => c.isAlphanum || c = '_'

/-- What `c*` repeats. A star after a character of two code units repeats the second of them, of
which a path has exactly one. -/
def repeated (c : Char) : Part := if c.toNat < 0x10000 then .many c else .text [c]

/-- Text with stars in it. The escape list leaves `*` out, so that it repeats the character before
it; `none` when there is none to repeat. -/
def quantified : Text → Option (List Part)
  | [] => some []
  | [c] => if c = '*' then none else some [.text [c]]
  | c :: d :: rest =>
    if c = '*' then none
    else if d = '*' then (quantified rest).map (repeated c :: ·)
    else (quantified (d :: rest)).map (.text [c] :: ·)

/-- One segment of the pattern. -/
def compileSegment (seg : Text) : Option (List Part) :=
  if seg = [] then some []
  else if seg.head? = some ':' then some [.segment]
  else if seg = ['*'] then some [.rest]
  else if '*' ∈ seg then quantified seg
  else some [.text seg]

/-- A segment with the `/` before it, which a star at the start of other text repeats. -/
def compileSlashed (seg : Text) : Option (List Part) :=
  if seg.head? = some '*' ∧ seg ≠ ['*'] then quantified ('/' :: seg)
  else (compileSegment seg).map (.text ['/'] :: ·)

/-- `new RegExp` on `parts.join('/')`. -/
def compileSegments : List Text → Option (List Part)
  | [] => some []
  | first :: later =>
    (compileSegment first).bind fun parts =>
      (later.mapM compileSlashed).map fun rest => parts ++ rest.flatten

/-- `compilePath`; `none` is the `SyntaxError` of `new RegExp`. -/
def compilePath (pattern : Text) (whole : Bool) : Option (PathRegex × List Text) :=
  if pattern = ['*'] ∨ pattern = ['/', '*'] then some (.anything, [])
  else if pattern = ['/'] ∨ pattern = [] then
    some (if whole then .optionalSlash else .slash, [])
  else
    let segments := split '/' pattern
    let keys := (segments.filter fun seg => seg.head? = some ':').map keyOf
    (compileSegments segments).map fun parts => (.parts parts whole, keys)

/-! ## `decodeURIComponent` -/

/-- The text of a run of escaped bytes, collected in reverse. -/
def decodeRun (bytes : List UInt8) : Option Text := (decodeUtf8 bytes.reverse).toOption

/-- Decodes the text after the escaped bytes collected so far. -/
def decodeAfter (bytes : List UInt8) : Text → Option Text
  | [] => decodeRun bytes
  | '%' :: a :: b :: rest =>
    if a.isHexDigit && b.isHexDigit then
      decodeAfter (UInt8.ofNat (16 * digitOf a + digitOf b) :: bytes) rest
    else none
  | c :: rest =>
    if c = '%' then none
    else (decodeRun bytes).bind fun decoded => (decodeAfter [] rest).map (decoded ++ c :: ·)

/-- `decodeURIComponent`; `none` is the `URIError`. -/
def decodeURIComponent (t : Text) : Option Text := decodeAfter [] t

/-! ## Slices -/

/-- The UTF-16 code units of a character. -/
def unitsOf (c : Char) : Nat := if c.toNat < 0x10000 then 1 else 2

/-- `t.length`. -/
def unitLength (t : Text) : Nat := (t.map unitsOf).sum

/-- `t.slice(n)`. Half of a surrogate pair is shown as the replacement character. -/
def slice : Nat → Text → Text
  | _, [] => []
  | n, c :: rest =>
    if n = 0 then c :: rest
    else if unitsOf c ≤ n then slice (n - unitsOf c) rest
    else Char.ofNat 0xfffd :: rest

end QjsLws.App
