import QjsLws.Url.Setters

/-!
# The parts of a URL text

Where the host and the query stand in a text that is parsed against a base, said about the text
alone. The parser finds the same parts while it moves through its states.
-/

namespace QjsLws.Url

open QjsLws.Misc ParserInput

/-- The scheme before the first colon, and what follows the colon. -/
def splitScheme (native : Native) (t : Text) : Option (Text × Text) :=
  if t.head?.any isASCIIAlpha = true ∧ (t.dropWhile isSchemeChar).head? = some ':' then
    some ((t.takeWhile isSchemeChar).flatMap fun c => native.toLowerCase [c],
      (t.dropWhile isSchemeChar).tail)
  else none

/-- A slash or a backslash. -/
def isAnySlash (c : Char) : Bool := c = '/' || c = '\\'

/-- Whether the text starts with two slashes. -/
def startsWithSlashes (t : Text) : Bool := t.head? = some '/' && t.tail.head? = some '/'

/-- The text before the first character that ends an authority. -/
def authorityText (special : Bool) (t : Text) : Text :=
  t.takeWhile fun c => !endsAuthority special (some c)

/-- The text after the last `@`. -/
def afterUserinfo (t : Text) : Text := t.rtakeWhile (· ≠ '@')

/-- The text before the first colon outside brackets. -/
def beforePort : Bool → Text → Text
  | _, [] => []
  | inside, c :: rest =>
    if c = ':' ∧ inside = false then []
    else c :: beforePort (if c = '[' then true else if c = ']' then false else inside) rest

/-- The host of a text that starts with an authority. -/
def authorityHost (special : Bool) (t : Text) : Text :=
  beforePort false (afterUserinfo (authorityText special t))

/-- The host after the first of two slashes. A special URL may have more of them. -/
def slashHost (special : Bool) : Text → Option (Bool × Text)
  | c :: t =>
    if isSlash special (some c) then
      some (special, authorityHost special (if special then t.dropWhile isAnySlash else t))
    else none
  | [] => none

/-- The host of a relative reference. -/
def relativeHost (special : Bool) : Text → Option (Bool × Text)
  | c :: t => if isSlash special (some c) then slashHost special t else none
  | [] => none

/-- A name after the slashes of a file URL, which may also be a drive letter. -/
def fileHostName (name : Text) : Option (Bool × Text) :=
  if name = [] ∨ isWindowsDriveLetter name = true then none else some (true, name)

/-- The host after the first slash of a file URL. -/
def fileSlashHost : Text → Option (Bool × Text)
  | c :: t => if isAnySlash c then fileHostName (authorityText true t) else none
  | [] => none

/-- The host of a file URL. -/
def fileHostOf : Text → Option (Bool × Text)
  | c :: t => if isAnySlash c then fileSlashHost t else none
  | [] => none

/-- The host after a special scheme that is also the scheme of the base. -/
def sameSchemeHost (t : Text) : Option (Bool × Text) :=
  if startsWithSlashes t then some (true, authorityHost true (t.dropWhile isAnySlash))
  else relativeHost true t

/-- The host after a scheme. -/
def schemeHost (base : Option URLRecord) (scheme t : Text) : Option (Bool × Text) :=
  if isFile scheme then fileHostOf t
  else if isSpecialScheme scheme then
    if base.any (·.scheme = scheme) then sameSchemeHost t
    else some (true, authorityHost true (t.dropWhile isAnySlash))
  else if startsWithSlashes t then some (false, authorityHost false (t.drop 2))
  else none

/-- The host of a text without a scheme. -/
def baseHost (base : Option URLRecord) (t : Text) : Option (Bool × Text) :=
  match base with
  | none => none
  | some base =>
    if base.opaquePath then none
    else if isFile base.scheme then fileHostOf t
    else relativeHost (isSpecialScheme base.scheme) t

/-- The host text of an input, if it names a host, and whether it is the host of a special URL. -/
def hostText (native : Native) (cp : Text) (base : Option URLRecord) : Option (Bool × Text) :=
  match splitScheme native cp with
  | some (scheme, rest) => schemeHost base scheme rest
  | none => baseHost base cp

/-- Where `parseHost` throws: at an address with a second bracket that is never closed, and at the
name of a special URL that is not percent-encoded UTF-8. -/
def UnreadableHost (special : Bool) (t : Text) : Prop :=
  (∃ x rest, t = '[' :: x ++ [']'] ∧ cString x = '[' :: rest ∧ ']' ∉ rest) ∨
    special = true ∧ t.head? ≠ some '[' ∧ ∃ e, percentDecodeString t = .error e

/-- The text before the fragment. -/
def beforeFragment (t : Text) : Text := t.takeWhile (· ≠ '#')

/-- The query that a text without one takes from the base: nothing may be left before the
fragment. -/
def inheritedQuery (native : Native) (cp : Text) (base : Option URLRecord) : Option Text :=
  match base with
  | none => none
  | some base =>
    match splitScheme native cp with
    | some (scheme, rest) =>
      if isSpecialScheme scheme && scheme = base.scheme && beforeFragment rest = [] then base.query
      else none
    | none => if beforeFragment cp = [] then base.query else none

/-- The query text of an input: what follows its first question mark, or the query of the base. -/
def queryText (native : Native) (cp : Text) (base : Option URLRecord) : Option Text :=
  if '?' ∈ beforeFragment cp then some ((beforeFragment cp).dropWhile (· ≠ '?')).tail
  else inheritedQuery native cp base

end QjsLws.Url
