import QjsLws.Http.Headers
import QjsLws.Misc.Number

/-!
# The cookies of `fetch`

The module-level map `cookies` of `lib/fetch.js`: what the adapter's handler takes from the responses to
requests with `credentials: 'include'`, and what `fetch` puts into their headers. A history has its
latest event in front. A response is one whose request has its record in `settled`.
-/

namespace QjsLws.Client

open QjsLws.Misc QjsLws.Http

/-! ## The map -/

/-- The lookahead of `/,(?=[^;]+(?:;|$))/`: a character that is no `;`. What follows it never fails. -/
def startsField : Text → Bool
  | c :: _ => c ≠ ';'
  | [] => false

/-- `setCookie.split(/,(?=[^;]+(?:;|$))/)`. -/
def splitFolded : Text → List Text
  | [] => [[]]
  | c :: rest =>
    match splitFolded rest with
    | part :: parts => if c = ',' ∧ startsField rest then [] :: part :: parts else (c :: part) :: parts
    | [] => []

/-- What is read of `h.split(';')[0]`. -/
def firstSegment (h : Text) : Text := h.takeWhile (· ≠ ';')

/-- `cookies.set(h.slice(0, eq).trim(), h.slice(eq + 1).trim())`, where the first segment has a `=`. -/
def storeCookie (jar : Assoc Text Text) (h : Text) : Assoc Text Text :=
  if '=' ∈ firstSegment h then
    jar.set (strip isStrWhiteSpace (h.takeWhile (· ≠ '=')))
      (strip isStrWhiteSpace ((h.dropWhile (· ≠ '=')).drop 1))
  else jar

/-- The handler, for a request with `include`. -/
def storeResponse (jar : Assoc Text Text) (headers : Headers) : Assoc Text Text :=
  match headers.get setCookie with
  | none | some [] => jar
  | some folded => (splitFolded folded).foldl storeCookie jar

/-- `cookieStr`, which `fetch` adds to the headers; `none` where the map is empty. -/
def cookieText (jar : Assoc Text Text) : Option Text :=
  if jar.entries = [] then none
  else some (join "; ".toList (jar.entries.map fun e => e.1 ++ '=' :: e.2))

/-! ## Histories -/

/-- What happens: a call of `fetch` for a host, with its number and whether its credentials are
`include`, or a response to one. -/
inductive JarEvent where
  | fetch (id : Nat) (host : Text) (credentials : Bool)
  | response (id : Nat) (headers : Headers)

/-- Events, the latest in front. -/
abbrev JarHistory := List JarEvent

namespace JarHistory

/-- The host of a request and whether its credentials are `include`. -/
def requestOf (id : Nat) : JarHistory → Option (Text × Bool)
  | [] => none
  | .fetch id' host credentials :: earlier =>
    if id' = id then some (host, credentials) else requestOf id earlier
  | .response .. :: earlier => requestOf id earlier

/-- The map after a history. -/
def run : JarHistory → Assoc Text Text
  | [] => .empty
  | .fetch .. :: earlier => run earlier
  | .response id headers :: earlier =>
    match requestOf id earlier with
    | some (_, true) => storeResponse (run earlier) headers
    | _ => run earlier

/-! ## What a jar is for -/

/-- The pair of a `Set-Cookie` header, without its attributes. -/
def cookiePair (value : Text) : Option (Text × Text) :=
  let pair := firstSegment value
  if '=' ∈ pair then
    some (strip isStrWhiteSpace (pair.takeWhile (· ≠ '=')),
      strip isStrWhiteSpace ((pair.dropWhile (· ≠ '=')).drop 1))
  else none

/-- The pair is the latest of its name. -/
def keep (jar : Assoc Text Text) (value : Text) : Assoc Text Text :=
  match cookiePair value with
  | some (name, value) => jar.set name value
  | none => jar

/-- The pairs received from a host. -/
def received (host : Text) : JarHistory → Assoc Text Text
  | [] => .empty
  | .fetch .. :: earlier => received host earlier
  | .response id headers :: earlier =>
    if requestOf id earlier = some (host, true) then
      headers.getSetCookie.foldl keep (received host earlier)
    else received host earlier

/-- Every request with `include` carries the pairs received from its host by then, and no others. -/
def Contract (history : JarHistory) : Prop :=
  ∀ later id host earlier, history = later ++ .fetch id host true :: earlier →
    cookieText (run earlier) = cookieText (received host earlier)

/-! ## Where it is one -/

/-- A `Set-Cookie` header that is a pair without attributes or commas. -/
def Plain (value : Text) : Prop := ';' ∉ value ∧ ',' ∉ value

/-- No `=` stands before the first `;` of any of its parts between commas. -/
def Silent (value : Text) : Prop := ∀ part ∈ split ',' value, '=' ∉ firstSegment part

/-- The headers of a response: each is plain or names no cookie; the last may end with a comma. -/
def Legible : List Text → Prop
  | [] => True
  | [value] => Plain value ∨ Silent value ∨ ∃ front, value = front ++ [','] ∧ Plain front
  | value :: values => (Plain value ∨ Silent value) ∧ Legible values

/-- The condition on one event: the headers of a response to a request with `include` are legible, and
such a request is made where no other host has sent a cookie. -/
def Clean (earlier : JarHistory) : JarEvent → Prop
  | .response id headers =>
    ∀ host, requestOf id earlier = some (host, true) → Legible headers.getSetCookie
  | .fetch _ host true => ∀ other, other ≠ host → (received other earlier).entries = []
  | .fetch _ _ false => True

end JarHistory

end QjsLws.Client
