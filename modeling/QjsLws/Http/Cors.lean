import QjsLws.Http.ServerResponse
import QjsLws.Misc.Number

/-!
# `cors`

The middleware `cors` with `matchOrigin` and `arr` (`lib/lws/middleware.js`), on a response whose headers
are not out.
-/

namespace QjsLws.Http

open QjsLws.Misc

/-! ## Options -/

/-- A value for `arr`: a string or an array. -/
inductive ListOption where
  | text (t : Text)
  | list (l : List Text)
  deriving DecidableEq, Repr

/-- `String(v).split(/\s*,\s*/)`: white space goes where it touches a comma. -/
def splitList (t : Text) : List Text :=
  match split ',' t with
  | first :: next :: rest =>
    let later := next :: rest
    first.rdropWhile isStrWhiteSpace :: later.dropLast.map (strip isStrWhiteSpace) ++
      [(later.getLastD []).dropWhile isStrWhiteSpace]
  | parts => parts

/-- `arr`. -/
def arr : ListOption → List Text
  | .list l => l
  | .text t => splitList t

/-- `v ? arr(v).join(',') : null`. -/
def joined : Option ListOption → Option Text
  | none | some (.text []) => none
  | some v => some (join [','] (arr v))

/-- What an origin function answers: a string, `true` or `false`. -/
inductive OriginAnswer where
  | named (t : Text)
  | yes
  | no
  deriving DecidableEq, Repr

/-- An origin specification. A regular expression is its test, a function what it answers to an origin
that may be absent. -/
inductive OriginSpec where
  | string (t : Text)
  | list (l : List Text)
  | bool (b : Bool)
  | regex (test : Text → Bool)
  | function (answer : Option Text → OriginAnswer)

/-- The options of `cors`; `maxAge` is its text. -/
structure CorsOptions where
  origin : Option OriginSpec
  methods : Option ListOption
  allowedHeaders : Option ListOption
  exposedHeaders : Option ListOption
  credentials : Bool
  maxAge : Option Text
  optionsSuccessStatus : Option Int

/-- `opts.origin ?? '*'`. -/
def CorsOptions.spec (opts : CorsOptions) : OriginSpec := opts.origin.getD (.string ['*'])

/-- What `cors` reads of a request. -/
structure CorsRequest where
  method : Text
  origin : Option Text
  requestMethod : Option Text
  requestHeaders : Option Text
  deriving DecidableEq, Repr

/-! ## `matchOrigin` -/

/-- What `matchOrigin` returns; `denied` is `false` or `null`. -/
inductive Allow where
  | denied
  | yes
  | named (t : Text)
  | undefined
  deriving DecidableEq, Repr

/-- `reqOrigin || '*'`. -/
def orStar : Option Text → Text
  | none | some [] => ['*']
  | some t => t

/-- `matchOrigin`. A regular expression reads an absent origin as `undefined`. -/
def matchOrigin : OriginSpec → Option Text → Allow
  | .string spec, reqOrigin =>
    if spec = ['*'] then .named ['*'] else if some spec = reqOrigin then .named spec else .denied
  | .bool true, reqOrigin => .named (orStar reqOrigin)
  | .bool false, _ => .denied
  | .list spec, some reqOrigin => if reqOrigin ∈ spec then .named reqOrigin else .denied
  | .list _, none => .denied
  | .regex test, some reqOrigin => if test reqOrigin then .named reqOrigin else .denied
  | .regex test, none => if test "undefined".toList then .undefined else .denied
  | .function answer, reqOrigin =>
    match answer reqOrigin with
    | .named t => .named t
    | .yes => .yes
    | .no => .denied

/-! ## The middleware -/

/-- Header names that `cors` sets. They are normalized already. -/
def allowOrigin : Text := "access-control-allow-origin".toList

@[inherit_doc allowOrigin]
def vary : Text := "vary".toList

/-- `allow === true ? reqOrigin || '*' : allow`, as a string. -/
def Allow.text (reqOrigin : Option Text) : Allow → Text
  | .denied => "false".toList
  | .yes => orStar reqOrigin
  | .named t => t
  | .undefined => "undefined".toList

/-- The branch for a request that is allowed. -/
def grant (opts : CorsOptions) (reqOrigin : Option Text) (s : ServerResponse) : ResponseOutcome :=
  let allow := matchOrigin opts.spec reqOrigin
  if allow = .denied then .done s
  else
    (s.set allowOrigin (allow.text reqOrigin)).andThen fun s =>
    (if allow = .named ['*'] then .done s else s.append vary "Origin".toList).andThen fun s =>
    (if opts.credentials then s.set "access-control-allow-credentials".toList "true".toList
      else .done s).andThen fun s =>
    match joined opts.exposedHeaders with
    | none | some [] => .done s
    | some exposed => s.set "access-control-expose-headers".toList exposed

/-- `req.method === 'OPTIONS' && req.headers['access-control-request-method']`. -/
def CorsRequest.preflight (req : CorsRequest) : Bool :=
  req.method = "OPTIONS".toList && (req.requestMethod.getD []) ≠ []

/-- `if(value) res.set(name, value)`. -/
def setIf (name : Text) (value : Option Text) (s : ServerResponse) : ResponseOutcome :=
  match value with
  | none | some [] => .done s
  | some value => s.set name value

/-- The branch for a preflight request. -/
def answerPreflight (wsi : Wsi) (opts : CorsOptions) (req : CorsRequest) (s : ServerResponse) :
    ResponseOutcome :=
  let methods := join [','] (arr (opts.methods.getD (.text "GET,HEAD,PUT,PATCH,POST,DELETE".toList)))
  (s.set "access-control-allow-methods".toList methods).andThen fun s =>
  (setIf "access-control-allow-headers".toList
    ((joined opts.allowedHeaders).or req.requestHeaders) s).andThen fun s =>
  (setIf "access-control-max-age".toList opts.maxAge s).andThen fun s =>
  (s.set contentLength "0".toList).andThen fun s =>
  (s.setStatus (opts.optionsSuccessStatus.getD 204)).andThen (ServerResponse.end wsi none)

/-- `cors(opts)`: the response, and whether `next()` is called. -/
def cors (wsi : Wsi) (opts : CorsOptions) (req : CorsRequest) (s : ServerResponse) :
    ResponseOutcome × Bool :=
  let granted := grant opts req.origin s
  if req.preflight then (granted.andThen (answerPreflight wsi opts req), false)
  else (granted, granted.thrown.isNone)

/-! ## What caches and browsers see -/

/-- The response depends on the origin: `vary` lists it. -/
def VariesOnOrigin (h : Headers) : Prop :=
  ∃ t, h.get vary = some t ∧
    "origin".toList ∈ (split ',' t).map fun part => asciiLower (strip isHttpWhitespace part)

/-- What a header of a request can hold. -/
def Sent (value : Option Text) : Prop := ∀ t, value = some t → Storable t

/-- The specification allows an origin. -/
def OriginSpec.Allows (origin : Text) : OriginSpec → Prop
  | .string t => t = ['*'] ∨ t = origin
  | .list l => origin ∈ l
  | .bool b => b = true
  | .regex test => test origin = true
  | .function answer => answer (some origin) = .yes ∨
    ∃ t, answer (some origin) = .named t ∧ (t = ['*'] ∨ normalizeValue t = .ok origin)

/-- Two requests that differ in their origin at most, to responses that name none yet: where the header
that names an origin is not the same, both say so; and an origin that is not allowed is never named. -/
structure CorsContract (opts : CorsOptions) : Prop where
  cacheSafe : ∀ wsi wsi' req origin s, s.headersSent = false → s.headers.has allowOrigin = false →
    Sent req.origin → Sent origin →
      let h := (cors wsi opts req s).1.state.headers
      let h' := (cors wsi' opts { req with origin } s).1.state.headers
      h.get allowOrigin ≠ h'.get allowOrigin → VariesOnOrigin h ∧ VariesOnOrigin h'
  unnamed : ∀ wsi req origin s, s.headersSent = false → s.headers.has allowOrigin = false →
    Sent req.origin → req.origin = some origin → ¬opts.spec.Allows origin →
      (cors wsi opts req s).1.state.headers.get allowOrigin ≠ some origin

/-- The answer puts no header into the response: it is `false`, or a string that no header can hold. -/
def OriginAnswer.Withholds (answer : OriginAnswer) : Prop :=
  answer = .no ∨ ∃ t e, answer = .named t ∧ normalizeValue t = .error e

/-- The answer makes the header `*`. -/
def OriginAnswer.Opens (reqOrigin : Option Text) (answer : OriginAnswer) : Prop :=
  (∃ t, answer = .named t ∧ normalizeValue t = .ok ['*']) ∨
    answer = .yes ∧ normalizeValue (orStar reqOrigin) = .ok ['*']

/-- The answer is one that `Vary` goes with. -/
def OriginAnswer.Varies (answer : OriginAnswer) : Prop :=
  answer = .yes ∨ ∃ t v, answer = .named t ∧ t ≠ ['*'] ∧ normalizeValue t = .ok v

/-- The specification treats all requests alike: it is `'*'` or `false`, it matches no origin that can be
sent, or it is a function that never lets a header out, always makes it `*`, or never answers `'*'` or a
refusal. -/
def OriginSpec.Uniform : OriginSpec → Prop
  | .string t => t = ['*'] ∨ ¬Storable t
  | .list l => ∀ t ∈ l, ¬Storable t
  | .bool b => b = false
  | .regex test => ∀ t, Storable t → test t = false
  | .function answer => (∀ origin, Sent origin → (answer origin).Withholds) ∨
    (∀ origin, Sent origin → (answer origin).Opens origin) ∨
      ∀ origin, Sent origin → (answer origin).Varies

end QjsLws.Http
