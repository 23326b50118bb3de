import QjsLws.Url.Host

/-!
# The basic URL parser

`basicURLParse` and `serializeURL` (`lib/lws/url.js`). Each `case` of the `switch` is a function of
its own on the local variables; the loop is bounded by fuel, and `none` is a loop still running.
-/

namespace QjsLws.Url

open QjsLws.Misc

/-- `url.path`: a string where `opaquePath` is set, else a list. -/
inductive UrlPath where
  | text (path : Text)
  | segments (path : List Text)
  deriving DecidableEq, Repr

/-- Updates a list; only lists are pushed to and popped from. -/
def UrlPath.modify (f : List Text → List Text) : UrlPath → UrlPath
  | .text path => .text path
  | .segments path => .segments (f path)

/-- `path[0]`, where it is a segment. -/
def UrlPath.first : UrlPath → Option Text
  | .text _ => none
  | .segments path => path.head?

/-- A URL record. The source keeps `opaquePath` beside `path`; here `path` carries it. -/
structure URLRecord where
  scheme : Text
  username : Text
  password : Text
  host : Option Host
  port : Option Nat
  path : UrlPath
  query : Option Text
  fragment : Option Text
  deriving DecidableEq, Repr

/-- `url.opaquePath`. -/
def URLRecord.opaquePath (url : URLRecord) : Bool :=
  match url.path with
  | .text _ => true
  | .segments _ => false

/-- `SPECIAL_SCHEMES`. -/
def specialSchemes : List (Text × Option Nat) :=
  [("ftp".toList, some 21), ("file".toList, none), ("http".toList, some 80),
    ("https".toList, some 443), ("ws".toList, some 80), ("wss".toList, some 443)]

/-- `isSpecialScheme`. -/
def isSpecialScheme (scheme : Text) : Bool := (specialSchemes.lookup scheme).isSome

/-- `isSpecial`. -/
def isSpecial (url : URLRecord) : Bool := isSpecialScheme url.scheme

/-- `defaultPort`. -/
def defaultPort (scheme : Text) : Option Nat := (specialSchemes.lookup scheme).join

/-- `url.scheme === 'file'`. -/
def isFile (scheme : Text) : Bool := scheme = "file".toList

/-- `includesCredentials`. -/
def includesCredentials (url : URLRecord) : Bool := url.username ≠ [] || url.password ≠ []

/-- `isASCIIAlpha`. -/
def isASCIIAlpha (c : Char) : Bool := c.isAlpha

/-- `isWindowsDriveLetter`. -/
def isWindowsDriveLetter : Text → Bool
  | [letter, mark] => isASCIIAlpha letter && (mark = ':' || mark = '|')
  | _ => false

/-- `isNormalizedWindowsDriveLetter`. -/
def isNormalizedWindowsDriveLetter : Text → Bool
  | [letter, mark] => isASCIIAlpha letter && mark = ':'
  | _ => false

/-- `startsWithWindowsDriveLetter` of the rest of the input. -/
def startsWithWindowsDriveLetter : Text → Bool
  | [letter, mark] => isWindowsDriveLetter [letter, mark]
  | letter :: mark :: next :: _ =>
    isWindowsDriveLetter [letter, mark] && ['/', '\\', '?', '#'].contains next
  | _ => false

/-- `isSingleDotSegment`. -/
def isSingleDotSegment (native : Native) (buf : Text) : Bool :=
  buf = ".".toList || native.toLowerCase buf = "%2e".toList

/-- `isDoubleDotSegment`. -/
def isDoubleDotSegment (native : Native) (buf : Text) : Bool :=
  ["..".toList, ".%2e".toList, "%2e.".toList, "%2e%2e".toList].contains (native.toLowerCase buf)

/-- `shortenPath` on the list. -/
def shortenSegments (scheme : Text) (path : List Text) : List Text :=
  match path with
  | [segment] => if isFile scheme && isNormalizedWindowsDriveLetter segment then path else []
  | _ => path.dropLast

/-- `newURLRecord`. -/
def newURLRecord : URLRecord := ⟨[], [], [], none, none, .segments [], none, none⟩

/-- The states of the parser. -/
inductive ParserState where
  | schemeStart
  | scheme
  | noScheme
  | specialRelativeOrAuthority
  | pathOrAuthority
  | relative
  | relativeSlash
  | specialAuthoritySlashes
  | specialAuthorityIgnoreSlashes
  | authority
  | host
  | hostname
  | port
  | file
  | fileSlash
  | fileHost
  | pathStart
  | path
  | opaquePath
  | query
  | fragment
  deriving DecidableEq, Repr

/-- What does not change during a run of the parser. -/
structure ParserInput where
  native : Native
  cp : Text
  base : Option URLRecord
  stateOverride : Option ParserState

/-- The local variables of `basicURLParse`. -/
structure ParserVars where
  url : URLRecord
  state : ParserState
  buffer : Text
  atSignSeen : Bool
  insideBrackets : Bool
  passwordTokenSeen : Bool
  pointer : Int
  deriving DecidableEq, Repr

/-- How a run ends: it returns `url`, it returns `null`, or it throws. -/
inductive ParseEnd where
  | record
  | null
  | threw (error : JsError)
  deriving DecidableEq, Repr

/-- One pass through the `switch`: on to `pointer++`, or out of the function, which leaves `url`
as it is then. -/
inductive Pass where
  | next (vars : ParserVars)
  | done (url : URLRecord) (ended : ParseEnd)
  deriving DecidableEq, Repr

namespace ParserVars

/-- Goes to another state. -/
@[simp] def goto (v : ParserVars) (state : ParserState) : ParserVars := { v with state }

/-- `pointer--`. -/
@[simp] def back (v : ParserVars) : ParserVars := { v with pointer := v.pointer - 1 }

/-- `pointer++` inside a case. -/
@[simp] def skip (v : ParserVars) : ParserVars := { v with pointer := v.pointer + 1 }

/-- `buffer += t`. -/
@[simp] def append (v : ParserVars) (t : Text) : ParserVars := { v with buffer := v.buffer ++ t }

/-- `buffer = ''`. -/
@[simp] def clear (v : ParserVars) : ParserVars := { v with buffer := [] }

/-- `url.query = ''; state = 'query'`. -/
@[simp] def toQuery (v : ParserVars) : ParserVars :=
  { v with url := { v.url with query := some [] }, state := .query }

/-- `url.fragment = ''; state = 'fragment'`. -/
@[simp] def toFragment (v : ParserVars) : ParserVars :=
  { v with url := { v.url with fragment := some [] }, state := .fragment }

end ParserVars

/-- `cp[i]`. -/
def charAt (cp : Text) (i : Int) : Option Char := if 0 ≤ i then cp[i.toNat]? else none

/-- The end of the input, `/`, `?`, `#`, or a backslash in a special URL. -/
def endsAuthority (special : Bool) : Option Char → Bool
  | none => true
  | some c => c = '/' || c = '?' || c = '#' || (special && c = '\\')

/-- A slash, or a backslash in a special URL. -/
def isSlash (special : Bool) (c : Option Char) : Bool :=
  c = some '/' || (special && c = some '\\')

/-- What reading a property of `null` throws. -/
def readOfNull (property : String) : JsError :=
  ⟨"TypeError".toList, "cannot read property '".toList ++ property.toList ++ "' of null".toList⟩

namespace ParserInput

/-- `case 'scheme-start'`. -/
def schemeStart (x : ParserInput) (v : ParserVars) (c : Option Char) : Pass :=
  match c.filter isASCIIAlpha with
  | some c => .next ((v.append (x.native.toLowerCase [c])).goto .scheme)
  | none =>
    match x.stateOverride with
    | none => .next (v.goto .noScheme).back
    | some _ => .done v.url .null

/-- The characters of a scheme after the first. -/
def isSchemeChar (c : Char) : Bool := c.isAlphanum || c = '+' || c = '-' || c = '.'

/-- `url.scheme = buffer` and what follows it without a state override. -/
def schemeRead (x : ParserInput) (v : ParserVars) : ParserVars :=
  let v := { v with url := { v.url with scheme := v.buffer }, buffer := [] }
  if isFile v.url.scheme then v.goto .file
  else if isSpecial v.url && x.base.any (·.scheme = v.url.scheme) then
    v.goto .specialRelativeOrAuthority
  else if isSpecial v.url then v.goto .specialAuthoritySlashes
  else if charAt x.cp (v.pointer + 1) = some '/' then (v.goto .pathOrAuthority).skip
  else { v with url := { v.url with path := .text [] }, state := .opaquePath }

/-- The end of the scheme with a state override. -/
def schemeOverride (v : ParserVars) : Pass :=
  if isSpecial v.url ≠ isSpecialScheme v.buffer then .done v.url .record
  else if (includesCredentials v.url || v.url.port.isSome) && isFile v.buffer then
    .done v.url .record
  else if isFile v.url.scheme && (v.url.host = some (.text []) || v.url.host.isNone) then
    .done v.url .record
  else
    let url := { v.url with scheme := v.buffer }
    .done { url with port := if url.port = defaultPort url.scheme then none else url.port } .record

/-- `case 'scheme'`. -/
def scheme (x : ParserInput) (v : ParserVars) (c : Option Char) : Pass :=
  match c.filter isSchemeChar with
  | some c => .next (v.append (x.native.toLowerCase [c]))
  | none =>
    if c = some ':' then
      match x.stateOverride with
      | none => .next (x.schemeRead v)
      | some _ => schemeOverride v
    else
      match x.stateOverride with
      | none => .next { v with buffer := [], state := .noScheme, pointer := -1 }
      | some _ => .done v.url .null

/-- `case 'no-scheme'`. -/
def noScheme (x : ParserInput) (v : ParserVars) (c : Option Char) : Pass :=
  match x.base with
  | none => .done v.url .null
  | some base =>
    if base.opaquePath then
      if c = some '#' then
        let url := { v.url with scheme := base.scheme, path := base.path, query := base.query }
        .next { v with url }.toFragment
      else .done v.url .null
    else if !isFile base.scheme then .next (v.goto .relative).back
    else .next (v.goto .file).back

/-- `case 'special-relative-or-authority'`. -/
def specialRelativeOrAuthority (x : ParserInput) (v : ParserVars) (c : Option Char) : Pass :=
  if c = some '/' ∧ charAt x.cp (v.pointer + 1) = some '/' then
    .next (v.goto .specialAuthorityIgnoreSlashes).skip
  else .next (v.goto .relative).back

/-- `case 'path-or-authority'`. -/
def pathOrAuthority (v : ParserVars) (c : Option Char) : Pass :=
  if c = some '/' then .next (v.goto .authority) else .next (v.goto .path).back

/-- The authority of the base. -/
def inheritAuthority (url base : URLRecord) : URLRecord :=
  { url with
    username := base.username, password := base.password, host := base.host, port := base.port }

/-- What follows an inherited path: `pop` makes room for a relative path. -/
def afterInherited (v : ParserVars) (c : Option Char) (pop : UrlPath → UrlPath) : Pass :=
  if c = some '?' then .next v.toQuery
  else if c = some '#' then .next v.toFragment
  else if c.isSome then
    .next ({ v with url := { v.url with query := none, path := pop v.url.path } }.goto .path).back
  else .next v

/-- `case 'relative'`. -/
def relative (x : ParserInput) (v : ParserVars) (c : Option Char) : Pass :=
  match x.base with
  | none => .done v.url (.threw (readOfNull "scheme"))
  | some base =>
    let v := { v with url := { v.url with scheme := base.scheme } }
    if isSlash (isSpecial v.url) c then .next (v.goto .relativeSlash)
    else
      let url := { inheritAuthority v.url base with path := base.path, query := base.query }
      afterInherited { v with url } c (.modify List.dropLast)

/-- `case 'relative-slash'`. -/
def relativeSlash (x : ParserInput) (v : ParserVars) (c : Option Char) : Pass :=
  if isSpecial v.url && (c = some '/' || c = some '\\') then
    .next (v.goto .specialAuthorityIgnoreSlashes)
  else if c = some '/' then .next (v.goto .authority)
  else
    match x.base with
    | none => .done v.url (.threw (readOfNull "username"))
    | some base => .next ({ v with url := inheritAuthority v.url base }.goto .path).back

/-- `case 'special-authority-slashes'`. -/
def specialAuthoritySlashes (x : ParserInput) (v : ParserVars) (c : Option Char) : Pass :=
  if c = some '/' ∧ charAt x.cp (v.pointer + 1) = some '/' then
    .next (v.goto .specialAuthorityIgnoreSlashes).skip
  else .next (v.goto .specialAuthorityIgnoreSlashes).back

/-- `case 'special-authority-ignore-slashes'`. -/
def specialAuthorityIgnoreSlashes (v : ParserVars) (c : Option Char) : Pass :=
  if c ≠ some '/' ∧ c ≠ some '\\' then .next (v.goto .authority).back else .next v

/-- One character of the credentials. -/
def userinfoChar (v : ParserVars) (ch : Char) : ParserVars :=
  if ch = ':' ∧ v.passwordTokenSeen = false then { v with passwordTokenSeen := true }
  else
    let enc := utf8PercentEncode [ch] userinfoExtra
    if v.passwordTokenSeen then { v with url := { v.url with password := v.url.password ++ enc } }
    else { v with url := { v.url with username := v.url.username ++ enc } }

/-- `case 'authority'`. -/
def authority (v : ParserVars) (c : Option Char) : Pass :=
  if c = some '@' then
    let buffer := if v.atSignSeen then "%40".toList ++ v.buffer else v.buffer
    .next (buffer.foldl userinfoChar { v with atSignSeen := true }).clear
  else if endsAuthority (isSpecial v.url) c then
    if v.atSignSeen && v.buffer.isEmpty then .done v.url .null
    else
      .next { v with pointer := v.pointer - (v.buffer.length + 1), buffer := [], state := .host }
  else .next (v.append c.toList)

/-- `parseHost` of the buffer, with what follows when it succeeds. -/
def withHost (x : ParserInput) (v : ParserVars) (next : ParserVars → Host → Pass) : Pass :=
  match parseHost x.native v.buffer (isSpecial v.url) with
  | .error e => .done v.url (.threw e)
  | .ok none => .done v.url .null
  | .ok (some host) => next v host

/-- `url.host = host; buffer = ''`. -/
def setHost (v : ParserVars) (host : Host) : ParserVars :=
  { v with url := { v.url with host := some host }, buffer := [] }

/-- `case 'host'` and `case 'hostname'`. -/
def host (x : ParserInput) (v : ParserVars) (c : Option Char) : Pass :=
  if c = some ':' ∧ v.insideBrackets = false then
    if v.buffer = [] then .done v.url .null
    else if x.stateOverride = some .hostname then .done v.url .record
    else x.withHost v fun v host => .next ((setHost v host).goto .port)
  else if endsAuthority (isSpecial v.url) c then
    let v := v.back
    if isSpecial v.url && v.buffer.isEmpty then .done v.url .null
    else if x.stateOverride.isSome && v.buffer.isEmpty
        && (includesCredentials v.url || v.url.port.isSome) then .done v.url .record
    else
      x.withHost v fun v host =>
        let v := setHost v host
        if x.stateOverride.isSome then .done v.url .record else .next (v.goto .pathStart)
  else
    let brackets :=
      if c = some '[' then true else if c = some ']' then false else v.insideBrackets
    .next ({ v with insideBrackets := brackets }.append c.toList)

/-- `case 'port'`. -/
def port (x : ParserInput) (v : ParserVars) (c : Option Char) : Pass :=
  if c.any Char.isDigit then .next (v.append c.toList)
  else if endsAuthority (isSpecial v.url) c || x.stateOverride.isSome then
    if v.buffer ≠ [] ∧ parseInt 10 v.buffer > 65535 then .done v.url .null
    else
      let number := parseInt 10 v.buffer
      let url := { v.url with
        port := if some number = defaultPort v.url.scheme then none else some number }
      let v := if v.buffer = [] then v else { v with url, buffer := [] }
      if x.stateOverride.isSome then .done v.url .record else .next (v.goto .pathStart).back
  else .done v.url .null

/-- `case 'file'`. -/
def file (x : ParserInput) (v : ParserVars) (c : Option Char) : Pass :=
  let v := { v with url := { v.url with scheme := "file".toList, host := some (.text []) } }
  if c = some '/' ∨ c = some '\\' then .next (v.goto .fileSlash)
  else
    match x.base.filter fun base => isFile base.scheme with
    | some base =>
      let url := { v.url with host := base.host, path := base.path, query := base.query }
      let drive := startsWithWindowsDriveLetter (x.cp.drop v.pointer.toNat)
      afterInherited { v with url } c
        (.modify fun path => if drive then [] else shortenSegments "file".toList path)
    | none => .next (v.goto .path).back

/-- `case 'file-slash'`. -/
def fileSlash (x : ParserInput) (v : ParserVars) (c : Option Char) : Pass :=
  if c = some '/' ∨ c = some '\\' then .next (v.goto .fileHost)
  else
    match x.base.filter fun base => isFile base.scheme with
    | some base =>
      let drive := base.path.first.filter fun segment =>
        !startsWithWindowsDriveLetter (x.cp.drop v.pointer.toNat)
          && isNormalizedWindowsDriveLetter segment
      let url := { v.url with host := base.host, path := v.url.path.modify (· ++ drive.toList) }
      .next ({ v with url }.goto .path).back
    | none => .next (v.goto .path).back

/-- `case 'file-host'`. -/
def fileHost (x : ParserInput) (v : ParserVars) (c : Option Char) : Pass :=
  if endsAuthority true c then
    let v := v.back
    if x.stateOverride.isNone && isWindowsDriveLetter v.buffer then .next (v.goto .path)
    else if v.buffer = [] then
      let url := { v.url with host := some (.text []) }
      if x.stateOverride.isSome then .done url .record
      else .next ({ v with url }.goto .pathStart)
    else
      x.withHost v fun v host =>
        let host := if host = .text "localhost".toList then .text [] else host
        let v := setHost v host
        if x.stateOverride.isSome then .done v.url .record else .next (v.goto .pathStart)
  else .next (v.append c.toList)

/-- `case 'path-start'`. -/
def pathStart (x : ParserInput) (v : ParserVars) (c : Option Char) : Pass :=
  if isSpecial v.url then
    let v := v.goto .path
    .next (if c ≠ some '/' ∧ c ≠ some '\\' then v.back else v)
  else if x.stateOverride.isNone && c = some '?' then .next v.toQuery
  else if x.stateOverride.isNone && c = some '#' then .next v.toFragment
  else if c.isSome then
    let v := v.goto .path
    .next (if c ≠ some '/' then v.back else v)
  else if x.stateOverride.isSome && v.url.host.isNone then
    .next { v with url := { v.url with path := v.url.path.modify (· ++ [[]]) } }
  else .next v

/-- The path after a whole segment is in the buffer. -/
def pathSegment (x : ParserInput) (url : URLRecord) (buffer : Text) (slashish : Bool)
    (path : List Text) : List Text :=
  let trailing := if slashish then [] else [[]]
  if isDoubleDotSegment x.native buffer then shortenSegments url.scheme path ++ trailing
  else if isSingleDotSegment x.native buffer then path ++ trailing
  else if isFile url.scheme && path.isEmpty && isWindowsDriveLetter buffer then
    path ++ [buffer.take 1 ++ [':']]
  else path ++ [buffer]

/-- `case 'path'`. -/
def path (x : ParserInput) (v : ParserVars) (c : Option Char) : Pass :=
  let slashish := isSlash (isSpecial v.url) c
  if c = none ∨ slashish ∨ (x.stateOverride = none ∧ (c = some '?' ∨ c = some '#')) then
    let path := v.url.path.modify (x.pathSegment v.url v.buffer slashish)
    let v := { v with url := { v.url with path }, buffer := [] }
    if c = some '?' then .next v.toQuery
    else if c = some '#' then .next v.toFragment
    else .next v
  else .next (v.append (utf8PercentEncode c.toList pathExtra))

/-- `case 'opaque-path'`. -/
def opaquePath (v : ParserVars) (c : Option Char) : Pass :=
  if c = some '?' then .next v.toQuery
  else if c = some '#' then .next v.toFragment
  else
    match v.url.path with
    | .text path =>
      let path := path ++ utf8PercentEncode c.toList c0Extra
      .next { v with url := { v.url with path := .text path } }
    | .segments _ => .next v

/-- The encode set of a query. -/
def querySet (url : URLRecord) : List Nat :=
  if isSpecial url then specialQueryExtra else queryExtra

/-- `case 'query'`. -/
def query (x : ParserInput) (v : ParserVars) (c : Option Char) : Pass :=
  if c = none ∨ (x.stateOverride = none ∧ c = some '#') then
    let query := v.url.query.map (· ++ utf8PercentEncode v.buffer (querySet v.url))
    let v := { v with url := { v.url with query }, buffer := [] }
    if c = some '#' then .next v.toFragment else .next v
  else .next (v.append c.toList)

/-- `case 'fragment'`. -/
def fragment (v : ParserVars) (c : Option Char) : Pass :=
  let fragment := v.url.fragment.map (· ++ utf8PercentEncode c.toList fragmentExtra)
  .next { v with url := { v.url with fragment } }

/-- The `switch`. -/
def pass (x : ParserInput) (v : ParserVars) : Pass :=
  let c := charAt x.cp v.pointer
  match v.state with
  | .schemeStart => x.schemeStart v c
  | .scheme => x.scheme v c
  | .noScheme => x.noScheme v c
  | .specialRelativeOrAuthority => x.specialRelativeOrAuthority v c
  | .pathOrAuthority => pathOrAuthority v c
  | .relative => x.relative v c
  | .relativeSlash => x.relativeSlash v c
  | .specialAuthoritySlashes => x.specialAuthoritySlashes v c
  | .specialAuthorityIgnoreSlashes => specialAuthorityIgnoreSlashes v c
  | .authority => authority v c
  | .host | .hostname => x.host v c
  | .port => x.port v c
  | .file => x.file v c
  | .fileSlash => x.fileSlash v c
  | .fileHost => x.fileHost v c
  | .pathStart => x.pathStart v c
  | .path => x.path v c
  | .opaquePath => opaquePath v c
  | .query => x.query v c
  | .fragment => fragment v c

/-- The loop: at most `fuel` passes. -/
def run (x : ParserInput) : Nat → ParserVars → Option (URLRecord × ParseEnd)
  | 0, _ => none
  | fuel + 1, v =>
    match x.pass v with
    | .done url ended => some (url, ended)
    | .next v =>
      if v.pointer + 1 > x.cp.length then some (v.url, .record)
      else x.run fuel { v with pointer := v.pointer + 1 }

end ParserInput

/-- `input` after the two replacements at the start. -/
def preprocess (input : Text) : Text :=
  (strip (·.toNat ≤ 0x20) input).filter fun c => c ≠ '\t' && c ≠ '\n' && c ≠ '\r'

/-- The local variables before the loop. -/
def initialVars (url : URLRecord) (stateOverride : Option ParserState) : ParserVars :=
  ⟨url, stateOverride.getD .schemeStart, [], false, false, false, 0⟩

/-- More passes than the loop can take. -/
def passBound (cp : Text) : Nat := 16 * (cp.length + 2)

/-- `basicURLParse`: the record it leaves, which is also what it returns unless it ends with
`null` or an exception. -/
def basicURLParse (native : Native) (input : Text) (base : Option URLRecord) (url : URLRecord)
    (stateOverride : Option ParserState) : Option (URLRecord × ParseEnd) :=
  let x : ParserInput := ⟨native, preprocess input, base, stateOverride⟩
  x.run (passBound x.cp) (initialVars url stateOverride)

/-- `basicURLParse` of a string and a base alone. -/
def parseURL (native : Native) (input : Text) (base : Option URLRecord) :
    Option (URLRecord × ParseEnd) := basicURLParse native input base newURLRecord none

/-- `serializePath`. -/
def serializePath (url : URLRecord) : Text :=
  match url.path with
  | .text path => path
  | .segments path => path.flatMap ('/' :: ·)

/-- The authority with its slashes. -/
def serializeAuthority (native : Native) (url : URLRecord) (host : Host) : Text :=
  let password := if url.password ≠ [] then ':' :: url.password else []
  let credentials := if includesCredentials url then url.username ++ password ++ ['@'] else []
  "//".toList ++ credentials ++ serializeHost native host
    ++ (url.port.map fun port => ':' :: decimal port).getD []

/-- `/.`, before a path without a host that would start with `//`. -/
def pathGuard (url : URLRecord) : Text :=
  match url.host, url.path with
  | none, .segments ([] :: _ :: _) => "/.".toList
  | _, _ => []

/-- `serializeURL`. -/
def serializeURL (native : Native) (url : URLRecord) (excludeFragment : Bool) : Text :=
  url.scheme ++ ':' :: (url.host.map (serializeAuthority native url)).getD []
    ++ pathGuard url ++ serializePath url
    ++ (url.query.map ('?' :: ·)).getD []
    ++ (if excludeFragment then [] else (url.fragment.map ('#' :: ·)).getD [])

end QjsLws.Url
