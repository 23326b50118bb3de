import QjsLws.Misc.Outcome
import QjsLws.Url.Parser
import QjsLws.Url.SearchParams

/-!
# The `URL` class

Its constructor, its setters and the operations of its `searchParams` (`lib/lws/url.js`). What an
operation did before it threw stays done.
-/

namespace QjsLws.Url

open QjsLws.Misc

/-- A `URL` object and its `searchParams`. -/
structure UrlObject where
  record : URLRecord
  list : List Param
  deriving DecidableEq, Repr

/-- `cannotHaveUsernamePasswordPort`. -/
def cannotHaveUsernamePasswordPort (url : URLRecord) : Bool :=
  url.host.isNone || url.host = some (.text []) || isFile url.scheme

/-- `basicURLParse` with what it leaves in `url`. The loop always ends, so the default is never
taken. -/
def parseInto (native : Native) (input : Text) (base : Option URLRecord) (url : URLRecord)
    (stateOverride : Option ParserState) : URLRecord × ParseEnd :=
  (basicURLParse native input base url stateOverride).getD (url, .null)

/-- `TypeError` with a text and the value it is about. -/
def invalidURL (text : String) (value : Text) : JsError :=
  ⟨"TypeError".toList, text.toList ++ value⟩

/-- `basicURLParse` where `null` is an error. -/
def parseOrThrow (native : Native) (text : String) (value : Text) (base : Option URLRecord) :
    Except JsError URLRecord :=
  match parseInto native value base newURLRecord none with
  | (url, .record) => .ok url
  | (_, .null) => .error (invalidURL text value)
  | (_, .threw e) => .error e

/-- The pairs of a query; none without a query. -/
def queryList : Option Text → Except JsError (List Param)
  | some query => parseFormURLEncoded query
  | none => .ok []

/-- `new URL(url, base)`. -/
def newURL (native : Native) (url : Text) (base : Option Text) : Except JsError UrlObject := do
  let parsedBase ← base.mapM fun base => parseOrThrow native "Invalid base URL: " base none
  let record ← parseOrThrow native "Invalid URL: " url parsedBase
  let list ← queryList record.query
  pure ⟨record, list⟩

namespace UrlObject

variable (native : Native)

/-- Gives `searchParams` the pairs of the query. -/
def loadList (o : UrlObject) : Outcome JsError UrlObject :=
  match queryList o.record.query with
  | .ok list => .done { o with list }
  | .error e => .threw e o

/-- Runs the parser on the record from a state on. `null` is not looked at. -/
def override (o : UrlObject) (value : Text) (state : ParserState) : Outcome JsError UrlObject :=
  match parseInto native value none o.record (some state) with
  | (record, .threw e) => .threw e { o with record }
  | (record, _) => .done { o with record }

/-- `set href`. -/
def setHref (o : UrlObject) (value : Text) : Outcome JsError UrlObject :=
  match parseOrThrow native "Invalid URL: " value none with
  | .ok record => { o with record }.loadList
  | .error e => .threw e o

/-- `set protocol`. -/
def setProtocol (o : UrlObject) (value : Text) : Outcome JsError UrlObject :=
  o.override native (value ++ [':']) .schemeStart

/-- `set username`. -/
def setUsername (o : UrlObject) (value : Text) : Outcome JsError UrlObject :=
  if cannotHaveUsernamePasswordPort o.record then .done o
  else .done { o with record.username := utf8PercentEncode value userinfoExtra }

/-- `set password`. -/
def setPassword (o : UrlObject) (value : Text) : Outcome JsError UrlObject :=
  if cannotHaveUsernamePasswordPort o.record then .done o
  else .done { o with record.password := utf8PercentEncode value userinfoExtra }

/-- `set host`. -/
def setHost (o : UrlObject) (value : Text) : Outcome JsError UrlObject :=
  if o.record.opaquePath then .done o else o.override native value .host

/-- `set hostname`. -/
def setHostname (o : UrlObject) (value : Text) : Outcome JsError UrlObject :=
  if o.record.opaquePath then .done o else o.override native value .hostname

/-- `set port`. -/
def setPort (o : UrlObject) (value : Text) : Outcome JsError UrlObject :=
  if cannotHaveUsernamePasswordPort o.record then .done o
  else if value = [] then .done { o with record.port := none }
  else o.override native value .port

/-- `set pathname`. -/
def setPathname (o : UrlObject) (value : Text) : Outcome JsError UrlObject :=
  if o.record.opaquePath then .done o
  else { o with record.path := .segments [] }.override native value .pathStart

/-- `s[0] === mark ? s.slice(1) : s`. -/
def withoutMark (mark : Char) (s : Text) : Text := if s.head? = some mark then s.tail else s

/-- `set search`. -/
def setSearch (o : UrlObject) (value : Text) : Outcome JsError UrlObject :=
  if value = [] then .done { o with record.query := none, list := [] }
  else
    ({ o with record.query := some [] }.override native (withoutMark '?' value) .query).andThen
      loadList

/-- `set hash`. -/
def setHash (o : UrlObject) (value : Text) : Outcome JsError UrlObject :=
  if value = [] then .done { o with record.fragment := none }
  else { o with record.fragment := some [] }.override native (withoutMark '#' value) .fragment

/-- `#update`, after the list was changed. -/
def update (o : UrlObject) (list : List Param) : UrlObject :=
  let s := serializeFormURLEncoded list
  { o with record.query := if s = [] then none else some s, list }

/-- A call on `searchParams`. -/
inductive ParamsOp where
  | append (name value : Text)
  | delete (name : Text) (value : Option Text)
  | set (name value : Text)
  | sort
  deriving DecidableEq, Repr

/-- What the call makes of the list. -/
def ParamsOp.apply (list : List Param) : ParamsOp → List Param
  | .append name value => SearchParams.append list name value
  | .delete name value => SearchParams.delete list name value
  | .set name value => SearchParams.set list name value
  | .sort => SearchParams.sort list

/-- An assignment to a property, or a call on `searchParams`. -/
inductive Op where
  | href (value : Text)
  | protocol (value : Text)
  | username (value : Text)
  | password (value : Text)
  | host (value : Text)
  | hostname (value : Text)
  | port (value : Text)
  | pathname (value : Text)
  | search (value : Text)
  | hash (value : Text)
  | searchParams (call : ParamsOp)
  deriving DecidableEq, Repr

/-- One operation. -/
def apply (o : UrlObject) : Op → Outcome JsError UrlObject
  | .href value => o.setHref native value
  | .protocol value => o.setProtocol native value
  | .username value => o.setUsername value
  | .password value => o.setPassword value
  | .host value => o.setHost native value
  | .hostname value => o.setHostname native value
  | .port value => o.setPort native value
  | .pathname value => o.setPathname native value
  | .search value => o.setSearch native value
  | .hash value => o.setHash native value
  | .searchParams call => .done (o.update (call.apply o.list))

/-- The object after an operation, also where the caller catches what it threw. -/
def step (o : UrlObject) (op : Op) : UrlObject := (o.apply native op).state

end UrlObject

end QjsLws.Url
