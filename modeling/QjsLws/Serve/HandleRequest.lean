import QjsLws.App.Path
import QjsLws.Serve.Upgrade

/-!
# One request of `serve()`

Model of `handleRequest`, `matchRoute`, `toResponse`, `flush` and `respond` of `serve.js` for a
server with a fetch handler. The table is given compiled. The asynchronous function `respond`
is an `Exchange`: it goes on when what it awaits has settled, and the connection may close at any
time in between.
-/

namespace QjsLws.Serve

open QjsLws.App QjsLws.Http QjsLws.Misc

/-! ## What handlers do -/

/-- A thrown value: an error of the code, or a value of the handler with what
`String(e?.stack ?? e)` gives for it (`none` where this throws as well). -/
inductive Thrown where
  | error (e : JsError)
  | value (text : Option Text)
  deriving DecidableEq, Repr

/-- `String(e?.stack ?? e)`; `stack` is the text of an error's stack. -/
def Thrown.text (stack : JsError → Text) : Thrown → Option Text
  | .error e => some (stack e)
  | .value text => text

/-- What the reader of a body gets: chunks (`none` is `null` or `undefined`), then the end or an
error. -/
structure BodyStream where
  chunks : List (Option Chunk)
  error : Option Thrown
  deriving DecidableEq, Repr

/-- A `Headers` object. -/
abbrev ValidHeaders := { h : Headers // h.Valid }

/-- A `Response`, with what reading its body gives. -/
structure Reply where
  statusCode : Int
  headers : ValidHeaders
  body : Option BodyStream

/-- The body that the constructor of `Body` builds; `read` is what a stream gives, or an object
through its `arrayBuffer` method. -/
def streamOf (read : BodyStream) : BodyInit → Option BodyStream
  | .none | .invalid _ => none
  | .string text => some ⟨[some (.string text)], none⟩
  | .arrayBuffer bytes | .view bytes => some ⟨[some (.arrayBuffer bytes)], none⟩
  | .object | .stream => some read

theorem valid_newResponse {body : BodyInit} {status : Option Int}
    {headers : Except JsError ValidHeaders} {response : Response}
    (made : newResponse body status (headers.map Subtype.val) = .ok response) :
    response.headers.Valid := by
  unfold newResponse at made
  split at made
  · cases made
  · dsimp only at made
    split at made
    · cases made
    · cases headers with
      | error e => cases made
      | ok h =>
        obtain rfl := Except.ok.inj made
        exact h.2

/-- `new Response(body, { status, headers })`. -/
def newReply (body : BodyInit) (status : Option Int) (headers : Except JsError ValidHeaders)
    (read : BodyStream) : Except JsError Reply :=
  match made : newResponse body status (headers.map Subtype.val) with
  | .error e => .error e
  | .ok response =>
    .ok ⟨response.statusCode, ⟨response.headers, valid_newResponse made⟩, streamOf read response.body⟩

/-- What a handler's promise is fulfilled with. `value` is any other value, with the `body`,
`status` and `headers` it has; `unreadable` is one whose properties throw when they are read. -/
inductive Resolved where
  | nullish
  | response (reply : Reply)
  | value (body : BodyInit) (status : Option Int) (headers : Except JsError ValidHeaders)
      (read : BodyStream)
  | unreadable (e : Thrown)

/-- A body that is never read. -/
def BodyStream.empty : BodyStream := ⟨[], none⟩

/-- `toResponse`. -/
def Resolved.toResponse : Resolved → Except Thrown Reply
  | .nullish =>
    (newReply .none (some 404) (.ok ⟨.empty, Headers.valid_empty⟩) .empty).mapError .error
  | .response reply => .ok reply
  | .value body status headers read => (newReply body status headers read).mapError .error
  | .unreadable e => .error e

/-- How the promise of a handler settles. -/
abbrev Settled := Except Thrown Resolved

/-- The `Request` a handler is called with. -/
structure Request where
  method : Text
  path : Text
  params : Option (Assoc Text Text)

/-- How the call of a handler ends. -/
inductive HandlerCall where
  | throws (e : Thrown)
  | returns (settled : Settled)

/-- What stands where a handler is expected. -/
inductive Handler where
  | function (call : Request → HandlerCall)
  | notFunction

/-! ## Routes -/

/-- An entry of `methods`: `null` or `undefined`, another falsy value, or a truthy one. -/
inductive MethodEntry where
  | nullish
  | falsy
  | handler (h : Handler)

/-- What a route does: one handler for every method, or one each. -/
inductive RouteAction where
  | handler (h : Handler)
  | methods (table : Assoc Text MethodEntry)

/-- A compiled route. -/
structure Route where
  regex : PathRegex
  keys : List Text
  action : RouteAction

/-- What `matchRoute` found. -/
inductive RouteMatch where
  | handler (params : Assoc Text Text) (h : Handler)
  | allow (names : List Text)

/-- `params[keys[i]] = decodeURIComponent(m[i + 1])`; `none` is the `URIError`. -/
def decodeParams : List (Text × Text) → Assoc Text Text → Option (Assoc Text Text)
  | [], params => some params
  | (key, value) :: rest, params =>
    (decodeURIComponent value).bind fun decoded => decodeParams rest (params.set key decoded)

/-- `route.methods[method] ?? (method === 'HEAD' ? route.methods.GET : undefined)`. -/
def methodEntry (table : Assoc Text MethodEntry) (method : Text) : MethodEntry :=
  match (table.get method).getD .nullish with
  | .nullish =>
    if method = "HEAD".toList then (table.get "GET".toList).getD .nullish else .nullish
  | entry => entry

/-- The match of a route whose pattern fits. -/
def Route.found (route : Route) (method : Text) (params : Assoc Text Text) : RouteMatch :=
  match route.action with
  | .handler h => .handler params h
  | .methods table =>
    match methodEntry table method with
    | .handler h => .handler params h
    | .nullish | .falsy => .allow table.keys

/-- `matchRoute`; the outer `none` is the `URIError`. -/
def matchRoute (path method : Text) : List Route → Option (Option RouteMatch)
  | [] => some none
  | route :: rest =>
    match route.regex.exec path with
    | none => matchRoute path method rest
    | some captured =>
      (decodeParams (route.keys.zip captured) .empty).map fun params =>
        some (route.found method params)

/-! ## `handleRequest` -/

/-- The `ServerRequest`; `peerThrows` is what `wsi.peer` throws in `toRequest`. -/
structure ServerRequest where
  method : Text
  path : Text
  peerThrows : Option JsError

/-- What reaches the native callback. -/
inductive Uncaught where
  | uriError
  | thrown (e : Thrown)

/-- The call of a handler with `toRequest(req)`. -/
def callHandler (req : ServerRequest) (params : Option (Assoc Text Text)) (h : Handler) :
    Except Uncaught Settled :=
  match req.peerThrows with
  | some e => .error (.thrown (.error e))
  | none =>
    match h with
    | .notFunction => .error (.thrown (.error ⟨"TypeError".toList, "not a function".toList⟩))
    | .function call =>
      match call ⟨req.method, req.path, params⟩ with
      | .throws e => .error (.thrown e)
      | .returns settled => .ok settled

/-- `new Headers({ allow })`, which leaves out what it cannot append. -/
def allowHeaders (allow : Text) : ValidHeaders :=
  match made : Headers.empty.append "allow".toList allow with
  | .ok h => ⟨h, Headers.valid_empty.append made⟩
  | .error _ => ⟨.empty, Headers.valid_empty⟩

/-- What `handleRequest` passes to `respond`. -/
def dispatch (table : List Route) (fetchHandler : Handler) (req : ServerRequest) :
    Except Uncaught Settled :=
  match matchRoute req.path req.method table with
  | none => .error .uriError
  | some (some (.allow names)) =>
    match newReply .none (some 405) (.ok (allowHeaders (join ", ".toList names))) .empty with
    | .error e => .error (.thrown (.error e))
    | .ok reply => .ok (.ok (.response reply))
  | some (some (.handler params h)) => callHandler req (some params) h
  | some none => callHandler req none fetchHandler

/-- Where `respond` stands: at `await response`, in the loop of a `flush` (`guarded` inside the
`try`), or with its promise settled. -/
inductive Task where
  | awaiting (settled : Settled)
  | streaming (body : BodyStream) (guarded : Bool)
  | fulfilled
  | rejected

/-- Whether `respond` has settled. -/
def Task.isSettled : Task → Bool
  | .fulfilled | .rejected => true
  | _ => false

/-- A call of `respond`, with its `ServerResponse` and whether the connection has closed. -/
structure Exchange where
  resp : ServerResponse
  closed : Bool
  task : Task

/-- `handleRequest`. -/
def handleRequest (table : List Route) (fetchHandler : Handler) (req : ServerRequest) :
    Except Uncaught Exchange :=
  (dispatch table fetchHandler req).map fun settled => ⟨.fresh, false, .awaiting settled⟩

/-! ## `respond` -/

/-- What `wsi.respond` throws for the headers of this exchange, and the text of an error's
stack. -/
structure Env where
  respondThrows : Option JsError
  stack : JsError → Text

theorem valid_textPlain :
    Headers.Valid ⟨Assoc.empty.set contentType (.single "text/plain".toList)⟩ := by
  apply Headers.valid_empty.set (by rfl)
  exact ⟨by decide, forall_mem_of_all (P := fun c => isForbiddenInValue c = false) (by decide)⟩

/-- The response of the `catch` in `respond`. -/
def errorReply (text : Text) : Reply :=
  ⟨500, ⟨⟨Assoc.empty.set contentType (.single "text/plain".toList)⟩, valid_textPlain⟩,
    streamOf .empty (.string text)⟩

/-- `flush` up to the body. -/
def flushHead (reply : Reply) (resp : ServerResponse) : ResponseOutcome :=
  (resp.setStatus reply.statusCode).andThen (appendAll (headerPairs reply.headers.1))

namespace Exchange

/-- The wsi behind the `ServerResponse`. -/
def wsi (env : Env) (x : Exchange) : Wsi := ⟨fun _ => !x.closed, fun _ => env.respondThrows⟩

/-- Goes on after a call on the `ServerResponse`. -/
def after (x : Exchange) (outcome : ResponseOutcome) (raise : Thrown → Exchange → Exchange)
    (next : Exchange → Exchange) : Exchange :=
  match outcome.thrown with
  | some e => raise (.error e) { x with resp := outcome.state }
  | none => next { x with resp := outcome.state }

/-- An exception that nothing catches. -/
def reject (x : Exchange) : Exchange := { x with task := .rejected }

/-- `resp.end()` at the end of `flush`. -/
def finish (env : Env) (raise : Thrown → Exchange → Exchange) (x : Exchange) : Exchange :=
  x.after (x.resp.end (x.wsi env) none) raise fun x => { x with task := .fulfilled }

/-- `flush` up to its first `await`. -/
def flush (env : Env) (reply : Reply) (guarded : Bool) (raise : Thrown → Exchange → Exchange)
    (x : Exchange) : Exchange :=
  x.after (flushHead reply x.resp) raise fun x =>
    match reply.body with
    | none => x.finish env raise
    | some body => { x with task := .streaming body guarded }

/-- The `catch` of `respond`. -/
def handle (env : Env) (e : Thrown) (x : Exchange) : Exchange :=
  if x.resp.headersSent then { x with task := .fulfilled }
  else
    match e.text env.stack with
    | none => x.reject
    | some text => x.flush env (errorReply text) false fun _ => reject

/-- Where an exception of `flush` goes. -/
def raise (env : Env) (guarded : Bool) (e : Thrown) (x : Exchange) : Exchange :=
  if guarded then x.handle env e else x.reject

/-- `respond` goes on: what it awaits has settled. -/
def resume (env : Env) (x : Exchange) : Exchange :=
  match x.task with
  | .awaiting (.error e) => x.handle env e
  | .awaiting (.ok value) =>
    match value.toResponse with
    | .error e => x.handle env e
    | .ok reply => x.flush env reply true (handle env)
  | .streaming ⟨[], none⟩ guarded => x.finish env (raise env guarded)
  | .streaming ⟨[], some e⟩ guarded => x.raise env guarded e
  | .streaming ⟨chunk :: chunks, error⟩ guarded =>
    x.after (x.resp.write (x.wsi env) chunk) (raise env guarded) fun x =>
      { x with task := .streaming ⟨chunks, error⟩ guarded }
  | .fulfilled | .rejected => x

end Exchange

/-- What can happen to an exchange. -/
inductive ExchangeEvent where
  | settles
  | closes

/-- One event. -/
def Exchange.step (env : Env) (x : Exchange) : ExchangeEvent → Exchange
  | .settles => x.resume env
  | .closes => { x with closed := true }

end QjsLws.Serve
