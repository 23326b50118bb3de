import QjsLws.Http.ServerResponse

/-!
# Websocket upgrades through `server.upgrade()`

Model of `serve.js`: `upgradeConnection`, the hook of `makeUpgradeHook` with `requestFromWsi`,
`toResponse` and `syncResponseBytes`, and the lookup of `wsUpgradeData` when a socket opens; and
of what `lwsjs_callback_protocol` (`lws-protocol.c`) makes of the hook's result. A `Request` is
known by its number, a wsi object by its own; `δ` is the type of `options.data`.
-/

namespace QjsLws.Serve

open QjsLws.Misc QjsLws.Http

/-- The body argument of `new Response`. `object` has an `arrayBuffer` method, `invalid` is any
value `Body` refuses, with its `typeof`. -/
inductive BodyInit where
  | none
  | string (text : Text)
  | arrayBuffer (bytes : List UInt8)
  | view (bytes : List UInt8)
  | object
  | stream
  | invalid (type : Text)
  deriving DecidableEq, Repr

/-- A `Response`, as far as a rejected upgrade uses it. -/
structure Response where
  statusCode : Int
  headers : Headers
  body : BodyInit
  deriving DecidableEq

/-- `new Response(body, { status, headers })`; `headers` is what `new Headers` throws or gives. -/
def newResponse (body : BodyInit) (status : Option Int) (headers : Except JsError Headers) :
    Except JsError Response :=
  match body with
  | .invalid type =>
    .error ⟨"TypeError".toList, "Body.constructor: bad body: ".toList ++ type⟩
  | _ =>
    let status := status.getD 200
    if status ≠ 0 ∧ (status < 200 ∨ status > 599) then
      .error ⟨"RangeError".toList, "The status provided (".toList ++ (toString status).toList ++
        ") is outside the range [200, 599].".toList⟩
    else headers.map fun headers => ⟨status, headers, body⟩

/-- How the fetch handler ends. `value` is any other value, with the `body`, `status` and
`headers` properties it has. -/
inductive HandlerResult where
  | throws (e : JsError)
  | nullish
  | promise
  | response (response : Response)
  | value (body : BodyInit) (status : Option Int) (headers : Except JsError Headers)

/-- `toResponse`. -/
def toResponse : HandlerResult → Except JsError Response
  | .response response => .ok response
  | .value body status headers => newResponse body status headers
  | _ => newResponse .none (some 404) (.ok .empty)

/-- `syncResponseBytes`. -/
def syncResponseBytes (response : Response) : Option Chunk :=
  match response.body with
  | .none => some (.arrayBuffer [])
  | .string text => some (.arrayBuffer (utf8 text))
  | .arrayBuffer bytes => some (.arrayBuffer bytes)
  | .view bytes => some (.view bytes)
  | .object | .stream | .invalid _ => none

/-- The pairs that `Headers.forEach` visits. -/
def headerPairs (h : Headers) : List (Text × Text) :=
  h.map.entries.flatMap fun (name, value) =>
    match value with
    | .single value => [(name, value)]
    | .list values => values.map (name, ·)

/-- `response.headers.forEach((value, name) => resp.append(name, value))`. -/
def appendAll : List (Text × Text) → ServerResponse → ResponseOutcome
  | [], s => .done s
  | (name, value) :: rest, s => (s.append name value).andThen (appendAll rest)

/-- The rejection written at the end of the hook. -/
def reject (io : Wsi) (response : Response) (bytes : Chunk) : ResponseOutcome :=
  (ServerResponse.fresh.setStatus response.statusCode).andThen fun s =>
  (appendAll (headerPairs response.headers) s).andThen fun s =>
  s.end io (some bytes)

variable {δ : Type}

/-- `pending` of the hook. -/
structure Pending (δ : Type) where
  request : Nat
  accepted : Bool
  data : Option δ
  decided : Bool
  deriving DecidableEq

/-- `upgradeConnection`, on the slot `pendingUpgrade`. -/
def upgradeConnection (slot : Option (Pending δ)) (request : Nat) (data : δ) :
    Option (Pending δ) × Bool :=
  match slot with
  | none => (none, false)
  | some pending =>
    if pending.request ≠ request || pending.decided then (some pending, false)
    else (some { pending with accepted := true, data := some data, decided := true }, true)

/-- A call of `server.upgrade(request, { data })` and the answer it got. -/
structure UpgradeCall (δ : Type) where
  request : Nat
  data : δ
  answer : Bool
  deriving DecidableEq

/-- The calls of `server.upgrade` that one handler makes before it returns. -/
def upgradeCalls (slot : Option (Pending δ)) :
    List (Nat × δ) → Option (Pending δ) × List (UpgradeCall δ)
  | [] => (slot, [])
  | (request, data) :: rest =>
    let (next, answer) := upgradeConnection slot request data
    let (last, calls) := upgradeCalls next rest
    (last, ⟨request, data, answer⟩ :: calls)

/-- What one confirm-upgrade callback meets: what `wsi.peer` throws in `requestFromWsi`, the
calls and the end of the fetch handler, the wsi as the rejection finds it, and the flags
`s->closed` and `s->completed` when the hook is done. -/
structure Confirm (δ : Type) where
  wsi : Nat
  peerThrows : Option JsError
  calls : List (Nat × δ)
  result : HandlerResult
  io : Wsi
  closed : Bool
  completed : Bool

/-- A finished callback: the number of its `Request`, the upgrade calls its handler made, and
the code returned to libwebsockets. -/
structure CallbackRecord (δ : Type) where
  wsi : Nat
  request : Nat
  calls : List (UpgradeCall δ)
  code : Int
  deriving DecidableEq

/-- What happened: callbacks, calls of `server.upgrade` outside every hook, opened sockets with
the `ws.data` they got. -/
inductive UpgradeEvent (δ : Type) where
  | callback (record : CallbackRecord δ)
  | late (request : Nat) (answer : Bool)
  | opened (wsi : Nat) (data : Option δ)
  deriving DecidableEq

/-- `pendingUpgrade`, `wsUpgradeData`, the number of the next `Request`, and the wsis whose
upgrade libwebsockets was told to go on with. -/
structure UpgradeState (δ : Type) where
  pendingUpgrade : Option (Pending δ)
  wsUpgradeData : Assoc Nat δ
  nextRequest : Nat
  accepted : List Nat
  log : List (UpgradeEvent δ)

/-- A server without connections. -/
def UpgradeState.fresh : UpgradeState δ := ⟨none, .empty, 0, [], []⟩

/-- The hook after the fetch handler returned without an accepted upgrade. -/
def rejectHook (c : Confirm δ) : Except JsError Int :=
  match c.result with
  | .throws e => .error e
  | .promise => .ok (-1)
  | result =>
    match toResponse result with
    | .error e => .error e
    | .ok response =>
      match syncResponseBytes response with
      | none => .ok (-1)
      | some bytes =>
        match (reject c.io response bytes).thrown with
        | some e => .error e
        | none => .ok 1

/-- The hook of `makeUpgradeHook` for a websocket upgrade: what it returns or throws, the calls
its handler made, and the data it stored for the wsi. -/
def upgradeHook (request : Nat) (c : Confirm δ) :
    Except JsError Int × List (UpgradeCall δ) × Option δ :=
  match c.peerThrows with
  | some e => (.error e, [], none)
  | none =>
    let (slot, calls) := upgradeCalls (some ⟨request, false, none, false⟩) c.calls
    match slot, c.result with
    | _, .throws e => (.error e, calls, none)
    | some ⟨_, true, data, _⟩, _ => (.ok 0, calls, data)
    | _, _ => (rejectHook c, calls, none)

/-- The result handling of `lwsjs_callback_protocol`: `JS_ToInt32` of an exception stores 0. -/
def callbackCode (closed completed : Bool) (result : Except JsError Int) : Int :=
  let code := match result with | .ok n => n | .error _ => 0
  if closed || completed then -1 else code

/-- What can happen to the server. -/
inductive UpgradeInput (δ : Type) where
  | confirm (c : Confirm δ)
  | late (request : Nat) (data : δ)
  | opened (wsi : Nat)

/-- One event. Libwebsockets opens a socket only for a wsi whose callback returned 0. -/
def upgradeStep (s : UpgradeState δ) : UpgradeInput δ → UpgradeState δ
  | .confirm c =>
    let (result, calls, stored) := upgradeHook s.nextRequest c
    let code := callbackCode c.closed c.completed result
    { pendingUpgrade := none
      wsUpgradeData := match stored with
        | some data => s.wsUpgradeData.set c.wsi data
        | none => s.wsUpgradeData
      nextRequest := s.nextRequest + 1
      accepted := if code = 0 then c.wsi :: s.accepted else s.accepted.filter (· ≠ c.wsi)
      log := s.log ++ [.callback ⟨c.wsi, s.nextRequest, calls, code⟩] }
  | .late request data =>
    let (slot, answer) := upgradeConnection s.pendingUpgrade request data
    { s with pendingUpgrade := slot, log := s.log ++ [.late request answer] }
  | .opened wsi =>
    if wsi ∈ s.accepted then
      { s with
        wsUpgradeData := s.wsUpgradeData.erase wsi
        accepted := s.accepted.filter (· ≠ wsi)
        log := s.log ++ [.opened wsi (s.wsUpgradeData.get wsi)] }
    else s

end QjsLws.Serve
