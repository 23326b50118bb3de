import QjsLws.Misc.Assoc
import QjsLws.Misc.Number
import QjsLws.Misc.Outcome
import QjsLws.Misc.Run

/-!
# `HttpProtocol`

The server role of `lib/lws/protocols.js` gives every request of a connection a body stream and
routes the body callbacks of the wsi onto it. `#requests` is written only for a request with a body
and cleared only when the connection closes. Requests are named by the order of their `onHttp`. The
`post` option, which replaces the two body callbacks, is not used.
-/

namespace QjsLws.Protocol

open QjsLws.Misc

/-- The request headers that decide about the body. -/
structure BodyHeaders where
  contentLength : Option Text
  transferEncoding : Option Text
  contentType : Option Text
  deriving DecidableEq, Repr

/-- `/word/i.test(t)` for a word of lower case letters. -/
def containsWord (word t : Text) : Bool := t.tails.any fun rest => word.isPrefixOf (asciiLower rest)

/-- `hasBody`. -/
def hasBody (headers : BodyHeaders) : Bool :=
  headers.contentLength.any (fun cl => (readNumber cl).isPositive) ||
    containsWord "chunked".toList (headers.transferEncoding.getD [])

/-- `isMultipart`. -/
def isMultipart (headers : BodyHeaders) : Bool :=
  "multipart/form-data".toList.isPrefixOf (asciiLower (headers.contentType.getD []))

/-- A stream of `readableStreamSink()`: what was enqueued, and whether it was closed. -/
structure SinkStream where
  chunks : List (List UInt8)
  closed : Bool
  deriving DecidableEq, Repr

namespace SinkStream

/-- The exception of a controller whose stream is closed. -/
def stateError (action : String) : JsError :=
  ⟨"TypeError".toList, "The stream is not in a state that permits ".toList ++ action.toList⟩

/-- `write`. -/
def write (chunk : List UInt8) (b : SinkStream) : Outcome JsError SinkStream :=
  if b.closed then .threw (stateError "enqueue") b
  else .done { b with chunks := b.chunks ++ [chunk] }

/-- `close`. -/
def close (b : SinkStream) : Outcome JsError SinkStream :=
  if b.closed then .threw (stateError "close") b else .done { b with closed := true }

end SinkStream

/-- `#requests`, the bodies of all requests so far, the requests that `#fn` was called with, and
one entry in `closings` for every call of `_closeBody`. -/
structure HttpProtocol where
  requests : Assoc Nat Nat
  bodies : List SinkStream
  handled : List Nat
  closings : List Nat
  deriving DecidableEq

namespace HttpProtocol

/-- No request so far. -/
def start : HttpProtocol := ⟨.empty, [], [], []⟩

/-- A call on the sink of a request. -/
def onSink (req : Nat) (call : SinkStream → Outcome JsError SinkStream) (p : HttpProtocol) :
    Outcome JsError HttpProtocol :=
  match p.bodies[req]? with
  | some b => ⟨{ p with bodies := p.bodies.set req (call b).state }, (call b).thrown⟩
  | none => .done p

/-- `req._appendBody(buf)`. -/
def appendBody (req : Nat) (buf : List UInt8) (p : HttpProtocol) : Outcome JsError HttpProtocol :=
  if buf ≠ [] then p.onSink req (·.write buf) else .done p

/-- `req._closeBody()`. -/
def closeBody (req : Nat) (p : HttpProtocol) : Outcome JsError HttpProtocol :=
  { p with closings := p.closings ++ [req] }.onSink req (·.close)

/-- `this.#fn(req, resp)`. What the handler throws comes after all the routing. -/
def callHandler (req : Nat) (p : HttpProtocol) : Outcome JsError HttpProtocol :=
  .done { p with handled := p.handled ++ [req] }

/-- The exception of `new LWSSPA`. -/
def spaError : JsError := ⟨"InternalError".toList, "lws_spa_create_via_info failed".toList⟩

/-- `onHttp`; `spaCreated` says whether libwebsockets can create the form parser that
`_startMultipart` asks for. -/
def onHttp (wsi : Nat) (headers : BodyHeaders) (spaCreated : Bool) (p : HttpProtocol) :
    Outcome JsError HttpProtocol :=
  let req := p.bodies.length
  let p := { p with bodies := p.bodies ++ [⟨[], false⟩] }
  if hasBody headers then
    if isMultipart headers && !spaCreated then .threw spaError p
    else { p with requests := p.requests.set wsi req }.callHandler req
  else (p.closeBody req).andThen (callHandler req)

/-- `onHttpBody`. The form parser takes the same bytes before the body does. -/
def onHttpBody (wsi : Nat) (buf : List UInt8) (p : HttpProtocol) : Outcome JsError HttpProtocol :=
  match p.requests.get wsi with
  | none => .done p
  | some req => p.appendBody req buf

/-- `onHttpBodyCompletion`. The form parser is finished before the body is closed. -/
def onHttpBodyCompletion (wsi : Nat) (p : HttpProtocol) : Outcome JsError HttpProtocol :=
  match p.requests.get wsi with
  | none => .done p
  | some req => p.closeBody req

/-- `onClosedHttp`. -/
def onClosedHttp (wsi : Nat) (p : HttpProtocol) : Outcome JsError HttpProtocol :=
  .done { p with requests := p.requests.erase wsi }

end HttpProtocol

/-- The callbacks of libwebsockets, with what they bring. -/
inductive HttpEvent where
  | http (wsi : Nat) (headers : BodyHeaders) (spaCreated : Bool)
  | body (wsi : Nat) (buf : List UInt8)
  | completion (wsi : Nat)
  | closed (wsi : Nat)
  deriving DecidableEq, Repr

/-- The handler of a callback. -/
def HttpProtocol.handle (p : HttpProtocol) : HttpEvent → Outcome JsError HttpProtocol
  | .http wsi headers spaCreated => p.onHttp wsi headers spaCreated
  | .body wsi buf => p.onHttpBody wsi buf
  | .completion wsi => p.onHttpBodyCompletion wsi
  | .closed wsi => p.onClosedHttp wsi

/-- A transaction as libwebsockets sees it: what it delivered of the body, and whether it is over.
`parsed` is false for a form whose parser could not be created. -/
structure Transaction where
  wsi : Nat
  headers : BodyHeaders
  parsed : Bool
  chunks : List (List UInt8)
  isOver : Bool
  deriving DecidableEq, Repr

namespace Transaction

/-- The next request or the end of the connection ends the transactions of a wsi. -/
def finish (wsi : Nat) (x : Transaction) : Transaction :=
  if x.wsi = wsi then { x with isOver := true } else x

/-- A chunk belongs to the transaction that is going on. -/
def deliver (wsi : Nat) (buf : List UInt8) (x : Transaction) : Transaction :=
  if x.wsi = wsi ∧ x.isOver = false then { x with chunks := x.chunks ++ [buf] } else x

/-- What an event does to the transactions. -/
def step (transactions : List Transaction) : HttpEvent → List Transaction
  | .http wsi headers spaCreated =>
    transactions.map (finish wsi) ++ [⟨wsi, headers, !isMultipart headers || spaCreated, [], false⟩]
  | .body wsi buf => transactions.map (deliver wsi buf)
  | .completion wsi => transactions.map (finish wsi)
  | .closed wsi => transactions.map (finish wsi)

end Transaction

/-- A request declares a body by a positive length or by the chunked coding. -/
def declaresBody (headers : BodyHeaders) : Bool :=
  headers.contentLength.any (fun cl => (number cl).any (0 < ·)) ||
    headers.transferEncoding.any fun te =>
      (te.splitOn ',').any fun coding => asciiLower (strip (fun c => c = ' ' || c = '\t') coding) = "chunked".toList

/-- The protocol and the transactions behind its callbacks. -/
structure Traffic where
  protocol : HttpProtocol
  transactions : List Transaction
  deriving DecidableEq

namespace Traffic

/-- Before the first connection. -/
def start : Traffic := ⟨.start, []⟩

/-- A callback. -/
def step (s : Traffic) (e : HttpEvent) : Traffic :=
  ⟨(s.protocol.handle e).state, Transaction.step s.transactions e⟩

/-- A transaction of the wsi that is going on. -/
def Current (s : Traffic) (wsi : Nat) (x : Transaction) : Prop :=
  x ∈ s.transactions ∧ x.wsi = wsi ∧ x.isOver = false

/-- What libwebsockets may deliver: a body only while the transaction of a request that declares
one is going on. -/
def Delivers (s : Traffic) : HttpEvent → Prop
  | .body wsi _ | .completion wsi => ∃ x, s.Current wsi x ∧ declaresBody x.headers = true
  | .http _ _ _ | .closed _ => True

/-- Every body stream has the chunks of its transaction, is closed at most once, and is closed when
its transaction is over. -/
structure Routed (s : Traffic) : Prop where
  received : ∀ (k : Nat) (x : Transaction), s.transactions[k]? = some x →
    s.protocol.bodies[k]?.map SinkStream.chunks = some (x.chunks.filter (· ≠ []))
  once : ∀ k, s.protocol.closings.count k ≤ 1
  ended : ∀ (k : Nat) (x : Transaction), s.transactions[k]? = some x → x.isOver = true →
    s.protocol.bodies[k]?.map SinkStream.closed = some true ∧ s.protocol.closings.count k = 1

/-- A transaction with a body is over only through the completion of its body, and nothing arrives
for a form whose parser was not created. -/
def Completes (s : Traffic) : HttpEvent → Prop
  | .http wsi _ _ | .closed wsi => ∀ x, s.Current wsi x → hasBody x.headers = false
  | .body wsi buf => buf ≠ [] → ∀ x, s.Current wsi x → x.parsed = true
  | .completion wsi => ∀ x, s.Current wsi x → x.parsed = true

end Traffic

end QjsLws.Protocol
