import QjsLws.Client.HttpClient
import QjsLws.Socket.WriteQueue

/-!
# The request body on its way

One connection of the HTTP client: the protocol object (`lib/lws/protocols.js`), the write queue of the
wsi (`lws-socket.c`) and the flag that `wsi.bodyPending = …` hands to `lws_client_http_body_pending`. On
`LWS_CALLBACK_CLIENT_HTTP_WRITEABLE` the dispatcher (`lws-protocol.c`) flushes the queue first; the
handler then queues the body once, which flushes again, and reads `wsi.bufferedAmount`.
-/

namespace QjsLws.Client

open QjsLws.Misc QjsLws.Socket

/-- The protocol object and the native side of one wsi. -/
structure Exchange where
  client : ClientState
  socket : LWSSocket
  bodyPending : Bool
  deriving DecidableEq

/-- The callbacks of a connection after its handshake, up to the end of its session. -/
inductive ExchangeEvent where
  | writeable
  | established (status : Int)
  | read (data : List UInt8)
  deriving DecidableEq, Repr

/-- The flag after the calls. -/
def pendingAfter (wsi : Nat) (pending : Bool) (calls : List ClientOutput) : Bool :=
  calls.foldl (fun
    | pending, .bodyPending w value => if w = wsi then value else pending
    | pending, _ => pending) pending

/-- The body that `onClientHttpWriteable` is to write. -/
def unsentBody (s : ClientState) (wsi : Nat) : Option (List UInt8) :=
  (s.session wsi).1.bind fun id => (s.records[id]?).bind ClientSession.body

namespace Exchange

/-- A callback runs its handler; the flag follows the calls that the handler makes. -/
def callback (x : Exchange) (wsi : Nat) (callback : ClientCallback) : Exchange :=
  let client := clientStep x.client (.callback wsi callback)
  { x with
    client
    bodyPending := pendingAfter wsi x.bodyPending (client.log.drop x.client.log.length) }

/-- The argument `LWS_WRITE_HTTP_FINAL`. -/
def httpFinalArg : WriteArg := .number 7

/-- The writeable callback. -/
def writeable (lws : Lws) (x : Exchange) (wsi : Nat) : Exchange :=
  let flushed := writeStep lws x.socket .writeable
  let socket :=
    match unsentBody x.client wsi with
    | some body => writeStep lws flushed (.write false (.arrayBuffer body) [httpFinalArg])
    | none => flushed
  { x with socket }.callback wsi (.writeable socket.writeBuffered)

/-- A connection that `connect()` has opened with a body, after its handshake. -/
def handshake (s : ClientState) (wsi : Nat) (headers : List (Text × Text)) (body : List UInt8) : Exchange :=
  (Exchange.mk (s.connect headers (some body)) .fresh false).callback wsi .appendHandshakeHeader

end Exchange

/-- One callback. -/
def exchangeStep (lws : Lws) (wsi : Nat) (x : Exchange) : ExchangeEvent → Exchange
  | .writeable => x.writeable lws wsi
  | .established status => x.callback wsi (.established status)
  | .read data => x.callback wsi (.read data)

/-- The state after the handshake and the callbacks. -/
def exchangeRun (lws : Lws) (s : ClientState) (wsi : Nat) (headers : List (Text × Text))
    (body : List UInt8) (events : List ExchangeEvent) : Exchange :=
  runFrom (exchangeStep lws wsi) (.handshake s wsi headers body) events

/-! ## What is observed -/

/-- The values of the content-length headers added on the wsi. -/
def contentLengths (wsi : Nat) (log : List ClientOutput) : List Text :=
  log.filterMap fun
    | .addHeader w name value =>
      if w = wsi ∧ name = "content-length".toList then some value else none
    | _ => none

/-- The bodies queued on the wsi. -/
def bodiesQueued (wsi : Nat) (log : List ClientOutput) : List (List UInt8) :=
  log.filterMap fun
    | .write w bytes => if w = wsi then some bytes else none
    | _ => none

end QjsLws.Client
