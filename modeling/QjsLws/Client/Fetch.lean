import QjsLws.Client.HttpClient

/-!
# `fetch`

One `fetch()` call (`lib/fetch.js`) on the shared `HttpClientProtocol`. The promise's resolvers
reach the adapter's handlers through the `settled` map, where the continuation of
`adapter.connect()` puts them; until then a handler finds no record. Other calls and connections of
the adapter take part as events of the protocol. Which callbacks are for the call's own request is
known from the connections libwebsockets opened for it, not from what `#session` finds. Cookies and
the choice of the context do not affect the promise and are left out.
-/

namespace QjsLws.Client

open QjsLws.Misc

/-- How the promise settles: with the response, or rejected by an abort, by the adapter's `error`
handler, or with what `connect()` threw. -/
inductive FetchOutcome where
  | response (status : Int)
  | abortError
  | typeError (message : Text)
  | connectThrew (message : Text)
  deriving DecidableEq, Repr

/-- Whether the promise was resolved. -/
def FetchOutcome.isResponse : FetchOutcome → Bool
  | .response _ => true
  | _ => false

/-- Where `adapter.connect()` is: not called, reading the request body, inside
`ctx.clientConnect()`, returned or thrown with the continuation still queued, or continued. -/
inductive ConnectPhase where
  | notCalled
  | reading
  | connecting
  | returned
  | threw (message : Text)
  | continued
  deriving DecidableEq, Repr

/-- `connect()` is still inside and may throw. -/
def ConnectPhase.running : ConnectPhase → Bool
  | .reading | .connecting => true
  | _ => false

/-- What decides a call: the response was established, the connection failed, was closed or
dropped, the signal aborted, or `connect()` threw. -/
inductive Decision where
  | established
  | failed
  | aborted
  | threw
  deriving DecidableEq, Repr

/-- The state of one call: its session's number, whether `settled` has its record, the signal
(`none` if no signal was given) and the abort listener, and the promise. `wsis` are the connections
that carry the call's request, `first` is the first decision and `terminal` whether a terminal
callback of the request was delivered: these record what happened and the code has no such fields. -/
structure FetchState where
  client : ClientState
  phase : ConnectPhase
  session : Option Nat
  wsis : List Nat
  record : Bool
  aborted : Option Bool
  listening : Bool
  promise : Option FetchOutcome
  first : Option Decision
  terminal : Bool
  deriving DecidableEq

/-- What happens to a call: `connect()` throws before or inside `clientConnect`, sets `#pending`
and calls `clientConnect`, which returns; libwebsockets opens a connection for the request, the
first one or the next after a redirect; the continuation runs; the signal aborts; or something
happens to the protocol. -/
inductive FetchEvent where
  | connectThrows (message : Text)
  | clientConnect (headers : List (Text × Text)) (body : Option (List UInt8))
  | opens (wsi : Nat)
  | clientConnectReturns
  | continuation
  | abort
  | protocol (event : ClientEvent)
  deriving DecidableEq, Repr

namespace FetchState

/-- `fetch`, up to the call of `adapter.connect()`; `aborted` is the signal's flag. -/
def start (client : ClientState) (aborted : Option Bool) : FetchState :=
  if aborted = some true then
    ⟨client, .notCalled, none, [], false, aborted, false, some .abortError, some .aborted, false⟩
  else ⟨client, .reading, none, [], false, aborted, false, none, none, false⟩

/-- `resolve` and `reject`: the first call settles the promise. -/
def settle (s : FetchState) (outcome : FetchOutcome) : FetchState :=
  { s with promise := s.promise.or (some outcome) }

/-- Notes a decision, if it is the first. -/
def noteDecision (s : FetchState) (decision : Decision) : FetchState :=
  { s with first := s.first.or (some decision) }

/-- The adapter's handlers: a response or an error for a request with a record settles it. -/
def handler (s : FetchState) : ClientOutput → FetchState
  | .onResponse id status _ =>
    if s.record && s.session = some id then s.settle (.response status) else s
  | .onError (some id) message =>
    if s.record && s.session = some id then
      s.settle (if s.listening && s.aborted = some true then .abortError else .typeError message)
    else s
  | _ => s

/-- The continuation of `adapter.connect()`. -/
def continuation (s : FetchState) : FetchState :=
  match s.phase with
  | .returned =>
    { s with
      phase := .continued
      record := true
      listening := s.aborted.isSome }
  | .threw message => { s.settle (.connectThrew message) with phase := .continued }
  | _ => s

/-- The signal aborts; `wsi.close()` in the listener leads to callbacks of their own. -/
def abort (s : FetchState) : FetchState :=
  if s.aborted = some false then
    let fired := { s.noteDecision .aborted with aborted := some true }
    if s.listening then fired.settle .abortError else fired
  else s

end FetchState

/-- The session a callback gets from `#session`. -/
def callbackSession (s : ClientState) : ClientEvent → Option Nat
  | .connect .. => none
  | .callback wsi callback => if skipsSession s callback then none else (s.session wsi).1

/-- The calls an event makes on the handlers. -/
def clientOutputs (s : ClientState) (event : ClientEvent) : List ClientOutput :=
  (clientStep s event).log.drop s.log.length

/-- What a callback decides for the request it is for. -/
def callbackDecision : ClientEvent → Option Decision
  | .callback _ (.established _) => some .established
  | .callback _ .closed | .callback _ .drop | .callback _ (.connectionError _) => some .failed
  | _ => none

/-- Whether a callback is the last one for its request. -/
def isTerminal : ClientEvent → Bool
  | .callback _ .closed | .callback _ .drop | .callback _ (.connectionError _)
  | .callback _ .completed => true
  | _ => false

/-- Whether a callback is the last one on its connection for the request: a terminal one, or a
redirect, which libwebsockets follows on a new wsi. The drop of the old wsi comes after it. -/
def leavesConnection : ClientEvent → Bool
  | .callback _ .redirect => true
  | event => isTerminal event

/-- Whether a callback is on one of the connections. -/
def isOn (wsis : List Nat) : ClientEvent → Bool
  | .connect .. => false
  | .callback wsi _ => wsis.contains wsi

/-- The connections that carry the request after a callback. -/
def remaining (wsis : List Nat) (event : ClientEvent) : List Nat :=
  if leavesConnection event then wsis.filter fun wsi => !isOn [wsi] event else wsis

namespace FetchState

/-- The event is a callback for the call's request. -/
def isOwn (s : FetchState) (event : ClientEvent) : Bool := isOn s.wsis event

/-- An event of the protocol, with the calls it makes on the adapter's handlers. -/
def protocol (s : FetchState) (event : ClientEvent) : FetchState :=
  let noted : FetchState :=
    if s.isOwn event then
      { s with
        wsis := remaining s.wsis event
        first := s.first.or (callbackDecision event)
        terminal := s.terminal || isTerminal event }
    else s
  (clientOutputs s.client event).foldl handler { noted with client := clientStep s.client event }

/-- `connect` sets `#pending` and calls `clientConnect`. -/
def clientConnect (s : FetchState) (headers : List (Text × Text)) (body : Option (List UInt8)) :
    FetchState :=
  { s with
    client := s.client.connect headers body
    session := some s.client.records.length
    phase := .connecting }

end FetchState

/-- One event. -/
def fetchStep (s : FetchState) : FetchEvent → FetchState
  | .connectThrows message =>
    if s.phase.running then
      { s.noteDecision .threw with phase := .threw message }
    else s
  | .clientConnect headers body => if s.phase = .reading then s.clientConnect headers body else s
  | .opens wsi => if s.session.isSome then { s with wsis := wsi :: s.wsis } else s
  | .clientConnectReturns => if s.phase = .connecting then { s with phase := .returned } else s
  | .continuation => s.continuation
  | .abort => s.abort
  | .protocol event => s.protocol event

/-- The promise is settled the way the first decision demands. -/
def SettledAs (promise : Option FetchOutcome) : Option Decision → Prop
  | none => False
  | some .established => ∃ outcome, promise = some outcome ∧ outcome.isResponse = true
  | some _ => ∃ outcome, promise = some outcome ∧ outcome.isResponse = false

/-- After a terminal callback and the end of `connect()`, the promise is settled as decided. -/
def Settles (s : FetchState) : Prop :=
  s.terminal = true → s.phase = .continued → SettledAs s.promise s.first

/-- A status with which `new Response` does not throw. -/
def StatusAccepted : ClientEvent → Prop
  | .callback _ (.established status) => status = 0 ∨ 200 ≤ status ∧ status ≤ 599
  | _ => True

/-- The callback gets this session: it is not the drop that `#redirecting` swallows, and its wsi
has the session in `#sessions`, or has none there and the session is `#pending`. -/
def Reaches (s : ClientState) (id : Nat) : ClientEvent → Prop
  | .connect .. => False
  | .callback wsi callback =>
    ¬(callback = .drop ∧ s.redirecting = true) ∧
      (s.sessions.get wsi = some id ∨ s.sessions.get wsi = none ∧ s.pending = some id)

namespace FetchState

/-- The callback gets the call's session. -/
def ReachedBy (s : FetchState) (event : ClientEvent) : Prop :=
  ∃ id, s.session = some id ∧ Reaches s.client id event

end FetchState

/-- While nothing is decided: the signal aborts, and the callbacks that decide the request come,
only once the continuation of `connect()` has run, unless `connect()` throws after them; a deciding
callback on one of the call's connections gets the call's session, and none on another connection
does; an established response has a status that `Response` accepts; and the request does not
complete. -/
def Prompt (s : FetchState) : FetchEvent → Prop
  | .abort =>
    s.aborted = some false → s.first = none → s.listening = true ∨ s.phase.running = true
  | .clientConnectReturns => s.phase = .connecting → s.first = none ∧ s.terminal = false
  | .protocol event =>
    s.first = none →
      if s.isOwn event then
        (callbackDecision event = some .established →
          s.record = true ∧ s.ReachedBy event ∧ StatusAccepted event) ∧
        (callbackDecision event = some .failed →
          s.record = true ∧ s.ReachedBy event ∨ s.phase.running = true) ∧
        (isTerminal event = true → callbackDecision event ≠ none ∨ s.phase.running = true)
      else callbackDecision event ≠ none → ¬s.ReachedBy event
  | _ => True

end QjsLws.Client
