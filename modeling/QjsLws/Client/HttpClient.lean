import QjsLws.Misc.Assoc
import QjsLws.Misc.Run
import QjsLws.Misc.Text

/-!
# The HTTP client protocol

Model of `HttpClientProtocol` (`lib/lws/protocols.js`): `connect`, `#session` and the native
callbacks that use a session. A session is known by the number of the `connect()` call that
created it, a wsi by its own number. `onClientFilterPreEstablish` and `onReceiveClientHttp` touch
no session and are left out.
-/

namespace QjsLws.Client

open QjsLws.Misc

/-- How a session ends. -/
inductive SessionOutcome where
  | completed
  | errored
  | closed
  deriving DecidableEq, Repr

/-- A session: the headers of `req`, `body` as long as it is not queued, the flags, what was
enqueued on `controller`, and the outcomes reported for it. -/
structure ClientSession where
  headers : List (Text × Text)
  body : Option (List UInt8)
  redirected : Bool
  established : Bool
  completed : Bool
  stream : List (List UInt8)
  outcomes : List SessionOutcome
  deriving DecidableEq, Repr

/-- The calls a callback makes: on its wsi, and on the handlers given to the constructor. A
handler gets the request of the session with the given number. -/
inductive ClientOutput where
  | addHeader (wsi : Nat) (name value : Text)
  | bodyPending (wsi : Nat) (pending : Bool)
  | write (wsi : Nat) (bytes : List UInt8)
  | onRedirect (session : Option Nat)
  | onResponse (session : Nat) (status : Int) (redirected : Bool)
  | onRead (session : Option Nat) (data : List UInt8)
  | onError (session : Option Nat) (message : Text)
  deriving DecidableEq, Repr

/-- `#sessions`, `#pending`, `#redirecting`, and the session objects by number. -/
structure ClientState where
  sessions : Assoc Nat Nat
  pending : Option Nat
  redirecting : Bool
  records : List ClientSession
  log : List ClientOutput
  deriving DecidableEq

/-- A new `HttpClientProtocol`. -/
def ClientState.fresh : ClientState := ⟨.empty, none, false, [], []⟩

/-- The native callbacks, with what libwebsockets passes or reports to them. -/
inductive ClientCallback where
  | instantiated
  | appendHandshakeHeader
  | writeable (bufferedAmount : Nat)
  | redirect
  | established (status : Int)
  | read (data : List UInt8)
  | completed
  | closed
  | drop
  | connectionError (message : Text)
  deriving DecidableEq, Repr

/-- What can happen to the protocol: `connect()` has read its body, or a callback arrives. -/
inductive ClientEvent where
  | connect (headers : List (Text × Text)) (body : Option (List UInt8))
  | callback (wsi : Nat) (callback : ClientCallback)
  deriving DecidableEq, Repr

namespace ClientState

/-- `connect`, from the assignment of `#pending` on. -/
def connect (s : ClientState) (headers : List (Text × Text)) (body : Option (List UInt8)) :
    ClientState :=
  { s with
    pending := some s.records.length
    records := s.records ++ [⟨headers, body, false, false, false, [], []⟩] }

/-- `#session`. -/
def session (s : ClientState) (wsi : Nat) : Option Nat × ClientState :=
  match s.sessions.get wsi, s.pending with
  | some id, _ => (some id, s)
  | none, some id => (some id, { s with pending := none, sessions := s.sessions.set wsi id })
  | none, none => (none, s)

/-- Assigns to properties of a session. -/
def update (s : ClientState) (id : Nat) (change : ClientSession → ClientSession) : ClientState :=
  { s with records := s.records.modify id change }

/-- Makes calls. -/
def output (s : ClientState) (outputs : List ClientOutput) : ClientState :=
  { s with log := s.log ++ outputs }

/-- `#sessions.delete(wsi)`. -/
def forget (s : ClientState) (wsi : Nat) : ClientState :=
  { s with sessions := s.sessions.erase wsi }

/-- Ends a session. -/
def finish (s : ClientState) (id : Nat) (outcome : SessionOutcome) : ClientState :=
  s.update id fun r => { r with outcomes := r.outcomes ++ [outcome] }

/-- Reports an error for a session. -/
def fail (s : ClientState) (id : Nat) (message : Text) : ClientState :=
  (s.finish id .errored).output [.onError (some id) message]

/-- `onClientAppendHandshakeHeader`. -/
def handshakeOutputs (wsi : Nat) (r : ClientSession) : List ClientOutput :=
  (r.headers.map fun (name, value) => .addHeader wsi name value) ++
    match r.body with
    | none => []
    | some body =>
      (if r.headers.any (·.1 = "content-length".toList) then []
        else [.addHeader wsi "content-length".toList (decimal body.length)])
        ++ [.bodyPending wsi true]

/-- `onClientHttpWriteable`. -/
def onWriteable (s : ClientState) (wsi id : Nat) (bufferedAmount : Nat) : ClientState :=
  let queued :=
    match s.records[id]? with
    | some { body := some body, .. } =>
      (s.output [.write wsi body]).update id ({ · with body := none })
    | _ => s
  if bufferedAmount = 0 then queued.output [.bodyPending wsi false] else queued

/-- `onClientHttpRedirect` with its session. -/
def onRedirect (s : ClientState) (wsi id : Nat) : ClientState :=
  { (s.update id ({ · with redirected := true })).forget wsi with
    pending := some id
    redirecting := true }

/-- `onEstablishedClientHttp`; `new Response` throws for a status out of range. -/
def onEstablished (s : ClientState) (id : Nat) (status : Int) : ClientState :=
  if status ≠ 0 ∧ (status < 200 ∨ status > 599) then s
  else
    let redirected := (s.records[id]?.map (·.redirected)).getD false
    (s.update id ({ · with established := true })).output [.onResponse id status redirected]

/-- `onClosedClientHttp` with its session. -/
def onClosed (s : ClientState) (id : Nat) : ClientState :=
  match s.records[id]? with
  | none => s
  | some r =>
    if !r.established then s.fail id "closed".toList
    else if !r.completed then (s.update id ({ · with completed := true })).finish id .closed
    else s

/-- `onClientHttpDropProtocol` with its session. -/
def onDrop (s : ClientState) (id : Nat) : ClientState :=
  match s.records[id]? with
  | none => s
  | some r =>
    if !r.established then s.fail id "dropped".toList
    else if !r.completed then s.finish id .errored
    else s

/-- What a callback does with the session it found. -/
def handle (s : ClientState) (wsi : Nat) (found : Option Nat) : ClientCallback → ClientState
  | .instantiated => s
  | .appendHandshakeHeader =>
    match found.bind fun id => s.records[id]? with
    | some r => s.output (handshakeOutputs wsi r)
    | none => s
  | .writeable bufferedAmount =>
    match found with
    | some id => s.onWriteable wsi id bufferedAmount
    | none => s
  | .redirect =>
    (match found with
      | some id => s.onRedirect wsi id
      | none => s).output [.onRedirect found]
  | .established status =>
    match found with
    | some id => s.onEstablished id status
    | none => s
  | .read data =>
    (match found with
      | some id => s.update id fun r => { r with stream := r.stream ++ [data] }
      | none => s).output [.onRead found data]
  | .completed =>
    match found with
    | some id => ((s.forget wsi).update id ({ · with completed := true })).finish id .completed
    | none => s.forget wsi
  | .closed =>
    match found with
    | some id => (s.forget wsi).onClosed id
    | none => s.forget wsi
  | .drop =>
    match found with
    | some id => (s.forget wsi).onDrop id
    | none => s.forget wsi
  | .connectionError message =>
    match found with
    | some id => (s.forget wsi).fail id message
    | none => (s.forget wsi).output [.onError none message]

end ClientState

open ClientState

/-- Whether a callback leaves before `#session`: the drop that follows a redirect. -/
def skipsSession (s : ClientState) (callback : ClientCallback) : Bool :=
  callback = .drop && s.redirecting

/-- One event. -/
def clientStep (s : ClientState) : ClientEvent → ClientState
  | .connect headers body => s.connect headers body
  | .callback wsi callback =>
    if skipsSession s callback then { s with redirecting := false }
    else
      let (found, s) := s.session wsi
      s.handle wsi found callback

end QjsLws.Client
