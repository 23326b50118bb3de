import QjsLws.Misc.Run

/-!
# `StreamAdapter`

The adapter of `lib/lws/protocols.js` routes the events of many connections to the sessions of
`WebSocketStream` and `TCPSocketStream`. A session registered before its connection exists waits in
one slot, `#pending`, for the next event of a wsi without a session. Sessions are named by the
order of their registration, and each keeps the wsi it was registered for: the argument of
`session(wsi)`, or the wsi of the client connection that follows `session()`.
-/

namespace QjsLws.Stream

variable {ω ν : Type}

/-- The events a role adapter forwards, with their further arguments. -/
inductive SocketEvent (ν : Type) where
  | open (args : ν)
  | message (data : ν)
  | close (args : ν)
  | error (message : String)
  deriving DecidableEq, Repr

/-- Whether the event is the last one of its connection. -/
def SocketEvent.isEnd : SocketEvent ν → Bool
  | .close _ | .error _ => true
  | _ => false

/-- The state of a `ReadableStream`. -/
inductive ReadableState where
  | readable
  | closed
  | errored (message : String)
  deriving DecidableEq, Repr

/-- An entry of `#sessions`: `box.wsi`, the chunks passed to `box.controller`, the state of the
stream and the promises `opened` and `closed`, `none` while pending. -/
structure Entry (ω ν : Type) where
  boxWsi : Option ω
  chunks : List ν
  stream : ReadableState
  opened : Option (Except String ν)
  closed : Option ν

/-- The options of the constructor. -/
structure AdapterOptions (ω ν : Type) where
  extra : ω → Option ν → ν
  closeInfo : ω → ν → ν

/-- The effect of an event on the entry it reaches. A promise settles once, `enqueue` throws on a
stream that is no longer readable, and exceptions of `close` and `error` are swallowed. -/
def Entry.handle (options : AdapterOptions ω ν) (wsi : ω) (e : Entry ω ν) :
    SocketEvent ν → Entry ω ν
  | .open args => { e with opened := e.opened <|> some (.ok (options.extra wsi (some args))) }
  | .message data =>
    if e.stream = .readable then { e with chunks := e.chunks ++ [data] } else e
  | .close args =>
    { e with
      stream := if e.stream = .readable then .closed else e.stream
      closed := e.closed <|> some (options.closeInfo wsi args) }
  | .error message =>
    { e with
      stream := if e.stream = .readable then .errored message else e.stream
      opened := e.opened <|> some (.error message) }

/-- An event together with the session it reached, if any, and what held when it arrived: whether
a session was registered for its wsi, and whether the wsi had closed or failed before. -/
structure Delivery (ω : Type) where
  wsi : ω
  owns : Bool
  isOver : Bool
  reached : Option Nat
  deriving DecidableEq, Repr

/-- What the adapter did, in order; `overwritten` is a pending session that a later `session()`
replaced. -/
inductive AdapterLog (ω : Type) where
  | delivery (d : Delivery ω)
  | overwritten (session : Nat)
  deriving DecidableEq, Repr

/-- The adapter, with the wsi each session was registered for, the wsis that closed or failed, and
the log. -/
structure StreamAdapter (ω ν : Type) where
  pending : Option Nat
  sessions : ω → Option Nat
  entries : List (Entry ω ν)
  owners : List ω
  ended : ω → Bool
  log : List (AdapterLog ω)

namespace StreamAdapter

/-- A new adapter. -/
def new : StreamAdapter ω ν := ⟨none, fun _ => none, [], [], fun _ => false, []⟩

/-- An entry before its first event. -/
def newEntry (wsi : Option ω) (opened : Option (Except String ν)) : Entry ω ν :=
  ⟨wsi, [], .readable, opened, none⟩

/-- `session()`, followed by the client connection `owner`. -/
def session (a : StreamAdapter ω ν) (owner : ω) : StreamAdapter ω ν :=
  let lost := a.pending.toList.map AdapterLog.overwritten
  { a with
    pending := some a.entries.length
    entries := a.entries ++ [newEntry none none]
    owners := a.owners ++ [owner]
    log := a.log ++ lost }

variable [DecidableEq ω]

/-- `session(wsi)`. -/
def sessionOf (options : AdapterOptions ω ν) (a : StreamAdapter ω ν) (wsi : ω) :
    StreamAdapter ω ν :=
  { a with
    sessions := fun w => if w = wsi then some a.entries.length else a.sessions w
    entries := a.entries ++ [newEntry (some wsi) (some (.ok (options.extra wsi none)))]
    owners := a.owners ++ [wsi] }

/-- `#session(wsi)`: the session of a wsi, claiming the pending one where it has none. -/
def claim (a : StreamAdapter ω ν) (wsi : ω) : StreamAdapter ω ν × Option Nat :=
  match a.sessions wsi, a.pending with
  | some session, _ => (a, some session)
  | none, none => (a, none)
  | none, some session =>
    ({ a with
        pending := none
        sessions := fun w => if w = wsi then some session else a.sessions w
        entries := a.entries.modify session fun e => { e with boxWsi := some wsi } },
      some session)

/-- `this.#sessions.delete(wsi)`, for the last event of a wsi. -/
def forget (a : StreamAdapter ω ν) (wsi : ω) : StreamAdapter ω ν :=
  { a with
    sessions := fun w => if w = wsi then none else a.sessions w
    ended := fun w => if w = wsi then true else a.ended w }

/-- `open`, `message`, `close` and `error`. -/
def event (options : AdapterOptions ω ν) (a : StreamAdapter ω ν) (wsi : ω) (e : SocketEvent ν) :
    StreamAdapter ω ν :=
  let (claimed, reached) := a.claim wsi
  let delivery : Delivery ω := ⟨wsi, wsi ∈ a.owners, a.ended wsi, reached⟩
  let deleted := if e.isEnd then claimed.forget wsi else claimed
  let handled :=
    match reached with
    | none => deleted.entries
    | some session => deleted.entries.modify session fun entry => entry.handle options wsi e
  { deleted with
    entries := handled
    log := a.log ++ [.delivery delivery] }

end StreamAdapter

/-- Registrations and events, in any order. -/
inductive AdapterOp (ω ν : Type) where
  | session (owner : ω)
  | sessionOf (wsi : ω)
  | event (wsi : ω) (e : SocketEvent ν)

/-- One registration or event. -/
def adapterStep [DecidableEq ω] (options : AdapterOptions ω ν) (a : StreamAdapter ω ν) :
    AdapterOp ω ν → StreamAdapter ω ν
  | .session owner => a.session owner
  | .sessionOf wsi => a.sessionOf options wsi
  | .event wsi e => a.event options wsi e

/-- A delivery is right: it reached no session but one of its own wsi, it reached one if the wsi
had one and was not over, and it reached none after the wsi was over. -/
structure DeliveryOk (a : StreamAdapter ω ν) (d : Delivery ω) : Prop where
  own : ∀ session, d.reached = some session → a.owners[session]? = some d.wsi
  reaches : d.owns = true → d.isOver = false → d.reached ≠ none
  silent : d.isOver = true → d.reached = none

/-- The sessions of different connections are isolated. -/
structure Isolated (a : StreamAdapter ω ν) : Prop where
  deliveries : ∀ d, .delivery d ∈ a.log → DeliveryOk a d
  kept : ∀ session, .overwritten session ∉ a.log

/-- `session()` is called only while no other session is pending; an event of a wsi that never had
a session, or is over, comes only while none is pending; and no event comes for a wsi that was
registered again after it was over. -/
def Undisturbed (a : StreamAdapter ω ν) : AdapterOp ω ν → Prop
  | .session _ => a.pending = none
  | .sessionOf _ => True
  | .event wsi _ =>
    (wsi ∉ a.owners → a.pending = none) ∧
      (a.ended wsi = true → a.pending = none ∧ a.sessions wsi = none)

end QjsLws.Stream
