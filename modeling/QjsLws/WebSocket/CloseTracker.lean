import Mathlib.Algebra.Group.Int.Defs
import Mathlib.Algebra.Group.Nat.Defs
import QjsLws.Misc.Assoc
import QjsLws.Misc.Run

/-!
# The close information of a websocket

The two ways by which code and reason of a close come to the `close` handler: the fields that
`lwsjs_socket_close` (`lws-socket.c`) fills and the closed callbacks pass on, and the
`WsCloseTracker` (`lib/lws/protocols.js`) of a `WsProtocol` or `WsClientProtocol`. Both classes do the
same with a close. A reason is shown by its bytes.
-/

namespace QjsLws.WebSocket

open QjsLws.Misc

/-- A code and a reason; each may be undefined. -/
structure CloseInfo where
  code : Option Int
  reason : Option (List UInt8)
  deriving DecidableEq, Repr

/-- No values. -/
def CloseInfo.nothing : CloseInfo := ⟨none, none⟩

/-- The part of `LWSSocket` that a close uses: whether it still has its wsi, `close_code` once it is
set, `close_reason` (empty without one), `closed`, and the calls of `close` that
`js_invoke_deferred` has put off. -/
structure ClosingSocket where
  wsi : Bool
  closeCode : Option Nat
  closeReason : List UInt8
  closed : Bool
  deferred : List CloseInfo
  deriving DecidableEq, Repr

namespace ClosingSocket

/-- A websocket that was established. -/
def fresh : ClosingSocket := ⟨true, none, [], false, []⟩

/-- The `uint32_t` that `reason` is, and what of it fits `close_code`. -/
def closeCodeOf (code : Option Int) : Nat := ((code.getD 1000) % 2 ^ 32).toNat % 2 ^ 16

/-- `lwsjs_socket_close` outside the callback that establishes a client. Inside a callback it marks the
socket; else libwebsockets closes it. -/
def close (dispatching : Bool) (info : CloseInfo) (s : ClosingSocket) : ClosingSocket :=
  if s.wsi then
    { s with
      closeCode := some (closeCodeOf info.code)
      closeReason := info.reason.getD []
      closed := s.closed || dispatching }
  else s

/-- `LWS_CALLBACK_CLOSED` and `LWS_CALLBACK_CLIENT_CLOSED`: the arguments after the socket. -/
def closedArguments (s : ClosingSocket) : CloseInfo :=
  match s.closeCode with
  | none => .nothing
  | some code => ⟨some code, if s.closeReason = [] then none else some s.closeReason⟩

end ClosingSocket

/-- `LWS_CALLBACK_WS_PEER_INITIATED_CLOSE`: the arguments after the socket, from the payload of the
frame. -/
def peerCloseArguments (payload : List UInt8) : CloseInfo :=
  match payload with
  | high :: low :: reason =>
    ⟨some (256 * high.toNat + low.toNat : Nat), if reason = [] then none else some reason⟩
  | _ => .nothing

/-- The sockets, `#pending` of the tracker, and the calls of the `close` handler. -/
structure CloseState where
  sockets : Assoc Nat ClosingSocket
  pending : Assoc Nat CloseInfo
  log : List (Nat × CloseInfo)
  deriving DecidableEq

namespace CloseState

/-- No socket yet. -/
def fresh : CloseState := ⟨.empty, .empty, []⟩

/-- The socket of a wsi. -/
def socket (s : CloseState) (w : Nat) : ClosingSocket := (s.sockets.get w).getD .fresh

/-- Changes a socket. -/
def update (s : CloseState) (w : Nat) (f : ClosingSocket → ClosingSocket) : CloseState :=
  { s with sockets := s.sockets.set w (f (s.socket w)) }

/-- `peerClose`. -/
def peerClose (w : Nat) (info : CloseInfo) (s : CloseState) : CloseState :=
  { s with pending := s.pending.set w info }

/-- `take`. -/
def take (w : Nat) (s : CloseState) : CloseInfo × CloseState :=
  ((s.pending.get w).getD .nothing, { s with pending := s.pending.erase w })

/-- `onClosed` and `onClientClosed`. They do not take the arguments that follow the socket. -/
def onClosed (w : Nat) (_ : CloseInfo) (s : CloseState) : CloseState :=
  let (info, s) := s.take w
  { s with log := s.log ++ [(w, info)] }

end CloseState

/-- Where `close` is called: in the callback that establishes a client, in another callback of the
socket, or outside. -/
inductive Dispatching where
  | clientEstablished
  | callback
  | no
  deriving DecidableEq, Repr

/-- What happens to the sockets: the program calls `close`, a deferred call of it comes, the peer sends
a close frame, and the last callback. -/
inductive CloseEvent where
  | close (w : Nat) (dispatching : Dispatching) (info : CloseInfo)
  | deferred (w : Nat)
  | peerClose (w : Nat) (payload : List UInt8)
  | closed (w : Nat)
  deriving DecidableEq, Repr

/-- One event. -/
def closeStep (s : CloseState) : CloseEvent → CloseState
  | .close w .clientEstablished info =>
    s.update w fun socket =>
      if socket.wsi then { socket with deferred := socket.deferred ++ [info] } else socket
  | .close w .callback info => s.update w (.close true info)
  | .close w .no info => s.update w (.close false info)
  | .deferred w =>
    s.update w fun socket =>
      match socket.deferred with
      | [] => socket
      | info :: rest => { socket with deferred := rest }.close false info
  | .peerClose w payload => s.peerClose w (peerCloseArguments payload)
  | .closed w =>
    (s.onClosed w (s.socket w).closedArguments).update w ({ · with wsi := false })

/-- The state after some events. -/
def closing (events : List CloseEvent) : CloseState := runFrom closeStep .fresh events

/-! ## What is to be reported -/

/-- The values of a close of the websocket, from either side. -/
def CloseEvent.closeOf (w : Nat) : CloseEvent → Option CloseInfo
  | .close w' _ info => if w' = w then some info else none
  | .peerClose w' payload => if w' = w then some (peerCloseArguments payload) else none
  | .deferred _ | .closed _ => none

/-- The values of the peer's close frame. -/
def CloseEvent.peerCloseOf (w : Nat) : CloseEvent → Option CloseInfo
  | .peerClose w' payload => if w' = w then some (peerCloseArguments payload) else none
  | .close .. | .deferred _ | .closed _ => none

/-- The calls of the handler for a websocket. -/
def CloseState.callsFor (s : CloseState) (w : Nat) : List CloseInfo :=
  (s.log.filter (·.1 = w)).map Prod.snd

/-- The handler is called once for each websocket that closes, with the values of the side that closed
first, and never for another. -/
structure CloseContract (events : List CloseEvent) : Prop where
  reported : ∀ before w after, events = before ++ .closed w :: after →
    (closing events).callsFor w = [(before.findSome? (CloseEvent.closeOf w)).getD .nothing]
  silent : ∀ w, .closed w ∉ events → (closing events).callsFor w = []

/-- What libwebsockets promises: one close frame of the peer at most, and the last callback is the last
and comes once. -/
def Delivered (events : List CloseEvent) : Prop :=
  ∀ before e after, events = before ++ e :: after →
    match e with
    | .peerClose w _ => .closed w ∉ before ∧ before.findSome? (CloseEvent.peerCloseOf w) = none
    | .closed w => .closed w ∉ before
    | .close .. | .deferred _ => True

/-- The first close of the websocket is a call of `close` with the values. -/
def LocalFirst (w : Nat) (info : CloseInfo) (events : List CloseEvent) : Prop :=
  ∃ first dispatching rest, events = first ++ .close w dispatching info :: rest ∧
    ∀ e ∈ first, e.closeOf w = none

end QjsLws.WebSocket
