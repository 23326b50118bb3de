import Mathlib.Algebra.Group.Nat.Defs
import QjsLws.Protocol.Reason
import QjsLws.Misc.Run

/-!
# Callback frames and `wsi.close()`

Model of the dispatch of one wsi's callbacks to JavaScript: the two places of
`lwsjs_callback_protocol` (`lws-protocol.c`) that set `dispatching`, call the handler and clear
`dispatching` again, the return value they compute, and `lwsjs_socket_close` (`lws-socket.c`).
A handler that calls back into libwebsockets may cause further frames for the same wsi before it
returns, so the frames form a stack.
-/

namespace QjsLws.Protocol

/-- A frame of `lwsjs_callback_protocol` inside its `JS_Call`: the reason, whether the call is
that of a `wantWrite` handler, and whether a nested frame has already returned into it. -/
structure Frame where
  reason : Reason
  writeHandler : Bool
  reentered : Bool
  deriving DecidableEq, Repr

/-- What the outside sees: `lws_close_free_wsi` with the frames active at that moment, and the
return of a frame with the frames that are left. `asked` says that `wsi.close()` was called in
the nest of frames the returning one belongs to. -/
inductive DispatchCall where
  | closeFreeWsi (active : List Frame)
  | returned (active : List Frame) (asked : Bool) (ret : Int)
  deriving DecidableEq, Repr

/-- The part of `LWSSocket` that dispatch and close use, with the active frames, innermost first,
and the number of closes put off with `js_invoke_deferred`. -/
structure DispatchState where
  wsi : Bool
  dispatching : Bool
  dispatchReason : Option Reason
  closed : Bool
  completed : Bool
  closeCode : Option Nat
  closeReason : List UInt8
  stack : List Frame
  asked : Bool
  deferred : Nat
  log : List DispatchCall
  deriving DecidableEq, Repr

/-- The socket that `socket_alloc` sets up. -/
def DispatchState.fresh : DispatchState :=
  { wsi := true, dispatching := false, dispatchReason := none, closed := false,
    completed := false, closeCode := none, closeReason := [], stack := [], asked := false,
    deferred := 0, log := [] }

/-- The events of one wsi. `leave` carries the handler's result as an `int32`, `complete` is
`socket_flush` setting `completed`, `destroy` is `LWS_CALLBACK_WSI_DESTROY`. -/
inductive DispatchEvent where
  | enter (reason : Reason) (writeHandler : Bool)
  | leave (result : Int)
  | close (isWs : Bool) (code : Nat) (reason : List UInt8)
  | complete
  | destroy
  deriving DecidableEq, Repr

/-- The reasons for which `lwsjs_socket_close` puts the close off to a microtask. -/
def isDeferringReason : Option Reason → Bool
  | some .rawConnected | some .clientEstablished => true
  | _ => false

/-- The handler call of a frame starts. -/
def frameEnter (s : DispatchState) (reason : Reason) (writeHandler : Bool) : DispatchState :=
  { s with
    dispatching := true
    dispatchReason := some reason
    stack := ⟨reason, writeHandler, false⟩ :: s.stack }

/-- The return value of a frame whose handler returned `result`. -/
def frameResult (s : DispatchState) (frame : Frame) (result : Int) : Int :=
  let ret := if s.closed then -1 else result
  if frame.writeHandler then ret
  else if frame.reason ≠ .protocolInit && frame.reason ≠ .httpBindProtocol && s.completed then -1
  else ret

/-- The frames left when the innermost one returns. -/
def markReentered : List Frame → List Frame
  | [] => []
  | frame :: frames => { frame with reentered := true } :: frames

/-- The handler call of the innermost frame returns and the frame ends. -/
def frameLeave (s : DispatchState) (result : Int) : DispatchState :=
  match s.stack with
  | [] => s
  | frame :: frames =>
    { s with
      dispatching := false
      dispatchReason := none
      stack := markReentered frames
      asked := s.asked && !frames.isEmpty
      log := s.log ++ [.returned frames s.asked (frameResult s frame result)] }

/-- The copy of code and reason that `lwsjs_socket_close` keeps for a WebSocket. -/
def stashClose (s : DispatchState) (isWs : Bool) (code : Nat) (reason : List UInt8) :
    DispatchState :=
  { s with
    closeCode := if isWs then some (code % 2 ^ 16) else s.closeCode
    closeReason := if isWs then reason else s.closeReason
    asked := s.asked || !s.stack.isEmpty }

/-- `lwsjs_socket_close`. -/
def lwsjsSocketClose (s : DispatchState) (isWs : Bool) (code : Nat) (reason : List UInt8) :
    DispatchState :=
  if !s.wsi then s
  else if s.dispatching && isDeferringReason s.dispatchReason then
    { s with asked := s.asked || !s.stack.isEmpty, deferred := s.deferred + 1 }
  else if s.dispatching then { stashClose s isWs code reason with closed := true }
  else { stashClose s isWs code reason with log := s.log ++ [.closeFreeWsi s.stack] }

def dispatchStep (s : DispatchState) : DispatchEvent → DispatchState
  | .enter reason writeHandler => frameEnter s reason writeHandler
  | .leave result => frameLeave s result
  | .close isWs code reason => lwsjsSocketClose s isWs code reason
  | .complete => { s with completed := true }
  | .destroy => { s with wsi := false }

end QjsLws.Protocol
