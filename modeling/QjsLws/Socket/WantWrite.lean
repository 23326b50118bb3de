import QjsLws.Socket.WriteQueue

/-!
# Waiting for a writeable socket

All waiters of a wsi share the flag `want_write` and the slot `write_handler` of `LWSSocket`:
`waitWrite` (`lib/lws/util.js`) puts the resolve function of its promise there, `WebSocket.send`
(`lib/websocket.js`) the function that dispatches `drain`. `lwsjs_callback_protocol`
(`lws-protocol.c`) empties the slot before it calls the handler, and does nothing of its own
afterwards, so what a handler calls are the operations that follow.
-/

namespace QjsLws.Socket

/-- What `wsi.wantWrite` was given: the resolve function of a promise of `waitWrite`, named by the
order of the calls, or the function of `send`. -/
inductive WriteHandler where
  | resolve (wait : Nat)
  | drain
  deriving DecidableEq, Repr

/-- A call of a handler, and the write queue it was called over. -/
structure HandlerRun where
  handler : WriteHandler
  queue : List WriteChunk
  deriving DecidableEq, Repr

/-- `want_write` and `write_handler` beside the write queue, the number of `waitWrite` calls, the
promises they rejected, and the handlers called so far. -/
structure Waiting where
  socket : LWSSocket
  wantWrite : Bool
  writeHandler : Option WriteHandler
  waits : Nat
  rejected : List Nat
  runs : List HandlerRun
  deriving DecidableEq, Repr

namespace Waiting

/-- A freshly attached socket. -/
def fresh : Waiting := ⟨.fresh, false, none, 0, [], []⟩

/-- `lwsjs_socket_want_write`: the boolean it returns, if any, or the exception it throws. -/
def lwsjsSocketWantWrite (handler : WriteHandler) (s : Waiting) :
    Except String (Option Bool) × Waiting :=
  if !s.socket.wsi then (.error "InternalError: lwsjs_socket_want_write: s->wsi == NULL", s)
  else if !s.wantWrite then
    (.ok (some true), { s with
      socket := { s.socket with
        writableRequested := true
        log := s.socket.log ++ [.callbackOnWritable] }
      wantWrite := true
      writeHandler := some handler })
  else (.ok none, s)

/-- `waitWrite`. What the executor throws rejects the promise. -/
def waitWrite (s : Waiting) : Waiting :=
  match lwsjsSocketWantWrite (.resolve s.waits) { s with waits := s.waits + 1 } with
  | (.ok _, s') => s'
  | (.error _, s') => { s' with rejected := s'.rejected ++ [s.waits] }

/-- `WebSocket.send`: a write that throws skips the rest. -/
def send (lws : Lws) (roleWs : Bool) (data : WriteData) (s : Waiting) : Waiting :=
  match lwsjsSocketWrite lws s.socket roleWs data [] with
  | (.error _, socket) => { s with socket }
  | (.ok _, socket) =>
    if socket.writeBuffered > 0 then (lwsjsSocketWantWrite .drain { s with socket }).2
    else { s with socket }

/-- The wait of a socket that a WRITEABLE callback found flushed. -/
def callHandler (s : Waiting) : Waiting :=
  if s.wantWrite && s.socket.writeQueue.isEmpty then
    match s.writeHandler with
    | none => { s with wantWrite := false }
    | some handler =>
      { s with
        wantWrite := false
        writeHandler := none
        runs := s.runs ++ [⟨handler, s.socket.writeQueue⟩] }
  else s

/-- A WRITEABLE callback. -/
def writeable (lws : Lws) (s : Waiting) : Waiting :=
  { s with socket := writeStep lws s.socket .writeable }.callHandler

end Waiting

/-- What happens on one wsi. -/
inductive WaitOp where
  | waitWrite
  | send (roleWs : Bool) (data : WriteData)
  | write (roleWs : Bool) (data : WriteData) (args : List WriteArg)
  | writeable
  deriving DecidableEq, Repr

/-- A promise that `waitWrite` returned; `overlaps` says that another wait or a `drain` was
pending at the call. -/
structure Wait where
  id : Nat
  overlaps : Bool
  deriving DecidableEq, Repr

/-- The socket, the promises still to be resolved and those whose turn has come. -/
structure Waits where
  state : Waiting
  outstanding : List Wait
  due : List Nat
  deriving DecidableEq, Repr

namespace Waits

/-- A freshly attached socket that nobody waits for. -/
def fresh : Waits := ⟨.fresh, [], []⟩

/-- One operation. A WRITEABLE callback that finds the queue empty is the turn of every promise
outstanding. -/
def step (lws : Lws) (s : Waits) : WaitOp → Waits
  | .waitWrite =>
    { s with
      state := s.state.waitWrite
      outstanding := s.outstanding ++ [⟨s.state.waits, s.state.wantWrite⟩] }
  | .send roleWs data => { s with state := s.state.send lws roleWs data }
  | .write roleWs data args =>
    { s with
      state := { s.state with socket := writeStep lws s.state.socket (.write roleWs data args) } }
  | .writeable =>
    let state := s.state.writeable lws
    if state.socket.writeQueue.isEmpty then ⟨state, [], s.due ++ s.outstanding.map Wait.id⟩
    else { s with state }

/-- How often the promise of a wait was resolved. -/
def resolutions (s : Waits) (wait : Nat) : Nat :=
  (s.state.runs.map HandlerRun.handler).count (.resolve wait)

/-- No wakeup is lost. -/
structure NoLostWakeup (s : Waits) : Prop where
  resolved : ∀ wait, s.resolutions wait = if wait ∈ s.due then 1 else 0
  drained : ∀ run ∈ s.state.runs, run.queue = []
  requested : s.outstanding ≠ [] → s.state.socket.writableRequested = true

/-- A WRITEABLE callback that finds the queue empty does so while no wait is outstanding that
overlapped with another. -/
def Alone (lws : Lws) (s : Waits) : WaitOp → Prop
  | .writeable => (writeStep lws s.state.socket .writeable).writeQueue = [] →
      ∀ wait ∈ s.outstanding, wait.overlaps = false
  | _ => True

end Waits

end QjsLws.Socket
