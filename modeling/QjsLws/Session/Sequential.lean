import QjsLws.Misc.Run
import QjsLws.Session.Middleware

/-!
# Requests one after another

The middleware for a client that sends one request at a time, each with the session cookie issued
last, and for handlers that await the methods they call. `now` is the time of each store call.
-/

namespace QjsLws.Session

open QjsLws.Misc

/-- What a handler does with `req.session` and `res`. -/
inductive HandlerOp (ν : Type) where
  | assign (key : Text) (value : ν)
  | delete (key : Text)
  | sendHeaders
  | call (method : SessionMethod)
  deriving DecidableEq, Repr

/-- A request: when its session is loaded, what its handler does and when, and when it ends. -/
structure SequentialRequest (ν : Type) where
  start : Nat
  ops : List (Nat × HandlerOp ν)
  finish : Nat

/-- The store, the ids handed out, and the cookie the client holds. -/
structure SequentialState (ν : Type) where
  store : MemoryStore ν
  nextId : Nat
  cookie : Option Nat

/-- A new middleware and a client without a cookie. -/
def SequentialState.fresh {ν : Type} : SequentialState ν := ⟨.empty, 0, none⟩

/-- A request whose handler is running. -/
structure HandlerState (ν : Type) where
  store : MemoryStore ν
  nextId : Nat
  session : RequestSession ν

variable {ν : Type}

/-- The middleware up to `next()`. -/
def beginRequest (cfg : SessionConfig) (s : SequentialState ν) (now : Nat) : HandlerState ν :=
  let (fetched, store) :=
    match s.cookie with
    | none => (none, s.store)
    | some sid => s.store.get now sid
  let session := openSession cfg s.cookie fetched s.nextId
  { store, nextId := if session.isNew then s.nextId + 1 else s.nextId, session }

/-- An awaited call of a method. -/
def callMethod (cfg : SessionConfig) (now : Nat) (h : HandlerState ν) :
    SessionMethod → HandlerState ν
  | .destroy =>
    { h with
      store := h.store.destroy h.session.sid
      session := { h.session with destroyed := true }.afterDestroy }
  | .save =>
    { h with store := h.store.set now h.session.sid (snapshotKeys h.session.data) cfg.ttlMs }
  | .touch => { h with store := h.store.touch now h.session.sid cfg.ttlMs }
  | .regenerate =>
    { store := (h.store.destroy h.session.sid).set now h.nextId (snapshotKeys h.session.data)
        cfg.ttlMs
      nextId := h.nextId + 1
      session := h.session.afterGenId h.nextId }

/-- One operation of a handler; calling a method that was replaced throws. -/
def handlerStep (cfg : SessionConfig) (now : Nat) (h : HandlerState ν) :
    HandlerOp ν → Option (HandlerState ν)
  | .assign key value =>
    some { h with session := { h.session with data := assign h.session.data key value } }
  | .delete key =>
    some { h with session := { h.session with data := h.session.data.erase key } }
  | .sendHeaders => some { h with session := { h.session with headersSent := true } }
  | .call method => if h.session.hasMethod method then some (callMethod cfg now h method) else none

/-- The handler, up to its end or to an exception. -/
def runHandler (cfg : SessionConfig) (h : HandlerState ν) :
    List (Nat × HandlerOp ν) → HandlerState ν
  | [] => h
  | (now, op) :: ops =>
    match handlerStep cfg now h op with
    | some next => runHandler cfg next ops
    | none => h

/-- The request when its handler is done. -/
def handled (cfg : SessionConfig) (s : SequentialState ν) (request : SequentialRequest ν) :
    HandlerState ν :=
  runHandler cfg (beginRequest cfg s request.start) request.ops

variable [DecidableEq ν]

/-- A whole request; the client keeps the cookie it got last. -/
def serveRequest (cfg : SessionConfig) (s : SequentialState ν) (request : SequentialRequest ν) :
    SequentialState ν :=
  let h := handled cfg s request
  { store := h.session.finish cfg request.finish h.store
    nextId := h.nextId
    cookie := h.session.cookie.getD s.cookie }

end QjsLws.Session
