import QjsLws.Misc.Run
import QjsLws.Session.Middleware

/-!
# Overlapping requests

Any number of requests pass through one `sessionMiddleware` over one `MemoryStore`. Their
stretches of code between two awaits are the events, in any order. A handler may also leave a
promise of `destroy()` or `regenerate()` behind and return.
-/

namespace QjsLws.Session

open QjsLws.Misc

/-- A request whose handler was called: the calls of `destroy` and `regenerate` that wait for the
removal of an id, the latter with `preserved`, the calls of `regenerate` that wait for `genId`, and
whether the `finally` block has run. -/
structure OpenRequest (ν : Type) where
  session : RequestSession ν
  destroying : List Nat
  removing : List (Nat × SessionData ν)
  regenerating : List (SessionData ν)
  finished : Bool

/-- Where a request is. -/
inductive RequestPhase (ν : Type) where
  | loading (sid : Option Nat) (fetched : Option (SessionData ν))
  | opened (request : OpenRequest ν)

/-- What the revocation of ids is judged by: removals by `destroy()` and `regenerate()` that are
complete, explicit `save()` calls, and `store.get` calls with whether they returned data. -/
inductive SessionEvent where
  | revoked (sid : Nat)
  | saved (sid : Nat)
  | got (sid : Nat) (found : Bool)
  deriving DecidableEq, Repr

/-- The store, the clock, the number of ids `genId` has handed out, and the requests. -/
structure OverlapState (ν : Type) where
  store : MemoryStore ν
  now : Nat
  nextId : Nat
  requests : Assoc Nat (RequestPhase ν)
  log : List SessionEvent

/-- A new middleware. -/
def OverlapState.fresh {ν : Type} : OverlapState ν := ⟨.empty, 0, 0, .empty, []⟩

/-- The next stretch of a request, or time passing. -/
inductive OverlapEvent (ν : Type) where
  | arrive (request : Nat) (cookie : Option Nat)
  | opened (request : Nat)
  | assign (request : Nat) (key : Text) (value : ν)
  | delete (request : Nat) (key : Text)
  | sendHeaders (request : Nat)
  | call (request : Nat) (method : SessionMethod)
  | destroyed (request : Nat)
  | removed (request : Nat)
  | regenerated (request : Nat)
  | finish (request : Nat)
  | tick (ms : Nat)

variable {ν : Type}

namespace OverlapState

/-- The request, once its handler was called. -/
def openRequest (s : OverlapState ν) (request : Nat) : Option (OpenRequest ν) :=
  match s.requests.get request with
  | some (.opened r) => some r
  | _ => none

/-- Stores the request. -/
def setRequest (s : OverlapState ν) (request : Nat) (r : OpenRequest ν) : OverlapState ν :=
  { s with requests := s.requests.set request (.opened r) }

/-- The part of a method up to its first await. -/
def callMethod (cfg : SessionConfig) (s : OverlapState ν) (request : Nat) (r : OpenRequest ν) :
    SessionMethod → OverlapState ν
  | .destroy =>
    { s.setRequest request { r with
        session := { r.session with destroyed := true }
        destroying := r.destroying ++ [r.session.sid] } with
      store := s.store.destroy r.session.sid }
  | .save =>
    { s with
      store := s.store.set s.now r.session.sid (snapshotKeys r.session.data) cfg.ttlMs
      log := s.log ++ [.saved r.session.sid] }
  | .touch => { s with store := s.store.touch s.now r.session.sid cfg.ttlMs }
  | .regenerate =>
    { s.setRequest request { r with
        removing := r.removing ++ [(r.session.sid, snapshotKeys r.session.data)] } with
      store := s.store.destroy r.session.sid }

variable [DecidableEq ν]

/-- One event of an open request. -/
def requestStep (cfg : SessionConfig) (s : OverlapState ν) (request : Nat) (r : OpenRequest ν) :
    OverlapEvent ν → OverlapState ν
  | .assign _ key value =>
    s.setRequest request { r with
      session := { r.session with data := Session.assign r.session.data key value } }
  | .delete _ key =>
    s.setRequest request { r with
      session := { r.session with data := r.session.data.erase key } }
  | .sendHeaders _ =>
    s.setRequest request { r with session := { r.session with headersSent := true } }
  | .call _ method => if r.session.hasMethod method then s.callMethod cfg request r method else s
  | .destroyed _ =>
    match r.destroying with
    | [] => s
    | sid :: rest =>
      { s.setRequest request { r with session := r.session.afterDestroy, destroying := rest } with
        log := s.log ++ [.revoked sid] }
  | .removed _ =>
    match r.removing with
    | [] => s
    | (sid, preserved) :: rest =>
      { s.setRequest request { r with
          removing := rest, regenerating := r.regenerating ++ [preserved] } with
        log := s.log ++ [.revoked sid] }
  | .regenerated _ =>
    match r.regenerating with
    | [] => s
    | preserved :: rest =>
      { s.setRequest request { r with
          session := r.session.afterGenId s.nextId, regenerating := rest } with
        store := s.store.set s.now s.nextId preserved cfg.ttlMs
        nextId := s.nextId + 1 }
  | .finish _ =>
    if r.finished then s
    else
      { s.setRequest request { r with finished := true } with
        store := r.session.finish cfg s.now s.store }
  | _ => s

end OverlapState

/-- The request an event belongs to. -/
def OverlapEvent.request : OverlapEvent ν → Option Nat
  | .arrive r _ | .opened r | .assign r .. | .delete r _ | .sendHeaders r | .call r _
  | .destroyed r | .removed r | .regenerated r | .finish r => some r
  | .tick _ => none

variable [DecidableEq ν]

/-- One event. -/
def overlapStep (cfg : SessionConfig) (s : OverlapState ν) (event : OverlapEvent ν) :
    OverlapState ν :=
  match event with
  | .tick ms => { s with now := s.now + ms }
  | .arrive request cookie =>
    match cookie with
    | none => { s with requests := s.requests.set request (.loading none none) }
    | some sid =>
      let (fetched, store) := s.store.get s.now sid
      { s with
        store
        requests := s.requests.set request (.loading cookie fetched)
        log := s.log ++ [.got sid fetched.isSome] }
  | .opened request =>
    match s.requests.get request with
    | some (.loading sid fetched) =>
      let session := openSession cfg sid fetched s.nextId
      { s.setRequest request ⟨session, [], [], [], false⟩ with
        nextId := if session.isNew then s.nextId + 1 else s.nextId }
    | _ => s
  | event =>
    match event.request.bind s.openRequest, event.request with
    | some r, some request => s.requestStep cfg request r event
    | _, _ => s

end QjsLws.Session
