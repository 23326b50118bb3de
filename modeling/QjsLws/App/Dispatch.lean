import QjsLws.App.Layers
import QjsLws.Misc.Forest
import QjsLws.Misc.Run

/-!
# `dispatch` with asynchronous handlers

One request on its way through the layers of an app and the routers mounted in it
(`lib/lws/app.js`). Every invocation of `dispatch`, of `run` and of a handler is a task with a
promise; a task is started by its parent. Handlers of the user do what they like, in any order and
with any delay, but finish only after every `next()` they called. The loop of `run` up to the next
handler is one step.
-/

namespace QjsLws.App

open QjsLws.Misc

/-! ## Tasks -/

/-- The promise of a task: resolved to `undefined` or a boolean, or rejected with an error that is
truthy or not. -/
inductive Promise where
  | pending
  | resolved (value : Option Bool)
  | rejected (err : Bool)
  deriving DecidableEq, Repr

/-- Whether the promise is settled. -/
def Promise.settled : Promise → Bool
  | .pending => false
  | _ => true

/-- How far the handler of a mounted router is: called, waiting for the router's `dispatch` with the
path saved, or past its `then` or `catch`. -/
inductive MountPhase where
  | called
  | dispatched (saved : Text) (router : Nat)
  | continued (router : Nat)
  deriving DecidableEq

/-- The router's `dispatch`, once it was called. -/
def MountPhase.router : MountPhase → Option Nat
  | .called => none
  | .dispatched _ router | .continued router => some router

/-- What a task does. A `dispatch` has the layers from `i` on, `responded` and the task of its own
`run()`; a `run` has the handler's call it awaits; a call has `advanced`. -/
inductive Work where
  | dispatch (left : List Layer) (responded : Bool) (first : Nat)
  | run (awaits : Option Nat)
  | handler (id : Nat) (advanced : Bool)
  | mount (path : Text) (layers : List Layer) (phase : MountPhase) (advanced : Bool)

/-- A task: who started it, the `dispatch` whose variables it uses, what it does and its promise. -/
structure Task where
  parent : Option Nat
  home : Nat
  work : Work
  promise : Promise

namespace Task

/-- Whether the task's promise is settled. -/
def settled (t : Task) : Bool := t.promise.settled

/-- The call of a handler that finished without calling `next()`. -/
def took (t : Task) : Bool :=
  match t.work, t.promise with
  | .handler _ advanced, .resolved _ => !advanced
  | .mount _ _ _ advanced, .resolved _ => !advanced
  | _, _ => false

end Task

/-- The state of a request: its tasks, the exchange, and whether `listen` answered with 404. -/
structure ChainState where
  tasks : List Task
  req : Exchange
  notFound : Bool

namespace ChainState

/-- Replaces a task. -/
def put (s : ChainState) (i : Nat) (t : Task) : ChainState := { s with tasks := s.tasks.set i t }

/-- Adds a task. -/
def push (s : ChainState) (t : Task) : ChainState := { s with tasks := s.tasks ++ [t] }

/-- The call of a layer's handler. -/
def callOf : Layer → Work
  | .handler _ _ _ _ id => .handler id false
  | .router path _ _ layers => .mount path layers .called false

/-- The loop of `run(err)`, for the pending task `r` at position `i` that runs it: the stack is
drained, a parameter does not decode, or a handler is called. -/
def loop (s : ChainState) (i : Nat) (r : Task) (err : Bool) : ChainState :=
  match s.tasks[r.home]? with
  | some ⟨parent, home, .dispatch left responded first, promise⟩ =>
    match select err left s.req with
    | .drained req =>
      let finished := s.put r.home ⟨parent, home, .dispatch [] (responded || err) first, promise⟩
      { finished.put i { r with promise := .resolved none } with
        req := if err then req.answer else req }
    | .uriError req left =>
      let finished := s.put r.home ⟨parent, home, .dispatch left responded first, promise⟩
      { finished.put i { r with promise := .rejected true } with req := req }
    | .calls layer req left =>
      let finished := s.put r.home ⟨parent, home, .dispatch left responded first, promise⟩
      let waits := finished.put i { r with work := .run (some s.tasks.length) }
      { waits.push ⟨some i, r.home, callOf layer, .pending⟩ with req := req }
  | _ => s

/-- `run(err)`, called by the task `parent`. -/
def startRun (s : ChainState) (parent home : Nat) (err : Bool) : ChainState :=
  let r : Task := ⟨some parent, home, .run none, .pending⟩
  (s.push r).loop s.tasks.length r err

/-- `dispatch(req, res)` of an app or router. -/
def startDispatch (s : ChainState) (parent : Option Nat) (layers : List Layer) : ChainState :=
  let n := s.tasks.length
  (s.push ⟨parent, n, .dispatch layers false (n + 1), .pending⟩).startRun n n false

/-- Every task started by the task is settled. -/
def childrenSettled (s : ChainState) (i : Nat) : Bool :=
  s.tasks.all fun t => t.parent ≠ some i || t.settled

/-- The promise of a task. -/
def promiseAt (s : ChainState) (i : Nat) : Promise := (s.tasks[i]?).elim .pending Task.promise

end ChainState

/-! ## Steps -/

/-- What happens next: a user's handler calls `next(err)`, finishes or throws after every `next()`
it called, or changes the request or the response; the handler of a mounted router calls
`dispatch`, goes on in `then` or `catch`, or settles; a `run` or a `dispatch` goes on after its
`await`; `listen` sees the outcome. -/
inductive ChainEvent where
  | callNext (i : Nat) (err : Bool)
  | finish (i : Nat)
  | throws (i : Nat) (err : Bool)
  | changes (req : Exchange)
  | enter (i : Nat)
  | continueMount (i : Nat)
  | finishMount (i : Nat)
  | resumeRun (i : Nat)
  | settleDispatch (i : Nat)
  | answer

/-- One event; an event that is not possible changes nothing. -/
def chainStep (s : ChainState) : ChainEvent → ChainState
  | .callNext i err =>
    match s.tasks[i]? with
    | some ⟨parent, home, .handler id _, .pending⟩ =>
      (s.put i ⟨parent, home, .handler id true, .pending⟩).startRun i home err
    | _ => s
  | .finish i =>
    match s.tasks[i]? with
    | some ⟨parent, home, .handler id advanced, .pending⟩ =>
      if s.childrenSettled i then s.put i ⟨parent, home, .handler id advanced, .resolved none⟩
      else s
    | _ => s
  | .throws i err =>
    match s.tasks[i]? with
    | some ⟨parent, home, .handler id advanced, .pending⟩ =>
      if s.childrenSettled i then s.put i ⟨parent, home, .handler id advanced, .rejected err⟩
      else s
    | _ => s
  | .changes req => { s with req := req }
  | .enter i =>
    match s.tasks[i]? with
    | some ⟨parent, home, .mount path layers .called advanced, .pending⟩ =>
      let entered := s.put i ⟨parent, home,
        .mount path layers (.dispatched s.req.path s.tasks.length) advanced, .pending⟩
      ChainState.startDispatch
        { entered with req := { s.req with path := strippedPath path s.req.path } } (some i) layers
    | _ => s
  | .continueMount i =>
    match s.tasks[i]? with
    | some ⟨parent, home, .mount path layers (.dispatched saved router) advanced, .pending⟩ =>
      let finished (advanced : Bool) : ChainState :=
        { s.put i ⟨parent, home, .mount path layers (.continued router) advanced, .pending⟩ with
          req := { s.req with path := saved } }
      match s.promiseAt router with
      | .pending => s
      | .resolved value => if value = some true then finished advanced
        else (finished true).startRun i home false
      | .rejected err => (finished true).startRun i home err
    | _ => s
  | .finishMount i =>
    match s.tasks[i]? with
    | some ⟨parent, home, .mount path layers (.continued router) advanced, .pending⟩ =>
      s.put i ⟨parent, home, .mount path layers (.continued router) advanced, .resolved none⟩
    | _ => s
  | .resumeRun i =>
    match s.tasks[i]? with
    | some ⟨parent, home, .run (some call), .pending⟩ =>
      match s.tasks[call]?, s.tasks[home]? with
      | some t, some ⟨above, own, .dispatch left responded first, promise⟩ =>
        match t.promise with
        | .pending => s
        | .resolved _ =>
          (s.put home ⟨above, own, .dispatch left (responded || t.took) first, promise⟩).put i
            ⟨parent, home, .run (some call), .resolved none⟩
        | .rejected err => s.loop i ⟨parent, home, .run (some call), .pending⟩ err
      | _, _ => s
    | _ => s
  | .settleDispatch i =>
    match s.tasks[i]? with
    | some ⟨parent, home, .dispatch left responded first, .pending⟩ =>
      match s.promiseAt first with
      | .pending => s
      | .resolved _ => s.put i
        ⟨parent, home, .dispatch left responded first, .resolved (some (responded || s.req.sent))⟩
      | .rejected err => s.put i ⟨parent, home, .dispatch left responded first, .rejected err⟩
    | _ => s
  | .answer =>
    match s.promiseAt 0 with
    | .resolved (some false) =>
      { s with
        notFound := s.notFound || !s.req.headersSent
        req := s.req.answer }
    | .rejected _ => { s with req := s.req.answer }
    | _ => s

/-- `app.dispatch(req, res)`, as `listen` calls it. -/
def chainStart (layers : List Layer) (req : Exchange) : ChainState :=
  ChainState.startDispatch ⟨[], req, false⟩ none layers

/-! ## Completion -/

namespace ChainState

/-- The second task is the first one or was started below it. -/
def Below (s : ChainState) (i j : Nat) : Prop := Forest.Below Task.parent s.tasks i j

/-- A settled `dispatch` has no unfinished task below it, one that resolved to `false` has no
handler below it that took the request, and 404 is sent only when nothing is left to run. -/
structure Complete (s : ChainState) : Prop where
  settled : ∀ i d left responded first, s.tasks[i]? = some d →
    d.work = .dispatch left responded first → d.settled = true →
      ∀ j t, s.Below i j → s.tasks[j]? = some t → t.settled = true
  untaken : ∀ i d left responded first, s.tasks[i]? = some d →
    d.work = .dispatch left responded first → d.promise = .resolved (some false) →
      ∀ j t, s.Below i j → s.tasks[j]? = some t → t.took = false
  notFound : s.notFound = true → ∀ (j : Nat) (t : Task), s.tasks[j]? = some t → t.settled = true ∧ t.took = false

end ChainState

/-- The handler of a mounted router settles only after the `run()` it started with `next()`, and the
`dispatch` of a router is not rejected after a handler of it took the request. -/
def Joined (s : ChainState) : ChainEvent → Prop
  | .finishMount i => s.childrenSettled i = true
  | .settleDispatch i =>
    ∀ parent home left responded first, s.tasks[i]? = some
      ⟨some parent, home, .dispatch left responded first, .pending⟩ →
      (∃ err, s.promiseAt first = .rejected err) → responded = false
  | _ => True

end QjsLws.App
