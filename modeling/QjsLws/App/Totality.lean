import QjsLws.App.Dispatch

/-!
# One response for every request

What `listen` promises for a request (`lib/lws/app.js`), over the tasks of its `dispatch`: the request
comes to its end, and then one response was sent, by a handler, as the default answer to an error or
as the 404.
-/

namespace QjsLws.App

open QjsLws.Misc

/-! ## What a request still has to do -/

/-- The layers that are left to a `dispatch`. -/
def ChainState.leftAt (s : ChainState) (i : Nat) : Option (List Layer) :=
  match s.tasks[i]? with
  | some ⟨_, _, .dispatch left _ _, _⟩ => some left
  | _ => none

/-- The event is due: a handler may settle, or the chain goes on by itself. -/
def ChainState.Due (s : ChainState) : ChainEvent → Prop
  | .callNext .. | .changes _ | .answer => False
  | .finish i | .throws i _ => ∃ parent home id advanced,
    s.tasks[i]? = some ⟨parent, home, .handler id advanced, .pending⟩ ∧ s.childrenSettled i = true
  | .enter i => ∃ parent home path layers advanced,
    s.tasks[i]? = some ⟨parent, home, .mount path layers .called advanced, .pending⟩
  | .continueMount i => ∃ parent home path layers saved router advanced,
    s.tasks[i]? = some ⟨parent, home, .mount path layers (.dispatched saved router) advanced,
      .pending⟩ ∧ (s.promiseAt router).settled = true ∧ (s.leftAt home).isSome = true
  | .finishMount i => ∃ parent home path layers router advanced,
    s.tasks[i]? = some ⟨parent, home, .mount path layers (.continued router) advanced, .pending⟩
  | .resumeRun i => ∃ parent home call,
    s.tasks[i]? = some ⟨parent, home, .run (some call), .pending⟩ ∧
      (s.promiseAt call).settled = true ∧ (s.leftAt home).isSome = true
  | .settleDispatch i => ∃ parent home left responded first,
    s.tasks[i]? = some ⟨parent, home, .dispatch left responded first, .pending⟩ ∧
      (s.promiseAt first).settled = true

/-- Every task is settled. -/
def ChainState.Settled (s : ChainState) : Prop := ∀ t ∈ s.tasks, t.settled = true

/-! ## Who responds -/

/-- Who sends the headers of a response: a handler, the default answer to an error, or the 404. -/
inductive Sender where
  | handler
  | error
  | notFound
  deriving DecidableEq, Repr

/-- Who can send the headers in a step. -/
def senderOf (s : ChainState) : ChainEvent → Sender
  | .changes _ => .handler
  | .answer => if s.promiseAt 0 = .resolved (some false) then .notFound else .error
  | _ => .error

/-- Who sends the headers in a step, if somebody does. -/
def sends (s : ChainState) (event : ChainEvent) : Option Sender :=
  if s.req.headersSent || !(chainStep s event).req.headersSent then none
  else some (senderOf s event)

/-- Everybody who sends headers in a run. -/
def senders (s : ChainState) : List ChainEvent → List Sender
  | [] => []
  | event :: events => (sends s event).toList ++ senders (chainStep s event) events

/-- The `run(true)` that a step starts or goes on with: the layers that are left and the request. -/
def ChainState.runsWithError (s : ChainState) : ChainEvent → Option (List Layer × Exchange)
  | .callNext i true =>
    match s.tasks[i]? with
    | some ⟨_, home, .handler .., .pending⟩ => (s.leftAt home).map (·, s.req)
    | _ => none
  | .continueMount i =>
    match s.tasks[i]? with
    | some ⟨_, home, .mount _ _ (.dispatched saved router) _, .pending⟩ =>
      if s.promiseAt router = .rejected true then
        (s.leftAt home).map (·, { s.req with path := saved })
      else none
    | _ => none
  | .resumeRun i =>
    match s.tasks[i]? with
    | some ⟨_, home, .run (some call), .pending⟩ =>
      if s.promiseAt call = .rejected true then (s.leftAt home).map (·, s.req) else none
    | _ => none
  | _ => none

/-- The stack drains in the step, with an error pending. -/
def ChainState.DrainsWithError (s : ChainState) (event : ChainEvent) : Prop :=
  ∃ left req req', s.runsWithError event = some (left, req) ∧ select true left req = .drained req'

/-! ## The promise -/

/-- A request that nothing was answered to. -/
def newRequest (method path : Text) : Exchange := ⟨method, path, .empty, false, false⟩

/-- The promise of `listen`, for the events of a request. -/
structure Total (layers : List Layer) (req : Exchange) (events : List ChainEvent) : Prop where
  /-- Without more calls of `next()` the request comes to its end. -/
  ends : ∃ n, ∀ later, Along chainStep ChainState.Due
    (runFrom chainStep (chainStart layers req) events) later → later.length ≤ n
  /-- The end is reached only when every promise is settled. -/
  rest : (∀ event, ¬(runFrom chainStep (chainStart layers req) events).Due event) →
    (runFrom chainStep (chainStart layers req) events).Settled
  /-- When `listen` sees the outcome nothing is left to run, and exactly one response is finished. -/
  answered : ∀ before after, events = before ++ .answer :: after →
    (runFrom chainStep (chainStart layers req) before).promiseAt 0 ≠ .pending →
      (runFrom chainStep (chainStart layers req) before).Settled ∧
        (runFrom chainStep (chainStart layers req) (before ++ [.answer])).req.sent = true ∧
          ∃ sender, senders (chainStart layers req) (before ++ [.answer]) = [sender]
  /-- The default 500 is for an error that was pending when the stack drained. -/
  error : ∀ before event after, events = before ++ event :: after →
    sends (runFrom chainStep (chainStart layers req) before) event = some .error →
      (runFrom chainStep (chainStart layers req) before).DrainsWithError event
  /-- The 404 is for a stack that never drained with an error pending. -/
  notFound : ∀ before event after, events = before ++ event :: after →
    sends (runFrom chainStep (chainStart layers req) before) event = some .notFound →
      ∀ first earlier last, before = first ++ earlier :: last →
        ¬(runFrom chainStep (chainStart layers req) first).DrainsWithError earlier
  /-- After a handler that neither responded nor called `next()` comes the next matching layer. -/
  followed : ∀ before i after, events = before ++ .resumeRun i :: after →
    ∀ parent home call t, (runFrom chainStep (chainStart layers req) before).tasks[i]?
        = some ⟨parent, home, .run (some call), .pending⟩ →
      (runFrom chainStep (chainStart layers req) before).tasks[call]? = some t → t.took = true →
        (runFrom chainStep (chainStart layers req) before).req.headersSent = false →
          runFrom chainStep (chainStart layers req) (before ++ [.resumeRun i])
            = (runFrom chainStep (chainStart layers req) before).loop i
              ⟨parent, home, .run (some call), .pending⟩ false

/-- A handler finishes without `next()` only after it responded, throws truthy values, and works on
the request and the response only as long as it runs; a response that was begun is finished in the
end; mounted routers wait for their `next()`, and no parameter that fails to decode rejects the
`dispatch` of the app. -/
def Responsible (s : ChainState) (event : ChainEvent) : Prop :=
  Joined s event ∧
    match event with
    | .finish i => ∀ parent home id,
      s.tasks[i]? = some ⟨parent, home, .handler id false, .pending⟩ → s.childrenSettled i = true →
        s.req.headersSent = true
    | .throws _ err => err = true
    | .changes req =>
      (∃ (i : Nat) (parent : Option Nat) (home id : Nat) (advanced : Bool),
        s.tasks[i]? = some ⟨parent, home, .handler id advanced, .pending⟩) ∧
          (s.req.headersSent = true → req.headersSent = true) ∧
            (s.req.sent = true → req.sent = true) ∧ (req.sent = true → req.headersSent = true)
    | .settleDispatch i => i = 0 → ∀ parent home left responded first,
      s.tasks[i]? = some ⟨parent, home, .dispatch left responded first, .pending⟩ →
        ∀ err, s.promiseAt first ≠ .rejected err
    | .answer => s.promiseAt 0 ≠ .pending → s.req.headersSent = true → s.req.sent = true
    | _ => True

end QjsLws.App
