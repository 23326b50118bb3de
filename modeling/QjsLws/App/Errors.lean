import QjsLws.App.Layers
import QjsLws.Misc.Run

/-!
# The errors of one `dispatch`

A `dispatch` (`lib/lws/app.js`) and the values that its handlers throw and pass to `next`. All calls
of `run` share the index `i` into the layers. Handlers do what they like in any order, also after
they settled; the settling of a handler is seen where the `run` that awaits it goes on. The handler of
a mounted router is one among others.
-/

namespace QjsLws.App

open QjsLws.Misc

/-- A value that is thrown or passed to `next`: the `URIError` of `decodeURIComponent` for a layer's
parameter, or another value, with whether it is truthy and whether
`String(err.stack || err.message || err)` gives a string. -/
inductive ErrorValue where
  | uriError (layer : Nat)
  | other (id : Nat) (truthy printable : Bool)
  deriving DecidableEq, Repr

namespace ErrorValue

/-- The argument of `next()`. -/
def undefined : ErrorValue := .other 0 false true

/-- Whether the value counts as an error. -/
def truthy : ErrorValue → Bool
  | .uriError _ => true
  | .other _ truthy _ => truthy

/-- Whether the default answer can show the value. -/
def printable : ErrorValue → Bool
  | .uriError _ => true
  | .other _ _ printable => printable

end ErrorValue

/-- A call of a layer's handler: the position of the layer, the first argument where there are four,
the error of the `run` that made the call, the call whose `next()` started that `run` (none for the
first one), `advanced`, and whether the handler has not settled. -/
structure HandlerCall where
  layer : Nat
  argument : Option ErrorValue
  pending : ErrorValue
  origin : Option Nat
  advanced : Bool
  running : Bool

namespace HandlerCall

/-- The handler called `next()`. -/
def advance (call : HandlerCall) : HandlerCall := { call with advanced := true }

/-- The handler settled. -/
def settle (call : HandlerCall) : HandlerCall := { call with running := false }

end HandlerCall

/-- The variables of a `dispatch` with its calls, how often it answered with 500, and the `URIError`s
that left a `run`, by its origin and the layer. -/
structure Dispatching where
  i : Nat
  responded : Bool
  req : Exchange
  calls : List HandlerCall
  answers : Nat
  undecodable : List (Option Nat × Nat)

namespace Dispatching

/-- Changes a call. -/
def update (s : Dispatching) (c : Nat) (f : HandlerCall → HandlerCall) : Dispatching :=
  { s with calls := s.calls.modify c f }

/-- Whether the handler was called and has not settled. -/
def running (s : Dispatching) (c : Nat) : Bool := (s.calls[c]?).any HandlerCall.running

/-- `run(err)`, up to its first `await` or its end. -/
def run (layers : List Layer) (s : Dispatching) (origin : Option Nat) (err : ErrorValue) :
    Dispatching :=
  match select err.truthy (layers.drop s.i) s.req with
  | .drained req =>
    let responded := s.responded || err.truthy
    -- `String(…)` may throw before the answer is sent
    if err.truthy && !req.headersSent && err.printable then
      { s with i := layers.length, responded, req := req.answer, answers := s.answers + 1 }
    else { s with i := layers.length, responded, req }
  | .uriError req left =>
    let layer := layers.length - left.length - 1
    { s with i := layer + 1, req, undecodable := s.undecodable ++ [(origin, layer)] }
  | .calls _ req left =>
    let layer := layers.length - left.length - 1
    let argument := if err.truthy then some err else none
    { s with
      i := layer + 1
      req
      calls := s.calls ++ [⟨layer, argument, err, origin, false, true⟩] }

end Dispatching

/-- What happens next: a handler calls `next(err)`, is fulfilled or throws, or somebody changes the
request or the response, which never takes headers back. -/
inductive HandlerEvent where
  | callNext (c : Nat) (err : ErrorValue)
  | resolve (c : Nat)
  | reject (c : Nat) (err : ErrorValue)
  | changes (req : Exchange)

/-- One event; an event that is not possible changes nothing. -/
def handlerStep (layers : List Layer) (s : Dispatching) : HandlerEvent → Dispatching
  | .callNext c err =>
    match s.calls[c]? with
    | some _ => (s.update c .advance).run layers (some c) err
    | none => s
  | .resolve c =>
    match s.calls[c]? with
    | some call =>
      if call.running then
        { s.update c .settle with
          responded := s.responded || !call.advanced }
      else s
    | none => s
  | .reject c err =>
    match s.calls[c]? with
    | some call =>
      if call.running then
        (s.update c .settle).run layers call.origin err
      else s
    | none => s
  | .changes req =>
    { s with req := { req with
      headersSent := s.req.headersSent || req.headersSent
      sent := s.req.sent || req.sent } }

/-- The first `run()` of a `dispatch`. -/
def firstRun (layers : List Layer) (req : Exchange) : Dispatching :=
  Dispatching.run layers ⟨0, false, req, [], 0, []⟩ none .undefined

/-- The state after some events. -/
def dispatching (layers : List Layer) (req : Exchange) (events : List HandlerEvent) : Dispatching :=
  runFrom (handlerStep layers) (firstRun layers req) events

/-! ## Layering -/

/-- Whether a layer is for the request and takes an error, or takes none. -/
def Layer.takes (layer : Layer) (err : Bool) (req : Exchange) : Bool :=
  layer.method.all (· = req.method) && (layer.regex.exec req.path).isSome && layer.isError = err

/-- The next matching layer whose handler takes errors. -/
def Dispatching.nextErrorLayer (layers : List Layer) (s : Dispatching) : Option Nat :=
  ((layers.drop s.i).findIdx? (·.takes true s.req)).map (s.i + ·)

/-- The exception that was caught in the state `s` is the first argument of the next handler that
takes errors, or, if there is none, is answered with 500 unless headers were sent. -/
def Delivered (layers : List Layer) (s : Dispatching) (err : ErrorValue) (s' : Dispatching) : Prop :=
  match s.nextErrorLayer layers with
  | some layer => ∃ call, s'.calls[s.calls.length]? = some call ∧ call.layer = layer ∧
      call.argument = some err
  | none => s'.calls.length = s.calls.length ∧
      (s.req.headersSent = false → s'.answers = s.answers + 1 ∧ s'.req.headersSent = true)

/-- The error that an event passes to `run`. -/
def HandlerEvent.passes : HandlerEvent → Option ErrorValue
  | .callNext _ err | .reject _ err => some err
  | .resolve _ | .changes _ => none

/-- The law of layers and errors, for the events of a `dispatch`. -/
structure Layered (layers : List Layer) (req : Exchange) (events : List HandlerEvent) : Prop where
  /-- The handlers start in the order of the layers, each at most once. -/
  order : ((dispatching layers req events).calls.map HandlerCall.layer).Pairwise (· < ·)
  /-- A handler with three arguments is called when no error is pending, one with four arguments with
  the pending error. -/
  arguments : ∀ call ∈ (dispatching layers req events).calls, ∃ layer,
    layers[call.layer]? = some layer ∧ call.pending.truthy = layer.isError ∧
      call.argument = if layer.isError then some call.pending else none
  /-- The pending error of a call is the one of the event that led to it. -/
  pending : ∀ before event after, events = before ++ event :: after →
    ∀ call, (dispatching layers req (before ++ [event])).calls[
      (dispatching layers req before).calls.length]? = some call → event.passes = some call.pending
  /-- What a handler throws is delivered. -/
  thrown : ∀ before c err after, events = before ++ .reject c err :: after →
    (dispatching layers req before).running c = true →
      Delivered layers (dispatching layers req before) err
        (dispatching layers req (before ++ [.reject c err]))
  /-- What the matching of a layer throws is thrown on by a handler until all are settled. -/
  matching : (∀ c, (dispatching layers req events).running c = false) →
    ∀ origin layer, (origin, layer) ∈ (dispatching layers req events).undecodable →
      ∃ before c after, events = before ++ .reject c (.uriError layer) :: after ∧
        (dispatching layers req before).running c = true
  /-- There is one answer with 500 at most. -/
  answers : (dispatching layers req events).answers ≤ 1

/-! ## When the law holds -/

/-- No parameter fails to decode up to the next handler. -/
def Dispatching.Decodes (layers : List Layer) (s : Dispatching) (err : ErrorValue) : Prop :=
  ∀ req left, select err.truthy (layers.drop s.i) s.req ≠ .uriError req left

/-- What a handler throws is truthy, does not meet a parameter that fails to decode, and can be shown
where no handler takes it. Only in a `next()` of a handler that still runs does a parameter fail to
decode, and the handler then throws that error. -/
def Rethrown (layers : List Layer) (s : Dispatching) : HandlerEvent → Prop
  | .callNext c err => s.running c = true ∨ s.Decodes layers err
  | .resolve c => s.running c = true → ∀ layer, (some c, layer) ∉ s.undecodable
  | .reject c err => s.running c = true → err.truthy = true ∧ s.Decodes layers err ∧
      (s.nextErrorLayer layers = none → s.req.headersSent = false → err.printable = true) ∧
        ∀ layer, (some c, layer) ∈ s.undecodable → err = .uriError layer
  | .changes _ => True

end QjsLws.App
