import QjsLws.App.Path

/-!
# Layers

The layer stack of `App` (`lib/lws/app.js`) and the loop of `dispatch` that picks the next handler
to call. `dispatch` is given here for handlers that finish, or call `next()` and await it without
catching its errors, before anything else happens to the request.
-/

namespace QjsLws.App

open QjsLws.Misc

/-- The fields of `req` that the chain reads and writes, and `res.headersSent` and `res.sent`. -/
structure Exchange where
  method : Text
  path : Text
  params : Assoc Text Text
  headersSent : Bool
  sent : Bool
  deriving DecidableEq

/-- `if(!res.headersSent) res.status(…).type('text/plain').end(…)`. -/
def Exchange.answer (req : Exchange) : Exchange :=
  if req.headersSent then req
  else
    { req with
      headersSent := true
      sent := true }

/-- A `Layer`: a handler registered by `use` (no method) or for a method, known by a number and
called with an error if it takes four arguments, or a router mounted at a path. -/
inductive Layer where
  | handler (method : Option Text) (regex : PathRegex) (keys : List Text) (isError : Bool) (id : Nat)
  | router (mountPath : Text) (regex : PathRegex) (keys : List Text) (layers : List Layer)

namespace Layer

/-- `layer.method`. -/
def method : Layer → Option Text
  | .handler method .. => method
  | .router .. => none

/-- `layer.regex`. -/
def regex : Layer → PathRegex
  | .handler _ regex .. => regex
  | .router _ regex .. => regex

/-- `layer.keys`. -/
def keys : Layer → List Text
  | .handler _ _ keys .. => keys
  | .router _ _ keys _ => keys

/-- `layer.isError`; the handler of a mounted router takes three arguments. -/
def isError : Layer → Bool
  | .handler _ _ _ isError _ => isError
  | .router .. => false

/-- Whether the layer's handler awaits the `next()` it calls; that of a mounted router does not. -/
def awaits : Layer → Bool
  | .handler .. => true
  | .router .. => false

end Layer

/-- `app.use(path, router)`. -/
def useRouter (layers : List Layer) (path : Text) (router : List Layer) : Option (List Layer) :=
  (compilePath path false).map fun (regex, keys) => layers ++ [.router path regex keys router]

/-- `app._route(method, path, [handler])`. -/
def route (layers : List Layer) (method path : Text) (isError : Bool) (id : Nat) :
    Option (List Layer) :=
  (compilePath path true).map fun (regex, keys) =>
    layers ++ [.handler (some method) regex keys isError id]

/-! ## The loop of `run` -/

/-- `req.params[key] = decodeURIComponent(value)` for each key; stops at the first `URIError`. -/
def assignParams : List (Text × Text) → Exchange → Exchange × Bool
  | [], req => (req, true)
  | (key, value) :: rest, req =>
    match decodeURIComponent value with
    | none => (req, false)
    | some decoded => assignParams rest { req with params := req.params.set key decoded }

/-- How the loop ends: with the stack drained, with a `URIError`, or at a handler to call, with the
layers that are left. -/
inductive Selection where
  | drained (req : Exchange)
  | uriError (req : Exchange) (left : List Layer)
  | calls (layer : Layer) (req : Exchange) (left : List Layer)

/-- The `while` loop of `run`; `err` says whether an error is being passed on. -/
def select (err : Bool) : List Layer → Exchange → Selection
  | [], req => .drained req
  | layer :: left, req =>
    if layer.method.any (· ≠ req.method) then select err left req
    else
      match layer.regex.exec req.path with
      | none => select err left req
      | some captured =>
        match assignParams (layer.keys.zip captured) req with
        | (req, false) => .uriError req left
        | (req, true) => if err ≠ layer.isError then select err left req else .calls layer req left

/-- The path a mounted router sees. -/
def strippedPath (mountPath path : Text) : Text :=
  let stripped := slice (unitLength mountPath) path
  if stripped = [] then ['/'] else stripped

/-! ## `dispatch` -/

/-- What a called handler does in the end: it takes the request, calls `next(err)` or throws. -/
inductive Action where
  | takes
  | next (err : Bool)
  | throws
  deriving DecidableEq, Repr

/-- The behaviour of a handler: whether it sends headers and ends the response, and what it does in
the end. -/
structure Behaviour where
  flushes : Bool
  sends : Bool
  action : Action
  deriving DecidableEq, Repr

/-- A call of a layer's handler and what it saw: the number of the handler, if it is not that of a
mounted router, and how many routers are mounted around the layer. -/
structure Call where
  id : Option Nat
  depth : Nat
  path : Text
  params : Assoc Text Text
  deriving DecidableEq

/-- The call, seen from the parent of its router. -/
def Call.inRouter (call : Call) : Call := { call with depth := call.depth + 1 }

/-- The end of a chain: whether its promise is rejected, whether a handler responded, the exchange
and the calls that were made. -/
structure ChainEnd where
  rejected : Bool
  responded : Bool
  req : Exchange
  calls : List Call

/-- What `dispatch` resolves to. -/
def ChainEnd.handled (c : ChainEnd) : Bool := c.responded || c.req.sent

/-- The chain after some calls. -/
def ChainEnd.after (calls : List Call) (c : ChainEnd) : ChainEnd :=
  { c with calls := calls ++ c.calls }

mutual

/-- `run(err)` over the layers that are left. An error that no layer took is answered with 500. A
`URIError` rejects the run; it is caught around the innermost of the handlers that await it, and
the chain goes on with the error after the layer that raised it. -/
def runChain (behave : Nat → Exchange → Behaviour) (awaiting : Nat) (err : Bool) :
    List Layer → Exchange → ChainEnd
  | [], req => ⟨false, err, if err then req.answer else req, []⟩
  | layer :: left, req =>
    if layer.method.any (· ≠ req.method) then runChain behave awaiting err left req
    else
      match layer.regex.exec req.path with
      | none => runChain behave awaiting err left req
      | some captured =>
        match assignParams (layer.keys.zip captured) req with
        | (req, false) =>
          match awaiting with
          | 0 => ⟨true, false, req, []⟩
          | awaiting + 1 => runChain behave awaiting true left req
        | (req, true) =>
          if err ≠ layer.isError then runChain behave awaiting err left req
          else
            match callLayer behave layer req with
            | (req, calls, .takes) => ⟨false, true, req, calls⟩
            | (req, calls, .next e) =>
              if layer.awaits then (runChain behave (awaiting + 1) e left req).after calls
              else { (runChain behave 0 e left req).after calls with rejected := false }
            | (req, calls, .throws) => (runChain behave awaiting true left req).after calls

/-- Calls the handler of a layer. A mounted router dispatches with the mount path cut off, and puts
the path back before the parent goes on. -/
def callLayer (behave : Nat → Exchange → Behaviour) :
    Layer → Exchange → Exchange × List Call × Action
  | .handler _ _ _ _ id, req =>
    let does := behave id req
    ({ req with
        headersSent := req.headersSent || does.flushes || does.sends
        sent := req.sent || does.sends },
      [⟨some id, 0, req.path, req.params⟩], does.action)
  | .router mountPath _ _ layers, req =>
    let inner := runChain behave 0 false layers { req with path := strippedPath mountPath req.path }
    ({ inner.req with path := req.path },
      ⟨none, 0, req.path, req.params⟩ :: inner.calls.map Call.inRouter,
      if inner.rejected then .next true else if inner.handled then .takes else .next false)

end

/-- `dispatch`. -/
def dispatch (behave : Nat → Exchange → Behaviour) (layers : List Layer) (req : Exchange) :
    ChainEnd := runChain behave 0 false layers req

end QjsLws.App
