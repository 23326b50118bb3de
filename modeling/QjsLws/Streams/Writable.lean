import Mathlib.Data.List.Basic
import QjsLws.Misc.Access

/-!
# Writable streams

`WritableStream` of `lib/lws/streams.js`, with its default controller and its writer. The requests are known by
the number of the promise that was made for them, and a promise that is pending is one whose `resolve` and
`reject` are still kept. What the underlying sink does is not known: its promises are settled at any time, and
a call is made between any two of them.
-/

namespace QjsLws.Streams

variable {α ε : Type}

/-- What escapes from a function. -/
inductive JsError where
  | assertionError
  | typeError
  | referenceError
  deriving DecidableEq, Repr

/-- What a promise is rejected with. -/
inductive Reason (ε : Type) where
  | undefined
  | given (e : ε)
  | typeError (message : String)
  | rangeError (message : String)
  deriving DecidableEq, Repr

def Reason.isUndefined : Reason ε → Bool
  | .undefined => true
  | _ => false

/-- `assert_default`. -/
def assert (test : Prop) [Decidable test] : Except JsError Unit :=
  if test then pure () else throw .assertionError

inductive PromiseState (ε : Type) where
  | pending
  | fulfilled
  | rejected (reason : Reason ε)
  deriving DecidableEq, Repr

/-- Whether the promise still has its `resolve` and `reject`. -/
def PromiseState.isPending : PromiseState ε → Bool
  | .pending => true
  | _ => false

inductive WritableState where
  | writable
  | erroring
  | errored
  | closed
  deriving DecidableEq, Repr

/-- What the promise of a request was made for. -/
inductive RequestKind where
  | write
  | close
  | abort
  deriving DecidableEq, Repr

/-- A settled promise. -/
structure Settled (ε : Type) where
  kind : RequestKind
  promise : Nat
  result : Except (Reason ε) Unit

/-- A call of the underlying sink, or how the promise of the last one was settled. -/
inductive SinkEvent (α ε : Type) where
  | write (chunk : α)
  | close
  | abort (reason : Reason ε)
  | fulfilled
  | rejected
  deriving DecidableEq, Repr

/-- `readyPromise` and `closedPromise`. -/
structure Writer (ε : Type) where
  ready : PromiseState ε
  closed : PromiseState ε
  deriving DecidableEq, Repr

structure AbortRequest (ε : Type) where
  promise : Nat
  reason : Reason ε
  wasAlreadyErroring : Bool
  deriving DecidableEq, Repr

/-- An entry of the queue; the value `none` is `closeSentinel`. Sizes are the natural numbers among the finite numbers
that the source takes: others, and sums that are rounded, are left out. -/
structure QueueEntry (α : Type) where
  value : Option α
  size : Nat
  deriving DecidableEq, Repr

/-- What `strategySizeAlgorithm` does: a natural number, what is no finite non-negative number, or an exception. -/
inductive SizeResult (ε : Type) where
  | size (n : Nat)
  | invalid
  | throws (reason : Reason ε)
  deriving DecidableEq, Repr

/-- The stream and its controller, which promises of the sink are pending, the number of promises made, and what
was accepted, passed to the sink and settled. -/
structure WritableStream (α ε : Type) where
  state : WritableState
  storedError : Reason ε
  writer : Option (Writer ε)
  writeRequests : List Nat
  inFlightWriteRequest : Option Nat
  closeRequest : Option Nat
  inFlightCloseRequest : Option Nat
  pendingAbortRequest : Option (AbortRequest ε)
  backpressure : Bool
  queue : List (QueueEntry α)
  queueTotalSize : Nat
  started : Bool
  strategyHWM : Nat
  algorithms : Bool
  startPromise : Bool
  sinkWritePromise : Bool
  sinkClosePromise : Bool
  sinkAbortPromise : Option Nat
  promises : Nat
  written : List (Nat × α)
  sink : List (SinkEvent α ε)
  settled : List (Settled ε)

namespace Writer

/-- `defaultWriterClosedPromiseReject`. -/
def rejectClosed (w : Writer ε) (reason : Reason ε) : Writer ε :=
  if w.closed.isPending then { w with closed := .rejected reason } else w

/-- `defaultWriterClosedPromiseResolve`. -/
def resolveClosed (w : Writer ε) : Writer ε := if w.closed.isPending then { w with closed := .fulfilled } else w

/-- `defaultWriterReadyPromiseResolve`. -/
def resolveReady (w : Writer ε) : Writer ε := if w.ready.isPending then { w with ready := .fulfilled } else w

/-- `WritableStreamDefaultWriterEnsureReadyPromiseRejected`: the promise, or a new one, is rejected. -/
def ensureReadyRejected (w : Writer ε) (error : Reason ε) : Writer ε := { w with ready := .rejected error }

end Writer

namespace WritableStream

/-- A promise is settled. -/
def settle (s : WritableStream α ε) (kind : RequestKind) (promise : Nat) (result : Except (Reason ε) Unit) :
    WritableStream α ε :=
  { s with settled := s.settled ++ [⟨kind, promise, result⟩] }

/-- The sink is called, or answers. -/
def tell (s : WritableStream α ε) (e : SinkEvent α ε) : WritableStream α ε := { s with sink := s.sink ++ [e] }

/-- A promise is made. -/
def newPromise (s : WritableStream α ε) : WritableStream α ε := { s with promises := s.promises + 1 }

/-- `promiseRejectedWith`. -/
def promiseRejectedWith (s : WritableStream α ε) (kind : RequestKind) (reason : Reason ε) : WritableStream α ε :=
  s.newPromise.settle kind s.promises (.error reason)

/-! ## The queue -/

/-- `DequeueValue`. -/
def dequeueValue (s : WritableStream α ε) : Except JsError (WritableStream α ε) :=
  match s.queue with
  | [] => throw .assertionError
  | pair :: queue => return { s with queue, queueTotalSize := s.queueTotalSize - pair.size }

/-- `EnqueueValueWithSize` of a size that is a natural number, where the sum is exact. -/
def enqueueValueWithSize (s : WritableStream α ε) (value : Option α) (size : Nat) : WritableStream α ε :=
  { s with queue := s.queue ++ [⟨value, size⟩], queueTotalSize := s.queueTotalSize + size }

/-- `ResetQueue`. -/
def resetQueue (s : WritableStream α ε) : WritableStream α ε := { s with queue := [], queueTotalSize := 0 }

/-! ## The state of the stream -/

/-- `WritableStreamDefaultControllerGetDesiredSize`. -/
def getDesiredSize (s : WritableStream α ε) : Int := s.strategyHWM - s.queueTotalSize

/-- `WritableStreamDefaultControllerGetBackpressure`. -/
def getBackpressure (s : WritableStream α ε) : Bool := decide (s.getDesiredSize ≤ 0)

/-- `WritableStreamCloseQueuedOrInFlight`. -/
def closeQueuedOrInFlight (s : WritableStream α ε) : Bool :=
  s.closeRequest.isSome || s.inFlightCloseRequest.isSome

/-- `WritableStreamHasOperationMarkedInFlight`. -/
def hasOperationMarkedInFlight (s : WritableStream α ε) : Bool :=
  s.inFlightWriteRequest.isSome || s.inFlightCloseRequest.isSome

/-- `WritableStreamDefaultControllerClearAlgorithms`. -/
def clearAlgorithms (s : WritableStream α ε) : WritableStream α ε := { s with algorithms := false }

/-- A call of an algorithm, which is `undefined` once it is cleared. -/
def callAlgorithm (s : WritableStream α ε) : Except JsError Unit :=
  if s.algorithms then pure () else throw .typeError

/-- `WritableStreamUpdateBackpressure`. -/
def updateBackpressure (s : WritableStream α ε) (backpressure : Bool) : Except JsError (WritableStream α ε) := do
  assert (s.state = .writable)
  assert (s.closeQueuedOrInFlight = false)
  match s.writer with
  | none => return { s with backpressure }
  | some writer =>
    if backpressure = s.backpressure then return { s with backpressure }
    if backpressure then
      assert (writer.ready.isPending = false)
      return { s with writer := some { writer with ready := .pending }, backpressure }
    else return { s with writer := some writer.resolveReady, backpressure }

/-- The part of a write and of its reaction that brings `backpressure` up to date. -/
def refreshBackpressure (s : WritableStream α ε) : Except JsError (WritableStream α ε) :=
  if s.closeQueuedOrInFlight = false ∧ s.state = .writable then s.updateBackpressure s.getBackpressure
  else return s

/-- The part of the next function for a request to close. -/
def rejectCloseRequest (s : WritableStream α ε) : Except JsError (WritableStream α ε) :=
  match s.closeRequest with
  | none => return s
  | some promise => do
    assert (s.inFlightCloseRequest = none)
    return { s.settle .close promise (.error s.storedError) with closeRequest := none }

/-- `WritableStreamRejectCloseAndClosedPromiseIfNeeded`. -/
def rejectCloseAndClosedPromiseIfNeeded (s : WritableStream α ε) : Except JsError (WritableStream α ε) := do
  assert (s.state = .errored)
  let s ← s.rejectCloseRequest
  return { s with writer := s.writer.map fun writer => writer.rejectClosed s.storedError }

/-- The part of `WritableStreamFinishErroring` in which the requests to write are rejected. -/
def rejectRequests (s : WritableStream α ε) : WritableStream α ε :=
  let rejected := s.writeRequests.map fun promise => ⟨.write, promise, .error s.storedError⟩
  { s.resetQueue with state := .errored, settled := s.settled ++ rejected, writeRequests := [] }

/-- The part of `WritableStreamFinishErroring` for a request to abort. -/
def finishAbort (s : WritableStream α ε) (abortRequest : AbortRequest ε) :
    Except JsError (WritableStream α ε) :=
  let s := { s with pendingAbortRequest := none }
  if abortRequest.wasAlreadyErroring then
    (s.settle .abort abortRequest.promise (.error s.storedError)).rejectCloseAndClosedPromiseIfNeeded
  else do
    s.callAlgorithm
    let s := s.tell (.abort abortRequest.reason)
    return { s.clearAlgorithms with sinkAbortPromise := some abortRequest.promise }

/-- `WritableStreamFinishErroring`. -/
def finishErroring (s : WritableStream α ε) : Except JsError (WritableStream α ε) := do
  assert (s.state = .erroring)
  assert (s.hasOperationMarkedInFlight = false)
  let s := s.rejectRequests
  match s.pendingAbortRequest with
  | none => s.rejectCloseAndClosedPromiseIfNeeded
  | some abortRequest => s.finishAbort abortRequest

/-- `WritableStreamStartErroring`. -/
def startErroring (s : WritableStream α ε) (reason : Reason ε) : Except JsError (WritableStream α ε) := do
  assert s.storedError.isUndefined
  assert (s.state = .writable)
  let s := { s with
    state := .erroring
    storedError := reason
    writer := s.writer.map fun writer => writer.ensureReadyRejected reason }
  if s.hasOperationMarkedInFlight = false ∧ s.started then s.finishErroring else return s

/-- `WritableStreamDealWithRejection`. -/
def dealWithRejection (s : WritableStream α ε) (error : Reason ε) : Except JsError (WritableStream α ε) := do
  if s.state = .writable then s.startErroring error
  else
    assert (s.state = .erroring)
    s.finishErroring

/-- `WritableStreamDefaultControllerError`. -/
def controllerError (s : WritableStream α ε) (error : Reason ε) : Except JsError (WritableStream α ε) := do
  assert (s.state = .writable)
  s.clearAlgorithms.startErroring error

/-- `WritableStreamDefaultControllerErrorIfNeeded`. -/
def errorIfNeeded (s : WritableStream α ε) (error : Reason ε) : Except JsError (WritableStream α ε) :=
  if s.state = .writable then s.controllerError error else return s

/-- The part of the next function for `closeSentinel`. -/
def advanceClose (s : WritableStream α ε) : Except JsError (WritableStream α ε) := do
  assert (s.inFlightCloseRequest = none)
  assert (s.closeRequest ≠ none)
  let s := { s with inFlightCloseRequest := s.closeRequest, closeRequest := none }
  let s ← s.dequeueValue
  assert (s.queue = [])
  s.callAlgorithm
  let s := s.tell .close
  return { s.clearAlgorithms with sinkClosePromise := true }

/-- The part of the next function for a chunk. -/
def advanceWrite (s : WritableStream α ε) (chunk : α) : Except JsError (WritableStream α ε) :=
  match s.writeRequests with
  | [] => throw .assertionError
  | promise :: writeRequests => do
    let s := { s with inFlightWriteRequest := some promise, writeRequests }
    s.callAlgorithm
    return { s.tell (.write chunk) with sinkWritePromise := true }

/-- `WritableStreamDefaultControllerAdvanceQueueIfNeeded`, up to the reactions to the promise of the sink. -/
def advanceQueueIfNeeded (s : WritableStream α ε) : Except JsError (WritableStream α ε) := do
  if s.started = false then return s
  if s.inFlightWriteRequest ≠ none then return s
  assert (s.state ≠ .closed ∧ s.state ≠ .errored)
  if s.state = .erroring then s.finishErroring
  else
    match s.queue with
    | [] => return s
    | ⟨none, _⟩ :: _ => s.advanceClose
    | ⟨some chunk, _⟩ :: _ => s.advanceWrite chunk

/-! ## The reactions to the promises of the sink -/

/-- The first assertion of each reaction, and of a write. -/
def assertOpen (s : WritableStream α ε) : Except JsError Unit := assert (s.state = .writable ∨ s.state = .erroring)

/-- `startAlgorithm` succeeded. -/
def onStartFulfilled (s : WritableStream α ε) : Except JsError (WritableStream α ε) := do
  s.assertOpen
  { s with started := true }.advanceQueueIfNeeded

/-- `startAlgorithm` failed. -/
def onStartRejected (s : WritableStream α ε) (reason : Reason ε) : Except JsError (WritableStream α ε) := do
  s.assertOpen
  { s with started := true }.dealWithRejection reason

/-- `writeAlgorithm` succeeded. -/
def onWriteFulfilled (s : WritableStream α ε) : Except JsError (WritableStream α ε) := do
  match s.inFlightWriteRequest with
  | none => throw .assertionError
  | some promise =>
    let s := { s.settle .write promise (.ok ()) with inFlightWriteRequest := none }
    s.assertOpen
    let s ← s.dequeueValue
    let s ← s.refreshBackpressure
    s.advanceQueueIfNeeded

/-- `writeAlgorithm` failed. The reaction rejects with `error`, which is not defined, so it ends with an exception
that `uponPromise` swallows. -/
def onWriteRejected (s : WritableStream α ε) : WritableStream α ε × JsError :=
  let s := if s.state = .writable then s.clearAlgorithms else s
  match s.inFlightWriteRequest with
  | none => (s, .assertionError)
  | some _ => (s, .referenceError)

/-- The part of the next reaction for an erroring stream. -/
def recover (s : WritableStream α ε) : WritableStream α ε :=
  match s.pendingAbortRequest with
  | none => { s with storedError := .undefined }
  | some request =>
    { s.settle .abort request.promise (.ok ()) with storedError := .undefined, pendingAbortRequest := none }

/-- `closeAlgorithm` succeeded. -/
def onCloseFulfilled (s : WritableStream α ε) : Except JsError (WritableStream α ε) := do
  match s.inFlightCloseRequest with
  | none => throw .assertionError
  | some promise =>
    let s := { s.settle .close promise (.ok ()) with inFlightCloseRequest := none }
    s.assertOpen
    let s := if s.state = .erroring then s.recover else s
    let s := { s with state := .closed, writer := s.writer.map Writer.resolveClosed }
    assert (s.pendingAbortRequest = none)
    assert s.storedError.isUndefined
    return s

/-- `closeAlgorithm` failed. -/
def onCloseRejected (s : WritableStream α ε) (reason : Reason ε) : Except JsError (WritableStream α ε) := do
  match s.inFlightCloseRequest with
  | none => throw .assertionError
  | some promise =>
    let s := { s.settle .close promise (.error reason) with inFlightCloseRequest := none }
    s.assertOpen
    let s := match s.pendingAbortRequest with
      | none => s
      | some request => { s.settle .abort request.promise (.error reason) with pendingAbortRequest := none }
    s.dealWithRejection reason

/-- `abortAlgorithm` succeeded or failed. -/
def onAbortSettled (s : WritableStream α ε) (promise : Nat) (result : Except (Reason ε) Unit) :
    Except JsError (WritableStream α ε) :=
  (s.settle .abort promise result).rejectCloseAndClosedPromiseIfNeeded

/-! ## The calls -/

/-- `getWriter`, which throws where there is a writer. -/
def getWriter (s : WritableStream α ε) : WritableStream α ε :=
  match s.writer with
  | some _ => s
  | none =>
    let writer : Writer ε := match s.state with
      | .writable =>
        { ready := if s.closeQueuedOrInFlight = false ∧ s.backpressure then .pending else .fulfilled
          closed := .pending }
      | .erroring => { ready := .rejected s.storedError, closed := .pending }
      | .closed => { ready := .fulfilled, closed := .fulfilled }
      | .errored => { ready := .rejected s.storedError, closed := .rejected s.storedError }
    { s with writer := some writer }

/-- `releaseLock`; nothing is known of a writer that was released. -/
def releaseLock (s : WritableStream α ε) : WritableStream α ε := { s with writer := none }

def lockError : Reason ε := .typeError "Cannot write to a stream using a released writer"

def closingError : Reason ε := .typeError "The stream is closing or closed and cannot be written to"

def sizeError : Reason ε := .rangeError "Size must be a finite, non-NaN, non-negative number."

/-- `WritableStreamDefaultWriterWrite` behind its checks. A size that is not one is refused with the request
already made. -/
def acceptWrite (s : WritableStream α ε) (chunk : α) (chunkSize : Option Nat) :
    Except JsError (WritableStream α ε) := do
  assert (s.state = .writable)
  assert (s.writer ≠ none)
  let promise := s.promises
  let s : WritableStream α ε := { s.newPromise with writeRequests := s.writeRequests ++ [promise] }
  match chunkSize with
  | none => s.errorIfNeeded sizeError
  | some size =>
    let s : WritableStream α ε :=
      { s.enqueueValueWithSize (some chunk) size with written := s.written ++ [(promise, chunk)] }
    let s ← s.refreshBackpressure
    s.advanceQueueIfNeeded

/-- `WritableStreamDefaultWriterWrite` once there is a size. -/
def writeSized (s : WritableStream α ε) (chunk : α) (chunkSize : Option Nat) :
    Except JsError (WritableStream α ε) :=
  if s.state = .errored then return s.promiseRejectedWith .write s.storedError
  else if s.closeQueuedOrInFlight ∨ s.state = .closed then return s.promiseRejectedWith .write closingError
  else if s.state = .erroring then return s.promiseRejectedWith .write s.storedError
  else s.acceptWrite chunk chunkSize

/-- `WritableStreamDefaultWriterWrite`. -/
def write (s : WritableStream α ε) (chunk : α) (result : SizeResult ε) :
    Except JsError (WritableStream α ε) :=
  if s.writer = none then return s.promiseRejectedWith .write lockError
  else if s.algorithms = false then return s.promiseRejectedWith .write s.storedError
  else
    match result with
    | .size n => s.writeSized chunk (some n)
    | .invalid => s.writeSized chunk none
    | .throws chunkSizeE => do
      let s ← s.errorIfNeeded chunkSizeE
      s.writeSized chunk (some 1)

def alreadyClosingError : Reason ε := .typeError "Cannot close an already-closing stream"

/-- `WritableStreamClose`. -/
def streamClose (s : WritableStream α ε) : Except JsError (WritableStream α ε) := do
  if s.state = .closed then
    return s.promiseRejectedWith .close
      (.typeError "The stream (in closed state) is not in the writable state and cannot be closed")
  if s.state = .errored then
    return s.promiseRejectedWith .close
      (.typeError "The stream (in errored state) is not in the writable state and cannot be closed")
  s.assertOpen
  assert (s.closeQueuedOrInFlight = false)
  let s : WritableStream α ε := { s.newPromise with
    closeRequest := some s.promises
    writer := if s.backpressure ∧ s.state = .writable then s.writer.map Writer.resolveReady else s.writer }
  (s.enqueueValueWithSize none 0).advanceQueueIfNeeded

/-- `close` of the writer, or of a stream that is not locked. -/
def close (s : WritableStream α ε) : Except JsError (WritableStream α ε) :=
  if s.closeQueuedOrInFlight then return s.promiseRejectedWith .close alreadyClosingError else s.streamClose

/-- `WritableStreamAbort`; the promise of an abort that is pending is returned again. -/
def abort (s : WritableStream α ε) (reason : Reason ε) : Except JsError (WritableStream α ε) := do
  if s.state = .closed ∨ s.state = .errored then return s.newPromise.settle .abort s.promises (.ok ())
  if s.pendingAbortRequest ≠ none then return s
  s.assertOpen
  if s.state = .erroring then
    return { s.newPromise with pendingAbortRequest := some ⟨s.promises, .undefined, true⟩ }
  else
    let s := { s.newPromise with pendingAbortRequest := some ⟨s.promises, reason, false⟩ }
    s.startErroring reason

/-- `error` of the controller. -/
def error (s : WritableStream α ε) (e : Reason ε) : Except JsError (WritableStream α ε) :=
  if s.state = .writable then s.controllerError e else return s

end WritableStream

/-! ## Runs -/

/-- A call, or the settlement of a promise of the sink. -/
inductive WritableEvent (α ε : Type) where
  | getWriter
  | releaseLock
  | write (chunk : α) (size : SizeResult ε)
  | close
  | abort (reason : Reason ε)
  | error (e : Reason ε)
  | startFulfilled
  | startRejected (reason : Reason ε)
  | writeFulfilled
  | writeRejected (reason : Reason ε)
  | closeFulfilled
  | closeRejected (reason : Reason ε)
  | abortFulfilled
  | abortRejected (reason : Reason ε)
  deriving DecidableEq, Repr

namespace WritableStream

/-- A promise is settled once: what is not pending is not settled. -/
def perform (s : WritableStream α ε) : WritableEvent α ε → Except JsError (WritableStream α ε)
  | .getWriter => return s.getWriter
  | .releaseLock => return s.releaseLock
  | .write chunk size => s.write chunk size
  | .close => s.close
  | .abort reason => s.abort reason
  | .error e => s.error e
  | .startFulfilled => if s.startPromise then { s with startPromise := false }.onStartFulfilled else return s
  | .startRejected reason =>
    if s.startPromise then { s with startPromise := false }.onStartRejected reason else return s
  | .writeFulfilled =>
    if s.sinkWritePromise then ({ s with sinkWritePromise := false }.tell .fulfilled).onWriteFulfilled
    else return s
  | .writeRejected _ =>
    if s.sinkWritePromise then
      match ({ s with sinkWritePromise := false }.tell .rejected).onWriteRejected with
      | (s, .referenceError) => return s
      | (_, error) => throw error
    else return s
  | .closeFulfilled =>
    if s.sinkClosePromise then ({ s with sinkClosePromise := false }.tell .fulfilled).onCloseFulfilled
    else return s
  | .closeRejected reason =>
    if s.sinkClosePromise then ({ s with sinkClosePromise := false }.tell .rejected).onCloseRejected reason
    else return s
  | .abortFulfilled =>
    match s.sinkAbortPromise with
    | none => return s
    | some promise =>
      ({ s with sinkAbortPromise := none }.tell .fulfilled).onAbortSettled promise (.ok ())
  | .abortRejected reason =>
    match s.sinkAbortPromise with
    | none => return s
    | some promise =>
      ({ s with sinkAbortPromise := none }.tell .rejected).onAbortSettled promise (.error reason)

/-- `new WritableStream(underlyingSink, strategy)`. -/
def new (strategyHWM : Nat) : WritableStream α ε where
  state := .writable
  storedError := .undefined
  writer := none
  writeRequests := []
  inFlightWriteRequest := none
  closeRequest := none
  inFlightCloseRequest := none
  pendingAbortRequest := none
  backpressure := decide ((strategyHWM : Int) - (0 : Nat) ≤ 0)
  queue := []
  queueTotalSize := 0
  started := false
  strategyHWM
  algorithms := true
  startPromise := true
  sinkWritePromise := false
  sinkClosePromise := false
  sinkAbortPromise := none
  promises := 0
  written := []
  sink := []
  settled := []

/-- The events in any order. -/
def run (strategyHWM : Nat) (events : List (WritableEvent α ε)) : Except JsError (WritableStream α ε) :=
  events.foldlM perform (new strategyHWM)

/-- The requests whose promises are pending. -/
def held (s : WritableStream α ε) : List Nat :=
  s.writeRequests ++ s.inFlightWriteRequest.toList ++ s.closeRequest.toList ++ s.inFlightCloseRequest.toList ++
    (s.pendingAbortRequest.map AbortRequest.promise).toList ++ s.sinkAbortPromise.toList

/-- The sink refused the last write. -/
def Refused (s : WritableStream α ε) : Prop := ∃ chunk, [.write chunk, .rejected] <:+ s.sink

/-- No promise of the sink is pending. -/
def Answered (s : WritableStream α ε) : Prop :=
  s.startPromise = false ∧ s.sinkWritePromise = false ∧ s.sinkClosePromise = false ∧ s.sinkAbortPromise = none

end WritableStream

/-! ## What the sink is told -/

/-- The promises of the writes that were fulfilled, in order. -/
def fulfilledWrites (settled : List (Settled ε)) : List Nat :=
  settled.filterMap fun s =>
    match s.kind, s.result with
    | .write, .ok _ => some s.promise
    | _, _ => none

/-- Chunks that were written one after the other. -/
def rounds (done : List α) : List (SinkEvent α ε) := done.flatMap fun chunk => [.write chunk, .fulfilled]

/-- How the sink answers. -/
inductive SinkAnswer where
  | fulfilled
  | rejected
  deriving DecidableEq, Repr

def SinkAnswer.event : SinkAnswer → SinkEvent α ε
  | .fulfilled => .fulfilled
  | .rejected => .rejected

/-- The last call of the sink behind these, and its answer. -/
inductive Ending (α ε : Type) where
  | none
  | writing (chunk : α)
  | refused (chunk : α)
  | closing
  | closed (answer : SinkAnswer)
  | aborting (reason : Reason ε)
  | aborted (reason : Reason ε) (answer : SinkAnswer)
  deriving DecidableEq, Repr

def Ending.events : Ending α ε → List (SinkEvent α ε)
  | .none => []
  | .writing chunk => [.write chunk]
  | .refused chunk => [.write chunk, .rejected]
  | .closing => [.close]
  | .closed answer => [.close, answer.event]
  | .aborting reason => [.abort reason]
  | .aborted reason answer => [.abort reason, answer.event]

end QjsLws.Streams
