import Mathlib.Data.List.Basic
import QjsLws.Streams.Writable

/-!
# Readable streams

`ReadableStream` of `lib/lws/streams.js`, with its default controller and its default reader. The calls of `read`
are numbered, and so are those of `cancel`. What the underlying source does is not known: it enqueues, closes and
fails the stream at any time, and its promises are settled at any time. What it does while it is called counts as
calls right behind.
-/

namespace QjsLws.Streams

variable {α ε : Type}

inductive ReadableState where
  | readable
  | closed
  | errored
  deriving DecidableEq, Repr

/-- What the promise of a read is settled with. -/
inductive ReadResult (α ε : Type) where
  | chunk (value : α)
  | done
  | failed (reason : Reason ε)
  deriving DecidableEq, Repr

/-- `closedPromise` and `readRequests`. -/
structure Reader (ε : Type) where
  closed : PromiseState ε
  readRequests : List Nat
  deriving DecidableEq, Repr

/-- What happens between a stream and its source: a read of a stream that is open, a chunk that is accepted, a call of
`pull` with the number of the reads that wait and the room in the queue, the end of it, and a call of `cancel`. -/
inductive Happening (ε : Type) where
  | read
  | enqueue
  | pull (waiting : Nat) (room : Int)
  | settled
  | cancel (reason : Reason ε)
  deriving DecidableEq, Repr

/-- The stream and its controller, which promises of the source are pending, and what was accepted, answered and
done. -/
structure ReadableStream (α ε : Type) where
  state : ReadableState
  storedError : Reason ε
  reader : Option (Reader ε)
  disturbed : Bool
  queue : List (α × Nat)
  queueTotalSize : Nat
  started : Bool
  closeRequested : Bool
  pullAgain : Bool
  pulling : Bool
  strategyHWM : Nat
  algorithms : Bool
  startPromise : Bool
  pullPromise : Bool
  cancelPromise : Option Nat
  reads : Nat
  cancels : Nat
  accepted : List α
  answers : List (Nat × ReadResult α ε)
  canceled : List (Nat × Except (Reason ε) Unit)
  history : List (Happening ε)

namespace Reader

/-- `defaultReaderClosedPromiseReject`. -/
def rejectClosed (r : Reader ε) (reason : Reason ε) : Reader ε :=
  if r.closed.isPending then { r with closed := .rejected reason } else r

/-- `defaultReaderClosedPromiseResolve`. -/
def resolveClosed (r : Reader ε) : Reader ε := if r.closed.isPending then { r with closed := .fulfilled } else r

end Reader

namespace ReadableStream

/-- The promise of a read is settled. -/
def answer (s : ReadableStream α ε) (promise : Nat) (result : ReadResult α ε) : ReadableStream α ε :=
  { s with answers := s.answers ++ [(promise, result)] }

/-- The promise of a call of `cancel` is settled. -/
def settleCancel (s : ReadableStream α ε) (promise : Nat) (result : Except (Reason ε) Unit) : ReadableStream α ε :=
  { s with canceled := s.canceled ++ [(promise, result)] }

def happen (s : ReadableStream α ε) (h : Happening ε) : ReadableStream α ε := { s with history := s.history ++ [h] }

/-! ## The queue -/

/-- `DequeueValue`. -/
def dequeueValue (s : ReadableStream α ε) : Except JsError (α × ReadableStream α ε) :=
  match s.queue with
  | [] => throw .assertionError
  | (value, size) :: queue => return (value, { s with queue, queueTotalSize := s.queueTotalSize - size })

/-- `EnqueueValueWithSize` of a size that is a natural number, where the sum is exact. -/
def enqueueValueWithSize (s : ReadableStream α ε) (value : α) (size : Nat) : ReadableStream α ε :=
  { s with queue := s.queue ++ [(value, size)], queueTotalSize := s.queueTotalSize + size }

/-- `ResetQueue`. -/
def resetQueue (s : ReadableStream α ε) : ReadableStream α ε := { s with queue := [], queueTotalSize := 0 }

/-! ## The reader -/

/-- The requests to read that wait. -/
def readRequests (s : ReadableStream α ε) : List Nat :=
  match s.reader with
  | none => []
  | some reader => reader.readRequests

/-- `IsReadableStreamLocked`. -/
def isLocked (s : ReadableStream α ε) : Bool := s.reader.isSome

/-- `ReadableStreamAddReadRequest`. -/
def addReadRequest (s : ReadableStream α ε) (readRequest : Nat) : Except JsError (ReadableStream α ε) := do
  assert (s.isLocked = true)
  assert (s.state = .readable)
  return { s with
    reader := s.reader.map fun reader => { reader with readRequests := reader.readRequests ++ [readRequest] } }

/-- `ReadableStreamFulfillReadRequest` with a chunk. -/
def fulfillReadRequest (s : ReadableStream α ε) (chunk : α) : Except JsError (ReadableStream α ε) :=
  match s.reader with
  | none => throw .typeError
  | some reader =>
    match reader.readRequests with
    | [] => throw .assertionError
    | readRequest :: readRequests =>
      return { s with reader := some { reader with readRequests } }.answer readRequest (.chunk chunk)

/-- All requests that wait are settled in the same way. -/
def answerAll (s : ReadableStream α ε) (result : ReadResult α ε) : ReadableStream α ε :=
  { s with
    reader := s.reader.map fun reader => { reader with readRequests := [] }
    answers := s.answers ++ s.readRequests.map fun readRequest => (readRequest, result) }

/-! ## The state of the stream -/

/-- `ReadableStreamDefaultControllerCanCloseOrEnqueue`. -/
def canCloseOrEnqueue (s : ReadableStream α ε) : Bool := !s.closeRequested && decide (s.state = .readable)

/-- `ReadableStreamDefaultControllerGetDesiredSize`. -/
def getDesiredSize (s : ReadableStream α ε) : Option Int :=
  match s.state with
  | .errored => none
  | .closed => some 0
  | .readable => some (s.strategyHWM - s.queueTotalSize)

/-- `ReadableStreamDefaultControllerClearAlgorithms`. -/
def clearAlgorithms (s : ReadableStream α ε) : ReadableStream α ε := { s with algorithms := false }

/-- A call of an algorithm, which is `undefined` once it is cleared. -/
def callAlgorithm (s : ReadableStream α ε) : Except JsError Unit :=
  if s.algorithms then pure () else throw .typeError

/-- `ReadableStreamDefaultControllerShouldCallPull`. -/
def shouldCallPull (s : ReadableStream α ε) : Except JsError Bool :=
  if s.canCloseOrEnqueue = false then return false
  else if s.started = false then return false
  else if s.isLocked ∧ 0 < s.readRequests.length then return true
  else
    match s.getDesiredSize with
    | none => throw .assertionError
    | some desiredSize => return decide (0 < desiredSize)

/-- `ReadableStreamDefaultControllerCallPullIfNeeded`, up to the reactions to the promise of the source. -/
def callPullIfNeeded (s : ReadableStream α ε) : Except JsError (ReadableStream α ε) := do
  let shouldPull ← s.shouldCallPull
  if shouldPull = false then return s
  if s.pulling then return { s with pullAgain := true }
  assert (s.pullAgain = false)
  s.callAlgorithm
  let s := s.happen (.pull s.readRequests.length (s.strategyHWM - s.queueTotalSize))
  return { s with pulling := true, pullPromise := true }

/-- `ReadableStreamClose`. -/
def streamClose (s : ReadableStream α ε) : Except JsError (ReadableStream α ε) := do
  assert (s.state = .readable)
  let s := { s with state := .closed, reader := s.reader.map Reader.resolveClosed }
  return s.answerAll .done

/-- `ReadableStreamError`. -/
def streamError (s : ReadableStream α ε) (e : Reason ε) : Except JsError (ReadableStream α ε) := do
  assert (s.state = .readable)
  let s := { s with
    state := .errored
    storedError := e
    reader := s.reader.map (Reader.rejectClosed · e) }
  return s.answerAll (.failed e)

/-- `ReadableStreamDefaultControllerError`. -/
def controllerError (s : ReadableStream α ε) (e : Reason ε) : Except JsError (ReadableStream α ε) :=
  if s.state ≠ .readable then return s else s.resetQueue.clearAlgorithms.streamError e

/-- `ReadableStreamDefaultControllerClose`. `close` of the controller throws a `TypeError` before it where the stream
cannot be closed, and the stream stays as it is. -/
def controllerClose (s : ReadableStream α ε) : Except JsError (ReadableStream α ε) :=
  if s.canCloseOrEnqueue = false then return s
  else
    let s := { s with closeRequested := true }
    if s.queue = [] then s.clearAlgorithms.streamClose else return s

/-- `ReadableStreamDefaultControllerEnqueue`. Where the size fails the stream its error is thrown as well; `enqueue`
of the controller throws a `TypeError` before it where nothing can be enqueued, and the stream stays as it is. -/
def controllerEnqueue (s : ReadableStream α ε) (chunk : α) (chunkSize : SizeResult ε) :
    Except JsError (ReadableStream α ε) := do
  if s.canCloseOrEnqueue = false then return s
  if s.isLocked ∧ 0 < s.readRequests.length then
    let s ← s.fulfillReadRequest chunk
    { s.happen .enqueue with accepted := s.accepted ++ [chunk] }.callPullIfNeeded
  else
    s.callAlgorithm
    match chunkSize with
    | .throws chunkSizeE => s.controllerError chunkSizeE
    | .invalid => s.controllerError WritableStream.sizeError
    | .size size =>
      let s := s.enqueueValueWithSize chunk size
      { s.happen .enqueue with accepted := s.accepted ++ [chunk] }.callPullIfNeeded

/-! ## The controller, for a reader -/

/-- `[PullSteps]`. -/
def pullSteps (s : ReadableStream α ε) (readRequest : Nat) : Except JsError (ReadableStream α ε) := do
  if s.queue ≠ [] then
    let (chunk, s) ← s.dequeueValue
    let s ← if s.closeRequested ∧ s.queue = [] then s.clearAlgorithms.streamClose else s.callPullIfNeeded
    return s.answer readRequest (.chunk chunk)
  else
    let s ← s.addReadRequest readRequest
    s.callPullIfNeeded

/-- `[CancelSteps]`; the promise of the source is for the given call. -/
def cancelSteps (s : ReadableStream α ε) (promise : Nat) (reason : Reason ε) :
    Except JsError (ReadableStream α ε) := do
  let s := s.resetQueue
  s.callAlgorithm
  let s := s.happen (.cancel reason)
  return { s.clearAlgorithms with cancelPromise := some promise }

/-! ## The calls -/

/-- The promise of `ReadableStreamReaderGenericInitialize`. -/
def closedPromise (s : ReadableStream α ε) : PromiseState ε :=
  match s.state with
  | .readable => .pending
  | .closed => .fulfilled
  | .errored => .rejected s.storedError

/-- `getReader`. Where there is a reader it throws a `TypeError`, and the stream stays as it is. -/
def getReader (s : ReadableStream α ε) : ReadableStream α ε :=
  match s.reader with
  | some _ => s
  | none => { s with reader := some { closed := s.closedPromise, readRequests := [] } }

def releasedError : Reason ε := .typeError "Reader was released"

/-- `releaseLock`; nothing is known of a reader that was released, but for its requests. -/
def releaseLock (s : ReadableStream α ε) : Except JsError (ReadableStream α ε) :=
  match s.reader with
  | none => return s
  | some reader => do
    if s.state ≠ .readable then assert (reader.closed.isPending = false)
    return { s.answerAll (.failed releasedError) with reader := none }

def readerLockError : Reason ε := .typeError "Cannot read from a stream using a released reader"

/-- `read` of the reader. -/
def read (s : ReadableStream α ε) : Except JsError (ReadableStream α ε) :=
  let readRequest := s.reads
  let s := { s with reads := s.reads + 1 }
  match s.reader with
  | none => return s.answer readRequest (.failed readerLockError)
  | some _ =>
    let s := { s with disturbed := true }
    match s.state with
    | .closed => return s.answer readRequest .done
    | .errored => return s.answer readRequest (.failed s.storedError)
    | .readable => (s.happen .read).pullSteps readRequest

/-- `ReadableStreamCancel`: `cancel` of the reader, or of a stream that is not locked. -/
def cancel (s : ReadableStream α ε) (reason : Reason ε) : Except JsError (ReadableStream α ε) := do
  let promise := s.cancels
  let s := { s with disturbed := true, cancels := s.cancels + 1 }
  match s.state with
  | .closed => return s.settleCancel promise (.ok ())
  | .errored => return s.settleCancel promise (.error s.storedError)
  | .readable =>
    let s ← s.streamClose
    s.cancelSteps promise reason

end ReadableStream

/-! ## Runs -/

/-- A call, or the settlement of a promise of the source. -/
inductive ReadableEvent (α ε : Type) where
  | getReader
  | releaseLock
  | read
  | cancel (reason : Reason ε)
  | enqueue (chunk : α) (size : SizeResult ε)
  | close
  | error (e : Reason ε)
  | startFulfilled
  | startRejected (reason : Reason ε)
  | pullFulfilled
  | pullRejected (reason : Reason ε)
  | cancelFulfilled
  | cancelRejected (reason : Reason ε)
  deriving DecidableEq, Repr

namespace ReadableStream

/-- `startAlgorithm` succeeded. -/
def onStartFulfilled (s : ReadableStream α ε) : Except JsError (ReadableStream α ε) := do
  let s := { s with started := true }
  assert (s.pulling = false)
  assert (s.pullAgain = false)
  s.callPullIfNeeded

/-- `pullAlgorithm` succeeded. -/
def onPullFulfilled (s : ReadableStream α ε) : Except JsError (ReadableStream α ε) :=
  let s := { s with pulling := false }
  if s.pullAgain then { s with pullAgain := false }.callPullIfNeeded else return s

/-- A promise is settled once: what is not pending is not settled. Of the errors only those that the class does not
expect are kept (`AssertionError`, and a call of an algorithm that was cleared): the `TypeError` of a call that is not
permitted and the error of a size, which `getReader`, `close` and `enqueue` throw to their caller, leave the state that
is returned here. Calls inside a call of the source's `pull` are no events of their own. -/
def perform (s : ReadableStream α ε) : ReadableEvent α ε → Except JsError (ReadableStream α ε)
  | .getReader => return s.getReader
  | .releaseLock => s.releaseLock
  | .read => s.read
  | .cancel reason => s.cancel reason
  | .enqueue chunk size => s.controllerEnqueue chunk size
  | .close => s.controllerClose
  | .error e => s.controllerError e
  | .startFulfilled => if s.startPromise then { s with startPromise := false }.onStartFulfilled else return s
  | .startRejected reason =>
    if s.startPromise then { s with startPromise := false }.controllerError reason else return s
  | .pullFulfilled =>
    if s.pullPromise then ({ s with pullPromise := false }.happen .settled).onPullFulfilled else return s
  | .pullRejected reason =>
    if s.pullPromise then ({ s with pullPromise := false }.happen .settled).controllerError reason else return s
  | .cancelFulfilled =>
    match s.cancelPromise with
    | none => return s
    | some promise => return { s with cancelPromise := none }.settleCancel promise (.ok ())
  | .cancelRejected reason =>
    match s.cancelPromise with
    | none => return s
    | some promise => return { s with cancelPromise := none }.settleCancel promise (.error reason)

/-- `new ReadableStream(underlyingSource, strategy)`. -/
def new (strategyHWM : Nat) : ReadableStream α ε where
  state := .readable
  storedError := .undefined
  reader := none
  disturbed := false
  queue := []
  queueTotalSize := 0
  started := false
  closeRequested := false
  pullAgain := false
  pulling := false
  strategyHWM
  algorithms := true
  startPromise := true
  pullPromise := false
  cancelPromise := none
  reads := 0
  cancels := 0
  accepted := []
  answers := []
  canceled := []
  history := []

/-- The events in any order. -/
def run (strategyHWM : Nat) (events : List (ReadableEvent α ε)) : Except JsError (ReadableStream α ε) :=
  events.foldlM perform (new strategyHWM)

end ReadableStream

/-- The chunks that were read, in order. -/
def delivered (answers : List (Nat × ReadResult α ε)) : List α :=
  answers.filterMap fun
    | (_, .chunk value) => some value
    | _ => none

/-- The source was told to cancel. -/
def Canceled (history : List (Happening ε)) : Prop := ∃ reason, .cancel reason ∈ history

def Happening.isPull : Happening ε → Bool
  | .pull _ _ => true
  | _ => false

def Happening.isSettled : Happening ε → Bool
  | .settled => true
  | _ => false

end QjsLws.Streams
