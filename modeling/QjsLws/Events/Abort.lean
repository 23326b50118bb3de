import Mathlib.Logic.Relation
import QjsLws.Misc.Assoc
import QjsLws.Misc.Outcome
import QjsLws.Misc.Run

/-!
# AbortController and AbortSignal

Controllers, the signals that `AbortSignal.any` combines of others, and what `abort(reason)` sets off
among them (`lib/lws/abort.js`), with the part of `EventTarget` that the type `abort` meets there.
Calls are taken one after the other; listeners do nothing to the signals, but may throw.
-/

namespace QjsLws.Events

open QjsLws.Misc

/-! ## Signals -/

/-- A reason: the value it was given as, or the number of the error that `abort()` made. -/
inductive Reason where
  | given (value : Nat)
  | abortError (n : Nat)
  deriving DecidableEq, Repr

/-- A listener of a signal: one of the program, by the number of its registration and whether it
throws, or the `k`-th handler of the `any` that made the signal `target`. -/
inductive AbortListener where
  | user (registration : Nat) (throws : Bool)
  | forward (target k : Nat)
  deriving DecidableEq, Repr

/-- An `AbortSignal`, with what `any` keeps of one it made: that nobody else has its controller, the
signals it was given and `handlers`. The property `onabort` is `some` where it is a function, which
may throw. -/
structure Signal where
  derived : Bool
  inputs : List Nat
  handlers : Assoc Nat Nat
  aborted : Bool
  reason : Option Reason
  onabort : Option Bool
  listeners : List AbortListener

/-- What was called: a listener of the program, or the `onabort` of a signal. -/
inductive AbortCall where
  | listener (registration : Nat)
  | onabort (signal : Nat)
  deriving DecidableEq, Repr

/-- All signals, the calls so far, and counters. -/
structure AbortState where
  signals : List Signal
  errors : Nat
  registrations : Nat
  calls : List AbortCall

/-- What is thrown: an exception of a listener or `onabort`, or the `TypeError` of `checkListener`. -/
inductive AbortFailure where
  | listener
  | typeError
  deriving DecidableEq, Repr

namespace AbortState

/-- No signal yet. -/
def fresh : AbortState := ⟨[], 0, 0, []⟩

/-- Changes a signal. -/
def update (s : AbortState) (x : Nat) (f : Signal → Signal) : AbortState :=
  { s with signals := s.signals.modify x f }

/-- Calls what the program gave, and lets it throw. -/
def call (c : AbortCall) (throws : Bool) (s : AbortState) : Outcome AbortFailure AbortState :=
  let s := { s with calls := s.calls ++ [c] }
  if throws then .threw .listener s else .done s

/-- `if(typeof this.onabort == 'function') this.onabort(event)`. -/
def callOnabort (x : Nat) (s : AbortState) : Outcome AbortFailure AbortState :=
  match (s.signals[x]?).bind Signal.onabort with
  | some throws => s.call (.onabort x) throws
  | none => .done s

/-- `removeEventListener('abort', handler)`. -/
def removeHandler (x target k : Nat) (s : AbortState) : AbortState :=
  s.update x fun signal =>
    { signal with listeners := signal.listeners.filter (· ≠ .forward target k) }

/-- The loop of `clean`. Where `any` made no handler `removeEventListener` gets `undefined`. -/
def cleanFrom (handlers : Assoc Nat Nat) (target : Nat) :
    List Nat → AbortState → Outcome AbortFailure AbortState
  | [], s => .done s
  | x :: inputs, s =>
    match handlers.get x with
    | none => .threw .typeError s
    | some k => cleanFrom handlers target inputs (s.removeHandler x target k)

/-- `clean`. -/
def clean (target : Nat) (s : AbortState) : Outcome AbortFailure AbortState :=
  match s.signals[target]? with
  | none => .done s
  | some signal => cleanFrom signal.handlers target signal.inputs s

/-- `normalizeAbortReason`. -/
def normalize (s : AbortState) (reason : Option Nat) : AbortState × Reason :=
  match reason with
  | some value => (s, .given value)
  | none => ({ s with errors := s.errors + 1 }, .abortError s.errors)

/-- `signal.reason`, which every signal has that calls a handler. -/
def reasonOf (s : AbortState) (x : Nat) : Reason :=
  ((s.signals[x]?).bind Signal.reason).getD (.abortError s.errors)

/-- Calls a listener of the signal `x`; `abort` aborts a controller. -/
def callListener (abort : Nat → Reason → AbortState → Outcome AbortFailure AbortState) (x : Nat)
    (listener : AbortListener) (s : AbortState) : Outcome AbortFailure AbortState :=
  match listener with
  | .user registration throws => s.call (.listener registration) throws
  | .forward target _ => (abort target (s.reasonOf x) s).andThen (clean target)

/-- Calls listeners one after the other. -/
def callListeners (abort : Nat → Reason → AbortState → Outcome AbortFailure AbortState) (x : Nat) :
    List AbortListener → AbortState → Outcome AbortFailure AbortState
  | [], s => .done s
  | listener :: queue, s =>
    (callListener abort x listener s).andThen (callListeners abort x queue)

/-- `abort(reason)` of the controller of `x`, with the `dispatchEvent` of both classes. A handler aborts
a later signal, so the number of signals is fuel enough. -/
def abortSignal : Nat → Nat → Reason → AbortState → Outcome AbortFailure AbortState
  | 0, _, _, s => .done s
  | fuel + 1, x, reason, s =>
    let s := s.update x fun signal => { signal with reason := some reason, aborted := true }
    (callOnabort x s).andThen fun s =>
      (callListeners (abortSignal fuel) x ((s.signals[x]?).elim [] Signal.listeners) s).andThen
        (callOnabort x)

/-- The loop of `any`: a handler for each signal, up to one that is aborted. -/
def anyFrom (target : Nat) : Nat → List Nat → AbortState → AbortState
  | _, [], s => s
  | k, x :: inputs, s =>
    if (s.signals[x]?).any Signal.aborted then
      (abortSignal s.signals.length target (s.reasonOf x) s).state
    else
      anyFrom target (k + 1) inputs
        ((s.update target fun signal => { signal with handlers := signal.handlers.set x k }).update x
          fun signal => { signal with listeners := signal.listeners ++ [.forward target k] })

end AbortState

/-! ## Calls -/

/-- A call: `new AbortController()`, `AbortSignal.any(inputs)`, `abort(reason)` of a controller, and the
program's listeners and `onabort` for a signal. -/
inductive AbortOp where
  | newController
  | any (inputs : List Nat)
  | abort (c : Nat) (reason : Option Nat)
  | addEventListener (x : Nat) (throws : Bool)
  | setOnabort (x : Nat) (handler : Option Bool)
  deriving DecidableEq, Repr

/-- The signal has a controller that the program may use. -/
def AbortState.controls (s : AbortState) (c : Nat) : Bool :=
  (s.signals[c]?).any fun signal => !signal.derived

/-- A call; one of a signal or controller that is not there does nothing. -/
def abortCall (s : AbortState) : AbortOp → Outcome AbortFailure AbortState
  | .newController =>
    .done { s with signals := s.signals ++ [⟨false, [], .empty, false, none, none, []⟩] }
  | .any inputs =>
    if inputs.all (· < s.signals.length) then
      .done (AbortState.anyFrom s.signals.length 0 inputs
        { s with signals := s.signals ++ [⟨true, inputs, .empty, false, none, none, []⟩] })
    else .done s
  | .abort c reason =>
    if s.controls c then
      let (s, reason) := s.normalize reason
      s.abortSignal s.signals.length c reason
    else .done s
  | .addEventListener x throws =>
    .done { s.update x fun signal =>
        { signal with listeners := signal.listeners ++ [.user s.registrations throws] } with
      registrations := s.registrations + 1 }
  | .setOnabort x handler => .done (s.update x fun signal => { signal with onabort := handler })

/-- The state after a call. -/
def abortStep (s : AbortState) (op : AbortOp) : AbortState := (abortCall s op).state

/-- The state after some calls. -/
def aborting (ops : List AbortOp) : AbortState := runFrom abortStep .fresh ops

/-! ## The contract -/

/-- The signals that `any` was given for a signal. -/
def AbortState.inputsOf (s : AbortState) (y : Nat) : List Nat := (s.signals[y]?).elim [] Signal.inputs

/-- The first signal is a source of the second. -/
def AbortState.Source (s : AbortState) : Nat → Nat → Prop :=
  Relation.TransGen fun x y => x ∈ s.inputsOf y

/-- Whether the signal is aborted. -/
def AbortState.isAborted (s : AbortState) (x : Nat) : Bool := (s.signals[x]?).any Signal.aborted

/-- The law of signals, for the calls of a program. -/
structure AbortContract (ops : List AbortOp) : Prop where
  /-- A signal is aborted if and only if its own controller or one of its sources was. -/
  flag : ∀ y < (aborting ops).signals.length, (aborting ops).isAborted y = true ↔
    ∃ before c reason after, ops = before ++ .abort c reason :: after ∧
      (aborting before).controls c = true ∧ (c = y ∨ (aborting ops).Source c y)
  /-- Its reason is the one of the first such abort and stays. -/
  reason : ∀ before c reason after, ops = before ++ .abort c reason :: after →
    (aborting before).controls c = true → ∀ y < (aborting before).signals.length,
      (aborting before).isAborted y = false → (c = y ∨ (aborting before).Source c y) →
        (aborting ops).reasonOf y = ((aborting before).normalize reason).2
  /-- A signal made of aborted ones has the reason of the first of them. -/
  combined : ∀ before inputs after, ops = before ++ .any inputs :: after →
    (∀ x ∈ inputs, x < (aborting before).signals.length) →
      ∀ x, inputs.find? (aborting before).isAborted = some x →
        (aborting ops).isAborted (aborting before).signals.length = true ∧
          (aborting ops).reasonOf (aborting before).signals.length = (aborting before).reasonOf x
  /-- Every registered listener and every `onabort` is called once at most. -/
  calls : (aborting ops).calls.Nodup
  /-- Nothing but a listener throws. -/
  throws : ∀ before op after, ops = before ++ op :: after →
    (abortCall (aborting before) op).thrown ≠ some .typeError

/-- No handler of `any` comes after a listener that throws. -/
def ThrowsLate (listeners : List AbortListener) : Prop :=
  ∀ first r last, listeners = first ++ .user r true :: last → ∀ d k, .forward d k ∉ last

/-- A controller is aborted once; the signals that are aborted with it have no `onabort`, and of their
listeners only those of the controller's own signal throw, after its handlers. The signals given to
`any` are not aborted, all different and none a source of another, or else the first is aborted. -/
def Careful (s : AbortState) : AbortOp → Prop
  | .abort c _ => s.controls c = true → s.isAborted c = false ∧
      ∀ y signal, s.signals[y]? = some signal → signal.aborted = false → c = y ∨ s.Source c y →
        signal.onabort = none ∧
          if c = y then ThrowsLate signal.listeners else ∀ r, .user r true ∉ signal.listeners
  | .any inputs => (∃ x rest, inputs = x :: rest ∧ s.isAborted x = true) ∨
      (∀ x ∈ inputs, s.isAborted x = false) ∧
        inputs.Pairwise fun x y => x ≠ y ∧ ¬s.Source x y ∧ ¬s.Source y x
  | .newController | .addEventListener .. | .setOnabort .. => True

end QjsLws.Events
