import QjsLws.Misc.Assoc
import QjsLws.Misc.Run
import QjsLws.Misc.Text

/-!
# EventTarget

Model of the class `EventTarget` of `lib/lws/events.js`, for one target without `on…` properties
and the abort signals its listeners are registered with. Listener functions and signals are
numbers. The loops of `dispatchEvent` and of an abort in progress are frames: what listeners do
while they run are the calls made before the innermost loop goes on.
-/

namespace QjsLws.Events

open QjsLws.Misc

/-- The properties that the object `#listeners` inherits. -/
def inheritedNames : List Text :=
  ["constructor", "__defineGetter__", "__defineSetter__", "hasOwnProperty", "__lookupGetter__",
    "__lookupSetter__", "isPrototypeOf", "propertyIsEnumerable", "toString", "valueOf",
    "__proto__", "toLocaleString"].map String.toList

/-- Whether `#listeners` has a property of this name without any listener. -/
def inherited (type : Text) : Bool := inheritedNames.contains type

/-- A call of `addEventListener`, by its number. In the arrays it stands for the function it
added: the listener, or the wrapper, which knows the type, the listener and the options. -/
structure Registration where
  id : Nat
  type : Text
  listener : Nat
  once : Bool
  signal : Option Nat
  deriving DecidableEq, Repr

/-- `once || signal`. -/
def Registration.wrapped (r : Registration) : Bool := r.once || r.signal.isSome

/-- `#listeners` and `#listenerMap`, the wrappers of each listener. -/
structure EventTarget where
  listeners : Assoc Text (List Registration)
  listenerMap : Assoc Nat (List Registration)

namespace EventTarget

/-- `new EventTarget()`. -/
def new : EventTarget := ⟨.empty, .empty⟩

/-- `#listeners[type]`, empty where it is missing. -/
def entries (t : EventTarget) (type : Text) : List Registration := (t.listeners.get type).getD []

/-- `#listenerMap.get(listener)`, empty where it is missing. -/
def wrappersOf (t : EventTarget) (listener : Nat) : List Registration :=
  (t.listenerMap.get listener).getD []

/-- `addEventListener` before the signal gets its own listener. The wrapper is tracked before
`push` throws for an inherited property. -/
def push (r : Registration) (t : EventTarget) : EventTarget :=
  { listeners := if inherited r.type then t.listeners
      else t.listeners.set r.type (t.entries r.type ++ [r])
    listenerMap := if r.wrapped then t.listenerMap.set r.listener (t.wrappersOf r.listener ++ [r])
      else t.listenerMap }

/-- `removeEventListener`. -/
def removeEventListener (type : Text) (listener : Nat) (t : EventTarget) : EventTarget :=
  if !(t.listeners.has type || inherited type) then t
  else
    let (left, listenerMap) :=
      match t.listenerMap.get listener with
      | some wrappers =>
        match (wrappers.filter (·.type = type)).getLast? with
        | some wrapper =>
          let rest := wrappers.filter (· ≠ wrapper)
          ((t.entries type).filter (· ≠ wrapper),
            if rest = [] then t.listenerMap.erase listener else t.listenerMap.set listener rest)
        | none => (t.entries type, t.listenerMap)
      | none =>
        ((t.entries type).filter fun r => !(r.listener = listener && !r.wrapped), t.listenerMap)
    { listeners := if left = [] then t.listeners.erase type else t.listeners.set type left
      listenerMap }

end EventTarget

/-- A loop in progress, with the copy of the array it still has to go through. -/
inductive Frame where
  | dispatch (id : Nat) (queue : List Registration)
  | abort (signal : Nat) (queue : List Registration)
  deriving DecidableEq, Repr

/-- What happens: registrations are added, removed by `removeEventListener`, or dropped by the
listener that `addEventListener` added to their signal; aborts begin and end, dispatches begin,
call listeners and end; and code of the class throws. -/
inductive TargetEvent where
  | added (r : Registration)
  | removed (type : Text) (listener : Nat)
  | dropped (r : Registration)
  | aborting (signal : Nat)
  | aborted (signal : Nat)
  | began (dispatch : Nat) (type : Text)
  | called (dispatch : Nat) (r : Registration)
  | ended (dispatch : Nat)
  | threw
  deriving DecidableEq, Repr

/-- A target, the signals that were aborted, what each signal calls when it is, the loops in
progress (innermost first), and counters. -/
structure TargetState where
  target : EventTarget
  aborted : List Nat
  abortListeners : Assoc Nat (List Registration)
  frames : List Frame
  registrations : Nat
  dispatches : Nat
  log : List TargetEvent

/-- Nothing registered. -/
def TargetState.fresh : TargetState := ⟨.new, [], .empty, [], 0, 0, []⟩

/-- What a program does: calls of the methods, from outside or inside a listener; `goesOn` is the
return of the listener that the innermost loop has called, `throws` an exception that leaves it. An
event may have a `target` that cannot be assigned. -/
inductive TargetCall where
  | addEventListener (type : Text) (listener : Nat) (once : Bool) (signal : Option Nat)
  | removeEventListener (type : Text) (listener : Nat)
  | abort (signal : Nat)
  | dispatchEvent (type : Text) (targetThrows : Bool)
  | goesOn
  | throws
  deriving DecidableEq, Repr

namespace TargetState

/-- What a signal calls when it is aborted. -/
def signalListeners (s : TargetState) (signal : Nat) : List Registration :=
  (s.abortListeners.get signal).getD []

/-- `addEventListener`. -/
def addEventListener (type : Text) (listener : Nat) (once : Bool) (signal : Option Nat)
    (s : TargetState) : TargetState :=
  if signal.any (s.aborted.contains ·) then s
  else
    let r : Registration := ⟨s.registrations, type, listener, once, signal⟩
    let s := { s with target := s.target.push r, registrations := s.registrations + 1 }
    if inherited type then { s with log := s.log ++ [.threw] }
    else
      { s with
        abortListeners := match signal with
          | some signal => s.abortListeners.set signal (s.signalListeners signal ++ [r])
          | none => s.abortListeners
        log := s.log ++ [.added r] }

/-- `dispatchEvent` up to its loop. Inherited properties cannot be spread. -/
def dispatchEvent (type : Text) (targetThrows : Bool) (s : TargetState) : TargetState :=
  if targetThrows || inherited type then { s with log := s.log ++ [.threw] }
  else
    { s with
      frames := .dispatch s.dispatches (s.target.entries type) :: s.frames
      dispatches := s.dispatches + 1
      log := s.log ++ [.began s.dispatches type] }

/-- `abort()` of a signal up to the loop of its own `dispatchEvent`. -/
def abort (signal : Nat) (s : TargetState) : TargetState :=
  { s with
    aborted := signal :: s.aborted
    frames := .abort signal (s.signalListeners signal) :: s.frames
    log := s.log ++ [.aborting signal] }

/-- A loop of `dispatchEvent` calls the next function. -/
def callNext (dispatch : Nat) (r : Registration) (s : TargetState) : TargetState :=
  { s with
    target := if r.once then s.target.removeEventListener r.type r.listener else s.target
    log := s.log ++ [.called dispatch r] }

/-- An aborted signal calls the next of its listeners, which it forgets first. -/
def dropNext (signal : Nat) (r : Registration) (s : TargetState) : TargetState :=
  let target := s.target.removeEventListener r.type r.listener
  let dropped := (s.target.entries r.type).filter fun r' => r' ∉ target.entries r.type
  { s with
    target
    abortListeners := s.abortListeners.set signal ((s.signalListeners signal).filter (· ≠ r))
    log := s.log ++ dropped.map .dropped }

/-- The innermost loop goes on. -/
def goOn (s : TargetState) : TargetState :=
  match s.frames with
  | [] => s
  | .dispatch id [] :: frames => { s with frames, log := s.log ++ [.ended id] }
  | .dispatch id (r :: queue) :: frames =>
    { s with frames := .dispatch id queue :: frames }.callNext id r
  | .abort signal [] :: frames => { s with frames, log := s.log ++ [.aborted signal] }
  | .abort signal (r :: queue) :: frames =>
    { s with frames := .abort signal queue :: frames }.dropNext signal r

/-- An exception leaves the innermost loop. -/
def throwOut (s : TargetState) : TargetState :=
  match s.frames with
  | [] => s
  | .dispatch id _ :: frames => { s with frames, log := s.log ++ [.ended id] }
  | .abort signal _ :: frames => { s with frames, log := s.log ++ [.aborted signal] }

/-- One call. -/
def step (s : TargetState) : TargetCall → TargetState
  | .addEventListener type listener once signal => s.addEventListener type listener once signal
  | .removeEventListener type listener =>
    { s with
      target := s.target.removeEventListener type listener
      log := s.log ++ [.removed type listener] }
  | .abort signal => s.abort signal
  | .dispatchEvent type targetThrows => s.dispatchEvent type targetThrows
  | .goesOn => s.goOn
  | .throws => s.throwOut

end TargetState

end QjsLws.Events
