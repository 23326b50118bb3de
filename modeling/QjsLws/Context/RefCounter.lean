import Mathlib.Data.Finset.Card
import QjsLws.Misc.Run

/-!
# `ContextRefCounter`

The counter of `lib/lws/context.js` decides when a shared context is destroyed. `release` defers
that decision to a microtask, and `track` releases from the reactions of two promises, so calls,
microtasks and settlements interleave. Reactions that only pass a value on are left out.
-/

namespace QjsLws.Context

variable {κ π : Type}

/-- The microtasks that the counter queues. -/
inductive CounterJob (κ : Type) where
  | check
  | release (key : κ)
  deriving DecidableEq, Repr

/-- How a promise settled. -/
inductive Settlement where
  | fulfilled
  | rejected
  deriving DecidableEq, Repr

/-- What happens around the counter, in order: `emptied` is the release of the last held key
outside server mode, `destroyed` a run of `destroy` with the keys held at that time, `drained` the
end of the last queued microtask. -/
inductive CounterEvent (κ : Type) where
  | added
  | marked
  | emptied
  | destroyed (held : Finset κ)
  | drained

/-- The counter with the microtask queue and the promises passed to `track`. A reaction waits for
its promise to settle in one way and then releases a key. -/
structure RefCounter (κ π : Type) where
  count : Int
  serverMode : Bool
  keys : Finset κ
  queue : List (CounterJob κ)
  settled : π → Option Settlement
  reactions : List (π × Settlement × κ)
  log : List (CounterEvent κ)

namespace RefCounter

/-- A new counter. -/
def new : RefCounter κ π := ⟨0, false, ∅, [], fun _ => none, [], []⟩

/-- Adds an entry to the log. -/
def note (c : RefCounter κ π) (e : CounterEvent κ) : RefCounter κ π :=
  { c with log := c.log ++ [e] }

/-- `markServer`. -/
def markServer (c : RefCounter κ π) : RefCounter κ π := { c.note .marked with serverMode := true }

variable [DecidableEq κ]

/-- `add`. -/
def add (c : RefCounter κ π) (key : κ) : RefCounter κ π :=
  { c.note .added with
    keys := insert key c.keys
    count := c.count + 1 }

/-- The log entry of a release that left no key. -/
def noteEmptied (c : RefCounter κ π) : RefCounter κ π :=
  if c.keys = ∅ ∧ c.serverMode = false then c.note .emptied else c

/-- `release`. -/
def release (c : RefCounter κ π) (key : κ) : RefCounter κ π :=
  if key ∈ c.keys then
    let deleted : RefCounter κ π :=
      { c with
        keys := c.keys.erase key
        count := c.count - 1 }
    let left := deleted.noteEmptied
    if left.count > 0 ∨ left.serverMode then left
    else { left with queue := left.queue ++ [.check] }
  else c

/-- The deferred check of `release`. -/
def runCheck (c : RefCounter κ π) : RefCounter κ π :=
  if c.count = 0 ∧ c.serverMode = false then c.note (.destroyed c.keys) else c

/-- `promise.then` with a reaction to one settlement: queued at once if the promise has already
settled that way. -/
def react (c : RefCounter κ π) (promise : π) (settlement : Settlement) (key : κ) :
    RefCounter κ π :=
  match c.settled promise with
  | none => { c with reactions := c.reactions ++ [(promise, settlement, key)] }
  | some outcome =>
    if outcome = settlement then { c with queue := c.queue ++ [.release key] } else c

/-- `track`. -/
def track (c : RefCounter κ π) (key : κ) (opened closed : π) : RefCounter κ π :=
  ((c.add key).react closed .fulfilled key).react opened .rejected key

/-- A tracked promise settles: its matching reactions are queued in order of registration. -/
def settle [DecidableEq π] (c : RefCounter κ π) (promise : π) (outcome : Settlement) :
    RefCounter κ π :=
  match c.settled promise with
  | some _ => c
  | none =>
    let matching := c.reactions.filter fun r => r.1 = promise ∧ r.2.1 = outcome
    { c with
      settled := fun p => if p = promise then some outcome else c.settled p
      reactions := c.reactions.filter fun r => r.1 ≠ promise
      queue := c.queue ++ matching.map fun r => .release r.2.2 }

/-- The log entry of the last queued microtask. -/
def noteDrained (c : RefCounter κ π) : RefCounter κ π :=
  if c.queue = [] then c.note .drained else c

/-- The microtask at the head of the queue runs. -/
def runJob (c : RefCounter κ π) : RefCounter κ π :=
  match c.queue with
  | [] => c
  | .check :: rest => (runCheck { c with queue := rest }).noteDrained
  | .release key :: rest => (release { c with queue := rest } key).noteDrained

end RefCounter

/-- Calls of the counter's methods, settlements of tracked promises and microtasks. -/
inductive CounterOp (κ π : Type) where
  | add (key : κ)
  | release (key : κ)
  | markServer
  | track (key : κ) (opened closed : π)
  | settle (promise : π) (outcome : Settlement)
  | job

/-- One operation. -/
def counterStep [DecidableEq κ] [DecidableEq π] (c : RefCounter κ π) :
    CounterOp κ π → RefCounter κ π
  | .add key => c.add key
  | .release key => c.release key
  | .markServer => c.markServer
  | .track key opened closed => c.track key opened closed
  | .settle promise outcome => c.settle promise outcome
  | .job => c.runJob

/-- Whether the entry is a run of `destroy`. -/
def CounterEvent.isDestroyed : CounterEvent κ → Bool
  | .destroyed _ => true
  | _ => false

/-- The contract of the counter: the count is the number of held keys, `destroy` runs with no key
held and not after `markServer`, two runs of it have an `add` between them, and it runs exactly
once between the release of the last key and the end of the microtasks when nothing is added or
marked in between. -/
structure RefCounted (c : RefCounter κ π) : Prop where
  counted : c.count = c.keys.card
  idle : ∀ held, .destroyed held ∈ c.log → held = ∅
  unmarked : ∀ before after held, c.log = before ++ .marked :: after → .destroyed held ∉ after
  separated : ∀ before between after held held',
    c.log = before ++ .destroyed held :: (between ++ .destroyed held' :: after) →
      .added ∈ between
  settles : ∀ before between after,
    c.log = before ++ .emptied :: (between ++ .drained :: after) →
      .added ∉ between → .marked ∉ between → .drained ∉ between →
        between.countP CounterEvent.isDestroyed = 1

/-- The last held key is not released while an earlier check is still queued. -/
def ReleaseAlone [DecidableEq κ] (c : RefCounter κ π) (key : κ) : Prop :=
  c.keys = {key} → c.serverMode = false → .check ∉ c.queue

/-- A key is added only while it is not held, and the last key is released only when no earlier
check is queued. -/
def OneHolder [DecidableEq κ] (c : RefCounter κ π) : CounterOp κ π → Prop
  | .add key => key ∉ c.keys
  | .track key _ _ => key ∉ c.keys
  | .release key => ReleaseAlone c key
  | .job =>
    match c.queue with
    | .release key :: rest => ReleaseAlone { c with queue := rest } key
    | _ => True
  | _ => True

end QjsLws.Context
