import QjsLws.Misc.Run

/-!
# The request queue

`asyncQueue` of `lib/serve.js`, which the iterator mode of `serve()` is made of. The iterators keep nothing of
their own: the calls of `next` on all of them are numbered together, and a waiter is the number of the call
whose promise it resolves.
-/

namespace QjsLws.Serve

open QjsLws.Misc

variable {α : Type}

/-- What happens to a queue; `next` names the iterator it is called on. -/
inductive QueueEvent (α : Type) where
  | push (value : α)
  | next (iterator : Nat)
  deriving Repr

/-- The two lists, the number of calls of `next`, and what their promises were resolved with. -/
structure AsyncQueue (α : Type) where
  values : List α
  waiters : List Nat
  calls : Nat
  received : List (Nat × α)
  deriving Repr

namespace AsyncQueue

/-- `asyncQueue()`. -/
def empty : AsyncQueue α := ⟨[], [], 0, []⟩

/-- `push`. -/
def push (q : AsyncQueue α) (value : α) : AsyncQueue α :=
  match q.waiters with
  | waiter :: waiters => { q with waiters, received := q.received ++ [(waiter, value)] }
  | [] => { q with values := q.values ++ [value] }

/-- `next` of an iterator. -/
def next (q : AsyncQueue α) : AsyncQueue α :=
  match q.values with
  | value :: values => { q with values, calls := q.calls + 1, received := q.received ++ [(q.calls, value)] }
  | [] => { q with waiters := q.waiters ++ [q.calls], calls := q.calls + 1 }

def step (q : AsyncQueue α) : QueueEvent α → AsyncQueue α
  | .push value => q.push value
  | .next _ => q.next

end AsyncQueue

/-- The values pushed, in order. -/
def pushed (events : List (QueueEvent α)) : List α :=
  events.filterMap fun
    | .push value => some value
    | .next _ => none

/-- The number of calls of `next`, over all iterators. -/
def nexts (events : List (QueueEvent α)) : Nat :=
  events.countP fun
    | .push _ => false
    | .next _ => true

end QjsLws.Serve
