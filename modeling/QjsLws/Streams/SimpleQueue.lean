import QjsLws.Misc.Outcome
import QjsLws.Streams.Writable

/-!
# The queue of the streams

`SimpleQueue` of `lib/lws/simple-queue.js`. The nodes are known by when they were made, and none is forgotten, so
that `next` is the number of a node. What is behind the cursor was shifted, and is `undefined`.
-/

namespace QjsLws.Streams

open Misc

variable {α : Type}

/-- `QUEUE_MAX_ARRAY_SIZE`. -/
def queueMaxArraySize : Nat := 16384

/-- A node; `none` in the place of an element is `undefined`. -/
structure Node (α : Type) where
  elements : List (Option α)
  next : Option Nat
  deriving DecidableEq, Repr

/-- `elements[i]`, which is `undefined` out of bounds. -/
def Node.element (n : Node α) (i : Nat) : Option α := n.elements[i]?.join

/-- The private fields, and all nodes that were made. -/
structure SimpleQueue (α : Type) where
  cursor : Nat
  size : Nat
  front : Nat
  back : Nat
  nodes : List (Node α)
  deriving DecidableEq, Repr

namespace SimpleQueue

/-- `new SimpleQueue()`. -/
def new : SimpleQueue α where
  cursor := 0
  size := 0
  front := 0
  back := 0
  nodes := [⟨[], none⟩]

def node (q : SimpleQueue α) (i : Nat) : Node α := q.nodes[i]?.getD ⟨[], none⟩

/-- `push`. -/
def push (q : SimpleQueue α) (element : α) : Except JsError (SimpleQueue α) := do
  let oldBack := q.node q.back
  assert (oldBack.next = none)
  let elements := oldBack.elements ++ [some element]
  if oldBack.elements.length = queueMaxArraySize - 1 then
    let newBack := q.nodes.length
    return { q with
      nodes := q.nodes.set q.back ⟨elements, some newBack⟩ ++ [⟨[], none⟩]
      back := newBack
      size := q.size + 1 }
  else return { q with nodes := q.nodes.set q.back { oldBack with elements }, size := q.size + 1 }

/-- `shift`. -/
def shift (q : SimpleQueue α) : Except JsError (Option α × SimpleQueue α) := do
  assert (0 < q.size)
  let oldFront := q.node q.front
  let element := oldFront.element q.cursor
  let nodes := q.nodes.set q.front { oldFront with elements := oldFront.elements.set q.cursor none }
  if q.cursor + 1 = queueMaxArraySize then
    assert (oldFront.elements.length = queueMaxArraySize)
    match oldFront.next with
    | none => throw .assertionError
    | some front => return (element, { q with nodes, size := q.size - 1, cursor := 0, front })
  else return (element, { q with nodes, size := q.size - 1, cursor := q.cursor + 1 })

/-- `peek`. -/
def peek (q : SimpleQueue α) : Except JsError (Option α) := do
  assert (0 < q.size)
  return (q.node q.front).element q.cursor

/-- The loop of `forEach` at an element of a node, and what was passed to the callback. It ends at the latest when
the fuel does. -/
def forEachFrom (q : SimpleQueue α) : Nat → Nat → Nat → List (Option α) →
    Option (Outcome JsError (List (Option α)))
  | 0, _, _, _ => none
  | fuel + 1, i, node, visited =>
    let n := q.node node
    if i ≠ n.elements.length then q.forEachFrom fuel (i + 1) node (visited ++ [n.element i])
    else
      match n.next with
      | none => some (.done visited)
      | some next =>
        if i ≠ queueMaxArraySize then some (.threw .assertionError visited)
        else if (q.node next).elements.length = 0 then some (.done visited)
        else q.forEachFrom fuel 1 next (visited ++ [(q.node next).element 0])

/-- `forEach` with a callback that leaves the queue alone. -/
def forEach (q : SimpleQueue α) : Option (Outcome JsError (List (Option α))) :=
  q.forEachFrom (q.size + 1) q.cursor q.front []

end SimpleQueue

/-! ## Programs -/

/-- A use of a queue; `next` is that of its iterator. -/
inductive QueueOp (α : Type) where
  | push (element : α)
  | shift
  | peek
  | length
  | next
  | forEach
  deriving DecidableEq, Repr

/-- What comes of it. -/
inductive QueueAnswer (α : Type) where
  | pushed
  | element (value : Option α)
  | length (n : Nat)
  | entry (done : Bool) (value : Option α)
  | visited (outcome : Option (Outcome JsError (List (Option α))))
  | threw (e : JsError)
  deriving DecidableEq, Repr

/-- A queue that throws is as it was. -/
def SimpleQueue.perform (q : SimpleQueue α) : QueueOp α → QueueAnswer α × SimpleQueue α
  | .push element =>
    match q.push element with
    | .ok q => (.pushed, q)
    | .error e => (.threw e, q)
  | .shift =>
    match q.shift with
    | .ok (value, q) => (.element value, q)
    | .error e => (.threw e, q)
  | .peek =>
    match q.peek with
    | .ok value => (.element value, q)
    | .error e => (.threw e, q)
  | .length => (.length q.size, q)
  | .next =>
    if q.size = 0 then (.entry true none, q)
    else
      match q.shift with
      | .ok (value, q) => (.entry false value, q)
      | .error e => (.threw e, q)
  | .forEach => (.visited q.forEach, q)

/-- What a queue is for: a list with the same uses. -/
def performList (l : List α) : QueueOp α → QueueAnswer α × List α
  | .push element => (.pushed, l ++ [element])
  | .shift =>
    match l with
    | [] => (.threw .assertionError, l)
    | a :: l => (.element (some a), l)
  | .peek =>
    match l with
    | [] => (.threw .assertionError, l)
    | a :: _ => (.element (some a), l)
  | .length => (.length l.length, l)
  | .next =>
    match l with
    | [] => (.entry true none, l)
    | a :: l => (.entry false (some a), l)
  | .forEach => (.visited (some (.done (l.map some))), l)

/-- The answers to a program, and what is left. -/
def answers {σ : Type} (perform : σ → QueueOp α → QueueAnswer α × σ) (s : σ) :
    List (QueueOp α) → List (QueueAnswer α) × σ
  | [] => ([], s)
  | op :: ops =>
    let (answer, s) := perform s op
    let (rest, s) := answers perform s ops
    (answer :: rest, s)

/-- What the places hold that are reached from a node over `next`. There are no more steps than nodes. -/
def SimpleQueue.reachableFrom (q : SimpleQueue α) : Nat → Option Nat → List (Option α)
  | 0, _ | _, none => []
  | fuel + 1, some i => (q.node i).elements ++ q.reachableFrom fuel (q.node i).next

/-- What is kept: the places that are reached from the front. -/
def SimpleQueue.reachable (q : SimpleQueue α) : List (Option α) := q.reachableFrom q.nodes.length (some q.front)

end QjsLws.Streams
