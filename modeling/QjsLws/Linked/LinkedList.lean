import QjsLws.Linked.Heap

/-!
# The list class

`LinkedList` of `lib/lws/list.js`: an object is known by the node that is its `#head`. A program is a sequence
of operations on the lists made so far, which are numbered; beside it stand the same operations on plain
lists.
-/

namespace QjsLws.Linked

open Script

variable {α β : Type}

/-- An object: the node of its `#head`. -/
structure LinkedList where
  head : Ref
  deriving DecidableEq, Repr

/-- What a range gives its values from. -/
inductive Range (α : Type) where
  | values (values : List α)
  | list (list : LinkedList)

/-- `for(let data of rng)`, with the state of its body. -/
def forOf (bound : Nat) (rng : Range α) (body : Option α → β → Script α β) (state : β) : Script α β :=
  match rng with
  | .values values => values.foldlM (fun state data => body (some data) state) state
  | .list list => do
    let el ← next (some list.head)
    let el1 ← next el
    listForEachSafe (some list.head) body bound el el1 state

namespace LinkedList

/-- `empty`. -/
def empty (list : LinkedList) : Script α Bool := listEmpty (some list.head)

/-- `front`. -/
def front (list : LinkedList) : Script α (Option α) := do
  data (← next (some list.head))

/-- `back`. -/
def back (list : LinkedList) : Script α (Option α) := do
  data (← prev (some list.head))

/-- `pushFront`. -/
def pushFront (list : LinkedList) (data : α) : Script α Unit := do
  let el ← newNode (some data)
  _listAdd (some el) (some list.head) (← next (some list.head))

/-- `pushBack`. -/
def pushBack (list : LinkedList) (data : α) : Script α Unit := do
  let el ← newNode (some data)
  _listAdd (some el) (← prev (some list.head)) (some list.head)

/-- `assert_default`. -/
def assertDefault (test : Bool) : Script α Unit :=
  if test then pure () else throw .assertionError

/-- `popFront`. -/
def popFront (list : LinkedList) : Script α (Option α) := do
  assertDefault !(← listEmpty (some list.head))
  let next ← Script.next (some list.head)
  listDel next
  data next

/-- `popBack`. -/
def popBack (list : LinkedList) : Script α (Option α) := do
  assertDefault !(← listEmpty (some list.head))
  let prev ← Script.prev (some list.head)
  listDel prev
  data prev

/-- `prependRange`; the variable is `head`. -/
def prependRange (bound : Nat) (list : LinkedList) (rng : Range α) : Script α Unit := do
  let body data head := do
    let el ← newNode data
    _listAdd (some el) head (← next head)
    return some el
  let _ ← forOf bound rng body (some list.head)
  return ()

/-- `appendRange`. -/
def appendRange (bound : Nat) (list : LinkedList) (rng : Range α) : Script α Unit :=
  forOf bound rng (fun data _ => do
    let el ← newNode data
    _listAdd (some el) (← prev (some list.head)) (some list.head)) ()

/-- `reverse`. -/
def reverse (bound : Nat) (list : LinkedList) : Script α Unit := listReverse bound (some list.head)

/-- `sort`. -/
def sort (bound : Nat) (list : LinkedList) (cmp : Option α → Option α → Int) : Script α Unit := do
  let h ← get
  listSort bound (some list.head) fun a b => cmp (h.data a) (h.data b)

/-- `new LinkedList(iterable)`, where what is not an iterable object is `none`. -/
def construct (bound : Nat) (iterable : Option (Range α)) : Script α LinkedList := do
  let el ← newNode none
  let _ ← LIST_HEAD_INIT (some el)
  match iterable with
  | some rng => appendRange bound ⟨el⟩ rng
  | none => pure ()
  return ⟨el⟩

/-- `clone`. -/
def clone (bound : Nat) (list : LinkedList) : Script α LinkedList := construct bound (some (.list list))

/-- `[...list]`. -/
def iterate (bound : Nat) (list : LinkedList) : Script α (List (Option α)) :=
  forOf bound (.list list) (fun data values => pure (values ++ [data])) []

end LinkedList

/-! ## Programs -/

/-- An argument: values, or the list of a number. -/
inductive Argument (α : Type) where
  | values (values : List α)
  | list (i : Nat)
  deriving DecidableEq, Repr

/-- An operation, on the list of a number. -/
inductive Operation (α : Type) where
  | construct (iterable : Option (Argument α))
  | pushFront (i : Nat) (data : α)
  | pushBack (i : Nat) (data : α)
  | popFront (i : Nat)
  | popBack (i : Nat)
  | prependRange (i : Nat) (rng : Argument α)
  | appendRange (i : Nat) (rng : Argument α)
  | reverse (i : Nat)
  | clone (i : Nat)
  deriving DecidableEq, Repr

/-- The value that an operation returns, if any, or what it throws. -/
abbrev Outcome (α : Type) := Except JsError (Option α)

/-- The heap, and the lists made so far. -/
structure World (α : Type) where
  heap : Heap α
  lists : List LinkedList

namespace World

/-- Before the first operation. -/
def start : World α := ⟨⟨fun _ => none, fun _ => none, fun _ => none, 0⟩, []⟩

/-- The range that an argument stands for. -/
def range (w : World α) : Argument α → Option (Range α)
  | .values values => some (.values values)
  | .list i => w.lists[i]?.map .list

/-- A call of a method; without a list it is a property of `undefined`. -/
def call (w : World α) (i : Nat) (method : LinkedList → Script α (Option α)) : Option (Outcome α × World α) :=
  match w.lists[i]? with
  | none => some (.error .typeError, w)
  | some list => ((method list).run.run w.heap).map fun (outcome, heap) => (outcome, { w with heap })

/-- A call with a range; `undefined` is not one. -/
def callRange (w : World α) (i : Nat) (rng : Argument α) (method : LinkedList → Range α → Script α Unit) :
    Option (Outcome α × World α) :=
  w.call i fun list =>
    match w.range rng with
    | none => throw .typeError
    | some rng => do
      method list rng
      return none

/-- The list that is made comes behind the others. -/
def create (w : World α) (constructor : Script α LinkedList) : Option (Outcome α × World α) :=
  (constructor.run.run w.heap).map fun
    | (.ok list, heap) => (.ok none, ⟨heap, w.lists ++ [list]⟩)
    | (.error error, heap) => (.error error, { w with heap })

/-- An operation, with a bound on the turns of each loop. -/
def perform (bound : Nat) (w : World α) : Operation α → Option (Outcome α × World α)
  | .construct iterable => w.create (LinkedList.construct bound (iterable.bind w.range))
  | .pushFront i data => w.call i fun list => do
    list.pushFront data
    return none
  | .pushBack i data => w.call i fun list => do
    list.pushBack data
    return none
  | .popFront i => w.call i LinkedList.popFront
  | .popBack i => w.call i LinkedList.popBack
  | .prependRange i rng => w.callRange i rng (LinkedList.prependRange bound)
  | .appendRange i rng => w.callRange i rng (LinkedList.appendRange bound)
  | .reverse i => w.call i fun list => do
    list.reverse bound
    return none
  | .clone i =>
    match w.lists[i]? with
    | none => some (.error .typeError, w)
    | some list => w.create (list.clone bound)

/-- The operations in a row. -/
def run (bound : Nat) : World α → List (Operation α) → Option (List (Outcome α) × World α)
  | w, [] => some ([], w)
  | w, operation :: operations => do
    let (outcome, w) ← w.perform bound operation
    let (outcomes, w) ← run bound w operations
    return (outcome :: outcomes, w)

end World

/-! ## The same on plain lists -/

/-- The plain lists made so far. -/
abbrev Plain (α : Type) := List (List α)

namespace Plain

/-- The values that an argument stands for. -/
def values (s : Plain α) : Argument α → Option (List α)
  | .values values => some values
  | .list i => s[i]?

def call (s : Plain α) (i : Nat) (method : List α → Outcome α × List α) : Outcome α × Plain α :=
  match s[i]? with
  | none => (.error .typeError, s)
  | some l => ((method l).1, s.set i (method l).2)

def callRange (s : Plain α) (i : Nat) (rng : Argument α) (method : List α → List α → List α) :
    Outcome α × Plain α :=
  s.call i fun l =>
    match s.values rng with
    | none => (.error .typeError, l)
    | some values => (.ok none, method l values)

def perform (s : Plain α) : Operation α → Outcome α × Plain α
  | .construct iterable => (.ok none, s ++ [((iterable.bind s.values).getD [])])
  | .pushFront i data => s.call i fun l => (.ok none, data :: l)
  | .pushBack i data => s.call i fun l => (.ok none, l ++ [data])
  | .popFront i => s.call i fun l =>
    match l with
    | [] => (.error .assertionError, [])
    | data :: l => (.ok (some data), l)
  | .popBack i => s.call i fun l =>
    match l.getLast? with
    | none => (.error .assertionError, [])
    | some data => (.ok (some data), l.dropLast)
  | .prependRange i rng => s.callRange i rng fun l values => values ++ l
  | .appendRange i rng => s.callRange i rng fun l values => l ++ values
  | .reverse i => s.call i fun l => (.ok none, l.reverse)
  | .clone i =>
    match s[i]? with
    | none => (.error .typeError, s)
    | some l => (.ok none, s ++ [l])

def run : Plain α → List (Operation α) → List (Outcome α) × Plain α
  | s, [] => ([], s)
  | s, operation :: operations =>
    ((s.perform operation).1 :: (run (s.perform operation).2 operations).1, (run (s.perform operation).2 operations).2)

end Plain

/-! ## What agrees -/

/-- A list of two values or more is not appended to itself. -/
def Ends (s : Plain α) : Operation α → Prop
  | .appendRange i (.list j) => i = j → ∀ l, s[i]? = some l → l.length < 2
  | _ => True

/-- The same of all operations, each on the lists it is performed on. -/
def AllEnd : Plain α → List (Operation α) → Prop
  | _, [] => True
  | s, operation :: operations => Ends s operation ∧ AllEnd (s.perform operation).2 operations

/-- A script that reads gives the value and leaves the heap. -/
def Reads (m : Script α β) (h : Heap α) (b : β) : Prop := m.run.run h = some (.ok b, h)

/-- A list object stands for a plain list. -/
structure Agrees (bound : Nat) (w : World α) (i : Nat) (list : LinkedList) (l : List α) : Prop where
  ring : ∃ nodes, Ring w.heap list.head nodes
  iterate : Reads (list.iterate bound) w.heap (l.map some)
  front : Reads list.front w.heap l.head?
  back : Reads list.back w.heap l.getLast?
  empty : Reads list.empty w.heap l.isEmpty
  pops : l = [] → w.perform bound (.popFront i) = some (.error .assertionError, w) ∧
    w.perform bound (.popBack i) = some (.error .assertionError, w)

/-- The lists of the heap, one for each plain list. -/
def Refines (bound : Nat) (w : World α) (s : Plain α) : Prop :=
  w.lists.length = s.length ∧
    ∀ i list l, w.lists[i]? = some list → s[i]? = some l → Agrees bound w i list l

end QjsLws.Linked
