import Mathlib.Data.List.Chain
import Mathlib.Data.List.Nodup
import Mathlib.Logic.Function.Basic

/-!
# Doubly linked lists

The functions of `lib/lws/list.js` on a heap of nodes. A pointer is a node or `null`, and reading or writing a
property of `null` throws a `TypeError`. A loop is given a bound on its turns, and has no result when these do
not suffice.
-/

namespace QjsLws.Linked

/-- The address of a node. -/
abbrev Ref := Nat

/-- A node, or `null`. -/
abbrev Pointer := Option Ref

/-- What is thrown. -/
inductive JsError where
  | typeError
  | assertionError
  deriving DecidableEq, Repr

/-- The properties of all nodes, where `data` may be `undefined`, and the next address. -/
structure Heap (α : Type) where
  next : Ref → Pointer
  prev : Ref → Pointer
  data : Ref → Option α
  fresh : Ref

/-- A computation on the heap that may throw, or not end within its bound. -/
abbrev Script (α β : Type) := ExceptT JsError (StateT (Heap α) Option) β

variable {α β : Type}

namespace Script

/-- The bound was too small. -/
def unended : Script α β := fun _ => none

/-- The node of a pointer whose property is read or written. -/
def deref : Pointer → Script α Ref
  | some node => return node
  | none => throw .typeError

/-- `p.next`. -/
def next (p : Pointer) : Script α Pointer := do
  let node ← deref p
  return (← get).next node

/-- `p.prev`. -/
def prev (p : Pointer) : Script α Pointer := do
  let node ← deref p
  return (← get).prev node

/-- `p.data`. -/
def data (p : Pointer) : Script α (Option α) := do
  let node ← deref p
  return (← get).data node

/-- `p.next = value`. -/
def setNext (p value : Pointer) : Script α Unit := do
  let node ← deref p
  modify fun h => { h with next := Function.update h.next node value }

/-- `p.prev = value`. -/
def setPrev (p value : Pointer) : Script α Unit := do
  let node ← deref p
  modify fun h => { h with prev := Function.update h.prev node value }

/-- `{ data }`, whose other properties are set before they are read. -/
def newNode (data : Option α) : Script α Ref := do
  let h ← get
  set { h with data := Function.update h.data h.fresh data, fresh := h.fresh + 1 }
  return h.fresh

end Script

open Script

/-- `LIST_HEAD_INIT`. -/
def LIST_HEAD_INIT (el : Pointer) : Script α Pointer := do
  setNext el el
  setPrev el el
  return el

/-- `list_entry` of the member `data`. -/
def listEntry (el : Pointer) : Script α (Option α) := data el

/-- `init_list_head`. -/
def initListHead (head : Pointer) : Script α Unit := do
  setPrev head head
  setNext head head

/-- `__list_add`. -/
def _listAdd (el prev next : Pointer) : Script α Unit := do
  setNext prev el
  setPrev el prev
  setNext el next
  setPrev next el

/-- `list_del`. -/
def listDel (el : Pointer) : Script α Unit := do
  let prev ← Script.prev el
  let next ← Script.next el
  setPrev next prev
  setNext prev next
  setPrev el none
  setNext el none

/-- `list_empty`. -/
def listEmpty (head : Pointer) : Script α Bool := do
  return (← next head) = head

/-! ## Sorting -/

/-- `x = x.next`, and `null` in place of `oldhead`. -/
def advance (x oldhead : Pointer) : Script α Pointer := do
  let x ← next x
  return if x = oldhead then none else x

/-- The loop that sets `psize` and `q`, with `turns` left of `insize`. -/
def stepRun (oldhead : Pointer) : (turns : Nat) → (q : Pointer) → (psize : Nat) → Script α (Pointer × Nat)
  | 0, q, psize => return (q, psize)
  | turns + 1, q, psize => do
    let q ← advance q oldhead
    if q = none then return (q, psize + 1)
    stepRun oldhead turns q (psize + 1)

/-- `if(tail) tail.next = e; else list = e; e.prev = tail; tail = e`, with `list` and `tail`. -/
def appendTail (e list tail : Pointer) : Script α (Pointer × Pointer) := do
  if tail = none then
    setPrev e tail
    return (e, e)
  else
    setNext tail e
    setPrev e tail
    return (list, e)

/-- The loop that merges two runs: `p`, `q`, `list` and `tail` behind it. -/
def mergeRuns (cmp : Ref → Ref → Int) (oldhead p : Pointer) (psize : Nat) (q : Pointer) (qsize : Nat)
    (list tail : Pointer) : Script α (Pointer × Pointer × Pointer) := do
  if _ : psize > 0 ∨ qsize > 0 ∧ q ≠ none then
    if _ : psize = 0 then
      let e := q
      let q ← advance q oldhead
      let (list, tail) ← appendTail e list tail
      mergeRuns cmp oldhead p psize q (qsize - 1) list tail
    else if _ : qsize = 0 ∨ q = none then
      let e := p
      let p ← advance p oldhead
      let (list, tail) ← appendTail e list tail
      mergeRuns cmp oldhead p (psize - 1) q qsize list tail
    else if cmp (← deref p) (← deref q) ≤ 0 then
      let e := p
      let p ← advance p oldhead
      let (list, tail) ← appendTail e list tail
      mergeRuns cmp oldhead p (psize - 1) q qsize list tail
    else
      let e := q
      let q ← advance q oldhead
      let (list, tail) ← appendTail e list tail
      mergeRuns cmp oldhead p psize q (qsize - 1) list tail
  else return (q, list, tail)
termination_by psize + qsize

/-- The `while` loop of a pass: `nmerges`, `list` and `tail` behind it. -/
def passLoop (cmp : Ref → Ref → Int) (insize : Nat) (oldhead : Pointer) :
    (turns : Nat) → (p : Pointer) → (nmerges : Nat) → (list tail : Pointer) → Script α (Nat × Pointer × Pointer)
  | _, none, nmerges, list, tail => return (nmerges, list, tail)
  | 0, some _, _, _, _ => unended
  | turns + 1, some p, nmerges, list, tail => do
    let (q, psize) ← stepRun oldhead insize (some p) 0
    let (q, list, tail) ← mergeRuns cmp oldhead (some p) psize q insize list tail
    passLoop cmp insize oldhead turns q (nmerges + 1) list tail

/-- The `for` loop of `__list_sort`: `list` behind it. -/
def sortLoop (cmp : Ref → Ref → Int) (bound : Nat) :
    (turns : Nat) → (insize : Nat) → (list : Pointer) → Script α Pointer
  | 0, _, _ => unended
  | turns + 1, insize, list => do
    let oldhead := list
    let (nmerges, list, tail) ← passLoop cmp insize oldhead bound oldhead 0 none none
    setNext tail list
    setPrev list tail
    if nmerges ≤ 1 then return list
    sortLoop cmp bound turns (insize * 2) list

/-- `__list_sort`. -/
def _listSort (bound : Nat) (head : Pointer) (cmp : Ref → Ref → Int) : Script α Unit := do
  let list ← next head
  listDel head
  let list ← sortLoop cmp bound bound 1 list
  setNext head list
  setPrev head (← prev list)
  setNext (← prev list) head
  setPrev list head

/-- `list_sort`. -/
def listSort (bound : Nat) (head : Pointer) (cmp : Ref → Ref → Int) : Script α Unit := do
  if ← listEmpty head then return
  _listSort bound head cmp

/-! ## Reversing -/

/-- The loop of `__list_reverse`. -/
def reverseLoop (head prev : Pointer) : (turns : Nat) → (p : Pointer) → Script α Unit
  | 0, _ => unended
  | turns + 1, p => do
    let q ← next p
    if q = none then return
    _listAdd p head (← next head)
    if p = prev then return
    reverseLoop head prev turns q

/-- `__list_reverse`. -/
def _listReverse (bound : Nat) (head : Pointer) : Script α Unit := do
  let next ← Script.next head
  let prev ← Script.prev head
  listDel head
  initListHead head
  reverseLoop head prev bound next

/-- `list_reverse`. -/
def listReverse (bound : Nat) (head : Pointer) : Script α Unit := do
  if ← listEmpty head then return
  _listReverse bound head

/-! ## Iterating -/

/-- A `for of` loop over `list_for_each_safe(head, list_entry)`, with `el` and `el1` of the generator and the
state of its body. -/
def listForEachSafe (head : Pointer) (body : Option α → β → Script α β) :
    (turns : Nat) → (el el1 : Pointer) → β → Script α β
  | 0, _, _, _ => unended
  | turns + 1, el, el1, state => do
    if el = head then return state
    let state ← body (← listEntry el) state
    let el := el1
    let el1 ← next el
    listForEachSafe head body turns el el1 state

/-! ## Rings -/

/-- `b` stands behind `a`, and `a` before `b`. -/
def Link (h : Heap α) (a b : Ref) : Prop := h.next a = some b ∧ h.prev b = some a

/-- The list with this head and these nodes: its links are mutually inverse and lead around through the
head. -/
structure Ring (h : Heap α) (head : Ref) (nodes : List Ref) : Prop where
  nodup : (head :: nodes).Nodup
  chain : (head :: nodes ++ [head]).IsChain (Link h)

end QjsLws.Linked
