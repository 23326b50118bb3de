import QjsLws.Linked.Heap

/-!
# Lists in the manner of the kernel

The functions of `lib/lws/list.js` that join and move, and its loops over the nodes themselves. A program is a
sequence of calls on the lists that are alive, beside which stand the same calls on plain lists. A node is free
that is neither a head nor in a list; the head of a list that was joined to another is free as well.
-/

namespace QjsLws.Linked

open Script

variable {α β : Type}

/-- `list_add`. -/
def listAdd (el head : Pointer) : Script α Unit := do
  _listAdd el head (← next head)

/-- `list_add_tail`. -/
def listAddTail (el head : Pointer) : Script α Unit := do
  _listAdd el (← prev head) head

/-- `__list_splice`. -/
def _listSplice (src dest : Pointer) : Script α Unit := do
  let next ← Script.next src
  let prev ← Script.prev src
  let behind ← Script.next dest
  setPrev next dest
  setNext dest next
  setNext prev behind
  setPrev behind prev

/-- `list_splice`. -/
def listSplice (src dest : Pointer) : Script α Unit := do
  if ← listEmpty src then return
  _listSplice src dest

/-- `list_move`. -/
def listMove (el head : Pointer) : Script α Unit := do
  listDel el
  listAdd el head

/-- `list_move_tail`. -/
def listMoveTail (el head : Pointer) : Script α Unit := do
  listDel el
  listAddTail el head

/-- `list_replace`. -/
def listReplace (old el : Pointer) : Script α Unit := do
  setNext el (← next old)
  setPrev (← next el) el
  setPrev el (← prev old)
  setNext (← prev el) el

/-- `__list_merge`. -/
def _listMerge (dprev shead stail dnext : Pointer) : Script α Unit := do
  setNext dprev shead
  setPrev shead dprev
  setNext stail dnext
  setPrev dnext stail

/-- `list_merge`. -/
def listMerge (dest src : Pointer) : Script α Unit := do
  if ← listEmpty src then return
  _listMerge dest (← next src) (← prev src) (← next dest)

/-- `list_merge_tail`. -/
def listMergeTail (dest src : Pointer) : Script α Unit := do
  if ← listEmpty src then return
  _listMerge (← prev dest) (← next src) (← prev src) dest

/-! ## Loops -/

/-- A `for of` loop over `list_for_each` or `list_for_each_prev`, which differ in the way on from a node. -/
def forEachLoop (on : Pointer → Script α Pointer) (head : Pointer) (body : Pointer → β → Script α β) :
    (turns : Nat) → (el : Pointer) → β → Script α β
  | 0, _, _ => unended
  | turns + 1, el, state => do
    if el = head then return state
    let state ← body el state
    forEachLoop on head body turns (← on el) state

/-- `list_for_each`. -/
def listForEach (bound : Nat) (head : Pointer) (body : Pointer → β → Script α β) (state : β) : Script α β := do
  forEachLoop next head body bound (← next head) state

/-- `list_for_each_prev`. -/
def listForEachPrev (bound : Nat) (head : Pointer) (body : Pointer → β → Script α β) (state : β) :
    Script α β := do
  forEachLoop prev head body bound (← prev head) state

/-- A `for of` loop over `list_for_each_safe` or `list_for_each_prev_safe`. -/
def forEachSafeLoop (on : Pointer → Script α Pointer) (head : Pointer) (body : Pointer → β → Script α β) :
    (turns : Nat) → (el el1 : Pointer) → β → Script α β
  | 0, _, _, _ => unended
  | turns + 1, el, el1, state => do
    if el = head then return state
    let state ← body el state
    forEachSafeLoop on head body turns el1 (← on el1) state

/-- `list_for_each_safe` of the nodes. -/
def listForEachNodeSafe (bound : Nat) (head : Pointer) (body : Pointer → β → Script α β) (state : β) :
    Script α β := do
  let el ← next head
  forEachSafeLoop next head body bound el (← next el) state

/-- `list_for_each_prev_safe`. -/
def listForEachPrevSafe (bound : Nat) (head : Pointer) (body : Pointer → β → Script α β) (state : β) :
    Script α β := do
  let el ← prev head
  forEachSafeLoop prev head body bound el (← prev el) state

/-- The nodes that a loop visits. -/
def collect (el : Pointer) (seen : List Pointer) : Script α (List Pointer) := return seen ++ [el]

/-- A loop that deletes what it is told to, and knows what it visited. -/
def deleteIf (unwanted : Ref → Bool) (el : Pointer) (seen : List Pointer) : Script α (List Pointer) := do
  if unwanted (← deref el) then listDel el
  return seen ++ [el]

/-! ## Programs -/

/-- A call of one of the functions. -/
inductive ListCall where
  | initListHead (head : Ref)
  | add (el head : Ref)
  | addTail (el head : Ref)
  | del (el : Ref)
  | move (el head : Ref)
  | moveTail (el head : Ref)
  | replace (old el : Ref)
  | splice (src dest : Ref)
  | merge (dest src : Ref)
  | mergeTail (dest src : Ref)
  | reverse (head : Ref)
  deriving DecidableEq, Repr

/-- What a call does on the heap. -/
def ListCall.perform (bound : Nat) : ListCall → Script α Unit
  | .initListHead head => Linked.initListHead (some head)
  | .add el head => listAdd (some el) (some head)
  | .addTail el head => listAddTail (some el) (some head)
  | .del el => listDel (some el)
  | .move el head => listMove (some el) (some head)
  | .moveTail el head => listMoveTail (some el) (some head)
  | .replace old el => listReplace (some old) (some el)
  | .splice src dest => listSplice (some src) (some dest)
  | .merge dest src => listMerge (some dest) (some src)
  | .mergeTail dest src => listMergeTail (some dest) (some src)
  | .reverse head => listReverse bound (some head)

/-- The calls one after the other. -/
def performAll (bound : Nat) (calls : List ListCall) : Script α Unit :=
  calls.forM (ListCall.perform bound)

/-- The lists that are alive: their heads and their nodes. -/
abbrev Pool := List (Ref × List Ref)

namespace Pool

/-- All nodes of a list. -/
def refs (c : Ref × List Ref) : List Ref := c.1 :: c.2

def Free (pool : Pool) (el : Ref) : Prop := ∀ c ∈ pool, el ∉ refs c

instance (pool : Pool) (el : Ref) : Decidable (pool.Free el) := inferInstanceAs (Decidable (∀ c ∈ pool, _))

/-- A list is changed, if it is alive. -/
def change (pool : Pool) (head : Ref) (f : List Ref → List Ref) : Option Pool :=
  if (pool.lookup head).isSome then
    some (pool.map fun c => if c.1 = head then (c.1, f c.2) else c)
  else none

def insert (pool : Pool) (el head : Ref) (f : List Ref → List Ref) : Option Pool :=
  if pool.Free el then pool.change head f else none

def remove (pool : Pool) (el : Ref) : Option Pool :=
  if ∃ c ∈ pool, el ∈ c.2 then some (pool.map fun c => (c.1, c.2.erase el)) else none

def replaced (old el x : Ref) : Ref := if x = old then el else x

def replace (pool : Pool) (old el : Ref) : Option Pool :=
  if pool.Free el ∧ ¬ pool.Free old then
    some (pool.map fun c => (replaced old el c.1, c.2.map (replaced old el)))
  else none

/-- The nodes of a list go to another; the head stays alive only where there are none. -/
def join (pool : Pool) (src dest : Ref) (f : List Ref → List Ref → List Ref) : Option Pool := do
  if src = dest then none
  let nodes ← pool.lookup src
  let _ ← pool.lookup dest
  if nodes = [] then return pool
  change (pool.filter fun c => c.1 ≠ src) dest (f nodes)

/-- What a call does to plain lists; `none` where it is not made for them. -/
def call (pool : Pool) : ListCall → Option Pool
  | .initListHead head => if pool.Free head then some ((head, []) :: pool) else none
  | .add el head => pool.insert el head (el :: ·)
  | .addTail el head => pool.insert el head (· ++ [el])
  | .del el => pool.remove el
  | .move el head => do (← pool.remove el).insert el head (el :: ·)
  | .moveTail el head => do (← pool.remove el).insert el head (· ++ [el])
  | .replace old el => pool.replace old el
  | .splice src dest => pool.join src dest (· ++ ·)
  | .merge dest src => pool.join src dest (· ++ ·)
  | .mergeTail dest src => pool.join src dest fun nodes l => l ++ nodes
  | .reverse head => pool.change head List.reverse

/-- The calls one after the other, where no list is alive before. -/
def run (calls : List ListCall) : Option Pool := calls.foldlM call []

end Pool

end QjsLws.Linked
