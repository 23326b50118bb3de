import QjsLws.Body.Content
import QjsLws.Misc.Run

/-!
# Reading and cloning bodies

`clone` of `Request` and `Response`, the construction of a `Request` from another and the reading
methods of `Body` (`lib/lws/request.js`, `lib/lws/response.js`, `lib/lws/body.js`), over the streams
that the objects may share. Calls are taken one after the other; what the streams do between two
calls is a step of its own.
-/

namespace QjsLws.Body

open QjsLws.Misc

/-! ## Streams -/

/-- A stream: the chunks that wait in it, the stream it pulls more from until that one ends, and
whether a reader holds it. -/
structure StreamCell where
  queue : List Delivered
  upstream : Option Nat
  locked : Bool

/-- The streams that were made so far. -/
abbrev Heap := List StreamCell

/-- The reader of a stream sees its end and lets it go. -/
def release (heap : Heap) (i : Nat) : Heap := heap.modify i fun cell => { cell with locked := false }

/-- `readWholeStream`: the chunks until the end, and what it leaves. A stream pulls from an older one
only, so the number of streams is fuel enough. -/
def drain : Nat → Heap → Nat → List Delivered × Heap
  | 0, heap, _ => ([], heap)
  | fuel + 1, heap, i =>
    match heap[i]? with
    | none => ([], heap)
    | some cell =>
      match cell.upstream with
      | none => (cell.queue, heap.set i { cell with queue := [] })
      | some u =>
        let (chunks, heap) := drain fuel heap u
        (cell.queue ++ chunks, (release heap u).set i { cell with queue := [], upstream := none })

/-- A stream whose queue is empty pulls: it gets a chunk, or the end, or waits. -/
def pull (heap : Heap) (i : Nat) : Heap :=
  match heap[i]? with
  | some ⟨[], some u, locked⟩ =>
    match heap[u]? with
    | some ⟨chunk :: rest, upstream, held⟩ =>
      (heap.set u ⟨rest, upstream, held⟩).set i ⟨[chunk], some u, locked⟩
    | some ⟨[], none, _⟩ => (release heap u).set i ⟨[], none, locked⟩
    | _ => heap
  | _ => heap

/-- The source of a new body and `streamFromIterable` over it, which reads it. -/
def openSource (heap : Heap) (chunks : List Delivered) : Heap × Nat :=
  (heap ++ [⟨chunks, none, true⟩, ⟨[], some heap.length, false⟩], heap.length + 1)

/-- `streamFromIterable` over the stream of another body; it throws where that has a reader. -/
def openStream (heap : Heap) (i : Nat) : Option (Heap × Nat) :=
  match heap[i]? with
  | some cell =>
    if cell.locked then none
    else some (heap.set i { cell with locked := true } ++ [⟨[], some i, false⟩], heap.length)
  | none => none

/-! ## Objects -/

/-- A `Request`, with whether its method is `GET` or `HEAD`, or a `Response`. -/
inductive Kind where
  | request (getOrHead : Bool)
  | response
  deriving DecidableEq, Repr

/-- What the object keeps of its body. `wasRead` is no property of the source; it records that a
reading method was called. -/
structure BodyObject where
  kind : Kind
  bodyInit : Option BodyInit
  body : Option Nat
  bodyUsed : Bool
  wasRead : Bool

/-- The streams and the objects. -/
structure Bodies where
  heap : Heap
  objects : List BodyObject

/-- The values that `_bodyInit` keeps, of which a new stream can be made. -/
def BodyInit.rebuildable : BodyInit → Bool
  | .none | .source _ => false
  | .string _ | .arrayBuffer _ | .view _ | .object _ _ => true

/-- Whether the value is truthy. -/
def BodyInit.truthy : BodyInit → Bool
  | .none => false
  | .string t => t ≠ []
  | .arrayBuffer _ | .view _ | .object _ _ | .source _ => true

/-- The reading methods. -/
inductive Method where
  | text
  | arrayBuffer
  | bytes
  | json
  deriving DecidableEq, Repr

/-- What a call does: it throws or its promise is rejected, it makes an object, or it gives the
content, here by its bytes. -/
inductive Outcome where
  | failed
  | made (id : Nat)
  | content (bytes : List UInt8)
  deriving DecidableEq, Repr

namespace Bodies

/-- No object yet. -/
def empty : Bodies := ⟨[], []⟩

/-- Changes an object. -/
def update (s : Bodies) (o : Nat) (f : BodyObject → BodyObject) : Bodies :=
  { s with objects := s.objects.modify o f }

/-- A new object. -/
def push (s : Bodies) (kind : Kind) (bodyInit : Option BodyInit) (body : Option Nat) :
    Bodies × Outcome :=
  ({ s with objects := s.objects ++ [⟨kind, bodyInit, body, false, false⟩] },
    .made s.objects.length)

/-- `super(body)`. -/
def construct (s : Bodies) (kind : Kind) (init : BodyInit) : Bodies × Outcome :=
  match init with
  | .none => s.push kind none none
  | _ =>
    let (heap, stream) := openSource s.heap init.delivered
    { s with heap }.push kind (if init.rebuildable then some init else none) (some stream)

/-- The constructor of either class; a `GET` or `HEAD` request with a body is refused. -/
def make (s : Bodies) (kind : Kind) (init : BodyInit) : Bodies × Outcome :=
  if kind = .request true ∧ init.truthy = true then (s, .failed) else s.construct kind init

/-- `Response.clone` and `Request.clone`. -/
def clone (s : Bodies) (o : Nat) : Bodies × Outcome :=
  match s.objects[o]? with
  | none => (s, .failed)
  | some object =>
    if object.bodyUsed then (s, .failed)
    else
      match object.kind, object.bodyInit, object.body with
      | .response, bodyInit, _ => s.make .response (bodyInit.getD .none)
      | .request getOrHead, some init, _ => s.make (.request getOrHead) init
      | .request getOrHead, none, none => s.make (.request getOrHead) .none
      | .request getOrHead, none, some stream =>
        -- `{ body: this.body }`, which `super` wraps before the method is looked at
        match openStream s.heap stream with
        | none => (s, .failed)
        | some (heap, wrapped) =>
          if getOrHead then ({ s with heap }, .failed)
          else { s with heap }.push (.request getOrHead) none (some wrapped)

/-- `new Request(input, { method, body })`, where `body` may be missing and `getOrHead` tells whether
the method of the new request is `GET` or `HEAD`. Only a `Request` is an input. -/
def constructFrom (s : Bodies) (o : Nat) (getOrHead : Bool) (body : BodyInit) : Bodies × Outcome :=
  match s.objects[o]? with
  | none => (s, .failed)
  | some object =>
    if object.kind = .response ∨ object.bodyUsed = true then (s, .failed)
    else
      match body, object.bodyInit with
      | .none, some init =>
        (s.update o fun object => { object with bodyUsed := true }).make (.request getOrHead) init
      | _, _ => s.make (.request getOrHead) body

/-- `arrayBuffer`, and the other methods over it. `isJson` tells what `JSON.parse` accepts. -/
def read (isJson : Text → Bool) (s : Bodies) (o : Nat) (m : Method) : Bodies × Outcome :=
  match s.objects[o]? with
  | none => (s, .failed)
  | some object =>
    let s := s.update o fun object => { object with bodyUsed := true, wasRead := true }
    let finish (bytes : List UInt8) : Outcome :=
      if m = .json ∧ isJson (lossyUtf8 bytes) = false then .failed else .content bytes
    match object.body with
    | none => (s, finish [])
    | some stream =>
      if (s.heap[stream]?.map StreamCell.locked).getD false then (s, .failed)
      else
        let (chunks, heap) := drain s.heap.length s.heap stream
        ({ s with heap }, (concatArrayBuffer (chunks.map Delivered.binary)).elim .failed finish)

end Bodies

/-- A call, or the progress of a stream. -/
inductive BodyOp where
  | clone (o : Nat)
  | constructFrom (o : Nat) (getOrHead : Bool) (body : BodyInit)
  | read (o : Nat) (m : Method)
  | pull (i : Nat)

section Runs

variable (isJson : Text → Bool)

/-- One call, with its outcome. -/
def call (s : Bodies) : BodyOp → Bodies × Outcome
  | .clone o => s.clone o
  | .constructFrom o getOrHead body => s.constructFrom o getOrHead body
  | .read o m => s.read isJson o m
  | .pull i => ({ s with heap := pull s.heap i }, .failed)

/-- The state after a call. -/
def bodyStep (s : Bodies) (op : BodyOp) : Bodies := (call isJson s op).1

/-- A new object. -/
def start (kind : Kind) (init : BodyInit) : Bodies := (Bodies.empty.make kind init).1

/-! ## The contract -/

/-- What reading an object would give; `none` when it would fail. -/
def wouldRead (s : Bodies) (o : Nat) : Option (List UInt8) :=
  match (s.read isJson o .arrayBuffer).2 with
  | .content bytes => some bytes
  | .failed | .made _ => none

/-- The object was made and no reading method of it was called. -/
def Unread (s : Bodies) (o : Nat) : Prop := ∃ object, s.objects[o]? = some object ∧
  object.wasRead = false

/-- The clone `c`, made of the object `o` in the state `s`, leaves that object as it was. From then on
each of the two gives, until it is read itself, what the original would have given. -/
def Bodies.CloneOk (s : Bodies) (o c : Nat) (later : List BodyOp) : Prop :=
  (bodyStep isJson s (.clone o)).objects[o]? = s.objects[o]? ∧
    let s' := runFrom (bodyStep isJson) (bodyStep isJson s (.clone o)) later
    (Unread s' c → wouldRead isJson s' c = wouldRead isJson s o) ∧
      (Unread s' o → wouldRead isJson s' o = wouldRead isJson s o)

/-- The call reads or clones an object that was read. -/
def BodyOp.Again (s : Bodies) : BodyOp → Prop
  | .clone o | .read o _ => ∃ object, s.objects[o]? = some object ∧ object.wasRead = true
  | .constructFrom .. | .pull _ => False

/-- The law of clones and of reading once, for a run: an object whose body is not used can be cloned,
and what was read is neither read nor cloned again. -/
structure BodyContract (s : Bodies) (ops : List BodyOp) : Prop where
  clones : ∀ before o later after, ops = before ++ .clone o :: (later ++ after) →
    ∀ object, (runFrom (bodyStep isJson) s before).objects[o]? = some object →
      object.bodyUsed = false →
        ∃ c, (call isJson (runFrom (bodyStep isJson) s before) (.clone o)).2 = .made c ∧
          (runFrom (bodyStep isJson) s before).CloneOk isJson o c later
  once : ∀ before op after, ops = before ++ op :: after →
    op.Again (runFrom (bodyStep isJson) s before) →
      (call isJson (runFrom (bodyStep isJson) s before) op).2 = .failed

/-- An object that was read is read again only as JSON, which the empty text is not; and no object is
cloned whose body is a stream or an iterable, unless it is marked as used. -/
def BodyOp.Proper (s : Bodies) : BodyOp → Prop
  | .clone o => ∀ object, s.objects[o]? = some object →
    object.bodyUsed = true ∨ object.body = none ∨ object.bodyInit ≠ none
  | .read o m => ∀ object, s.objects[o]? = some object → object.wasRead = true → m = .json
  | .constructFrom .. | .pull _ => True

end Runs

end QjsLws.Body
