import QjsLws.Misc.Assoc
import QjsLws.Misc.OrderedSet
import QjsLws.Misc.Run
import QjsLws.Misc.Text

/-!
# Topics

The `TopicRegistry` of `lib/websocket.js`, which one `WebSocket.protocol()` shares between its
sockets, and the callbacks that open and close them. Sockets are named by the order in which they
opened. What a handler calls comes after all that its callback does, so it is one of the calls that
follow. A `send` runs no code of the application: it writes to the wsi, or a cork queues the data.
-/

namespace QjsLws.WebSocket

open QjsLws.Misc

/-- A message: a string, an object with a `byteLength`, or `null` or `undefined`. -/
inductive Message where
  | text (t : Text)
  | bytes (byteLength : Nat)
  | nullish
  deriving DecidableEq, Repr

/-- `messageByteLength`. -/
def messageByteLength : Message → Except JsError Nat
  | .text t => .ok (utf8 t).length
  | .bytes byteLength => .ok byteLength
  | .nullish => .error ⟨"TypeError".toList, "cannot read property 'byteLength'".toList⟩

/-- `#topics` and `#subscriptions`. -/
structure TopicRegistry (τ ω : Type) where
  topics : Assoc τ (OrderedSet ω)
  subscriptions : Assoc ω (OrderedSet τ)
  deriving DecidableEq

/-- The calls of `send` that a `publish` made, and the bytes it returns or what it throws. -/
structure Published (ω : Type) where
  calls : List ω
  result : Except JsError Nat

namespace TopicRegistry

variable {τ ω : Type} [DecidableEq τ] [DecidableEq ω]

/-- No topic and no socket. -/
def start : TopicRegistry τ ω := ⟨.empty, .empty⟩

/-- The set of a topic. -/
def subscribers (r : TopicRegistry τ ω) (topic : τ) : OrderedSet ω :=
  (r.topics.get topic).getD .empty

/-- The set of a socket. -/
def topicsOf (r : TopicRegistry τ ω) (ws : ω) : OrderedSet τ :=
  (r.subscriptions.get ws).getD .empty

/-- `subscribe`. -/
def subscribe (ws : ω) (topic : τ) (r : TopicRegistry τ ω) : TopicRegistry τ ω :=
  { topics := r.topics.set topic ((r.subscribers topic).add ws)
    subscriptions := r.subscriptions.set ws ((r.topicsOf ws).add topic) }

/-- `this.#topics.get(topic)?.delete(ws)`. -/
def dropSubscriber (ws : ω) (topics : Assoc τ (OrderedSet ω)) (topic : τ) :
    Assoc τ (OrderedSet ω) :=
  match topics.get topic with
  | some subs => topics.set topic (subs.delete ws)
  | none => topics

/-- `unsubscribe`. -/
def unsubscribe (ws : ω) (topic : τ) (r : TopicRegistry τ ω) : TopicRegistry τ ω :=
  { topics := dropSubscriber ws r.topics topic
    subscriptions :=
      match r.subscriptions.get ws with
      | some topics => r.subscriptions.set ws (topics.delete topic)
      | none => r.subscriptions }

/-- `getSubscriptions`. -/
def getSubscriptions (r : TopicRegistry τ ω) (ws : ω) : List τ := (r.topicsOf ws).elems

/-- The loop of `publish`; `throws` says what the `send` of a socket throws. -/
def sendAll (throws : ω → Option JsError) (len : Nat) (exclude : Option ω) (sent : Nat) :
    List ω → Published ω
  | [] => ⟨[], .ok sent⟩
  | ws :: rest =>
    if some ws = exclude then sendAll throws len exclude sent rest
    else
      match throws ws with
      | some e => ⟨[ws], .error e⟩
      | none =>
        let later := sendAll throws len exclude (sent + len) rest
        { later with calls := ws :: later.calls }

/-- `publish`. -/
def publish (topic : τ) (message : Message) (exclude : Option ω) (throws : ω → Option JsError)
    (r : TopicRegistry τ ω) : Published ω :=
  if (r.subscribers topic).elems = [] then ⟨[], .ok 0⟩
  else
    match messageByteLength message with
    | .error e => ⟨[], .error e⟩
    | .ok len => sendAll throws len exclude 0 (r.subscribers topic).elems

/-- `cleanup`. -/
def cleanup (ws : ω) (r : TopicRegistry τ ω) : TopicRegistry τ ω :=
  match r.subscriptions.get ws with
  | none => r
  | some topics =>
    { topics := topics.elems.foldl (dropSubscriber ws) r.topics
      subscriptions := r.subscriptions.erase ws }

end TopicRegistry

/-- What happens to the sockets of one protocol: the callbacks of a connection, the methods of its
socket, and the `publish` of the descriptor. -/
inductive HubEvent (τ : Type) where
  | open
  | subscribe (ws : Nat) (topic : τ)
  | unsubscribe (ws : Nat) (topic : τ)
  | socketPublish (ws : Nat) (topic : τ) (message : Message) (throws : Nat → Option JsError)
  | publish (topic : τ) (message : Message) (throws : Nat → Option JsError)
  | close (ws : Nat)

/-- A call of `publish`: who should have been sent the message, and the calls of `send`. -/
structure Publication where
  audience : List Nat
  calls : List Nat
  deriving DecidableEq, Repr

/-- The registry, the sockets, who is subscribed to what by the calls made so far, and what was
published. -/
structure Hub (τ : Type) where
  registry : TopicRegistry τ Nat
  opened : Nat
  closed : List Nat
  subscribed : List (Nat × τ)
  published : List Publication

namespace Hub

variable {τ : Type} [DecidableEq τ]

/-- No socket so far. -/
def start : Hub τ := ⟨.start, 0, [], [], []⟩

/-- Whether a socket is open. -/
def isOpen (s : Hub τ) (ws : Nat) : Bool := ws < s.opened && ws ∉ s.closed

/-- The open sockets subscribed to a topic, but for one. -/
def audience (s : Hub τ) (topic : τ) (exclude : Option Nat) : List Nat :=
  ((s.subscribed.filter fun p => p.2 = topic).map Prod.fst).filter fun ws => some ws ≠ exclude

/-- `publish` on the registry. -/
def publish (s : Hub τ) (topic : τ) (message : Message) (exclude : Option Nat)
    (throws : Nat → Option JsError) : Hub τ :=
  { s with published := s.published ++
      [⟨s.audience topic exclude, (s.registry.publish topic message exclude throws).calls⟩] }

/-- One call. Only a socket that was opened has methods and is closed. -/
def step (s : Hub τ) : HubEvent τ → Hub τ
  | .open => { s with opened := s.opened + 1 }
  | .subscribe ws topic =>
    if ws < s.opened then
      { s with
        registry := s.registry.subscribe ws topic
        subscribed := if s.isOpen ws then (ws, topic) :: s.subscribed else s.subscribed }
    else s
  | .unsubscribe ws topic =>
    if ws < s.opened then
      { s with
        registry := s.registry.unsubscribe ws topic
        subscribed := s.subscribed.filter (· ≠ (ws, topic)) }
    else s
  | .socketPublish ws topic message throws =>
    if ws < s.opened then s.publish topic message (some ws) throws else s
  | .publish topic message throws => s.publish topic message none throws
  | .close ws =>
    if ws < s.opened then
      { s with
        registry := s.registry.cleanup ws
        closed := ws :: s.closed
        subscribed := s.subscribed.filter (·.1 ≠ ws) }
    else s

/-- The relations agree with each other and with the calls made so far, no closed socket is in
them, and every message was sent once to everyone it was for and to nobody else. -/
structure Sound (s : Hub τ) : Prop where
  converse : ∀ ws topic,
    ws ∈ (s.registry.subscribers topic).elems ↔ topic ∈ s.registry.getSubscriptions ws
  subscribed : ∀ ws topic,
    ws ∈ (s.registry.subscribers topic).elems ↔ (ws, topic) ∈ s.subscribed
  noClosed : ∀ ws ∈ s.closed, ∀ topic, ws ∉ (s.registry.subscribers topic).elems
  delivered : ∀ p ∈ s.published, ∀ ws, p.calls.count ws = if ws ∈ p.audience then 1 else 0

/-- The sockets that a `publish` goes through, in order. -/
def recipients (s : Hub τ) (topic : τ) (exclude : Option Nat) : List Nat :=
  (s.registry.subscribers topic).elems.filter fun ws => some ws ≠ exclude

/-- The message has a length, and no `send` but the last one throws. -/
def Reaches (s : Hub τ) (topic : τ) (message : Message) (exclude : Option Nat)
    (throws : Nat → Option JsError) : Prop :=
  s.recipients topic exclude ≠ [] →
    message ≠ .nullish ∧ ∀ ws ∈ (s.recipients topic exclude).dropLast, throws ws = none

/-- No closed socket subscribes, and every message reaches its recipients. -/
def Proper (s : Hub τ) : HubEvent τ → Prop
  | .subscribe ws _ => ws ∉ s.closed
  | .socketPublish ws topic message throws =>
    ws < s.opened → s.Reaches topic message (some ws) throws
  | .publish topic message throws => s.Reaches topic message none throws
  | .open | .unsubscribe _ _ | .close _ => True

end Hub

end QjsLws.WebSocket
