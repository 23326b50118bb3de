import QjsLws.Misc.Run

/-!
# `socket.cork`

A cork of a server WebSocket (`WebSocket.protocol` in `lib/websocket.js`) saves whatever
`socket.send` is, replaces it by a function that queues, and when its callback is done puts the
saved function back and sends what it queued. Corks are named by the order in which they start, and
messages by the order in which `socket.send` is called with them.
-/

namespace QjsLws.WebSocket

/-- What `socket.send` is: the method of the class, or the queueing function of a cork. -/
inductive Sender where
  | native
  | push (cork : Nat)
  deriving DecidableEq, Repr

/-- How the callback of a cork ends: it returns or its promise is fulfilled, its promise is
rejected, or the call throws. -/
inductive Ending where
  | fulfilled
  | rejected
  | threw
  deriving DecidableEq, Repr

/-- A cork: `originalSend` and `queue`, the number of messages sent before it started, and once its
callback is done the number sent before that and how it ended. -/
structure Cork where
  originalSend : Sender
  queue : List Nat
  since : Nat
  ended : Option (Nat × Ending)
  deriving DecidableEq, Repr

/-- `socket.send`, the corks so far, the number of messages sent and the messages that were passed
to `wsi.write`. -/
structure CorkedSocket where
  send : Sender
  corks : List Cork
  sent : Nat
  written : List Nat
  deriving DecidableEq, Repr

/-- A cork starts, a message is sent, or the callback of a cork is done. -/
inductive CorkEvent where
  | cork
  | send
  | finish (cork : Nat) (ending : Ending)
  deriving DecidableEq, Repr

namespace CorkedSocket

/-- A socket that was never corked. -/
def start : CorkedSocket := ⟨.native, [], 0, []⟩

/-- `queue.push(data)` of a cork. -/
def push (k m : Nat) (s : CorkedSocket) : CorkedSocket :=
  { s with corks := s.corks.modify k fun c => { c with queue := c.queue ++ [m] } }

/-- `socket.send(data)`. -/
def sendData (m : Nat) (s : CorkedSocket) : CorkedSocket :=
  match s.send with
  | .native => { s with written := s.written ++ [m] }
  | .push k => s.push k m

/-- `for(const data of queue) socket.send(data)`. Only `wsi.write` throws, and that ends the
loop. -/
def flush (throws : Nat → Bool) : List Nat → CorkedSocket → CorkedSocket
  | [], s => s
  | m :: rest, s =>
    if s.send = .native && throws m then s.sendData m else flush throws rest (s.sendData m)

/-- `const queue = []; const originalSend = …; socket.send = …`. -/
def startCork (s : CorkedSocket) : CorkedSocket :=
  { s with
    send := .push s.corks.length
    corks := s.corks ++ [⟨s.send, [], s.sent, none⟩] }

/-- The rest of `cork` when the callback is done. Nothing catches what the call throws. -/
def finish (throws : Nat → Bool) (k : Nat) (ending : Ending) (s : CorkedSocket) : CorkedSocket :=
  match s.corks[k]? with
  | none => s
  | some c =>
    if c.ended.isSome then s
    else
      let s := { s with corks := s.corks.set k { c with ended := some (s.sent, ending) } }
      match ending with
      | .fulfilled => flush throws c.queue { s with send := c.originalSend }
      | .rejected => { s with send := c.originalSend }
      | .threw => s

/-- One event; `throws` says on which messages `wsi.write` throws. -/
def step (throws : Nat → Bool) (s : CorkedSocket) : CorkEvent → CorkedSocket
  | .cork => s.startCork
  | .send => { s.sendData s.sent with sent := s.sent + 1 }
  | .finish k ending => s.finish throws k ending

end CorkedSocket

/-- The message was sent while the cork was on. -/
def Cork.Covers (c : Cork) (m : Nat) : Prop :=
  c.since ≤ m ∧ ∀ e ∈ c.ended, m < e.1

/-- The callback completed normally. -/
def Cork.Fulfilled (c : Cork) : Prop := ∃ e ∈ c.ended, e.2 = .fulfilled

namespace CorkedSocket

/-- Every cork has ended. -/
def Quiescent (s : CorkedSocket) : Prop := ∀ c ∈ s.corks, c.ended ≠ none

instance (s : CorkedSocket) : Decidable s.Quiescent :=
  inferInstanceAs (Decidable (∀ c ∈ s.corks, c.ended ≠ none))

/-- Every message sent during a cork that completed normally was written exactly once. -/
def Delivered (s : CorkedSocket) : Prop :=
  ∀ c ∈ s.corks, c.Fulfilled → ∀ m, m < s.sent → c.Covers m → s.written.count m = 1

/-- The messages that one cork queued are written in the order in which they were sent. -/
def InOrder (s : CorkedSocket) : Prop :=
  ∀ c ∈ s.corks, (s.written.filter (· ∈ c.queue)).Pairwise (· < ·)

/-- What corks are for: when all have ended, `socket.send` is what it was, and the messages went out
once and in order. -/
def CorkContract (s : CorkedSocket) : Prop :=
  s.Quiescent → s.send = .native ∧ s.Delivered ∧ s.InOrder

/-- A message sent during a cork that completed normally was sent during no cork that failed. -/
def Uniform (s : CorkedSocket) : Prop :=
  ∀ c ∈ s.corks, c.Fulfilled → ∀ m, m < s.sent → c.Covers m →
    ∀ c' ∈ s.corks, c'.Covers m → c'.Fulfilled

/-- A cork ends after those that started during it, its callback does not throw, and `wsi.write`
throws on none of its messages but the last. -/
def Orderly (throws : Nat → Bool) (s : CorkedSocket) : CorkEvent → Prop
  | .finish k ending =>
    ∀ c, s.corks[k]? = some c → c.ended = none →
      (∀ j c', k < j → s.corks[j]? = some c' → c'.ended ≠ none) ∧ ending ≠ .threw ∧
        (ending = .fulfilled → c.originalSend = .native → ∀ m ∈ c.queue.dropLast, throws m = false)
  | .cork | .send => True

end CorkedSocket

end QjsLws.WebSocket
