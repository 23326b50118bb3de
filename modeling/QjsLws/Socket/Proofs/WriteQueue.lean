import QjsLws.Socket.WriteQueue
import Mathlib.Data.List.Basic
import Mathlib.Tactic

/-!
# Integrity of the write queue

The log of the calls into libwebsockets is compared with the chunks the script wrote: while no
`lws_write` failed, what was accepted and what is still queued together are what was written,
in order. `QueueInv` is the invariant of one round of the flush loop, `FlushSpec` what a whole
flush adds to it.
-/

namespace QjsLws.Socket

open QjsLws.Misc

/-! ## Observations -/

/-- The HTTP body bytes libwebsockets took, in order. -/
def acceptedHttp (log : List LwsCall) : List UInt8 :=
  log.flatMap fun
    | .write _ bytes wp n => if isWsMessage wp then [] else bytes.take n.toNat
    | _ => []

/-- The messages handed to `lws_write`, one for each call. -/
def wsCalls (log : List LwsCall) : List (List UInt8 × WriteProtocol) :=
  log.flatMap fun
    | .write _ bytes wp _ => if isWsMessage wp then [(bytes, wp)] else []
    | _ => []

/-- The number of `lws_http_transaction_completed` calls. -/
def completions (log : List LwsCall) : Nat := log.count .transactionCompleted

/-- The HTTP body bytes of a list of chunks that are not accepted yet. -/
def pendingHttp (queue : List WriteChunk) : List UInt8 :=
  queue.flatMap fun wc => if isWsMessage wc.proto then [] else wc.data.drop wc.pos

/-- The whole HTTP body of a list of chunks. -/
def httpBody (chunks : List WriteChunk) : List UInt8 :=
  chunks.flatMap fun wc => if isWsMessage wc.proto then [] else wc.data

/-- The messages of a list of chunks. -/
def wsMessages (chunks : List WriteChunk) : List (List UInt8 × WriteProtocol) :=
  chunks.flatMap fun wc => if isWsMessage wc.proto then [(wc.data, wc.proto)] else []

/-- The number of FINAL chunks. -/
def finals (chunks : List WriteChunk) : Nat := chunks.countP fun wc => wc.proto = .httpFinal

/-- The sum of `len - pos`. -/
def bufferedBytes (queue : List WriteChunk) : Nat :=
  (queue.map fun wc => wc.data.length - wc.pos).sum

/-- A failed `lws_write`. -/
def LwsCall.negative : LwsCall → Bool
  | .write _ _ _ n => n < 0
  | _ => false

/-- What every single call keeps to: a message is passed whole, an HTTP write is capped, and
FINAL covers all that is left of a FINAL chunk. -/
def LwsCall.Ok : LwsCall → Prop
  | .write wc bytes wp _ =>
    (isWsMessage wp → bytes = wc.data ∧ wp = wc.proto) ∧
    (¬ isWsMessage wp → bytes.length ≤ httpWriteChunkMax) ∧
    (wp = .httpFinal → wc.proto = .httpFinal ∧ bytes = wc.data.drop wc.pos)
  | _ => True

/-- The invariant of the queue, relative to the chunks written so far. -/
structure QueueInv (written : List WriteChunk) (s : LWSSocket) : Prop where
  wsi : s.wsi = true
  pos_le : ∀ wc ∈ s.writeQueue, wc.pos ≤ wc.data.length
  unsent : ∀ wc ∈ s.writeQueue, isWsMessage wc.proto → wc.pos = 0
  buffered : s.writeBuffered = bufferedBytes s.writeQueue
  calls : ∀ call ∈ s.log, call.Ok
  body : (∀ call ∈ s.log, call.negative = false) →
    acceptedHttp s.log ++ pendingHttp s.writeQueue = httpBody written
  messages : (∀ call ∈ s.log, call.negative = false) →
    wsCalls s.log ++ wsMessages s.writeQueue = wsMessages written
  completed : (∀ call ∈ s.log, call.negative = false) →
    completions s.log + finals s.writeQueue = finals written

section Lists

@[simp] theorem acceptedHttp_append (a b : List LwsCall) :
    acceptedHttp (a ++ b) = acceptedHttp a ++ acceptedHttp b := List.flatMap_append

@[simp] theorem wsCalls_append (a b : List LwsCall) :
    wsCalls (a ++ b) = wsCalls a ++ wsCalls b := List.flatMap_append

@[simp] theorem completions_append (a b : List LwsCall) :
    completions (a ++ b) = completions a + completions b := List.count_append

@[simp] theorem pendingHttp_append (a b : List WriteChunk) :
    pendingHttp (a ++ b) = pendingHttp a ++ pendingHttp b := List.flatMap_append

@[simp] theorem httpBody_append (a b : List WriteChunk) :
    httpBody (a ++ b) = httpBody a ++ httpBody b := List.flatMap_append

@[simp] theorem wsMessages_append (a b : List WriteChunk) :
    wsMessages (a ++ b) = wsMessages a ++ wsMessages b := List.flatMap_append

@[simp] theorem finals_append (a b : List WriteChunk) :
    finals (a ++ b) = finals a + finals b := List.countP_append

@[simp] theorem bufferedBytes_append (a b : List WriteChunk) :
    bufferedBytes (a ++ b) = bufferedBytes a + bufferedBytes b := by simp [bufferedBytes]

@[simp] theorem bufferedBytes_cons (wc : WriteChunk) (rest : List WriteChunk) :
    bufferedBytes (wc :: rest) = wc.data.length - wc.pos + bufferedBytes rest := by
  simp [bufferedBytes]

@[simp] theorem queueWork_cons (wc : WriteChunk) (rest : List WriteChunk) :
    queueWork (wc :: rest) = wc.data.length - wc.pos + 1 + queueWork rest := by
  simp [queueWork]

@[simp] theorem pendingHttp_cons (wc : WriteChunk) (rest : List WriteChunk) :
    pendingHttp (wc :: rest) =
      (if isWsMessage wc.proto then [] else wc.data.drop wc.pos) ++ pendingHttp rest := rfl

@[simp] theorem wsMessages_cons (wc : WriteChunk) (rest : List WriteChunk) :
    wsMessages (wc :: rest) =
      (if isWsMessage wc.proto then [(wc.data, wc.proto)] else []) ++ wsMessages rest := rfl

@[simp] theorem finals_cons (wc : WriteChunk) (rest : List WriteChunk) :
    finals (wc :: rest) = finals rest + if wc.proto = .httpFinal then 1 else 0 := by
  simp [finals, List.countP_cons]

end Lists

/-! ## One round -/

/-- The state a round leaves behind. -/
def FlushStep.state : FlushStep → LWSSocket
  | .again s => s
  | .stop s => s
  | .dead s => s

theorem nextWrite_ws (wc : WriteChunk) (ws : isWsMessage wc.proto = true) :
    nextWrite wc = (wc.data.length - wc.pos, wc.proto) := by
  simp [nextWrite, ws]

theorem nextWrite_http (wc : WriteChunk) (http : isWsMessage wc.proto = false) :
    (nextWrite wc).1 ≤ wc.data.length - wc.pos ∧ (nextWrite wc).1 ≤ httpWriteChunkMax ∧
      isWsMessage (nextWrite wc).2 = false ∧
      ((nextWrite wc).2 = .httpFinal →
        wc.proto = .httpFinal ∧ (nextWrite wc).1 = wc.data.length - wc.pos) := by
  by_cases big : wc.data.length - wc.pos > httpWriteChunkMax
  · have capped : nextWrite wc =
        (httpWriteChunkMax, if wc.proto = .httpFinal then .http else wc.proto) := by
      simp [nextWrite, http, big]
    rw [capped]
    refine ⟨by omega, le_refl _, ?_, ?_⟩
    · dsimp only
      split
      · rfl
      · exact http
    · dsimp only
      split <;> simp_all
  · have whole : nextWrite wc = (wc.data.length - wc.pos, wc.proto) := by
      simp [nextWrite, http, big]
    rw [whole]
    exact ⟨le_refl _, by omega, http, fun final => ⟨final, rfl⟩⟩

/-- Logging the write of the head of the queue, with `n` bytes accepted. -/
theorem nextWrite_ok (wc : WriteChunk) (n : Int)
    (unsent : isWsMessage wc.proto → wc.pos = 0) :
    (LwsCall.write wc ((wc.data.drop wc.pos).take (nextWrite wc).1) (nextWrite wc).2 n).Ok := by
  cases ws : isWsMessage wc.proto with
  | true =>
    have start := unsent ws
    simp only [LwsCall.Ok, nextWrite_ws wc ws, start, List.drop_zero, ws]
    refine ⟨fun _ => by simp, by simp, ?_⟩
    intro final
    simp [isWsMessage, final] at ws
  | false =>
    obtain ⟨le_rest, le_max, http, final⟩ := nextWrite_http wc ws
    refine ⟨by simp [http], fun _ => ?_, ?_⟩
    · rw [List.length_take]
      omega
    · intro isFinal
      obtain ⟨proto, all⟩ := final isFinal
      exact ⟨proto, by rw [all, List.take_of_length_le (by simp)]⟩

theorem sizeSub_of_le {a b : Nat} (le : b ≤ a) : sizeSub a b = a - b := by simp [sizeSub, le]

/-- The shape every case of a round starts from: the head `wc` of the queue was passed to
`lws_write`, which took `n` bytes of it. -/
structure HeadWritten (written : List WriteChunk) (s : LWSSocket) (wc : WriteChunk)
    (rest : List WriteChunk) (call : LwsCall) (n : Nat) : Prop where
  inv : QueueInv written s
  queue : s.writeQueue = wc :: rest
  made : call = .write wc ((wc.data.drop wc.pos).take (nextWrite wc).1) (nextWrite wc).2 n
  le : n ≤ ((wc.data.drop wc.pos).take (nextWrite wc).1).length

section Round

variable {written : List WriteChunk} {s : LWSSocket} {wc : WriteChunk} {rest : List WriteChunk}
  {call : LwsCall} {n : Nat}

theorem nonneg_of_append {log : List LwsCall}
    (all : ∀ c ∈ log ++ [call], c.negative = false) : ∀ c ∈ log, c.negative = false :=
  fun c member => all c (List.mem_append_left _ member)

theorem HeadWritten.tail_pos (h : HeadWritten written s wc rest call n) :
    ∀ c ∈ rest, c.pos ≤ c.data.length :=
  fun c member => h.inv.pos_le c (by rw [h.queue]; exact List.mem_cons_of_mem _ member)

theorem HeadWritten.tail_unsent (h : HeadWritten written s wc rest call n) :
    ∀ c ∈ rest, isWsMessage c.proto → c.pos = 0 :=
  fun c member => h.inv.unsent c (by rw [h.queue]; exact List.mem_cons_of_mem _ member)

theorem HeadWritten.buffered (h : HeadWritten written s wc rest call n) :
    s.writeBuffered = wc.data.length - wc.pos + bufferedBytes rest := by
  rw [h.inv.buffered, h.queue, bufferedBytes_cons]

theorem HeadWritten.calls (h : HeadWritten written s wc rest call n) :
    ∀ c ∈ s.log ++ [call], c.Ok := by
  intro c member
  rcases List.mem_append.mp member with member | member
  · exact h.inv.calls c member
  · rw [List.mem_singleton.mp member, h.made]
    exact nextWrite_ok wc n (h.inv.unsent wc (by simp [h.queue]))

/-- A message leaves the queue with the one call that passes it. -/
theorem afterWrite_ws (lws : Lws) (h : HeadWritten written s wc rest call n)
    (ws : isWsMessage wc.proto = true) :
    QueueInv written (afterWrite lws { s with log := s.log ++ [call] } wc rest
      (nextWrite wc).1 n).state := by
  have start : wc.pos = 0 := h.inv.unsent wc (by simp [h.queue]) ws
  have notFinal : wc.proto ≠ .httpFinal := by
    intro final
    simp [isWsMessage, final] at ws
  have accepted : acceptedHttp [call] = [] := by
    simp [acceptedHttp, h.made, nextWrite_ws wc ws, ws]
  have sent : wsCalls [call] = [(wc.data, wc.proto)] := by
    simp [wsCalls, h.made, nextWrite_ws wc ws, ws, start]
  have uncounted : completions [call] = 0 := by simp [completions, h.made]
  have state : (afterWrite lws { s with log := s.log ++ [call] } wc rest
      (nextWrite wc).1 n).state =
      { s with
        writeQueue := rest
        writeBuffered := bufferedBytes rest
        rounds := s.rounds + 1
        log := s.log ++ [call] } := by
    have counted := h.buffered
    simp only [afterWrite, ws, nextWrite_ws wc ws, if_true, ge_iff_le, le_refl, if_neg notFinal,
      FlushStep.state]
    rw [sizeSub_of_le (by omega), counted, start]
    simp
  rw [state]
  refine ⟨h.inv.wsi, h.tail_pos, h.tail_unsent, rfl, h.calls, ?_, ?_, ?_⟩
  · intro all
    have body := h.inv.body (nonneg_of_append all)
    rw [h.queue, pendingHttp_cons, if_pos ws, List.nil_append] at body
    rw [acceptedHttp_append, accepted, List.append_nil]
    exact body
  · intro all
    have messages := h.inv.messages (nonneg_of_append all)
    rw [h.queue, wsMessages_cons, if_pos ws] at messages
    rw [wsCalls_append, sent, List.append_assoc]
    exact messages
  · intro all
    have completed := h.inv.completed (nonneg_of_append all)
    rw [h.queue, finals_cons, if_neg notFinal] at completed
    rw [completions_append, uncounted]
    exact completed

/-- What an HTTP write conserves: the accepted bytes move from the queue to the log. -/
theorem HeadWritten.http_conserved (h : HeadWritten written s wc rest call n)
    (http : isWsMessage wc.proto = false)
    (all : ∀ c ∈ s.log ++ [call], c.negative = false) :
    acceptedHttp (s.log ++ [call]) ++ (wc.data.drop (wc.pos + n) ++ pendingHttp rest) =
        httpBody written ∧
      wsCalls (s.log ++ [call]) ++ wsMessages rest = wsMessages written ∧
      completions (s.log ++ [call]) + (finals rest + if wc.proto = .httpFinal then 1 else 0) =
        finals written := by
  obtain ⟨-, -, httpWp, -⟩ := nextWrite_http wc http
  have le := h.le
  rw [List.length_take] at le
  refine ⟨?_, ?_, ?_⟩
  · have accepted : acceptedHttp [call] = (wc.data.drop wc.pos).take n := by
      simp only [acceptedHttp, h.made, List.flatMap_cons, List.flatMap_nil, List.append_nil,
        httpWp, Bool.false_eq_true, if_false, Int.toNat_natCast, List.take_take]
      rw [min_eq_left (by omega)]
    have body := h.inv.body (nonneg_of_append all)
    rw [h.queue, pendingHttp_cons, if_neg (by simp [http])] at body
    rw [acceptedHttp_append, accepted, ← body, List.append_assoc, ← List.append_assoc _ _
      (pendingHttp rest), ← List.drop_drop, List.take_append_drop]
  · have messages := h.inv.messages (nonneg_of_append all)
    rw [h.queue, wsMessages_cons, if_neg (by simp [http]), List.nil_append] at messages
    have sent : wsCalls [call] = [] := by simp [wsCalls, h.made, httpWp]
    rw [wsCalls_append, sent, List.append_nil]
    exact messages
  · have completed := h.inv.completed (nonneg_of_append all)
    rw [h.queue, finals_cons] at completed
    have uncounted : completions [call] = 0 := by simp [completions, h.made]
    rw [completions_append, uncounted]
    exact completed

theorem HeadWritten.http_buffered (h : HeadWritten written s wc rest call n) :
    sizeSub s.writeBuffered n = wc.data.length - (wc.pos + n) + bufferedBytes rest := by
  have le := h.le
  have counted := h.buffered
  rw [List.length_take, List.length_drop] at le
  rw [sizeSub_of_le (by omega)]
  omega

/-- A drained HTTP chunk leaves the queue; a FINAL one completes the transaction. -/
theorem afterWrite_drained (lws : Lws) (h : HeadWritten written s wc rest call n)
    (http : isWsMessage wc.proto = false) (drained : wc.data.length ≤ wc.pos + n) :
    QueueInv written (afterWrite lws { s with log := s.log ++ [call] } wc rest
      (nextWrite wc).1 n).state := by
  have gone : wc.data.drop (wc.pos + n) = [] := List.drop_eq_nil_of_le drained
  have emptied : sizeSub s.writeBuffered n = bufferedBytes rest := by
    rw [h.http_buffered]
    omega
  by_cases final : wc.proto = .httpFinal
  · simp only [afterWrite, http, Bool.false_eq_true, if_false, ge_iff_le, drained, if_true,
      if_pos final, FlushStep.state]
    refine ⟨h.inv.wsi, h.tail_pos, h.tail_unsent, emptied, ?_, ?_, ?_, ?_⟩
    · intro c member
      rcases List.mem_append.mp member with member | member
      · exact h.calls c member
      · rw [List.mem_singleton.mp member]
        trivial
    · intro all
      have body := (h.http_conserved http (nonneg_of_append all)).1
      rw [gone, List.nil_append] at body
      simpa [acceptedHttp] using body
    · intro all
      simpa [wsCalls] using (h.http_conserved http (nonneg_of_append all)).2.1
    · intro all
      have counted := (h.http_conserved http (nonneg_of_append all)).2.2
      rw [if_pos final] at counted
      change completions (s.log ++ [call] ++ [.transactionCompleted]) + finals rest = _
      rw [completions_append, show completions [LwsCall.transactionCompleted] = 1 from rfl]
      omega
  · simp only [afterWrite, http, Bool.false_eq_true, if_false, ge_iff_le, drained, if_true,
      if_neg final, FlushStep.state]
    refine ⟨h.inv.wsi, h.tail_pos, h.tail_unsent, emptied, h.calls, ?_, ?_, ?_⟩
    · intro all
      have body := (h.http_conserved http all).1
      rwa [gone, List.nil_append] at body
    · intro all
      exact (h.http_conserved http all).2.1
    · intro all
      have counted := (h.http_conserved http all).2.2
      rwa [if_neg final] at counted

/-- A partly accepted HTTP chunk stays at the head, further on. -/
theorem afterWrite_partial (lws : Lws) (h : HeadWritten written s wc rest call n)
    (http : isWsMessage wc.proto = false) (left : ¬ wc.data.length ≤ wc.pos + n) :
    QueueInv written (afterWrite lws { s with log := s.log ++ [call] } wc rest
      (nextWrite wc).1 n).state := by
  have state : (afterWrite lws { s with log := s.log ++ [call] } wc rest
      (nextWrite wc).1 n).state =
      { s with
        writeQueue := { wc with pos := wc.pos + n } :: rest
        writeBuffered := sizeSub s.writeBuffered n
        rounds := s.rounds + 1
        log := s.log ++ [call] } := by
    simp only [afterWrite, http, Bool.false_eq_true, if_false, ge_iff_le, if_neg left]
    split <;> rfl
  rw [state]
  refine ⟨h.inv.wsi, ?_, ?_, ?_, h.calls, ?_, ?_, ?_⟩
  · intro c member
    rcases List.mem_cons.mp member with rfl | member
    · exact Nat.le_of_not_le left
    · exact h.tail_pos c member
  · intro c member
    rcases List.mem_cons.mp member with rfl | member
    · intro ws
      simp [http] at ws
    · exact h.tail_unsent c member
  · rw [h.http_buffered, bufferedBytes_cons]
  · intro all
    rw [pendingHttp_cons, if_neg (by simp [http])]
    exact (h.http_conserved http all).1
  · intro all
    rw [wsMessages_cons, if_neg (by simp [http])]
    exact (h.http_conserved http all).2.1
  · intro all
    rw [finals_cons]
    exact (h.http_conserved http all).2.2

theorem afterWrite_inv (lws : Lws) (h : HeadWritten written s wc rest call n) :
    QueueInv written (afterWrite lws { s with log := s.log ++ [call] } wc rest
      (nextWrite wc).1 n).state := by
  cases ws : isWsMessage wc.proto with
  | true => exact afterWrite_ws lws h ws
  | false =>
    by_cases drained : wc.data.length ≤ wc.pos + n
    · exact afterWrite_drained lws h ws drained
    · exact afterWrite_partial lws h ws drained

end Round

/-- The call a round makes for the head `wc` of the queue. -/
def headCall (wc : WriteChunk) (n : Int) : LwsCall :=
  .write wc ((wc.data.drop wc.pos).take (nextWrite wc).1) (nextWrite wc).2 n

/-- Everything a round can do: nothing to send, libwebsockets still busy, a failed write, or
`n` bytes of the head accepted. -/
theorem flushStep_cases (lws : Lws) (s : LWSSocket) :
    (s.writeQueue = [] ∧ flushStep lws s = .stop s) ∨
    flushStep lws s = .stop { s with rounds := s.rounds + 1 } ∨
    (∃ peer wc rest n, s.writeQueue = wc :: rest ∧ n < 0 ∧
      flushStep lws s = .dead { s with
        udpPeer := peer, writeQueue := [], writeBuffered := 0, rounds := s.rounds + 1,
        log := s.log ++ [headCall wc n] }) ∨
    ∃ peer wc rest, ∃ n : Nat, s.writeQueue = wc :: rest ∧
      n ≤ ((wc.data.drop wc.pos).take (nextWrite wc).1).length ∧
      flushStep lws s = afterWrite lws { s with
        udpPeer := peer, log := s.log ++ [headCall wc n] } wc rest (nextWrite wc).1 n := by
  cases queue : s.writeQueue with
  | nil => exact .inl ⟨rfl, by simp [flushStep, queue]⟩
  | cons wc rest =>
    cases busy : lws.partialBuffered s.rounds with
    | true => exact .inr (.inl (by simp [flushStep, queue, busy]))
    | false =>
      have le := lws.write_le s.rounds ((wc.data.drop wc.pos).take (nextWrite wc).1)
        (nextWrite wc).2
      generalize result : lws.write s.rounds ((wc.data.drop wc.pos).take (nextWrite wc).1)
        (nextWrite wc).2 = n at le
      by_cases failed : n < 0
      · refine .inr (.inr (.inl ⟨(selectPeer lws s wc).udpPeer, wc, rest, n, rfl, failed, ?_⟩))
        simp only [flushStep, queue, busy, Bool.false_eq_true, if_false, selectPeer, result,
          if_pos failed, socketWriteQueueClear, headCall]
      · refine .inr (.inr (.inr ⟨(selectPeer lws s wc).udpPeer, wc, rest, n.toNat, rfl, by omega, ?_⟩))
        simp only [flushStep, queue, busy, Bool.false_eq_true, if_false, selectPeer, result,
          if_neg failed, headCall]
        rw [Int.toNat_of_nonneg (by omega)]

/-- A queued chunk is touched only through the fields the invariant reads. -/
theorem QueueInv.peer {written : List WriteChunk} {s : LWSSocket} (inv : QueueInv written s)
    (peer : Option SockAddr46) : QueueInv written { s with udpPeer := peer } :=
  ⟨inv.wsi, inv.pos_le, inv.unsent, inv.buffered, inv.calls, inv.body, inv.messages,
    inv.completed⟩

theorem flushStep_inv (lws : Lws) {written : List WriteChunk} {s : LWSSocket}
    (inv : QueueInv written s) : QueueInv written (flushStep lws s).state := by
  rcases flushStep_cases lws s with ⟨-, step⟩ | step | ⟨peer, wc, rest, n, queue, failed, step⟩ |
    ⟨peer, wc, rest, n, queue, le, step⟩ <;> rw [step]
  · exact inv
  · exact ⟨inv.wsi, inv.pos_le, inv.unsent, inv.buffered, inv.calls, inv.body, inv.messages,
      inv.completed⟩
  · have ok : (headCall wc n).Ok := nextWrite_ok wc n (inv.unsent wc (by simp [queue]))
    have broken : ¬ ∀ c ∈ s.log ++ [headCall wc n], c.negative = false := by
      intro all
      have := all (headCall wc n) (by simp)
      simp [headCall, LwsCall.negative] at this
      omega
    refine ⟨inv.wsi, by simp [FlushStep.state], by simp [FlushStep.state], rfl, ?_,
      fun all => absurd all broken, fun all => absurd all broken, fun all => absurd all broken⟩
    intro c member
    rcases List.mem_append.mp member with member | member
    · exact inv.calls c member
    · rw [List.mem_singleton.mp member]
      exact ok
  · exact afterWrite_inv lws (s := { s with udpPeer := peer })
      ⟨inv.peer peer, queue, rfl, le⟩

/-- The two ways `afterWrite` ends: the head is done and the loop goes on, or the head is an
HTTP chunk with bytes left and the loop goes on only if some were accepted. -/
theorem afterWrite_cases (lws : Lws) (s : LWSSocket) (wc : WriteChunk) (rest : List WriteChunk)
    (remaining n : Nat) :
    (∃ s', afterWrite lws s wc rest remaining n = .again s' ∧ s'.writeQueue = rest ∧
      (isWsMessage wc.proto = true ∨ wc.data.length ≤ wc.pos + n) ∧
      (s'.log = s.log ∨ s'.log = s.log ++ [.transactionCompleted])) ∨
    ∃ s', s'.writeQueue = { wc with pos := wc.pos + n } :: rest ∧ s'.log = s.log ∧
      wc.pos + n < wc.data.length ∧
      ((n = 0 ∧ afterWrite lws s wc rest remaining n = .stop s') ∨
        (n ≠ 0 ∧ afterWrite lws s wc rest remaining n = .again s')) := by
  cases ws : isWsMessage wc.proto with
  | true =>
    by_cases final : wc.proto = .httpFinal
    · simp [isWsMessage, final] at ws
    · left
      simp only [afterWrite, ws, if_true, ge_iff_le, le_refl, if_neg final]
      exact ⟨_, rfl, rfl, .inl trivial, .inl rfl⟩
  | false =>
    by_cases drained : wc.data.length ≤ wc.pos + n
    · by_cases final : wc.proto = .httpFinal
      · left
        simp only [afterWrite, ws, Bool.false_eq_true, if_false, ge_iff_le, drained, if_true,
          if_pos final]
        exact ⟨_, rfl, rfl, .inr trivial, .inr rfl⟩
      · left
        simp only [afterWrite, ws, Bool.false_eq_true, if_false, ge_iff_le, drained, if_true,
          if_neg final]
        exact ⟨_, rfl, rfl, .inr trivial, .inl rfl⟩
    · refine .inr ⟨{ s with
        writeQueue := { wc with pos := wc.pos + n } :: rest
        writeBuffered := sizeSub s.writeBuffered n
        rounds := s.rounds + 1 }, rfl, rfl, by omega, ?_⟩
      by_cases stuck : n = 0
      · exact .inl ⟨stuck, by simp only [afterWrite, ws, Bool.false_eq_true, if_false, ge_iff_le,
          if_neg drained, if_pos stuck]⟩
      · exact .inr ⟨stuck, by simp only [afterWrite, ws, Bool.false_eq_true, if_false, ge_iff_le,
          if_neg drained, if_neg stuck]⟩

/-- A round that goes on has made the queue shorter, or its head. -/
theorem flushStep_again_work (lws : Lws) {s s' : LWSSocket} (step : flushStep lws s = .again s') :
    queueWork s'.writeQueue < queueWork s.writeQueue := by
  rcases flushStep_cases lws s with ⟨-, case⟩ | case | ⟨peer, wc, rest, n, queue, failed, case⟩ |
    ⟨peer, wc, rest, n, queue, le, case⟩ <;> rw [case] at step
  · cases step
  · cases step
  · cases step
  · rw [queue, queueWork_cons]
    rcases afterWrite_cases lws { s with udpPeer := peer, log := s.log ++ [headCall wc n] } wc rest
      (nextWrite wc).1 n with ⟨t, ends, tail, -⟩ | ⟨t, tail, -, left, ⟨-, ends⟩ | ⟨progress, ends⟩⟩ <;>
      rw [ends] at step <;> cases step
    · rw [tail]
      omega
    · rw [tail, queueWork_cons]
      dsimp only
      omega

/-- The entries a round adds to the log: none failed unless the round ends the flush with an
empty queue. -/
theorem flushStep_log (lws : Lws) (s : LWSSocket) :
    ∃ added, (flushStep lws s).state.log = s.log ++ added ∧
      ((∀ c ∈ added, c.negative = false) ∨
        ∃ s', flushStep lws s = .dead s' ∧ s'.writeQueue = [] ∧ s'.writeBuffered = 0) := by
  rcases flushStep_cases lws s with ⟨-, step⟩ | step | ⟨peer, wc, rest, n, -, failed, step⟩ |
    ⟨peer, wc, rest, n, -, -, step⟩ <;> rw [step]
  · exact ⟨[], by simp [FlushStep.state], .inl (by simp)⟩
  · exact ⟨[], by simp [FlushStep.state], .inl (by simp)⟩
  · exact ⟨[headCall wc n], rfl, .inr ⟨_, rfl, rfl, rfl⟩⟩
  · have nonneg : (headCall wc (n : Int)).negative = false := by
      simp [headCall, LwsCall.negative]
    rcases afterWrite_cases lws { s with udpPeer := peer, log := s.log ++ [headCall wc n] } wc rest
      (nextWrite wc).1 n with ⟨t, ends, -, -, log | log⟩ | ⟨t, -, log, -, ⟨-, ends⟩ | ⟨-, ends⟩⟩ <;>
      rw [ends]
    · exact ⟨[headCall wc n], log, .inl (by simpa using nonneg)⟩
    · refine ⟨[headCall wc n, .transactionCompleted], by rw [FlushStep.state, log]; simp,
        .inl ?_⟩
      intro c member
      rcases List.mem_cons.mp member with rfl | member
      · exact nonneg
      · rw [List.mem_singleton.mp member]
        rfl
    · exact ⟨[headCall wc n], log, .inl (by simpa using nonneg)⟩
    · exact ⟨[headCall wc n], log, .inl (by simpa using nonneg)⟩

/-- A failed write drops the queue. -/
theorem flushStep_dead (lws : Lws) {s s' : LWSSocket} (step : flushStep lws s = .dead s') :
    s'.writeQueue = [] ∧ s'.writeBuffered = 0 := by
  rcases flushStep_cases lws s with ⟨-, case⟩ | case | ⟨_, _, _, _, -, -, case⟩ |
    ⟨peer, wc, rest, n, -, -, case⟩ <;> rw [case] at step
  · cases step
  · cases step
  · cases step
    exact ⟨rfl, rfl⟩
  · rcases afterWrite_cases lws { s with udpPeer := peer, log := s.log ++ [headCall wc n] } wc
      rest (nextWrite wc).1 n with ⟨t, ends, -⟩ | ⟨t, -, -, -, ⟨-, ends⟩ | ⟨-, ends⟩⟩ <;>
      rw [ends] at step <;> cases step

/-! ## The whole flush -/

/-- The loop ends: the work left on the queue bounds the rounds it takes. -/
theorem flushLoop_terminates (lws : Lws) :
    ∀ (fuel : Nat) (s : LWSSocket), queueWork s.writeQueue < fuel →
      ∃ result, flushLoop lws fuel s = some result := by
  intro fuel
  induction fuel with
  | zero => intro s lt; omega
  | succ fuel ih =>
    intro s lt
    cases step : flushStep lws s with
    | again s' =>
      have less := flushStep_again_work lws step
      simpa [flushLoop, step] using ih s' (by omega)
    | stop s' => exact ⟨_, by simp [flushLoop, step]; rfl⟩
    | dead s' => exact ⟨_, by simp [flushLoop, step]; rfl⟩

/-- What the loop does to the queue and the log. -/
theorem flushLoop_spec (lws : Lws) {written : List WriteChunk} :
    ∀ (fuel : Nat) (s s' : LWSSocket) (dead : Bool), flushLoop lws fuel s = some (s', dead) →
      QueueInv written s →
      QueueInv written s' ∧ ∃ added, s'.log = s.log ++ added ∧
        ((dead = false ∧ ∀ c ∈ added, c.negative = false) ∨
          (dead = true ∧ s'.writeQueue = [] ∧ s'.writeBuffered = 0)) := by
  intro fuel
  induction fuel with
  | zero => intro s s' dead run; simp [flushLoop] at run
  | succ fuel ih =>
    intro s s' dead run inv
    have stepInv := flushStep_inv lws inv
    obtain ⟨added, entries, outcome⟩ := flushStep_log lws s
    cases step : flushStep lws s with
    | again next =>
      rw [step] at stepInv entries outcome
      obtain ⟨inv', more, log', rest⟩ := ih next s' dead (by simpa [flushLoop, step] using run) stepInv
      refine ⟨inv', added ++ more, ?_, ?_⟩
      · rw [log', show next.log = s.log ++ added from entries, List.append_assoc]
      · have clean : ∀ c ∈ added, c.negative = false := by
          rcases outcome with clean | ⟨_, impossible, _⟩
          · exact clean
          · cases impossible
        rcases rest with ⟨alive, clean'⟩ | gone
        · refine .inl ⟨alive, fun c member => ?_⟩
          rcases List.mem_append.mp member with member | member
          · exact clean c member
          · exact clean' c member
        · exact .inr gone
    | stop next =>
      rw [step] at stepInv entries outcome
      simp only [flushLoop, step, Option.some.injEq, Prod.mk.injEq] at run
      obtain ⟨rfl, rfl⟩ := run
      refine ⟨stepInv, added, entries, .inl ⟨rfl, ?_⟩⟩
      rcases outcome with clean | ⟨_, impossible, _⟩
      · exact clean
      · cases impossible
    | dead next =>
      have emptied := flushStep_dead lws step
      rw [step] at stepInv entries
      simp only [flushLoop, step, Option.some.injEq, Prod.mk.injEq] at run
      obtain ⟨rfl, rfl⟩ := run
      exact ⟨stepInv, added, entries, .inr ⟨rfl, emptied⟩⟩

/-! ## Progress -/

/-- Asking for a writeable callback does not touch the queue. -/
theorem QueueInv.request {written : List WriteChunk} {s : LWSSocket} (inv : QueueInv written s) :
    QueueInv written
      { s with writableRequested := true, log := s.log ++ [.callbackOnWritable] } := by
  refine ⟨inv.wsi, inv.pos_le, inv.unsent, inv.buffered, ?_, ?_, ?_, ?_⟩
  · intro c member
    rcases List.mem_append.mp member with member | member
    · exact inv.calls c member
    · rw [List.mem_singleton.mp member]
      trivial
  · intro all
    simpa [acceptedHttp] using inv.body (nonneg_of_append all)
  · intro all
    simpa [wsCalls] using inv.messages (nonneg_of_append all)
  · intro all
    simpa [completions] using inv.completed (nonneg_of_append all)

/-- What one flush guarantees, whatever libwebsockets answers. -/
structure FlushSpec (written : List WriteChunk) (s s' : LWSSocket) : Prop where
  inv : QueueInv written s'
  armed : s'.writeQueue ≠ [] → s'.writableRequested = true
  log : ∃ added, s'.log = s.log ++ added ∧
    ((∃ c ∈ added, c.negative = true) → s'.writeQueue = [] ∧ s'.writeBuffered = 0)

theorem socketFlush_spec (lws : Lws) {written : List WriteChunk} {s : LWSSocket}
    (inv : QueueInv written s) : FlushSpec written s (socketFlush lws s) := by
  obtain ⟨⟨s', dead⟩, run⟩ := flushLoop_terminates lws (queueWork s.writeQueue + 1) s (by omega)
  obtain ⟨inv', added, log, outcome⟩ := flushLoop_spec lws _ s s' dead run inv
  rcases outcome with ⟨rfl, clean⟩ | ⟨rfl, queue, buffered⟩
  · have noFailure : ∀ more : List LwsCall, (∀ c ∈ more, c.negative = false) →
        ¬ ∃ c ∈ added ++ more, c.negative = true := by
      rintro more cleanMore ⟨c, member, failed⟩
      rcases List.mem_append.mp member with member | member
      · simp [clean c member] at failed
      · simp [cleanMore c member] at failed
    by_cases empty : s'.writeQueue = []
    · have flushed : socketFlush lws s = s' := by simp [socketFlush, inv.wsi, run, empty]
      rw [flushed]
      refine ⟨inv', fun queued => absurd empty queued, added, log, fun failure => ?_⟩
      exact absurd failure (by simpa using noFailure [] (by simp))
    · have flushed : socketFlush lws s =
          { s' with writableRequested := true, log := s'.log ++ [.callbackOnWritable] } := by
        simp [socketFlush, inv.wsi, run, empty]
      rw [flushed]
      exact ⟨inv'.request, fun _ => rfl, added ++ [.callbackOnWritable], by simp [log],
        fun failure => absurd failure (noFailure _ (by simp [LwsCall.negative]))⟩
  · have flushed : socketFlush lws s = s' := by simp [socketFlush, inv.wsi, run]
    rw [flushed]
    exact ⟨inv', fun queued => absurd queue queued, added, log, fun _ => ⟨queue, buffered⟩⟩

/-! ## Runs -/

/-- The chunk an operation hands to the queue, if it hands one. -/
def WriteOp.chunk : WriteOp → Option WriteChunk
  | .write roleWs (.string buf) args => some (writeChunkOf roleWs true buf args)
  | .write roleWs (.arrayBuffer buf) args => some (writeChunkOf roleWs false buf args)
  | .write _ .other _ => none
  | .writeable => none

theorem queueInv_fresh : QueueInv [] .fresh :=
  ⟨rfl, by simp [LWSSocket.fresh], by simp [LWSSocket.fresh], rfl, by simp [LWSSocket.fresh],
    fun _ => rfl, fun _ => rfl, fun _ => rfl⟩

/-- Queueing one more chunk. -/
theorem QueueInv.queue {written : List WriteChunk} {s : LWSSocket} (inv : QueueInv written s)
    (wc : WriteChunk) (start : wc.pos = 0) :
    QueueInv (written ++ [wc]) { s with
      writeQueue := s.writeQueue ++ [wc]
      writeBuffered := s.writeBuffered + wc.data.length } := by
  refine ⟨inv.wsi, ?_, ?_, ?_, inv.calls, ?_, ?_, ?_⟩
  · intro c member
    rcases List.mem_append.mp member with member | member
    · exact inv.pos_le c member
    · rw [List.mem_singleton.mp member, start]
      exact Nat.zero_le _
  · intro c member
    rcases List.mem_append.mp member with member | member
    · exact inv.unsent c member
    · rw [List.mem_singleton.mp member]
      exact fun _ => start
  · rw [bufferedBytes_append, bufferedBytes_cons, inv.buffered, start]
    simp [bufferedBytes]
  · intro all
    rw [pendingHttp_append, httpBody_append, ← List.append_assoc, inv.body all]
    simp [pendingHttp, httpBody, start]
  · intro all
    rw [wsMessages_append, wsMessages_append, ← List.append_assoc, inv.messages all]
  · intro all
    rw [finals_append, finals_append, ← Nat.add_assoc, inv.completed all]

/-- One operation: its chunk, if any, is queued and the queue is flushed; a rejected argument
changes nothing. -/
theorem writeStep_spec (lws : Lws) {written : List WriteChunk} {s : LWSSocket}
    (inv : QueueInv written s) (armed : s.writeQueue ≠ [] → s.writableRequested = true)
    (op : WriteOp) : FlushSpec (written ++ op.chunk.toList) s (writeStep lws s op) := by
  have queued : ∀ wc : WriteChunk, wc.pos = 0 →
      FlushSpec (written ++ [wc]) s (queueAndFlush lws s wc) := by
    intro wc start
    have flushed := socketFlush_spec lws (inv.queue wc start)
    exact ⟨flushed.inv, flushed.armed, flushed.log⟩
  cases op with
  | writeable =>
    have flushed := socketFlush_spec lws (s := { s with writableRequested := false })
      ⟨inv.wsi, inv.pos_le, inv.unsent, inv.buffered, inv.calls, inv.body, inv.messages,
        inv.completed⟩
    simp only [writeStep, WriteOp.chunk, Option.toList_none, List.append_nil]
    exact ⟨flushed.inv, flushed.armed, flushed.log⟩
  | write roleWs data args =>
    cases data with
    | string buf => simpa [writeStep, lwsjsSocketWrite, inv.wsi, WriteOp.chunk] using queued _ rfl
    | arrayBuffer buf =>
      simpa [writeStep, lwsjsSocketWrite, inv.wsi, WriteOp.chunk] using queued _ rfl
    | other =>
      simp only [writeStep, lwsjsSocketWrite, inv.wsi, WriteOp.chunk, Option.toList_none,
        List.append_nil]
      exact ⟨inv, armed, [], by simp, by simp⟩

end QjsLws.Socket
