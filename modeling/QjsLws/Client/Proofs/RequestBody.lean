import QjsLws.Client.RequestBody
import QjsLws.Client.Proofs.HttpClient
import QjsLws.Socket.Proofs.WriteQueue

/-!
# The request body is sent once

`Underway` is the invariant of a connection: the session holds the body until the first writeable
callback, and the queue has been given it from then on. What the queue was given is what was accepted and
what is left.
-/

namespace QjsLws.Client

open QjsLws.Misc QjsLws.Socket ClientState

/-! ## What a flush sends

Also a flush that meets a failed write takes the bytes it accepts from the front of the queue. -/

section Flush

/-- The bytes accepted so far and the bytes still queued. -/
def sentBytes (s : LWSSocket) : List UInt8 := acceptedHttp s.log ++ pendingHttp s.writeQueue

/-- The bytes that one write accepts are in front of what it leaves. -/
theorem acceptedHttp_headCall (wc : WriteChunk) (rest : List WriteChunk) (n : Nat)
    (le : n ≤ ((wc.data.drop wc.pos).take (nextWrite wc).1).length) :
    acceptedHttp [headCall wc n] ++ pendingHttp ({ wc with pos := wc.pos + n } :: rest)
      = pendingHttp (wc :: rest) := by
  cases ws : isWsMessage wc.proto with
  | true => simp [acceptedHttp, headCall, nextWrite_ws wc ws, ws, pendingHttp]
  | false =>
    obtain ⟨-, -, http, -⟩ := nextWrite_http wc ws
    rw [List.length_take] at le
    have accepted : acceptedHttp [headCall wc n] = (wc.data.drop wc.pos).take n := by
      simp only [acceptedHttp, headCall, List.flatMap_cons, List.flatMap_nil, List.append_nil, http,
        Bool.false_eq_true, if_false, Int.toNat_natCast, List.take_take]
      rw [min_eq_left (by omega)]
    have kept : ¬isWsMessage wc.proto = true := by simp [ws]
    rw [accepted, pendingHttp_cons, pendingHttp_cons, if_neg kept, if_neg kept, ← List.append_assoc,
      ← List.drop_drop, List.take_append_drop]

theorem flushStep_sent (lws : Lws) (s : LWSSocket) : sentBytes (flushStep lws s).state <+: sentBytes s := by
  rcases flushStep_cases lws s with ⟨-, step⟩ | step | ⟨peer, wc, rest, n, queue, failed, step⟩ |
    ⟨peer, wc, rest, n, queue, le, step⟩ <;> rw [step]
  · exact List.prefix_rfl
  · exact List.prefix_rfl
  · have nothing : acceptedHttp [headCall wc n] = [] := by
      simp [acceptedHttp, headCall, Int.toNat_eq_zero.mpr (Int.le_of_lt failed)]
    have log : sentBytes (FlushStep.dead { s with
        udpPeer := peer, writeQueue := [], writeBuffered := 0, rounds := s.rounds + 1,
        log := s.log ++ [headCall wc n] }).state = acceptedHttp s.log := by
      simp [sentBytes, FlushStep.state, nothing, pendingHttp]
    rw [log]
    exact List.prefix_append _ _
  · have moved := acceptedHttp_headCall wc rest n le
    have before : sentBytes s = acceptedHttp (s.log ++ [headCall wc n]) ++
        pendingHttp ({ wc with pos := wc.pos + n } :: rest) := by
      rw [acceptedHttp_append, List.append_assoc, moved, sentBytes, queue]
    have uncounted : acceptedHttp [LwsCall.transactionCompleted] = [] := rfl
    rw [before]
    rcases afterWrite_cases lws { s with udpPeer := peer, log := s.log ++ [headCall wc n] } wc rest
      (nextWrite wc).1 n with ⟨t, ends, tail, gone, log⟩ | ⟨t, tail, log, -, ends⟩
    · have rest' : pendingHttp ({ wc with pos := wc.pos + n } :: rest) = pendingHttp rest := by
        rw [pendingHttp_cons]
        rcases gone with ws | drained
        · rw [if_pos ws, List.nil_append]
        · rw [List.drop_eq_nil_of_le drained, ite_self, List.nil_append]
      have same : acceptedHttp t.log = acceptedHttp (s.log ++ [headCall wc n]) := by
        rcases log with log | log
        · rw [log]
        · rw [log, acceptedHttp_append _ [LwsCall.transactionCompleted], uncounted, List.append_nil]
      rw [ends, FlushStep.state, sentBytes, tail, same, rest']
    · have state : (afterWrite lws { s with udpPeer := peer, log := s.log ++ [headCall wc n] } wc rest
          (nextWrite wc).1 n).state = t := by
        rcases ends with ⟨-, ends⟩ | ⟨-, ends⟩
        · rw [ends, FlushStep.state]
        · rw [ends, FlushStep.state]
      rw [state, sentBytes, tail, log]

theorem flushLoop_sent (lws : Lws) : ∀ (fuel : Nat) (s : LWSSocket) (result : LWSSocket × Bool),
    flushLoop lws fuel s = some result → sentBytes result.1 <+: sentBytes s := by
  intro fuel
  induction fuel with
  | zero =>
    intro s result run
    cases run
  | succ fuel ih =>
    intro s result run
    have once := flushStep_sent lws s
    rw [flushLoop] at run
    cases step : flushStep lws s with
    | again next =>
      rw [step] at run once
      exact (ih next result run).trans once
    | stop next =>
      rw [step] at run once
      cases run
      exact once
    | dead next =>
      rw [step] at run once
      cases run
      exact once

theorem socketFlush_sent (lws : Lws) (s : LWSSocket) : sentBytes (socketFlush lws s) <+: sentBytes s := by
  unfold socketFlush
  split
  · exact List.prefix_rfl
  · cases run : flushLoop lws (queueWork s.writeQueue + 1) s with
    | none => exact List.prefix_rfl
    | some result =>
      have whole := flushLoop_sent lws _ s result run
      obtain ⟨t, dead⟩ := result
      cases dead with
      | true => exact whole
      | false =>
        dsimp only
        split
        · exact whole
        · simpa [sentBytes, acceptedHttp] using whole

/-- A write adds the bytes of its chunk behind those already there. -/
theorem queueAndFlush_sent (lws : Lws) (s : LWSSocket) (wc : WriteChunk) :
    sentBytes (queueAndFlush lws s wc) <+: sentBytes s ++ pendingHttp [wc] := by
  refine (socketFlush_sent lws _).trans ?_
  rw [sentBytes, pendingHttp_append, sentBytes, List.append_assoc]

end Flush

/-! ## Handlers -/

section Handlers

variable {s : ClientState} {wsi id : Nat} {r : ClientSession} {body : List UInt8}

theorem step_found (found : s.sessions.get wsi = some id) {callback : ClientCallback}
    (other : callback ≠ .drop) :
    clientStep s (.callback wsi callback) = s.handle wsi (some id) callback := by
  have goes : skipsSession s callback = false := by simp [skipsSession, other]
  rw [clientStep, goes, if_neg Bool.false_ne_true, session, found]

/-- What `onClientHttpWriteable` does: it queues the body if it still has one. -/
theorem onWriteable_eq (record : s.records[id]? = some r) (amount : Nat) :
    (s.onWriteable wsi id amount).log
        = s.log ++ ((r.body.map (.write wsi ·)).toList ++
          if amount = 0 then [.bodyPending wsi false] else []) ∧
      (s.onWriteable wsi id amount).sessions = s.sessions ∧
      (s.onWriteable wsi id amount).records[id]? = some { r with body := none } := by
  obtain ⟨headers, body, redirected, established, completed, stream, outcomes⟩ := r
  cases body with
  | none =>
    simp only [onWriteable, record]
    split
    · exact ⟨rfl, rfl, record⟩
    · exact ⟨(List.append_nil _).symm, rfl, record⟩
  | some body =>
    have changed : ((s.output [.write wsi body]).update id ({ · with body := none })).records[id]?
        = some ⟨headers, none, redirected, established, completed, stream, outcomes⟩ := by
      simp [update, output, record]
    simp only [onWriteable, record]
    split
    · exact ⟨by simp [output, update], rfl, changed⟩
    · exact ⟨by simp [output, update], rfl, changed⟩

/-- `#pending` becomes the session of the new wsi, and its headers and the length are added. -/
theorem step_handshake (new : s.sessions.get wsi = none) (headers : List (Text × Text)) :
    let after := clientStep (s.connect headers (some body)) (.callback wsi .appendHandshakeHeader)
    after.sessions.get wsi = some s.records.length ∧
      after.records[s.records.length]?
        = some ⟨headers, some body, false, false, false, [], []⟩ ∧
      after.log = s.log ++ handshakeOutputs wsi ⟨headers, some body, false, false, false, [], []⟩ := by
  have goes : skipsSession (s.connect headers (some body)) .appendHandshakeHeader = false := rfl
  have found : (s.connect headers (some body)).session wsi = (some s.records.length,
      { s.connect headers (some body) with
        pending := none
        sessions := s.sessions.set wsi s.records.length }) := by
    have none' : (s.connect headers (some body)).sessions.get wsi = none := new
    rw [session, none']
    rfl
  have record : (s.connect headers (some body)).records[s.records.length]?
      = some ⟨headers, some body, false, false, false, [], []⟩ := by
    simp [connect]
  intro after
  have shape : after = ({ s.connect headers (some body) with
      pending := none
      sessions := s.sessions.set wsi s.records.length } : ClientState).output
        (handshakeOutputs wsi ⟨headers, some body, false, false, false, [], []⟩) := by
    simp only [after, clientStep, goes, found, handle, Option.bind_some, record]
    rfl
  rw [shape]
  exact ⟨by simp [output], record, rfl⟩

end Handlers

/-! ## The flag and the log -/

section Calls

variable {wsi : Nat} {pending : Bool} {body : Option (List UInt8)} {r : ClientSession}

theorem pendingAfter_append (a b : List ClientOutput) :
    pendingAfter wsi pending (a ++ b) = pendingAfter wsi (pendingAfter wsi pending a) b := List.foldl_append

/-- The writeable handler leaves the flag unless nothing is buffered. -/
theorem pendingAfter_writeable (amount : Nat) :
    pendingAfter wsi pending ((body.map (.write wsi ·)).toList ++
      if amount = 0 then [.bodyPending wsi false] else []) = (pending && decide (amount ≠ 0)) := by
  have queued : pendingAfter wsi pending (body.map (ClientOutput.write wsi ·)).toList = pending := by
    cases body <;> rfl
  rw [pendingAfter_append, queued]
  by_cases zero : amount = 0
  · simp [pendingAfter, zero]
  · simp [pendingAfter, zero]

theorem pendingAfter_handshake (has : r.body.isSome = true) :
    pendingAfter wsi pending (handshakeOutputs wsi r) = true := by
  obtain ⟨body, some⟩ := Option.isSome_iff_exists.mp has
  rw [handshakeOutputs, some]
  dsimp only
  rw [pendingAfter_append, pendingAfter_append]
  exact if_pos rfl

@[simp] theorem bodiesQueued_append (a b : List ClientOutput) :
    bodiesQueued wsi (a ++ b) = bodiesQueued wsi a ++ bodiesQueued wsi b := List.filterMap_append

@[simp] theorem contentLengths_append (a b : List ClientOutput) :
    contentLengths wsi (a ++ b) = contentLengths wsi a ++ contentLengths wsi b := List.filterMap_append

theorem bodiesQueued_writeable (amount : Nat) :
    bodiesQueued wsi ((body.map (.write wsi ·)).toList ++
      if amount = 0 then [.bodyPending wsi false] else []) = body.toList := by
  have cleared : bodiesQueued wsi (if amount = 0 then [.bodyPending wsi false] else []) = [] := by
    split <;> rfl
  rw [bodiesQueued_append, cleared]
  cases body <;> simp [bodiesQueued]

theorem contentLengths_writeable (amount : Nat) :
    contentLengths wsi ((body.map (.write wsi ·)).toList ++
      if amount = 0 then [.bodyPending wsi false] else []) = [] := by
  have cleared : contentLengths wsi (if amount = 0 then [.bodyPending wsi false] else []) = [] := by
    split <;> rfl
  rw [contentLengths_append, cleared]
  cases body <;> rfl

/-- The caller set no length: the one that is added is the body's. -/
theorem contentLengths_handshake {bytes : List UInt8} (held : r.body = some bytes)
    (unset : ∀ header ∈ r.headers, header.1 ≠ "content-length".toList) :
    contentLengths wsi (handshakeOutputs wsi r) = [decimal bytes.length] := by
  have added : ¬r.headers.any (fun header => decide (header.1 = "content-length".toList)) = true := by
    intro some
    obtain ⟨header, inside, same⟩ := List.any_eq_true.mp some
    exact unset header inside (of_decide_eq_true same)
  have others : contentLengths wsi (r.headers.map fun header =>
      ClientOutput.addHeader wsi header.1 header.2) = [] := by
    rw [contentLengths, List.filterMap_eq_nil_iff]
    intro call member
    obtain ⟨header, inside, rfl⟩ := List.mem_map.mp member
    exact if_neg fun same => unset header inside same.2
  have one : ∀ value, contentLengths wsi [.addHeader wsi "content-length".toList value] = [value] :=
    fun value => List.filterMap_cons_some (if_pos ⟨rfl, rfl⟩)
  have flag : contentLengths wsi [.bodyPending wsi true] = [] := rfl
  rw [handshakeOutputs, held, contentLengths_append, others, List.nil_append]
  dsimp only
  rw [if_neg added, contentLengths_append, one, flag, List.append_nil]

theorem bodiesQueued_handshake : bodiesQueued wsi (handshakeOutputs wsi r) = [] := by
  rw [bodiesQueued, List.filterMap_eq_nil_iff]
  intro call member
  rcases List.mem_append.mp member with header | later
  · obtain ⟨header, -, rfl⟩ := List.mem_map.mp header
    rfl
  · cases body : r.body with
    | none => simp [body] at later
    | some bytes =>
      simp only [body] at later
      rcases List.mem_append.mp later with length | flag
      · split at length
        · cases length
        · obtain rfl := List.mem_singleton.mp length
          rfl
      · obtain rfl := List.mem_singleton.mp flag
        rfl

end Calls

/-! ## The connection -/

section Connection

variable {lws : Lws} {s : ClientState} {wsi id : Nat} {headers : List (Text × Text)} {body : List UInt8}
  {earlier : List (List UInt8)} {lengths : List Text} {queued : Bool} {x : Exchange}

/-- The chunk of the body. -/
def bodyChunk (body : List UInt8) : WriteChunk := ⟨body, 0, .httpFinal, none⟩

/-- The invariant, before and after the body is queued. -/
structure Underway (wsi id : Nat) (body : List UInt8) (earlier : List (List UInt8)) (lengths : List Text)
    (queued : Bool) (x : Exchange) : Prop where
  found : x.client.sessions.get wsi = some id
  record : ∃ r, x.client.records[id]? = some r ∧ r.body = if queued then none else some body
  queue : QueueInv (if queued then [bodyChunk body] else []) x.socket
  armed : x.socket.writeQueue ≠ [] → x.socket.writableRequested = true
  sent : sentBytes x.socket <+: if queued then body else []
  once : bodiesQueued wsi x.client.log = earlier ++ if queued then [body] else []
  lengths : contentLengths wsi x.client.log = lengths

theorem chunk_body : (WriteOp.write false (.arrayBuffer body) [Exchange.httpFinalArg]).chunk
    = some (bodyChunk body) := by
  simp [WriteOp.chunk, writeChunkOf, Exchange.httpFinalArg, scanWriteArgs, WriteProtocol.ofInt32, bodyChunk]

theorem underway_handshake (new : s.sessions.get wsi = none) :
    Underway wsi s.records.length body (bodiesQueued wsi s.log)
        (contentLengths wsi (s.log ++ handshakeOutputs wsi ⟨headers, some body, false, false, false, [], []⟩))
        false (.handshake s wsi headers body) ∧
      (Exchange.handshake s wsi headers body).bodyPending = true := by
  obtain ⟨found, record, log⟩ := @step_handshake s wsi body new headers
  constructor
  · have same : (Exchange.handshake s wsi headers body).client.log = _ := log
    refine ⟨found, ⟨_, record, rfl⟩, queueInv_fresh, fun nonempty => absurd rfl nonempty,
      List.prefix_rfl, ?_, by rw [same]⟩
    rw [same, bodiesQueued_append, bodiesQueued_handshake]
    rfl
  · have calls : (clientStep (s.connect headers (some body)) (.callback wsi .appendHandshakeHeader)).log.drop
        (s.connect headers (some body)).log.length
          = handshakeOutputs wsi ⟨headers, some body, false, false, false, [], []⟩ := by
      rw [log]
      exact List.drop_left
    have shape : (Exchange.handshake s wsi headers body).bodyPending = pendingAfter wsi false
      ((clientStep (s.connect headers (some body)) (.callback wsi .appendHandshakeHeader)).log.drop
        (s.connect headers (some body)).log.length) := rfl
    rw [shape, calls]
    exact pendingAfter_handshake rfl

theorem unsentBody_eq {r : ClientSession} (found : s.sessions.get wsi = some id)
    (record : s.records[id]? = some r) : unsentBody s wsi = r.body := by
  rw [unsentBody, session, found]
  exact congrArg (·.bind ClientSession.body) record

theorem writeStep_body (lws : Lws) {t : LWSSocket} (live : t.wsi = true) :
    writeStep lws t (.write false (.arrayBuffer body) [Exchange.httpFinalArg])
      = queueAndFlush lws t (bodyChunk body) := by
  simp [writeStep, lwsjsSocketWrite, live, writeChunkOf, Exchange.httpFinalArg, scanWriteArgs,
    WriteProtocol.ofInt32, bodyChunk]

/-- After the writeable callback the queue has been given the body, and no more. -/
theorem Underway.flushed (lws : Lws) (inv : Underway wsi id body earlier lengths queued x) :
    QueueInv [bodyChunk body] (x.writeable lws wsi).socket ∧
      ((x.writeable lws wsi).socket.writeQueue ≠ [] →
        (x.writeable lws wsi).socket.writableRequested = true) ∧
      sentBytes (x.writeable lws wsi).socket <+: body := by
  obtain ⟨r, record, held⟩ := inv.record
  have unsent := (unsentBody_eq inv.found record).trans held
  have flush := writeStep_spec lws inv.queue inv.armed .writeable
  rw [WriteOp.chunk, Option.toList_none, List.append_nil] at flush
  have sent : sentBytes (writeStep lws x.socket .writeable) <+: if queued then body else [] :=
    (socketFlush_sent lws _).trans inv.sent
  cases queued with
  | true =>
    have socket : (x.writeable lws wsi).socket = writeStep lws x.socket .writeable := by
      simp [Exchange.writeable, Exchange.callback, unsent]
    rw [socket]
    exact ⟨flush.inv, flush.armed, sent⟩
  | false =>
    have socket : (x.writeable lws wsi).socket = writeStep lws (writeStep lws x.socket .writeable)
        (.write false (.arrayBuffer body) [Exchange.httpFinalArg]) := by
      simp [Exchange.writeable, Exchange.callback, unsent]
    have write := writeStep_spec lws flush.inv flush.armed
      (.write false (.arrayBuffer body) [Exchange.httpFinalArg])
    rw [chunk_body] at write
    rw [socket]
    refine ⟨write.inv, write.armed, ?_⟩
    have nothing : sentBytes (writeStep lws x.socket .writeable) = [] := List.prefix_nil.mp sent
    have whole : pendingHttp [bodyChunk body] = body := List.append_nil body
    have queue := queueAndFlush_sent lws (writeStep lws x.socket .writeable) (bodyChunk body)
    rw [nothing, List.nil_append, whole] at queue
    rw [writeStep_body lws flush.inv.wsi]
    exact queue

/-- The writeable callback queues the body once, and clears the flag when nothing is buffered. -/
theorem Underway.writeable (lws : Lws) (inv : Underway wsi id body earlier lengths queued x) :
    Underway wsi id body earlier lengths true (x.writeable lws wsi) ∧
      (x.writeable lws wsi).bodyPending
        = (x.bodyPending && decide ((x.writeable lws wsi).socket.writeBuffered ≠ 0)) := by
  obtain ⟨r, record, held⟩ := inv.record
  obtain ⟨queue, armed, sent⟩ := inv.flushed lws
  have client : (x.writeable lws wsi).client
      = x.client.onWriteable wsi id (x.writeable lws wsi).socket.writeBuffered :=
    @step_found x.client wsi id inv.found (.writeable (x.writeable lws wsi).socket.writeBuffered) nofun
  have pending : (x.writeable lws wsi).bodyPending = pendingAfter wsi x.bodyPending
      ((x.writeable lws wsi).client.log.drop x.client.log.length) := rfl
  obtain ⟨log, sessions, record'⟩ :=
    @onWriteable_eq x.client wsi id r record (x.writeable lws wsi).socket.writeBuffered
  refine ⟨⟨?_, ⟨_, client ▸ record', rfl⟩, queue, armed, sent, ?_, ?_⟩, ?_⟩
  · rw [client, sessions]
    exact inv.found
  · rw [client, log, bodiesQueued_append, bodiesQueued_writeable, inv.once, held]
    cases queued <;> simp
  · rw [client, log, contentLengths_append, contentLengths_writeable, List.append_nil, inv.lengths]
  · rw [pending, client, log, List.drop_left, pendingAfter_writeable]

/-- The other callbacks make no calls on the wsi. -/
theorem Underway.quiet {callback : ClientCallback} (inv : Underway wsi id body earlier lengths queued x)
    (other : callback ≠ .drop) (calls : List ClientOutput)
    (log : (x.client.handle wsi (some id) callback).log = x.client.log ++ calls)
    (sessions : (x.client.handle wsi (some id) callback).sessions = x.client.sessions)
    (held : ((x.client.handle wsi (some id) callback).records[id]?).map ClientSession.body
      = (x.client.records[id]?).map ClientSession.body)
    (silent : bodiesQueued wsi calls = [] ∧ contentLengths wsi calls = [] ∧
      ∀ pending, pendingAfter wsi pending calls = pending) :
    Underway wsi id body earlier lengths queued (x.callback wsi callback) ∧
      (x.callback wsi callback).bodyPending = x.bodyPending := by
  have client : (x.callback wsi callback).client = x.client.handle wsi (some id) callback :=
    step_found inv.found other
  have pending : (x.callback wsi callback).bodyPending = pendingAfter wsi x.bodyPending
      ((x.callback wsi callback).client.log.drop x.client.log.length) := rfl
  obtain ⟨r, record, body'⟩ := inv.record
  rw [record, Option.map_some] at held
  obtain ⟨r', record', same⟩ := Option.map_eq_some_iff.mp held
  refine ⟨⟨?_, ⟨r', ?_, same.trans body'⟩, inv.queue, inv.armed, inv.sent, ?_, ?_⟩, ?_⟩
  · rw [client, sessions]
    exact inv.found
  · rw [client]
    exact record'
  · rw [client, log, bodiesQueued_append, silent.1, List.append_nil]
    exact inv.once
  · rw [client, log, contentLengths_append, silent.2.1, List.append_nil]
    exact inv.lengths
  · rw [pending, client, log, List.drop_left, silent.2.2]

theorem Underway.read (inv : Underway wsi id body earlier lengths queued x) (data : List UInt8) :
    Underway wsi id body earlier lengths queued (x.callback wsi (.read data)) ∧
      (x.callback wsi (.read data)).bodyPending = x.bodyPending := by
  refine inv.quiet nofun [.onRead (some id) data] rfl rfl ?_ ⟨rfl, rfl, fun _ => rfl⟩
  obtain ⟨r, record, -⟩ := inv.record
  simp [handle, update, output, record]

theorem Underway.established (inv : Underway wsi id body earlier lengths queued x) (status : Int) :
    Underway wsi id body earlier lengths queued (x.callback wsi (.established status)) ∧
      (x.callback wsi (.established status)).bodyPending = x.bodyPending := by
  by_cases range : status ≠ 0 ∧ (status < 200 ∨ status > 599)
  · have thrown : x.client.handle wsi (some id) (.established status) = x.client := if_pos range
    refine inv.quiet nofun [] ?_ ?_ ?_ ⟨rfl, rfl, fun _ => rfl⟩
    · rw [thrown, List.append_nil]
    · rw [thrown]
    · rw [thrown]
  · obtain ⟨r, record, -⟩ := inv.record
    have opened : x.client.handle wsi (some id) (.established status)
        = (x.client.update id ({ · with established := true })).output
          [.onResponse id status r.redirected] := by
      simp [handle, onEstablished, range, record]
    refine inv.quiet nofun [.onResponse id status r.redirected] ?_ ?_ ?_
      ⟨rfl, rfl, fun _ => rfl⟩
    · rw [opened]
      rfl
    · rw [opened]
      rfl
    · rw [opened]
      simp [update, output, record]

end Connection

/-! ## Runs -/

section Runs

variable {lws : Lws} {s : ClientState} {wsi : Nat} {headers : List (Text × Text)} {body : List UInt8}

theorem exchangeRun_snoc (events : List ExchangeEvent) (event : ExchangeEvent) :
    exchangeRun lws s wsi headers body (events ++ [event])
      = exchangeStep lws wsi (exchangeRun lws s wsi headers body events) event := by
  rw [exchangeRun, runFrom_append]
  rfl

/-- The invariant of a run. -/
theorem underway_run (new : s.sessions.get wsi = none) (events : List ExchangeEvent) :
    Underway wsi s.records.length body (bodiesQueued wsi s.log)
      (contentLengths wsi (s.log ++ handshakeOutputs wsi ⟨headers, some body, false, false, false, [], []⟩))
      (decide (.writeable ∈ events))
      (exchangeRun lws s wsi headers body events) := by
  induction events using List.reverseRecOn with
  | nil => exact (underway_handshake new).1
  | append_singleton events event ih =>
    rw [exchangeRun_snoc]
    cases event with
    | writeable =>
      have among : decide (ExchangeEvent.writeable ∈ events ++ [.writeable]) = true := by simp
      rw [among]
      exact (ih.writeable lws).1
    | established status =>
      have same : decide (ExchangeEvent.writeable ∈ events ++ [.established status])
          = decide (.writeable ∈ events) := by simp
      rw [same]
      exact (ih.established status).1
    | read data =>
      have same : decide (ExchangeEvent.writeable ∈ events ++ [.read data])
          = decide (.writeable ∈ events) := by simp
      rw [same]
      exact (ih.read data).1

/-- Where a callback stands in a list with one more at its end. -/
theorem snoc_eq_split {events before after : List ExchangeEvent} {event first : ExchangeEvent} :
    events ++ [event] = before ++ first :: after ↔
      (∃ more, after = more ++ [event] ∧ events = before ++ first :: more) ∨
        (after = [] ∧ events = before ∧ event = first) := by
  constructor
  · intro same
    rcases List.eq_nil_or_concat after with rfl | ⟨more, last, rfl⟩
    · obtain ⟨front, back⟩ := List.append_inj' same rfl
      exact .inr ⟨rfl, front, (List.cons.inj back).1⟩
    · rw [List.concat_eq_append, ← List.cons_append, ← List.append_assoc] at same
      obtain ⟨front, back⟩ := List.append_inj' same rfl
      obtain rfl := (List.cons.inj back).1
      exact .inl ⟨more, List.concat_eq_append .., front⟩
  · rintro (⟨more, rfl, rfl⟩ | ⟨rfl, rfl, rfl⟩)
    · simp
    · rfl

/-- The flag is up as long as every writeable callback has left something buffered. -/
theorem bodyPending_run (new : s.sessions.get wsi = none) (events : List ExchangeEvent) :
    (exchangeRun lws s wsi headers body events).bodyPending = true ↔
      ∀ before after, events = before ++ .writeable :: after →
        (exchangeRun lws s wsi headers body (before ++ [.writeable])).socket.writeBuffered ≠ 0 := by
  induction events using List.reverseRecOn with
  | nil => exact iff_of_true (underway_handshake new).2 (by simp)
  | append_singleton events event ih =>
    have inv := @underway_run lws s wsi headers body new events
    -- Only a writeable callback adds a condition.
    have kept : event ≠ .writeable → ((exchangeRun lws s wsi headers body (events ++ [event])).bodyPending
        = (exchangeRun lws s wsi headers body events).bodyPending) := by
      intro other
      rw [exchangeRun_snoc]
      cases event with
      | writeable => exact absurd rfl other
      | established status => exact (inv.established status).2
      | read data => exact (inv.read data).2
    by_cases last : event = .writeable
    · subst last
      have flag : (exchangeRun lws s wsi headers body (events ++ [.writeable])).bodyPending
          = ((exchangeRun lws s wsi headers body events).bodyPending && decide
            ((exchangeRun lws s wsi headers body (events ++ [.writeable])).socket.writeBuffered ≠ 0)) := by
        rw [exchangeRun_snoc]
        exact (inv.writeable lws).2
      rw [flag, Bool.and_eq_true, ih, decide_eq_true_eq]
      constructor
      · rintro ⟨sooner, now⟩ before after same
        rcases snoc_eq_split.mp same with ⟨more, -, split⟩ | ⟨-, rfl, -⟩
        · exact sooner before more split
        · exact now
      · intro all
        exact ⟨fun before more split => all before (more ++ [.writeable]) (by simp [split]),
          all events [] rfl⟩
    · rw [kept last, ih]
      constructor
      · intro sooner before after same
        rcases snoc_eq_split.mp same with ⟨more, -, split⟩ | ⟨-, -, here⟩
        · exact sooner before more split
        · exact absurd here last
      · intro all before more split
        exact all before (more ++ [event]) (by simp [split])

/-- What holds of a connection after its handshake and the callbacks. -/
structure SentOnce (lws : Lws) (s : ClientState) (wsi : Nat) (headers : List (Text × Text))
    (body : List UInt8) (events : List ExchangeEvent) : Prop where
  /-- What was accepted begins the body. -/
  accepted : acceptedHttp (exchangeRun lws s wsi headers body events).socket.log <+: body
  /-- An empty queue after a writeable callback: the whole body was accepted, unless a write failed. -/
  complete : .writeable ∈ events → (exchangeRun lws s wsi headers body events).socket.writeQueue = [] →
    (∀ call ∈ (exchangeRun lws s wsi headers body events).socket.log, call.negative = false) →
      acceptedHttp (exchangeRun lws s wsi headers body events).socket.log = body
  /-- The length is added where the caller has set none. -/
  length : (∀ header ∈ headers, header.1 ≠ "content-length".toList) →
    contentLengths wsi (exchangeRun lws s wsi headers body events).client.log
      = contentLengths wsi s.log ++ [decimal body.length]
  /-- The body is queued by the first writeable callback, and by no other. -/
  once : bodiesQueued wsi (exchangeRun lws s wsi headers body events).client.log
    = bodiesQueued wsi s.log ++ if .writeable ∈ events then [body] else []
  /-- The flag is up until a writeable callback leaves nothing buffered. -/
  pending : (exchangeRun lws s wsi headers body events).bodyPending = true ↔
    ∀ before after, events = before ++ .writeable :: after →
      (exchangeRun lws s wsi headers body (before ++ [.writeable])).socket.writeBuffered ≠ 0
  /-- What is buffered is what is left of the body. -/
  buffered : (exchangeRun lws s wsi headers body events).socket.writeBuffered
    = bufferedBytes (exchangeRun lws s wsi headers body events).socket.writeQueue

/-- The body is sent exactly once, for every number and order of the callbacks and whatever
libwebsockets accepts in each round. -/
theorem request_body_sent_once (lws : Lws) (s : ClientState) (wsi : Nat) (headers : List (Text × Text))
    (body : List UInt8) (events : List ExchangeEvent) (new : s.sessions.get wsi = none) :
    SentOnce lws s wsi headers body events := by
  have inv := @underway_run lws s wsi headers body new events
  refine ⟨?_, ?_, ?_, ?_, bodyPending_run new events, inv.queue.buffered⟩
  · refine (List.prefix_append _ _).trans (inv.sent.trans ?_)
    split
    · exact List.prefix_rfl
    · exact List.nil_prefix
  · intro written empty clean
    have whole := inv.queue.body clean
    rw [decide_eq_true written, if_pos rfl, empty] at whole
    have one : httpBody [bodyChunk body] = body := List.append_nil body
    rw [one] at whole
    exact (List.append_nil _).symm.trans whole
  · intro unset
    rw [inv.lengths, contentLengths_append]
    exact congrArg (contentLengths wsi s.log ++ ·) (contentLengths_handshake rfl unset)
  · have once := inv.once
    by_cases written : ExchangeEvent.writeable ∈ events
    · rw [decide_eq_true written, if_pos rfl] at once
      rw [once, if_pos written]
    · rw [decide_eq_false written, if_neg Bool.false_ne_true] at once
      rw [once, if_neg written]

/-- libwebsockets takes two bytes in each round. -/
def twoBytes : Lws where
  wsiIsUdp := false
  partialBuffered := fun _ => false
  write := fun _ bytes _ => min 2 bytes.length
  transactionCompleted := fun _ => false
  write_le := by
    intro round bytes wp
    omega

/-- Three bytes in a new protocol object. -/
theorem three_bytes_sent_once : SentOnce twoBytes .fresh 1 [] [7, 8, 9] [.writeable, .read [], .writeable] :=
  request_body_sent_once twoBytes .fresh 1 [] [7, 8, 9] _ rfl

end Runs

end QjsLws.Client
