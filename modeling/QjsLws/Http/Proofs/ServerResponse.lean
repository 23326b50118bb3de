import QjsLws.Http.ServerResponse

/-!
# Terminal discipline of a response

The flags `headersSent` and `ended` summarize what the log holds (`ResponseInv`). Every method
keeps that summary true, except that `write` does not look at `ended`.
-/

namespace QjsLws.Http

open QjsLws.Misc
open QjsLws.Socket (WriteProtocol)

/-- A call of `wsi.respond`. -/
def ResponseEvent.isRespond : ResponseEvent → Bool
  | .respond .. => true
  | _ => false

/-- A write that carries `LWS_WRITE_HTTP_FINAL`. -/
def ResponseEvent.isFinal : ResponseEvent → Bool
  | .write _ proto => proto = .httpFinal
  | _ => false

/-- The bytes an event passes to `wsi.write`. -/
def ResponseEvent.bytes : ResponseEvent → List UInt8
  | .write bytes _ => bytes
  | _ => []

/-- One `respond`, then body bytes, then one FINAL write; the headers are frozen from the
`respond` on, and nothing follows the FINAL write. -/
structure TerminalDiscipline (log : List ResponseEvent) : Prop where
  respondOnce : log.Pairwise fun a b => ¬(a.isRespond ∧ b.isRespond)
  finalOnce : log.Pairwise fun a b => ¬(a.isFinal ∧ b.isFinal)
  respondFirst : ∀ before event, before ++ [event] <+: log → event.bytes ≠ [] →
    ∃ e ∈ before, e.isRespond
  finalLast : log.Pairwise fun a b => a.isFinal → b.bytes = []
  headersFrozen : log.Pairwise fun a b => a.isRespond → b ≠ .headersChanged

theorem terminalDiscipline_nil : TerminalDiscipline [] where
  respondOnce := .nil
  finalOnce := .nil
  respondFirst before event extends_ := by simp at extends_
  finalLast := .nil
  headersFrozen := .nil

/-- What the last event of a log has to respect. -/
theorem terminalDiscipline_snoc {log : List ResponseEvent} {event : ResponseEvent} :
    TerminalDiscipline (log ++ [event]) ↔
      TerminalDiscipline log ∧
        (∀ e ∈ log, ¬(e.isRespond ∧ event.isRespond)) ∧
        (∀ e ∈ log, ¬(e.isFinal ∧ event.isFinal)) ∧
        (event.bytes ≠ [] → ∃ e ∈ log, e.isRespond) ∧
        (∀ e ∈ log, e.isFinal → event.bytes = []) ∧
        (∀ e ∈ log, e.isRespond → event ≠ .headersChanged) := by
  constructor
  · rintro ⟨once, final, first, last, frozen⟩
    rw [List.pairwise_append] at once final last frozen
    refine ⟨⟨once.1, final.1, fun before e le => first before e (le.trans (List.prefix_append ..)),
      last.1, frozen.1⟩, fun e member => once.2.2 e member event (by simp),
      fun e member => final.2.2 e member event (by simp), first log event List.prefix_rfl,
      fun e member => last.2.2 e member event (by simp),
      fun e member => frozen.2.2 e member event (by simp)⟩
  · rintro ⟨⟨once, final, first, last, frozen⟩, once', final', first', last', frozen'⟩
    refine ⟨?_, ?_, ?_, ?_, ?_⟩
    · exact List.pairwise_append.mpr ⟨once, List.pairwise_singleton .., by simpa using once'⟩
    · exact List.pairwise_append.mpr ⟨final, List.pairwise_singleton .., by simpa using final'⟩
    · intro before e le bytes
      rcases List.prefix_concat_iff.mp le with whole | part
      · obtain ⟨rfl, same⟩ := List.append_inj' whole rfl
        obtain rfl : e = event := by simpa using same
        exact first' bytes
      · exact first before e part bytes
    · exact List.pairwise_append.mpr ⟨last, List.pairwise_singleton .., by simpa using last'⟩
    · exact List.pairwise_append.mpr ⟨frozen, List.pairwise_singleton .., by simpa using frozen'⟩

theorem terminalDiscipline_of_isPrefix {log log' : List ResponseEvent} (le : log <+: log')
    (disciplined : TerminalDiscipline log') : TerminalDiscipline log := by
  obtain ⟨more, rfl⟩ := le
  induction more using List.reverseRecOn with
  | nil => simpa using disciplined
  | append_singleton more event ih =>
    rw [← List.append_assoc] at disciplined
    exact ih (terminalDiscipline_snoc.mp disciplined).1

/-- What the flags say about the log. -/
structure ResponseInv (s : ServerResponse) : Prop where
  disciplined : TerminalDiscipline s.log
  unsent : s.headersSent = false → ∀ e ∈ s.log, e = .headersChanged
  sent : s.headersSent = true → ∃ e ∈ s.log, e.isRespond
  unended : s.ended = false → ∀ e ∈ s.log, e.isFinal = false
  final : s.ended = true → ∃ e ∈ s.log, e.isFinal
  endedSent : s.ended = true → s.headersSent = true

/-- The response has its headers out and takes body bytes. -/
structure Streaming (s : ServerResponse) : Prop extends ResponseInv s where
  isSent : s.headersSent = true
  isOpen : s.ended = false

theorem responseInv_fresh : ResponseInv .fresh where
  disciplined := terminalDiscipline_nil
  unsent _ e member := by simp [ServerResponse.fresh] at member
  sent sent := by simp [ServerResponse.fresh] at sent
  unended _ e member := by simp [ServerResponse.fresh] at member
  final ended := by simp [ServerResponse.fresh] at ended
  endedSent ended := by simp [ServerResponse.fresh] at ended

namespace ServerResponse

variable {wsi : Wsi} {s : ServerResponse} {chunk : Chunk}

theorem ended_of_unsent (inv : ResponseInv s) (unsent : s.headersSent = false) :
    s.ended = false := by
  rcases Bool.eq_false_or_eq_true s.ended with ended | isOpen
  · rw [inv.endedSent ended] at unsent
    cases unsent
  · exact isOpen

theorem changeHeaders_sat {change : Headers → Except JsError Headers} (inv : ResponseInv s)
    (unsent : s.headersSent = false) :
    (changeHeaders change s).Sat (fun s => ResponseInv s ∧ s.headersSent = false) ResponseInv := by
  unfold changeHeaders
  split
  · rename_i headers _
    rw [Outcome.sat_done]
    have only := inv.unsent unsent
    have isOpen := ended_of_unsent inv unsent
    refine ⟨⟨terminalDiscipline_snoc.mpr ⟨inv.disciplined, ?_, ?_, ?_, ?_, ?_⟩, ?_, ?_, ?_, ?_, ?_⟩,
      unsent⟩
    · simp [ResponseEvent.isRespond]
    · simp [ResponseEvent.isFinal]
    · simp [ResponseEvent.bytes]
    · simp [ResponseEvent.bytes]
    · intro e member
      simp [only e member, ResponseEvent.isRespond]
    · intro _ e member
      rcases List.mem_append.mp member with old | new
      · exact only e old
      · simpa using new
    · simp [unsent]
    · intro _ e member
      rcases List.mem_append.mp member with old | new
      · simp [only e old, ResponseEvent.isFinal]
      · simp [List.mem_singleton.mp new, ResponseEvent.isFinal]
    · simp [isOpen]
    · simp [isOpen]
  · exact inv

/-- A `respond` opens the body. -/
theorem streaming_respond {status : Int} {contentLength : Option (Option Nat)}
    {headers : List (Text × HeaderValue)} {calls : Nat} (inv : ResponseInv s)
    (unsent : s.headersSent = false) (isOpen : s.ended = false) :
    Streaming { s with
      headersSent := true, calls, log := s.log ++ [.respond status contentLength headers] } := by
  have only := inv.unsent unsent
  refine ⟨⟨terminalDiscipline_snoc.mpr ⟨inv.disciplined, ?_, ?_, ?_, ?_, ?_⟩, ?_, ?_, ?_, ?_, ?_⟩,
    rfl, isOpen⟩
  · intro e member
    simp [only e member, ResponseEvent.isRespond]
  · simp [ResponseEvent.isFinal]
  · simp [ResponseEvent.bytes]
  · simp [ResponseEvent.bytes]
  · simp
  · simp
  · intro _
    exact ⟨_, List.mem_append_right _ List.mem_cons_self, rfl⟩
  · intro _ e member
    rcases List.mem_append.mp member with old | new
    · simp [only e old, ResponseEvent.isFinal]
    · simp [List.mem_singleton.mp new, ResponseEvent.isFinal]
  · simp [isOpen]
  · simp

/-- The log may take a write while the body is open; afterwards only an empty one. -/
theorem disciplined_write {bytes : List UInt8} {proto : WriteProtocol} (inv : ResponseInv s)
    (sent : s.headersSent = true)
    (admitted : s.ended = false ∨ bytes = [] ∧ proto ≠ .httpFinal) :
    TerminalDiscipline (s.log ++ [.write bytes proto]) := by
  refine terminalDiscipline_snoc.mpr ⟨inv.disciplined, ?_, ?_, fun _ => inv.sent sent, ?_, ?_⟩
  · simp [ResponseEvent.isRespond]
  · rcases admitted with isOpen | ⟨-, plain⟩
    · intro e member
      simp [inv.unended isOpen e member]
    · simp [ResponseEvent.isFinal, plain]
  · rcases admitted with isOpen | ⟨empty, -⟩
    · intro e member final
      rw [inv.unended isOpen e member] at final
      cases final
    · simp [ResponseEvent.bytes, empty]
  · simp

theorem responseInv_write {bytes : List UInt8} {calls : Nat} (inv : ResponseInv s)
    (sent : s.headersSent = true) (admitted : s.ended = false ∨ bytes = []) :
    ResponseInv { s with calls, log := s.log ++ [.write bytes .http] } := by
  refine ⟨disciplined_write inv sent (admitted.imp_right fun empty => ⟨empty, by simp⟩),
    ?_, ?_, ?_, ?_, inv.endedSent⟩
  · simp [sent]
  · intro _
    obtain ⟨e, member, responds⟩ := inv.sent sent
    exact ⟨e, List.mem_append_left _ member, responds⟩
  · intro isOpen e member
    rcases List.mem_append.mp member with old | new
    · exact inv.unended isOpen e old
    · simp [List.mem_singleton.mp new, ResponseEvent.isFinal]
  · intro ended
    obtain ⟨e, member, final⟩ := inv.final ended
    exact ⟨e, List.mem_append_left _ member, final⟩

theorem responseInv_final {bytes : List UInt8} {calls : Nat} (streaming : Streaming s) :
    ResponseInv
      { s with calls, ended := true, log := s.log ++ [.write bytes .httpFinal] } := by
  refine ⟨disciplined_write streaming.toResponseInv streaming.isSent (.inl streaming.isOpen),
    ?_, ?_, ?_, ?_, fun _ => streaming.isSent⟩
  · simp [streaming.isSent]
  · intro _
    obtain ⟨e, member, responds⟩ := streaming.sent streaming.isSent
    exact ⟨e, List.mem_append_left _ member, responds⟩
  · simp
  · intro _
    exact ⟨_, List.mem_append_right _ List.mem_cons_self, rfl⟩

/-- A call counted without an event changes nothing the summary reads. -/
theorem responseInv_calls {calls : Nat} (inv : ResponseInv s) :
    ResponseInv { s with calls } := ⟨inv.1, inv.2, inv.3, inv.4, inv.5, inv.6⟩

theorem wsiWrite_cases (wsi : Wsi) (chunk : Chunk) (proto : WriteProtocol) (s : ServerResponse) :
    (∃ e, s.wsiWrite wsi chunk proto = .threw e { s with calls := s.calls + 1 }) ∨
      (wsi.attached s.calls = true ∧ chunk.writeData ≠ .other ∧
        s.wsiWrite wsi chunk proto = .done { s with
          calls := s.calls + 1, log := s.log ++ [.write chunk.bytes proto] }) := by
  cases attached : wsi.attached s.calls with
  | false => exact .inl ⟨_, by simp only [wsiWrite, attached]; rfl⟩
  | true =>
    cases chunk with
    | string text => exact .inr ⟨rfl, by simp [Chunk.writeData], by simp [wsiWrite, attached,
        Chunk.writeData, Chunk.bytes]⟩
    | arrayBuffer bytes => exact .inr ⟨rfl, by simp [Chunk.writeData], by simp [wsiWrite, attached,
        Chunk.writeData, Chunk.bytes]⟩
    | view bytes => exact .inl ⟨_, by simp only [wsiWrite, attached]; rfl⟩
    | other => exact .inl ⟨_, by simp only [wsiWrite, attached]; rfl⟩

theorem wsiWrite_sat (streaming : Streaming s) :
    (s.wsiWrite wsi chunk .http).Sat Streaming ResponseInv := by
  rcases wsiWrite_cases wsi chunk .http s with ⟨e, eq⟩ | ⟨-, -, eq⟩
  · rw [eq, Outcome.sat_threw]
    exact responseInv_calls streaming.toResponseInv
  · rw [eq, Outcome.sat_done]
    exact ⟨responseInv_write streaming.toResponseInv streaming.isSent (.inl streaming.isOpen),
      streaming.isSent, streaming.isOpen⟩

theorem writeChunk_sat (streaming : Streaming s) :
    (s.writeChunk wsi chunk).Sat Streaming ResponseInv := by
  unfold writeChunk
  split
  · exact streaming.toResponseInv
  · exact streaming
  · apply (wsiWrite_sat streaming).andThen
    intro s streaming
    apply (wsiWrite_sat streaming).andThen
    intro s streaming
    exact wsiWrite_sat streaming

theorem flushHeaders_sat (inv : ResponseInv s) (isOpen : s.ended = false) :
    (s.flushHeaders wsi).Sat Streaming ResponseInv := by
  unfold flushHeaders
  split
  · rename_i sent
    exact ⟨inv, sent, isOpen⟩
  · rename_i unsent
    rw [Bool.not_eq_true] at unsent
    simp only [wsiRespond]
    split
    · exact (streaming_respond inv unsent isOpen).toResponseInv
    · split
      · exact (streaming_respond inv unsent isOpen).toResponseInv
      · exact streaming_respond inv unsent isOpen

/-- The FINAL write, before `end` sets its flag. -/
theorem wsiWrite_final_sat (streaming : Streaming s) :
    (s.wsiWrite wsi chunk .httpFinal).Sat (fun s => ResponseInv { s with ended := true })
      ResponseInv := by
  rcases wsiWrite_cases wsi chunk .httpFinal s with ⟨e, eq⟩ | ⟨-, -, eq⟩
  · rw [eq, Outcome.sat_threw]
    exact responseInv_calls streaming.toResponseInv
  · rw [eq, Outcome.sat_done]
    exact responseInv_final streaming

theorem writeFinal_sat {chunk : Option Chunk} (streaming : Streaming s) :
    (s.writeFinal wsi chunk).Sat (fun s => ResponseInv { s with ended := true }) ResponseInv := by
  unfold writeFinal
  split
  · refine Outcome.Sat.andThen (M := Streaming) ?_ fun s streaming => wsiWrite_final_sat streaming
    cases chunk with
    | none => exact streaming
    | some chunk => exact writeChunk_sat streaming
  · exact wsiWrite_final_sat streaming

/-- The shape shared by `set`, `append`, `removeHeader` and `cookie`. -/
theorem guardedChange_sat {change : Headers → Except JsError Headers} (inv : ResponseInv s) :
    (s.assertOpen.andThen (changeHeaders change)).Sat ResponseInv ResponseInv := by
  unfold assertOpen
  split
  · exact inv
  · rename_i unsent
    rw [Bool.not_eq_true] at unsent
    rw [Outcome.done_andThen]
    exact (changeHeaders_sat inv unsent).imp (fun _ both => both.1) fun _ => id

theorem end_sat {chunk : Option Chunk} (inv : ResponseInv s) :
    (s.end wsi chunk).Sat ResponseInv ResponseInv := by
  unfold «end»
  split
  · exact inv
  · rename_i unended
    have isOpen : s.ended = false := by simpa using unended
    refine Outcome.Sat.andThen (M := fun s => ResponseInv s ∧ s.ended = false) ?_ ?_
    · split
      · rename_i unframed
        have unsent : s.headersSent = false := by
          rw [Bool.and_eq_true, Bool.not_eq_true'] at unframed
          exact unframed.1
        apply (changeHeaders_sat inv unsent).imp _ fun _ => id
        rintro s ⟨inv, unsent⟩
        exact ⟨inv, ended_of_unsent inv unsent⟩
      · exact ⟨inv, isOpen⟩
    · rintro s ⟨inv, isOpen⟩
      apply (flushHeaders_sat inv isOpen).andThen
      intro s streaming
      apply (writeFinal_sat streaming).andThen
      intro s ended
      exact ended

theorem typed_sat {value : Text} (inv : ResponseInv s) :
    ((if s.headers.has contentType then .done s else s.type value) : ResponseOutcome).Sat
      ResponseInv ResponseInv := by
  split
  · exact inv
  · exact guardedChange_sat inv

theorem sendChunk_sat {body : Option Chunk} (inv : ResponseInv s) :
    (s.sendChunk wsi body).Sat ResponseInv ResponseInv := by
  unfold sendChunk
  split
  · exact inv
  · cases body with
    | none => exact end_sat inv
    | some body => exact (typed_sat inv).andThen fun s inv => end_sat inv

theorem json_sat {text : Except JsError (Option Text)} (inv : ResponseInv s) :
    (s.json wsi text).Sat ResponseInv ResponseInv := by
  apply (typed_sat inv).andThen
  intro s inv
  cases text with
  | error e => exact inv
  | ok text => exact sendChunk_sat inv

theorem send_sat {body : SendBody} (inv : ResponseInv s) :
    (s.send wsi body).Sat ResponseInv ResponseInv := by
  unfold send
  split
  · exact inv
  · cases body with
    | plain body => exact sendChunk_sat inv
    | object text => exact json_sat inv

theorem redirect_sat {status : Option Int} {url : Text} (inv : ResponseInv s) :
    (s.redirect wsi status url).Sat ResponseInv ResponseInv := by
  have renamed : ResponseInv { s with status := status.getD 302 } :=
    ⟨inv.1, inv.2, inv.3, inv.4, inv.5, inv.6⟩
  exact (guardedChange_sat renamed).andThen fun s inv => end_sat inv

theorem write_open_sat {chunk : Option Chunk} (inv : ResponseInv s) (isOpen : s.ended = false) :
    (s.write wsi chunk).Sat ResponseInv ResponseInv := by
  unfold write
  refine Outcome.Sat.andThen (M := fun s => ResponseInv s ∧ s.ended = false) ?_ ?_
  · split
    · rename_i unframed
      have unsent : s.headersSent = false := by
        simp only [Bool.and_eq_true, Bool.not_eq_true'] at unframed
        exact unframed.1.1
      have marked : ResponseInv { s with chunked := true } :=
        ⟨inv.1, inv.2, inv.3, inv.4, inv.5, inv.6⟩
      apply (changeHeaders_sat marked unsent).imp _ fun _ => id
      rintro s ⟨inv, unsent⟩
      exact ⟨inv, ended_of_unsent inv unsent⟩
    · exact ⟨inv, isOpen⟩
  · rintro s ⟨inv, isOpen⟩
    apply (flushHeaders_sat inv isOpen).andThen
    intro s streaming
    cases chunk with
    | none => exact streaming.toResponseInv
    | some chunk =>
      simp only
      split
      · exact (writeChunk_sat streaming).imp (fun _ next => next.toResponseInv) fun _ => id
      · exact (wsiWrite_sat streaming).imp (fun _ next => next.toResponseInv) fun _ => id

/-- Once the headers are out, `write` goes straight to the wsi. -/
theorem write_sent {chunk : Option Chunk} (sent : s.headersSent = true) :
    s.write wsi chunk = match chunk with
      | none => .done s
      | some chunk => if s.chunked then s.writeChunk wsi chunk else s.wsiWrite wsi chunk .http := by
  cases chunk <;> simp [write, flushHeaders, sent]

/-- A `write` hands the wsi no byte once the response has ended: the chunk is missing or empty,
the wsi is detached, or it rejects the chunk before anything is queued. -/
def WriteAdmitted (wsi : Wsi) (s : ServerResponse) : ResponseCall → Prop
  | .write (some chunk) => s.ended = true →
      chunk.bytes = [] ∨ wsi.attached s.calls = false ∨
        (s.chunked = false ∧ chunk.writeData = .other)
  | _ => True

theorem write_ended_sat {chunk : Option Chunk} (inv : ResponseInv s) (ended : s.ended = true)
    (admitted : WriteAdmitted wsi s (.write chunk)) :
    (s.write wsi chunk).Sat ResponseInv ResponseInv := by
  have sent := inv.endedSent ended
  rw [write_sent sent]
  cases chunk with
  | none => exact inv
  | some chunk =>
    have quiet := admitted ended
    simp only
    split
    · rename_i chunked
      -- Only the size line could be queued, and it goes first.
      unfold writeChunk
      split
      · exact inv
      · exact inv
      · rename_i len nonzero length
        rcases wsiWrite_cases wsi (.string (sizeLine len)) .http s with ⟨e, eq⟩ | ⟨attached, -, -⟩
        · rw [eq]
          exact responseInv_calls inv
        · exfalso
          rcases quiet with empty | detached | ⟨raw, -⟩
          · cases chunk <;> simp_all [chunkByteLength, Chunk.bytes]
          · simp [attached] at detached
          · simp [chunked] at raw
    · rcases wsiWrite_cases wsi chunk .http s with ⟨e, eq⟩ | ⟨attached, accepted, eq⟩
      · rw [eq]
        exact responseInv_calls inv
      · rw [eq]
        refine responseInv_write inv sent (.inr ?_)
        rcases quiet with empty | detached | ⟨-, rejected⟩
        · exact empty
        · simp [attached] at detached
        · exact absurd rejected accepted

/-- A property that no part of a method takes away: neither a change of the headers, nor a call of
the wsi, nor a change of the other fields. -/
structure Persistent (P : ServerResponse → Prop) : Prop where
  changed : ∀ {s : ServerResponse} {call : HeaderCall} {headers : Headers}, P s →
    s.headers.call call = .ok headers → P { s with headers, log := s.log ++ [.headersChanged] }
  logged : ∀ {s : ServerResponse} (event : ResponseEvent), P s →
    P { s with calls := s.calls + 1, log := s.log ++ [event] }
  flags : ∀ {s : ServerResponse} (status : Int) (ended headersSent chunked : Bool) (calls : Nat),
    P s → P { s with status, ended, headersSent, chunked, calls }

section Persistent

variable {P : ServerResponse → Prop} (persists : Persistent P)

include persists

theorem changeHeaders_keeps (call : HeaderCall) (holds : P s) :
    (changeHeaders (·.call call) s).Sat P P := by
  unfold changeHeaders
  split
  · exact persists.changed holds ‹_›
  · exact holds

theorem wsiWrite_keeps {proto : WriteProtocol} (holds : P s) :
    (s.wsiWrite wsi chunk proto).Sat P P := by
  rcases wsiWrite_cases wsi chunk proto s with ⟨e, eq⟩ | ⟨-, -, eq⟩
  · rw [eq]
    exact persists.flags s.status s.ended s.headersSent s.chunked (s.calls + 1) holds
  · rw [eq]
    exact persists.logged _ holds

theorem writeChunk_keeps (holds : P s) : (s.writeChunk wsi chunk).Sat P P := by
  unfold writeChunk
  split
  · exact holds
  · exact holds
  · exact (wsiWrite_keeps persists holds).andThen fun _ holds =>
      (wsiWrite_keeps persists holds).andThen fun _ holds => wsiWrite_keeps persists holds

theorem flushHeaders_keeps (holds : P s) : (s.flushHeaders wsi).Sat P P := by
  unfold flushHeaders
  split
  · exact holds
  · have sent := persists.flags s.status s.ended true s.chunked s.calls holds
    simp only [wsiRespond]
    split
    · exact persists.logged _ sent
    · split
      · exact persists.logged _ sent
      · exact persists.logged _ sent

theorem guardedChange_keeps (call : HeaderCall) (holds : P s) :
    (s.assertOpen.andThen (changeHeaders (·.call call))).Sat P P := by
  unfold assertOpen
  split
  · exact holds
  · exact changeHeaders_keeps persists call holds

theorem write_keeps {chunk : Option Chunk} (holds : P s) : (s.write wsi chunk).Sat P P := by
  unfold write
  refine Outcome.Sat.andThen (M := P) ?_ fun s holds => ?_
  · split
    · exact changeHeaders_keeps persists (.set transferEncoding "chunked".toList)
        (persists.flags s.status s.ended s.headersSent true s.calls holds)
    · exact holds
  · apply (flushHeaders_keeps persists holds).andThen
    intro s holds
    cases chunk with
    | none => exact holds
    | some chunk =>
      simp only
      split
      · exact writeChunk_keeps persists holds
      · exact wsiWrite_keeps persists holds

theorem end_keeps {chunk : Option Chunk} (holds : P s) : (s.end wsi chunk).Sat P P := by
  unfold «end»
  split
  · exact holds
  refine Outcome.Sat.andThen (M := P) ?_ fun s holds => ?_
  · split
    · exact changeHeaders_keeps persists (.set contentLength (lengthText chunk)) holds
    · exact holds
  apply (flushHeaders_keeps persists holds).andThen
  intro s holds
  refine Outcome.Sat.andThen (M := P) ?_ fun s holds =>
    persists.flags s.status true s.headersSent s.chunked s.calls holds
  unfold writeFinal
  split
  · refine Outcome.Sat.andThen (M := P) ?_ fun s holds => wsiWrite_keeps persists holds
    cases chunk with
    | none => exact holds
    | some chunk => exact writeChunk_keeps persists holds
  · exact wsiWrite_keeps persists holds

theorem typed_keeps {value : Text} (holds : P s) :
    ((if s.headers.has contentType then .done s else s.type value) : ResponseOutcome).Sat P P := by
  split
  · exact holds
  · exact guardedChange_keeps persists (.set contentType value) holds

theorem sendChunk_keeps {body : Option Chunk} (holds : P s) : (s.sendChunk wsi body).Sat P P := by
  unfold sendChunk
  split
  · exact holds
  · cases body with
    | none => exact end_keeps persists holds
    | some body =>
      exact (typed_keeps persists holds).andThen fun s holds => end_keeps persists holds

theorem json_keeps {text : Except JsError (Option Text)} (holds : P s) :
    (s.json wsi text).Sat P P := by
  apply (typed_keeps persists holds).andThen
  intro s holds
  cases text with
  | error e => exact holds
  | ok text => exact sendChunk_keeps persists holds

/-- No method takes the property away, whether it returns or throws. -/
theorem call_keeps (call : ResponseCall) (holds : P s) : (s.call wsi call).Sat P P := by
  cases call with
  | status code => exact persists.flags code s.ended s.headersSent s.chunked s.calls holds
  | set name value => exact guardedChange_keeps persists (.set name value) holds
  | append name value => exact guardedChange_keeps persists (.append name value) holds
  | removeHeader name => exact guardedChange_keeps persists (.delete name) holds
  | type value => exact guardedChange_keeps persists (.set contentType value) holds
  | cookie name value opts =>
    exact guardedChange_keeps persists
      (.append setCookie (buildSetCookie name value opts)) holds
  | write chunk => exact write_keeps persists holds
  | «end» chunk => exact end_keeps persists holds
  | send body =>
    simp only [ServerResponse.call, send]
    split
    · exact holds
    · cases body with
      | plain body => exact sendChunk_keeps persists holds
      | object text => exact json_keeps persists holds
  | json text => exact json_keeps persists holds
  | redirect status url =>
    have named := persists.flags (status.getD 302) s.ended s.headersSent s.chunked s.calls holds
    exact (guardedChange_keeps persists (.set "location".toList url) named).andThen
      fun s holds => end_keeps persists holds

end Persistent

/-- Every method only adds to the log. -/
def Extends (log : List ResponseEvent) (s : ServerResponse) : Prop := log <+: s.log

theorem persistent_extends (log : List ResponseEvent) : Persistent (Extends log) where
  changed le _ := le.trans (List.prefix_append ..)
  logged _ le := le.trans (List.prefix_append ..)
  flags _ _ _ _ _ le := le

end ServerResponse

open ServerResponse

variable {wsi : Wsi} {s : ServerResponse}

theorem call_extends (wsi : Wsi) (s : ServerResponse) (call : ResponseCall) :
    s.log <+: (responseStep wsi s call).log := by
  have start : Extends s.log s := List.prefix_rfl
  have sat : (s.call wsi call).Sat (Extends s.log) (Extends s.log) :=
    call_keeps (persistent_extends s.log) call start
  exact sat.state

/-- One call keeps the flags and the log in step, a `write` after the end apart. -/
theorem responseInv_step (wsi : Wsi) (s : ServerResponse) (call : ResponseCall)
    (inv : ResponseInv s) (admitted : WriteAdmitted wsi s call) :
    ResponseInv (responseStep wsi s call) := by
  suffices sat : (s.call wsi call).Sat ResponseInv ResponseInv from sat.state
  cases call with
  | status code => exact ⟨inv.1, inv.2, inv.3, inv.4, inv.5, inv.6⟩
  | set name value => exact guardedChange_sat inv
  | append name value => exact guardedChange_sat inv
  | removeHeader name => exact guardedChange_sat inv
  | type value => exact guardedChange_sat inv
  | cookie name value opts => exact guardedChange_sat inv
  | write chunk =>
    cases ended : s.ended with
    | false => exact write_open_sat inv ended
    | true => exact write_ended_sat inv ended admitted
  | «end» chunk => exact end_sat inv
  | send body => exact send_sat inv
  | json text => exact json_sat inv
  | redirect status url => exact redirect_sat inv

theorem not_disciplined_after_final {log : List ResponseEvent} {bytes : List UInt8}
    {proto : WriteProtocol} (final : ∃ e ∈ log, e.isFinal) (nonempty : bytes ≠ []) :
    ¬TerminalDiscipline (log ++ [.write bytes proto]) := by
  intro disciplined
  obtain ⟨e, member, isFinal⟩ := final
  exact nonempty ((terminalDiscipline_snoc.mp disciplined).2.2.2.2.1 e member isFinal)

/-- A `write` that is not admitted puts a byte after the FINAL write. -/
theorem not_disciplined_step (wsi : Wsi) (s : ServerResponse) (call : ResponseCall)
    (inv : ResponseInv s) (late : ¬WriteAdmitted wsi s call) :
    ¬TerminalDiscipline (responseStep wsi s call).log := by
  cases call with
  | write chunk =>
    cases chunk with
    | none => exact absurd trivial late
    | some chunk =>
      simp only [WriteAdmitted, Classical.not_imp, not_or, not_and, Bool.not_eq_false] at late
      obtain ⟨ended, nonempty, attached, reaches⟩ := late
      have final := inv.final ended
      simp only [responseStep, ServerResponse.call, write_sent (inv.endedSent ended)]
      split
      · obtain ⟨len, length⟩ : ∃ len, chunkByteLength chunk = some (len + 1) := by
          have positive : 0 < chunk.bytes.length := List.length_pos_iff.mpr nonempty
          obtain ⟨len, eq⟩ := Nat.exists_eq_add_one.mpr positive
          refine ⟨len, ?_⟩
          cases chunk <;> simp_all [chunkByteLength, Chunk.bytes]
        have line : utf8 (sizeLine (len + 1)) ≠ [] := utf8_ne_nil (by simp [sizeLine, crlf])
        have queued : (s.writeChunk wsi chunk).Sat
            (Extends (s.log ++ [.write (utf8 (sizeLine (len + 1))) .http]))
            (Extends (s.log ++ [.write (utf8 (sizeLine (len + 1))) .http])) := by
          simp only [writeChunk, length]
          rw [show s.wsiWrite wsi (.string (sizeLine (len + 1))) .http = .done { s with
            calls := s.calls + 1
            log := s.log ++ [.write (utf8 (sizeLine (len + 1))) .http] } by
              simp [wsiWrite, attached, Chunk.writeData]]
          exact (wsiWrite_keeps (persistent_extends _) List.prefix_rfl).andThen fun _ le =>
            wsiWrite_keeps (persistent_extends _) le
        exact fun disciplined => not_disciplined_after_final final line
          (terminalDiscipline_of_isPrefix queued.state disciplined)
      · rename_i raw
        rw [Bool.not_eq_true] at raw
        rcases wsiWrite_cases wsi chunk .http s with ⟨e, eq⟩ | ⟨-, -, eq⟩
        · exfalso
          cases chunk <;> simp_all [wsiWrite, Chunk.writeData, Outcome.done, Outcome.threw]
        · rw [eq]
          exact not_disciplined_after_final final nonempty
  | _ => exact absurd trivial late

/-- A response keeps its terminal discipline exactly as long as no `write` hands over a byte
after the end. -/
theorem terminalDiscipline_iff (wsi : Wsi) (calls : List ResponseCall) :
    TerminalDiscipline (runFrom (responseStep wsi) .fresh calls).log ↔
      Along (responseStep wsi) (WriteAdmitted wsi) .fresh calls := by
  have stays : ∀ s call, ¬TerminalDiscipline s.log →
      ¬TerminalDiscipline (responseStep wsi s call).log := by
    intro s call bad disciplined
    exact bad (terminalDiscipline_of_isPrefix (call_extends wsi s call) disciplined)
  exact run_iff_along (responseInv_step wsi) (not_disciplined_step wsi) stays
    (fun s inv => inv.disciplined) (fun s bad => bad) calls .fresh responseInv_fresh

/-- `res.end('a').write('b')`: the second body follows the FINAL write. -/
theorem write_after_end_not_disciplined :
    ¬TerminalDiscipline (runFrom (responseStep .live) .fresh
      [.end (some (.string ['a'])), .write (some (.string ['b']))]).log :=
  fun disciplined => absurd disciplined.finalLast (by decide)

end QjsLws.Http
