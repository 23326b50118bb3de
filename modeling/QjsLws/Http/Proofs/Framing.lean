import QjsLws.Http.Proofs.ServerResponse

/-!
# Framing of a streamed response

What a recipient makes of the bytes of a response, under the framing that its headers announce,
against the content that the caller handed to `write` and `end`.
-/

namespace QjsLws.Http

open QjsLws.Misc
open QjsLws.Socket (WriteProtocol)

/-- The last coding that a `transfer-encoding` value lists. -/
def finalCoding (value : Text) : Text :=
  asciiLower (strip isHttpWhitespace ((value.splitOn ',').getLast?.getD []))

/-- Whether the headers announce a chunked body. -/
def announcesChunked (headers : List (Text × HeaderValue)) : Bool :=
  match Assoc.find transferEncoding headers with
  | some (.single value) => finalCoding value = "chunked".toList
  | some (.list values) => finalCoding (join ", ".toList values) = "chunked".toList
  | none => false

/-- The content of a body: chunked, of the announced length, or up to the close. -/
def decodeBody (contentLength : Option (Option Nat)) (headers : List (Text × HeaderValue))
    (body : List UInt8) : Option (List UInt8) :=
  if announcesChunked headers then decodeChunked body
  else
    match contentLength with
    | some length => if length = some body.length then some body else none
    | none => some body

/-- The bytes that a log hands to `wsi.write`. -/
def bodyBytes (log : List ResponseEvent) : List UInt8 := log.flatMap ResponseEvent.bytes

/-- The recipient of the response reads `content`. -/
def Delivers (log : List ResponseEvent) (content : List UInt8) : Prop :=
  ∃ status contentLength headers, .respond status contentLength headers ∈ log ∧
    decodeBody contentLength headers (bodyBytes log) = some content

/-- A caller that makes its calls in turn and gives up at the first one that throws. -/
def callAll (wsi : Wsi) : List ResponseCall → ServerResponse → ResponseOutcome
  | [], s => .done s
  | call :: calls, s => (s.call wsi call).andThen (callAll wsi calls)

/-- The calls that only prepare the headers. -/
def ResponseCall.preparesHeaders : ResponseCall → Bool
  | .status _ | .set .. | .append .. | .removeHeader _ | .type _ | .cookie .. => true
  | _ => false

/-- A response whose caller has prepared the headers. -/
def preparedBy (setup : List { call : ResponseCall // call.preparesHeaders }) : ServerResponse :=
  runFrom (responseStep .live) .fresh (setup.map Subtype.val)

/-- Some writes and one end. -/
def streamCalls (writes : List Chunk) (last : Option Chunk) : List ResponseCall :=
  writes.map (.write ∘ some) ++ [.end last]

/-- The bytes of all chunks. -/
def contentOf (writes : List Chunk) (last : Option Chunk) : List UInt8 :=
  (writes ++ last.toList).flatMap Chunk.bytes

/-- No call throws, and the recipient reads the content. -/
def StreamsContent (s : ServerResponse) (writes : List Chunk) (last : Option Chunk) : Prop :=
  let outcome := callAll .live (streamCalls writes last) s
  outcome.thrown = none ∧ Delivers outcome.state.log (contentOf writes last)

/-- The caller did not announce a chunked body itself, and hands over views only where they are
never passed on: empty ones, while the response does its own chunking. -/
def FramingKept (h : Headers) (writes : List Chunk) (last : Option Chunk) : Prop :=
  announcesChunked h.toObject = false ∧
    ∀ bytes, .view bytes ∈ writes ++ last.toList →
      bytes = [] ∧ writes ≠ [] ∧ h.has contentLength = false ∧ h.has transferEncoding = false

@[simp] theorem bodyBytes_append (first second : List ResponseEvent) :
    bodyBytes (first ++ second) = bodyBytes first ++ bodyBytes second := List.flatMap_append

@[simp] theorem bodyBytes_singleton (event : ResponseEvent) : bodyBytes [event] = event.bytes := by
  simp [bodyBytes]

/-- Nothing is sent yet. -/
structure Unsent (s : ServerResponse) : Prop where
  headersSent : s.headersSent = false
  ended : s.ended = false
  chunked : s.chunked = false
  body : bodyBytes s.log = []
  respond : ∀ e ∈ s.log, e.isRespond = false

theorem unsent_guardedChange {s : ServerResponse} {change : Headers → Except JsError Headers}
    (unsent : Unsent s) :
    (s.assertOpen.andThen (ServerResponse.changeHeaders change)).Sat Unsent Unsent := by
  unfold ServerResponse.assertOpen ServerResponse.changeHeaders
  rw [unsent.headersSent]
  simp only [Bool.false_eq_true, if_false, Outcome.done_andThen]
  split
  · refine ⟨unsent.1, unsent.2, unsent.3, by simp [unsent.body, ResponseEvent.bytes], ?_⟩
    intro e member
    rcases List.mem_append.mp member with old | new
    · exact unsent.respond e old
    · simp [List.mem_singleton.mp new, ResponseEvent.isRespond]
  · exact unsent

theorem unsent_preparedBy (setup : List { call : ResponseCall // call.preparesHeaders }) :
    Unsent (preparedBy setup) := by
  unfold preparedBy
  generalize start : ServerResponse.fresh = s
  have unsent : Unsent s := by
    subst start
    exact ⟨rfl, rfl, rfl, rfl, by simp [ServerResponse.fresh]⟩
  clear start
  induction setup generalizing s with
  | nil => exact unsent
  | cons call setup ih =>
    apply ih
    obtain ⟨call, prepares⟩ := call
    suffices sat : (s.call .live call).Sat Unsent Unsent from sat.state
    cases call with
    | status code => exact ⟨unsent.1, unsent.2, unsent.3, unsent.4, unsent.5⟩
    | set name value => exact unsent_guardedChange unsent
    | append name value => exact unsent_guardedChange unsent
    | removeHeader name => exact unsent_guardedChange unsent
    | type value => exact unsent_guardedChange unsent
    | cookie name value opts => exact unsent_guardedChange unsent
    | _ => cases prepares

namespace ServerResponse

variable {s : ServerResponse} {chunk : Chunk}

theorem wsiWrite_live {proto : WriteProtocol} (accepted : chunk.writeData ≠ .other) :
    s.wsiWrite .live chunk proto = .done { s with
      calls := s.calls + 1, log := s.log ++ [.write chunk.bytes proto] } := by
  cases chunk <;> simp_all [wsiWrite, Wsi.live, Chunk.writeData, Chunk.bytes]

theorem wsiWrite_view (s : ServerResponse) (bytes : List UInt8) (proto : WriteProtocol) :
    (s.wsiWrite .live (.view bytes) proto).thrown ≠ none := by
  simp [wsiWrite, Wsi.live, Chunk.writeData]

/-- A chunk of nonzero length leaves as one encoded chunk, in three writes. -/
theorem writeChunk_live (accepted : chunk.writeData ≠ .other) (nonempty : chunk.bytes ≠ []) :
    s.writeChunk .live chunk = .done { s with
      calls := s.calls + 3
      log := s.log ++ [.write (utf8 (sizeLine chunk.bytes.length)) .http, .write chunk.bytes .http,
        .write (utf8 crlf) .http] } := by
  have length : chunkByteLength chunk = some chunk.bytes.length := by
    cases chunk <;> simp_all [Chunk.writeData, chunkByteLength]
  have positive : chunk.bytes.length ≠ 0 := by simpa using nonempty
  unfold writeChunk
  rw [length]
  split
  · rename_i missing
    cases missing
  · rename_i zero
    exact absurd (Option.some.inj zero) positive
  · rename_i len _ eq
    obtain rfl := Option.some.inj eq
    rw [wsiWrite_live (by simp [Chunk.writeData]), Outcome.done_andThen, wsiWrite_live accepted,
      Outcome.done_andThen, wsiWrite_live (by simp [Chunk.writeData])]
    simp [Chunk.bytes]

theorem writeChunk_empty (typed : chunk ≠ .other) (empty : chunk.bytes = []) :
    s.writeChunk .live chunk = .done s := by
  have length : chunkByteLength chunk = some 0 := by
    cases chunk <;> simp_all [chunkByteLength]
  simp [writeChunk, length]

theorem writeChunk_view (s : ServerResponse) {bytes : List UInt8} (nonempty : bytes ≠ []) :
    (s.writeChunk .live (.view bytes)).thrown ≠ none := by
  obtain ⟨n, len⟩ : ∃ n, bytes.length = n + 1 :=
    Nat.exists_eq_add_one.mpr (List.length_pos_iff.mpr nonempty)
  simp only [writeChunk, chunkByteLength, Chunk.bytes, len]
  rw [wsiWrite_live (by simp [Chunk.writeData]), Outcome.done_andThen]
  simp [wsiWrite, Wsi.live, Chunk.writeData, Outcome.threw, Outcome.andThen]

theorem end_sent {chunk : Option Chunk} {wsi : Wsi} (sent : s.headersSent = true)
    (isOpen : s.ended = false) :
    s.end wsi chunk = (s.writeFinal wsi chunk).andThen fun s => .done { s with ended := true } := by
  simp [«end», flushHeaders, sent, isOpen]

/-- The response adds `events` to the log, none of them a `respond`, with `body` in them. -/
def Adds (s : ServerResponse) (body : List UInt8) (outcome : ResponseOutcome) : Prop :=
  ∃ events, outcome.state.log = s.log ++ events ∧ bodyBytes events = body ∧
    ∀ e ∈ events, e.isRespond = false

theorem Adds.cons {s s' : ServerResponse} {first rest : List UInt8} {outcome : ResponseOutcome}
    {events : List ResponseEvent} (added : s'.log = s.log ++ events)
    (body : bodyBytes events = first) (writes : ∀ e ∈ events, e.isRespond = false)
    (adds : Adds s' rest outcome) : Adds s (first ++ rest) outcome := by
  obtain ⟨more, log, body', writes'⟩ := adds
  refine ⟨events ++ more, by rw [log, added, List.append_assoc], by simp [body, body'], ?_⟩
  intro e member
  exact (List.mem_append.mp member).elim (writes e) (writes' e)

theorem streamCalls_cons (chunk : Chunk) (writes : List Chunk) (last : Option Chunk) (wsi : Wsi)
    (s : ServerResponse) :
    callAll wsi (streamCalls (chunk :: writes) last) s =
      (s.write wsi (some chunk)).andThen (callAll wsi (streamCalls writes last)) := rfl

theorem streamCalls_nil (last : Option Chunk) (wsi : Wsi) (s : ServerResponse) :
    callAll wsi (streamCalls [] last) s = (s.end wsi last).andThen .done := rfl

theorem thrown_andThen {o : ResponseOutcome} {f : ServerResponse → ResponseOutcome}
    (threw : o.thrown ≠ none) : (o.andThen f).thrown ≠ none := by
  rwa [Outcome.andThen_of_thrown threw]

theorem writeData_of_not_view (typed : chunk ≠ .other) (plain : ∀ bytes, chunk ≠ .view bytes) :
    chunk.writeData ≠ .other := by
  cases chunk <;> simp_all [Chunk.writeData]

/-- Without chunking the chunks leave as they are, and any view is rejected. -/
theorem callAll_raw {last : Option Chunk} (writes : List Chunk) :
    ∀ s : ServerResponse, s.headersSent = true → s.ended = false → s.chunked = false →
      (∀ c ∈ writes ++ last.toList, c ≠ .other) →
      let outcome := callAll .live (streamCalls writes last) s
      (outcome.thrown = none ↔ ∀ bytes, .view bytes ∉ writes ++ last.toList) ∧
        (outcome.thrown = none → Adds s (contentOf writes last) outcome) := by
  induction writes with
  | nil =>
    intro s sent isOpen raw typed
    simp only [streamCalls_nil, end_sent sent isOpen, writeFinal, raw, Bool.false_eq_true, if_false]
    by_cases views : ∃ bytes, last = some (.view bytes)
    · obtain ⟨bytes, rfl⟩ := views
      have threw := thrown_andThen (f := .done) (thrown_andThen (s.wsiWrite_view bytes .httpFinal)
        (f := fun s => .done { s with ended := true }))
      simp only [Option.getD_some]
      simp [threw]
    · have plain : (last.getD (.string [])).writeData ≠ .other := by
        cases last with
        | none => simp [Chunk.writeData]
        | some c =>
          refine writeData_of_not_view (typed c (by simp)) fun bytes same => ?_
          exact views ⟨bytes, congrArg some same⟩
      rw [wsiWrite_live plain]
      refine ⟨?_, fun _ => ⟨[.write (last.getD (.string [])).bytes .httpFinal], rfl, ?_, ?_⟩⟩
      · simp only [Outcome.done_andThen, Outcome.done_thrown, true_iff]
        intro bytes member
        exact views ⟨bytes, by simpa using member⟩
      · cases last <;> simp [contentOf, ResponseEvent.bytes, Chunk.bytes]
      · simp [ResponseEvent.isRespond]
  | cons chunk writes ih =>
    intro s sent isOpen raw typed
    have typed' : ∀ c ∈ writes ++ last.toList, c ≠ .other := fun c member =>
      typed c (List.mem_cons_of_mem _ member)
    simp only [streamCalls_cons, write_sent sent, raw, Bool.false_eq_true, if_false]
    by_cases views : ∃ bytes, chunk = .view bytes
    · obtain ⟨bytes, rfl⟩ := views
      have threw := thrown_andThen (s.wsiWrite_view bytes .http)
        (f := callAll .live (streamCalls writes last))
      refine ⟨?_, fun none => absurd none threw⟩
      simp only [threw, false_iff, not_forall, not_not]
      exact ⟨bytes, by simp⟩
    · have plain : chunk.writeData ≠ .other :=
        writeData_of_not_view (typed chunk (by simp)) fun bytes same => views ⟨bytes, same⟩
      rw [wsiWrite_live plain, Outcome.done_andThen]
      obtain ⟨throws, adds⟩ := ih { s with
        calls := s.calls + 1, log := s.log ++ [.write chunk.bytes .http] } sent isOpen raw typed'
      refine ⟨throws.trans ?_, fun none => ?_⟩
      · simp only [List.cons_append, List.mem_cons, not_or]
        exact ⟨fun rest bytes => ⟨fun same => views ⟨bytes, same.symm⟩, rest bytes⟩,
          fun both bytes => (both bytes).2⟩
      · exact (adds none).cons rfl (by simp [ResponseEvent.bytes]) (by simp [ResponseEvent.isRespond])

/-- The chunks that the response encodes itself. -/
def encodedChunks (chunks : List Chunk) : List (List UInt8) :=
  (chunks.map Chunk.bytes).filter (· ≠ [])

theorem encodedChunks_flatten (chunks : List Chunk) :
    (encodedChunks chunks).flatten = chunks.flatMap Chunk.bytes := by
  induction chunks with
  | nil => rfl
  | cons chunk chunks ih =>
    by_cases empty : chunk.bytes = []
    · simpa [encodedChunks, empty] using ih
    · simpa [encodedChunks, empty] using ih

/-- What `writeChunk` does with a chunk of any length. -/
theorem writeChunk_cases (s : ServerResponse) (typed : chunk ≠ .other) :
    (∃ bytes, chunk = .view bytes ∧ bytes ≠ [] ∧ (s.writeChunk .live chunk).thrown ≠ none) ∨
      ((∀ bytes, chunk = .view bytes → bytes = []) ∧
        ∃ calls events, s.writeChunk .live chunk =
            .done { s with calls, log := s.log ++ events } ∧
          bodyBytes events = (encodedChunks [chunk]).flatMap encodeChunk ∧
          ∀ e ∈ events, e.isRespond = false) := by
  by_cases empty : chunk.bytes = []
  · refine .inr ⟨?_, s.calls, [], by simp [writeChunk_empty typed empty], ?_, by simp⟩
    · rintro bytes rfl
      exact empty
    · simp [encodedChunks, empty, bodyBytes]
  · by_cases views : ∃ bytes, chunk = .view bytes
    · obtain ⟨bytes, rfl⟩ := views
      exact .inl ⟨bytes, rfl, empty, writeChunk_view s empty⟩
    · have plain : chunk.writeData ≠ .other :=
        writeData_of_not_view typed fun bytes same => views ⟨bytes, same⟩
      refine .inr ⟨fun bytes same => absurd ⟨bytes, same⟩ views, _, _,
        writeChunk_live plain empty, ?_, ?_⟩
      · simp [encodedChunks, empty, bodyBytes, ResponseEvent.bytes, encodeChunk]
      · simp [ResponseEvent.isRespond]

theorem encodedChunks_append (first second : List Chunk) :
    encodedChunks (first ++ second) = encodedChunks first ++ encodedChunks second := by
  simp [encodedChunks]

/-- In chunked mode the chunks leave encoded, and only nonempty views are rejected. -/
theorem callAll_chunked {last : Option Chunk} (writes : List Chunk) :
    ∀ s : ServerResponse, s.headersSent = true → s.ended = false → s.chunked = true →
      (∀ c ∈ writes ++ last.toList, c ≠ .other) →
      let outcome := callAll .live (streamCalls writes last) s
      (outcome.thrown = none ↔ ∀ bytes, .view bytes ∈ writes ++ last.toList → bytes = []) ∧
        (outcome.thrown = none → Adds s
          ((encodedChunks (writes ++ last.toList)).flatMap encodeChunk ++ utf8 lastChunk)
          outcome) := by
  induction writes with
  | nil =>
    intro s sent isOpen chunked typed
    simp only [streamCalls_nil, end_sent sent isOpen, writeFinal, chunked, if_true]
    cases last with
    | none =>
      simp only [Outcome.done_andThen]
      rw [wsiWrite_live (by simp [Chunk.writeData])]
      refine ⟨by simp, fun _ => ⟨[.write (utf8 lastChunk) .httpFinal], rfl, ?_, ?_⟩⟩
      · simp [encodedChunks, ResponseEvent.bytes]
      · simp [ResponseEvent.isRespond]
    | some chunk =>
      rcases s.writeChunk_cases (typed chunk (by simp)) with
        ⟨bytes, rfl, nonempty, threw⟩ | ⟨views, calls, events, eq, body, writes⟩
      · have threw := thrown_andThen (f := .done) (thrown_andThen (thrown_andThen threw
          (f := wsiWrite .live (.string lastChunk) .httpFinal))
          (f := fun s => .done { s with ended := true }))
        refine ⟨?_, fun none => absurd none threw⟩
        simp [threw, nonempty]
      · simp only [eq, Outcome.done_andThen]
        rw [wsiWrite_live (by simp [Chunk.writeData])]
        refine ⟨?_, fun _ => ⟨events ++ [.write (utf8 lastChunk) .httpFinal], ?_, ?_, ?_⟩⟩
        · simp only [Outcome.done_andThen, Outcome.done_thrown, true_iff]
          intro bytes member
          have same : Chunk.view bytes = chunk := by simpa using member
          exact views bytes same.symm
        · simp [Chunk.bytes]
        · simp [body, ResponseEvent.bytes]
        · intro e member
          rcases List.mem_append.mp member with old | new
          · exact writes e old
          · simp [List.mem_singleton.mp new, ResponseEvent.isRespond]
  | cons chunk writes ih =>
    intro s sent isOpen chunked typed
    have typed' : ∀ c ∈ writes ++ last.toList, c ≠ .other := fun c member =>
      typed c (List.mem_cons_of_mem _ member)
    simp only [streamCalls_cons, write_sent sent, chunked, if_true]
    rcases s.writeChunk_cases (typed chunk (by simp)) with
      ⟨bytes, rfl, nonempty, threw⟩ | ⟨views, calls, events, eq, body, added⟩
    · have threw := thrown_andThen threw (f := callAll .live (streamCalls writes last))
      refine ⟨?_, fun none => absurd none threw⟩
      simp only [threw, false_iff, not_forall]
      exact ⟨bytes, by simp, nonempty⟩
    · simp only [eq, Outcome.done_andThen]
      obtain ⟨throws, adds⟩ := ih { s with calls, log := s.log ++ events } sent isOpen chunked typed'
      refine ⟨throws.trans ?_, fun none => ?_⟩
      · simp only [List.cons_append, List.mem_cons]
        exact ⟨fun rest bytes member => member.elim (fun same => views bytes same.symm) (rest bytes),
          fun both bytes member => both bytes (.inr member)⟩
      · have more := (adds none).cons rfl body added
        rw [show chunk :: writes ++ last.toList = [chunk] ++ (writes ++ last.toList) from rfl,
          encodedChunks_append, List.flatMap_append, List.append_assoc]
        exact more

/-- The header object that `#flushHeaders` passes on. -/
def wireHeaders (h : Headers) : List (Text × HeaderValue) :=
  if (h.get contentLength).isSome then h.toObject.filter (·.1 ≠ contentLength) else h.toObject

/-- The response after `#flushHeaders`. -/
def flushed (s : ServerResponse) : ServerResponse :=
  { s with
    headersSent := true
    calls := s.calls + 1
    log := s.log ++ [.respond s.status ((s.headers.get contentLength).map number)
      (wireHeaders s.headers)] }

theorem flushHeaders_live (unsent : s.headersSent = false) :
    s.flushHeaders .live = .done s.flushed := by
  simp [flushHeaders, unsent, wsiRespond, Wsi.live, flushed, wireHeaders]

theorem find_wireHeaders (h : Headers) :
    Assoc.find transferEncoding (wireHeaders h) = h.map.get transferEncoding := by
  have object : Assoc.find transferEncoding h.toObject = h.map.get transferEncoding := by
    rw [Headers.toObject, Assoc.find_filter, if_neg (by decide)]
    rfl
  unfold wireHeaders
  split
  · rw [Assoc.find_filter, if_neg (by decide), object]
  · exact object

theorem announcesChunked_congr {h h' : List (Text × HeaderValue)}
    (same : Assoc.find transferEncoding h = Assoc.find transferEncoding h') :
    announcesChunked h = announcesChunked h' := by
  rw [announcesChunked, announcesChunked, same]

theorem announcesChunked_wireHeaders (h : Headers) :
    announcesChunked (wireHeaders h) = announcesChunked h.toObject := by
  apply announcesChunked_congr
  rw [find_wireHeaders, Headers.toObject, Assoc.find_filter, if_neg (by decide)]
  rfl

/-- The response with its own framing chosen by `write`. -/
def framedByWrite (s : ServerResponse) : ServerResponse :=
  { s with
    chunked := true
    headers := ⟨s.headers.map.set transferEncoding (.single "chunked".toList)⟩
    log := s.log ++ [.headersChanged] }

/-- The response with its length declared by `end`. -/
def framedByEnd (len : Nat) (s : ServerResponse) : ServerResponse :=
  { s with
    headers := ⟨s.headers.map.set contentLength (.single (decimal len))⟩
    log := s.log ++ [.headersChanged] }

theorem digit_plain {c : Char} (digit : c.isDigit) :
    isHttpWhitespace c = false ∧ isForbiddenInValue c = false := by
  have range : 48 ≤ c.val ∧ c.val ≤ 57 := by simpa [Char.isDigit] using digit
  constructor
  · by_contra space
    simp only [isHttpWhitespace, List.contains_eq_mem, Bool.not_eq_false, decide_eq_true_eq,
      List.mem_cons, List.not_mem_nil, or_false] at space
    rcases space with rfl | rfl | rfl | rfl | rfl <;> exact absurd range.1 (by decide)
  · by_contra forbidden
    simp only [isForbiddenInValue, List.contains_eq_mem, Bool.not_eq_false, decide_eq_true_eq,
      List.mem_cons, List.not_mem_nil, or_false] at forbidden
    rcases forbidden with rfl | rfl | rfl <;> exact absurd range.1 (by decide)

theorem normalizeValue_decimal (len : Nat) : normalizeValue (decimal len) = .ok (decimal len) := by
  have digits : ∀ c ∈ decimal len, c.isDigit := fun c member =>
    Nat.isDigit_of_mem_toDigits (by decide) (by decide) member
  have kept := strip_eq_self fun c member => (digit_plain (digits c member)).1
  simp only [normalizeValue, kept]
  rw [if_neg]
  simp only [List.any_eq_true, not_exists, not_and, Bool.not_eq_true]
  exact fun c member => (digit_plain (digits c member)).2

theorem set_contentLength (h : Headers) (len : Nat) :
    h.set contentLength (decimal len) = .ok ⟨h.map.set contentLength (.single (decimal len))⟩ := by
  have name : normalizeName contentLength = .ok contentLength := by decide
  simp only [Headers.set, name, normalizeValue_decimal, bind, Except.bind, pure, Except.pure]
  rfl

/-- The first `write` opens the body and then goes on as any other. -/
theorem write_unsent (unsent : Unsent s) :
    s.write .live (some chunk) =
      (if !s.headers.has contentLength && !s.headers.has transferEncoding then
        s.framedByWrite.flushed else s.flushed).write .live (some chunk) := by
  by_cases unframed : !s.headers.has contentLength && !s.headers.has transferEncoding
  · have framed : changeHeaders (·.set transferEncoding "chunked".toList)
        { s with chunked := true } = .done s.framedByWrite := rfl
    have flush : s.framedByWrite.flushHeaders .live = .done s.framedByWrite.flushed :=
      flushHeaders_live unsent.headersSent
    have sent : s.framedByWrite.flushed.headersSent = true := rfl
    rw [if_pos unframed, write_sent sent, write]
    rw [if_pos (by simpa [unsent.headersSent] using unframed), framed, Outcome.done_andThen, flush]
    rfl
  · have sent : s.flushed.headersSent = true := rfl
    rw [if_neg unframed, write_sent sent, write]
    rw [if_neg (by simpa [unsent.headersSent] using unframed), Outcome.done_andThen,
      flushHeaders_live unsent.headersSent]
    rfl

/-- An `end` without a `write` before it declares the length of its chunk. -/
theorem end_unsent {last : Option Chunk} (unsent : Unsent s) (typed : ∀ c ∈ last, c ≠ .other) :
    s.end .live last =
      (if s.headers.has contentLength then s.flushed
        else (s.framedByEnd (contentOf [] last).length).flushed).end .live last := by
  have length : lengthText last = decimal (contentOf [] last).length := by
    cases last with
    | none =>
      rw [show (contentOf [] none).length = 0 from rfl]
      simp only [lengthText]
    | some c =>
      have known := typed c (by simp)
      cases c <;> simp_all [lengthText, chunkByteLength, contentOf]
  have isOpen : ¬s.ended = true := by simp [unsent.ended]
  by_cases declared : s.headers.has contentLength
  · have sent : s.flushed.headersSent = true := rfl
    rw [if_pos declared, end_sent sent unsent.ended]
    unfold «end»
    rw [if_neg isOpen]
    simp only
    rw [if_neg (by simp [declared]), Outcome.done_andThen, flushHeaders_live unsent.headersSent]
    rfl
  · have sent : (s.framedByEnd (contentOf [] last).length).flushed.headersSent = true := rfl
    have framed : changeHeaders (·.set contentLength (decimal (contentOf [] last).length)) s =
        .done (s.framedByEnd (contentOf [] last).length) := by
      simp only [changeHeaders, set_contentLength]
      rfl
    have flush : (s.framedByEnd (contentOf [] last).length).flushHeaders .live =
        .done (s.framedByEnd (contentOf [] last).length).flushed :=
      flushHeaders_live unsent.headersSent
    rw [if_neg declared, end_sent sent unsent.ended]
    unfold «end»
    rw [if_neg isOpen]
    simp only [length]
    rw [if_pos (by simp [declared, unsent.headersSent]), framed, Outcome.done_andThen, flush]
    rfl

end ServerResponse

open ServerResponse

variable {s : ServerResponse} {writes : List Chunk} {last : Option Chunk}

theorem delivers_iff {before after : List ResponseEvent} {status : Int}
    {length : Option (Option Nat)} {headers : List (Text × HeaderValue)} {content : List UInt8}
    (earlier : ∀ e ∈ before, e.isRespond = false) (later : ∀ e ∈ after, e.isRespond = false) :
    Delivers (before ++ [.respond status length headers] ++ after) content ↔
      decodeBody length headers (bodyBytes before ++ bodyBytes after) = some content := by
  have body : bodyBytes (before ++ [.respond status length headers] ++ after) =
      bodyBytes before ++ bodyBytes after := by simp [bodyBytes, ResponseEvent.bytes]
  rw [← body]
  constructor
  · rintro ⟨status', length', headers', member, decoded⟩
    simp only [List.mem_append, List.mem_singleton] at member
    rcases member with (old | same) | new
    · cases earlier _ old
    · cases same
      exact decoded
    · cases later _ new
  · intro decoded
    exact ⟨status, length, headers, by simp, decoded⟩

/-- A body that is sent as it is says what it means unless its headers announce chunks. -/
theorem decodeBody_self {length : Option (Option Nat)} {headers : List (Text × HeaderValue)}
    {body : List UInt8} (declared : ∀ n, length = some n → n = some body.length) :
    decodeBody length headers body = some body ↔ announcesChunked headers = false := by
  unfold decodeBody
  split
  · rename_i chunked
    simp [chunked, decodeChunked_ne_self]
  · rename_i plain
    rw [Bool.not_eq_true] at plain
    simp only [plain, iff_true]
    split
    · rw [if_pos (declared _ rfl)]
    · rfl

theorem decodeBody_chunked {length : Option (Option Nat)} {headers : List (Text × HeaderValue)}
    {body : List UInt8} (announced : announcesChunked headers = true) :
    decodeBody length headers body = decodeChunked body := by
  unfold decodeBody
  rw [if_pos announced]

theorem streamsContent_raw (unsent : Unsent s) (typed : ∀ c ∈ writes ++ last.toList, c ≠ .other)
    (declared : ∀ text, s.headers.get contentLength = some text →
      number text = some (contentOf writes last).length) :
    StreamsContent s.flushed writes last ↔
      (∀ bytes, .view bytes ∉ writes ++ last.toList) ∧
        announcesChunked s.headers.toObject = false := by
  obtain ⟨throws, adds⟩ := callAll_raw writes s.flushed rfl unsent.ended unsent.chunked typed
  simp only [StreamsContent, throws]
  refine and_congr_right fun plain => ?_
  obtain ⟨events, log, body, later⟩ := adds (throws.mpr plain)
  rw [log, flushed, delivers_iff unsent.respond later, unsent.body, List.nil_append, body,
    decodeBody_self, announcesChunked_wireHeaders]
  intro n mapped
  obtain ⟨text, found, rfl⟩ := Option.map_eq_some_iff.mp mapped
  exact declared text found

theorem streamsContent_chunked (unsent : Unsent s)
    (typed : ∀ c ∈ writes ++ last.toList, c ≠ .other) :
    StreamsContent s.framedByWrite.flushed writes last ↔
      ∀ bytes, .view bytes ∈ writes ++ last.toList → bytes = [] := by
  obtain ⟨throws, adds⟩ := callAll_chunked writes s.framedByWrite.flushed rfl unsent.ended rfl typed
  simp only [StreamsContent, throws]
  refine and_iff_left_of_imp fun empty => ?_
  obtain ⟨events, log, body, later⟩ := adds (throws.mpr empty)
  have earlier : ∀ e ∈ s.framedByWrite.log, e.isRespond = false := by
    intro e member
    rcases List.mem_append.mp member with old | new
    · exact unsent.respond e old
    · simp [List.mem_singleton.mp new, ResponseEvent.isRespond]
  have sentBody : bodyBytes s.framedByWrite.log = [] := by
    simp [framedByWrite, unsent.body, ResponseEvent.bytes]
  have announced : announcesChunked (wireHeaders s.framedByWrite.headers) = true := by
    rw [announcesChunked, find_wireHeaders]
    simp only [framedByWrite, Assoc.get_set_self]
    decide
  rw [log, flushed, delivers_iff earlier later, sentBody, List.nil_append, body,
    decodeBody_chunked announced, decodeChunked_encode, encodedChunks_flatten, contentOf]
  intro data member
  simpa using (List.mem_filter.mp member).2

theorem unsent_framedByEnd {len : Nat} (unsent : Unsent s) : Unsent (s.framedByEnd len) := by
  refine ⟨unsent.1, unsent.2, unsent.3, by simp [framedByEnd, unsent.body, ResponseEvent.bytes], ?_⟩
  intro e member
  rcases List.mem_append.mp member with old | new
  · exact unsent.respond e old
  · simp [List.mem_singleton.mp new, ResponseEvent.isRespond]

theorem has_eq_false {h : Headers} {name : Text} : h.has name = false ↔ h.get name = none := by
  simp [Headers.has, Assoc.has, Headers.get]

/-- A streamed response delivers its content exactly when its caller leaves chunking to it and
keeps views away from `wsi.write`. -/
theorem framing_iff (setup : List { call : ResponseCall // call.preparesHeaders })
    (writes : List Chunk) (last : Option Chunk)
    (typed : ∀ c ∈ writes ++ last.toList, c ≠ .other)
    (declared : ∀ text, (preparedBy setup).headers.get contentLength = some text →
      number text = some (contentOf writes last).length) :
    StreamsContent (preparedBy setup) writes last ↔
      FramingKept (preparedBy setup).headers writes last := by
  have unsent := unsent_preparedBy setup
  generalize preparedBy setup = s at unsent declared
  cases writes with
  | nil =>
    have kept : FramingKept s.headers [] last ↔
        (∀ bytes, .view bytes ∉ [] ++ last.toList) ∧
          announcesChunked s.headers.toObject = false := by
      simp [FramingKept, and_comm]
    have typed' : ∀ c ∈ last, c ≠ .other := fun c member => typed c (by simpa using member)
    have opened : StreamsContent s [] last ↔
        StreamsContent (if s.headers.has contentLength then s.flushed
          else (s.framedByEnd (contentOf [] last).length).flushed) [] last := by
      simp only [StreamsContent, streamCalls_nil, end_unsent unsent typed']
    rw [opened, kept]
    split
    · exact streamsContent_raw unsent typed declared
    · rw [streamsContent_raw (unsent_framedByEnd unsent) typed]
      · rw [← announcesChunked_wireHeaders, ← announcesChunked_wireHeaders s.headers]
        rw [announcesChunked_congr]
        rw [find_wireHeaders, find_wireHeaders, framedByEnd, Assoc.get_set_ne _ _ (by decide)]
      · intro text found
        simp only [framedByEnd, Headers.get, Assoc.get_set_self, Option.map_some,
          Option.some.injEq] at found
        rw [← found, number_decimal]
  | cons chunk writes =>
    have opened : StreamsContent s (chunk :: writes) last ↔
        StreamsContent (if !s.headers.has contentLength && !s.headers.has transferEncoding then
          s.framedByWrite.flushed else s.flushed) (chunk :: writes) last := by
      simp only [StreamsContent, streamCalls_cons, ← write_unsent unsent]
    rw [opened]
    split
    · rename_i unframed
      simp only [Bool.and_eq_true, Bool.not_eq_true'] at unframed
      rw [streamsContent_chunked unsent typed]
      have silent : announcesChunked s.headers.toObject = false := by
        have missing : s.headers.map.get transferEncoding = none := by
          simpa [Headers.get] using has_eq_false.mp unframed.2
        rw [← announcesChunked_wireHeaders, announcesChunked, find_wireHeaders, missing]
      simp [FramingKept, silent, unframed]
    · rename_i framed
      rw [streamsContent_raw unsent typed declared, FramingKept, and_comm]
      refine and_congr_right fun _ => forall_congr' fun bytes => ?_
      refine imp_congr_right fun _ => ⟨False.elim, ?_⟩
      rintro ⟨-, -, length, encoding⟩
      exact framed (by simp [length, encoding])

/-- The hypotheses hold for `res.write('hi'); res.write(''); res.end(new Uint8Array())`. -/
theorem framing_iff_hi :
    StreamsContent (preparedBy []) [.string ['h', 'i'], .string []] (some (.view [])) :=
  (framing_iff [] [.string ['h', 'i'], .string []] (some (.view [])) (by decide)
    (fun text found => by cases found)).mpr
    ⟨by decide, fun bytes member => by
      have empty : bytes = [] := by simpa using member
      exact ⟨empty, by simp, rfl, rfl⟩⟩

/-- `res.end(new Uint8Array([104, 105]))` throws: `wsi.write` knows no views. -/
theorem end_view_not_streamed :
    ¬StreamsContent (preparedBy []) [] (some (.view [104, 105])) := by
  intro streams
  exact absurd streams.1 (by decide)

end QjsLws.Http
