import QjsLws.Http.Proofs.ServerResponse
import QjsLws.Serve.HandleRequest

/-!
# What `serve()` answers

`Answers` is the contract of one request: nothing is thrown into the native callback, and once
`respond` has settled there is one response, ended, or no connection. An exchange is `Fine` if it
is bound to end so; going on neither makes an exchange fine nor spoils one (`resume_spec`).
-/

namespace QjsLws.Serve

open QjsLws.App QjsLws.Http QjsLws.Misc

/-! ## The contract -/

/-- One response, ended. -/
structure Answered (resp : ServerResponse) : Prop where
  ended : resp.ended = true
  once : (resp.log.filter (·.isRespond)).length = 1

/-- A response of status 500 with the content type of the error and the framing that
`ServerResponse` adds itself, and no other header. -/
structure ErrorAnswer (resp : ServerResponse) : Prop where
  framed : resp.chunked = true
  sent : ∃ headers, .respond 500 none headers ∈ resp.log ∧
    ∀ e ∈ headers, e = (contentType, .single "text/plain".toList) ∨
      e = (transferEncoding, .single "chunked".toList)

/-- The handler, or the response it gave, fails before any header is sent. -/
def FailsUnsent : Settled → Prop
  | .error _ => True
  | .ok value =>
    match value.toResponse with
    | .error _ => True
    | .ok reply => ∃ e, reply.body = some ⟨[], some e⟩

/-- `serve()` answers a request, in whatever order things happen. -/
def Answers (env : Env) (table : List Route) (fetchHandler : Handler) (req : ServerRequest) :
    Prop :=
  ∃ x settled, handleRequest table fetchHandler req = .ok x ∧ x.task = .awaiting settled ∧
    ∀ events, (runFrom (Exchange.step env) x events).task.isSettled = true →
      (runFrom (Exchange.step env) x events).closed = true ∨
        Answered (runFrom (Exchange.step env) x events).resp ∧
          (FailsUnsent settled → ErrorAnswer (runFrom (Exchange.step env) x events).resp)

/-! ## When it is kept -/

/-- A handler is called, and returns. -/
def Handled (table : List Route) (fetchHandler : Handler) (req : ServerRequest)
    (settled : Settled) : Prop :=
  match matchRoute req.path req.method table with
  | none => False
  | some (some (.allow names)) =>
    ∃ reply, newReply .none (some 405) (.ok (allowHeaders (join ", ".toList names))) .empty
      = .ok reply ∧ settled = .ok (.response reply)
  | some (some (.handler params h)) => req.peerThrows = none ∧
    ∃ call, h = .function call ∧ call ⟨req.method, req.path, some params⟩ = .returns settled
  | some none => req.peerThrows = none ∧
    ∃ call, fetchHandler = .function call ∧ call ⟨req.method, req.path, none⟩ = .returns settled

/-- `ServerResponse.write` accepts the chunk, in chunked framing or without. -/
def Writable (chunked : Bool) : Option Chunk → Prop
  | none | some (.string _) | some (.arrayBuffer _) => True
  | some (.view bytes) => bytes = [] ∧ chunked = true
  | some .other => False

/-- The response declares no framing of its own. -/
def unframed (h : Headers) : Bool := !h.has contentLength && !h.has transferEncoding

/-- No header but a blank `content-type` would reach the wire. -/
def Unmarked (h : Headers) : Prop :=
  ∀ e ∈ h.toObject, e.1 = contentType ∧ ∃ value, e.2 = .single value ∧
    strip isHttpWhitespace value = []

/-- The response can be sent to its end. -/
def Reply.Completes (env : Env) (reply : Reply) : Prop :=
  match reply.body with
  | none => True
  | some ⟨chunks, none⟩ => ∀ chunk ∈ chunks, Writable (unframed reply.headers.1) chunk
  | some ⟨chunks, some e⟩ => chunks = [] ∧ e.text env.stack ≠ none ∧ Unmarked reply.headers.1

/-- The outcome of the handler leads to a response. -/
def Completes (env : Env) : Settled → Prop
  | .error e => e.text env.stack ≠ none
  | .ok value =>
    match value.toResponse with
    | .error e => e.text env.stack ≠ none
    | .ok reply => reply.Completes env

/-! ## Copied headers -/

section Copy

/-- The value that `append` stores. -/
def stored : HeaderValue → HeaderValue
  | .single value => .single (strip isHttpWhitespace value)
  | .list values => .list (values.map (strip isHttpWhitespace))

variable {s : ServerResponse} {name : Text}

/-- What `append` leaves under the name. -/
def appendTo (name value : Text) (held : Option HeaderValue) : HeaderValue :=
  if name = setCookie then
    .list (match held with
      | some (.list cur) => cur ++ [value]
      | some (.single cur) => [cur, value]
      | none => [value])
  else
    .single (match held with
      | some (.single []) | none => value
      | some (.single old) => old ++ ", ".toList ++ value
      | some (.list old) => join [','] old ++ ", ".toList ++ value)

theorem append_storable {value : Text} (unsent : s.headersSent = false)
    (normal : normalizeName name = .ok name) (storable : Storable value) :
    s.append name value = .done { s with
      headers := ⟨s.headers.map.set name
        (appendTo name (strip isHttpWhitespace value) (s.headers.map.get name))⟩,
      log := s.log ++ [.headersChanged] } := by
  have appended : s.headers.append name value = .ok ⟨s.headers.map.set name
      (appendTo name (strip isHttpWhitespace value) (s.headers.map.get name))⟩ := by
    rw [Headers.append, normal, normalizeValue_of_storable storable]
    by_cases cookie : name = setCookie
    · rw [appendTo.eq_def, if_pos cookie]
      exact if_pos cookie
    · rw [appendTo.eq_def, if_neg cookie]
      exact if_neg cookie
  simp [ServerResponse.append, ServerResponse.assertOpen, unsent, ServerResponse.changeHeaders,
    appended]

theorem appendAll_append (first second : List (Text × Text)) :
    ∀ s, appendAll (first ++ second) s = (appendAll first s).andThen (appendAll second) := by
  induction first with
  | nil => intro s; rfl
  | cons pair first ih =>
    intro s
    rw [List.cons_append, appendAll, appendAll]
    rcases s.append pair.1 pair.2 with ⟨t, _ | e⟩
    · exact ih t
    · rfl

/-- Further values of `set-cookie`. -/
theorem appendAll_cookies (values : List Text) (storable : ∀ value ∈ values, Storable value) :
    ∀ (s : ServerResponse) (cur : List Text), s.headersSent = false →
      s.headers.map.get setCookie = some (.list cur) →
      ∃ log headers, appendAll (values.map (setCookie, ·)) s = .done { s with headers, log } ∧
        headers.map.entries = Assoc.put setCookie
          (.list (cur ++ values.map (strip isHttpWhitespace))) s.headers.map.entries := by
  induction values with
  | nil =>
    intro s cur _ held
    refine ⟨s.log, s.headers, rfl, ?_⟩
    rw [List.map_nil, List.append_nil, Assoc.put_self held]
  | cons value values ih =>
    intro s cur unsent held
    obtain ⟨first, later⟩ := List.forall_mem_cons.mp storable
    have appended := @append_storable s setCookie value unsent (by rfl) first
    rw [held, appendTo, if_pos rfl] at appended
    obtain ⟨log, headers, rest, entries⟩ := ih later
      { s with
        headers := ⟨s.headers.map.set setCookie (.list (cur ++ [strip isHttpWhitespace value]))⟩
        log := s.log ++ [.headersChanged] } _ unsent (Assoc.get_set_self _ _ _)
    refine ⟨log, headers, ?_, ?_⟩
    · rw [List.map_cons, appendAll, appended, Outcome.done_andThen]
      exact rest
    · simp only [entries, Assoc.set, Assoc.put_put, List.append_assoc, List.singleton_append,
        List.map_cons]

/-- The pairs of one header. -/
def pairsOf (e : Text × HeaderValue) : List (Text × Text) :=
  match e.2 with
  | .single value => [(e.1, value)]
  | .list values => values.map (e.1, ·)

/-- The copy of one header that the response has not got yet. -/
theorem appendAll_entry {value : HeaderValue} (unsent : s.headersSent = false)
    (normal : normalizeName name = .ok name) (valid : value.Valid name)
    (absent : s.headers.map.get name = none) :
    ∃ log headers, appendAll (pairsOf (name, value)) s = .done { s with headers, log } ∧
      headers.map.entries = s.headers.map.entries ++ [(name, stored value)] := by
  cases value with
  | single value =>
    have appended := append_storable unsent normal valid.2
    rw [absent, appendTo, if_neg valid.1] at appended
    refine ⟨s.log ++ [.headersChanged], ⟨s.headers.map.set name (.single (strip isHttpWhitespace value))⟩, ?_,
      Assoc.put_of_absent absent⟩
    simp only [pairsOf, appendAll, appended, Outcome.done_andThen]
  | list values =>
    obtain ⟨rfl, nonempty, storable⟩ := valid
    obtain ⟨value, values, rfl⟩ := List.exists_cons_of_ne_nil nonempty
    obtain ⟨first, later⟩ := List.forall_mem_cons.mp storable
    have appended := append_storable unsent normal first
    rw [absent, appendTo, if_pos rfl] at appended
    obtain ⟨log, headers, rest, entries⟩ := appendAll_cookies values later
      { s with
        headers := ⟨s.headers.map.set setCookie (.list [strip isHttpWhitespace value])⟩
        log := s.log ++ [.headersChanged] } _ unsent (Assoc.get_set_self _ _ _)
    refine ⟨log, headers, ?_, ?_⟩
    · simp only [pairsOf, List.map_cons, appendAll, appended, Outcome.done_andThen]
      exact rest
    · simp only [entries, Assoc.set, Assoc.put_put, stored, List.map_cons, List.singleton_append]
      exact Assoc.put_of_absent absent

/-- The copies of headers that the response has not got yet. -/
theorem appendAll_entries (entries : List (Text × HeaderValue)) (valid : ∀ e ∈ entries,
      normalizeName e.1 = .ok e.1 ∧ e.2.Valid e.1) (nodup : (entries.map Prod.fst).Nodup) :
    ∀ s : ServerResponse, s.headersSent = false →
      (∀ e ∈ entries, s.headers.map.get e.1 = none) →
      ∃ log headers, appendAll (entries.flatMap pairsOf) s = .done { s with headers, log } ∧
        headers.map.entries = s.headers.map.entries ++ entries.map fun e => (e.1, stored e.2) := by
  induction entries with
  | nil =>
    intro s _ _
    exact ⟨s.log, s.headers, rfl, by simp⟩
  | cons e entries ih =>
    intro s unsent absent
    obtain ⟨first, later⟩ := List.forall_mem_cons.mp valid
    obtain ⟨here, beyond⟩ := List.forall_mem_cons.mp absent
    rw [List.map_cons, List.nodup_cons] at nodup
    obtain ⟨log, headers, copied, added⟩ := appendAll_entry unsent first.1 first.2 here
    have absent' : ∀ e' ∈ entries, headers.map.get e'.1 = none := by
      intro e' member
      have other : e.1 ≠ e'.1 := by
        intro same
        exact nodup.1 (List.mem_map.mpr ⟨e', member, same.symm⟩)
      rw [Assoc.get, added, Assoc.find_append, ← Assoc.get, beyond e' member]
      simp [Assoc.find, other]
    obtain ⟨log', headers', rest, all⟩ := ih later nodup.2 { s with headers, log } unsent absent'
    refine ⟨log', headers', ?_, ?_⟩
    · rw [List.flatMap_cons, appendAll_append, copied, Outcome.done_andThen, rest]
    · rw [all, added, List.append_assoc]
      rfl

/-- `flush` copies the status and the headers. -/
theorem flushHead_fresh (reply : Reply) :
    ∃ log headers, flushHead reply .fresh = .done { ServerResponse.fresh with
        status := reply.statusCode, headers, log } ∧
      headers.map.entries = reply.headers.1.map.entries.map fun e => (e.1, stored e.2) := by
  obtain ⟨log, headers, copied, all⟩ := appendAll_entries reply.headers.1.map.entries
    reply.headers.2 reply.headers.1.map.nodup
    { ServerResponse.fresh with status := reply.statusCode } rfl (fun _ _ => rfl)
  exact ⟨log, headers, copied, all⟩

variable {h h' : Headers}

theorem has_copied (copied : h'.map.entries = h.map.entries.map fun e => (e.1, stored e.2))
    (name : Text) : h'.has name = h.has name := by
  rw [Headers.has, Assoc.has, Assoc.get, copied, Assoc.find_map, Option.isSome_map]
  rfl

theorem unframed_copied (copied : h'.map.entries = h.map.entries.map fun e => (e.1, stored e.2)) :
    unframed h' = unframed h := by
  rw [unframed, unframed, has_copied copied, has_copied copied]

/-- Nothing to send but an empty `content-type`. -/
def Blank (h : Headers) : Prop := ∀ e ∈ h.toObject, e = (contentType, .single [])

theorem blank_copied (copied : h'.map.entries = h.map.entries.map fun e => (e.1, stored e.2)) :
    Blank h' ↔ Unmarked h := by
  have sent : h'.toObject = h.toObject.map fun e => (e.1, stored e.2) := by
    rw [Headers.toObject, Headers.toObject, copied, List.filter_map]
    rfl
  rw [Blank, Unmarked, sent, List.forall_mem_map]
  refine forall₂_congr fun e _ => ?_
  rw [Prod.mk.injEq]
  refine and_congr_right fun _ => ?_
  cases e.2 with
  | single value => simp [stored]
  | list values => simp [stored]

end Copy

/-! ## Calls on an open connection -/

section Open

variable {E : Env} {x : Exchange} {s t : ServerResponse}

/-- Some writes, and nothing else. -/
structure Wrote (s t : ServerResponse) : Prop where
  ended : t.ended = s.ended
  headersSent : t.headersSent = s.headersSent
  chunked : t.chunked = s.chunked
  log : ∃ more, t.log = s.log ++ more ∧ ∀ e ∈ more, e.isRespond = false

theorem Wrote.refl (s : ServerResponse) : Wrote s s := ⟨rfl, rfl, rfl, [], by simp, by simp⟩

theorem Wrote.trans {u : ServerResponse} (first : Wrote s t) (second : Wrote t u) : Wrote s u := by
  obtain ⟨more, log, plain⟩ := first.log
  obtain ⟨more', log', plain'⟩ := second.log
  refine ⟨second.ended.trans first.ended, second.headersSent.trans first.headersSent,
    second.chunked.trans first.chunked, more ++ more', ?_, ?_⟩
  · rw [log', log, List.append_assoc]
  · intro e member
    exact (List.mem_append.mp member).elim (plain e) (plain' e)

theorem Wrote.errorAnswer (wrote : Wrote s t) : ErrorAnswer t ↔ ErrorAnswer s := by
  obtain ⟨more, log, plain⟩ := wrote.log
  have same : ∀ headers, .respond 500 none headers ∈ t.log ↔
      .respond 500 none headers ∈ s.log := by
    intro headers
    rw [log, List.mem_append]
    refine or_iff_left fun member => ?_
    cases plain _ member
  constructor
  · rintro ⟨framed, headers, sent, only⟩
    exact ⟨wrote.chunked ▸ framed, headers, (same headers).mp sent, only⟩
  · rintro ⟨framed, headers, sent, only⟩
    exact ⟨wrote.chunked ▸ framed, headers, (same headers).mpr sent, only⟩

/-- A call that either returns or throws, with some writes made. -/
def WritesIf (accepted : Prop) (s : ServerResponse) (o : ResponseOutcome) : Prop :=
  Wrote s o.state ∧ (o.thrown = none ↔ accepted)

theorem WritesIf.andThen {p q : Prop} {o : ResponseOutcome}
    {f : ServerResponse → ResponseOutcome} (first : WritesIf p s o)
    (next : ∀ t, WritesIf q t (f t)) : WritesIf (p ∧ q) s (o.andThen f) := by
  rcases o with ⟨t, _ | e⟩
  · obtain ⟨wrote, returns⟩ := next t
    refine ⟨first.1.trans wrote, ?_⟩
    rw [and_iff_right (first.2.mp rfl)]
    exact returns
  · refine ⟨first.1, ?_⟩
    have refused : ¬p := fun accepted => by cases first.2.mpr accepted
    simp [Outcome.andThen, refused]

variable (isOpen : x.closed = false)
include isOpen

theorem writesIf_wsiWrite (chunk : Chunk) (proto : Socket.WriteProtocol) (s : ServerResponse) :
    WritesIf (chunk.writeData ≠ .other) s (s.wsiWrite (x.wsi E) chunk proto) := by
  have attached : (x.wsi E).attached s.calls = true := by simp [Exchange.wsi, isOpen]
  rcases ServerResponse.wsiWrite_cases (x.wsi E) chunk proto s with ⟨e, threw⟩ | ⟨-, data, done⟩
  · have refused : chunk.writeData = .other := by
      cases chunk with
      | string text => simp [ServerResponse.wsiWrite, attached, Chunk.writeData, Outcome.threw,
          Outcome.done] at threw
      | arrayBuffer bytes => simp [ServerResponse.wsiWrite, attached, Chunk.writeData,
          Outcome.threw, Outcome.done] at threw
      | view bytes => rfl
      | other => rfl
    rw [threw]
    exact ⟨⟨rfl, rfl, rfl, [], by simp, by simp⟩, by simp [refused]⟩
  · rw [done]
    refine ⟨⟨rfl, rfl, rfl, _, rfl, ?_⟩, by simp [data]⟩
    simp [ResponseEvent.isRespond]

theorem writesIf_writeChunk (chunk : Chunk) (s : ServerResponse) :
    WritesIf (Writable true (some chunk)) s (s.writeChunk (x.wsi E) chunk) := by
  cases measured : chunkByteLength chunk with
  | none =>
    cases chunk with
    | other =>
      rw [ServerResponse.writeChunk, measured]
      exact ⟨.refl s, by simp [Writable, Outcome.threw]⟩
    | _ => cases measured
  | some len =>
    cases len with
    | zero =>
      rw [ServerResponse.writeChunk, measured]
      refine ⟨.refl s, iff_of_true rfl ?_⟩
      cases chunk with
      | view bytes => exact ⟨List.length_eq_zero_iff.mp (Option.some.inj measured), rfl⟩
      | other => cases measured
      | _ => trivial
    | succ len =>
      rw [ServerResponse.writeChunk, measured]
      have all := (writesIf_wsiWrite isOpen (E := E) (.string (sizeLine (len + 1))) .http
        s).andThen fun s => (writesIf_wsiWrite isOpen (E := E) chunk .http s).andThen
          fun s => writesIf_wsiWrite isOpen (E := E) (.string crlf) .http s
      refine ⟨all.1, all.2.trans ?_⟩
      cases chunk with
      | string text => simp [Chunk.writeData, Writable]
      | arrayBuffer bytes => simp [Chunk.writeData, Writable]
      | view bytes =>
        have filled : bytes ≠ [] := by
          rintro rfl
          cases measured
        simp [Chunk.writeData, Writable, filled]
      | other => cases measured

/-- The body part of `write`. -/
theorem writesIf_chunk (chunk : Chunk) (s : ServerResponse) :
    WritesIf (Writable s.chunked (some chunk)) s
      (if s.chunked then s.writeChunk (x.wsi E) chunk
        else s.wsiWrite (x.wsi E) chunk .http) := by
  cases framed : s.chunked with
  | true => exact writesIf_writeChunk isOpen chunk s
  | false =>
    obtain ⟨wrote, returns⟩ := writesIf_wsiWrite isOpen (E := E) chunk .http s
    refine ⟨wrote, returns.trans ?_⟩
    cases chunk <;> simp [Chunk.writeData, Writable]

theorem writesIf_writeFinal (s : ServerResponse) :
    WritesIf True s (s.writeFinal (x.wsi E) none) := by
  unfold ServerResponse.writeFinal
  split
  · rw [Outcome.done_andThen]
    obtain ⟨wrote, returns⟩ :=
      writesIf_wsiWrite isOpen (E := E) (.string lastChunk) .httpFinal s
    exact ⟨wrote, returns.trans (by simp [Chunk.writeData])⟩
  · obtain ⟨wrote, returns⟩ := writesIf_wsiWrite isOpen (E := E) (.string []) .httpFinal s
    exact ⟨wrote, returns.trans (by simp [Chunk.writeData])⟩

omit isOpen in
/-- Whether the headers are out or will be accepted. -/
def Accepts (E : Env) (s : ServerResponse) : Prop :=
  s.headersSent = true ∨ E.respondThrows = none

/-- The headers go out, once. -/
theorem flushHeaders_open (s : ServerResponse) :
    (s.flushHeaders (x.wsi E)).state.headersSent = true ∧
      (s.flushHeaders (x.wsi E)).state.ended = s.ended ∧
      (s.flushHeaders (x.wsi E)).state.chunked = s.chunked ∧
      ((s.flushHeaders (x.wsi E)).thrown = none ↔ Accepts E s) ∧
      (s.headersSent = true → (s.flushHeaders (x.wsi E)).state = s) ∧
      (s.headersSent = false → (s.flushHeaders (x.wsi E)).state.log = s.log ++
        [.respond s.status ((s.headers.get contentLength).map number)
          (if (s.headers.get contentLength).isSome then
            s.headers.toObject.filter (·.1 ≠ contentLength) else s.headers.toObject)]) := by
  have attached : ∀ i, (x.wsi E).attached i = true := by simp [Exchange.wsi, isOpen]
  have throws : ∀ i, (x.wsi E).respondThrows i = E.respondThrows := fun _ => rfl
  cases sent : s.headersSent with
  | true => simp [ServerResponse.flushHeaders, sent, Accepts]
  | false =>
    cases refused : E.respondThrows with
    | none => simp [ServerResponse.flushHeaders, ServerResponse.wsiRespond, sent, attached, throws,
        refused, Accepts]
    | some e => simp [ServerResponse.flushHeaders, ServerResponse.wsiRespond, sent, attached,
        throws, refused, Accepts]

omit isOpen

/-- The framing that body chunks get. -/
def framing (s : ServerResponse) : Bool := if s.headersSent then s.chunked else unframed s.headers

/-- Headers that make the error's own response. -/
structure ErrorHeaders (s : ServerResponse) : Prop where
  status : s.status = 500
  unframed : unframed s.headers = true
  only : ∀ e ∈ s.headers.toObject, e = (contentType, .single "text/plain".toList)

/-- The response is the error's own, or will be once its headers are out. -/
def ErrorBound (s : ServerResponse) : Prop :=
  if s.headersSent then ErrorAnswer s else ErrorHeaders s

theorem errorAnswer_flushed {log : List ResponseEvent} {status : Int}
    {length : Option (Option Nat)} {object : List (Text × HeaderValue)}
    (flushed : t.log = log ++ [.respond status length object])
    (before : ∀ e ∈ log, e = .headersChanged) :
    ErrorAnswer t ↔ t.chunked = true ∧ status = 500 ∧ length = none ∧
      ∀ e ∈ object, e = (contentType, .single "text/plain".toList) ∨
        e = (transferEncoding, .single "chunked".toList) := by
  constructor
  · rintro ⟨framed, headers, sent, only⟩
    rw [flushed, List.mem_append, List.mem_singleton] at sent
    rcases sent with early | last
    · cases before _ early
    · cases last
      exact ⟨framed, rfl, rfl, only⟩
  · rintro ⟨framed, rfl, rfl, only⟩
    refine ⟨framed, object, ?_, only⟩
    rw [flushed]
    exact List.mem_append_right _ List.mem_cons_self

/-- The headers with the framing that `write` adds. -/
theorem toObject_framed {h : Headers} (absent : h.has transferEncoding = false) :
    Headers.toObject ⟨h.map.set transferEncoding (.single "chunked".toList)⟩
      = h.toObject ++ [(transferEncoding, .single "chunked".toList)] := by
  have added : (h.map.set transferEncoding (.single "chunked".toList)).entries
      = h.map.entries ++ [(transferEncoding, .single "chunked".toList)] :=
    Assoc.put_of_absent (Headers.has_eq_false.mp absent)
  rw [Headers.toObject, added, List.filter_append]
  rfl

theorem set_chunked (h : Headers) : h.set transferEncoding "chunked".toList
    = .ok ⟨h.map.set transferEncoding (.single "chunked".toList)⟩ := rfl

/-- The first part of `write`. -/
theorem framed_open (plain : s.headersSent = false → s.chunked = false) :
    ∃ t, (if !s.headersSent && !s.headers.has contentLength && !s.headers.has transferEncoding then
        ServerResponse.changeHeaders (·.set transferEncoding "chunked".toList)
          { s with chunked := true }
      else .done s : ResponseOutcome) = .done t ∧
      t.headersSent = s.headersSent ∧ t.ended = s.ended ∧ t.chunked = framing s ∧
      (s.headersSent = true → t = s) ∧
      (s.headersSent = false → t.status = s.status ∧
        ((∀ e ∈ s.log, e = .headersChanged) → ∀ e ∈ t.log, e = .headersChanged) ∧
        (unframed s.headers = true →
          t.headers = ⟨s.headers.map.set transferEncoding (.single "chunked".toList)⟩)) := by
  rw [Bool.and_assoc, ← unframed]
  cases sent : s.headersSent with
  | true => exact ⟨s, rfl, sent, rfl, by simp [framing, sent], fun _ => rfl, by simp⟩
  | false =>
    cases free : unframed s.headers with
    | false =>
      refine ⟨s, by simp, sent, rfl, ?_, fun _ => rfl, fun _ => ⟨rfl, fun all => all, ?_⟩⟩
      · simp [framing, sent, free, plain sent]
      · simp
    | true =>
      refine ⟨{ s with
        chunked := true
        headers := ⟨s.headers.map.set transferEncoding (.single "chunked".toList)⟩
        log := s.log ++ [.headersChanged] }, ?_, sent, rfl, ?_, by simp, fun _ => ⟨rfl, ?_, ?_⟩⟩
      · rw [if_pos (by rfl), ServerResponse.changeHeaders]
        simp only [set_chunked, sent]
      · simp [framing, sent, free]
      · intro all e member
        rcases List.mem_append.mp member with old | new
        · exact all e old
        · exact List.mem_singleton.mp new
      · exact fun _ => rfl

/-- The headers that `write` sends are the error's own exactly if they were before its framing. -/
theorem errorHeaders_framed (added : unframed s.headers = true →
      t.headers = ⟨s.headers.map.set transferEncoding (.single "chunked".toList)⟩) :
    (unframed s.headers = true ∧ s.status = 500 ∧
        (t.headers.get contentLength).map number = none ∧
        ∀ e ∈ (if (t.headers.get contentLength).isSome then
            t.headers.toObject.filter (·.1 ≠ contentLength) else t.headers.toObject),
          e = (contentType, .single "text/plain".toList) ∨
            e = (transferEncoding, .single "chunked".toList)) ↔
      ErrorHeaders s := by
  cases free : unframed s.headers with
  | false =>
    refine iff_of_false (by simp) fun errors => ?_
    rw [errors.unframed] at free
    cases free
  | true =>
    have absent : s.headers.has contentLength = false ∧
        s.headers.has transferEncoding = false := by simpa [unframed] using free
    have noLength : t.headers.get contentLength = none := by
      rw [added free, Headers.get, Assoc.get_set_ne _ _ (by decide),
        Headers.has_eq_false.mp absent.1, Option.map_none]
    rw [noLength, added free, toObject_framed absent.2]
    constructor
    · rintro ⟨-, status, -, only⟩
      refine ⟨status, free, fun e member => ?_⟩
      rcases only e (List.mem_append_left _ member) with typed | framed
      · exact typed
      · rw [framed] at member
        have held := Assoc.find_of_mem s.headers.map.nodup (List.mem_of_mem_filter member)
        rw [← Assoc.get, Headers.has_eq_false.mp absent.2] at held
        cases held
    · rintro ⟨status, -, only⟩
      refine ⟨rfl, status, rfl, fun e member => ?_⟩
      rcases List.mem_append.mp member with old | new
      · exact .inl (only e old)
      · exact .inr (List.mem_singleton.mp new)

include isOpen in
/-- What a `write` of `flush` does. -/
theorem write_open (inv : ResponseInv s) (isUnended : s.ended = false)
    (plain : s.headersSent = false → s.chunked = false) (chunk : Option Chunk) :
    (s.write (x.wsi E) chunk).state.headersSent = true ∧
      (s.write (x.wsi E) chunk).state.ended = false ∧
      (s.write (x.wsi E) chunk).state.chunked = framing s ∧
      ((s.write (x.wsi E) chunk).thrown = none ↔
        Accepts E s ∧ Writable (framing s) chunk) ∧
      (ErrorAnswer (s.write (x.wsi E) chunk).state ↔ ErrorBound s) := by
  obtain ⟨t, framed, sent, ended, chunked, same, fresh⟩ := framed_open plain
  obtain ⟨out, ended', chunked', returns, kept, flushed⟩ := flushHeaders_open isOpen (E := E) t
  have accepts : Accepts E t ↔ Accepts E s := by rw [Accepts, Accepts, sent]
  have bound : ErrorAnswer (t.flushHeaders (x.wsi E)).state ↔ ErrorBound s := by
    cases wasSent : s.headersSent with
    | true =>
      rw [kept (sent.trans wasSent), same wasSent, ErrorBound, if_pos wasSent]
    | false =>
      obtain ⟨status, changes, added⟩ := fresh wasSent
      rw [errorAnswer_flushed (flushed (sent.trans wasSent)) (changes (inv.unsent wasSent)),
        chunked', chunked, framing, wasSent, status, ErrorBound, wasSent]
      simp only [Bool.false_eq_true, if_false]
      exact errorHeaders_framed added
  unfold ServerResponse.write
  rw [framed, Outcome.done_andThen]
  generalize t.flushHeaders (x.wsi E) = o at *
  rcases o with ⟨u, _ | e⟩
  · cases chunk with
    | none =>
      refine ⟨out, ended'.trans (ended.trans isUnended), chunked'.trans chunked, ?_, bound⟩
      exact returns.trans (accepts.trans (by simp [Writable]))
    | some chunk =>
      obtain ⟨wrote, written⟩ := writesIf_chunk isOpen (E := E) chunk u
      refine ⟨wrote.headersSent.trans out, wrote.ended.trans (ended'.trans (ended.trans isUnended)),
        wrote.chunked.trans (chunked'.trans chunked), ?_, wrote.errorAnswer.trans bound⟩
      have accepted := accepts.mp (returns.mp rfl)
      rw [and_iff_right accepted, ← chunked, ← chunked']
      exact written
  · refine ⟨out, ended'.trans (ended.trans isUnended), chunked'.trans chunked, ?_, bound⟩
    have refused : ¬Accepts E s := fun accepted => by cases returns.mpr (accepts.mpr accepted)
    simp [Outcome.andThen, refused]

include isOpen in
/-- What the `end` of `flush` does. -/
theorem end_open (isUnended : s.ended = false) :
    (s.end (x.wsi E) none).state.headersSent = true ∧
      ((s.end (x.wsi E) none).thrown = none ↔ Accepts E s) ∧
      ((s.end (x.wsi E) none).state.ended = true ↔ Accepts E s) ∧
      (s.headersSent = true → (ErrorAnswer (s.end (x.wsi E) none).state ↔ ErrorAnswer s)) := by
  obtain ⟨t, framed, sent, ended, same⟩ : ∃ t, (if !s.headersSent && !s.headers.has contentLength
        then ServerResponse.changeHeaders (·.set contentLength (ServerResponse.lengthText none)) s
        else .done s : ResponseOutcome) = .done t ∧
      t.headersSent = s.headersSent ∧ t.ended = s.ended ∧ (s.headersSent = true → t = s) := by
    split
    · rename_i bare
      obtain ⟨unsent, -⟩ : s.headersSent = false ∧ s.headers.has contentLength = false := by
        simpa using bare
      exact ⟨_, rfl, rfl, rfl, by simp [unsent]⟩
    · exact ⟨s, rfl, rfl, rfl, fun _ => rfl⟩
  obtain ⟨out, ended', -, returns, kept, -⟩ := flushHeaders_open isOpen (E := E) t
  have accepts : Accepts E t ↔ Accepts E s := by rw [Accepts, Accepts, sent]
  unfold ServerResponse.end
  rw [if_neg (by simp [isUnended]), framed, Outcome.done_andThen]
  have unchanged : s.headersSent = true → (t.flushHeaders (x.wsi E)).state = s := fun was =>
    (kept (sent.trans was)).trans (same was)
  generalize t.flushHeaders (x.wsi E) = o at *
  rcases o with ⟨u, _ | e⟩
  · have accepted := accepts.mp (returns.mp rfl)
    obtain ⟨wrote, written⟩ := writesIf_writeFinal isOpen (E := E) u
    simp only [Outcome.andThen]
    generalize u.writeFinal (x.wsi E) none = o at *
    rcases o with ⟨v, _ | e⟩
    · refine ⟨wrote.headersSent.trans out, iff_of_true rfl accepted, iff_of_true rfl accepted, ?_⟩
      intro was
      have last : ErrorAnswer v ↔ ErrorAnswer u := wrote.errorAnswer
      rw [← unchanged was, ← last]
      exact ⟨fun answer => ⟨answer.framed, answer.sent⟩, fun answer => ⟨answer.framed, answer.sent⟩⟩
    · cases written.mpr trivial
  · have refused : ¬Accepts E s := fun accepted => by cases returns.mpr (accepts.mpr accepted)
    refine ⟨out, by simp [Outcome.andThen, refused], ?_, ?_⟩
    · simp only [refused, iff_false]
      exact (ended'.trans (ended.trans isUnended)) ▸ Bool.false_ne_true
    · intro was
      exact absurd (.inl was) refused

end Open

/-! ## The error's own response -/

section ErrorReply

variable {s : ServerResponse} {text : Text}

theorem mem_toObject {h : Headers} {e : Text × HeaderValue} :
    e ∈ h.toObject ↔ e.1 ≠ "__proto__".toList ∧ h.map.get e.1 = some e.2 := by
  rw [Headers.toObject, List.mem_filter, decide_eq_true_eq, and_comm]
  exact and_congr_right fun _ =>
    ⟨fun member => Assoc.find_of_mem h.map.nodup member, fun held => Assoc.mem_of_find held⟩

theorem flushHead_error (unsent : s.headersSent = false) :
    flushHead (errorReply text) s = .done { s with
      status := 500
      headers := ⟨s.headers.map.set contentType
        (appendTo contentType "text/plain".toList (s.headers.map.get contentType))⟩
      log := s.log ++ [.headersChanged] } := by
  have pairs : headerPairs (errorReply text).headers.1 = [(contentType, "text/plain".toList)] := rfl
  have appended := @append_storable { s with status := 500 } contentType "text/plain".toList unsent
    rfl (forall_mem_of_all (P := fun c => isForbiddenInValue c = false) (by decide))
  rw [flushHead, pairs, ServerResponse.setStatus, Outcome.done_andThen, appendAll, errorReply,
    appended, Outcome.done_andThen]
  rfl

theorem appendTo_textPlain {held : Option HeaderValue} :
    appendTo contentType "text/plain".toList held = .single "text/plain".toList ↔
      ∀ value, held = some value → value = .single [] := by
  unfold appendTo
  rw [if_neg (by decide), HeaderValue.single.injEq]
  cases held with
  | none => simp
  | some value =>
    have longer : ∀ old : Text, old ++ ", ".toList ++ "text/plain".toList ≠ "text/plain".toList := by
      intro old same
      have length := congrArg List.length same
      simp at length
    cases value with
    | single old =>
      cases old with
      | nil => simp
      | cons c rest => simpa using longer (c :: rest)
    | list old => simpa using longer (join [','] old)

/-- The error's response is its own exactly if nothing of another one had been set. -/
theorem errorHeaders_iff_blank {log : List ResponseEvent} :
    ErrorHeaders { s with
        status := 500
        headers := ⟨s.headers.map.set contentType
          (appendTo contentType "text/plain".toList (s.headers.map.get contentType))⟩
        log } ↔ Blank s.headers := by
  constructor
  · rintro ⟨-, -, only⟩ ⟨name, value⟩ member
    obtain ⟨sent, held⟩ := mem_toObject.mp member
    by_cases typed : contentType = name
    · subst typed
      have own := only (contentType, appendTo contentType "text/plain".toList
        (s.headers.map.get contentType)) (mem_toObject.mpr ⟨sent, Assoc.get_set_self _ _ _⟩)
      rw [Prod.mk.injEq] at own
      rw [appendTo_textPlain.mp own.2 value held]
    · have own := only (name, value)
        (mem_toObject.mpr ⟨sent, (Assoc.get_set_ne _ _ typed).trans held⟩)
      rw [Prod.mk.injEq] at own
      exact absurd own.1.symm typed
  · intro blank
    have held : ∀ name value, name ≠ "__proto__".toList → s.headers.map.get name = some value →
        name = contentType ∧ value = .single [] := by
      intro name value sent found
      simpa using blank (name, value) (mem_toObject.mpr ⟨sent, found⟩)
    have lacks : ∀ name, name ≠ "__proto__".toList → contentType ≠ name →
        Headers.has ⟨s.headers.map.set contentType (appendTo contentType "text/plain".toList
          (s.headers.map.get contentType))⟩ name = false := by
      intro name sent other
      rw [Headers.has_eq_false, Assoc.get_set_ne _ _ other]
      cases found : s.headers.map.get name with
      | none => rfl
      | some value => exact absurd (held name value sent found).1.symm other
    refine ⟨rfl, ?_, ?_⟩
    · rw [unframed, lacks _ (by decide) (by decide), lacks _ (by decide) (by decide)]
      rfl
    · rintro ⟨name, value⟩ member
      obtain ⟨sent, found⟩ := mem_toObject.mp member
      by_cases typed : contentType = name
      · subst typed
        rw [Assoc.get_set_self] at found
        have own : appendTo contentType "text/plain".toList (s.headers.map.get contentType)
            = value := Option.some.inj found
        rw [← own, appendTo_textPlain.mpr fun value before => (held _ value (by decide) before).2]
      · rw [Assoc.get_set_ne _ _ typed] at found
        exact absurd (held name value sent found).1.symm typed

theorem errorBound_iff_blank (unsent : s.headersSent = false) {log : List ResponseEvent} :
    ErrorBound { s with
        status := 500
        headers := ⟨s.headers.map.set contentType
          (appendTo contentType "text/plain".toList (s.headers.map.get contentType))⟩
        log } ↔ Blank s.headers := by
  rw [ErrorBound, if_neg (by simp [unsent])]
  exact errorHeaders_iff_blank

end ErrorReply

/-! ## Fine exchanges -/

section Exchanges

variable {E : Env} {early : Prop} {x : Exchange}

/-- What holds of every exchange; `early` says that its handler fails before any header is
sent. -/
structure ExchangeInv (early : Prop) (x : Exchange) : Prop where
  resp : ResponseInv x.resp
  awaiting : ∀ settled, x.task = .awaiting settled → x.resp = .fresh ∧ (early ↔ FailsUnsent settled)
  streaming : ∀ body guarded, x.task = .streaming body guarded → x.resp.ended = false ∧
    (x.resp.headersSent = false → x.resp.chunked = false)
  guarded : ∀ body, x.task = .streaming body true →
    (early ↔ body.chunks = [] ∧ body.error.isSome = true ∧ x.resp.headersSent = false)
  unguarded : ∀ body, x.task = .streaming body false → early ∧ body.error = none ∧
    (body.chunks = [] → x.resp.headersSent = true)
  rejected : x.task = .rejected → x.resp.ended = false

/-- The exchange is bound to end well, unless the connection closes. -/
def Fine (E : Env) (early : Prop) (x : Exchange) : Prop :=
  match x.task with
  | .awaiting settled => E.respondThrows = none ∧ Completes E settled
  | .streaming ⟨chunks, none⟩ guarded => Accepts E x.resp ∧
    (∀ chunk ∈ chunks, Writable (framing x.resp) chunk) ∧ (guarded = false → ErrorBound x.resp)
  | .streaming ⟨chunks, some e⟩ _ => E.respondThrows = none ∧ chunks = [] ∧
    x.resp.headersSent = false ∧ e.text E.stack ≠ none ∧ Blank x.resp.headers
  | .fulfilled => x.resp.ended = true ∧ (early → ErrorAnswer x.resp)
  | .rejected => False

/-- An exchange that goes on as another one would. -/
structure Follows (E : Env) (early : Prop) (fine : Prop) (x : Exchange) : Prop where
  inv : ExchangeInv early x
  iff : Fine E early x ↔ fine

theorem inv_fulfilled (resp : ResponseInv x.resp) (task : x.task = .fulfilled) :
    ExchangeInv early x := by
  refine ⟨resp, ?_, ?_, ?_, ?_, ?_⟩ <;> simp [task]

theorem follows_rejected (resp : ResponseInv x.resp) (unended : x.resp.ended = false)
    {fine : Prop} (spoiled : ¬fine) : Follows E early fine x.reject := by
  refine ⟨⟨resp, ?_, ?_, ?_, ?_, fun _ => unended⟩, iff_of_false id spoiled⟩ <;>
    simp [Exchange.reject]

theorem appendAll_inv (pairs : List (Text × Text)) :
    ∀ s, ResponseInv s → (appendAll pairs s).Sat ResponseInv ResponseInv := by
  induction pairs with
  | nil => intro s inv; exact inv
  | cons pair pairs ih =>
    intro s inv
    exact (ServerResponse.guardedChange_sat inv).andThen ih

theorem flushHead_inv (reply : Reply) {s : ServerResponse} (inv : ResponseInv s) :
    (flushHead reply s).Sat ResponseInv ResponseInv :=
  appendAll_inv _ _ ⟨inv.1, inv.2, inv.3, inv.4, inv.5, inv.6⟩

/-- The `catch` of `respond`. -/
theorem follows_handle (resp : ResponseInv x.resp)
    (unended : x.resp.ended = false) (plain : x.resp.headersSent = false → x.resp.chunked = false)
    (fails : x.resp.headersSent = false → early) (e : Thrown) :
    Follows E early (E.respondThrows = none ∧ x.resp.headersSent = false ∧
      e.text E.stack ≠ none ∧ Blank x.resp.headers) (x.handle E e) := by
  unfold Exchange.handle
  cases sent : x.resp.headersSent with
  | true =>
    rw [if_pos rfl]
    refine ⟨inv_fulfilled resp rfl, ?_⟩
    simp [Fine, unended]
  | false =>
    rw [if_neg (by simp)]
    cases printed : e.text E.stack with
    | none => exact follows_rejected resp unended (by simp)
    | some text =>
      have copied := (flushHead_inv (errorReply text) resp).state
      simp only [Exchange.flush, Exchange.after, flushHead_error sent, Outcome.done_thrown,
        Outcome.done_state] at copied ⊢
      refine ⟨⟨copied, ?_, ?_, ?_, ?_, ?_⟩, ?_⟩
      · intro settled here
        cases here
      · intro body guarded _
        exact ⟨unended, fun _ => plain sent⟩
      · intro body here
        cases here
      · intro body here
        cases here
        exact ⟨fails sent, rfl, by simp⟩
      · intro here
        cases here
      · simp only [Fine, errorReply, streamOf, errorBound_iff_blank sent]
        simp [Accepts, sent, Writable]

/-- The `end` of `flush`. -/
theorem follows_finish (isOpen : x.closed = false) (resp : ResponseInv x.resp)
    (unended : x.resp.ended = false) (begun : early → x.resp.headersSent = true)
    {raise : Thrown → Exchange → Exchange}
    (caught : ∀ e y, ResponseInv y.resp → y.resp.headersSent = true → y.resp.ended = false →
      Follows E early False (raise e y)) :
    Follows E early (Accepts E x.resp ∧ (early → ErrorAnswer x.resp)) (x.finish E raise) := by
  obtain ⟨out, returns, ended, answer⟩ := end_open isOpen (E := E) unended
  have inv : ResponseInv (x.resp.end (x.wsi E) none).state :=
    (ServerResponse.end_sat resp).state
  unfold Exchange.finish Exchange.after
  generalize x.resp.end (x.wsi E) none = o at *
  rcases o with ⟨t, _ | e⟩
  · have accepted := returns.mp rfl
    have isEnded : t.ended = true := ended.mpr accepted
    refine ⟨inv_fulfilled inv rfl, ?_⟩
    simp only [Fine, isEnded, accepted, true_and]
    exact forall_congr' fun isEarly => answer (begun isEarly)
  · have refused : ¬Accepts E x.resp := fun accepted => by cases returns.mpr accepted
    have closed : t.ended = false := by
      rw [← Bool.not_eq_true]
      exact fun isEnded => refused (ended.mp isEnded)
    obtain ⟨kept, spoiled⟩ := caught (.error e) { x with resp := t } inv out closed
    exact ⟨kept, spoiled.trans (by simp [refused])⟩

/-- An exception after the headers, or outside the `try`, leaves the response unended. -/
theorem follows_raise (guarded : Bool) (e : Thrown) (resp : ResponseInv x.resp)
    (sent : x.resp.headersSent = true) (unended : x.resp.ended = false) :
    Follows E early False (x.raise E guarded e) := by
  cases guarded with
  | false => exact follows_rejected resp unended id
  | true =>
    obtain ⟨kept, spoiled⟩ : Follows E early _ _ :=
      follows_handle resp unended (by simp [sent]) (by simp [sent]) e
    exact ⟨kept, spoiled.trans (by simp [sent])⟩

/-- `flush` of the handler's response. -/
theorem follows_flush (isOpen : x.closed = false) (fresh : x.resp = .fresh) (reply : Reply)
    (fails : early ↔ ∃ e, reply.body = some ⟨[], some e⟩) :
    Follows E early (E.respondThrows = none ∧ reply.Completes E)
      (x.flush E reply true (Exchange.handle E)) := by
  obtain ⟨log, headers, head, copied⟩ := flushHead_fresh reply
  have inv := (flushHead_inv reply responseInv_fresh).state
  rw [head, Outcome.done_state] at inv
  simp only [Exchange.flush, Exchange.after, fresh, head, Outcome.done_thrown, Outcome.done_state]
  cases found : reply.body with
  | none =>
    have never : ¬early := by simp [fails, found]
    obtain ⟨kept, fine⟩ : Follows E early _ (Exchange.finish E (Exchange.raise E true) _) :=
      follows_finish (x := { x with resp :=
          { ServerResponse.fresh with status := reply.statusCode, headers, log } })
        isOpen inv rfl (fun isEarly => absurd isEarly never) fun e y => follows_raise true e
    refine ⟨kept, fine.trans ?_⟩
    simp [Accepts, ServerResponse.fresh, never, Reply.Completes, found]
  | some body =>
    obtain ⟨chunks, _ | e⟩ := body
    · have never : ¬early := by simp [fails, found]
      refine ⟨⟨inv, ?_, ?_, ?_, ?_, ?_⟩, ?_⟩
      · intro settled here
        cases here
      · intro body guarded _
        exact ⟨rfl, fun _ => rfl⟩
      · intro body here
        cases here
        simp [never]
      · intro body here
        cases here
      · intro here
        cases here
      · simp [Fine, Accepts, ServerResponse.fresh, framing, unframed_copied copied, Reply.Completes,
          found]
    · refine ⟨⟨inv, ?_, ?_, ?_, ?_, ?_⟩, ?_⟩
      · intro settled here
        cases here
      · intro body guarded _
        exact ⟨rfl, fun _ => rfl⟩
      · intro body here
        cases here
        simp [fails, found, ServerResponse.fresh]
      · intro body here
        cases here
      · intro here
        cases here
      · simp [Fine, ServerResponse.fresh, Reply.Completes, found, blank_copied copied]

/-- The next chunk. -/
theorem follows_write (isOpen : x.closed = false) (inv : ExchangeInv early x)
    {chunk : Option Chunk} {chunks : List (Option Chunk)} {error : Option Thrown} {guarded : Bool}
    (task : x.task = .streaming ⟨chunk :: chunks, error⟩ guarded) :
    Follows E early (Fine E early x) (x.resume E) := by
  obtain ⟨unended, plain⟩ := inv.streaming _ _ task
  obtain ⟨out, unended', framed, returns, answer⟩ :=
    write_open isOpen (E := E) inv.resp unended plain chunk
  have resp : ResponseInv (x.resp.write (x.wsi E) chunk).state :=
    (ServerResponse.write_open_sat inv.resp unended).state
  have fine : Fine E early x ↔ error = none ∧ Accepts E x.resp ∧
      (∀ c ∈ chunk :: chunks, Writable (framing x.resp) c) ∧
      (guarded = false → ErrorBound x.resp) := by
    cases error with
    | none => simp [Fine, task]
    | some e => simp [Fine, task]
  rw [Exchange.resume, task]
  simp only [Exchange.after]
  generalize x.resp.write (x.wsi E) chunk = o at *
  rcases o with ⟨t, _ | e⟩
  · obtain ⟨accepts, writable⟩ := returns.mp rfl
    dsimp only at out unended' framed answer
    refine ⟨⟨resp, ?_, ?_, ?_, ?_, ?_⟩, ?_⟩
    · intro settled here
      cases here
    · intro body guarded' _
      exact ⟨unended', fun unsent => by rw [out] at unsent; cases unsent⟩
    · intro body here
      cases here
      simp [(inv.guarded _ task), out]
    · intro body here
      cases here
      obtain ⟨isEarly, clean, -⟩ := inv.unguarded _ task
      exact ⟨isEarly, clean, fun _ => out⟩
    · intro here
      cases here
    · have framed' : framing t = framing x.resp := by rw [framing, if_pos out, framed]
      have bound : ErrorBound t ↔ ErrorBound x.resp := by
        rw [ErrorBound, if_pos out]
        exact answer
      rw [fine]
      cases error with
      | none =>
        have out' : Accepts E t := .inl out
        simp [Fine, out', accepts, writable, framed', bound]
      | some e => simp [Fine, out]
  · have refused : ¬Fine E early x := by
      rw [fine]
      rintro ⟨-, accepts, writable, -⟩
      cases returns.mpr ⟨accepts, writable _ List.mem_cons_self⟩
    obtain ⟨kept, spoiled⟩ : Follows E early _ (Exchange.raise E guarded (.error e)
        { x with resp := t }) := follows_raise guarded (.error e) resp out unended'
    exact ⟨kept, spoiled.trans (by simp [refused])⟩

/-- Going on keeps a fine exchange fine, and another one not. -/
theorem follows_resume (isOpen : x.closed = false) (inv : ExchangeInv early x) :
    Follows E early (Fine E early x) (x.resume E) := by
  cases task : x.task with
  | awaiting settled =>
    obtain ⟨fresh, fails⟩ := inv.awaiting _ task
    have raised : ∀ e, early → Follows E early (E.respondThrows = none ∧
        e.text E.stack ≠ none) (x.handle E e) := by
      intro e isEarly
      obtain ⟨kept, fine⟩ := follows_handle (E := E) inv.resp (by rw [fresh]; rfl)
        (by rw [fresh]; exact fun _ => rfl) (fun _ => isEarly) e
      refine ⟨kept, fine.trans ?_⟩
      have blank : Blank .empty := by
        intro e member
        cases member
      simp [fresh, ServerResponse.fresh, blank]
    cases settled with
    | error e =>
      have isEarly : early := fails.mpr trivial
      simpa [Exchange.resume, Fine, task, Completes] using raised e isEarly
    | ok value =>
      cases made : value.toResponse with
      | error e =>
        have isEarly : early := by simp [fails, FailsUnsent, made]
        simpa [Exchange.resume, Fine, task, Completes, made] using raised e isEarly
      | ok reply =>
        have replies := follows_flush (E := E) isOpen fresh reply
          (fails.trans (by simp [FailsUnsent, made]))
        simpa [Exchange.resume, Fine, task, Completes, made] using replies
  | streaming body guarded =>
    obtain ⟨unended, plain⟩ := inv.streaming _ _ task
    rcases body with ⟨_ | ⟨chunk, chunks⟩, error⟩
    · cases error with
      | none =>
        have begun : early → x.resp.headersSent = true := by
          intro isEarly
          cases guarded with
          | true => simpa using (inv.guarded _ task).mp isEarly
          | false => exact (inv.unguarded _ task).2.2 rfl
        obtain ⟨kept, fine⟩ := follows_finish (E := E) isOpen inv.resp unended begun
          fun e y => follows_raise guarded e
        rw [Exchange.resume, task]
        refine ⟨kept, fine.trans ?_⟩
        simp only [Fine, task, List.not_mem_nil, false_implies, implies_true, true_and]
        refine and_congr_right fun _ => ?_
        cases guarded with
        | true =>
          have never : ¬early := by simp [inv.guarded _ task]
          simp [never]
        | false =>
          obtain ⟨isEarly, -, sent⟩ := inv.unguarded _ task
          simp [isEarly, ErrorBound, sent rfl]
      | some e =>
        rw [Exchange.resume, task]
        cases guarded with
        | true =>
          obtain ⟨kept, fine⟩ := follows_handle (E := E) inv.resp unended plain
            (fun unsent => (inv.guarded _ task).mpr ⟨rfl, rfl, unsent⟩) e
          exact ⟨kept, fine.trans (by simp [Fine, task])⟩
        | false => cases (inv.unguarded _ task).2.1
    · exact follows_write isOpen inv task
  | fulfilled =>
    rw [Exchange.resume, task]
    exact ⟨inv, Iff.rfl⟩
  | rejected =>
    rw [Exchange.resume, task]
    exact ⟨inv, Iff.rfl⟩

end Exchanges

/-! ## Runs -/

section Runs

variable {E : Env} {early : Prop} {x : Exchange}

theorem answered_of_ended {resp : ServerResponse} (inv : ResponseInv resp)
    (ended : resp.ended = true) : Answered resp := by
  refine ⟨ended, Nat.le_antisymm ?_ ?_⟩
  · have once := inv.disciplined.respondOnce.filter (·.isRespond)
    have responds : ∀ e ∈ resp.log.filter (·.isRespond), e.isRespond = true := fun e member =>
      (List.mem_filter.mp member).2
    generalize resp.log.filter (·.isRespond) = found at *
    rcases found with _ | ⟨a, _ | ⟨b, rest⟩⟩
    · simp
    · simp
    · exact absurd ⟨responds a (by simp), responds b (by simp)⟩
        ((List.pairwise_cons.mp once).1 b List.mem_cons_self)
  · obtain ⟨e, member, responds⟩ := inv.sent (inv.endedSent ended)
    exact List.length_pos_of_mem (List.mem_filter.mpr ⟨member, responds⟩)

/-- A settled exchange is fine exactly if it ended well. -/
theorem fine_settled (inv : ExchangeInv early x) (settled : x.task.isSettled = true) :
    Fine E early x ↔ Answered x.resp ∧ (early → ErrorAnswer x.resp) := by
  cases task : x.task with
  | awaiting settled' => simp [task, Task.isSettled] at settled
  | streaming body guarded => simp [task, Task.isSettled] at settled
  | fulfilled =>
    simp only [Fine, task]
    exact and_congr_left fun _ => ⟨answered_of_ended inv.resp, Answered.ended⟩
  | rejected =>
    simp only [Fine, task, false_iff]
    rintro ⟨answered, -⟩
    have ended := answered.ended
    rw [inv.rejected task] at ended
    cases ended

/-! Nothing but the event closes a connection. -/

theorem closed_after {outcome : ResponseOutcome} {raise : Thrown → Exchange → Exchange}
    {next : Exchange → Exchange} (raised : ∀ e y, (raise e y).closed = y.closed)
    (continued : ∀ y, (next y).closed = y.closed) :
    (x.after outcome raise next).closed = x.closed := by
  unfold Exchange.after
  split
  · rw [raised]
  · rw [continued]

theorem closed_finish {raise : Thrown → Exchange → Exchange}
    (raised : ∀ e y, (raise e y).closed = y.closed) : (x.finish E raise).closed = x.closed :=
  closed_after raised fun _ => rfl

theorem closed_flush {reply : Reply} {guarded : Bool} {raise : Thrown → Exchange → Exchange}
    (raised : ∀ e y, (raise e y).closed = y.closed) :
    (x.flush E reply guarded raise).closed = x.closed := by
  refine closed_after raised fun y => ?_
  split
  · exact closed_finish raised
  · rfl

theorem closed_handle (e : Thrown) (x : Exchange) : (x.handle E e).closed = x.closed := by
  unfold Exchange.handle
  split
  · rfl
  · split
    · rfl
    · exact closed_flush fun _ _ => rfl

theorem closed_raise (guarded : Bool) (e : Thrown) (x : Exchange) :
    (x.raise E guarded e).closed = x.closed := by
  cases guarded with
  | false => rfl
  | true => exact closed_handle e x

theorem closed_resume (x : Exchange) : (x.resume E).closed = x.closed := by
  unfold Exchange.resume
  split
  · exact closed_handle _ x
  · split
    · exact closed_handle _ x
    · exact closed_flush closed_handle
  · exact closed_finish (closed_raise _)
  · exact closed_raise _ _ x
  · exact closed_after (closed_raise _) fun _ => rfl
  · rfl
  · rfl

theorem closed_run (n : Nat) : ∀ x : Exchange,
    (runFrom (Exchange.step E) x (List.replicate n .settles)).closed = x.closed := by
  induction n with
  | zero => intro x; rfl
  | succ n ih => intro x; exact (ih _).trans (closed_resume x)

/-- While the connection is open, a run neither spoils an exchange nor repairs one. -/
theorem fine_run (inv : ExchangeInv early x) (isOpen : x.closed = false)
    (events : List ExchangeEvent) :
    (runFrom (Exchange.step E) x events).closed = true ∨
      Follows E early (Fine E early x) (runFrom (Exchange.step E) x events) := by
  let I (y : Exchange) : Prop :=
    y.closed = true ∨ y.closed = false ∧ Follows E early (Fine E early x) y
  have kept : I (runFrom (Exchange.step E) x events) := by
    apply run_invariant (I := I) _ events x (.inr ⟨isOpen, inv, Iff.rfl⟩)
    intro y event holds
    cases event with
    | closes => exact .inl rfl
    | settles =>
      rcases holds with closed | ⟨isOpen', inv', same⟩
      · exact .inl ((closed_resume y).trans closed)
      · obtain ⟨next, iff⟩ := follows_resume (E := E) isOpen' inv'
        exact .inr ⟨(closed_resume y).trans isOpen', next, iff.trans same⟩
  exact kept.imp_right And.right

/-! `respond` settles. -/

/-- Everything `respond` waits for comes. -/
def Settles (E : Env) (x : Exchange) : Prop :=
  ∃ n, (runFrom (Exchange.step E) x (List.replicate n .settles)).task.isSettled = true

theorem Settles.of_resume (later : Settles E (x.resume E)) : Settles E x := by
  obtain ⟨n, settled⟩ := later
  exact ⟨n + 1, settled⟩

theorem settles_settled (settled : x.task.isSettled = true) : Settles E x := ⟨0, settled⟩

theorem settles_after {outcome : ResponseOutcome} {raise : Thrown → Exchange → Exchange}
    {next : Exchange → Exchange} (raised : ∀ e y, Settles E (raise e y))
    (continued : ∀ resp, Settles E (next { x with resp })) :
    Settles E (x.after outcome raise next) := by
  unfold Exchange.after
  split
  · exact raised _ _
  · exact continued _

theorem settles_finish {raise : Thrown → Exchange → Exchange}
    (raised : ∀ e y, Settles E (raise e y)) : Settles E (x.finish E raise) :=
  settles_after raised fun _ => settles_settled rfl

theorem settles_streaming {guarded : Bool} {error : Option Thrown}
    (raised : ∀ e y, Settles E (Exchange.raise E guarded e y)) (chunks : List (Option Chunk)) :
    ∀ x : Exchange, x.task = .streaming ⟨chunks, error⟩ guarded → Settles E x := by
  induction chunks with
  | nil =>
    intro x task
    apply Settles.of_resume
    rw [Exchange.resume, task]
    cases error with
    | none => exact settles_finish raised
    | some e => exact raised e x
  | cons chunk chunks ih =>
    intro x task
    apply Settles.of_resume
    rw [Exchange.resume, task]
    exact settles_after raised fun resp => ih _ rfl

theorem settles_flush {reply : Reply} {guarded : Bool} {raise : Thrown → Exchange → Exchange}
    (raised : ∀ e y, Settles E (raise e y))
    (caught : ∀ e y, Settles E (Exchange.raise E guarded e y)) :
    Settles E (x.flush E reply guarded raise) := by
  refine settles_after raised fun resp => ?_
  split
  · exact settles_finish raised
  · exact settles_streaming caught _ _ rfl

theorem settles_raise (guarded : Bool) (e : Thrown) (x : Exchange) :
    Settles E (x.raise E guarded e) := by
  cases guarded with
  | false => exact settles_settled rfl
  | true =>
    show Settles E (x.handle E e)
    unfold Exchange.handle
    split
    · exact settles_settled rfl
    · split
      · exact settles_settled rfl
      · exact settles_flush (fun _ _ => settles_settled rfl) fun _ _ => settles_settled rfl

theorem settles (x : Exchange) : Settles E x := by
  cases task : x.task with
  | awaiting settled =>
    apply Settles.of_resume
    rw [Exchange.resume, task]
    cases settled with
    | error e => exact settles_raise true e x
    | ok value =>
      dsimp only
      split
      · exact settles_raise true _ x
      · exact settles_flush (settles_raise true) (settles_raise true)
  | streaming body guarded => exact settles_streaming (settles_raise guarded) _ x task
  | fulfilled => exact settles_settled (by rw [task]; rfl)
  | rejected => exact settles_settled (by rw [task]; rfl)

end Runs

/-! ## The contract is kept -/

section Contract

variable {env : Env} {table : List Route} {fetchHandler : Handler} {req : ServerRequest}
  {settled : Settled}

theorem callHandler_eq_ok {params : Option (Assoc Text Text)} {h : Handler} :
    callHandler req params h = .ok settled ↔ req.peerThrows = none ∧
      ∃ call, h = .function call ∧ call ⟨req.method, req.path, params⟩ = .returns settled := by
  unfold callHandler
  cases req.peerThrows with
  | some e => simp
  | none =>
    cases h with
    | notFunction => simp
    | function call =>
      simp only [true_and, Handler.function.injEq, exists_eq_left']
      cases call ⟨req.method, req.path, params⟩ with
      | throws e => simp
      | returns settled => simp

theorem dispatch_eq_ok :
    dispatch table fetchHandler req = .ok settled ↔ Handled table fetchHandler req settled := by
  unfold dispatch Handled
  rcases matchRoute req.path req.method table with _ | _ | found
  · simp
  · exact callHandler_eq_ok
  · cases found with
    | handler params h => exact callHandler_eq_ok
    | allow names =>
      dsimp only
      cases newReply .none (some 405) (.ok (allowHeaders (join ", ".toList names))) .empty with
      | error e => simp
      | ok reply => simp [eq_comm]

theorem inv_start (settled : Settled) :
    ExchangeInv (FailsUnsent settled) ⟨.fresh, false, .awaiting settled⟩ := by
  refine ⟨responseInv_fresh, ?_, ?_, ?_, ?_, ?_⟩
  · intro settled' same
    cases same
    exact ⟨rfl, Iff.rfl⟩
  all_goals simp

/-- A request is answered exactly if its route matches without an exception, the handler is called
and returns, the wsi accepts the headers, and what the handler's promise settles to can be sent:
a response whose body ends and has only chunks that can be written, or a failure before the first
chunk, with a text and without headers of a response to leave behind. -/
theorem answers_iff : Answers env table fetchHandler req ↔
    env.respondThrows = none ∧
      ∃ settled, Handled table fetchHandler req settled ∧ Completes env settled := by
  constructor
  · rintro ⟨x, settled, started, task, ends⟩
    obtain ⟨settled', handled, rfl⟩ : ∃ settled', dispatch table fetchHandler req = .ok settled' ∧
        (⟨.fresh, false, .awaiting settled'⟩ : Exchange) = x := by
      unfold handleRequest at started
      cases found : dispatch table fetchHandler req with
      | error e => simp [found, Except.map] at started
      | ok settled' => exact ⟨settled', rfl, by simpa [found, Except.map] using started⟩
    cases task
    obtain ⟨n, done⟩ := settles (E := env) ⟨.fresh, false, .awaiting settled⟩
    have isOpen := closed_run (E := env) n ⟨.fresh, false, .awaiting settled⟩
    have ended := (ends _ done).resolve_left (by simp [isOpen])
    have follows := (fine_run (E := env) (inv_start settled) rfl
      (List.replicate n .settles)).resolve_left (by simp [isOpen])
    obtain ⟨accepts, completes⟩ := follows.iff.mp ((fine_settled follows.inv done).mpr ended)
    exact ⟨accepts, settled, dispatch_eq_ok.mp handled, completes⟩
  · rintro ⟨accepts, settled, handled, completes⟩
    refine ⟨⟨.fresh, false, .awaiting settled⟩, settled, ?_, rfl, fun events done => ?_⟩
    · rw [handleRequest, dispatch_eq_ok.mpr handled]
      rfl
    · rcases fine_run (E := env) (inv_start settled) rfl events with closed | follows
      · exact .inl closed
      · have fine := follows.iff.mpr ⟨accepts, completes⟩
        exact .inr ((fine_settled follows.inv done).mp fine)

end Contract

/-! ## Requests without an answer -/

/-- A wsi that accepts the headers. -/
def plainEnv : Env := ⟨none, fun e => e.name⟩

/-- `fetch: () => { throw new Error('boom') }`. -/
def throwingFetch : Handler :=
  .function fun _ => .throws (.error ⟨"Error".toList, "boom".toList⟩)

/-- `fetch: () => new Response(stream)` with a stream that fails after its first chunk. -/
def brokenStreamFetch : Handler :=
  .function fun _ => .returns (.ok (.response ⟨200, ⟨.empty, Headers.valid_empty⟩,
    some ⟨[some (.string "partial".toList)], some (.error ⟨"Error".toList, "boom".toList⟩)⟩⟩))

/-- `routes: { '/users/:id': () => undefined }`. -/
def userRoutes : List Route :=
  (compilePath "/users/:id".toList true).toList.map fun (regex, keys) =>
    ⟨regex, keys, .handler (.function fun _ => .returns (.ok .nullish))⟩

/-- A handler that throws at once and a parameter that does not decode throw into the native
callback; after an error in the middle of a body the response never ends. -/
theorem requests_unanswered :
    ¬Answers plainEnv [] throwingFetch ⟨"GET".toList, "/".toList, none⟩ ∧
      ¬Answers plainEnv userRoutes throwingFetch ⟨"GET".toList, "/users/%zz".toList, none⟩ ∧
      ¬Answers plainEnv [] brokenStreamFetch ⟨"GET".toList, "/".toList, none⟩ := by
  refine ⟨?_, ?_, ?_⟩
  · rintro ⟨x, settled, started, -⟩
    cases started
  · rintro ⟨x, settled, started, -⟩
    have uriError : matchRoute "/users/%zz".toList "GET".toList userRoutes = none := by decide
    rw [handleRequest, dispatch, uriError] at started
    cases started
  · rintro ⟨x, settled, started, -, ends⟩
    cases started
    rcases ends [.settles, .settles, .settles] rfl with closed | ⟨answered, -⟩
    · cases closed
    · cases answered.ended

end QjsLws.Serve
