import Mathlib.Data.List.Infix
import QjsLws.Protocol.HttpProtocol

/-!
# Request bodies reach their requests

While a transaction with a body is going on, `#requests` maps its wsi to its request. The streams
go wrong exactly where a transaction ends without the completion of its body.
-/

namespace QjsLws.Protocol

open QjsLws.Misc HttpProtocol

section Headers

theorem isPositive_of_number {t : Text} {n : Nat} (read : number t = some n) (positive : 0 < n) :
    (readNumber t).isPositive = true := by
  rw [readNumber_of_number read]
  simpa [NumberValue.isPositive] using positive

theorem infix_intercalate {separator part : Text} {parts : List Text} (member : part ∈ parts) :
    part <:+: separator.intercalate parts := by
  induction parts with
  | nil => cases member
  | cons first rest ih =>
    cases rest with
    | nil =>
      obtain rfl := List.mem_singleton.mp member
      simp
    | cons second rest =>
      rw [List.intercalate_cons_cons]
      rcases List.mem_cons.mp member with rfl | later
      · rw [List.append_assoc]
        exact (List.prefix_append _ _).isInfix
      · exact (ih later).trans (List.suffix_append _ _).isInfix

theorem containsWord_of_infix {word part t : Text} (inside : part <:+: t)
    (named : asciiLower part = word) : containsWord word t = true := by
  obtain ⟨before, after, rfl⟩ := inside
  rw [containsWord, List.any_eq_true]
  refine ⟨part ++ after, ?_, ?_⟩
  · rw [List.mem_tails, List.append_assoc]
    exact List.suffix_append _ _
  · rw [List.isPrefixOf_iff_prefix, ← named, asciiLower, asciiLower, List.map_append]
    exact List.prefix_append _ _

/-- `hasBody` recognises every request that declares a body. -/
theorem hasBody_of_declaresBody {headers : BodyHeaders} (declares : declaresBody headers = true) :
    hasBody headers = true := by
  rw [declaresBody, Bool.or_eq_true] at declares
  rw [hasBody, Bool.or_eq_true]
  rcases declares with length | coding
  · left
    obtain ⟨cl, present, positive⟩ := (Option.any_eq_true _ _).mp length
    obtain ⟨n, read, above⟩ := (Option.any_eq_true _ _).mp positive
    rw [present]
    exact isPositive_of_number read (of_decide_eq_true above)
  · right
    obtain ⟨te, present, found⟩ := (Option.any_eq_true _ _).mp coding
    obtain ⟨coding, member, named⟩ := List.any_eq_true.mp found
    rw [present, Option.getD_some]
    have inside : coding <:+: te := by
      have whole : coding <:+: [','].intercalate (te.splitOn ',') := infix_intercalate member
      rwa [List.intercalate_splitOn] at whole
    exact containsWord_of_infix ((isInfix_strip _ coding).trans inside) (of_decide_eq_true named)

end Headers

section Sinks

variable {p : HttpProtocol} {req : Nat} {b : SinkStream}

/-- Calls on a sink change nothing but its stream. -/
theorem onSink_frame (req : Nat) (call : SinkStream → Outcome JsError SinkStream)
    (p : HttpProtocol) :
    (p.onSink req call).state.requests = p.requests ∧
      (p.onSink req call).state.closings = p.closings ∧
      (p.onSink req call).state.bodies.length = p.bodies.length ∧
      ∀ k ≠ req, (p.onSink req call).state.bodies[k]? = p.bodies[k]? := by
  rw [onSink]
  cases found : p.bodies[req]? with
  | none => exact ⟨rfl, rfl, rfl, fun _ _ => rfl⟩
  | some b => exact ⟨rfl, rfl, by simp, fun k other => by simp [other.symm]⟩

theorem onSink_self {call : SinkStream → Outcome JsError SinkStream}
    (found : p.bodies[req]? = some b) :
    (p.onSink req call).state.bodies[req]? = some (call b).state := by
  obtain ⟨inside, -⟩ := List.getElem?_eq_some_iff.mp found
  rw [onSink, found]
  simp [inside]

/-- A request gets a new stream, which stays open exactly for a body. -/
theorem onHttp_state (wsi : Nat) (headers : BodyHeaders) (spaCreated : Bool) (p : HttpProtocol) :
    (p.onHttp wsi headers spaCreated).state.bodies = p.bodies ++ [⟨[], !hasBody headers⟩] ∧
      (p.onHttp wsi headers spaCreated).state.closings =
        (if hasBody headers then p.closings else p.closings ++ [p.bodies.length]) ∧
      (p.onHttp wsi headers spaCreated).state.requests =
        if hasBody headers && (!isMultipart headers || spaCreated) then
          p.requests.set wsi p.bodies.length
        else p.requests := by
  rw [onHttp]
  cases body : hasBody headers with
  | true => cases multipart : isMultipart headers <;> cases spaCreated <;> simp [callHandler]
  | false => simp [closeBody, onSink, SinkStream.close, Outcome.andThen, callHandler]

end Sinks

/-- How the stream of a request stands to its transaction. -/
structure Served (p : HttpProtocol) (k : Nat) (x : Transaction) (b : SinkStream) : Prop where
  chunks : b.chunks = x.chunks.filter (· ≠ [])
  finished : x.isOver = true ∨ hasBody x.headers = false →
    b.closed = true ∧ p.closings.count k = 1
  pending : x.isOver = false → hasBody x.headers = true →
    b.closed = false ∧ p.closings.count k = 0 ∧ (p.requests.get x.wsi = some k ↔ x.parsed = true)

/-- The invariant of the runs in which every body is completed. -/
structure RoutingInv (s : Traffic) : Prop where
  length : s.protocol.bodies.length = s.transactions.length
  known : ∀ wsi k, s.protocol.requests.get wsi = some k → k < s.transactions.length
  unasked : ∀ k, s.transactions.length ≤ k → s.protocol.closings.count k = 0
  unique : ∀ (i j : Nat) (x y : Transaction), s.transactions[i]? = some x →
    s.transactions[j]? = some y → x.isOver = false → y.isOver = false → x.wsi = y.wsi → i = j
  served : ∀ (k : Nat) (x : Transaction) (b : SinkStream), s.transactions[k]? = some x →
    s.protocol.bodies[k]? = some b → Served s.protocol k x b

section Invariant

variable {s : Traffic} {p p' : HttpProtocol} {k wsi : Nat} {x : Transaction} {b : SinkStream}
  {buf : List UInt8}

/-- Every transaction has its stream. -/
theorem RoutingInv.body (inv : RoutingInv s) (found : s.transactions[k]? = some x) :
    ∃ b, s.protocol.bodies[k]? = some b ∧ Served s.protocol k x b := by
  obtain ⟨inside, -⟩ := List.getElem?_eq_some_iff.mp found
  rw [← inv.length] at inside
  exact ⟨_, List.getElem?_eq_getElem inside, inv.served k x _ found (List.getElem?_eq_getElem inside)⟩

theorem RoutingInv.routed (inv : RoutingInv s) : s.Routed := by
  refine ⟨?_, ?_, ?_⟩
  · intro k x found
    obtain ⟨b, stream, served⟩ := inv.body found
    rw [stream, Option.map_some, served.chunks]
  · intro k
    by_cases inside : k < s.transactions.length
    · obtain ⟨b, -, served⟩ := inv.body (List.getElem?_eq_getElem inside)
      by_cases isOver : s.transactions[k].isOver = true
      · exact (served.finished (.inl isOver)).2.le
      · by_cases body : hasBody s.transactions[k].headers = true
        · rw [(served.pending (by simpa using isOver) body).2.1]
          exact Nat.zero_le 1
        · exact (served.finished (.inr (by simpa using body))).2.le
    · rw [inv.unasked k (Nat.le_of_not_lt inside)]
      exact Nat.zero_le 1
  · intro k x found isOver
    obtain ⟨b, stream, served⟩ := inv.body found
    obtain ⟨closed, once⟩ := served.finished (.inl isOver)
    exact ⟨by rw [stream, Option.map_some, closed], once⟩

theorem Served.congr (served : Served p k x b) (requests : p'.requests = p.requests)
    (closings : p'.closings.count k = p.closings.count k) : Served p' k x b := by
  refine ⟨served.chunks, ?_, ?_⟩
  · rw [closings]
    exact served.finished
  · rw [closings, requests]
    exact served.pending

/-- A transaction of a wsi that ends leaves its stream as it was: it had none to complete. -/
theorem Served.finish (served : Served p k x b)
    (bodyless : x.wsi = wsi → x.isOver = false → hasBody x.headers = false)
    (closings : p'.closings.count k = p.closings.count k)
    (others : x.wsi ≠ wsi → p'.requests.get x.wsi = p.requests.get x.wsi) :
    Served p' k (x.finish wsi) b := by
  rw [Transaction.finish]
  split
  · rename_i same
    have done : x.isOver = true ∨ hasBody x.headers = false := by
      cases isOver : x.isOver with
      | true => exact .inl rfl
      | false => exact .inr (bodyless same isOver)
    refine ⟨served.chunks, fun _ => ?_, fun going => ?_⟩
    · rw [closings]
      exact served.finished done
    · cases going
  · rename_i other
    refine ⟨served.chunks, ?_, ?_⟩
    · rw [closings]
      exact served.finished
    · rw [closings, others other]
      exact served.pending

/-- Ending the transactions of a wsi leaves the others apart. -/
theorem unique_finish {l : List Transaction}
    (unique : ∀ (i j : Nat) (x y : Transaction), l[i]? = some x → l[j]? = some y →
      x.isOver = false → y.isOver = false → x.wsi = y.wsi → i = j)
    (i j : Nat) (x y : Transaction) (first : (l.map (Transaction.finish wsi))[i]? = some x)
    (second : (l.map (Transaction.finish wsi))[j]? = some y) (going : x.isOver = false)
    (going' : y.isOver = false) (same : x.wsi = y.wsi) : x.wsi ≠ wsi ∧ i = j := by
  rw [List.getElem?_map, Option.map_eq_some_iff] at first second
  obtain ⟨x', found, rfl⟩ := first
  obtain ⟨y', found', rfl⟩ := second
  rw [Transaction.finish] at going same ⊢
  rw [Transaction.finish] at going' same
  split at going
  · cases going
  · rename_i other
    split at going'
    · cases going'
    · rename_i other'
      rw [if_neg other, if_neg other'] at same
      rw [if_neg other]
      exact ⟨other, unique i j x' y' found found' going going' same⟩

/-- A new request, after the transactions of its wsi that had no body left to complete. -/
theorem RoutingInv.http (inv : RoutingInv s) {headers : BodyHeaders} {spaCreated : Bool}
    (bodyless : ∀ x, s.Current wsi x → hasBody x.headers = false) :
    RoutingInv (s.step (.http wsi headers spaCreated)) := by
  obtain ⟨bodies, closings, requests⟩ := onHttp_state wsi headers spaCreated s.protocol
  have counts (k : Nat) : (s.step (.http wsi headers spaCreated)).protocol.closings.count k
      = s.protocol.closings.count k +
        if hasBody headers = false ∧ k = s.transactions.length then 1 else 0 := by
    rw [← inv.length]
    refine (congrArg (List.count k) closings).trans ?_
    cases hasBody headers with
    | true => simp
    | false =>
      by_cases new : k = s.protocol.bodies.length
      · simp [new]
      · simp [new, Ne.symm new]
  have slots (w : Nat) : (s.step (.http wsi headers spaCreated)).protocol.requests.get w
      = if wsi = w ∧ hasBody headers = true ∧ (!isMultipart headers || spaCreated) = true then
          some s.transactions.length
        else s.protocol.requests.get w := by
    rw [← inv.length]
    refine (congrArg (Assoc.get · w) requests).trans ?_
    by_cases served : (hasBody headers && (!isMultipart headers || spaCreated)) = true
    · rw [if_pos served, Assoc.get_set]
      rw [Bool.and_eq_true] at served
      simp [served]
    · rw [if_neg served]
      rw [Bool.and_eq_true] at served
      simp only [served, and_false, if_false]
  have size : (s.step (.http wsi headers spaCreated)).transactions.length
      = s.transactions.length + 1 := by simp [Traffic.step, Transaction.step]
  refine ⟨?_, ?_, ?_, ?_, ?_⟩
  · rw [size, ← inv.length]
    exact (congrArg List.length bodies).trans (by simp)
  · intro w k entry
    rw [size]
    rw [slots] at entry
    split at entry
    · cases entry
      exact Nat.lt_succ_self _
    · exact Nat.lt_succ_of_lt (inv.known w k entry)
  · intro k beyond
    rw [size] at beyond
    rw [counts, inv.unasked k (Nat.le_of_succ_le beyond), if_neg]
    rintro ⟨-, rfl⟩
    exact Nat.not_succ_le_self _ beyond
  · intro i j x y first second going going' same
    rcases getElem?_snoc.mp first with old | ⟨rfl, rfl⟩
    · rcases getElem?_snoc.mp second with old' | ⟨rfl, rfl⟩
      · exact (unique_finish inv.unique i j x y old old' going going' same).2
      · exact absurd same (unique_finish inv.unique i i x x old old going going rfl).1
    · rcases getElem?_snoc.mp second with old' | ⟨rfl, -⟩
      · exact absurd same.symm (unique_finish inv.unique j j y y old' old' going' going' rfl).1
      · rfl
  · intro k x b found stream
    have stream : (s.protocol.bodies ++ [⟨[], !hasBody headers⟩])[k]? = some b :=
      bodies ▸ stream
    rcases getElem?_snoc.mp found with old | ⟨rfl, rfl⟩
    · rw [List.getElem?_map, Option.map_eq_some_iff] at old
      obtain ⟨x, old, rfl⟩ := old
      obtain ⟨inside, -⟩ := List.getElem?_eq_some_iff.mp old
      have stream : s.protocol.bodies[k]? = some b := by
        rcases getElem?_snoc.mp stream with stream | ⟨rfl, -⟩
        · exact stream
        · exact absurd inside (by rw [inv.length]; exact Nat.lt_irrefl _)
      apply (inv.served k x b old stream).finish
      · exact fun same going => bodyless x ⟨List.mem_of_getElem? old, same, going⟩
      · rw [counts, if_neg, Nat.add_zero]
        rintro ⟨-, rfl⟩
        exact Nat.lt_irrefl _ inside
      · intro other
        rw [slots, if_neg]
        rintro ⟨rfl, -⟩
        exact other rfl
    · have stream : b = ⟨[], !hasBody headers⟩ := by
        rw [List.length_map, ← inv.length] at stream
        simpa using stream.symm
      subst stream
      rw [List.length_map]
      refine ⟨rfl, ?_, ?_⟩
      · rintro (isOver | body)
        · cases isOver
        · have body : hasBody headers = false := body
          rw [counts, inv.unasked _ le_rfl]
          simp [body]
      · intro _ body
        have body : hasBody headers = true := body
        rw [counts, inv.unasked _ le_rfl, slots]
        simp only [body, Bool.not_true, Bool.true_eq_false, false_and, if_false, true_and]
        by_cases parsed : (!isMultipart headers || spaCreated) = true
        · simp [parsed]
        · rw [if_neg parsed]
          refine iff_of_false (fun entry => ?_) parsed
          exact Nat.lt_irrefl _ (inv.known _ _ entry)

/-- The connection ends after its transactions had no body left to complete. -/
theorem RoutingInv.closed (inv : RoutingInv s)
    (bodyless : ∀ x, s.Current wsi x → hasBody x.headers = false) :
    RoutingInv (s.step (.closed wsi)) := by
  have slots (w : Nat) : (s.step (.closed wsi)).protocol.requests.get w
      = if wsi = w then none else s.protocol.requests.get w := Assoc.get_erase _ _ _
  have size : (s.step (.closed wsi)).transactions.length = s.transactions.length :=
    List.length_map _
  refine ⟨inv.length.trans size.symm, ?_, ?_, ?_, ?_⟩
  · intro w k entry
    rw [slots] at entry
    split at entry
    · cases entry
    · rw [size]
      exact inv.known w k entry
  · rw [size]
    exact inv.unasked
  · intro i j x y first second going going' same
    exact (unique_finish inv.unique i j x y first second going going' same).2
  · intro k x b found stream
    obtain ⟨x, old, rfl⟩ := Option.map_eq_some_iff.mp ((List.getElem?_map).symm.trans found)
    apply (inv.served k x b old stream).finish
    · exact fun same going => bodyless x ⟨List.mem_of_getElem? old, same, going⟩
    · rfl
    · intro other
      rw [slots, if_neg (Ne.symm other)]

/-- The transaction that is going on, and the request of the wsi. -/
theorem RoutingInv.current (inv : RoutingInv s) (current : s.Current wsi x)
    (declares : declaresBody x.headers = true) :
    ∃ k b, s.transactions[k]? = some x ∧ s.protocol.bodies[k]? = some b ∧
      Served s.protocol k x b ∧ b.closed = false ∧ s.protocol.closings.count k = 0 ∧
      (s.protocol.requests.get wsi = some k ↔ x.parsed = true) ∧
      ∀ (j : Nat) (y : Transaction), s.transactions[j]? = some y → y.wsi = wsi →
        y.isOver = false → j = k := by
  obtain ⟨member, rfl, going⟩ := current
  obtain ⟨k, found⟩ := List.mem_iff_getElem?.mp member
  obtain ⟨b, stream, served⟩ := inv.body found
  obtain ⟨isOpen, count, entry⟩ := served.pending going (hasBody_of_declaresBody declares)
  refine ⟨k, b, found, stream, served, isOpen, count, entry, ?_⟩
  intro j y found' same going'
  exact inv.unique j k y x found' found going' going same

/-- Only one transaction of a wsi is going on. -/
theorem RoutingInv.current_unique (inv : RoutingInv s) {y : Transaction}
    (current : s.Current wsi x) (declares : declaresBody x.headers = true)
    (current' : s.Current wsi y) : x = y := by
  obtain ⟨k, -, found, -, -, -, -, -, only⟩ := inv.current current declares
  obtain ⟨member, same, going⟩ := current'
  obtain ⟨j, found'⟩ := List.mem_iff_getElem?.mp member
  obtain rfl := only j y found' same going
  exact Option.some.inj (found.symm.trans found')

theorem onHttpBody_nil (wsi : Nat) (p : HttpProtocol) : p.onHttpBody wsi [] = .done p := by
  rw [onHttpBody]
  cases p.requests.get wsi <;> rfl

theorem onHttpBody_none (entry : p.requests.get wsi = none) : p.onHttpBody wsi buf = .done p := by
  rw [onHttpBody, entry]

theorem onHttpBody_some (entry : p.requests.get wsi = some k) (filled : buf ≠ []) :
    p.onHttpBody wsi buf = p.onSink k (·.write buf) := by
  rw [onHttpBody, entry]
  exact if_pos filled

/-- What `onHttpBody` leaves of the other streams. -/
theorem onHttpBody_frame (wsi : Nat) (buf : List UInt8) (p : HttpProtocol) :
    (p.onHttpBody wsi buf).state.requests = p.requests ∧
      (p.onHttpBody wsi buf).state.closings = p.closings ∧
      (p.onHttpBody wsi buf).state.bodies.length = p.bodies.length ∧
      ∀ k, (buf = [] ∨ p.requests.get wsi ≠ some k) →
        (p.onHttpBody wsi buf).state.bodies[k]? = p.bodies[k]? := by
  by_cases filled : buf = []
  · rw [filled, onHttpBody_nil]
    exact ⟨rfl, rfl, rfl, fun _ _ => rfl⟩
  · cases entry : p.requests.get wsi with
    | none =>
      rw [onHttpBody_none entry]
      exact ⟨rfl, rfl, rfl, fun _ _ => rfl⟩
    | some req =>
      rw [onHttpBody_some entry filled]
      obtain ⟨requests, closings, length, others⟩ := onSink_frame req (·.write buf) p
      refine ⟨requests, closings, length, fun k other => others k ?_⟩
      rintro rfl
      rcases other with empty | other
      · exact filled empty
      · exact other rfl

theorem deliver_kept (x : Transaction) : (x.deliver wsi buf).wsi = x.wsi ∧
    (x.deliver wsi buf).isOver = x.isOver := by
  rw [Transaction.deliver]
  split <;> exact ⟨rfl, rfl⟩

/-- A chunk of the transaction that is going on. -/
theorem RoutingInv.chunk (inv : RoutingInv s) (current : s.Current wsi x)
    (declares : declaresBody x.headers = true) (parsed : buf ≠ [] → x.parsed = true) :
    RoutingInv (s.step (.body wsi buf)) := by
  obtain ⟨k, b, found, was, served, isOpen, count, entry, only⟩ := inv.current current declares
  obtain ⟨requests, closings, length, others⟩ := onHttpBody_frame wsi buf s.protocol
  have requests : (s.step (.body wsi buf)).protocol.requests = s.protocol.requests := requests
  have closings : (s.step (.body wsi buf)).protocol.closings = s.protocol.closings := closings
  have size : (s.step (.body wsi buf)).transactions.length = s.transactions.length :=
    List.length_map _
  have lookup {j : Nat} {y : Transaction}
      (there : (s.step (.body wsi buf)).transactions[j]? = some y) :
      ∃ y', s.transactions[j]? = some y' ∧ y'.deliver wsi buf = y :=
    Option.map_eq_some_iff.mp ((List.getElem?_map).symm.trans there)
  refine ⟨(length.trans inv.length).trans size.symm, ?_, ?_, ?_, ?_⟩
  · rw [requests, size]
    exact inv.known
  · rw [closings, size]
    exact inv.unasked
  · intro i j y z first second
    obtain ⟨y, old, rfl⟩ := lookup first
    obtain ⟨z, old', rfl⟩ := lookup second
    rw [(deliver_kept y).1, (deliver_kept y).2, (deliver_kept z).1, (deliver_kept z).2]
    exact inv.unique i j y z old old'
  · intro j y b' there stream
    obtain ⟨y, old, rfl⟩ := lookup there
    have stream : (s.protocol.onHttpBody wsi buf).state.bodies[j]? = some b' := stream
    by_cases same : j = k
    · subst same
      obtain rfl : y = x := Option.some.inj (old.symm.trans found)
      have received : y.deliver wsi buf = { y with chunks := y.chunks ++ [buf] } :=
        if_pos ⟨current.2.1, current.2.2⟩
      have appended : b' = { b with chunks := b.chunks ++ [buf].filter (· ≠ []) } := by
        by_cases filled : buf = []
        · rw [others j (.inl filled), was] at stream
          simp [← Option.some.inj stream, filled]
        · have slot := entry.mpr (parsed filled)
          rw [onHttpBody_some slot filled, onSink_self was] at stream
          simp [← Option.some.inj stream, SinkStream.write, isOpen, filled]
      rw [received, appended]
      refine Served.congr ⟨?_, served.finished, served.pending⟩ requests (by rw [closings])
      rw [List.filter_append, served.chunks]
    · have apart : y.deliver wsi buf = y := by
        rw [Transaction.deliver, if_neg]
        rintro ⟨onWsi, going⟩
        exact same (only j y old onWsi going)
      rw [others j] at stream
      · rw [apart]
        exact (inv.served j y b' old stream).congr requests (by rw [closings])
      · by_cases filled : buf = []
        · exact .inl filled
        · right
          rw [entry.mpr (parsed filled)]
          exact fun eq => same (Option.some.inj eq).symm

theorem onHttpBodyCompletion_some (entry : p.requests.get wsi = some k) :
    p.onHttpBodyCompletion wsi = p.closeBody k := by
  rw [onHttpBodyCompletion, entry]

/-- What `onHttpBodyCompletion` does: it asks the sink of the request to close. -/
theorem onHttpBodyCompletion_frame (entry : p.requests.get wsi = some k) :
    (p.onHttpBodyCompletion wsi).state.requests = p.requests ∧
      (p.onHttpBodyCompletion wsi).state.closings = p.closings ++ [k] ∧
      (p.onHttpBodyCompletion wsi).state.bodies.length = p.bodies.length ∧
      ∀ j ≠ k, (p.onHttpBodyCompletion wsi).state.bodies[j]? = p.bodies[j]? := by
  rw [onHttpBodyCompletion_some entry]
  exact onSink_frame k (·.close) { p with closings := p.closings ++ [k] }

/-- The completion of the body of the transaction that is going on. -/
theorem RoutingInv.completion (inv : RoutingInv s) (current : s.Current wsi x)
    (declares : declaresBody x.headers = true) (parsed : x.parsed = true) :
    RoutingInv (s.step (.completion wsi)) := by
  obtain ⟨k, b, found, was, served, isOpen, count, entry, only⟩ := inv.current current declares
  have slot := entry.mpr parsed
  obtain ⟨inside, -⟩ := List.getElem?_eq_some_iff.mp found
  obtain ⟨requests, closings, length, others⟩ := onHttpBodyCompletion_frame slot
  have requests : (s.step (.completion wsi)).protocol.requests = s.protocol.requests := requests
  have closings : (s.step (.completion wsi)).protocol.closings = s.protocol.closings ++ [k] :=
    closings
  have size : (s.step (.completion wsi)).transactions.length = s.transactions.length :=
    List.length_map _
  refine ⟨(length.trans inv.length).trans size.symm, ?_, ?_, ?_, ?_⟩
  · rw [requests, size]
    exact inv.known
  · intro j beyond
    rw [size] at beyond
    have other : k ≠ j := by
      rintro rfl
      exact Nat.not_lt_of_le beyond inside
    rw [closings, List.count_append, inv.unasked j beyond, List.count_singleton]
    simp [other]
  · intro i j y z first second going going' same
    exact (unique_finish inv.unique i j y z first second going going' same).2
  · intro j y b' there stream
    obtain ⟨y, old, rfl⟩ := Option.map_eq_some_iff.mp ((List.getElem?_map).symm.trans there)
    have stream : (s.protocol.onHttpBodyCompletion wsi).state.bodies[j]? = some b' := stream
    by_cases same : j = k
    · subst same
      obtain rfl : y = x := Option.some.inj (old.symm.trans found)
      have ended : y.finish wsi = { y with isOver := true } := if_pos current.2.1
      have closed : b' = { b with closed := true } := by
        have ran : (s.protocol.onHttpBodyCompletion wsi).state.bodies[j]? = some b.close.state := by
          rw [onHttpBodyCompletion_some slot]
          exact onSink_self (p := { s.protocol with closings := s.protocol.closings ++ [j] }) was
        rw [Option.some.inj (stream.symm.trans ran), SinkStream.close, isOpen]
        rfl
      rw [ended, closed]
      refine ⟨served.chunks, fun _ => ⟨rfl, ?_⟩, fun going => ?_⟩
      · simp [closings, count]
      · cases going
    · rw [others j same] at stream
      apply (inv.served j y b' old stream).finish
      · exact fun onWsi going => absurd (only j y old onWsi going) same
      · simp [closings, Ne.symm same]
      · rw [requests]
        exact fun _ => rfl

/-- Every event that libwebsockets may deliver keeps the invariant, if no body is left. -/
theorem RoutingInv.step (inv : RoutingInv s) {e : HttpEvent} (delivers : s.Delivers e)
    (completes : s.Completes e) : RoutingInv (s.step e) := by
  cases e with
  | http wsi headers spaCreated => exact inv.http completes
  | body wsi buf =>
    obtain ⟨x, current, declares⟩ := delivers
    exact inv.chunk current declares fun filled => completes filled x current
  | completion wsi =>
    obtain ⟨x, current, declares⟩ := delivers
    exact inv.completion current declares (completes x current)
  | closed wsi => exact inv.closed completes

/-- A body that is left behind stays open after its transaction. -/
theorem bodyless_of_routed (inv : RoutingInv s) {e : HttpEvent}
    (ends : ∀ (k : Nat) (x : Transaction), s.transactions[k]? = some x →
      (s.step e).transactions[k]? = some (x.finish wsi))
    (closings : ∀ k < s.transactions.length,
      (s.step e).protocol.closings.count k = s.protocol.closings.count k)
    (routed : (s.step e).Routed) (current : s.Current wsi x) : hasBody x.headers = false := by
  obtain ⟨member, same, going⟩ := current
  obtain ⟨k, found⟩ := List.mem_iff_getElem?.mp member
  obtain ⟨inside, -⟩ := List.getElem?_eq_some_iff.mp found
  obtain ⟨b, -, served⟩ := inv.body found
  rw [← Bool.not_eq_true]
  intro body
  have once := (routed.ended k _ (ends k x found) (by rw [Transaction.finish, if_pos same])).2
  rw [closings k inside, (served.pending going body).2.1] at once
  cases once

/-- The step that reaches a good state leaves no body. -/
theorem RoutingInv.completes (inv : RoutingInv s) {e : HttpEvent} (delivers : s.Delivers e)
    (routed : (s.step e).Routed) : s.Completes e := by
  cases e with
  | http wsi headers spaCreated =>
    intro x current
    refine bodyless_of_routed inv ?_ ?_ routed current
    · intro k x found
      exact getElem?_snoc.mpr (.inl (by rw [List.getElem?_map, found]; rfl))
    · intro k inside
      obtain ⟨-, closings, -⟩ := onHttp_state wsi headers spaCreated s.protocol
      refine (congrArg (List.count k) closings).trans ?_
      cases hasBody headers with
      | true => rfl
      | false => simp [inv.length, Nat.ne_of_gt inside]
  | closed wsi =>
    intro x current
    refine bodyless_of_routed inv ?_ ?_ routed current
    · intro k x found
      exact (List.getElem?_map).trans (by rw [found]; rfl)
    · exact fun _ _ => rfl
  | body wsi buf =>
    intro filled x current
    obtain ⟨y, current', declares⟩ := delivers
    obtain rfl := inv.current_unique current' declares current
    obtain ⟨k, b, found, was, served, -, -, entry, -⟩ := inv.current current' declares
    rw [← Bool.not_eq_false]
    intro unparsed
    obtain ⟨-, -, -, others⟩ := onHttpBody_frame wsi buf s.protocol
    have kept : (s.step (.body wsi buf)).protocol.bodies[k]? = some b := by
      refine (others k (.inr fun slot => ?_)).trans was
      rw [entry.mp slot] at unparsed
      cases unparsed
    have grown : (s.step (.body wsi buf)).transactions[k]?
        = some { y with chunks := y.chunks ++ [buf] } := by
      have delivered : y.deliver wsi buf = { y with chunks := y.chunks ++ [buf] } :=
        if_pos ⟨current.2.1, current.2.2⟩
      exact (List.getElem?_map).trans (by rw [found, Option.map_some, delivered])
    have same := routed.received k _ grown
    rw [kept, Option.map_some, served.chunks] at same
    simp [filled] at same
  | completion wsi =>
    intro x current
    obtain ⟨y, current', declares⟩ := delivers
    obtain rfl := inv.current_unique current' declares current
    obtain ⟨k, b, found, was, served, -, count, entry, -⟩ := inv.current current' declares
    rw [← Bool.not_eq_false]
    intro unparsed
    have other : s.protocol.requests.get wsi ≠ some k := by
      intro slot
      rw [entry.mp slot] at unparsed
      cases unparsed
    have once := (routed.ended k (y.finish wsi) ((List.getElem?_map).trans (by rw [found]; rfl))
      (by rw [Transaction.finish, if_pos current.2.1])).2
    have unasked : (s.protocol.onHttpBodyCompletion wsi).state.closings.count k = 0 := by
      cases slot : s.protocol.requests.get wsi with
      | none => rw [onHttpBodyCompletion, slot, Outcome.done_state, count]
      | some j =>
        have apart : j ≠ k := fun same => other (same ▸ slot)
        obtain ⟨-, closings, -⟩ := onHttpBodyCompletion_frame slot
        rw [closings]
        simp [count, apart]
    rw [Traffic.step] at once
    have once : (s.protocol.onHttpBodyCompletion wsi).state.closings.count k = 1 := once
    rw [unasked] at once
    cases once

end Invariant

/-- Over every run that libwebsockets can deliver, all streams stay routed exactly when every body
is completed in its transaction. -/
theorem routed_iff_completes (events : List HttpEvent)
    (delivered : Along Traffic.step Traffic.Delivers .start events) :
    (∀ first, first <+: events → (runFrom Traffic.step .start first).Routed) ↔
      Along Traffic.step Traffic.Completes .start events := by
  refine prefixes_iff_along_within (I := RoutingInv) ?_ ?_ ?_ events .start ?_ delivered
  · exact fun s e inv delivers completes => inv.step delivers completes
  · exact fun s e inv delivers routed => inv.completes delivers routed
  · exact fun s inv => inv.routed
  · refine ⟨rfl, ?_, fun _ _ => rfl, ?_, ?_⟩
    · intro wsi k entry
      cases entry
    · intro i j x y found
      cases found
    · intro k x b found
      cases found

/-- A request with a declared length of five bytes. -/
def fiveBytes : BodyHeaders := ⟨some "5".toList, none, none⟩

/-- The connection closes in the middle of an upload. -/
def droppedUpload : List HttpEvent := [.http 0 fiveBytes true, .body 0 [1, 2], .closed 0]

/-- The stream of a dropped upload is never closed. -/
theorem dropped_upload_unrouted :
    Along Traffic.step Traffic.Delivers .start droppedUpload ∧
      ¬(runFrom Traffic.step .start droppedUpload).Routed := by
  constructor
  · refine ⟨trivial, ⟨⟨0, fiveBytes, true, [], false⟩, ?_, ?_⟩, trivial, trivial⟩
    · exact ⟨by decide, rfl, rfl⟩
    · decide
  · intro routed
    have ended := routed.ended 0 ⟨0, fiveBytes, true, [[1, 2]], true⟩ (by decide) rfl
    exact absurd ended.2 (by decide)

/-- An upload that completes. -/
def completedUpload : List HttpEvent :=
  [.http 0 fiveBytes true, .body 0 [1, 2, 3, 4, 5], .completion 0, .closed 0]

theorem completed_upload_routed :
    (∀ first, first <+: completedUpload → (runFrom Traffic.step .start first).Routed) ↔
      Along Traffic.step Traffic.Completes .start completedUpload := by
  apply routed_iff_completes
  refine ⟨trivial, ⟨⟨0, fiveBytes, true, [], false⟩, ?_, by decide⟩,
    ⟨⟨0, fiveBytes, true, [[1, 2, 3, 4, 5]], false⟩, ?_, by decide⟩, trivial, trivial⟩
  · exact ⟨by decide, rfl, rfl⟩
  · exact ⟨by decide, rfl, rfl⟩

end QjsLws.Protocol
