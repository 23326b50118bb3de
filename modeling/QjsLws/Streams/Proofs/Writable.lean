import Mathlib.Algebra.GroupWithZero.Nat
import Mathlib.Data.List.Count
import QjsLws.Streams.Writable

/-!
# Writable streams, proofs

What the sink was last told says which request is in flight, and what is left of the accepted writes is what is
queued. From each call and each reaction the stream comes to such a state again, and nothing escapes from it.
-/

namespace QjsLws.Streams

open Misc

variable {α ε : Type}

/-! ## What holds between events -/

section Valid

/-- The operation in flight is the one that the sink has not answered. -/
def Current (s : WritableStream α ε) (rest : List (Nat × α)) : Ending α ε → Prop
  | .none => s.sinkWritePromise = false ∧ s.inFlightWriteRequest = none ∧ s.inFlightCloseRequest = none
  | .writing chunk => s.sinkWritePromise = true ∧ s.inFlightCloseRequest = none ∧
    ∃ promise later, s.inFlightWriteRequest = some promise ∧ rest = (promise, chunk) :: later
  | .refused chunk => s.sinkWritePromise = false ∧ s.inFlightCloseRequest = none ∧
    ∃ promise later, s.inFlightWriteRequest = some promise ∧ rest = (promise, chunk) :: later
  | .closing => s.sinkWritePromise = false ∧ s.inFlightWriteRequest = none ∧ s.inFlightCloseRequest ≠ none ∧
    s.closeRequest = none ∧ s.writeRequests = [] ∧ s.queue = [] ∧ rest = []
  | _ => False

/-- What is left of the accepted writes is queued, and behind it the request to close. A request that was refused
for its size is the last one. -/
def Queued (s : WritableStream α ε) (rest : List (Nat × α)) : Prop :=
  ∃ (sizes extra : List Nat),
    s.queue = rest.zipWith (fun w size => ⟨some w.2, size⟩) sizes ++ s.closeRequest.toList.map (fun _ => ⟨none, 0⟩) ∧
    sizes.length = rest.length ∧ s.inFlightWriteRequest.toList ++ s.writeRequests = rest.map Prod.fst ++ extra ∧
    (s.state = .writable → extra = [])

/-- The algorithms are there for as long as they can be called. -/
def Usable (s : WritableStream α ε) : Ending α ε → Prop
  | .none | .writing _ => (s.state = .writable → s.algorithms = true) ∧ ∀ request,
    s.pendingAbortRequest = some request → request.wasAlreadyErroring = false → s.algorithms = true
  | _ => True

/-- Neither closed nor failed. -/
structure Live (s : WritableStream α ε) (rest : List (Nat × α)) (last : Ending α ε) : Prop where
  current : Current s rest last
  sinkAbort : s.sinkAbortPromise = none
  stored : s.state = .writable → s.storedError = .undefined
  abort : s.state = .writable → s.pendingAbortRequest = none
  usable : Usable s last
  early : s.started = false → last = .none
  queue : last ≠ .closing → Queued s rest

/-- Closed or failed. -/
structure Over (s : WritableStream α ε) (rest : List (Nat × α)) (last : Ending α ε) : Prop where
  started : s.started = true
  idle : s.sinkWritePromise = false ∧ s.inFlightWriteRequest = none ∧ s.inFlightCloseRequest = none
  writeRequests : s.writeRequests = []
  abort : s.pendingAbortRequest = none
  queue : s.queue = []
  aborting : s.sinkAbortPromise ≠ none ↔ ∃ reason, last = .aborting reason
  kinds : (∀ chunk, last ≠ .writing chunk) ∧ (∀ chunk, last ≠ .refused chunk) ∧ last ≠ .closing
  drained : ∀ answer, last = .closed answer → rest = []
  closed : s.state = .closed → s.sinkAbortPromise = none

/-- Every promise that was made is settled or held, and not twice. -/
def Tallied (s : WritableStream α ε) : Prop :=
  ∀ p, (s.settled.map Settled.promise).count p + s.held.count p = (List.range s.promises).count p

/-- What holds at any time. -/
structure Core (s : WritableStream α ε) (handled rest : List (Nat × α)) (last : Ending α ε) : Prop where
  written : s.written = handled ++ rest
  sink : s.sink = rounds (handled.map Prod.snd) ++ last.events
  fulfilled : fulfilledWrites s.settled = handled.map Prod.fst
  tally : Tallied s
  start : s.startPromise = !s.started
  sinkClose : s.sinkClosePromise = s.inFlightCloseRequest.isSome
  total : s.queueTotalSize = (s.queue.map QueueEntry.size).sum
  ready : s.state = .writable → s.closeQueuedOrInFlight = false → ∀ w, s.writer = some w →
    w.ready = if s.backpressure then .pending else .fulfilled
  pressure : s.state = .writable → s.closeQueuedOrInFlight = false →
    s.backpressure = decide (s.strategyHWM ≤ s.queueTotalSize)
  live : s.state = .writable ∨ s.state = .erroring → Live s rest last
  finished : s.state = .errored ∨ s.state = .closed → Over s rest last

/-- What was to be done is done, until the next event. -/
structure Quiet (s : WritableStream α ε) (last : Ending α ε) : Prop where
  advanced : s.started = true → last = .none → s.state ≠ .erroring ∧ (s.state = .writable → s.queue = [])
  rejected : s.state = .errored ∨ s.state = .closed → s.sinkAbortPromise = none → s.closeRequest = none

end Valid

section Erroring

variable {s : WritableStream α ε} {handled rest : List (Nat × α)} {last : Ending α ε}

theorem assert_of {test : Prop} [Decidable test] (holds : test) : assert test = .ok () := if_pos holds

theorem fulfilledWrites_append (l r : List (Settled ε)) :
    fulfilledWrites (l ++ r) = fulfilledWrites l ++ fulfilledWrites r := List.filterMap_append

theorem fulfilledWrites_rejected (l : List Nat) (e : Reason ε) :
    fulfilledWrites (l.map fun p => (⟨.write, p, .error e⟩ : Settled ε)) = [] := by
  induction l with
  | nil => rfl
  | cons p l ih => exact ih

open WritableStream

/-- The request to close is rejected where there is one. -/
theorem rejectCloseRequest_eq (noClose : s.inFlightCloseRequest = none) :
    s.rejectCloseRequest = .ok { s with
      settled := s.settled ++ s.closeRequest.toList.map fun p => ⟨.close, p, .error s.storedError⟩
      closeRequest := none } := by
  unfold rejectCloseRequest
  split
  case h_1 closing =>
    cases s
    simp_all [pure, Except.pure]
  case h_2 p closing =>
    rw [assert_of noClose, ok_bind, closing]
    rfl

theorem fulfilledWrites_close (l : List Nat) (e : Reason ε) :
    fulfilledWrites (l.map fun p => (⟨.close, p, .error e⟩ : Settled ε)) = [] := by
  induction l with
  | nil => rfl
  | cons p l ih => exact ih

theorem count_cons_singleton (p q : Nat) (l : List Nat) : (q :: l).count p = [q].count p + l.count p := by
  rw [← List.count_append, List.singleton_append]

/-- How often a promise is held. -/
theorem count_held (s : WritableStream α ε) (p : Nat) : s.held.count p = s.writeRequests.count p +
    s.inFlightWriteRequest.toList.count p + s.closeRequest.toList.count p +
    s.inFlightCloseRequest.toList.count p + (s.pendingAbortRequest.map AbortRequest.promise).toList.count p +
    s.sinkAbortPromise.toList.count p := by
  simp only [held, List.count_append]

theorem reject_valid (core : Core s handled rest last) (errored : s.state = .errored) :
    ∃ s', s.rejectCloseAndClosedPromiseIfNeeded = .ok s' ∧ Core s' handled rest last ∧ Quiet s' last ∧
      s'.state = .errored := by
  obtain ⟨started, idle, writeRequests, abort, queue, aborting, kinds, drained, closed⟩ := core.finished
    (.inl errored)
  have promises : (s.closeRequest.toList.map fun p => (⟨.close, p, .error s.storedError⟩ : Settled ε)).map
      Settled.promise = s.closeRequest.toList := by simp [Function.comp_def]
  let s' : WritableStream α ε := { s with
    settled := s.settled ++ s.closeRequest.toList.map fun p => ⟨.close, p, .error s.storedError⟩
    closeRequest := none
    writer := s.writer.map fun writer => writer.rejectClosed s.storedError }
  have runs : s.rejectCloseAndClosedPromiseIfNeeded = .ok s' := by
    unfold rejectCloseAndClosedPromiseIfNeeded
    rw [assert_of errored, ok_bind, rejectCloseRequest_eq idle.2.2]
    rfl
  have tally : Tallied s' := by
    intro p
    have tally := core.tally p
    rw [count_held] at tally ⊢
    simp only [s', List.map_append, promises, List.count_append, Option.toList_none, List.count_nil]
    omega
  have fulfilled : fulfilledWrites s'.settled = handled.map Prod.fst := by
    rw [fulfilledWrites_append, fulfilledWrites_close, List.append_nil, core.fulfilled]
  have notLive : ¬ (s'.state = .writable ∨ s'.state = .erroring) := by simp [s', errored]
  refine ⟨s', runs, ⟨core.written, core.sink, fulfilled, tally, core.start, core.sinkClose, core.total, ?_, ?_,
    ?_, ?_⟩, ⟨?_, fun _ _ => rfl⟩, errored⟩
  · exact fun writable => absurd (.inl writable) notLive
  · exact fun writable => absurd (.inl writable) notLive
  · exact fun live => absurd live notLive
  · exact fun _ => ⟨started, idle, writeRequests, abort, queue, aborting, kinds, drained, closed⟩
  · exact fun _ _ => ⟨fun erroring => notLive (.inr erroring), fun writable => absurd (.inl writable) notLive⟩

theorem callAlgorithm_of (usable : s.algorithms = true) : s.callAlgorithm = .ok () := if_pos usable

/-- A stream whose requests to write are rejected is over, whatever else changes with it. -/
theorem core_over (core : Core s handled rest .none) (erroring : s.state = .erroring) {s' : WritableStream α ε}
    (finished : Over s' rest last) (state : s'.state = .errored) (written : s'.written = s.written)
    (sink : s'.sink = s.sink ++ last.events) (fulfilled : fulfilledWrites s'.settled = fulfilledWrites s.settled)
    (tally : Tallied s') (start : s'.startPromise = s.startPromise) (started : s'.started = s.started)
    (sinkClose : s'.sinkClosePromise = s.sinkClosePromise) (total : s'.queueTotalSize = 0) :
    Core s' handled rest last := by
  obtain ⟨-, -, noClose⟩ := (core.live (.inr erroring)).current
  have notLive : ¬ (s'.state = .writable ∨ s'.state = .erroring) := by simp [state]
  refine ⟨written.trans core.written, ?_, fulfilled.trans core.fulfilled, tally, ?_, ?_, ?_, ?_, ?_, ?_,
    fun _ => finished⟩
  · rw [sink, core.sink]
    simp [Ending.events]
  · rw [start, started, core.start]
  · rw [sinkClose, core.sinkClose, noClose, finished.idle.2.2]
  · rw [total, finished.queue]
    rfl
  · exact fun writable => absurd (.inl writable) notLive
  · exact fun writable => absurd (.inl writable) notLive
  · exact fun live => absurd live notLive

/-- The requests to write are rejected, and then the request to abort is answered, or the sink is told. -/
theorem finish_valid (core : Core s handled rest .none) (erroring : s.state = .erroring)
    (started : s.started = true) :
    ∃ s' last, s.finishErroring = .ok s' ∧ Core s' handled rest last ∧ Quiet s' last ∧ s'.state = .errored := by
  obtain ⟨⟨noPromise, noWrite, noClose⟩, sinkAbort, -, -, usable, -, -⟩ := core.live (.inr erroring)
  have noOperation : s.hasOperationMarkedInFlight = false := by simp [hasOperationMarkedInFlight, noWrite, noClose]
  have promises : (s.writeRequests.map fun promise => (⟨.write, promise, .error s.storedError⟩ : Settled ε)).map
      Settled.promise = s.writeRequests := by simp [Function.comp_def]
  have fulfilled : fulfilledWrites s.rejectRequests.settled = fulfilledWrites s.settled := by
    rw [rejectRequests, fulfilledWrites_append, fulfilledWrites_rejected, List.append_nil]
  have tally : Tallied s.rejectRequests := by
    intro p
    have tally := core.tally p
    rw [count_held] at tally ⊢
    simp only [rejectRequests, resetQueue, List.map_append, promises, List.count_append, List.count_nil] at tally ⊢
    omega
  have pending : s.rejectRequests.pendingAbortRequest = s.pendingAbortRequest := rfl
  unfold finishErroring
  rw [assert_of erroring, ok_bind, assert_of noOperation, ok_bind]
  simp only [pending]
  cases request : s.pendingAbortRequest with
  | none =>
    have finished : Over s.rejectRequests rest .none :=
      ⟨started, ⟨noPromise, noWrite, noClose⟩, rfl, request, rfl, by simp [rejectRequests, resetQueue, sinkAbort],
        by simp, nofun, nofun⟩
    have core' : Core s.rejectRequests handled rest .none := core_over core erroring finished rfl rfl
      (List.append_nil _).symm fulfilled tally rfl rfl rfl rfl
    obtain ⟨s', done, core'', quiet, errored⟩ := reject_valid core' rfl
    exact ⟨s', .none, done, core'', quiet, errored⟩
  | some abortRequest =>
    dsimp only
    unfold finishAbort
    cases already : abortRequest.wasAlreadyErroring with
    | true =>
      let s₁ : WritableStream α ε := { s.rejectRequests with pendingAbortRequest := none }
      let s₂ := s₁.settle .abort abortRequest.promise (.error s.storedError)
      have finished : Over s₂ rest .none := by
        refine ⟨started, ⟨noPromise, noWrite, noClose⟩, rfl, rfl, rfl, ?_, by simp, nofun, nofun⟩
        simp [s₂, s₁, settle, rejectRequests, resetQueue, sinkAbort]
      have tally' : Tallied s₂ := by
        intro p
        have tally := tally p
        rw [count_held] at tally ⊢
        simp [s₂, s₁, settle, request, pending] at tally ⊢
        omega
      have fulfilled' : fulfilledWrites s₂.settled = fulfilledWrites s.settled := by
        rw [← fulfilled]
        exact (fulfilledWrites_append _ _).trans (List.append_nil _)
      have core' : Core s₂ handled rest .none := core_over core erroring finished rfl rfl
        (List.append_nil _).symm fulfilled' tally' rfl rfl rfl rfl
      obtain ⟨s', done, core'', quiet, errored⟩ := reject_valid core' rfl
      exact ⟨s', .none, done, core'', quiet, errored⟩
    | false =>
      have usable' : s.algorithms = true := usable.2 abortRequest request already
      let s₂ : WritableStream α ε := { s.rejectRequests with
        pendingAbortRequest := none
        sink := s.sink ++ [.abort abortRequest.reason]
        algorithms := false
        sinkAbortPromise := some abortRequest.promise }
      have finished : Over s₂ rest (.aborting abortRequest.reason) :=
        ⟨started, ⟨noPromise, noWrite, noClose⟩, rfl, rfl, rfl, by simp [s₂], by simp, nofun, nofun⟩
      have tally' : Tallied s₂ := by
        intro p
        have tally := tally p
        rw [count_held] at tally ⊢
        have before : s.rejectRequests.sinkAbortPromise = none := sinkAbort
        simp [s₂, request, pending, before] at tally ⊢
        omega
      refine ⟨s₂, _, ?_, core_over core erroring finished rfl rfl rfl fulfilled tally' rfl rfl rfl rfl, ?_,
        rfl⟩
      · rw [if_neg (by simp), callAlgorithm_of, ok_bind]
        · rfl
        · exact usable'
      · exact ⟨by simp, fun _ nothing => absurd nothing (by simp [s₂])⟩

/-- Where nothing is in flight the sink has answered all. -/
theorem last_of_idle (core : Core s handled rest last) (live : s.state = .writable ∨ s.state = .erroring)
    (idle : s.hasOperationMarkedInFlight = false) : last = .none := by
  have current := (core.live live).current
  simp only [hasOperationMarkedInFlight, Bool.or_eq_false_iff, Option.isSome_eq_false_iff,
    Option.isNone_iff_eq_none] at idle
  cases last with
  | none => rfl
  | writing chunk =>
    obtain ⟨-, -, promise, later, there, -⟩ := current
    exact absurd (idle.1.symm.trans there) (by simp)
  | refused chunk =>
    obtain ⟨-, -, promise, later, there, -⟩ := current
    exact absurd (idle.1.symm.trans there) (by simp)
  | closing => exact absurd idle.2 current.2.2.1
  | closed _ | aborting _ | aborted _ _ => exact current.elim

/-- A writable stream to which one of the functions that let it fail is applied. -/
def failing (s : WritableStream α ε) (algorithms : Bool) (abortRequest : Option (AbortRequest ε))
    (promises : Nat) (refused : List Nat) : WritableStream α ε :=
  { s with algorithms, pendingAbortRequest := abortRequest, promises, writeRequests := s.writeRequests ++ refused }

theorem startErroring_valid (core : Core s handled rest last) (writable : s.state = .writable) (reason : Reason ε)
    {algorithms : Bool} {abortRequest : Option (AbortRequest ε)} {promises : Nat} {refused : List Nat}
    (usable : algorithms = true ∨ abortRequest = none ∨ last = .closing ∨ ∃ chunk, last = .refused chunk)
    (notClosing : last = .closing → refused = [])
    (tally : Tallied (failing s algorithms abortRequest promises refused)) :
    ∃ s' last', (failing s algorithms abortRequest promises refused).startErroring reason = .ok s' ∧
      Core s' handled rest last' ∧ Quiet s' last' ∧ s'.state ≠ .writable := by
  have live := core.live (.inl writable)
  let s₁ : WritableStream α ε := { failing s algorithms abortRequest promises refused with
    state := .erroring
    storedError := reason
    writer := s.writer.map fun writer => writer.ensureReadyRejected reason }
  have notWritable : s₁.state ≠ .writable := by simp [s₁]
  have usable' : Usable s₁ last := by
    cases last with
    | none | writing _ =>
      refine ⟨fun writable => absurd writable notWritable, fun request there _ => ?_⟩
      rcases usable with usable | nothing | closing | ⟨_, refused⟩
      · exact usable
      · exact absurd (there.symm.trans nothing) (by simp)
      · exact absurd closing (by simp)
      · exact absurd refused (by simp)
    | _ => trivial
  have queue : last ≠ .closing → Queued s₁ rest := by
    intro open'
    obtain ⟨sizes, extra, queue, length, requests, -⟩ := live.queue open'
    refine ⟨sizes, extra ++ refused, queue, length, ?_, fun writable => absurd writable notWritable⟩
    rw [← List.append_assoc, ← requests]
    exact (List.append_assoc ..).symm
  have current : Current s₁ rest last := by
    have current := live.current
    cases last with
    | closing =>
      have same : s₁.writeRequests = s.writeRequests := by simp [s₁, failing, notClosing rfl]
      exact ⟨current.1, current.2.1, current.2.2.1, current.2.2.2.1, same.trans current.2.2.2.2.1, current.2.2.2.2.2⟩
    | _ => exact current
  have core₁ : Core s₁ handled rest last := by
    refine ⟨core.written, core.sink, core.fulfilled, tally, core.start, core.sinkClose, core.total, ?_, ?_,
      fun _ => ?_,
      fun finished => absurd finished (by simp [s₁])⟩
    · exact fun writable => absurd writable notWritable
    · exact fun writable => absurd writable notWritable
    · exact ⟨current, live.sinkAbort, fun writable => absurd writable notWritable,
        fun writable => absurd writable notWritable, usable', live.early, queue⟩
  have undefined : (failing s algorithms abortRequest promises refused).storedError.isUndefined = true := by
    rw [show (failing s algorithms abortRequest promises refused).storedError = _ from live.stored writable]
    rfl
  have writable' : (failing s algorithms abortRequest promises refused).state = .writable := writable
  unfold startErroring
  rw [assert_of undefined, ok_bind, assert_of writable', ok_bind]
  by_cases finish : s₁.hasOperationMarkedInFlight = false ∧ s₁.started
  · obtain rfl := last_of_idle core₁ (.inr rfl) finish.1
    obtain ⟨s', last', done, core', quiet, errored⟩ := finish_valid core₁ rfl finish.2
    exact ⟨s', last', (if_pos finish).trans done, core', quiet, by simp [errored]⟩
  · refine ⟨s₁, last, if_neg finish, core₁, ⟨fun started none => ?_, fun finished => absurd finished (by simp [s₁])⟩,
      notWritable⟩
    subst none
    refine absurd ⟨?_, started⟩ finish
    simp [hasOperationMarkedInFlight, current.2.1, current.2.2]

end Erroring

section Advancing

variable {s : WritableStream α ε} {handled rest : List (Nat × α)} {last : Ending α ε}

open WritableStream

/-- The next request is passed to the sink, unless it has still to answer. -/
theorem advance_valid (core : Core s handled rest last) (live : s.state = .writable ∨ s.state = .erroring)
    (notClosing : last ≠ .closing) :
    ∃ s' last', s.advanceQueueIfNeeded = .ok s' ∧ Core s' handled rest last' ∧ Quiet s' last' := by
  have alive := core.live live
  have notOver : ¬ (s.state = .errored ∨ s.state = .closed) := by
    rcases live with writable | erroring
    · simp [writable]
    · simp [erroring]
  unfold advanceQueueIfNeeded
  by_cases started : s.started = false
  · refine ⟨s, last, if_pos started, core, fun starts => ?_, fun finished => absurd finished notOver⟩
    exact absurd (starts.symm.trans started) (by simp)
  rw [if_neg started]
  by_cases busy : s.inFlightWriteRequest ≠ none
  · refine ⟨s, last, if_pos busy, core, fun _ none => ?_, fun finished => absurd finished notOver⟩
    subst none
    exact absurd alive.current.2.1 busy
  have noWrite : s.inFlightWriteRequest = none := not_not.mp busy
  obtain rfl : last = .none := by
    refine last_of_idle core live ?_
    have current := alive.current
    cases last with
    | none => simp [hasOperationMarkedInFlight, noWrite, current.2.2]
    | closing => exact absurd rfl notClosing
    | writing _ | refused _ => simp [hasOperationMarkedInFlight, noWrite, current.2.1]
    | closed _ | aborting _ | aborted _ _ => exact current.elim
  rw [if_neg busy, assert_of (show s.state ≠ .closed ∧ s.state ≠ .errored by tauto), ok_bind]
  by_cases erroring : s.state = .erroring
  · obtain ⟨s', last', done, core', quiet, -⟩ := finish_valid core erroring (by simpa using started)
    exact ⟨s', last', (if_pos erroring).trans done, core', quiet⟩
  rw [if_neg erroring]
  have writable : s.state = .writable := live.resolve_right erroring
  obtain ⟨noPromise, -, noClose⟩ := alive.current
  obtain ⟨sizes, extra, queue, length, requests, noExtra⟩ := alive.queue notClosing
  obtain rfl := noExtra writable
  have usable : s.algorithms = true := alive.usable.1 writable
  cases rest with
  | nil =>
    cases closing : s.closeRequest with
    | none =>
      have nothing : s.queue = [] := by simp [queue, closing]
      rw [nothing]
      exact ⟨s, .none, rfl, core, fun _ _ => ⟨erroring, fun _ => nothing⟩, fun finished => absurd finished notOver⟩
    | some p =>
      have queue' : s.queue = [⟨none, 0⟩] := by simp [queue, closing]
      have noRequests : s.writeRequests = [] := by simpa [noWrite] using requests
      let s' : WritableStream α ε := { s with
        inFlightCloseRequest := some p
        closeRequest := none
        queue := []
        queueTotalSize := s.queueTotalSize - 0
        sink := s.sink ++ [.close]
        algorithms := false
        sinkClosePromise := true }
      have tally : Tallied s' := by
        intro p'
        have tally := core.tally p'
        rw [count_held] at tally ⊢
        simp [s', closing, noClose] at tally ⊢
        omega
      have sink : s'.sink = rounds (handled.map Prod.snd) ++ Ending.closing.events := by
        rw [show s'.sink = s.sink ++ [.close] from rfl, core.sink]
        simp [Ending.events]
      have total : s'.queueTotalSize = 0 := by
        rw [show s'.queueTotalSize = s.queueTotalSize - 0 from rfl, core.total, queue']
        rfl
      refine ⟨s', .closing, ?_, ⟨core.written, sink, core.fulfilled, tally, core.start, rfl, total, ?_,
        ?_, fun _ => ?_, ?_⟩, ?_⟩
      · simp only [queue', advanceClose, closing]
        rw [assert_of noClose, ok_bind, assert_of (by simp), ok_bind]
        simp only [dequeueValue, pure, Except.pure, ok_bind]
        rw [assert_of trivial, ok_bind, callAlgorithm_of, ok_bind]
        · rfl
        · exact usable
      · exact fun _ open' => absurd open' (by simp [s', closeQueuedOrInFlight])
      · exact fun _ open' => absurd open' (by simp [s', closeQueuedOrInFlight])
      · refine ⟨⟨noPromise, noWrite, by simp [s'], rfl, noRequests, rfl, rfl⟩, alive.sinkAbort, alive.stored,
          alive.abort, trivial, fun early => absurd early started, fun open' => absurd rfl open'⟩
      · exact fun finished => absurd finished notOver
      · exact ⟨fun _ none => absurd none (by simp), fun finished => absurd finished notOver⟩
  | cons w later =>
    obtain ⟨p, chunk⟩ := w
    obtain ⟨n, sizes, rfl⟩ := List.exists_cons_of_length_eq_add_one length
    rw [noWrite, Option.toList_none, List.nil_append, List.map_cons, List.append_nil] at requests
    rw [List.zipWith_cons_cons, List.cons_append] at queue
    let s' : WritableStream α ε := { s with
      inFlightWriteRequest := some p
      writeRequests := later.map Prod.fst
      sink := s.sink ++ [.write chunk]
      sinkWritePromise := true }
    have tally : Tallied s' := by
      intro p'
      have tally := core.tally p'
      rw [count_held] at tally ⊢
      rw [requests, count_cons_singleton] at tally
      simp [s', noWrite] at tally ⊢
      omega
    have sink : s'.sink = rounds (handled.map Prod.snd) ++ (Ending.writing chunk).events := by
      rw [show s'.sink = s.sink ++ [.write chunk] from rfl, core.sink]
      simp [Ending.events]
    refine ⟨s', .writing chunk, ?_, ⟨core.written, sink, core.fulfilled, tally, core.start, core.sinkClose,
      core.total,
      core.ready, core.pressure, fun _ => ?_, ?_⟩, ?_⟩
    · rw [queue]
      dsimp only
      rw [advanceWrite, requests]
      dsimp only
      rw [callAlgorithm_of, ok_bind]
      · rfl
      · exact usable
    · refine ⟨⟨rfl, noClose, p, later, rfl, rfl⟩, alive.sinkAbort, alive.stored, alive.abort, alive.usable,
        fun early => absurd early started, fun _ => ?_⟩
      exact ⟨n :: sizes, [], queue, length, by simp [s'], fun _ => rfl⟩
    · exact fun finished => absurd finished notOver
    · exact ⟨fun _ none => absurd none (by simp), fun finished => absurd finished notOver⟩

end Advancing

/-! ## Reactions -/

section Reactions

variable {s : WritableStream α ε} {handled rest : List (Nat × α)} {last : Ending α ε}

open WritableStream

/-- What holds between two events. -/
def Valid (s : WritableStream α ε) : Prop := ∃ handled rest last, Core s handled rest last ∧ Quiet s last

/-- A step that leads to such a state again. -/
def Steps (result : Except JsError (WritableStream α ε)) : Prop := ∃ s', result = .ok s' ∧ Valid s'

theorem steps_of_advance {result : Except JsError (WritableStream α ε)}
    (advances : ∃ s' last', result = .ok s' ∧ Core s' handled rest last' ∧ Quiet s' last') : Steps result := by
  obtain ⟨s', last', done, core, quiet⟩ := advances
  exact ⟨s', done, handled, rest, last', core, quiet⟩

theorem not_over_of_live (live : s.state = .writable ∨ s.state = .erroring) :
    ¬ (s.state = .errored ∨ s.state = .closed) := by
  rcases live with writable | erroring
  · simp [writable]
  · simp [erroring]

theorem live_or_over (s : WritableStream α ε) : (s.state = .writable ∨ s.state = .erroring) ∨
    (s.state = .errored ∨ s.state = .closed) := by
  cases s.state <;> simp

/-- `startAlgorithm` succeeded, or failed. -/
theorem core_started (core : Core s handled rest last) (early : s.started = false) :
    Core { s with startPromise := false, started := true } handled rest last := by
  refine ⟨core.written, core.sink, core.fulfilled, core.tally, rfl, core.sinkClose, core.total, core.ready,
    core.pressure, fun live => ?_, fun finished => ?_⟩
  · have alive := core.live live
    exact ⟨alive.current, alive.sinkAbort, alive.stored, alive.abort, alive.usable, nofun, alive.queue⟩
  · have finished := core.finished finished
    exact absurd (early.symm.trans finished.started) (by simp)

theorem live_of_early (core : Core s handled rest last) (early : s.started = false) :
    s.state = .writable ∨ s.state = .erroring := by
  refine (live_or_over s).resolve_right fun finished => ?_
  exact absurd (early.symm.trans (core.finished finished).started) (by simp)

theorem steps_startFulfilled (core : Core s handled rest last) (pending : s.startPromise = true) :
    Steps (onStartFulfilled { s with startPromise := false }) := by
  have early : s.started = false := by simpa [pending] using core.start
  have live := live_of_early core early
  obtain rfl := (core.live live).early early
  unfold onStartFulfilled assertOpen
  rw [assert_of live, ok_bind]
  have started := core_started core early
  exact steps_of_advance (advance_valid started live (by simp))

theorem failing_self (s : WritableStream α ε) :
    failing s s.algorithms s.pendingAbortRequest s.promises [] = s := by
  simp [failing]

/-- An error of a stream that is writable or erroring, with nothing in flight. -/
theorem deal_valid (core : Core s handled rest .none) (live : s.state = .writable ∨ s.state = .erroring)
    (started : s.started = true) (reason : Reason ε) : Steps (s.dealWithRejection reason) := by
  unfold dealWithRejection
  by_cases writable : s.state = .writable
  · rw [if_pos writable]
    have none := (core.live live).abort writable
    have tally : Tallied (failing s s.algorithms s.pendingAbortRequest s.promises []) := by
      rw [failing_self]
      exact core.tally
    have fails := startErroring_valid core writable reason (.inr (.inl none)) (fun _ => rfl) tally
    rw [failing_self] at fails
    obtain ⟨s', last', done, core', quiet, -⟩ := fails
    exact ⟨s', done, handled, rest, last', core', quiet⟩
  · have erroring := live.resolve_left writable
    rw [if_neg writable, assert_of erroring, ok_bind]
    obtain ⟨s', last', done, core', quiet, -⟩ := finish_valid core erroring started
    exact ⟨s', done, handled, rest, last', core', quiet⟩

theorem steps_startRejected (core : Core s handled rest last) (pending : s.startPromise = true)
    (reason : Reason ε) : Steps (onStartRejected { s with startPromise := false } reason) := by
  have early : s.started = false := by simpa [pending] using core.start
  have live := live_of_early core early
  obtain rfl := (core.live live).early early
  unfold onStartRejected assertOpen
  rw [assert_of live, ok_bind]
  have started := core_started core early
  exact deal_valid started live rfl reason

/-- What the writer sees follows the queue. -/
theorem updateBackpressure_eq (writable : s.state = .writable) (open' : s.closeQueuedOrInFlight = false)
    (ready : ∀ w, s.writer = some w → w.ready = if s.backpressure then .pending else .fulfilled) (b : Bool) :
    ∃ writer, s.updateBackpressure b = .ok { s with writer, backpressure := b } ∧
      ∀ w, writer = some w → w.ready = if b then .pending else .fulfilled := by
  unfold updateBackpressure
  rw [assert_of writable, ok_bind, assert_of open', ok_bind]
  cases there : s.writer with
  | none => exact ⟨none, rfl, nofun⟩
  | some writer =>
    have was := ready writer there
    refine ⟨some { writer with ready := if b then .pending else .fulfilled }, ?_, ?_⟩
    · obtain ⟨ready, closed⟩ := writer
      obtain rfl := was
      cases b <;> cases flag : s.backpressure <;>
        simp [assert, Writer.resolveReady, PromiseState.isPending, pure, Except.pure, ok_bind]
    · rintro w ⟨⟩
      rfl

/-- The flag is brought up to date, and then the next request is passed on. -/
theorem steps_refresh (live : s.state = .writable ∨ s.state = .erroring) (notClosing : last ≠ .closing)
    (ready : s.state = .writable → s.closeQueuedOrInFlight = false → ∀ w, s.writer = some w →
      w.ready = if s.backpressure then .pending else .fulfilled)
    (core : ∀ writer backpressure, (s.state = .writable → s.closeQueuedOrInFlight = false →
      backpressure = decide (s.strategyHWM ≤ s.queueTotalSize) ∧
        ∀ w, writer = some w → w.ready = if backpressure then .pending else .fulfilled) →
      Core { s with writer, backpressure } handled rest last) :
    Steps (do
      let s ← s.refreshBackpressure
      s.advanceQueueIfNeeded) := by
  unfold refreshBackpressure
  by_cases open' : s.closeQueuedOrInFlight = false ∧ s.state = .writable
  · obtain ⟨writer, done, ready'⟩ := updateBackpressure_eq open'.2 open'.1 (ready open'.2 open'.1) s.getBackpressure
    rw [if_pos open', done, ok_bind]
    have pressure : s.getBackpressure = decide (s.strategyHWM ≤ s.queueTotalSize) := by
      unfold getBackpressure getDesiredSize
      exact decide_eq_decide.mpr (by omega)
    have core' := core writer s.getBackpressure fun _ _ => ⟨pressure, ready'⟩
    exact steps_of_advance (advance_valid core' live notClosing)
  · rw [if_neg open']
    have core' := core s.writer s.backpressure fun writable closing => absurd ⟨closing, writable⟩ open'
    exact steps_of_advance (advance_valid core' live notClosing)

theorem rounds_append (done : List α) (chunk : α) :
    (rounds (done ++ [chunk]) : List (SinkEvent α ε)) = rounds done ++ [.write chunk] ++ [.fulfilled] := by
  simp [rounds]

/-- The write that is in flight, where the sink has still to answer it. -/
theorem writing_of_pending (core : Core s handled rest last) (pending : s.sinkWritePromise = true) :
    (s.state = .writable ∨ s.state = .erroring) ∧ ∃ chunk, last = .writing chunk := by
  rcases live_or_over s with live | finished
  · refine ⟨live, ?_⟩
    have current := (core.live live).current
    cases last with
    | writing chunk => exact ⟨chunk, rfl⟩
    | none | refused _ | closing => exact absurd (pending.symm.trans current.1) (by simp)
    | closed _ | aborting _ | aborted _ _ => exact current.elim
  · exact absurd (pending.symm.trans (core.finished finished).idle.1) (by simp)

theorem steps_writeFulfilled (core : Core s handled rest last) (pending : s.sinkWritePromise = true) :
    Steps (({ s with sinkWritePromise := false } : WritableStream α ε).tell .fulfilled).onWriteFulfilled := by
  obtain ⟨live, chunk, rfl⟩ := writing_of_pending core pending
  have alive := core.live live
  obtain ⟨-, noClose, p, later, there, rfl⟩ := alive.current
  obtain ⟨sizes, extra, queue, length, requests, noExtra⟩ := alive.queue (by simp)
  obtain ⟨n, sizes, rfl⟩ := List.exists_cons_of_length_eq_add_one length
  rw [List.zipWith_cons_cons, List.cons_append] at queue
  have early : s.started = true := by
    by_contra notStarted
    exact absurd (alive.early (by simpa using notStarted)) (by simp)
  let s₁ : WritableStream α ε := { s with
    sinkWritePromise := false
    sink := s.sink ++ [.fulfilled]
    settled := s.settled ++ [⟨.write, p, .ok ()⟩]
    inFlightWriteRequest := none
    queue := later.zipWith (fun w size => ⟨some w.2, size⟩) sizes ++ s.closeRequest.toList.map fun _ => ⟨none, 0⟩
    queueTotalSize := s.queueTotalSize - n }
  have runs : (({ s with sinkWritePromise := false } : WritableStream α ε).tell .fulfilled).onWriteFulfilled = (do
      let s ← s₁.refreshBackpressure
      s.advanceQueueIfNeeded) := by
    simp only [onWriteFulfilled, WritableStream.tell, settle, there, assertOpen]
    rw [assert_of live, ok_bind]
    simp only [dequeueValue, queue, pure, Except.pure, ok_bind]
    rfl
  rw [runs]
  refine @steps_refresh α ε s₁ (handled ++ [(p, chunk)]) later .none live (by simp) core.ready ?_
  intro writer backpressure flow
  have written : s.written = handled ++ [(p, chunk)] ++ later := by
    rw [core.written, List.append_cons]
  have sink : s₁.sink = rounds ((handled ++ [(p, chunk)]).map Prod.snd) ++ Ending.none.events := by
    rw [show s₁.sink = s.sink ++ [.fulfilled] from rfl, core.sink, List.map_append, List.map_singleton, rounds_append]
    simp [Ending.events]
  have fulfilled : fulfilledWrites s₁.settled = (handled ++ [(p, chunk)]).map Prod.fst := by
    rw [fulfilledWrites_append, core.fulfilled, List.map_append]
    rfl
  have tally : Tallied s₁ := by
    intro q
    have tally := core.tally q
    rw [count_held, there] at tally
    rw [count_held]
    simp [s₁] at tally ⊢
    omega
  have total : s₁.queueTotalSize = (s₁.queue.map QueueEntry.size).sum := by
    have total := core.total
    rw [queue, List.map_cons, List.sum_cons] at total
    exact Nat.sub_eq_of_eq_add (total.trans (Nat.add_comm _ _))
  refine ⟨written, sink, fulfilled, tally, core.start, core.sinkClose, total, ?_, ?_, fun _ => ?_, ?_⟩
  · exact fun writable open' => (flow writable open').2
  · exact fun writable open' => (flow writable open').1
  · refine ⟨⟨rfl, rfl, noClose⟩, alive.sinkAbort, alive.stored, alive.abort, alive.usable, fun _ => rfl,
      fun _ => ⟨sizes, extra, rfl, ?_, ?_, noExtra⟩⟩
    · simpa using length
    · rw [there] at requests
      exact List.cons_injective requests
  · exact fun finished => absurd finished (not_over_of_live live)

/-- Of a write that failed the request stays in flight. -/
theorem steps_writeRejected (core : Core s handled rest last) (pending : s.sinkWritePromise = true) :
    ∃ s', (({ s with sinkWritePromise := false } : WritableStream α ε).tell .rejected).onWriteRejected =
      (s', .referenceError) ∧ Valid s' := by
  obtain ⟨live, chunk, rfl⟩ := writing_of_pending core pending
  have alive := core.live live
  obtain ⟨-, noClose, p, later, there, rfl⟩ := alive.current
  let s' : WritableStream α ε := { s with
    sinkWritePromise := false
    sink := s.sink ++ [.rejected]
    algorithms := if s.state = .writable then false else s.algorithms }
  have runs : (({ s with sinkWritePromise := false } : WritableStream α ε).tell .rejected).onWriteRejected =
      (s', .referenceError) := by
    simp only [onWriteRejected, WritableStream.tell, clearAlgorithms, s']
    by_cases writable : s.state = .writable
    · simp [writable, there]
    · simp [writable, there]
  have sink : s'.sink = rounds (handled.map Prod.snd) ++ (Ending.refused chunk).events := by
    rw [show s'.sink = s.sink ++ [.rejected] from rfl, core.sink]
    simp [Ending.events]
  refine ⟨s', runs, handled, _, .refused chunk, ⟨core.written, sink, core.fulfilled, core.tally, core.start,
    core.sinkClose,
    core.total, core.ready, core.pressure, fun _ => ?_, ?_⟩, ⟨nofun, ?_⟩⟩
  · exact ⟨⟨rfl, noClose, p, later, there, rfl⟩, alive.sinkAbort, alive.stored, alive.abort, trivial,
      fun early => absurd (alive.early early) (by simp), fun _ => alive.queue (by simp)⟩
  · exact fun finished => absurd finished (not_over_of_live live)
  · exact fun finished => absurd finished (not_over_of_live live)

/-- The close that is in flight, where the sink has still to answer it. -/
theorem closing_of_pending (core : Core s handled rest last) (pending : s.sinkClosePromise = true) :
    (s.state = .writable ∨ s.state = .erroring) ∧ last = .closing ∧ ∃ p, s.inFlightCloseRequest = some p := by
  have inFlight : s.inFlightCloseRequest.isSome = true := core.sinkClose.symm.trans pending
  obtain ⟨p, there⟩ := Option.isSome_iff_exists.mp inFlight
  rcases live_or_over s with live | finished
  · refine ⟨live, ?_, p, there⟩
    have current := (core.live live).current
    cases last with
    | closing => rfl
    | none => exact absurd (there.symm.trans current.2.2) (by simp)
    | writing _ | refused _ => exact absurd (there.symm.trans current.2.1) (by simp)
    | closed _ | aborting _ | aborted _ _ => exact current.elim
  · exact absurd (there.symm.trans (core.finished finished).idle.2.2) (by simp)

theorem steps_closeFulfilled (core : Core s handled rest last) (pending : s.sinkClosePromise = true) :
    Steps (({ s with sinkClosePromise := false } : WritableStream α ε).tell .fulfilled).onCloseFulfilled := by
  obtain ⟨live, rfl, p, there⟩ := closing_of_pending core pending
  have alive := core.live live
  obtain ⟨noPromise, noWrite, -, noClose, noRequests, noQueue, rfl⟩ := alive.current
  have started : s.started = true := by
    by_contra notStarted
    exact absurd (alive.early (by simpa using notStarted)) (by simp)
  let s' : WritableStream α ε := { s with
    sinkClosePromise := false
    sink := s.sink ++ [.fulfilled]
    settled := s.settled ++ [⟨.close, p, .ok ()⟩] ++ s.pendingAbortRequest.toList.map fun request =>
      ⟨.abort, request.promise, .ok ()⟩
    inFlightCloseRequest := none
    storedError := .undefined
    pendingAbortRequest := none
    state := .closed
    writer := s.writer.map Writer.resolveClosed }
  have runs : (({ s with sinkClosePromise := false } : WritableStream α ε).tell .fulfilled).onCloseFulfilled =
      .ok s' := by
    simp only [onCloseFulfilled, WritableStream.tell, settle, there, assertOpen]
    rw [assert_of live, ok_bind]
    rcases live with writable | erroring
    · have stored := alive.stored writable
      have abort := alive.abort writable
      simp [writable, stored, abort, assert, Reason.isUndefined, s', pure, Except.pure, ok_bind]
    · cases abort : s.pendingAbortRequest with
      | none => simp [erroring, recover, abort, assert, Reason.isUndefined, s', pure, Except.pure, ok_bind]
      | some request =>
        simp [erroring, recover, abort, assert, Reason.isUndefined, s', pure, Except.pure, ok_bind, settle]
  have sink : s'.sink = rounds (handled.map Prod.snd) ++ (Ending.closed .fulfilled).events := by
    rw [show s'.sink = s.sink ++ [.fulfilled] from rfl, core.sink]
    simp [Ending.events, SinkAnswer.event]
  have fulfilled : fulfilledWrites s'.settled = handled.map Prod.fst := by
    rw [← core.fulfilled]
    cases abort : s.pendingAbortRequest <;> simp [s', abort, fulfilledWrites]
  have tally : Tallied s' := by
    intro q
    have tally := core.tally q
    rw [count_held, there] at tally
    rw [count_held]
    cases abort : s.pendingAbortRequest with
    | none =>
      simp [s', abort] at tally ⊢
      omega
    | some request =>
      have both := count_cons_singleton q p [request.promise]
      simp [s', abort] at tally both ⊢
      omega
  have finished : Over s' [] (.closed .fulfilled) := by
    refine ⟨started, ⟨noPromise, noWrite, rfl⟩, noRequests, rfl, noQueue, ?_, by simp, fun _ _ => rfl,
      fun _ => alive.sinkAbort⟩
    simp [s', alive.sinkAbort]
  refine ⟨s', runs, handled, [], .closed .fulfilled, ⟨core.written, sink, fulfilled, tally, core.start, rfl,
    core.total, nofun,
    nofun, ?_, fun _ => finished⟩, ⟨nofun, fun _ _ => noClose⟩⟩
  exact fun live => absurd live (by simp [s'])

/-- A close that failed lets the stream fail, with nothing left to be done. -/
theorem steps_closeRejected (core : Core s handled rest last) (pending : s.sinkClosePromise = true)
    (reason : Reason ε) :
    Steps ((({ s with sinkClosePromise := false } : WritableStream α ε).tell .rejected).onCloseRejected reason) := by
  obtain ⟨live, rfl, p, there⟩ := closing_of_pending core pending
  have alive := core.live live
  obtain ⟨noPromise, noWrite, -, noClose, noRequests, noQueue, rfl⟩ := alive.current
  have started : s.started = true := by
    by_contra notStarted
    exact absurd (alive.early (by simpa using notStarted)) (by simp)
  let s₁ : WritableStream α ε := { s with
    sinkClosePromise := false
    sink := s.sink ++ [.rejected]
    settled := s.settled ++ [⟨.close, p, .error reason⟩] ++ s.pendingAbortRequest.toList.map fun request =>
      ⟨.abort, request.promise, .error reason⟩
    inFlightCloseRequest := none
    pendingAbortRequest := none }
  have runs : (({ s with sinkClosePromise := false } : WritableStream α ε).tell .rejected).onCloseRejected reason =
      s₁.dealWithRejection reason := by
    simp only [onCloseRejected, WritableStream.tell, settle, there, assertOpen]
    rw [assert_of live, ok_bind]
    cases abort : s.pendingAbortRequest with
    | none => simp [abort, s₁]
    | some request => simp [abort, s₁]
  let s₂ : WritableStream α ε := { s₁ with
    state := .errored
    storedError := if s.state = .writable then reason else s.storedError
    writer := if s.state = .writable then s.writer.map fun writer => writer.ensureReadyRejected reason else s.writer
    queueTotalSize := 0 }
  have runs' : s₁.dealWithRejection reason = s₂.rejectCloseAndClosedPromiseIfNeeded := by
    rcases live with writable | erroring
    · have stored := alive.stored writable
      simp [s₁, s₂, dealWithRejection, startErroring, finishErroring, rejectRequests, resetQueue, assert,
        writable, stored, noRequests, noWrite,
        noQueue, started, Reason.isUndefined, hasOperationMarkedInFlight, pure, Except.pure, ok_bind]
    · simp [s₁, s₂, dealWithRejection, finishErroring, rejectRequests, resetQueue, assert, erroring, noRequests,
        noWrite,
        noQueue, hasOperationMarkedInFlight, pure, Except.pure, ok_bind]
  have sink : s₂.sink = rounds (handled.map Prod.snd) ++ (Ending.closed .rejected).events := by
    rw [show s₂.sink = s.sink ++ [.rejected] from rfl, core.sink]
    simp [Ending.events, SinkAnswer.event]
  have fulfilled : fulfilledWrites s₂.settled = handled.map Prod.fst := by
    rw [← core.fulfilled]
    cases abort : s.pendingAbortRequest <;> simp [s₂, s₁, abort, fulfilledWrites]
  have tally : Tallied s₂ := by
    intro q
    have tally := core.tally q
    rw [count_held, there] at tally
    rw [count_held]
    cases abort : s.pendingAbortRequest with
    | none =>
      simp [s₂, s₁, abort] at tally ⊢
      omega
    | some request =>
      have both := count_cons_singleton q p [request.promise]
      simp [s₂, s₁, abort] at tally both ⊢
      omega
  have total : s₂.queueTotalSize = (s₂.queue.map QueueEntry.size).sum := by
    rw [show s₂.queue = [] from noQueue]
    rfl
  have finished : Over s₂ [] (.closed .rejected) := by
    refine ⟨started, ⟨noPromise, noWrite, rfl⟩, noRequests, rfl, noQueue, ?_, by simp, fun _ _ => rfl, nofun⟩
    simp [s₂, s₁, alive.sinkAbort]
  have core₂ : Core s₂ handled [] (.closed .rejected) :=
    ⟨core.written, sink, fulfilled, tally, core.start, rfl, total, nofun, nofun,
      fun live => absurd live (by simp [s₂]), fun _ => finished⟩
  obtain ⟨s', done, core', quiet, -⟩ := reject_valid core₂ rfl
  exact ⟨s', (runs.trans runs').trans done, handled, [], _, core', quiet⟩

/-- The sink has answered the abort. -/
theorem steps_abortSettled (core : Core s handled rest last) {p : Nat} (pending : s.sinkAbortPromise = some p)
    (answer : SinkAnswer) (result : Except (Reason ε) Unit) :
    Steps ((({ s with sinkAbortPromise := none } : WritableStream α ε).tell answer.event).onAbortSettled p result) := by
  have finished' : s.state = .errored ∨ s.state = .closed := by
    refine (live_or_over s).resolve_left fun live => ?_
    exact absurd (pending.symm.trans (core.live live).sinkAbort) (by simp)
  have finished := core.finished finished'
  have errored : s.state = .errored := by
    refine finished'.resolve_right fun closed => ?_
    exact absurd (pending.symm.trans (finished.closed closed)) (by simp)
  obtain ⟨reason, rfl⟩ := finished.aborting.mp (by simp [pending])
  let s₁ : WritableStream α ε := { s with
    sinkAbortPromise := none
    sink := s.sink ++ [answer.event]
    settled := s.settled ++ [⟨.abort, p, result⟩] }
  have sink : s₁.sink = rounds (handled.map Prod.snd) ++ (Ending.aborted reason answer).events := by
    rw [show s₁.sink = s.sink ++ [answer.event] from rfl, core.sink]
    simp [Ending.events]
  have fulfilled : fulfilledWrites s₁.settled = handled.map Prod.fst := by
    rw [← core.fulfilled]
    simp [s₁, fulfilledWrites]
  have tally : Tallied s₁ := by
    intro q
    have tally := core.tally q
    rw [count_held, pending] at tally
    rw [count_held]
    simp [s₁] at tally ⊢
    omega
  have finished₁ : Over s₁ rest (.aborted reason answer) :=
    ⟨finished.started, finished.idle, finished.writeRequests, finished.abort, finished.queue, by simp [s₁],
      by simp, nofun, fun _ => rfl⟩
  have core₁ : Core s₁ handled rest (.aborted reason answer) :=
    ⟨core.written, sink, fulfilled, tally, core.start, core.sinkClose, core.total, core.ready, core.pressure,
      fun live => absurd finished' (not_over_of_live live), fun _ => finished₁⟩
  obtain ⟨s', done, core', quiet, -⟩ := reject_valid core₁ errored
  exact ⟨s', done, handled, rest, _, core', quiet⟩

end Reactions

/-! ## Calls -/

section Calls

variable {s : WritableStream α ε} {handled rest : List (Nat × α)} {last : Ending α ε}

open WritableStream

/-- A promise that is made and settled at once. -/
theorem valid_settleNew (valid : Valid s) (kind : RequestKind) (result : Except (Reason ε) Unit)
    (other : fulfilledWrites [(⟨kind, s.promises, result⟩ : Settled ε)] = []) :
    Valid (s.newPromise.settle kind s.promises result) := by
  obtain ⟨handled, rest, last, core, quiet⟩ := valid
  have fulfilled : fulfilledWrites (s.newPromise.settle kind s.promises result).settled = handled.map Prod.fst := by
    rw [show (s.newPromise.settle kind s.promises result).settled = s.settled ++ [⟨kind, s.promises, result⟩] from
      rfl,
      fulfilledWrites_append, other, List.append_nil, core.fulfilled]
  have tally : Tallied (s.newPromise.settle kind s.promises result) := by
    intro q
    have tally := core.tally q
    rw [count_held] at tally ⊢
    simp only [newPromise, settle, List.range_succ, List.count_append, List.map_append, List.map_cons, List.map_nil]
    omega
  refine ⟨handled, rest, last, ⟨core.written, core.sink, fulfilled, tally, core.start, core.sinkClose,
    core.total, core.ready,
    core.pressure, fun live => ?_, fun finished => ?_⟩, ⟨quiet.advanced, quiet.rejected⟩⟩
  · have alive := core.live live
    exact ⟨alive.current, alive.sinkAbort, alive.stored, alive.abort, alive.usable, alive.early, alive.queue⟩
  · have finished := core.finished finished
    exact ⟨finished.started, finished.idle, finished.writeRequests, finished.abort, finished.queue,
      finished.aborting, finished.kinds,
      finished.drained, finished.closed⟩

theorem steps_promiseRejectedWith (valid : Valid s) (kind : RequestKind) (reason : Reason ε) :
    Steps (.ok (s.promiseRejectedWith kind reason)) := by
  refine ⟨_, rfl, valid_settleNew valid kind _ ?_⟩
  cases kind <;> rfl

/-- A writer comes or goes. -/
theorem valid_writer (valid : Valid s) (writer : Option (Writer ε)) (ready : s.state = .writable →
    s.closeQueuedOrInFlight = false →
      ∀ w, writer = some w → w.ready = if s.backpressure then .pending else .fulfilled) :
    Valid { s with writer } := by
  obtain ⟨handled, rest, last, core, quiet⟩ := valid
  refine ⟨handled, rest, last, ⟨core.written, core.sink, core.fulfilled, core.tally, core.start, core.sinkClose,
    core.total,
    ready, core.pressure, fun live => ?_, fun finished => ?_⟩, ⟨quiet.advanced, quiet.rejected⟩⟩
  · have alive := core.live live
    exact ⟨alive.current, alive.sinkAbort, alive.stored, alive.abort, alive.usable, alive.early, alive.queue⟩
  · have finished := core.finished finished
    exact ⟨finished.started, finished.idle, finished.writeRequests, finished.abort, finished.queue,
      finished.aborting, finished.kinds,
      finished.drained, finished.closed⟩

theorem valid_getWriter (valid : Valid s) : Valid s.getWriter := by
  unfold getWriter
  split
  · exact valid
  · refine valid_writer valid _ fun writable open' w same => ?_
    obtain rfl := Option.some.inj same
    simp [writable, open']

/-- An error of a writable stream that is no longer usable, with requests that were refused for their size. -/
theorem error_valid (core : Core s handled rest last) (writable : s.state = .writable) (error : Reason ε)
    {promises : Nat} {refused : List Nat} (notClosing : last = .closing → refused = [])
    (tally : Tallied (failing s false none promises refused)) :
    ∃ s' last', controllerError { s with promises, writeRequests := s.writeRequests ++ refused } error = .ok s' ∧
      Core s' handled rest last' ∧ Quiet s' last' ∧ s'.state ≠ .writable := by
  have none := (core.live (.inl writable)).abort writable
  have fails := startErroring_valid core writable error (.inr (.inl rfl)) notClosing tally
  have same : failing s false Option.none promises refused =
      clearAlgorithms { s with promises, writeRequests := s.writeRequests ++ refused } := by
    simp [failing, clearAlgorithms, none]
  rw [same] at fails
  unfold controllerError
  rw [assert_of writable, ok_bind]
  exact fails

theorem controllerError_valid (valid : Valid s) (writable : s.state = .writable) (e : Reason ε) :
    ∃ s', s.controllerError e = .ok s' ∧ Valid s' ∧ s'.state ≠ .writable := by
  obtain ⟨handled, rest, last, core, -⟩ := valid
  have none := (core.live (.inl writable)).abort writable
  have tally : Tallied (failing s false Option.none s.promises []) := by
    intro q
    have tally := core.tally q
    rw [count_held] at tally ⊢
    simp only [failing, none, List.append_nil] at tally ⊢
    exact tally
  obtain ⟨s', last', done, core', quiet, failed⟩ := error_valid core writable e (fun _ => rfl) tally
  simp only [List.append_nil] at done
  exact ⟨s', done, ⟨handled, rest, last', core', quiet⟩, failed⟩

theorem steps_error (valid : Valid s) (e : Reason ε) : Steps (s.error e) := by
  unfold WritableStream.error
  by_cases writable : s.state = .writable
  · rw [if_pos writable]
    obtain ⟨s', done, valid', -⟩ := controllerError_valid valid writable e
    exact ⟨s', done, valid'⟩
  · rw [if_neg writable]
    exact ⟨s, rfl, valid⟩

/-- A write to a writable stream is queued, or fails it for its size. -/
theorem steps_acceptWrite (valid : Valid s) (writable : s.state = .writable) (open' : s.closeQueuedOrInFlight = false)
    (writer : s.writer ≠ none) (chunk : α) (chunkSize : Option Nat) : Steps (s.acceptWrite chunk chunkSize) := by
  obtain ⟨handled, rest, last, core, quiet⟩ := valid
  have alive := core.live (.inl writable)
  have notClosing : last ≠ .closing := by
    rintro rfl
    have inFlight := alive.current.2.2.1
    simp only [closeQueuedOrInFlight, Bool.or_eq_false_iff, Option.isSome_eq_false_iff,
      Option.isNone_iff_eq_none] at open'
    exact inFlight open'.2
  unfold acceptWrite
  rw [assert_of writable, ok_bind, assert_of writer, ok_bind]
  cases chunkSize with
  | none =>
    have none := alive.abort writable
    have tally : Tallied (failing s false Option.none (s.promises + 1) [s.promises]) := by
      intro q
      have tally := core.tally q
      rw [count_held] at tally ⊢
      simp only [failing, none, List.count_append, List.range_succ] at tally ⊢
      omega
    obtain ⟨s', last', done, core', quiet', -⟩ := error_valid core writable sizeError
      (fun closing => absurd closing notClosing) tally
    refine ⟨s', ?_, handled, rest, last', core', quiet'⟩
    exact (if_pos writable).trans done
  | some size =>
    obtain ⟨sizes, extra, queue, length, requests, noExtra⟩ := alive.queue notClosing
    obtain rfl := noExtra writable
    let s₁ : WritableStream α ε := { s with
      promises := s.promises + 1
      writeRequests := s.writeRequests ++ [s.promises]
      queue := s.queue ++ [⟨some chunk, size⟩]
      queueTotalSize := s.queueTotalSize + size
      written := s.written ++ [(s.promises, chunk)] }
    have closeRequest : s.closeRequest = none := by
      simp only [closeQueuedOrInFlight, Bool.or_eq_false_iff, Option.isSome_eq_false_iff,
        Option.isNone_iff_eq_none] at open'
      exact open'.1
    refine @steps_refresh α ε s₁ handled (rest ++ [(s.promises, chunk)]) last (.inl writable) notClosing core.ready ?_
    intro writer' backpressure flow
    have written : s₁.written = handled ++ (rest ++ [(s.promises, chunk)]) := by
      rw [← List.append_assoc, ← core.written]
    have tally : Tallied s₁ := by
      intro q
      have tally := core.tally q
      rw [count_held] at tally ⊢
      simp only [s₁, List.count_append, List.range_succ] at tally ⊢
      omega
    have total : s₁.queueTotalSize = (s₁.queue.map QueueEntry.size).sum := by
      simp [s₁, core.total]
    refine ⟨written, core.sink, core.fulfilled, tally, core.start, core.sinkClose, total, ?_, ?_, fun _ => ?_, ?_⟩
    · exact fun writable open' => (flow writable open').2
    · exact fun writable open' => (flow writable open').1
    · have queued : Queued { s₁ with writer := writer', backpressure } (rest ++ [(s.promises, chunk)]) := by
        refine ⟨sizes ++ [size], [], ?_, by simp [length], ?_, fun _ => rfl⟩
        · simp [s₁, queue, closeRequest, List.zipWith_append length.symm]
        · simp only [s₁, ← List.append_assoc, requests, List.append_nil, List.map_append]
          rfl
      refine ⟨?_, alive.sinkAbort, alive.stored, alive.abort, alive.usable, alive.early, fun _ => queued⟩
      have current := alive.current
      cases last with
      | none => exact current
      | writing c | refused c =>
        obtain ⟨promise, noClose, p, later, there, rfl⟩ := current
        exact ⟨promise, noClose, p, later ++ [(s.promises, chunk)], there, rfl⟩
      | closing => exact absurd rfl notClosing
      | closed _ | aborting _ | aborted _ _ => exact current.elim
    · exact fun finished => absurd finished (not_over_of_live (.inl writable))

theorem steps_writeSized (valid : Valid s) (writer : s.state = .writable → s.writer ≠ none) (chunk : α)
    (chunkSize : Option Nat) : Steps (s.writeSized chunk chunkSize) := by
  unfold writeSized
  split
  · exact steps_promiseRejectedWith valid _ _
  case isFalse notErrored =>
    split
    · exact steps_promiseRejectedWith valid _ _
    case isFalse notClosing =>
      split
      · exact steps_promiseRejectedWith valid _ _
      case isFalse notErroring =>
        obtain ⟨open', notClosed⟩ := not_or.mp notClosing
        have writable : s.state = .writable := by
          cases state : s.state <;> simp_all
        exact steps_acceptWrite valid writable (by simpa using open') (writer writable) chunk chunkSize

theorem steps_write (valid : Valid s) (chunk : α) (result : SizeResult ε) : Steps (s.write chunk result) := by
  unfold WritableStream.write
  split
  · exact steps_promiseRejectedWith valid _ _
  case isFalse writer =>
    split
    · exact steps_promiseRejectedWith valid _ _
    · cases result with
      | size n => exact steps_writeSized valid (fun _ => writer) chunk _
      | invalid => exact steps_writeSized valid (fun _ => writer) chunk _
      | throws e =>
        dsimp only
        unfold errorIfNeeded
        by_cases writable : s.state = .writable
        · obtain ⟨s', done, valid', failed⟩ := controllerError_valid valid writable e
          rw [if_pos writable, done, ok_bind]
          exact steps_writeSized valid' (fun writable' => absurd writable' failed) chunk _
        · rw [if_neg writable]
          exact steps_writeSized valid (fun _ => writer) chunk _

theorem steps_close (valid : Valid s) : Steps s.close := by
  unfold WritableStream.close
  by_cases closing : s.closeQueuedOrInFlight = true
  · rw [if_pos closing]
    exact steps_promiseRejectedWith valid _ _
  rw [if_neg closing]
  unfold streamClose
  by_cases closed : s.state = .closed
  · rw [if_pos closed]
    exact steps_promiseRejectedWith valid _ _
  rw [if_neg closed]
  by_cases errored : s.state = .errored
  · rw [if_pos errored]
    exact steps_promiseRejectedWith valid _ _
  obtain ⟨handled, rest, last, core, quiet⟩ := valid
  have live : s.state = .writable ∨ s.state = .erroring := (live_or_over s).resolve_right (by tauto)
  have alive := core.live live
  have open' : s.closeQueuedOrInFlight = false := by simpa using closing
  have parts := open'
  simp only [closeQueuedOrInFlight, Bool.or_eq_false_iff, Option.isSome_eq_false_iff, Option.isNone_iff_eq_none]
    at parts
  have notClosing : last ≠ .closing := by
    rintro rfl
    exact alive.current.2.2.1 parts.2
  unfold assertOpen
  rw [if_neg errored, assert_of live, ok_bind, assert_of open', ok_bind]
  let s₁ : WritableStream α ε := { s with
    promises := s.promises + 1
    closeRequest := some s.promises
    writer := if s.backpressure ∧ s.state = .writable then s.writer.map Writer.resolveReady else s.writer
    queue := s.queue ++ [⟨none, 0⟩]
    queueTotalSize := s.queueTotalSize + 0 }
  have tally : Tallied s₁ := by
    intro q
    have tally := core.tally q
    rw [count_held, parts.1] at tally
    rw [count_held]
    simp only [s₁, Option.toList_some, Option.toList_none, List.count_nil, List.count_append,
      List.range_succ] at tally ⊢
    omega
  have total : s₁.queueTotalSize = (s₁.queue.map QueueEntry.size).sum := by
    simp [s₁, core.total]
  have core₁ : Core s₁ handled rest last := by
    refine ⟨core.written, core.sink, core.fulfilled, tally, core.start, core.sinkClose, total, ?_, ?_,
      fun _ => ?_, ?_⟩
    · exact fun _ open' => absurd open' (by simp [s₁, closeQueuedOrInFlight])
    · exact fun _ open' => absurd open' (by simp [s₁, closeQueuedOrInFlight])
    · obtain ⟨sizes, extra, queue, length, requests, noExtra⟩ := alive.queue notClosing
      have queued : Queued s₁ rest := by
        refine ⟨sizes, extra, ?_, length, requests, noExtra⟩
        simp [s₁, queue, parts.1]
      refine ⟨?_, alive.sinkAbort, alive.stored, alive.abort, alive.usable, alive.early, fun _ => queued⟩
      have current := alive.current
      cases last with
      | closing => exact absurd rfl notClosing
      | _ => exact current
    · exact fun finished => absurd finished (not_over_of_live live)
  exact steps_of_advance (advance_valid core₁ live notClosing)

theorem steps_abort (valid : Valid s) (reason : Reason ε) : Steps (s.abort reason) := by
  unfold WritableStream.abort
  by_cases finished : s.state = .closed ∨ s.state = .errored
  · rw [if_pos finished]
    exact ⟨_, rfl, valid_settleNew valid .abort _ rfl⟩
  rw [if_neg finished]
  by_cases again : s.pendingAbortRequest ≠ none
  · rw [if_pos again]
    exact ⟨s, rfl, valid⟩
  have none : s.pendingAbortRequest = Option.none := not_not.mp again
  obtain ⟨handled, rest, last, core, quiet⟩ := valid
  have live : s.state = .writable ∨ s.state = .erroring := (live_or_over s).resolve_right (by tauto)
  have alive := core.live live
  unfold assertOpen
  rw [if_neg again, assert_of live, ok_bind]
  by_cases erroring : s.state = .erroring
  · let s' : WritableStream α ε := { s with
      promises := s.promises + 1
      pendingAbortRequest := some ⟨s.promises, .undefined, true⟩ }
    have notWritable : s'.state ≠ .writable := by simp [s', erroring]
    have tally : Tallied s' := by
      intro q
      have tally := core.tally q
      rw [count_held, none] at tally
      rw [count_held]
      simp only [s', Option.map_some, Option.map_none, Option.toList_some, Option.toList_none, List.count_nil,
        List.count_append, List.range_succ] at tally ⊢
      omega
    have usable : Usable s' last := by
      cases last with
      | none | writing _ =>
        refine ⟨fun writable => absurd writable notWritable, fun request there first => ?_⟩
        obtain rfl := Option.some.inj there
        exact absurd first (by simp)
      | _ => trivial
    refine ⟨s', if_pos erroring, handled, rest, last, ⟨core.written, core.sink, core.fulfilled, tally, core.start,
      core.sinkClose, core.total, core.ready, core.pressure, fun _ => ?_, ?_⟩, ⟨quiet.advanced, quiet.rejected⟩⟩
    · exact ⟨alive.current, alive.sinkAbort, alive.stored, fun writable => absurd writable notWritable, usable,
        alive.early, alive.queue⟩
    · exact fun finished => absurd finished (not_over_of_live live)
  · have writable : s.state = .writable := live.resolve_right erroring
    rw [if_neg erroring]
    have tally : Tallied (failing s s.algorithms (some ⟨s.promises, reason, false⟩) (s.promises + 1) []) := by
      intro q
      have tally := core.tally q
      rw [count_held, none] at tally
      rw [count_held]
      simp only [failing, Option.map_some, Option.map_none, Option.toList_some, Option.toList_none, List.count_nil,
        List.count_append, List.range_succ] at tally ⊢
      omega
    have usable : s.algorithms = true ∨ (some ⟨s.promises, reason, false⟩ : Option (AbortRequest ε)) = Option.none ∨
        last = .closing ∨ ∃ chunk, last = .refused chunk := by
      have usable := alive.usable
      have current := alive.current
      cases last with
      | none | writing _ => exact .inl (usable.1 writable)
      | refused c => exact .inr (.inr (.inr ⟨c, rfl⟩))
      | closing => exact .inr (.inr (.inl rfl))
      | closed _ | aborting _ | aborted _ _ => exact current.elim
    obtain ⟨s', last', done, core', quiet', -⟩ := startErroring_valid core writable reason usable (fun _ => rfl) tally
    refine ⟨s', ?_, handled, rest, last', core', quiet'⟩
    rw [← done]
    simp [failing, newPromise]

/-- Every event leads to such a state again. -/
theorem steps_perform (valid : Valid s) (event : WritableEvent α ε) : Steps (s.perform event) := by
  obtain ⟨handled, rest, last, core, quiet⟩ := id valid
  cases event with
  | getWriter => exact ⟨_, rfl, valid_getWriter valid⟩
  | releaseLock => exact ⟨_, rfl, valid_writer valid none fun _ _ => nofun⟩
  | write chunk size => exact steps_write valid chunk size
  | close => exact steps_close valid
  | abort reason => exact steps_abort valid reason
  | error e => exact steps_error valid e
  | startFulfilled =>
    by_cases pending : s.startPromise = true
    · obtain ⟨s', done, valid'⟩ := steps_startFulfilled core pending
      exact ⟨s', (if_pos pending).trans done, valid'⟩
    · exact ⟨s, if_neg pending, valid⟩
  | startRejected reason =>
    by_cases pending : s.startPromise = true
    · obtain ⟨s', done, valid'⟩ := steps_startRejected core pending reason
      exact ⟨s', (if_pos pending).trans done, valid'⟩
    · exact ⟨s, if_neg pending, valid⟩
  | writeFulfilled =>
    by_cases pending : s.sinkWritePromise = true
    · obtain ⟨s', done, valid'⟩ := steps_writeFulfilled core pending
      exact ⟨s', (if_pos pending).trans done, valid'⟩
    · exact ⟨s, if_neg pending, valid⟩
  | writeRejected reason =>
    by_cases pending : s.sinkWritePromise = true
    · obtain ⟨s', done, valid'⟩ := steps_writeRejected core pending
      refine ⟨s', ?_, valid'⟩
      simp only [perform, if_pos pending, done]
      rfl
    · exact ⟨s, if_neg pending, valid⟩
  | closeFulfilled =>
    by_cases pending : s.sinkClosePromise = true
    · obtain ⟨s', done, valid'⟩ := steps_closeFulfilled core pending
      exact ⟨s', (if_pos pending).trans done, valid'⟩
    · exact ⟨s, if_neg pending, valid⟩
  | closeRejected reason =>
    by_cases pending : s.sinkClosePromise = true
    · obtain ⟨s', done, valid'⟩ := steps_closeRejected core pending reason
      exact ⟨s', (if_pos pending).trans done, valid'⟩
    · exact ⟨s, if_neg pending, valid⟩
  | abortFulfilled =>
    rw [perform]
    cases pending : s.sinkAbortPromise with
    | none => exact ⟨s, rfl, valid⟩
    | some p => exact steps_abortSettled core pending .fulfilled _
  | abortRejected reason =>
    rw [perform]
    cases pending : s.sinkAbortPromise with
    | none => exact ⟨s, rfl, valid⟩
    | some p => exact steps_abortSettled core pending .rejected _

theorem valid_new (strategyHWM : Nat) : Valid (new strategyHWM : WritableStream α ε) := by
  refine ⟨[], [], .none, ⟨rfl, rfl, rfl, fun _ => rfl, rfl, rfl, rfl, nofun, fun _ _ => ?_, fun _ => ?_, nofun⟩,
    ⟨nofun, nofun⟩⟩
  · simp [new]
  · exact ⟨⟨rfl, rfl, rfl⟩, rfl, fun _ => rfl, fun _ => rfl, ⟨fun _ => rfl, nofun⟩, fun _ => rfl,
      fun _ => ⟨[], [], rfl, rfl, rfl, fun _ => rfl⟩⟩

end Calls

/-! ## Runs -/

section Runs

variable {s : WritableStream α ε} {handled rest : List (Nat × α)} {last : Ending α ε}

open WritableStream

/-- Nothing escapes from any call or reaction. -/
theorem run_valid (strategyHWM : Nat) (events : List (WritableEvent α ε)) :
    ∃ s, run strategyHWM events = .ok s ∧ Valid s := by
  have from' : ∀ (events : List (WritableEvent α ε)) (s : WritableStream α ε), Valid s →
      ∃ s', events.foldlM perform s = .ok s' ∧ Valid s' := by
    intro events
    induction events with
    | nil => exact fun s valid => ⟨s, rfl, valid⟩
    | cons event events ih =>
      intro s valid
      obtain ⟨s₁, done, valid₁⟩ := steps_perform valid event
      obtain ⟨s', done', valid'⟩ := ih s₁ valid₁
      refine ⟨s', ?_, valid'⟩
      rw [List.foldlM_cons, done, ok_bind]
      exact done'
  exact from' events _ (valid_new strategyHWM)

/-- The chunk that the sink was told last is the first of those it has not written. -/
theorem head_of_core (core : Core s handled rest last) {chunk : α}
    (told : last = .writing chunk ∨ last = .refused chunk) : rest.head?.map Prod.snd = some chunk := by
  have live : s.state = .writable ∨ s.state = .erroring := by
    refine (live_or_over s).resolve_right fun finished => ?_
    rcases told with writing | refused
    · exact (core.finished finished).kinds.1 chunk writing
    · exact (core.finished finished).kinds.2.1 chunk refused
  have current := (core.live live).current
  rcases told with rfl | rfl
  · obtain ⟨-, -, p, later, -, rfl⟩ := current
    rfl
  · obtain ⟨-, -, p, later, -, rfl⟩ := current
    rfl

theorem drained_of_core (core : Core s handled rest last)
    (told : last = .closing ∨ ∃ answer, last = .closed answer) : rest = [] := by
  rcases live_or_over s with live | finished
  · have current := (core.live live).current
    rcases told with rfl | ⟨answer, rfl⟩
    · exact current.2.2.2.2.2.2
    · exact current.elim
  · rcases told with closing | ⟨answer, closed⟩
    · exact absurd closing (core.finished finished).kinds.2.2
    · exact (core.finished finished).drained answer closed

/-- The sink is told one thing at a time: first the chunks that were accepted, in their order, and then at most to
close, which it is told when all of them are written, or to abort. The promises of the writes are fulfilled in the
same order, when the sink has written their chunks. -/
theorem sink_conversation (strategyHWM : Nat) (events : List (WritableEvent α ε)) :
    ∃ s handled rest last, run strategyHWM events = .ok s ∧ s.written = handled ++ rest ∧
      s.sink = rounds (handled.map Prod.snd) ++ Ending.events last ∧
      fulfilledWrites s.settled = handled.map Prod.fst ∧
      (∀ chunk, last = .writing chunk ∨ last = .refused chunk → rest.head?.map Prod.snd = some chunk) ∧
      ((last = .closing ∨ ∃ answer, last = .closed answer) → rest = []) := by
  obtain ⟨s, done, handled, rest, last, core, -⟩ := run_valid strategyHWM events
  exact ⟨s, handled, rest, last, done, core.written, core.sink, core.fulfilled, fun chunk => head_of_core core,
    drained_of_core core⟩

/-- Every promise is settled once, or its request is still held. -/
theorem settled_or_held (strategyHWM : Nat) (events : List (WritableEvent α ε)) :
    ∃ s, run strategyHWM events = .ok s ∧
      (s.settled.map Settled.promise ++ s.held).Perm (List.range s.promises) := by
  obtain ⟨s, done, handled, rest, last, core, -⟩ := run_valid strategyHWM events
  refine ⟨s, done, List.perm_iff_count.mpr fun p => ?_⟩
  rw [List.count_append]
  exact core.tally p

theorem suffix_pair_iff {β : Type} (a b c d : β) (l : List β) : [a, b] <:+ l ++ [c, d] ↔ a = c ∧ b = d := by
  rw [← List.reverse_prefix]
  simp [and_comm]

/-- Which endings are those of a refused write. -/
theorem refused_iff (core : Core s handled rest last) : s.Refused ↔ ∃ chunk, last = .refused chunk := by
  rw [Refused, core.sink]
  have suffix_last {chunk : α} {l : List (SinkEvent α ε)} {e : SinkEvent α ε}
      (suffix : [.write chunk, .rejected] <:+ l ++ [e]) : e = .rejected := by
    have reversed := List.reverse_prefix.mpr suffix
    simp only [List.reverse_append, List.reverse_cons, List.reverse_nil, List.nil_append, List.cons_append,
      List.cons_prefix_cons] at reversed
    exact reversed.1.symm
  constructor
  · rintro ⟨chunk, suffix⟩
    cases last with
    | none =>
      exfalso
      rw [Ending.events, List.append_nil] at suffix
      rcases List.eq_nil_or_concat handled with rfl | ⟨before, w, rfl⟩
      · simp [rounds] at suffix
      · rw [List.concat_eq_append, List.map_append, List.map_singleton, rounds_append] at suffix
        exact absurd (suffix_last suffix) (by simp)
    | refused chunk => exact ⟨chunk, rfl⟩
    | writing _ | closing | aborting _ => exact absurd (suffix_last suffix) (by simp)
    | closed _ | aborted _ _ => exact absurd ((suffix_pair_iff _ _ _ _ _).mp suffix).1 (by simp)
  · rintro ⟨chunk, rfl⟩
    exact ⟨chunk, List.suffix_append _ _⟩

/-- Where the sink has answered all that it was told nothing is held, unless it refused a write. -/
theorem held_eq_nil_iff (core : Core s handled rest last) (quiet : Quiet s last) (answered : s.Answered) :
    s.held = [] ↔ ¬ ∃ chunk, last = .refused chunk := by
  obtain ⟨noStart, noWrite, noClose, noAbort⟩ := answered
  have started : s.started = true := by simpa [noStart] using core.start
  have noInFlightClose : s.inFlightCloseRequest = none := by simpa [noClose] using core.sinkClose
  constructor
  · rintro nothing ⟨chunk, rfl⟩
    rcases live_or_over s with live | finished
    · obtain ⟨-, -, promise, later, inFlight, -⟩ := (core.live live).current
      simp [held, inFlight] at nothing
    · exact (core.finished finished).kinds.2.1 chunk rfl
  intro notRefused
  rcases live_or_over s with live | finished
  · have alive := core.live live
    have ended : last = .none := by
      have current := alive.current
      cases last with
      | none => rfl
      | writing chunk => exact absurd (noWrite.symm.trans current.1) (by simp)
      | refused chunk => exact absurd ⟨chunk, rfl⟩ notRefused
      | closing => exact absurd noInFlightClose current.2.2.1
      | closed _ | aborting _ | aborted _ _ => exact current.elim
    subst ended
    obtain ⟨notErroring, empty⟩ := quiet.advanced started rfl
    have writable : s.state = .writable := live.resolve_right notErroring
    obtain ⟨sizes, extra, queue, length, requests, noExtra⟩ := alive.queue (by simp)
    obtain ⟨-, noInFlightWrite, -⟩ := alive.current
    rw [empty writable] at queue
    obtain ⟨zipped, noCloseRequest⟩ := List.append_eq_nil_iff.mp queue.symm
    have noRest : rest = [] := by
      cases rest with
      | nil => rfl
      | cons w rest =>
        cases sizes with
        | nil => simp at length
        | cons size sizes => simp at zipped
    have noRequests : s.writeRequests = [] := by simpa [noInFlightWrite, noRest, noExtra writable] using requests
    have noCloseRequest' : s.closeRequest = none := by
      cases there : s.closeRequest with
      | none => rfl
      | some p => simp [there] at noCloseRequest
    simp [held, noRequests, noInFlightWrite, noCloseRequest', noInFlightClose, alive.abort writable, noAbort]
  · have ended := core.finished finished
    simp [held, ended.writeRequests, ended.idle.2.1, quiet.rejected finished noAbort, noInFlightClose, ended.abort,
      noAbort]

/-- With every answer of the sink all promises are settled, unless it refused a write. -/
theorem answered_settles_iff (strategyHWM : Nat) (events : List (WritableEvent α ε)) :
    ∃ s, run strategyHWM events = .ok s ∧ (s.Answered →
      ((s.settled.map Settled.promise).Perm (List.range s.promises) ↔ ¬ s.Refused)) := by
  obtain ⟨s, done, handled, rest, last, core, quiet⟩ := run_valid strategyHWM events
  refine ⟨s, done, fun answered => ?_⟩
  have all : (s.settled.map Settled.promise ++ s.held).Perm (List.range s.promises) := by
    refine List.perm_iff_count.mpr fun p => ?_
    rw [List.count_append]
    exact core.tally p
  rw [refused_iff core, ← held_eq_nil_iff core quiet answered]
  constructor
  · intro settled
    have length := (settled.trans all.symm).length_eq
    rw [List.length_append] at length
    exact List.length_eq_zero_iff.mp (by omega)
  · intro nothing
    rw [nothing, List.append_nil] at all
    exact all

/-- The writer is told to wait exactly while the chunks that are not yet written reach the high-water mark. -/
theorem ready_iff_below (strategyHWM : Nat) (events : List (WritableEvent α ε)) :
    ∃ s, run strategyHWM events = .ok s ∧ (s.state = .writable → s.closeQueuedOrInFlight = false →
      ∀ w, s.writer = some w → w.ready = if s.strategyHWM ≤ (s.queue.map QueueEntry.size).sum then .pending
        else .fulfilled) := by
  obtain ⟨s, done, handled, rest, last, core, -⟩ := run_valid strategyHWM events
  refine ⟨s, done, fun writable open' w there => ?_⟩
  rw [core.ready writable open' w there, core.pressure writable open', core.total]
  simp

end Runs

end QjsLws.Streams
