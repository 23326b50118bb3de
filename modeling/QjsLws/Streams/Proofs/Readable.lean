import Mathlib.Data.List.Count
import QjsLws.Misc.Run
import QjsLws.Streams.Readable
import QjsLws.Streams.Proofs.Writable

/-!
# Readable streams, proofs

The reads are answered in their order with what the source enqueued in its order, and the source is asked for more
whenever a chunk is wanted. From each call and each reaction the stream comes to such a state again, and nothing
escapes from it.
-/

namespace QjsLws.Streams.ReadableStream

open Misc

variable {α ε : Type}

/-! ## What holds between events -/

section Valid

/-- The reads are answered in their order. Those that wait are the last ones, and nothing is there for them. -/
structure Answering (state : ReadableState) (closeRequested : Bool) (queue : List (α × Nat)) (requests : List Nat)
    (reads : Nat) (answers : List (Nat × ReadResult α ε)) : Prop where
  order : answers.map Prod.fst ++ requests = List.range reads
  waiting : requests ≠ [] → queue = [] ∧ closeRequested = false
  ended : state ≠ .readable → queue = [] ∧ requests = []
  closing : state = .readable → closeRequested = true → queue ≠ []
  done : (∃ p, (p, .done) ∈ answers) → state = .closed

/-- What was accepted is read, or it is in the queue. It is lost where the stream failed or is canceled. -/
def Handing (state : ReadableState) (history : List (Happening ε)) (queue : List (α × Nat)) (accepted : List α)
    (answers : List (Nat × ReadResult α ε)) : Prop :=
  ∃ lost, accepted = delivered answers ++ queue.map Prod.fst ++ lost ∧
    (lost ≠ [] → state = .errored ∨ Canceled history)

/-- The calls of the source: one `pull` at a time, for a chunk that is wanted, and none behind `cancel`. -/
structure Logged (state : ReadableState) (pullPromise : Bool) (history : List (Happening ε)) : Prop where
  count : history.countP Happening.isPull = history.countP Happening.isSettled + if pullPromise then 1 else 0
  overlap : ∀ first, first <+: history → first.countP Happening.isSettled ≤ first.countP Happening.isPull ∧
    first.countP Happening.isPull ≤ first.countP Happening.isSettled + 1
  wanted : ∀ waiting room, .pull waiting room ∈ history → 0 < waiting ∨ 0 < room
  last : ∀ before reason after, history = before ++ .cancel reason :: after → ∀ h ∈ after, h = .settled
  canceled : Canceled history → state = .closed

structure Pulling (state : ReadableState) (algorithms started startPromise pulling pullAgain pullPromise : Bool)
    (history : List (Happening ε)) : Prop where
  usable : state = .readable → algorithms = true
  start : startPromise = true → started = false
  early : started = false → pulling = false
  again : pulling = false → pullAgain = false
  promise : pullPromise = true → pulling = true
  inFlight : state = .readable → pulling = true → pullPromise = true
  logged : Logged state pullPromise history

/-- Each call of `cancel` is settled once, or its promise is kept for the source. -/
structure Canceling (state : ReadableState) (cancels : Nat) (cancelPromise : Option Nat)
    (canceled : List (Nat × Except (Reason ε) Unit)) : Prop where
  tally : ∀ p, (canceled.map Prod.fst).count p + cancelPromise.toList.count p = (List.range cancels).count p
  early : state = .readable → cancelPromise = none

/-- What holds at any time. -/
structure Sound (s : ReadableStream α ε) : Prop where
  answering : Answering s.state s.closeRequested s.queue s.readRequests s.reads s.answers
  handing : Handing s.state s.history s.queue s.accepted s.answers
  pulling : Pulling s.state s.algorithms s.started s.startPromise s.pulling s.pullAgain s.pullPromise s.history
  canceling : Canceling s.state s.cancels s.cancelPromise s.canceled
  closed : ∀ r, s.reader = some r → r.closed = s.closedPromise
  total : s.queueTotalSize = (s.queue.map Prod.snd).sum

/-- A chunk is wanted that can still come. -/
def wants (s : ReadableStream α ε) : Bool :=
  s.canCloseOrEnqueue && s.started &&
    (decide (0 < s.readRequests.length) || decide (0 < (s.strategyHWM - s.queueTotalSize : Int)))

/-- A source from which a chunk is wanted was asked for it since the last read and the last chunk. -/
def Asked (s : ReadableStream α ε) : Prop :=
  s.wants = true →
    (s.pulling = false → ∃ waiting room, [.pull waiting room, .settled] <:+ s.history) ∧
      (s.pulling = true → s.pullAgain = false → ∃ waiting room, [.pull waiting room] <:+ s.history)

/-- It goes on without an exception. -/
def Steps (result : Except JsError (ReadableStream α ε)) : Prop :=
  ∃ s, result = .ok s ∧ Sound s ∧ Asked s

end Valid

section Pull

variable {s : ReadableStream α ε}

theorem Logged.snoc {state state' : ReadableState} {pullPromise pullPromise' : Bool} {history : List (Happening ε)}
    (logged : Logged state pullPromise history) (h : Happening ε)
    (count : (history ++ [h]).countP Happening.isPull =
      (history ++ [h]).countP Happening.isSettled + if pullPromise' then 1 else 0)
    (wanted : ∀ waiting room, h = .pull waiting room → 0 < waiting ∨ 0 < room)
    (open' : h = .settled ∨ state = .readable) (canceled : Canceled (history ++ [h]) → state' = .closed) :
    Logged state' pullPromise' (history ++ [h]) := by
  refine ⟨count, fun first isFirst => ?_, fun waiting room member => ?_, fun before reason after same => ?_, canceled⟩
  · rcases List.prefix_concat_iff.mp isFirst with rfl | isFirst
    · rw [count]
      split <;> omega
    · exact logged.overlap first isFirst
  · rcases List.mem_append.mp member with before | here
    · exact logged.wanted waiting room before
    · exact wanted waiting room (List.mem_singleton.mp here).symm
  · rcases snoc_eq_append_cons.mp same with ⟨rfl, -, -⟩ | ⟨rest, rfl, before'⟩
    · simp
    · have closed : state = .closed := logged.canceled ⟨reason, by simp [before']⟩
      have settled : h = .settled := open'.resolve_right (by simp [closed])
      intro e member
      rcases List.mem_append.mp member with earlier | here
      · exact logged.last before reason rest before' e earlier
      · rw [List.mem_singleton.mp here, settled]

theorem Logged.closed {state : ReadableState} {pullPromise : Bool} {history : List (Happening ε)}
    (logged : Logged .readable pullPromise history) : Logged state pullPromise history :=
  ⟨logged.count, logged.overlap, logged.wanted, logged.last,
    fun canceled => absurd (logged.canceled canceled) (by simp)⟩

theorem Logged.not_canceled {pullPromise : Bool} {history : List (Happening ε)}
    (logged : Logged .readable pullPromise history) : ¬ Canceled history :=
  fun canceled => absurd (logged.canceled canceled) (by simp)

theorem canceled_snoc {history : List (Happening ε)} {h : Happening ε} (other : ∀ reason, h ≠ .cancel reason) :
    Canceled (history ++ [h]) ↔ Canceled history := by
  constructor
  · rintro ⟨reason, member⟩
    rcases List.mem_append.mp member with before | here
    · exact ⟨reason, before⟩
    · exact absurd (List.mem_singleton.mp here).symm (other reason)
  · rintro ⟨reason, member⟩
    exact ⟨reason, List.mem_append_left _ member⟩

theorem Logged.count_other {state : ReadableState} {pullPromise : Bool} {history : List (Happening ε)}
    (logged : Logged state pullPromise history) {h : Happening ε} (pull : h.isPull = false)
    (settled : h.isSettled = false) : (history ++ [h]).countP Happening.isPull =
      (history ++ [h]).countP Happening.isSettled + if pullPromise then 1 else 0 := by
  simpa [pull, settled] using logged.count

/-- Something else than a call of the source happens. -/
theorem Logged.happen {pullPromise : Bool} {history : List (Happening ε)}
    (logged : Logged .readable pullPromise history) {h : Happening ε} (other : h = .read ∨ h = .enqueue) :
    Logged .readable pullPromise (history ++ [h]) := by
  rcases other with rfl | rfl
  · exact logged.snoc _ (logged.count_other rfl rfl) (by simp) (.inr rfl)
      fun canceled => absurd ((canceled_snoc (by simp)).mp canceled) logged.not_canceled
  · exact logged.snoc _ (logged.count_other rfl rfl) (by simp) (.inr rfl)
      fun canceled => absurd ((canceled_snoc (by simp)).mp canceled) logged.not_canceled

theorem Handing.happen {state : ReadableState} {history : List (Happening ε)} {queue : List (α × Nat)}
    {accepted : List α} {answers : List (Nat × ReadResult α ε)}
    (handing : Handing state history queue accepted answers) (h : Happening ε) :
    Handing state (history ++ [h]) queue accepted answers := by
  obtain ⟨lost, same, why⟩ := handing
  refine ⟨lost, same, fun some => (why some).imp_right ?_⟩
  rintro ⟨reason, member⟩
  exact ⟨reason, List.mem_append_left _ member⟩

theorem canClose_iff : s.canCloseOrEnqueue = true ↔ s.closeRequested = false ∧ s.state = .readable := by
  simp [canCloseOrEnqueue]

theorem shouldCallPull_eq (s : ReadableStream α ε) : s.shouldCallPull = .ok s.wants := by
  unfold shouldCallPull wants
  by_cases can : s.canCloseOrEnqueue = true
  · obtain ⟨-, readable⟩ := canClose_iff.mp can
    cases started : s.started with
    | false => simp [can, pure, Except.pure]
    | true =>
      cases reader : s.reader with
      | none => simp [can, isLocked, readRequests, reader, getDesiredSize, readable, pure, Except.pure]
      | some r =>
        by_cases waiting : 0 < r.readRequests.length
        · simp [can, isLocked, readRequests, reader, waiting, pure, Except.pure]
        · simp [can, isLocked, readRequests, reader, waiting, getDesiredSize, readable, pure, Except.pure]
  · simp [can, pure, Except.pure]

/-- The state that `callPullIfNeeded` leaves. -/
def pulled (s : ReadableStream α ε) : ReadableStream α ε :=
  if s.wants = true then
    if s.pulling = true then { s with pullAgain := true }
    else { s.happen (.pull s.readRequests.length (s.strategyHWM - s.queueTotalSize)) with
      pulling := true
      pullPromise := true }
  else s

theorem readable_of_wants (wants : s.wants = true) : s.state = .readable ∧ s.closeRequested = false := by
  simp only [ReadableStream.wants, Bool.and_eq_true] at wants
  exact (canClose_iff.mp wants.1.1).symm

theorem callPull_eq (usable : s.state = .readable → s.algorithms = true)
    (again : s.pulling = false → s.pullAgain = false) : s.callPullIfNeeded = .ok s.pulled := by
  unfold callPullIfNeeded pulled
  rw [shouldCallPull_eq, ok_bind]
  cases wants : s.wants with
  | false => rfl
  | true =>
    cases pulling : s.pulling with
    | true => rfl
    | false =>
      have ready : s.callAlgorithm = .ok () := if_pos (usable (readable_of_wants wants).1)
      simp only [Bool.true_eq_false, Bool.false_eq_true, if_false, if_true]
      rw [assert_of (again pulling), ok_bind, ready, ok_bind]
      rfl

theorem pulled_answer (s : ReadableStream α ε) (p : Nat) (result : ReadResult α ε) :
    s.pulled.answer p result = (s.answer p result).pulled := by
  have same : (s.answer p result).wants = s.wants := rfl
  unfold pulled
  rw [same]
  split
  · show _ = if s.pulling = true then _ else _
    split <;> rfl
  · rfl

theorem asked_of_not_wants (not : s.wants = false) : Asked s := fun wants => absurd (not.symm.trans wants) (by simp)

theorem asked_of_ended (ended : s.state ≠ .readable) : Asked s :=
  fun wants => absurd (readable_of_wants wants).1 ended

theorem pulled_sound (sound : Sound s) : Sound s.pulled ∧ Asked s.pulled := by
  obtain ⟨answering, handing, pulling, canceling, closed, total⟩ := id sound
  unfold pulled
  by_cases wants : s.wants = true
  · obtain ⟨readable, -⟩ := readable_of_wants wants
    rw [if_pos wants]
    by_cases busy : s.pulling = true
    · rw [if_pos busy]
      refine ⟨⟨answering, handing, ?_, canceling, closed, total⟩, fun _ => ⟨fun idle => ?_, fun _ once => ?_⟩⟩
      · exact ⟨pulling.usable, pulling.start, pulling.early, fun idle => absurd (busy.symm.trans idle) (by simp),
          pulling.promise, pulling.inFlight, pulling.logged⟩
      · exact absurd (busy.symm.trans idle) (by simp)
      · exact absurd once (by simp)
    · have idle : s.pulling = false := by simpa using busy
      have noPromise : s.pullPromise = false := by
        cases promise : s.pullPromise with
        | false => rfl
        | true => exact absurd (pulling.promise promise) busy
      have started : s.started = true := by
        simp only [ReadableStream.wants, Bool.and_eq_true] at wants
        exact wants.1.2
      have why : 0 < s.readRequests.length ∨ 0 < (s.strategyHWM - s.queueTotalSize : Int) := by
        simp only [ReadableStream.wants, Bool.and_eq_true, Bool.or_eq_true, decide_eq_true_eq] at wants
        exact wants.2
      have logged := pulling.logged
      have count := logged.count
      rw [readable] at logged
      rw [if_neg busy]
      refine ⟨⟨answering, handing.happen _, ?_, canceling, closed, total⟩, fun _ => ⟨(by simp), fun _ _ => ?_⟩⟩
      · refine ⟨pulling.usable, pulling.start, fun early => absurd (started.symm.trans early) (by simp), (by simp),
          fun _ => rfl, fun _ _ => rfl, ?_⟩
        refine logged.snoc _ ?_ ?_ (.inr rfl) fun canceled => ?_
        · simpa [Happening.isPull, Happening.isSettled, noPromise] using count
        · rintro waiting room ⟨⟩
          exact why
        · exact absurd ((canceled_snoc (by simp)).mp canceled) logged.not_canceled
      · exact ⟨_, _, List.suffix_append _ _⟩
  · rw [if_neg wants]
    exact ⟨sound, fun wants' => absurd wants' wants⟩

/-- A sound state steps on to where the source is asked. -/
theorem steps_callPull (sound : Sound s) : Steps s.callPullIfNeeded :=
  ⟨_, callPull_eq sound.pulling.usable sound.pulling.again, pulled_sound sound⟩

end Pull

/-! ## The end of a stream -/

section End

variable {s s' : ReadableStream α ε}

theorem delivered_append (l r : List (Nat × ReadResult α ε)) : delivered (l ++ r) = delivered l ++ delivered r :=
  List.filterMap_append

theorem delivered_other (l : List Nat) {result : ReadResult α ε} (other : ∀ c, result ≠ .chunk c) :
    delivered (l.map fun p => (p, result)) = [] := by
  induction l with
  | nil => rfl
  | cons p l ih =>
    cases result with
    | chunk c => exact absurd rfl (other c)
    | done | failed e => exact ih

theorem mem_answers {answers : List (Nat × ReadResult α ε)} {requests : List Nat} {result : ReadResult α ε}
    (member : ∃ p, (p, .done) ∈ answers ++ requests.map fun p => (p, result)) :
    (∃ p, (p, .done) ∈ answers) ∨ result = .done := by
  obtain ⟨p, member⟩ := member
  rcases List.mem_append.mp member with before | here
  · exact .inl ⟨p, before⟩
  · obtain ⟨q, -, same⟩ := List.mem_map.mp here
    exact .inr (Prod.mk.inj same).2

/-- Where the requests that wait are settled together the stream ends, whatever else changes with it. -/
theorem sound_ended (sound : Sound s) (readable : s.state = .readable) (result : ReadResult α ε)
    (other : ∀ c, result ≠ .chunk c) (done : result = .done → s'.state = .closed) (state : s'.state ≠ .readable)
    (queue : s'.queue = []) (total : s'.queueTotalSize = 0) (requests : s'.readRequests = [])
    (reads : s'.reads = s.reads) (answers : s'.answers = s.answers ++ s.readRequests.map fun p => (p, result))
    (accepted : s'.accepted = s.accepted) (lost : s.queue ≠ [] → s'.state = .errored ∨ Canceled s'.history)
    (started : s'.started = s.started) (start : s'.startPromise = true → s.startPromise = true)
    (pulling : s'.pulling = s.pulling) (again : s'.pullAgain = s.pullAgain)
    (promise : s'.pullPromise = true → s.pullPromise = true) (logged : Logged s'.state s'.pullPromise s'.history)
    (canceling : Canceling s'.state s'.cancels s'.cancelPromise s'.canceled)
    (closed : ∀ r, s'.reader = some r → r.closed = s'.closedPromise) : Sound s' := by
  have before := sound.answering
  refine ⟨⟨?_, ?_, fun _ => ⟨queue, requests⟩, fun readable' => absurd readable' state, ?_⟩, ?_, ?_, canceling,
    closed, ?_⟩
  · rw [answers, requests, reads, ← before.order]
    simp [Function.comp_def]
  · exact fun some => absurd requests some
  · rw [answers]
    intro member
    rcases mem_answers member with earlier | now
    · exact absurd (before.done earlier) (by simp [readable])
    · exact done now
  · obtain ⟨gone, same, why⟩ := sound.handing
    refine ⟨s.queue.map Prod.fst ++ gone, ?_, fun some => ?_⟩
    · rw [accepted, same, queue, answers, delivered_append, delivered_other _ other]
      simp
    · by_cases empty : s.queue = []
      · have some' : gone ≠ [] := by simpa [empty] using some
        rcases why some' with errored | canceled
        · exact absurd errored (by simp [readable])
        · have logged := sound.pulling.logged
          rw [readable] at logged
          exact absurd canceled logged.not_canceled
      · exact lost empty
  · have before := sound.pulling
    refine ⟨fun readable' => absurd readable' state, ?_, ?_, ?_, ?_, fun readable' => absurd readable' state, logged⟩
    · exact fun pending => started.trans (before.start (start pending))
    · exact fun early => pulling.trans (before.early (started.symm.trans early))
    · exact fun idle => again.trans (before.again (pulling.symm.trans idle))
    · exact fun pending => pulling.trans (before.promise (promise pending))
  · rw [total, queue]
    rfl

/-- The reader when the stream ends: its requests are settled together. -/
def finish (s : ReadableStream α ε) (state : ReadableState) (stored : Reason ε) (result : ReadResult α ε)
    (closed : PromiseState ε) : ReadableStream α ε :=
  { s with
    state
    storedError := stored
    reader := s.reader.map fun _ => ⟨closed, []⟩
    answers := s.answers ++ s.readRequests.map fun p => (p, result) }

theorem streamClose_eq (readable : s.state = .readable)
    (closed : ∀ r, s.reader = some r → r.closed = s.closedPromise) :
    s.streamClose = .ok (s.finish .closed s.storedError .done .fulfilled) := by
  unfold streamClose
  rw [assert_of readable, ok_bind]
  cases reader : s.reader with
  | none => simp [answerAll, finish, readRequests, reader, pure, Except.pure]
  | some r =>
    have pending : r.closed = .pending := by simpa [closedPromise, readable] using closed r reader
    simp [answerAll, finish, readRequests, reader, Reader.resolveClosed, pending, PromiseState.isPending, pure,
      Except.pure]

theorem streamError_eq (readable : s.state = .readable)
    (closed : ∀ r, s.reader = some r → r.closed = s.closedPromise) (e : Reason ε) :
    s.streamError e = .ok (s.finish .errored e (.failed e) (.rejected e)) := by
  unfold streamError
  rw [assert_of readable, ok_bind]
  cases reader : s.reader with
  | none => simp [answerAll, finish, readRequests, reader, pure, Except.pure]
  | some r =>
    have pending : r.closed = .pending := by simpa [closedPromise, readable] using closed r reader
    simp [answerAll, finish, readRequests, reader, Reader.rejectClosed, pending, PromiseState.isPending, pure,
      Except.pure]

theorem requests_finish (s : ReadableStream α ε) (state : ReadableState) (stored : Reason ε)
    (result : ReadResult α ε) (closed : PromiseState ε) :
    (s.finish state stored result closed).readRequests = [] := by
  cases reader : s.reader <;> simp [finish, readRequests, reader]

theorem closed_finish (s : ReadableStream α ε) (state : ReadableState) (stored : Reason ε)
    (result : ReadResult α ε) (closed : PromiseState ε) :
    ∀ r, (s.finish state stored result closed).reader = some r → r.closed = closed := by
  intro r there
  obtain ⟨r', -, rfl⟩ := Option.map_eq_some_iff.mp there
  rfl

/-- A promise of the source that is pending stays so where the stream ends. -/
theorem Canceling.ended {state : ReadableState} {cancels : Nat} {cancelPromise : Option Nat}
    {canceled : List (Nat × Except (Reason ε) Unit)} (canceling : Canceling .readable cancels cancelPromise canceled)
    (ended : state ≠ .readable) : Canceling state cancels cancelPromise canceled :=
  ⟨canceling.tally, fun readable => absurd readable ended⟩

theorem steps_controllerError (sound : Sound s) (asked : Asked s) (e : Reason ε) : Steps (s.controllerError e) := by
  unfold controllerError
  by_cases readable : s.state = .readable
  · have done := @streamError_eq α ε s.resetQueue.clearAlgorithms readable sound.closed e
    have logged := sound.pulling.logged
    have canceling := sound.canceling
    rw [readable] at logged canceling
    refine ⟨_, (if_neg (not_not.mpr readable)).trans done, ?_, asked_of_ended (by simp [finish])⟩
    exact sound_ended sound readable (.failed e) (by simp) (by simp) (by simp [finish]) rfl rfl
      (requests_finish _ _ _ _ _) rfl
      rfl rfl (fun _ => .inl rfl) rfl id rfl rfl id logged.closed (canceling.ended (by simp [finish]))
      (closed_finish _ _ _ _ _)
  · exact ⟨s, if_pos readable, sound, asked⟩

theorem steps_controllerClose (sound : Sound s) (asked : Asked s) : Steps s.controllerClose := by
  unfold controllerClose
  by_cases can : s.canCloseOrEnqueue = true
  · obtain ⟨fresh, readable⟩ := canClose_iff.mp can
    rw [if_neg (by simp [can])]
    dsimp only
    by_cases empty : s.queue = []
    · have done := @streamClose_eq α ε ({ s with closeRequested := true } : ReadableStream α ε).clearAlgorithms
        readable
        sound.closed
      have logged := sound.pulling.logged
      have canceling := sound.canceling
      have total := sound.total
      rw [readable] at logged canceling
      rw [empty] at total
      refine ⟨_, (if_pos empty).trans done, ?_, asked_of_ended (by simp [finish])⟩
      exact sound_ended sound readable .done (by simp) (fun _ => rfl) (by simp [finish]) empty total
        (requests_finish _ _ _ _ _) rfl rfl rfl (fun some => absurd empty some) rfl id rfl rfl id logged.closed
        (canceling.ended (by simp [finish])) (closed_finish _ _ _ _ _)
    · obtain ⟨answering, handing, pulling, canceling, closed, total⟩ := sound
      refine ⟨_, if_neg empty, ⟨⟨answering.order, ?_, answering.ended, fun _ _ => empty, answering.done⟩, handing,
        pulling, canceling, closed, total⟩, asked_of_not_wants ?_⟩
      · exact fun some => absurd (answering.waiting some).1 empty
      · simp [wants, canCloseOrEnqueue]
  · exact ⟨s, if_pos (by simpa using can), sound, asked⟩

theorem steps_cancel (sound : Sound s) (asked : Asked s) (reason : Reason ε) : Steps (s.cancel reason) := by
  have canceling := sound.canceling
  -- a cancel that is settled right away
  have now (result : Except (Reason ε) Unit) : Sound (({ s with disturbed := true, cancels := s.cancels + 1 } :
      ReadableStream α ε).settleCancel s.cancels result) := by
    refine ⟨sound.answering, sound.handing, sound.pulling, ⟨fun p => ?_, canceling.early⟩, sound.closed, sound.total⟩
    have tally := canceling.tally p
    simp only [settleCancel, List.map_append, List.map_singleton, List.count_append, List.range_succ]
    omega
  have states : s.state = .closed ∨ s.state = .errored ∨ s.state = .readable := by cases s.state <;> simp
  rcases states with state | state | state
  · have runs : s.cancel reason = .ok (({ s with disturbed := true, cancels := s.cancels + 1 } :
        ReadableStream α ε).settleCancel s.cancels (.ok ())) := by
      simp only [cancel, state]
      rfl
    exact ⟨_, runs, now _, asked⟩
  · have runs : s.cancel reason = .ok (({ s with disturbed := true, cancels := s.cancels + 1 } :
        ReadableStream α ε).settleCancel s.cancels (.error s.storedError)) := by
      simp only [cancel, state]
      rfl
    exact ⟨_, runs, now _, asked⟩
  · let s₁ : ReadableStream α ε := { s with disturbed := true, cancels := s.cancels + 1 }
    have runs : s.cancel reason = (do
        let s' ← s₁.streamClose
        s'.cancelSteps s.cancels reason) := by
      simp only [cancel, state, s₁]
    have done : s₁.streamClose = _ := streamClose_eq state sound.closed
    have usable : s.algorithms = true := sound.pulling.usable state
    have ready : (s₁.finish .closed s.storedError .done .fulfilled).resetQueue.callAlgorithm = .ok () := if_pos usable
    have logged := sound.pulling.logged
    rw [state] at logged
    rw [runs, done, ok_bind, cancelSteps]
    dsimp only
    rw [ready, ok_bind]
    refine ⟨_, rfl, ?_, asked_of_ended (by simp [happen, clearAlgorithms, resetQueue, finish])⟩
    refine sound_ended sound state .done (by simp) (fun _ => rfl)
      (by simp [happen, clearAlgorithms, resetQueue, finish]) rfl rfl
      (requests_finish s₁ .closed s.storedError .done .fulfilled) rfl rfl rfl
      (fun _ => .inr ⟨reason, by simp [happen, clearAlgorithms, resetQueue, finish]⟩) rfl id rfl rfl id
      (logged.snoc _ (logged.count_other rfl rfl) (by simp) (.inr rfl) fun _ => rfl)
      ⟨fun p => ?_, by simp [happen, clearAlgorithms, resetQueue, finish]⟩
      (closed_finish s₁ .closed s.storedError .done .fulfilled)
    have tally := canceling.tally p
    rw [canceling.early state] at tally
    simp only [s₁, happen, clearAlgorithms, resetQueue, finish, Option.toList_some, List.range_succ,
      List.count_append, Option.toList_none, List.count_nil] at tally ⊢
    omega

end End

/-! ## Calls and reactions -/

section Calls

variable {s : ReadableStream α ε}

/-- A read that finds no one waiting is settled. -/
theorem Answering.answer {state : ReadableState} {closeRequested : Bool} {queue : List (α × Nat)} {reads : Nat}
    {answers : List (Nat × ReadResult α ε)} (answering : Answering state closeRequested queue [] reads answers)
    (result : ReadResult α ε) (done : result = .done → state = .closed) :
    Answering state closeRequested queue [] (reads + 1) (answers ++ [(reads, result)]) where
  order := by
    have order := answering.order
    rw [List.append_nil] at order ⊢
    rw [List.map_append, order, List.range_succ]
    rfl
  waiting some := absurd rfl some
  ended := answering.ended
  closing := answering.closing
  done := by
    rintro ⟨p, member⟩
    rcases List.mem_append.mp member with before | here
    · exact answering.done ⟨p, before⟩
    · exact done (Prod.mk.inj (List.mem_singleton.mp here)).2.symm

theorem delivered_snoc (answers : List (Nat × ReadResult α ε)) (p : Nat) {result : ReadResult α ε}
    (other : ∀ c, result ≠ .chunk c) : delivered (answers ++ [(p, result)]) = delivered answers := by
  rw [delivered_append]
  cases result with
  | chunk c => exact absurd rfl (other c)
  | done | failed e => exact List.append_nil _

/-- A read of a stream that is not open. -/
theorem steps_answer (sound : Sound s) (asked : Asked s) (none : s.readRequests = []) (disturbed : Bool)
    (result : ReadResult α ε) (other : ∀ c, result ≠ .chunk c) (done : result = .done → s.state = .closed) :
    Steps (.ok (({ s with reads := s.reads + 1, disturbed } : ReadableStream α ε).answer s.reads result)) := by
  obtain ⟨answering, ⟨lost, same, why⟩, pulling, canceling, closed, total⟩ := sound
  rw [none] at answering
  refine ⟨_, rfl, ⟨?_, ⟨lost, ?_, why⟩, pulling, canceling, closed, total⟩, asked⟩
  · show Answering _ _ _ s.readRequests _ _
    rw [none]
    exact answering.answer result done
  · show s.accepted = delivered (s.answers ++ [(s.reads, result)]) ++ _ ++ _
    rw [delivered_snoc _ _ other]
    exact same

/-- While the stream is open nothing is lost. -/
theorem accepted_of_readable (sound : Sound s) (readable : s.state = .readable) :
    s.accepted = delivered s.answers ++ s.queue.map Prod.fst := by
  obtain ⟨lost, same, why⟩ := sound.handing
  have logged := sound.pulling.logged
  rw [readable] at logged
  have kept : lost = [] := by
    by_contra some
    rcases why some with errored | canceled
    · exact absurd errored (by simp [readable])
    · exact logged.not_canceled canceled
  rw [same, kept, List.append_nil]

theorem Pulling.happen {algorithms started startPromise pulling pullAgain pullPromise : Bool}
    {history : List (Happening ε)}
    (calls : Pulling .readable algorithms started startPromise pulling pullAgain pullPromise history)
    {h : Happening ε} (other : h = .read ∨ h = .enqueue) :
    Pulling .readable algorithms started startPromise pulling pullAgain pullPromise (history ++ [h]) :=
  ⟨calls.usable, calls.start, calls.early, calls.again, calls.promise, calls.inFlight, calls.logged.happen other⟩

/-- A read that waits. -/
theorem steps_wait (sound : Sound s) (readable : s.state = .readable) {r : Reader ε} (reader : s.reader = some r)
    (empty : s.queue = []) :
    Steps ((({ s with reads := s.reads + 1, disturbed := true } : ReadableStream α ε).happen .read).pullSteps
      s.reads) := by
  obtain ⟨answering, handing, pulling, canceling, closed, total⟩ := id sound
  have requests : s.readRequests = r.readRequests := by simp [readRequests, reader]
  have open' : s.closeRequested = false := by
    cases closing : s.closeRequested with
    | false => rfl
    | true => exact absurd empty (answering.closing readable closing)
  rw [readable] at pulling
  let s₁ : ReadableStream α ε := { s with
    reads := s.reads + 1
    disturbed := true
    history := s.history ++ [.read]
    reader := some { r with readRequests := r.readRequests ++ [s.reads] } }
  have sound₁ : Sound s₁ := by
    refine ⟨⟨?_, fun _ => ⟨empty, open'⟩, fun ended => absurd readable ended, answering.closing, answering.done⟩,
      handing.happen _, ?_, canceling, ?_, total⟩
    · show s.answers.map Prod.fst ++ (r.readRequests ++ [s.reads]) = _
      rw [← List.append_assoc, ← requests, answering.order, ← List.range_succ]
    · show Pulling s.state _ _ _ _ _ _ _
      rw [readable]
      exact pulling.happen (.inl rfl)
    · rintro _ ⟨⟩
      exact closed r reader
  let s₀ : ReadableStream α ε :=
    ({ s with reads := s.reads + 1, disturbed := true } : ReadableStream α ε).happen .read
  have adds : s₀.addReadRequest s.reads = .ok s₁ := by
    have locked : s₀.isLocked = true := by simp [s₀, happen, isLocked, reader]
    have open' : s₀.state = .readable := readable
    unfold addReadRequest
    rw [assert_of locked, ok_bind, assert_of open', ok_bind]
    simp only [s₀, s₁, happen, reader]
    rfl
  have runs : s₀.pullSteps s.reads = s₁.callPullIfNeeded := by
    have empty' : ¬ s₀.queue ≠ [] := not_not.mpr empty
    unfold pullSteps
    rw [if_neg empty', adds, ok_bind]
  rw [runs]
  exact steps_callPull sound₁

theorem delivered_chunk (answers : List (Nat × ReadResult α ε)) (p : Nat) (c : α) :
    delivered (answers ++ [(p, .chunk c)]) = delivered answers ++ [c] := by
  rw [delivered_append]
  rfl

/-- A read that takes a chunk from the queue. -/
theorem steps_take (sound : Sound s) (readable : s.state = .readable) {c : α} {n : Nat} {rest : List (α × Nat)}
    (queue : s.queue = (c, n) :: rest) :
    Steps ((({ s with reads := s.reads + 1, disturbed := true } : ReadableStream α ε).happen .read).pullSteps
      s.reads) := by
  have accepted := accepted_of_readable sound readable
  obtain ⟨answering, handing, pulling, canceling, closed, total⟩ := id sound
  have requests : s.readRequests = [] := by
    by_contra some
    exact absurd (answering.waiting some).1 (by simp [queue])
  rw [requests] at answering
  rw [readable] at pulling canceling
  let s₁ : ReadableStream α ε := { s with
    reads := s.reads + 1
    disturbed := true
    history := s.history ++ [.read]
    queue := rest
    queueTotalSize := s.queueTotalSize - n }
  have runs : (({ s with reads := s.reads + 1, disturbed := true } : ReadableStream α ε).happen .read).pullSteps
      s.reads = (do
        let s' ← if s.closeRequested = true ∧ rest = [] then s₁.clearAlgorithms.streamClose else s₁.callPullIfNeeded
        return s'.answer s.reads (.chunk c)) := by
    simp only [pullSteps, dequeueValue, happen, queue]
    rfl
  have order := (answering.answer (.chunk c) (by simp)).order
  have given : s.accepted = delivered (s.answers ++ [(s.reads, .chunk c)]) ++ rest.map Prod.fst ++ [] := by
    rw [accepted, delivered_chunk, queue]
    simp
  have total₁ : s.queueTotalSize - n = (rest.map Prod.snd).sum := by
    rw [total, queue]
    simp
  have done : (∃ p, (p, .done) ∈ s.answers ++ [(s.reads, .chunk c)]) → s.state = .closed := by
    rintro ⟨p, member⟩
    exact answering.done ⟨p, by simpa using member⟩
  rw [runs]
  by_cases last : s.closeRequested = true ∧ rest = []
  · obtain ⟨closing, rfl⟩ := last
    have closes : s₁.clearAlgorithms.streamClose = _ := streamClose_eq readable closed
    let s₂ := (s₁.clearAlgorithms.finish .closed s.storedError .done .fulfilled).answer s.reads (.chunk c)
    have none : s₂.readRequests = [] := requests_finish s₁.clearAlgorithms .closed s.storedError .done .fulfilled
    have answers : s₂.answers = s.answers ++ [(s.reads, .chunk c)] := by
      show s.answers ++ s.readRequests.map (fun p => (p, ReadResult.done)) ++ [(s.reads, .chunk c)] = _
      rw [requests]
      simp
    have ended : s₂.state ≠ .readable := by simp [s₂, answer, finish]
    rw [if_pos ⟨closing, rfl⟩, closes, ok_bind]
    refine ⟨s₂, rfl, ⟨⟨?_, fun some => absurd none some, fun _ => ⟨rfl, none⟩, fun open' => absurd open' ended,
      fun _ => rfl⟩, ⟨[], ?_, fun some => absurd rfl some⟩, ?_, canceling.ended ended,
      closed_finish s₁.clearAlgorithms .closed s.storedError .done .fulfilled, total₁⟩, asked_of_ended ended⟩
    · rw [answers, none]
      exact order
    · rw [answers]
      exact given
    · exact ⟨fun open' => absurd open' ended, pulling.start, pulling.early, pulling.again, pulling.promise,
        fun open' => absurd open' ended, (pulling.logged.happen (.inl rfl)).closed⟩
  · have pulls : s₁.callPullIfNeeded = .ok s₁.pulled := callPull_eq (fun _ => pulling.usable rfl) pulling.again
    have sound₁ : Sound (s₁.answer s.reads (.chunk c)) := by
      refine ⟨⟨?_, ?_, fun ended => absurd readable ended, ?_, done⟩, ⟨[], given, (by simp)⟩, ?_, ?_, closed, total₁⟩
      · show (s.answers ++ [(s.reads, ReadResult.chunk c)]).map Prod.fst ++ s.readRequests = _
        rw [requests]
        exact order
      · exact fun some => absurd requests some
      · exact fun _ closing empty => last ⟨closing, empty⟩
      · show Pulling s.state _ _ _ _ _ _ _
        rw [readable]
        exact pulling.happen (.inl rfl)
      · show Canceling s.state _ _ _
        rw [readable]
        exact canceling
    rw [if_neg last, pulls, ok_bind]
    refine ⟨_, rfl, ?_⟩
    rw [pulled_answer]
    exact pulled_sound sound₁

theorem steps_read (sound : Sound s) (asked : Asked s) : Steps s.read := by
  cases reader : s.reader with
  | none =>
    have runs : s.read = .ok (({ s with reads := s.reads + 1, disturbed := s.disturbed } :
        ReadableStream α ε).answer s.reads (.failed readerLockError)) := by
      simp only [read, reader]
      rfl
    rw [runs]
    exact steps_answer sound asked (by simp [readRequests, reader]) _ _ (by simp) (by simp)
  | some r =>
    have states : s.state = .closed ∨ s.state = .errored ∨ s.state = .readable := by cases s.state <;> simp
    rcases states with state | state | state
    · have runs : s.read = .ok (({ s with reads := s.reads + 1, disturbed := true } :
          ReadableStream α ε).answer s.reads .done) := by
        simp only [read, reader, state]
        rfl
      rw [runs]
      exact steps_answer sound asked (sound.answering.ended (by simp [state])).2 _ _ (by simp) fun _ => state
    · have runs : s.read = .ok (({ s with reads := s.reads + 1, disturbed := true } :
          ReadableStream α ε).answer s.reads (.failed s.storedError)) := by
        simp only [read, reader, state]
        rfl
      rw [runs]
      exact steps_answer sound asked (sound.answering.ended (by simp [state])).2 _ _ (by simp) (by simp)
    · have runs : s.read = (({ s with reads := s.reads + 1, disturbed := true } :
          ReadableStream α ε).happen .read).pullSteps s.reads := by
        simp only [read, reader, state]
      rw [runs]
      by_cases empty : s.queue = []
      · exact steps_wait sound state reader empty
      · obtain ⟨⟨c, n⟩, rest, queue⟩ := List.exists_cons_of_ne_nil empty
        exact steps_take sound state queue

/-- A chunk for the read that waits the longest. -/
theorem steps_hand (sound : Sound s) (readable : s.state = .readable) {r : Reader ε} (reader : s.reader = some r)
    {p : Nat} {later : List Nat} (requests : r.readRequests = p :: later) (chunk : α) :
    Steps (do
      let s ← s.fulfillReadRequest chunk
      ({ s.happen .enqueue with accepted := s.accepted ++ [chunk] } : ReadableStream α ε).callPullIfNeeded) := by
  have accepted := accepted_of_readable sound readable
  obtain ⟨answering, handing, pulling, canceling, closed, total⟩ := id sound
  have waiting : s.readRequests = p :: later := by simp [readRequests, reader, requests]
  obtain ⟨empty, fresh⟩ := answering.waiting (by simp [waiting])
  rw [readable] at pulling
  let s₁ : ReadableStream α ε := { s with
    reader := some { r with readRequests := later }
    answers := s.answers ++ [(p, .chunk chunk)]
    history := s.history ++ [.enqueue]
    accepted := s.accepted ++ [chunk] }
  have sound₁ : Sound s₁ := by
    refine ⟨⟨?_, fun _ => ⟨empty, fresh⟩, fun ended => absurd readable ended, answering.closing, ?_⟩,
      ⟨[], ?_, (by simp)⟩,
      ?_, canceling, ?_, total⟩
    · have order := answering.order
      rw [waiting] at order
      show (s.answers ++ [(p, ReadResult.chunk chunk)]).map Prod.fst ++ later = _
      rw [← order]
      simp
    · rintro ⟨q, member⟩
      exact answering.done ⟨q, by simpa [s₁] using member⟩
    · show s.accepted ++ [chunk] = delivered (s.answers ++ [(p, .chunk chunk)]) ++ s.queue.map Prod.fst ++ []
      rw [accepted, delivered_chunk, empty]
      simp
    · show Pulling s.state _ _ _ _ _ _ _
      rw [readable]
      exact pulling.happen (.inr rfl)
    · rintro _ ⟨⟩
      exact closed r reader
  have hands : s.fulfillReadRequest chunk = .ok (({ s with reader := some { r with readRequests := later } } :
      ReadableStream α ε).answer p (.chunk chunk)) := by
    simp only [fulfillReadRequest, reader, requests]
    rfl
  rw [hands, ok_bind]
  exact steps_callPull sound₁

/-- A chunk for the queue. -/
theorem steps_queue (sound : Sound s) (readable : s.state = .readable) (fresh : s.closeRequested = false)
    (none : s.readRequests = []) (chunk : α) (size : Nat) :
    Steps ({ (s.enqueueValueWithSize chunk size).happen .enqueue with accepted := s.accepted ++ [chunk] } :
      ReadableStream α ε).callPullIfNeeded := by
  have accepted := accepted_of_readable sound readable
  obtain ⟨answering, handing, pulling, canceling, closed, total⟩ := id sound
  rw [readable] at pulling
  let s₁ : ReadableStream α ε :=
    { (s.enqueueValueWithSize chunk size).happen .enqueue with accepted := s.accepted ++ [chunk] }
  have sound₁ : Sound s₁ := by
    refine ⟨⟨answering.order, fun some => absurd none some, fun ended => absurd readable ended, ?_, answering.done⟩,
      ⟨[], ?_, (by simp)⟩, ?_, canceling, closed, ?_⟩
    · exact fun _ closing => absurd (fresh.symm.trans closing) (by simp)
    · show s.accepted ++ [chunk] = delivered s.answers ++ (s.queue ++ [(chunk, size)]).map Prod.fst ++ []
      rw [accepted]
      simp
    · show Pulling s.state _ _ _ _ _ _ _
      rw [readable]
      exact pulling.happen (.inr rfl)
    · show s.queueTotalSize + size = ((s.queue ++ [(chunk, size)]).map Prod.snd).sum
      rw [total]
      simp
  exact steps_callPull sound₁

theorem steps_enqueue (sound : Sound s) (asked : Asked s) (chunk : α) (size : SizeResult ε) :
    Steps (s.controllerEnqueue chunk size) := by
  unfold controllerEnqueue
  by_cases can : s.canCloseOrEnqueue = true
  · obtain ⟨fresh, readable⟩ := canClose_iff.mp can
    rw [if_neg (by simp [can])]
    by_cases waiting : s.isLocked = true ∧ 0 < s.readRequests.length
    · obtain ⟨locked, some⟩ := waiting
      obtain ⟨r, reader⟩ := Option.isSome_iff_exists.mp locked
      rw [if_pos ⟨locked, some⟩]
      have same : s.readRequests = r.readRequests := by simp [readRequests, reader]
      cases requests : r.readRequests with
      | nil => simp [same, requests] at some
      | cons p later => exact steps_hand sound readable reader requests chunk
    · have none : s.readRequests = [] := by
        cases reader : s.reader with
        | none => simp [readRequests, reader]
        | some r => simpa [isLocked, reader] using waiting
      have ready : s.callAlgorithm = .ok () := if_pos (sound.pulling.usable readable)
      rw [if_neg waiting, ready, ok_bind]
      cases size with
      | throws e => exact steps_controllerError sound asked e
      | invalid => exact steps_controllerError sound asked _
      | size n => exact steps_queue sound readable fresh none chunk n
  · exact ⟨s, if_pos (by simpa using can), sound, asked⟩

theorem sound_getReader (sound : Sound s) (asked : Asked s) : Sound s.getReader ∧ Asked s.getReader := by
  unfold getReader
  cases reader : s.reader with
  | some r => exact ⟨sound, asked⟩
  | none =>
    obtain ⟨answering, handing, pulling, canceling, closed, total⟩ := sound
    have none : s.readRequests = [] := by simp [readRequests, reader]
    rw [none] at answering
    refine ⟨⟨answering, handing, pulling, canceling, ?_, total⟩, ?_⟩
    · rintro _ ⟨⟩
      rfl
    · intro wants
      refine asked (Eq.trans ?_ wants)
      simp [ReadableStream.wants, canCloseOrEnqueue, readRequests, reader]

theorem steps_releaseLock (sound : Sound s) (asked : Asked s) : Steps s.releaseLock := by
  cases reader : s.reader with
  | none => exact ⟨s, by simp only [releaseLock, reader]; rfl, sound, asked⟩
  | some r =>
    obtain ⟨answering, ⟨lost, same, why⟩, pulling, canceling, closed, total⟩ := id sound
    have runs : s.releaseLock = .ok { s.answerAll (.failed releasedError) with reader := none } := by
      simp only [releaseLock, reader]
      by_cases readable : s.state = .readable
      · rw [if_neg (not_not.mpr readable)]
        rfl
      · have told : r.closed.isPending = false := by
          rw [closed r reader, closedPromise]
          cases state : s.state with
          | readable => exact absurd state readable
          | closed | errored => rfl
        rw [if_pos readable, assert_of told, ok_bind]
        rfl
    rw [runs]
    refine ⟨_, rfl, ⟨⟨?_, fun some => absurd rfl some, fun ended => ⟨(answering.ended ended).1, rfl⟩,
      answering.closing, ?_⟩, ⟨lost, ?_, why⟩, pulling, canceling, (by simp), total⟩, ?_⟩
    · show (s.answers ++ s.readRequests.map fun p => (p, ReadResult.failed releasedError)).map Prod.fst ++ [] =
        List.range s.reads
      rw [← answering.order]
      simp [Function.comp_def]
    · intro member
      rcases mem_answers member with before | now
      · exact answering.done before
      · exact absurd now (by simp)
    · show s.accepted =
        delivered (s.answers ++ s.readRequests.map fun p => (p, ReadResult.failed releasedError)) ++ _ ++ _
      rw [delivered_append, delivered_other _ (by simp), List.append_nil]
      exact same
    · intro wants
      refine asked ?_
      simp only [ReadableStream.wants, canCloseOrEnqueue, answerAll, readRequests, List.length_nil, Nat.lt_irrefl,
        decide_false, Bool.false_or, Bool.and_eq_true] at wants ⊢
      exact ⟨wants.1, Bool.or_eq_true_iff.mpr (.inr wants.2)⟩

theorem steps_startFulfilled (sound : Sound s) (pending : s.startPromise = true) :
    Steps ({ s with startPromise := false } : ReadableStream α ε).onStartFulfilled := by
  obtain ⟨answering, handing, pulling, canceling, closed, total⟩ := id sound
  have idle : s.pulling = false := pulling.early (pulling.start pending)
  unfold onStartFulfilled
  dsimp only
  rw [assert_of idle, ok_bind, assert_of (pulling.again idle), ok_bind]
  refine steps_callPull ⟨answering, handing, ?_, canceling, closed, total⟩
  exact ⟨pulling.usable, (by simp), (by simp), pulling.again, pulling.promise, pulling.inFlight, pulling.logged⟩

/-- The state behind the end of a call of `pull`. -/
theorem sound_settled (sound : Sound s) (pending : s.pullPromise = true) :
    Logged s.state false (s.history ++ [.settled]) := by
  have logged := sound.pulling.logged
  have count := logged.count
  refine logged.snoc _ ?_ (by simp) (.inl rfl) fun canceled => logged.canceled ((canceled_snoc (by simp)).mp canceled)
  simpa [Happening.isPull, Happening.isSettled, pending] using count

theorem steps_pullFulfilled (sound : Sound s) (asked : Asked s) (pending : s.pullPromise = true) :
    Steps (({ s with pullPromise := false } : ReadableStream α ε).happen .settled).onPullFulfilled := by
  obtain ⟨answering, handing, pulling, canceling, closed, total⟩ := id sound
  have logged := sound_settled sound pending
  have busy : s.pulling = true := pulling.promise pending
  unfold onPullFulfilled
  dsimp only
  by_cases again : s.pullAgain = true
  · have again' : (({ s with pullPromise := false } : ReadableStream α ε).happen .settled).pullAgain = true := again
    rw [if_pos again']
    refine steps_callPull ⟨answering, handing.happen _, ?_, canceling, closed, total⟩
    exact ⟨pulling.usable, pulling.start, fun _ => rfl, fun _ => rfl, fun busy => absurd busy Bool.false_ne_true,
      fun _ busy => absurd busy Bool.false_ne_true, logged⟩
  · refine ⟨_, if_neg again, ⟨answering, handing.happen _, ?_, canceling, closed, total⟩, fun wants => ?_⟩
    · exact ⟨pulling.usable, pulling.start, fun _ => rfl, fun _ => Bool.eq_false_iff.mpr again,
        fun busy => absurd busy Bool.false_ne_true, fun _ busy => absurd busy Bool.false_ne_true, logged⟩
    · refine ⟨fun _ => ?_, (by simp)⟩
      obtain ⟨waiting, room, before, same⟩ := (asked wants).2 busy (by simpa using again)
      refine ⟨waiting, room, before, ?_⟩
      show _ = s.history ++ [.settled]
      rw [← same]
      simp

theorem steps_pullRejected (sound : Sound s) (pending : s.pullPromise = true) (reason : Reason ε) :
    Steps ((({ s with pullPromise := false } : ReadableStream α ε).happen .settled).controllerError reason) := by
  have logged := sound_settled sound pending
  unfold controllerError
  by_cases readable : s.state = .readable
  · have done := @streamError_eq α ε
      (({ s with pullPromise := false } : ReadableStream α ε).happen .settled).resetQueue.clearAlgorithms readable
      sound.closed reason
    have canceling := sound.canceling
    rw [readable] at logged canceling
    refine ⟨_, (if_neg (not_not.mpr readable)).trans done, ?_, asked_of_ended (by simp [finish])⟩
    exact sound_ended sound readable (.failed reason) (by simp) (by simp) (by simp [finish]) rfl rfl
      (requests_finish _ _ _ _ _)
      rfl rfl rfl (fun _ => .inl rfl) rfl id rfl rfl (fun pending => absurd pending Bool.false_ne_true) logged.closed
      (canceling.ended (by simp [finish]))
      (closed_finish _ _ _ _ _)
  · obtain ⟨answering, handing, pulling, canceling, closed, total⟩ := sound
    refine ⟨_, if_pos readable, ⟨answering, handing.happen _, ?_, canceling, closed, total⟩, asked_of_ended readable⟩
    exact ⟨pulling.usable, pulling.start, pulling.early, pulling.again,
      fun pending => absurd pending Bool.false_ne_true, fun open' => absurd open' readable, logged⟩

theorem steps_cancelSettled (sound : Sound s) (asked : Asked s) {p : Nat} (pending : s.cancelPromise = some p)
    (result : Except (Reason ε) Unit) :
    Steps (.ok (({ s with cancelPromise := none } : ReadableStream α ε).settleCancel p result)) := by
  obtain ⟨answering, handing, pulling, canceling, closed, total⟩ := sound
  refine ⟨_, rfl, ⟨answering, handing, pulling, ⟨fun q => ?_, fun _ => rfl⟩, closed, total⟩, asked⟩
  have tally := canceling.tally q
  rw [pending] at tally
  simp only [settleCancel, List.map_append, List.map_singleton, List.count_append, Option.toList_some,
    Option.toList_none, List.count_nil] at tally ⊢
  omega

/-- Every event leads to such a state again. -/
theorem steps_perform (sound : Sound s) (asked : Asked s) (event : ReadableEvent α ε) : Steps (s.perform event) := by
  obtain ⟨answering, handing, pulling, canceling, closed, total⟩ := id sound
  cases event with
  | getReader => exact ⟨_, rfl, sound_getReader sound asked⟩
  | releaseLock => exact steps_releaseLock sound asked
  | read => exact steps_read sound asked
  | cancel reason => exact steps_cancel sound asked reason
  | enqueue chunk size => exact steps_enqueue sound asked chunk size
  | close => exact steps_controllerClose sound asked
  | error e => exact steps_controllerError sound asked e
  | startFulfilled =>
    by_cases pending : s.startPromise = true
    · obtain ⟨s', done, after⟩ := steps_startFulfilled sound pending
      exact ⟨s', (if_pos pending).trans done, after⟩
    · exact ⟨s, if_neg pending, sound, asked⟩
  | startRejected reason =>
    by_cases pending : s.startPromise = true
    · have sound₁ : Sound ({ s with startPromise := false } : ReadableStream α ε) :=
        ⟨answering, handing, ⟨pulling.usable, (by simp), pulling.early, pulling.again, pulling.promise,
          pulling.inFlight,
          pulling.logged⟩, canceling, closed, total⟩
      obtain ⟨s', done, after⟩ := steps_controllerError sound₁ asked reason
      exact ⟨s', (if_pos pending).trans done, after⟩
    · exact ⟨s, if_neg pending, sound, asked⟩
  | pullFulfilled =>
    by_cases pending : s.pullPromise = true
    · obtain ⟨s', done, after⟩ := steps_pullFulfilled sound asked pending
      exact ⟨s', (if_pos pending).trans done, after⟩
    · exact ⟨s, if_neg pending, sound, asked⟩
  | pullRejected reason =>
    by_cases pending : s.pullPromise = true
    · obtain ⟨s', done, after⟩ := steps_pullRejected sound pending reason
      exact ⟨s', (if_pos pending).trans done, after⟩
    · exact ⟨s, if_neg pending, sound, asked⟩
  | cancelFulfilled =>
    rw [perform]
    cases pending : s.cancelPromise with
    | none => exact ⟨s, rfl, sound, asked⟩
    | some p => exact steps_cancelSettled sound asked pending _
  | cancelRejected reason =>
    rw [perform]
    cases pending : s.cancelPromise with
    | none => exact ⟨s, rfl, sound, asked⟩
    | some p => exact steps_cancelSettled sound asked pending _

theorem logged_new : Logged .readable false ([] : List (Happening ε)) where
  count := rfl
  overlap first isFirst := by
    obtain rfl := List.prefix_nil.mp isFirst
    exact ⟨Nat.le_refl 0, Nat.zero_le 1⟩
  wanted := by simp
  last := by simp
  canceled := by simp [Canceled]

theorem sound_new (strategyHWM : Nat) : Sound (new strategyHWM : ReadableStream α ε) where
  answering := ⟨rfl, fun some => absurd rfl some, fun ended => absurd rfl ended, by simp [new], by simp [new]⟩
  handing := ⟨[], rfl, fun some => absurd rfl some⟩
  pulling := ⟨fun _ => rfl, fun _ => rfl, fun _ => rfl, fun _ => rfl, by simp [new], by simp [new], logged_new⟩
  canceling := ⟨fun _ => rfl, fun _ => rfl⟩
  closed := by simp [new]
  total := rfl

end Calls

/-! ## Runs -/

section Runs

/-- Nothing escapes from any call or reaction. -/
theorem run_sound (strategyHWM : Nat) (events : List (ReadableEvent α ε)) :
    ∃ s, run strategyHWM events = .ok s ∧ Sound s ∧ Asked s := by
  have from' : ∀ (events : List (ReadableEvent α ε)) (s : ReadableStream α ε), Sound s → Asked s →
      ∃ s', events.foldlM perform s = .ok s' ∧ Sound s' ∧ Asked s' := by
    intro events
    induction events with
    | nil => exact fun s sound asked => ⟨s, rfl, sound, asked⟩
    | cons event events ih =>
      intro s sound asked
      obtain ⟨s₁, done, sound₁, asked₁⟩ := steps_perform sound asked event
      obtain ⟨s', done', after⟩ := ih s₁ sound₁ asked₁
      refine ⟨s', ?_, after⟩
      rw [List.foldlM_cons, done, ok_bind]
      exact done'
  exact from' events _ (sound_new strategyHWM) (asked_of_not_wants rfl)

/-- The source is asked for one chunk at a time, when a read waits or there is room in the queue, and not behind a
call of `cancel`. Where a chunk is wanted and no call of `pull` is under way, there was one since the last read and
the last chunk, so that no wish for a chunk is forgotten. -/
theorem pulls_when_wanted (strategyHWM : Nat) (events : List (ReadableEvent α ε)) :
    ∃ s, run strategyHWM events = .ok s ∧
      (∀ first, first <+: s.history → first.countP Happening.isSettled ≤ first.countP Happening.isPull ∧
        first.countP Happening.isPull ≤ first.countP Happening.isSettled + 1) ∧
      (∀ waiting room, .pull waiting room ∈ s.history → 0 < waiting ∨ 0 < room) ∧
      (∀ before reason after, s.history = before ++ .cancel reason :: after → ∀ h ∈ after, h = .settled) ∧
      (s.shouldCallPull = .ok true → s.pulling = false →
        ∃ waiting room, [.pull waiting room, .settled] <:+ s.history) := by
  obtain ⟨s, done, sound, asked⟩ := run_sound strategyHWM events
  have logged := sound.pulling.logged
  refine ⟨s, done, logged.overlap, logged.wanted, logged.last, fun wants idle => ?_⟩
  rw [shouldCallPull_eq, Except.ok.injEq] at wants
  exact (asked wants).1 idle

/-- Each call of `cancel` is settled once or waits for the source, and a reader is told of the end of the stream when
it ends. -/
theorem cancels_settled_or_held (strategyHWM : Nat) (events : List (ReadableEvent α ε)) :
    ∃ s, run strategyHWM events = .ok s ∧
      (s.canceled.map Prod.fst ++ s.cancelPromise.toList).Perm (List.range s.cancels) ∧
      ∀ r, s.reader = some r → r.closed = s.closedPromise := by
  obtain ⟨s, done, sound, -⟩ := run_sound strategyHWM events
  refine ⟨s, done, List.perm_iff_count.mpr fun p => ?_, sound.closed⟩
  rw [List.count_append]
  exact sound.canceling.tally p

end Runs

end QjsLws.Streams.ReadableStream
