import Mathlib.Data.List.TakeWhile
import QjsLws.Stream.ByteQueue

/-!
# Reading from pushed bytes, proofs

As long as each read is issued after the last one was resolved, at most the last read waits, and what was
resolved are the slices for the reads before it. A read that is issued earlier takes the place of the one that
waits, whose promise is then never resolved.
-/

namespace QjsLws.Stream

open QjsLws.Misc

/-! ## Slices -/

section Slices

variable {lengths : List Nat} {stream : List UInt8}

/-- What the reads leave of a stream. -/
def leftover : List Nat → List UInt8 → List UInt8
  | [], stream => stream
  | n :: lengths, stream =>
    if n ≤ stream.length then leftover lengths (stream.drop n) else leftover lengths stream

/-- The stream is long enough for all of the reads. -/
def Fits (lengths : List Nat) (stream : List UInt8) : Prop := ∀ slice ∈ slices lengths stream, slice.isSome = true

theorem length_slices (lengths : List Nat) (stream : List UInt8) :
    (slices lengths stream).length = lengths.length := by
  induction lengths generalizing stream with
  | nil => rfl
  | cons n lengths ih =>
    rw [slices]
    split <;> rw [List.length_cons, List.length_cons, ih]

theorem slices_append (first second : List Nat) (stream : List UInt8) :
    slices (first ++ second) stream = slices first stream ++ slices second (leftover first stream) := by
  induction first generalizing stream with
  | nil => rfl
  | cons n first ih =>
    rw [List.cons_append, slices, slices, leftover]
    split <;> rw [ih, List.cons_append]

theorem leftover_append (first second : List Nat) (stream : List UInt8) :
    leftover (first ++ second) stream = leftover second (leftover first stream) := by
  induction first generalizing stream with
  | nil => rfl
  | cons n first ih =>
    rw [List.cons_append, leftover, leftover]
    split <;> rw [ih]

/-- More of a stream that was long enough changes nothing. -/
theorem slices_fed (fits : Fits lengths stream) (chunk : List UInt8) :
    slices lengths (stream ++ chunk) = slices lengths stream ∧
      leftover lengths (stream ++ chunk) = leftover lengths stream ++ chunk := by
  induction lengths generalizing stream with
  | nil => exact ⟨rfl, rfl⟩
  | cons n lengths ih =>
    by_cases enough : n ≤ stream.length
    · have longer : n ≤ (stream ++ chunk).length := by
        rw [List.length_append]
        exact Nat.le_add_right_of_le enough
      rw [Fits, slices, if_pos enough] at fits
      obtain ⟨same, left⟩ := ih fun slice member => fits slice (List.mem_cons_of_mem _ member)
      rw [slices, slices, leftover, leftover, if_pos enough, if_pos longer, if_pos enough, if_pos longer,
        List.take_append_of_le_length enough, List.drop_append_of_le_length enough, same, left]
      exact ⟨rfl, rfl⟩
    · rw [Fits, slices, if_neg enough] at fits
      exact absurd (fits none List.mem_cons_self) Bool.false_ne_true

theorem answers_of_fits {closed : Bool} (fits : closed = true ∨ Fits lengths stream) :
    answers closed lengths stream = slices lengths stream := by
  cases closed with
  | true => rfl
  | false => exact List.takeWhile_eq_self_iff.mpr (fits.resolve_left Bool.false_ne_true)

end Slices

/-! ## Runs with one read at a time -/

section Runs

variable {lengths : List Nat} {stream chunk : List UInt8} {q : ByteQueue} {n : Nat}

/-- The reads of these lengths are resolved with the slices of the stream. -/
structure Served (lengths : List Nat) (stream : List UInt8) (q : ByteQueue) : Prop where
  resolved : q.resolved = (slices lengths stream).zipIdx
  buf : q.buf = leftover lengths stream
  fits : q.closed = true ∨ Fits lengths stream

/-- All reads are served, or all but the last one, which needs more bytes. -/
structure Serving (lengths : List Nat) (stream : List UInt8) (q : ByteQueue) : Prop where
  reads : q.reads = lengths.length
  idle : q.waiting = none → Served lengths stream q
  busy : ∀ w, q.waiting = some w → ∃ before, lengths = before ++ [w.n] ∧ w.resolve = before.length ∧
    Served before stream q ∧ q.closed = false ∧ q.buf.length < w.n

/-- `#check` with all reads but the waiting one served. -/
theorem serving_check (served : Served lengths stream q) (waits : q.waiting = some ⟨n, lengths.length⟩)
    (reads : q.reads = lengths.length + 1) : Serving (lengths ++ [n]) stream q.check := by
  have counted : q.reads = (lengths ++ [n]).length := by
    rw [reads, List.length_append, List.length_singleton]
  obtain ⟨resolved, buf, fits⟩ := served
  rw [ByteQueue.check, waits]
  by_cases enough : q.buf.length ≥ n
  · have slice : slices [n] (leftover lengths stream) = [some (q.buf.take n)] := by
      rw [← buf, slices, if_pos enough, slices]
    simp only [if_pos enough]
    refine ⟨counted, fun _ => ⟨?_, ?_, ?_⟩, nofun⟩
    · rw [slices_append, slice, List.zipIdx_append, length_slices, resolved]
      simp
    · rw [leftover_append, ← buf, leftover, if_pos enough, leftover]
    · refine fits.imp id fun fits answer member => ?_
      rw [slices_append, slice] at member
      rcases List.mem_append.mp member with early | last
      · exact fits answer early
      · rw [List.mem_singleton.mp last]
        rfl
  · simp only [if_neg enough]
    by_cases closed : q.closed = true
    · simp only [if_pos closed]
      refine ⟨counted, fun _ => ⟨?_, ?_, .inl closed⟩, nofun⟩
      · rw [slices_append, ← buf, slices, if_neg enough, List.zipIdx_append, length_slices, resolved]
        simp [slices]
      · rw [leftover_append, ← buf, leftover, if_neg enough, leftover]
    · simp only [if_neg closed]
      refine ⟨counted, fun idle => absurd (waits.symm.trans idle) (by simp), fun w same => ?_⟩
      obtain rfl : (⟨n, lengths.length⟩ : WaitingRead) = w := Option.some.inj (waits.symm.trans same)
      exact ⟨lengths, rfl, rfl, ⟨resolved, buf, fits⟩, eq_false_of_ne_true closed, Nat.lt_of_not_le enough⟩

theorem check_idle (idle : q.waiting = none) : q.check = q := by
  rw [ByteQueue.check, idle]

theorem serving_feed (serving : Serving lengths stream q) (opened : q.closed = false) (chunk : List UInt8) :
    Serving lengths (stream ++ chunk) (q.feed chunk) := by
  have fed : ∀ {served}, Served served stream q →
      Served served (stream ++ chunk) { q with buf := q.buf ++ chunk } := by
    rintro served ⟨resolved, buf, fits⟩
    have fits := fits.resolve_left (by simp [opened])
    obtain ⟨same, left⟩ := slices_fed fits chunk
    exact ⟨by rw [same, resolved], by rw [left, buf], .inr (by rwa [Fits, same])⟩
  cases waits : q.waiting with
  | none =>
    have same : q.feed chunk = { q with buf := q.buf ++ chunk } := check_idle waits
    rw [same]
    exact ⟨serving.reads, fun _ => fed (serving.idle waits), fun w same => absurd (waits.symm.trans same) (by simp)⟩
  | some w =>
    obtain ⟨before, rfl, place, served, -, -⟩ := serving.busy w waits
    refine serving_check (fed served) ?_ ?_
    · rw [← place]
      exact waits
    · rw [serving.reads, List.length_append, List.length_singleton]

theorem serving_close (serving : Serving lengths stream q) : Serving lengths stream q.close := by
  have still : ∀ {served}, Served served stream q → Served served stream { q with closed := true } :=
    fun served => ⟨served.resolved, served.buf, .inl rfl⟩
  cases waits : q.waiting with
  | none =>
    have same : q.close = { q with closed := true } := check_idle waits
    rw [same]
    exact ⟨serving.reads, fun _ => still (serving.idle waits),
      fun w same => absurd (waits.symm.trans same) (by simp)⟩
  | some w =>
    obtain ⟨before, rfl, place, served, -, -⟩ := serving.busy w waits
    refine serving_check (still served) ?_ ?_
    · rw [← place]
      exact waits
    · rw [serving.reads, List.length_append, List.length_singleton]

theorem serving_read (serving : Serving lengths stream q) (idle : q.waiting = none) (n : Nat) :
    Serving (lengths ++ [n]) stream (q.read n) := by
  obtain ⟨resolved, buf, fits⟩ := serving.idle idle
  exact serving_check ⟨resolved, buf, fits⟩ (by rw [serving.reads]) (congrArg (· + 1) serving.reads)

@[simp] theorem check_closed (q : ByteQueue) : q.check.closed = q.closed := by
  unfold ByteQueue.check
  split
  · rfl
  · split
    · rfl
    · split <;> rfl

theorem lengthsOf_append (first second : List ByteQueueCall) :
    lengthsOf (first ++ second) = lengthsOf first ++ lengthsOf second := List.filterMap_append

theorem streamOf_append (first second : List ByteQueueCall) :
    streamOf (first ++ second) = streamOf first ++ streamOf second := List.flatMap_append

theorem closedBy_append (first second : List ByteQueueCall) :
    closedBy (first ++ second) = (closedBy first || closedBy second) := by
  simp [closedBy]

/-- After calls with one read at a time, and nothing fed to a closed queue. -/
theorem serving_run (calls : List ByteQueueCall) (last : ClosedLast calls) (single : OneAtATime calls) :
    Serving (lengthsOf calls) (streamOf calls) (runFrom ByteQueue.step .empty calls) ∧
      (runFrom ByteQueue.step .empty calls).closed = closedBy calls := by
  have step : ∀ before (q : ByteQueue) call,
      (Serving (lengthsOf before) (streamOf before) q ∧ q.closed = closedBy before) →
      ((∀ chunk, call = .feed chunk → q.closed = false) ∧ ∀ n, call = .read n → q.waiting = none) →
      Serving (lengthsOf (before ++ [call])) (streamOf (before ++ [call])) (q.step call) ∧
        (q.step call).closed = closedBy (before ++ [call]) := by
    rintro before q call ⟨serving, closed⟩ ⟨opened, idle⟩
    rw [lengthsOf_append, streamOf_append, closedBy_append]
    cases call with
    | feed chunk =>
      have more : streamOf [.feed chunk] = chunk := List.append_nil chunk
      have none : lengthsOf [.feed chunk] = [] := rfl
      rw [more, none, List.append_nil]
      exact ⟨serving_feed serving (opened chunk rfl) chunk,
        (check_closed _).trans (closed.trans (Bool.or_false _).symm)⟩
    | close =>
      have none : lengthsOf [.close] = [] ∧ streamOf [.close] = [] := ⟨rfl, rfl⟩
      rw [none.1, none.2, List.append_nil, List.append_nil]
      exact ⟨serving_close serving, (check_closed _).trans (Bool.or_true _).symm⟩
    | read n =>
      have one : lengthsOf [.read n] = [n] ∧ streamOf [.read n] = [] := ⟨rfl, rfl⟩
      rw [one.1, one.2, List.append_nil]
      exact ⟨serving_read serving (idle n rfl) n, (check_closed _).trans (closed.trans (Bool.or_false _).symm)⟩
  have start : Serving (lengthsOf []) (streamOf []) .empty ∧ ByteQueue.empty.closed = closedBy [] :=
    ⟨⟨rfl, fun _ => ⟨rfl, rfl, .inr (by simp [Fits, lengthsOf, slices])⟩, nofun⟩, rfl⟩
  have along := (along_and calls ByteQueue.empty).mpr ⟨last, single⟩
  exact run_history step calls [] .empty start along

theorem answered_of_serving {calls : List ByteQueueCall}
    (serving : Serving (lengthsOf calls) (streamOf calls) (runFrom ByteQueue.step .empty calls))
    (closed : (runFrom ByteQueue.step .empty calls).closed = closedBy calls) : Answered calls := by
  unfold Answered
  cases waits : (runFrom ByteQueue.step .empty calls).waiting with
  | none =>
    obtain ⟨resolved, buf, fits⟩ := serving.idle waits
    rw [resolved, answers_of_fits (closed ▸ fits)]
  | some w =>
    obtain ⟨before, split, -, ⟨resolved, buf, fits⟩, opened, short⟩ := serving.busy w waits
    have fits := fits.resolve_left (by simp [opened])
    have stuck : slices [w.n] (leftover before (streamOf calls)) = [none] := by
      rw [← buf, slices, if_neg (Nat.not_le_of_lt short), slices]
    rw [resolved, split, ← closed, opened, answers, if_neg Bool.false_ne_true, slices_append, stuck,
      List.takeWhile_append_of_pos fits]
    simp

end Runs

/-! ## Promises -/

section Promises

variable {q : ByteQueue}

/-- The promises that were resolved, and the one that waits. -/
def promises (q : ByteQueue) : List Nat := q.resolved.map Prod.snd ++ (q.waiting.map WaitingRead.resolve).toList

theorem promises_check (q : ByteQueue) : promises q.check = promises q ∧ q.check.reads = q.reads := by
  unfold ByteQueue.check
  cases waits : q.waiting with
  | none => exact ⟨rfl, rfl⟩
  | some w =>
    obtain ⟨n, resolve⟩ := w
    dsimp only
    split
    · exact ⟨by simp [promises, waits], rfl⟩
    · split
      · exact ⟨by simp [promises, waits], rfl⟩
      · exact ⟨rfl, rfl⟩

theorem promises_read (q : ByteQueue) (n : Nat) :
    promises (q.read n) = q.resolved.map Prod.snd ++ [q.reads] ∧ (q.read n).reads = q.reads + 1 :=
  promises_check _

/-- A promise that is neither resolved nor waits. -/
def Lost (q : ByteQueue) : Prop := ∃ t < q.reads, t ∉ promises q

/-- A lost promise stays lost. -/
theorem lost_step (q : ByteQueue) (call : ByteQueueCall) (lost : Lost q) : Lost (q.step call) := by
  obtain ⟨t, issued, absent⟩ := lost
  cases call with
  | feed chunk =>
    obtain ⟨same, reads⟩ := promises_check { q with buf := q.buf ++ chunk }
    exact ⟨t, reads ▸ issued, same ▸ absent⟩
  | close =>
    obtain ⟨same, reads⟩ := promises_check { q with closed := true }
    exact ⟨t, reads ▸ issued, same ▸ absent⟩
  | read n =>
    obtain ⟨same, reads⟩ := promises_read q n
    refine ⟨t, reads ▸ Nat.lt_succ_of_lt issued, ?_⟩
    change t ∉ promises (q.read n)
    rw [same]
    intro member
    rcases List.mem_append.mp member with early | last
    · exact absent (List.mem_append_left _ early)
    · exact Nat.ne_of_lt issued (List.mem_singleton.mp last)

theorem promises_step (q : ByteQueue) (call : ByteQueueCall) (ordered : promises q = List.range q.reads)
    (idle : ∀ n, call = .read n → q.waiting = none) :
    promises (q.step call) = List.range (q.step call).reads := by
  cases call with
  | feed chunk =>
    obtain ⟨same, reads⟩ := promises_check { q with buf := q.buf ++ chunk }
    exact same.trans (reads ▸ ordered)
  | close =>
    obtain ⟨same, reads⟩ := promises_check { q with closed := true }
    exact same.trans (reads ▸ ordered)
  | read n =>
    obtain ⟨same, reads⟩ := promises_read q n
    rw [promises, idle n rfl, Option.map_none, Option.toList_none, List.append_nil] at ordered
    rw [ByteQueue.step, same, reads, ordered, List.range_succ]

/-- A read takes the place of the one that waits. -/
theorem lost_of_overlap (q : ByteQueue) (call : ByteQueueCall) (ordered : promises q = List.range q.reads)
    (overlap : ¬∀ n, call = .read n → q.waiting = none) : Lost (q.step call) := by
  obtain ⟨n, rfl, busy⟩ : ∃ n, call = .read n ∧ q.waiting ≠ none := by simpa using overlap
  obtain ⟨w, waits⟩ := Option.ne_none_iff_exists'.mp busy
  obtain ⟨same, reads⟩ := promises_read q n
  rw [promises, waits, Option.map_some, Option.toList_some] at ordered
  have issued : w.resolve < q.reads :=
    List.mem_range.mp (ordered ▸ List.mem_append_right _ List.mem_cons_self)
  have apart : (q.resolved.map Prod.snd ++ [w.resolve]).Nodup := ordered ▸ List.nodup_range
  refine ⟨w.resolve, ?_, ?_⟩
  · rw [ByteQueue.step, reads]
    exact Nat.lt_succ_of_lt issued
  · rw [ByteQueue.step, same]
    intro member
    rcases List.mem_append.mp member with early | last
    · exact (List.nodup_append.mp apart).2.2 _ early _ List.mem_cons_self rfl
    · exact Nat.ne_of_lt issued (List.mem_singleton.mp last)

/-- No promise is lost just when each read is issued after the last one was resolved. -/
theorem not_lost_iff (calls : List ByteQueueCall) :
    ¬Lost (runFrom ByteQueue.step .empty calls) ↔ OneAtATime calls := by
  have good : ∀ q, promises q = List.range q.reads → ¬Lost q := by
    rintro q ordered ⟨t, issued, absent⟩
    exact absent (ordered ▸ List.mem_range.mpr issued)
  exact run_iff_along promises_step lost_of_overlap lost_step good (fun q lost fine => fine lost) calls .empty rfl

theorem reads_step (q : ByteQueue) (call : ByteQueueCall) :
    (q.step call).reads = q.reads + (lengthsOf [call]).length := by
  cases call with
  | feed chunk => exact (promises_check _).2
  | close => exact (promises_check _).2
  | read n => exact (promises_read q n).2

theorem reads_run (calls : List ByteQueueCall) (q : ByteQueue) :
    (runFrom ByteQueue.step q calls).reads = q.reads + (lengthsOf calls).length := by
  induction calls generalizing q with
  | nil => rfl
  | cons call calls ih =>
    have split : lengthsOf (call :: calls) = lengthsOf [call] ++ lengthsOf calls := lengthsOf_append [call] calls
    rw [runFrom_cons, ih, reads_step, split, List.length_append, Nat.add_assoc]

/-- A lost promise is not resolved when the queue is closed. -/
theorem not_answered_of_lost (calls : List ByteQueueCall) (lost : Lost (runFrom ByteQueue.step .empty calls)) :
    ¬Answered (calls ++ [.close]) := by
  intro answered
  have still : Lost (runFrom ByteQueue.step .empty (calls ++ [.close])) := by
    rw [runFrom_append]
    exact lost_step _ .close lost
  obtain ⟨t, issued, absent⟩ := still
  have closed : closedBy (calls ++ [.close]) = true := (closedBy_append _ _).trans (Bool.or_true _)
  rw [Answered, closed, answers, if_pos rfl] at answered
  rw [reads_run, ← length_slices _ (streamOf (calls ++ [.close]))] at issued
  apply absent
  rw [promises, answered, List.zipIdx_map_snd]
  exact List.mem_append_left _ (by simpa [ByteQueue.empty] using issued)

end Promises

theorem along_quiet (more : List ByteQueueCall) (quiet : ∀ n, .read n ∉ more) (q : ByteQueue) :
    Along ByteQueue.step (fun q call => ∀ n, call = .read n → q.waiting = none) q more := by
  induction more generalizing q with
  | nil => trivial
  | cons call more ih =>
    refine ⟨?_, ih (fun n member => quiet n (List.mem_cons_of_mem _ member)) _⟩
    rintro n rfl
    exact absurd List.mem_cons_self (quiet n)

/-- Whatever is fed and closed afterwards, each read that is due is resolved once, with its slice of the
stream, just when no read was issued while one waited. -/
theorem answered_iff (calls : List ByteQueueCall) (last : ClosedLast calls) :
    (∀ more, (∀ n, .read n ∉ more) → ClosedLast (calls ++ more) → Answered (calls ++ more)) ↔
      OneAtATime calls := by
  constructor
  · intro answered
    rw [← not_lost_iff]
    intro lost
    refine not_answered_of_lost calls lost (answered [.close] (by simp) ?_)
    rw [ClosedLast, along_append]
    exact ⟨last, nofun, trivial⟩
  · intro single more quiet last
    have along : OneAtATime (calls ++ more) := by
      rw [OneAtATime, along_append]
      exact ⟨single, along_quiet more quiet _⟩
    obtain ⟨serving, closed⟩ := serving_run (calls ++ more) last along
    exact answered_of_serving serving closed

/-- Reads of two bytes and of three, with the stream split within a slice. -/
theorem answered_iff_split :
    Answered ([.feed [1], .read 2, .feed [2, 3, 4], .read 3, .feed [5]] ++ [.close]) :=
  (answered_iff [.feed [1], .read 2, .feed [2, 3, 4], .read 3, .feed [5]]
    ⟨fun _ _ => rfl, nofun, fun _ _ => rfl, nofun, fun _ _ => rfl, trivial⟩).mpr
    ⟨nofun, fun _ _ => rfl, nofun, fun _ _ => rfl, nofun, trivial⟩ [.close] (by simp)
    ⟨fun _ _ => rfl, nofun, fun _ _ => rfl, nofun, fun _ _ => rfl, nofun, trivial⟩

/-- A read of five bytes, and one of three while it waits: the promise of the first is never resolved, and the
second gets the first three bytes. -/
theorem overlapping_read_lost :
    ClosedLast [.read 5, .read 3, .feed [1, 2, 3, 4, 5, 6, 7, 8], .close] ∧
    (runFrom ByteQueue.step .empty [.read 5, .read 3, .feed [1, 2, 3, 4, 5, 6, 7, 8], .close]).resolved =
      [(some [1, 2, 3], 1)] ∧
    (answers true [5, 3] [1, 2, 3, 4, 5, 6, 7, 8]).zipIdx = [(some [1, 2, 3, 4, 5], 0), (some [6, 7, 8], 1)] ∧
    ¬Answered [.read 5, .read 3, .feed [1, 2, 3, 4, 5, 6, 7, 8], .close] := by
  refine ⟨⟨nofun, nofun, fun _ _ => rfl, nofun, trivial⟩, rfl, rfl, ?_⟩
  unfold Answered
  decide

end QjsLws.Stream
