import Mathlib.Data.List.Zip
import QjsLws.Serve.AsyncQueue

/-!
# The request queue, proofs

The calls and the values are matched from the front: what has been received is the one list zipped with the
other, and what waits is the part of the longer one that is left.
-/

namespace QjsLws.Serve

open QjsLws.Misc

/-! ## Matching from the front -/

section Zip

variable {β γ : Type} {b : β} {c : γ} {left : List β} {right : List γ}

/-- The shorter list grows. -/
theorem zip_snoc {rest : List β} (behind : left.drop right.length = b :: rest) :
    left.zip (right ++ [c]) = left.zip right ++ [(b, c)] := by
  induction right generalizing left with
  | nil =>
    rw [List.length_nil, List.drop_zero] at behind
    rw [behind, List.nil_append, List.zip_cons_cons, List.zip_nil_right, List.zip_nil_right, List.nil_append]
  | cons d right ih =>
    cases left with
    | nil => simp at behind
    | cons a left =>
      rw [List.cons_append, List.zip_cons_cons, List.zip_cons_cons, ih behind, List.cons_append]

theorem zip_snoc_left {rest : List γ} (behind : right.drop left.length = c :: rest) :
    (left ++ [b]).zip right = left.zip right ++ [(b, c)] := by
  rw [← List.zip_swap, zip_snoc behind, List.map_append, List.zip_swap]
  rfl

/-- The longer list grows. -/
theorem zip_longer (enough : left.length ≤ right.length) : left.zip (right ++ [c]) = left.zip right := by
  induction left generalizing right with
  | nil => rfl
  | cons a left ih =>
    cases right with
    | nil => simp at enough
    | cons d right =>
      rw [List.cons_append, List.zip_cons_cons, List.zip_cons_cons, ih (Nat.le_of_succ_le_succ enough)]

theorem zip_longer_left (enough : right.length ≤ left.length) : (left ++ [b]).zip right = left.zip right := by
  rw [← List.zip_swap, zip_longer enough, List.zip_swap]

end Zip

/-! ## Runs -/

section Runs

variable {α : Type} {q : AsyncQueue α} {values : List α} {n : Nat}

/-- The queue after `n` calls of `next` and these values pushed. -/
structure Matched (n : Nat) (values : List α) (q : AsyncQueue α) : Prop where
  received : q.received = (List.range n).zip values
  stored : q.values = values.drop n
  waiting : q.waiters = (List.range n).drop values.length
  calls : q.calls = n

theorem matched_push (fine : Matched n values q) (value : α) : Matched n (values ++ [value]) (q.push value) := by
  obtain ⟨received, left, waiters, calls⟩ := fine
  have size : (List.range n).length = n := List.length_range
  unfold AsyncQueue.push
  cases waiting : q.waiters with
  | nil =>
    rw [waiting] at waiters
    have enough : n ≤ values.length := by simpa [size] using waiters.symm
    refine ⟨?_, ?_, ?_, calls⟩
    · exact received.trans (zip_longer (by rw [size]; exact enough)).symm
    · rw [List.drop_append_of_le_length enough, left]
    · rw [List.length_append, ← List.drop_drop, ← waiters]
      rfl
  | cons waiter rest =>
    rw [waiting] at waiters
    have short : values.length < n := by
      have := congrArg List.length waiters
      rw [List.length_drop, size, List.length_cons] at this
      omega
    refine ⟨?_, ?_, ?_, calls⟩
    · rw [received, zip_snoc waiters.symm]
    · rw [left, List.drop_eq_nil_of_le (Nat.le_of_lt short), List.drop_eq_nil_of_le]
      rw [List.length_append]
      exact short
    · rw [List.length_append, ← List.drop_drop, ← waiters]
      rfl

theorem matched_next (fine : Matched n values q) : Matched (n + 1) values q.next := by
  obtain ⟨received, left, waiters, calls⟩ := fine
  have size : (List.range n).length = n := List.length_range
  unfold AsyncQueue.next
  cases stored : q.values with
  | nil =>
    rw [stored] at left
    have enough : values.length ≤ n := by simpa using left.symm
    refine ⟨?_, ?_, ?_, congrArg (· + 1) calls⟩
    · rw [List.range_succ, zip_longer_left (by rw [size]; exact enough), received]
    · rw [← List.drop_drop, ← left]
      rfl
    · rw [List.range_succ, List.drop_append_of_le_length (by rw [size]; exact enough), ← waiters, calls]
  | cons value rest =>
    rw [stored] at left
    have short : n < values.length := by
      have := congrArg List.length left
      rw [List.length_drop, List.length_cons] at this
      omega
    refine ⟨?_, ?_, ?_, congrArg (· + 1) calls⟩
    · rw [List.range_succ, zip_snoc_left (by rw [size]; exact left.symm), received, calls]
    · rw [← List.drop_drop, ← left]
      rfl
    · rw [waiters, List.drop_eq_nil_of_le, List.drop_eq_nil_of_le]
      · rw [List.length_range]
        exact short
      · rw [size]
        exact Nat.le_of_lt short

theorem matched_run (events : List (QueueEvent α)) :
    Matched (nexts events) (pushed events) (runFrom AsyncQueue.step .empty events) := by
  have step : ∀ before (q : AsyncQueue α) e, Matched (nexts before) (pushed before) q → True →
      Matched (nexts (before ++ [e])) (pushed (before ++ [e])) (q.step e) := by
    intro before q e fine _
    rw [nexts, pushed, List.countP_append, List.filterMap_append]
    cases e with
    | push value => exact matched_push fine value
    | next iterator => exact (List.append_nil _).symm ▸ matched_next fine
  have along : Along AsyncQueue.step (fun _ _ => True) (.empty : AsyncQueue α) events :=
    (@along_iff_forall _ _ _ (fun _ => True) events _).mpr fun _ _ => trivial
  exact run_history step events [] .empty ⟨rfl, rfl, rfl, rfl⟩ along

/-- In every run the i-th call of `next` receives the i-th value, once; what is left are the values without a
call, or the calls without a value. -/
theorem received_in_order (events : List (QueueEvent α)) :
    (runFrom AsyncQueue.step .empty events).received = (List.range (nexts events)).zip (pushed events) ∧
    (runFrom AsyncQueue.step .empty events).values = (pushed events).drop (nexts events) ∧
    (runFrom AsyncQueue.step .empty events).waiters =
      (List.range (nexts events)).drop (pushed events).length ∧
    ((runFrom AsyncQueue.step .empty events).values = [] ∨
      (runFrom AsyncQueue.step .empty events).waiters = []) := by
  obtain ⟨received, values, waiters, -⟩ := matched_run events
  refine ⟨received, values, waiters, ?_⟩
  rw [values, waiters]
  rcases Nat.le_total (pushed events).length (nexts events) with short | enough
  · exact .inl (List.drop_eq_nil_of_le short)
  · exact .inr (List.drop_eq_nil_of_le (by rw [List.length_range]; exact enough))

end Runs

end QjsLws.Serve
