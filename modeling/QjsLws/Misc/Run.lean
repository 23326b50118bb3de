import Mathlib.Data.List.Basic

/-!
# Runs of an event-driven component

A component is a step function that consumes one event at a time. A run is the fold of
the step over a list of events, `Along` says that every event of a run was admissible in
the state it was delivered in, and the two invariant rules turn a fact about one step into
a fact about every run.
-/

namespace QjsLws.Misc

variable {σ ε : Type}

/-- The state a run of events ends in. -/
def runFrom (step : σ → ε → σ) (s : σ) (events : List ε) : σ := events.foldl step s

/-- Every event of the run meets `ok` in the state it is delivered in. -/
def Along (step : σ → ε → σ) (ok : σ → ε → Prop) : σ → List ε → Prop
  | _, [] => True
  | s, e :: events => ok s e ∧ Along step ok (step s e) events

@[simp] theorem runFrom_nil (step : σ → ε → σ) (s : σ) : runFrom step s [] = s := rfl

@[simp] theorem runFrom_cons (step : σ → ε → σ) (s : σ) (e : ε) (events : List ε) :
    runFrom step s (e :: events) = runFrom step (step s e) events := rfl

theorem runFrom_append (step : σ → ε → σ) (s : σ) (first second : List ε) :
    runFrom step s (first ++ second) = runFrom step (runFrom step s first) second :=
  List.foldl_append

theorem along_append (step : σ → ε → σ) (ok : σ → ε → Prop) (first second : List ε) :
    ∀ s, Along step ok s (first ++ second) ↔
      Along step ok s first ∧ Along step ok (runFrom step s first) second := by
  induction first with
  | nil => intro s; simp [Along]
  | cons e first ih => intro s; simp [Along, ih, and_assoc]

/-- Where only the event decides, the states do not matter. -/
theorem along_iff_forall {step : σ → ε → σ} {ok : ε → Prop} :
    ∀ (events : List ε) (s : σ), Along step (fun _ e => ok e) s events ↔ ∀ e ∈ events, ok e := by
  intro events
  induction events with
  | nil => simp [Along]
  | cons e events ih => simp [Along, ih]

theorem along_and {step : σ → ε → σ} {ok ok' : σ → ε → Prop} :
    ∀ (events : List ε) (s : σ), Along step (fun s e => ok s e ∧ ok' s e) s events ↔
      Along step ok s events ∧ Along step ok' s events := by
  intro events
  induction events with
  | nil => simp [Along]
  | cons e events ih => simp [Along, ih, and_assoc, and_left_comm]

/-- What every admissible step preserves holds at the end of every admissible run. -/
theorem run_invariant_along {step : σ → ε → σ} {ok : σ → ε → Prop} {I : σ → Prop}
    (preserved : ∀ s e, I s → ok s e → I (step s e)) :
    ∀ (events : List ε) (s : σ), I s → Along step ok s events → I (runFrom step s events) := by
  intro events
  induction events with
  | nil => intro s holds _; exact holds
  | cons e events ih =>
    intro s holds along
    exact ih (step s e) (preserved s e holds along.1) along.2

/-- What every step preserves holds at the end of every run. -/
theorem run_invariant {step : σ → ε → σ} {I : σ → Prop}
    (preserved : ∀ s e, I s → I (step s e)) :
    ∀ (events : List ε) (s : σ), I s → I (runFrom step s events) := by
  intro events
  induction events with
  | nil => intro s holds; exact holds
  | cons e events ih => intro s holds; exact ih (step s e) (preserved s e holds)

/-- What every admissible step preserves, for a condition on the events so far and the state. -/
theorem run_history {step : σ → ε → σ} {ok : σ → ε → Prop} {I : List ε → σ → Prop}
    (preserved : ∀ before s e, I before s → ok s e → I (before ++ [e]) (step s e)) :
    ∀ (events before : List ε) (s : σ), I before s → Along step ok s events →
      I (before ++ events) (runFrom step s events) := by
  intro events
  induction events with
  | nil =>
    intro before s holds _
    rw [List.append_nil]
    exact holds
  | cons e events ih =>
    intro before s holds along
    rw [List.append_cons]
    exact ih (before ++ [e]) (step s e) (preserved before s e holds along.1) along.2

/-- A run is good exactly when it is admissible: an inadmissible step leads to a state from
which no run becomes good again. -/
theorem run_iff_along {step : σ → ε → σ} {ok : σ → ε → Prop} {Inv Bad Good : σ → Prop}
    (keeps : ∀ s e, Inv s → ok s e → Inv (step s e))
    (breaks : ∀ s e, Inv s → ¬ok s e → Bad (step s e))
    (stays : ∀ s e, Bad s → Bad (step s e))
    (good : ∀ s, Inv s → Good s) (bad : ∀ s, Bad s → ¬Good s) :
    ∀ (events : List ε) (s : σ), Inv s → (Good (runFrom step s events) ↔ Along step ok s events) := by
  intro events
  induction events with
  | nil => intro s inv; exact ⟨fun _ => trivial, fun _ => good s inv⟩
  | cons e events ih =>
    intro s inv
    rw [runFrom_cons, Along]
    by_cases admitted : ok s e
    · simp [admitted, ih _ (keeps s e inv admitted)]
    · have broken := run_invariant stays events _ (breaks s e inv admitted)
      simp [admitted, bad _ broken]

/-- Every state of a run that its environment allows is good exactly when every event is
admissible, where admissible is what one step needs to reach a good state. -/
theorem prefixes_iff_along_within {step : σ → ε → σ} {allowed ok : σ → ε → Prop}
    {I Good : σ → Prop} (keeps : ∀ s e, I s → allowed s e → ok s e → I (step s e))
    (needs : ∀ s e, I s → allowed s e → Good (step s e) → ok s e)
    (good : ∀ s, I s → Good s) :
    ∀ (events : List ε) (s : σ), I s → Along step allowed s events →
      ((∀ first, first <+: events → Good (runFrom step s first)) ↔ Along step ok s events) := by
  intro events
  induction events with
  | nil =>
    intro s inv _
    simp [Along, good s inv]
  | cons e events ih =>
    intro s inv along
    constructor
    · intro all
      have admitted : ok s e := needs s e inv along.1 (all [e] ⟨events, rfl⟩)
      refine ⟨admitted, ?_⟩
      apply (ih _ (keeps s e inv along.1 admitted) along.2).mp
      intro first isFirst
      exact all (e :: first) (List.cons_prefix_cons.mpr ⟨rfl, isFirst⟩)
    · rintro ⟨admitted, rest⟩ first isFirst
      rcases List.prefix_cons_iff.mp isFirst with rfl | ⟨later, rfl, isLater⟩
      · exact good s inv
      · exact (ih _ (keeps s e inv along.1 admitted) along.2).mpr rest later isLater

/-- Every state a run passes is good exactly when every event is admissible, where admissible is
what one step needs to reach a good state. -/
theorem prefixes_iff_along {step : σ → ε → σ} {ok : σ → ε → Prop} {I Good : σ → Prop}
    (keeps : ∀ s e, I s → ok s e → I (step s e))
    (needs : ∀ s e, I s → Good (step s e) → ok s e) (good : ∀ s, I s → Good s)
    (events : List ε) (s : σ) (inv : I s) :
    (∀ first, first <+: events → Good (runFrom step s first)) ↔ Along step ok s events := by
  apply prefixes_iff_along_within (fun s e inv _ => keeps s e inv)
    (fun s e inv _ => needs s e inv) good events s inv
  have anyEvent := @along_iff_forall σ ε step (fun _ => True) events s
  exact anyEvent.mpr fun _ _ => trivial

/-- Lookup in a list that grew by one. -/
theorem getElem?_snoc {α : Type} {l : List α} {i : Nat} {new x : α} :
    (l ++ [new])[i]? = some x ↔ l[i]? = some x ∨ i = l.length ∧ new = x := by
  rcases Nat.lt_trichotomy i l.length with inside | rfl | beyond
  · simp [List.getElem?_append_left inside, Nat.ne_of_lt inside]
  · simp
  · have past : (l ++ [new])[i]? = none := by
      rw [List.getElem?_eq_none_iff, List.length_append]
      exact beyond
    simp [past, List.getElem?_eq_none_iff.mpr (Nat.le_of_lt beyond), Nat.ne_of_gt beyond]

/-- Where an entry stands in a log that grew by one. -/
theorem snoc_eq_append_cons {α : Type} {log before after : List α} {new e : α} :
    log ++ [new] = before ++ e :: after ↔
      (after = [] ∧ log = before ∧ new = e) ∨
        ∃ rest, after = rest ++ [new] ∧ log = before ++ e :: rest := by
  constructor
  · intro same
    rcases List.eq_nil_or_concat after with rfl | ⟨rest, last, rfl⟩
    · obtain ⟨front, back⟩ := List.append_inj' same rfl
      exact .inl ⟨rfl, front, by simpa using back⟩
    · rw [List.concat_eq_append, ← List.cons_append, ← List.append_assoc] at same
      obtain ⟨front, back⟩ := List.append_inj' same rfl
      obtain rfl : new = last := by simpa using back
      exact .inr ⟨rest, by simp, front⟩
  · rintro (⟨rfl, rfl, rfl⟩ | ⟨rest, rfl, rfl⟩)
    · rfl
    · simp

section Loops

variable {α : Type} {p : α → Bool}

/-- The elements that a loop visits which an element of a kind ends. -/
def takeThrough (p : α → Bool) : List α → List α
  | [] => []
  | a :: rest => if p a then [a] else a :: takeThrough p rest

theorem prefix_takeThrough (l : List α) : takeThrough p l <+: l := by
  induction l with
  | nil => exact List.prefix_rfl
  | cons a rest ih =>
    rw [takeThrough]
    split
    · exact List.cons_prefix_cons.mpr ⟨rfl, List.nil_prefix⟩
    · exact List.cons_prefix_cons.mpr ⟨rfl, ih⟩

/-- A loop visits everything exactly if only the last element may end it. -/
theorem takeThrough_eq_self_iff (l : List α) :
    takeThrough p l = l ↔ ∀ a ∈ l.dropLast, p a = false := by
  induction l with
  | nil => simp [takeThrough]
  | cons a rest ih =>
    cases rest with
    | nil => simp [takeThrough]
    | cons b rest =>
      rw [List.dropLast_cons_cons, takeThrough, List.forall_mem_cons, ← ih]
      by_cases ends : p a = true
      · simp [ends]
      · simp [ends]

end Loops

end QjsLws.Misc
