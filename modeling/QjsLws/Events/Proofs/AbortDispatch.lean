import QjsLws.Events.Proofs.AbortCascade

/-!
# One abort

Where nothing on the way throws, an abort reaches every signal made of the one it began with, calls its
listeners and leaves the signals that are not aborted with the handlers they need.
-/

namespace QjsLws.Events

open QjsLws.Misc

section Dispatch

variable {s s' : AbortState} {x y d k n : Nat} {P : Nat → Nat → Prop} {stale : Nat → Prop}
  {reason : Reason} {queue rest : List AbortListener} {t : Bool}

/-- The signals made of one have no `onabort` and no listener that throws. -/
def Calm (s : AbortState) (x : Nat) : Prop :=
  ∀ (y : Nat) a, s.signals[y]? = some a → a.aborted = false → s.Source x y →
    a.onabort = none ∧ ∀ r, .user r true ∉ a.listeners

/-- So it is, and the signal itself has no `onabort`, and throws after its handlers. -/
def Quiet (s : AbortState) (x : Nat) : Prop :=
  ∀ (y : Nat) a, s.signals[y]? = some a → a.aborted = false → x = y ∨ s.Source x y →
    a.onabort = none ∧ if x = y then ThrowsLate a.listeners else ∀ r, .user r true ∉ a.listeners

theorem throwsLate_of_none {listeners : List AbortListener}
    (none : ∀ r, .user r true ∉ listeners) : ThrowsLate listeners := by
  intro first r last same
  exact (none r (by rw [same]; simp)).elim

/-- The handlers that are yet to be called, with those in a queue of the signal `x`. -/
def Pending (P : Nat → Nat → Prop) (x : Nat) (queue : List AbortListener) (y d : Nat) : Prop :=
  P y d ∨ y = x ∧ ∃ k, .forward d k ∈ queue

/-- A call that returns, or ends with a listener of some that throws. -/
def Ends (o : Outcome AbortFailure AbortState) (s : AbortState) (listeners : List AbortListener) :
    Prop :=
  o = .done s ∨ o = .threw .listener s ∧ ∃ r, .user r true ∈ listeners

/-- What an abort with some fuel does. -/
def Aborts (n : Nat) : Prop :=
  ∀ (P : Nat → Nat → Prop) (stale : Nat → Prop) (s : AbortState) (x : Nat) (a : Signal)
    (reason : Reason), Wired P stale s → (∀ d, stale d → d < x) → s.signals[x]? = some a →
      a.aborted = false → s.signals.length ≤ x + n → Quiet s x →
        ∃ s', Ends (AbortState.abortSignal n x reason s) s' a.listeners ∧
          Cascade s s' (fun y => x = y ∨ s.Source x y) reason [] ∧ s'.isAborted x = true ∧
            Wired P (fun d => stale d ∨ d = x) s'

theorem Quiet.calm (quiet : Quiet s x) (wired : Wired P stale s) : Calm s x := by
  intro y a found live source
  have parts := quiet y a found live (.inr source)
  rw [if_neg (Nat.ne_of_lt (wired.source_lt source))] at parts
  exact parts

theorem Calm.quiet (calm : Calm s x) (source : s.Source x d) : Quiet s d := by
  intro y a found live reach
  obtain ⟨handler, users⟩ := calm y a found live <| by
    rcases reach with rfl | further
    · exact source
    · exact source.trans further
  refine ⟨handler, ?_⟩
  split
  · exact throwsLate_of_none users
  · exact users

theorem Calm.cascade (calm : Calm s x) {R : Nat → Prop} (cascade : Cascade s s' R reason queue) :
    Calm s' x := by
  intro y b found live source
  rw [cascade.source] at source
  obtain ⟨a, known, kept, same | new⟩ := cascade.back found
  · obtain ⟨handler, users⟩ := calm y a known (same.1 ▸ live) source
    exact ⟨kept.onabort.trans handler, fun r member => users r (kept.fewer.subset member)⟩
  · rw [new.2.2.1] at live
    cases live

/-! ### A handler of `any` -/

theorem forward_spec (aborts : Aborts n) (wired : Wired (Pending P x (.forward d k :: rest)) stale s)
    (below : ∀ e, stale e → e ≤ x) {a : Signal} (found : s.signals[x]? = some a)
    (aborted : a.aborted = true) (known : a.reason = some reason)
    (nodup : (AbortListener.forward d k :: rest).Nodup)
    (listeners : ∀ l ∈ AbortListener.forward d k :: rest, l ∈ a.listeners)
    (enough : s.signals.length ≤ x + (n + 1)) (calm : Calm s x) :
    ∃ s', AbortState.callListener (AbortState.abortSignal n) x (.forward d k) s = .done s' ∧
      Cascade s s' (s.Source x) reason [] ∧ Wired (Pending P x rest) stale s' ∧
        ∃ b, s'.signals[x]? = some b ∧ b.aborted = true ∧ b.reason = some reason ∧
          ∀ l ∈ rest, l ∈ b.listeners := by
  -- the signal of a handler in the queue is not aborted: it comes later than those that are stale
  have alive : ∀ e i, AbortListener.forward e i ∈ AbortListener.forward d k :: rest →
      ∃ c, s.signals[e]? = some c ∧ c.aborted = false ∧ x ∈ c.inputs ∧ c.handlers.get x = some i := by
    intro e i member
    obtain ⟨c, foundE, state, input, handler⟩ := wired.forwards x a e i found (listeners _ member)
    refine ⟨c, foundE, state.resolve_right fun old => ?_, input, handler⟩
    exact Nat.not_le_of_lt (wired.smaller e c foundE x input) (below e old)
  obtain ⟨c, foundD, live, input, handler⟩ := alive d k List.mem_cons_self
  have later : x < d := wired.smaller d c foundD x input
  have direct : x ∈ s.inputsOf d := by rw [inputsOf_eq foundD]; exact input
  have source : s.Source x d := .single direct
  have quiet := calm.quiet source
  obtain ⟨s₁, ends, first, flagged, wired₁⟩ := aborts _ stale s d c reason wired
    (fun e old => Nat.lt_of_le_of_lt (below e old) later) foundD live (by omega) quiet
  have returns : AbortState.abortSignal n d reason s = .done s₁ := by
    refine ends.resolve_right ?_
    rintro ⟨-, r, member⟩
    exact (calm d c foundD live source).2 r member
  obtain ⟨c₁, foundC₁, flaggedC⟩ := exists_of_isAborted flagged
  obtain ⟨c', knownD, keptC, -⟩ := first.back foundC₁
  obtain rfl : c = c' := Option.some.inj (foundD.symm.trans knownD)
  have present : ∀ y ∈ c₁.inputs, ∃ i, c₁.handlers.get y = some i := by
    intro y inputY
    rw [keptC.inputs] at inputY
    obtain ⟨-, i, -, -, handlerY, -⟩ := wired.live d c foundD live y inputY
    exact ⟨i, by rw [keptC.handlers, handlerY]⟩
  obtain ⟨s₂, cleaned, second, wired₂⟩ :=
    clean_spec wired₁ foundC₁ flaggedC present (fun _ => False) reason
  have both : Cascade s s₂ (s.Source x) reason [] := by
    have reached : Cascade s s₁ (s.Source x) reason [] := by
      refine first.mono ?_ fun l no => no
      rintro y (rfl | further)
      · exact source
      · exact source.trans further
    have cleaning : Cascade s₁ s₂ (s.Source x) reason [] :=
      second.mono (fun _ no => no.elim) fun l no => no
    exact reached.trans wired.own cleaning found aborted (by simp) (by simp)
  obtain ⟨b, foundB, kept, change⟩ := both.signals x a found
  have sameX : b.aborted = a.aborted ∧ b.reason = a.reason := by
    refine change.resolve_right fun new => ?_
    rw [aborted] at new
    cases new.2.1
  refine ⟨s₂, ?_, both, ?_, b, foundB, sameX.1.trans aborted, sameX.2.trans known, ?_⟩
  · have value : s.reasonOf x = reason := by
      rw [AbortState.reasonOf, found, Option.bind_some, known]
      rfl
    rw [AbortState.callListener, value, returns]
    exact cleaned
  · have settled : Wired (Pending P x rest) (fun e => (stale e ∨ e = d) ∧ e ≠ d) s₂ := by
      refine wired₂.settle fun y e liveE pending => ?_
      rcases pending with old | ⟨rfl, i, member⟩
      · exact .inl old
      · rcases List.mem_cons.mp member with same | member
        · obtain ⟨rfl, rfl⟩ : e = d ∧ i = k := by injection same with h h'; exact ⟨h, h'⟩
          rw [second.isAborted flagged] at liveE
          cases liveE
        · exact .inr ⟨rfl, i, member⟩
    exact settled.imp (fun _ _ => id) fun e state => state.1.resolve_right state.2
  · intro l member
    have atX := listeners l (List.mem_cons_of_mem _ member)
    cases l with
    | user r t => exact kept.users r t atX
    | forward e i =>
      obtain ⟨g, foundE, liveE, inputE, handlerE⟩ := alive e i (List.mem_cons_of_mem _ member)
      have apart : d ≠ e := by
        rintro rfl
        obtain rfl : c = g := Option.some.inj (foundD.symm.trans foundE)
        obtain rfl : k = i := Option.some.inj (handler.symm.trans handlerE)
        exact (List.nodup_cons.mp nodup).1 member
      -- two signals that were given `x` are not made of each other
      have unrelated := wired.not_source foundE liveE inputE direct
      obtain ⟨g₁, foundG₁, keptG₁, change₁⟩ := first.signals e g foundE
      obtain ⟨g₂, foundG₂, keptG₂, change₂⟩ := second.signals e g₁ foundG₁
      have live₁ : g₁.aborted = false :=
        (change₁.resolve_right fun new => new.1.elim apart unrelated).1.trans liveE
      have live₂ : g₂.aborted = false := (change₂.resolve_right fun new => new.1).1.trans live₁
      have keptG := keptG₁.trans keptG₂
      obtain ⟨b', j, foundX, -, handlerJ, listener⟩ :=
        wired₂.live e g₂ foundG₂ live₂ x (by rw [keptG.inputs]; exact inputE)
      obtain rfl : b = b' := Option.some.inj (foundB.symm.trans foundX)
      rw [keptG.handlers, handlerE] at handlerJ
      obtain rfl : i = j := Option.some.inj handlerJ
      exact listener

/-! ### The queue of a dispatch -/

theorem cascade_call (s : AbortState) (r : Nat) (t : Bool) (R : Nat → Prop) (reason : Reason) :
    Cascade s { s with calls := s.calls ++ [.listener r] } R reason [.user r t] where
  length := rfl
  registrations := rfl
  errors := rfl
  signals _ a found := ⟨a, found, .refl a, .inl ⟨rfl, rfl⟩⟩
  calls := ⟨[.listener r], rfl, List.nodup_singleton _, by simp⟩

theorem Wired.call (wired : Wired (Pending P x (.user k t :: rest)) stale s) (calls : List AbortCall) :
    Wired (Pending P x rest) stale { s with calls } := by
  refine Wired.of_signals (s := s) (wired.imp ?_ fun _ => id) rfl
  rintro y d (old | ⟨rfl, i, member⟩)
  · exact .inl old
  · refine .inr ⟨rfl, i, ?_⟩
    simpa using member

theorem callListeners_spec (aborts : Aborts n) (below : ∀ e, stale e → e ≤ x)
    (queue : List AbortListener) : ∀ (s : AbortState) (a : Signal),
      Wired (Pending P x queue) stale s → s.signals[x]? = some a → a.aborted = true →
        a.reason = some reason → queue.Nodup → (∀ l ∈ queue, l ∈ a.listeners) →
          s.signals.length ≤ x + (n + 1) → Calm s x → ThrowsLate queue →
            ∃ s', Ends (AbortState.callListeners (AbortState.abortSignal n) x queue s) s' queue ∧
              Cascade s s' (s.Source x) reason queue ∧ Wired P stale s' := by
  induction queue with
  | nil =>
    intro s a wired _ _ _ _ _ _ _ _
    refine ⟨s, .inl rfl, .refl s _ reason, wired.imp ?_ fun _ => id⟩
    rintro y d (old | ⟨-, i, member⟩)
    · exact old
    · cases member
  | cons l rest ih =>
    intro s a wired found aborted known nodup listeners enough calm late
    have remaining : rest.Nodup := (List.nodup_cons.mp nodup).2
    -- what the rest of the queue adds to a first step that returns
    have resume : ∀ s₁ first, AbortState.callListener (AbortState.abortSignal n) x l s = .done s₁ →
        Cascade s s₁ (s.Source x) reason first → (∀ l' ∈ first, l' = l) →
          (first ++ rest).Nodup → Wired (Pending P x rest) stale s₁ →
            (∃ b, s₁.signals[x]? = some b ∧ b.aborted = true ∧ b.reason = some reason ∧
              ∀ l ∈ rest, l ∈ b.listeners) →
                ∃ s', Ends (AbortState.callListeners (AbortState.abortSignal n) x (l :: rest) s) s'
                    (l :: rest) ∧
                  Cascade s s' (s.Source x) reason (l :: rest) ∧ Wired P stale s' := by
      intro s₁ first returns cascade own nodupAll wired₁ ⟨b, foundB, abortedB, knownB, listenersB⟩
      have lateRest : ThrowsLate rest := by
        intro front r back same
        exact late (l :: front) r back (by rw [same]; rfl)
      obtain ⟨s', ends, second, wired'⟩ := ih s₁ b wired₁ foundB abortedB knownB remaining listenersB
        (by rw [cascade.length]; exact enough) (calm.cascade cascade) lateRest
      rw [cascade.source] at second
      refine ⟨s', ?_, ?_, wired'⟩
      · rw [AbortState.callListeners, returns, Outcome.done_andThen]
        refine ends.imp_right fun throws => ⟨throws.1, ?_⟩
        obtain ⟨r, member⟩ := throws.2
        exact ⟨r, List.mem_cons_of_mem _ member⟩
      · have inX : ∀ l' ∈ first ++ rest, l' ∈ a.listeners := by
          intro l' member
          rcases List.mem_append.mp member with early | later
          · exact listeners l' (own l' early ▸ List.mem_cons_self)
          · exact listeners l' (List.mem_cons_of_mem _ later)
        refine (cascade.trans wired.own second found aborted inX nodupAll).mono (fun _ => id) ?_
        intro l' member
        rcases List.mem_append.mp member with early | later
        · exact own l' early ▸ List.mem_cons_self
        · exact List.mem_cons_of_mem _ later
    cases l with
    | user r t =>
      have kept : ∀ l ∈ rest, l ∈ a.listeners := fun l member =>
        listeners l (List.mem_cons_of_mem _ member)
      have step := cascade_call s r t (s.Source x) reason
      cases t with
      | false =>
        exact resume _ [.user r false] rfl step (by simp) nodup (wired.call _)
          ⟨a, found, aborted, known, kept⟩
      | true =>
        have skipped := late [] r rest rfl
        refine ⟨_, .inr ⟨rfl, r, List.mem_cons_self⟩, step.mono (fun _ => id) ?_, ?_⟩
        · intro l member
          rw [List.mem_singleton.mp member]
          exact List.mem_cons_self
        · refine (wired.call _).imp ?_ fun _ => id
          rintro y d (old | ⟨-, i, member⟩)
          · exact old
          · exact (skipped d i member).elim
    | forward d k =>
      obtain ⟨s₁, returns, cascade, wired₁, atX⟩ :=
        forward_spec aborts wired below found aborted known nodup listeners enough calm
      exact resume s₁ [] returns cascade (by simp) remaining wired₁ atX

/-! ### The abort of a signal -/

theorem callOnabort_eq (s : AbortState) {a : Signal} (found : s.signals[x]? = some a)
    (none : a.onabort = none) : s.callOnabort x = .done s := by
  rw [AbortState.callOnabort, found, Option.bind_some, none]

theorem Cascade.of_flag {a : Signal} (found : s.signals[x]? = some a) (live : a.aborted = false)
    (cascade : Cascade (flag x reason s) s' (s.Source x) reason a.listeners) :
    Cascade s s' (fun y => x = y ∨ s.Source x y) reason [] := by
  have flagged := getElem?_flag found reason
  have others : ∀ y, x ≠ y → (flag x reason s).signals[y]? = s.signals[y]? := by
    intro y apart
    rw [flag, getElem?_update]
    simp [apart]
  have now : NewlyAborted s s' x :=
    ⟨by rw [isAborted_eq found, live], cascade.isAborted (by rw [isAborted_eq flagged])⟩
  refine ⟨?_, cascade.registrations, cascade.errors, ?_, ?_⟩
  · rw [cascade.length, flag, length_update]
  · intro y b known
    by_cases same : x = y
    · subst same
      obtain rfl : a = b := Option.some.inj (found.symm.trans known)
      obtain ⟨c, foundC, kept, change⟩ := cascade.signals x _ flagged
      have stays := change.resolve_right fun new => by cases new.2.1
      exact ⟨c, foundC, ⟨kept.derived, kept.inputs, kept.handlers, kept.onabort, kept.users,
        kept.fewer⟩, .inr ⟨.inl rfl, live, stays.1, stays.2⟩⟩
    · obtain ⟨c, foundC, kept, change⟩ := cascade.signals y b (by rw [others y same, known])
      exact ⟨c, foundC, kept, change.imp_right fun new => ⟨.inr new.1, new.2⟩⟩
  · obtain ⟨new, calls, nodup, from_⟩ := cascade.calls
    refine ⟨new, calls, nodup, fun c member => ?_⟩
    obtain ⟨r, rfl, ⟨t, direct⟩ | ⟨y, b, t, known, listener, before, after⟩⟩ := from_ c member
    · exact ⟨r, rfl, .inr ⟨x, a, t, found, direct, now⟩⟩
    · have apart : x ≠ y := by
        rintro rfl
        rw [isAborted_eq flagged] at before
        cases before
      rw [others y apart] at known
      rw [isAborted_eq (by rw [others y apart, known])] at before
      exact ⟨r, rfl, .inr ⟨y, b, t, known, listener, by rw [isAborted_eq known, before], after⟩⟩

theorem abortSignal_spec : ∀ n, Aborts n := by
  intro n
  induction n with
  | zero =>
    intro P stale s x a reason _ _ found _ enough _
    obtain ⟨inside, -⟩ := List.getElem?_eq_some_iff.mp found
    omega
  | succ n ih =>
    intro P stale s x a reason wired below found live enough quiet
    obtain ⟨none, users⟩ := quiet x a found live (.inl rfl)
    rw [if_pos rfl] at users
    have flagged := getElem?_flag found reason
    have calm : Calm (flag x reason s) x := by
      intro y b foundB liveB source
      rw [source_flag] at source
      obtain ⟨c, known, -, -, -, other, self⟩ := exists_of_flag foundB
      have apart : y ≠ x := fun same => by rw [self same] at liveB; cases liveB
      rw [other apart] at liveB ⊢
      exact quiet.calm wired y c known liveB source
    obtain ⟨s', ends, cascade, wired'⟩ := @callListeners_spec x n P (fun d => stale d ∨ d = x) reason
      ih (fun e old => old.elim (fun old => Nat.le_of_lt (below e old)) Nat.le_of_eq) a.listeners
      (flag x reason s) _ (wired.flag found reason) flagged rfl rfl (wired.nodup x a found)
      (fun _ => id) (by rw [flag, length_update]; exact enough) calm users
    rw [source_flag] at cascade
    have whole := cascade.of_flag found live
    have abortedX : s'.isAborted x = true := cascade.isAborted (by rw [isAborted_eq flagged])
    obtain ⟨b, foundB, kept, -⟩ := whole.signals x a found
    refine ⟨s', ?_, whole, abortedX, wired'⟩
    have start : AbortState.abortSignal (n + 1) x reason s =
        (AbortState.callListeners (AbortState.abortSignal n) x a.listeners (flag x reason s)).andThen
          (AbortState.callOnabort x) := by
      rw [AbortState.abortSignal]
      change ((flag x reason s).callOnabort x).andThen _ = _
      rw [callOnabort_eq _ flagged none, Outcome.done_andThen, flagged]
      rfl
    rcases ends with returns | ⟨throws, r, member⟩
    · refine .inl ?_
      rw [start, returns, Outcome.done_andThen]
      exact callOnabort_eq s' foundB (kept.onabort.trans none)
    · refine .inr ⟨?_, r, member⟩
      rw [start, throws, Outcome.threw_andThen]

end Dispatch

end QjsLws.Events
