import QjsLws.Events.Abort

/-!
# What an abort sets off

An abort goes through the handlers of `any` from a signal to those made of it. As long as the inputs
of a signal are independent of each other, it reaches each of them once: handlers that are still to be
called in a dispatch belong to signals that nothing else on the way has aborted.
-/

namespace QjsLws.Events

open QjsLws.Misc

/-! ## Changes of signals -/

section Changes

variable {s s' s'' : AbortState} {x y d k : Nat} {R R' : Nat → Prop} {reason : Reason}
  {queue more : List AbortListener}

theorem getElem?_update (s : AbortState) (x y : Nat) (f : Signal → Signal) :
    (s.update x f).signals[y]? = (s.signals[y]?).map fun signal => if x = y then f signal else signal := by
  rw [AbortState.update, List.getElem?_modify]
  rfl

theorem length_update (s : AbortState) (x : Nat) (f : Signal → Signal) :
    (s.update x f).signals.length = s.signals.length := List.length_modify ..

theorem exists_of_update {f : Signal → Signal} {b : Signal}
    (found : (s.update x f).signals[y]? = some b) :
    ∃ a, s.signals[y]? = some a ∧ b = if x = y then f a else a := by
  rw [getElem?_update] at found
  obtain ⟨a, known, rfl⟩ := Option.map_eq_some_iff.mp found
  exact ⟨a, known, rfl⟩

theorem isAborted_eq {a : Signal} (found : s.signals[x]? = some a) : s.isAborted x = a.aborted := by
  rw [AbortState.isAborted, found]
  rfl

theorem inputsOf_eq {a : Signal} (found : s.signals[x]? = some a) : s.inputsOf x = a.inputs := by
  rw [AbortState.inputsOf, found]
  rfl

theorem exists_of_isAborted (aborted : s.isAborted x = true) :
    ∃ a, s.signals[x]? = some a ∧ a.aborted = true := by
  cases found : s.signals[x]? with
  | none =>
    rw [AbortState.isAborted, found] at aborted
    cases aborted
  | some a => exact ⟨a, rfl, (isAborted_eq found).symm.trans aborted⟩

/-- What an abort keeps of a signal: it may only lose handlers. -/
structure Kept (a b : Signal) : Prop where
  derived : b.derived = a.derived
  inputs : b.inputs = a.inputs
  handlers : b.handlers = a.handlers
  onabort : b.onabort = a.onabort
  users : ∀ r t, .user r t ∈ a.listeners → .user r t ∈ b.listeners
  fewer : b.listeners.Sublist a.listeners

theorem Kept.refl (a : Signal) : Kept a a := ⟨rfl, rfl, rfl, rfl, fun _ _ member => member, .refl _⟩

theorem Kept.trans {a b c : Signal} (first : Kept a b) (second : Kept b c) : Kept a c where
  derived := second.derived.trans first.derived
  inputs := second.inputs.trans first.inputs
  handlers := second.handlers.trans first.handlers
  onabort := second.onabort.trans first.onabort
  users r t member := second.users r t (first.users r t member)
  fewer := second.fewer.trans first.fewer

/-- A registration belongs to one signal. -/
def Own (s : AbortState) : Prop := ∀ (x y : Nat) a b r t u, s.signals[x]? = some a →
  s.signals[y]? = some b → .user r t ∈ a.listeners → .user r u ∈ b.listeners → x = y ∧ t = u

/-- The signal gets aborted between the two states. -/
def NewlyAborted (s s' : AbortState) (y : Nat) : Prop :=
  s.isAborted y = false ∧ s'.isAborted y = true

/-- What an abort changes: signals of the set `R` get aborted, for the reason, and the listeners of
those signals and of the queue are called. -/
structure Cascade (s s' : AbortState) (R : Nat → Prop) (reason : Reason)
    (queue : List AbortListener) : Prop where
  length : s'.signals.length = s.signals.length
  registrations : s'.registrations = s.registrations
  errors : s'.errors = s.errors
  signals : ∀ (y : Nat) a, s.signals[y]? = some a → ∃ b, s'.signals[y]? = some b ∧ Kept a b ∧
    (b.aborted = a.aborted ∧ b.reason = a.reason ∨
      R y ∧ a.aborted = false ∧ b.aborted = true ∧ b.reason = some reason)
  calls : ∃ new, s'.calls = s.calls ++ new ∧ new.Nodup ∧ ∀ c ∈ new, ∃ r, c = .listener r ∧
    ((∃ t, .user r t ∈ queue) ∨ ∃ (y : Nat) (a : Signal) (t : Bool), s.signals[y]? = some a ∧
      .user r t ∈ a.listeners ∧ NewlyAborted s s' y)

theorem Cascade.refl (s : AbortState) (R : Nat → Prop) (reason : Reason) :
    Cascade s s R reason [] where
  length := rfl
  registrations := rfl
  errors := rfl
  signals _ a found := ⟨a, found, .refl a, .inl ⟨rfl, rfl⟩⟩
  calls := ⟨[], by simp⟩

theorem Cascade.back (cascade : Cascade s s' R reason queue) {b : Signal}
    (found : s'.signals[y]? = some b) : ∃ a, s.signals[y]? = some a ∧ Kept a b ∧
      (b.aborted = a.aborted ∧ b.reason = a.reason ∨
        R y ∧ a.aborted = false ∧ b.aborted = true ∧ b.reason = some reason) := by
  obtain ⟨inside, -⟩ := List.getElem?_eq_some_iff.mp found
  rw [cascade.length] at inside
  have known : s.signals[y]? = some s.signals[y] := List.getElem?_eq_getElem inside
  obtain ⟨b', found', kept⟩ := cascade.signals y _ known
  obtain rfl : b' = b := Option.some.inj (found'.symm.trans found)
  exact ⟨_, known, kept⟩

theorem Cascade.isAborted (cascade : Cascade s s' R reason queue) (aborted : s.isAborted y = true) :
    s'.isAborted y = true := by
  obtain ⟨a, found, flagged⟩ := exists_of_isAborted aborted
  obtain ⟨b, found', -, same | new⟩ := cascade.signals y a found
  · rw [isAborted_eq found', same.1, flagged]
  · rw [isAborted_eq found', new.2.2.1]

theorem Cascade.inputsOf (cascade : Cascade s s' R reason queue) : s'.inputsOf = s.inputsOf := by
  funext y
  cases found : s.signals[y]? with
  | none =>
    have absent : s'.signals[y]? = none := by
      rw [List.getElem?_eq_none_iff, cascade.length]
      exact List.getElem?_eq_none_iff.mp found
    rw [AbortState.inputsOf, absent, AbortState.inputsOf, found]
  | some a =>
    obtain ⟨b, found', kept, -⟩ := cascade.signals y a found
    rw [inputsOf_eq found', inputsOf_eq found, kept.inputs]

theorem Cascade.source (cascade : Cascade s s' R reason queue) : s'.Source = s.Source := by
  rw [AbortState.Source, cascade.inputsOf]
  rfl

theorem Cascade.own (cascade : Cascade s s' R reason queue) (own : Own s) : Own s' := by
  intro x y b b' r t u found found' member member'
  obtain ⟨a, known, kept, -⟩ := cascade.back found
  obtain ⟨a', known', kept', -⟩ := cascade.back found'
  exact own x y a a' r t u known known' (kept.fewer.subset member) (kept'.fewer.subset member')

theorem Cascade.mono (cascade : Cascade s s' R reason queue) (wider : ∀ y, R y → R' y)
    (longer : ∀ l ∈ queue, l ∈ more) : Cascade s s' R' reason more where
  length := cascade.length
  registrations := cascade.registrations
  errors := cascade.errors
  signals y a found := by
    obtain ⟨b, found', kept, same | new⟩ := cascade.signals y a found
    · exact ⟨b, found', kept, .inl same⟩
    · exact ⟨b, found', kept, .inr ⟨wider y new.1, new.2⟩⟩
  calls := by
    obtain ⟨new, calls, nodup, from_⟩ := cascade.calls
    refine ⟨new, calls, nodup, fun c member => ?_⟩
    obtain ⟨r, same, direct | later⟩ := from_ c member
    · obtain ⟨t, direct⟩ := direct
      exact ⟨r, same, .inl ⟨t, longer _ direct⟩⟩
    · exact ⟨r, same, .inr later⟩

/-- One after the other, where the queues are listeners of one signal that is aborted already. -/
theorem Cascade.trans (own : Own s) (first : Cascade s s' R reason queue)
    (second : Cascade s' s'' R reason more) {a : Signal} (found : s.signals[x]? = some a)
    (aborted : a.aborted = true) (listeners : ∀ l ∈ queue ++ more, l ∈ a.listeners)
    (nodup : (queue ++ more).Nodup) : Cascade s s'' R reason (queue ++ more) where
  length := second.length.trans first.length
  registrations := second.registrations.trans first.registrations
  errors := second.errors.trans first.errors
  signals y a found := by
    obtain ⟨b, foundB, kept, change⟩ := first.signals y a found
    obtain ⟨c, foundC, kept', change'⟩ := second.signals y b foundB
    refine ⟨c, foundC, kept.trans kept', ?_⟩
    rcases change with same | new
    · rcases change' with same' | new'
      · exact .inl ⟨same'.1.trans same.1, same'.2.trans same.2⟩
      · exact .inr ⟨new'.1, same.1 ▸ new'.2.1, new'.2.2⟩
    · rcases change' with same' | new'
      · exact .inr ⟨new.1, new.2.1, same'.1.trans new.2.2.1, same'.2.trans new.2.2.2⟩
      · rw [new.2.2.1] at new'
        cases new'.2.1
  calls := by
    obtain ⟨new, calls, nodupNew, from_⟩ := first.calls
    obtain ⟨new', calls', nodupNew', from'⟩ := second.calls
    -- a listener called later belongs to the queue, or to a signal that was not yet aborted
    have later : ∀ c ∈ new', ∃ r, c = .listener r ∧ ((∃ t, .user r t ∈ more) ∨
        ∃ (y : Nat) (a : Signal) (t : Bool), s.signals[y]? = some a ∧ .user r t ∈ a.listeners ∧
          NewlyAborted s' s'' y ∧ s.isAborted y = false) := by
      intro c member
      obtain ⟨r, rfl, direct | ⟨y, b, t, foundB, listener, unaborted, nowAborted⟩⟩ := from' c member
      · exact ⟨r, rfl, .inl direct⟩
      · obtain ⟨a, known, kept, -⟩ := first.back foundB
        refine ⟨r, rfl, .inr ⟨y, a, t, known, kept.fewer.subset listener, ⟨unaborted, nowAborted⟩, ?_⟩⟩
        by_contra before
        rw [first.isAborted (by simpa using before)] at unaborted
        cases unaborted
    refine ⟨new ++ new', by rw [calls', calls, List.append_assoc], ?_, ?_⟩
    · refine List.nodup_append.mpr ⟨nodupNew, nodupNew', ?_⟩
      rintro c earlier _ member rfl
      obtain ⟨r, rfl, direct | ⟨y, b, t, known, listener, nowAborted⟩⟩ := from_ c earlier
      · obtain ⟨t, direct⟩ := direct
        have atX := listeners _ (List.mem_append_left _ direct)
        obtain ⟨r', same, direct' | ⟨y, b, u, known, listener, -, unaborted⟩⟩ := later _ member
        · obtain ⟨u, direct'⟩ := direct'
          obtain rfl : r = r' := by injection same
          have atX' := listeners _ (List.mem_append_right _ direct')
          obtain ⟨-, rfl⟩ := own x x a a r t u found found atX atX'
          exact (List.nodup_append.mp nodup).2.2 _ direct _ direct' rfl
        · obtain rfl : r = r' := by injection same
          obtain ⟨rfl, -⟩ := own x y a b r t u found known atX listener
          rw [isAborted_eq found, aborted] at unaborted
          cases unaborted
      · obtain ⟨r', same, direct' | ⟨y', b', u, known', listener', unaborted', -⟩⟩ := later _ member
        · obtain ⟨u, direct'⟩ := direct'
          obtain rfl : r = r' := by injection same
          have atX' := listeners _ (List.mem_append_right _ direct')
          obtain ⟨rfl, -⟩ := own x y a b r u t found known atX' listener
          rw [NewlyAborted, isAborted_eq found, aborted] at nowAborted
          cases nowAborted.1
        · obtain rfl : r = r' := by injection same
          obtain ⟨rfl, -⟩ := own y y' b b' r t u known known' listener listener'
          rw [NewlyAborted, nowAborted.2] at unaborted'
          cases unaborted'.1
    · intro c member
      rcases List.mem_append.mp member with earlier | member
      · obtain ⟨r, rfl, ⟨t, direct⟩ | ⟨y, b, t, known, listener, nowAborted⟩⟩ := from_ c earlier
        · exact ⟨r, rfl, .inl ⟨t, List.mem_append_left _ direct⟩⟩
        · exact ⟨r, rfl, .inr ⟨y, b, t, known, listener, nowAborted.1, second.isAborted nowAborted.2⟩⟩
      · obtain ⟨r, rfl, ⟨t, direct⟩ | ⟨y, b, t, known, listener, new, unaborted⟩⟩ := later c member
        · exact ⟨r, rfl, .inl ⟨t, List.mem_append_right _ direct⟩⟩
        · exact ⟨r, rfl, .inr ⟨y, b, t, known, listener, unaborted, new.2⟩⟩

end Changes

/-! ## How signals hang together -/

section Wires

variable {s s' : AbortState} {x y d k : Nat} {P P' : Nat → Nat → Prop} {stale stale' : Nat → Prop}

/-- Signals that `any` may be given together. -/
def AbortState.Independent (s : AbortState) (x y : Nat) : Prop :=
  x ≠ y ∧ ¬s.Source x y ∧ ¬s.Source y x

/-- The inputs of a signal come before it. One that is not aborted has a handler on each of its
inputs, and these are not aborted, unless (by `P`) the handler is still to be called; there are no
other handlers but those of signals (in `stale`) that are aborted right now. -/
structure Wired (P : Nat → Nat → Prop) (stale : Nat → Prop) (s : AbortState) : Prop where
  smaller : ∀ (d : Nat) a, s.signals[d]? = some a → ∀ x ∈ a.inputs, x < d
  own : Own s
  nodup : ∀ (x : Nat) a, s.signals[x]? = some a → a.listeners.Nodup
  independent : ∀ (d : Nat) a, s.signals[d]? = some a → a.aborted = false →
    a.inputs.Pairwise s.Independent
  live : ∀ (d : Nat) a, s.signals[d]? = some a → a.aborted = false → ∀ x ∈ a.inputs, ∃ b k,
    s.signals[x]? = some b ∧ (b.aborted = false ∨ P x d) ∧ a.handlers.get x = some k ∧
      .forward d k ∈ b.listeners
  forwards : ∀ (x : Nat) b d k, s.signals[x]? = some b → .forward d k ∈ b.listeners →
    ∃ a, s.signals[d]? = some a ∧ (a.aborted = false ∨ stale d) ∧ x ∈ a.inputs ∧
      a.handlers.get x = some k

theorem Wired.of_signals (wired : Wired P stale s) (same : s'.signals = s.signals) :
    Wired P stale s' := by
  have sources : s'.Source = s.Source := by
    rw [AbortState.Source, AbortState.Source]
    simp only [AbortState.inputsOf, same]
  have independent : s'.Independent = s.Independent := by
    funext x y
    rw [AbortState.Independent, sources]
    rfl
  refine ⟨?_, ?_, ?_, ?_, ?_, ?_⟩
  · rw [same]
    exact wired.smaller
  · rw [Own, same]
    exact wired.own
  · rw [same]
    exact wired.nodup
  · rw [same, independent]
    exact wired.independent
  · rw [same]
    exact wired.live
  · rw [same]
    exact wired.forwards

theorem Wired.imp (wired : Wired P stale s) (pending : ∀ x d, P x d → P' x d)
    (more : ∀ d, stale d → stale' d) : Wired P' stale' s where
  smaller := wired.smaller
  own := wired.own
  nodup := wired.nodup
  independent := wired.independent
  live d a found live x input := by
    obtain ⟨b, k, foundX, alive, handler, listener⟩ := wired.live d a found live x input
    exact ⟨b, k, foundX, alive.imp_right (pending x d), handler, listener⟩
  forwards x b d k found listener := by
    obtain ⟨a, foundD, alive, rest⟩ := wired.forwards x b d k found listener
    exact ⟨a, foundD, alive.imp_right (more d), rest⟩

/-- Pairs whose signal is aborted need not be looked at. -/
theorem Wired.settle (wired : Wired P stale s)
    (pending : ∀ x d, s.isAborted d = false → P x d → P' x d) : Wired P' stale s where
  smaller := wired.smaller
  own := wired.own
  nodup := wired.nodup
  independent := wired.independent
  live d a found live x input := by
    obtain ⟨b, k, foundX, alive, handler, listener⟩ := wired.live d a found live x input
    exact ⟨b, k, foundX, alive.imp_right (pending x d (by rw [isAborted_eq found, live])), handler,
      listener⟩
  forwards := wired.forwards

theorem Wired.source_lt (wired : Wired P stale s) (source : s.Source x y) : x < y := by
  have step : ∀ {x y}, x ∈ s.inputsOf y → x < y := by
    intro x y input
    cases found : s.signals[y]? with
    | none =>
      rw [AbortState.inputsOf, found] at input
      cases input
    | some a =>
      rw [inputsOf_eq found] at input
      exact wired.smaller y a found x input
  induction source with
  | single input => exact step input
  | tail _ input ih => exact Nat.lt_trans ih (step input)

/-- Two signals of which one was made of the other, and both were given to the same `any`. -/
theorem Wired.not_source (wired : Wired P stale s) {a : Signal} (found : s.signals[d]? = some a)
    (live : a.aborted = false) (input : x ∈ a.inputs) (below : x ∈ s.inputsOf y) : ¬s.Source y d := by
  intro source
  obtain ⟨z, between, last⟩ : ∃ z, (z = y ∨ s.Source y z) ∧ z ∈ a.inputs := by
    rw [← inputsOf_eq found]
    cases source with
    | single direct => exact ⟨y, .inl rfl, direct⟩
    | tail rest last => exact ⟨_, .inr rest, last⟩
  have sourceZ : s.Source x z := by
    rcases between with rfl | source
    · exact .single below
    · exact .head below source
  have apart : x ≠ z := Nat.ne_of_lt (wired.source_lt sourceZ)
  have pairwise := wired.independent d a found live
  obtain ⟨i, atX⟩ := List.mem_iff_getElem?.mp input
  obtain ⟨j, atZ⟩ := List.mem_iff_getElem?.mp last
  obtain ⟨insideX, rfl⟩ := List.getElem?_eq_some_iff.mp atX
  obtain ⟨insideZ, rfl⟩ := List.getElem?_eq_some_iff.mp atZ
  rcases Nat.lt_trichotomy i j with before | rfl | after
  · exact (List.pairwise_iff_getElem.mp pairwise i j insideX insideZ before).2.1 sourceZ
  · exact apart rfl
  · exact (List.pairwise_iff_getElem.mp pairwise j i insideZ insideX after).2.2 sourceZ

/-! ### The flag -/

/-- `aborted` and `reason` are set. -/
def flag (x : Nat) (reason : Reason) (s : AbortState) : AbortState :=
  s.update x fun signal => { signal with reason := some reason, aborted := true }

theorem source_flag (s : AbortState) (x : Nat) (reason : Reason) :
    (flag x reason s).Source = s.Source := by
  have same : (flag x reason s).inputsOf = s.inputsOf := by
    funext y
    rw [AbortState.inputsOf, flag, getElem?_update, AbortState.inputsOf]
    cases s.signals[y]? with
    | none => rfl
    | some a =>
      rw [Option.map_some]
      split <;> rfl
  rw [AbortState.Source, same]
  rfl

theorem getElem?_flag {a : Signal} (found : s.signals[x]? = some a) (reason : Reason) :
    (flag x reason s).signals[x]? = some { a with reason := some reason, aborted := true } := by
  rw [flag, getElem?_update, found, Option.map_some, if_pos rfl]

theorem exists_of_flag {reason : Reason} {b : Signal}
    (found : (flag x reason s).signals[y]? = some b) : ∃ a, s.signals[y]? = some a ∧
      b.inputs = a.inputs ∧ b.handlers = a.handlers ∧ b.listeners = a.listeners ∧
        (y ≠ x → b = a) ∧ (y = x → b.aborted = true) := by
  obtain ⟨a, known, rfl⟩ := exists_of_update found
  refine ⟨a, known, ?_⟩
  by_cases same : x = y
  · rw [if_pos same]
    exact ⟨rfl, rfl, rfl, fun apart => (apart same.symm).elim, fun _ => rfl⟩
  · rw [if_neg same]
    exact ⟨rfl, rfl, rfl, fun _ => rfl, fun eq => (same eq.symm).elim⟩

theorem Wired.flag (wired : Wired P stale s) {a : Signal} (found : s.signals[x]? = some a)
    (reason : Reason) :
    Wired (fun y d => P y d ∨ y = x ∧ ∃ k, .forward d k ∈ a.listeners) (fun d => stale d ∨ d = x)
      (flag x reason s) where
  smaller d b foundB := by
    obtain ⟨c, known, inputs, -⟩ := exists_of_flag foundB
    rw [inputs]
    exact wired.smaller d c known
  own y z b b' r t u foundB foundB' member member' := by
    obtain ⟨c, known, -, -, listeners, -⟩ := exists_of_flag foundB
    obtain ⟨c', known', -, -, listeners', -⟩ := exists_of_flag foundB'
    exact wired.own y z c c' r t u known known' (listeners ▸ member) (listeners' ▸ member')
  nodup y b foundB := by
    obtain ⟨c, known, -, -, listeners, -⟩ := exists_of_flag foundB
    rw [listeners]
    exact wired.nodup y c known
  independent d b foundB live := by
    obtain ⟨c, known, -, -, -, other, self⟩ := exists_of_flag foundB
    have apart : d ≠ x := fun same => by rw [self same] at live; cases live
    rw [other apart] at live ⊢
    refine (wired.independent d c known live).imp fun independent => ?_
    rw [AbortState.Independent, source_flag]
    exact independent
  live d b foundB live y input := by
    obtain ⟨c, known, -, -, -, other, self⟩ := exists_of_flag foundB
    have apart : d ≠ x := fun same => by rw [self same] at live; cases live
    rw [other apart] at live input ⊢
    obtain ⟨e, k, foundY, alive, handler, listener⟩ := wired.live d c known live y input
    by_cases same : y = x
    · subst same
      obtain rfl : a = e := Option.some.inj (found.symm.trans foundY)
      exact ⟨_, k, getElem?_flag found reason, .inr (.inr ⟨rfl, k, listener⟩), handler, listener⟩
    · refine ⟨e, k, ?_, alive.imp_right .inl, handler, listener⟩
      rw [QjsLws.Events.flag, getElem?_update, foundY, Option.map_some, if_neg (Ne.symm same)]
  forwards y b d k foundB member := by
    obtain ⟨c, known, -, -, listeners, -⟩ := exists_of_flag foundB
    rw [listeners] at member
    obtain ⟨e, foundD, alive, input, handler⟩ := wired.forwards y c d k known member
    by_cases same : d = x
    · subst same
      obtain rfl : a = e := Option.some.inj (found.symm.trans foundD)
      exact ⟨_, getElem?_flag found reason, .inr (.inr rfl), input, handler⟩
    · refine ⟨e, ?_, alive.imp_right .inl, input, handler⟩
      rw [QjsLws.Events.flag, getElem?_update, foundD, Option.map_some, if_neg (Ne.symm same)]

/-! ### Removing handlers -/

theorem cascade_removeHandler (s : AbortState) (x d k : Nat) (R : Nat → Prop) (reason : Reason) :
    Cascade s (s.removeHandler x d k) R reason [] where
  length := length_update ..
  registrations := rfl
  errors := rfl
  signals y a found := by
    refine ⟨if x = y then { a with listeners := a.listeners.filter (· ≠ .forward d k) } else a,
      ?_, ?_, ?_⟩
    · rw [AbortState.removeHandler, getElem?_update, found, Option.map_some]
    · split
      · refine ⟨rfl, rfl, rfl, rfl, fun r t member => ?_, List.filter_sublist⟩
        exact List.mem_filter.mpr ⟨member, rfl⟩
      · exact .refl a
    · split <;> exact .inl ⟨rfl, rfl⟩
  calls := ⟨[], by simp [AbortState.removeHandler, AbortState.update]⟩

theorem mem_removeHandler {b : Signal} {l : AbortListener}
    (found : (s.removeHandler x d k).signals[y]? = some b) (member : l ∈ b.listeners) :
    ∃ a, s.signals[y]? = some a ∧ l ∈ a.listeners ∧ (x = y → l ≠ .forward d k) := by
  obtain ⟨a, known, rfl⟩ := exists_of_update found
  refine ⟨a, known, ?_⟩
  by_cases same : x = y
  · rw [if_pos same] at member
    obtain ⟨old, other⟩ := List.mem_filter.mp member
    exact ⟨old, fun _ => by simpa using other⟩
  · rw [if_neg same] at member
    exact ⟨member, fun eq => (same eq).elim⟩

/-- An aborted signal loses a handler. -/
theorem Wired.removeHandler (wired : Wired P stale s) (aborted : s.isAborted d = true) (x k : Nat) :
    Wired P stale (s.removeHandler x d k) := by
  have cascade := cascade_removeHandler s x d k (fun _ => False) (.given 0)
  have same : ∀ {y : Nat} {a b : Signal}, s.signals[y]? = some a →
      (s.removeHandler x d k).signals[y]? = some b → Kept a b ∧ b.aborted = a.aborted := by
    intro y a b known found
    obtain ⟨b', found', kept, change⟩ := cascade.signals y a known
    obtain rfl : b' = b := Option.some.inj (found'.symm.trans found)
    exact ⟨kept, change.elim And.left fun no => no.1.elim⟩
  refine ⟨?_, cascade.own wired.own, ?_, ?_, ?_, ?_⟩
  · intro e b found
    obtain ⟨a, known, kept, -⟩ := cascade.back found
    rw [kept.inputs]
    exact wired.smaller e a known
  · intro y b found
    obtain ⟨a, known, kept, -⟩ := cascade.back found
    exact (wired.nodup y a known).sublist kept.fewer
  · intro e b found live
    obtain ⟨a, known, kept, -⟩ := cascade.back found
    rw [(same known found).2] at live
    rw [kept.inputs]
    refine (wired.independent e a known live).imp fun independent => ?_
    rw [AbortState.Independent, cascade.source]
    exact independent
  · intro e b found live y input
    obtain ⟨a, known, kept, -⟩ := cascade.back found
    rw [(same known found).2] at live
    rw [kept.inputs] at input
    obtain ⟨c, k', foundY, alive, handler, listener⟩ := wired.live e a known live y input
    obtain ⟨c', foundC', -⟩ := cascade.signals y c foundY
    have apart : e ≠ d := by
      rintro rfl
      rw [isAborted_eq known, live] at aborted
      cases aborted
    refine ⟨c', k', foundC', ?_, by rw [kept.handlers, handler], ?_⟩
    · rw [(same foundY foundC').2]
      exact alive
    · rw [AbortState.removeHandler, getElem?_update, foundY, Option.map_some] at foundC'
      rw [← Option.some.inj foundC']
      split
      · exact List.mem_filter.mpr ⟨listener, by simp [apart]⟩
      · exact listener
  · intro y b e k' found member
    obtain ⟨a, known, old, -⟩ := mem_removeHandler found member
    obtain ⟨c, foundE, alive, input, handler⟩ := wired.forwards y a e k' known old
    obtain ⟨c', foundC', kept, -⟩ := cascade.signals e c foundE
    refine ⟨c', foundC', ?_, by rw [kept.inputs]; exact input, by rw [kept.handlers]; exact handler⟩
    rw [(same foundE foundC').2]
    exact alive

/-! ### Cleaning up -/

theorem cleanFrom_spec {handlers : Assoc Nat Nat} {reason : Reason} {R : Nat → Prop}
    (inputs : List Nat) (present : ∀ x ∈ inputs, ∃ k, handlers.get x = some k) :
    ∀ s, Wired P stale s → s.isAborted d = true →
      ∃ s', AbortState.cleanFrom handlers d inputs s = .done s' ∧ Cascade s s' R reason [] ∧
        Wired P stale s' ∧ ∀ x ∈ inputs, ∀ k b, handlers.get x = some k →
          s'.signals[x]? = some b → .forward d k ∉ b.listeners := by
  induction inputs with
  | nil => exact fun s wired _ => ⟨s, rfl, .refl s R reason, wired, by simp⟩
  | cons x inputs ih =>
    intro s wired aborted
    obtain ⟨k, handler⟩ := present x List.mem_cons_self
    have first := cascade_removeHandler s x d k R reason
    obtain ⟨s', cleaned, second, wired', gone⟩ :=
      ih (fun y member => present y (List.mem_cons_of_mem _ member)) _
        (wired.removeHandler aborted x k) (first.isAborted aborted)
    obtain ⟨a, found, flagged⟩ := exists_of_isAborted aborted
    refine ⟨s', ?_, first.trans wired.own second found flagged (by simp) (by simp), wired', ?_⟩
    · rw [AbortState.cleanFrom, handler]
      exact cleaned
    · intro y member k' b handler' foundY listener
      rcases List.mem_cons.mp member with rfl | later
      · obtain rfl : k = k' := Option.some.inj (handler.symm.trans handler')
        obtain ⟨c, foundC, kept, -⟩ := second.back foundY
        obtain ⟨-, -, -, other⟩ := mem_removeHandler foundC (kept.fewer.subset listener)
        exact other rfl rfl
      · exact gone y later k' b handler' foundY listener

/-- An aborted signal that has its handlers leaves none of them behind. -/
theorem clean_spec (wired : Wired P stale s) {a : Signal} (found : s.signals[d]? = some a)
    (aborted : a.aborted = true) (present : ∀ x ∈ a.inputs, ∃ k, a.handlers.get x = some k)
    (R : Nat → Prop) (reason : Reason) : ∃ s', s.clean d = .done s' ∧
      Cascade s s' R reason [] ∧ Wired P (fun e => stale e ∧ e ≠ d) s' := by
  obtain ⟨s', cleaned, cascade, wired', gone⟩ :=
    @cleanFrom_spec d P stale a.handlers reason R a.inputs present s wired
      (by rw [isAborted_eq found, aborted])
  refine ⟨s', by rw [AbortState.clean, found]; exact cleaned, cascade, ?_⟩
  refine { wired' with forwards := ?_ }
  intro x b e k foundX listener
  obtain ⟨c, foundE, alive, input, handler⟩ := wired'.forwards x b e k foundX listener
  refine ⟨c, foundE, alive.imp_right fun old => ⟨old, ?_⟩, input, handler⟩
  rintro rfl
  obtain ⟨a', known, kept, -⟩ := cascade.back foundE
  obtain rfl : a = a' := Option.some.inj (found.symm.trans known)
  rw [kept.inputs] at input
  rw [kept.handlers] at handler
  exact gone x input k b handler foundX listener

end Wires

end QjsLws.Events
