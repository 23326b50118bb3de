import QjsLws.Events.Proofs.AbortDispatch

/-!
# Signals made of others

`AbortSignal.any` adds a signal and its handlers on its inputs. What makes the handlers right before
makes them right after, if the inputs are independent and not aborted, or the first is aborted.
-/

namespace QjsLws.Events

open QjsLws.Misc

variable {s t : AbortState} {new : Signal} {x y c d k : Nat} {reason : Reason}

/-- No handler is yet to be called, none is left behind. -/
abbrev Settled (s : AbortState) : Prop := Wired (fun _ _ => False) (fun _ => False) s

/-- What is made of an aborted signal is aborted. -/
theorem Settled.isAborted (settled : Settled s) (source : s.Source c y)
    (aborted : s.isAborted c = true) : s.isAborted y = true := by
  have step : ∀ {x y}, x ∈ s.inputsOf y → s.isAborted x = true → s.isAborted y = true := by
    intro x y input flagged
    by_contra live
    cases found : s.signals[y]? with
    | none =>
      rw [AbortState.inputsOf, found] at input
      cases input
    | some a =>
      rw [isAborted_eq found, Bool.not_eq_true] at live
      rw [inputsOf_eq found] at input
      obtain ⟨b, -, foundX, alive, -⟩ := settled.live y a found live x input
      rw [isAborted_eq foundX, alive.resolve_right id] at flagged
      cases flagged
  induction source with
  | single input => exact step input aborted
  | tail _ input ih => exact step input ih

/-! ## A new signal -/

/-- The handlers of a signal on another. -/
def handlersOn (target : Nat) (handlers : Assoc Nat Nat) (x : Nat) : List AbortListener :=
  ((handlers.get x).map (.forward target)).toList

/-- A signal is added, and its handlers with it. -/
structure Joined (s t : AbortState) (new : Signal) : Prop where
  length : t.signals.length = s.signals.length + 1
  registrations : t.registrations = s.registrations
  calls : t.calls = s.calls
  old : ∀ (y : Nat) a, s.signals[y]? = some a → t.signals[y]? =
    some { a with listeners := a.listeners ++ handlersOn s.signals.length new.handlers y }
  last : t.signals[s.signals.length]? = some new

/-- The new signal is aborted if one of its inputs is; else it has its handlers. -/
structure Fit (s : AbortState) (new : Signal) : Prop where
  smaller : ∀ x ∈ new.inputs, x < s.signals.length
  listeners : new.listeners = []
  aborted : new.aborted = true ↔ ∃ x ∈ new.inputs, s.isAborted x = true
  reason : new.aborted = true → new.reason.isSome = true
  handlers : ∀ x k, new.handlers.get x = some k → new.aborted = false ∧ x ∈ new.inputs
  present : new.aborted = false → ∀ x ∈ new.inputs, ∃ k, new.handlers.get x = some k
  independent : new.aborted = false → new.inputs.Pairwise s.Independent
  derived : new.derived = false → new.inputs = []

theorem mem_handlersOn {l : AbortListener} {handlers : Assoc Nat Nat} :
    l ∈ handlersOn d handlers x ↔ ∃ k, handlers.get x = some k ∧ l = .forward d k := by
  rw [handlersOn, Option.mem_toList, Option.map_eq_some_iff]
  exact exists_congr fun k => and_congr_right fun _ => eq_comm

theorem Joined.back (joined : Joined s t new) {b : Signal} (found : t.signals[y]? = some b) :
    (∃ a, s.signals[y]? = some a ∧
      b = { a with listeners := a.listeners ++ handlersOn s.signals.length new.handlers y }) ∨
        y = s.signals.length ∧ b = new := by
  obtain ⟨inside, -⟩ := List.getElem?_eq_some_iff.mp found
  rw [joined.length] at inside
  rcases Nat.lt_succ_iff_lt_or_eq.mp inside with older | rfl
  · have known : s.signals[y]? = some s.signals[y] := List.getElem?_eq_getElem older
    exact .inl ⟨_, known, Option.some.inj (found.symm.trans (joined.old y _ known))⟩
  · exact .inr ⟨rfl, Option.some.inj (found.symm.trans joined.last)⟩

theorem Joined.isAborted (joined : Joined s t new) (inside : y < s.signals.length) :
    t.isAborted y = s.isAborted y := by
  have known : s.signals[y]? = some s.signals[y] := List.getElem?_eq_getElem inside
  rw [isAborted_eq (joined.old y _ known), isAborted_eq known]

theorem Joined.inputsOf (joined : Joined s t new) (inside : y < s.signals.length) :
    t.inputsOf y = s.inputsOf y := by
  have known : s.signals[y]? = some s.signals[y] := List.getElem?_eq_getElem inside
  rw [inputsOf_eq (joined.old y _ known), inputsOf_eq known]

theorem lt_of_mem_inputsOf (input : x ∈ s.inputsOf y) : y < s.signals.length := by
  by_contra outside
  rw [AbortState.inputsOf, List.getElem?_eq_none_iff.mpr (Nat.le_of_not_lt outside)] at input
  cases input

theorem mem_inputs (inside : y < s.signals.length) (input : x ∈ s.inputsOf y) :
    ∃ a, s.signals[y]? = some a ∧ x ∈ a.inputs := by
  have known : s.signals[y]? = some s.signals[y] := List.getElem?_eq_getElem inside
  rw [inputsOf_eq known] at input
  exact ⟨_, known, input⟩

theorem Joined.source_iff (joined : Joined s t new) (settled : Settled s)
    (inside : y < s.signals.length) : t.Source x y ↔ s.Source x y := by
  constructor
  · intro source
    induction source with
    | single input =>
      rw [joined.inputsOf inside] at input
      exact .single input
    | tail _ input ih =>
      rw [joined.inputsOf inside] at input
      obtain ⟨a, found, member⟩ := mem_inputs inside input
      exact .tail (ih (Nat.lt_trans (settled.smaller _ a found _ member) inside)) input
  · intro source
    refine Relation.TransGen.mono (fun z w input => ?_) _ _ source
    rw [joined.inputsOf (lt_of_mem_inputsOf input)]
    exact input

theorem Joined.source_last (joined : Joined s t new) (settled : Settled s) (fit : Fit s new) :
    t.Source x s.signals.length ↔ ∃ z ∈ new.inputs, x = z ∨ s.Source x z := by
  have inputs : t.inputsOf s.signals.length = new.inputs := inputsOf_eq joined.last
  constructor
  · intro source
    cases source with
    | single input => exact ⟨x, inputs ▸ input, .inl rfl⟩
    | tail rest input =>
      have member : _ ∈ new.inputs := inputs ▸ input
      exact ⟨_, member, .inr ((joined.source_iff settled (fit.smaller _ member)).mp rest)⟩
  · rintro ⟨z, member, rfl | source⟩
    · exact .single (inputs ▸ member)
    · exact .tail ((joined.source_iff settled (fit.smaller _ member)).mpr source) (inputs ▸ member)

theorem Joined.independent (joined : Joined s t new) (settled : Settled s)
    (insideX : x < s.signals.length) (insideY : y < s.signals.length)
    (independent : s.Independent x y) : t.Independent x y := by
  rw [AbortState.Independent, joined.source_iff settled insideX, joined.source_iff settled insideY]
  exact independent

theorem Settled.join (settled : Settled s) (joined : Joined s t new) (fit : Fit s new) :
    Settled t := by
  have users : ∀ {z r : Nat} {u : Bool} {b : Signal}, t.signals[z]? = some b →
      .user r u ∈ b.listeners → ∃ a, s.signals[z]? = some a ∧ .user r u ∈ a.listeners := by
    intro z r u b found member
    rcases joined.back found with ⟨a, known, rfl⟩ | ⟨-, rfl⟩
    · rcases List.mem_append.mp member with old | added
      · exact ⟨a, known, old⟩
      · obtain ⟨_, _, same⟩ := mem_handlersOn.mp added
        cases same
    · rw [fit.listeners] at member
      cases member
  refine ⟨?_, ?_, ?_, ?_, ?_, ?_⟩
  · intro d b found z input
    rcases joined.back found with ⟨a, known, rfl⟩ | ⟨rfl, rfl⟩
    · exact settled.smaller d a known z input
    · exact fit.smaller z input
  · intro z w b b' r u v found found' member member'
    obtain ⟨a, known, old⟩ := users found member
    obtain ⟨a', known', old'⟩ := users found' member'
    exact settled.own z w a a' r u v known known' old old'
  · intro z b found
    rcases joined.back found with ⟨a, known, rfl⟩ | ⟨-, rfl⟩
    · refine List.nodup_append.mpr ⟨settled.nodup z a known, ?_, ?_⟩
      · rw [handlersOn]
        cases new.handlers.get z with
        | none => exact List.nodup_nil
        | some k => exact List.nodup_singleton _
      · rintro l old _ added rfl
        obtain ⟨k, -, rfl⟩ := mem_handlersOn.mp added
        obtain ⟨e, absent, -⟩ := settled.forwards z a _ k known old
        exact Nat.lt_irrefl _ (List.getElem?_eq_some_iff.mp absent).1
    · rw [fit.listeners]
      exact List.nodup_nil
  · intro d b found live
    rcases joined.back found with ⟨a, known, rfl⟩ | ⟨rfl, rfl⟩
    · refine List.Pairwise.imp_of_mem ?_ (settled.independent d a known live)
      intro z w inputZ inputW
      have inside := (List.getElem?_eq_some_iff.mp known).1
      exact joined.independent settled (Nat.lt_trans (settled.smaller d a known z inputZ) inside)
        (Nat.lt_trans (settled.smaller d a known w inputW) inside)
    · refine List.Pairwise.imp_of_mem ?_ (fit.independent live)
      intro z w inputZ inputW
      exact joined.independent settled (fit.smaller z inputZ) (fit.smaller w inputW)
  · intro d b found live z input
    rcases joined.back found with ⟨a, known, rfl⟩ | ⟨rfl, rfl⟩
    · obtain ⟨e, k, foundZ, alive, handler, listener⟩ := settled.live d a known live z input
      exact ⟨_, k, joined.old z e foundZ, alive, handler, List.mem_append_left _ listener⟩
    · have knownZ : s.signals[z]? = some _ := List.getElem?_eq_getElem (fit.smaller z input)
      obtain ⟨k, handler⟩ := fit.present live z input
      refine ⟨_, k, joined.old z _ knownZ, .inl ?_, handler,
        List.mem_append_right _ (mem_handlersOn.mpr ⟨k, handler, rfl⟩)⟩
      by_contra flagged
      have aborted := fit.aborted.mpr ⟨z, input, by
        rw [isAborted_eq knownZ]
        simpa using flagged⟩
      rw [live] at aborted
      cases aborted
  · intro z b d k found listener
    rcases joined.back found with ⟨a, known, rfl⟩ | ⟨-, rfl⟩
    · rcases List.mem_append.mp listener with old | added
      · obtain ⟨e, foundD, alive, input, handler⟩ := settled.forwards z a d k known old
        exact ⟨_, joined.old d e foundD, alive, input, handler⟩
      · obtain ⟨k', handler, same⟩ := mem_handlersOn.mp added
        injection same with same same'
        subst same same'
        obtain ⟨live, input⟩ := fit.handlers z k handler
        exact ⟨new, joined.last, .inl live, input, handler⟩
    · rw [fit.listeners] at listener
      cases listener

/-! ## `AbortSignal.any` -/

theorem anyFrom_live {target : Nat} (inputs : List Nat) : ∀ (k : Nat) (s : AbortState) (a : Signal),
    s.signals[target]? = some a → target ∉ inputs → inputs.Nodup →
      (∀ x ∈ inputs, s.isAborted x = false) →
        ∃ handlers, (AbortState.anyFrom target k inputs s).signals.length = s.signals.length ∧
          (AbortState.anyFrom target k inputs s).registrations = s.registrations ∧
          (AbortState.anyFrom target k inputs s).calls = s.calls ∧
          (AbortState.anyFrom target k inputs s).signals[target]? = some { a with handlers } ∧
          (∀ y ∉ inputs, handlers.get y = a.handlers.get y) ∧
          (∀ y ∈ inputs, ∃ i, handlers.get y = some i) ∧
          ∀ (y : Nat) b, y ≠ target → s.signals[y]? = some b →
            (AbortState.anyFrom target k inputs s).signals[y]? = some { b with
              listeners := b.listeners ++ if y ∈ inputs then handlersOn target handlers y else [] } := by
  induction inputs with
  | nil =>
    intro k s a found _ _ _
    exact ⟨a.handlers, rfl, rfl, rfl, found, by simp, by simp, fun y b _ known => by
      simpa [AbortState.anyFrom] using known⟩
  | cons x inputs ih =>
    intro k s a found outside nodup live
    obtain ⟨absent, nodup⟩ := List.nodup_cons.mp nodup
    obtain ⟨apart, outside⟩ := not_or.mp (List.mem_cons.not.mp outside)
    let s₁ := (s.update target fun signal => { signal with handlers := signal.handlers.set x k }).update
      x fun signal => { signal with listeners := signal.listeners ++ [.forward target k] }
    have step : AbortState.anyFrom target k (x :: inputs) s
        = AbortState.anyFrom target (k + 1) inputs s₁ := by
      rw [AbortState.anyFrom, if_neg]
      have flag := live x List.mem_cons_self
      rw [AbortState.isAborted] at flag
      simp [flag]
    have foundT : s₁.signals[target]? = some { a with handlers := a.handlers.set x k } := by
      simp only [s₁]
      rw [getElem?_update, getElem?_update, found]
      simp [Ne.symm apart]
    have others : ∀ (y : Nat) b, y ≠ target → s.signals[y]? = some b → s₁.signals[y]? = some { b with
        listeners := b.listeners ++ if x = y then [.forward target k] else [] } := by
      intro y b other known
      simp only [s₁]
      rw [getElem?_update, getElem?_update, known]
      by_cases same : x = y
      · simp [same, Ne.symm other]
      · simp [same, Ne.symm other]
    have live₁ : ∀ y ∈ inputs, s₁.isAborted y = false := by
      intro y member
      have flag := live y (List.mem_cons_of_mem _ member)
      have other : y ≠ target := fun eq => outside (eq ▸ member)
      cases known : s.signals[y]? with
      | none =>
        have none : s₁.signals[y]? = none := by
          simp only [s₁]
          rw [getElem?_update, getElem?_update, known]
          rfl
        rw [AbortState.isAborted, none]
        rfl
      | some b =>
        rw [isAborted_eq known] at flag
        rw [isAborted_eq (others y b other known), flag]
    obtain ⟨handlers, length, registrations, calls, last, kept, present, all⟩ :=
      ih (k + 1) s₁ _ foundT outside nodup live₁
    have handlerX : handlers.get x = some k := by
      rw [kept x absent]
      exact Assoc.get_set_self ..
    rw [step]
    refine ⟨handlers, ?_, registrations, calls, last, ?_, ?_, ?_⟩
    · rw [length]
      exact (length_update ..).trans (length_update ..)
    · intro y missing
      obtain ⟨other, missing⟩ := not_or.mp (List.mem_cons.not.mp missing)
      rw [kept y missing]
      exact Assoc.get_set_ne _ _ (Ne.symm other)
    · intro y member
      rcases List.mem_cons.mp member with rfl | member
      · exact ⟨k, handlerX⟩
      · exact present y member
    · intro y b other known
      rw [all y _ other (others y b other known)]
      by_cases same : x = y
      · subst same
        simp [absent, handlersOn, handlerX]
      · simp [same, Ne.symm same]

/-- `any` begins with a signal of its own. -/
def withSignal (s : AbortState) (new : Signal) : AbortState := { s with signals := s.signals ++ [new] }

theorem getElem?_withSignal_of_lt (inside : y < s.signals.length) :
    (withSignal s new).signals[y]? = s.signals[y]? := List.getElem?_append_left inside

theorem getElem?_withSignal_self : (withSignal s new).signals[s.signals.length]? = some new := by
  rw [withSignal, List.getElem?_append_right (Nat.le_refl _), Nat.sub_self]
  rfl

theorem isAborted_withSignal (inside : y < s.signals.length) :
    (withSignal s new).isAborted y = s.isAborted y := by
  rw [AbortState.isAborted, getElem?_withSignal_of_lt inside, AbortState.isAborted]

theorem joined_withSignal (handlers : new.handlers = .empty) : Joined s (withSignal s new) new where
  length := by simp [withSignal]
  registrations := rfl
  calls := rfl
  old y a found := by
    rw [getElem?_withSignal_of_lt (List.getElem?_eq_some_iff.mp found).1, found]
    simp [handlersOn, handlers]
  last := getElem?_withSignal_self

theorem abortSignal_alone {a : Signal} {n : Nat} (found : s.signals[x]? = some a)
    (none : a.onabort = none) (listeners : a.listeners = []) :
    AbortState.abortSignal (n + 1) x reason s = .done (flag x reason s) := by
  have flagged := getElem?_flag found reason
  have quiet := callOnabort_eq (flag x reason s) flagged none
  rw [AbortState.abortSignal]
  change ((flag x reason s).callOnabort x).andThen _ = _
  rw [quiet, Outcome.done_andThen, flagged]
  change (AbortState.callListeners _ x a.listeners (flag x reason s)).andThen _ = _
  rw [listeners, AbortState.callListeners, Outcome.done_andThen, quiet]

theorem joined_aborted {inputs : List Nat} (first : x < s.signals.length)
    (aborted : s.isAborted x = true) :
    Joined s (AbortState.anyFrom s.signals.length 0 (x :: inputs)
        (withSignal s ⟨true, x :: inputs, .empty, false, none, none, []⟩))
      ⟨true, x :: inputs, .empty, true, some (s.reasonOf x), none, []⟩ := by
  let s₀ := withSignal s ⟨true, x :: inputs, .empty, false, none, none, []⟩
  have base : Joined s s₀ ⟨true, x :: inputs, .empty, false, none, none, []⟩ := joined_withSignal rfl
  have value : s₀.reasonOf x = s.reasonOf x := by
    rw [AbortState.reasonOf, getElem?_withSignal_of_lt first]
    rfl
  have result : AbortState.anyFrom s.signals.length 0 (x :: inputs) s₀
      = flag s.signals.length (s.reasonOf x) s₀ := by
    have flagX : s₀.isAborted x = true := (isAborted_withSignal first).trans aborted
    rw [AbortState.isAborted] at flagX
    rw [AbortState.anyFrom, if_pos flagX, value, base.length,
      abortSignal_alone base.last rfl rfl, Outcome.done_state]
  change Joined s (AbortState.anyFrom s.signals.length 0 (x :: inputs) s₀) _
  rw [result]
  refine ⟨?_, rfl, rfl, ?_, ?_⟩
  · rw [flag, length_update, base.length]
  · intro y a found
    have other : s.signals.length ≠ y := Nat.ne_of_gt (List.getElem?_eq_some_iff.mp found).1
    rw [flag, getElem?_update, base.old y a found, Option.map_some, if_neg other]
  · exact getElem?_flag base.last _

theorem joined_live {inputs : List Nat} (inside : ∀ x ∈ inputs, x < s.signals.length)
    (nodup : inputs.Nodup) (live : ∀ x ∈ inputs, s.isAborted x = false) :
    ∃ handlers, (∀ y k, handlers.get y = some k → y ∈ inputs) ∧
      (∀ y ∈ inputs, ∃ k, handlers.get y = some k) ∧
        Joined s (AbortState.anyFrom s.signals.length 0 inputs
            (withSignal s ⟨true, inputs, .empty, false, none, none, []⟩))
          ⟨true, inputs, handlers, false, none, none, []⟩ := by
  let s₀ := withSignal s ⟨true, inputs, .empty, false, none, none, []⟩
  have base : Joined s s₀ ⟨true, inputs, .empty, false, none, none, []⟩ := joined_withSignal rfl
  obtain ⟨handlers, length, registrations, calls, last, kept, present, all⟩ :=
    anyFrom_live inputs 0 s₀ _ base.last (fun member => Nat.lt_irrefl _ (inside _ member)) nodup
      fun x member => (isAborted_withSignal (inside x member)).trans (live x member)
  have absent : ∀ y ∉ inputs, handlers.get y = none := fun y missing => kept y missing
  refine ⟨handlers, ?_, present, ?_, registrations, calls, ?_, last⟩
  · intro y k handler
    by_contra missing
    rw [absent y missing] at handler
    cases handler
  · rw [← base.length]
    exact length
  · intro y a found
    have other : y ≠ s.signals.length := Nat.ne_of_lt (List.getElem?_eq_some_iff.mp found).1
    rw [all y _ other (base.old y a found)]
    by_cases member : y ∈ inputs
    · simp [member, handlersOn]
    · simp [member, handlersOn, absent y member]

end QjsLws.Events
