import QjsLws.Stream.Adapter

/-!
# Isolation of stream sessions

A session that was registered and whose wsi is not over is found under its wsi or is the pending
one. The invariant survives exactly the steps of `Undisturbed`: any other step crosses two
connections or loses a pending session at once.
-/

namespace QjsLws.Stream

open QjsLws.Misc

variable {ω ν : Type} [DecidableEq ω]

/-- What holds of an adapter whose steps were all undisturbed. -/
structure AdapterOk (a : StreamAdapter ω ν) : Prop where
  isolated : Isolated a
  registered : a.owners.length = a.entries.length
  filed : ∀ w session, a.sessions w = some session → a.owners[session]? = some w
  waiting : ∀ session, a.pending = some session → session < a.owners.length
  found : ∀ w ∈ a.owners, a.ended w = false → a.sessions w ≠ none ∨
    ∃ session, a.pending = some session ∧ a.owners[session]? = some w

omit [DecidableEq ω] in
theorem adapterOk_new : AdapterOk (StreamAdapter.new : StreamAdapter ω ν) := by
  constructor
  · constructor <;> simp [StreamAdapter.new]
  all_goals simp [StreamAdapter.new]

theorem getElem?_of_isPrefix {α : Type} {l l' : List α} (grows : l <+: l') {i : Nat} {x : α}
    (present : l[i]? = some x) : l'[i]? = some x := by
  obtain ⟨bound, rfl⟩ := List.getElem?_eq_some_iff.mp present
  exact List.prefix_iff_getElem?.mp grows i bound

omit [DecidableEq ω] in
/-- Later registrations do not change what a delivery reached. -/
theorem DeliveryOk.mono {a a' : StreamAdapter ω ν} {d : Delivery ω} (ok : DeliveryOk a d)
    (grows : a.owners <+: a'.owners) : DeliveryOk a' d := by
  refine ⟨?_, ok.reaches, ok.silent⟩
  intro session reached
  exact getElem?_of_isPrefix grows (ok.own session reached)

omit [DecidableEq ω] in
theorem AdapterOk.session {a : StreamAdapter ω ν} (ok : AdapterOk a) (free : a.pending = none)
    (owner : ω) : AdapterOk (a.session owner) := by
  have log : (a.session owner).log = a.log := by simp [StreamAdapter.session, free]
  have grows : a.owners <+: (a.session owner).owners := List.prefix_append _ _
  constructor
  case isolated =>
    refine ⟨?_, ?_⟩
    · intro d member
      rw [log] at member
      exact (ok.isolated.deliveries d member).mono grows
    · intro session
      rw [log]
      exact ok.isolated.kept session
  case registered => simp [StreamAdapter.session, ok.registered]
  case filed =>
    intro w session held
    exact getElem?_of_isPrefix grows (ok.filed w session held)
  case waiting =>
    intro session held
    have same : session = a.entries.length := (Option.some.inj held).symm
    simp [StreamAdapter.session, same, ok.registered]
  case found =>
    intro w member alive
    rcases List.mem_append.mp member with old | new
    · rcases ok.found w old alive with held | ⟨session, waiting, -⟩
      · exact .inl held
      · rw [free] at waiting
        cases waiting
    · refine .inr ⟨a.entries.length, rfl, ?_⟩
      rw [List.mem_singleton.mp new]
      simp [StreamAdapter.session, ← ok.registered]

theorem AdapterOk.sessionOf {a : StreamAdapter ω ν} (ok : AdapterOk a)
    (options : AdapterOptions ω ν) (wsi : ω) : AdapterOk (a.sessionOf options wsi) := by
  have grows : a.owners <+: (a.sessionOf options wsi).owners := List.prefix_append _ _
  constructor
  case isolated =>
    exact ⟨fun d member => (ok.isolated.deliveries d member).mono grows, ok.isolated.kept⟩
  case registered => simp [StreamAdapter.sessionOf, ok.registered]
  case filed =>
    intro w session held
    simp only [StreamAdapter.sessionOf] at held ⊢
    split at held
    · rename_i same
      cases held
      simp [← ok.registered, same]
    · exact getElem?_of_isPrefix grows (ok.filed w session held)
  case waiting =>
    intro session held
    have old := ok.waiting session held
    simp only [StreamAdapter.sessionOf, List.length_append]
    omega
  case found =>
    intro w member alive
    by_cases same : w = wsi
    · exact .inl (by simp [StreamAdapter.sessionOf, same])
    · have old : w ∈ a.owners := by simpa [StreamAdapter.sessionOf, same] using member
      rcases ok.found w old alive with held | ⟨session, waiting, owner⟩
      · exact .inl (by simpa [StreamAdapter.sessionOf, same] using held)
      · exact .inr ⟨session, waiting, getElem?_of_isPrefix grows owner⟩

/-! ## Events -/

/-- The session an event of the wsi reaches. -/
def reaches (a : StreamAdapter ω ν) (wsi : ω) : Option Nat := (a.sessions wsi).or a.pending

/-- What an event does to everything but the contents of the entries. -/
structure EventEffect (a a' : StreamAdapter ω ν) (wsi : ω) (isEnd : Bool) : Prop where
  owners : a'.owners = a.owners
  entries : a'.entries.length = a.entries.length
  pending : a'.pending = if a.sessions wsi = none then none else a.pending
  sessions : ∀ w, a'.sessions w
    = if w = wsi then (if isEnd then none else reaches a wsi) else a.sessions w
  ended : ∀ w, a'.ended w = (a.ended w || (isEnd && decide (w = wsi)))
  log : a'.log = a.log ++ [.delivery ⟨wsi, wsi ∈ a.owners, a.ended wsi, reaches a wsi⟩]

theorem event_effect (options : AdapterOptions ω ν) (a : StreamAdapter ω ν) (wsi : ω)
    (e : SocketEvent ν) : EventEffect a (a.event options wsi e) wsi e.isEnd := by
  unfold StreamAdapter.event StreamAdapter.claim
  cases held : a.sessions wsi with
  | some session =>
    have reached : reaches a wsi = some session := by simp [reaches, held]
    cases ending : e.isEnd
    · constructor <;> simp [held, reached]
    · constructor <;> simp [held, reached, StreamAdapter.forget, Bool.or_comm]
  | none =>
    cases waiting : a.pending with
    | none =>
      have reached : reaches a wsi = none := by simp [reaches, held, waiting]
      cases ending : e.isEnd
      · constructor <;> simp [held, reached, waiting]
      · constructor <;> simp [held, reached, waiting, StreamAdapter.forget, Bool.or_comm]
    | some session =>
      have reached : reaches a wsi = some session := by simp [reaches, held, waiting]
      cases ending : e.isEnd
      · constructor <;> simp [held, reached]
      · constructor <;> simp [held, reached, StreamAdapter.forget]
        · intro w
          by_cases same : w = wsi <;> simp [same]
        · intro w
          by_cases same : w = wsi <;> simp [same]

/-- The delivery of an event is right exactly when the event is undisturbed. -/
theorem deliveryOk_iff {a : StreamAdapter ω ν} (ok : AdapterOk a) (wsi : ω) :
    DeliveryOk a ⟨wsi, wsi ∈ a.owners, a.ended wsi, reaches a wsi⟩ ↔
      (wsi ∉ a.owners → a.pending = none) ∧
        (a.ended wsi = true → a.pending = none ∧ a.sessions wsi = none) := by
  constructor
  · intro right
    refine ⟨?_, ?_⟩
    · intro foreign
      cases waiting : a.pending with
      | none => rfl
      | some session =>
        have unfiled : a.sessions wsi = none := by
          cases held : a.sessions wsi with
          | none => rfl
          | some i => exact absurd (List.mem_of_getElem? (ok.filed wsi i held)) foreign
        have own := right.own session (by simp [reaches, unfiled, waiting])
        exact absurd (List.mem_of_getElem? own) foreign
    · intro isOver
      have silent : (a.sessions wsi).or a.pending = none := right.silent isOver
      exact (Option.or_eq_none_iff.mp silent).symm
  · rintro ⟨foreign, isOver⟩
    refine ⟨?_, ?_, ?_⟩
    · intro session reached
      simp only [reaches] at reached
      cases held : a.sessions wsi with
      | some i =>
        rw [held, Option.some_or] at reached
        cases reached
        exact ok.filed wsi _ held
      | none =>
        rw [held, Option.none_or] at reached
        have known : wsi ∈ a.owners := by
          by_contra unknown
          rw [foreign unknown] at reached
          cases reached
        have alive : a.ended wsi = false := by
          by_contra ended
          rw [(isOver (by simpa using ended)).1] at reached
          cases reached
        rcases ok.found wsi known alive with filed | ⟨i, waiting, owner⟩
        · exact absurd held filed
        · rw [waiting] at reached
          cases reached
          exact owner
    · intro owns alive
      have known : wsi ∈ a.owners := of_decide_eq_true owns
      rcases ok.found wsi known alive with filed | ⟨i, waiting, -⟩
      · intro none
        exact filed (Option.or_eq_none_iff.mp none).1
      · intro none
        have absent := (Option.or_eq_none_iff.mp none).2
        rw [waiting] at absent
        cases absent
    · intro ended
      obtain ⟨idle, unfiled⟩ := isOver ended
      simp [reaches, idle, unfiled]

theorem AdapterOk.event {a : StreamAdapter ω ν} (ok : AdapterOk a) (options : AdapterOptions ω ν)
    (wsi : ω) (e : SocketEvent ν) (undisturbed : Undisturbed a (.event wsi e)) :
    AdapterOk (a.event options wsi e) := by
  have effect := event_effect options a wsi e
  have right := (deliveryOk_iff ok wsi).mpr undisturbed
  generalize a.event options wsi e = a' at effect
  have grows : a.owners <+: a'.owners := ⟨[], by rw [effect.owners, List.append_nil]⟩
  constructor
  case isolated =>
    refine ⟨?_, ?_⟩
    · intro d member
      rw [effect.log, List.mem_append, List.mem_singleton] at member
      rcases member with old | new
      · exact (ok.isolated.deliveries d old).mono grows
      · cases new
        exact right.mono grows
    · intro session member
      rw [effect.log, List.mem_append, List.mem_singleton] at member
      rcases member with old | new
      · exact ok.isolated.kept session old
      · cases new
  case registered => rw [effect.owners, effect.entries, ok.registered]
  case filed =>
    intro w session held
    rw [effect.sessions] at held
    rw [effect.owners]
    split at held
    · rename_i same
      subst same
      split at held
      · cases held
      · exact right.own session held
    · exact ok.filed w session held
  case waiting =>
    intro session held
    rw [effect.pending] at held
    rw [effect.owners]
    split at held
    · cases held
    · exact ok.waiting session held
  case found =>
    intro w member alive
    rw [effect.owners] at member
    rw [effect.ended] at alive
    simp only [Bool.or_eq_false_iff, Bool.and_eq_false_iff, decide_eq_false_iff_not] at alive
    rw [effect.sessions, effect.pending, effect.owners]
    by_cases same : w = wsi
    · subst same
      have goes : e.isEnd = false := by simpa using alive.2
      refine .inl ?_
      simpa [goes] using right.reaches (decide_eq_true member) alive.1
    · rw [if_neg same]
      rcases ok.found w member alive.1 with held | ⟨session, waiting, owner⟩
      · exact .inl held
      · by_cases claims : a.sessions wsi = none
        · -- the event claimed the pending session, which is registered for another wsi
          have own := right.own session (by simp [reaches, claims, waiting])
          rw [owner] at own
          exact absurd (Option.some.inj own) same
        · refine .inr ⟨session, ?_, owner⟩
          rw [if_neg claims, waiting]

/-! ## Runs -/

theorem AdapterOk.step {a : StreamAdapter ω ν} (ok : AdapterOk a) (options : AdapterOptions ω ν)
    (op : AdapterOp ω ν) (undisturbed : Undisturbed a op) :
    AdapterOk (adapterStep options a op) := by
  cases op with
  | session owner => exact ok.session undisturbed owner
  | sessionOf wsi => exact ok.sessionOf options wsi
  | event wsi e => exact ok.event options wsi e undisturbed

theorem undisturbed_of_isolated {a : StreamAdapter ω ν} (ok : AdapterOk a)
    (options : AdapterOptions ω ν) (op : AdapterOp ω ν)
    (isolated : Isolated (adapterStep options a op)) : Undisturbed a op := by
  cases op with
  | sessionOf wsi => trivial
  | session owner =>
    cases waiting : a.pending with
    | none => exact waiting
    | some session =>
      have lost : .overwritten session ∈ (adapterStep options a (.session owner)).log := by
        simp [adapterStep, StreamAdapter.session, waiting]
      exact absurd lost (isolated.kept session)
  | event wsi e =>
    have effect := event_effect options a wsi e
    have logged : .delivery ⟨wsi, wsi ∈ a.owners, a.ended wsi, reaches a wsi⟩
        ∈ (a.event options wsi e).log := by
      rw [effect.log]
      exact List.mem_append_right _ (List.mem_singleton_self _)
    have right := isolated.deliveries _ logged
    refine (deliveryOk_iff ok wsi).mp ⟨?_, right.reaches, right.silent⟩
    intro session reached
    rw [← effect.owners]
    exact right.own session reached

/-- Over every sequence of registrations and events, the sessions are isolated in every state
passed exactly when every step is undisturbed. -/
theorem isolated_iff (options : AdapterOptions ω ν) (ops : List (AdapterOp ω ν)) :
    (∀ first, first <+: ops →
        Isolated (runFrom (adapterStep options) StreamAdapter.new first)) ↔
      Along (adapterStep options) Undisturbed StreamAdapter.new ops :=
  prefixes_iff_along (fun _ op ok undisturbed => ok.step options op undisturbed)
    (fun _ op ok isolated => undisturbed_of_isolated ok options op isolated)
    (fun _ ok => ok.isolated) ops StreamAdapter.new adapterOk_new

/-- Two streams that connect before the first one's first event: the first session is lost. -/
theorem pending_session_overwritten :
    ¬Isolated (runFrom (adapterStep (⟨fun _ _ => "", fun _ _ => ""⟩ : AdapterOptions Nat String))
      StreamAdapter.new [.session 1, .session 2]) := by
  intro isolated
  apply isolated.kept 0
  simp [adapterStep, StreamAdapter.session, StreamAdapter.new]

end QjsLws.Stream
