import QjsLws.App.Errors

/-!
# Layering of one `dispatch`

The loop of `run` is described once by what it skips. The order of the calls and their arguments hold
in every run; the delivery of errors holds as long as none leaves a `run` unseen.
-/

namespace QjsLws.App

open QjsLws.Misc

/-! ## The loop -/

section Loop

variable {layers : List Layer} {s : Dispatching} {err : Bool} {req : Exchange}

theorem assignParams_fields (l : List (Text × Text)) (req : Exchange) :
    ∃ params, (assignParams l req).1 = { req with params } := by
  induction l generalizing req with
  | nil => exact ⟨req.params, rfl⟩
  | cons pair l ih =>
    rw [assignParams]
    split
    · exact ⟨req.params, rfl⟩
    · exact ih _

/-- What the loop skips and where it ends. -/
def Selects (err : Bool) (layers : List Layer) (req : Exchange) : Selection → Prop
  | .drained req' => (∃ params, req' = { req with params }) ∧
      ∀ layer ∈ layers, layer.takes err req = false
  | .uriError req' left => (∃ params, req' = { req with params }) ∧
      ∃ skipped layer, layers = skipped ++ layer :: left
  | .calls layer req' left => (∃ params, req' = { req with params }) ∧
      layer.takes err req = true ∧ ∃ skipped, layers = skipped ++ layer :: left ∧
        ∀ layer ∈ skipped, layer.takes err req = false

theorem Selects.skip {layer : Layer} {selection : Selection} (skipped : layer.takes err req = false)
    (params : Assoc Text Text) (rest : Selects err layers { req with params } selection) :
    Selects err (layer :: layers) req selection := by
  cases selection with
  | drained req' => exact ⟨rest.1, List.forall_mem_cons.mpr ⟨skipped, rest.2⟩⟩
  | uriError req' left =>
    obtain ⟨fields, before, at', rfl⟩ := rest
    exact ⟨fields, layer :: before, at', rfl⟩
  | calls next req' left =>
    obtain ⟨fields, takes, before, rfl, none⟩ := rest
    exact ⟨fields, takes, layer :: before, rfl, List.forall_mem_cons.mpr ⟨skipped, none⟩⟩

theorem select_selects (err : Bool) (layers : List Layer) (req : Exchange) :
    Selects err layers req (select err layers req) := by
  induction layers generalizing req with
  | nil => exact ⟨⟨req.params, rfl⟩, by simp⟩
  | cons layer left ih =>
    rw [select]
    split
    · next other =>
      refine .skip ?_ req.params (ih req)
      rw [Layer.takes, Bool.and_eq_false_iff, Bool.and_eq_false_iff]
      cases method : layer.method with
      | none => simp [method] at other
      | some name => exact .inl (.inl (by simpa [method] using other))
    · next same =>
      split
      · next unmatched =>
        refine .skip ?_ req.params (ih req)
        rw [Layer.takes, unmatched]
        simp
      · next captured matched =>
        obtain ⟨params, fields⟩ := assignParams_fields (layer.keys.zip captured) req
        split
        · next req' assigned =>
          rw [assigned] at fields
          exact ⟨⟨params, fields⟩, [], layer, rfl⟩
        · next req' assigned =>
          rw [assigned] at fields
          subst fields
          split
          · next kind =>
            refine .skip ?_ params (ih _)
            rw [Layer.takes, decide_eq_false (Ne.symm kind), Bool.and_false]
          · next kind =>
            refine ⟨⟨params, rfl⟩, ?_, [], rfl, by simp⟩
            rw [Layer.takes, matched]
            cases method : layer.method with
            | none => simpa using (not_not.mp kind).symm
            | some name => simpa [method, (not_not.mp kind).symm] using same

end Loop

/-! ## `run` -/

section Run

variable {layers : List Layer} {s : Dispatching} {origin : Option Nat} {err : ErrorValue}

/-- The three ends of a `run`. -/
inductive RunEnd (layers : List Layer) (s : Dispatching) (origin : Option Nat) (err : ErrorValue) :
    Dispatching → Prop where
  | drained (params : Assoc Text Text)
      (none : ∀ layer ∈ layers.drop s.i, layer.takes err.truthy s.req = false)
      (quiet : (err.truthy && !s.req.headersSent && err.printable) = false) :
      RunEnd layers s origin err { s with
        i := layers.length, responded := s.responded || err.truthy, req := { s.req with params } }
  | answered (params : Assoc Text Text)
      (none : ∀ layer ∈ layers.drop s.i, layer.takes err.truthy s.req = false)
      (unsent : s.req.headersSent = false) :
      RunEnd layers s origin err { s with
        i := layers.length, responded := s.responded || err.truthy
        req := Exchange.answer { s.req with params }, answers := s.answers + 1 }
  | uriError (params : Assoc Text Text) (layer : Nat) (inside : s.i ≤ layer)
      (fails : ¬s.Decodes layers err) :
      RunEnd layers s origin err { s with
        i := layer + 1, req := { s.req with params }
        undecodable := s.undecodable ++ [(origin, layer)] }
  | calls (params : Assoc Text Text) (skipped left : List Layer) (layer : Layer)
      (split : layers.drop s.i = skipped ++ layer :: left)
      (takes : layer.takes err.truthy s.req = true)
      (none : ∀ layer ∈ skipped, layer.takes err.truthy s.req = false) :
      RunEnd layers s origin err { s with
        i := s.i + skipped.length + 1, req := { s.req with params }
        calls := s.calls ++ [⟨s.i + skipped.length, if err.truthy then some err else .none, err,
          origin, false, true⟩] }

theorem length_left {skipped left : List Layer} {layer : Layer}
    (split : layers.drop s.i = skipped ++ layer :: left) :
    layers.length - left.length - 1 = s.i + skipped.length := by
  have length := congrArg List.length split
  rw [List.length_drop, List.length_append, List.length_cons] at length
  omega

theorem run_end (layers : List Layer) (s : Dispatching) (origin : Option Nat) (err : ErrorValue) :
    RunEnd layers s origin err (s.run layers origin err) := by
  have selects := select_selects err.truthy (layers.drop s.i) s.req
  rw [Dispatching.run]
  split
  · next req selected =>
    rw [selected] at selects
    obtain ⟨⟨params, rfl⟩, none⟩ := selects
    dsimp only
    split
    · next shown =>
      exact .answered params none (by simp_all)
    · next quiet =>
      exact .drained params none (by simpa using quiet)
  · next req left selected =>
    rw [selected] at selects
    obtain ⟨⟨params, rfl⟩, skipped, layer, split⟩ := selects
    rw [length_left split]
    exact .uriError params _ (by omega) fun decodes => decodes _ _ selected
  · next layer req left selected =>
    rw [selected] at selects
    obtain ⟨⟨params, rfl⟩, takes, skipped, split, none⟩ := selects
    rw [length_left split]
    exact .calls params skipped left layer split takes none

theorem getElem?_called {skipped left : List Layer} {layer : Layer}
    (split : layers.drop s.i = skipped ++ layer :: left) :
    layers[s.i + skipped.length]? = some layer := by
  rw [← List.getElem?_drop, split, List.getElem?_append_right (Nat.le_refl _), Nat.sub_self]
  rfl

theorem nextErrorLayer_eq_some {skipped left : List Layer} {layer : Layer}
    (split : layers.drop s.i = skipped ++ layer :: left) (takes : layer.takes true s.req = true)
    (none : ∀ layer ∈ skipped, layer.takes true s.req = false) :
    s.nextErrorLayer layers = some (s.i + skipped.length) := by
  have absent : skipped.findIdx? (·.takes true s.req) = .none := by
    rw [List.findIdx?_eq_none_iff]
    exact none
  rw [Dispatching.nextErrorLayer, split, List.findIdx?_append, absent, List.findIdx?_cons, takes]
  simp

theorem nextErrorLayer_eq_none
    (none : ∀ layer ∈ layers.drop s.i, layer.takes true s.req = false) :
    s.nextErrorLayer layers = .none := by
  rw [Dispatching.nextErrorLayer, Option.map_eq_none_iff, List.findIdx?_eq_none_iff]
  exact none

/-- A truthy error is delivered unless a parameter fails to decode or the error cannot be shown. -/
theorem run_delivers (truthy : err.truthy = true) (decodes : s.Decodes layers err)
    (shown : s.nextErrorLayer layers = .none → s.req.headersSent = false → err.printable = true) :
    Delivered layers s err (s.run layers origin err) := by
  have ends := run_end layers s origin err
  rw [Delivered]
  generalize s.run layers origin err = s' at ends
  cases ends with
  | drained params none quiet =>
    rw [truthy] at none
    rw [nextErrorLayer_eq_none none]
    refine ⟨rfl, fun unsent => ?_⟩
    simp [truthy, unsent, shown (nextErrorLayer_eq_none none) unsent] at quiet
  | answered params none unsent =>
    rw [truthy] at none
    rw [nextErrorLayer_eq_none none]
    refine ⟨rfl, fun _ => ⟨rfl, ?_⟩⟩
    simp [Exchange.answer, unsent]
  | uriError params layer inside fails => exact (fails decodes).elim
  | calls params skipped left layer split takes none =>
    rw [truthy] at takes none
    rw [nextErrorLayer_eq_some split takes none]
    refine ⟨_, by rw [List.getElem?_append_right (Nat.le_refl _), Nat.sub_self]; rfl, rfl, ?_⟩
    exact if_pos truthy

end Run

theorem getElem?_update (s : Dispatching) (c j : Nat) (f : HandlerCall → HandlerCall) :
    (s.update c f).calls[j]? = (s.calls[j]?).map fun call => if c = j then f call else call := by
  rw [Dispatching.update, List.getElem?_modify]
  rfl

/-! ## Order and arguments -/

section Order

variable {layers : List Layer} {s : Dispatching}

/-- What the calls so far have in common. -/
structure LayersInv (layers : List Layer) (s : Dispatching) : Prop where
  below : ∀ call ∈ s.calls, call.layer < s.i
  order : (s.calls.map HandlerCall.layer).Pairwise (· < ·)
  arguments : ∀ call ∈ s.calls, ∃ layer,
    layers[call.layer]? = some layer ∧ call.pending.truthy = layer.isError ∧
      call.argument = if layer.isError then some call.pending else none
  answers : s.answers ≤ 1 ∧ (0 < s.answers → s.req.headersSent = true)

theorem LayersInv.run (inv : LayersInv layers s) (origin : Option Nat) (err : ErrorValue) :
    LayersInv layers (s.run layers origin err) := by
  have ends := run_end layers s origin err
  have past : ∀ call ∈ s.calls, call.layer < layers.length := by
    intro call called
    obtain ⟨layer, found, -⟩ := inv.arguments call called
    exact (List.getElem?_eq_some_iff.mp found).1
  generalize s.run layers origin err = s' at ends
  cases ends with
  | drained params none quiet => exact ⟨past, inv.order, inv.arguments, inv.answers⟩
  | answered params none unsent =>
    refine ⟨past, inv.order, inv.arguments, ?_, ?_⟩
    · have silent : ¬0 < s.answers := fun some => by
        rw [inv.answers.2 some] at unsent
        cases unsent
      simp only
      omega
    · intro _
      simp [Exchange.answer, unsent]
  | uriError params layer inside fails =>
    refine ⟨fun call called => ?_, inv.order, inv.arguments, inv.answers⟩
    exact (inv.below call called).trans_le (inside.trans (Nat.le_succ layer))
  | calls params skipped left layer split takes none =>
    have kind : layer.isError = err.truthy := by
      rw [Layer.takes, Bool.and_eq_true] at takes
      exact of_decide_eq_true takes.2
    refine ⟨?_, ?_, ?_, inv.answers⟩
    · intro call called
      rcases List.mem_append.mp called with old | new
      · have := inv.below call old
        simp only
        omega
      · rw [List.mem_singleton.mp new]
        exact Nat.lt_succ_self _
    · rw [List.map_append, List.pairwise_append]
      refine ⟨inv.order, List.pairwise_singleton _ _, ?_⟩
      intro earlier isEarlier later isLater
      obtain ⟨call, called, rfl⟩ := List.mem_map.mp isEarlier
      rw [List.mem_singleton.mp isLater]
      exact (inv.below call called).trans_le (Nat.le_add_right _ _)
    · intro call called
      rcases List.mem_append.mp called with old | new
      · exact inv.arguments call old
      · rw [List.mem_singleton.mp new]
        refine ⟨layer, getElem?_called split, kind.symm, ?_⟩
        rw [kind]

theorem LayersInv.update (inv : LayersInv layers s) (c : Nat) {f : HandlerCall → HandlerCall}
    (same : ∀ call, (f call).layer = call.layer ∧ (f call).argument = call.argument ∧
      (f call).pending = call.pending) : LayersInv layers (s.update c f) := by
  have old : ∀ call ∈ (s.update c f).calls, ∃ earlier ∈ s.calls, call.layer = earlier.layer ∧
      call.argument = earlier.argument ∧ call.pending = earlier.pending := by
    intro call called
    obtain ⟨j, found⟩ := List.mem_iff_getElem?.mp called
    rw [getElem?_update] at found
    obtain ⟨earlier, known, rfl⟩ := Option.map_eq_some_iff.mp found
    refine ⟨earlier, List.mem_of_getElem? known, ?_⟩
    split
    · exact same earlier
    · exact ⟨rfl, rfl, rfl⟩
  have places : (s.update c f).calls.map HandlerCall.layer = s.calls.map HandlerCall.layer := by
    apply List.ext_getElem?
    intro j
    rw [List.getElem?_map, getElem?_update, List.getElem?_map]
    cases s.calls[j]? with
    | none => rfl
    | some call =>
      rw [Option.map_some, Option.map_some, Option.map_some]
      split
      · rw [(same call).1]
      · rfl
  refine ⟨?_, ?_, ?_, inv.answers⟩
  · intro call called
    obtain ⟨earlier, known, place, -⟩ := old call called
    rw [place]
    exact inv.below earlier known
  · rw [places]
    exact inv.order
  · intro call called
    obtain ⟨earlier, known, place, argument, pending⟩ := old call called
    rw [place, argument, pending]
    exact inv.arguments earlier known

theorem LayersInv.step (inv : LayersInv layers s) (event : HandlerEvent) :
    LayersInv layers (handlerStep layers s event) := by
  cases event with
  | callNext c err =>
    rw [handlerStep]
    split
    · exact (inv.update (f := .advance) c fun _ => ⟨rfl, rfl, rfl⟩).run _ _
    · exact inv
  | resolve c =>
    rw [handlerStep]
    split
    · split
      · have kept := inv.update (f := .settle) c
          fun _ => ⟨rfl, rfl, rfl⟩
        exact ⟨kept.below, kept.order, kept.arguments, kept.answers⟩
      · exact inv
    · exact inv
  | reject c err =>
    rw [handlerStep]
    split
    · split
      · exact (inv.update (f := .settle) c fun _ => ⟨rfl, rfl, rfl⟩).run _ _
      · exact inv
    · exact inv
  | changes req =>
    refine ⟨inv.below, inv.order, inv.arguments, inv.answers.1, fun some => ?_⟩
    change (s.req.headersSent || req.headersSent) = true
    rw [inv.answers.2 some, Bool.true_or]

theorem layersInv (layers : List Layer) (req : Exchange) (events : List HandlerEvent) :
    LayersInv layers (dispatching layers req events) := by
  have start : LayersInv layers ⟨0, false, req, [], 0, []⟩ :=
    ⟨by simp, List.Pairwise.nil, by simp, Nat.zero_le 1, fun some => (Nat.lt_irrefl 0 some).elim⟩
  exact run_invariant (fun _ event inv => inv.step event) events _ (start.run none .undefined)

end Order

/-! ## Delivery -/

section Delivery

variable {layers : List Layer} {s : Dispatching} {c : Nat} {err : ErrorValue}

theorem length_update (s : Dispatching) (c : Nat) (f : HandlerCall → HandlerCall) :
    (s.update c f).calls.length = s.calls.length := List.length_modify ..

/-- A new call carries the error that was passed. -/
theorem pending_of_run {origin : Option Nat} {call : HandlerCall}
    (found : (s.run layers origin err).calls[s.calls.length]? = some call) :
    err = call.pending := by
  have ends := run_end layers s origin err
  generalize s.run layers origin err = s' at ends found
  have absent : s.calls[s.calls.length]? = none := List.getElem?_eq_none (Nat.le_refl _)
  cases ends with
  | drained params none quiet =>
    rw [absent] at found
    cases found
  | answered params none unsent =>
    rw [absent] at found
    cases found
  | uriError params layer inside fails =>
    rw [absent] at found
    cases found
  | calls params skipped left layer split takes none =>
    rw [List.getElem?_append_right (Nat.le_refl _), Nat.sub_self] at found
    cases found
    rfl

theorem pending_of_step {event : HandlerEvent} {call : HandlerCall}
    (found : (handlerStep layers s event).calls[s.calls.length]? = some call) :
    event.passes = some call.pending := by
  have absent : s.calls[s.calls.length]? = none := List.getElem?_eq_none (Nat.le_refl _)
  cases event with
  | callNext c err =>
    rw [handlerStep] at found
    split at found
    · rw [← length_update s c .advance] at found
      exact congrArg some (pending_of_run found)
    · rw [absent] at found
      cases found
  | resolve c =>
    rw [handlerStep] at found
    split at found
    · split at found
      · rw [← length_update s c .settle,
          List.getElem?_eq_none (Nat.le_refl _)] at found
        cases found
      · rw [absent] at found
        cases found
    · rw [absent] at found
      cases found
  | reject c err =>
    rw [handlerStep] at found
    split at found
    · split at found
      · rw [← length_update s c .settle] at found
        exact congrArg some (pending_of_run found)
      · rw [absent] at found
        cases found
    · rw [absent] at found
      cases found
  | changes req =>
    rw [handlerStep, absent] at found
    cases found

theorem reject_eq (running : s.running c = true) : ∃ call, s.calls[c]? = some call ∧
    handlerStep layers s (.reject c err)
      = (s.update c .settle).run layers call.origin err := by
  rw [Dispatching.running] at running
  cases found : s.calls[c]? with
  | none =>
    rw [found] at running
    cases running
  | some call =>
    rw [found] at running
    refine ⟨call, rfl, ?_⟩
    rw [handlerStep, found]
    exact if_pos running

/-- What a handler throws is delivered. -/
theorem delivered_of_reject (running : s.running c = true) (rethrown : Rethrown layers s (.reject c err)) :
    Delivered layers s err (handlerStep layers s (.reject c err)) := by
  obtain ⟨truthy, decodes, shown, -⟩ := rethrown running
  obtain ⟨call, -, step⟩ := @reject_eq layers s c err running
  rw [step]
  have delivers := @run_delivers layers (s.update c .settle)
    call.origin err truthy decodes shown
  rw [Delivered, length_update] at delivers
  exact delivers

/-! ### Errors of the matching -/

theorem running_append (s : Dispatching) {s' : Dispatching} {more : List HandlerCall}
    (calls : s'.calls = s.calls ++ more) (running : s.running c = true) : s'.running c = true := by
  rw [Dispatching.running] at running ⊢
  cases found : s.calls[c]? with
  | none =>
    rw [found] at running
    cases running
  | some call =>
    obtain ⟨inside, -⟩ := List.getElem?_eq_some_iff.mp found
    rw [calls, List.getElem?_append_left inside]
    exact running

theorem running_run {origin : Option Nat} (running : s.running c = true) :
    (s.run layers origin err).running c = true := by
  have ends := run_end layers s origin err
  generalize s.run layers origin err = s' at ends
  cases ends with
  | drained | answered | uriError => exact running
  | calls => exact running_append s rfl running

theorem running_update_ne {c' : Nat} (apart : c ≠ c') (f : HandlerCall → HandlerCall) :
    (s.update c f).running c' = s.running c' := by
  rw [Dispatching.running, getElem?_update, Dispatching.running]
  cases s.calls[c']? with
  | none => rfl
  | some call =>
    rw [Option.map_some, if_neg apart]

theorem running_advance (s : Dispatching) (c c' : Nat) :
    (s.update c .advance).running c' = s.running c' := by
  rw [Dispatching.running, getElem?_update, Dispatching.running]
  cases s.calls[c']? with
  | none => rfl
  | some call =>
    rw [Option.map_some]
    split <;> rfl

theorem undecodable_run {origin : Option Nat} (decodes : s.Decodes layers err) :
    (s.run layers origin err).undecodable = s.undecodable := by
  have ends := run_end layers s origin err
  generalize s.run layers origin err = s' at ends
  cases ends with
  | drained | answered | calls => rfl
  | uriError params layer inside fails => exact (fails decodes).elim

theorem mem_undecodable_run {origin : Option Nat} {owed : Option Nat × Nat}
    (raised : owed ∈ (s.run layers origin err).undecodable) :
    owed ∈ s.undecodable ∨ ¬s.Decodes layers err ∧ owed.1 = origin := by
  by_cases decodes : s.Decodes layers err
  · rw [undecodable_run decodes] at raised
    exact .inl raised
  · have ends := run_end layers s origin err
    generalize s.run layers origin err = s' at ends raised
    cases ends with
    | drained | answered | calls => exact .inl raised
    | uriError params layer inside fails =>
      rcases List.mem_append.mp raised with old | new
      · exact .inl old
      · rw [List.mem_singleton.mp new]
        exact .inr ⟨fails, rfl⟩

end Delivery

/-! ## The main result -/

section Runs

variable {layers : List Layer} {req : Exchange}

/-- The events were those of the state, and an error of the matching waits for a handler that still
runs, or was thrown by one. -/
structure OwedInv (layers : List Layer) (req : Exchange) (before : List HandlerEvent)
    (s : Dispatching) : Prop where
  state : s = dispatching layers req before
  owed : ∀ origin layer, (origin, layer) ∈ s.undecodable →
    (∃ c, origin = some c ∧ s.running c = true) ∨
      ∃ first c last, before = first ++ .reject c (.uriError layer) :: last ∧
        (dispatching layers req first).running c = true

theorem dispatching_snoc (layers : List Layer) (req : Exchange) (before : List HandlerEvent)
    (event : HandlerEvent) : dispatching layers req (before ++ [event])
      = handlerStep layers (dispatching layers req before) event := runFrom_append ..

theorem OwedInv.step {before : List HandlerEvent} {s : Dispatching}
    (inv : OwedInv layers req before s) (event : HandlerEvent) (rethrown : Rethrown layers s event) :
    OwedInv layers req (before ++ [event]) (handlerStep layers s event) := by
  refine ⟨by rw [dispatching_snoc, inv.state], ?_⟩
  -- what was owed before stays owed or was thrown, unless the handler has settled
  have earlier : ∀ {origin : Option Nat} {layer : Nat} {s' : Dispatching}, (origin, layer) ∈ s.undecodable →
      (∀ c, origin = some c → s.running c = true → s'.running c = true ∨
        event = .reject c (.uriError layer)) →
      (∃ c, origin = some c ∧ s'.running c = true) ∨
        ∃ first c last, before ++ [event] = first ++ .reject c (.uriError layer) :: last ∧
          (dispatching layers req first).running c = true := by
    intro origin layer s' old still
    rcases inv.owed origin layer old with ⟨c, from_, running⟩ | ⟨first, c, last, rfl, running⟩
    · rcases still c from_ running with running' | rfl
      · exact .inl ⟨c, from_, running'⟩
      · exact .inr ⟨before, c, [], rfl, inv.state ▸ running⟩
    · exact .inr ⟨first, c, last ++ [event], by simp, running⟩
  cases event with
  | callNext c err =>
    intro origin layer raised
    rw [handlerStep] at raised ⊢
    split at raised
    · rcases mem_undecodable_run raised with old | ⟨fails, rfl⟩
      · refine earlier old fun c' _ running => .inl ?_
        exact running_run (by rwa [running_advance])
      · rcases rethrown with running | decodes
        · exact .inl ⟨c, rfl, running_run (by rwa [running_advance])⟩
        · exact (fails decodes).elim
    · exact earlier raised fun _ _ running => .inl running
  | resolve c =>
    intro origin layer raised
    rw [handlerStep] at raised ⊢
    split at raised
    · next call found =>
      split at raised
      · next stillRuns =>
        rw [if_pos stillRuns]
        have runs : s.running c = true := by
          rw [Dispatching.running, found]
          exact stillRuns
        refine earlier raised fun c' from_ running => .inl ?_
        have apart : c ≠ c' := by
          rintro rfl
          exact rethrown runs layer (from_ ▸ raised)
        exact (running_update_ne apart _).trans running
      · next settled =>
        rw [if_neg settled]
        exact earlier raised fun _ _ running => .inl running
    · exact earlier raised fun _ _ running => .inl running
  | reject c err =>
    intro origin layer raised
    cases runs : s.running c with
    | true =>
      obtain ⟨-, decodes, -, owes⟩ := rethrown runs
      obtain ⟨call, -, step⟩ := @reject_eq layers s c err runs
      have same := @undecodable_run layers (s.update c .settle) err call.origin decodes
      rw [step, same] at raised
      rw [step]
      refine earlier raised fun c' from_ running => ?_
      by_cases apart : c = c'
      · subst apart
        exact .inr (by rw [owes layer (from_ ▸ raised)])
      · exact .inl (running_run ((running_update_ne apart _).trans running))
    | false =>
      have still : handlerStep layers s (.reject c err) = s := by
        rw [handlerStep]
        split
        · next call found =>
          rw [Dispatching.running, found] at runs
          exact if_neg (by simpa using runs)
        · rfl
      rw [still] at raised ⊢
      exact earlier raised fun _ _ running => .inl running
  | changes req' =>
    intro origin layer raised
    exact earlier raised fun _ _ running => .inl running

/-- Handlers run in order, with the pending error where they take one, and no error gets lost, in
every run in which handlers throw truthy values and throw on what `next()` threw. -/
theorem layered {events : List HandlerEvent}
    (first : Dispatching.Decodes layers ⟨0, false, req, [], 0, []⟩ .undefined)
    (rethrown : Along (handlerStep layers) (Rethrown layers) (firstRun layers req) events) :
    Layered layers req events where
  order := (layersInv layers req events).order
  arguments := (layersInv layers req events).arguments
  pending before event after _ call found := by
    rw [dispatching_snoc] at found
    exact pending_of_step found
  thrown before c err after split running := by
    subst split
    rw [along_append] at rethrown
    rw [dispatching_snoc]
    exact delivered_of_reject running rethrown.2.1
  matching settled origin layer raised := by
    have start : OwedInv layers req [] (firstRun layers req) := by
      refine ⟨rfl, fun origin layer raised => ?_⟩
      rw [firstRun, undecodable_run first] at raised
      cases raised
    have inv := run_history (fun _ _ event inv => inv.step event) events [] _ start rethrown
    rcases inv.owed origin layer raised with ⟨c, -, running⟩ | thrown
    · have settled := settled c
      rw [inv.state] at running
      exact absurd (running.symm.trans settled) nofun
    · exact thrown
  answers := (layersInv layers req events).answers.1

/-- `app.use(handler)`, `app.get('/:id', handler)` and a handler for errors. -/
def guarded : List Layer :=
  [.handler none .slash [] false 0,
    .handler (some ['G']) (.parts [.text ['/'], .segment] true) [['i', 'd']] false 1,
    .handler none .slash [] true 2]

/-- A request whose parameter does not decode. -/
def badRequest : Exchange := ⟨['G'], ['/', '%'], .empty, false, false⟩

/-- The first handler awaits `next()` and so throws the error on to the handler for errors. -/
theorem layered_guarded :
    Layered guarded badRequest [.callNext 0 .undefined, .reject 0 (.uriError 1), .resolve 1] := by
  refine layered ?_ ⟨.inl rfl, fun _ => ⟨rfl, ?_, ?_, ?_⟩, ?_, trivial⟩
  · rintro req left ⟨⟩
  · rintro req left ⟨⟩
  · intro none
    cases none
  · intro layer owed
    have only : (some 0, layer) ∈ [(some 0, 1)] := owed
    obtain rfl : layer = 1 := by simpa using only
    rfl
  · intro _ layer owed
    have only : (some 1, layer) ∈ [(some 0, 1)] := owed
    simp at only

/-- A parameter of the first layer does not decode, and the handler for errors is never called; and
after a handler threw `undefined` the route's handler is called. -/
theorem error_lost : ¬Layered guarded.tail badRequest [] ∧
    ¬Layered guarded { badRequest with path := ['/', 'x'] } [.reject 0 .undefined] := by
  constructor
  · intro layered
    obtain ⟨before, c, after, split, -⟩ :=
      layered.matching (fun c => rfl) none 0 List.mem_cons_self
    cases before <;> cases split
  · intro layered
    have delivered := layered.thrown [] 0 .undefined [] rfl rfl
    obtain ⟨call, called, place, -⟩ := delivered
    obtain rfl := Option.some.inj called
    exact absurd place (by decide)

end Runs

end QjsLws.App
