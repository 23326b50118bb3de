import QjsLws.App.Proofs.Path

/-!
# Mounting is joining, for literal mount paths

The comparison of a mounted router with the joined pattern comes down to which requests reach the
route's handler. A literal mount path is cut off exactly; a parameter, the root path and a route
without a segment of its own each give a request on which the two differ.
-/

namespace QjsLws.App

open QjsLws.Misc

/-! ## What reaches the handler -/

/-- The exchange with which a layer's handler is called, if it is. -/
def enters (method : Text) (regex : PathRegex) (keys : List Text) (isError : Bool)
    (req : Exchange) : Option Exchange :=
  if method ≠ req.method then none
  else
    (regex.exec req.path).bind fun captured =>
      match assignParams (keys.zip captured) req with
      | (req, true) => if isError then none else some req
      | (_, false) => none

/-- The exchange with which a mounted router dispatches, if it does. -/
def mountEnters (mountPath : Text) (regex : PathRegex) (keys : List Text) (req : Exchange) :
    Option Exchange :=
  (regex.exec req.path).bind fun captured =>
    match assignParams (keys.zip captured) req with
    | (entered, true) => some { entered with path := strippedPath mountPath req.path }
    | (_, false) => none

theorem path_assignParams (l : List (Text × Text)) (req : Exchange) :
    (assignParams l req).1.path = req.path := by
  induction l generalizing req with
  | nil => rfl
  | cons pair l ih =>
    rw [assignParams]
    cases decodeURIComponent pair.2 with
    | none => rfl
    | some decoded => exact ih _

theorem path_callLayer (behave : Nat → Exchange → Behaviour) (layer : Layer) (req : Exchange) :
    (callLayer behave layer req).1.path = req.path := by
  cases layer <;> rfl

theorem calls_callLayer (behave : Nat → Exchange → Behaviour) (layer : Layer) (req : Exchange) :
    ∀ call ∈ (callLayer behave layer req).2.1, call.depth = 0 → call.path = req.path := by
  intro call member top
  cases layer with
  | handler method regex keys isError id =>
    rw [callLayer, List.mem_singleton] at member
    rw [member]
  | router mountPath regex keys layers =>
    rw [callLayer] at member
    rcases List.mem_cons.mp member with own | inside
    · rw [own]
    · obtain ⟨inner, -, rfl⟩ := List.mem_map.mp inside
      exact absurd top (Nat.succ_ne_zero _)

/-- Every layer of a chain sees the path the chain is given. -/
theorem path_of_call (behave : Nat → Exchange → Behaviour) (layers : List Layer) (awaiting : Nat)
    (err : Bool) (req : Exchange) :
    ∀ call ∈ (runChain behave awaiting err layers req).calls, call.depth = 0 →
      call.path = req.path := by
  induction layers generalizing awaiting err req with
  | nil => simp [runChain]
  | cons layer later ih =>
    -- what the rest of the chain does on an exchange with the same path
    have onward : ∀ awaiting err (after : Exchange), after.path = req.path →
        ∀ call ∈ (runChain behave awaiting err later after).calls, call.depth = 0 →
          call.path = req.path := by
      intro awaiting err after same call member
      rw [← same]
      exact ih awaiting err after call member
    unfold runChain
    split
    · exact onward awaiting err req rfl
    · split
      · exact onward awaiting err req rfl
      · rename_i captured _
        have path := path_assignParams (layer.keys.zip captured) req
        split
        · rename_i assigned same
          rw [same] at path
          split
          · simp
          · exact onward _ true assigned path
        · rename_i assigned same
          rw [same] at path
          split
          · exact onward awaiting err assigned path
          · have mine := calls_callLayer behave layer assigned
            have kept := (path_callLayer behave layer assigned).trans path
            replace path : assigned.path = req.path := path
            rw [path] at mine
            have joined : ∀ awaiting err,
                ∀ call ∈ (callLayer behave layer assigned).2.1 ++ (runChain behave awaiting err
                  later (callLayer behave layer assigned).1).calls,
                call.depth = 0 → call.path = req.path := by
              intro awaiting err call member
              rcases List.mem_append.mp member with first | second
              · exact mine call first
              · exact onward awaiting err _ kept call second
            split
            · rename_i after calls outcome
              rw [outcome] at mine
              exact mine
            · rename_i after calls e outcome
              rw [outcome] at joined
              split
              · exact joined _ e
              · exact joined 0 e
            · rename_i after calls outcome
              rw [outcome] at joined
              exact joined awaiting true

mutual

/-- A chain of layers that lack a handler does not call it. -/
theorem not_called_chain (behave : Nat → Exchange → Behaviour) {id : Nat} :
    ∀ (layers : List Layer) (awaiting : Nat) (err : Bool) (req : Exchange), AllLack id layers →
      ∀ call ∈ (runChain behave awaiting err layers req).calls, call.id ≠ some id
  | [], awaiting, err, req, _ => by simp [runChain]
  | layer :: later, awaiting, err, req, lacks => by
    have onward := fun awaiting err after =>
      not_called_chain behave later awaiting err after lacks.2
    unfold runChain
    split
    · exact onward awaiting err req
    · split
      · exact onward awaiting err req
      · split
        · split
          · simp
          · exact onward _ true _
        · rename_i assigned _
          split
          · exact onward awaiting err _
          · have mine := not_called_layer behave layer assigned lacks.1
            have joined : ∀ awaiting err after,
                ∀ call ∈ (callLayer behave layer assigned).2.1
                  ++ (runChain behave awaiting err later after).calls, call.id ≠ some id := by
              intro awaiting err after call member
              rcases List.mem_append.mp member with first | second
              · exact mine call first
              · exact onward awaiting err after call second
            split
            · rename_i after calls outcome
              rw [outcome] at mine
              exact mine
            · rename_i after calls e outcome
              rw [outcome] at joined
              split
              · exact joined _ e after
              · exact joined 0 e after
            · rename_i after calls outcome
              rw [outcome] at joined
              exact joined awaiting true after

theorem not_called_layer (behave : Nat → Exchange → Behaviour) {id : Nat} :
    ∀ (layer : Layer) (req : Exchange), layer.Lacks id →
      ∀ call ∈ (callLayer behave layer req).2.1, call.id ≠ some id
  | .handler method regex keys isError other, req, lacks => by
    intro call member
    rw [callLayer, List.mem_singleton] at member
    rw [member]
    intro same
    exact lacks (Option.some.inj same)
  | .router mountPath regex keys layers, req, lacks => by
    intro call member
    rw [callLayer] at member
    rcases List.mem_cons.mp member with own | inside
    · rw [own]
      exact Option.some_ne_none _ |>.symm
    · obtain ⟨inner, within, rfl⟩ := List.mem_map.mp inside
      exact not_called_chain behave layers 0 false _ lacks inner within

end

theorem paramsOf_lacks (behave : Nat → Exchange → Behaviour) {layers : List Layer}
    (lacks : AllLack 0 layers) (awaiting : Nat) (err : Bool) (req : Exchange) :
    paramsOf 0 (runChain behave awaiting err layers req).calls = [] := by
  rw [paramsOf, List.map_eq_nil_iff, List.filter_eq_nil_iff]
  intro call member
  simpa using not_called_chain behave layers awaiting err req lacks call member

theorem paramsOf_append (calls more : List Call) :
    paramsOf 0 (calls ++ more) = paramsOf 0 calls ++ paramsOf 0 more := by
  simp [paramsOf]

theorem paramsOf_inRouter (calls : List Call) :
    paramsOf 0 (calls.map Call.inRouter) = paramsOf 0 calls := by
  simp only [paramsOf, List.filter_map, List.map_map]
  rfl

/-- The calls of handler 0 by a layer that has it, with layers after it that lack it. -/
theorem paramsOf_handler (behave : Nat → Exchange → Behaviour) (method : Text) (regex : PathRegex)
    (keys : List Text) (isError : Bool) {later : List Layer} (lacks : AllLack 0 later)
    (req : Exchange) :
    paramsOf 0
        (runChain behave 0 false (.handler (some method) regex keys isError 0 :: later) req).calls
      = ((enters method regex keys isError req).toList.map Exchange.params) := by
  unfold runChain enters
  have method' : (Layer.handler (some method) regex keys isError 0).method.any (· ≠ req.method)
      = decide (method ≠ req.method) := rfl
  rw [method']
  by_cases other : method ≠ req.method
  · simp [other, paramsOf_lacks behave lacks]
  · simp only [other, decide_false, Bool.false_eq_true, if_false]
    have regex' : (Layer.handler (some method) regex keys isError 0).regex = regex := rfl
    rw [regex']
    cases regex.exec req.path with
    | none => simp [paramsOf_lacks behave lacks]
    | some captured =>
      have keys' : (Layer.handler (some method) regex keys isError 0).keys = keys := rfl
      simp only [Option.bind_some, keys']
      rcases assignParams (keys.zip captured) req with ⟨assigned, _ | _⟩
      · simp [paramsOf]
      · cases isError with
        | true => simp [Layer.isError, paramsOf_lacks behave lacks]
        | false =>
          simp only [Layer.isError, Layer.awaits, ne_eq, not_true_eq_false, if_false, callLayer,
            Bool.false_eq_true, if_true]
          have own : paramsOf 0 [⟨some 0, 0, assigned.path, assigned.params⟩]
              = [assigned.params] := rfl
          rcases behave 0 assigned with ⟨flushes, sends, _ | e | _⟩
          · exact own
          · dsimp only [ChainEnd.after]
            rw [paramsOf_append, paramsOf_lacks behave lacks, own]
            rfl
          · dsimp only [ChainEnd.after]
            rw [paramsOf_append, paramsOf_lacks behave lacks, own]
            rfl

/-- The calls made by a mounted router and the layers after it: those inside the router, then those
of the layers after it. -/
theorem calls_router (behave : Nat → Exchange → Behaviour) (mountPath : Text) (regex : PathRegex)
    (keys : List Text) (inner later : List Layer) (req : Exchange) :
    (mountEnters mountPath regex keys req = none ∧
        ((runChain behave 0 false (.router mountPath regex keys inner :: later) req).calls = [] ∨
          (runChain behave 0 false (.router mountPath regex keys inner :: later) req).calls
            = (runChain behave 0 false later req).calls)) ∨
      ∃ entered own, mountEnters mountPath regex keys req = some entered ∧ own.id = none ∧
        ((runChain behave 0 false (.router mountPath regex keys inner :: later) req).calls
            = own :: (runChain behave 0 false inner entered).calls.map Call.inRouter ∨
          ∃ err after,
            (runChain behave 0 false (.router mountPath regex keys inner :: later) req).calls
              = own :: (runChain behave 0 false inner entered).calls.map Call.inRouter
                ++ (runChain behave 0 err later after).calls) := by
  have fields : (Layer.router mountPath regex keys inner).regex = regex ∧
      (Layer.router mountPath regex keys inner).keys = keys := ⟨rfl, rfl⟩
  rw [runChain]
  simp only [Layer.method, Option.any_none, Bool.false_eq_true, if_false, fields.1, fields.2,
    mountEnters]
  cases regex.exec req.path with
  | none => exact .inl ⟨rfl, .inr rfl⟩
  | some captured =>
    have path := path_assignParams (keys.zip captured) req
    simp only [Option.bind_some]
    rcases result : assignParams (keys.zip captured) req with ⟨assigned, _ | _⟩
    · exact .inl ⟨rfl, .inl rfl⟩
    · rw [result] at path
      replace path : assigned.path = req.path := path
      simp only [Layer.isError, Layer.awaits, ne_eq, not_true_eq_false, if_false, callLayer, path,
        Bool.false_eq_true]
      obtain ⟨chain, same⟩ : ∃ chain, runChain behave 0 false inner
          { assigned with path := strippedPath mountPath req.path } = chain := ⟨_, rfl⟩
      refine .inr ⟨{ assigned with path := strippedPath mountPath req.path },
        ⟨none, 0, req.path, assigned.params⟩, rfl, rfl, ?_⟩
      rw [same]
      cases chain.rejected with
      | true => exact .inr ⟨true, { chain.req with path := req.path }, rfl⟩
      | false =>
        cases chain.handled with
        | true => exact .inl rfl
        | false => exact .inr ⟨false, { chain.req with path := req.path }, rfl⟩

/-- The calls of handler 0 by a router that has it, with layers after the router that lack it. -/
theorem paramsOf_router (behave : Nat → Exchange → Behaviour) (mountPath method : Text)
    (mountRegex regex : PathRegex) (mountKeys keys : List Text) (isError : Bool)
    {later : List Layer} (lacks : AllLack 0 later) (req : Exchange) :
    paramsOf 0 (runChain behave 0 false (.router mountPath mountRegex mountKeys
        [.handler (some method) regex keys isError 0] :: later) req).calls
      = (((mountEnters mountPath mountRegex mountKeys req).bind
          (enters method regex keys isError)).toList.map Exchange.params) := by
  have inside : ∀ (entered : Exchange) (own : Call), own.id = none →
      paramsOf 0 (own :: (runChain behave 0 false
        [.handler (some method) regex keys isError 0] entered).calls.map Call.inRouter)
      = ((enters method regex keys isError entered).toList.map Exchange.params) := by
    intro entered own anonymous
    have empty : AllLack 0 [] := by simp [AllLack]
    have none : paramsOf 0 [own] = [] := by simp [paramsOf, anonymous]
    rw [← List.singleton_append, paramsOf_append, paramsOf_inRouter, none]
    exact paramsOf_handler behave method regex keys isError empty entered
  rcases calls_router behave mountPath mountRegex mountKeys
      [.handler (some method) regex keys isError 0] later req with
    ⟨skipped, calls | calls⟩ | ⟨entered, own, enters, anonymous, calls | ⟨err, after, calls⟩⟩
  · simp [paramsOf, skipped, calls]
  · rw [calls, paramsOf_lacks behave lacks, skipped]
    rfl
  · rw [calls, inside entered own anonymous, enters]
    rfl
  · rw [calls, paramsOf_append, inside entered own anonymous, paramsOf_lacks behave lacks,
      List.append_nil, enters]
    rfl

end QjsLws.App
