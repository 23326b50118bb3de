import QjsLws.Session.Overlap

/-!
# Revocation of session ids

An id has no entry in the store from the call that removes it on. A request that still holds the id
can put one back: with `save()`, which is allowed once the removal is complete, and in its `finally`
block.
-/

namespace QjsLws.Session

open QjsLws.Misc OverlapState

variable {ν : Type}

/-- The removal of the id was complete, and it was not saved explicitly since. -/
def Revoked (log : List SessionEvent) (sid : Nat) : Prop :=
  ∃ before after, log = before ++ .revoked sid :: after ∧ .saved sid ∉ after

/-- No `store.get` returns data for a revoked id. -/
def RevocationKept (log : List SessionEvent) : Prop :=
  ∀ before sid, before ++ [.got sid true] <+: log → ¬Revoked before sid

theorem revoked_snoc {log : List SessionEvent} {event : SessionEvent} {sid : Nat} :
    Revoked (log ++ [event]) sid ↔
      event = .revoked sid ∨ Revoked log sid ∧ event ≠ .saved sid := by
  constructor
  · rintro ⟨before, after, eq, unsaved⟩
    rcases List.eq_nil_or_concat after with rfl | ⟨after, last, rfl⟩
    · obtain ⟨-, same⟩ := List.append_inj' eq rfl
      exact .inl (List.singleton_inj.mp same)
    · have split : log ++ [event] = (before ++ .revoked sid :: after) ++ [last] := by simpa using eq
      obtain ⟨rfl, same⟩ := List.append_inj' split rfl
      obtain rfl := List.singleton_inj.mp same
      simp only [List.concat_eq_append, List.mem_append, List.mem_singleton, not_or] at unsaved
      exact .inr ⟨⟨before, after, rfl, unsaved.1⟩, Ne.symm unsaved.2⟩
  · rintro (rfl | ⟨⟨before, after, rfl, unsaved⟩, other⟩)
    · exact ⟨log, [], rfl, by simp⟩
    · refine ⟨before, after ++ [event], by simp, ?_⟩
      simp only [List.mem_append, List.mem_singleton, not_or]
      exact ⟨unsaved, Ne.symm other⟩

theorem revocationKept_snoc {log : List SessionEvent} {event : SessionEvent}
    (kept : RevocationKept log) (last : ∀ sid, event = .got sid true → ¬Revoked log sid) :
    RevocationKept (log ++ [event]) := by
  intro before sid le
  rcases List.prefix_concat_iff.mp le with whole | part
  · obtain ⟨rfl, same⟩ := List.append_inj' whole rfl
    exact last sid (List.singleton_inj.mp same).symm
  · exact kept before sid part

/-- The request waits for the removal of the id. -/
def OpenRequest.Waits (r : OpenRequest ν) (sid : Nat) : Prop :=
  sid ∈ r.destroying ∨ sid ∈ r.removing.map Prod.fst

/-- A request waits for the removal of the id. -/
def Waiting (requests : Assoc Nat (RequestPhase ν)) (sid : Nat) : Prop :=
  ∃ request r, requests.get request = some (.opened r) ∧ r.Waits sid

/-- The id is being removed, or was and is not saved since. -/
def Banned (s : OverlapState ν) (sid : Nat) : Prop := Revoked s.log sid ∨ Waiting s.requests sid

/-- Only an open request waits. -/
theorem waiting_set {requests : Assoc Nat (RequestPhase ν)} {request : Nat} {phase : RequestPhase ν}
    {sid : Nat} (waits : Waiting (requests.set request phase) sid) :
    (∃ r, phase = .opened r ∧ r.Waits sid) ∨ Waiting requests sid := by
  obtain ⟨other, r, found, waits⟩ := waits
  rw [Assoc.get_set] at found
  split at found
  · exact .inl ⟨r, Option.some.inj found, waits⟩
  · exact .inr ⟨other, r, found, waits⟩

theorem waiting_setOpened {requests : Assoc Nat (RequestPhase ν)} {request : Nat} {r : OpenRequest ν}
    {sid : Nat} (waits : Waiting (requests.set request (.opened r)) sid) :
    r.Waits sid ∨ Waiting requests sid := by
  refine (waiting_set waits).imp_left ?_
  rintro ⟨r', same, waits⟩
  cases same
  exact waits

/-- The id a request holds has been handed out. -/
def RequestPhase.Known (nextId : Nat) : RequestPhase ν → Prop
  | .loading (some sid) (some _) => sid < nextId
  | .loading .. => True
  | .opened r => r.session.sid < nextId

theorem RequestPhase.Known.mono {n m : Nat} (le : n ≤ m) {phase : RequestPhase ν}
    (known : phase.Known n) : phase.Known m := by
  unfold RequestPhase.Known at *
  split at known
  · exact Nat.lt_of_lt_of_le known le
  · trivial
  · exact Nat.lt_of_lt_of_le known le

/-- Banned ids are not in the store, and all ids in use were handed out by `genId`. -/
structure OverlapInv (s : OverlapState ν) : Prop where
  judged : RevocationKept s.log
  gone : ∀ sid, Banned s sid → s.store.kept sid = none
  bannedKnown : ∀ sid, Banned s sid → sid < s.nextId
  storeKnown : ∀ sid data, s.store.kept sid = some data → sid < s.nextId
  requestsKnown : ∀ request phase, s.requests.get request = some phase → phase.Known s.nextId

theorem overlapInv_fresh : OverlapInv (OverlapState.fresh : OverlapState ν) := by
  have free : ∀ sid, ¬Banned (OverlapState.fresh : OverlapState ν) sid := by
    rintro sid (⟨before, after, eq, -⟩ | ⟨request, r, found, -⟩)
    · simp [OverlapState.fresh] at eq
    · simp [OverlapState.fresh] at found
  refine ⟨fun before sid le => ?_, fun sid banned => absurd banned (free sid),
    fun sid banned => absurd banned (free sid), fun sid data kept => ?_, fun request phase found => ?_⟩
  · simp [OverlapState.fresh] at le
  · simp [OverlapState.fresh] at kept
  · simp [OverlapState.fresh] at found

variable {s : OverlapState ν}

theorem known_set {request : Nat} {phase : RequestPhase ν} {n : Nat}
    {requests : Assoc Nat (RequestPhase ν)}
    (known : ∀ r p, requests.get r = some p → p.Known n) (new : phase.Known n) :
    ∀ r p, (requests.set request phase).get r = some p → p.Known n := by
  intro r p found
  rw [Assoc.get_set] at found
  split at found
  · cases found
    exact new
  · exact known r p found

/-- A step that bans no id and adds no entry to the store. -/
theorem OverlapInv.shrink (inv : OverlapInv s) {s' : OverlapState ν} (judged : RevocationKept s'.log)
    (bans : ∀ sid, Banned s' sid → Banned s sid) (ids : s.nextId ≤ s'.nextId)
    (store : ∀ sid data, s'.store.kept sid = some data → s.store.kept sid = some data)
    (requests : ∀ request phase, s'.requests.get request = some phase → phase.Known s'.nextId) :
    OverlapInv s' := by
  refine ⟨judged, fun sid banned => ?_,
    fun sid banned => Nat.lt_of_lt_of_le (inv.bannedKnown sid (bans sid banned)) ids,
    fun sid data kept => Nat.lt_of_lt_of_le (inv.storeKnown sid data (store sid data kept)) ids, requests⟩
  cases kept : s'.store.kept sid with
  | none => rfl
  | some data =>
    have gone := inv.gone sid (bans sid banned)
    rw [store sid data kept] at gone
    cases gone

/-- A request changes, and waits for no other id than before. -/
theorem overlapInv_setRequest {request : Nat} {r q : OpenRequest ν} (inv : OverlapInv s)
    (found : s.requests.get request = some (.opened r)) (known : q.session.sid < s.nextId)
    (waits : ∀ sid, q.Waits sid → r.Waits sid) : OverlapInv (s.setRequest request q) := by
  refine inv.shrink inv.judged (fun sid banned => ?_) (Nat.le_refl _) (fun _ _ kept => kept)
    (known_set inv.requestsKnown known)
  rcases banned with revoked | waiting
  · exact .inl revoked
  · rcases waiting_setOpened waiting with new | old
    · exact .inr ⟨request, r, found, waits sid new⟩
    · exact .inr old

/-- A step that only drops or touches entries of the store. -/
theorem overlapInv_store (store : MemoryStore ν) (inv : OverlapInv s)
    (shrinks : ∀ sid data, store.kept sid = some data → s.store.kept sid = some data) :
    OverlapInv { s with store } :=
  inv.shrink inv.judged (fun _ banned => banned) (Nat.le_refl _) shrinks inv.requestsKnown

/-- Storing under an id that is not banned. -/
theorem overlapInv_set {now sid ttlMs : Nat} {data : SessionData ν} (inv : OverlapInv s)
    (known : sid < s.nextId) (free : ¬Banned s sid) :
    OverlapInv { s with store := s.store.set now sid data ttlMs } := by
  refine ⟨inv.judged, fun sid' banned => ?_, inv.bannedKnown, fun sid' d kept => ?_,
    inv.requestsKnown⟩
  · rw [MemoryStore.kept_set, if_neg]
    · exact inv.gone sid' banned
    · rintro rfl
      exact free banned
  · rw [MemoryStore.kept_set] at kept
    split at kept
    · rename_i same
      exact same ▸ known
    · exact inv.storeKnown sid' d kept

/-- A request removes an id, and waits for it. -/
theorem overlapInv_remove {request sid : Nat} {r r' : OpenRequest ν} (inv : OverlapInv s)
    (found : s.requests.get request = some (.opened r)) (known : r'.session.sid < s.nextId)
    (removed : sid < s.nextId) (waits : ∀ sid', r'.Waits sid' → r.Waits sid' ∨ sid' = sid) :
    OverlapInv { s.setRequest request r' with store := s.store.destroy sid } := by
  have bans : ∀ sid', Banned { s.setRequest request r' with store := s.store.destroy sid } sid' →
      Banned s sid' ∨ sid' = sid := by
    rintro sid' (revoked | waiting)
    · exact .inl (.inl revoked)
    · rcases waiting_setOpened waiting with new | old
      · exact (waits sid' new).imp_left fun before => .inr ⟨request, r, found, before⟩
      · exact .inl (.inr old)
  refine ⟨inv.judged, fun sid' banned => ?_, fun sid' banned => ?_, fun sid' d kept => ?_,
    known_set inv.requestsKnown known⟩
  · change (s.store.destroy sid).kept sid' = none
    rw [MemoryStore.kept_destroy]
    rcases bans sid' banned with old | rfl
    · rw [inv.gone sid' old, ite_self]
    · rw [if_pos rfl]
  · rcases bans sid' banned with old | rfl
    · exact inv.bannedKnown sid' old
    · exact removed
  · change (s.store.destroy sid).kept sid' = some d at kept
    rw [MemoryStore.kept_destroy] at kept
    split at kept
    · cases kept
    · exact inv.storeKnown sid' d kept

/-- The removal that a request waits for is complete. -/
theorem overlapInv_complete {request sid : Nat} {r r' : OpenRequest ν} (inv : OverlapInv s)
    (found : s.requests.get request = some (.opened r)) (known : r'.session.sid < s.nextId)
    (waited : r.Waits sid) (waits : ∀ sid', r'.Waits sid' → r.Waits sid') :
    OverlapInv { s.setRequest request r' with log := s.log ++ [.revoked sid] } := by
  refine inv.shrink (revocationKept_snoc inv.judged (by simp)) (fun sid' banned => ?_) (Nat.le_refl _)
    (fun _ _ kept => kept) (known_set inv.requestsKnown known)
  rcases banned with revoked | waiting
  · rcases revoked_snoc.mp revoked with same | ⟨old, -⟩
    · obtain rfl := SessionEvent.revoked.inj same
      exact .inr ⟨request, r, found, waited⟩
    · exact .inl old
  · rcases waiting_setOpened waiting with new | old
    · exact .inr ⟨request, r, found, waits sid' new⟩
    · exact .inr old

/-- An explicit save lifts the revocation. -/
theorem overlapInv_save {sid : Nat} {data : SessionData ν} {ttlMs : Nat} (inv : OverlapInv s)
    (known : sid < s.nextId) (free : ¬Waiting s.requests sid) :
    OverlapInv { s with
      store := s.store.set s.now sid data ttlMs, log := s.log ++ [.saved sid] } := by
  have logged : OverlapInv { s with log := s.log ++ [.saved sid] } := by
    refine inv.shrink (revocationKept_snoc inv.judged (by simp)) (fun sid' banned => ?_) (Nat.le_refl _)
      (fun _ _ kept => kept) inv.requestsKnown
    refine banned.imp_left fun revoked => ?_
    exact ((revoked_snoc.mp revoked).resolve_left (by simp)).1
  refine overlapInv_set logged known ?_
  rintro (revoked | waiting)
  · rcases revoked_snoc.mp revoked with same | ⟨-, other⟩
    · cases same
    · exact other rfl
  · exact free waiting

/-- An id that was never handed out takes the data of a regenerated session. -/
theorem overlapInv_fresh_set (now : Nat) (data : SessionData ν) (ttlMs : Nat)
    (inv : OverlapInv s) :
    OverlapInv { s with
      store := s.store.set now s.nextId data ttlMs, nextId := s.nextId + 1 } := by
  have later : OverlapInv { s with nextId := s.nextId + 1 } :=
    inv.shrink inv.judged (fun _ banned => banned) (Nat.le_succ _) (fun _ _ kept => kept)
      fun r p found => (inv.requestsKnown r p found).mono (Nat.le_succ _)
  refine overlapInv_set later (Nat.lt_succ_self _) fun banned => ?_
  exact Nat.lt_irrefl _ (inv.bannedKnown s.nextId banned)

theorem callMethod_inv {cfg : SessionConfig} {request : Nat} {r : OpenRequest ν}
    {method : SessionMethod} (inv : OverlapInv s) (found : s.requests.get request = some (.opened r))
    (quiet : method = .save → ¬Waiting s.requests r.session.sid) :
    OverlapInv (s.callMethod cfg request r method) := by
  have known : r.session.sid < s.nextId := inv.requestsKnown request _ found
  cases method with
  | destroy =>
    refine overlapInv_remove inv found known known fun sid waits => ?_
    simp only [OpenRequest.Waits, List.mem_append, List.mem_singleton] at waits ⊢
    tauto
  | save => exact overlapInv_save inv known (quiet rfl)
  | touch =>
    exact overlapInv_store _ inv fun sid data kept => by rwa [MemoryStore.kept_touch] at kept
  | regenerate =>
    refine overlapInv_remove inv found known known fun sid waits => ?_
    simp only [OpenRequest.Waits, List.map_append, List.map_singleton, List.mem_append,
      List.mem_singleton] at waits ⊢
    tauto

theorem setCookie_sid (session : RequestSession ν) (value : Option Nat) :
    (session.setCookie value).sid = session.sid := by
  unfold RequestSession.setCookie
  split <;> rfl

variable [DecidableEq ν]

/-- No `save()` of an id while its removal waits, and no `finally` block that stores under an id that
is being removed, or was and is not saved since. -/
def NoRevival (cfg : SessionConfig) (s : OverlapState ν) : OverlapEvent ν → Prop
  | .call request .save => ∀ r, s.openRequest request = some r → r.session.hasMethod .save = true →
      ¬Waiting s.requests r.session.sid
  | .finish request => ∀ r, s.openRequest request = some r → r.finished = false →
      r.session.finishAction cfg = .set → ¬Banned s r.session.sid
  | _ => True

theorem finish_inv {cfg : SessionConfig} {session : RequestSession ν} (inv : OverlapInv s)
    (known : session.sid < s.nextId)
    (quiet : session.finishAction cfg = .set → ¬Banned s session.sid) :
    OverlapInv { s with store := session.finish cfg s.now s.store } := by
  unfold RequestSession.finish
  split
  · exact inv
  · rename_i sets
    exact overlapInv_set inv known (quiet sets)
  · exact overlapInv_store _ inv fun sid data kept => by rwa [MemoryStore.kept_touch] at kept

/-- The `finally` block of a request that is marked as finished. -/
theorem finished_inv {cfg : SessionConfig} {request : Nat} {r : OpenRequest ν} (inv : OverlapInv s)
    (found : s.requests.get request = some (.opened r))
    (quiet : r.session.finishAction cfg = .set → ¬Banned s r.session.sid) :
    OverlapInv { s.setRequest request { r with finished := true } with
      store := r.session.finish cfg s.now s.store } := by
  have known : r.session.sid < s.nextId := inv.requestsKnown request _ found
  have ended := overlapInv_setRequest (q := { r with finished := true }) inv found known fun _ waits => waits
  refine finish_inv ended known fun sets banned => quiet sets ?_
  rcases banned with revoked | waiting
  · exact .inl revoked
  · rcases waiting_setOpened waiting with new | old
    · exact .inr ⟨request, r, found, new⟩
    · exact .inr old

theorem requestStep_inv {cfg : SessionConfig} {request : Nat} {r : OpenRequest ν}
    {event : OverlapEvent ν} (inv : OverlapInv s) (found : s.requests.get request = some (.opened r))
    (saves : ∀ request, event = .call request .save → r.session.hasMethod .save = true →
      ¬Waiting s.requests r.session.sid)
    (quiet : ∀ request, event = .finish request → r.finished = false →
      r.session.finishAction cfg = .set → ¬Banned s r.session.sid) :
    OverlapInv (s.requestStep cfg request r event) := by
  have known : r.session.sid < s.nextId := inv.requestsKnown request _ found
  cases event with
  | assign _ key value => exact overlapInv_setRequest inv found known fun _ waits => waits
  | delete _ key => exact overlapInv_setRequest inv found known fun _ waits => waits
  | sendHeaders => exact overlapInv_setRequest inv found known fun _ waits => waits
  | call _ method =>
    simp only [requestStep]
    split
    · rename_i installed
      refine callMethod_inv inv found ?_
      rintro rfl
      exact saves _ rfl installed
    · exact inv
  | destroyed =>
    simp only [requestStep]
    split
    · exact inv
    · rename_i sid rest waiting
      refine overlapInv_complete inv found ?_ (.inl (by simp [waiting])) fun sid' waits => ?_
      · simp only [RequestSession.afterDestroy, setCookie_sid]
        exact known
      · exact waits.imp_left fun later => by simp [waiting, later]
  | removed =>
    simp only [requestStep]
    split
    · exact inv
    · rename_i sid preserved rest waiting
      refine overlapInv_complete inv found known (.inr (by simp [waiting])) fun sid' waits => ?_
      exact waits.imp_right fun later => by
        rw [waiting, List.map_cons]
        exact List.mem_cons_of_mem _ later
  | regenerated =>
    simp only [requestStep]
    split
    · exact inv
    · rename_i preserved rest _
      have stored := overlapInv_fresh_set s.now preserved cfg.ttlMs inv
      have moved : (r.session.afterGenId s.nextId).sid < s.nextId + 1 := by
        rw [RequestSession.afterGenId, setCookie_sid]
        exact Nat.lt_succ_self _
      exact overlapInv_setRequest (q := { r with
        session := r.session.afterGenId s.nextId, regenerating := rest }) stored found moved
        fun _ waits => waits
  | finish =>
    simp only [requestStep]
    split
    · exact inv
    · rename_i unfinished
      exact finished_inv inv found (quiet _ rfl (by simpa using unfinished))
  | _ => exact inv

theorem arrive_inv (cfg : SessionConfig) (request : Nat) (cookie : Option Nat)
    (inv : OverlapInv s) : OverlapInv (overlapStep cfg s (.arrive request cookie)) := by
  have still : ∀ {sid fetched sid'},
      Waiting (s.requests.set request (.loading sid fetched)) sid' → Waiting s.requests sid' :=
    fun waits => (waiting_set waits).resolve_left fun ⟨_, other, _⟩ => by cases other
  cases cookie with
  | none =>
    exact inv.shrink inv.judged (fun _ banned => banned.imp_right still) (Nat.le_refl _)
      (fun _ _ kept => kept) (known_set inv.requestsKnown trivial)
  | some sid =>
    simp only [overlapStep]
    have dropped : ∀ sid' data, (s.store.get s.now sid).2.kept sid' = some data →
        s.store.kept sid' = some data := fun _ _ => MemoryStore.kept_get
    have got : ∀ data, (s.store.get s.now sid).1 = some data → s.store.kept sid = some data :=
      fun data => MemoryStore.kept_of_get
    generalize s.store.get s.now sid = answer at dropped got
    obtain ⟨fetched, store⟩ := answer
    refine inv.shrink (revocationKept_snoc inv.judged ?_) (fun sid' banned => ?_) (Nat.le_refl _) dropped
      (known_set inv.requestsKnown ?_)
    · intro sid' same revoked
      obtain ⟨rfl, found⟩ := SessionEvent.got.inj same
      obtain ⟨data, found⟩ := Option.isSome_iff_exists.mp found
      have gone := inv.gone sid (.inl revoked)
      rw [got data found] at gone
      cases gone
    · refine banned.imp (fun revoked => ?_) still
      exact ((revoked_snoc.mp revoked).resolve_left (by simp)).1
    · cases fetched with
      | none => trivial
      | some data => exact inv.storeKnown sid data (got data rfl)

theorem opened_inv (cfg : SessionConfig) (request : Nat) (inv : OverlapInv s) :
    OverlapInv (overlapStep cfg s (.opened request)) := by
  simp only [overlapStep]
  split
  · rename_i sid fetched found
    have known := inv.requestsKnown request _ found
    have le : s.nextId ≤ if (openSession cfg sid fetched s.nextId).isNew then s.nextId + 1
        else s.nextId := by
      split
      · exact Nat.le_succ _
      · exact Nat.le_refl _
    refine inv.shrink inv.judged (fun sid' banned => banned.imp_right fun waits => ?_) le
      (fun _ _ kept => kept) ?_
    · refine (waiting_setOpened waits).resolve_left ?_
      rintro (waits | waits) <;> cases waits
    · refine known_set (fun r p found => (inv.requestsKnown r p found).mono le) ?_
      cases sid with
      | none => exact Nat.lt_succ_self _
      | some sid =>
        cases fetched with
        | none => exact Nat.lt_succ_self _
        | some data => exact known
  · exact inv

/-- A request that is open takes its step. -/
theorem overlapInv_request {cfg : SessionConfig} {s : OverlapState ν} {event : OverlapEvent ν}
    (inv : OverlapInv s) (quiet : NoRevival cfg s event) {request : Nat}
    (own : event.request = some request) :
    OverlapInv (match event.request.bind s.openRequest, event.request with
      | some r, some request => s.requestStep cfg request r event
      | _, _ => s) := by
  rw [own, Option.bind_some]
  cases running : s.openRequest request with
  | none => exact inv
  | some r =>
    have found : s.requests.get request = some (.opened r) := by
      unfold openRequest at running
      split at running
      · rename_i r' phase
        cases running
        exact phase
      · cases running
    refine requestStep_inv inv found ?_ ?_
    · rintro request' rfl
      cases own
      exact quiet r running
    · rintro request' rfl
      cases own
      exact quiet r running

theorem overlapInv_step (cfg : SessionConfig) (s : OverlapState ν) (event : OverlapEvent ν)
    (inv : OverlapInv s) (quiet : NoRevival cfg s event) : OverlapInv (overlapStep cfg s event) := by
  cases event with
  | tick ms => exact ⟨inv.judged, inv.gone, inv.bannedKnown, inv.storeKnown, inv.requestsKnown⟩
  | arrive request cookie => exact arrive_inv cfg request cookie inv
  | opened request => exact opened_inv cfg request inv
  | assign request key value => exact overlapInv_request inv quiet rfl
  | delete request key => exact overlapInv_request inv quiet rfl
  | sendHeaders request => exact overlapInv_request inv quiet rfl
  | call request method => exact overlapInv_request inv quiet rfl
  | destroyed request => exact overlapInv_request inv quiet rfl
  | removed request => exact overlapInv_request inv quiet rfl
  | regenerated request => exact overlapInv_request inv quiet rfl
  | finish request => exact overlapInv_request inv quiet rfl

/-- As long as nothing is stored under an id while its removal waits, and no `finally` block stores
under it afterwards, ids stay revoked until they are saved. -/
theorem revocation_kept (cfg : SessionConfig) (events : List (OverlapEvent ν))
    (quiet : Along (overlapStep cfg) (NoRevival cfg) .fresh events) :
    RevocationKept (runFrom (overlapStep cfg) .fresh events).log :=
  (run_invariant_along (overlapInv_step cfg) events .fresh overlapInv_fresh quiet).judged

/-- A logout while nothing else is under way. -/
theorem revocation_kept_logout :
    RevocationKept (runFrom (overlapStep ⟨1000, false, false, true⟩) (.fresh : OverlapState Nat)
      [.arrive 0 none, .opened 0, .assign 0 ['u'] 1, .finish 0, .arrive 1 (some 0), .opened 1,
        .call 1 .destroy, .destroyed 1, .finish 1, .arrive 2 (some 0)]).log := by
  refine revocation_kept _ _ ⟨trivial, trivial, trivial, ?_, trivial, trivial, trivial, trivial, ?_,
    trivial, trivial⟩
  · rintro r found - - (⟨before, after, eq, -⟩ | waiting)
    · cases before <;> cases eq
    · obtain ⟨request, r', found', waits⟩ := waiting
      cases Assoc.mem_entries.mpr found' with
      | head => rcases waits with waits | waits <;> cases waits
      | tail _ none => cases none
  · rintro r found - sets
    have ended : r.session.destroyed = true := by
      cases found
      rfl
    simp [RequestSession.finishAction, ended] at sets

/-- A second request with the same id is still running at the logout and has edited its copy:
its `finally` block puts the session back. Where it saves while the removal still waits, the id
comes back without a `save()` behind the removal. -/
theorem overlapping_logout_revived :
    ¬RevocationKept (runFrom (overlapStep ⟨1000, false, false, true⟩) (.fresh : OverlapState Nat)
        [.arrive 0 none, .opened 0, .assign 0 ['u'] 1, .finish 0, .arrive 1 (some 0), .opened 1,
          .arrive 2 (some 0), .opened 2, .assign 2 ['v'] 2, .call 1 .destroy, .destroyed 1,
          .finish 1, .finish 2, .arrive 3 (some 0)]).log ∧
      ¬RevocationKept (runFrom (overlapStep ⟨1000, false, false, true⟩) (.fresh : OverlapState Nat)
        [.arrive 0 none, .opened 0, .assign 0 ['u'] 1, .finish 0, .arrive 1 (some 0), .opened 1,
          .arrive 2 (some 0), .opened 2, .call 1 .destroy, .call 2 .save, .destroyed 1,
          .arrive 3 (some 0)]).log := by
  constructor
  · intro kept
    have log : (runFrom (overlapStep ⟨1000, false, false, true⟩) (.fresh : OverlapState Nat)
        [.arrive 0 none, .opened 0, .assign 0 ['u'] 1, .finish 0, .arrive 1 (some 0), .opened 1,
          .arrive 2 (some 0), .opened 2, .assign 2 ['v'] 2, .call 1 .destroy, .destroyed 1,
          .finish 1, .finish 2, .arrive 3 (some 0)]).log =
        [.got 0 true, .got 0 true, .revoked 0] ++ [.got 0 true] := by decide
    rw [log] at kept
    exact kept _ 0 List.prefix_rfl ⟨[.got 0 true, .got 0 true], [], rfl, by simp⟩
  · intro kept
    have log : (runFrom (overlapStep ⟨1000, false, false, true⟩) (.fresh : OverlapState Nat)
        [.arrive 0 none, .opened 0, .assign 0 ['u'] 1, .finish 0, .arrive 1 (some 0), .opened 1,
          .arrive 2 (some 0), .opened 2, .call 1 .destroy, .call 2 .save, .destroyed 1,
          .arrive 3 (some 0)]).log =
        [.got 0 true, .got 0 true, .saved 0, .revoked 0] ++ [.got 0 true] := by decide
    rw [log] at kept
    exact kept _ 0 List.prefix_rfl ⟨[.got 0 true, .got 0 true, .saved 0], [], rfl, by simp⟩

end QjsLws.Session
