import QjsLws.Client.HttpClient

/-!
# Session isolation of the HTTP client

Every session sits in at most one place, `#pending` or one entry of `#sessions`, and a terminal
callback takes it out: that gives at most one outcome in every run. Which session a wsi finds is
decided by `#pending` whenever the wsi has none: isolation holds exactly when no other call's
session is pending then.
-/

namespace QjsLws.Client

open QjsLws.Misc ClientState

/-- The session a callback gets from `#session`. -/
def touchedSession (s : ClientState) (wsi : Nat) (callback : ClientCallback) : Option Nat :=
  if skipsSession s callback then none else (s.session wsi).1

/-- A callback gets no session but its own call's, and leaves all others as they are. -/
def CallbackIsolated (owner : Nat → Nat) (s : ClientState) : ClientEvent → Prop
  | .connect .. => True
  | .callback wsi callback =>
    (∀ id, touchedSession s wsi callback = some id → id = owner wsi) ∧
      ∀ id, id ≠ owner wsi →
        (clientStep s (.callback wsi callback)).records[id]? = s.records[id]?

/-- A wsi without a session finds no other call's session pending. -/
def PendingOwn (owner : Nat → Nat) (s : ClientState) : ClientEvent → Prop
  | .connect .. => True
  | .callback wsi callback =>
    s.sessions.get wsi = none → skipsSession s callback = false →
      ∀ id, s.pending = some id → id = owner wsi

theorem session_cases (s : ClientState) (wsi : Nat) :
    (∃ id, s.sessions.get wsi = some id ∧ s.session wsi = (some id, s)) ∨
      (∃ id, s.sessions.get wsi = none ∧ s.pending = some id ∧ s.session wsi =
        (some id, { s with pending := none, sessions := s.sessions.set wsi id })) ∨
      (s.sessions.get wsi = none ∧ s.pending = none ∧ s.session wsi = (none, s)) := by
  unfold session
  cases s.sessions.get wsi with
  | some id => exact .inl ⟨id, rfl, rfl⟩
  | none =>
    cases s.pending with
    | some id => exact .inr (.inl ⟨id, rfl, rfl, rfl⟩)
    | none => exact .inr (.inr ⟨rfl, rfl, rfl⟩)

/-! ## Frames -/

theorem update_frame {s : ClientState} {id id' : Nat} {change : ClientSession → ClientSession}
    (other : id' ≠ id) : (s.update id change).records[id']? = s.records[id']? :=
  List.getElem?_modify_ne change s.records (Ne.symm other)

theorem onClosed_frame {s : ClientState} {id id' : Nat} (other : id' ≠ id) :
    (s.onClosed id).records[id']? = s.records[id']? := by
  unfold onClosed
  split
  · rfl
  split
  · exact update_frame other
  split
  · exact (update_frame other).trans (update_frame other)
  · rfl

theorem onDrop_frame {s : ClientState} {id id' : Nat} (other : id' ≠ id) :
    (s.onDrop id).records[id']? = s.records[id']? := by
  unfold onDrop
  split
  · rfl
  split
  · exact update_frame other
  split
  · exact update_frame other
  · rfl

theorem onWriteable_frame {s : ClientState} {wsi id id' amount : Nat} (other : id' ≠ id) :
    (s.onWriteable wsi id amount).records[id']? = s.records[id']? := by
  simp only [onWriteable]
  split
  · split
    · exact update_frame other
    · rfl
  · split
    · exact update_frame other
    · rfl

/-- A callback changes no session but the one it found. -/
theorem handle_frame {s : ClientState} {wsi id : Nat} {found : Option Nat}
    {callback : ClientCallback} (other : found ≠ some id) :
    (s.handle wsi found callback).records[id]? = s.records[id]? := by
  cases found with
  | none => cases callback <;> rfl
  | some id' =>
    have other : id ≠ id' := fun same => other (by rw [same])
    cases callback with
    | instantiated => rfl
    | appendHandshakeHeader =>
      simp only [handle]
      split <;> rfl
    | writeable amount => exact onWriteable_frame other
    | redirect => exact update_frame other
    | established status =>
      simp only [handle, onEstablished]
      split
      · rfl
      · exact update_frame other
    | read data => exact update_frame other
    | completed => exact (update_frame other).trans (update_frame other)
    | closed => exact onClosed_frame other
    | drop => exact onDrop_frame other
    | connectionError message => exact update_frame other

/-! ## Places -/

/-- The session can still be found. -/
def Live (s : ClientState) (id : Nat) : Prop :=
  s.pending = some id ∨ ∃ wsi, s.sessions.get wsi = some id

/-- Every session is in at most one place, and has no outcome while it is in one. -/
structure SessionInv (s : ClientState) : Prop where
  known : ∀ id, Live s id → id < s.records.length
  injective : ∀ wsi wsi' id, s.sessions.get wsi = some id → s.sessions.get wsi' = some id →
    wsi = wsi'
  pendingFree : ∀ wsi id, s.pending = some id → s.sessions.get wsi ≠ some id
  live : ∀ (id : Nat) (r : ClientSession), s.records[id]? = some r → Live s id → r.outcomes = []
  once : ∀ (id : Nat) (r : ClientSession), s.records[id]? = some r → r.outcomes.length ≤ 1

theorem sessionInv_fresh : SessionInv .fresh where
  known id live := by simp [Live, ClientState.fresh] at live
  injective wsi wsi' id found := by simp [ClientState.fresh] at found
  pendingFree wsi id pending := by simp [ClientState.fresh] at pending
  live id r found := by simp [ClientState.fresh] at found
  once id r found := by simp [ClientState.fresh] at found

theorem sessionInv_connect {s : ClientState} (inv : SessionInv s) (headers : List (Text × Text))
    (body : Option (List UInt8)) : SessionInv (s.connect headers body) := by
  have older : ∀ wsi id, s.sessions.get wsi = some id → id < s.records.length :=
    fun wsi id found => inv.known id (.inr ⟨wsi, found⟩)
  refine ⟨?_, inv.injective, ?_, ?_, ?_⟩
  · rintro id (pending | ⟨wsi, found⟩)
    · obtain rfl : s.records.length = id := Option.some.inj pending
      simp [connect]
    · have lt := older wsi id found
      simp only [connect, List.length_append, List.length_singleton]
      omega
  · intro wsi id pending found
    obtain rfl : s.records.length = id := Option.some.inj pending
    exact Nat.lt_irrefl _ (older wsi _ found)
  · intro id r found live
    simp only [connect, List.getElem?_append] at found
    split at found
    · rcases live with pending | bound
      · obtain rfl : s.records.length = id := Option.some.inj pending
        omega
      · exact inv.live id r found (.inr bound)
    · rw [List.getElem?_singleton] at found
      split at found
      · rw [← Option.some.inj found]
      · cases found
  · intro id r found
    simp only [connect, List.getElem?_append] at found
    split at found
    · exact inv.once id r found
    · rw [List.getElem?_singleton] at found
      split at found
      · simp [← Option.some.inj found]
      · cases found

theorem sessionInv_session {s : ClientState} (inv : SessionInv s) (wsi : Nat) :
    SessionInv (s.session wsi).2 ∧
      ∀ id, (s.session wsi).1 = some id → (s.session wsi).2.sessions.get wsi = some id := by
  rcases session_cases s wsi with
    ⟨id, bound, eq⟩ | ⟨id, unbound, pending, eq⟩ | ⟨unbound, none, eq⟩
  · rw [eq]
    exact ⟨inv, fun id' same => bound.trans same⟩
  · rw [eq]
    -- The session moves from `#pending` to its entry.
    have moved : ∀ w i, (s.sessions.set wsi id).get w = some i →
        (w = wsi ∧ i = id) ∨ (w ≠ wsi ∧ s.sessions.get w = some i) := by
      intro w i found
      rw [Assoc.get_set] at found
      split at found
      · rename_i same
        exact .inl ⟨same.symm, (Option.some.inj found).symm⟩
      · rename_i other
        exact .inr ⟨Ne.symm other, found⟩
    have still : ∀ i, Live { s with pending := none, sessions := s.sessions.set wsi id } i →
        Live s i := by
      rintro i (gone | ⟨w, found⟩)
      · cases gone
      · rcases moved w i found with ⟨-, rfl⟩ | ⟨-, old⟩
        · exact .inl pending
        · exact .inr ⟨w, old⟩
    refine ⟨⟨fun i live => inv.known i (still i live), ?_, by simp,
      fun i r found live => inv.live i r found (still i live), inv.once⟩, ?_⟩
    · intro w w' i found found'
      rcases moved w i found with ⟨rfl, rfl⟩ | ⟨-, old⟩ <;>
        rcases moved w' _ found' with ⟨rfl, same⟩ | ⟨-, old'⟩
      · rfl
      · exact absurd old' (inv.pendingFree w' i pending)
      · exact absurd (same ▸ old) (inv.pendingFree w id pending)
      · exact inv.injective w w' i old old'
    · rintro i same
      cases same
      exact Assoc.get_set_self ..
  · rw [eq]
    exact ⟨inv, by simp⟩

/-- Changing a session without reporting an outcome. -/
theorem sessionInv_update {s : ClientState} {id : Nat} {change : ClientSession → ClientSession}
    (inv : SessionInv s) (quiet : ∀ r, (change r).outcomes = r.outcomes) :
    SessionInv (s.update id change) := by
  have same : ∀ (i : Nat) (r : ClientSession), (s.update id change).records[i]? = some r →
      ∃ r' : ClientSession, s.records[i]? = some r' ∧ r.outcomes = r'.outcomes := by
    intro i r found
    simp only [update, List.getElem?_modify] at found
    obtain ⟨r', old, rfl⟩ := Option.map_eq_some_iff.mp found
    refine ⟨r', old, ?_⟩
    split
    · exact quiet r'
    · rfl
  refine ⟨fun i live => ?_, inv.injective, inv.pendingFree, ?_, ?_⟩
  · rw [show (s.update id change).records.length = s.records.length from List.length_modify ..]
    exact inv.known i live
  · intro i r found live
    obtain ⟨r', found, eq⟩ := same i r found
    rw [eq]
    exact inv.live i r' found live
  · intro i r found
    obtain ⟨r', found, eq⟩ := same i r found
    rw [eq]
    exact inv.once i r' found

theorem sessionInv_output {s : ClientState} {outputs : List ClientOutput} (inv : SessionInv s) :
    SessionInv (s.output outputs) := ⟨inv.1, inv.2, inv.3, inv.4, inv.5⟩

theorem sessionInv_forget {s : ClientState} {wsi : Nat} (inv : SessionInv s) :
    SessionInv (s.forget wsi) := by
  have kept : ∀ w id, (s.forget wsi).sessions.get w = some id →
      w ≠ wsi ∧ s.sessions.get w = some id := by
    intro w id found
    rw [show (s.forget wsi).sessions.get w = _ from Assoc.get_erase ..] at found
    split at found
    · cases found
    · rename_i other
      exact ⟨Ne.symm other, found⟩
  have still : ∀ id, Live (s.forget wsi) id → Live s id := by
    rintro id (pending | ⟨w, found⟩)
    · exact .inl pending
    · exact .inr ⟨w, (kept w id found).2⟩
  exact ⟨fun id live => inv.known id (still id live),
    fun w w' id found found' => inv.injective w w' id (kept w id found).2 (kept w' id found').2,
    fun w id pending found => inv.pendingFree w id pending (kept w id found).2,
    fun id r found live => inv.live id r found (still id live), inv.once⟩

/-- A session whose entry is deleted can no longer be found. -/
theorem not_live_forget {s : ClientState} {wsi id : Nat} (inv : SessionInv s)
    (bound : s.sessions.get wsi = some id) : ¬Live (s.forget wsi) id := by
  rintro (pending | ⟨w, found⟩)
  · exact inv.pendingFree wsi id pending bound
  · rw [show (s.forget wsi).sessions.get w = _ from Assoc.get_erase ..] at found
    split at found
    · cases found
    · rename_i other
      exact other (inv.injective wsi w id bound found)

/-- A session that is out of reach takes its first outcome. -/
theorem sessionInv_finish {s : ClientState} {id : Nat} {outcome : SessionOutcome}
    (inv : SessionInv s) (gone : ¬Live s id)
    (none : ∀ r : ClientSession, s.records[id]? = some r → r.outcomes = []) :
    SessionInv (s.finish id outcome) := by
  refine ⟨fun i live => ?_, inv.injective, inv.pendingFree, ?_, ?_⟩
  · rw [show (s.finish id outcome).records.length = s.records.length from List.length_modify ..]
    exact inv.known i live
  · intro i r found live
    have other : i ≠ id := by
      rintro rfl
      exact gone live
    rw [show (s.finish id outcome).records[i]? = _ from update_frame other] at found
    exact inv.live i r found live
  · intro i r found
    by_cases same : i = id
    · subst same
      simp only [finish, update, List.getElem?_modify_eq] at found
      obtain ⟨r', old, rfl⟩ := Option.map_eq_some_iff.mp found
      simp [none r' old]
    · rw [show (s.finish id outcome).records[i]? = _ from update_frame same] at found
      exact inv.once i r found

theorem update_outcomes {s : ClientState} {id : Nat} {change : ClientSession → ClientSession}
    (quiet : ∀ r, (change r).outcomes = r.outcomes)
    (none : ∀ r : ClientSession, s.records[id]? = some r → r.outcomes = []) :
    ∀ r : ClientSession, (s.update id change).records[id]? = some r → r.outcomes = [] := by
  intro r found
  simp only [update, List.getElem?_modify_eq] at found
  obtain ⟨r', old, rfl⟩ := Option.map_eq_some_iff.mp found
  rw [quiet, none r' old]

/-- The terminal callbacks: the session was taken out of its place before. -/
theorem sessionInv_terminal {s : ClientState} {wsi id : Nat} (inv : SessionInv s)
    (bound : s.sessions.get wsi = some id) :
    SessionInv (s.forget wsi) ∧ ¬Live (s.forget wsi) id ∧
      ∀ r : ClientSession, (s.forget wsi).records[id]? = some r → r.outcomes = [] :=
  ⟨sessionInv_forget inv, not_live_forget inv bound,
    fun r found => inv.live id r found (.inr ⟨wsi, bound⟩)⟩

theorem sessionInv_onClosed {s : ClientState} {id : Nat} (inv : SessionInv s) (gone : ¬Live s id)
    (none : ∀ r : ClientSession, s.records[id]? = some r → r.outcomes = []) :
    SessionInv (s.onClosed id) := by
  unfold onClosed
  split
  · exact inv
  split
  · exact sessionInv_output (sessionInv_finish inv gone none)
  split
  · exact sessionInv_finish (sessionInv_update inv fun _ => rfl) gone
      (update_outcomes (fun _ => rfl) none)
  · exact inv

theorem sessionInv_onDrop {s : ClientState} {id : Nat} (inv : SessionInv s) (gone : ¬Live s id)
    (none : ∀ r : ClientSession, s.records[id]? = some r → r.outcomes = []) :
    SessionInv (s.onDrop id) := by
  unfold onDrop
  split
  · exact inv
  split
  · exact sessionInv_output (sessionInv_finish inv gone none)
  split
  · exact sessionInv_finish inv gone none
  · exact inv

theorem sessionInv_onRedirect {s : ClientState} {wsi id : Nat} (inv : SessionInv s)
    (bound : s.sessions.get wsi = some id) : SessionInv (s.onRedirect wsi id) := by
  have marked : SessionInv (s.update id ({ · with redirected := true })) :=
    sessionInv_update inv fun _ => rfl
  obtain ⟨forgot, gone, none⟩ := sessionInv_terminal marked bound
  have known := marked.known id (.inr ⟨wsi, bound⟩)
  refine ⟨?_, forgot.injective, ?_, ?_, forgot.once⟩
  · rintro i (pending | found)
    · cases pending
      exact known
    · exact forgot.known i (.inr found)
  · intro w i pending found
    cases pending
    exact gone (.inr ⟨w, found⟩)
  · rintro i r found (pending | live)
    · cases pending
      exact none r found
    · exact forgot.live i r found (.inr live)

theorem sessionInv_onWriteable {s : ClientState} {wsi id amount : Nat} (inv : SessionInv s) :
    SessionInv (s.onWriteable wsi id amount) := by
  simp only [onWriteable]
  split
  · refine sessionInv_output ?_
    split
    · exact sessionInv_update (sessionInv_output inv) fun _ => rfl
    · exact inv
  · split
    · exact sessionInv_update (sessionInv_output inv) fun _ => rfl
    · exact inv

theorem sessionInv_handle {s : ClientState} {wsi : Nat} {found : Option Nat}
    {callback : ClientCallback} (inv : SessionInv s)
    (bound : ∀ id, found = some id → s.sessions.get wsi = some id) :
    SessionInv (s.handle wsi found callback) := by
  cases found with
  | none =>
    cases callback with
    | redirect => exact sessionInv_output inv
    | read data => exact sessionInv_output inv
    | completed => exact sessionInv_forget inv
    | closed => exact sessionInv_forget inv
    | drop => exact sessionInv_forget inv
    | connectionError message => exact sessionInv_output (sessionInv_forget inv)
    | _ => exact inv
  | some id =>
    have bound := bound id rfl
    obtain ⟨forgot, gone, none⟩ := sessionInv_terminal inv bound
    cases callback with
    | instantiated => exact inv
    | appendHandshakeHeader =>
      simp only [handle]
      split
      · exact sessionInv_output inv
      · exact inv
    | writeable amount => exact sessionInv_onWriteable inv
    | redirect => exact sessionInv_output (sessionInv_onRedirect inv bound)
    | established status =>
      simp only [handle, onEstablished]
      split
      · exact inv
      · exact sessionInv_output (sessionInv_update inv fun _ => rfl)
    | read data => exact sessionInv_output (sessionInv_update inv fun _ => rfl)
    | completed =>
      exact sessionInv_finish (sessionInv_update forgot fun _ => rfl) gone
        (update_outcomes (fun _ => rfl) none)
    | closed => exact sessionInv_onClosed forgot gone none
    | drop => exact sessionInv_onDrop forgot gone none
    | connectionError message => exact sessionInv_output (sessionInv_finish forgot gone none)

theorem sessionInv_step (s : ClientState) (event : ClientEvent) (inv : SessionInv s) :
    SessionInv (clientStep s event) := by
  cases event with
  | connect headers body => exact sessionInv_connect inv headers body
  | callback wsi callback =>
    simp only [clientStep]
    split
    · exact ⟨inv.1, inv.2, inv.3, inv.4, inv.5⟩
    · obtain ⟨inv, bound⟩ := sessionInv_session inv wsi
      exact sessionInv_handle inv bound

/-! ## Ownership -/

/-- Every bound session belongs to the call of its wsi. -/
def OwnSessions (owner : Nat → Nat) (s : ClientState) : Prop :=
  ∀ wsi id, s.sessions.get wsi = some id → id = owner wsi

theorem get_forget {s : ClientState} {wsi w id : Nat}
    (found : (s.forget wsi).sessions.get w = some id) : s.sessions.get w = some id := by
  rw [show (s.forget wsi).sessions.get w = _ from Assoc.get_erase ..] at found
  split at found
  · cases found
  · exact found

/-- Handling a callback binds no session. -/
theorem handle_sessions {s : ClientState} {wsi w id : Nat} {found : Option Nat}
    {callback : ClientCallback}
    (still : (s.handle wsi found callback).sessions.get w = some id) :
    s.sessions.get w = some id := by
  cases found with
  | none =>
    cases callback with
    | completed => exact get_forget still
    | closed => exact get_forget still
    | drop => exact get_forget still
    | connectionError message => exact get_forget still
    | _ => exact still
  | some id' =>
    cases callback with
    | appendHandshakeHeader =>
      simp only [handle] at still
      split at still <;> exact still
    | writeable amount =>
      simp only [handle, onWriteable] at still
      split at still <;> split at still <;> exact still
    | redirect => exact get_forget still
    | established status =>
      simp only [handle, onEstablished] at still
      split at still <;> exact still
    | completed => exact get_forget still
    | closed =>
      simp only [handle, onClosed] at still
      split at still
      · exact get_forget still
      split at still
      · exact get_forget still
      split at still <;> exact get_forget still
    | drop =>
      simp only [handle, onDrop] at still
      split at still
      · exact get_forget still
      split at still
      · exact get_forget still
      split at still <;> exact get_forget still
    | connectionError message => exact get_forget still
    | _ => exact still

theorem ownSessions_step (owner : Nat → Nat) (s : ClientState) (event : ClientEvent)
    (own : OwnSessions owner s) (pending : PendingOwn owner s event) :
    OwnSessions owner (clientStep s event) := by
  cases event with
  | connect headers body => exact own
  | callback wsi callback =>
    intro w id found
    simp only [clientStep] at found
    split at found
    · exact own w id found
    · rename_i reached
      have kept := handle_sessions found
      rcases session_cases s wsi with
        ⟨id', bound, eq⟩ | ⟨id', unbound, waiting, eq⟩ | ⟨unbound, none, eq⟩
      · rw [eq] at kept
        exact own w id kept
      · rw [eq] at kept
        simp only [Assoc.get_set] at kept
        split at kept
        · rename_i same
          subst same
          cases kept
          exact pending unbound (by simpa using reached) id waiting
        · exact own w id kept
      · rw [eq] at kept
        exact own w id kept

theorem callbackIsolated_iff (owner : Nat → Nat) (s : ClientState) (event : ClientEvent)
    (own : OwnSessions owner s) : CallbackIsolated owner s event ↔ PendingOwn owner s event := by
  cases event with
  | connect headers body => exact Iff.rfl
  | callback wsi callback =>
    constructor
    · rintro ⟨touched, -⟩ unbound reached id waiting
      apply touched
      simp [touchedSession, reached, session, unbound, waiting]
    · intro pending
      have touched : ∀ id, touchedSession s wsi callback = some id → id = owner wsi := by
        intro id found
        simp only [touchedSession] at found
        split at found
        · cases found
        · rename_i reached
          rcases session_cases s wsi with
            ⟨id', bound, eq⟩ | ⟨id', unbound, waiting, eq⟩ | ⟨unbound, none, eq⟩
          · rw [eq] at found
            exact own wsi id (bound.trans found)
          · rw [eq] at found
            exact pending unbound (by simpa using reached) id (waiting.trans found)
          · rw [eq] at found
            cases found
      refine ⟨touched, fun id other => ?_⟩
      simp only [touchedSession] at touched
      simp only [clientStep]
      split
      · rfl
      · rename_i reached
        rw [if_neg reached] at touched
        have records : (s.session wsi).2.records = s.records := by
          rcases session_cases s wsi with ⟨_, _, eq⟩ | ⟨_, _, _, eq⟩ | ⟨_, _, eq⟩ <;> rw [eq]
        rw [handle_frame (fun found => other (touched id found)), records]

/-- A run isolates its sessions exactly when no wsi without a session ever meets another call's
pending session; and every session has at most one outcome in any run. -/
theorem sessionIsolation_iff (owner : Nat → Nat) (events : List ClientEvent) :
    (Along clientStep (CallbackIsolated owner) .fresh events ∧
      ∀ r ∈ (runFrom clientStep .fresh events).records, r.outcomes.length ≤ 1) ↔
    Along clientStep (PendingOwn owner) .fresh events := by
  have inv := run_invariant sessionInv_step events .fresh sessionInv_fresh
  have once : ∀ r ∈ (runFrom clientStep .fresh events).records, r.outcomes.length ≤ 1 := by
    intro r member
    obtain ⟨id, found⟩ := List.mem_iff_getElem?.mp member
    exact inv.once id r found
  rw [and_iff_left once]
  have own : OwnSessions owner .fresh := fun wsi id found => by cases found
  clear inv once
  generalize ClientState.fresh = s at own
  induction events generalizing s with
  | nil => exact Iff.rfl
  | cons event events ih =>
    rw [Along, Along, callbackIsolated_iff owner s event own]
    exact and_congr_right fun pending => ih _ (ownSessions_step owner s event own pending)

/-- A keep-alive connection that closes late: request 0 is complete, request 1 is pending, and
the close of the first wsi claims it. -/
theorem late_close_not_isolated :
    ¬Along clientStep (CallbackIsolated fun wsi => wsi) .fresh
      [.connect [] none, .callback 0 .instantiated, .callback 0 (.established 200),
        .callback 0 .completed, .connect [] none, .callback 0 .closed] := by
  rintro ⟨-, -, -, -, -, ⟨touched, -⟩, -⟩
  exact absurd (touched 1 (by decide)) (by decide)

end QjsLws.Client
