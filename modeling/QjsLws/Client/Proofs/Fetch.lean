import QjsLws.Client.Fetch
import QjsLws.Client.Proofs.HttpClient

/-!
# Settlement of `fetch`

While nothing has decided a call its promise is pending, and the first decision settles it as long
as the record is in place by then and the callback gets the call's session; a decision inside
`connect()` waits for what that throws. The lemmas about the protocol say which calls on the handlers a
callback makes and when the `established` flag of a session changes.
-/

namespace QjsLws.Client

open QjsLws.Misc ClientState

/-! ## Calls on the handlers -/

/-- The calls a callback makes with the session it found. -/
def handleOutputs (s : ClientState) (wsi : Nat) (found : Option Nat) :
    ClientCallback → List ClientOutput
  | .instantiated | .completed => []
  | .appendHandshakeHeader =>
    match found.bind fun id => s.records[id]? with
    | some r => handshakeOutputs wsi r
    | none => []
  | .writeable bufferedAmount =>
    match found with
    | none => []
    | some id =>
      (match s.records[id]? with
        | some { body := some body, .. } => [.write wsi body]
        | _ => []) ++ if bufferedAmount = 0 then [.bodyPending wsi false] else []
  | .redirect => [.onRedirect found]
  | .established status =>
    match found with
    | none => []
    | some id =>
      if status ≠ 0 ∧ (status < 200 ∨ status > 599) then []
      else [.onResponse id status ((s.records[id]?.map (·.redirected)).getD false)]
  | .read data => [.onRead found data]
  | .closed =>
    match found, found.bind fun id => s.records[id]? with
    | some id, some r => if !r.established then [.onError (some id) "closed".toList] else []
    | _, _ => []
  | .drop =>
    match found, found.bind fun id => s.records[id]? with
    | some id, some r => if !r.established then [.onError (some id) "dropped".toList] else []
    | _, _ => []
  | .connectionError message => [.onError found message]

theorem log_handle (s : ClientState) (wsi : Nat) (found : Option Nat) (callback : ClientCallback) :
    (s.handle wsi found callback).log = s.log ++ handleOutputs s wsi found callback := by
  cases callback with
  | instantiated => simp [handle, handleOutputs]
  | appendHandshakeHeader =>
    simp only [handle, handleOutputs]
    cases found.bind fun id => s.records[id]? <;> simp [output]
  | writeable amount =>
    cases found with
    | none => simp [handle, handleOutputs]
    | some id =>
      simp only [handle, handleOutputs, onWriteable]
      cases s.records[id]? with
      | none => split <;> simp [output]
      | some r =>
        rcases r with ⟨_, _ | body, _, _, _, _, _⟩ <;> split <;> simp [output, update]
  | redirect => cases found <;> rfl
  | established status =>
    cases found with
    | none => simp [handle, handleOutputs]
    | some id =>
      simp only [handle, handleOutputs, onEstablished]
      split
      · simp
      · rfl
  | read data => cases found <;> rfl
  | completed => cases found <;> simp [handle, handleOutputs, forget, update, finish]
  | closed =>
    cases found with
    | none => simp [handle, handleOutputs, forget]
    | some id =>
      simp only [handle, handleOutputs, onClosed, Option.bind_some]
      cases record : s.records[id]? with
      | none => simp [forget, record]
      | some r =>
        cases flag : r.established <;> cases ended : r.completed <;>
          simp [forget, record, flag, ended, fail, finish, output, update]
  | drop =>
    cases found with
    | none => simp [handle, handleOutputs, forget]
    | some id =>
      simp only [handle, handleOutputs, onDrop, Option.bind_some]
      cases record : s.records[id]? with
      | none => simp [forget, record]
      | some r =>
        cases flag : r.established <;> cases ended : r.completed <;>
          simp [forget, record, flag, ended, fail, finish, output, update]
  | connectionError message => cases found <;> rfl

/-- The state `#session` leaves behind has the same records and log. -/
theorem session_keeps (s : ClientState) (wsi : Nat) :
    (s.session wsi).2.records = s.records ∧ (s.session wsi).2.log = s.log := by
  unfold session
  split <;> exact ⟨rfl, rfl⟩

theorem handleOutputs_session (s : ClientState) (wsi : Nat) (found : Option Nat)
    (callback : ClientCallback) :
    handleOutputs (s.session wsi).2 wsi found callback = handleOutputs s wsi found callback := by
  have same := (session_keeps s wsi).1
  cases callback <;> simp only [handleOutputs, same]

/-- What an event reports, by the session it found. -/
theorem clientOutputs_callback (s : ClientState) (wsi : Nat) (callback : ClientCallback) :
    clientOutputs s (.callback wsi callback) =
      if skipsSession s callback then [] else handleOutputs s wsi (s.session wsi).1 callback := by
  simp only [clientOutputs, clientStep]
  split
  · simp
  · rw [log_handle, (session_keeps s wsi).2, handleOutputs_session, List.drop_left]

/-- What `#session` finds is decided by `#sessions`, `#pending` and `#redirecting`. -/
theorem reaches_iff (s : ClientState) (id : Nat) (event : ClientEvent) :
    Reaches s id event ↔ callbackSession s event = some id := by
  cases event with
  | connect headers body => simp [Reaches, callbackSession]
  | callback wsi callback =>
    have skips : skipsSession s callback = true ↔ callback = .drop ∧ s.redirecting = true := by
      simp [skipsSession]
    simp only [Reaches, callbackSession, ← skips]
    by_cases skipped : skipsSession s callback = true
    · simp [skipped]
    · simp only [skipped, not_false_eq_true, true_and, Bool.false_eq_true, if_false]
      rcases session_cases s wsi with
        ⟨id', bound, eq⟩ | ⟨id', unbound, waiting, eq⟩ | ⟨unbound, none, eq⟩
      · simp [eq, bound]
      · simp [eq, unbound, waiting]
      · simp [eq, unbound, none]

/-- The call settles the request with this number. -/
def Concerns (id : Nat) : ClientOutput → Prop
  | .onResponse id' _ _ => id' = id
  | .onError (some id') _ => id' = id
  | _ => False

/-- Only a deciding callback that found the session reports for it. -/
theorem quiet_outputs {s : ClientState} {event : ClientEvent} {id : Nat}
    (quiet : callbackSession s event ≠ some id ∨ callbackDecision event = none) :
    ∀ o ∈ clientOutputs s event, ¬Concerns id o := by
  cases event with
  | connect headers body =>
    intro o reported
    simp [clientOutputs, clientStep, connect] at reported
  | callback wsi callback =>
    intro o reported
    rw [clientOutputs_callback] at reported
    simp only [callbackSession] at quiet
    split at reported
    · cases reported
    · rename_i skips
      rw [if_neg skips] at quiet
      generalize (s.session wsi).1 = found at quiet reported
      cases callback with
      | instantiated => simp [handleOutputs] at reported
      | completed => simp [handleOutputs] at reported
      | appendHandshakeHeader =>
        simp only [handleOutputs] at reported
        split at reported
        · rename_i r _
          have header : ∀ o ∈ handshakeOutputs wsi r, ¬Concerns id o := by
            intro o member
            simp only [handshakeOutputs, List.mem_append, List.mem_map] at member
            rcases member with ⟨pair, -, rfl⟩ | member
            · exact fun no => no
            · split at member
              · cases member
              · split at member <;> simp at member
                · rw [member]; exact fun no => no
                · rcases member with rfl | rfl <;> exact fun no => no
          exact header o reported
        · cases reported
      | writeable amount =>
        simp only [handleOutputs] at reported
        split at reported
        · cases reported
        · simp only [List.mem_append] at reported
          rcases reported with write | flag
          · split at write
            · rw [List.mem_singleton.mp write]; exact fun no => no
            · cases write
          · split at flag
            · rw [List.mem_singleton.mp flag]; exact fun no => no
            · cases flag
      | redirect => rw [List.mem_singleton.mp reported]; exact fun no => no
      | read data => rw [List.mem_singleton.mp reported]; exact fun no => no
      | established status =>
        have other : found ≠ some id := by simpa [callbackDecision] using quiet
        simp only [handleOutputs] at reported
        split at reported
        · cases reported
        · split at reported
          · cases reported
          · rw [List.mem_singleton.mp reported]
            exact fun same => other (by rw [same])
      | closed =>
        have other : found ≠ some id := by simpa [callbackDecision] using quiet
        simp only [handleOutputs] at reported
        split at reported
        · split at reported
          · rw [List.mem_singleton.mp reported]
            exact fun same => other (by rw [same])
          · cases reported
        · cases reported
      | drop =>
        have other : found ≠ some id := by simpa [callbackDecision] using quiet
        simp only [handleOutputs] at reported
        split at reported
        · split at reported
          · rw [List.mem_singleton.mp reported]
            exact fun same => other (by rw [same])
          · cases reported
        · cases reported
      | connectionError message =>
        have other : found ≠ some id := by simpa [callbackDecision] using quiet
        rw [List.mem_singleton.mp reported]
        cases found with
        | none => exact fun no => no
        | some id' => exact fun same => other (by rw [same])

theorem outputs_established {s : ClientState} {wsi id : Nat} {status : Int}
    (own : callbackSession s (.callback wsi (.established status)) = some id)
    (accepted : status = 0 ∨ 200 ≤ status ∧ status ≤ 599) :
    ∃ redirected, clientOutputs s (.callback wsi (.established status))
      = [.onResponse id status redirected] := by
  rw [clientOutputs_callback]
  simp only [callbackSession] at own
  split at own
  · cases own
  · rename_i skips
    have inRange : ¬(status ≠ 0 ∧ (status < 200 ∨ status > 599)) := by omega
    rw [if_neg skips, own]
    exact ⟨_, if_neg inRange⟩

theorem outputs_failed {s : ClientState} {event : ClientEvent} {id : Nat} {r : ClientSession}
    (own : callbackSession s event = some id) (failing : callbackDecision event = some .failed)
    (record : s.records[id]? = some r) (unestablished : r.established = false) :
    ∃ message, clientOutputs s event = [.onError (some id) message] := by
  cases event with
  | connect headers body => cases failing
  | callback wsi callback =>
    rw [clientOutputs_callback]
    simp only [callbackSession] at own
    split at own
    · cases own
    · rename_i skips
      rw [if_neg skips, own]
      cases callback with
      | closed => exact ⟨"closed".toList, by simp [handleOutputs, record, unestablished]⟩
      | drop => exact ⟨"dropped".toList, by simp [handleOutputs, record, unestablished]⟩
      | connectionError message => exact ⟨message, rfl⟩
      | _ => cases failing

/-! ## The `established` flag -/

/-- The flag of a session. -/
def establishedFlag (s : ClientState) (id : Nat) : Option Bool :=
  s.records[id]?.map (·.established)

theorem flag_update {s : ClientState} {id' : Nat} {change : ClientSession → ClientSession}
    (keeps : ∀ r, (change r).established = r.established) (id : Nat) :
    establishedFlag (s.update id' change) id = establishedFlag s id := by
  simp only [establishedFlag, update, List.getElem?_modify]
  cases s.records[id]? with
  | none => rfl
  | some r =>
    by_cases same : id' = id
    · simp [same, keeps]
    · simp [same]

theorem flag_finish (s : ClientState) (id' : Nat) (outcome : SessionOutcome) (id : Nat) :
    establishedFlag (s.finish id' outcome) id = establishedFlag s id := flag_update (by intro; rfl) id

theorem flag_onWriteable (s : ClientState) (wsi id' amount id : Nat) :
    establishedFlag (s.onWriteable wsi id' amount) id = establishedFlag s id := by
  have queued : establishedFlag (match s.records[id']? with
      | some { body := some body, .. } =>
        (s.output [.write wsi body]).update id' ({ · with body := none })
      | _ => s) id = establishedFlag s id := by
    split
    · exact flag_update (by intro; rfl) id
    · rfl
  simp only [onWriteable]
  split
  · exact queued
  · exact queued

theorem flag_onClosed (s : ClientState) (id' id : Nat) :
    establishedFlag (s.onClosed id') id = establishedFlag s id := by
  unfold onClosed
  split
  · rfl
  · split
    · exact flag_finish s id' _ id
    · split
      · rw [flag_finish, flag_update (by intro; rfl)]
      · rfl

theorem flag_onDrop (s : ClientState) (id' id : Nat) :
    establishedFlag (s.onDrop id') id = establishedFlag s id := by
  unfold onDrop
  split
  · rfl
  · split
    · exact flag_finish s id' _ id
    · split
      · exact flag_finish s id' _ id
      · rfl

/-- Only an `established` callback that found the session changes its flag. -/
theorem flag_handle {s : ClientState} {wsi : Nat} {found : Option Nat} {callback : ClientCallback}
    {id : Nat} (other : found ≠ some id ∨ ∀ status, callback ≠ .established status) :
    establishedFlag (s.handle wsi found callback) id = establishedFlag s id := by
  rcases other with other | other
  · simp only [establishedFlag, handle_frame other]
  · cases found with
    | none => cases callback <;> rfl
    | some id' =>
      cases callback with
      | established status => exact absurd rfl (other status)
      | instantiated => rfl
      | appendHandshakeHeader =>
        simp only [handle]
        split <;> rfl
      | writeable amount => exact flag_onWriteable s wsi id' amount id
      | redirect => exact flag_update (by intro; rfl) id
      | read data => exact flag_update (by intro; rfl) id
      | completed =>
        simp only [handle]
        rw [flag_finish, flag_update (by intro; rfl)]
        rfl
      | closed => exact flag_onClosed (s.forget wsi) id' id
      | drop => exact flag_onDrop (s.forget wsi) id' id
      | connectionError message => exact flag_finish (s.forget wsi) id' _ id

theorem flag_isSome_handle (s : ClientState) (wsi : Nat) (found : Option Nat)
    (callback : ClientCallback) (id : Nat) (known : (establishedFlag s id).isSome) :
    (establishedFlag (s.handle wsi found callback) id).isSome := by
  by_cases est : ∃ status, callback = .established status
  · obtain ⟨status, rfl⟩ := est
    cases found with
    | none => exact known
    | some id' =>
      simp only [handle, onEstablished]
      split
      · exact known
      · simpa [establishedFlag, output, update] using known
  · rw [flag_handle (.inr fun status same => est ⟨status, same⟩)]
    exact known

theorem flag_session (s : ClientState) (wsi id : Nat) :
    establishedFlag (s.session wsi).2 id = establishedFlag s id := by
  simp only [establishedFlag, (session_keeps s wsi).1]

theorem flag_clientStep {s : ClientState} {event : ClientEvent} {id : Nat} {flag : Bool}
    (known : establishedFlag s id = some flag)
    (other : callbackSession s event ≠ some id ∨ callbackDecision event ≠ some .established) :
    establishedFlag (clientStep s event) id = some flag := by
  cases event with
  | connect headers body =>
    obtain ⟨r, present, rfl⟩ := Option.map_eq_some_iff.mp known
    have bound : id < s.records.length := (List.getElem?_eq_some_iff.mp present).1
    simp only [establishedFlag, clientStep, connect]
    rw [List.getElem?_append_left bound, present, Option.map_some]
  | callback wsi callback =>
    simp only [clientStep]
    split
    · exact known
    · rename_i skips
      simp only [callbackSession, if_neg skips] at other
      rw [flag_handle, flag_session, known]
      refine other.imp_right ?_
      rintro undecided status rfl
      exact undecided rfl

theorem flag_isSome_clientStep {s : ClientState} (event : ClientEvent) {id : Nat}
    (known : (establishedFlag s id).isSome) : (establishedFlag (clientStep s event) id).isSome := by
  obtain ⟨flag, found⟩ := Option.isSome_iff_exists.mp known
  cases event with
  | connect headers body =>
    rw [flag_clientStep found (.inl (by simp [callbackSession]))]
    rfl
  | callback wsi callback =>
    simp only [clientStep]
    split
    · exact known
    · apply flag_isSome_handle
      rw [flag_session]
      exact known

/-! ## One call -/

namespace FetchState

theorem settle_of_settled {s : FetchState} (settled : s.promise ≠ none) (other : FetchOutcome) :
    s.settle other = s := by
  obtain ⟨outcome, same⟩ := Option.ne_none_iff_exists'.mp settled
  have kept : s.promise.or (some other) = s.promise := by rw [same, Option.some_or]
  rw [settle, kept]

/-- A handler does nothing for another request, without a record and after the settlement. -/
theorem handler_eq {s : FetchState} {o : ClientOutput}
    (idle : (∀ id, s.session = some id → ¬Concerns id o) ∨ s.record = false ∨ s.promise ≠ none) :
    s.handler o = s := by
  have acts : ∀ (id : Nat) (outcome : FetchOutcome), Concerns id o →
      (if s.record && decide (s.session = some id) then s.settle outcome else s) = s := by
    intro id outcome concerned
    split
    · rename_i both
      simp only [Bool.and_eq_true, decide_eq_true_eq] at both
      rcases idle with other | norecord | settled
      · exact absurd concerned (other id both.2)
      · rw [both.1] at norecord
        cases norecord
      · exact settle_of_settled settled outcome
    · rfl
  unfold handler
  split
  · exact acts _ _ rfl
  · exact acts _ _ rfl
  · rfl

theorem foldl_handler {s : FetchState} {outputs : List ClientOutput}
    (idle : (∀ id, s.session = some id → ∀ o ∈ outputs, ¬Concerns id o) ∨
      s.record = false ∨ s.promise ≠ none) : outputs.foldl handler s = s := by
  induction outputs with
  | nil => rfl
  | cons o rest ih =>
    rw [List.foldl_cons, handler_eq, ih]
    · exact idle.imp_left fun other id own o' member => other id own o' (List.mem_cons_of_mem _ member)
    · exact idle.imp_left fun other id own => other id own o List.mem_cons_self

end FetchState

open FetchState

/-- What holds of a call whose events were all prompt. -/
structure FetchInv (s : FetchState) : Prop where
  undecided : s.first = none → s.promise = none
  settled : ∀ d, s.first = some d → SettledAs s.promise (some d) ∨
    (d ≠ .established ∧ s.promise = none ∧
      (s.phase.running = true ∨ ∃ message, s.phase = .threw message))
  terminal : s.terminal = true → s.first ≠ none ∨ s.phase.running = true
  flag : ∀ id, s.session = some id →
    ∃ flag, establishedFlag s.client id = some flag ∧ (flag = true → s.first ≠ none)
  recorded : s.record = true → s.phase = .continued
  listens : s.listening = true → s.record = true
  thrown : ∀ message, s.phase = .threw message → s.first ≠ none

/-- Once `connect()` is over, a decision has settled the promise. -/
theorem FetchInv.settled_of_over {s : FetchState} (inv : FetchInv s) {d : Decision}
    (first : s.first = some d) (stopped : s.phase.running = false)
    (unthrown : ∀ message, s.phase ≠ .threw message) : SettledAs s.promise (some d) := by
  rcases inv.settled d first with settled | ⟨-, -, running | ⟨message, phase⟩⟩
  · exact settled
  · rw [stopped] at running
    cases running
  · exact absurd phase (unthrown message)

/-- There is no record while `connect()` is still inside. -/
theorem FetchInv.unrecorded {s : FetchState} (inv : FetchInv s) (running : s.phase.running = true) :
    s.record = false := by
  cases recorded : s.record with
  | false => rfl
  | true =>
    rw [inv.recorded recorded] at running
    cases running

theorem FetchInv.known {s : FetchState} (inv : FetchInv s) {id : Nat} (mine : s.session = some id) :
    (establishedFlag s.client id).isSome := by
  obtain ⟨flag, present, -⟩ := inv.flag id mine
  exact Option.isSome_iff_exists.mpr ⟨flag, present⟩

theorem FetchInv.settles {s : FetchState} (inv : FetchInv s) : Settles s := by
  intro terminal continued
  have stopped : s.phase.running = false := by rw [continued]; rfl
  have decided : s.first ≠ none := by
    rcases inv.terminal terminal with decided | running
    · exact decided
    · rw [stopped] at running
      cases running
  obtain ⟨d, first⟩ := Option.ne_none_iff_exists'.mp decided
  rw [first]
  exact inv.settled_of_over first stopped (by simp [continued])

theorem fetchInv_start (client : ClientState) (aborted : Option Bool) :
    FetchInv (FetchState.start client aborted) := by
  unfold FetchState.start
  split
  · constructor <;> simp [SettledAs, FetchOutcome.isResponse]
  · constructor <;> simp

theorem callbackDecision_cases (event : ClientEvent) :
    callbackDecision event = none ∨
      (∃ wsi status, event = .callback wsi (.established status) ∧
        callbackDecision event = some .established) ∨
      callbackDecision event = some .failed := by
  cases event with
  | connect headers body => exact .inl rfl
  | callback wsi callback =>
    cases callback with
    | established status => exact .inr (.inl ⟨wsi, status, rfl, rfl⟩)
    | closed => exact .inr (.inr rfl)
    | drop => exact .inr (.inr rfl)
    | connectionError message => exact .inr (.inr rfl)
    | _ => exact .inl rfl

theorem isSome_of_settledAs {promise : Option FetchOutcome} {d : Decision}
    (settled : SettledAs promise (some d)) : ∃ outcome, promise = some outcome := by
  cases d <;> obtain ⟨outcome, same, -⟩ := settled <;> exact ⟨outcome, same⟩

theorem settledAs_rejected {d : Decision} {outcome : FetchOutcome} (failed : d ≠ .established)
    (rejected : outcome.isResponse = false) : SettledAs (some outcome) (some d) := by
  cases d with
  | established => exact absurd rfl failed
  | _ => exact ⟨outcome, rfl, rejected⟩

/-- A decided call is not changed by the calls an event makes on the handlers. -/
theorem idle_of_first {s : FetchState} (inv : FetchInv s) {d : Decision} (first : s.first = some d) :
    s.record = false ∨ s.promise ≠ none := by
  cases recorded : s.record with
  | false => exact .inl rfl
  | true =>
    have continued := inv.recorded recorded
    have settled := inv.settled_of_over first (by rw [continued]; rfl) (by simp [continued])
    obtain ⟨outcome, same⟩ := isSome_of_settledAs settled
    exact .inr (by simp [same])

/-- An event that settles nothing keeps the invariant, if the flag and the notes stay in step. -/
theorem FetchInv.noted {s : FetchState} (inv : FetchInv s) (client : ClientState)
    (wsis : List Nat) (terminal : Bool)
    (ends : terminal = true → s.terminal = true ∨ s.first ≠ none ∨ s.phase.running = true)
    (flag : ∀ id, s.session = some id →
      ∃ flag, establishedFlag client id = some flag ∧ (flag = true → s.first ≠ none)) :
    FetchInv { s with
      client := client
      wsis := wsis
      terminal := terminal } := by
  refine ⟨inv.undecided, inv.settled, ?_, flag, inv.recorded, inv.listens, inv.thrown⟩
  intro ended
  rcases ends ended with before | now
  · exact inv.terminal before
  · exact now

/-- The first decision settles the promise. -/
theorem FetchInv.decided {s : FetchState} (inv : FetchInv s) (client : ClientState)
    (wsis : List Nat) (d : Decision) (terminal : Bool) (outcome : FetchOutcome)
    (right : SettledAs (some outcome) (some d))
    (flag : ∀ id, s.session = some id → (establishedFlag client id).isSome) :
    FetchInv { s with
      client := client
      wsis := wsis
      first := some d
      terminal := terminal
      promise := some outcome } := by
  refine ⟨by simp, ?_, by simp, ?_, inv.recorded, inv.listens, by simp⟩
  · rintro d' ⟨⟩
    exact .inl right
  · intro id own
    obtain ⟨b, present⟩ := Option.isSome_iff_exists.mp (flag id own)
    exact ⟨b, present, by simp⟩

/-- A failure inside `connect()` leaves the promise to what that throws. -/
theorem FetchInv.failedInside {s : FetchState} (inv : FetchInv s) (client : ClientState)
    (wsis : List Nat) (d : Decision) (terminal : Bool) (failed : d ≠ .established)
    (first : s.first = none) (running : s.phase.running = true)
    (flag : ∀ id, s.session = some id → (establishedFlag client id).isSome) :
    FetchInv { s with
      client := client
      wsis := wsis
      first := some d
      terminal := terminal } := by
  refine ⟨by simp, ?_, by simp, ?_, inv.recorded, inv.listens, by simp⟩
  · rintro d' ⟨⟩
    exact .inr ⟨failed, inv.undecided first, .inl running⟩
  · intro id own
    obtain ⟨b, present⟩ := Option.isSome_iff_exists.mp (flag id own)
    exact ⟨b, present, by simp⟩

theorem FetchInv.protocol {s : FetchState} (inv : FetchInv s) (event : ClientEvent)
    (prompt : Prompt s (.protocol event)) : FetchInv (s.protocol event) := by
  have someFlag : ∀ id, s.session = some id →
      (establishedFlag (clientStep s.client event) id).isSome := by
    intro id own
    exact flag_isSome_clientStep _ (inv.known own)
  -- an event that decides nothing here leaves the flag as it was
  have keepsFlag : s.first = none → (callbackDecision event ≠ none → ¬s.ReachedBy event) →
      ∀ id, s.session = some id → ∃ flag,
        establishedFlag (clientStep s.client event) id = some flag ∧ (flag = true → s.first ≠ none) := by
    intro first other id mine
    obtain ⟨flag, present, decided⟩ := inv.flag id mine
    refine ⟨flag, flag_clientStep present ?_, decided⟩
    by_cases undecided : callbackDecision event = none
    · exact .inr (by simp [undecided])
    · exact .inl fun found => other undecided ⟨id, mine, (reaches_iff _ _ _).mpr found⟩
  have quiet : (callbackDecision event ≠ none → ¬s.ReachedBy event) →
      ∀ id, s.session = some id → ∀ o ∈ clientOutputs s.client event, ¬Concerns id o := by
    intro other id mine
    apply quiet_outputs
    by_cases undecided : callbackDecision event = none
    · exact .inr undecided
    · exact .inl fun found => other undecided ⟨id, mine, (reaches_iff _ _ _).mpr found⟩
  unfold FetchState.protocol
  dsimp only
  cases first : s.first with
  | some d =>
    have idle := idle_of_first inv first
    have known : ∀ id, s.session = some id → ∃ flag,
        establishedFlag (clientStep s.client event) id = some flag ∧
          (flag = true → s.first ≠ none) := by
      intro id mine
      obtain ⟨flag, present⟩ := Option.isSome_iff_exists.mp (someFlag id mine)
      exact ⟨flag, present, by simp [first]⟩
    split
    · simp only [Option.some_or]
      rw [foldl_handler (by exact .inr idle), ← first]
      exact inv.noted _ _ _ (fun _ => .inr (.inl (by simp [first]))) known
    · rw [foldl_handler (by exact .inr idle)]
      exact inv.noted _ _ _ .inl known
  | none =>
    have pending := inv.undecided first
    have prompt := prompt first
    split at prompt
    · rename_i own
      obtain ⟨answered, failing, ends⟩ := prompt
      simp only [own, if_true, Option.none_or]
      rcases callbackDecision_cases event with decision | ⟨wsi, status, rfl, decision⟩ | decision
      · have undecided : callbackDecision event ≠ none → ¬s.ReachedBy event :=
          fun decided => absurd decision decided
        rw [foldl_handler (by exact .inl (quiet undecided)), decision, ← first]
        apply inv.noted _ _ _ ?_ (keepsFlag first undecided)
        intro ended
        rcases Bool.or_eq_true_iff.mp ended with before | now
        · exact .inl before
        · exact .inr (.inr ((ends now).resolve_left fun decided => decided decision))
      · obtain ⟨listed, ⟨id, mine, reached⟩, accepted⟩ := answered decision
        obtain ⟨redirected, reports⟩ :=
          outputs_established ((reaches_iff _ _ _).mp reached) accepted
        simp only [reports, List.foldl_cons, List.foldl_nil, FetchState.handler, listed, mine,
          FetchState.settle, pending, Option.none_or, decide_true, Bool.and_self, if_true, decision]
        have decided := inv.decided (clientStep s.client (.callback wsi (.established status)))
          (remaining s.wsis (.callback wsi (.established status))) .established
          (s.terminal || isTerminal (.callback wsi (.established status))) (.response status)
          ⟨_, rfl, rfl⟩ someFlag
        rwa [mine, listed] at decided
      · rcases failing decision with ⟨listed, id, mine, reached⟩ | running
        · have found := (reaches_iff _ _ _).mp reached
          obtain ⟨flag, present, fresh⟩ := inv.flag id mine
          have unestablished : flag = false := by
            cases flag with
            | false => rfl
            | true => exact absurd first (fresh rfl)
          obtain ⟨r, record, same⟩ := Option.map_eq_some_iff.mp present
          obtain ⟨message, reports⟩ := outputs_failed found decision record
            (same.trans unestablished)
          simp only [reports, List.foldl_cons, List.foldl_nil, FetchState.handler, listed, mine,
            FetchState.settle, pending, Option.none_or, decide_true, Bool.and_self, if_true,
            decision]
          have rejects : ∀ outcome : FetchOutcome, outcome.isResponse = false →
              FetchInv { s with
                client := clientStep s.client event
                wsis := remaining s.wsis event
                first := some .failed
                terminal := s.terminal || isTerminal event
                promise := some outcome } :=
            fun outcome rejected => inv.decided _ _ .failed _ outcome ⟨_, rfl, rejected⟩ someFlag
          rw [mine, listed] at rejects
          apply rejects
          split <;> rfl
        · rw [foldl_handler (by exact .inr (.inl (inv.unrecorded running))), decision]
          exact inv.failedInside _ _ .failed _ (by simp) first running someFlag
    · rename_i other
      rw [if_neg other, foldl_handler (by exact .inl (quiet prompt))]
      exact inv.noted _ _ _ .inl (keepsFlag first prompt)

theorem FetchInv.opens {s : FetchState} (inv : FetchInv s) (wsi : Nat) :
    FetchInv (fetchStep s (.opens wsi)) := by
  simp only [fetchStep]
  split
  · exact inv.noted _ _ _ .inl inv.flag
  · exact inv

theorem FetchInv.clientConnect {s : FetchState} (inv : FetchInv s) (headers : List (Text × Text))
    (body : Option (List UInt8)) : FetchInv (fetchStep s (.clientConnect headers body)) := by
  simp only [fetchStep]
  split
  · rename_i reading
    have norecord := inv.unrecorded (by rw [reading]; rfl)
    refine ⟨inv.undecided, ?_, fun _ => .inr rfl, ?_, ?_, inv.listens, ?_⟩
    · intro d first
      rcases inv.settled d first with settled | ⟨failed, pending, -⟩
      · exact .inl settled
      · exact .inr ⟨failed, pending, .inl rfl⟩
    · rintro id ⟨⟩
      exact ⟨false, by simp [establishedFlag, FetchState.clientConnect, connect], by simp⟩
    · intro recorded
      rw [show s.record = true from recorded] at norecord
      cases norecord
    · rintro message ⟨⟩
  · exact inv

theorem FetchInv.clientConnectReturns {s : FetchState} (inv : FetchInv s)
    (prompt : Prompt s .clientConnectReturns) : FetchInv (fetchStep s .clientConnectReturns) := by
  simp only [fetchStep]
  split
  · rename_i connecting
    obtain ⟨first, unended⟩ := prompt connecting
    refine ⟨inv.undecided, ?_, ?_, inv.flag, ?_, inv.listens, ?_⟩
    · intro d decided
      rw [show s.first = some d from decided] at first
      cases first
    · intro ended
      rw [show s.terminal = true from ended] at unended
      cases unended
    · intro recorded
      have continued := inv.recorded recorded
      rw [connecting] at continued
      cases continued
    · rintro message ⟨⟩
  · exact inv

theorem FetchInv.connectThrows {s : FetchState} (inv : FetchInv s) (message : Text) :
    FetchInv (fetchStep s (.connectThrows message)) := by
  simp only [fetchStep]
  split
  · rename_i running
    have decided : (s.noteDecision .threw).first ≠ none := by simp [FetchState.noteDecision]
    refine ⟨fun undecided => absurd undecided decided, ?_, fun _ => .inl decided, ?_, ?_,
      inv.listens, fun _ _ => decided⟩
    · intro d noted
      cases first : s.first with
      | none =>
        simp only [FetchState.noteDecision, first, Option.none_or] at noted
        cases noted
        exact .inr ⟨by simp, inv.undecided first, .inr ⟨message, rfl⟩⟩
      | some d' =>
        simp only [FetchState.noteDecision, first, Option.some_or] at noted
        cases noted
        rcases inv.settled d first with settled | ⟨failed, pending, -⟩
        · exact .inl settled
        · exact .inr ⟨failed, pending, .inr ⟨message, rfl⟩⟩
    · intro id mine
      obtain ⟨flag, present, -⟩ := inv.flag id mine
      exact ⟨flag, present, fun _ => decided⟩
    · intro recorded
      rw [inv.recorded recorded] at running
      cases running
  · exact inv

theorem FetchInv.continuation {s : FetchState} (inv : FetchInv s) :
    FetchInv (fetchStep s .continuation) := by
  simp only [fetchStep, FetchState.continuation]
  split
  · rename_i returned
    have stopped : s.phase.running = false := by rw [returned]; rfl
    refine ⟨inv.undecided, ?_, ?_, inv.flag, fun _ => rfl, fun _ => rfl, ?_⟩
    · exact fun d first => .inl (inv.settled_of_over first stopped (by simp [returned]))
    · intro ended
      refine .inl ((inv.terminal ended).resolve_right ?_)
      simp [stopped]
    · rintro message ⟨⟩
  · rename_i message threw
    have decided := inv.thrown message threw
    refine ⟨fun first => absurd first decided, ?_, fun _ => .inl decided, inv.flag, fun _ => rfl,
      inv.listens, ?_⟩
    · intro d first
      rcases inv.settled d first with settled | ⟨failed, pending, -⟩
      · refine .inl ?_
        rcases isSome_of_settledAs settled with ⟨outcome, same⟩
        simpa [FetchState.settle, same] using settled
      · refine .inl ?_
        have settles : (s.settle (.connectThrew message)).promise = some (.connectThrew message) := by
          simp [FetchState.settle, pending]
        exact settles ▸ settledAs_rejected failed rfl
    · rintro message' ⟨⟩
  · exact inv

/-- The flag of the signal plays no part in the invariant. -/
theorem FetchInv.signalled {s : FetchState} (inv : FetchInv s) (aborted : Option Bool) :
    FetchInv { s with aborted := aborted } :=
  ⟨inv.undecided, inv.settled, inv.terminal, inv.flag, inv.recorded, inv.listens, inv.thrown⟩

theorem FetchInv.abort {s : FetchState} (inv : FetchInv s) (prompt : Prompt s .abort) :
    FetchInv (fetchStep s .abort) := by
  simp only [fetchStep, FetchState.abort]
  split
  · rename_i waiting
    cases first : s.first with
    | none =>
      have pending := inv.undecided first
      rcases prompt waiting first with listening | running
      · simp only [listening, if_true, FetchState.settle, FetchState.noteDecision, first, pending,
          Option.none_or]
        have settled := inv.decided s.client s.wsis .aborted s.terminal .abortError ⟨_, rfl, rfl⟩
          fun _ mine => inv.known mine
        exact listening ▸ settled.signalled (some true)
      · have deaf : s.listening = false := by
          cases listening : s.listening with
          | false => rfl
          | true =>
            rw [inv.recorded (inv.listens listening)] at running
            cases running
        rw [deaf, if_neg Bool.false_ne_true, FetchState.noteDecision, first]
        have noted := inv.failedInside s.client s.wsis .aborted s.terminal (by simp) first running
          fun _ mine => inv.known mine
        exact noted.signalled (some true)
    | some d =>
      have noted : { s.noteDecision .aborted with aborted := some true }
          = { s with aborted := some true } := by
        simp [FetchState.noteDecision, first]
      have fired := inv.signalled (some true)
      rw [noted]
      split
      · rename_i listening
        have settled : s.promise ≠ none := by
          rcases idle_of_first inv first with norecord | settled
          · rw [inv.listens listening] at norecord
            cases norecord
          · exact settled
        rwa [settle_of_settled (by exact settled)]
      · exact fired
  · exact inv

theorem FetchInv.step {s : FetchState} (inv : FetchInv s) (event : FetchEvent)
    (prompt : Prompt s event) : FetchInv (fetchStep s event) := by
  cases event with
  | connectThrows message => exact inv.connectThrows message
  | clientConnect headers body => exact inv.clientConnect headers body
  | opens wsi => exact inv.opens wsi
  | clientConnectReturns => exact inv.clientConnectReturns prompt
  | continuation => exact inv.continuation
  | abort => exact inv.abort prompt
  | protocol event => exact inv.protocol event prompt

/-! ## Settled once -/

theorem promise_handler {s : FetchState} {outcome : FetchOutcome} (settled : s.promise = some outcome)
    (outputs : List ClientOutput) : (outputs.foldl handler s).promise = some outcome := by
  rw [foldl_handler (.inr (.inr (by simp [settled])))]
  exact settled

theorem promise_step {s : FetchState} {outcome : FetchOutcome} (settled : s.promise = some outcome)
    (event : FetchEvent) : (fetchStep s event).promise = some outcome := by
  cases event with
  | connectThrows message => simp only [fetchStep]; split <;> exact settled
  | clientConnect headers body => simp only [fetchStep]; split <;> exact settled
  | opens wsi => simp only [fetchStep]; split <;> exact settled
  | clientConnectReturns => simp only [fetchStep]; split <;> exact settled
  | continuation =>
    simp only [fetchStep, FetchState.continuation]
    split
    · exact settled
    · simp [FetchState.settle, settled]
    · exact settled
  | abort =>
    simp only [fetchStep, FetchState.abort]
    split
    · split
      · simp [FetchState.settle, FetchState.noteDecision, settled]
      · exact settled
    · exact settled
  | protocol event =>
    apply promise_handler
    dsimp only
    split <;> exact settled

/-- In every run of prompt events, for every call, the promise is settled as the first decision
demands once a terminal callback was delivered and `connect()` is over; and it never changes once
it is settled. -/
theorem fetch_settles (client : ClientState) (aborted : Option Bool) (events : List FetchEvent)
    (prompt : Along fetchStep Prompt (FetchState.start client aborted) events) :
    Settles (runFrom fetchStep (FetchState.start client aborted) events) ∧
      ∀ outcome more,
        (runFrom fetchStep (FetchState.start client aborted) events).promise = some outcome →
          (runFrom fetchStep (FetchState.start client aborted) (events ++ more)).promise
            = some outcome := by
  have reached : FetchInv (runFrom fetchStep (FetchState.start client aborted) events) :=
    run_invariant_along (fun _ event inv prompt => inv.step event prompt) events
      _ (fetchInv_start client aborted) prompt
  refine ⟨reached.settles, ?_⟩
  intro outcome more settled
  rw [runFrom_append]
  exact @run_invariant _ _ fetchStep (fun s => s.promise = some outcome)
    (fun _ event settled => promise_step settled event) more _ settled

/-- A request whose response arrives after the continuation of `connect()` resolves, also on the
connection libwebsockets opens for a redirect. -/
theorem fetch_settles_response :
    Settles (runFrom fetchStep (FetchState.start .fresh (some false))
      [.clientConnect [] none, .opens 1, .clientConnectReturns, .continuation,
        .protocol (.callback 1 .redirect), .protocol (.callback 1 .drop), .opens 2,
        .protocol (.callback 2 (.established 200)), .protocol (.callback 2 .completed)]) := by
  refine (fetch_settles .fresh (some false) _ ?_).1
  refine ⟨trivial, trivial, fun _ => ⟨rfl, rfl⟩, trivial, ?_, ?_, trivial, ?_, ?_, trivial⟩
  · exact fun _ => ⟨fun no => (by cases no), fun no => (by cases no), fun no => (by cases no)⟩
  · -- the drop of the redirected connection is not the request's
    rintro - - ⟨id, -, swallowed, -⟩
    exact swallowed ⟨rfl, rfl⟩
  · exact fun _ => ⟨fun _ => ⟨rfl, ⟨0, rfl, by simp, .inr ⟨rfl, rfl⟩⟩, .inr (by decide)⟩,
      fun no => (by cases no), fun no => (by cases no)⟩
  · exact fun undecided => (by cases undecided)

/-- The promise stays pending after a connection error that lws reports inside `clientConnect`,
and after a drop of the new connection that comes before the drop of the redirected one. -/
theorem fetch_stays_pending :
    ¬Settles (runFrom fetchStep (FetchState.start .fresh none)
      [.clientConnect [] none, .opens 1,
        .protocol (.callback 1 (.connectionError "refused".toList)),
        .clientConnectReturns, .continuation]) ∧
    ¬Settles (runFrom fetchStep (FetchState.start .fresh none)
      [.clientConnect [] none, .opens 1, .clientConnectReturns, .continuation,
        .protocol (.callback 1 .redirect), .opens 2, .protocol (.callback 2 .instantiated),
        .protocol (.callback 2 .drop)]) := by
  constructor
  · intro settles
    obtain ⟨outcome, settled, -⟩ := settles (by decide) (by decide)
    cases settled
  · intro settles
    obtain ⟨outcome, settled, -⟩ := settles (by decide) (by decide)
    cases settled

end QjsLws.Client
