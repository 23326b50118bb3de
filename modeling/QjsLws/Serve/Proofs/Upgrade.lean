import QjsLws.Http.Proofs.Framing
import QjsLws.Serve.Upgrade

/-!
# Upgrade authorization

The hook accepts an upgrade in two ways: its handler upgraded its own `Request`, or it threw,
and the exception was converted to the accept code. As long as no hook throws into an accept,
only the first way is left, and the data follows the wsi.
-/

namespace QjsLws.Serve

open QjsLws.Misc QjsLws.Http

variable {δ : Type}

/-- The data of the upgrade that a callback's handler was granted. -/
def CallbackRecord.granted (record : CallbackRecord δ) : Option δ :=
  (record.calls.find? (·.answer)).map (·.data)

/-- The latest callback of a wsi. -/
def lastCallback (wsi : Nat) (log : List (UpgradeEvent δ)) : Option (CallbackRecord δ) :=
  log.foldl (fun last event =>
    match event with
    | .callback record => if record.wsi = wsi then some record else last
    | _ => last) none

/-- Accept codes, answers and data are what the handlers asked for. -/
structure UpgradeAuthorized (log : List (UpgradeEvent δ)) : Prop where
  acceptedOwn : ∀ record, .callback record ∈ log → record.code = 0 →
    ∃ call ∈ record.calls, call.request = record.request
  grantedOnce : ∀ record, .callback record ∈ log → (record.calls.filter (·.answer)).length ≤ 1
  lateRefused : ∀ request answer, .late request answer ∈ log → answer = false
  dataDelivered : ∀ before wsi data, before ++ [.opened wsi data] <+: log →
    data = (lastCallback wsi before).bind CallbackRecord.granted

/-- The answer to a rejected upgrade can be written synchronously, or is not written at all. -/
def Confirm.Rejectable (c : Confirm δ) : Prop :=
  c.result = .promise ∨ ∃ response, toResponse c.result = .ok response ∧
    (syncResponseBytes response = none ∨
      (∀ bytes, response.body ≠ .view bytes) ∧
        (∀ pair ∈ headerPairs response.headers,
          (normalizeName pair.1).isOk ∧ (normalizeValue pair.2).isOk) ∧
        c.io.attached 0 = true ∧ c.io.respondThrows 0 = none ∧ c.io.attached 1 = true)

/-- The hook does not throw, or the connection is closed already. -/
def HookReturns (s : UpgradeState δ) : UpgradeInput δ → Prop
  | .confirm c => c.closed = true ∨ c.completed = true ∨
      c.peerThrows = none ∧ (∀ e, c.result ≠ .throws e) ∧
        ((∃ call ∈ c.calls, call.1 = s.nextRequest) ∨ c.Rejectable)
  | _ => True

theorem upgradeCalls_decided (pending : Pending δ) (decided : pending.decided = true)
    (calls : List (Nat × δ)) :
    (upgradeCalls (some pending) calls).1 = some pending ∧
      ∀ call ∈ (upgradeCalls (some pending) calls).2, call.answer = false := by
  induction calls with
  | nil => simp [upgradeCalls]
  | cons call calls ih =>
    obtain ⟨request, data⟩ := call
    have refused : upgradeConnection (some pending) request data = (some pending, false) := by
      simp [upgradeConnection, decided]
    simp only [upgradeCalls, refused, List.mem_cons, forall_eq_or_imp, true_and]
    exact ih

/-- The first call for the pending `Request` is granted, no other. -/
theorem upgradeCalls_spec (request : Nat) (calls : List (Nat × δ)) :
    let outcome := upgradeCalls (some ⟨request, false, none, false⟩) calls
    let granted := outcome.2.find? (·.answer)
    outcome.1 = some ⟨request, granted.isSome, granted.map (·.data), granted.isSome⟩ ∧
      (outcome.2.filter (·.answer)).length ≤ 1 ∧
      (∀ call, granted = some call → call.request = request) ∧
      (granted.isSome ↔ ∃ call ∈ calls, call.1 = request) := by
  induction calls with
  | nil => simp [upgradeCalls]
  | cons call calls ih =>
    obtain ⟨target, data⟩ := call
    by_cases own : target = request
    · subst own
      have granted : upgradeConnection (some ⟨target, false, none, false⟩) target data =
          (some ⟨target, true, some data, true⟩, true) := by simp [upgradeConnection]
      obtain ⟨slot, refused⟩ := upgradeCalls_decided ⟨target, true, some data, true⟩ rfl calls
      have none : (upgradeCalls (some ⟨target, true, some data, true⟩) calls).2.filter
          (·.answer) = [] := by
        rw [List.filter_eq_nil_iff]
        intro call member
        simp [refused call member]
      simp [upgradeCalls, granted, slot, none]
    · have refused : upgradeConnection (some ⟨request, false, none, false⟩) target data =
          (some ⟨request, false, none, false⟩, false) := by
        simp [upgradeConnection, Ne.symm own]
      simpa [upgradeCalls, refused, own] using ih

/-- The rejection before its `end`: nothing but headers has been touched. -/
structure Untouched (s : ServerResponse) : Prop where
  headersSent : s.headersSent = false
  ended : s.ended = false
  chunked : s.chunked = false
  calls : s.calls = 0

theorem append_untouched {s : ServerResponse} {name value : Text} (untouched : Untouched s)
    (nameOk : (normalizeName name).isOk) (valueOk : (normalizeValue value).isOk) :
    ∃ t, s.append name value = .done t ∧ Untouched t := by
  obtain ⟨name', nameEq⟩ : ∃ n, normalizeName name = .ok n := by
    cases eq : normalizeName name with
    | ok n => exact ⟨n, rfl⟩
    | error e => simp [eq, Except.isOk, Except.toBool] at nameOk
  obtain ⟨value', valueEq⟩ : ∃ v, normalizeValue value = .ok v := by
    cases eq : normalizeValue value with
    | ok v => exact ⟨v, rfl⟩
    | error e => simp [eq, Except.isOk, Except.toBool] at valueOk
  obtain ⟨headers, changed⟩ : ∃ h, s.headers.append name value = .ok h := by
    simp only [Headers.append, nameEq, valueEq, bind, Except.bind, pure, Except.pure]
    split <;> exact ⟨_, rfl⟩
  refine ⟨{ s with headers, log := s.log ++ [.headersChanged] }, ?_,
    ⟨untouched.1, untouched.2, untouched.3, untouched.4⟩⟩
  simp [ServerResponse.append, ServerResponse.assertOpen, untouched.headersSent,
    ServerResponse.changeHeaders, changed]

theorem appendAll_untouched {pairs : List (Text × Text)}
    (valid : ∀ pair ∈ pairs, (normalizeName pair.1).isOk ∧ (normalizeValue pair.2).isOk) :
    ∀ s, Untouched s → ∃ t, appendAll pairs s = .done t ∧ Untouched t := by
  induction pairs with
  | nil => intro s untouched; exact ⟨s, rfl, untouched⟩
  | cons pair pairs ih =>
    intro s untouched
    obtain ⟨nameOk, valueOk⟩ := valid pair List.mem_cons_self
    obtain ⟨t, appended, untouched⟩ := append_untouched untouched nameOk valueOk
    rw [appendAll, appended, Outcome.done_andThen]
    exact ih (fun p member => valid p (List.mem_cons_of_mem _ member)) t untouched

theorem flushHeaders_returns {s : ServerResponse} {io : Wsi} (untouched : Untouched s)
    (attached : io.attached 0 = true) (responds : io.respondThrows 0 = none) :
    ∃ t, s.flushHeaders io = .done t ∧ t.chunked = false ∧ t.calls = 1 := by
  unfold ServerResponse.flushHeaders
  rw [if_neg (by simp [untouched.headersSent])]
  simp only [ServerResponse.wsiRespond, untouched.calls, attached, responds]
  exact ⟨_, rfl, untouched.chunked, rfl⟩

/-- An `end` with an `ArrayBuffer` makes two calls to the wsi. -/
theorem end_returns {s : ServerResponse} {io : Wsi} {bytes : List UInt8} (untouched : Untouched s)
    (attached : io.attached 0 = true) (responds : io.respondThrows 0 = none)
    (stays : io.attached 1 = true) : (s.end io (some (.arrayBuffer bytes))).thrown = none := by
  have finish : ∀ t, Untouched t →
      ((t.flushHeaders io).andThen fun t => (t.writeFinal io (some (.arrayBuffer bytes))).andThen
        fun t => .done { t with ended := true }).thrown = none := by
    intro t untouched
    obtain ⟨u, flushed, raw, calls⟩ := flushHeaders_returns untouched attached responds
    rw [flushed, Outcome.done_andThen, ServerResponse.writeFinal, if_neg (by simp [raw])]
    simp only [ServerResponse.wsiWrite, Option.getD_some, calls, stays]
    rfl
  unfold ServerResponse.end
  rw [if_neg (by simp [untouched.ended])]
  simp only
  split
  · have length : ServerResponse.lengthText (some (.arrayBuffer bytes)) = decimal bytes.length := by
      simp only [ServerResponse.lengthText, chunkByteLength, Chunk.bytes]
    simp only [ServerResponse.changeHeaders, length, ServerResponse.set_contentLength,
      Outcome.done_andThen]
    exact finish _ ⟨untouched.1, untouched.2, untouched.3, untouched.4⟩
  · exact finish s untouched

theorem rejectHook_returns {c : Confirm δ} (returns : ∀ e, c.result ≠ .throws e)
    (rejectable : c.Rejectable) : ∃ n, rejectHook c = .ok n ∧ n ≠ 0 := by
  unfold rejectHook
  split
  · rename_i e thrown
    exact absurd thrown (returns e)
  · exact ⟨-1, rfl, by decide⟩
  · rename_i pending
    rcases rejectable with promise | ⟨response, converted, written⟩
    · exact absurd promise pending
    simp only [converted]
    split
    · exact ⟨-1, rfl, by decide⟩
    · rename_i bytes sync
      rcases written with streamed | ⟨plain, valid, attached, responds, stays⟩
      · rw [streamed] at sync
        cases sync
      obtain ⟨data, rfl⟩ : ∃ data, bytes = .arrayBuffer data := by
        unfold syncResponseBytes at sync
        split at sync
        · exact ⟨_, (Option.some.inj sync).symm⟩
        · exact ⟨_, (Option.some.inj sync).symm⟩
        · exact ⟨_, (Option.some.inj sync).symm⟩
        · rename_i view
          exact absurd view (plain _)
        all_goals cases sync
      have untouched : Untouched { ServerResponse.fresh with status := response.statusCode } :=
        ⟨rfl, rfl, rfl, rfl⟩
      obtain ⟨t, appended, untouched⟩ := appendAll_untouched valid _ untouched
      have quiet : (reject c.io response (.arrayBuffer data)).thrown = none := by
        simp only [reject, ServerResponse.setStatus, Outcome.done_andThen, appended]
        exact end_returns untouched attached responds stays
      rw [quiet]
      exact ⟨1, rfl, by decide⟩

/-- What holds of the hook's calls, whether it returns or throws. -/
theorem upgradeHook_calls (request : Nat) (c : Confirm δ) :
    ((upgradeHook request c).2.1.filter (·.answer)).length ≤ 1 ∧
      ∀ call, (upgradeHook request c).2.1.find? (·.answer) = some call → call.request = request := by
  obtain ⟨-, once, own, -⟩ := upgradeCalls_spec request c.calls
  unfold upgradeHook
  cases c.peerThrows with
  | some e => simp
  | none =>
    simp only
    split <;> exact ⟨once, own⟩

/-- A hook that can return accepts exactly the upgrade it granted, and stores its data. -/
theorem upgradeHook_returns {request : Nat} {c : Confirm δ} (peer : c.peerThrows = none)
    (returns : ∀ e, c.result ≠ .throws e)
    (decided : (∃ call ∈ c.calls, call.1 = request) ∨ c.Rejectable) :
    ∃ n, (upgradeHook request c).1 = .ok n ∧
      (n = 0 → ∃ call, (upgradeHook request c).2.1.find? (·.answer) = some call ∧
        (upgradeHook request c).2.2 = some call.data) := by
  obtain ⟨slot, -, -, granted⟩ := upgradeCalls_spec request c.calls
  simp only [upgradeHook, peer]
  generalize upgradeCalls (some ⟨request, false, none, false⟩) c.calls = outcome at slot granted
  rw [slot]
  cases found : outcome.2.find? (·.answer) with
  | some call =>
    simp only [Option.isSome_some, Option.map_some]
    exact ⟨0, rfl, fun _ => ⟨call, found, rfl⟩⟩
  | none =>
    have rejectable : c.Rejectable := by
      rcases decided with own | rejectable
      · rw [found] at granted
        exact absurd (granted.mpr own) (by simp)
      · exact rejectable
    obtain ⟨n, eq, nonzero⟩ := rejectHook_returns returns rejectable
    simp only [Option.isSome_none, Option.map_none]
    exact ⟨n, eq, fun zero => absurd zero nonzero⟩

theorem lastCallback_callback (wsi : Nat) (log : List (UpgradeEvent δ))
    (record : CallbackRecord δ) :
    lastCallback wsi (log ++ [.callback record]) =
      if record.wsi = wsi then some record else lastCallback wsi log := by
  simp [lastCallback]

theorem lastCallback_late (wsi : Nat) (log : List (UpgradeEvent δ)) (request : Nat)
    (answer : Bool) : lastCallback wsi (log ++ [.late request answer]) = lastCallback wsi log := by
  simp [lastCallback]

theorem lastCallback_opened (wsi : Nat) (log : List (UpgradeEvent δ)) (other : Nat)
    (data : Option δ) : lastCallback wsi (log ++ [.opened other data]) = lastCallback wsi log := by
  simp [lastCallback]

/-- What the last event of a log has to respect. -/
theorem upgradeAuthorized_snoc {log : List (UpgradeEvent δ)} {event : UpgradeEvent δ}
    (authorized : UpgradeAuthorized log)
    (own : ∀ record, event = .callback record →
      (record.code = 0 → ∃ call ∈ record.calls, call.request = record.request) ∧
        (record.calls.filter (·.answer)).length ≤ 1)
    (late : ∀ request answer, event = .late request answer → answer = false)
    (opened : ∀ wsi data, event = .opened wsi data →
      data = (lastCallback wsi log).bind CallbackRecord.granted) :
    UpgradeAuthorized (log ++ [event]) := by
  refine ⟨?_, ?_, ?_, ?_⟩
  · intro record member
    rcases List.mem_append.mp member with old | new
    · exact authorized.acceptedOwn record old
    · exact (own record (List.mem_singleton.mp new).symm).1
  · intro record member
    rcases List.mem_append.mp member with old | new
    · exact authorized.grantedOnce record old
    · exact (own record (List.mem_singleton.mp new).symm).2
  · intro request answer member
    rcases List.mem_append.mp member with old | new
    · exact authorized.lateRefused request answer old
    · exact late request answer (List.mem_singleton.mp new).symm
  · intro before wsi data le
    rcases List.prefix_concat_iff.mp le with whole | part
    · obtain ⟨rfl, same⟩ := List.append_inj' whole rfl
      exact opened wsi data (List.singleton_inj.mp same).symm
    · exact authorized.dataDelivered before wsi data part

/-- The slot is empty between callbacks, and the stored data is that of the granted upgrades. -/
structure UpgradeInv (s : UpgradeState δ) : Prop where
  pending : s.pendingUpgrade = none
  authorized : UpgradeAuthorized s.log
  stored : ∀ wsi ∈ s.accepted,
    s.wsUpgradeData.get wsi = (lastCallback wsi s.log).bind CallbackRecord.granted

theorem upgradeInv_fresh : UpgradeInv (UpgradeState.fresh : UpgradeState δ) where
  pending := rfl
  authorized := ⟨by simp [UpgradeState.fresh], by simp [UpgradeState.fresh],
    by simp [UpgradeState.fresh], fun before wsi data le => by simp [UpgradeState.fresh] at le⟩
  stored := by simp [UpgradeState.fresh]

/-- What the hook stores is for its own connection. -/
theorem get_stored (s : UpgradeState δ) {wsi wsi' : Nat} (other : wsi ≠ wsi') (stored : Option δ) :
    (match stored with
      | some data => s.wsUpgradeData.set wsi data
      | none => s.wsUpgradeData).get wsi' = s.wsUpgradeData.get wsi' := by
  cases stored with
  | none => rfl
  | some data => exact Assoc.get_set_ne _ _ other

theorem upgradeInv_confirm {s : UpgradeState δ} {c : Confirm δ} (inv : UpgradeInv s)
    (returns : HookReturns s (.confirm c)) : UpgradeInv (upgradeStep s (.confirm c)) := by
  obtain ⟨once, own⟩ := upgradeHook_calls s.nextRequest c
  -- An accept code comes from a granted upgrade whose data the hook has stored.
  have accept : callbackCode c.closed c.completed (upgradeHook s.nextRequest c).1 = 0 →
      ∃ call, (upgradeHook s.nextRequest c).2.1.find? (·.answer) = some call ∧
        (upgradeHook s.nextRequest c).2.2 = some call.data := by
    intro zero
    rcases returns with closed | completed | ⟨peer, returns, decided⟩
    · simp [callbackCode, closed] at zero
    · simp [callbackCode, completed] at zero
    · obtain ⟨n, eq, granted⟩ := upgradeHook_returns peer returns decided
      apply granted
      simp only [callbackCode, eq] at zero
      split at zero
      · cases zero
      · exact zero
  generalize hook : upgradeHook s.nextRequest c = outcome at once own accept
  obtain ⟨result, calls, stored⟩ := outcome
  simp only [upgradeStep, hook]
  refine ⟨rfl, upgradeAuthorized_snoc inv.authorized ?_ (by simp) (by simp), ?_⟩
  · rintro record same
    cases same
    refine ⟨fun zero => ?_, once⟩
    obtain ⟨call, found, -⟩ := accept zero
    exact ⟨call, List.mem_of_find?_eq_some found, own call found⟩
  · intro wsi member
    rw [lastCallback_callback]
    by_cases same : c.wsi = wsi
    · subst same
      have zero : callbackCode c.closed c.completed result = 0 := by
        by_contra nonzero
        rw [if_neg nonzero] at member
        simp at member
      obtain ⟨call, found, rfl⟩ := accept zero
      simp [CallbackRecord.granted, found]
    · refine (get_stored s same stored).trans ?_
      rw [if_neg same]
      apply inv.stored
      simp only at member
      split at member
      · exact (List.mem_cons.mp member).resolve_left (Ne.symm same)
      · exact (List.mem_filter.mp member).1

theorem upgradeInv_step (s : UpgradeState δ) (input : UpgradeInput δ) (inv : UpgradeInv s)
    (returns : HookReturns s input) : UpgradeInv (upgradeStep s input) := by
  cases input with
  | confirm c => exact upgradeInv_confirm inv returns
  | late request data =>
    simp only [upgradeStep, inv.pending, upgradeConnection]
    refine ⟨rfl, upgradeAuthorized_snoc inv.authorized (by simp) ?_ (by simp), ?_⟩
    · intro request answer same
      cases same
      rfl
    · intro wsi member
      rw [lastCallback_late]
      exact inv.stored wsi member
  | opened wsi =>
    simp only [upgradeStep]
    split
    · rename_i member
      refine ⟨inv.pending, upgradeAuthorized_snoc inv.authorized (by simp) (by simp) ?_, ?_⟩
      · intro wsi' data same
        cases same
        exact inv.stored wsi member
      · intro other still
        obtain ⟨still, different⟩ := List.mem_filter.mp still
        rw [lastCallback_opened]
        simp only [Assoc.get_erase_ne _ (Ne.symm (of_decide_eq_true different))]
        exact inv.stored other still
    · exact inv

/-- As long as no hook throws on an open connection, upgrades are authorized. -/
theorem upgrade_authorized (inputs : List (UpgradeInput δ))
    (returns : Along upgradeStep HookReturns .fresh inputs) :
    UpgradeAuthorized (runFrom upgradeStep .fresh inputs).log :=
  (run_invariant_along upgradeInv_step inputs .fresh upgradeInv_fresh returns).authorized

/-- A granted upgrade that opens, and one refused with a 401. -/
theorem upgrade_authorized_two :
    UpgradeAuthorized (runFrom upgradeStep (.fresh : UpgradeState Nat)
      [.confirm ⟨1, none, [(0, 7)], .nullish, .live, false, false⟩, .opened 1,
        .confirm ⟨2, none, [(0, 8)], .response ⟨401, .empty, .string ['n', 'o']⟩, .live, false,
          false⟩]).log :=
  upgrade_authorized _ ⟨.inr (.inr ⟨rfl, by simp, .inl ⟨(0, 7), by simp, rfl⟩⟩), trivial,
    .inr (.inr ⟨rfl, by simp, .inr (.inr ⟨_, rfl, .inr ⟨by simp, by simp [headerPairs,
      Headers.empty], rfl, rfl, rfl⟩⟩)⟩), trivial⟩

/-- A handler that throws instead of upgrading: the exception becomes the accept code. -/
theorem throwing_handler_accepted :
    ¬UpgradeAuthorized (runFrom upgradeStep (.fresh : UpgradeState Nat)
      [.confirm ⟨1, none, [], .throws ⟨"Error".toList, "unauthorized".toList⟩, .live, false,
        false⟩]).log := by
  intro authorized
  have record := authorized.acceptedOwn ⟨1, 0, [], 0⟩ (by decide) rfl
  simp at record

end QjsLws.Serve
