import QjsLws.Events.Proofs.AbortAny

/-!
# The law of signals

What the state of all signals keeps from call to call, as long as the calls are careful, and from it the
law: a signal is aborted exactly if its own controller or a source was, with the reason of the first
abort, and nothing is called twice.
-/

namespace QjsLws.Events

open QjsLws.Misc

variable {s t : AbortState} {x y c d k : Nat} {reason : Reason} {before before' : List AbortOp}

/-! ## What calls keep -/

/-- The controller was aborted. -/
def Requested (before : List AbortOp) (c : Nat) : Prop :=
  ∃ first reason after, before = first ++ .abort c reason :: after ∧
    (aborting first).controls c = true

/-- What holds after careful calls. -/
structure AbortInv (before : List AbortOp) (s : AbortState) : Prop where
  settled : Settled s
  controllers : ∀ (y : Nat) a, s.signals[y]? = some a → a.derived = false → a.inputs = []
  reasons : ∀ (y : Nat) a, s.signals[y]? = some a → a.aborted = true → a.reason.isSome = true
  registered : ∀ (y : Nat) a r t, s.signals[y]? = some a → .user r t ∈ a.listeners →
    r < s.registrations
  calls : ∀ call ∈ s.calls, ∃ (r y : Nat) (a : Signal) (t : Bool), call = .listener r ∧
    s.signals[y]? = some a ∧ .user r t ∈ a.listeners ∧ a.aborted = true
  nodup : s.calls.Nodup
  known : ∀ c, Requested before c → c < s.signals.length
  flag : ∀ y < s.signals.length,
    s.isAborted y = true ↔ ∃ c, Requested before c ∧ (c = y ∨ s.Source c y)

/-- Aborted signals stay so, with their reasons. -/
def Lasting (s t : AbortState) : Prop :=
  ∀ (y : Nat) a, s.signals[y]? = some a → a.aborted = true →
    ∃ b, t.signals[y]? = some b ∧ b.aborted = true ∧ b.reason = a.reason

theorem requested_snoc {op : AbortOp} : Requested (before ++ [op]) c ↔
    Requested before c ∨ (∃ reason, op = .abort c reason) ∧ (aborting before).controls c = true := by
  constructor
  · rintro ⟨first, reason, after, same, controls⟩
    rcases snoc_eq_append_cons.mp same with ⟨-, rfl, rfl⟩ | ⟨rest, -, rfl⟩
    · exact .inr ⟨⟨reason, rfl⟩, controls⟩
    · exact .inl ⟨first, reason, rest, rfl, controls⟩
  · rintro (⟨first, reason, after, rfl, controls⟩ | ⟨⟨reason, rfl⟩, controls⟩)
    · exact ⟨first, reason, after ++ [op], by simp, controls⟩
    · exact ⟨before, reason, [], rfl, controls⟩

theorem AbortInv.join {new : Signal} (inv : AbortInv before s) (joined : Joined s t new) (fit : Fit s new)
    (same : ∀ c, Requested before' c ↔ Requested before c) :
    AbortInv before' t ∧ Lasting s t := by
  refine ⟨⟨inv.settled.join joined fit, ?_, ?_, ?_, ?_, ?_, ?_, ?_⟩, ?_⟩
  · intro y b found own
    rcases joined.back found with ⟨a, known, rfl⟩ | ⟨-, rfl⟩
    · exact inv.controllers y a known own
    · exact fit.derived own
  · intro y b found aborted
    rcases joined.back found with ⟨a, known, rfl⟩ | ⟨-, rfl⟩
    · exact inv.reasons y a known aborted
    · exact fit.reason aborted
  · intro y b r u found member
    rw [joined.registrations]
    rcases joined.back found with ⟨a, known, rfl⟩ | ⟨-, rfl⟩
    · rcases List.mem_append.mp member with old | added
      · exact inv.registered y a r u known old
      · obtain ⟨_, _, no⟩ := mem_handlersOn.mp added
        cases no
    · rw [fit.listeners] at member
      cases member
  · intro call member
    rw [joined.calls] at member
    obtain ⟨r, y, a, u, rfl, found, listener, aborted⟩ := inv.calls call member
    exact ⟨r, y, _, u, rfl, joined.old y a found, List.mem_append_left _ listener, aborted⟩
  · rw [joined.calls]
    exact inv.nodup
  · intro c requested
    rw [joined.length]
    exact Nat.lt_succ_of_lt (inv.known c ((same c).mp requested))
  · intro y inside
    simp only [same]
    rw [joined.length] at inside
    rcases Nat.lt_succ_iff_lt_or_eq.mp inside with older | rfl
    · rw [joined.isAborted older, inv.flag y older]
      simp only [joined.source_iff inv.settled older]
    · rw [isAborted_eq joined.last, fit.aborted]
      constructor
      · rintro ⟨x, input, aborted⟩
        obtain ⟨c, requested, reach⟩ := (inv.flag x (fit.smaller x input)).mp aborted
        exact ⟨c, requested, .inr ((joined.source_last inv.settled fit).mpr ⟨x, input, reach⟩)⟩
      · rintro ⟨c, requested, rfl | source⟩
        · exact (Nat.lt_irrefl _ (inv.known _ requested)).elim
        · obtain ⟨x, input, reach⟩ := (joined.source_last inv.settled fit).mp source
          exact ⟨x, input, (inv.flag x (fit.smaller x input)).mpr ⟨c, requested, reach⟩⟩
  · intro y a found aborted
    exact ⟨_, joined.old y a found, aborted, rfl⟩

/-! ### Listeners and `onabort` -/

/-- A signal gets another `onabort`, or a listener of its own. -/
structure Edited (s t : AbortState) (x : Nat) (added : Option Bool) : Prop where
  length : t.signals.length = s.signals.length
  registrations : t.registrations = s.registrations + added.toList.length
  calls : t.calls = s.calls
  signals : ∀ (y : Nat) a, s.signals[y]? = some a → ∃ handler, t.signals[y]? = some { a with
    onabort := handler
    listeners := a.listeners ++
      if x = y then (added.map (AbortListener.user s.registrations)).toList else [] }

theorem Edited.back {added : Option Bool} (edited : Edited s t x added) {b : Signal}
    (found : t.signals[y]? = some b) : ∃ a handler, s.signals[y]? = some a ∧ b = { a with
      onabort := handler
      listeners := a.listeners ++
        if x = y then (added.map (AbortListener.user s.registrations)).toList else [] } := by
  obtain ⟨inside, -⟩ := List.getElem?_eq_some_iff.mp found
  rw [edited.length] at inside
  have known : s.signals[y]? = some s.signals[y] := List.getElem?_eq_getElem inside
  obtain ⟨handler, found'⟩ := edited.signals y _ known
  exact ⟨_, handler, known, Option.some.inj (found.symm.trans found')⟩

theorem mem_added {l : AbortListener} {added : Option Bool} {n : Nat} :
    (l ∈ if x = y then (added.map (AbortListener.user n)).toList else []) ↔
      x = y ∧ ∃ throws, added = some throws ∧ l = .user n throws := by
  by_cases same : x = y
  · rw [if_pos same, Option.mem_toList, Option.map_eq_some_iff]
    simp only [same, true_and]
    exact exists_congr fun throws => and_congr_right fun _ => eq_comm
  · simp [same]

theorem Edited.inputsOf {added : Option Bool} (edited : Edited s t x added) :
    t.inputsOf = s.inputsOf := by
  funext y
  by_cases inside : y < s.signals.length
  · have known : s.signals[y]? = some s.signals[y] := List.getElem?_eq_getElem inside
    obtain ⟨handler, found⟩ := edited.signals y _ known
    rw [inputsOf_eq found, inputsOf_eq known]
  · have outside := Nat.le_of_not_lt inside
    rw [AbortState.inputsOf, AbortState.inputsOf, List.getElem?_eq_none_iff.mpr outside,
      List.getElem?_eq_none_iff.mpr (by rw [edited.length]; exact outside)]

theorem AbortInv.edit {added : Option Bool} (inv : AbortInv before s) (edited : Edited s t x added)
    (same : ∀ c, Requested before' c ↔ Requested before c) :
    AbortInv before' t ∧ Lasting s t := by
  have source : t.Source = s.Source := by
    rw [AbortState.Source, edited.inputsOf]
    rfl
  have fresh : ∀ {y r : Nat} {a : Signal} {u : Bool}, s.signals[y]? = some a →
      .user r u ∈ a.listeners → r ≠ s.registrations :=
    fun known member => Nat.ne_of_lt (inv.registered _ _ _ _ known member)
  refine ⟨⟨⟨?_, ?_, ?_, ?_, ?_, ?_⟩, ?_, ?_, ?_, ?_, ?_, ?_, ?_⟩, ?_⟩
  · intro d b found z input
    obtain ⟨a, handler, known, rfl⟩ := edited.back found
    exact inv.settled.smaller d a known z input
  · intro z w b b' r u v found found' member member'
    obtain ⟨a, handler, known, rfl⟩ := edited.back found
    obtain ⟨a', handler', known', rfl⟩ := edited.back found'
    rcases List.mem_append.mp member with old | new
    · rcases List.mem_append.mp member' with old' | new'
      · exact inv.settled.own z w a a' r u v known known' old old'
      · obtain ⟨-, _, -, eq⟩ := mem_added.mp new'
        injection eq with eq
        exact (fresh known old eq).elim
    · obtain ⟨rfl, throws, here, eq⟩ := mem_added.mp new
      injection eq with eq eqU
      rcases List.mem_append.mp member' with old' | new'
      · exact (fresh known' old' eq).elim
      · obtain ⟨rfl, throws', here', eq'⟩ := mem_added.mp new'
        injection eq' with _ eqV
        rw [here] at here'
        injection here' with eqT
        exact ⟨rfl, by rw [eqU, eqV, eqT]⟩
  · intro z b found
    obtain ⟨a, handler, known, rfl⟩ := edited.back found
    refine List.nodup_append.mpr ⟨inv.settled.nodup z a known, ?_, ?_⟩
    · split
      · cases added with
        | none => exact List.nodup_nil
        | some throws => exact List.nodup_singleton _
      · exact List.nodup_nil
    · rintro l old _ new rfl
      obtain ⟨-, throws, -, rfl⟩ := mem_added.mp new
      exact fresh known old rfl
  · intro d b found live
    obtain ⟨a, handler, known, rfl⟩ := edited.back found
    refine (inv.settled.independent d a known live).imp fun independent => ?_
    rw [AbortState.Independent, source]
    exact independent
  · intro d b found live z input
    obtain ⟨a, handler, known, rfl⟩ := edited.back found
    obtain ⟨e, k, foundZ, alive, stored, listener⟩ := inv.settled.live d a known live z input
    obtain ⟨handler', foundZ'⟩ := edited.signals z e foundZ
    exact ⟨_, k, foundZ', alive, stored, List.mem_append_left _ listener⟩
  · intro z b d k found listener
    obtain ⟨a, handler, known, rfl⟩ := edited.back found
    rcases List.mem_append.mp listener with old | new
    · obtain ⟨e, foundD, alive, input, stored⟩ := inv.settled.forwards z a d k known old
      obtain ⟨handler', foundD'⟩ := edited.signals d e foundD
      exact ⟨_, foundD', alive, input, stored⟩
    · obtain ⟨-, _, -, no⟩ := mem_added.mp new
      cases no
  · intro y b found own
    obtain ⟨a, handler, known, rfl⟩ := edited.back found
    exact inv.controllers y a known own
  · intro y b found aborted
    obtain ⟨a, handler, known, rfl⟩ := edited.back found
    exact inv.reasons y a known aborted
  · intro y b r u found member
    obtain ⟨a, handler, known, rfl⟩ := edited.back found
    rw [edited.registrations]
    rcases List.mem_append.mp member with old | new
    · exact Nat.lt_of_lt_of_le (inv.registered y a r u known old) (Nat.le_add_right _ _)
    · obtain ⟨-, throws, rfl, eq⟩ := mem_added.mp new
      injection eq with eq
      rw [eq]
      exact Nat.lt_succ_self _
  · intro call member
    rw [edited.calls] at member
    obtain ⟨r, y, a, u, rfl, found, listener, aborted⟩ := inv.calls call member
    obtain ⟨handler, found'⟩ := edited.signals y a found
    exact ⟨r, y, _, u, rfl, found', List.mem_append_left _ listener, aborted⟩
  · rw [edited.calls]
    exact inv.nodup
  · intro c requested
    rw [edited.length]
    exact inv.known c ((same c).mp requested)
  · intro y inside
    rw [edited.length] at inside
    have known : s.signals[y]? = some s.signals[y] := List.getElem?_eq_getElem inside
    obtain ⟨handler, found⟩ := edited.signals y _ known
    have flags := inv.flag y inside
    rw [isAborted_eq known] at flags
    rw [isAborted_eq found, source]
    simp only [same]
    exact flags
  · intro y a found aborted
    obtain ⟨handler, found'⟩ := edited.signals y a found
    exact ⟨_, found', aborted, rfl⟩

/-! ### Aborts -/

theorem Cascade.lasting {R : Nat → Prop} {queue : List AbortListener}
    (cascade : Cascade s t R reason queue) : Lasting s t := by
  intro y a found aborted
  obtain ⟨b, found', -, same | new⟩ := cascade.signals y a found
  · exact ⟨b, found', same.1.trans aborted, same.2⟩
  · rw [new.2.1] at aborted
    cases aborted

theorem AbortInv.abort (inv : AbortInv before s) {a : Signal} (found : s.signals[c]? = some a)
    (own : a.derived = false) (live : a.aborted = false) (quiet : Quiet s c)
    (same : ∀ y, Requested before' y ↔ Requested before y ∨ y = c) (reason : Reason) :
    ∃ t, Ends (AbortState.abortSignal s.signals.length c reason s) t a.listeners ∧
      (AbortInv before' t ∧ Lasting s t) ∧
        ∀ (y : Nat) b, s.signals[y]? = some b → b.aborted = false → c = y ∨ s.Source c y →
          ∃ b', t.signals[y]? = some b' ∧ b'.aborted = true ∧ b'.reason = some reason := by
  obtain ⟨t, ends, cascade, flagged, wired⟩ := abortSignal_spec s.signals.length _ _ s c a reason
    inv.settled (fun _ no => no.elim) found live (Nat.le_add_left _ _) quiet
  -- a controller is not made of other signals, so nothing else has a handler of its own
  have settled : Settled t := by
    refine { wired with forwards := ?_ }
    intro z b d k foundZ listener
    obtain ⟨e, foundD, alive, input, handler⟩ := wired.forwards z b d k foundZ listener
    refine ⟨e, foundD, alive.imp_right fun stale => ?_, input, handler⟩
    obtain rfl := stale.resolve_left id
    obtain ⟨e', known, kept, -⟩ := cascade.back foundD
    obtain rfl : a = e' := Option.some.inj (found.symm.trans known)
    rw [kept.inputs, inv.controllers d a found own] at input
    cases input
  have reached : ∀ y, c = y ∨ s.Source c y → t.isAborted y = true := by
    rintro y (rfl | source)
    · exact flagged
    · rw [← cascade.source] at source
      exact settled.isAborted source flagged
  refine ⟨t, ends, ⟨⟨settled, ?_, ?_, ?_, ?_, ?_, ?_, ?_⟩, cascade.lasting⟩, ?_⟩
  · intro y b foundB own
    obtain ⟨e, known, kept, -⟩ := cascade.back foundB
    rw [kept.inputs]
    exact inv.controllers y e known (kept.derived ▸ own)
  · intro y b foundB aborted
    obtain ⟨e, known, -, stays | new⟩ := cascade.back foundB
    · rw [stays.2]
      exact inv.reasons y e known (stays.1 ▸ aborted)
    · rw [new.2.2.2]
      rfl
  · intro y b r u foundB member
    obtain ⟨e, known, kept, -⟩ := cascade.back foundB
    rw [cascade.registrations]
    exact inv.registered y e r u known (kept.fewer.subset member)
  · intro call member
    obtain ⟨new, calls, -, from_⟩ := cascade.calls
    rw [calls] at member
    rcases List.mem_append.mp member with old | member
    · obtain ⟨r, y, e, u, rfl, known, listener, aborted⟩ := inv.calls call old
      obtain ⟨b, foundB, kept, stays | no⟩ := cascade.signals y e known
      · exact ⟨r, y, b, u, rfl, foundB, kept.users r u listener, stays.1.trans aborted⟩
      · rw [no.2.1] at aborted
        cases aborted
    · obtain ⟨r, rfl, ⟨_, no⟩ | ⟨y, e, u, known, listener, -, now⟩⟩ := from_ call member
      · cases no
      · obtain ⟨b, foundB, kept, -⟩ := cascade.signals y e known
        rw [isAborted_eq foundB] at now
        exact ⟨r, y, b, u, rfl, foundB, kept.users r u listener, now⟩
  · obtain ⟨new, calls, nodup, from_⟩ := cascade.calls
    rw [calls]
    refine List.nodup_append.mpr ⟨inv.nodup, nodup, ?_⟩
    rintro call old _ member rfl
    obtain ⟨r, y, e, u, rfl, known, listener, aborted⟩ := inv.calls call old
    obtain ⟨r', eq, ⟨_, no⟩ | ⟨y', e', u', known', listener', unaborted, -⟩⟩ := from_ _ member
    · cases no
    · injection eq with eq
      subst eq
      obtain ⟨rfl, -⟩ := inv.settled.own y y' e e' r u u' known known' listener listener'
      rw [isAborted_eq known, aborted] at unaborted
      cases unaborted
  · intro y requested
    rw [cascade.length]
    rcases (same y).mp requested with old | rfl
    · exact inv.known y old
    · exact (List.getElem?_eq_some_iff.mp found).1
  · intro y inside
    rw [cascade.length] at inside
    simp only [same, cascade.source]
    constructor
    · intro aborted
      by_cases earlier : s.isAborted y = true
      · obtain ⟨e, requested, reach⟩ := (inv.flag y inside).mp earlier
        exact ⟨e, .inl requested, reach⟩
      · obtain ⟨b, foundB, flaggedB⟩ := exists_of_isAborted aborted
        obtain ⟨e, known, -, stays | new⟩ := cascade.back foundB
        · rw [isAborted_eq known, ← stays.1, flaggedB] at earlier
          exact (earlier rfl).elim
        · exact ⟨c, .inr rfl, new.1⟩
    · rintro ⟨e, requested | rfl, reach⟩
      · exact cascade.isAborted ((inv.flag y inside).mpr ⟨e, requested, reach⟩)
      · exact reached y reach
  · intro y b known liveB reach
    obtain ⟨b', foundB, -, stays | new⟩ := cascade.signals y b known
    · have aborted := reached y reach
      rw [isAborted_eq foundB, stays.1, liveB] at aborted
      cases aborted
    · exact ⟨b', foundB, new.2.2.1, new.2.2.2⟩

/-! ### One call -/

theorem requested_other {op : AbortOp} (other : ∀ c reason, op ≠ .abort c reason) (c : Nat) :
    Requested (before ++ [op]) c ↔ Requested before c := by
  rw [requested_snoc]
  exact or_iff_left fun no => no.1.elim fun reason same => other c reason same

theorem AbortInv.idle (inv : AbortInv before s)
    (same : ∀ c, Requested before' c ↔ Requested before c) : AbortInv before' s ∧ Lasting s s := by
  have edited : Edited s s 0 none := by
    refine ⟨rfl, rfl, rfl, fun y a found => ⟨a.onabort, ?_⟩⟩
    simpa using found
  exact inv.edit edited same

theorem AbortInv.normalize (inv : AbortInv before s) (reason : Option Nat) :
    AbortInv before (s.normalize reason).1 := by
  cases reason with
  | some value => exact inv
  | none =>
    exact ⟨inv.settled.of_signals rfl, inv.controllers, inv.reasons, inv.registered, inv.calls,
      inv.nodup, inv.known, inv.flag⟩

theorem normalize_signals (s : AbortState) (reason : Option Nat) :
    (s.normalize reason).1.signals = s.signals := by
  cases reason <;> rfl

theorem exists_of_controls (controls : s.controls c = true) :
    ∃ a, s.signals[c]? = some a ∧ a.derived = false := by
  cases found : s.signals[c]? with
  | none =>
    rw [AbortState.controls, found] at controls
    cases controls
  | some a =>
    rw [AbortState.controls, found] at controls
    exact ⟨a, rfl, by simpa using controls⟩

theorem AbortInv.abortCall (inv : AbortInv before s) (current : aborting before = s)
    {reason : Option Nat} (controls : s.controls c = true) (careful : Careful s (.abort c reason)) :
    ∃ t, (abortCall s (.abort c reason) = .done t ∨
        abortCall s (.abort c reason) = .threw .listener t) ∧
      (AbortInv (before ++ [.abort c reason]) t ∧ Lasting s t) ∧
        ∀ (y : Nat) b, s.signals[y]? = some b → b.aborted = false → c = y ∨ s.Source c y →
          ∃ b', t.signals[y]? = some b' ∧ b'.aborted = true ∧
            b'.reason = some (s.normalize reason).2 := by
  obtain ⟨unaborted, quiet⟩ := careful controls
  obtain ⟨a, found, own⟩ := exists_of_controls controls
  have signals := normalize_signals s reason
  have sources : (s.normalize reason).1.Source = s.Source := by
    rw [AbortState.Source, AbortState.Source]
    simp only [AbortState.inputsOf, signals]
  have quiet₁ : Quiet (s.normalize reason).1 c := by
    rw [Quiet, signals, sources]
    exact quiet
  have same : ∀ y, Requested (before ++ [.abort c reason]) y ↔ Requested before y ∨ y = c := by
    intro y
    rw [requested_snoc]
    refine or_congr_right ⟨?_, ?_⟩
    · rintro ⟨⟨reason', eq⟩, -⟩
      injection eq with eq
      exact eq.symm
    · rintro rfl
      exact ⟨⟨reason, rfl⟩, current.symm ▸ controls⟩
  rw [isAborted_eq found] at unaborted
  obtain ⟨t, ends, kept, reached⟩ := (inv.normalize reason).abort (by rw [signals]; exact found) own
    unaborted quiet₁ same (s.normalize reason).2
  rw [Lasting, signals] at kept
  rw [signals, sources] at reached
  have call : QjsLws.Events.abortCall s (.abort c reason) = AbortState.abortSignal
      (s.normalize reason).1.signals.length c (s.normalize reason).2 (s.normalize reason).1 := by
    rw [QjsLws.Events.abortCall, if_pos controls]
  refine ⟨t, ?_, kept, reached⟩
  rw [call]
  exact ends.imp_right And.left

theorem AbortInv.step (inv : AbortInv before s) (current : aborting before = s) (op : AbortOp)
    (careful : Careful s op) :
    AbortInv (before ++ [op]) (abortStep s op) ∧ Lasting s (abortStep s op) := by
  cases op with
  | newController =>
    have joined : Joined s (withSignal s ⟨false, [], .empty, false, none, none, []⟩)
        ⟨false, [], .empty, false, none, none, []⟩ := joined_withSignal rfl
    refine inv.join joined ?_ (requested_other (by simp))
    exact ⟨by simp, rfl, by simp, by simp, by simp, by simp, by simp, fun _ => rfl⟩
  | any inputs =>
    have other : ∀ c, Requested (before ++ [.any inputs]) c ↔ Requested before c :=
      requested_other (by simp)
    by_cases inside : inputs.all (· < s.signals.length) = true
    · rw [abortStep, QjsLws.Events.abortCall, if_pos inside, Outcome.done_state]
      have within : ∀ x ∈ inputs, x < s.signals.length := by simpa using inside
      rcases careful with ⟨x, rest, rfl, aborted⟩ | ⟨live, pairwise⟩
      · refine inv.join (joined_aborted (within x List.mem_cons_self) aborted) ?_ other
        exact ⟨within, rfl, iff_of_true rfl ⟨x, List.mem_cons_self, aborted⟩, fun _ => rfl, by simp,
          by simp, by simp, by simp⟩
      · have nodup : inputs.Nodup := pairwise.imp And.left
        obtain ⟨handlers, only, present, joined⟩ := joined_live within nodup live
        refine inv.join joined ?_ other
        refine ⟨within, rfl, ?_, by simp, fun y k handler => ⟨rfl, only y k handler⟩,
          fun _ => present, fun _ => pairwise, by simp⟩
        refine iff_of_false (by simp) ?_
        rintro ⟨x, member, aborted⟩
        rw [live x member] at aborted
        cases aborted
    · rw [abortStep, QjsLws.Events.abortCall, if_neg inside, Outcome.done_state]
      exact inv.idle other
  | abort c reason =>
    by_cases controls : s.controls c = true
    · obtain ⟨t, ends, kept, -⟩ := inv.abortCall current controls careful
      rw [abortStep]
      rcases ends with returns | throws
      · rw [returns]
        exact kept
      · rw [throws]
        exact kept
    · rw [abortStep, QjsLws.Events.abortCall, if_neg controls, Outcome.done_state]
      refine inv.idle fun y => ?_
      rw [requested_snoc]
      refine or_iff_left ?_
      rintro ⟨⟨reason', eq⟩, held⟩
      injection eq with eq
      rw [current, ← eq] at held
      exact controls held
  | addEventListener x throws =>
    have edited : Edited s (abortStep s (.addEventListener x throws)) x (some throws) := by
      refine ⟨length_update .., rfl, rfl, fun y a found => ⟨a.onabort, ?_⟩⟩
      change (s.update x _).signals[y]? = _
      rw [getElem?_update, found]
      by_cases same : x = y
      · simp [same]
      · simp [same]
    exact inv.edit edited (requested_other (by simp))
  | setOnabort x handler =>
    have edited : Edited s (abortStep s (.setOnabort x handler)) x none := by
      refine ⟨length_update .., rfl, rfl, fun y a found => ?_⟩
      refine ⟨if x = y then handler else a.onabort, ?_⟩
      change (s.update x _).signals[y]? = _
      rw [getElem?_update, found]
      by_cases same : x = y
      · simp [same]
      · simp [same]
    exact inv.edit edited (requested_other (by simp))

/-! ## The law -/

theorem aborting_append (first second : List AbortOp) :
    aborting (first ++ second) = runFrom abortStep (aborting first) second := runFrom_append ..

theorem abortInv_fresh : AbortInv [] .fresh := by
  have nothing : ∀ c, ¬Requested [] c := by
    rintro c ⟨first, reason, after, same, -⟩
    simp at same
  have empty : ∀ (y : Nat) a, AbortState.fresh.signals[y]? ≠ some a := by
    intro y a
    simp [AbortState.fresh]
  refine ⟨⟨?_, ?_, ?_, ?_, ?_, ?_⟩, ?_, ?_, ?_, nofun, List.nodup_nil, ?_, nofun⟩
  · exact fun d a found => (empty d a found).elim
  · exact fun x y a b r t u found => (empty x a found).elim
  · exact fun x a found => (empty x a found).elim
  · exact fun d a found => (empty d a found).elim
  · exact fun d a found => (empty d a found).elim
  · exact fun x b d k found => (empty x b found).elim
  · exact fun y a found => (empty y a found).elim
  · exact fun y a found => (empty y a found).elim
  · exact fun y a r t found => (empty y a found).elim
  · exact fun c requested => (nothing c requested).elim

theorem abortInv_of_careful {ops : List AbortOp} (careful : Along abortStep Careful .fresh ops) :
    AbortInv ops (aborting ops) := by
  have kept := run_history (I := fun before s => aborting before = s ∧ AbortInv before s)
    (fun before s op inv careful => ⟨by rw [aborting_append, inv.1]; rfl,
      (inv.2.step inv.1 op careful).1⟩) ops [] .fresh ⟨rfl, abortInv_fresh⟩ careful
  exact kept.2

/-- What is aborted at some time stays as it is. -/
theorem lasting_of_careful {after : List AbortOp}
    (careful : Along abortStep Careful .fresh (before ++ after)) :
    Lasting (aborting before) (aborting (before ++ after)) := by
  obtain ⟨first, second⟩ := (along_append ..).mp careful
  have kept := run_history (I := fun later s => aborting (before ++ later) = s ∧
      AbortInv (before ++ later) s ∧ Lasting (aborting before) s)
    (fun later s op inv careful => by
      obtain ⟨current, inv, lasting⟩ := inv
      obtain ⟨inv', step⟩ := inv.step current op careful
      rw [List.append_assoc] at inv'
      refine ⟨?_, inv', fun y a found aborted => ?_⟩
      · rw [← List.append_assoc, aborting_append, current]
        rfl
      · obtain ⟨b, foundB, abortedB, reasonB⟩ := lasting y a found aborted
        obtain ⟨e, foundE, abortedE, reasonE⟩ := step y b foundB abortedB
        exact ⟨e, foundE, abortedE, reasonE.trans reasonB⟩)
    after [] (aborting before)
    ⟨by rw [List.append_nil], by rw [List.append_nil]; exact abortInv_of_careful first,
      fun y a found aborted => ⟨a, found, aborted, rfl⟩⟩ second
  exact kept.1 ▸ kept.2.2

theorem reasonOf_eq {a : Signal} (found : s.signals[x]? = some a) (known : a.reason = some reason) :
    s.reasonOf x = reason := by
  rw [AbortState.reasonOf, found, Option.bind_some, known]
  rfl

/-- The law holds as long as controllers are aborted once, no `onabort` is set, nothing throws before
its handlers, and `any` is given independent signals. -/
theorem abortContract (ops : List AbortOp) (careful : Along abortStep Careful .fresh ops) :
    AbortContract ops where
  flag y inside := by
    rw [(abortInv_of_careful careful).flag y inside]
    constructor
    · rintro ⟨c, ⟨before, reason, after, same, controls⟩, reach⟩
      exact ⟨before, c, reason, after, same, controls, reach⟩
    · rintro ⟨before, c, reason, after, same, controls, reach⟩
      exact ⟨c, ⟨before, reason, after, same, controls⟩, reach⟩
  reason before c reason after same controls y inside live reach := by
    subst same
    have inv := abortInv_of_careful ((along_append ..).mp careful).1
    obtain ⟨t, ends, -, reached⟩ := inv.abortCall rfl controls ((along_append ..).mp careful).2.1
    have known : (aborting before).signals[y]? = some (aborting before).signals[y] :=
      List.getElem?_eq_getElem inside
    obtain ⟨b, found, aborted, value⟩ := reached y _ known (isAborted_eq known ▸ live) reach
    have next : aborting (before ++ [.abort c reason]) = t := by
      rw [aborting_append, runFrom_cons, runFrom_nil, abortStep]
      rcases ends with returns | throws
      · rw [returns, Outcome.done_state]
      · rw [throws, Outcome.threw_state]
    rw [List.append_cons] at careful ⊢
    obtain ⟨b', found', -, stays⟩ := lasting_of_careful careful y b (next ▸ found) aborted
    exact reasonOf_eq found' (stays.trans value)
  combined before inputs after same within x first := by
    subst same
    have aborted : (aborting before).isAborted x = true := List.find?_some first
    have member := List.mem_of_find?_eq_some first
    have step : Careful (aborting before) (.any inputs) := ((along_append ..).mp careful).2.1
    obtain ⟨z, rest, rfl, abortedZ⟩ | ⟨live, -⟩ := step
    · obtain rfl : z = x := by
        rw [List.find?_cons_of_pos abortedZ] at first
        exact Option.some.inj first
      have joined := @joined_aborted _ _ rest (within z member) aborted
      have next : aborting (before ++ [.any (z :: rest)]) = AbortState.anyFrom
          (aborting before).signals.length 0 (z :: rest)
          (withSignal (aborting before) ⟨true, z :: rest, .empty, false, none, none, []⟩) := by
        have inside : (z :: rest).all (· < (aborting before).signals.length) = true := by
          simpa using within
        rw [aborting_append, runFrom_cons, runFrom_nil, abortStep, QjsLws.Events.abortCall,
          if_pos inside, Outcome.done_state]
        rfl
      rw [List.append_cons] at careful ⊢
      obtain ⟨b, found, flagged, value⟩ :=
        lasting_of_careful careful _ _ (next ▸ joined.last) rfl
      exact ⟨by rw [isAborted_eq found, flagged], reasonOf_eq found value⟩
    · rw [live x member] at aborted
      cases aborted
  calls := (abortInv_of_careful careful).nodup
  throws before op after same := by
    subst same
    have inv := abortInv_of_careful ((along_append ..).mp careful).1
    cases op with
    | abort c reason =>
      by_cases controls : (aborting before).controls c = true
      · obtain ⟨t, ends, -⟩ := inv.abortCall rfl controls ((along_append ..).mp careful).2.1
        rcases ends with returns | throws
        · simp [returns]
        · simp [throws]
      · simp [QjsLws.Events.abortCall, controls]
    | any inputs =>
      rw [QjsLws.Events.abortCall]
      split <;> simp
    | newController | addEventListener _ _ | setOnabort _ _ => simp [QjsLws.Events.abortCall]

theorem abortContract_combined : AbortContract
    [.newController, .newController, .any [0, 1], .addEventListener 2 false, .abort 1 (some 7)] := by
  apply abortContract
  refine ⟨trivial, trivial, .inr ⟨by decide, ?_⟩, trivial, fun _ => ⟨rfl, ?_⟩, trivial⟩
  · -- nothing is made of another signal yet
    have nothing : (aborting [.newController, .newController]).inputsOf = fun _ => [] := by
      funext y
      match y with
      | 0 | 1 | _ + 2 => rfl
    have unrelated : ∀ x y, ¬(aborting [.newController, .newController]).Source x y := by
      intro x y source
      rw [AbortState.Source, nothing] at source
      cases source with
      | single input => cases input
      | tail _ input => cases input
    exact List.pairwise_pair.mpr ⟨by decide, unrelated 0 1, unrelated 1 0⟩
  · intro y signal found _ _
    have quiet : ∀ signal ∈ (aborting [.newController, .newController, .any [0, 1],
        .addEventListener 2 false]).signals, signal.onabort = none ∧
          ∀ l ∈ signal.listeners, l ∈ [.forward 2 0, .forward 2 1, .user 0 false] := by decide
    obtain ⟨none, only⟩ := quiet signal (List.mem_of_getElem? found)
    have users : ∀ r, .user r true ∉ signal.listeners := fun r member => by simpa using only _ member
    refine ⟨none, ?_⟩
    split
    · exact throwsLate_of_none users
    · exact users

/-- `onabort` is called before and after the listeners; a second `abort()` gives another reason; the
clean-up of a signal that was made of an aborted one, after another, throws. -/
theorem abort_again :
    ¬AbortContract [.newController, .setOnabort 0 (some false), .abort 0 none] ∧
    ¬AbortContract [.newController, .abort 0 (some 1), .abort 0 (some 2)] ∧
    ¬AbortContract [.newController, .newController, .abort 1 none, .any [0, 1], .abort 0 none] := by
  refine ⟨fun contract => ?_, fun contract => ?_, fun contract => ?_⟩
  · exact absurd contract.calls (by decide)
  · have stays := contract.reason [.newController] 0 (some 1) [.abort 0 (some 2)] rfl rfl 0 (by decide)
      rfl (.inl rfl)
    exact absurd stays (by decide)
  · exact contract.throws [.newController, .newController, .abort 1 none, .any [0, 1]] (.abort 0 none)
      [] rfl (by decide)

end QjsLws.Events
