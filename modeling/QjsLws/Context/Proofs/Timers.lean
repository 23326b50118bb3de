import Mathlib.Data.List.Nodup
import QjsLws.Context.Timers

/-!
# Lifetime of `ctx.schedule` timers

Expiry, cancel and destroy of a pending timer all retire its record in the same way, and a run
that only cancels pending timers keeps the lists and the memory in step. A call of a `cancel`
function whose record was freed accesses freed memory, and no later operation undoes that.
-/

namespace QjsLws.Context

open QjsLws.Misc

/-- The pending records are the live ones, and the log accounts for every other record. -/
structure TimersOk (s : TimerState) : Prop where
  live : ∀ t, s.records[t]? = some .live ↔ t ∈ s.timers
  nodup : s.timers.Nodup
  sulsNodup : s.suls.Nodup
  scheduled : ∀ t ∈ s.suls, t ∈ s.timers
  order : s.log.Pairwise InOrder
  once : ∀ t, s.log.count (.released t) = if s.records[t]? = some .released then 1 else 0
  finished : ∀ t, .called t ∈ s.log ∨ .cancelled t ∈ s.log → s.records[t]? = some .released
  destroyed : .destroyed ∈ s.log → s.ctx = false
  drained : s.ctx = false → s.timers = []
  untouched : ∀ t, .touched t ∉ s.log

theorem timersOk_new : TimersOk TimerState.new where
  live := by simp [TimerState.new]
  nodup := List.nodup_nil
  sulsNodup := List.nodup_nil
  scheduled := by simp [TimerState.new]
  order := List.Pairwise.nil
  once := by simp [TimerState.new]
  finished := by simp [TimerState.new]
  destroyed := by simp [TimerState.new]
  drained := fun _ => rfl
  untouched := by simp [TimerState.new]

theorem TimersOk.lifetime {s : TimerState} (ok : TimersOk s) : Lifetime s := by
  refine ⟨ok.order, ?_, ok.drained, ok.untouched⟩
  intro t allocated
  rw [ok.once]
  have known := ok.live t
  rw [List.getElem?_eq_getElem allocated] at known ⊢
  cases record : s.records[t] with
  | live => simp [record] at known; simp [known]
  | released => simp [record] at known; simp [known]

/-! ## Retiring a record -/

/-- What expiry, cancel and cleanup do to a pending timer. -/
def retire (s : TimerState) (t : Nat) : TimerState :=
  { s with
    records := s.records.set t .released
    timers := s.timers.erase t
    suls := s.suls.erase t
    log := s.log ++ [.released t] }

@[simp] theorem touch_live {s : TimerState} {t : Nat} (live : s.records[t]? = some .live) :
    s.touch t = s := by simp [TimerState.touch, live]

theorem expire_eq {s : TimerState} {t : Nat} (live : s.records[t]? = some .live)
    (scheduled : t ∈ s.suls) : s.expire t = (retire s t).note (.called t) := by
  simp [TimerState.expire, scheduled, TimerState.timerFire, TimerState.listDel,
    TimerState.release, TimerState.note, TimerState.touch, retire, live]

theorem timerCancel_eq {s : TimerState} {fn t : Nat} {thisVal : Option Nat}
    (named : s.functions[fn]? = some (some t)) (live : s.records[t]? = some .live) :
    s.timerCancel fn thisVal = ((retire s t).note (.cancelled t)).neutralise thisVal := by
  simp [TimerState.timerCancel, named, TimerState.listDel, TimerState.sulCancel,
    TimerState.release, TimerState.note, TimerState.touch, retire, live]

theorem cleanupOne_eq {s : TimerState} {t : Nat} (live : s.records[t]? = some .live)
    (alive : s.ctx = true) : s.cleanupOne t = retire s t := by
  simp [TimerState.cleanupOne, TimerState.listDel, TimerState.sulCancel, TimerState.release,
    TimerState.note, TimerState.touch, retire, live, alive]

theorem records_retire {s : TimerState} {t : Nat} (live : s.records[t]? = some .live) (d : Nat) :
    (retire s t).records[d]? = if d = t then some .released else s.records[d]? := by
  have allocated : t < s.records.length := (List.getElem?_eq_some_iff.mp live).1
  simp only [retire, List.getElem?_set]
  by_cases same : t = d
  · subst same
    simp [allocated]
  · simp [same, Ne.symm same]

/-- The log keeps its order under an entry that is not a call. -/
theorem pairwise_note {log : List TimerEvent} (order : log.Pairwise InOrder) {e : TimerEvent}
    (quiet : ∀ t, e ≠ .called t) : (log ++ [e]).Pairwise InOrder := by
  rw [List.pairwise_append]
  refine ⟨order, List.pairwise_singleton _ _, ?_⟩
  intro a _ b member t called
  rw [List.mem_singleton.mp member] at called
  exact absurd called (quiet t)

theorem TimersOk.retire {s : TimerState} (ok : TimersOk s) {t : Nat} (pending : t ∈ s.timers) :
    TimersOk (retire s t) := by
  have live := (ok.live t).mpr pending
  have records := records_retire live
  constructor
  case live =>
    intro d
    rw [records]
    by_cases same : d = t
    · subst same
      simp [Context.retire, ok.nodup.mem_erase_iff]
    · simp [Context.retire, same, List.mem_erase_of_ne, ok.live d]
  case nodup => exact ok.nodup.erase t
  case sulsNodup => exact ok.sulsNodup.erase t
  case scheduled =>
    intro d member
    obtain ⟨other, listed⟩ := ok.sulsNodup.mem_erase_iff.mp member
    exact ok.nodup.mem_erase_iff.mpr ⟨other, ok.scheduled d listed⟩
  case order => exact pairwise_note ok.order (by simp)
  case once =>
    intro d
    rw [records]
    simp only [Context.retire, List.count_append, List.count_singleton, ok.once]
    by_cases same : d = t
    · subst same
      simp [live]
    · simp [same, Ne.symm same]
  case finished =>
    intro d happened
    rw [records]
    split
    · rfl
    · exact ok.finished d (by simpa [Context.retire] using happened)
  case destroyed =>
    intro member
    exact ok.destroyed (by simpa [Context.retire] using member)
  case drained =>
    intro ended
    have empty : s.timers = [] := ok.drained ended
    simp [empty] at pending
  case untouched =>
    intro d
    simpa [Context.retire] using ok.untouched d

theorem TimersOk.note {s : TimerState} (ok : TimersOk s) {e : TimerEvent}
    (order : (s.log ++ [e]).Pairwise InOrder) (quiet : ∀ t, e ≠ .released t ∧ e ≠ .touched t)
    (finished : ∀ t, e = .called t ∨ e = .cancelled t → s.records[t]? = some .released)
    (ended : e = .destroyed → s.ctx = false) : TimersOk (s.note e) := by
  constructor
  case order => exact order
  case live => exact ok.live
  case nodup => exact ok.nodup
  case sulsNodup => exact ok.sulsNodup
  case scheduled => exact ok.scheduled
  case drained => exact ok.drained
  case once =>
    intro t
    have other : e ≠ .released t := (quiet t).1
    have uncounted : (s.note e).log.count (.released t) = s.log.count (.released t) := by
      simp [TimerState.note, other]
    rw [uncounted]
    exact ok.once t
  case finished =>
    intro t happened
    simp only [TimerState.note, List.mem_append, List.mem_singleton] at happened ⊢
    rcases happened with (old | new) | (old | new)
    · exact ok.finished t (.inl old)
    · exact finished t (.inl new.symm)
    · exact ok.finished t (.inr old)
    · exact finished t (.inr new.symm)
  case destroyed =>
    intro happened
    simp only [TimerState.note, List.mem_append, List.mem_singleton] at happened
    rcases happened with old | new
    · exact ok.destroyed old
    · exact ended new.symm
  case untouched =>
    intro t happened
    simp only [TimerState.note, List.mem_append, List.mem_singleton] at happened
    rcases happened with old | new
    · exact ok.untouched t old
    · exact (quiet t).2 new.symm

theorem TimersOk.neutralise {s : TimerState} (ok : TimersOk s) (thisVal : Option Nat) :
    TimersOk (s.neutralise thisVal) := by
  rcases ok with ⟨h1, h2, h3, h4, h5, h6, h7, h8, h9, h10⟩
  exact ⟨h1, h2, h3, h4, h5, h6, h7, h8, h9, h10⟩

/-! ## Operations -/

theorem TimersOk.schedule {s : TimerState} (ok : TimersOk s) (isFunction : Bool) :
    TimersOk (s.schedule isFunction) := by
  unfold TimerState.schedule
  split
  · rename_i allowed
    have alive : s.ctx = true := by
      rw [Bool.and_eq_true] at allowed
      exact allowed.1
    have fresh : s.records.length ∉ s.timers := by
      intro member
      have live := (ok.live _).mpr member
      simp at live
    constructor
    case live =>
      intro t
      dsimp only
      rw [List.getElem?_append, List.mem_cons, ← ok.live]
      by_cases old : t < s.records.length
      · simp [old, Nat.ne_of_lt old]
      · have absent : s.records[t]? = none := List.getElem?_eq_none (Nat.not_lt.mp old)
        simp only [old, if_false, absent, reduceCtorEq, or_false, List.getElem?_singleton]
        split <;> simp <;> omega
    case nodup => exact List.nodup_cons.mpr ⟨fresh, ok.nodup⟩
    case sulsNodup =>
      apply List.Nodup.append ok.sulsNodup (List.nodup_singleton _)
      intro t listed new
      rw [List.mem_singleton.mp new] at listed
      exact fresh (ok.scheduled _ listed)
    case scheduled =>
      intro t member
      rcases List.mem_append.mp member with old | new
      · exact List.mem_cons_of_mem _ (ok.scheduled t old)
      · rw [List.mem_singleton.mp new]
        exact List.mem_cons_self
    case order => exact ok.order
    case once =>
      intro t
      dsimp only
      rw [ok.once, List.getElem?_append]
      by_cases old : t < s.records.length
      · simp [old]
      · have absent : s.records[t]? = none := List.getElem?_eq_none (Nat.not_lt.mp old)
        simp only [old, if_false, absent, reduceCtorEq, List.getElem?_singleton]
        split <;> simp
    case finished =>
      intro t happened
      have record := ok.finished t happened
      have old : t < s.records.length := (List.getElem?_eq_some_iff.mp record).1
      dsimp only
      rw [List.getElem?_append_left old]
      exact record
    case destroyed => exact ok.destroyed
    case drained =>
      intro ended
      dsimp only at ended
      rw [alive] at ended
      cases ended
    case untouched => exact ok.untouched
  · exact ok

theorem TimersOk.expire {s : TimerState} (ok : TimersOk s) (t : Nat) : TimersOk (s.expire t) := by
  by_cases scheduled : t ∈ s.suls
  · have pending := ok.scheduled t scheduled
    have live := (ok.live t).mpr pending
    have alive : s.ctx ≠ false := by
      intro ended
      rw [ok.drained ended] at pending
      cases pending
    have fresh : ¬(.called t ∈ s.log ∨ .cancelled t ∈ s.log) := by
      intro happened
      rw [ok.finished t happened] at live
      cases live
    rw [expire_eq live scheduled]
    apply (ok.retire pending).note
    · rw [List.pairwise_append]
      refine ⟨(ok.retire pending).order, List.pairwise_singleton _ _, ?_⟩
      intro a earlier b new d called
      rw [List.mem_singleton.mp new] at called
      cases called
      simp only [Context.retire, List.mem_append, List.mem_singleton] at earlier
      refine ⟨?_, ?_, ?_⟩
      · rintro rfl
        exact fresh (.inl (by simpa using earlier))
      · rintro rfl
        exact fresh (.inr (by simpa using earlier))
      · rintro rfl
        exact alive (ok.destroyed (by simpa using earlier))
    · simp
    · intro d same
      have named : t = d := by simpa using same
      rw [records_retire live, if_pos named.symm]
    · simp
  · simpa [TimerState.expire, scheduled] using ok

theorem TimersOk.timerCancel {s : TimerState} (ok : TimersOk s) {fn : Nat}
    (usable : FunctionUsable s fn) (thisVal : Option Nat) : TimersOk (s.timerCancel fn thisVal) := by
  by_cases pointed : ∃ t, s.functions[fn]? = some (some t)
  · obtain ⟨t, named⟩ := pointed
    have live := usable t named
    have pending := (ok.live t).mp live
    rw [timerCancel_eq named live]
    apply TimersOk.neutralise
    apply (ok.retire pending).note
    · exact pairwise_note (ok.retire pending).order (by simp)
    · simp
    · intro d same
      have named : t = d := by simpa using same
      rw [records_retire live, if_pos named.symm]
    · simp
  · unfold TimerState.timerCancel
    split
    · rename_i t named
      exact absurd ⟨t, named⟩ pointed
    · exact ok

/-- The cleanup loop retires every timer of the list it walks. -/
theorem TimersOk.cleanup (pending : List Nat) :
    ∀ {s : TimerState}, TimersOk s → s.ctx = true → s.timers = pending →
      TimersOk (pending.foldl TimerState.cleanupOne s) ∧
        (pending.foldl TimerState.cleanupOne s).timers = [] ∧
        (pending.foldl TimerState.cleanupOne s).ctx = true := by
  induction pending with
  | nil => intro s ok alive listed; exact ⟨ok, listed, alive⟩
  | cons t rest ih =>
    intro s ok alive listed
    have pending : t ∈ s.timers := by simp [listed]
    have live := (ok.live t).mpr pending
    rw [List.foldl_cons, cleanupOne_eq live alive]
    apply ih (ok.retire pending) alive
    simp [Context.retire, listed]

theorem TimersOk.destroy {s : TimerState} (ok : TimersOk s) : TimersOk s.destroy := by
  unfold TimerState.destroy
  split
  · rename_i alive
    obtain ⟨cleaned, empty, -⟩ := TimersOk.cleanup s.timers ok alive rfl
    have stopped : TimersOk { s.timersCleanup with
        ctx := false
        suls := [] } := by
      refine ⟨cleaned.live, cleaned.nodup, List.nodup_nil, by simp, cleaned.order, cleaned.once,
        cleaned.finished, fun _ => rfl, fun _ => empty, cleaned.untouched⟩
    exact stopped.note (pairwise_note stopped.order (by simp)) (by simp) (by simp) (fun _ => rfl)
  · exact ok

theorem TimersOk.step {s : TimerState} (ok : TimersOk s) {op : TimerOp}
    (usable : CancelledPending s op) : TimersOk (timerStep s op) := by
  cases op with
  | schedule isFunction => exact ok.schedule isFunction
  | expire t => exact ok.expire t
  | call fn thisVal => exact ok.timerCancel usable thisVal
  | destroy => exact ok.destroy
  | cancel object =>
    simp only [timerStep]
    split
    · rename_i fn held
      exact ok.timerCancel (usable fn held) _
    · exact ok

/-! ## Freed records -/

/-- Some freed record was accessed. -/
def Touched (s : TimerState) : Prop := ∃ t, .touched t ∈ s.log

/-- The log only grows. -/
theorem log_touch (s : TimerState) (t : Nat) : s.log <+: (s.touch t).log := by
  unfold TimerState.touch
  split
  · exact List.prefix_refl _
  · exact List.prefix_append _ _

theorem log_listDel (s : TimerState) (t : Nat) : s.log <+: (s.listDel t).log := log_touch s t

theorem log_sulCancel (s : TimerState) (t : Nat) : s.log <+: (s.sulCancel t).log := log_touch s t

theorem log_note (s : TimerState) (e : TimerEvent) : s.log <+: (s.note e).log :=
  List.prefix_append _ _

theorem log_release (s : TimerState) (t : Nat) : s.log <+: (s.release t).log :=
  (log_touch s t).trans (log_note _ _)

theorem log_timerCancel (s : TimerState) (fn : Nat) (thisVal : Option Nat) :
    s.log <+: (s.timerCancel fn thisVal).log := by
  unfold TimerState.timerCancel
  split
  · rename_i t named
    apply (log_listDel s t).trans
    apply (log_sulCancel _ t).trans
    apply (log_touch _ t).trans
    exact (log_release _ t).trans (log_note _ _)
  · exact List.prefix_refl _

theorem log_cleanupOne (s : TimerState) (t : Nat) : s.log <+: (s.cleanupOne t).log := by
  unfold TimerState.cleanupOne
  apply (log_listDel s t).trans
  dsimp only
  split
  · apply (log_sulCancel _ t).trans
    exact (log_touch _ t).trans (log_release _ t)
  · exact (log_touch _ t).trans (log_release _ t)

theorem log_timersCleanup (pending : List Nat) :
    ∀ s : TimerState, s.log <+: (pending.foldl TimerState.cleanupOne s).log := by
  induction pending with
  | nil => intro s; exact List.prefix_refl _
  | cons t rest ih => intro s; exact (log_cleanupOne s t).trans (ih _)

theorem log_step (s : TimerState) (op : TimerOp) : s.log <+: (timerStep s op).log := by
  cases op with
  | schedule isFunction =>
    simp only [timerStep, TimerState.schedule]
    split <;> exact List.prefix_refl _
  | expire t =>
    simp only [timerStep, TimerState.expire]
    split
    · apply (log_touch { s with suls := s.suls.erase t } t).trans
      apply (log_listDel _ t).trans
      exact (log_release _ t).trans (log_note _ _)
    · exact List.prefix_refl _
  | cancel object =>
    simp only [timerStep]
    split
    · exact log_timerCancel _ _ _
    · exact List.prefix_refl _
  | call fn thisVal => exact log_timerCancel s fn thisVal
  | destroy =>
    simp only [timerStep, TimerState.destroy]
    split
    · exact (log_timersCleanup _ s).trans (log_note _ _)
    · exact List.prefix_refl _

theorem Touched.step {s : TimerState} (touched : Touched s) (op : TimerOp) :
    Touched (timerStep s op) := by
  obtain ⟨t, logged⟩ := touched
  exact ⟨t, (log_step s op).subset logged⟩

/-- Calling a `cancel` function whose record was freed accesses it. -/
theorem touched_of_unusable {s : TimerState} {fn : Nat} (thisVal : Option Nat)
    (unusable : ¬FunctionUsable s fn) : Touched (s.timerCancel fn thisVal) := by
  unfold FunctionUsable at unusable
  push Not at unusable
  obtain ⟨t, named, freed⟩ := unusable
  refine ⟨t, ?_⟩
  have first : .touched t ∈ (s.listDel t).log := by
    simp [TimerState.listDel, TimerState.touch, freed, TimerState.note]
  simp only [TimerState.timerCancel, named]
  apply (log_note _ _).subset
  apply (log_release _ t).subset
  apply (log_touch _ t).subset
  exact (log_sulCancel _ t).subset first

theorem touched_of_not_pending {s : TimerState} {op : TimerOp}
    (unusable : ¬CancelledPending s op) : Touched (timerStep s op) := by
  cases op with
  | schedule isFunction => exact absurd trivial unusable
  | expire t => exact absurd trivial unusable
  | destroy => exact absurd trivial unusable
  | call fn thisVal => exact touched_of_unusable thisVal unusable
  | cancel object =>
    simp only [CancelledPending] at unusable
    push Not at unusable
    obtain ⟨fn, held, freed⟩ := unusable
    simp only [timerStep, held]
    exact touched_of_unusable _ freed

theorem Touched.not_lifetime {s : TimerState} (touched : Touched s) : ¬Lifetime s := by
  obtain ⟨t, logged⟩ := touched
  exact fun lifetime => lifetime.untouched t logged

/-- Over every interleaving, the lifetime rules hold exactly when every `cancel` function that
still points to a record is called while that record's timer is pending. -/
theorem lifetime_iff (ops : List TimerOp) :
    Lifetime (runFrom timerStep TimerState.new ops) ↔
      Along timerStep CancelledPending TimerState.new ops :=
  run_iff_along (fun _ _ ok usable => ok.step usable)
    (fun _ _ _ unusable => touched_of_not_pending unusable)
    (fun _ op touched => touched.step op) (fun _ ok => ok.lifetime)
    (fun _ touched => touched.not_lifetime) ops TimerState.new timersOk_new

/-- `timer.cancel()` after the timer expired unlinks and frees the record a second time. -/
theorem cancel_after_expiry :
    ¬Lifetime (runFrom timerStep TimerState.new [.schedule true, .expire 0, .cancel 0]) := by
  intro lifetime
  have once := lifetime.once 0 (by decide)
  revert once
  decide

end QjsLws.Context
