import Mathlib.Data.List.Induction
import QjsLws.WebSocket.CloseTracker

/-!
# Close information, proofs

The tracker remembers what the peer sent and nothing else, so the handler is told of a close that began
here only if the peer answers it with the same values.
-/

namespace QjsLws.WebSocket

open QjsLws.Misc

variable {events before after : List CloseEvent} {w : Nat} {info : CloseInfo}

/-! ## One event -/

theorem pending_closeStep (s : CloseState) (e : CloseEvent) (w : Nat) :
    (closeStep s e).pending.get w =
      match e with
      | .peerClose w' payload =>
        if w' = w then some (peerCloseArguments payload) else s.pending.get w
      | .closed w' => if w' = w then none else s.pending.get w
      | .close .. | .deferred _ => s.pending.get w := by
  cases e with
  | close w' dispatching info => cases dispatching <;> rfl
  | deferred w' => rfl
  | peerClose w' payload => exact Assoc.get_set ..
  | closed w' => exact Assoc.get_erase ..

theorem callsFor_closeStep (s : CloseState) (e : CloseEvent) (w : Nat) :
    (closeStep s e).callsFor w =
      if e = .closed w then s.callsFor w ++ [(s.pending.get w).getD .nothing] else s.callsFor w := by
  cases e with
  | close w' dispatching info =>
    cases dispatching <;> simp [closeStep, CloseState.callsFor, CloseState.update]
  | deferred w' => simp [closeStep, CloseState.callsFor, CloseState.update]
  | peerClose w' payload => simp [closeStep, CloseState.callsFor, CloseState.peerClose]
  | closed w' =>
    by_cases same : w' = w
    · subst same
      simp [closeStep, CloseState.callsFor, CloseState.update, CloseState.onClosed, CloseState.take]
    · simp [closeStep, CloseState.callsFor, CloseState.update, CloseState.onClosed, CloseState.take,
        same]

/-! ## All events -/

theorem Delivered.prefix (delivered : Delivered (before ++ after)) : Delivered before := by
  intro first e rest same
  exact delivered first e (rest ++ after) (by rw [same]; simp)

/-- What is known of a websocket after some events. -/
structure Tracked (events : List CloseEvent) (w : Nat) : Prop where
  opened : .closed w ∉ events → (closing events).callsFor w = [] ∧
    (closing events).pending.get w = events.findSome? (CloseEvent.peerCloseOf w)
  closed : ∀ before after, events = before ++ .closed w :: after →
    (closing events).callsFor w =
      [(before.findSome? (CloseEvent.peerCloseOf w)).getD .nothing]

theorem tracked (events : List CloseEvent) (delivered : Delivered events) (w : Nat) :
    Tracked events w := by
  induction events using List.reverseRecOn with
  | nil => exact ⟨fun _ => ⟨rfl, rfl⟩, fun before after same => by simp at same⟩
  | append_singleton events e ih =>
    have known := ih delivered.prefix
    have last := delivered events e [] rfl
    have next : closing (events ++ [e]) = closeStep (closing events) e := by
      rw [closing, runFrom_append]
      rfl
    refine ⟨fun open_ => ?_, fun before after same => ?_⟩
    · have earlier : .closed w ∉ events := fun member => open_ (List.mem_append_left _ member)
      have other : e ≠ .closed w := fun same => open_ (by simp [same])
      obtain ⟨calls, pending⟩ := known.opened earlier
      rw [next, callsFor_closeStep, if_neg other, pending_closeStep, List.findSome?_append]
      refine ⟨calls, ?_⟩
      cases e with
      | close w' dispatching info => simp [pending, CloseEvent.peerCloseOf]
      | deferred w' => simp [pending, CloseEvent.peerCloseOf]
      | peerClose w' payload =>
        by_cases same : w' = w
        · subst same
          simp [last.2, CloseEvent.peerCloseOf]
        · simp [same, pending, CloseEvent.peerCloseOf]
      | closed w' =>
        have apart : w' ≠ w := fun same => other (by rw [same])
        simp [apart, pending, CloseEvent.peerCloseOf]
    · rw [next, callsFor_closeStep]
      rcases snoc_eq_append_cons.mp same with ⟨-, rfl, rfl⟩ | ⟨rest, -, rfl⟩
      · obtain ⟨calls, pending⟩ := known.opened last
        rw [if_pos rfl, calls, pending]
        rfl
      · have other : e ≠ .closed w := by
          rintro rfl
          exact last (by simp)
        rw [if_neg other]
        exact known.closed before rest rfl

/-! ## The contract -/

/-- Where the peer closed first the first close is the peer's. -/
theorem closeOf_cases (events : List CloseEvent) (w : Nat) :
    events.findSome? (CloseEvent.closeOf w) = events.findSome? (CloseEvent.peerCloseOf w) ∨
      ∃ info, LocalFirst w info events ∧ events.findSome? (CloseEvent.closeOf w) = some info := by
  induction events with
  | nil => exact .inl rfl
  | cons e events ih =>
    have skip : e.closeOf w = none → e.peerCloseOf w = none →
        (e :: events).findSome? (CloseEvent.closeOf w) =
            (e :: events).findSome? (CloseEvent.peerCloseOf w) ∨
          ∃ info, LocalFirst w info (e :: events) ∧
            (e :: events).findSome? (CloseEvent.closeOf w) = some info := by
      intro none nonePeer
      rw [List.findSome?_cons, none, List.findSome?_cons, nonePeer]
      refine ih.imp_right ?_
      rintro ⟨info, ⟨first, dispatching, rest, rfl, others⟩, found⟩
      refine ⟨info, ⟨e :: first, dispatching, rest, rfl, ?_⟩, found⟩
      exact List.forall_mem_cons.mpr ⟨none, others⟩
    cases e with
    | close w' dispatching info =>
      by_cases same : w' = w
      · subst same
        refine .inr ⟨info, ⟨[], dispatching, events, rfl, by simp⟩, ?_⟩
        simp [CloseEvent.closeOf]
      · exact skip (by simp [CloseEvent.closeOf, same]) rfl
    | peerClose w' payload =>
      by_cases same : w' = w
      · subst same
        simp [CloseEvent.closeOf, CloseEvent.peerCloseOf]
      · exact skip (by simp [CloseEvent.closeOf, same]) (by simp [CloseEvent.peerCloseOf, same])
    | deferred w' => exact skip rfl rfl
    | closed w' => exact skip rfl rfl

theorem LocalFirst.closeOf (first : LocalFirst w info events) :
    events.findSome? (CloseEvent.closeOf w) = some info := by
  obtain ⟨early, dispatching, rest, rfl, others⟩ := first
  rw [List.findSome?_append, List.findSome?_eq_none_iff.mpr others]
  simp [CloseEvent.closeOf]

/-- The handler is told the right values exactly if no websocket is closed here first, but where the
peer's frame that follows has the values of that close, or there is none and it has no values. -/
theorem closeContract_iff (events : List CloseEvent) (delivered : Delivered events) :
    CloseContract events ↔ ∀ before w after info, events = before ++ .closed w :: after →
      LocalFirst w info before →
        (before.findSome? (CloseEvent.peerCloseOf w)).getD .nothing = info := by
  constructor
  · intro contract before w after info same first
    have told := contract.reported before w after same
    rw [(tracked events delivered w).closed before after same, first.closeOf] at told
    simpa using told
  · intro condition
    refine ⟨fun before w after same => ?_, fun w absent => ?_⟩
    · rw [(tracked events delivered w).closed before after same]
      rcases closeOf_cases before w with peer | ⟨info, first, found⟩
      · rw [peer]
      · rw [condition before w after info same first, found]
        rfl
    · exact ((tracked events delivered w).opened absent).1

theorem closeContract_peer : CloseContract
    [.peerClose 0 [0x0f, 0xa1, 0x62], .close 0 .callback ⟨some 1000, none⟩, .closed 0] := by
  refine (closeContract_iff _ ?_).mpr ?_
  · intro before e after same
    rcases before with _ | ⟨a, _ | ⟨b, _ | ⟨c, rest⟩⟩⟩
    · obtain ⟨rfl, -⟩ : _ ∧ _ := by simpa using same
      exact ⟨by simp, rfl⟩
    · obtain ⟨-, rfl, -⟩ : _ ∧ _ ∧ _ := by simpa using same
      exact trivial
    · obtain ⟨rfl, rfl, rfl, -⟩ : _ ∧ _ ∧ _ ∧ _ := by simpa using same
      simp
    · simp at same
  · rintro before w after info same ⟨first, dispatching, rest, rfl, others⟩
    rcases first with _ | ⟨a, first⟩
    · simp at same
    · obtain ⟨rfl, tail⟩ : _ ∧ _ := by simpa using same
      -- the first event is a close by the peer of the only websocket
      have only : w = 0 := by
        have member : CloseEvent.closed w ∈
            [CloseEvent.close 0 .callback ⟨some 1000, none⟩, .closed 0] := by
          rw [tail]
          simp
        simpa using member
      have early := others _ List.mem_cons_self
      rw [only] at early
      cases early

/-- A websocket that is closed here is reported without code and reason. -/
theorem local_close_lost : ¬CloseContract
    [.close 0 .no ⟨some 4001, some [0x62, 0x79, 0x65]⟩, .closed 0] := by
  intro contract
  have told := contract.reported [.close 0 .no ⟨some 4001, some [0x62, 0x79, 0x65]⟩] 0 [] rfl
  exact absurd told (by decide)

end QjsLws.WebSocket
