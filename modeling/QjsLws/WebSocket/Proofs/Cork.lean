import QjsLws.WebSocket.Cork
import Mathlib.Data.List.Basic
import Mathlib.Tactic.Tauto

/-!
# Corks that end in order

While corks end in the reverse order of their starts, those that are on form a stack, and every
message still to be written waits in one of their queues, the older ones further down. A cork that
is fulfilled hands its queue down, one that is rejected drops it.
-/

namespace QjsLws.WebSocket

open QjsLws.Misc CorkedSocket

/-- What a cork's life says about the messages it drops. -/
def Cork.life (c : Cork) : Nat × Option (Nat × Ending) := (c.since, c.ended)

/-- The messages queued by a cork. -/
def queueOf (s : CorkedSocket) (k : Nat) : List Nat := (s.corks[k]?.map Cork.queue).getD []

/-- The messages written or waiting, where the corks listed, the newest first, are on. -/
def pending (s : CorkedSocket) : List Nat → List Nat
  | [] => s.written
  | k :: below => pending s below ++ queueOf s k

/-- The corks listed are on, each saved the function of the one below, and each queued messages sent
after it started and before the next one did. -/
def Stacked (s : CorkedSocket) : List Nat → Sender → Nat → Prop
  | [], send, bound => send = .native ∧ ∀ m ∈ s.written, m < bound
  | k :: below, send, bound =>
    send = .push k ∧ ∃ c, s.corks[k]? = some c ∧ c.ended = none ∧ c.since ≤ bound ∧
      (∀ m ∈ c.queue, c.since ≤ m ∧ m < bound) ∧ Stacked s below c.originalSend c.since

/-- The message was dropped by no cork. -/
def Survives (s : CorkedSocket) (m : Nat) : Prop :=
  ∀ c ∈ s.corks, c.Covers m → c.ended ≠ none → c.Fulfilled

/-- The invariant while corks end in order. -/
structure CorkInv (s : CorkedSocket) (on : List Nat) : Prop where
  stacked : Stacked s on s.send s.sent
  newestFirst : on.Pairwise (· > ·)
  listed : ∀ (k : Nat) (c : Cork), s.corks[k]? = some c → c.ended = none → k ∈ on
  past : ∀ c ∈ s.corks, ∀ e ∈ c.ended, e.1 ≤ s.sent
  inOrder : (pending s on).Pairwise (· < ·)
  kept : ∀ m, m ∈ pending s on ↔ m < s.sent ∧ Survives s m

section Stack

variable {s s' : CorkedSocket} {on : List Nat} {send : Sender} {bound : Nat}

/-- The stack depends on the corks in it and on what was written. -/
theorem Stacked.congr (stacked : Stacked s on send bound) (written : s'.written = s.written)
    (same : ∀ k ∈ on, s'.corks[k]? = s.corks[k]?) : Stacked s' on send bound := by
  induction on generalizing send bound with
  | nil =>
    rw [Stacked, written]
    exact stacked
  | cons k below ih =>
    obtain ⟨sends, c, found, isOn, since, queue, rest⟩ := stacked
    refine ⟨sends, c, ?_, isOn, since, queue, ?_⟩
    · rw [same k (List.mem_cons_self ..), found]
    · exact ih rest fun j member => same j (List.mem_cons_of_mem _ member)

theorem pending_congr (written : s'.written = s.written)
    (same : ∀ k ∈ on, s'.corks[k]? = s.corks[k]?) : pending s' on = pending s on := by
  induction on with
  | nil => exact written
  | cons k below ih =>
    rw [pending, pending, ih fun j member => same j (List.mem_cons_of_mem _ member), queueOf,
      queueOf, same k (List.mem_cons_self ..)]

/-- A later bound. -/
theorem Stacked.mono {bound' : Nat} (stacked : Stacked s on send bound) (le : bound ≤ bound') :
    Stacked s on send bound' := by
  cases on with
  | nil => exact ⟨stacked.1, fun m member => Nat.lt_of_lt_of_le (stacked.2 m member) le⟩
  | cons k below =>
    obtain ⟨sends, c, found, isOn, since, queue, rest⟩ := stacked
    refine ⟨sends, c, found, isOn, Nat.le_trans since le, fun m member => ?_, rest⟩
    exact ⟨(queue m member).1, Nat.lt_of_lt_of_le (queue m member).2 le⟩

/-- Everything in the stack was sent before the bound. -/
theorem Stacked.lt (stacked : Stacked s on send bound) : ∀ m ∈ pending s on, m < bound := by
  induction on generalizing send bound with
  | nil => exact stacked.2
  | cons k below ih =>
    obtain ⟨-, c, found, -, since, queue, rest⟩ := stacked
    intro m member
    rcases List.mem_append.mp member with lower | top
    · exact Nat.lt_of_lt_of_le (ih rest m lower) since
    · rw [queueOf, found] at top
      exact (queue m top).2

/-- The corks in the stack exist and are on. -/
theorem Stacked.found (stacked : Stacked s on send bound) :
    ∀ k ∈ on, ∃ c, s.corks[k]? = some c ∧ c.ended = none := by
  induction on generalizing send bound with
  | nil => exact fun k member => absurd member List.not_mem_nil
  | cons k below ih =>
    obtain ⟨-, c, found, isOn, -, -, rest⟩ := stacked
    intro j member
    rcases List.mem_cons.mp member with rfl | later
    · exact ⟨c, found, isOn⟩
    · exact ih rest j later

end Stack

section Survival

variable {s s' : CorkedSocket} {m : Nat}

/-- Whether a message survives depends on the lives of the corks. -/
theorem survives_iff : Survives s m ↔ ∀ (k : Nat) (c : Cork), s.corks[k]? = some c →
    c.Covers m → c.ended ≠ none → c.Fulfilled := by
  constructor
  · exact fun survives k c found => survives c (List.mem_of_getElem? found)
  · intro all c member
    obtain ⟨k, found⟩ := List.mem_iff_getElem?.mp member
    exact all k c found

theorem survives_congr (same : s'.corks.map Cork.life = s.corks.map Cork.life) :
    Survives s' m ↔ Survives s m := by
  have eq (s : CorkedSocket) : Survives s m ↔ ∀ l ∈ s.corks.map Cork.life,
      (l.1 ≤ m ∧ ∀ e ∈ l.2, m < e.1) → l.2 ≠ none → ∃ e ∈ l.2, e.2 = .fulfilled := by
    simp only [List.forall_mem_map]
    exact Iff.rfl
  rw [eq, eq, same]

end Survival

section Delivery

variable {s : CorkedSocket} {on l : List Nat} {bound bound' k : Nat} {throws : Nat → Bool}

/-- Adds messages to the queue of a cork. -/
def pushAll (k : Nat) (l : List Nat) (s : CorkedSocket) : CorkedSocket :=
  { s with corks := s.corks.modify k fun c => { c with queue := c.queue ++ l } }

/-- Hands messages to what `socket.send` is. -/
def deliver (l : List Nat) (s : CorkedSocket) : CorkedSocket :=
  match s.send with
  | .native => { s with written := s.written ++ l }
  | .push k => pushAll k l s

theorem sendData_eq_deliver (m : Nat) (s : CorkedSocket) : s.sendData m = deliver [m] s := rfl

@[simp] theorem deliver_send (l : List Nat) (s : CorkedSocket) : (deliver l s).send = s.send := by
  obtain ⟨send, _, _, _⟩ := s
  cases send <;> rfl

@[simp] theorem deliver_sent (l : List Nat) (s : CorkedSocket) : (deliver l s).sent = s.sent := by
  obtain ⟨send, _, _, _⟩ := s
  cases send <;> rfl

theorem deliver_nil (s : CorkedSocket) : deliver [] s = s := by
  obtain ⟨send, corks, _, _⟩ := s
  cases send with
  | native => simp [deliver]
  | push k =>
    simp only [deliver, pushAll, List.append_nil, CorkedSocket.mk.injEq, true_and, and_true]
    exact List.modify_id k corks

theorem deliver_cons (m : Nat) (l : List Nat) (s : CorkedSocket) :
    deliver (m :: l) s = deliver l (deliver [m] s) := by
  cases send : s.send with
  | native => simp [deliver, send]
  | push k => simp [deliver, send, pushAll, List.modify_modify_eq, Function.comp_def]

/-- A loop that nothing ends hands everything over. -/
theorem flush_eq_deliver (quiet : s.send = .native → ∀ m ∈ l.dropLast, throws m = false) :
    flush throws l s = deliver l s := by
  induction l generalizing s with
  | nil => exact (deliver_nil s).symm
  | cons m rest ih =>
    rw [flush, sendData_eq_deliver, deliver_cons m rest s]
    split
    · rename_i ends
      rw [Bool.and_eq_true, decide_eq_true_eq] at ends
      cases rest with
      | nil => exact (deliver_nil _).symm
      | cons second rest =>
        have fine := quiet ends.1 m (List.mem_cons_self ..)
        rw [ends.2] at fine
        cases fine
    · apply ih
      rw [deliver_send]
      intro native m' member
      cases rest with
      | nil => cases member
      | cons second rest => exact quiet native m' (List.mem_cons_of_mem _ member)

/-- Delivery leaves the lives of the corks as they are. -/
theorem life_deliver (l : List Nat) (s : CorkedSocket) :
    (deliver l s).corks.map Cork.life = s.corks.map Cork.life := by
  cases send : s.send with
  | native => rw [deliver, send]
  | push k =>
    have state : deliver l s = pushAll k l s := by rw [deliver, send]
    apply List.ext_getElem?
    intro j
    rw [state, List.getElem?_map, List.getElem?_map, pushAll, List.getElem?_modify]
    cases s.corks[j]? with
    | none => rfl
    | some c =>
      by_cases same : k = j
      · simp [same, Cork.life]
      · simp [same]

/-- Delivery reaches the cork on top, or the wsi. -/
theorem deliver_spec (stacked : Stacked s on s.send bound) (newestFirst : on.Pairwise (· > ·))
    (later : ∀ m ∈ l, bound ≤ m ∧ m < bound') (le : bound ≤ bound') :
    Stacked (deliver l s) on s.send bound' ∧ pending (deliver l s) on = pending s on ++ l := by
  cases on with
  | nil =>
    obtain ⟨native, below⟩ := stacked
    have state : deliver l s = { s with written := s.written ++ l } := by rw [deliver, native]
    rw [state]
    refine ⟨⟨native, fun m member => ?_⟩, rfl⟩
    rcases List.mem_append.mp member with old | new
    · exact Nat.lt_of_lt_of_le (below m old) le
    · exact (later m new).2
  | cons k below =>
    obtain ⟨push, c, found, isOn, since, queue, rest⟩ := stacked
    have state : deliver l s = pushAll k l s := by rw [deliver, push]
    have top : (pushAll k l s).corks[k]? = some { c with queue := c.queue ++ l } := by
      rw [pushAll, List.getElem?_modify, found]
      simp
    have others : ∀ j ∈ below, (pushAll k l s).corks[j]? = s.corks[j]? := by
      intro j member
      have other : k ≠ j := Nat.ne_of_gt (List.rel_of_pairwise_cons newestFirst member)
      rw [pushAll, List.getElem?_modify]
      simp [other]
    have lower : pending (pushAll k l s) below = pending s below := pending_congr rfl others
    rw [state]
    constructor
    · refine ⟨push, _, top, isOn, Nat.le_trans since le, ?_, rest.congr rfl others⟩
      intro m member
      rcases List.mem_append.mp member with old | new
      · exact ⟨(queue m old).1, Nat.lt_of_lt_of_le (queue m old).2 le⟩
      · exact ⟨Nat.le_trans since (later m new).1, (later m new).2⟩
    · rw [pending, pending, lower, queueOf, queueOf, top, found]
      simp

end Delivery

section Invariant

variable {s : CorkedSocket} {on : List Nat} {throws : Nat → Bool} {k : Nat} {c : Cork}

/-- A cork that starts goes on top of the stack. -/
theorem CorkInv.startCork (inv : CorkInv s on) :
    CorkInv s.startCork (s.corks.length :: on) := by
  have inside : ∀ k ∈ on, k < s.corks.length := by
    intro k member
    obtain ⟨c, found, -⟩ := inv.stacked.found k member
    exact (List.getElem?_eq_some_iff.mp found).1
  have same : ∀ k ∈ on, s.startCork.corks[k]? = s.corks[k]? := fun k member =>
    List.getElem?_append_left (inside k member)
  have top : s.startCork.corks[s.corks.length]? = some ⟨s.send, [], s.sent, none⟩ :=
    List.getElem?_concat_length
  have lower : pending s.startCork on = pending s on := pending_congr rfl same
  have waiting : pending s.startCork (s.corks.length :: on) = pending s on := by
    rw [pending, lower, queueOf, top]
    exact List.append_nil _
  have survives (m : Nat) : Survives s.startCork m ↔ Survives s m := by
    constructor
    · exact fun all c member => all c (List.mem_append_left _ member)
    · intro all c member covers ended
      rcases List.mem_append.mp member with old | new
      · exact all c old covers ended
      · rw [List.mem_singleton.mp new] at ended
        exact absurd rfl ended
  refine ⟨⟨rfl, _, top, rfl, Nat.le_refl _, ?_, inv.stacked.congr rfl same⟩, ?_, ?_, ?_, ?_, ?_⟩
  · exact fun m member => absurd member List.not_mem_nil
  · exact List.pairwise_cons.mpr ⟨inside, inv.newestFirst⟩
  · intro k c found isOn
    rcases getElem?_snoc.mp found with old | ⟨rfl, -⟩
    · exact List.mem_cons_of_mem _ (inv.listed k c old isOn)
    · exact List.mem_cons_self ..
  · intro c member e ended
    rcases List.mem_append.mp member with old | new
    · exact inv.past c old e ended
    · rw [List.mem_singleton.mp new] at ended
      cases ended
  · rw [waiting]
    exact inv.inOrder
  · intro m
    rw [waiting, survives]
    exact inv.kept m

/-- The corks that the stack and the past know of are those of another state with the same lives. -/
theorem found_of_life {s' : CorkedSocket} (life : s'.corks.map Cork.life = s.corks.map Cork.life)
    (found : s'.corks[k]? = some c) :
    ∃ c', s.corks[k]? = some c' ∧ c'.since = c.since ∧ c'.ended = c.ended := by
  have same : (s.corks.map Cork.life)[k]? = some c.life := by
    rw [← life, List.getElem?_map, found]
    rfl
  rw [List.getElem?_map, Option.map_eq_some_iff] at same
  obtain ⟨c', found', lives⟩ := same
  exact ⟨c', found', congrArg Prod.fst lives, congrArg Prod.snd lives⟩

/-- A message goes to the top of the stack. -/
theorem CorkInv.send (inv : CorkInv s on) : CorkInv (s.step throws .send) on := by
  have later : ∀ m ∈ [s.sent], s.sent ≤ m ∧ m < s.sent + 1 := by simp
  obtain ⟨stacked, waiting⟩ :=
    deliver_spec inv.stacked inv.newestFirst later (Nat.le_succ s.sent)
  have life : (s.step throws .send).corks.map Cork.life = s.corks.map Cork.life :=
    life_deliver [s.sent] s
  have moved : pending (s.step throws .send) on = pending (deliver [s.sent] s) on :=
    pending_congr rfl fun _ _ => rfl
  have function : (s.step throws .send).send = s.send := deliver_send [s.sent] s
  refine ⟨?_, inv.newestFirst, ?_, ?_, ?_, ?_⟩
  · rw [function]
    exact stacked.congr rfl fun _ _ => rfl
  · intro k c found isOn
    obtain ⟨c', found', -, ended⟩ := found_of_life life found
    exact inv.listed k c' found' (ended.trans isOn)
  · intro c member e ended
    obtain ⟨k, found⟩ := List.mem_iff_getElem?.mp member
    obtain ⟨c', found', -, same⟩ := found_of_life life found
    exact Nat.le_succ_of_le (inv.past c' (List.mem_of_getElem? found') e (same ▸ ended))
  · rw [moved, waiting, List.pairwise_append]
    refine ⟨inv.inOrder, List.pairwise_singleton _ _, ?_⟩
    intro m member m' new
    rw [List.mem_singleton.mp new]
    exact inv.stacked.lt m member
  · intro m
    rw [moved, waiting, List.mem_append, inv.kept, List.mem_singleton, survives_congr life]
    constructor
    · rintro (⟨lt, survives⟩ | rfl)
      · exact ⟨Nat.lt_succ_of_lt lt, survives⟩
      · refine ⟨Nat.lt_succ_self _, fun c member covers ended => ?_⟩
        obtain ⟨e, ended⟩ := Option.ne_none_iff_exists'.mp ended
        exact absurd (covers.2 e ended) (Nat.not_lt_of_le (inv.past c member e ended))
    · rintro ⟨lt, survives⟩
      rcases Nat.lt_succ_iff_lt_or_eq.mp lt with old | new
      · exact .inl ⟨old, survives⟩
      · exact .inr new

/-- The cork on top of the stack is the newest one that is on. -/
theorem CorkInv.top (inv : CorkInv s on) (found : s.corks[k]? = some c) (isOn : c.ended = none)
    (newest : ∀ (j : Nat) (c' : Cork), k < j → s.corks[j]? = some c' → c'.ended ≠ none) :
    ∃ below, on = k :: below := by
  have member := inv.listed k c found isOn
  cases on with
  | nil => cases member
  | cons j below =>
    rcases List.mem_cons.mp member with rfl | lower
    · exact ⟨below, rfl⟩
    · have older : k < j := List.rel_of_pairwise_cons inv.newestFirst lower
      obtain ⟨c', found', on'⟩ := inv.stacked.found j (List.mem_cons_self ..)
      exact absurd on' (newest j c' older found')

/-- The state in which a cork has ended and its function is put back. -/
def ended (s : CorkedSocket) (k : Nat) (c : Cork) (ending : Ending) : CorkedSocket :=
  { s with
    corks := s.corks.set k { c with ended := some (s.sent, ending) }
    send := c.originalSend }

theorem ended_corks (found : s.corks[k]? = some c) (ending : Ending) (j : Nat) :
    (ended s k c ending).corks[j]? =
      if k = j then some { c with ended := some (s.sent, ending) } else s.corks[j]? := by
  obtain ⟨inside, -⟩ := List.getElem?_eq_some_iff.mp found
  rw [ended, List.getElem?_set]
  simp [inside]

/-- What a cork that ends drops is what was sent during it, if it failed. -/
theorem survives_ended (found : s.corks[k]? = some c) (isOn : c.ended = none) (ending : Ending)
    {m : Nat} (lt : m < s.sent) :
    Survives (ended s k c ending) m ↔ Survives s m ∧ (c.since ≤ m → ending = .fulfilled) := by
  rw [survives_iff, survives_iff]
  constructor
  · intro all
    refine ⟨fun j c' found' covers isOver => ?_, fun since => ?_⟩
    · apply all j c' _ covers isOver
      rw [ended_corks found, if_neg, found']
      rintro rfl
      rw [found, Option.some.injEq] at found'
      exact isOver (found' ▸ isOn)
    · have last := all k { c with ended := some (s.sent, ending) }
        (by rw [ended_corks found, if_pos rfl]) ⟨since, by simpa using lt⟩ (by simp)
      simpa [Cork.Fulfilled] using last
  · rintro ⟨all, last⟩ j c' found' covers isOver
    rw [ended_corks found] at found'
    split at found'
    · cases found'
      exact ⟨_, rfl, last covers.1⟩
    · exact all j c' found' covers isOver

/-- A cork that ends leaves the stack below it as it was. -/
theorem CorkInv.pop {below : List Nat} (inv : CorkInv s (k :: below))
    (found : s.corks[k]? = some c) (ending : Ending) :
    c.since ≤ s.sent ∧ (∀ m ∈ c.queue, c.since ≤ m ∧ m < s.sent) ∧
      Stacked (ended s k c ending) below c.originalSend c.since ∧
      pending (ended s k c ending) below = pending s below ∧
      pending s (k :: below) = pending s below ++ c.queue := by
  obtain ⟨-, c', found', -, since, queue, rest⟩ := inv.stacked
  rw [found, Option.some.injEq] at found'
  subst found'
  have same : ∀ j ∈ below, (ended s k c ending).corks[j]? = s.corks[j]? := by
    intro j member
    have other : k ≠ j := Nat.ne_of_gt (List.rel_of_pairwise_cons inv.newestFirst member)
    rw [ended_corks found, if_neg other]
  refine ⟨since, queue, rest.congr rfl same, pending_congr rfl same, ?_⟩
  rw [pending, queueOf, found]
  rfl

/-- What an ending keeps of the invariant, whatever becomes of the queue. -/
theorem CorkInv.ended_frame {below : List Nat} (inv : CorkInv s (k :: below))
    (found : s.corks[k]? = some c) (ending : Ending) :
    below.Pairwise (· > ·) ∧
      (∀ (j : Nat) (c' : Cork), (ended s k c ending).corks[j]? = some c' → c'.ended = none →
        j ∈ below) ∧
      ∀ c' ∈ (ended s k c ending).corks, ∀ e ∈ c'.ended, e.1 ≤ s.sent := by
  refine ⟨inv.newestFirst.of_cons, ?_, ?_⟩
  · intro j c' found' isOn
    rw [ended_corks found] at found'
    split at found'
    · cases found'
      cases isOn
    · rename_i other
      rcases List.mem_cons.mp (inv.listed j c' found' isOn) with rfl | lower
      · exact absurd rfl other
      · exact lower
  · intro c' member e isOver
    obtain ⟨j, found'⟩ := List.mem_iff_getElem?.mp member
    rw [ended_corks found] at found'
    split at found'
    · cases found'
      cases isOver
      exact Nat.le_refl _
    · exact inv.past c' (List.mem_of_getElem? found') e isOver

/-- A cork that is rejected drops what was sent during it. -/
theorem CorkInv.rejected {below : List Nat} (inv : CorkInv s (k :: below))
    (found : s.corks[k]? = some c) (isOn : c.ended = none) :
    CorkInv (ended s k c .rejected) below := by
  obtain ⟨since, queue, stacked, lower, waiting⟩ := inv.pop found .rejected
  obtain ⟨newestFirst, listed, past⟩ := inv.ended_frame found .rejected
  have inOrder := inv.inOrder
  rw [waiting, List.pairwise_append] at inOrder
  have older := stacked.lt
  rw [lower] at older
  refine ⟨stacked.mono since, newestFirst, listed, past, ?_, ?_⟩
  · rw [lower]
    exact inOrder.1
  · intro m
    rw [lower]
    have kept := inv.kept m
    rw [waiting, List.mem_append] at kept
    constructor
    · intro member
      obtain ⟨lt, survives⟩ := kept.mp (.inl member)
      refine ⟨lt, (survives_ended found isOn .rejected lt).mpr ⟨survives, fun during => ?_⟩⟩
      exact absurd (older m member) (Nat.not_lt_of_le during)
    · rintro ⟨lt, survives⟩
      obtain ⟨survives, dropped⟩ := (survives_ended found isOn .rejected lt).mp survives
      rcases kept.mpr ⟨lt, survives⟩ with member | top
      · exact member
      · cases dropped (queue m top).1

/-- A cork that is fulfilled hands its queue to the cork below, or to the wsi. -/
theorem CorkInv.fulfilled {below : List Nat} (inv : CorkInv s (k :: below))
    (found : s.corks[k]? = some c) (isOn : c.ended = none) :
    CorkInv (deliver c.queue (ended s k c .fulfilled)) below := by
  obtain ⟨since, queue, stacked, lower, waiting⟩ := inv.pop found .fulfilled
  obtain ⟨newestFirst, listed, past⟩ := inv.ended_frame found .fulfilled
  obtain ⟨stacked, delivered⟩ := deliver_spec stacked newestFirst queue since
  rw [lower, ← waiting] at delivered
  have life := life_deliver c.queue (ended s k c .fulfilled)
  refine ⟨?_, newestFirst, ?_, ?_, ?_, ?_⟩
  · rw [deliver_send, deliver_sent]
    exact stacked
  · intro j c' found' on'
    obtain ⟨c'', found'', -, same⟩ := found_of_life life found'
    exact listed j c'' found'' (same.trans on')
  · rw [deliver_sent]
    intro c' member e isOver
    obtain ⟨j, found'⟩ := List.mem_iff_getElem?.mp member
    obtain ⟨c'', found'', -, same⟩ := found_of_life life found'
    exact past c'' (List.mem_of_getElem? found'') e (same ▸ isOver)
  · rw [delivered]
    exact inv.inOrder
  · intro m
    rw [delivered, inv.kept, deliver_sent, survives_congr life]
    apply and_congr_right
    intro lt
    rw [survives_ended found isOn .fulfilled lt]
    exact (and_iff_left fun _ => rfl).symm

/-- An orderly step keeps the invariant. -/
theorem CorkInv.step (inv : CorkInv s on) (e : CorkEvent) (orderly : s.Orderly throws e) :
    ∃ on', CorkInv (s.step throws e) on' := by
  cases e with
  | cork => exact ⟨_, inv.startCork⟩
  | send => exact ⟨on, inv.send⟩
  | finish k ending =>
    rw [CorkedSocket.step, CorkedSocket.finish]
    cases found : s.corks[k]? with
    | none => exact ⟨on, inv⟩
    | some c =>
      dsimp only
      cases isOn : c.ended with
      | some e => exact ⟨on, inv⟩
      | none =>
        obtain ⟨newest, returned, quiet⟩ := orderly c found isOn
        obtain ⟨below, rfl⟩ := inv.top found isOn newest
        cases ending with
        | fulfilled =>
          refine ⟨below, ?_⟩
          have handed := inv.fulfilled found isOn
          rwa [← flush_eq_deliver (quiet rfl)] at handed
        | rejected => exact ⟨below, inv.rejected found isOn⟩
        | threw => exact absurd rfl returned

/-- When all corks have ended, everything that survives is written, in order. -/
theorem CorkInv.quiescent (inv : CorkInv s on) (quiescent : s.Quiescent) :
    s.send = .native ∧ s.written.Pairwise (· < ·) ∧
      ∀ m, m ∈ s.written ↔ m < s.sent ∧ Survives s m := by
  cases on with
  | nil => exact ⟨inv.stacked.1, inv.inOrder, inv.kept⟩
  | cons k below =>
    obtain ⟨c, found, isOn⟩ := inv.stacked.found k (List.mem_cons_self ..)
    exact absurd isOn (quiescent c (List.mem_of_getElem? found))

end Invariant

/-- In every run in which the corks end in order, a socket without corks keeps their contract
exactly when no message was sent both during a cork that completed and during one that failed. -/
theorem corkContract_iff_uniform (throws : Nat → Bool) (events : List CorkEvent)
    (orderly : Along (step throws) (Orderly throws) .start events) :
    (runFrom (step throws) .start events).CorkContract ↔
      ((runFrom (step throws) .start events).Quiescent →
        (runFrom (step throws) .start events).Uniform) := by
  obtain ⟨on, inv⟩ : ∃ on, CorkInv (runFrom (step throws) .start events) on := by
    refine run_invariant_along (I := fun s => ∃ on, CorkInv s on) ?_ events .start ?_ orderly
    · rintro s e ⟨on, inv⟩ orderly
      exact inv.step e orderly
    · refine ⟨[], ⟨rfl, ?_⟩, List.Pairwise.nil, ?_, ?_, List.Pairwise.nil, ?_⟩
      · exact fun m member => absurd member List.not_mem_nil
      · intro k c found
        cases found
      · exact fun c member => absurd member List.not_mem_nil
      · exact fun m => iff_of_false List.not_mem_nil fun both => Nat.not_lt_zero _ both.1
  generalize runFrom (step throws) .start events = s at inv
  rw [CorkContract]
  refine forall_congr' fun quiescent => ?_
  obtain ⟨restored, sorted, kept⟩ := inv.quiescent quiescent
  have distinct : s.written.Nodup := sorted.imp Nat.ne_of_lt
  have once (m : Nat) : s.written.count m = 1 ↔ m ∈ s.written := by
    rw [distinct.count]
    simp
  constructor
  · rintro ⟨-, delivered, -⟩ c member fulfilled m sent covers c' member' covers'
    have written := (once m).mp (delivered c member fulfilled m sent covers)
    exact ((kept m).mp written).2 c' member' covers' (quiescent c' member')
  · intro uniform
    refine ⟨restored, ?_, fun c _ => sorted.filter _⟩
    intro c member fulfilled m sent covers
    rw [once, kept]
    exact ⟨sent, fun c' member' covers' _ =>
      uniform c member fulfilled m sent covers c' member' covers'⟩

/-- Nested corks that end in order. -/
def nestedCorks : List CorkEvent :=
  [.cork, .send, .cork, .send, .finish 1 .fulfilled, .send, .finish 0 .fulfilled]

theorem nestedCorks_contract :
    (runFrom (step fun _ => false) .start nestedCorks).CorkContract ↔
      ((runFrom (step fun _ => false) .start nestedCorks).Quiescent →
        (runFrom (step fun _ => false) .start nestedCorks).Uniform) := by
  apply corkContract_iff_uniform
  refine ⟨trivial, trivial, trivial, trivial, ?_, trivial, ?_, trivial⟩
  · intro c _ _
    refine ⟨fun j c' later found => ?_, by decide, fun _ _ _ _ => rfl⟩
    rcases j with _ | _ | j
    · cases later
    · exact absurd later (Nat.lt_irrefl 1)
    · cases found
  · intro c _ _
    refine ⟨fun j c' later found => ?_, by decide, fun _ _ _ _ => rfl⟩
    rcases j with _ | _ | j
    · cases later
    · cases found
      decide
    · cases found

/-- A callback that throws leaves the queueing function in place, and so do two corks of which the
first ends first, which also loses what was sent last. -/
theorem corks_not_restored :
    ¬(runFrom (step fun _ => false) .start [.cork, .finish 0 .threw]).CorkContract ∧
      ¬(runFrom (step fun _ => false) .start
        [.cork, .cork, .send, .finish 0 .fulfilled, .finish 1 .fulfilled]).CorkContract := by
  constructor
  · intro contract
    have restored := (contract (by decide)).1
    revert restored
    decide
  · intro contract
    have restored := (contract (by decide)).1
    revert restored
    decide

end QjsLws.WebSocket
