import QjsLws.Socket.WantWrite
import QjsLws.Socket.Proofs.WriteQueue

/-!
# Wakeups are lost only by overlapping waits

A pending wait always has a writeable callback requested: by `wantWrite` itself, and by every flush
that leaves something in the queue. The slot keeps one handler, so a wait that overlaps with another
is the one that is lost.
-/

namespace QjsLws.Socket

open QjsLws.Misc

section Requests

variable {lws : Lws}

/-- The loop of a flush leaves the request for a callback as it was. -/
theorem flushStep_requested (lws : Lws) (s : LWSSocket) :
    (flushStep lws s).state.writableRequested = s.writableRequested := by
  rcases flushStep_cases lws s with ⟨-, step⟩ | step | ⟨_, _, _, _, -, -, step⟩ |
    ⟨peer, wc, rest, n, -, -, step⟩ <;> rw [step]
  · rfl
  · rfl
  · rfl
  · simp only [afterWrite]
    repeat' split
    all_goals rfl

theorem flushLoop_requested (lws : Lws) :
    ∀ (fuel : Nat) (s s' : LWSSocket) (dead : Bool), flushLoop lws fuel s = some (s', dead) →
      s'.writableRequested = s.writableRequested := by
  intro fuel
  induction fuel with
  | zero =>
    intro s s' dead run
    cases run
  | succ fuel ih =>
    intro s s' dead run
    have kept := flushStep_requested lws s
    rw [flushLoop] at run
    cases step : flushStep lws s with
    | again next =>
      rw [step] at run kept
      exact (ih next s' dead run).trans kept
    | stop next =>
      rw [step] at run kept
      cases run
      exact kept
    | dead next =>
      rw [step] at run kept
      cases run
      exact kept

/-- A flush keeps a request. -/
theorem socketFlush_requested {s : LWSSocket} (requested : s.writableRequested = true) :
    (socketFlush lws s).writableRequested = true := by
  rw [socketFlush]
  split
  · exact requested
  · cases run : flushLoop lws (queueWork s.writeQueue + 1) s with
    | none => exact requested
    | some result =>
      obtain ⟨s', dead⟩ := result
      have kept := (flushLoop_requested lws _ s s' dead run).trans requested
      cases dead with
      | true => exact kept
      | false =>
        dsimp only
        split
        · exact kept
        · rfl

/-- A write keeps a request. -/
theorem lwsjsSocketWrite_requested {s : LWSSocket} {roleWs : Bool} {data : WriteData}
    {args : List WriteArg} (requested : s.writableRequested = true) :
    (lwsjsSocketWrite lws s roleWs data args).2.writableRequested = true := by
  cases data with
  | other =>
    rw [lwsjsSocketWrite]
    split <;> exact requested
  | string buf =>
    rw [lwsjsSocketWrite]
    split
    · exact requested
    · exact socketFlush_requested requested
  | arrayBuffer buf =>
    rw [lwsjsSocketWrite]
    split
    · exact requested
    · exact socketFlush_requested requested

end Requests

/-- The invariant of a live socket, whatever is called on it. -/
structure SlotInv (s : Waits) : Prop where
  queue : ∃ written, QueueInv written s.state.socket
  armed : s.state.socket.writeQueue ≠ [] → s.state.socket.writableRequested = true
  pending : s.state.wantWrite = true → s.state.socket.writableRequested = true
  slot : s.state.writeHandler.isSome = s.state.wantWrite
  holder : ∀ wait, s.state.writeHandler = some (.resolve wait) → ⟨wait, false⟩ ∈ s.outstanding
  waiting : ∀ wait ∈ s.outstanding, wait.overlaps = false →
    s.state.writeHandler = some (.resolve wait.id)
  guarded : s.outstanding ≠ [] → s.state.wantWrite = true
  named : ∀ wait ∈ s.outstanding, wait.id < s.state.waits ∧ wait.id ∉ s.due
  past : ∀ wait ∈ s.due, wait < s.state.waits
  distinct : (s.outstanding.map Wait.id).Nodup
  resolved : ∀ wait, s.resolutions wait = if wait ∈ s.due then 1 else 0
  drained : ∀ run ∈ s.state.runs, run.queue = []

section Invariant

variable {lws : Lws} {s : Waits}

theorem SlotInv.good (inv : SlotInv s) : s.NoLostWakeup :=
  ⟨inv.resolved, inv.drained, fun waiting => inv.pending (inv.guarded waiting)⟩

/-- Writing to the socket, and nothing else. -/
theorem SlotInv.write (inv : SlotInv s) {roleWs : Bool} {data : WriteData}
    {args : List WriteArg} :
    SlotInv { s with state := { s.state with
      socket := (lwsjsSocketWrite lws s.state.socket roleWs data args).2 } } := by
  obtain ⟨written, queue⟩ := inv.queue
  have spec := writeStep_spec lws queue inv.armed (.write roleWs data args)
  refine ⟨⟨_, spec.inv⟩, spec.armed, ?_, inv.slot, inv.holder, inv.waiting, inv.guarded, inv.named,
    inv.past, inv.distinct, inv.resolved, inv.drained⟩
  exact fun want => lwsjsSocketWrite_requested (inv.pending want)

open Waiting

/-- What `wantWrite` does on a live socket. -/
theorem lwsjsSocketWantWrite_live {state : Waiting} {handler : WriteHandler}
    (live : state.socket.wsi = true) :
    lwsjsSocketWantWrite handler state =
      if state.wantWrite then (.ok none, state)
      else (.ok (some true), { state with
        socket := { state.socket with
          writableRequested := true
          log := state.socket.log ++ [.callbackOnWritable] }
        wantWrite := true
        writeHandler := some handler }) := by
  rw [lwsjsSocketWantWrite, live]
  cases state.wantWrite <;> rfl

/-- `send` arms `drain` only where nobody waits. -/
theorem SlotInv.armDrain (inv : SlotInv s) :
    SlotInv { s with state := (lwsjsSocketWantWrite .drain s.state).2 } := by
  obtain ⟨written, queue⟩ := inv.queue
  rw [lwsjsSocketWantWrite_live queue.wsi]
  split
  · exact inv
  · rename_i free
    have nobody : s.outstanding = [] := by
      by_contra waiting
      exact free (inv.guarded waiting)
    refine ⟨⟨written, queue.request⟩, fun _ => rfl, fun _ => rfl, rfl, ?_, ?_, fun _ => rfl,
      inv.named, inv.past, inv.distinct, inv.resolved, inv.drained⟩
    · intro wait held
      cases held
    · intro wait member
      rw [nobody] at member
      cases member

theorem SlotInv.send (inv : SlotInv s) {roleWs : Bool} {data : WriteData} :
    SlotInv (s.step lws (.send roleWs data)) := by
  have wrote := @SlotInv.write lws s inv roleWs data []
  rw [Waits.step, Waiting.send]
  cases result : lwsjsSocketWrite lws s.state.socket roleWs data [] with
  | mk value socket =>
    rw [result] at wrote
    cases value with
    | error e => exact wrote
    | ok n =>
      dsimp only
      split
      · exact wrote.armDrain
      · exact wrote

/-- A promise takes the slot, or overlaps with the one that has it. -/
theorem SlotInv.waitWrite (inv : SlotInv s) : SlotInv (s.step lws .waitWrite) := by
  obtain ⟨written, queue⟩ := inv.queue
  have unnamed : s.state.waits ∉ s.outstanding.map Wait.id := by
    intro member
    obtain ⟨wait, inside, same⟩ := List.mem_map.mp member
    exact Nat.lt_irrefl _ (same ▸ (inv.named wait inside).1)
  have undue : s.state.waits ∉ s.due := fun member => Nat.lt_irrefl _ (inv.past _ member)
  have distinct :
      ((s.outstanding ++ [(⟨s.state.waits, s.state.wantWrite⟩ : Wait)]).map Wait.id).Nodup := by
    rw [List.map_append]
    refine List.nodup_append.mpr ⟨inv.distinct, List.nodup_singleton _, ?_⟩
    intro a first b second
    rw [List.map_singleton, List.mem_singleton] at second
    rintro rfl
    rw [second] at first
    exact unnamed first
  have named : ∀ wait ∈ s.outstanding ++ [⟨s.state.waits, s.state.wantWrite⟩],
      wait.id < s.state.waits + 1 ∧ wait.id ∉ s.due := by
    intro wait member
    rcases List.mem_append.mp member with old | new
    · exact ⟨Nat.lt_succ_of_lt (inv.named wait old).1, (inv.named wait old).2⟩
    · rw [List.mem_singleton.mp new]
      exact ⟨Nat.lt_succ_self _, undue⟩
  have past : ∀ wait ∈ s.due, wait < s.state.waits + 1 := fun wait member =>
    Nat.lt_succ_of_lt (inv.past wait member)
  have live : { s.state with waits := s.state.waits + 1 }.socket.wsi = true := queue.wsi
  rw [Waits.step, Waiting.waitWrite, lwsjsSocketWantWrite_live live]
  cases want : s.state.wantWrite with
  | true =>
    rw [want] at distinct named
    refine ⟨⟨written, queue⟩, inv.armed, inv.pending, inv.slot, ?_, ?_, fun _ => want, named, past,
      distinct, inv.resolved, inv.drained⟩
    · intro wait held
      exact List.mem_append_left _ (inv.holder wait held)
    · intro wait member apart
      rcases List.mem_append.mp member with old | new
      · exact inv.waiting wait old apart
      · rw [List.mem_singleton.mp new] at apart
        cases apart
  | false =>
    have nobody : s.outstanding = [] := by
      by_contra waiting
      have held := inv.guarded waiting
      rw [want] at held
      cases held
    rw [want] at distinct named
    refine ⟨⟨written, queue.request⟩, fun _ => rfl, fun _ => rfl, rfl, ?_, ?_, fun _ => rfl, named,
      past, distinct, inv.resolved, inv.drained⟩
    · intro wait held
      cases held
      exact List.mem_append_right _ (List.mem_singleton_self _)
    · intro wait member _
      rw [nobody] at member
      rw [List.mem_singleton.mp member]
      rfl

/-- A flush that leaves something in the queue calls nobody. -/
theorem SlotInv.backlog (inv : SlotInv s)
    (queued : (writeStep lws s.state.socket .writeable).writeQueue ≠ []) :
    s.step lws .writeable = { s with state := { s.state with
        socket := writeStep lws s.state.socket .writeable } } ∧
      SlotInv (s.step lws .writeable) := by
  obtain ⟨written, queue⟩ := inv.queue
  have spec := writeStep_spec lws queue inv.armed .writeable
  have busy : (writeStep lws s.state.socket .writeable).writeQueue.isEmpty = false := by
    simpa using queued
  have stays : s.step lws .writeable = { s with state := { s.state with
      socket := writeStep lws s.state.socket .writeable } } := by
    simp [Waits.step, Waiting.writeable, callHandler, busy]
  refine ⟨stays, ?_⟩
  rw [stays]
  exact ⟨⟨_, spec.inv⟩, spec.armed, fun _ => spec.armed queued, inv.slot, inv.holder, inv.waiting,
    inv.guarded, inv.named, inv.past, inv.distinct, inv.resolved, inv.drained⟩

/-- A flush that empties the queue calls the handler in the slot, once. -/
theorem SlotInv.emptied (inv : SlotInv s)
    (empty : (writeStep lws s.state.socket .writeable).writeQueue = []) :
    s.step lws .writeable =
      ⟨{ s.state with
          socket := writeStep lws s.state.socket .writeable
          wantWrite := false
          writeHandler := none
          runs := s.state.runs ++ (s.state.writeHandler.map fun h => HandlerRun.mk h []).toList },
        [], s.due ++ s.outstanding.map Wait.id⟩ := by
  have slot := inv.slot
  cases want : s.state.wantWrite with
  | false =>
    rw [want, Option.isSome_eq_false_iff, Option.isNone_iff_eq_none] at slot
    simp [Waits.step, Waiting.writeable, callHandler, empty, want, slot]
  | true =>
    rw [want, Option.isSome_iff_exists] at slot
    obtain ⟨handler, slot⟩ := slot
    simp [Waits.step, Waiting.writeable, callHandler, empty, want, slot]

/-- The handler in the slot is one more resolution of its promise. -/
theorem SlotInv.resolutions (inv : SlotInv s)
    (empty : (writeStep lws s.state.socket .writeable).writeQueue = []) (wait : Nat) :
    (s.step lws .writeable).resolutions wait
      = s.resolutions wait + if s.state.writeHandler = some (.resolve wait) then 1 else 0 := by
  rw [inv.emptied empty, Waits.resolutions, Waits.resolutions, List.map_append, List.count_append]
  cases s.state.writeHandler with
  | none => simp
  | some handler => simp [List.count_singleton]

/-- The turn of the outstanding promises, if none of them overlaps. -/
theorem SlotInv.drain (inv : SlotInv s)
    (empty : (writeStep lws s.state.socket .writeable).writeQueue = [])
    (alone : ∀ wait ∈ s.outstanding, wait.overlaps = false) :
    SlotInv (s.step lws .writeable) := by
  obtain ⟨written, queue⟩ := inv.queue
  have spec := writeStep_spec lws queue inv.armed .writeable
  have resolutions := inv.resolutions empty
  have state := inv.emptied empty
  have resolved : ∀ wait, (s.step lws .writeable).resolutions wait
      = if wait ∈ s.due ++ s.outstanding.map Wait.id then 1 else 0 := by
    intro wait
    rw [resolutions, inv.resolved]
    by_cases due : wait ∈ s.due
    · rw [if_pos due, if_pos (List.mem_append_left _ due), if_neg]
      exact fun held => (inv.named _ (inv.holder wait held)).2 due
    · rw [if_neg due, Nat.zero_add]
      apply if_congr ?_ rfl rfl
      rw [List.mem_append, or_iff_right due, List.mem_map]
      constructor
      · exact fun held => ⟨_, inv.holder wait held, rfl⟩
      · rintro ⟨w, member, rfl⟩
        exact inv.waiting w member (alone w member)
  have past : ∀ wait ∈ s.due ++ s.outstanding.map Wait.id, wait < s.state.waits := by
    intro wait member
    rcases List.mem_append.mp member with due | waiting
    · exact inv.past wait due
    · obtain ⟨w, inside, rfl⟩ := List.mem_map.mp waiting
      exact (inv.named w inside).1
  have drained : ∀ run ∈ (s.step lws .writeable).state.runs, run.queue = [] := by
    rw [state]
    intro run member
    rcases List.mem_append.mp member with old | new
    · exact inv.drained run old
    · obtain ⟨handler, -, rfl⟩ := Option.map_eq_some_iff.mp (Option.mem_toList.mp new)
      rfl
  rw [state] at resolved drained ⊢
  refine ⟨⟨_, spec.inv⟩, spec.armed, ?_, rfl, ?_, ?_, ?_, ?_, past, List.nodup_nil, resolved,
    drained⟩
  · intro want
    cases want
  · intro wait held
    cases held
  · intro wait member
    cases member
  · intro waiting
    exact absurd rfl waiting
  · intro wait member
    cases member

/-- Every step keeps the invariant, if no overlapping wait is passed over. -/
theorem SlotInv.step (inv : SlotInv s) (op : WaitOp) (alone : s.Alone lws op) :
    SlotInv (s.step lws op) := by
  cases op with
  | waitWrite => exact inv.waitWrite
  | send roleWs data => exact inv.send
  | write roleWs data args => exact inv.write
  | writeable =>
    by_cases empty : (writeStep lws s.state.socket .writeable).writeQueue = []
    · exact inv.drain empty (alone empty)
    · exact (inv.backlog empty).2

/-- A wait that overlaps with another misses its turn. -/
theorem SlotInv.alone (inv : SlotInv s) (op : WaitOp) (good : (s.step lws op).NoLostWakeup) :
    s.Alone lws op := by
  cases op with
  | waitWrite => exact trivial
  | send roleWs data => exact trivial
  | write roleWs data args => exact trivial
  | writeable =>
    intro empty wait member
    have turn := good.resolved wait.id
    have due : wait.id ∈ (s.step lws .writeable).due := by
      rw [inv.emptied empty]
      exact List.mem_append_right _ (List.mem_map_of_mem member)
    rw [if_pos due, inv.resolutions empty, inv.resolved, if_neg (inv.named wait member).2] at turn
    have held : s.state.writeHandler = some (.resolve wait.id) := by
      by_contra other
      rw [if_neg other] at turn
      cases turn
    have same := List.inj_on_of_nodup_map inv.distinct member (inv.holder wait.id held) rfl
    rw [same]

end Invariant

/-- In every run on a live wsi no wakeup is lost exactly when no WRITEABLE callback that finds the
queue empty comes while a wait is outstanding that overlaps with another. -/
theorem noLostWakeup_iff_alone (lws : Lws) (ops : List WaitOp) :
    (∀ first, first <+: ops → (runFrom (Waits.step lws) .fresh first).NoLostWakeup) ↔
      Along (Waits.step lws) (Waits.Alone lws) .fresh ops := by
  apply prefixes_iff_along (I := SlotInv)
  · exact fun s op inv alone => inv.step op alone
  · exact fun s op inv good => inv.alone op good
  · exact fun s inv => inv.good
  · refine ⟨⟨[], queueInv_fresh⟩, ?_, ?_, rfl, ?_, ?_, ?_, ?_, ?_, List.nodup_nil, fun _ => rfl, ?_⟩
    · exact fun queued => absurd rfl queued
    · exact fun want => by cases want
    · exact fun wait held => by cases held
    · exact fun wait member => by cases member
    · exact fun waiting => absurd rfl waiting
    · exact fun wait member => by cases member
    · exact fun wait member => by cases member
    · exact fun run member => by cases member

/-- A libwebsockets that takes everything. -/
def eagerLws : Lws where
  wsiIsUdp := false
  partialBuffered _ := false
  write _ bytes _ := bytes.length
  transactionCompleted _ := false
  write_le _ _ _ := le_rfl

/-- Two promises wait at once: the callback resolves the first and forgets the second. -/
theorem overlapping_waits_lost :
    ¬(runFrom (Waits.step eagerLws) .fresh [.waitWrite, .waitWrite, .writeable]).NoLostWakeup := by
  intro good
  have turn := good.resolved 1
  revert turn
  decide

end QjsLws.Socket
