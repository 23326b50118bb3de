import QjsLws.Protocol.Dispatch

/-!
# Deferred close

`dispatching` is one boolean for a stack of frames: it is set while the innermost frame has not
been re-entered, and a nested frame that returns clears it for the frame below. `FlagInv` says
exactly that, and what a close does follows from it.
-/

namespace QjsLws.Protocol

open QjsLws.Misc

/-- What `dispatching` and `dispatch_reason` say about the stack of frames. -/
def FlagInv (s : DispatchState) : Prop :=
  match s.stack with
  | [] => s.dispatching = false ∧ s.asked = false
  | frame :: _ => s.dispatching = !frame.reentered ∧
      (frame.reentered = false → s.dispatchReason = some frame.reason)

theorem flagInv_fresh : FlagInv .fresh := ⟨rfl, rfl⟩

theorem flagInv_leave {s : DispatchState} (inv : FlagInv s) (result : Int) :
    FlagInv (frameLeave s result) := by
  unfold frameLeave
  split
  · exact inv
  · rename_i frame frames stack
    cases frames with
    | nil => simp [FlagInv, markReentered]
    | cons below rest => simp [FlagInv, markReentered]

/-- A close touches neither the flags nor the stack. -/
theorem lwsjsSocketClose_frame (s : DispatchState) (isWs : Bool) (code : Nat)
    (reason : List UInt8) :
    (lwsjsSocketClose s isWs code reason).dispatching = s.dispatching ∧
      (lwsjsSocketClose s isWs code reason).dispatchReason = s.dispatchReason ∧
      (lwsjsSocketClose s isWs code reason).stack = s.stack ∧
      (s.stack = [] → (lwsjsSocketClose s isWs code reason).asked = s.asked) := by
  unfold lwsjsSocketClose stashClose
  split
  · simp
  split
  · simp +contextual
  split <;> simp +contextual

theorem flagInv_step (s : DispatchState) (event : DispatchEvent) (inv : FlagInv s) :
    FlagInv (dispatchStep s event) := by
  cases event with
  | enter reason writeHandler => exact ⟨rfl, fun _ => rfl⟩
  | leave result => exact flagInv_leave inv result
  | close isWs code reason =>
    obtain ⟨dispatching, dispatchReason, stack, asked⟩ :=
      lwsjsSocketClose_frame s isWs code reason
    unfold FlagInv at *
    rw [show dispatchStep s (.close isWs code reason) = lwsjsSocketClose s isWs code reason from
      rfl, stack, dispatching, dispatchReason]
    cases frames : s.stack with
    | nil =>
      rw [frames] at inv
      exact ⟨inv.1, (asked frames).trans inv.2⟩
    | cons frame rest =>
      rw [frames] at inv
      exact inv
  | complete => exact inv
  | destroy => exact inv

theorem flagInv_run (events : List DispatchEvent) :
    FlagInv (runFrom dispatchStep .fresh events) :=
  run_invariant flagInv_step events .fresh flagInv_fresh

/-! ## Frees -/

/-- `wsi.close()` is not called in a frame that a nested frame has returned into. -/
def CloseOk (s : DispatchState) : DispatchEvent → Prop
  | .close .. => s.wsi = true → ∀ frame frames, s.stack = frame :: frames → frame.reentered = false
  | _ => True

/-- The wsi was freed only outside all frames. -/
def FreesOutside (s : DispatchState) : Prop :=
  ∀ active, .closeFreeWsi active ∈ s.log → active = []

theorem freesOutside_step (s : DispatchState) (event : DispatchEvent)
    (inv : FlagInv s ∧ FreesOutside s) (ok : CloseOk s event) :
    FlagInv (dispatchStep s event) ∧ FreesOutside (dispatchStep s event) := by
  refine ⟨flagInv_step s event inv.1, ?_⟩
  cases event with
  | enter reason writeHandler => exact inv.2
  | leave result =>
    intro active member
    simp only [dispatchStep, frameLeave] at member
    split at member
    · exact inv.2 active member
    · exact inv.2 active (by simpa using member)
  | close isWs code reason =>
    intro active member
    simp only [dispatchStep, lwsjsSocketClose] at member
    split at member
    · exact inv.2 active member
    rename_i live
    split at member
    · exact inv.2 active member
    split at member
    · exact inv.2 active member
    · rename_i idle
      rcases List.mem_append.mp member with member | member
      · exact inv.2 active member
      · cases frames : s.stack with
        | nil => simpa [frames] using member
        | cons frame rest =>
          have flag := inv.1
          rw [FlagInv, frames] at flag
          rw [flag.1, ok (by simpa using live) frame rest frames] at idle
          simp at idle
  | complete => exact inv.2
  | destroy => exact inv.2

/-! ## Return values -/

/-- All frames that returned between two states did so with a non-zero value. -/
def ReturnsNonzero (added : List DispatchCall) : Prop :=
  ∀ active asked ret, .returned active asked ret ∈ added → ret ≠ 0

theorem closed_step {s : DispatchState} (closed : s.closed = true) (event : DispatchEvent) :
    (dispatchStep s event).closed = true ∧
      ∃ added, (dispatchStep s event).log = s.log ++ added ∧ ReturnsNonzero added := by
  have nothing : ReturnsNonzero [] := fun _ _ _ member => by simp at member
  cases event with
  | enter reason writeHandler => exact ⟨closed, [], by simp [dispatchStep, frameEnter], nothing⟩
  | leave result =>
    simp only [dispatchStep, frameLeave]
    split
    · exact ⟨closed, [], by simp, nothing⟩
    · rename_i frame frames _
      refine ⟨closed, _, rfl, ?_⟩
      intro active asked ret member
      have value : frameResult s frame result = -1 := by
        simp [frameResult, closed]
      rw [value] at member
      simp only [List.mem_singleton, DispatchCall.returned.injEq] at member
      rw [member.2.2]
      decide
  | close isWs code reason =>
    simp only [dispatchStep, lwsjsSocketClose]
    split
    · exact ⟨closed, [], by simp, nothing⟩
    split
    · exact ⟨closed, [], by simp, nothing⟩
    split
    · exact ⟨rfl, [], by simp [stashClose], nothing⟩
    · exact ⟨closed, [.closeFreeWsi s.stack], rfl, fun _ _ _ member => by simp at member⟩
  | complete => exact ⟨closed, [], by simp [dispatchStep], nothing⟩
  | destroy => exact ⟨closed, [], by simp [dispatchStep], nothing⟩

/-- Once a close is recorded every frame that returns does so with a non-zero value. -/
theorem closed_run : ∀ (events : List DispatchEvent) (s : DispatchState), s.closed = true →
    ∃ added, (runFrom dispatchStep s events).log = s.log ++ added ∧ ReturnsNonzero added := by
  intro events
  induction events with
  | nil => intro s _; exact ⟨[], by simp, fun _ _ _ member => by simp at member⟩
  | cons event events ih =>
    intro s closed
    obtain ⟨still, first, log, nonzero⟩ := closed_step closed event
    obtain ⟨second, log', nonzero'⟩ := ih _ still
    refine ⟨first ++ second, by rw [runFrom_cons, log', log, List.append_assoc], ?_⟩
    intro active asked ret member
    rcases List.mem_append.mp member with member | member
    · exact nonzero active asked ret member
    · exact nonzero' active asked ret member

/-- A close in a frame that was not re-entered is put off or recorded, by the frame's reason. -/
theorem close_in_frame {s : DispatchState} (inv : FlagInv s) {frame : Frame} {frames : List Frame}
    (stack : s.stack = frame :: frames) (first : frame.reentered = false) (wsi : s.wsi = true)
    (isWs : Bool) (code : Nat) (reason : List UInt8) :
    if isDeferringReason (some frame.reason) then
      (lwsjsSocketClose s isWs code reason).deferred = s.deferred + 1 ∧
        (lwsjsSocketClose s isWs code reason).closed = s.closed
    else (lwsjsSocketClose s isWs code reason).closed = true := by
  rw [FlagInv, stack] at inv
  have flag : s.dispatching = true := by simp [inv.1, first]
  have reasonIs := inv.2 first
  cases deferring : isDeferringReason (some frame.reason) with
  | true => simp [lwsjsSocketClose, wsi, flag, reasonIs, deferring]
  | false => simp [lwsjsSocketClose, wsi, flag, reasonIs, deferring]

/-- In every run that never closes a wsi from a frame that was re-entered: the wsi is freed only
outside all frames; a close in a frame of `RAW_CONNECTED` or `CLIENT_ESTABLISHED` is put off to a
microtask; any other close in a frame is recorded, and from then on every frame returns a
non-zero value, the outermost one included. -/
theorem close_deferred_in_frames (events : List DispatchEvent)
    (ok : Along dispatchStep CloseOk .fresh events) :
    FreesOutside (runFrom dispatchStep .fresh events) ∧
      ∀ before after isWs code reason frame frames,
        events = before ++ .close isWs code reason :: after →
        (runFrom dispatchStep .fresh before).wsi = true →
        (runFrom dispatchStep .fresh before).stack = frame :: frames →
        let s := runFrom dispatchStep .fresh before
        let s' := lwsjsSocketClose s isWs code reason
        if isDeferringReason (some frame.reason) then
          s'.deferred = s.deferred + 1 ∧ s'.closed = s.closed
        else s'.closed = true ∧
          ∃ added, (runFrom dispatchStep .fresh events).log = s'.log ++ added ∧
            ReturnsNonzero added := by
  refine ⟨(run_invariant_along freesOutside_step events .fresh
    ⟨flagInv_fresh, fun _ member => by simp [DispatchState.fresh] at member⟩ ok).2, ?_⟩
  rintro before after isWs code reason frame frames rfl wsi stack
  have here := ((along_append dispatchStep CloseOk before _ .fresh).mp ok).2.1
  have closes := close_in_frame (flagInv_run before) stack (here wsi frame frames stack) wsi isWs code
    reason
  dsimp only
  split
  · rename_i deferring
    rwa [if_pos deferring] at closes
  · rename_i recording
    rw [if_neg recording] at closes
    refine ⟨closes, ?_⟩
    rw [runFrom_append, runFrom_cons]
    exact closed_run after _ closes

/-! ## Closes that are all recorded -/

/-- What one would expect of `wsi.close()`: never a free inside a frame, every close inside a frame
recorded, and a non-zero value returned by the outermost frame. -/
def CloseInv (s : DispatchState) : Prop :=
  FreesOutside s ∧ (s.asked = true → s.closed = true) ∧
    ∀ ret, .returned [] true ret ∈ s.log → ret ≠ 0

/-- A run ends as expected. -/
def ClosesDeferred (events : List DispatchEvent) : Prop :=
  CloseInv (runFrom dispatchStep .fresh events)

/-- `wsi.close()` is not called in a frame that a nested frame has returned into, and in one of
`RAW_CONNECTED` or `CLIENT_ESTABLISHED` only when a close was recorded before. -/
def CloseRecorded (s : DispatchState) : DispatchEvent → Prop
  | .close .. => s.wsi = true → ∀ frame frames, s.stack = frame :: frames →
      frame.reentered = false ∧ (isDeferringReason (some frame.reason) = true → s.closed = true)
  | _ => True

theorem closeOk_of_closeRecorded {s : DispatchState} {event : DispatchEvent}
    (recorded : CloseRecorded s event) : CloseOk s event := by
  cases event with
  | close isWs code reason =>
    exact fun wsi frame frames stack => (recorded wsi frame frames stack).1
  | _ => trivial

theorem closeInv_leave {s : DispatchState} (inv : CloseInv s) (result : Int) :
    (frameLeave s result).asked = true → (frameLeave s result).closed = true := by
  unfold frameLeave
  split
  · exact inv.2.1
  · intro asked
    exact inv.2.1 (Bool.and_eq_true_iff.mp asked).1

/-- The outermost frame of a nest that asked for a close returns a non-zero value. -/
theorem returned_leave {s : DispatchState} (inv : CloseInv s) (result : Int) :
    ∀ ret, .returned [] true ret ∈ (frameLeave s result).log → ret ≠ 0 := by
  unfold frameLeave
  split
  · exact inv.2.2
  · rename_i frame frames stack
    intro ret member
    rcases List.mem_append.mp member with old | new
    · exact inv.2.2 ret old
    · obtain ⟨-, asked, rfl⟩ := by simpa using new
      simp [frameResult, inv.2.1 asked]

/-- A close leaves what the frames returned as it is. -/
theorem returned_close (s : DispatchState) (isWs : Bool) (code : Nat) (reason : List UInt8)
    {active : List Frame} {asked : Bool} {ret : Int} :
    .returned active asked ret ∈ (lwsjsSocketClose s isWs code reason).log ↔
      .returned active asked ret ∈ s.log := by
  unfold lwsjsSocketClose stashClose
  split
  · rfl
  split
  · rfl
  split <;> simp

/-- A close that is recorded, or comes when one is already. -/
theorem asked_close {s : DispatchState} (flag : FlagInv s) (inv : CloseInv s) {isWs : Bool}
    {code : Nat} {reason : List UInt8} (ok : CloseRecorded s (.close isWs code reason))
    (asked : (lwsjsSocketClose s isWs code reason).asked = true) :
    (lwsjsSocketClose s isWs code reason).closed = true := by
  by_cases wsi : s.wsi = true
  · cases stack : s.stack with
    | nil =>
      have idle : s.dispatching = false := by
        rw [FlagInv, stack] at flag
        exact flag.1
      have before : s.asked = true := by
        rwa [(lwsjsSocketClose_frame s isWs code reason).2.2.2 stack] at asked
      simp [lwsjsSocketClose, stashClose, wsi, idle, inv.2.1 before]
    | cons frame frames =>
      obtain ⟨first, recorded⟩ := ok wsi frame frames stack
      have closes := close_in_frame flag stack first wsi isWs code reason
      split at closes
      · rename_i deferring
        rw [closes.2, recorded deferring]
      · exact closes
  · have same : lwsjsSocketClose s isWs code reason = s := by simp [lwsjsSocketClose, wsi]
    rw [same] at asked ⊢
    exact inv.2.1 asked

theorem closeInv_step (s : DispatchState) (event : DispatchEvent) (inv : FlagInv s ∧ CloseInv s)
    (ok : CloseRecorded s event) :
    FlagInv (dispatchStep s event) ∧ CloseInv (dispatchStep s event) := by
  obtain ⟨flag, frees⟩ := freesOutside_step s event ⟨inv.1, inv.2.1⟩ (closeOk_of_closeRecorded ok)
  refine ⟨flag, frees, ?_⟩
  cases event with
  | leave result => exact ⟨closeInv_leave inv.2 result, returned_leave inv.2 result⟩
  | close isWs code reason =>
    refine ⟨asked_close inv.1 inv.2 ok, fun ret member => ?_⟩
    exact inv.2.2.2 ret ((returned_close s isWs code reason).mp member)
  | _ => exact inv.2.2

/-- A close that is not of this kind frees the wsi under its frame, or is put off. -/
theorem closeRecorded_of_closeInv (s : DispatchState) (event : DispatchEvent)
    (inv : FlagInv s ∧ CloseInv s) (after : CloseInv (dispatchStep s event)) :
    CloseRecorded s event := by
  cases event with
  | close isWs code reason =>
    intro wsi frame frames stack
    have flag := inv.1
    rw [FlagInv, stack] at flag
    have first : frame.reentered = false := by
      by_contra again
      rw [Bool.not_eq_false] at again
      have idle : s.dispatching = false := by simpa [again] using flag.1
      have freed : .closeFreeWsi s.stack ∈ (lwsjsSocketClose s isWs code reason).log := by
        simp [lwsjsSocketClose, wsi, idle]
      have outside := after.1 s.stack freed
      rw [stack] at outside
      cases outside
    refine ⟨first, fun deferring => ?_⟩
    have closes := close_in_frame inv.1 stack first wsi isWs code reason
    rw [if_pos deferring] at closes
    have asked : (lwsjsSocketClose s isWs code reason).asked = true := by
      simp [lwsjsSocketClose, wsi, flag.1, first, flag.2 first, deferring, stack]
    exact closes.2.symm.trans (after.2.1 asked)
  | _ => trivial

/-- A close is deferred throughout a run exactly if none of them comes in a frame that a nested
frame has returned into, nor, as the first one, in a frame of `RAW_CONNECTED` or
`CLIENT_ESTABLISHED`. -/
theorem closesDeferred_iff (events : List DispatchEvent) :
    (∀ first, first <+: events → ClosesDeferred first) ↔
      Along dispatchStep CloseRecorded .fresh events :=
  prefixes_iff_along closeInv_step closeRecorded_of_closeInv (fun _ inv => inv.2) events .fresh
    ⟨flagInv_fresh, fun _ member => by simp [DispatchState.fresh] at member,
      fun asked => by simp [DispatchState.fresh] at asked,
      fun _ member => by simp [DispatchState.fresh] at member⟩

/-- It fails when `CLIENT_ESTABLISHED` closes, and when a handler closes after a nested callback has
returned into it: there the wsi is freed under the active frame. -/
theorem closesDeferred_fails :
    ¬ ClosesDeferred [.enter .clientEstablished false, .close true 1000 [], .leave 0] ∧
      ¬ ClosesDeferred [.enter (.other 6) false, .enter .serverWriteable false, .leave 0,
        .close true 1000 [], .leave 0] := by
  refine ⟨fun holds => ?_, fun holds => ?_⟩
  · exact holds.2.2 0 (by decide) rfl
  · have := holds.1 [⟨.other 6, false, true⟩] (by decide)
    cases this

end QjsLws.Protocol
