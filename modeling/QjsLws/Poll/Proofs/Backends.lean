import Mathlib.Data.List.Nodup
import QjsLws.Poll.Backends

/-!
# The poll backends agree

Each operation of either backend has one lemma that says which pairs are waited for afterwards.
The epoll backend follows every mask; the default backend follows the callbacks of `Followed`, and
the first other callback separates the two.
-/

namespace QjsLws.Poll

open QjsLws.Misc

/-! ## The default backend -/

/-- The `handlers` list has one entry for each handler set with `os`. -/
def HandlersOk (lws : Context) : Prop :=
  ∀ fd write, lws.handlers.count ⟨fd, write⟩ = if ioWatches lws fd write then 1 else 0

theorem iohandlerFind_eq (lws : Context) (fd : Int) (write : Bool) :
    iohandlerFind lws fd write
      = if ⟨fd, write⟩ ∈ lws.handlers then some ⟨fd, write⟩ else none := by
  unfold iohandlerFind
  induction lws.handlers with
  | nil => simp
  | cons hf rest ih =>
    rcases hf with ⟨d, w⟩
    by_cases same : d = fd ∧ w = write
    · simp [same.1, same.2]
    · rw [List.find?_cons_of_neg (by simpa using same), ih]
      have other : (⟨fd, write⟩ : HandlerFunction) ≠ ⟨d, w⟩ := by
        rintro ⟨⟩
        exact same ⟨rfl, rfl⟩
      simp [List.mem_cons, other]

@[simp] theorem iohandlerSet_epoll (lws : Context) (fd : Int) (handler : Option Handler)
    (write : Bool) : (iohandlerSet lws fd handler write).epoll = lws.epoll := by
  unfold iohandlerSet osSetHandler iohandlerAdd iohandlerRemove
  split <;> split <;> rfl

theorem ioWatches_iohandlerSet (lws : Context) (fd d : Int) (handler : Option Handler)
    (write w : Bool) :
    ioWatches (iohandlerSet lws fd handler write) d w
      = if d = fd ∧ w = write then handler.isSome else ioWatches lws d w := by
  have unlisted : (if handler.isSome then iohandlerAdd lws fd write
      else iohandlerRemove lws fd write).os = lws.os := by
    unfold iohandlerAdd iohandlerRemove
    split <;> split <;> rfl
  simp only [ioWatches, iohandlerSet, osSetHandler, unlisted]
  split <;> rfl

theorem count_iohandlerAdd (lws : Context) (fd : Int) (write : Bool) (hf : HandlerFunction) :
    (iohandlerAdd lws fd write).handlers.count hf
      = if hf = ⟨fd, write⟩ then max 1 (lws.handlers.count hf) else lws.handlers.count hf := by
  unfold iohandlerAdd
  rw [iohandlerFind_eq]
  by_cases present : ⟨fd, write⟩ ∈ lws.handlers
  · have counted := List.count_pos_iff.mpr present
    simp only [present, if_true]
    split
    · rename_i same
      subst same
      omega
    · rfl
  · have counted := List.count_eq_zero.mpr present
    simp only [present, if_false, List.count_cons, beq_iff_eq]
    by_cases same : hf = ⟨fd, write⟩
    · subst same
      simp [counted]
    · simp [same, Ne.symm same]

theorem count_iohandlerRemove (lws : Context) (fd : Int) (write : Bool) (hf : HandlerFunction) :
    (iohandlerRemove lws fd write).handlers.count hf
      = if hf = ⟨fd, write⟩ then lws.handlers.count hf - 1 else lws.handlers.count hf := by
  unfold iohandlerRemove
  rw [iohandlerFind_eq]
  by_cases present : ⟨fd, write⟩ ∈ lws.handlers
  · simp only [present, if_true, List.count_erase, beq_iff_eq]
    by_cases same : hf = ⟨fd, write⟩
    · simp [same]
    · simp [same, Ne.symm same]
  · have counted := List.count_eq_zero.mpr present
    simp only [present, if_false]
    split
    · rename_i same
      subst same
      omega
    · rfl

theorem HandlersOk.iohandlerSet {lws : Context} (ok : HandlersOk lws) (fd : Int)
    (handler : Option Handler) (write : Bool) : HandlersOk (iohandlerSet lws fd handler write) := by
  intro d w
  have before := ok d w
  rw [ioWatches_iohandlerSet]
  have same : (⟨d, w⟩ : HandlerFunction) = ⟨fd, write⟩ ↔ d = fd ∧ w = write := by simp
  cases handler with
  | some fn =>
    have counted := count_iohandlerAdd lws fd write ⟨d, w⟩
    simp only [Poll.iohandlerSet, osSetHandler, Option.isSome_some, if_true, counted, same]
    split
    · split at before <;> simp [before]
    · exact before
  | none =>
    have counted := count_iohandlerRemove lws fd write ⟨d, w⟩
    simp only [Poll.iohandlerSet, osSetHandler, Option.isSome_none, Bool.false_eq_true, if_false,
      counted, same]
    split
    · split at before <;> simp [before]
    · exact before

theorem HandlersOk.callback {lws : Context} (ok : HandlersOk lws) (reason : PollReason)
    (x : PollArgs) : HandlersOk (lwsjsCallbackPollfd .iohandler lws reason x) := by
  have register : HandlersOk (iohandlerRegister lws reason x) := by
    unfold iohandlerRegister
    apply HandlersOk.iohandlerSet
    split
    · exact ok.iohandlerSet _ _ _
    · exact ok
  cases reason with
  | lockPoll => exact ok
  | unlockPoll => exact ok
  | delPollFd => exact (ok.iohandlerSet _ _ _).iohandlerSet _ _ _
  | addPollFd =>
    simp only [lwsjsCallbackPollfd]
    split
    · exact ok
    · exact register
  | changeModePollFd =>
    simp only [lwsjsCallbackPollfd]
    split
    · exact ok
    · exact register

/-- What the default backend waits for after a new mask. -/
theorem ioWatches_register (lws : Context) (reason : PollReason) (x : PollArgs) (d : Int)
    (w : Bool) :
    ioWatches (iohandlerRegister lws reason x) d w
      = if d = x.fd then
          decide (w = x.events.pollout) ||
            (decide (reason ≠ .changeModePollFd) && ioWatches lws d w)
        else ioWatches lws d w := by
  unfold iohandlerRegister
  rw [ioWatches_iohandlerSet]
  by_cases same : d = x.fd
  · by_cases mode : reason = .changeModePollFd
    · simp only [mode, if_true, ioWatches_iohandlerSet]
      cases w <;> cases x.events.pollout <;> simp [same]
    · cases w <;> cases x.events.pollout <;> simp [same, mode]
  · simp only [same, false_and, if_false]
    split
    · rw [ioWatches_iohandlerSet]
      simp [same]
    · rfl

theorem ioWatches_del (lws : Context) (x : PollArgs) (d : Int) (w : Bool) :
    ioWatches (lwsjsCallbackPollfd .iohandler lws .delPollFd x) d w
      = if d = x.fd then false else ioWatches lws d w := by
  simp only [lwsjsCallbackPollfd, ioWatches_iohandlerSet]
  by_cases same : d = x.fd
  · cases w <;> simp [same]
  · simp [same]

/-! ## The epoll backend -/

/-- The list of descriptors and the kernel's interest list hold the same masks. -/
structure EpollOk (ep : Epoll) : Prop where
  nodup : (ep.fds.map EpollFd.fd).Nodup
  interest : ∀ fd, ep.interest fd
    = (epollFdFind ep fd).map fun e => ⟨e.events.pollin, e.events.pollout⟩

/-- The epoll instance of the context, if there is one, is consistent. -/
def ContextOk (lws : Context) : Prop := ∀ ep, lws.epoll = some ep → EpollOk ep

theorem find_replace {fds : List EpollFd} {e : EpollFd} (events : Events) (d : Int) :
    fds.find? (·.fd = e.fd) = some e →
    (fds.replace e { e with events := events }).find? (·.fd = d)
      = if d = e.fd then some { e with events := events } else fds.find? (·.fd = d) := by
  induction fds with
  | nil => simp
  | cons f rest ih =>
    intro found
    by_cases same : f = e
    · subst same
      by_cases target : d = f.fd
      · simp [target]
      · simp [target, Ne.symm target]
    · have other : f.fd ≠ e.fd := by
        intro equal
        rw [List.find?_cons_of_pos (by simpa using equal)] at found
        exact same (Option.some.inj found)
      rw [List.find?_cons_of_neg (by simpa using other)] at found
      have unequal : (e == f) = false := by simpa using Ne.symm same
      simp only [List.replace_cons, unequal]
      by_cases target : f.fd = d
      · have away : d ≠ e.fd := target ▸ other
        simp [target, away]
      · have tail := ih found
        simp only [List.find?_cons, target, decide_false, tail]

theorem map_fd_replace {fds : List EpollFd} {e : EpollFd} (events : Events) :
    (fds.replace e { e with events := events }).map EpollFd.fd = fds.map EpollFd.fd := by
  induction fds with
  | nil => rfl
  | cons f rest ih =>
    rw [List.replace_cons]
    split
    · rename_i same
      simp [eq_of_beq same]
    · simp [ih]

theorem find_erase {fds : List EpollFd} {e : EpollFd} (nodup : (fds.map EpollFd.fd).Nodup)
    (member : e ∈ fds) (d : Int) :
    (fds.erase e).find? (·.fd = d) = if d = e.fd then none else fds.find? (·.fd = d) := by
  induction fds with
  | nil => simp at member
  | cons f rest ih =>
    rw [List.map_cons, List.nodup_cons] at nodup
    by_cases same : f = e
    · subst same
      rw [List.erase_cons_head]
      by_cases target : d = f.fd
      · subst target
        simp only [if_true, List.find?_eq_none, decide_eq_true_eq]
        intro g later equal
        exact nodup.1 (List.mem_map.mpr ⟨g, later, equal⟩)
      · simp [target, Ne.symm target]
    · have later : e ∈ rest := by
        rcases List.mem_cons.mp member with equal | later
        · exact absurd equal.symm same
        · exact later
      have other : f.fd ≠ e.fd := fun equal => nodup.1 (List.mem_map.mpr ⟨e, later, equal.symm⟩)
      rw [List.erase_cons_tail (by simpa using same)]
      by_cases target : f.fd = d
      · have away : d ≠ e.fd := target ▸ other
        simp [target, away]
      · have tail := ih nodup.2 later
        simp only [List.find?_cons, target, decide_false, tail]

theorem fd_of_find {fds : List EpollFd} {fd : Int} {e : EpollFd}
    (found : fds.find? (·.fd = fd) = some e) : e.fd = fd := by
  simpa using List.find?_some found

/-- The instance the callback works on is consistent, and waits for what the context waited for. -/
theorem epollOf_spec (epfd : Int) {lws : Context} (ok : ContextOk lws) :
    EpollOk (epollOf epfd lws).2 ∧
      ∀ d w, ((epollOf epfd lws).2.interest d).any (·.has w) = epollWatches lws d w := by
  unfold epollOf
  split
  · rename_i ep present
    refine ⟨ok ep present, ?_⟩
    intro d w
    simp [epollWatches, present]
  · rename_i absent
    refine ⟨⟨List.nodup_nil, fun _ => rfl⟩, ?_⟩
    intro d w
    simp [epollNew, epollWatches, absent]

theorem lwsEpollCtl_spec (epfd : Int) {lws : Context} (ok : ContextOk lws) (fd : Int)
    (events : Events) :
    ContextOk (lwsEpollCtl epfd lws fd events) ∧
      ∀ d w, epollWatches (lwsEpollCtl epfd lws fd events) d w
        = if d = fd then events.has w else epollWatches lws d w := by
  obtain ⟨consistent, watched⟩ := epollOf_spec epfd ok
  unfold lwsEpollCtl
  generalize epollOf epfd lws = opened at consistent watched ⊢
  rcases opened with ⟨lws', ep⟩
  dsimp only at consistent watched ⊢
  have direction : ∀ w, (EpollEvents.mk events.pollin events.pollout).has w = events.has w :=
    fun _ => rfl
  cases found : epollFdFind ep fd with
  | some e =>
    have named : e.fd = fd := fd_of_find found
    subst named
    have present : ep.interest e.fd = some ⟨e.events.pollin, e.events.pollout⟩ := by
      rw [consistent.interest, found, Option.map_some]
    simp only [epollCtl, present]
    refine ⟨?_, ?_⟩
    · rintro _ ⟨⟩
      refine ⟨by rw [map_fd_replace]; exact consistent.nodup, ?_⟩
      intro d
      have replaced := find_replace events d found
      simp only [epollFdFind, replaced]
      split
      · rfl
      · exact consistent.interest d
    · intro d w
      rw [← watched]
      simp only [epollWatches]
      split
      · exact direction w
      · rfl
  | none =>
    have absent : ep.interest fd = none := by rw [consistent.interest, found, Option.map_none]
    simp only [epollCtl, absent]
    refine ⟨?_, ?_⟩
    · rintro _ ⟨⟩
      refine ⟨?_, ?_⟩
      · rw [List.map_cons, List.nodup_cons]
        refine ⟨?_, consistent.nodup⟩
        intro member
        obtain ⟨e, listed, named⟩ := List.mem_map.mp member
        have missing := List.find?_eq_none.mp found e listed
        simp [named] at missing
      · intro d
        by_cases same : d = fd
        · simp [epollFdFind, same]
        · simp only [epollFdFind, same, if_false, List.find?_cons, Ne.symm same, decide_false]
          exact consistent.interest d
    · intro d w
      rw [← watched]
      simp only [epollWatches]
      split
      · exact direction w
      · rfl

theorem lwsEpollDel_spec {lws : Context} (ok : ContextOk lws) (fd : Int) :
    ContextOk (lwsEpollDel lws fd) ∧
      ∀ d w, epollWatches (lwsEpollDel lws fd) d w
        = if d = fd then false else epollWatches lws d w := by
  unfold lwsEpollDel
  split
  · rename_i absent
    refine ⟨ok, ?_⟩
    intro d w
    simp [epollWatches, absent]
  · rename_i ep present
    have consistent := ok ep present
    cases found : epollFdFind ep fd with
    | none =>
      refine ⟨ok, ?_⟩
      intro d w
      by_cases same : d = fd
      · simp [epollWatches, present, consistent.interest, same, found]
      · simp [same]
    | some e =>
      have named : e.fd = fd := fd_of_find found
      subst named
      have stored : ep.interest e.fd = some ⟨e.events.pollin, e.events.pollout⟩ := by
        rw [consistent.interest, found, Option.map_some]
      simp only [epollCtl, stored]
      refine ⟨?_, ?_⟩
      · rintro _ ⟨⟩
        refine ⟨consistent.nodup.sublist (List.erase_sublist.map _), ?_⟩
        intro d
        have erased := find_erase consistent.nodup (List.mem_of_find?_eq_some found) d
        simp only [epollFdFind, erased]
        split
        · rfl
        · exact consistent.interest d
      · intro d w
        simp only [epollWatches, present]
        split <;> rfl

/-! ## Runs -/

/-- What holds of both contexts after any callbacks. -/
structure BuildsOk (s : Builds) : Prop where
  io : HandlersOk s.io
  ep : ContextOk s.ep

theorem buildsOk_new : BuildsOk Builds.new :=
  ⟨fun _ _ => rfl, fun _ present => nomatch present⟩

theorem ContextOk.callback {lws : Context} (ok : ContextOk lws) (epfd : Int)
    (reason : PollReason) (x : PollArgs) :
    ContextOk (lwsjsCallbackPollfd (.epoll epfd) lws reason x) := by
  cases reason with
  | lockPoll => exact ok
  | unlockPoll => exact ok
  | delPollFd => exact (lwsEpollDel_spec ok x.fd).1
  | addPollFd =>
    simp only [lwsjsCallbackPollfd]
    split
    · exact ok
    · exact (lwsEpollCtl_spec epfd ok x.fd x.events).1
  | changeModePollFd =>
    simp only [lwsjsCallbackPollfd]
    split
    · exact ok
    · exact (lwsEpollCtl_spec epfd ok x.fd x.events).1

theorem BuildsOk.step {s : Builds} (ok : BuildsOk s) (epfd : Int) (c : Callback) :
    BuildsOk (step epfd s c) :=
  ⟨ok.io.callback c.reason _, ok.ep.callback epfd c.reason _⟩

/-- The current masks after an addition or a change of mode. -/
theorem current_note_set {s : Builds} {c : Callback}
    (sets : c.reason = .addPollFd ∨ c.reason = .changeModePollFd) (d : Int) :
    (s.note c).current d = if d = c.fd then c.events else s.current d := by
  rcases sets with reason | reason
  all_goals
    simp only [Builds.note, reason, Builds.current]
    by_cases same : d = c.fd
    · simp [same]
    · simp [same]

/-- The current masks after a removal. -/
theorem current_note_del {s : Builds} {c : Callback} (reason : c.reason = .delPollFd) (d : Int) :
    (s.note c).current d = if d = c.fd then .zero else s.current d := by
  simp only [Builds.note, reason, Builds.current]
  by_cases same : d = c.fd
  · simp [same]
  · simp [same]

theorem current_step (epfd : Int) (s : Builds) (c : Callback) (d : Int) :
    (step epfd s c).current d = (s.note c).current d := rfl

theorem Events.eq_iff_has {a b : Events} : a = b ↔ ∀ write, a.has write = b.has write := by
  rcases a with ⟨i, o⟩
  rcases b with ⟨i', o'⟩
  simp [Events.has]

/-- After a new mask for one descriptor, only that descriptor can separate the builds. -/
theorem agree_step_iff {s : Builds} {c : Callback} {epfd : Int} (ok : BuildsOk s) (agree : Agree s)
    (sets : c.reason = .addPollFd ∨ c.reason = .changeModePollFd)
    (ioFrame : ∀ d w, d ≠ c.fd → ioWatches (step epfd s c).io d w = ioWatches s.io d w)
    (epFrame : ∀ d w, d ≠ c.fd → epollWatches (step epfd s c).ep d w = epollWatches s.ep d w) :
    Agree (step epfd s c) ↔
      (∀ w, ioWatches (step epfd s c).io c.fd w = c.events.has w) ∧
        ∀ w, epollWatches (step epfd s c).ep c.fd w = c.events.has w := by
  have current : ∀ d, (step epfd s c).current d = if d = c.fd then c.events else s.current d :=
    fun d => by rw [current_step, current_note_set sets]
  constructor
  · intro after
    refine ⟨fun w => ?_, fun w => ?_⟩
    · simpa [current] using after.io c.fd w
    · simpa [current] using after.epoll c.fd w
  · rintro ⟨io, epoll⟩
    refine ⟨fun d w => ?_, fun d w => ?_, (ok.step epfd c).io⟩
    · rw [current]
      by_cases same : d = c.fd
      · simp [same, io]
      · simp [same, ioFrame d w same, agree.io]
    · rw [current]
      by_cases same : d = c.fd
      · simp [same, epoll]
      · simp [same, epFrame d w same, agree.epoll]

/-- A mask equal to the one last delivered is ignored by both builds. -/
theorem agree_repeated_iff {s : Builds} {c : Callback} {epfd : Int} (ok : BuildsOk s)
    (agree : Agree s) (sets : c.reason = .addPollFd ∨ c.reason = .changeModePollFd)
    (repeated : c.events = s.delivered c.fd) :
    Agree (step epfd s c) ↔ c.events = s.current c.fd := by
  have unchanged : (step epfd s c).io = s.io ∧ (step epfd s c).ep = s.ep := by
    rcases sets with reason | reason <;> simp [step, lwsjsCallbackPollfd, reason, repeated]
  have frames : Agree (step epfd s c) ↔ _ := agree_step_iff ok agree sets
    (fun d w _ => by rw [unchanged.1]) (fun d w _ => by rw [unchanged.2])
  rw [frames, unchanged.1, unchanged.2, Events.eq_iff_has]
  constructor
  · rintro ⟨io, -⟩ w
    rw [← io, agree.io]
  · intro same
    refine ⟨fun w => ?_, fun w => ?_⟩
    · rw [same, agree.io]
    · rw [same, agree.epoll]

/-- A new mask reaches the epoll instance as it is; the default backend must end with its bits. -/
theorem agree_new_iff {s : Builds} {c : Callback} {epfd : Int} (ok : BuildsOk s)
    (agree : Agree s) (sets : c.reason = .addPollFd ∨ c.reason = .changeModePollFd)
    (changed : c.events ≠ s.delivered c.fd) :
    Agree (step epfd s c) ↔ ∀ w,
      (decide (w = c.events.pollout) ||
        (decide (c.reason ≠ .changeModePollFd) && (s.current c.fd).has w)) = c.events.has w := by
  have io : (step epfd s c).io
      = iohandlerRegister s.io c.reason ⟨c.fd, c.events, s.delivered c.fd⟩ := by
    rcases sets with reason | reason <;> simp [step, lwsjsCallbackPollfd, reason, changed]
  have ep : (step epfd s c).ep = lwsEpollCtl epfd s.ep c.fd c.events := by
    rcases sets with reason | reason <;> simp [step, lwsjsCallbackPollfd, reason, changed]
  have epoll := (lwsEpollCtl_spec epfd ok.ep c.fd c.events).2
  have frames : Agree (step epfd s c) ↔ _ := agree_step_iff ok agree sets
    (fun d w away => by rw [io, ioWatches_register]; simp [away])
    (fun d w away => by rw [ep, epoll]; simp [away])
  rw [frames, io, ep]
  constructor
  · rintro ⟨registered, -⟩ w
    rw [← registered w, ioWatches_register]
    simp [agree.io]
  · intro bits
    refine ⟨fun w => ?_, fun w => ?_⟩
    · rw [← bits w, ioWatches_register]
      simp [agree.io]
    · rw [epoll]
      simp

/-- One callback keeps the builds together exactly when it is one the default backend follows. -/
theorem agree_step (epfd : Int) {s : Builds} (c : Callback) (ok : BuildsOk s) (agree : Agree s) :
    Agree (step epfd s c) ↔ Followed s c := by
  cases reason : c.reason with
  | lockPoll =>
    have same : step epfd s c = s := by simp [step, Builds.note, lwsjsCallbackPollfd, reason]
    simp [same, agree, Followed, reason]
  | unlockPoll =>
    have same : step epfd s c = s := by simp [step, Builds.note, lwsjsCallbackPollfd, reason]
    simp [same, agree, Followed, reason]
  | delPollFd =>
    simp only [Followed, reason, iff_true]
    have current : ∀ d, (step epfd s c).current d = if d = c.fd then .zero else s.current d :=
      fun d => by rw [current_step, current_note_del reason]
    have zero : ∀ w, Events.zero.has w = false := by decide
    refine ⟨fun d w => ?_, fun d w => ?_, (ok.step epfd c).io⟩
    · simp only [step, reason, ioWatches_del]
      have after := current d
      simp only [step, reason] at after
      rw [after]
      split
      · exact (zero w).symm
      · exact agree.io d w
    · have removed := (lwsEpollDel_spec ok.ep c.fd).2 d w
      simp only [step, reason, lwsjsCallbackPollfd]
      have after := current d
      simp only [step, reason, lwsjsCallbackPollfd] at after
      rw [after, removed]
      split
      · exact (zero w).symm
      · exact agree.epoll d w
  | addPollFd =>
    simp only [Followed, reason]
    split
    · rename_i repeated
      exact agree_repeated_iff ok agree (.inl reason) repeated
    · rename_i changed
      -- a live descriptor's current mask is the one last delivered
      have apart : s.current c.fd = .zero ∨ c.events ≠ s.current c.fd := by
        unfold Builds.current
        split
        · exact .inr changed
        · exact .inl rfl
      rw [agree_new_iff ok agree (.inl reason) changed, reason]
      revert apart
      generalize c.events = events
      generalize s.current c.fd = current
      rcases events with ⟨i, o⟩
      rcases current with ⟨i', o'⟩
      revert i o i' o'
      decide
  | changeModePollFd =>
    simp only [Followed, reason]
    split
    · rename_i repeated
      exact agree_repeated_iff ok agree (.inr reason) repeated
    · rename_i changed
      rw [agree_new_iff ok agree (.inr reason) changed, reason]
      generalize c.events = events
      rcases events with ⟨i, o⟩
      revert i o
      simp only [ne_eq, not_true_eq_false, decide_false, Bool.false_and, Bool.or_false]
      decide

theorem agree_new : Agree Builds.new :=
  ⟨fun _ write => by cases write <;> rfl, fun _ write => by cases write <;> rfl, fun _ _ => rfl⟩

/-- Over every run of callbacks, the builds agree in every state passed exactly when every
callback is one the default backend follows. -/
theorem agree_along_iff (epfd : Int) (callbacks : List Callback) :
    (∀ first, first <+: callbacks → Agree (runFrom (step epfd) Builds.new first)) ↔
      Along (step epfd) Followed Builds.new callbacks :=
  @prefixes_iff_along _ _ (step epfd) Followed (fun s => BuildsOk s ∧ Agree s) Agree
    (fun _ c inv followed => ⟨inv.1.step epfd c, (agree_step epfd c inv.1 inv.2).mpr followed⟩)
    (fun _ c inv agree => (agree_step epfd c inv.1 inv.2).mp agree) (fun _ inv => inv.2)
    callbacks Builds.new ⟨buildsOk_new, agree_new⟩

/-- A socket added for reading that is then also to be written loses its read interest. -/
theorem read_interest_lost :
    ¬Agree (runFrom (step 3) Builds.new
      [⟨.addPollFd, 7, ⟨true, false⟩⟩, ⟨.changeModePollFd, 7, ⟨true, true⟩⟩]) := by
  intro agree
  have reading := agree.io 7 false
  revert reading
  decide

end QjsLws.Poll
