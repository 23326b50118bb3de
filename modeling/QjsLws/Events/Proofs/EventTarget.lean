import QjsLws.Events.EventTarget
import QjsLws.Misc.OrderedSet

/-!
# Listener lists

The two structures of a target hold one list of registrations (`Lists`) as long as every removal
takes out what it should (`Proper`). The listener contract is stated over that list, read off the
log. That a once listener is called once follows from where it waits: in one loop at most, and out
of force after its call (`OnceInv`).
-/

namespace QjsLws.Events

open QjsLws.Misc

/-! ## The contract -/

/-- The registrations in force after an event. -/
def note (l : List Registration) : TargetEvent → List Registration
  | .added r => l ++ [r]
  | .removed type listener => l.filter fun r => !(r.type = type && r.listener = listener)
  | .dropped r => l.filter (· ≠ r)
  | .called _ r => if r.once then l.filter (· ≠ r) else l
  | _ => l

/-- The abstract listener list: what was added, less what was removed, dropped or consumed. -/
def registered (log : List TargetEvent) : List Registration := log.foldl note []

/-- The registrations that a dispatch has called. -/
def callsOf (dispatch : Nat) (log : List TargetEvent) : List Registration :=
  log.filterMap fun
    | .called d r => if d = dispatch then some r else none
    | _ => none

/-- Whether the event is a call of the registration. -/
def TargetEvent.calls (r : Registration) : TargetEvent → Bool
  | .called _ r' => r' = r
  | _ => false

/-- No dispatch and no registration throws; a dispatch calls the registrations of its type that
were in force when it began, in order, each once, and all of them by its end; a once registration is
called at most once; an abort leaves no registration of its signal, and drops no other. -/
structure ListenerContract (log : List TargetEvent) : Prop where
  quiet : .threw ∉ log
  distinct : ((registered log).map Registration.id).Nodup
  inOrder : ∀ before d type after, log = before ++ .began d type :: after →
    callsOf d after <+: (registered before).filter (·.type = type)
  complete : ∀ before d type after, log = before ++ .began d type :: after → .ended d ∈ after →
    callsOf d after = (registered before).filter (·.type = type)
  once : ∀ r, r.once = true → log.countP (·.calls r) ≤ 1
  abortsOwn : ∀ before signal after, log = before ++ .aborted signal :: after →
    ∀ r ∈ registered before, r.signal ≠ some signal
  abortsOnly : ∀ before r after, log = before ++ .dropped r :: after →
    ∃ signal, r.signal = some signal ∧ .aborting signal ∈ before

/-! ## When it is kept -/

namespace EventTarget

/-- A removal by the program takes out everything: the listener has no wrapper at all, or nothing
but one wrapper under this type. -/
def RemovesAll (t : EventTarget) (type : Text) (listener : Nat) : Prop :=
  t.wrappersOf listener = [] ∨
    (∀ r ∈ t.entries type, r.listener = listener → r.wrapped = true) ∧
      ((t.wrappersOf listener).filter (·.type = type)).length ≤ 1

/-- A removal on behalf of a registration takes out that one: it is the last wrapper of its
listener under its type, or it is gone, and the removal would not find another one. -/
def RemovesOwn (t : EventTarget) (r : Registration) : Prop :=
  if r ∈ t.entries r.type then
    ((t.wrappersOf r.listener).filter (·.type = r.type)).getLast? = some r
  else if t.wrappersOf r.listener = [] then
    ∀ r' ∈ t.entries r.type, r'.listener ≠ r.listener
  else (t.wrappersOf r.listener).filter (·.type = r.type) = []

end EventTarget

/-- What the dispatches in progress still have to call. -/
def waiting (frames : List Frame) : List Registration :=
  frames.flatMap fun
    | .dispatch _ queue => queue
    | .abort .. => []

namespace TargetState

/-- The calls that the class handles: types are no inherited names, removals find what they are
for, no dispatch begins that would also call a once listener which a dispatch in progress still has
to call, and a listener that throws is the last of its loop. -/
def Proper (s : TargetState) : TargetCall → Prop
  | .addEventListener type _ _ signal =>
    signal.any (s.aborted.contains ·) = true ∨ inherited type = false
  | .removeEventListener type listener => s.target.RemovesAll type listener
  | .abort _ => True
  | .dispatchEvent type targetThrows =>
    targetThrows = false ∧ inherited type = false ∧
      ∀ r ∈ s.target.entries type, r.once = true → r ∉ waiting s.frames
  | .goesOn =>
    match s.frames with
    | .dispatch _ (r :: _) :: _ => r.once = true → s.target.RemovesOwn r
    | .abort _ (r :: _) :: _ => s.target.RemovesOwn r
    | _ => True
  | .throws =>
    match s.frames with
    | .dispatch _ queue :: _ | .abort _ queue :: _ => queue = []
    | [] => True

end TargetState

/-! ## One list in two structures -/

section Arrays

variable {α : Type} [DecidableEq α] {m : Assoc α (List Registration)} {k : α}
  {left : List Registration}

/-- An array that something was removed from is stored, or deleted when it is empty. -/
theorem get_left (k' : α) :
    ((if left = [] then m.erase k else m.set k left).get k').getD []
      = if k = k' then left else (m.get k').getD [] := by
  by_cases nothing : left = []
  · rw [if_pos nothing, Assoc.get_erase]
    by_cases same : k = k'
    · simp [same, nothing]
    · simp [same]
  · rw [if_neg nothing, Assoc.get_set]
    by_cases same : k = k'
    · simp [same]
    · simp [same]

theorem left_ne_nil (kept : ∀ k', m.get k' ≠ some []) (k' : α) :
    (if left = [] then m.erase k else m.set k left).get k' ≠ some [] := by
  by_cases nothing : left = []
  · rw [if_pos nothing, Assoc.get_erase]
    split
    · simp
    · exact kept k'
  · rw [if_neg nothing, Assoc.get_set]
    split
    · simpa using nothing
    · exact kept k'

end Arrays

/-- The arrays and the wrapper lists hold the registrations of the list, in its order. -/
structure Lists (t : EventTarget) (l : List Registration) : Prop where
  entries : ∀ type, t.entries type = l.filter (·.type = type)
  wrappers : ∀ listener,
    t.wrappersOf listener = l.filter fun r => r.listener = listener && r.wrapped
  kept : ∀ listener, t.listenerMap.get listener ≠ some []

namespace Lists

variable {t : EventTarget} {l : List Registration} {r : Registration}

theorem new : Lists .new [] := ⟨fun _ => rfl, fun _ => rfl, fun _ => by simp [EventTarget.new]⟩

theorem push (lists : Lists t l) (own : inherited r.type = false) :
    Lists (t.push r) (l ++ [r]) := by
  refine ⟨fun type => ?_, fun listener => ?_, fun listener => ?_⟩
  · rw [List.filter_append, ← lists.entries]
    simp only [EventTarget.entries, EventTarget.push, own, Bool.false_eq_true, if_false,
      Assoc.get_set]
    by_cases same : r.type = type
    · simp [same]
    · simp [same]
  · rw [List.filter_append, ← lists.wrappers]
    simp only [EventTarget.wrappersOf, EventTarget.push]
    cases wrapped : r.wrapped with
    | false => simp [wrapped]
    | true =>
      rw [if_pos rfl, Assoc.get_set]
      by_cases same : r.listener = listener
      · simp [same, wrapped]
      · simp [same]
  · simp only [EventTarget.push]
    split
    · rw [Assoc.get_set]
      split
      · simp
      · exact lists.kept listener
    · exact lists.kept listener

theorem mem_entries (lists : Lists t l) : r ∈ t.entries r.type ↔ r ∈ l := by
  simp [lists.entries]

/-- An array that is missing leaves nothing to remove. -/
theorem entries_missing {type : Text} (missing : t.listeners.has type = false) :
    t.entries type = [] := by
  rw [Assoc.has, Option.isSome_eq_false_iff, Option.isNone_iff_eq_none] at missing
  rw [EventTarget.entries, missing, Option.getD_none]

/-- The wrapper path. -/
theorem removeWrapper (lists : Lists t l) {type : Text} {listener : Nat}
    {wrappers : List Registration} {w : Registration}
    (tracked : t.listenerMap.get listener = some wrappers)
    (last : (wrappers.filter (·.type = type)).getLast? = some w) :
    Lists (t.removeEventListener type listener) (l.filter (· ≠ w)) := by
  have held : wrappers = l.filter fun r => r.listener = listener && r.wrapped := by
    rw [← lists.wrappers, EventTarget.wrappersOf, tracked, Option.getD_some]
  obtain ⟨member, typed, own, wrapped⟩ : w ∈ l ∧ w.type = type ∧ w.listener = listener ∧
      w.wrapped = true := by
    simpa [held] using List.mem_of_getLast? last
  have present : t.listeners.has type = true := by
    by_contra missing
    rw [Bool.not_eq_true] at missing
    have here := lists.mem_entries.mpr member
    rw [typed, entries_missing missing] at here
    cases here
  have removed : t.removeEventListener type listener =
      { listeners := if (t.entries type).filter (· ≠ w) = [] then t.listeners.erase type
          else t.listeners.set type ((t.entries type).filter (· ≠ w))
        listenerMap := if wrappers.filter (· ≠ w) = [] then t.listenerMap.erase listener
          else t.listenerMap.set listener (wrappers.filter (· ≠ w)) } := by
    simp only [EventTarget.removeEventListener, present, tracked, last]
    rfl
  rw [removed]
  refine ⟨fun type' => ?_, fun listener' => ?_, left_ne_nil lists.kept⟩
  · rw [EventTarget.entries, get_left, ← EventTarget.entries, lists.entries, lists.entries]
    by_cases same : type = type'
    · subst same
      rw [if_pos rfl, List.filter_filter, List.filter_filter]
      simp only [Bool.and_comm]
    · rw [if_neg same, List.filter_filter]
      refine List.filter_congr fun r _ => ?_
      by_cases typed' : r.type = type'
      · have other : r ≠ w := by
          rintro rfl
          exact same (typed.symm.trans typed')
        simp [typed', other]
      · simp [typed']
  · rw [EventTarget.wrappersOf, get_left, ← EventTarget.wrappersOf, lists.wrappers]
    by_cases same : listener = listener'
    · subst same
      rw [if_pos rfl, held, List.filter_filter, List.filter_filter]
      simp only [Bool.and_comm]
    · rw [if_neg same, List.filter_filter]
      refine List.filter_congr fun r _ => ?_
      by_cases own' : r.listener = listener'
      · have other : r ≠ w := by
          rintro rfl
          exact same (own.symm.trans own')
        simp [own', other]
      · simp [own']

/-- The path for a listener without wrappers. -/
theorem removePlain (lists : Lists t l) (type : Text) {listener : Nat}
    (untracked : t.listenerMap.get listener = none) :
    Lists (t.removeEventListener type listener)
      (l.filter fun r => !(r.type = type && r.listener = listener)) := by
  have none : ∀ r ∈ l, r.listener = listener → r.wrapped = false := by
    have empty := lists.wrappers listener
    rw [EventTarget.wrappersOf, untracked, Option.getD_none] at empty
    simpa using List.filter_eq_nil_iff.mp empty.symm
  have wrappers : ∀ listener', (l.filter fun r => r.listener = listener' && r.wrapped)
      = (l.filter fun r => !(r.type = type && r.listener = listener)).filter
          fun r => r.listener = listener' && r.wrapped := by
    intro listener'
    rw [List.filter_filter]
    refine List.filter_congr fun r member => ?_
    by_cases own : r.listener = listener
    · simp [none r member own]
    · simp [own]
  cases present : t.listeners.has type || inherited type with
  | false =>
    have missing := entries_missing (t := t) (Bool.or_eq_false_iff.mp present).1
    rw [EventTarget.removeEventListener, present, if_pos (by rfl)]
    have same : (l.filter fun r => !(r.type = type && r.listener = listener)) = l := by
      rw [lists.entries, List.filter_eq_nil_iff] at missing
      refine List.filter_eq_self.mpr fun r member => ?_
      have other := missing r member
      simp_all
    rwa [same]
  | true =>
    have removed : t.removeEventListener type listener =
        let left := (t.entries type).filter fun r => !(r.listener = listener && !r.wrapped)
        { listeners := if left = [] then t.listeners.erase type else t.listeners.set type left
          listenerMap := t.listenerMap } := by
      simp only [EventTarget.removeEventListener, present, untracked]
      rfl
    rw [removed]
    refine ⟨fun type' => ?_, fun listener' => ?_, lists.kept⟩
    · rw [EventTarget.entries, get_left, ← EventTarget.entries, lists.entries, lists.entries]
      by_cases same : type = type'
      · subst same
        rw [if_pos rfl, List.filter_filter, List.filter_filter]
        refine List.filter_congr fun r member => ?_
        by_cases own : r.listener = listener
        · simp [own, none r member own]
        · simp [own]
      · rw [if_neg same, List.filter_filter]
        refine List.filter_congr fun r _ => ?_
        by_cases typed : r.type = type'
        · simp [typed, Ne.symm same]
        · simp [typed]
    · exact (lists.wrappers listener').trans (wrappers listener')

/-- The path for a listener whose wrappers have other types. -/
theorem removeNothing (lists : Lists t l) {type : Text} {listener : Nat}
    {wrappers : List Registration} (tracked : t.listenerMap.get listener = some wrappers)
    (none : wrappers.filter (·.type = type) = []) :
    Lists (t.removeEventListener type listener) l := by
  cases present : t.listeners.has type || inherited type with
  | false => rwa [EventTarget.removeEventListener, present, if_pos (by rfl)]
  | true =>
    have removed : t.removeEventListener type listener =
        { listeners := if t.entries type = [] then t.listeners.erase type
            else t.listeners.set type (t.entries type)
          listenerMap := t.listenerMap } := by
      simp only [EventTarget.removeEventListener, present, tracked, none, List.getLast?_nil]
      rfl
    rw [removed]
    refine ⟨fun type' => ?_, lists.wrappers, lists.kept⟩
    rw [EventTarget.entries, get_left, ← EventTarget.entries, ← lists.entries]
    split
    · rename_i same
      rw [same]
    · rfl

/-- A removal by the program. -/
theorem removeAll (lists : Lists t l) {type : Text} {listener : Nat}
    (finds : t.RemovesAll type listener) :
    Lists (t.removeEventListener type listener)
      (l.filter fun r => !(r.type = type && r.listener = listener)) := by
  cases tracked : t.listenerMap.get listener with
  | none => exact lists.removePlain type tracked
  | some wrappers =>
    have held : t.wrappersOf listener = wrappers := by
      rw [EventTarget.wrappersOf, tracked, Option.getD_some]
    have filled : wrappers ≠ [] := by
      rintro rfl
      exact lists.kept listener tracked
    obtain ⟨wrapped, few⟩ := finds.resolve_left (held ▸ filled)
    rw [held] at few
    -- What the abstract removal takes out is among the wrappers of this type.
    have tracks : ∀ r ∈ l, r.type = type → r.listener = listener →
        r ∈ wrappers.filter (·.type = type) := by
      intro r member typed own
      rw [List.mem_filter, ← held, lists.wrappers, List.mem_filter]
      have entry : r ∈ t.entries type := by simp [lists.entries, member, typed]
      simp [member, own, typed, wrapped r entry own]
    cases last : (wrappers.filter (·.type = type)).getLast? with
    | none =>
      have nothing : wrappers.filter (·.type = type) = [] := List.getLast?_eq_none_iff.mp last
      have same : (l.filter fun r => !(r.type = type && r.listener = listener)) = l := by
        refine List.filter_eq_self.mpr fun r member => ?_
        by_cases typed : r.type = type
        · by_cases own : r.listener = listener
          · have inside := tracks r member typed own
            rw [nothing] at inside
            cases inside
          · simp [own]
        · simp [typed]
      rw [same]
      exact lists.removeNothing tracked nothing
    | some w =>
      have only : wrappers.filter (·.type = type) = [w] := by
        rcases found : wrappers.filter (·.type = type) with _ | ⟨first, _ | ⟨second, rest⟩⟩
        · rw [found] at last
          cases last
        · rw [found] at last
          cases last
          exact found
        · rw [found] at few
          simp at few
      have same : (l.filter fun r => !(r.type = type && r.listener = listener))
          = l.filter (· ≠ w) := by
        refine List.filter_congr fun r member => ?_
        by_cases isW : r = w
        · have inside : w ∈ wrappers.filter (·.type = type) := by simp [only]
          rw [List.mem_filter, ← held, lists.wrappers, List.mem_filter] at inside
          simp_all
        · have other : ¬(r.type = type ∧ r.listener = listener) := by
            rintro ⟨typed, own⟩
            have inside := tracks r member typed own
            rw [only] at inside
            exact isW (List.mem_singleton.mp inside)
          simpa [isW] using not_and_or.mp other
      rw [same]
      exact lists.removeWrapper tracked last

/-- A removal on behalf of a registration. -/
theorem removeOwn (lists : Lists t l) (finds : t.RemovesOwn r) :
    Lists (t.removeEventListener r.type r.listener) (l.filter (· ≠ r)) := by
  unfold EventTarget.RemovesOwn at finds
  by_cases member : r ∈ t.entries r.type
  · rw [if_pos member] at finds
    cases tracked : t.listenerMap.get r.listener with
    | none =>
      rw [EventTarget.wrappersOf, tracked] at finds
      cases finds
    | some wrappers =>
      rw [EventTarget.wrappersOf, tracked] at finds
      exact lists.removeWrapper tracked finds
  · have gone : r ∉ l := fun inside => member (lists.mem_entries.mpr inside)
    have same : l.filter (· ≠ r) = l := by
      refine List.filter_eq_self.mpr fun r' inside => ?_
      have other : r' ≠ r := by
        rintro rfl
        exact gone inside
      simpa using other
    rw [if_neg member] at finds
    rw [same]
    cases tracked : t.listenerMap.get r.listener with
    | none =>
      have held : t.wrappersOf r.listener = [] := by
        rw [EventTarget.wrappersOf, tracked, Option.getD_none]
      rw [if_pos held] at finds
      have left : (l.filter fun r' => !(r'.type = r.type && r'.listener = r.listener)) = l := by
        refine List.filter_eq_self.mpr fun r' inside => ?_
        by_cases typed : r'.type = r.type
        · have entry : r' ∈ t.entries r.type := by simp [lists.entries, inside, typed]
          simp [finds r' entry]
        · simp [typed]
      have plain := lists.removePlain r.type tracked
      rwa [left] at plain
    | some wrappers =>
      have held : t.wrappersOf r.listener = wrappers := by
        rw [EventTarget.wrappersOf, tracked, Option.getD_some]
      have filled : wrappers ≠ [] := by
        rintro rfl
        exact lists.kept _ tracked
      rw [held, if_neg filled] at finds
      exact lists.removeNothing tracked finds

end Lists

/-! ## What one event adds to the log -/

section Log

variable {log : List TargetEvent} {e : TargetEvent} {frames frames' : List Frame}

theorem registered_snoc : registered (log ++ [e]) = note (registered log) e := by
  rw [registered, List.foldl_append]
  rfl

theorem callsOf_snoc (d : Nat) : callsOf d (log ++ [e]) = callsOf d log ++ callsOf d [e] :=
  List.filterMap_append ..

/-- The part of the contract that is about single events. -/
structure Clean (log : List TargetEvent) : Prop where
  quiet : .threw ∉ log
  abortsOwn : ∀ before signal after, log = before ++ .aborted signal :: after →
    ∀ r ∈ registered before, r.signal ≠ some signal
  abortsOnly : ∀ before r after, log = before ++ .dropped r :: after →
    ∃ signal, r.signal = some signal ∧ .aborting signal ∈ before

/-- What keeps a log clean. -/
def Allowed (log : List TargetEvent) : TargetEvent → Prop
  | .aborted signal => ∀ r ∈ registered log, r.signal ≠ some signal
  | .dropped r => ∃ signal, r.signal = some signal ∧ .aborting signal ∈ log
  | .threw => False
  | _ => True

theorem Clean.snoc (clean : Clean log) (allowed : Allowed log e) : Clean (log ++ [e]) := by
  refine ⟨?_, ?_, ?_⟩
  · intro member
    rcases List.mem_append.mp member with old | new
    · exact clean.quiet old
    · rw [← List.mem_singleton.mp new] at allowed
      exact allowed
  · intro before signal after split
    rcases snoc_eq_append_cons.mp split with ⟨-, rfl, rfl⟩ | ⟨rest, -, earlier⟩
    · exact allowed
    · exact clean.abortsOwn before signal rest earlier
  · intro before r after split
    rcases snoc_eq_append_cons.mp split with ⟨-, rfl, rfl⟩ | ⟨rest, -, earlier⟩
    · exact allowed
    · exact clean.abortsOnly before r rest earlier

/-- Every dispatch either is in progress, with what it has called and still has to call, or has
called everything. -/
def Tracked (frames : List Frame) (log : List TargetEvent) : Prop :=
  ∀ before d type after, log = before ++ .began d type :: after →
    (∃ queue, .dispatch d queue ∈ frames ∧ .ended d ∉ after ∧
      callsOf d after ++ queue = (registered before).filter (·.type = type)) ∨
    (∀ queue, .dispatch d queue ∉ frames) ∧
      callsOf d after = (registered before).filter (·.type = type)

/-- The dispatch that an event belongs to. -/
def TargetEvent.dispatch? : TargetEvent → Option Nat
  | .began d _ | .called d _ | .ended d => some d
  | _ => none

theorem callsOf_other {d : Nat} (other : e.dispatch? ≠ some d) : callsOf d [e] = [] := by
  cases e with
  | called d' r =>
    have different : d' ≠ d := fun same => other (congrArg some same)
    simp [callsOf, different]
  | _ => rfl

/-- An event of one dispatch leaves the others as they were. -/
theorem Tracked.other (tracked : Tracked frames log)
    (same : ∀ d, e.dispatch? ≠ some d → ∀ queue,
      .dispatch d queue ∈ frames' ↔ .dispatch d queue ∈ frames)
    (own : ∀ before d type after, log ++ [e] = before ++ .began d type :: after →
      e.dispatch? = some d →
      (∃ queue, .dispatch d queue ∈ frames' ∧ .ended d ∉ after ∧
        callsOf d after ++ queue = (registered before).filter (·.type = type)) ∨
      (∀ queue, .dispatch d queue ∉ frames') ∧
        callsOf d after = (registered before).filter (·.type = type)) :
    Tracked frames' (log ++ [e]) := by
  intro before d type after split
  by_cases mine : e.dispatch? = some d
  · exact own before d type after split mine
  · rcases snoc_eq_append_cons.mp split with ⟨-, rfl, rfl⟩ | ⟨rest, rfl, earlier⟩
    · exact absurd rfl mine
    · have calls : callsOf d (rest ++ [e]) = callsOf d rest := by
        rw [callsOf_snoc, callsOf_other mine, List.append_nil]
      rw [calls]
      rcases tracked before d type rest earlier with ⟨queue, running, going, all⟩ | ⟨gone, all⟩
      · refine .inl ⟨queue, (same d mine queue).mpr running, ?_, all⟩
        rw [List.mem_append, not_or]
        refine ⟨going, fun last => mine ?_⟩
        rw [← List.mem_singleton.mp last]
        rfl
      · exact .inr ⟨fun queue running => gone queue ((same d mine queue).mp running), all⟩

theorem Tracked.quiet (tracked : Tracked frames log) (quiet : e.dispatch? = none)
    (same : ∀ d queue, .dispatch d queue ∈ frames' ↔ .dispatch d queue ∈ frames) :
    Tracked frames' (log ++ [e]) :=
  tracked.other (fun d _ => same d) fun _ d _ _ _ own => by rw [quiet] at own; cases own

/-- The dispatch that a frame belongs to. -/
def Frame.dispatch? : Frame → Option Nat
  | .dispatch d _ => some d
  | .abort .. => none

theorem mem_dispatches {d : Nat} {queue : List Registration}
    (running : .dispatch d queue ∈ frames) : d ∈ frames.filterMap Frame.dispatch? :=
  List.mem_filterMap.mpr ⟨_, running, rfl⟩

theorem not_running {d : Nat} {queue : List Registration}
    (distinct : ((.dispatch d queue :: frames).filterMap Frame.dispatch?).Nodup)
    (queue' : List Registration) : .dispatch d queue' ∉ frames :=
  fun running => (List.nodup_cons.mp distinct).1 (mem_dispatches running)

theorem mem_cons_other {d d' : Nat} {queue queue' : List Registration} (other : d' ≠ d) :
    Frame.dispatch d' queue' ∈ .dispatch d queue :: frames ↔ .dispatch d' queue' ∈ frames := by
  simp [other]

/-- A dispatch begins. -/
theorem Tracked.began (tracked : Tracked frames log) {d : Nat} {type : Text}
    (fresh : ∀ type, .began d type ∉ log) :
    Tracked (.dispatch d ((registered log).filter (·.type = type)) :: frames)
      (log ++ [.began d type]) := by
  apply tracked.other
  · intro d' other queue
    exact mem_cons_other fun same => other (congrArg some same.symm)
  · intro before d' type' after split own
    obtain rfl : d = d' := Option.some.inj own
    rcases snoc_eq_append_cons.mp split with ⟨rfl, rfl, same⟩ | ⟨rest, -, earlier⟩
    · cases same
      exact .inl ⟨_, List.mem_cons_self, List.not_mem_nil, rfl⟩
    · exact absurd (earlier ▸ List.mem_append_right _ List.mem_cons_self) (fresh type')

/-- A dispatch calls the next registration. -/
theorem Tracked.called {d : Nat} {r : Registration} {queue : List Registration}
    (tracked : Tracked (.dispatch d (r :: queue) :: frames) log)
    (distinct : ((.dispatch d (r :: queue) :: frames).filterMap Frame.dispatch?).Nodup) :
    Tracked (.dispatch d queue :: frames) (log ++ [.called d r]) := by
  apply tracked.other
  · intro d' other queue'
    have different : d' ≠ d := fun same => other (congrArg some same.symm)
    rw [mem_cons_other different, mem_cons_other different]
  · intro before d' type after split own
    obtain rfl : d = d' := Option.some.inj own
    rcases snoc_eq_append_cons.mp split with ⟨-, -, same⟩ | ⟨rest, rfl, earlier⟩
    · cases same
    · rcases tracked before d type rest earlier with ⟨queue', running, going, all⟩ | ⟨gone, -⟩
      · rcases List.mem_cons.mp running with same | below
        · cases same
          refine .inl ⟨queue, List.mem_cons_self, by simpa using going, ?_⟩
          rw [callsOf_snoc, ← all, List.append_assoc]
          simp [callsOf]
        · exact absurd below (not_running distinct queue')
      · exact absurd List.mem_cons_self (gone _)

/-- A dispatch ends. -/
theorem Tracked.ended {d : Nat} (tracked : Tracked (.dispatch d [] :: frames) log)
    (distinct : ((.dispatch d [] :: frames).filterMap Frame.dispatch?).Nodup) :
    Tracked frames (log ++ [.ended d]) := by
  apply tracked.other
  · intro d' other queue'
    exact (mem_cons_other fun same => other (congrArg some same.symm)).symm
  · intro before d' type after split own
    obtain rfl : d = d' := Option.some.inj own
    rcases snoc_eq_append_cons.mp split with ⟨-, -, same⟩ | ⟨rest, rfl, earlier⟩
    · cases same
    · refine .inr ⟨not_running distinct, ?_⟩
      rw [callsOf_snoc]
      rcases tracked before d type rest earlier with ⟨queue', running, -, all⟩ | ⟨gone, -⟩
      · rcases List.mem_cons.mp running with same | below
        · cases same
          simpa [callsOf] using all
        · exact absurd below (not_running distinct queue')
      · exact absurd List.mem_cons_self (gone _)

end Log

/-! ## Once listeners -/

/-- How often a registration was called or still has to be called. -/
def turns (s : TargetState) (r : Registration) : Nat :=
  s.log.countP (·.calls r) + (waiting s.frames).count r

/-- A once listener has one turn, and is out of force when it has been called. -/
structure OnceInv (s : TargetState) : Prop where
  single : ∀ r, r.once = true → turns s r ≤ 1
  spent : ∀ r ∈ registered s.log, r.once = true → s.log.countP (·.calls r) = 0
  known : ∀ r, 0 < turns s r → r.id < s.registrations

namespace OnceInv

variable {s s' : TargetState}

theorem countP_calls_snoc {log : List TargetEvent} {e : TargetEvent} {r : Registration}
    (other : e.calls r = false) :
    (log ++ [e]).countP (·.calls r) = log.countP (·.calls r) := by
  simp [List.countP_append, other]

/-- An event that calls nothing and puts nothing in force. -/
theorem quiet (inv : OnceInv s)
    (calls : ∀ r, s'.log.countP (·.calls r) = s.log.countP (·.calls r))
    (loops : waiting s'.frames = waiting s.frames)
    (fewer : ∀ r ∈ registered s'.log, r ∈ registered s.log)
    (counted : s'.registrations = s.registrations) : OnceInv s' := by
  have same : ∀ r, turns s' r = turns s r := by
    intro r
    rw [turns, turns, calls, loops]
  refine ⟨fun r once => ?_, fun r member once => ?_, fun r turn => ?_⟩
  · rw [same]
    exact inv.single r once
  · rw [calls]
    exact inv.spent r (fewer r member) once
  · rw [counted]
    exact inv.known r (same r ▸ turn)

/-- A new registration has had no turn. -/
theorem added (inv : OnceInv s) {r : Registration} (new : r.id = s.registrations)
    (log : s'.log = s.log ++ [.added r]) (loops : s'.frames = s.frames)
    (counted : s'.registrations = s.registrations + 1) : OnceInv s' := by
  have calls : ∀ r', s'.log.countP (·.calls r') = s.log.countP (·.calls r') := by
    intro r'
    rw [log, countP_calls_snoc (by rfl)]
  have same : ∀ r', turns s' r' = turns s r' := by
    intro r'
    rw [turns, turns, calls, loops]
  refine ⟨fun r' once => ?_, fun r' member once => ?_, fun r' turn => ?_⟩
  · rw [same]
    exact inv.single r' once
  · rw [calls]
    rw [log, registered_snoc] at member
    rcases List.mem_append.mp member with old | added
    · exact inv.spent r' old once
    · rw [List.mem_singleton.mp added]
      by_contra called
      have turn : 0 < turns s r := Nat.lt_of_lt_of_le (Nat.pos_of_ne_zero called) (Nat.le_add_right _ _)
      exact Nat.lt_irrefl _ (new ▸ inv.known r turn)
  · have before := inv.known r' (same r' ▸ turn)
    omega

/-- A dispatch that begins gives a turn to every listener in force. -/
theorem began (inv : OnceInv s) {d : Nat} {type : Text} {queue : List Registration}
    (distinct : queue.Nodup) (inForce : ∀ r ∈ queue, r ∈ registered s.log)
    (numbered : ∀ r ∈ queue, r.id < s.registrations)
    (free : ∀ r ∈ queue, r.once = true → r ∉ waiting s.frames)
    (log : s'.log = s.log ++ [.began d type]) (loops : s'.frames = .dispatch d queue :: s.frames)
    (counted : s'.registrations = s.registrations) : OnceInv s' := by
  have calls : ∀ r, s'.log.countP (·.calls r) = s.log.countP (·.calls r) := by
    intro r
    rw [log, countP_calls_snoc (by rfl)]
  have more : ∀ r, turns s' r = turns s r + queue.count r := by
    intro r
    have counts : (waiting s'.frames).count r = queue.count r + (waiting s.frames).count r := by
      rw [loops, waiting, List.flatMap_cons, List.count_append]
      rfl
    rw [turns, turns, calls, counts]
    omega
  refine ⟨fun r once => ?_, fun r member once => ?_, fun r turn => ?_⟩
  · rw [more]
    by_cases member : r ∈ queue
    · have uncalled := inv.spent r (inForce r member) once
      have unwaited := List.count_eq_zero.mpr (free r member once)
      have one := List.nodup_iff_count_le_one.mp distinct r
      simp only [turns, uncalled, unwaited]
      omega
    · rw [List.count_eq_zero.mpr member]
      exact inv.single r once
  · rw [calls]
    rw [log, registered_snoc] at member
    exact inv.spent r member once
  · rw [counted]
    by_cases member : r ∈ queue
    · exact numbered r member
    · rw [more, List.count_eq_zero.mpr member] at turn
      exact inv.known r turn

/-- A call uses up the turn. -/
theorem called (inv : OnceInv s) {d : Nat} {r : Registration} {queue : List Registration}
    {frames : List Frame} (running : s.frames = .dispatch d (r :: queue) :: frames)
    (log : s'.log = s.log ++ [.called d r]) (loops : s'.frames = .dispatch d queue :: frames)
    (counted : s'.registrations = s.registrations) : OnceInv s' := by
  have same : ∀ r', turns s' r' = turns s r' := by
    intro r'
    have before : waiting s.frames = r :: (queue ++ waiting frames) := by
      rw [running]
      rfl
    have after : waiting s'.frames = queue ++ waiting frames := by
      rw [loops]
      rfl
    rw [turns, turns, log, before, after, List.countP_append, List.countP_singleton, List.count_cons]
    by_cases own : r = r'
    · simp [TargetEvent.calls, own]
      omega
    · simp [TargetEvent.calls, own]
  refine ⟨fun r' once => ?_, fun r' member once => ?_, fun r' turn => ?_⟩
  · rw [same]
    exact inv.single r' once
  · rw [log, registered_snoc] at member
    simp only [note] at member
    have other : r ≠ r' ∧ r' ∈ registered s.log := by
      by_cases consumed : r.once = true
      · rw [if_pos consumed, List.mem_filter] at member
        exact ⟨fun own => by simp [own] at member, member.1⟩
      · rw [if_neg consumed] at member
        exact ⟨fun own => consumed (own ▸ once), member⟩
    rw [log, countP_calls_snoc (by simp [TargetEvent.calls, other.1])]
    exact inv.spent r' other.2 once
  · rw [counted]
    exact inv.known r' (same r' ▸ turn)

end OnceInv

/-! ## Proper runs -/

/-- The invariant of proper runs. -/
structure TargetInv (s : TargetState) : Prop where
  clean : Clean s.log
  tracked : Tracked s.frames s.log
  lists : Lists s.target (registered s.log)
  distinct : ((registered s.log).map Registration.id).Nodup
  numbered : ∀ r ∈ registered s.log, r.id < s.registrations
  inForce : ∀ r ∈ registered s.log, ∀ signal, r.signal = some signal →
    r ∈ s.signalListeners signal ∧ ∀ queue, .abort signal queue ∈ s.frames → r ∈ queue
  own : ∀ signal, ∀ r ∈ s.signalListeners signal, r.signal = some signal
  aborts : ∀ signal queue, .abort signal queue ∈ s.frames →
    signal ∈ s.aborted ∧ .aborting signal ∈ s.log ∧ ∀ r ∈ queue, r.signal = some signal
  frameIds : (s.frames.filterMap Frame.dispatch?).Nodup
  running : ∀ d ∈ s.frames.filterMap Frame.dispatch?, d < s.dispatches
  began : ∀ d type, .began d type ∈ s.log → d < s.dispatches
  once : OnceInv s

section Steps

variable {s : TargetState}

theorem targetInv_fresh : TargetInv .fresh where
  clean := ⟨List.not_mem_nil,
    fun before _ _ split => by simp [TargetState.fresh] at split,
    fun before _ _ split => by simp [TargetState.fresh] at split⟩
  tracked before _ _ _ split := by simp [TargetState.fresh] at split
  lists := .new
  distinct := List.nodup_nil
  numbered _ member := by cases member
  inForce _ member := by cases member
  own _ _ member := by cases member
  aborts _ _ member := by cases member
  frameIds := List.nodup_nil
  running _ member := by cases member
  began _ _ member := by cases member
  once := ⟨fun _ _ => Nat.zero_le _, fun _ member => (by cases member),
    fun _ turn => absurd turn (Nat.lt_irrefl 0)⟩

/-- What a signal calls after a registration may have joined it. -/
theorem mem_joined {m : Assoc Nat (List Registration)} {r r' : Registration}
    {signal : Option Nat} {sig : Nat} :
    r' ∈ ((match signal with
        | some signal => m.set signal ((m.get signal).getD [] ++ [r])
        | none => m).get sig).getD [] ↔
      r' ∈ (m.get sig).getD [] ∨ signal = some sig ∧ r' = r := by
  cases signal with
  | none => simp
  | some signal =>
    rw [Assoc.get_set]
    by_cases same : signal = sig
    · simp [same]
    · simp [same]

theorem TargetInv.addEventListener (inv : TargetInv s) {type : Text} {listener : Nat}
    {once : Bool} {signal : Option Nat}
    (proper : s.Proper (.addEventListener type listener once signal)) :
    TargetInv (s.addEventListener type listener once signal) := by
  unfold TargetState.addEventListener
  split
  · exact inv
  · rename_i going
    have own : inherited type = false := proper.resolve_left going
    have active : ∀ sig, signal = some sig → sig ∉ s.aborted := by
      rintro sig rfl
      simpa using going
    simp only [own, Bool.false_eq_true, if_false]
    have log : registered (s.log ++ [.added ⟨s.registrations, type, listener, once, signal⟩])
        = registered s.log ++ [⟨s.registrations, type, listener, once, signal⟩] := registered_snoc
    refine ⟨inv.clean.snoc trivial, inv.tracked.quiet rfl fun _ _ => Iff.rfl, ?_, ?_, ?_, ?_, ?_,
      ?_, inv.frameIds, inv.running, ?_, inv.once.added rfl rfl rfl rfl⟩
    · rw [log]
      exact inv.lists.push own
    · rw [log, List.map_append, List.map_singleton, List.nodup_append]
      refine ⟨inv.distinct, List.nodup_singleton _, fun id member id' new same => ?_⟩
      obtain ⟨r, inForce, rfl⟩ := List.mem_map.mp member
      rw [List.mem_singleton.mp new] at same
      exact Nat.ne_of_lt (inv.numbered r inForce) same
    · intro r member
      rw [log, List.mem_append] at member
      rcases member with old | new
      · exact Nat.lt_succ_of_lt (inv.numbered r old)
      · rw [List.mem_singleton.mp new]
        exact Nat.lt_succ_self _
    · intro r member sig signed
      rw [log, List.mem_append] at member
      rcases member with old | new
      · obtain ⟨joined, frames⟩ := inv.inForce r old sig signed
        exact ⟨mem_joined.mpr (.inl joined), frames⟩
      · rw [List.mem_singleton] at new
        subst new
        refine ⟨mem_joined.mpr (.inr ⟨signed, rfl⟩), fun queue aborting => ?_⟩
        exact absurd (inv.aborts sig queue aborting).1 (active sig signed)
    · intro sig r member
      rcases mem_joined.mp member with old | ⟨signed, rfl⟩
      · exact inv.own sig r old
      · exact signed
    · intro sig queue aborting
      obtain ⟨aborted, noted, all⟩ := inv.aborts sig queue aborting
      exact ⟨aborted, List.mem_append_left _ noted, all⟩
    · intro d type' began
      rcases List.mem_append.mp began with old | new
      · exact inv.began d type' old
      · simp at new

theorem TargetInv.removeEventListener (inv : TargetInv s) {type : Text} {listener : Nat}
    (proper : s.target.RemovesAll type listener) :
    TargetInv (s.step (.removeEventListener type listener)) := by
  have log : registered (s.log ++ [.removed type listener])
      = (registered s.log).filter fun r => !(r.type = type && r.listener = listener) :=
    registered_snoc
  have fewer : (registered (s.log ++ [.removed type listener])).Sublist (registered s.log) := by
    rw [log]
    exact List.filter_sublist
  refine ⟨inv.clean.snoc trivial, inv.tracked.quiet rfl fun _ _ => Iff.rfl, ?_,
    inv.distinct.sublist (fewer.map _), fun r member => inv.numbered r (fewer.subset member),
    fun r member => inv.inForce r (fewer.subset member), inv.own, ?_, inv.frameIds, inv.running, ?_,
    inv.once.quiet (fun r => OnceInv.countP_calls_snoc rfl) rfl (fun r => fewer.mem) rfl⟩
  · show Lists (s.target.removeEventListener type listener) (registered (s.log ++ [_]))
    rw [log]
    exact inv.lists.removeAll proper
  · intro sig queue aborting
    obtain ⟨aborted, noted, all⟩ := inv.aborts sig queue aborting
    exact ⟨aborted, List.mem_append_left _ noted, all⟩
  · intro d type' began
    rcases List.mem_append.mp began with old | new
    · exact inv.began d type' old
    · simp at new

theorem TargetInv.abort (inv : TargetInv s) (signal : Nat) : TargetInv (s.abort signal) := by
  have log : registered (s.log ++ [.aborting signal]) = registered s.log := registered_snoc
  have dispatches : ∀ d queue, Frame.dispatch d queue ∈
      Frame.abort signal (s.signalListeners signal) :: s.frames ↔ .dispatch d queue ∈ s.frames := by
    simp
  refine ⟨inv.clean.snoc trivial, inv.tracked.quiet rfl dispatches, ?_, ?_, ?_, ?_, inv.own, ?_,
    inv.frameIds, inv.running, ?_,
    inv.once.quiet (fun r => OnceInv.countP_calls_snoc rfl) rfl (fun r member => log ▸ member) rfl⟩
  · exact log.symm ▸ inv.lists
  · exact log.symm ▸ inv.distinct
  · exact log.symm ▸ inv.numbered
  · intro r member sig signed
    obtain ⟨joined, frames⟩ := inv.inForce r (log ▸ member) sig signed
    refine ⟨joined, fun queue aborting => ?_⟩
    rcases List.mem_cons.mp aborting with same | below
    · cases same
      exact joined
    · exact frames queue below
  · intro sig queue aborting
    rcases List.mem_cons.mp aborting with same | below
    · cases same
      exact ⟨List.mem_cons_self, List.mem_append_right _ List.mem_cons_self, inv.own signal⟩
    · obtain ⟨aborted, noted, all⟩ := inv.aborts sig queue below
      exact ⟨List.mem_cons_of_mem _ aborted, List.mem_append_left _ noted, all⟩
  · intro d type' began
    rcases List.mem_append.mp began with old | new
    · exact inv.began d type' old
    · simp at new

theorem TargetInv.dispatchEvent (inv : TargetInv s) {type : Text} (own : inherited type = false)
    (free : ∀ r ∈ s.target.entries type, r.once = true → r ∉ waiting s.frames) :
    TargetInv (s.dispatchEvent type false) := by
  unfold TargetState.dispatchEvent
  rw [if_neg (by simp [own])]
  have log : registered (s.log ++ [.began s.dispatches type]) = registered s.log := registered_snoc
  have fresh : ∀ type', .began s.dispatches type' ∉ s.log := fun type' began =>
    Nat.lt_irrefl _ (inv.began _ type' began)
  have inForce : ∀ r ∈ s.target.entries type, r ∈ registered s.log := by
    intro r member
    rw [inv.lists.entries] at member
    exact (List.mem_filter.mp member).1
  have once : (s.target.entries type).Nodup := by
    rw [inv.lists.entries]
    exact inv.distinct.of_map.filter _
  refine ⟨inv.clean.snoc trivial, ?_, ?_, ?_, ?_, ?_, inv.own, ?_, ?_, ?_, ?_,
    inv.once.began once inForce (fun r member => inv.numbered r (inForce r member)) free rfl rfl rfl⟩
  · show Tracked (.dispatch _ (s.target.entries type) :: s.frames) _
    rw [inv.lists.entries]
    exact inv.tracked.began fresh
  · exact log.symm ▸ inv.lists
  · exact log.symm ▸ inv.distinct
  · exact log.symm ▸ inv.numbered
  · intro r member sig signed
    obtain ⟨joined, frames⟩ := inv.inForce r (log ▸ member) sig signed
    exact ⟨joined, fun queue aborting => frames queue (by simpa using aborting)⟩
  · intro sig queue aborting
    obtain ⟨aborted, noted, all⟩ := inv.aborts sig queue (by simpa using aborting)
    exact ⟨aborted, List.mem_append_left _ noted, all⟩
  · refine List.nodup_cons.mpr ?_
    exact ⟨fun running => Nat.lt_irrefl _ (inv.running _ running), inv.frameIds⟩
  · intro d running
    rcases List.mem_cons.mp running with rfl | below
    · exact Nat.lt_succ_self _
    · exact Nat.lt_succ_of_lt (inv.running d below)
  · intro d type' began
    rcases List.mem_append.mp began with old | new
    · exact Nat.lt_succ_of_lt (inv.began d type' old)
    · obtain ⟨rfl, -⟩ : d = s.dispatches ∧ type' = type := by simpa using new
      exact Nat.lt_succ_self _

/-- A loop ends that has nothing left to call. -/
theorem TargetInv.endDispatch (inv : TargetInv s) {d : Nat} {frames : List Frame}
    (running : s.frames = .dispatch d [] :: frames) :
    TargetInv { s with frames, log := s.log ++ [.ended d] } := by
  have log : registered (s.log ++ [.ended d]) = registered s.log := registered_snoc
  have ids := inv.frameIds
  have tracked := inv.tracked
  rw [running] at ids tracked
  have below : ∀ f ∈ frames, f ∈ s.frames := fun f member => running ▸ List.mem_cons_of_mem _ member
  refine ⟨inv.clean.snoc trivial, tracked.ended ids, log.symm ▸ inv.lists, log.symm ▸ inv.distinct,
    log.symm ▸ inv.numbered, ?_, inv.own, ?_, (List.nodup_cons.mp ids).2, ?_, ?_,
    inv.once.quiet (fun r => OnceInv.countP_calls_snoc rfl) (by rw [running]; rfl)
      (fun r member => log ▸ member) rfl⟩
  · intro r member sig signed
    obtain ⟨joined, all⟩ := inv.inForce r (log ▸ member) sig signed
    exact ⟨joined, fun queue aborting => all queue (below _ aborting)⟩
  · intro sig queue aborting
    obtain ⟨aborted, noted, all⟩ := inv.aborts sig queue (below _ aborting)
    exact ⟨aborted, List.mem_append_left _ noted, all⟩
  · intro d' member
    obtain ⟨f, inside, named⟩ := List.mem_filterMap.mp member
    exact inv.running d' (List.mem_filterMap.mpr ⟨f, below f inside, named⟩)
  · intro d' type' began
    rcases List.mem_append.mp began with old | new
    · exact inv.began d' type' old
    · simp at new

theorem TargetInv.endAbort (inv : TargetInv s) {signal : Nat} {frames : List Frame}
    (running : s.frames = .abort signal [] :: frames) :
    TargetInv { s with frames, log := s.log ++ [.aborted signal] } := by
  have log : registered (s.log ++ [.aborted signal]) = registered s.log := registered_snoc
  have below : ∀ f ∈ frames, f ∈ s.frames := fun f member => running ▸ List.mem_cons_of_mem _ member
  have ids := inv.frameIds
  rw [running] at ids
  refine ⟨inv.clean.snoc ?_, inv.tracked.quiet rfl ?_, log.symm ▸ inv.lists,
    log.symm ▸ inv.distinct, log.symm ▸ inv.numbered, ?_, inv.own, ?_, ids, ?_, ?_,
    inv.once.quiet (fun r => OnceInv.countP_calls_snoc rfl) (by rw [running]; rfl)
      (fun r member => log ▸ member) rfl⟩
  · intro r member signed
    have left := (inv.inForce r member signal signed).2 [] (running ▸ List.mem_cons_self)
    cases left
  · intro d queue
    rw [running]
    simp
  · intro r member sig signed
    obtain ⟨joined, all⟩ := inv.inForce r (log ▸ member) sig signed
    exact ⟨joined, fun queue aborting => all queue (below _ aborting)⟩
  · intro sig queue aborting
    obtain ⟨aborted, noted, all⟩ := inv.aborts sig queue (below _ aborting)
    exact ⟨aborted, List.mem_append_left _ noted, all⟩
  · intro d' member
    obtain ⟨f, inside, named⟩ := List.mem_filterMap.mp member
    exact inv.running d' (List.mem_filterMap.mpr ⟨f, below f inside, named⟩)
  · intro d' type' began
    rcases List.mem_append.mp began with old | new
    · exact inv.began d' type' old
    · simp at new

/-- A dispatch calls the next registration. -/
theorem TargetInv.callNext (inv : TargetInv s) {d : Nat} {r : Registration}
    {queue : List Registration} {frames : List Frame}
    (running : s.frames = .dispatch d (r :: queue) :: frames)
    (proper : r.once = true → s.target.RemovesOwn r) :
    TargetInv ({ s with frames := .dispatch d queue :: frames }.callNext d r) := by
  have log : registered (s.log ++ [.called d r])
      = if r.once then (registered s.log).filter (· ≠ r) else registered s.log := registered_snoc
  have fewer : (registered (s.log ++ [.called d r])).Sublist (registered s.log) := by
    rw [log]
    split
    · exact List.filter_sublist
    · exact .refl _
  have ids := inv.frameIds
  have tracked := inv.tracked
  rw [running] at ids tracked
  have aborting : ∀ sig queue', .abort sig queue' ∈ Frame.dispatch d queue :: frames →
      .abort sig queue' ∈ s.frames := by
    intro sig queue' member
    rw [running]
    simpa using member
  refine ⟨inv.clean.snoc trivial, tracked.called ids, ?_,
    inv.distinct.sublist (fewer.map _), fun r member => inv.numbered r (fewer.subset member),
    ?_, inv.own, ?_, ids, ?_, ?_, inv.once.called running rfl rfl rfl⟩
  · show Lists (if r.once then _ else _) (registered (s.log ++ [_]))
    rw [log]
    split
    · rename_i once
      exact inv.lists.removeOwn (proper once)
    · exact inv.lists
  · intro r' member sig signed
    obtain ⟨joined, all⟩ := inv.inForce r' (fewer.subset member) sig signed
    exact ⟨joined, fun queue' member => all queue' (aborting sig queue' member)⟩
  · intro sig queue' member
    obtain ⟨aborted, noted, all⟩ := inv.aborts sig queue' (aborting sig queue' member)
    exact ⟨aborted, List.mem_append_left _ noted, all⟩
  · intro d' member
    apply inv.running d'
    rw [running]
    exact member
  · intro d' type' began
    rcases List.mem_append.mp began with old | new
    · exact inv.began d' type' old
    · simp at new

theorem filter_eq_of_mem {l : List Registration} {r : Registration} (distinct : l.Nodup)
    (member : r ∈ l) : l.filter (· = r) = [r] := by
  rw [List.filter_eq, List.count_eq_one_of_mem distinct member]
  rfl

/-- What the listener of an aborted signal drops. -/
theorem dropped_eq (inv : TargetInv s) {r : Registration} (proper : s.target.RemovesOwn r) :
    ((s.target.entries r.type).filter fun r' =>
        r' ∉ (s.target.removeEventListener r.type r.listener).entries r.type)
      = if r ∈ registered s.log then [r] else [] := by
  have distinct : (registered s.log).Nodup := inv.distinct.of_map
  rw [(inv.lists.removeOwn proper).entries, inv.lists.entries]
  have taken : (((registered s.log).filter (·.type = r.type)).filter fun r' =>
        r' ∉ ((registered s.log).filter (· ≠ r)).filter (·.type = r.type))
      = ((registered s.log).filter (·.type = r.type)).filter (· = r) := by
    refine List.filter_congr fun r' member => ?_
    have inside := List.mem_filter.mp member
    simp_all
  rw [taken]
  split
  · rename_i member
    exact filter_eq_of_mem (distinct.filter _) (by simp [member])
  · rename_i absent
    rw [List.filter_eq_nil_iff]
    intro r' member same
    exact absent ((of_decide_eq_true same) ▸ (List.mem_filter.mp member).1)

/-- What a removal by an aborted signal adds to the log: the registration is dropped if it is there,
and nothing happens otherwise. -/
theorem TargetInv.droppedLog (inv : TargetInv s) {signal : Nat} {r : Registration}
    {queue : List Registration} {frames : List Frame}
    (running : s.frames = .abort signal (r :: queue) :: frames)
    (proper : s.target.RemovesOwn r) :
    ∃ more,
      ((s.target.entries r.type).filter fun r' =>
          r' ∉ (s.target.removeEventListener r.type r.listener).entries r.type).map .dropped
        = more ∧ Clean (s.log ++ more) ∧ Tracked (.abort signal queue :: frames) (s.log ++ more) ∧
      registered (s.log ++ more) = (registered s.log).filter (· ≠ r) := by
  obtain ⟨-, noted, signed⟩ := inv.aborts signal (r :: queue) (running ▸ List.mem_cons_self)
  have dispatches : ∀ d queue', Frame.dispatch d queue' ∈ Frame.abort signal queue :: frames ↔
      .dispatch d queue' ∈ s.frames := by
    intro d queue'
    simp [running]
  rw [dropped_eq inv proper]
  split
  · exact ⟨[.dropped r], rfl, inv.clean.snoc ⟨signal, signed r List.mem_cons_self, noted⟩,
      inv.tracked.quiet rfl dispatches, registered_snoc⟩
  · rename_i absent
    refine ⟨[], rfl, by simpa using inv.clean, ?_, ?_⟩
    · rw [List.append_nil]
      intro before d type after split
      rcases inv.tracked before d type after split with ⟨queue', going, all⟩ | ⟨gone, all⟩
      · exact .inl ⟨queue', (dispatches d queue').mpr going, all⟩
      · exact .inr ⟨fun queue' going => gone queue' ((dispatches d queue').mp going), all⟩
    · rw [List.append_nil]
      refine (List.filter_eq_self.mpr fun r' member => ?_).symm
      have other : r' ≠ r := by
        rintro rfl
        exact absent member
      simpa using other

/-- An aborted signal drops the next registration. -/
theorem TargetInv.dropNext (inv : TargetInv s) {signal : Nat} {r : Registration}
    {queue : List Registration} {frames : List Frame}
    (running : s.frames = .abort signal (r :: queue) :: frames)
    (proper : s.target.RemovesOwn r) :
    TargetInv ({ s with frames := .abort signal queue :: frames }.dropNext signal r) := by
  obtain ⟨-, noted, -⟩ := inv.aborts signal (r :: queue) (running ▸ List.mem_cons_self)
  obtain ⟨more, log, clean, tracked, list⟩ := inv.droppedLog running proper
  have began : ∀ e ∈ more, ∀ d type, e ≠ .began d type := by
    rintro e member d type rfl
    rw [← log] at member
    simp at member
  have fewer : (registered (s.log ++ more)).Sublist (registered s.log) := by
    rw [list]
    exact List.filter_sublist
  have uncalled : ∀ r', (s.log ++ more).countP (·.calls r') = s.log.countP (·.calls r') := by
    intro r'
    rw [← log, List.countP_append, List.countP_map, Nat.add_eq_left, List.countP_eq_zero]
    exact fun _ _ no => by cases no
  unfold TargetState.dropNext
  simp only [log]
  refine ⟨clean, tracked, ?_, inv.distinct.sublist (fewer.map _),
    fun r member => inv.numbered r (fewer.subset member), ?_, ?_, ?_, ?_, ?_, ?_,
    inv.once.quiet uncalled (by rw [running]; rfl) (fun r => fewer.mem) rfl⟩
  · show Lists _ (registered (s.log ++ more))
    rw [list]
    exact inv.lists.removeOwn proper
  · intro r' member sig signed'
    have kept := member
    simp only [list, List.mem_filter, decide_eq_true_eq] at kept
    obtain ⟨joined, all⟩ := inv.inForce r' kept.1 sig signed'
    constructor
    · show r' ∈ ((s.abortListeners.set signal ((s.signalListeners signal).filter (· ≠ r))).get
        sig).getD []
      rw [Assoc.get_set]
      split
      · rename_i same
        subst same
        exact List.mem_filter.mpr ⟨joined, by simpa using kept.2⟩
      · exact joined
    · intro queue' aborting
      rcases List.mem_cons.mp aborting with same | below
      · cases same
        exact (List.mem_cons.mp (all (r :: queue) (running ▸ List.mem_cons_self))).resolve_left kept.2
      · exact all queue' (running ▸ List.mem_cons_of_mem _ below)
  · intro sig r' member
    have member' : r' ∈ ((s.abortListeners.set signal ((s.signalListeners signal).filter
        (· ≠ r))).get sig).getD [] := member
    rw [Assoc.get_set] at member'
    split at member'
    · rename_i same
      subst same
      exact inv.own _ r' (List.mem_filter.mp member').1
    · exact inv.own sig r' member'
  · intro sig queue' aborting
    rcases List.mem_cons.mp aborting with same | below
    · cases same
      obtain ⟨aborted, -, all⟩ := inv.aborts signal (r :: queue) (running ▸ List.mem_cons_self)
      exact ⟨aborted, List.mem_append_left _ noted, fun r' inside =>
        all r' (List.mem_cons_of_mem _ inside)⟩
    · obtain ⟨aborted, noted', all⟩ :=
        inv.aborts sig queue' (running ▸ List.mem_cons_of_mem _ below)
      exact ⟨aborted, List.mem_append_left _ noted', all⟩
  · have ids := inv.frameIds
    rw [running] at ids
    exact ids
  · intro d member
    apply inv.running d
    rw [running]
    exact member
  · intro d type' member
    rcases List.mem_append.mp member with old | new
    · exact inv.began d type' old
    · exact absurd rfl (began _ new d type')

/-- Every proper call keeps the invariant. -/
theorem TargetInv.step (inv : TargetInv s) {call : TargetCall} (proper : s.Proper call) :
    TargetInv (s.step call) := by
  cases call with
  | addEventListener type listener once signal => exact inv.addEventListener proper
  | removeEventListener type listener => exact inv.removeEventListener proper
  | abort signal => exact inv.abort signal
  | dispatchEvent type targetThrows =>
    obtain ⟨rfl, own, free⟩ := proper
    exact inv.dispatchEvent own free
  | goesOn =>
    simp only [TargetState.step, TargetState.goOn]
    simp only [TargetState.Proper] at proper
    split
    · exact inv
    · rename_i running
      exact inv.endDispatch running
    · rename_i running
      rw [running] at proper
      exact inv.callNext running proper
    · rename_i running
      exact inv.endAbort running
    · rename_i running
      rw [running] at proper
      exact inv.dropNext running proper
  | throws =>
    simp only [TargetState.step, TargetState.throwOut]
    simp only [TargetState.Proper] at proper
    split
    · exact inv
    · rename_i queue frames running
      rw [running] at proper
      obtain rfl : queue = [] := proper
      exact inv.endDispatch running
    · rename_i queue frames running
      rw [running] at proper
      obtain rfl : queue = [] := proper
      exact inv.endAbort running

theorem TargetInv.contract (inv : TargetInv s) : ListenerContract s.log where
  quiet := inv.clean.quiet
  distinct := inv.distinct
  inOrder before d type after split := by
    rcases inv.tracked before d type after split with ⟨queue, -, -, all⟩ | ⟨-, all⟩
    · exact ⟨queue, all⟩
    · exact all ▸ List.prefix_rfl
  complete before d type after split ended := by
    rcases inv.tracked before d type after split with ⟨queue, -, going, -⟩ | ⟨-, all⟩
    · exact absurd ended going
    · exact all
  once r single := Nat.le_trans (Nat.le_add_right _ _) (inv.once.single r single)
  abortsOwn := inv.clean.abortsOwn
  abortsOnly := inv.clean.abortsOnly

/-- In a run of proper calls the target is the abstract listener list. -/
theorem listenerContract_of_proper (calls : List TargetCall)
    (proper : Along TargetState.step TargetState.Proper .fresh calls) :
    ListenerContract (runFrom TargetState.step .fresh calls).log := by
  have inv : TargetInv (runFrom TargetState.step .fresh calls) :=
    run_invariant_along (I := TargetInv) (fun _ _ inv proper => inv.step proper) calls
      TargetState.fresh targetInv_fresh proper
  exact inv.contract

/-- A once listener with a signal is called and consumed; then its signal aborts. -/
theorem consumed_listener_contract : ListenerContract (runFrom TargetState.step .fresh
    [.addEventListener "open".toList 0 true (some 7), .dispatchEvent "open".toList false, .goesOn,
      .goesOn, .abort 7, .goesOn, .goesOn]).log := by
  apply listenerContract_of_proper
  refine ⟨.inr (by decide), ⟨rfl, by decide, fun _ _ _ waits => by cases waits⟩, ?_, trivial,
    trivial, ?_, trivial, trivial⟩
  · intro _
    simp only [EventTarget.RemovesOwn]
    decide
  · show EventTarget.RemovesOwn _ _
    simp only [EventTarget.RemovesOwn]
    decide

/-- A listener with a wrapper under another type is not removed; a once listener is called again
when its type is dispatched from inside; and an inherited name cannot be dispatched. -/
theorem removed_listener_called :
    (¬ListenerContract (runFrom TargetState.step .fresh
      [.addEventListener "open".toList 0 false none, .addEventListener "close".toList 0 true none,
        .removeEventListener "open".toList 0, .dispatchEvent "open".toList false, .goesOn]).log) ∧
    (¬ListenerContract (runFrom TargetState.step .fresh
      [.addEventListener "open".toList 0 false none, .addEventListener "open".toList 1 true none,
        .dispatchEvent "open".toList false, .goesOn, .dispatchEvent "open".toList false, .goesOn,
        .goesOn, .goesOn, .goesOn]).log) ∧
    ¬ListenerContract (runFrom TargetState.step .fresh
      [.dispatchEvent "toString".toList false]).log := by
  refine ⟨fun contract => ?_, fun contract => ?_, fun contract => ?_⟩
  · have called := contract.inOrder
      [.added ⟨0, "open".toList, 0, false, none⟩, .added ⟨1, "close".toList, 0, true, none⟩,
        .removed "open".toList 0] 0 "open".toList
      [.called 0 ⟨0, "open".toList, 0, false, none⟩] rfl
    revert called
    decide
  · have twice := contract.once ⟨1, "open".toList, 1, true, none⟩ rfl
    revert twice
    decide
  · exact contract.quiet (by decide)

end Steps

end QjsLws.Events
