import QjsLws.Context.RefCounter

/-!
# The contract of `ContextRefCounter`

While every key has one holder and at most one check is queued, the log of the counter meets its
contract. The invariant speaks about the count, the mode, the held keys, the number of queued
checks and the log only, so that operations that touch none of these keep it for free.
-/

namespace QjsLws.Context

open QjsLws.Misc

variable {κ π : Type} [DecidableEq κ]

/-! ## The invariant -/

/-- What holds of a counter whose keys have one holder each. -/
structure CountsOk (count : Int) (serverMode : Bool) (keys : Finset κ) (checks : Nat)
    (log : List (CounterEvent κ)) : Prop where
  counted : count = keys.card
  single : checks ≤ 1
  idle : ∀ held, .destroyed held ∈ log → held = ∅
  marked : .marked ∈ log → serverMode = true
  unmarked : ∀ before after held, log = before ++ .marked :: after → .destroyed held ∉ after
  quiet : ∀ before after held, log = before ++ .destroyed held :: after → .added ∉ after →
    keys = ∅ ∧ checks = 0
  separated : ∀ before between after held held',
    log = before ++ .destroyed held :: (between ++ .destroyed held' :: after) → .added ∈ between
  pending : ∀ before after, log = before ++ .emptied :: after →
    .added ∉ after → .marked ∉ after → .drained ∉ after →
      keys = ∅ ∧ serverMode = false ∧ after.countP CounterEvent.isDestroyed + checks = 1
  settles : ∀ before between after,
    log = before ++ .emptied :: (between ++ .drained :: after) →
      .added ∉ between → .marked ∉ between → .drained ∉ between →
        between.countP CounterEvent.isDestroyed = 1

/-- The invariant of a counter. -/
def CounterOk (c : RefCounter κ π) : Prop :=
  CountsOk c.count c.serverMode c.keys (c.queue.count .check) c.log

theorem CounterOk.refCounted {c : RefCounter κ π} (ok : CounterOk c) : RefCounted c :=
  ⟨ok.counted, ok.idle, ok.unmarked, ok.separated, ok.settles⟩

theorem counterOk_new : CounterOk (RefCounter.new : RefCounter κ π) := by
  constructor <;> simp [RefCounter.new]

section Notes

variable {count : Int} {serverMode : Bool} {keys : Finset κ} {checks : Nat}
  {log : List (CounterEvent κ)}

omit [DecidableEq κ] in
/-- The clauses that are about runs of `destroy` already in the log. -/
theorem CountsOk.separated_note (ok : CountsOk count serverMode keys checks log)
    {e : CounterEvent κ} (fresh : ∀ held, e = .destroyed held → checks ≠ 0)
    (before between after : List (CounterEvent κ)) (held held' : Finset κ)
    (same : log ++ [e] = before ++ .destroyed held :: (between ++ .destroyed held' :: after)) :
    .added ∈ between := by
  rcases snoc_eq_append_cons.mp same with ⟨nil, -, -⟩ | ⟨rest, split, old⟩
  · simp at nil
  · rcases snoc_eq_append_cons.mp split.symm with ⟨-, rfl, new⟩ | ⟨rest', -, middle⟩
    · by_contra absent
      exact fresh held' new (ok.quiet before _ held old absent).2
    · rw [middle] at old
      exact ok.separated before between rest' held held' old

omit [DecidableEq κ] in
theorem CountsOk.settles_note (ok : CountsOk count serverMode keys checks log)
    {e : CounterEvent κ} (ended : e = .drained → checks = 0)
    (before between after : List (CounterEvent κ))
    (same : log ++ [e] = before ++ .emptied :: (between ++ .drained :: after))
    (noAdd : .added ∉ between) (noMark : .marked ∉ between) (noDrain : .drained ∉ between) :
    between.countP CounterEvent.isDestroyed = 1 := by
  rcases snoc_eq_append_cons.mp same with ⟨nil, -, -⟩ | ⟨rest, split, old⟩
  · simp at nil
  · rcases snoc_eq_append_cons.mp split.symm with ⟨-, rfl, new⟩ | ⟨rest', -, middle⟩
    · have total := (ok.pending before _ old noAdd noMark noDrain).2.2
      rw [ended new] at total
      exact total
    · rw [middle] at old
      exact ok.settles before between rest' old noAdd noMark noDrain

omit [DecidableEq κ] in
theorem CountsOk.unmarked_note (ok : CountsOk count serverMode keys checks log)
    {e : CounterEvent κ} (fresh : ∀ held, e = .destroyed held → serverMode = false)
    (before after : List (CounterEvent κ)) (held : Finset κ)
    (same : log ++ [e] = before ++ .marked :: after) : .destroyed held ∉ after := by
  rcases snoc_eq_append_cons.mp same with ⟨rfl, -, -⟩ | ⟨rest, rfl, old⟩
  · simp
  · intro member
    rcases List.mem_append.mp member with earlier | last
    · exact ok.unmarked before rest held old earlier
    · have server := ok.marked (by simp [old])
      rw [fresh held (List.mem_singleton.mp last).symm] at server
      cases server

theorem CountsOk.add (ok : CountsOk count serverMode keys checks log) {key : κ}
    (free : key ∉ keys) :
    CountsOk (count + 1) serverMode (insert key keys) checks (log ++ [.added]) := by
  constructor
  case counted => rw [Finset.card_insert_of_notMem free, ok.counted]; simp
  case single => exact ok.single
  case idle => intro held member; exact ok.idle held (by simpa using member)
  case marked => intro member; exact ok.marked (by simpa using member)
  case unmarked => exact ok.unmarked_note (by simp)
  case separated => exact ok.separated_note (by simp)
  case settles => exact ok.settles_note (by simp)
  case quiet =>
    intro before after held same noAdd
    rcases snoc_eq_append_cons.mp same with ⟨-, -, new⟩ | ⟨rest, rfl, -⟩
    · cases new
    · simp at noAdd
  case pending =>
    intro before after same noAdd
    rcases snoc_eq_append_cons.mp same with ⟨-, -, new⟩ | ⟨rest, rfl, -⟩
    · cases new
    · simp at noAdd

omit [DecidableEq κ] in
theorem CountsOk.mark (ok : CountsOk count serverMode keys checks log) :
    CountsOk count true keys checks (log ++ [.marked]) := by
  constructor
  case counted => exact ok.counted
  case single => exact ok.single
  case idle => intro held member; exact ok.idle held (by simpa using member)
  case marked => exact fun _ => rfl
  case unmarked => exact ok.unmarked_note (by simp)
  case separated => exact ok.separated_note (by simp)
  case settles => exact ok.settles_note (by simp)
  case quiet =>
    intro before after held same noAdd
    rcases snoc_eq_append_cons.mp same with ⟨-, -, new⟩ | ⟨rest, rfl, old⟩
    · cases new
    · exact ok.quiet before rest held old (by simpa using noAdd)
  case pending =>
    intro before after same _ noMark
    rcases snoc_eq_append_cons.mp same with ⟨-, -, new⟩ | ⟨rest, rfl, -⟩
    · cases new
    · simp at noMark

/-- A key is released and others are still held, or the context serves. -/
theorem CountsOk.delete (ok : CountsOk count serverMode keys checks log) {key : κ}
    (held : key ∈ keys) : CountsOk (count - 1) serverMode (keys.erase key) checks log := by
  have nonempty : keys ≠ ∅ := fun empty => by simp [empty] at held
  constructor
  case counted =>
    have positive : 0 < keys.card := Finset.card_pos.mpr ⟨key, held⟩
    rw [Finset.card_erase_of_mem held, ok.counted]
    omega
  case single => exact ok.single
  case idle => exact ok.idle
  case marked => exact ok.marked
  case unmarked => exact ok.unmarked
  case separated => exact ok.separated
  case settles => exact ok.settles
  case quiet =>
    intro before after held' same noAdd
    exact absurd (ok.quiet before after held' same noAdd).1 nonempty
  case pending =>
    intro before after same noAdd noMark noDrain
    exact absurd (ok.pending before after same noAdd noMark noDrain).1 nonempty

omit [DecidableEq κ] in
/-- The last key is released and the check is queued. -/
theorem CountsOk.deleteLast {key : κ} (ok : CountsOk count false {key} 0 log) :
    CountsOk (count - 1) false (∅ : Finset κ) 1 (log ++ [.emptied]) := by
  have nonempty : ({key} : Finset κ) ≠ ∅ := Finset.singleton_ne_empty key
  constructor
  case counted => rw [ok.counted]; simp
  case single => exact Nat.le_refl 1
  case idle => intro held member; exact ok.idle held (by simpa using member)
  case marked => intro member; exact ok.marked (by simpa using member)
  case unmarked => exact ok.unmarked_note (by simp)
  case separated => exact ok.separated_note (by simp)
  case settles => exact ok.settles_note (by simp)
  case quiet =>
    intro before after held same noAdd
    rcases snoc_eq_append_cons.mp same with ⟨-, -, new⟩ | ⟨rest, rfl, old⟩
    · cases new
    · exact absurd (ok.quiet before rest held old (by simpa using noAdd)).1 nonempty
  case pending =>
    intro before after same noAdd noMark noDrain
    rcases snoc_eq_append_cons.mp same with ⟨rfl, -, -⟩ | ⟨rest, rfl, old⟩
    · exact ⟨rfl, rfl, rfl⟩
    · simp only [List.mem_append, List.mem_singleton, not_or] at noAdd noMark noDrain
      exact absurd (ok.pending before rest old noAdd.1 noMark.1 noDrain.1).1 nonempty

omit [DecidableEq κ] in
/-- A check that finds a held key or a server does nothing. -/
theorem CountsOk.checkHeld (ok : CountsOk count serverMode keys (checks + 1) log)
    (kept : ¬(count = 0 ∧ serverMode = false)) : CountsOk count serverMode keys checks log := by
  have blocked : ¬(keys = ∅ ∧ serverMode = false) := by
    rintro ⟨rfl, mode⟩
    exact kept ⟨by simpa using ok.counted, mode⟩
  constructor
  case counted => exact ok.counted
  case single => exact Nat.le_of_succ_le ok.single
  case idle => exact ok.idle
  case marked => exact ok.marked
  case unmarked => exact ok.unmarked
  case separated => exact ok.separated
  case settles => exact ok.settles
  case quiet =>
    intro before after held same noAdd
    exact absurd (ok.quiet before after held same noAdd).2 (Nat.succ_ne_zero checks)
  case pending =>
    intro before after same noAdd noMark noDrain
    have opened := ok.pending before after same noAdd noMark noDrain
    exact absurd ⟨opened.1, opened.2.1⟩ blocked

omit [DecidableEq κ] in
/-- A check that finds no key runs `destroy`. -/
theorem CountsOk.checkFree (ok : CountsOk 0 false keys (checks + 1) log) :
    CountsOk 0 false keys checks (log ++ [.destroyed keys]) := by
  have empty : keys = ∅ := Finset.card_eq_zero.mp (by exact_mod_cast ok.counted.symm)
  have last : checks = 0 := by have := ok.single; omega
  constructor
  case counted => exact ok.counted
  case single => exact Nat.le_of_succ_le ok.single
  case idle =>
    intro held member
    rcases List.mem_append.mp member with earlier | new
    · exact ok.idle held earlier
    · cases List.mem_singleton.mp new
      exact empty
  case marked => intro member; exact ok.marked (by simpa using member)
  case unmarked => exact ok.unmarked_note (fun _ _ => rfl)
  case separated => exact ok.separated_note (fun _ _ => Nat.succ_ne_zero checks)
  case settles => exact ok.settles_note (by simp)
  case quiet => exact fun _ _ _ _ _ => ⟨empty, last⟩
  case pending =>
    intro before after same noAdd noMark noDrain
    rcases snoc_eq_append_cons.mp same with ⟨-, -, new⟩ | ⟨rest, rfl, old⟩
    · cases new
    · simp only [List.mem_append, List.mem_singleton, not_or] at noAdd noMark noDrain
      obtain ⟨-, -, total⟩ := ok.pending before rest old noAdd.1 noMark.1 noDrain.1
      refine ⟨empty, rfl, ?_⟩
      rw [List.countP_append, List.countP_singleton]
      simp only [CounterEvent.isDestroyed, if_true]
      omega

omit [DecidableEq κ] in
theorem CountsOk.drain (ok : CountsOk count serverMode keys 0 log) :
    CountsOk count serverMode keys 0 (log ++ [.drained]) := by
  constructor
  case counted => exact ok.counted
  case single => exact ok.single
  case idle => intro held member; exact ok.idle held (by simpa using member)
  case marked => intro member; exact ok.marked (by simpa using member)
  case unmarked => exact ok.unmarked_note (by simp)
  case separated => exact ok.separated_note (by simp)
  case settles => exact ok.settles_note (fun _ => rfl)
  case quiet =>
    intro before after held same noAdd
    rcases snoc_eq_append_cons.mp same with ⟨-, -, new⟩ | ⟨rest, rfl, old⟩
    · cases new
    · exact ok.quiet before rest held old (by simpa using noAdd)
  case pending =>
    intro before after same _ _ noDrain
    rcases snoc_eq_append_cons.mp same with ⟨-, -, new⟩ | ⟨rest, rfl, -⟩
    · cases new
    · simp at noDrain

end Notes

/-! ## Operations -/

theorem CounterOk.add {c : RefCounter κ π} (ok : CounterOk c) {key : κ} (free : key ∉ c.keys) :
    CounterOk (c.add key) := CountsOk.add ok free

theorem CounterOk.react {c : RefCounter κ π} (ok : CounterOk c) (promise : π)
    (settlement : Settlement) (key : κ) : CounterOk (c.react promise settlement key) := by
  unfold RefCounter.react
  split
  · exact ok
  · split
    · simpa [CounterOk] using ok
    · exact ok

theorem CounterOk.settle [DecidableEq π] {c : RefCounter κ π} (ok : CounterOk c) (promise : π)
    (outcome : Settlement) : CounterOk (c.settle promise outcome) := by
  unfold RefCounter.settle
  split
  · exact ok
  · have unchecked : ∀ l : List (π × Settlement × κ),
        (l.map fun r => CounterJob.release r.2.2).count .check = 0 := by
      intro l
      simp [List.count_eq_zero]
    simpa [CounterOk, unchecked] using ok

/-- What a release of a held key does under the invariant. -/
theorem CounterOk.release {c : RefCounter κ π} (ok : CounterOk c) {key : κ}
    (alone : ReleaseAlone c key) : CounterOk (c.release key) := by
  unfold RefCounter.release
  split
  · rename_i held
    have deleted := CountsOk.delete ok held
    by_cases last : c.keys = {key}
    · have empty : c.keys.erase key = ∅ := by rw [last, Finset.erase_singleton]
      have zero : c.count - 1 = 0 := by
        have := ok.counted
        simp [last] at this
        omega
      cases mode : c.serverMode with
      | true =>
        simpa [RefCounter.noteEmptied, mode, CounterOk] using deleted
      | false =>
        have checks : c.queue.count .check = 0 := List.count_eq_zero.mpr (alone last mode)
        have final : CountsOk c.count false {key} 0 c.log := by
          have := ok
          rw [CounterOk, last, mode, checks] at this
          exact this
        simpa [RefCounter.noteEmptied, RefCounter.note, empty, mode, zero, CounterOk, checks]
          using final.deleteLast
    · have others : c.keys.erase key ≠ ∅ := by
        intro empty
        rcases Finset.erase_eq_empty_iff _ _ |>.mp empty with none | one
        · simp [none] at held
        · exact last one
      have positive : 1 < c.count := by
        have size : 0 < (c.keys.erase key).card := Finset.card_pos.mpr
          (Finset.nonempty_iff_ne_empty.mpr others)
        have counted := deleted.counted
        omega
      simpa [RefCounter.noteEmptied, others, positive, CounterOk] using deleted
  · exact ok

theorem CounterOk.noteDrained {c : RefCounter κ π} (ok : CounterOk c) :
    CounterOk c.noteDrained := by
  unfold RefCounter.noteDrained
  split
  · rename_i empty
    have quiet : CountsOk c.count c.serverMode c.keys 0 c.log := by
      have := ok
      rw [CounterOk, empty] at this
      exact this
    simpa [CounterOk, RefCounter.note, empty] using quiet.drain
  · exact ok

theorem CounterOk.runCheck {c : RefCounter κ π}
    (ok : CountsOk c.count c.serverMode c.keys (c.queue.count .check + 1) c.log) :
    CounterOk c.runCheck := by
  unfold RefCounter.runCheck
  split
  · rename_i free
    rw [free.1, free.2] at ok
    have destroyed := ok.checkFree
    simpa [CounterOk, RefCounter.note, free.1, free.2] using destroyed
  · rename_i kept
    exact ok.checkHeld kept

theorem CounterOk.runJob {c : RefCounter κ π} (ok : CounterOk c) (holder : OneHolder c .job) :
    CounterOk c.runJob := by
  unfold RefCounter.runJob
  split
  · exact ok
  · rename_i rest queued
    apply CounterOk.noteDrained
    apply CounterOk.runCheck
    have counted := ok
    rw [CounterOk, queued, List.count_cons_self] at counted
    exact counted
  · rename_i key rest queued
    apply CounterOk.noteDrained
    have alone : ReleaseAlone { c with queue := rest } key := by
      simpa [OneHolder, queued] using holder
    have popped : CounterOk { c with queue := rest } := by
      have counted := ok
      rw [CounterOk, queued, List.count_cons_of_ne (by simp)] at counted
      exact counted
    exact popped.release alone

theorem CounterOk.step [DecidableEq π] {c : RefCounter κ π} (ok : CounterOk c) {op : CounterOp κ π}
    (holder : OneHolder c op) : CounterOk (counterStep c op) := by
  cases op with
  | add key => exact ok.add holder
  | release key => exact ok.release holder
  | markServer => exact CountsOk.mark ok
  | track key opened closed => exact ((ok.add holder).react _ _ _).react _ _ _
  | settle promise outcome => exact ok.settle promise outcome
  | job => exact ok.runJob holder

variable [DecidableEq π]

/-- In every run that keeps one holder for each key and one check in the queue, the counter meets
its contract. -/
theorem refCounted_of_oneHolder (ops : List (CounterOp κ π))
    (holder : Along counterStep OneHolder RefCounter.new ops) :
    RefCounted (runFrom counterStep RefCounter.new ops) := by
  have reached : CounterOk (runFrom counterStep RefCounter.new ops) :=
    run_invariant_along (fun _ _ ok step => ok.step step) ops _ counterOk_new
      holder
  exact reached.refCounted

/-- A socket opens, closes and is released; the context is destroyed once. -/
theorem refCounted_one_socket :
    Along counterStep OneHolder (RefCounter.new : RefCounter Nat Nat)
        [.add 5, .release 5, .job] ∧
      RefCounted (runFrom counterStep (RefCounter.new : RefCounter Nat Nat)
        [.add 5, .release 5, .job]) := by
  have holder : Along counterStep OneHolder (RefCounter.new : RefCounter Nat Nat)
      [.add 5, .release 5, .job] := by
    refine ⟨?_, ?_, ?_, trivial⟩
    · simp [OneHolder, RefCounter.new]
    · intro _ _
      simp [counterStep, RefCounter.add, RefCounter.note, RefCounter.new]
    · simp [OneHolder, counterStep, RefCounter.release, RefCounter.noteEmptied, RefCounter.add,
        RefCounter.note, RefCounter.new]
  exact ⟨holder, refCounted_of_oneHolder _ holder⟩

/-! ## Other runs -/

/-- Two entries of a kind stand in this order in a log that has two of them. -/
theorem exists_two_of_countP {α : Type} {p : α → Bool} {l : List α} (two : 2 ≤ l.countP p) :
    ∃ before x between y after, l = before ++ x :: (between ++ y :: after) ∧ p x ∧ p y := by
  induction l with
  | nil => simp at two
  | cons a rest ih =>
    rw [List.countP_cons] at two
    by_cases first : p a
    · have one : 0 < rest.countP p := by
        rw [if_pos first] at two
        omega
      obtain ⟨y, member, second⟩ := List.countP_pos_iff.mp one
      obtain ⟨between, after, rfl⟩ := List.append_of_mem member
      exact ⟨[], a, between, y, after, rfl, first, second⟩
    · obtain ⟨before, x, between, y, after, rfl, px, py⟩ := ih (by simpa [first] using two)
      exact ⟨a :: before, x, between, y, after, rfl, px, py⟩

/-- While no key is held, every queued check runs `destroy`. -/
theorem drain_destroys (queue : List (CounterJob κ)) :
    ∀ c : RefCounter κ π, c.queue = queue → c.keys = ∅ → c.count = 0 → c.serverMode = false →
      ∃ more, (runFrom counterStep c (List.replicate queue.length .job)).log = c.log ++ more ∧
        .added ∉ more ∧ more.countP CounterEvent.isDestroyed = queue.count .check := by
  induction queue with
  | nil => intro c _ _ _ _; exact ⟨[], by simp⟩
  | cons job rest ih =>
    intro c queued empty zero mode
    have ran : ∃ first, (counterStep c .job).log = c.log ++ first ∧ .added ∉ first ∧
        first.countP CounterEvent.isDestroyed = [job].count .check ∧
        (counterStep c .job).queue = rest ∧ (counterStep c .job).keys = ∅ ∧
        (counterStep c .job).count = 0 ∧ (counterStep c .job).serverMode = false := by
      cases job with
      | check =>
        simp only [counterStep, RefCounter.runJob, queued, RefCounter.runCheck, zero, mode,
          and_self, if_true, RefCounter.noteDrained, RefCounter.note]
        split
        · exact ⟨[.destroyed c.keys, .drained], by simp, by simp, rfl, rfl, empty, rfl, rfl⟩
        · exact ⟨[.destroyed c.keys], rfl, by simp, rfl, rfl, empty, rfl, rfl⟩
      | release key =>
        simp only [counterStep, RefCounter.runJob, queued, RefCounter.release, empty,
          Finset.notMem_empty, if_false, RefCounter.noteDrained, RefCounter.note]
        split
        · exact ⟨[.drained], rfl, by simp, by simp [CounterEvent.isDestroyed], rfl, rfl, zero, mode⟩
        · exact ⟨[], by simp, by simp, by simp, rfl, rfl, zero, mode⟩
    obtain ⟨first, logged, noAdd, counted, left, empty', zero', mode'⟩ := ran
    obtain ⟨more, drained, noMore, total⟩ := ih _ left empty' zero' mode'
    refine ⟨first ++ more, ?_, by simp [noAdd, noMore], ?_⟩
    · rw [List.length_cons, List.replicate_succ, runFrom_cons, drained, logged, List.append_assoc]
    · rw [List.countP_append, counted, total, ← List.count_append, List.singleton_append]

/-- Two queued checks and no held key end in two runs of `destroy`. -/
theorem not_refCounted_of_checks {c : RefCounter κ π} (empty : c.keys = ∅) (zero : c.count = 0)
    (mode : c.serverMode = false) (two : 2 ≤ c.queue.count .check) :
    ¬RefCounted (runFrom counterStep c (List.replicate c.queue.length .job)) := by
  intro contract
  obtain ⟨more, logged, noAdd, counted⟩ := drain_destroys c.queue c rfl empty zero mode
  rw [← counted] at two
  obtain ⟨before, x, between, y, after, rfl, first, second⟩ := exists_two_of_countP two
  cases x <;> simp only [CounterEvent.isDestroyed, Bool.false_eq_true] at first
  cases y <;> simp only [CounterEvent.isDestroyed, Bool.false_eq_true] at second
  rw [← List.append_assoc] at logged
  have added := contract.separated _ _ _ _ _ logged
  simp [added] at noAdd

omit [DecidableEq π] in
theorem release_last {c : RefCounter κ π} (ok : CounterOk c) {key : κ} (last : c.keys = {key})
    (mode : c.serverMode = false) :
    c.release key = { c.note .emptied with
      keys := ∅
      count := 0
      queue := c.queue ++ [.check] } := by
  have one : c.count = 1 := by simpa [last] using ok.counted
  simp [RefCounter.release, last, one, mode, RefCounter.noteEmptied, RefCounter.note]

omit [DecidableEq π] in
theorem not_refCounted_of_held {c : RefCounter κ π} (ok : CounterOk c) {key : κ}
    (held : key ∈ c.keys) {c' : RefCounter κ π} (count : c'.count = c.count + 1)
    (keys : c'.keys = insert key c.keys) : ¬RefCounted c' := by
  intro contract
  have counted := contract.counted
  rw [count, keys, Finset.insert_eq_of_mem held, ok.counted] at counted
  omega

omit [DecidableEq κ] [DecidableEq π] in
theorem react_counts (c : RefCounter κ π) (promise : π) (settlement : Settlement) (key : κ) :
    (c.react promise settlement key).count = c.count ∧
      (c.react promise settlement key).keys = c.keys := by
  unfold RefCounter.react
  split
  · exact ⟨rfl, rfl⟩
  · split <;> exact ⟨rfl, rfl⟩

/-- The condition is sharp: after any other step the contract fails once the queue has run. -/
theorem not_refCounted_of_other {c : RefCounter κ π} (ok : CounterOk c) {op : CounterOp κ π}
    (other : ¬OneHolder c op) :
    ∃ n, ¬RefCounted (runFrom counterStep (counterStep c op) (List.replicate n .job)) := by
  cases op with
  | markServer => exact absurd trivial other
  | settle promise outcome => exact absurd trivial other
  | add key =>
    have held : key ∈ c.keys := not_not.mp other
    exact ⟨0, not_refCounted_of_held ok held rfl rfl⟩
  | track key opened closed =>
    have held : key ∈ c.keys := not_not.mp other
    refine ⟨0, not_refCounted_of_held ok held ?_ ?_⟩
    · simp [counterStep, RefCounter.track, react_counts, RefCounter.add]
    · simp [counterStep, RefCounter.track, react_counts, RefCounter.add]
  | release key =>
    simp only [OneHolder, ReleaseAlone] at other
    push Not at other
    obtain ⟨last, mode, queued⟩ := other
    have some := List.count_pos_iff.mpr queued
    simp only [counterStep, release_last ok last mode]
    refine ⟨_, not_refCounted_of_checks rfl rfl mode ?_⟩
    simp only [List.count_append, List.count_singleton_self]
    omega
  | job =>
    simp only [OneHolder] at other
    split at other
    · rename_i key rest queued
      simp only [ReleaseAlone] at other
      push Not at other
      obtain ⟨last, mode, waiting⟩ := other
      have some := List.count_pos_iff.mpr waiting
      have popped : CounterOk { c with queue := rest } := by
        have counted := ok
        rw [CounterOk, queued, List.count_cons_of_ne (by simp)] at counted
        exact counted
      have ran : counterStep c .job = { c.note .emptied with
          keys := ∅
          count := 0
          queue := rest ++ [.check] } := by
        simp only [counterStep, RefCounter.runJob, queued, release_last popped last mode]
        simp [RefCounter.noteDrained, RefCounter.note]
      rw [ran]
      refine ⟨_, not_refCounted_of_checks rfl rfl mode ?_⟩
      simp only [List.count_append, List.count_singleton_self]
      omega
    · exact absurd trivial other

/-- Two sockets that open and close within one turn: both checks find no key, and `destroy` runs
twice. -/
theorem destroyed_twice :
    ¬RefCounted (runFrom counterStep (RefCounter.new : RefCounter Nat Nat)
      [.add 1, .release 1, .add 2, .release 2, .job, .job]) := by
  intro contract
  have between := contract.separated [.added, .emptied, .added, .emptied] [] [.drained] ∅ ∅ (by
    simp [counterStep, RefCounter.runJob, RefCounter.runCheck, RefCounter.noteDrained,
      RefCounter.release, RefCounter.noteEmptied, RefCounter.add, RefCounter.note, RefCounter.new])
  cases between

end QjsLws.Context
