import Mathlib.Data.List.Pairwise
import QjsLws.Session.Expiry

/-!
# Expiry of sessions, proofs

The store and what is stored agree on the entries that have not expired (`fresh_run`), as long as no
touch finds an expired entry in the map. One that does finds it where nobody asked in between.
-/

namespace QjsLws.Session

open QjsLws.Misc

section Entries

variable {α : Type} {entry : TimedEntry α} {now moment : Moment}

theorem TimedEntry.fresh_iff : entry.fresh now = true ↔ ¬entry.expires ≤ (now : Ttl) := by
  simp [TimedEntry.fresh]

/-- What has expired stays so. -/
theorem TimedEntry.fresh_mono (order : moment ≤ now) (fresh : entry.fresh now = true) :
    entry.fresh moment = true := by
  rw [TimedEntry.fresh_iff] at fresh ⊢
  exact fun elapsed => fresh (elapsed.trans (WithTop.coe_le_coe.mpr order))

/-- Only the entries that are fresh earlier can be fresh later. -/
theorem filter_fresh_eq {a b : Option (TimedEntry α)} (order : moment ≤ now)
    (same : a.filter (·.fresh moment) = b.filter (·.fresh moment)) :
    a.filter (·.fresh now) = b.filter (·.fresh now) := by
  have twice : ∀ c : Option (TimedEntry α),
      (c.filter (·.fresh moment)).filter (·.fresh now) = c.filter (·.fresh now) := by
    intro c
    cases c with
    | none => rfl
    | some entry =>
      by_cases fresh : entry.fresh now = true
      · have before := TimedEntry.fresh_mono order fresh
        simp [Option.filter, fresh, before]
      · cases before : entry.fresh moment <;> simp [Option.filter, fresh, before]
  rw [← twice a, ← twice b, same]

end Entries

namespace TimedStore

variable {κ α : Type} [DecidableEq κ] {store : TimedStore κ α} {now : Moment} {sid : κ}

/-- `get` returns the entry that is fresh. -/
theorem get_fst : (store.get now sid).1 = ((store.map.get sid).filter (·.fresh now)).map (·.data) := by
  unfold get
  split
  · rename_i absent
    rw [absent]
    rfl
  · rename_i entry found
    rw [found]
    split
    · rename_i elapsed
      have stale : entry.fresh now = false := by
        rw [← Bool.not_eq_true, TimedEntry.fresh_iff]
        exact not_not.mpr elapsed
      simp [Option.filter, stale]
    · rename_i fresh
      simp [Option.filter, TimedEntry.fresh_iff.mpr fresh]

/-- A lookup drops what has expired. -/
theorem filter_get {moment : Moment} (order : moment ≤ now) (sid' : κ) :
    ((store.get moment sid).2.map.get sid').filter (·.fresh now)
      = (store.map.get sid').filter (·.fresh now) := by
  apply filter_fresh_eq order
  unfold get
  split
  · rfl
  · rename_i entry found
    split
    · rename_i elapsed
      have stale : entry.fresh moment = false := by
        rw [← Bool.not_eq_true, TimedEntry.fresh_iff]
        exact not_not.mpr elapsed
      rw [Assoc.get_erase]
      split
      · rename_i same
        subst same
        rw [found]
        simp [Option.filter, stale]
      · rfl
    · rfl

theorem filter_sweep {moment : Moment} (order : moment ≤ now) (sid' : κ) :
    ((store.sweep moment).2.map.get sid').filter (·.fresh now)
      = (store.map.get sid').filter (·.fresh now) := by
  apply filter_fresh_eq order
  unfold sweep
  dsimp only
  rw [Assoc.get_filterMap]
  cases store.map.get sid' with
  | none => rfl
  | some entry =>
    rw [Option.bind_some]
    split
    · rename_i elapsed
      have stale : entry.fresh moment = false := by
        rw [← Bool.not_eq_true, TimedEntry.fresh_iff]
        exact not_not.mpr elapsed
      simp [Option.filter, stale]
    · rfl

end TimedStore

namespace StoreHistory

variable {κ α : Type} [DecidableEq κ] {history earlier earlier' : StoreHistory κ α} {now : Moment}
  {sid : κ}

/-! ## The changes decide -/

omit [DecidableEq κ] in
theorem changes_cons (c : Moment × StoreCall κ α) (earlier : StoreHistory κ α) :
    changes (c :: earlier) = if c.2.changes then c :: changes earlier else changes earlier :=
  List.filter_cons

theorem stored_changes (sid : κ) (history : StoreHistory κ α) :
    stored sid (changes history) = stored sid history := by
  induction history with
  | nil => rfl
  | cons c earlier ih =>
    obtain ⟨now, call⟩ := c
    rw [changes_cons]
    cases call with
    | get _ | sweep => exact ih
    | set sid' data ttlMs | destroy sid' => exact congrArg (ite (sid' = sid) _) ih
    | touch sid' ttlMs =>
      change stored sid ((now, .touch sid' ttlMs) :: changes earlier) = _
      rw [stored, stored, ih]

theorem latest_changes (sid : κ) (history : StoreHistory κ α) :
    latest sid (changes history) = latest sid history := by
  induction history with
  | nil => rfl
  | cons c earlier ih =>
    obtain ⟨now, call⟩ := c
    rw [changes_cons]
    cases call with
    | get _ | sweep | touch sid' ttlMs => exact ih
    | set sid' data ttlMs | destroy sid' => exact congrArg (ite (sid' = sid) _) ih

theorem expected_changes : expected (changes history) now sid = expected history now sid := by
  rw [expected, stored_changes, expected]

theorem revives_changes {ttlMs : Ttl} :
    Revives (changes history) now sid ttlMs ↔ Revives history now sid ttlMs := by
  rw [Revives, Revives, latest_changes, expected_changes]

/-! ## Runs -/

/-- What is in the map was set and not destroyed since. -/
theorem latest_of_run (history : StoreHistory κ α) (sid : κ) :
    ((run history).map.get sid).isSome → (latest sid history).isSome := by
  induction history with
  | nil => exact id
  | cons c earlier ih =>
    obtain ⟨now, call⟩ := c
    intro found
    cases call with
    | get sid' =>
      refine ih ?_
      rw [run, step, TimedStore.get] at found
      split at found
      · exact found
      · split at found
        · rw [Assoc.get_erase] at found
          split at found
          · cases found
          · exact found
        · exact found
    | set sid' data ttlMs =>
      rw [run, step, TimedStore.set, Assoc.get_set] at found
      rw [latest]
      split at found
      · rename_i same
        rw [if_pos same]
        rfl
      · rename_i other
        rw [if_neg other]
        exact ih found
    | destroy sid' =>
      rw [run, step, TimedStore.destroy, Assoc.get_erase] at found
      rw [latest]
      split at found
      · cases found
      · rename_i other
        rw [if_neg other]
        exact ih found
    | touch sid' ttlMs =>
      refine ih ?_
      rw [run, step, TimedStore.touch] at found
      split at found
      · exact found
      · rename_i entry present
        rw [Assoc.get_set] at found
        split at found
        · rename_i same
          rw [← same]
          exact Option.isSome_of_eq_some present
        · exact found
    | sweep =>
      refine ih ?_
      rw [run, step, TimedStore.sweep, Assoc.get_filterMap] at found
      exact Option.isSome_of_isSome_bind found

/-- Where nobody asks, the map keeps what was set. -/
theorem run_of_changes (history : StoreHistory κ α) (quiet : ∀ c ∈ history, c.2.changes = true) (sid : κ) :
    ((run history).map.get sid).map (·.data) = latest sid history := by
  induction history with
  | nil => rfl
  | cons c earlier ih =>
    obtain ⟨now, call⟩ := c
    have before := ih fun c member => quiet c (List.mem_cons_of_mem _ member)
    have change := quiet _ List.mem_cons_self
    cases call with
    | get _ | sweep => cases change
    | set sid' data ttlMs =>
      rw [run, step, TimedStore.set, Assoc.get_set, latest, ← before]
      split <;> rfl
    | destroy sid' =>
      rw [run, step, TimedStore.destroy, Assoc.get_erase, latest, ← before]
      split <;> rfl
    | touch sid' ttlMs =>
      rw [run, step, TimedStore.touch, latest, ← before]
      split
      · rfl
      · rename_i entry found
        rw [Assoc.get_set]
        split
        · rename_i same
          rw [← same, found]
          rfl
        · rfl

/-- No touch of the history revives. -/
def Unrevived (history : StoreHistory κ α) : Prop :=
  ∀ later now sid ttlMs earlier, history = later ++ (now, .touch sid ttlMs) :: earlier →
    ¬Revives earlier now sid ttlMs

/-- The fresh entries are those stored, at every later moment. -/
theorem fresh_run (history : StoreHistory κ α) (ordered : Ordered history)
    (unrevived : Unrevived history) : ∀ now, (∀ c ∈ history, c.1 ≤ now) → ∀ sid,
      ((run history).map.get sid).filter (·.fresh now)
        = (stored sid history).filter (·.fresh now) := by
  induction history with
  | nil =>
    intro now _ sid
    rfl
  | cons c earlier ih =>
    obtain ⟨moment, call⟩ := c
    intro now past sid
    obtain ⟨before, ordered⟩ := List.pairwise_cons.mp ordered
    have same := ih ordered fun later now sid ttlMs earlier' split =>
      unrevived ((moment, call) :: later) now sid ttlMs earlier' (congrArg (_ :: ·) split)
    have order : moment ≤ now := past _ List.mem_cons_self
    have agrees := same now (fun c member => past c (List.mem_cons_of_mem _ member)) sid
    cases call with
    | get sid' => exact (TimedStore.filter_get order sid).trans agrees
    | sweep => exact (TimedStore.filter_sweep order sid).trans agrees
    | set sid' data ttlMs =>
      rw [run, step, TimedStore.set, Assoc.get_set, stored]
      split
      · rfl
      · exact agrees
    | destroy sid' =>
      rw [run, step, TimedStore.destroy, Assoc.get_erase, stored]
      split
      · rfl
      · exact agrees
    | touch sid' ttlMs =>
      have atTouch := same moment before sid'
      rw [run, step, TimedStore.touch, stored]
      cases found : (run earlier).map.get sid' with
      | none =>
        rw [found] at atTouch
        dsimp only
        split
        · rename_i target
          subst target
          rw [← atTouch, found]
          rfl
        · exact agrees
      | some entry =>
        rw [found] at atTouch
        dsimp only
        rw [Assoc.get_set]
        split
        · rename_i target
          subst target
          rw [← atTouch]
          by_cases fresh : entry.fresh moment = true
          · simp [Option.filter, fresh]
          · -- the entry has expired, so its new end has passed as well
            have kept := latest_of_run earlier sid' (Option.isSome_of_eq_some found)
            have none : expected earlier moment sid' = none := by
              rw [expected, ← atTouch]
              simp [Option.filter, fresh]
            have elapsed : (moment : Ttl) + ttlMs ≤ moment := by
              by_contra living
              exact unrevived [] moment sid' ttlMs earlier rfl ⟨kept, none, living⟩
            have stale : TimedEntry.fresh now { entry with expires := (moment : Ttl) + ttlMs } = false := by
              rw [← Bool.not_eq_true, TimedEntry.fresh_iff]
              exact not_not.mpr (elapsed.trans (WithTop.coe_le_coe.mpr order))
            simp [Option.filter, fresh, stale]
        · exact agrees

/-! ## The contract -/

omit [DecidableEq κ] in
/-- The calls before one of an ordered history are not after it. -/
theorem Ordered.before {later : StoreHistory κ α} {c : Moment × StoreCall κ α}
    (ordered : Ordered (later ++ c :: earlier)) : Ordered earlier ∧ ∀ c' ∈ earlier, c'.1 ≤ c.1 := by
  have tail := (List.pairwise_append.mp ordered).2.1
  exact ⟨(List.pairwise_cons.mp tail).2, (List.pairwise_cons.mp tail).1⟩

/-- Whether a touch revives is seen in the changes. -/
theorem unrevived_of_changes (unrevived : Unrevived (changes history))
    (same : changes earlier = changes history) : Unrevived earlier := by
  rintro later now sid ttlMs before rfl revives
  refine unrevived (changes later) now sid ttlMs (changes before) ?_ (revives_changes.mpr revives)
  rw [← same, changes, List.filter_append, List.filter_cons_of_pos rfl]
  rfl

theorem Unrevived.tail {later : StoreHistory κ α} (unrevived : Unrevived (later ++ earlier)) :
    Unrevived earlier := by
  rintro later' now sid ttlMs before rfl
  exact unrevived (later ++ later') now sid ttlMs before (by rw [List.append_assoc])

/-- An entry that was not stored comes back only where it is set. -/
theorem expected_of_unset {since : StoreHistory κ α} {moment : Moment}
    (unset : ∀ c ∈ since, ∀ data ttlMs, c.2 ≠ .set sid data ttlMs)
    (after : ∀ c ∈ since, moment ≤ c.1) (none : expected earlier moment sid = none) :
    ∀ now, moment ≤ now → expected (since ++ earlier) now sid = Option.none := by
  have gone : ∀ {entry : Option (TimedEntry α)} {now},
      (entry.filter (·.fresh now)).map (·.data) = Option.none ↔
        entry.filter (·.fresh now) = Option.none := Option.map_eq_none_iff
  induction since with
  | nil =>
    intro now order
    rw [expected, gone] at none
    rw [List.nil_append, expected, gone]
    exact filter_fresh_eq (b := Option.none) order none
  | cons c since ih =>
    obtain ⟨time, call⟩ := c
    have before := ih (fun c member => unset c (List.mem_cons_of_mem _ member))
      (fun c member => after c (List.mem_cons_of_mem _ member))
    have order : moment ≤ time := after _ List.mem_cons_self
    intro now later
    cases call with
    | get _ | sweep => exact before now later
    | set sid' data ttlMs =>
      have other : sid' ≠ sid := by
        rintro rfl
        exact unset _ List.mem_cons_self data ttlMs rfl
      rw [List.cons_append, expected, stored, if_neg other]
      exact before now later
    | destroy sid' =>
      rw [List.cons_append, expected, stored]
      split
      · rfl
      · exact before now later
    | touch sid' ttlMs =>
      rw [List.cons_append, expected, stored]
      split
      · rw [gone.mp (before time order)]
        rfl
      · exact before now later

/-- The store keeps its promise for changes exactly where no touch of theirs revives. -/
theorem contract_iff (history : StoreHistory κ α) (ordered : Ordered (changes history)) :
    Contract history ↔ Unrevived (changes history) := by
  constructor
  · rintro contract later now sid ttlMs earlier split ⟨kept, none, living⟩
    -- the run in which the first question is asked right after the touch
    have quiet : ∀ c ∈ later ++ (now, .touch sid ttlMs) :: earlier, c.2.changes = true := by
      intro c member
      rw [← split] at member
      exact (List.mem_filter.mp member).2
    rw [split] at ordered
    obtain ⟨front, tail, apart⟩ := List.pairwise_append.mp ordered
    have asked : Ordered (later ++ (now, .get sid) :: (now, .touch sid ttlMs) :: earlier) := by
      refine List.pairwise_append.mpr ⟨front, List.pairwise_cons.mpr ⟨?_, tail⟩, ?_⟩
      · exact List.forall_mem_cons.mpr ⟨le_refl now, (List.pairwise_cons.mp tail).1⟩
      · intro c member
        have outside := apart c member
        exact List.forall_mem_cons.mpr ⟨outside (now, .touch sid ttlMs) List.mem_cons_self, outside⟩
    have same : changes (later ++ (now, .get sid) :: (now, .touch sid ttlMs) :: earlier)
        = changes history := by
      rw [split, changes, List.filter_append, List.filter_cons_of_neg Bool.false_ne_true,
        ← List.filter_append]
      exact List.filter_eq_self.mpr quiet
    have nothing := contract.returns later now sid _ asked same
    have calm : ∀ c ∈ earlier, c.2.changes = true := fun c member =>
      quiet c (List.mem_append_right _ (List.mem_cons_of_mem _ member))
    have data := run_of_changes earlier calm sid
    obtain ⟨d, found⟩ := Option.isSome_iff_exists.mp kept
    rw [found, Option.map_eq_some_iff] at data
    obtain ⟨entry, present, -⟩ := data
    have gone : (stored sid earlier).filter (·.fresh now) = Option.none :=
      Option.map_eq_none_iff.mp none
    have fresh : TimedEntry.fresh now { entry with expires := (now : Ttl) + ttlMs } = true :=
      TimedEntry.fresh_iff.mpr living
    rw [TimedStore.get_fst, expected, stored, if_pos rfl, gone, run, step, TimedStore.touch, present] at nothing
    simp [Option.filter, fresh] at nothing
  · intro unrevived
    have returns : ∀ later now sid earlier, Ordered (later ++ (now, .get sid) :: earlier) →
        changes (later ++ (now, .get sid) :: earlier) = changes history →
          ((run earlier).get now sid).1 = expected earlier now sid := by
      intro later now sid earlier ordered same
      have whole := unrevived_of_changes unrevived same
      rw [List.append_cons] at whole
      rw [TimedStore.get_fst, expected,
        fresh_run earlier ordered.before.1 whole.tail now ordered.before.2 sid]
    refine ⟨returns, ?_, ?_⟩
    · intro later now sid since moment earlier ordered same after _ none unset
      have shape : later ++ (now, .get sid) :: since ++ earlier
          = later ++ (now, .get sid) :: (since ++ earlier) := by simp
      rw [returns later now sid _ (shape ▸ ordered) (shape ▸ same)]
      exact expected_of_unset unset (fun c member => after c (List.mem_cons_of_mem _ member)) none now
        (after _ List.mem_cons_self)
    · intro later later' now sid earlier earlier' ordered ordered' same same' equal
      rw [returns later now sid earlier ordered same, returns later' now sid earlier' ordered' same',
        ← expected_changes, equal, expected_changes]

/-- A session of ten milliseconds, touched in time: the later end counts. -/
theorem contract_touched : Contract [(9, .touch 1 10), (0, StoreCall.set 1 'a' 10)] := by
  refine (contract_iff _ (by simp [Ordered, changes, StoreCall.changes])).mpr ?_
  rintro later now sid ttlMs earlier split ⟨-, none, -⟩
  cases later with
  | nil =>
    cases split
    revert none
    decide
  | cons c later =>
    have inside : (now, StoreCall.touch sid ttlMs) ∈ [(0, StoreCall.set 1 'a' 10)] := by
      have tail : [(0, .set 1 'a' 10)] = later ++ (now, .touch sid ttlMs) :: earlier :=
        (List.cons.inj split).2
      rw [tail]
      exact List.mem_append_right _ List.mem_cons_self
    simp at inside

/-- Touched after its end, it is there again, unless a lookup came between. -/
theorem touched_late :
    ¬Contract [(12, .touch 1 10), (0, StoreCall.set 1 'a' 10)] := by
  intro contract
  have asked := contract.returns [] 13 1 [(12, .touch 1 10), (0, .set 1 'a' 10)]
    (by simp [Ordered]) rfl
  revert asked
  decide

end StoreHistory

end QjsLws.Session
