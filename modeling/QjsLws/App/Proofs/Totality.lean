import QjsLws.App.Totality
import QjsLws.App.Proofs.Dispatch
import QjsLws.App.Proofs.Errors

/-!
# When every request gets one response

Besides the forest of tasks three facts are kept: a task waits for a later one, what a `dispatch` or a
call has taken was responded to, and what is left to do has a weight that every step without a new
`next()` makes smaller.
-/

namespace QjsLws.App

open QjsLws.Misc

/-! ## The loop of `run` -/

section Loop

variable {s : ChainState} {i : Nat} {r : Task} {err : Bool}

theorem TasksOk.home_dispatch {tasks : List Task} (ok : TasksOk tasks) {t : Task}
    (found : tasks[i]? = some t) : ∃ above own left responded first promise,
      tasks[t.home]? = some ⟨above, own, .dispatch left responded first, promise⟩ := by
  induction i using Nat.strong_induction_on generalizing t with
  | _ i ih =>
    have node := ok.node i t found
    by_cases other : ∀ left responded first, t.work ≠ .dispatch left responded first
    · obtain ⟨p, named⟩ : ∃ p, t.parent = some p := by
        rcases t with ⟨parent, home, _ | _ | _ | _, promise⟩
        · exact absurd rfl (other _ _ _)
        · exact Option.ne_none_iff_exists'.mp node.2
        · exact Option.ne_none_iff_exists'.mp node.2
        · exact Option.ne_none_iff_exists'.mp node.2.1
      obtain ⟨before, u, above, edge⟩ := ok.parent_exists found named
      rw [edge.home_eq other]
      exact ih p before above
    · push Not at other
      obtain ⟨left, responded, first, work⟩ := other
      rw [Node, work] at node
      rw [node.2.1, found]
      obtain ⟨parent, home, _, promise⟩ := t
      cases work
      exact ⟨_, _, _, _, _, _, rfl⟩

/-- The three ends of the loop, for a `dispatch` with the layers `left`. -/
inductive LoopEnd (s : ChainState) (i : Nat) (r : Task) (err : Bool) (above : Option Nat)
    (own : Nat) (left : List Layer) (responded : Bool) (first : Nat) (promise : Promise) :
    ChainState → Prop where
  | drained (params : Assoc Text Text) (select : select err left s.req = .drained { s.req with params }) :
      LoopEnd s i r err above own left responded first promise
        { (s.put r.home ⟨above, own, .dispatch [] (responded || err) first, promise⟩).put i
            { r with promise := .resolved none } with
          req := if err then Exchange.answer { s.req with params } else { s.req with params } }
  | uriError (params : Assoc Text Text) (skipped left' : List Layer)
      (split : left = skipped ++ left') (fails : ∀ req, select err left s.req ≠ .drained req) :
      LoopEnd s i r err above own left responded first promise
        { (s.put r.home ⟨above, own, .dispatch left' responded first, promise⟩).put i
            { r with promise := .rejected true } with
          req := { s.req with params } }
  | calls (params : Assoc Text Text) (skipped left' : List Layer) (layer : Layer)
      (split : left = skipped ++ layer :: left')
      (fails : ∀ req, select err left s.req ≠ .drained req) :
      LoopEnd s i r err above own left responded first promise
        { ((s.put r.home ⟨above, own, .dispatch left' responded first, promise⟩).put i
            { r with work := .run (some s.tasks.length) }).push
              ⟨some i, r.home, ChainState.callOf layer, .pending⟩ with
          req := { s.req with params } }

theorem loop_end {above : Option Nat} {own : Nat} {left : List Layer} {responded : Bool}
    {first : Nat} {promise : Promise} (i : Nat) (err : Bool)
    (home : s.tasks[r.home]? = some ⟨above, own, .dispatch left responded first, promise⟩) :
    LoopEnd s i r err above own left responded first promise (s.loop i r err) := by
  have selects := select_selects err left s.req
  rw [ChainState.loop, home]
  dsimp only
  split
  · next req selected =>
    rw [selected] at selects
    obtain ⟨⟨params, rfl⟩, -⟩ := selects
    exact .drained params selected
  · next req left' selected =>
    rw [selected] at selects
    obtain ⟨⟨params, rfl⟩, skipped, layer, split⟩ := selects
    refine .uriError params (skipped ++ [layer]) left' (by simp [split]) fun req impossible => ?_
    rw [selected] at impossible
    cases impossible
  · next layer req left' selected =>
    rw [selected] at selects
    obtain ⟨⟨params, rfl⟩, -, skipped, split, -⟩ := selects
    refine .calls params skipped left' layer split fun req impossible => ?_
    rw [selected] at impossible
    cases impossible

/-- Headers are kept; they are sent where the stack drains with an error. -/
theorem headersSent_loop {above : Option Nat} {own : Nat} {left : List Layer} {responded : Bool}
    {first : Nat} {promise : Promise}
    (home : s.tasks[r.home]? = some ⟨above, own, .dispatch left responded first, promise⟩) :
    (s.loop i r err).req.headersSent = true ↔
      s.req.headersSent = true ∨ err = true ∧ ∃ req, select err left s.req = .drained req := by
  have ends := loop_end (r := r) i err home
  generalize s.loop i r err = s' at ends
  cases ends with
  | drained params selected =>
    cases err with
    | true =>
      have answered : (Exchange.answer { s.req with params }).headersSent = true := by
        rw [Exchange.answer]
        split
        · assumption
        · rfl
      exact ⟨fun _ => .inr ⟨rfl, _, selected⟩, fun _ => answered⟩
    | false => simp
  | uriError params skipped left' split fails =>
    exact ⟨.inl, fun sent => sent.resolve_right fun both => both.2.elim fails⟩
  | calls params skipped left' layer split fails =>
    exact ⟨.inl, fun sent => sent.resolve_right fun both => both.2.elim fails⟩

end Loop

/-! ## What holds of every task by itself -/

section Local

variable {s : ChainState} {n m i j : Nat} {sent sent' : Bool} {t : Task} {tasks : List Task}

/-- The task that the task waits for. -/
def Task.waits (t : Task) : Option Nat :=
  match t.work with
  | .dispatch _ _ first => some first
  | .run awaits => awaits
  | .handler .. => none
  | .mount _ _ phase _ => phase.router

/-- The task says that the request was taken. -/
def Task.Claims (t : Task) : Prop :=
  t.took = true ∨ t.promise = .resolved (some true) ∨
    match t.work with
    | .dispatch _ responded _ => responded = true
    | .mount _ _ (.continued _) advanced => advanced = false
    | _ => False

/-- A task waits for a later one of the `n` tasks, a pending `run` for a call, only what was responded
to is taken, and the app's `dispatch` is not rejected. -/
structure LocalOk (n : Nat) (sent : Bool) (i : Nat) (t : Task) : Prop where
  waits : ∀ j, t.waits = some j → i < j ∧ j < n
  calls : t.work = .run none → t.settled = true
  claims : t.Claims → sent = true
  root : i = 0 → ∀ err, t.promise ≠ .rejected err

/-- This of all tasks. -/
def Local (n : Nat) (sent : Bool) (tasks : List Task) : Prop :=
  ∀ i t, tasks[i]? = some t → LocalOk n sent i t

/-- This of all tasks but one. -/
def LocalBut (n : Nat) (sent : Bool) (i : Nat) (tasks : List Task) : Prop :=
  ∀ j t, j ≠ i → tasks[j]? = some t → LocalOk n sent j t

theorem LocalOk.mono (ok : LocalOk n sent i t) (longer : n ≤ m)
    (more : sent = true → sent' = true) : LocalOk m sent' i t where
  waits j next := ⟨(ok.waits j next).1, (ok.waits j next).2.trans_le longer⟩
  calls := ok.calls
  claims claims := more (ok.claims claims)
  root := ok.root

theorem LocalBut.mono (ok : LocalBut n sent i tasks) (longer : n ≤ m)
    (more : sent = true → sent' = true) : LocalBut m sent' i tasks :=
  fun j t apart found => (ok j t apart found).mono longer more

theorem Local.mono (ok : Local n sent tasks) (longer : n ≤ m) (more : sent = true → sent' = true) :
    Local m sent' tasks := fun j t found => (ok j t found).mono longer more

theorem Local.but (ok : Local n sent tasks) (i : Nat) : LocalBut n sent i tasks :=
  fun j t _ found => ok j t found

theorem LocalBut.close (ok : LocalBut n sent i tasks) (new : LocalOk n sent i t) :
    Local n sent (tasks.set i t) := by
  intro j u found
  rw [List.getElem?_set] at found
  split at found
  · next same =>
    subst same
    split at found
    · exact Option.some.inj found ▸ new
    · cases found
  · next apart => exact ok j u (Ne.symm apart) found

theorem LocalBut.set (ok : LocalBut n sent i tasks) (new : LocalOk n sent j t) :
    LocalBut n sent i (tasks.set j t) := by
  intro k u apart found
  rw [List.getElem?_set] at found
  split at found
  · next same =>
    subst same
    split at found
    · exact Option.some.inj found ▸ new
    · cases found
  · exact ok k u apart found

theorem Local.set (ok : Local n sent tasks) (new : LocalOk n sent i t) :
    Local n sent (tasks.set i t) := (ok.but i).close new

theorem Local.append (ok : Local n sent tasks) (new : LocalOk n sent tasks.length t) :
    Local n sent (tasks ++ [t]) := by
  intro j u found
  rcases getElem?_snoc.mp found with old | ⟨rfl, rfl⟩
  · exact ok j u old
  · exact new

theorem LocalBut.of_append (ok : Local n sent tasks) (t : Task) :
    LocalBut n sent tasks.length (tasks ++ [t]) := by
  intro j u apart found
  rcases getElem?_snoc.mp found with old | ⟨rfl, rfl⟩
  · exact ok j u old
  · exact (apart rfl).elim

/-- The loop of a pending `run` that is not yet, or no more, waiting for a call. -/
theorem local_loop {parent awaits above : Option Nat} {home own first : Nat} {left : List Layer}
    {responded err : Bool} {promise : Promise}
    (but : LocalBut s.tasks.length s.req.headersSent i s.tasks) (inner : i ≠ 0)
    (found : s.tasks[i]? = some ⟨parent, home, .run awaits, .pending⟩)
    (waits : ∀ j, awaits = some j → i < j ∧ j < s.tasks.length)
    (atHome : s.tasks[home]? = some ⟨above, own, .dispatch left responded first, promise⟩) :
    Local (s.loop i ⟨parent, home, .run awaits, .pending⟩ err).tasks.length
      (s.loop i ⟨parent, home, .run awaits, .pending⟩ err).req.headersSent
      (s.loop i ⟨parent, home, .run awaits, .pending⟩ err).tasks := by
  have kept := @headersSent_loop s i ⟨parent, home, .run awaits, .pending⟩ err _ _ _ _ _ _ atHome
  have ends := loop_end (r := ⟨parent, home, .run awaits, .pending⟩) i err atHome
  generalize s.loop i ⟨parent, home, .run awaits, .pending⟩ err = s' at ends kept
  have more := fun sent => kept.mpr (.inl sent)
  have apart : home ≠ i := by
    rintro rfl
    rw [found] at atHome
    cases atHome
  obtain ⟨inside, -⟩ := List.getElem?_eq_some_iff.mp found
  have old := (but home _ apart atHome)
  -- the `dispatch` with fewer layers, and perhaps with the answer to an error
  have dispatch : ∀ {m sent'} left' responded', s.tasks.length ≤ m →
      (s.req.headersSent = true → sent' = true) → (responded' = true → responded = true ∨ sent' = true) →
      LocalOk m sent' home ⟨above, own, .dispatch left' responded' first, promise⟩ := by
    intro m sent' left' responded' longer grows shows
    refine ⟨(old.mono longer grows).waits, (by simp), ?_, old.root⟩
    rintro (impossible | yes | yes)
    · exact grows (old.claims (.inl impossible))
    · exact grows (old.claims (.inr (.inl yes)))
    · exact (shows yes).elim (fun yes => grows (old.claims (.inr (.inr yes)))) id
  cases ends with
  | drained params selected =>
    refine LocalBut.close (t := ⟨parent, home, .run awaits, .resolved none⟩)
      (LocalBut.set (but.mono (by simp [ChainState.put]) more) (dispatch _ _ ?_ more ?_)) ?_
    · simp [ChainState.put]
    · intro yes
      rcases Bool.or_eq_true_iff.mp yes with before | failed
      · exact .inl before
      · exact .inr (kept.mpr (.inr ⟨failed, _, selected⟩))
    · refine ⟨?_, fun _ => rfl, ?_, fun top => (inner top).elim⟩
      · simpa [ChainState.put, Task.waits] using waits
      · rintro (no | no | no) <;> cases no
  | uriError params skipped left' split fails =>
    refine LocalBut.close (t := ⟨parent, home, .run awaits, .rejected true⟩)
      (LocalBut.set (but.mono (by simp [ChainState.put]) more) (dispatch _ _ ?_ more .inl)) ?_
    · simp [ChainState.put]
    · refine ⟨?_, fun _ => rfl, ?_, fun top => (inner top).elim⟩
      · simpa [ChainState.put, Task.waits] using waits
      · rintro (no | no | no) <;> cases no
  | calls params skipped left' layer split fails =>
    refine Local.append (LocalBut.close (t := ⟨parent, home, .run (some s.tasks.length), .pending⟩)
      (LocalBut.set (but.mono (by simp [ChainState.put, ChainState.push]) more)
        (dispatch _ _ ?_ more .inl)) ?_) ?_
    · simp [ChainState.put, ChainState.push]
    · refine ⟨?_, by simp, ?_, by simp⟩
      · rintro _ ⟨⟩
        exact ⟨inside, by simp [ChainState.put, ChainState.push]⟩
      · rintro (no | no | no) <;> cases no
    · cases layer with
      | handler method regex keys isError id =>
        refine ⟨?_, ?_, ?_, by simp⟩
        · rintro _ ⟨⟩
        · rintro ⟨⟩
        · rintro (no | no | no) <;> cases no
      | router path regex keys layers =>
        refine ⟨?_, ?_, ?_, by simp⟩
        · rintro _ ⟨⟩
        · rintro ⟨⟩
        · rintro (no | no | no) <;> cases no

theorem local_startRun {above : Option Nat} {home own first : Nat} {left : List Layer}
    {responded err : Bool} {promise : Promise} {parent : Nat}
    (ok : Local (s.tasks.length + 1) s.req.headersSent s.tasks)
    (atHome : s.tasks[home]? = some ⟨above, own, .dispatch left responded first, promise⟩) :
    Local (s.startRun parent home err).tasks.length (s.startRun parent home err).req.headersSent
      (s.startRun parent home err).tasks := by
  obtain ⟨inside, -⟩ := List.getElem?_eq_some_iff.mp atHome
  refine local_loop (s := s.push ⟨some parent, home, .run none, .pending⟩) ?_ (by omega)
    List.getElem?_concat_length nofun ((List.getElem?_append_left inside).trans atHome)
  rw [ChainState.push, List.length_append]
  exact LocalBut.of_append ok _

theorem local_startDispatch {parent : Option Nat} {layers : List Layer}
    (ok : Local (s.tasks.length + 2) s.req.headersSent s.tasks) :
    Local (s.startDispatch parent layers).tasks.length
      (s.startDispatch parent layers).req.headersSent (s.startDispatch parent layers).tasks := by
  refine local_startRun ?_ List.getElem?_concat_length
  rw [ChainState.push, List.length_append]
  refine ok.append ⟨?_, by simp, ?_, by simp⟩
  · rintro _ ⟨⟩
    omega
  · rintro (no | no | no) <;> cases no

/-- The invariant of the tasks by themselves, with what the response keeps. -/
structure LocalInv (s : ChainState) : Prop where
  tasks : Local s.tasks.length s.req.headersSent s.tasks
  sent : s.req.sent = true → s.req.headersSent = true

theorem local_handler {id : Nat} {parent : Option Nat} {home : Nat} {advanced : Bool}
    {promise : Promise} (claims : advanced = false → ∀ v, promise = .resolved v → sent = true)
    (plain : promise ≠ .resolved (some true)) (inner : i ≠ 0) :
    LocalOk n sent i ⟨parent, home, .handler id advanced, promise⟩ := by
  refine ⟨nofun, nofun, ?_, fun top => (inner top).elim⟩
  rintro (took | yes | no)
  · cases promise with
    | pending => cases took
    | resolved v => exact claims (by simpa [Task.took] using took) v rfl
    | rejected err => cases took
  · exact (plain yes).elim
  · cases no

theorem claims_of_promiseAt (ok : Local n sent s.tasks)
    (promise : s.promiseAt i = .resolved (some true)) : sent = true := by
  obtain ⟨t, found, is⟩ : ∃ t, s.tasks[i]? = some t ∧ t.promise = .resolved (some true) := by
    rw [ChainState.promiseAt] at promise
    cases found : s.tasks[i]? with
    | none =>
      rw [found] at promise
      cases promise
    | some t =>
      rw [found] at promise
      exact ⟨t, rfl, promise⟩
  exact (ok i t found).claims (.inr (.inl is))

theorem length_put (s : ChainState) (i : Nat) (t : Task) :
    (s.put i t).tasks.length = s.tasks.length := List.length_set

theorem ChainOk.inner (ok : ChainOk s) (found : s.tasks[i]? = some t)
    (other : ∀ left responded first, t.work ≠ .dispatch left responded first) : i ≠ 0 := by
  have node := ok.tasks.node i t found
  obtain ⟨p, named⟩ : ∃ p, t.parent = some p := by
    rcases t with ⟨parent, home, _ | _ | _ | _, promise⟩
    · exact absurd rfl (other _ _ _)
    · exact Option.ne_none_iff_exists'.mp node.2
    · exact Option.ne_none_iff_exists'.mp node.2
    · exact Option.ne_none_iff_exists'.mp node.2.1
  have before := (ok.tasks.edge i t p found named).1
  omega

/-- The `dispatch` of a task, after another task has been replaced. -/
theorem ChainOk.home_put (ok : ChainOk s) (t' : Task) (found : s.tasks[i]? = some t)
    (other : ∀ left responded first, t.work ≠ .dispatch left responded first) :
    ∃ above own left responded first promise, (s.put i t').tasks[t.home]?
      = some ⟨above, own, .dispatch left responded first, promise⟩ := by
  obtain ⟨above, own, left, responded, first, promise, atHome⟩ := ok.tasks.home_dispatch found
  have apart : i ≠ t.home := by
    rintro same
    rw [← same, found, Option.some.injEq] at atHome
    exact other left responded first (by rw [atHome])
  exact ⟨above, own, left, responded, first, promise, (s.get_put_ne apart t').trans atHome⟩

/-! ### Steps -/

theorem local_callNext (ok : ChainOk s) (inv : LocalInv s) (i : Nat) (err : Bool) :
    Local (chainStep s (.callNext i err)).tasks.length
      (chainStep s (.callNext i err)).req.headersSent (chainStep s (.callNext i err)).tasks := by
  rw [chainStep]
  split
  · next parent home number advanced found =>
    obtain ⟨above, own, left, responded, first, promise, atHome⟩ := ok.home_put
      ⟨parent, home, .handler number true, .pending⟩ found (by simp)
    refine local_startRun ?_ atHome
    rw [length_put]
    exact (inv.tasks.mono (Nat.le_succ _) id).set
      (local_handler (by simp) (by simp) (ok.inner found (by simp)))
  · exact inv.tasks

theorem local_enter (inv : LocalInv s) (i : Nat) :
    Local (chainStep s (.enter i)).tasks.length (chainStep s (.enter i)).req.headersSent
      (chainStep s (.enter i)).tasks := by
  rw [chainStep]
  split
  · next parent home path layers advanced found =>
    obtain ⟨inside, -⟩ := List.getElem?_eq_some_iff.mp found
    apply local_startDispatch
    dsimp only
    rw [length_put]
    refine (inv.tasks.mono (by omega) id).set ⟨?_, by simp, ?_, by simp⟩
    · rintro _ ⟨⟩
      omega
    · rintro (no | no | no) <;> cases no
  · exact inv.tasks

theorem local_continueMount (ok : ChainOk s) (inv : LocalInv s) (i : Nat) :
    Local (chainStep s (.continueMount i)).tasks.length
      (chainStep s (.continueMount i)).req.headersSent (chainStep s (.continueMount i)).tasks := by
  rw [chainStep]
  split
  · next parent home path layers saved router advanced found =>
    have waits := (inv.tasks i _ found).waits
    have moved : ∀ {m advanced'}, s.tasks.length ≤ m →
        (advanced' = false → s.req.headersSent = true) → LocalOk m s.req.headersSent i
          ⟨parent, home, .mount path layers (.continued router) advanced', .pending⟩ := by
      intro m advanced' longer handled
      refine ⟨?_, by simp, ?_, by simp⟩
      · rintro _ ⟨⟩
        obtain ⟨after, inside⟩ := waits router rfl
        exact ⟨after, inside.trans_le longer⟩
      · rintro (no | no | no)
        · cases no
        · cases no
        · exact handled no
    have goesOn : ∀ err, Local
        (ChainState.startRun { s.put i ⟨parent, home, .mount path layers (.continued router) true,
          .pending⟩ with req := { s.req with path := saved } } i home err).tasks.length
        (ChainState.startRun { s.put i ⟨parent, home, .mount path layers (.continued router) true,
          .pending⟩ with req := { s.req with path := saved } } i home err).req.headersSent
        (ChainState.startRun { s.put i ⟨parent, home, .mount path layers (.continued router) true,
          .pending⟩ with req := { s.req with path := saved } } i home err).tasks := by
      intro err
      obtain ⟨above, own, left, responded, first, promise, atHome⟩ := ok.home_put
        ⟨parent, home, .mount path layers (.continued router) true, .pending⟩ found (by simp)
      refine local_startRun ?_ atHome
      dsimp only
      rw [length_put]
      exact (inv.tasks.mono (Nat.le_succ _) id).set (moved (Nat.le_succ _) (by simp))
    dsimp only
    split
    · exact inv.tasks
    · next value settled =>
      split
      · next handled =>
        dsimp only
        rw [length_put]
        refine inv.tasks.set (moved (Nat.le_refl _) fun _ => ?_)
        exact claims_of_promiseAt inv.tasks (handled ▸ settled)
      · exact goesOn false
    · next err _ => exact goesOn err
  · exact inv.tasks

theorem local_resumeRun (ok : ChainOk s) (inv : LocalInv s) (i : Nat) :
    Local (chainStep s (.resumeRun i)).tasks.length
      (chainStep s (.resumeRun i)).req.headersSent (chainStep s (.resumeRun i)).tasks := by
  rw [chainStep]
  split
  · next parent home call found =>
    split
    · next t above own left responded first promise called atHome =>
      have waits := (inv.tasks i _ found).waits
      split
      · exact inv.tasks
      · next value settled =>
        rw [length_put, length_put]
        refine Local.set (Local.set inv.tasks ⟨?_, (by simp), ?_, ?_⟩) ⟨waits, fun _ => rfl, ?_, (by simp)⟩
        · exact (inv.tasks home _ atHome).waits
        · have old := (inv.tasks home _ atHome).claims
          rintro (no | yes | yes)
          · cases no
          · exact old (.inr (.inl yes))
          · rcases Bool.or_eq_true_iff.mp yes with before | took
            · exact old (.inr (.inr before))
            · exact (inv.tasks call t called).claims (.inl took)
        · exact (inv.tasks home _ atHome).root
        · rintro (no | no | no) <;> cases no
      · next err settled =>
        exact local_loop (inv.tasks.but i) (ok.inner found (by simp)) found waits atHome
    · exact inv.tasks
  · exact inv.tasks

theorem local_settleDispatch (inv : LocalInv s) (i : Nat)
    (responsible : Responsible s (.settleDispatch i)) :
    Local (chainStep s (.settleDispatch i)).tasks.length
      (chainStep s (.settleDispatch i)).req.headersSent (chainStep s (.settleDispatch i)).tasks := by
  rw [chainStep]
  split
  · next parent home left responded first found =>
    have old := inv.tasks i _ found
    split
    · exact inv.tasks
    · rw [length_put]
      refine inv.tasks.set ⟨old.waits, (by simp), ?_, (by simp)⟩
      rintro (no | yes | yes)
      · cases no
      · rcases Bool.or_eq_true_iff.mp (by simpa using yes) with shows | sent
        · exact old.claims (.inr (.inr shows))
        · exact inv.sent sent
      · exact old.claims (.inr (.inr yes))
    · next err rejected =>
      rw [length_put]
      refine inv.tasks.set ⟨old.waits, (by simp), ?_, ?_⟩
      · rintro (no | no | yes)
        · cases no
        · cases no
        · exact old.claims (.inr (.inr yes))
      · intro top
        exact (responsible.2 top parent home left responded first found err rejected).elim
  · exact inv.tasks

theorem headersSent_answer (req : Exchange) : req.answer.headersSent = true := by
  rw [Exchange.answer]
  split
  · assumption
  · rfl

theorem local_step (ok : ChainOk s) (inv : LocalInv s) (event : ChainEvent)
    (responsible : Responsible s event) :
    Local (chainStep s event).tasks.length (chainStep s event).req.headersSent
      (chainStep s event).tasks := by
  cases event with
  | callNext i err => exact local_callNext ok inv i err
  | finish i =>
    rw [chainStep]
    split
    · next parent home id advanced found =>
      split
      · next settled =>
        rw [length_put]
        refine inv.tasks.set (local_handler ?_ (by simp) (ok.inner found (by simp)))
        rintro rfl _ -
        exact responsible.2 parent home id found settled
      · exact inv.tasks
    · exact inv.tasks
  | throws i err =>
    rw [chainStep]
    split
    · next parent home number advanced found =>
      split
      · rw [length_put]
        exact inv.tasks.set (local_handler (by simp) (by simp) (ok.inner found (by simp)))
      · exact inv.tasks
    · exact inv.tasks
  | changes req => exact inv.tasks.mono (Nat.le_refl _) responsible.2.2.1
  | enter i => exact local_enter inv i
  | continueMount i => exact local_continueMount ok inv i
  | finishMount i =>
    rw [chainStep]
    split
    · next parent home path layers router advanced found =>
      have old := inv.tasks i _ found
      rw [length_put]
      refine inv.tasks.set ⟨old.waits, (by simp), ?_, (by simp)⟩
      rintro (took | no | yes)
      · exact old.claims (.inr (.inr (by simpa [Task.took] using took)))
      · cases no
      · exact old.claims (.inr (.inr yes))
    · exact inv.tasks
  | resumeRun i => exact local_resumeRun ok inv i
  | settleDispatch i => exact local_settleDispatch inv i responsible
  | answer =>
    rw [chainStep]
    split
    · exact inv.tasks.mono (Nat.le_refl _) fun _ => headersSent_answer _
    · exact inv.tasks.mono (Nat.le_refl _) fun _ => headersSent_answer _
    · exact inv.tasks

end Local

/-! ## The response -/

section Response

variable {s : ChainState} {i : Nat}

theorem leftAt_eq {above : Option Nat} {own first : Nat} {left : List Layer} {responded : Bool}
    {promise : Promise} (atHome : s.tasks[i]? = some ⟨above, own, .dispatch left responded first,
      promise⟩) : s.leftAt i = some left := by
  rw [ChainState.leftAt, atHome]

theorem dispatch_of_leftAt (known : (s.leftAt i).isSome = true) :
    ∃ above own left responded first promise,
      s.tasks[i]? = some ⟨above, own, .dispatch left responded first, promise⟩ := by
  rw [ChainState.leftAt] at known
  split at known
  · next above own left responded first promise found =>
    exact ⟨above, own, left, responded, first, promise, found⟩
  · cases known

/-- The response of a `run` that was started, by the layers that are left to its `dispatch`. -/
theorem headersSent_startRun {above : Option Nat} {home own first : Nat} {left : List Layer}
    {responded : Bool} {promise : Promise} (parent : Nat) (err : Bool)
    (atHome : s.tasks[home]? = some ⟨above, own, .dispatch left responded first, promise⟩) :
    (s.startRun parent home err).req.headersSent = true ↔
      s.req.headersSent = true ∨ err = true ∧ ∃ req, select err left s.req = .drained req := by
  obtain ⟨inside, -⟩ := List.getElem?_eq_some_iff.mp atHome
  exact headersSent_loop (s := s.push ⟨some parent, home, .run none, .pending⟩)
    ((List.getElem?_append_left inside).trans atHome)

theorem headersSent_startDispatch (s : ChainState) (parent : Option Nat) (layers : List Layer) :
    (s.startDispatch parent layers).req.headersSent = true ↔ s.req.headersSent = true := by
  rw [ChainState.startDispatch]
  refine (headersSent_startRun _ _ List.getElem?_concat_length).trans ?_
  simp [ChainState.push]

/-- Headers are sent by a handler, by `listen`, or where the stack drains with an error pending. -/
theorem headersSent_step (ok : ChainOk s) {event : ChainEvent} (inner : event ≠ .answer)
    (quiet : ∀ req, event ≠ .changes req) : (chainStep s event).req.headersSent = true ↔
      s.req.headersSent = true ∨ s.DrainsWithError event := by
  have silent : s.runsWithError event = none → ¬s.DrainsWithError event := by
    rintro none ⟨left, req, req', runs, -⟩
    rw [none] at runs
    cases runs
  -- the `run(err)` of a task whose `dispatch` has the layers `left`
  have drains : ∀ {err : Bool} {left : List Layer} {req : Exchange},
      s.runsWithError event = (if err then some (left, req) else none) →
      (s.DrainsWithError event ↔ err = true ∧ ∃ req', select err left req = .drained req') := by
    intro err left req runs
    cases err with
    | false => simp [silent runs]
    | true =>
      rw [ChainState.DrainsWithError, runs]
      simp
  cases event with
  | callNext i err =>
    rw [chainStep]
    split
    · next parent home number advanced found =>
      obtain ⟨above, own, left, responded, first, promise, atHome⟩ := ok.tasks.home_dispatch found
      have apart : i ≠ home := by
        rintro rfl
        rw [found] at atHome
        cases atHome
      rw [headersSent_startRun _ _ ((s.get_put_ne apart _).trans atHome)]
      refine or_congr_right (drains ?_).symm
      cases err with
      | false => rfl
      | true => simp [ChainState.runsWithError, found, leftAt_eq atHome]; rfl
    · next other =>
      refine (or_iff_left (silent ?_)).symm
      cases err with
      | false => rfl
      | true =>
        rw [ChainState.runsWithError]
        split
        · next found => exact (other _ _ _ _ found).elim
        · rfl
  | finish i =>
    rw [chainStep]
    refine Iff.trans ?_ (or_iff_left (silent rfl)).symm
    split
    · split <;> exact Iff.rfl
    · exact Iff.rfl
  | throws i err =>
    rw [chainStep]
    refine Iff.trans ?_ (or_iff_left (silent rfl)).symm
    split
    · split <;> exact Iff.rfl
    · exact Iff.rfl
  | changes req => exact (quiet req rfl).elim
  | enter i =>
    rw [chainStep]
    refine Iff.trans ?_ (or_iff_left (silent rfl)).symm
    split
    · exact headersSent_startDispatch _ _ _
    · exact Iff.rfl
  | continueMount i =>
    rw [chainStep]
    split
    · next parent home path layers saved router advanced found =>
      obtain ⟨above, own, left, responded, first, promise, atHome⟩ := ok.tasks.home_dispatch found
      have apart : i ≠ home := by
        rintro rfl
        rw [found] at atHome
        cases atHome
      have runs : s.runsWithError (.continueMount i) = if s.promiseAt router = .rejected true then
          some (left, { s.req with path := saved }) else none := by
        simp [ChainState.runsWithError, found, leftAt_eq atHome]
      have goesOn := fun err => headersSent_startRun i err
        (s := { s.put i ⟨parent, home, .mount path layers (.continued router) true, .pending⟩ with
          req := { s.req with path := saved } }) ((s.get_put_ne apart _).trans atHome)
      dsimp only
      split
      · next waits =>
        exact (or_iff_left (silent (by rw [runs, waits]; rfl))).symm
      · next value settled =>
        have none := silent (by rw [runs, settled]; rfl)
        split
        · exact (or_iff_left none).symm
        · refine (goesOn false).trans ?_
          simp [none]
      · next err settled =>
        refine (goesOn err).trans (or_congr_right (drains ?_).symm)
        rw [runs, settled]
        cases err <;> rfl
    · next other =>
      refine (or_iff_left (silent ?_)).symm
      rw [ChainState.runsWithError]
      split
      · next found => exact (other _ _ _ _ _ _ _ found).elim
      · rfl
  | finishMount i =>
    rw [chainStep]
    refine Iff.trans ?_ (or_iff_left (silent rfl)).symm
    split <;> exact Iff.rfl
  | resumeRun i =>
    rw [chainStep]
    split
    · next parent home call found =>
      obtain ⟨above, own, left, responded, first, promise, atHome⟩ := ok.tasks.home_dispatch found
      have runs : s.runsWithError (.resumeRun i) = if s.promiseAt call = .rejected true then
          some (left, s.req) else none := by
        simp [ChainState.runsWithError, found, leftAt_eq atHome]
      split
      · next t _ _ _ _ _ _ called atHome' =>
        have promiseAt : s.promiseAt call = t.promise := by
          rw [ChainState.promiseAt, called]
          rfl
        rw [promiseAt] at runs
        split
        · next waits => exact (or_iff_left (silent (by rw [runs, waits]; rfl))).symm
        · next value settled => exact (or_iff_left (silent (by rw [runs, settled]; rfl))).symm
        · next err settled =>
          refine (headersSent_loop atHome).trans (or_congr_right (drains ?_).symm)
          rw [runs, settled]
          cases err <;> rfl
      · next other =>
        refine (or_iff_left (silent ?_)).symm
        rw [runs, if_neg]
        intro rejected
        rw [ChainState.promiseAt] at rejected
        cases called : s.tasks[call]? with
        | none =>
          rw [called] at rejected
          cases rejected
        | some t => exact other t _ _ _ _ _ _ called atHome
    · next other =>
      refine (or_iff_left (silent ?_)).symm
      rw [ChainState.runsWithError]
      split
      · next found => exact (other _ _ _ found).elim
      · rfl
  | settleDispatch i =>
    rw [chainStep]
    refine Iff.trans ?_ (or_iff_left (silent rfl)).symm
    split
    · split <;> exact Iff.rfl
    · exact Iff.rfl
  | answer => exact (inner rfl).elim

/-- The chain leaves the response alone or answers. -/
def Answers (req req' : Exchange) : Prop := ∃ path params,
  req' = { req with path, params } ∨ req' = Exchange.answer { req with path, params }

theorem Answers.refl (req : Exchange) : Answers req req := ⟨req.path, req.params, .inl rfl⟩

theorem Answers.of_path {req req' : Exchange} {path : Text}
    (answers : Answers { req with path } req') : Answers req req' := answers

theorem Answers.sent {req req' : Exchange} (answers : Answers req req')
    (kept : req.sent = true → req.headersSent = true) : req'.sent = true → req'.headersSent = true := by
  obtain ⟨path, params, rfl | rfl⟩ := answers
  · exact kept
  · exact fun _ => headersSent_answer _

theorem answers_loop (i : Nat) (r : Task) (err : Bool) :
    Answers s.req (s.loop i r err).req := by
  rw [ChainState.loop]
  split
  · next left responded first promise _ =>
    have selects := select_selects err left s.req
    split
    · next req selected =>
      rw [selected] at selects
      obtain ⟨⟨params, rfl⟩, -⟩ := selects
      refine ⟨s.req.path, params, ?_⟩
      cases err with
      | true => exact .inr rfl
      | false => exact .inl rfl
    · next req left' selected =>
      rw [selected] at selects
      obtain ⟨⟨params, rfl⟩, -⟩ := selects
      exact ⟨s.req.path, params, .inl rfl⟩
    · next layer req left' selected =>
      rw [selected] at selects
      obtain ⟨⟨params, rfl⟩, -⟩ := selects
      exact ⟨s.req.path, params, .inl rfl⟩
  · exact .refl _

theorem answers_startRun (parent home : Nat) (err : Bool) :
    Answers s.req (s.startRun parent home err).req := answers_loop _ _ _

theorem answers_startDispatch (parent : Option Nat) (layers : List Layer) :
    Answers s.req (s.startDispatch parent layers).req := answers_startRun _ _ _

theorem answers_step {event : ChainEvent} (quiet : ∀ req, event ≠ .changes req) :
    Answers s.req (chainStep s event).req := by
  have same : Answers s.req s.req := .refl _
  have answered : Answers s.req s.req.answer := ⟨s.req.path, s.req.params, .inr rfl⟩
  cases event with
  | callNext i err =>
    rw [chainStep]
    split
    · exact answers_startRun _ _ _
    · exact same
  | finish i =>
    rw [chainStep]
    split
    · split <;> exact same
    · exact same
  | throws i err =>
    rw [chainStep]
    split
    · split <;> exact same
    · exact same
  | changes req => exact (quiet req rfl).elim
  | enter i =>
    rw [chainStep]
    split
    · exact Answers.of_path (answers_startDispatch _ _)
    · exact same
  | continueMount i =>
    rw [chainStep]
    split
    · dsimp only
      split
      · exact same
      · split
        · exact Answers.of_path (.refl _)
        · exact Answers.of_path (answers_startRun _ _ _)
      · exact Answers.of_path (answers_startRun _ _ _)
    · exact same
  | finishMount i =>
    rw [chainStep]
    split <;> exact same
  | resumeRun i =>
    rw [chainStep]
    split
    · split
      · split
        · exact same
        · exact same
        · exact answers_loop _ _ _
      · exact same
    · exact same
  | settleDispatch i =>
    rw [chainStep]
    split
    · split <;> exact same
    · exact same
  | answer =>
    rw [chainStep]
    split
    · exact answered
    · exact answered
    · exact same

theorem LocalInv.step (ok : ChainOk s) (inv : LocalInv s) (event : ChainEvent)
    (responsible : Responsible s event) : LocalInv (chainStep s event) := by
  refine ⟨local_step ok inv event responsible, ?_⟩
  by_cases quiet : ∀ req, event ≠ .changes req
  · exact (answers_step quiet).sent inv.sent
  · push Not at quiet
    obtain ⟨req, rfl⟩ := quiet
    exact responsible.2.2.2.2

theorem localInv_start (layers : List Layer) (method path : Text) :
    LocalInv (chainStart layers (newRequest method path)) := by
  refine ⟨local_startDispatch ?_, ?_⟩
  · intro i t found
    cases found
  · exact (answers_startDispatch _ _).sent nofun

theorem headersSent_mono {event : ChainEvent} (responsible : Responsible s event)
    (sent : s.req.headersSent = true) : (chainStep s event).req.headersSent = true := by
  by_cases quiet : ∀ req, event ≠ .changes req
  · obtain ⟨path, params, eq | eq⟩ := answers_step (s := s) quiet
    · rw [eq]
      exact sent
    · rw [eq]
      exact headersSent_answer _
  · push Not at quiet
    obtain ⟨req, rfl⟩ := quiet
    exact responsible.2.2.1 sent

end Response

/-! ## Coming to the end -/

section Weight

variable {s : ChainState} {i : Nat}

mutual

/-- What a layer may still cost. -/
def layerWeight : Layer → Nat
  | .handler .. => 2
  | .router _ _ _ layers => 8 + layersWeight layers

/-- What the layers may still cost together. -/
def layersWeight : List Layer → Nat
  | [] => 0
  | layer :: left => layerWeight layer + layersWeight left

end

/-- What a task still has to do. -/
def Task.weight (t : Task) : Nat :=
  let pending := if t.settled then 0 else 1
  match t.work with
  | .dispatch left _ _ => layersWeight left + pending
  | .run _ | .handler .. => pending
  | .mount _ layers .called _ => 7 + layersWeight layers
  | .mount _ _ (.dispatched ..) _ => 3
  | .mount _ _ (.continued _) _ => pending

/-- What all tasks still have to do. -/
def ChainState.weight (s : ChainState) : Nat := (s.tasks.map Task.weight).sum

theorem layersWeight_append (first second : List Layer) :
    layersWeight (first ++ second) = layersWeight first + layersWeight second := by
  induction first with
  | nil => rw [List.nil_append, layersWeight, Nat.zero_add]
  | cons layer first ih => rw [List.cons_append, layersWeight, layersWeight, ih, Nat.add_assoc]

theorem weight_set {tasks : List Task} {t : Task} (found : tasks[i]? = some t) (t' : Task) :
    ((tasks.set i t').map Task.weight).sum + t.weight = (tasks.map Task.weight).sum + t'.weight := by
  induction tasks generalizing i with
  | nil => cases found
  | cons u tasks ih =>
    cases i with
    | zero =>
      obtain rfl : u = t := Option.some.inj found
      simp only [List.set_cons_zero, List.map_cons, List.sum_cons]
      omega
    | succ i =>
      have rest := ih (i := i) found
      simp only [List.set_cons_succ, List.map_cons, List.sum_cons]
      omega

theorem weight_put {t : Task} (found : s.tasks[i]? = some t) (t' : Task) :
    (s.put i t').weight + t.weight = s.weight + t'.weight := weight_set found t'

theorem weight_push (s : ChainState) (t : Task) : (s.push t).weight = s.weight + t.weight := by
  simp [ChainState.weight, ChainState.push]

theorem weight_callOf (layer : Layer) (parent : Option Nat) (home : Nat) :
    Task.weight ⟨parent, home, ChainState.callOf layer, .pending⟩ < layerWeight layer := by
  cases layer with
  | handler method regex keys isError id =>
    rw [layerWeight]
    exact (by decide : 1 < 2)
  | router path regex keys layers =>
    rw [layerWeight]
    change 7 + layersWeight layers < _
    omega

/-- Every round of the loop costs something. -/
theorem weight_loop {parent awaits above : Option Nat} {home own first : Nat} {left : List Layer}
    {responded : Bool} {promise : Promise} (err : Bool)
    (found : s.tasks[i]? = some ⟨parent, home, .run awaits, .pending⟩)
    (atHome : s.tasks[home]? = some ⟨above, own, .dispatch left responded first, promise⟩) :
    (s.loop i ⟨parent, home, .run awaits, .pending⟩ err).weight < s.weight := by
  have ends := loop_end (r := ⟨parent, home, .run awaits, .pending⟩) i err atHome
  generalize s.loop i ⟨parent, home, .run awaits, .pending⟩ err = s' at ends
  have apart : home ≠ i := by
    rintro rfl
    rw [found] at atHome
    cases atHome
  have still : ∀ t', (s.put home t').tasks[i]? = some ⟨parent, home, .run awaits, .pending⟩ :=
    fun t' => (s.get_put_ne apart t').trans found
  have running : Task.weight ⟨parent, home, .run awaits, .pending⟩ = 1 := rfl
  obtain ⟨more, cost⟩ : ∃ more, ∀ left' responded',
      Task.weight ⟨above, own, .dispatch left' responded' first, promise⟩
        = layersWeight left' + more := ⟨if promise.settled then 0 else 1, fun _ _ => rfl⟩
  cases ends with
  | drained params selected =>
    have moved := weight_put atHome ⟨above, own, .dispatch [] (responded || err) first, promise⟩
    have settles := weight_put (still ⟨above, own, .dispatch [] (responded || err) first, promise⟩)
      ⟨parent, home, .run awaits, .resolved none⟩
    have done : Task.weight ⟨parent, home, .run awaits, .resolved none⟩ = 0 := rfl
    rw [cost, cost, layersWeight] at moved
    rw [running, done] at settles
    have less : ((s.put home ⟨above, own, .dispatch [] (responded || err) first, promise⟩).put i
        ⟨parent, home, .run awaits, .resolved none⟩).weight < s.weight := by omega
    exact less
  | uriError params skipped left' split fails =>
    have moved := weight_put atHome ⟨above, own, .dispatch left' responded first, promise⟩
    have settles := weight_put (still ⟨above, own, .dispatch left' responded first, promise⟩)
      ⟨parent, home, .run awaits, .rejected true⟩
    have done : Task.weight ⟨parent, home, .run awaits, .rejected true⟩ = 0 := rfl
    rw [cost, cost, split, layersWeight_append] at moved
    rw [running, done] at settles
    have less : ((s.put home ⟨above, own, .dispatch left' responded first, promise⟩).put i
        ⟨parent, home, .run awaits, .rejected true⟩).weight < s.weight := by omega
    exact less
  | calls params skipped left' layer split fails =>
    have moved := weight_put atHome ⟨above, own, .dispatch left' responded first, promise⟩
    have waits := weight_put (still ⟨above, own, .dispatch left' responded first, promise⟩)
      ⟨parent, home, .run (some s.tasks.length), .pending⟩
    have pending : Task.weight ⟨parent, home, .run (some s.tasks.length), .pending⟩ = 1 := rfl
    have called := weight_callOf layer (some i) home
    rw [cost, cost, split, layersWeight_append, layersWeight] at moved
    rw [running, pending] at waits
    have less : (((s.put home ⟨above, own, .dispatch left' responded first, promise⟩).put i
        ⟨parent, home, .run (some s.tasks.length), .pending⟩).push
          ⟨some i, home, ChainState.callOf layer, .pending⟩).weight < s.weight := by
      rw [weight_push]
      omega
    exact less

theorem weight_startRun {above : Option Nat} {parent home own first : Nat} {left : List Layer}
    {responded : Bool} {promise : Promise} (err : Bool)
    (atHome : s.tasks[home]? = some ⟨above, own, .dispatch left responded first, promise⟩) :
    (s.startRun parent home err).weight ≤ s.weight := by
  obtain ⟨inside, -⟩ := List.getElem?_eq_some_iff.mp atHome
  have less := weight_loop (s := s.push ⟨some parent, home, .run none, .pending⟩) err
    List.getElem?_concat_length ((List.getElem?_append_left inside).trans atHome)
  rw [weight_push] at less
  exact Nat.lt_succ_iff.mp less

theorem weight_startDispatch (parent : Option Nat) (layers : List Layer) :
    (s.startDispatch parent layers).weight ≤ s.weight + layersWeight layers + 1 := by
  refine (weight_startRun (s := s.push _) false List.getElem?_concat_length).trans ?_
  rw [weight_push]
  exact Nat.le_refl _

/-- A step that is due makes what is left smaller. -/
theorem weight_step {event : ChainEvent} (due : s.Due event) :
    (chainStep s event).weight < s.weight := by
  cases event with
  | callNext i err => exact due.elim
  | changes req => exact due.elim
  | answer => exact due.elim
  | finish i =>
    obtain ⟨parent, home, number, advanced, found, settled⟩ := due
    have put := weight_put found ⟨parent, home, .handler number advanced, .resolved none⟩
    have before : Task.weight ⟨parent, home, .handler number advanced, .pending⟩ = 1 := rfl
    have after : Task.weight ⟨parent, home, .handler number advanced, .resolved none⟩ = 0 := rfl
    rw [chainStep, found]
    dsimp only
    rw [if_pos settled]
    omega
  | throws i err =>
    obtain ⟨parent, home, number, advanced, found, settled⟩ := due
    have put := weight_put found ⟨parent, home, .handler number advanced, .rejected err⟩
    have before : Task.weight ⟨parent, home, .handler number advanced, .pending⟩ = 1 := rfl
    have after : Task.weight ⟨parent, home, .handler number advanced, .rejected err⟩ = 0 := rfl
    rw [chainStep, found]
    dsimp only
    rw [if_pos settled]
    omega
  | enter i =>
    obtain ⟨parent, home, path, layers, advanced, found⟩ := due
    have put := weight_put found ⟨parent, home,
      .mount path layers (.dispatched s.req.path s.tasks.length) advanced, .pending⟩
    have before : Task.weight ⟨parent, home, .mount path layers .called advanced, .pending⟩
      = 7 + layersWeight layers := rfl
    have after : Task.weight ⟨parent, home,
      .mount path layers (.dispatched s.req.path s.tasks.length) advanced, .pending⟩ = 3 := rfl
    rw [chainStep, found]
    refine (weight_startDispatch _ _).trans_lt ?_
    change ChainState.weight (s.put i _) + _ + _ < _
    omega
  | continueMount i =>
    obtain ⟨parent, home, path, layers, saved, router, advanced, found, settled, known⟩ := due
    obtain ⟨above, own, left, responded, first, promise, atHome⟩ := dispatch_of_leftAt known
    have apart : i ≠ home := by
      rintro rfl
      rw [found] at atHome
      cases atHome
    have put := fun advanced' => weight_put found
      ⟨parent, home, .mount path layers (.continued router) advanced', .pending⟩
    have before : Task.weight ⟨parent, home, .mount path layers (.dispatched saved router) advanced,
      .pending⟩ = 3 := rfl
    have after : ∀ advanced', Task.weight ⟨parent, home,
      .mount path layers (.continued router) advanced', .pending⟩ = 1 := fun _ => rfl
    have goesOn : ∀ err, (ChainState.startRun { s.put i ⟨parent, home,
        .mount path layers (.continued router) true, .pending⟩ with
          req := { s.req with path := saved } } i home err).weight < s.weight := by
      intro err
      refine (weight_startRun (s := { s.put i ⟨parent, home,
        .mount path layers (.continued router) true, .pending⟩ with
          req := { s.req with path := saved } }) err
            ((s.get_put_ne apart _).trans atHome)).trans_lt ?_
      have put := put true
      rw [after] at put
      change ChainState.weight (s.put i _) < _
      omega
    rw [chainStep, found]
    dsimp only
    split
    · next waits =>
      rw [waits] at settled
      cases settled
    · split
      · have put := put advanced
        rw [after] at put
        change ChainState.weight (s.put i _) < _
        omega
      · exact goesOn false
    · exact goesOn _
  | finishMount i =>
    obtain ⟨parent, home, path, layers, router, advanced, found⟩ := due
    have put := weight_put found
      ⟨parent, home, .mount path layers (.continued router) advanced, .resolved none⟩
    have before : Task.weight ⟨parent, home, .mount path layers (.continued router) advanced,
      .pending⟩ = 1 := rfl
    have after : Task.weight ⟨parent, home, .mount path layers (.continued router) advanced,
      .resolved none⟩ = 0 := rfl
    rw [chainStep, found]
    dsimp only
    omega
  | resumeRun i =>
    obtain ⟨parent, home, call, found, settled, known⟩ := due
    obtain ⟨above, own, left, responded, first, promise, atHome⟩ := dispatch_of_leftAt known
    rw [ChainState.promiseAt] at settled
    cases called : s.tasks[call]? with
    | none =>
      rw [called] at settled
      cases settled
    | some t =>
      rw [called] at settled
      rw [chainStep, found]
      dsimp only
      rw [called, atHome]
      dsimp only
      split
      · next waits =>
        rw [Option.elim, waits] at settled
        cases settled
      · have apart : home ≠ i := by
          rintro rfl
          rw [found] at atHome
          cases atHome
        have moved := weight_put atHome
          ⟨above, own, .dispatch left (responded || t.took) first, promise⟩
        have put := weight_put ((s.get_put_ne apart
          ⟨above, own, .dispatch left (responded || t.took) first, promise⟩).trans found)
            ⟨parent, home, .run (some call), .resolved none⟩
        have same : Task.weight ⟨above, own, .dispatch left (responded || t.took) first, promise⟩
          = Task.weight ⟨above, own, .dispatch left responded first, promise⟩ := rfl
        have before : Task.weight ⟨parent, home, .run (some call), .pending⟩ = 1 := rfl
        have after : Task.weight ⟨parent, home, .run (some call), .resolved none⟩ = 0 := rfl
        omega
      · exact weight_loop _ found atHome
  | settleDispatch i =>
    obtain ⟨parent, home, left, responded, first, found, settled⟩ := due
    have before : Task.weight ⟨parent, home, .dispatch left responded first, .pending⟩
      = layersWeight left + 1 := rfl
    rw [chainStep, found]
    dsimp only
    split
    · next waits =>
      rw [waits] at settled
      cases settled
    · have put := weight_put found ⟨parent, home, .dispatch left responded first,
        .resolved (some (responded || s.req.sent))⟩
      have after : Task.weight ⟨parent, home, .dispatch left responded first,
        .resolved (some (responded || s.req.sent))⟩ = layersWeight left := rfl
      omega
    · next err _ =>
      have put := weight_put found ⟨parent, home, .dispatch left responded first, .rejected err⟩
      have after : Task.weight ⟨parent, home, .dispatch left responded first, .rejected err⟩
        = layersWeight left := rfl
      omega

/-- Where a promise is pending, something is due: the last one waits for nothing. -/
theorem due_of_pending (ok : ChainOk s) (inv : LocalInv s) {t : Task} (found : s.tasks[i]? = some t)
    (pending : t.settled = false) : ∃ event, s.Due event := by
  induction remaining : s.tasks.length - i using Nat.strong_induction_on generalizing i t with
  | _ remaining ih =>
    obtain ⟨inside, -⟩ := List.getElem?_eq_some_iff.mp found
    by_cases later : ∃ j u, i < j ∧ s.tasks[j]? = some u ∧ u.settled = false
    · obtain ⟨j, u, after, foundLater, pendingLater⟩ := later
      obtain ⟨within, -⟩ := List.getElem?_eq_some_iff.mp foundLater
      exact ih (s.tasks.length - j) (by omega) foundLater pendingLater rfl
    · have settledAfter : ∀ (j : Nat) (u : Task), i < j → s.tasks[j]? = some u → u.settled = true := by
        intro j u after foundLater
        by_contra open_
        exact later ⟨j, u, after, foundLater, by simpa using open_⟩
      have promiseAfter : ∀ j, i < j → j < s.tasks.length → (s.promiseAt j).settled = true := by
        intro j after within
        have foundLater : s.tasks[j]? = some s.tasks[j] := List.getElem?_eq_getElem within
        rw [ChainState.promiseAt, foundLater]
        exact settledAfter j _ after foundLater
      have own := inv.tasks i t found
      obtain ⟨above, home, left, responded, first, promise, atHome⟩ := ok.tasks.home_dispatch found
      have known : (s.leftAt t.home).isSome = true := by
        rw [leftAt_eq atHome]
        rfl
      obtain ⟨parent, home, work, promise⟩ := t
      obtain rfl : promise = .pending := by
        cases promise with
        | pending => rfl
        | resolved v => cases pending
        | rejected err => cases pending
      cases work with
      | dispatch left responded first =>
        obtain ⟨after, within⟩ := own.waits first rfl
        exact ⟨.settleDispatch i, parent, home, left, responded, first, found,
          promiseAfter first after within⟩
      | run awaits =>
        cases awaits with
        | none => cases own.calls rfl
        | some call =>
          obtain ⟨after, within⟩ := own.waits call rfl
          exact ⟨.resumeRun i, parent, home, call, found, promiseAfter call after within, known⟩
      | handler id advanced =>
        refine ⟨.finish i, parent, home, id, advanced, found, List.all_eq_true.mpr fun u member => ?_⟩
        obtain ⟨c, foundChild⟩ := List.mem_iff_getElem?.mp member
        by_cases named : u.parent = some i
        · have before := (ok.tasks.edge c u i foundChild named).1
          simp [settledAfter c u before foundChild]
        · simp [named]
      | mount path layers phase advanced =>
        cases phase with
        | called => exact ⟨.enter i, parent, home, path, layers, advanced, found⟩
        | dispatched saved router =>
          obtain ⟨after, within⟩ := own.waits router rfl
          exact ⟨.continueMount i, parent, home, path, layers, saved, router, advanced, found,
            promiseAfter router after within, known⟩
        | continued router => exact ⟨.finishMount i, parent, home, path, layers, router, advanced, found⟩

end Weight

/-! ## Runs -/

section Runs

variable {s : ChainState} {layers : List Layer} {method path : Text} {events : List ChainEvent}

/-- Both invariants. -/
structure RequestInv (s : ChainState) : Prop where
  chain : ChainOk s
  tasks : LocalInv s

theorem RequestInv.step (inv : RequestInv s) {event : ChainEvent} (responsible : Responsible s event) :
    RequestInv (chainStep s event) :=
  ⟨inv.chain.step event responsible.1, inv.tasks.step inv.chain event responsible⟩

theorem RequestInv.run (inv : RequestInv s) (along : Along chainStep Responsible s events) :
    RequestInv (runFrom chainStep s events) :=
  run_invariant_along (fun _ _ inv responsible => inv.step responsible) events s inv along

theorem requestInv_start (layers : List Layer) (method path : Text) :
    RequestInv (chainStart layers (newRequest method path)) :=
  ⟨chainOk_start layers _, localInv_start layers method path⟩

theorem headersSent_run (along : Along chainStep Responsible s events)
    (sent : s.req.headersSent = true) : (runFrom chainStep s events).req.headersSent = true :=
  run_invariant_along (I := fun s => s.req.headersSent = true)
    (fun _ _ sent responsible => headersSent_mono responsible sent) events s sent along

theorem sends_eq_none_iff {event : ChainEvent} (unsent : s.req.headersSent = false) :
    sends s event = none ↔ (chainStep s event).req.headersSent = false := by
  rw [sends, unsent, Bool.false_or]
  split
  · next still => simpa using still
  · next sent => exact ⟨nofun, fun still => (sent (by simp [still])).elim⟩

theorem senders_of_sent (along : Along chainStep Responsible s events)
    (sent : s.req.headersSent = true) : senders s events = [] := by
  induction events generalizing s with
  | nil => rfl
  | cons event events ih =>
    rw [senders, sends, sent, Bool.true_or, if_pos rfl]
    exact ih along.2 (headersSent_mono along.1 sent)

/-- Headers are sent once. -/
theorem senders_eq (along : Along chainStep Responsible s events)
    (unsent : s.req.headersSent = false)
    (sent : (runFrom chainStep s events).req.headersSent = true) :
    ∃ sender, senders s events = [sender] := by
  induction events generalizing s with
  | nil =>
    rw [runFrom_nil, unsent] at sent
    cases sent
  | cons event events ih =>
    rw [senders]
    cases now : sends s event with
    | none => exact ih along.2 ((sends_eq_none_iff unsent).mp now) sent
    | some sender =>
      refine ⟨sender, ?_⟩
      have step : (chainStep s event).req.headersSent = true := by
        by_contra still
        rw [(sends_eq_none_iff unsent).mpr (by simpa using still)] at now
        cases now
      rw [senders_of_sent along.2 step]
      rfl

theorem unsent_start (layers : List Layer) (method path : Text) :
    (chainStart layers (newRequest method path)).req.headersSent = false := by
  have iff := headersSent_startDispatch ⟨[], newRequest method path, false⟩ none layers
  cases sent : (chainStart layers (newRequest method path)).req.headersSent with
  | false => rfl
  | true => exact (iff.mp sent).symm

theorem unsent_of_sends {event : ChainEvent} {sender : Sender} (now : sends s event = some sender) :
    s.req.headersSent = false ∧ (chainStep s event).req.headersSent = true := by
  rw [sends] at now
  split at now
  · cases now
  · next sent => simpa using sent

/-- When the app's `dispatch` is settled, everything is. -/
theorem RequestInv.settled (inv : RequestInv s) (done : s.promiseAt 0 ≠ .pending) : s.Settled := by
  intro t member
  obtain ⟨i, found⟩ := List.mem_iff_getElem?.mp member
  cases top : s.tasks[0]? with
  | none =>
    rw [ChainState.promiseAt, top] at done
    exact (done rfl).elim
  | some d =>
    rw [ChainState.promiseAt, top] at done
    have settled : d.settled = true := by
      rw [Task.settled]
      change d.promise ≠ .pending at done
      cases promise : d.promise with
      | pending => exact (done promise).elim
      | resolved v => rfl
      | rejected err => rfl
    exact inv.chain.tasks.passes_down (P := fun t => t.settled = true) (fun p u c t edge => edge.1)
      (inv.chain.tasks.below_root found) top settled found

/-- What `listen` sees of a settled `dispatch`. -/
theorem RequestInv.outcome (inv : RequestInv s) (done : s.promiseAt 0 ≠ .pending) :
    s.promiseAt 0 = .resolved (some false) ∨
      s.promiseAt 0 = .resolved (some true) ∧ s.req.headersSent = true := by
  cases top : s.tasks[0]? with
  | none =>
    rw [ChainState.promiseAt, top] at done
    exact (done rfl).elim
  | some d =>
    have outcome : s.promiseAt 0 = d.promise := by
      rw [ChainState.promiseAt, top]
      rfl
    rw [outcome] at done
    have node := inv.chain.tasks.node 0 d top
    rw [outcome]
    cases promise : d.promise with
    | pending => exact (done promise).elim
    | rejected err => exact ((inv.tasks.tasks 0 d top).root rfl err promise).elim
    | resolved v =>
      by_cases other : ∀ left responded first, d.work ≠ .dispatch left responded first
      · exact (inv.chain.inner top other rfl).elim
      · push Not at other
        obtain ⟨left, responded, first, work⟩ := other
        rw [Node, work] at node
        rcases node.2.2.1 v promise with rfl | ⟨rfl, -⟩
        · exact .inr ⟨rfl, (inv.tasks.tasks 0 d top).claims (.inr (.inl promise))⟩
        · exact .inl rfl

theorem RequestInv.answered (inv : RequestInv s) (responsible : Responsible s .answer)
    (done : s.promiseAt 0 ≠ .pending) :
    (chainStep s .answer).req.headersSent = true ∧ (chainStep s .answer).req.sent = true := by
  have finished := responsible.2 done
  rcases inv.outcome done with no | ⟨yes, sent⟩
  · rw [chainStep, no]
    refine ⟨headersSent_answer _, ?_⟩
    dsimp only
    rw [Exchange.answer]
    split
    · next sent => exact finished sent
    · rfl
  · rw [chainStep, yes]
    exact ⟨sent, finished sent⟩

theorem RequestInv.error (inv : RequestInv s) {event : ChainEvent}
    (now : sends s event = some .error) : s.DrainsWithError event := by
  obtain ⟨unsent, sent⟩ := unsent_of_sends now
  by_cases quiet : ∀ req, event ≠ .changes req
  · by_cases inner : event = .answer
    · subst inner
      have waits : ∀ promise, s.promiseAt 0 = promise → promise ≠ .resolved (some false) := by
        rintro _ outcome rfl
        simp [sends, unsent, sent, senderOf, outcome] at now
      by_cases done : s.promiseAt 0 = .pending
      · rw [chainStep, done, unsent] at sent
        cases sent
      · rcases inv.outcome done with no | ⟨-, yes⟩
        · exact (waits _ no rfl).elim
        · rw [unsent] at yes
          cases yes
    · exact ((headersSent_step inv.chain inner quiet).mp sent).resolve_left (by rw [unsent]; simp)
  · push Not at quiet
    obtain ⟨req, rfl⟩ := quiet
    simp [sends, unsent, sent, senderOf] at now

theorem RequestInv.sent_of_drains (inv : RequestInv s) {event : ChainEvent}
    (drains : s.DrainsWithError event) : (chainStep s event).req.headersSent = true := by
  apply (headersSent_step inv.chain ?_ ?_).mpr (.inr drains)
  · rintro rfl
    obtain ⟨left, req, req', runs, -⟩ := drains
    cases runs
  · rintro req rfl
    obtain ⟨left, req, req', runs, -⟩ := drains
    cases runs

/-- Every request gets one response from handlers that finish what they begin. -/
theorem total (responsible : Along chainStep Responsible
    (chainStart layers (newRequest method path)) events) :
    Total layers (newRequest method path) events where
  ends := by
    refine ⟨(runFrom chainStep (chainStart layers (newRequest method path)) events).weight, ?_⟩
    generalize runFrom chainStep (chainStart layers (newRequest method path)) events = s
    intro later
    induction later generalizing s with
    | nil => exact fun _ => Nat.zero_le _
    | cons event later ih =>
      intro due
      exact Nat.lt_of_le_of_lt (ih _ due.2) (weight_step due.1)
  rest nothing t member := by
    have inv := (requestInv_start layers method path).run responsible
    obtain ⟨i, found⟩ := List.mem_iff_getElem?.mp member
    by_contra pending
    obtain ⟨event, due⟩ := due_of_pending inv.chain inv.tasks found (by simpa using pending)
    exact nothing event due
  answered before after split done := by
    subst split
    rw [List.append_cons, along_append] at responsible
    have along := responsible.1
    rw [along_append] at along
    have inv := (requestInv_start layers method path).run along.1
    obtain ⟨headers, sent⟩ := inv.answered along.2.1 done
    have last : runFrom chainStep (chainStart layers (newRequest method path)) (before ++ [.answer])
        = chainStep (runFrom chainStep (chainStart layers (newRequest method path)) before) .answer :=
      runFrom_append ..
    rw [last]
    refine ⟨inv.settled done, sent, senders_eq responsible.1 (unsent_start layers method path) ?_⟩
    rw [last]
    exact headers
  error before event after split now := by
    subst split
    rw [along_append] at responsible
    exact ((requestInv_start layers method path).run responsible.1).error now
  notFound before event after split now first earlier last splitBefore drains := by
    subst split
    subst splitBefore
    rw [along_append, along_append] at responsible
    obtain ⟨⟨alongFirst, -, alongLast⟩, -⟩ := responsible
    have inv := (requestInv_start layers method path).run alongFirst
    obtain ⟨unsent, -⟩ := unsent_of_sends now
    have sent := headersSent_run alongLast (inv.sent_of_drains drains)
    rw [runFrom_append, runFrom_cons] at unsent
    rw [unsent] at sent
    cases sent
  followed before i after split parent home call t found called took unsent := by
    subst split
    rw [along_append] at responsible
    have inv := (requestInv_start layers method path).run responsible.1
    rw [(inv.tasks.tasks call t called).claims (.inl took)] at unsent
    cases unsent

/-- The response of the app's handler for `/api/x`. -/
def apiResponse : Exchange := ⟨"GET".toList, "/api/x".toList, .empty, true, true⟩

/-- The handler of the router calls `next()`, and that of the app responds. -/
theorem total_fallThrough :
    Total apiApp (newRequest "GET".toList "/api/x".toList)
      (fallThrough ++ [.changes apiResponse, .finish 8, .resumeRun 7, .finishMount 2, .resumeRun 1,
        .settleDispatch 0, .answer]) := by
  apply total
  simp only [fallThrough, List.cons_append, List.nil_append, Along, Responsible, Joined, true_and,
    and_true]
  refine ⟨?_, ⟨?_, by simp⟩, ⟨⟨8, _, _, _, _, rfl⟩, ?_, ?_, fun _ => rfl⟩, ?_, ?_, ⟨?_, ?_⟩, ?_⟩
  · rintro parent home id ⟨⟩
  · intro parent home left responded first found _
    cases found
    rfl
  · intro sent
    cases sent
  · intro sent
    cases sent
  · intro parent home id _ _
    rfl
  · decide
  · intro parent home left responded first found
    cases found
  · intro _ parent home left responded first found err rejected
    cases found
    cases rejected
  · intro _ _
    rfl

/-- A handler that does nothing leaves its request without a response. -/
theorem silent_handler_hangs :
    ¬Total [.handler none .slash [] false 0] (newRequest ['G'] ['/'])
      [.finish 2, .resumeRun 1, .settleDispatch 0, .answer] := by
  intro total
  have answered := total.answered [.finish 2, .resumeRun 1, .settleDispatch 0] [] rfl (by decide)
  exact absurd answered.2.1 (by decide)

end Runs

end QjsLws.App
