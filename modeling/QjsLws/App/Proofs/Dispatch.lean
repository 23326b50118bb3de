import QjsLws.App.Dispatch

/-!
# Completion of `dispatch`

The tasks of a request form a forest in which, as long as mounted routers wait for their `next()`,
a settled task has only settled tasks below it, and a taken request shows in `responded` of every
`dispatch` above.
-/

namespace QjsLws.App

open QjsLws.Misc

/-! ## The invariant -/

/-- The task is a `dispatch` whose `responded` is set. -/
def Responded (tasks : List Task) (d : Nat) : Prop :=
  ∃ t left first, tasks[d]? = some t ∧ t.work = .dispatch left true first

/-- What holds of every task by itself. -/
def Node (i : Nat) (t : Task) : Prop :=
  (t.parent = none → i = 0) ∧
    match t.work with
    | .dispatch _ responded _ =>
      t.home = i ∧
        (∀ v, t.promise = .resolved v → v = some true ∨ v = some false ∧ responded = false) ∧
        (t.parent ≠ none → t.settled = true → responded = true → t.promise = .resolved (some true))
    | .mount _ _ phase advanced =>
      t.parent ≠ none ∧ (∀ err, t.promise ≠ .rejected err) ∧ (phase = .called → advanced = false)
    | _ => t.parent ≠ none

/-- What holds between a `run` and a call it made. -/
def CallEdge (R : Nat → Prop) (u : Task) (awaits : Option Nat) (c : Nat) (t : Task) : Prop :=
  t.home = u.home ∧ (awaits = some c ∨ ∃ err, t.promise = .rejected err) ∧
    (u.settled = true → t.took = true → R t.home)

/-- What holds between a task and its parent, with `R` the dispatches that responded. -/
def Edge (R : Nat → Prop) (_ : Nat) (u : Task) (c : Nat) (t : Task) : Prop :=
  (u.settled = true → t.settled = true) ∧
    match u.work, t.work with
    | .dispatch _ _ first, .run _ => first = c ∧ t.home = u.home
    | .handler .., .run _ => t.home = u.home
    | .mount .., .run _ => t.home = u.home
    | .run awaits, .handler .. => CallEdge R u awaits c t
    | .run awaits, .mount .. => CallEdge R u awaits c t
    | .mount _ _ phase advanced, .dispatch .. =>
      phase.router = some c ∧
        (advanced = true → t.settled = true ∧ t.promise ≠ .resolved (some true))
    | _, _ => False

/-- The invariant of the tasks. -/
def TasksOk (tasks : List Task) : Prop :=
  Forest.Holds Task.parent Node (Edge (Responded tasks)) tasks

/-- The invariant of a request. -/
structure ChainOk (s : ChainState) : Prop where
  tasks : TasksOk s.tasks
  root : s.notFound = true → ∃ t, s.tasks[0]? = some t ∧ t.promise = .resolved (some false)

theorem Edge.mono {R R' : Nat → Prop} (more : ∀ d, R d → R' d) {p c : Nat} {u t : Task}
    (edge : Edge R p u c t) : Edge R' p u c t := by
  rcases u with ⟨uparent, uhome, _ | _ | _ | _, upromise⟩ <;>
    rcases t with ⟨tparent, thome, _ | _ | _ | _, tpromise⟩ <;>
    try exact edge
  all_goals
    obtain ⟨settled, home, awaits, took⟩ := edge
    exact ⟨settled, home, awaits, fun done taken => more _ (took done taken)⟩

theorem Edge.home_eq {R : Nat → Prop} {p c : Nat} {u t : Task} (edge : Edge R p u c t)
    (other : ∀ left responded first, t.work ≠ .dispatch left responded first) :
    t.home = u.home := by
  rcases u with ⟨uparent, uhome, _ | _ | _ | _, upromise⟩ <;>
    rcases t with ⟨tparent, thome, _ | _ | _ | _, tpromise⟩ <;>
    try exact absurd rfl (other _ _ _)
  all_goals try exact edge.2.elim
  · exact edge.2.2
  · exact edge.2.1
  · exact edge.2.1
  · exact edge.2
  · exact edge.2

/-! ## What the invariant gives -/

theorem TasksOk.below_home {tasks : List Task} (ok : TasksOk tasks) {i : Nat} {t : Task}
    (found : tasks[i]? = some t) : Forest.Below Task.parent tasks t.home i := by
  induction i using Nat.strong_induction_on generalizing t with
  | _ i ih =>
    have node := ok.node i t found
    by_cases other : ∀ left responded first, t.work ≠ .dispatch left responded first
    · cases named : t.parent with
      | none =>
        rcases t with ⟨parent, home, _ | _ | _ | _, promise⟩
        · exact absurd rfl (other _ _ _)
        · exact absurd named node.2
        · exact absurd named node.2
        · exact absurd named node.2.1
      | some p =>
        obtain ⟨before, u, above, edge⟩ := ok.parent_exists found named
        rw [edge.home_eq other]
        exact (ih p before above).tail ⟨t, found, named⟩
    · push Not at other
      obtain ⟨left, responded, first, work⟩ := other
      rw [Node, work] at node
      rw [node.2.1]
      exact .refl

/-- The `dispatch` of a pending task is pending. -/
theorem TasksOk.home_pending {tasks : List Task} (ok : TasksOk tasks) {i : Nat} {t d : Task}
    (found : tasks[i]? = some t) (pending : t.promise = .pending)
    (home : tasks[t.home]? = some d) : d.promise = .pending := by
  have passed := fun done => ok.passes_down (P := fun t => t.settled = true)
    (fun p u c t edge => edge.1) (ok.below_home found) home done found
  cases promise : d.promise with
  | pending => rfl
  | resolved v =>
    have done := passed (by rw [Task.settled, promise]; rfl)
    rw [Task.settled, pending] at done
    cases done
  | rejected err =>
    have done := passed (by rw [Task.settled, promise]; rfl)
    rw [Task.settled, pending] at done
    cases done

/-- A task that took the request shows in its `dispatch`, once its `run` is settled. -/
theorem TasksOk.responded_of_took {tasks : List Task} (ok : TasksOk tasks) {p c : Nat} {u t : Task}
    (found : tasks[c]? = some t) (named : t.parent = some p) (above : tasks[p]? = some u)
    (done : u.settled = true) (took : t.took = true) : Responded tasks t.home := by
  have edge := (ok.edge c t p found named).2 u above
  rcases t with ⟨tparent, thome, _ | _ | _ | _, tpromise⟩
  · cases took
  · cases took
  all_goals
    rcases u with ⟨uparent, uhome, _ | _ | _ | _, upromise⟩
    · exact edge.2.elim
    · exact edge.2.2.2 done took
    · exact edge.2.elim
    · exact edge.2.elim

/-- Below a settled `dispatch`, what responded shows in it. -/
theorem TasksOk.responded_above {tasks : List Task} (ok : TasksOk tasks) {i j : Nat} {d t : Task}
    {left : List Layer} {responded : Bool} {first : Nat} (top : tasks[i]? = some d)
    (dispatch : d.work = .dispatch left responded first) (done : d.settled = true)
    (below : Forest.Below Task.parent tasks i j) (found : tasks[j]? = some t)
    (shows : Responded tasks t.home) : Responded tasks i := by
  have settled : ∀ {k u}, Forest.Below Task.parent tasks i k → tasks[k]? = some u →
      u.settled = true := fun under found =>
    ok.passes_down (P := fun t => t.settled = true) (fun p u c t edge => edge.1) under top done found
  induction below generalizing t with
  | refl =>
    rw [top, Option.some.injEq] at found
    subst found
    have node := ok.node i d top
    rw [Node, dispatch] at node
    rwa [node.2.1] at shows
  | @tail k j upper child ih =>
    obtain ⟨t', at', named⟩ := child
    rw [at', Option.some.injEq] at found
    subst found
    obtain ⟨-, u, above, edge⟩ := ok.parent_exists at' named
    by_cases other : ∀ left responded first, t'.work ≠ .dispatch left responded first
    · rw [edge.home_eq other] at shows
      exact ih above shows
    · push Not at other
      obtain ⟨left', responded', first', work⟩ := other
      have node := ok.node j t' at'
      rw [Node, work] at node
      -- the router's dispatch responded, so its handler does not call `next()`
      obtain ⟨again, left'', first'', same, work'⟩ := shows
      rw [node.2.1, at', Option.some.injEq] at same
      subst same
      have true' : responded' = true := by
        rw [work] at work'
        injection work'
      have promise := node.2.2.2 (by rw [named]; exact Option.some_ne_none k)
        (settled (upper.tail ⟨t', at', named⟩) at') true'
      rcases u with ⟨uparent, uhome, _ | _ | _ | ⟨path, layers, phase, advanced⟩, upromise⟩
      · rw [Edge, work] at edge
        exact edge.2.elim
      · rw [Edge, work] at edge
        exact edge.2.elim
      · rw [Edge, work] at edge
        exact edge.2.elim
      · rw [Edge, work] at edge
        have still : advanced = false := by
          cases advanced with
          | false => rfl
          | true => exact absurd promise (edge.2.2 rfl).2
        have finished := settled upper above
        have mountNode := ok.node k _ above
        have taken : Task.took ⟨uparent, uhome, .mount path layers phase advanced, upromise⟩
            = true := by
          rw [still]
          cases upromise with
          | pending => cases finished
          | resolved v => rfl
          | rejected err => exact absurd rfl (mountNode.2.2.1 err)
        apply ih above
        cases upper with
        | refl =>
          rw [top, Option.some.injEq] at above
          subst above
          cases dispatch
        | tail higher child =>
          obtain ⟨u', at'', named'⟩ := child
          rw [above, Option.some.injEq] at at''
          subst at''
          obtain ⟨-, v, overhead, -⟩ := ok.parent_exists above named'
          exact ok.responded_of_took above named' overhead (settled higher overhead) taken

theorem TasksOk.untaken {tasks : List Task} (ok : TasksOk tasks) {i j : Nat} {d t : Task}
    {left : List Layer} {responded : Bool} {first : Nat} (top : tasks[i]? = some d)
    (dispatch : d.work = .dispatch left responded first)
    (fails : d.promise = .resolved (some false))
    (below : Forest.Below Task.parent tasks i j) (found : tasks[j]? = some t) :
    t.took = false := by
  have done : d.settled = true := by rw [Task.settled, fails]; rfl
  by_contra taken
  rw [Bool.not_eq_false] at taken
  have shows : Responded tasks t.home := by
    cases below with
    | refl =>
      rw [top, Option.some.injEq] at found
      subst found
      rw [Task.took, dispatch] at taken
      cases taken
    | tail upper child =>
      obtain ⟨t', at', named⟩ := child
      rw [found, Option.some.injEq] at at'
      subst at'
      obtain ⟨-, u, above, -⟩ := ok.parent_exists found named
      exact ok.responded_of_took found named above
        (ok.passes_down (P := fun t => t.settled = true) (fun p u c t edge => edge.1) upper top done
          above) taken
  obtain ⟨d', left', first', same, work⟩ := ok.responded_above top dispatch done below found shows
  rw [top, Option.some.injEq] at same
  subst same
  have node := ok.node i d top
  rw [Node, dispatch] at node
  rw [dispatch] at work
  injection work with _ yes _
  rcases node.2.2.1 _ fails with impossible | ⟨-, no⟩
  · cases impossible
  · rw [yes] at no
    cases no

theorem TasksOk.below_root {tasks : List Task} (ok : TasksOk tasks) {i : Nat} {t : Task}
    (found : tasks[i]? = some t) : Forest.Below Task.parent tasks 0 i := by
  induction i using Nat.strong_induction_on generalizing t with
  | _ i ih =>
    cases named : t.parent with
    | none =>
      rw [(ok.node i t found).1 named]
      exact .refl
    | some p =>
      obtain ⟨before, u, above, -⟩ := ok.parent_exists found named
      exact (ih p before above).tail ⟨t, found, named⟩

/-- The invariant gives completion. -/
theorem ChainOk.complete {s : ChainState} (ok : ChainOk s) : s.Complete := by
  refine ⟨?_, ?_, ?_⟩
  · intro i d left responded first top dispatch done j t below found
    exact ok.tasks.passes_down (P := fun t => t.settled = true) (fun p u c t edge => edge.1) below
      top done found
  · intro i d left responded first top dispatch fails j t below found
    exact ok.tasks.untaken top dispatch fails below found
  · intro sent j t found
    obtain ⟨d, top, fails⟩ := ok.root sent
    have below := ok.tasks.below_root found
    have done : d.settled = true := by rw [Task.settled, fails]; rfl
    refine ⟨ok.tasks.passes_down (P := fun t => t.settled = true) (fun p u c t edge => edge.1) below
      top done found, ?_⟩
    cases work : d.work with
    | dispatch left responded first => exact ok.tasks.untaken top work fails below found
    | run awaits =>
      have node := ok.tasks.node 0 d top
      rw [Node, work] at node
      obtain ⟨p, named⟩ := Option.ne_none_iff_exists'.mp node.2
      exact absurd (ok.tasks.edge 0 d p top named).1 (Nat.not_lt_zero p)
    | handler id advanced =>
      have node := ok.tasks.node 0 d top
      rw [Node, work] at node
      obtain ⟨p, named⟩ := Option.ne_none_iff_exists'.mp node.2
      exact absurd (ok.tasks.edge 0 d p top named).1 (Nat.not_lt_zero p)
    | mount path layers phase advanced =>
      have node := ok.tasks.node 0 d top
      rw [Node, work] at node
      obtain ⟨p, named⟩ := Option.ne_none_iff_exists'.mp node.2.1
      exact absurd (ok.tasks.edge 0 d p top named).1 (Nat.not_lt_zero p)

/-! ## Replacing and adding tasks -/

theorem responded_put {tasks : List Task} {i : Nat} {t t' : Task} (found : tasks[i]? = some t)
    (keeps : ∀ left first, t.work = .dispatch left true first →
      ∃ left' first', t'.work = .dispatch left' true first') {d : Nat}
    (shows : Responded tasks d) : Responded (tasks.set i t') d := by
  obtain ⟨u, left, first, at', work⟩ := shows
  by_cases here : i = d
  · subst here
    rw [found, Option.some.injEq] at at'
    subst at'
    obtain ⟨left', first', work'⟩ := keeps left first work
    exact ⟨t', left', first', List.getElem?_set_self (List.getElem?_eq_some_iff.mp found).1, work'⟩
  · exact ⟨u, left, first, by rw [List.getElem?_set_ne here]; exact at', work⟩

theorem ChainState.length_put (s : ChainState) (i : Nat) (t : Task) :
    (s.put i t).tasks.length = s.tasks.length := List.length_set

theorem ChainState.get_put {s : ChainState} {i : Nat} (inside : i < s.tasks.length) (t : Task) :
    (s.put i t).tasks[i]? = some t := List.getElem?_set_self inside

theorem ChainState.get_put_ne (s : ChainState) {i j : Nat} (apart : i ≠ j) (t : Task) :
    (s.put i t).tasks[j]? = s.tasks[j]? := List.getElem?_set_ne apart

theorem ChainOk.put {s : ChainState} (ok : ChainOk s) {i : Nat} {t t' : Task}
    (found : s.tasks[i]? = some t) (same : t'.parent = t.parent)
    (kept : t.settled = true → t'.promise = t.promise)
    (keeps : ∀ left first, t.work = .dispatch left true first →
      ∃ left' first', t'.work = .dispatch left' true first')
    (own : Node i t')
    (up : ∀ p u, t.parent = some p → s.tasks[p]? = some u → Edge (Responded s.tasks) p u i t')
    (down : ∀ c u, s.tasks[c]? = some u → u.parent = some i → Edge (Responded s.tasks) i t' c u) :
    ChainOk (s.put i t') := by
  refine ⟨?_, ?_⟩
  · exact (Forest.Holds.put ok.tasks found same own up down).mono (fun _ _ node => node)
      fun _ _ _ _ edge => edge.mono fun _ => responded_put found keeps
  · intro sent
    obtain ⟨u, top, fails⟩ := ok.root sent
    by_cases here : i = 0
    · subst here
      rw [found, Option.some.injEq] at top
      subst top
      refine ⟨t', ChainState.get_put (List.getElem?_eq_some_iff.mp found).1 t', ?_⟩
      rw [kept (by rw [Task.settled, fails]; rfl), fails]
    · exact ⟨u, by rw [s.get_put_ne here]; exact top, fails⟩

theorem ChainOk.push {s : ChainState} (ok : ChainOk s) {t : Task} (own : Node s.tasks.length t)
    (up : ∀ p, t.parent = some p → p < s.tasks.length ∧
      ∀ u, s.tasks[p]? = some u → Edge (Responded s.tasks) p u s.tasks.length t) :
    ChainOk (s.push t) := by
  have later : ∀ {i : Nat} {u : Task}, s.tasks[i]? = some u → (s.tasks ++ [t])[i]? = some u := by
    intro i u found
    rw [List.getElem?_append_left (List.getElem?_eq_some_iff.mp found).1, found]
  refine ⟨?_, ?_⟩
  · refine (Forest.Holds.push ok.tasks own up).mono (fun _ _ node => node) ?_
    intro p u c v edge
    apply edge.mono
    rintro d ⟨w, left, first, found, work⟩
    exact ⟨w, left, first, later found, work⟩
  · intro sent
    obtain ⟨u, top, fails⟩ := ok.root sent
    exact ⟨u, later top, fails⟩

theorem ChainOk.of_req {s : ChainState} (ok : ChainOk s) (req : Exchange) :
    ChainOk { s with req := req } := ⟨ok.tasks, ok.root⟩

/-! ## The loop of `run` -/

theorem ChainOk.putDispatch {s : ChainState} (ok : ChainOk s) {i home first : Nat}
    {parent : Option Nat} {left : List Layer} {responded : Bool} {promise : Promise}
    (found : s.tasks[i]? = some ⟨parent, home, .dispatch left responded first, promise⟩)
    (left' : List Layer) {responded' : Bool} (more : responded = true → responded' = true)
    (early : promise = .pending ∨ responded' = responded) :
    ChainOk (s.put i ⟨parent, home, .dispatch left' responded' first, promise⟩) := by
  have node := ok.tasks.node i _ found
  refine ok.put found rfl (fun _ => rfl) ?_ ?_ ?_ ?_
  · intro left'' first'' work
    injection work with _ yes _
    exact ⟨left', first, by rw [more yes]⟩
  · rcases early with rfl | rfl
    · exact ⟨node.1, node.2.1, fun v impossible => (by cases impossible), fun _ done => (by cases done)⟩
    · exact node
  · intro p u named above
    have edge := (ok.tasks.edge i _ p found named).2 u above
    rcases u with ⟨uparent, uhome, _ | _ | _ | _, upromise⟩
    · exact edge.2.elim
    · exact edge.2.elim
    · exact edge.2.elim
    · exact edge
  · intro c u below named
    have edge := (ok.tasks.edge c u i below named).2 _ found
    rcases u with ⟨uparent, uhome, _ | _ | _ | _, upromise⟩
    · exact edge.2.elim
    · exact edge
    · exact edge.2.elim
    · exact edge.2.elim

theorem ChainOk.settleRun {s : ChainState} (ok : ChainOk s) {i home : Nat} {parent awaits : Option Nat}
    (found : s.tasks[i]? = some ⟨parent, home, .run awaits, .pending⟩) {promise : Promise}
    (children : ∀ (c : Nat) (t : Task), s.tasks[c]? = some t → t.parent = some i →
      t.settled = true ∧ (t.took = true → Responded s.tasks t.home)) (settles : promise.settled = true) :
    ChainOk (s.put i ⟨parent, home, .run awaits, promise⟩) := by
  have node := ok.tasks.node i _ found
  refine ok.put found rfl ?_ ?_ ?_ ?_ ?_
  · intro done
    cases done
  · intro left first work
    cases work
  · exact node
  · intro p u named above
    have edge := (ok.tasks.edge i _ p found named).2 u above
    rcases u with ⟨uparent, uhome, _ | _ | _ | _, upromise⟩
    · exact ⟨fun _ => settles, edge.2⟩
    · exact edge.2.elim
    · exact ⟨fun _ => settles, edge.2⟩
    · exact ⟨fun _ => settles, edge.2⟩
  · intro c u below named
    have edge := (ok.tasks.edge c u i below named).2 _ found
    obtain ⟨finished, shows⟩ := children c u below named
    rcases u with ⟨uparent, uhome, _ | _ | _ | _, upromise⟩
    · exact edge.2.elim
    · exact edge.2.elim
    · exact ⟨fun _ => finished, edge.2.1, edge.2.2.1, fun _ => shows⟩
    · exact ⟨fun _ => finished, edge.2.1, edge.2.2.1, fun _ => shows⟩

theorem ChainOk.callLayer {s : ChainState} (ok : ChainOk s) {i home : Nat}
    {parent awaits : Option Nat}
    (found : s.tasks[i]? = some ⟨parent, home, .run awaits, .pending⟩)
    (children : ∀ (c : Nat) (t : Task), s.tasks[c]? = some t → t.parent = some i →
      ∃ err, t.promise = .rejected err) (layer : Layer) :
    ChainOk ((s.put i ⟨parent, home, .run (some s.tasks.length), .pending⟩).push
      ⟨some i, home, ChainState.callOf layer, .pending⟩) := by
  have inside : i < s.tasks.length := (List.getElem?_eq_some_iff.mp found).1
  have node := ok.tasks.node i _ found
  have waits : ChainOk (s.put i ⟨parent, home, .run (some s.tasks.length), .pending⟩) := by
    refine ok.put found rfl (fun _ => rfl) ?_ ?_ ?_ ?_
    · intro left first work
      cases work
    · exact node
    · intro p u named above
      have edge := (ok.tasks.edge i _ p found named).2 u above
      rcases u with ⟨uparent, uhome, _ | _ | _ | _, upromise⟩
      · exact edge
      · exact edge.2.elim
      · exact edge
      · exact edge
    · intro c u below named
      have edge := (ok.tasks.edge c u i below named).2 _ found
      have finished := children c u below named
      rcases u with ⟨uparent, uhome, _ | _ | _ | _, upromise⟩
      · exact edge.2.elim
      · exact edge.2.elim
      · exact ⟨edge.1, edge.2.1, .inr finished, edge.2.2.2⟩
      · exact ⟨edge.1, edge.2.1, .inr finished, edge.2.2.2⟩
  have length := s.length_put i ⟨parent, home, .run (some s.tasks.length), .pending⟩
  apply waits.push
  · cases layer with
    | handler method regex keys isError id => exact ⟨fun none => (by cases none), Option.some_ne_none i⟩
    | router path regex keys layers =>
      exact ⟨fun none => (by cases none), Option.some_ne_none i, fun err no => (by cases no),
        fun _ => rfl⟩
  · intro p named
    obtain rfl : i = p := Option.some.inj named
    refine ⟨Nat.lt_of_lt_of_eq inside length.symm, ?_⟩
    intro u above
    rw [ChainState.get_put inside, Option.some.injEq] at above
    subst above
    cases layer with
    | handler method regex keys isError id =>
      exact ⟨fun done => (by cases done), rfl, .inl (by rw [length]), fun done => (by cases done)⟩
    | router path regex keys layers =>
      exact ⟨fun done => (by cases done), rfl, .inl (by rw [length]), fun done => (by cases done)⟩

/-- The loop, run by a pending `run` whose earlier calls were all rejected. -/
theorem ChainOk.loop {s : ChainState} (ok : ChainOk s) {i home : Nat} {parent awaits : Option Nat}
    (found : s.tasks[i]? = some ⟨parent, home, .run awaits, .pending⟩)
    (children : ∀ (c : Nat) (t : Task), s.tasks[c]? = some t → t.parent = some i →
      ∃ err, t.promise = .rejected err) (err : Bool) :
    ChainOk (s.loop i ⟨parent, home, .run awaits, .pending⟩ err) := by
  unfold ChainState.loop
  split
  · rename_i above own left responded first promise atHome
    dsimp only at atHome
    have pending : promise = .pending := ok.tasks.home_pending found rfl atHome
    have apart : home ≠ i := by
      rintro rfl
      rw [found] at atHome
      cases atHome
    have still : ∀ t', (s.put home t').tasks[i]? = some ⟨parent, home, .run awaits, .pending⟩ := by
      intro t'
      rw [s.get_put_ne apart]
      exact found
    have rejected : ∀ t', t'.parent = above → ∀ (c : Nat) (t : Task),
        (s.put home t').tasks[c]? = some t → t.parent = some i → ∃ err, t.promise = .rejected err := by
      intro t' same c t at' named
      by_cases here : home = c
      · subst here
        rw [ChainState.get_put (List.getElem?_eq_some_iff.mp atHome).1, Option.some.injEq] at at'
        subst at'
        rw [same] at named
        obtain ⟨err, impossible⟩ := children home _ atHome named
        rw [pending] at impossible
        cases impossible
      · rw [s.get_put_ne here] at at'
        exact children c t at' named
    have settled : ∀ t', t'.parent = above → ∀ (c : Nat) (t : Task),
        (s.put home t').tasks[c]? = some t → t.parent = some i →
          t.settled = true ∧ (t.took = true → Responded (s.put home t').tasks t.home) := by
      intro t' same c t at' named
      obtain ⟨err, finished⟩ := rejected t' same c t at' named
      refine ⟨by rw [Task.settled, finished]; rfl, ?_⟩
      intro took
      rw [Task.took, finished] at took
      cases work : t.work <;> rw [work] at took <;> cases took
    split
    · apply ChainOk.of_req
      apply ChainOk.settleRun _ (still _) (settled _ rfl) rfl
      exact ok.putDispatch atHome [] (fun yes => by rw [yes]; rfl) (.inl pending)
    · apply ChainOk.of_req
      apply ChainOk.settleRun _ (still _) (settled _ rfl) rfl
      exact ok.putDispatch atHome _ id (.inr rfl)
    · rename_i layer req left' _
      apply ChainOk.of_req
      have moved : ChainOk (s.put home ⟨above, own, .dispatch left' responded first, promise⟩) :=
        ok.putDispatch atHome left' id (.inr rfl)
      have called := moved.callLayer (still _) (rejected _ rfl) layer
      rwa [s.length_put] at called
  · exact ok

/-! ## Starting a `run` or a `dispatch` -/

/-- No task names one that is not there yet. -/
theorem TasksOk.no_child {tasks : List Task} (ok : TasksOk tasks) {i c : Nat} {t : Task}
    (beyond : tasks.length ≤ i) (found : tasks[c]? = some t) : t.parent ≠ some i := by
  intro named
  have before := (ok.edge c t i found named).1
  have inside := (List.getElem?_eq_some_iff.mp found).1
  omega

/-- A `run` called by a pending `dispatch`, as its own, or by a pending call. -/
theorem ChainOk.startRun {s : ChainState} (ok : ChainOk s) {i : Nat} {u : Task}
    (found : s.tasks[i]? = some u) (pending : u.promise = .pending)
    (caller : ∀ awaits, u.work ≠ .run awaits)
    (own : ∀ left responded first, u.work = .dispatch left responded first →
      first = s.tasks.length) (err : Bool) : ChainOk (s.startRun i u.home err) := by
  have inside : i < s.tasks.length := (List.getElem?_eq_some_iff.mp found).1
  have added : ChainOk (s.push ⟨some i, u.home, .run none, .pending⟩) := by
    apply ok.push
    · exact ⟨fun none => (by cases none), Option.some_ne_none i⟩
    · intro p named
      obtain rfl : i = p := Option.some.inj named
      refine ⟨inside, ?_⟩
      intro u' above
      rw [found, Option.some.injEq] at above
      subst above
      rcases u with ⟨uparent, uhome, _ | _ | _ | _, upromise⟩
      · exact ⟨fun done => (by cases pending; cases done), own _ _ _ rfl, rfl⟩
      · exact absurd rfl (caller _)
      · exact ⟨fun done => (by cases pending; cases done), rfl⟩
      · exact ⟨fun done => (by cases pending; cases done), rfl⟩
  apply added.loop
  · exact List.getElem?_concat_length
  · intro c t below named
    by_cases new : c < s.tasks.length
    · rw [ChainState.push, List.getElem?_append_left new] at below
      exact absurd named (ok.tasks.no_child (Nat.le_refl _) below)
    · have before := (added.tasks.edge c t _ below named).1
      have within := (List.getElem?_eq_some_iff.mp below).1
      rw [ChainState.push, List.length_append, List.length_singleton] at within
      omega

/-- The `dispatch` of a router, called by the pending handler that mounts it. -/
theorem ChainOk.startDispatch {s : ChainState} (ok : ChainOk s) {parent : Option Nat}
    (root : parent = none → s.tasks = [])
    (mount : ∀ i, parent = some i → ∃ above home path layers phase, s.tasks[i]? = some
      ⟨above, home, .mount path layers phase false, .pending⟩ ∧ phase.router = some s.tasks.length)
    (layers : List Layer) : ChainOk (s.startDispatch parent layers) := by
  have added : ChainOk (s.push ⟨parent, s.tasks.length,
      .dispatch layers false (s.tasks.length + 1), .pending⟩) := by
    apply ok.push
    · refine ⟨?_, rfl, fun v impossible => (by cases impossible), fun _ done => (by cases done)⟩
      intro none
      rw [root none]
      rfl
    · intro i named
      obtain ⟨above, home, path, inner, phase, found, router⟩ := mount i named
      refine ⟨(List.getElem?_eq_some_iff.mp found).1, ?_⟩
      intro u above'
      rw [found, Option.some.injEq] at above'
      subst above'
      exact ⟨fun done => (by cases done), router, fun no => (by cases no)⟩
  have found : (s.push ⟨parent, s.tasks.length, .dispatch layers false (s.tasks.length + 1),
      .pending⟩).tasks[s.tasks.length]? = some ⟨parent, s.tasks.length,
        .dispatch layers false (s.tasks.length + 1), .pending⟩ := List.getElem?_concat_length
  apply added.startRun found rfl
  · intro awaits work
    cases work
  · intro left responded first work
    injection work with _ _ same
    rw [← same, ChainState.push, List.length_append, List.length_singleton]

theorem chainOk_start (layers : List Layer) (req : Exchange) : ChainOk (chainStart layers req) := by
  have empty : ChainOk ⟨[], req, false⟩ := by
    refine ⟨⟨?_, ?_⟩, ?_⟩
    · intro i t found
      cases found
    · intro c t p found
      cases found
    · intro sent
      cases sent
  apply empty.startDispatch
  · intro _
    rfl
  · intro i impossible
    cases impossible

/-! ## Steps -/

theorem children_of_settled {s : ChainState} {i : Nat} (settled : s.childrenSettled i = true)
    {c : Nat} {t : Task} (found : s.tasks[c]? = some t) (named : t.parent = some i) :
    t.settled = true := by
  have all := List.all_eq_true.mp settled t (List.mem_of_getElem? found)
  simpa [named] using all

/-- A pending call may change in any way that keeps the edge to its `run`. -/
theorem Edge.of_pending_call {R : Nat → Prop} {p c : Nat} {u t t' : Task} (edge : Edge R p u c t)
    (pending : t.promise = .pending) (same : t'.home = t.home)
    (calls : (∃ id a a', t.work = .handler id a ∧ t'.work = .handler id a') ∨
      ∃ path layers phase a phase' a', t.work = .mount path layers phase a ∧
        t'.work = .mount path layers phase' a') : Edge R p u c t' := by
  have open' : u.settled = true → False := by
    intro done
    have settled := edge.1 done
    rw [Task.settled, pending] at settled
    cases settled
  rcases u with ⟨uparent, uhome, _ | ⟨awaits⟩ | _ | _, upromise⟩
  all_goals
    rcases calls with ⟨id, a, a', work, work'⟩ | ⟨path, layers, phase, a, phase', a', work, work'⟩
  case run.inl | run.inr =>
    rw [Edge, work] at edge
    obtain ⟨-, home, awaited, -⟩ := edge
    rw [Edge, work']
    refine ⟨fun done => (open' done).elim, same.trans home, ?_, fun done => (open' done).elim⟩
    rcases awaited with waits | ⟨err, rejected⟩
    · exact .inl waits
    · rw [pending] at rejected
      cases rejected
  all_goals
    rw [Edge, work] at edge
    exact edge.2.elim

theorem ChainOk.putHandler {s : ChainState} (ok : ChainOk s) {i home id : Nat}
    {parent : Option Nat} {advanced : Bool}
    (found : s.tasks[i]? = some ⟨parent, home, .handler id advanced, .pending⟩)
    (advanced' : Bool) {promise : Promise}
    (children : promise.settled = true → ∀ (c : Nat) (t : Task), s.tasks[c]? = some t →
      t.parent = some i → t.settled = true) :
    ChainOk (s.put i ⟨parent, home, .handler id advanced', promise⟩) := by
  have node := ok.tasks.node i _ found
  refine ok.put found rfl ?_ ?_ ?_ ?_ ?_
  · intro done
    cases done
  · intro left first work
    cases work
  · exact node
  · intro p u named above
    exact ((ok.tasks.edge i _ p found named).2 u above).of_pending_call rfl rfl
      (.inl ⟨id, advanced, advanced', rfl, rfl⟩)
  · intro c u below named
    have edge := (ok.tasks.edge c u i below named).2 _ found
    rcases u with ⟨uparent, uhome, _ | _ | _ | _, upromise⟩
    · exact edge.2.elim
    · exact ⟨fun done => children done c _ below named, edge.2⟩
    · exact edge.2.elim
    · exact edge.2.elim

theorem ChainOk.putMount {s : ChainState} (ok : ChainOk s) {i home : Nat} {parent : Option Nat}
    {path : Text} {layers : List Layer} {phase : MountPhase} {advanced : Bool}
    (found : s.tasks[i]? = some ⟨parent, home, .mount path layers phase advanced, .pending⟩)
    {phase' : MountPhase} {advanced' : Bool} {promise : Promise}
    (fulfilled : ∀ err, promise ≠ .rejected err) (fresh : phase' = .called → advanced' = false)
    (children : promise.settled = true → ∀ (c : Nat) (t : Task), s.tasks[c]? = some t →
      t.parent = some i → t.settled = true)
    (router : ∀ (c : Nat) (t : Task), s.tasks[c]? = some t → phase.router = some c →
      (advanced = true → t.settled = true ∧ t.promise ≠ .resolved (some true)) →
      phase'.router = some c ∧
        (advanced' = true → t.settled = true ∧ t.promise ≠ .resolved (some true))) :
    ChainOk (s.put i ⟨parent, home, .mount path layers phase' advanced', promise⟩) := by
  have node := ok.tasks.node i _ found
  refine ok.put found rfl ?_ ?_ ?_ ?_ ?_
  · intro done
    cases done
  · intro left first work
    cases work
  · exact ⟨node.1, node.2.1, fulfilled, fresh⟩
  · intro p u named above
    exact ((ok.tasks.edge i _ p found named).2 u above).of_pending_call rfl rfl
      (.inr ⟨path, layers, phase, advanced, phase', advanced', rfl, rfl⟩)
  · intro c u below named
    have edge := (ok.tasks.edge c u i below named).2 _ found
    have settled := fun done => children done c u below named
    rcases u with ⟨uparent, uhome, _ | _ | _ | _, upromise⟩
    · exact ⟨settled, router c _ below edge.2.1 edge.2.2⟩
    · exact ⟨settled, edge.2⟩
    · exact edge.2.elim
    · exact edge.2.elim

theorem promiseAt_eq {s : ChainState} {i : Nat} {promise : Promise} (is : s.promiseAt i = promise)
    (settles : promise ≠ .pending) : ∃ t, s.tasks[i]? = some t ∧ t.promise = promise := by
  rw [ChainState.promiseAt] at is
  cases found : s.tasks[i]? with
  | none =>
    rw [found] at is
    exact absurd is.symm settles
  | some t =>
    rw [found] at is
    exact ⟨t, rfl, is⟩

theorem ChainOk.callNext {s : ChainState} (ok : ChainOk s) (i : Nat) (err : Bool) :
    ChainOk (chainStep s (.callNext i err)) := by
  rw [chainStep]
  split
  · rename_i parent home id advanced found
    have inside := (List.getElem?_eq_some_iff.mp found).1
    have moved : ChainOk (s.put i ⟨parent, home, .handler id true, .pending⟩) :=
      ok.putHandler found true fun done => (by cases done)
    apply moved.startRun (ChainState.get_put inside _) rfl
    · intro awaits work
      cases work
    · intro left responded first work
      cases work
  · exact ok

theorem ChainOk.finish {s : ChainState} (ok : ChainOk s) (i : Nat) :
    ChainOk (chainStep s (.finish i)) := by
  rw [chainStep]
  split
  · rename_i parent home id advanced found
    split
    · rename_i finished
      exact ok.putHandler found advanced fun _ c t below named =>
        children_of_settled finished below named
    · exact ok
  · exact ok

theorem ChainOk.throws {s : ChainState} (ok : ChainOk s) (i : Nat) (err : Bool) :
    ChainOk (chainStep s (.throws i err)) := by
  rw [chainStep]
  split
  · rename_i parent home id advanced found
    split
    · rename_i finished
      exact ok.putHandler found advanced fun _ c t below named =>
        children_of_settled finished below named
    · exact ok
  · exact ok

theorem ChainOk.enter {s : ChainState} (ok : ChainOk s) (i : Nat) :
    ChainOk (chainStep s (.enter i)) := by
  rw [chainStep]
  split
  · rename_i parent home path layers advanced found
    have inside := (List.getElem?_eq_some_iff.mp found).1
    have node := ok.tasks.node i _ found
    obtain rfl : advanced = false := node.2.2.2 rfl
    have moved : ChainOk (s.put i ⟨parent, home,
        .mount path layers (.dispatched s.req.path s.tasks.length) false, .pending⟩) := by
      apply ok.putMount found
      · intro err no
        cases no
      · intro no
        cases no
      · intro done
        cases done
      · intro c t below router
        cases router
    apply ChainOk.startDispatch (moved.of_req _)
    · intro none
      cases none
    · intro j same
      obtain rfl : i = j := Option.some.inj same
      refine ⟨parent, home, path, layers, _, ChainState.get_put inside _, ?_⟩
      dsimp only
      rw [s.length_put]
      rfl
  · exact ok

theorem ChainOk.continueMount {s : ChainState} (ok : ChainOk s) (i : Nat) :
    ChainOk (chainStep s (.continueMount i)) := by
  rw [chainStep]
  split
  · rename_i parent home path layers saved router advanced found
    have inside := (List.getElem?_eq_some_iff.mp found).1
    dsimp only
    -- `next()` is called only when the router's dispatch did not resolve to `true`
    have falls : ∀ promise err, s.promiseAt router = promise → promise ≠ .pending →
        promise ≠ .resolved (some true) →
        ChainOk (ChainState.startRun { s.put i ⟨parent, home,
          .mount path layers (.continued router) true, .pending⟩ with
            req := { s.req with path := saved } } i home err) := by
      intro promise err is settles other
      obtain ⟨t, atRouter, same⟩ := promiseAt_eq is settles
      have moved : ChainOk (s.put i ⟨parent, home, .mount path layers (.continued router) true,
          .pending⟩) := by
        apply ok.putMount found
        · intro err no
          cases no
        · intro no
          cases no
        · intro done
          cases done
        · intro c t' below named _
          obtain rfl : router = c := Option.some.inj named
          rw [atRouter, Option.some.injEq] at below
          subst below
          refine ⟨rfl, fun _ => ⟨?_, same ▸ other⟩⟩
          rw [Task.settled, same]
          cases promise with
          | pending => exact absurd rfl settles
          | resolved v => rfl
          | rejected e => rfl
      apply ChainOk.startRun (moved.of_req { s.req with path := saved }) (ChainState.get_put inside _) rfl
      · intro awaits work
        cases work
      · intro left responded first work
        cases work
    split
    · exact ok
    · rename_i value is
      split
      · rename_i handled
        apply ChainOk.of_req
        apply ok.putMount found
        · intro err no
          cases no
        · intro no
          cases no
        · intro done
          cases done
        · intro c t below named before
          exact ⟨named, before⟩
      · rename_i other
        apply falls _ false is
        · intro no
          cases no
        · intro same
          exact other (Promise.resolved.inj same)
    · rename_i err is
      apply falls _ err is
      · intro no
        cases no
      · intro no
        cases no
  · exact ok

theorem ChainOk.finishMount {s : ChainState} (ok : ChainOk s) (i : Nat)
    (joined : Joined s (.finishMount i)) : ChainOk (chainStep s (.finishMount i)) := by
  rw [chainStep]
  split
  · rename_i parent home path layers router advanced found
    apply ok.putMount found
    · intro err no
      cases no
    · intro no
      cases no
    · intro _ c t below named
      exact children_of_settled joined below named
    · intro c t below named before
      exact ⟨named, before⟩
  · exact ok

theorem ChainOk.resumeRun {s : ChainState} (ok : ChainOk s) (i : Nat) :
    ChainOk (chainStep s (.resumeRun i)) := by
  rw [chainStep]
  split
  · rename_i parent home call found
    split
    · rename_i t above own left responded first promise atCall atHome
      -- every call of the run but the awaited one was rejected
      have calls : ∀ (c : Nat) (u : Task), s.tasks[c]? = some u → u.parent = some i →
          u.home = home ∧ (c = call ∧ u = t ∨ ∃ err, u.promise = .rejected err) := by
        intro c u below named
        have edge := (ok.tasks.edge c u i below named).2 _ found
        have awaited : u.home = home ∧ (some call = some c ∨ ∃ err, u.promise = .rejected err) := by
          rcases u with ⟨uparent, uhome, _ | _ | _ | _, upromise⟩
          · exact edge.2.elim
          · exact edge.2.elim
          · exact ⟨edge.2.1, edge.2.2.1⟩
          · exact ⟨edge.2.1, edge.2.2.1⟩
        refine ⟨awaited.1, ?_⟩
        rcases awaited.2 with same | rejected
        · obtain rfl : call = c := Option.some.inj same
          rw [below, Option.some.injEq] at atCall
          exact .inl ⟨rfl, atCall⟩
        · exact .inr rejected
      split
      · exact ok
      · rename_i value resolved
        have pending : promise = .pending := ok.tasks.home_pending found rfl atHome
        have apart : home ≠ i := by
          rintro rfl
          rw [found] at atHome
          cases atHome
        have moved : ChainOk (s.put home
            ⟨above, own, .dispatch left (responded || t.took) first, promise⟩) :=
          ok.putDispatch atHome left (fun yes => by rw [yes]; rfl) (.inl pending)
        have shown : t.took = true → Responded (s.put home
            ⟨above, own, .dispatch left (responded || t.took) first, promise⟩).tasks home := by
          intro took
          refine ⟨_, left, first, ChainState.get_put (List.getElem?_eq_some_iff.mp atHome).1 _, ?_⟩
          rw [took, Bool.or_true]
        apply moved.settleRun
        · rw [s.get_put_ne apart]
          exact found
        · intro c u below named
          by_cases here : home = c
          · subst here
            rw [ChainState.get_put (List.getElem?_eq_some_iff.mp atHome).1,
              Option.some.injEq] at below
            subst below
            have edge := (ok.tasks.edge home _ i atHome named).2 _ found
            exact edge.2.elim
          · rw [s.get_put_ne here] at below
            obtain ⟨sameHome, ⟨rfl, rfl⟩ | ⟨err, rejected⟩⟩ := calls c u below named
            · refine ⟨by rw [Task.settled, resolved]; rfl, ?_⟩
              rw [sameHome]
              exact shown
            · refine ⟨by rw [Task.settled, rejected]; rfl, ?_⟩
              intro took
              rw [Task.took, rejected] at took
              cases work : u.work <;> rw [work] at took <;> cases took
        · rfl
      · rename_i err rejected
        apply ok.loop found
        intro c u below named
        obtain ⟨-, ⟨rfl, rfl⟩ | finished⟩ := calls c u below named
        · exact ⟨err, rejected⟩
        · exact finished
    · exact ok
  · exact ok

theorem ChainOk.putSettled {s : ChainState} (ok : ChainOk s) {i home first : Nat}
    {parent : Option Nat} {left : List Layer} {responded : Bool}
    (found : s.tasks[i]? = some ⟨parent, home, .dispatch left responded first, .pending⟩)
    {promise : Promise} (finished : s.promiseAt first ≠ .pending)
    (value : ∀ v, promise = .resolved v → v = some true ∨ v = some false ∧ responded = false)
    (shows : parent ≠ none → responded = true → promise = .resolved (some true)) :
    ChainOk (s.put i ⟨parent, home, .dispatch left responded first, promise⟩) := by
  have node := ok.tasks.node i _ found
  refine ok.put found rfl ?_ ?_ ?_ ?_ ?_
  · intro done
    cases done
  · intro left' first' work
    injection work with _ yes _
    exact ⟨left, first, by rw [yes]⟩
  · exact ⟨node.1, node.2.1, value, fun nested _ => shows nested⟩
  · intro p u named above
    have edge := (ok.tasks.edge i _ p found named).2 u above
    rcases u with ⟨uparent, uhome, _ | _ | _ | ⟨path, layers, phase, advanced⟩, upromise⟩
    · exact edge.2.elim
    · exact edge.2.elim
    · exact edge.2.elim
    · refine ⟨fun done => ?_, edge.2.1, fun yes => ?_⟩
      · cases edge.1 done
      · cases (edge.2.2 yes).1
  · intro c u below named
    have edge := (ok.tasks.edge c u i below named).2 _ found
    rcases u with ⟨uparent, uhome, _ | _ | _ | _, upromise⟩
    · exact edge.2.elim
    · refine ⟨fun _ => ?_, edge.2⟩
      obtain rfl : first = c := edge.2.1
      rw [ChainState.promiseAt, below] at finished
      cases upromise with
      | pending => exact absurd rfl finished
      | resolved v => rfl
      | rejected err => rfl
    · exact edge.2.elim
    · exact edge.2.elim

theorem ChainOk.settleDispatch {s : ChainState} (ok : ChainOk s) (i : Nat)
    (joined : Joined s (.settleDispatch i)) : ChainOk (chainStep s (.settleDispatch i)) := by
  rw [chainStep]
  split
  · rename_i parent home left responded first found
    split
    · exact ok
    · rename_i value is
      apply ok.putSettled found
      · rw [is]
        intro no
        cases no
      · intro v same
        have value' := (Promise.resolved.inj same).symm
        subst value'
        cases responded <;> cases s.req.sent <;> simp
      · intro _ yes
        rw [yes, Bool.true_or]
    · rename_i err is
      apply ok.putSettled found
      · rw [is]
        intro no
        cases no
      · intro v no
        cases no
      · intro nested yes
        obtain ⟨p, named⟩ := Option.ne_none_iff_exists'.mp nested
        subst named
        have no := joined p home left responded first found ⟨err, is⟩
        rw [yes] at no
        cases no
  · exact ok

theorem ChainOk.answer {s : ChainState} (ok : ChainOk s) : ChainOk (chainStep s .answer) := by
  rw [chainStep]
  split
  · rename_i is
    obtain ⟨t, top, fails⟩ := promiseAt_eq is (by intro no; cases no)
    exact ⟨ok.tasks, fun _ => ⟨t, top, fails⟩⟩
  · exact ok.of_req _
  · exact ok

theorem ChainOk.step {s : ChainState} (event : ChainEvent) (ok : ChainOk s)
    (joined : Joined s event) : ChainOk (chainStep s event) := by
  cases event with
  | callNext i err => exact ok.callNext i err
  | finish i => exact ok.finish i
  | throws i err => exact ok.throws i err
  | changes req => exact ok.of_req req
  | enter i => exact ok.enter i
  | continueMount i => exact ok.continueMount i
  | finishMount i => exact ok.finishMount i joined
  | resumeRun i => exact ok.resumeRun i
  | settleDispatch i => exact ok.settleDispatch i joined
  | answer => exact ok.answer

/-! ## The main result -/

/-- As long as mounted routers wait for their `next()`, `dispatch` settles last. -/
theorem dispatch_complete (layers : List Layer) (req : Exchange) (events : List ChainEvent)
    (joined : Along chainStep Joined (chainStart layers req) events) :
    (runFrom chainStep (chainStart layers req) events).Complete := by
  apply ChainOk.complete
  exact run_invariant_along (fun s event ok => ok.step event) events _ (chainOk_start layers req)
    joined

/-- `router.get('/x', …)` mounted with `app.use('/api', router)`, and then `app.get('/api/x', …)`. -/
def apiApp : List Layer :=
  [.router "/api".toList (.parts [.text ['/'], .text "api".toList] false) []
      [.handler (some "GET".toList) (.parts [.text ['/'], .text ['x']] true) [] false 1],
    .handler (some "GET".toList)
      (.parts [.text ['/'], .text "api".toList, .text ['/'], .text ['x']] true) [] false 2]

/-- A request for `/api/x`. -/
def apiRequest : Exchange := ⟨"GET".toList, "/api/x".toList, .empty, false, false⟩

/-- The router's handler calls `next()`, and the app's handler is called from the router's `then`. -/
def fallThrough : List ChainEvent :=
  [.enter 2, .callNext 5 false, .finish 5, .resumeRun 4, .settleDispatch 3, .continueMount 2]

/-- The app's handler finishes in time. -/
theorem dispatch_complete_fallThrough :
    (runFrom chainStep (chainStart apiApp apiRequest)
      (fallThrough ++ [.finish 8, .resumeRun 7, .finishMount 2, .resumeRun 1,
        .settleDispatch 0])).Complete := by
  apply dispatch_complete
  simp only [fallThrough, List.cons_append, List.nil_append, Along, Joined, true_and, and_true]
  refine ⟨?_, ?_, ?_⟩
  · intro parent home left responded first found _
    cases found
    rfl
  · decide
  · intro parent home left responded first found
    cases found

/-- `listen` answers 404 while the app's handler is still running. -/
theorem not_found_while_running :
    ¬(runFrom chainStep (chainStart apiApp apiRequest)
      (fallThrough ++ [.finishMount 2, .resumeRun 1, .settleDispatch 0, .answer])).Complete := by
  intro complete
  have finished := complete.notFound (by decide) 8 _ rfl
  revert finished
  decide

end QjsLws.App
