import QjsLws.Linked.Proofs.LinkedList

/-!
# Programs of list operations

The lists of a program have no node in common, so every operation does to them what it does to plain lists. A
list of two values or more that is appended to itself never comes to an end: each value read is the next one to
be read once more.
-/

namespace QjsLws.Linked

open Misc Script

variable {α β : Type}

/-! ## The lists of a world -/

section Worlds

variable {w : World α} {cells before after : List (Cell α)} {c c' d : Cell α} {h' : Heap α}

/-- No node is shared. -/
def Apart (c d : Cell α) : Prop := ∀ x ∈ c.refs, x ∉ d.refs

/-- The lists of a world are these cells. -/
structure Holds (w : World α) (cells : List (Cell α)) : Prop where
  lists : w.lists = cells.map fun c => ⟨c.head⟩
  stored : ∀ c ∈ cells, Stored w.heap c
  apart : cells.Pairwise Apart

theorem Apart.symm (apart : Apart c d) : Apart d c := fun x member among => apart x among member

/-- One list changes. -/
theorem holds_update {m : Script α β} {b : β} (holds : Holds w (before ++ c :: after))
    (updates : Updates m w.heap b h' c c') (same : c'.head = c.head) :
    Holds { w with heap := h' } (before ++ c' :: after) := by
  obtain ⟨lists, stored, apart⟩ := holds
  obtain ⟨left, right, across⟩ := List.pairwise_append.mp apart
  obtain ⟨others, right⟩ := List.pairwise_cons.mp right
  have others' : ∀ d ∈ before ++ after, Apart d c ∧ Stored w.heap d := by
    intro d member
    rcases List.mem_append.mp member with early | late
    · exact ⟨across d early c List.mem_cons_self, stored d (List.mem_append_left _ early)⟩
    · exact ⟨(others d late).symm, stored d (List.mem_append_right _ (List.mem_cons_of_mem _ late))⟩
  have apart' : ∀ d ∈ before ++ after, Apart d c' := by
    intro d member x among changed
    rcases updates.refs x changed with old | new
    · exact (others' d member).1 x among old
    · exact absurd ((others' d member).2.old x among) (Nat.not_lt.mpr new)
  refine ⟨?_, ?_, ?_⟩
  · rw [lists]
    simp [same]
  · intro d member
    have among : d = c' ∨ d ∈ before ++ after := by
      simp only [List.mem_append, List.mem_cons] at member ⊢
      tauto
    rcases among with rfl | other
    · exact updates.stored
    · exact (others' d other).2.frame updates.allocates (others' d other).1
  · refine List.pairwise_append.mpr ⟨left, List.pairwise_cons.mpr ⟨fun d late => ?_, right⟩,
      fun d early e member => ?_⟩
    · exact (apart' d (List.mem_append_right _ late)).symm
    · rcases List.mem_cons.mp member with rfl | late
      · exact apart' d (List.mem_append_left _ early)
      · exact across d early e (List.mem_cons_of_mem _ late)

/-- A list is made. -/
theorem holds_create (holds : Holds w cells) (stored : Stored h' c) (allocates : Allocates [] w.heap h')
    (new : ∀ x ∈ c.refs, w.heap.fresh ≤ x) : Holds ⟨h', w.lists ++ [⟨c.head⟩]⟩ (cells ++ [c]) := by
  obtain ⟨lists, others, apart⟩ := holds
  refine ⟨?_, ?_, ?_⟩
  · rw [lists, List.map_append]
    rfl
  · intro d member
    rcases List.mem_append.mp member with old | last
    · exact (others d old).frame allocates fun _ _ => List.not_mem_nil
    · rw [List.mem_singleton.mp last]
      exact stored
  · refine List.pairwise_append.mpr ⟨apart, List.pairwise_singleton _ _, fun d member e last x among => ?_⟩
    rw [List.mem_singleton.mp last]
    exact fun there => absurd ((others d member).old x among) (Nat.not_lt.mpr (new x there))

end Worlds

/-! ## Calls -/

section Calls

variable {w : World α} {cells : List (Cell α)} {bound i : Nat}

/-- The script does to one list what a plain method does. -/
def Acts (m : Script α (Option α)) (h : Heap α) (c : Cell α) (plain : Outcome α × List α) : Prop :=
  (∃ value, plain.1 = .ok value ∧ Becomes m h value c plain.2) ∨
    ∃ error, plain.1 = .error error ∧ m.run.run h = some (.error error, h) ∧ plain.2 = c.values

/-- A step of a program, on the heap and on plain lists. -/
def Simulates (result : Option (Outcome α × World α)) (plain : Outcome α × Plain α) : Prop :=
  ∃ w' cells, result = some (plain.1, w') ∧ Holds w' cells ∧ cells.map Cell.values = plain.2

theorem acts_ok {m : Script α β} {h : Heap α} {c : Cell α} {b : β} {vs : List α}
    (becomes : Becomes m h b c vs) : Acts (do
      let _ ← m
      return none) h c (.ok none, vs) := by
  obtain ⟨h', c', ⟨ran, stored, allocates, refs⟩, same, rfl⟩ := becomes
  exact .inl ⟨none, rfl, h', c', ⟨ran.bind (runs_pure none h'), stored, allocates, refs⟩, same, rfl⟩

theorem simulates_call (holds : Holds w cells) (method : LinkedList → Script α (Option α))
    (plain : List α → Outcome α × List α)
    (acts : ∀ c, cells[i]? = some c → Acts (method ⟨c.head⟩) w.heap c (plain c.values)) :
    Simulates (w.call i method) (Plain.call (cells.map Cell.values) i plain) := by
  have list : w.lists[i]? = cells[i]?.map fun c => ⟨c.head⟩ := by rw [holds.lists, List.getElem?_map]
  have values : (cells.map Cell.values)[i]? = cells[i]?.map Cell.values := List.getElem?_map
  unfold World.call Plain.call Simulates
  cases found : cells[i]? with
  | none =>
    rw [found, Option.map_none] at list values
    rw [list, values]
    exact ⟨w, cells, rfl, holds, rfl⟩
  | some c =>
    rw [found, Option.map_some] at list values
    rw [list, values]
    obtain ⟨inside, rfl⟩ := List.getElem?_eq_some_iff.mp found
    have split : cells = cells.take i ++ cells[i] :: cells.drop (i + 1) := by
      rw [List.getElem_cons_drop, List.take_append_drop]
    rcases acts cells[i] found with ⟨value, ok, h', c', updates, same, changed⟩ | ⟨error, failed, left, kept⟩
    · rw [split] at holds
      have holds' := holds_update holds updates same
      refine ⟨_, _, ?_, holds', ?_⟩
      · dsimp only
        rw [ok, show ((method ⟨cells[i].head⟩).run.run w.heap) = some (.ok value, h') from updates.runs]
        rfl
      · dsimp only
        rw [← changed, ← List.map_set, List.set_eq_take_append_cons_drop, if_pos inside]
    · refine ⟨w, cells, ?_, holds, ?_⟩
      · dsimp only
        rw [failed, left]
        rfl
      · dsimp only
        rw [kept, ← List.map_set, List.set_getElem_self]

/-- What an argument stands for, on the heap and on plain lists. -/
theorem range_cases (holds : Holds w cells) (rng : Argument α) :
    (∃ values, w.range rng = some (.values values) ∧ Plain.values (cells.map Cell.values) rng = some values) ∨
    (∃ j d, rng = .list j ∧ cells[j]? = some d ∧ w.range rng = some (.list ⟨d.head⟩) ∧
      Plain.values (cells.map Cell.values) rng = some d.values) ∨
    (w.range rng = none ∧ Plain.values (cells.map Cell.values) rng = none) := by
  cases rng with
  | values values => exact .inl ⟨values, rfl, rfl⟩
  | list j =>
    have list : w.lists[j]? = cells[j]?.map fun c => ⟨c.head⟩ := by rw [holds.lists, List.getElem?_map]
    have values : (cells.map Cell.values)[j]? = cells[j]?.map Cell.values := List.getElem?_map
    right
    cases found : cells[j]? with
    | none =>
      rw [found] at list values
      exact .inr ⟨by rw [World.range, list]; rfl, values⟩
    | some d =>
      rw [found] at list values
      exact .inl ⟨j, d, rfl, found, by rw [World.range, list]; rfl, values⟩

theorem apart_of_ne (holds : Holds w cells) {j : Nat} {c d : Cell α} (ci : cells[i]? = some c)
    (dj : cells[j]? = some d) (other : i ≠ j) : Apart d c := by
  obtain ⟨insideI, rfl⟩ := List.getElem?_eq_some_iff.mp ci
  obtain ⟨insideJ, rfl⟩ := List.getElem?_eq_some_iff.mp dj
  have pairs := List.pairwise_iff_getElem.mp holds.apart
  rcases Nat.lt_or_gt_of_ne other with less | more
  · exact (pairs i j insideI insideJ less).symm
  · exact pairs j i insideJ insideI more

/-- A method with a range, given what it does with values, another list and the list itself. -/
theorem simulates_callRange (holds : Holds w cells) (rng : Argument α)
    (method : LinkedList → Range α → Script α Unit) (plain : List α → List α → List α)
    (values : ∀ c ∈ cells, ∀ values, Becomes (method ⟨c.head⟩ (.values values)) w.heap () c (plain c.values values))
    (other : ∀ c ∈ cells, ∀ d ∈ cells, Apart d c →
      Becomes (method ⟨c.head⟩ (.list ⟨d.head⟩)) w.heap () c (plain c.values d.values))
    (same : ∀ c, cells[i]? = some c → rng = .list i →
      Becomes (method ⟨c.head⟩ (.list ⟨c.head⟩)) w.heap () c (plain c.values c.values)) :
    Simulates (w.callRange i rng method) (Plain.callRange (cells.map Cell.values) i rng plain) := by
  refine simulates_call holds _ _ fun c ci => ?_
  have inc : c ∈ cells := List.mem_of_getElem? ci
  rcases range_cases holds rng with ⟨given, there, plainly⟩ | ⟨j, d, rfl, dj, there, plainly⟩ | ⟨there, plainly⟩
  · rw [there, plainly]
    exact acts_ok (values c inc given)
  · rw [there, plainly]
    by_cases self : i = j
    · subst self
      obtain rfl : c = d := Option.some.inj (ci.symm.trans dj)
      exact acts_ok (same c ci rfl)
    · exact acts_ok (other c inc d (List.mem_of_getElem? dj) (apart_of_ne holds ci dj self))
  · rw [there, plainly]
    exact .inr ⟨.typeError, rfl, rfl, rfl⟩

theorem simulates_create (holds : Holds w cells) {m : Script α LinkedList} {values : List α}
    (creates : Creates m w.heap values) :
    Simulates (w.create m) (.ok none, cells.map Cell.values ++ [values]) := by
  obtain ⟨h', c, ran, stored, allocates, new, rfl⟩ := creates
  refine ⟨_, _, ?_, holds_create holds stored allocates new, ?_⟩
  · unfold World.create
    rw [show m.run.run w.heap = some (.ok ⟨c.head⟩, h') from ran]
    rfl
  · rw [List.map_append]
    rfl

end Calls

/-! ## Operations -/

section Operations

variable {w : World α} {cells : List (Cell α)} {bound : Nat}

theorem pop_fails {h : Heap α} {c : Cell α} (stored : Stored h c) (same : c.values = []) :
    (LinkedList.popFront ⟨c.head⟩).run.run h = some (.error .assertionError, h) ∧
      (LinkedList.popBack ⟨c.head⟩).run.run h = some (.error .assertionError, h) := by
  obtain ⟨head, nodes⟩ := c
  obtain rfl : nodes = [] := List.map_eq_nil_iff.mp same
  exact pop_empty stored

/-- Each operation does the same to the heap and to plain lists, but where a list of two values or more is
appended to itself. -/
theorem simulates_perform (holds : Holds w cells) (operation : Operation α)
    (ends : Ends (cells.map Cell.values) operation) (enough : ∀ c ∈ cells, c.nodes.length < bound) :
    Simulates (w.perform bound operation) (Plain.perform (cells.map Cell.values) operation) := by
  cases operation with
  | construct iterable =>
    rw [Plain.perform, World.perform]
    cases iterable with
    | none => exact simulates_create holds (creates_empty w.heap)
    | some rng =>
      rw [Option.bind_some, Option.bind_some]
      rcases range_cases holds rng with ⟨values, there, plainly⟩ | ⟨j, d, -, dj, there, plainly⟩ | ⟨there, plainly⟩
      · rw [there, plainly]
        exact simulates_create holds (creates_values w.heap values)
      · rw [there, plainly]
        have ind := List.mem_of_getElem? dj
        exact simulates_create holds (creates_list (holds.stored d ind) (enough d ind))
      · rw [there, plainly]
        exact simulates_create holds (creates_empty w.heap)
  | pushFront i v =>
    exact simulates_call holds _ _ fun c ci =>
      acts_ok (becomes_pushFront (holds.stored c (List.mem_of_getElem? ci)) v)
  | pushBack i v =>
    exact simulates_call holds _ _ fun c ci =>
      acts_ok (becomes_pushBack (holds.stored c (List.mem_of_getElem? ci)) v)
  | popFront i =>
    refine simulates_call holds _ _ fun c ci => ?_
    have stored := holds.stored c (List.mem_of_getElem? ci)
    cases same : c.values with
    | nil => exact .inr ⟨.assertionError, rfl, (pop_fails stored same).1, same.symm⟩
    | cons v vs => exact .inl ⟨some v, rfl, becomes_popFront stored same⟩
  | popBack i =>
    refine simulates_call holds _ _ fun c ci => ?_
    have stored := holds.stored c (List.mem_of_getElem? ci)
    rcases List.eq_nil_or_concat' c.values with same | ⟨vs, v, same⟩
    · rw [same]
      exact .inr ⟨.assertionError, rfl, (pop_fails stored same).2, same.symm⟩
    · rw [same, List.getLast?_concat, List.dropLast_concat]
      exact .inl ⟨some v, rfl, becomes_popBack stored same⟩
  | prependRange i rng =>
    refine simulates_callRange holds rng _ _ ?_ ?_ ?_
    · exact fun c inc values => prependRange_values (holds.stored c inc) values
    · exact fun c inc d ind apart => prependRange_list (holds.stored c inc) (holds.stored d ind) apart (enough d ind)
    · exact fun c ci _ => prependRange_self (holds.stored c (List.mem_of_getElem? ci))
        (enough c (List.mem_of_getElem? ci))
  | appendRange i rng =>
    refine simulates_callRange holds rng _ _ ?_ ?_ ?_
    · exact fun c inc values => appendRange_values (holds.stored c inc) values
    · exact fun c inc d ind apart => appendRange_list (holds.stored c inc) (holds.stored d ind) apart (enough d ind)
    · rintro c ci rfl
      have inc := List.mem_of_getElem? ci
      have few := ends rfl c.values (by rw [List.getElem?_map, ci]; rfl)
      rw [Cell.values, List.length_map] at few
      exact appendRange_self (holds.stored c inc) few (enough c inc)
  | reverse i =>
    exact simulates_call holds _ _ fun c ci => acts_ok (becomes_reverse (holds.stored c (List.mem_of_getElem? ci))
      (enough c (List.mem_of_getElem? ci)))
  | clone i =>
    have list : w.lists[i]? = cells[i]?.map fun c => ⟨c.head⟩ := by rw [holds.lists, List.getElem?_map]
    have values : (cells.map Cell.values)[i]? = cells[i]?.map Cell.values := List.getElem?_map
    rw [Plain.perform, World.perform, list, values]
    cases found : cells[i]? with
    | none => exact ⟨w, cells, rfl, holds, rfl⟩
    | some d =>
      have ind := List.mem_of_getElem? found
      exact simulates_create holds (creates_list (holds.stored d ind) (enough d ind))

end Operations

/-! ## A list that is appended to itself -/

section Unended

variable {h : Heap α} {head : Ref} {w : World α} {cells : List (Cell α)} {bound i : Nat}

theorem unended_bind {γ : Type} {m : Script α β} (unended : m.run.run h = none) (f : β → Script α γ) :
    (m >>= f).run.run h = none := by
  rw [ExceptT.run_bind, StateT.run_bind, unended]
  rfl

/-- Each turn appends one more node, so the two nodes the loop holds never become the last ones. -/
theorem unended_listForEachSafe (turns : Nat) :
    ∀ (h : Heap α) (done : List (Ref × α)) (x y : Ref) (v u : α) (later : List (Ref × α)),
      Stored h ⟨head, done ++ (x, v) :: (y, u) :: later⟩ →
      (listForEachSafe (some head) (appendBody head) turns (some x) (some y) ()).run.run h = none := by
  induction turns with
  | zero => exact fun h done x y v u later stored => rfl
  | succ turns ih =>
    intro h done x y v u later stored
    obtain ⟨onward, absent, data⟩ := readable_of_stored stored
    have other : (some x : Pointer) ≠ some head := by
      intro same
      obtain rfl := Option.some.inj same
      exact absent List.mem_cons_self
    obtain ⟨h', ran, stored', -, -⟩ := updates_append stored v
    have body : Runs (appendBody head (some v) ()) h () h' := ran
    obtain ⟨⟨z, t⟩, later', behind⟩ : ∃ n later', later ++ [(h.fresh, v)] = n :: later' := by
      cases later <;> exact ⟨_, _, rfl⟩
    have shape : done ++ (x, v) :: (y, u) :: later ++ [(h.fresh, v)] =
        (done ++ [(x, v)]) ++ (y, u) :: (z, t) :: later' := by
      rw [← behind]
      simp
    rw [shape] at stored'
    obtain ⟨onward', -, -⟩ := readable_of_stored stored'
    have next : h'.next y = some z := onward'.1
    rw [listForEachSafe, if_neg other, listEntry, (runs_data h x).bind_eq, data (x, v) List.mem_cons_self,
      body.bind_eq, (runs_next h' y).bind_eq, next]
    exact ih h' _ y z u t later' stored'

theorem unended_appendRange {c : Cell α} (stored : Stored h c) (two : 2 ≤ c.values.length) :
    (LinkedList.appendRange bound ⟨c.head⟩ (.list ⟨c.head⟩)).run.run h = none := by
  obtain ⟨head, nodes⟩ := c
  rw [Cell.values, List.length_map] at two
  obtain ⟨⟨x, v⟩, ⟨y, u⟩, later, rfl⟩ : ∃ n m later, nodes = n :: m :: later := by
    rcases nodes with _ | ⟨n, _ | ⟨m, later⟩⟩
    · simp at two
    · simp at two
    · exact ⟨n, m, later, rfl⟩
  obtain ⟨onward, -, -⟩ := @readable_of_stored α h head [] ((x, v) :: (y, u) :: later) stored
  have second : h.next x = some y := onward.1
  have loop := @unended_listForEachSafe α head bound h [] x y v u later stored
  unfold LinkedList.appendRange forOf
  rw [(runs_next h head).bind_eq, stored.first]
  refine ((runs_next h x).bind_eq _).trans ?_
  rw [second]
  exact loop

theorem call_of_some {list : LinkedList} (there : w.lists[i]? = some list)
    (method : LinkedList → Script α (Option α)) : w.call i method =
      ((method list).run.run w.heap).map fun (outcome, heap) => (outcome, { w with heap }) := by
  rw [World.call, there]

theorem perform_unended (holds : Holds w cells) {operation : Operation α}
    (self : ¬ Ends (cells.map Cell.values) operation) : w.perform bound operation = none := by
  unfold Ends at self
  split at self
  case h_2 => exact absurd trivial self
  case h_1 i j =>
    simp only [Classical.not_imp, not_forall, Nat.not_lt] at self
    obtain ⟨rfl, l, there, two⟩ := self
    rw [List.getElem?_map, Option.map_eq_some_iff] at there
    obtain ⟨c, ci, rfl⟩ := there
    have list : w.lists[i]? = some ⟨c.head⟩ := by
      rw [holds.lists, List.getElem?_map, ci]
      rfl
    have range : w.range (.list i) = some (.list ⟨c.head⟩) := by
      rw [World.range, list]
      rfl
    have unended := @unended_appendRange α w.heap bound c (holds.stored c (List.mem_of_getElem? ci)) two
    rw [World.perform, World.callRange, call_of_some list, range]
    exact congrArg (Option.map _) (unended_bind unended _)

end Unended

/-! ## Runs -/

section Programs

variable {w : World α} {cells : List (Cell α)} {s : Plain α}

theorem exists_longer (s : Plain α) : ∃ enough, ∀ l ∈ s, l.length < enough := by
  induction s with
  | nil => exact ⟨0, nofun⟩
  | cons l s ih =>
    obtain ⟨enough, longer⟩ := ih
    refine ⟨max (l.length + 1) enough, fun l' member => ?_⟩
    rcases List.mem_cons.mp member with rfl | among
    · exact Nat.le_max_left _ _
    · exact Nat.lt_of_lt_of_le (longer l' among) (Nat.le_max_right _ _)

theorem nodes_lt {bound enough : Nat} (longer : ∀ l ∈ cells.map Cell.values, l.length < enough)
    (more : enough ≤ bound) : ∀ c ∈ cells, c.nodes.length < bound := by
  intro c member
  have short := longer c.values (List.mem_map_of_mem member)
  rw [Cell.values, List.length_map] at short
  exact Nat.lt_of_lt_of_le short more

theorem run_cons {bound : Nat} {w' : World α} {operation : Operation α} {outcome : Outcome α}
    (operations : List (Operation α)) (step : w.perform bound operation = some (outcome, w')) :
    w.run bound (operation :: operations) =
      (w'.run bound operations).map fun rest => (outcome :: rest.1, rest.2) := by
  rw [World.run, step, Option.bind_eq_bind, Option.bind_some, Option.bind_eq_bind]
  dsimp only
  cases w'.run bound operations <;> rfl

/-- Operations in a row do to the lists of a world what they do to plain lists. -/
theorem run_simulates (operations : List (Operation α)) : ∀ s : Plain α, AllEnd s operations →
    ∃ enough, ∀ bound ≥ enough, ∀ (w : World α) cells, Holds w cells → cells.map Cell.values = s →
      ∃ w' cells', w.run bound operations = some ((Plain.run s operations).1, w') ∧ Holds w' cells' ∧
        cells'.map Cell.values = (Plain.run s operations).2 ∧ ∀ c ∈ cells', c.nodes.length < bound := by
  induction operations with
  | nil =>
    intro s _
    obtain ⟨enough, longer⟩ := exists_longer s
    refine ⟨enough, fun bound more w cells holds same => ⟨w, cells, rfl, holds, same, ?_⟩⟩
    rw [← same] at longer
    exact nodes_lt longer more
  | cons operation operations ih =>
    rintro s ⟨ends, allEnd⟩
    obtain ⟨first, longer⟩ := exists_longer s
    obtain ⟨rest, follows⟩ := ih _ allEnd
    refine ⟨max first rest, fun bound more w cells holds same => ?_⟩
    rw [← same] at ends longer
    have enough := nodes_lt longer (Nat.le_trans (Nat.le_max_left first rest) more)
    obtain ⟨w₁, cells₁, step, holds₁, same₁⟩ := simulates_perform holds operation ends enough
    rw [same] at step same₁
    obtain ⟨w', cells', ran, holds', same', short⟩ := follows bound
      (Nat.le_trans (Nat.le_max_right first rest) more) w₁ cells₁ holds₁ same₁
    refine ⟨w', cells', ?_, holds', same', short⟩
    rw [run_cons operations step, ran]
    rfl

/-- At the operation that does not end the run has no result. -/
theorem run_unended (operations : List (Operation α)) : ∀ s : Plain α, ¬ AllEnd s operations →
    ∃ enough, ∀ bound ≥ enough, ∀ (w : World α) cells, Holds w cells → cells.map Cell.values = s →
      w.run bound operations = none := by
  induction operations with
  | nil => exact fun s unended => absurd trivial unended
  | cons operation operations ih =>
    intro s unended
    by_cases ends : Ends s operation
    · obtain ⟨first, longer⟩ := exists_longer s
      obtain ⟨rest, follows⟩ := ih _ fun allEnd => unended ⟨ends, allEnd⟩
      refine ⟨max first rest, fun bound more w cells holds same => ?_⟩
      rw [← same] at ends longer
      have enough := nodes_lt longer (Nat.le_trans (Nat.le_max_left first rest) more)
      obtain ⟨w₁, cells₁, step, holds₁, same₁⟩ := simulates_perform holds operation ends enough
      rw [same] at same₁
      rw [run_cons operations step, follows bound (Nat.le_trans (Nat.le_max_right first rest) more) w₁ cells₁
        holds₁ same₁]
      rfl
    · refine ⟨0, fun bound _ w cells holds same => ?_⟩
      rw [← same] at ends
      rw [World.run, perform_unended holds ends]
      rfl

/-- Every list of a world is read as the plain list. -/
theorem refines_of_holds {bound : Nat} (holds : Holds w cells) (same : cells.map Cell.values = s)
    (enough : ∀ c ∈ cells, c.nodes.length < bound) : Refines bound w s := by
  subst same
  refine ⟨?_, fun i list l there plainly => ?_⟩
  · rw [holds.lists, List.length_map, List.length_map]
  · rw [List.getElem?_map, Option.map_eq_some_iff] at plainly
    obtain ⟨c, ci, rfl⟩ := plainly
    have head : w.lists[i]? = some ⟨c.head⟩ := by
      rw [holds.lists, List.getElem?_map, ci]
      rfl
    obtain rfl : ⟨c.head⟩ = list := Option.some.inj (head.symm.trans there)
    have inc := List.mem_of_getElem? ci
    have stored := holds.stored c inc
    refine ⟨⟨_, stored.ring⟩, runs_iterate stored (enough c inc), runs_front stored, runs_back stored,
      runs_empty stored, fun nothing => ?_⟩
    obtain ⟨front, back⟩ := pop_fails stored nothing
    rw [World.perform, World.perform, call_of_some head, call_of_some head, front, back]
    exact ⟨rfl, rfl⟩

theorem holds_start : Holds (World.start : World α) [] := ⟨rfl, nofun, .nil⟩

/-- The lists do what plain lists do exactly where no list of two values or more is appended to itself. -/
theorem linkedList_refines_iff (operations : List (Operation α)) :
    (∃ enough, ∀ bound ≥ enough, ∃ w, World.run bound .start operations =
      some ((Plain.run [] operations).1, w) ∧ Refines bound w (Plain.run [] operations).2) ↔
    AllEnd [] operations := by
  constructor
  · rintro ⟨enough, refines⟩
    by_contra unended
    obtain ⟨enough', without⟩ := run_unended operations [] unended
    obtain ⟨w, ran, -⟩ := refines (max enough enough') (Nat.le_max_left _ _)
    rw [without _ (Nat.le_max_right _ _) .start [] holds_start rfl] at ran
    exact absurd ran (Option.some_ne_none _).symm
  · intro allEnd
    obtain ⟨enough, ran⟩ := run_simulates operations [] allEnd
    refine ⟨enough, fun bound more => ?_⟩
    obtain ⟨w', cells', run, holds, same, short⟩ := ran bound more .start [] holds_start rfl
    exact ⟨w', run, refines_of_holds holds same short⟩

/-- `const l = new LinkedList([1, 2]); l.appendRange(l)` does not end within any bound. -/
theorem appendRange_self_unended :
    (∀ bound, World.run bound .start [.construct (some (.values [1, 2])), .appendRange 0 (.list 0)] = none) ∧
      Plain.run [] [.construct (some (.values [1, 2])), .appendRange 0 (.list 0)] =
        ([.ok none, .ok none], [[1, 2, 1, 2]]) := by
  refine ⟨fun bound => ?_, rfl⟩
  have made : Simulates
      (World.start.perform bound (.construct (some (.values [1, 2])))) (.ok none, [[1, 2]]) :=
    simulates_create holds_start (creates_values _ [1, 2])
  obtain ⟨w, cells, step, holds, same⟩ := made
  have self : ¬ Ends (cells.map Cell.values) (.appendRange 0 (.list 0)) := by
    rw [same]
    exact fun ends => absurd (ends rfl [1, 2] rfl) (by decide)
  rw [run_cons _ step, World.run, perform_unended holds self]
  rfl

end Programs

end QjsLws.Linked
