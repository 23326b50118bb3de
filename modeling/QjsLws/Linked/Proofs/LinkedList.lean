import QjsLws.Linked.LinkedList
import QjsLws.Linked.Proofs.Sort

/-!
# The list class, proofs

Each list has nodes of its own, so an operation leaves the others as they are. A loop over a list goes on to
the nodes that stood behind the present one when it was reached: nodes that are put in front are not visited,
and nodes that are put behind are.
-/

namespace QjsLws.Linked

open Misc Script

variable {α β : Type}

/-! ## Cells -/

theorem exists_first (xs : List Ref) (head : Ref) : ∃ n r', xs ++ [head] = n :: r' := by
  cases xs <;> exact ⟨_, _, rfl⟩

theorem exists_last (xs : List Ref) (head : Ref) : ∃ l' p, head :: xs = l' ++ [p] :=
  ⟨_, _, (List.dropLast_concat_getLast (List.cons_ne_nil head xs)).symm⟩

/-- The nodes of a list with their values. -/
structure Cell (α : Type) where
  head : Ref
  nodes : List (Ref × α)

namespace Cell

def refs (c : Cell α) : List Ref := c.head :: c.nodes.map Prod.fst

def values (c : Cell α) : List α := c.nodes.map Prod.snd

end Cell

/-- The list is on the heap. -/
structure Stored (h : Heap α) (c : Cell α) : Prop where
  ring : Ring h c.head (c.nodes.map Prod.fst)
  data : ∀ n ∈ c.nodes, h.data n.1 = some n.2
  undefined : h.data c.head = none
  old : ∀ r ∈ c.refs, r < h.fresh

/-- Of the nodes there were, only the links of these change. -/
structure Allocates (s : List Ref) (h h' : Heap α) : Prop where
  next : ∀ x < h.fresh, x ∉ s → h'.next x = h.next x
  prev : ∀ x < h.fresh, x ∉ s → h'.prev x = h.prev x
  data : ∀ x < h.fresh, h'.data x = h.data x
  fresh : h.fresh ≤ h'.fresh

/-- `{ data }`. -/
def Heap.alloc (h : Heap α) (data : Option α) : Heap α :=
  { h with data := Function.update h.data h.fresh data, fresh := h.fresh + 1 }

section Cells

variable {h h₁ h' : Heap α} {c d : Cell α} {s t : List Ref} {head p n : Ref} {l r : List (Ref × α)}
  {l' r' : List Ref} {x : Ref} {v : α}

theorem runs_newNode (h : Heap α) (data : Option α) : Runs (newNode data) h h.fresh (h.alloc data) := rfl

theorem Allocates.refl (s : List Ref) (h : Heap α) : Allocates s h h :=
  ⟨fun _ _ _ => rfl, fun _ _ _ => rfl, fun _ _ => rfl, Nat.le_refl _⟩

theorem Allocates.trans (first : Allocates s h h₁) (second : Allocates t h₁ h')
    (inside : ∀ x ∈ t, x < h.fresh → x ∈ s) : Allocates s h h' where
  next x was outside := (second.next x (Nat.lt_of_lt_of_le was first.fresh)
    fun member => outside (inside x member was)).trans (first.next x was outside)
  prev x was outside := (second.prev x (Nat.lt_of_lt_of_le was first.fresh)
    fun member => outside (inside x member was)).trans (first.prev x was outside)
  data x was := (second.data x (Nat.lt_of_lt_of_le was first.fresh)).trans (first.data x was)
  fresh := Nat.le_trans first.fresh second.fresh

theorem Touches.allocates (touches : Touches s h h') : Allocates s h h' where
  next x _ outside := touches.next x outside
  prev x _ outside := touches.prev x outside
  data x _ := congrFun touches.data x
  fresh := Nat.le_of_eq touches.fresh.symm

theorem allocates_alloc (h : Heap α) (data : Option α) : Allocates s h (h.alloc data) where
  next _ _ _ := rfl
  prev _ _ _ := rfl
  data _ was := Function.update_of_ne (Nat.ne_of_lt was) ..
  fresh := Nat.le_succ _

/-- A list of other nodes is left. -/
theorem Stored.frame (stored : Stored h d) (allocates : Allocates s h h') (apart : ∀ x ∈ d.refs, x ∉ s) :
    Stored h' d where
  ring := stored.ring.congr fun x member =>
    ⟨allocates.next x (stored.old x member) (apart x member), allocates.prev x (stored.old x member) (apart x member)⟩
  data n member := (allocates.data n.1 (stored.old n.1
    (List.mem_cons_of_mem _ (List.mem_map_of_mem member)))).trans (stored.data n member)
  undefined := (allocates.data d.head (stored.old d.head List.mem_cons_self)).trans stored.undefined
  old x member := Nat.lt_of_lt_of_le (stored.old x member) allocates.fresh

/-- The neighbours at a place are nodes of the list. -/
theorem neighbours (front : head :: l.map Prod.fst = l' ++ [p]) (back : r.map Prod.fst ++ [head] = n :: r') :
    p ∈ Cell.refs ⟨head, l ++ r⟩ ∧ n ∈ Cell.refs ⟨head, l ++ r⟩ := by
  have left : p ∈ head :: l.map Prod.fst := by
    rw [front]
    simp
  have right : n ∈ r.map Prod.fst ++ [head] := by
    rw [back]
    exact List.mem_cons_self
  simp only [Cell.refs, List.map_append, List.mem_cons, List.mem_append, List.not_mem_nil, or_false] at *
  tauto

/-- A value is put between two neighbours. -/
theorem stored_insert (stored : Stored h ⟨head, l ++ r⟩) (front : head :: l.map Prod.fst = l' ++ [p])
    (back : r.map Prod.fst ++ [head] = n :: r') (v : α) :
    Stored (((h.alloc (some v)).link p h.fresh).link h.fresh n) ⟨head, l ++ (h.fresh, v) :: r⟩ ∧
      Allocates (Cell.refs ⟨head, l ++ r⟩) h (((h.alloc (some v)).link p h.fresh).link h.fresh n) := by
  obtain ⟨ring, data, undefined, old⟩ := stored
  obtain ⟨inp, inn⟩ := neighbours front back
  have new : h.fresh ∉ Cell.refs ⟨head, l ++ r⟩ := fun member => Nat.lt_irrefl _ (old _ member)
  have allocated : Ring (h.alloc (some v)) head (l.map Prod.fst ++ r.map Prod.fst) := by
    rw [← List.map_append]
    exact ring.congr fun _ _ => ⟨rfl, rfl⟩
  refine ⟨⟨?_, ?_, ?_, ?_⟩, ?_⟩
  · rw [List.map_append, List.map_cons]
    refine ring_insert allocated front back ?_
    rw [← List.map_append]
    exact new
  · intro m member
    have among : m = (h.fresh, v) ∨ m ∈ l ++ r := by
      simp only [List.mem_append, List.mem_cons] at member ⊢
      tauto
    rcases among with rfl | among
    · exact Function.update_self ..
    · have other : m.1 ≠ h.fresh :=
        Nat.ne_of_lt (old m.1 (List.mem_cons_of_mem _ (List.mem_map_of_mem among)))
      exact (Function.update_of_ne other ..).trans (data m among)
  · exact (Function.update_of_ne (Nat.ne_of_lt (old head List.mem_cons_self)) ..).trans undefined
  · intro x member
    have among : x = h.fresh ∨ x ∈ Cell.refs ⟨head, l ++ r⟩ := by
      simp only [Cell.refs, List.map_append, List.map_cons, List.mem_append, List.mem_cons] at member ⊢
      tauto
    rcases among with rfl | among
    · exact Nat.lt_succ_self _
    · exact Nat.lt_succ_of_lt (old x among)
  · have first : Touches (h.fresh :: Cell.refs ⟨head, l ++ r⟩) (h.alloc (some v))
        ((h.alloc (some v)).link p h.fresh) := touches_link (List.mem_cons_of_mem _ inp) List.mem_cons_self
    have second : Touches (h.fresh :: Cell.refs ⟨head, l ++ r⟩) ((h.alloc (some v)).link p h.fresh)
        (((h.alloc (some v)).link p h.fresh).link h.fresh n) :=
      touches_link List.mem_cons_self (List.mem_cons_of_mem _ inn)
    refine (allocates_alloc h (some v)).trans (first.trans second).allocates fun x member was => ?_
    exact (List.mem_cons.mp member).resolve_left (Nat.ne_of_lt was)

/-- A node is taken out. -/
theorem stored_remove (stored : Stored h ⟨head, l ++ (x, v) :: r⟩) (front : head :: l.map Prod.fst = l' ++ [p])
    (back : r.map Prod.fst ++ [head] = n :: r') :
    Stored ((h.link p n).unlink x) ⟨head, l ++ r⟩ ∧
      Touches (Cell.refs ⟨head, l ++ (x, v) :: r⟩) h ((h.link p n).unlink x) := by
  obtain ⟨ring, data, undefined, old⟩ := stored
  obtain ⟨inp, inn⟩ := neighbours front back
  have more : ∀ y ∈ Cell.refs ⟨head, l ++ r⟩, y ∈ Cell.refs ⟨head, l ++ (x, v) :: r⟩ := by
    intro y member
    simp only [Cell.refs, List.map_append, List.map_cons, List.mem_append, List.mem_cons] at member ⊢
    tauto
  rw [List.map_append, List.map_cons] at ring
  refine ⟨⟨?_, ?_, undefined, fun y member => old y (more y member)⟩, ?_⟩
  · rw [List.map_append]
    exact ring_remove ring front back
  · intro m member
    refine data m ?_
    simp only [List.mem_append, List.mem_cons] at member ⊢
    tauto
  · refine (touches_link (more p inp) (more n inn)).trans (touches_unlink ?_)
    simp [Cell.refs]

end Cells

/-! ## Reversing -/

section Reversing

variable {h : Heap α} {head o last n : Ref} {nodes rest : List Ref} {r' : List Ref}

/-- The loop moves the nodes one by one to the front. -/
theorem runs_reverseLoop (turns : Nat) : ∀ (h : Heap α) (x : Ref) (rest done : List Ref), rest.length < turns →
    Ring h head done → Onward h (x :: rest) o → (x :: rest ++ head :: done).Nodup →
    (x :: rest).getLast? = some last →
    ∃ h', Runs (reverseLoop (some head) (some last) turns (some x)) h () h' ∧
      Ring h' head ((x :: rest).reverse ++ done) ∧ Touches (x :: rest ++ head :: done) h h' := by
  induction turns with
  | zero => exact fun h x rest done few => absurd few (Nat.not_lt_zero _)
  | succ turns ih =>
    intro h x rest done few ring onward nodup final
    obtain ⟨n, r', back⟩ := exists_first done head
    obtain ⟨q, behind⟩ := exists_head rest o
    have fresh : x ∉ head :: done := fun member =>
      (List.nodup_append.mp nodup).2.2 x List.mem_cons_self x member rfl
    have ring' : Ring ((h.link head x).link x n) head (x :: done) :=
      @ring_insert α h head x head n [] done [] r' ring rfl back fresh
    have inn : n ∈ head :: done := by
      have member : n ∈ done ++ [head] := by
        rw [back]
        exact List.mem_cons_self
      simp only [List.mem_append, List.mem_cons, List.not_mem_nil, or_false] at member ⊢
      tauto
    have touches : Touches (x :: rest ++ head :: done) h ((h.link head x).link x n) := by
      refine (touches_link ?_ ?_).trans (touches_link ?_ ?_)
      · simp
      · simp
      · simp
      · exact List.mem_append_right _ inn
    have turn : (reverseLoop (some head) (some last) (turns + 1) (some x) : Script α Unit).run.run h =
        (if (some x : Pointer) = some last then pure () else
          reverseLoop (some head) (some last) turns (some q) : Script α Unit).run.run
            ((h.link head x).link x n) := by
      rw [reverseLoop, (runs_next h x).bind_eq, onward.1, behind, if_neg (by simp), (runs_next h head).bind_eq,
        (ring.first back).1, (runs_listAdd h x head n).bind_eq]
    cases rest with
    | nil =>
      obtain rfl : x = last := Option.some.inj final
      rw [if_pos rfl] at turn
      exact ⟨_, turn, ring', touches⟩
    | cons y rest =>
      have same : (y :: rest).getLast? = some last := by rwa [List.getLast?_cons_cons] at final
      obtain rfl : y = q := Option.some.inj behind
      have other : (some x : Pointer) ≠ some last := by
        rintro same'
        obtain rfl := Option.some.inj same'
        exact (List.nodup_cons.mp nodup).1 (List.mem_append_left _ (List.mem_of_getLast? same))
      have onward' : Onward ((h.link head x).link x n) (y :: rest) o := by
        refine onward.2.congr fun z member => ?_
        have apart : z ≠ x := by
          rintro rfl
          exact (List.nodup_cons.mp nodup).1 (List.mem_append_left _ member)
        have apart' : z ≠ head := fun equal => (List.nodup_append.mp nodup).2.2 z
          (List.mem_cons_of_mem _ member) head List.mem_cons_self equal
        exact (Function.update_of_ne apart ..).trans (Function.update_of_ne apart' ..)
      have perm : (y :: rest ++ head :: x :: done).Perm (x :: y :: rest ++ head :: done) := by
        have swapped : (head :: x :: done).Perm (x :: head :: done) := List.Perm.swap x head done
        exact (swapped.append_left (y :: rest)).trans List.perm_middle
      obtain ⟨h', ran, ring'', touches'⟩ := ih _ y rest (x :: done) (Nat.lt_of_succ_lt_succ few) ring' onward'
        (perm.nodup_iff.mpr nodup) same
      rw [if_neg other] at turn
      refine ⟨h', turn.trans ran, ?_, touches.trans (touches'.mono fun z member => perm.mem_iff.mp member)⟩
      rw [List.reverse_cons, List.append_assoc]
      exact ring''

/-- A ring is reversed. -/
theorem runs_listReverse {bound : Nat} {xs : List Ref} (ring : Ring h head xs) (enough : xs.length < bound) :
    ∃ h', Runs (listReverse bound (some head)) h () h' ∧ Ring h' head xs.reverse ∧ Touches (head :: xs) h h' := by
  cases xs with
  | nil => exact ⟨h, (runs_listEmpty ring).bind (runs_pure () h), ring, .refl _ h⟩
  | cons x xs =>
    obtain ⟨h₁, detached, ring₁, touches₁⟩ := runs_detach ring
    obtain ⟨front, last, shape⟩ := exists_last xs x
    have first : h.next head = some x := (ring.first rfl).1
    have final : h.prev head = some last :=
      (ring.last (show head :: x :: xs = head :: front ++ [last] from congrArg (head :: ·) shape)).2
    have empty : Ring (h₁.link head head) head [] :=
      ⟨List.nodup_singleton head, List.isChain_cons_cons.mpr ⟨link_link h₁ head head, .singleton head⟩⟩
    have outside : head ∉ x :: xs := (List.nodup_cons.mp ring.nodup).1
    have onward : Onward (h₁.link head head) (x :: xs) x :=
      (onward_of_chain ring₁.chain).congr fun y member =>
        Function.update_of_ne (ne_of_mem_of_not_mem member outside) ..
    have perm : (x :: xs ++ [head]).Perm (head :: x :: xs) := List.perm_append_singleton head (x :: xs)
    have getLast : (x :: xs).getLast? = some last := by rw [shape, List.getLast?_concat]
    obtain ⟨h', ran, ring', touches'⟩ := runs_reverseLoop bound _ x xs [] (Nat.lt_of_succ_lt enough) empty onward
      (perm.nodup_iff.mpr ring.nodup) getLast
    rw [List.append_nil] at ring'
    refine ⟨h', (runs_listEmpty ring).bind ?_, ring', ?_⟩
    · refine (runs_next h head).bind ((runs_prev h head).bind ?_)
      rw [first, final]
      have initialised : Runs (initListHead (some head)) h₁ () (h₁.link head head) := rfl
      exact detached.bind (initialised.bind ran)
    · refine touches₁.trans ((touches_link List.mem_cons_self List.mem_cons_self).trans
        (touches'.mono fun y member => perm.mem_iff.mp member))

end Reversing

/-! ## The methods on one list -/

/-- The script ends with a result and makes one cell of another. -/
structure Updates (m : Script α β) (h : Heap α) (b : β) (h' : Heap α) (c c' : Cell α) : Prop where
  runs : Runs m h b h'
  stored : Stored h' c'
  allocates : Allocates c.refs h h'
  refs : ∀ x ∈ c'.refs, x ∈ c.refs ∨ h.fresh ≤ x

section Methods

variable {h : Heap α} {head x : Ref} {nodes rest : List (Ref × α)} {v : α}

theorem updates_pushFront (stored : Stored h ⟨head, nodes⟩) (v : α) :
    ∃ h', Updates (LinkedList.pushFront ⟨head⟩ v) h () h' ⟨head, nodes⟩ ⟨head, (h.fresh, v) :: nodes⟩ := by
  obtain ⟨n, r', back⟩ := exists_first (nodes.map Prod.fst) head
  obtain ⟨stored', allocates⟩ := @stored_insert α h head head n [] nodes [] r' stored rfl back v
  refine ⟨_, (runs_newNode h (some v)).bind ((runs_next _ head).bind ?_), stored', allocates, ?_⟩
  · have first : (h.alloc (some v)).next head = some n := (stored.ring.first back).1
    rw [first]
    exact runs_listAdd _ h.fresh head n
  · intro y member
    simp only [Cell.refs, List.map_cons, List.mem_cons] at member ⊢
    rcases member with rfl | rfl | among
    · exact .inl (.inl rfl)
    · exact .inr (Nat.le_refl _)
    · exact .inl (.inr among)

theorem updates_append (stored : Stored h ⟨head, nodes⟩) (v : α) :
    ∃ h', Updates (do
        let el ← newNode (some v)
        _listAdd (some el) (← prev (some head)) (some head)) h () h' ⟨head, nodes⟩
      ⟨head, nodes ++ [(h.fresh, v)]⟩ := by
  obtain ⟨l', p, front⟩ := exists_last (nodes.map Prod.fst) head
  have whole : Stored h ⟨head, nodes ++ []⟩ := by
    rw [List.append_nil]
    exact stored
  obtain ⟨stored', allocates⟩ := stored_insert whole front (List.nil_append [head]) v
  rw [List.append_nil] at allocates
  refine ⟨_, (runs_newNode h (some v)).bind ((runs_prev _ head).bind ?_), stored', allocates, ?_⟩
  · have last : (h.alloc (some v)).prev head = some p := (stored.ring.last front).2
    rw [last]
    exact runs_listAdd _ h.fresh p head
  · intro y member
    simp only [Cell.refs, List.map_append, List.map_cons, List.map_nil, List.mem_cons, List.mem_append,
      List.not_mem_nil, or_false] at member ⊢
    rcases member with rfl | among | rfl
    · exact .inl (.inl rfl)
    · exact .inl (.inr among)
    · exact .inr (Nat.le_refl _)

theorem runs_assertDefault (h : Heap α) : Runs (LinkedList.assertDefault true) h () h := rfl

/-- Nothing is taken from an empty list. -/
theorem pop_empty (stored : Stored h ⟨head, []⟩) :
    (LinkedList.popFront ⟨head⟩).run.run h = some (.error .assertionError, h) ∧
      (LinkedList.popBack ⟨head⟩).run.run h = some (.error .assertionError, h) :=
  ⟨(runs_listEmpty stored.ring).bind_eq _, (runs_listEmpty stored.ring).bind_eq _⟩

theorem updates_popFront (stored : Stored h ⟨head, (x, v) :: rest⟩) :
    ∃ h', Updates (LinkedList.popFront ⟨head⟩) h (some v) h' ⟨head, (x, v) :: rest⟩ ⟨head, rest⟩ := by
  obtain ⟨n, r', back⟩ := exists_first (rest.map Prod.fst) head
  obtain ⟨stored', touches⟩ := @stored_remove α h head head n [] rest [] r' x v stored rfl back
  have first : Link h head x := stored.ring.first rfl
  have behind : Link h x n := (@Ring.cut α h head x n [x] _ [head] r' stored.ring rfl back).2.2
  have value : ((h.link head n).unlink x).data x = some v := stored.data (x, v) List.mem_cons_self
  refine ⟨_, ?_, stored', touches.allocates, fun y member => .inl ?_⟩
  · refine (runs_listEmpty stored.ring).bind ((runs_assertDefault h).bind ((runs_next h head).bind ?_))
    rw [first.1]
    refine (runs_listDel first.2 behind.1).bind ?_
    rw [← value]
    exact runs_data _ x
  · simp only [Cell.refs, List.map_cons, List.mem_cons] at member ⊢
    tauto

theorem updates_popBack (stored : Stored h ⟨head, rest ++ [(x, v)]⟩) :
    ∃ h', Updates (LinkedList.popBack ⟨head⟩) h (some v) h' ⟨head, rest ++ [(x, v)]⟩ ⟨head, rest⟩ := by
  obtain ⟨l', p, front⟩ := exists_last (rest.map Prod.fst) head
  obtain ⟨stored', touches⟩ := stored_remove stored front (List.nil_append [head])
  have ring := stored.ring
  rw [List.map_append, List.map_cons, List.map_nil] at ring
  have last : Link h x head := ring.last (List.cons_append ..).symm
  have before : Link h p x := (ring.cut front (List.singleton_append ..)).2.2
  have value : ((h.link p head).unlink x).data x = some v := stored.data (x, v) (by simp)
  rw [List.append_nil] at stored'
  refine ⟨_, ?_, stored', touches.allocates, fun y member => .inl ?_⟩
  · refine (runs_listEmpty ring).bind ?_
    have some : (rest.map Prod.fst ++ [x]).isEmpty = false := by simp
    rw [some]
    refine (runs_assertDefault h).bind ((runs_prev h head).bind ?_)
    rw [last.2]
    refine (runs_listDel before.2 last.1).bind ?_
    rw [← value]
    exact runs_data _ x
  · simp only [Cell.refs, List.map_append, List.mem_cons, List.mem_append] at member ⊢
    tauto

end Methods

/-! ## Loops over a range -/

section Loops

variable {h : Heap α} {body : Option α → β → Script α β} {Q : List α → β → Heap α → Prop} {bound : Nat}

/-- The body keeps what is known about the values so far. -/
def Consumes (body : Option α → β → Script α β) (Q : List α → β → Heap α → Prop) : Prop :=
  ∀ done v state h, Q done state h →
    ∃ state' h', Runs (body (some v) state) h state' h' ∧ Q (done ++ [v]) state' h'

theorem runs_forOf_values (consumes : Consumes body Q) (values : List α) (state : β) (start : Q [] state h) :
    ∃ state' h', Runs (forOf bound (.values values) body state) h state' h' ∧
      Q values state' h' := by
  have loop : ∀ (rest done : List α) (state : β) (h : Heap α), Q done state h →
      ∃ state' h', Runs (rest.foldlM (fun state data => body (some data) state) state) h
        state' h' ∧ Q (done ++ rest) state' h' := by
    intro rest
    induction rest with
    | nil =>
      intro done state h holds
      rw [List.append_nil]
      exact ⟨state, h, runs_pure _ h, holds⟩
    | cons v rest ih =>
      intro done state h holds
      obtain ⟨state₁, h₁, ran, holds₁⟩ := consumes done v state h holds
      obtain ⟨state', h', ran', holds'⟩ := ih (done ++ [v]) state₁ h₁ holds₁
      rw [List.append_cons]
      exact ⟨state', h', ran.bind ran', holds'⟩
  exact loop values [] state h start

/-- The nodes from here on are those that stood behind, and hold their values. -/
def Readable (h : Heap α) (rest : List (Ref × α)) (head : Ref) : Prop :=
  Onward h (rest.map Prod.fst) head ∧ head ∉ rest.map Prod.fst ∧ ∀ n ∈ rest, h.data n.1 = some n.2

/-- A loop over a list whose rest the body leaves readable. -/
theorem runs_listForEachSafe {head : Ref} {nodes : List (Ref × α)} (consumes : Consumes body Q)
    (reads : ∀ done rest state h, done ++ rest = nodes → rest ≠ [] → Q (done.map Prod.snd) state h →
      Readable h rest head) (turns : Nat) : ∀ (done rest : List (Ref × α)) (state : β) (h : Heap α) (el : Ref)
    (el1 : Pointer), done ++ rest = nodes → rest.length < turns → Q (done.map Prod.snd) state h →
    (rest.map Prod.fst ++ [head]).head? = some el →
    (∀ n later, rest = n :: later → (later.map Prod.fst ++ [head]).head? = el1) →
    ∃ state' h', Runs (listForEachSafe (some head) body turns (some el) el1 state) h state' h' ∧
      Q (nodes.map Prod.snd) state' h' := by
  induction turns with
  | zero => exact fun done rest state h el el1 _ few => absurd few (Nat.not_lt_zero _)
  | succ turns ih =>
    intro done rest state h el el1 split few holds first second
    cases rest with
    | nil =>
      obtain rfl : head = el := Option.some.inj first
      rw [List.append_nil] at split
      subst split
      refine ⟨state, h, ?_, holds⟩
      rw [listForEachSafe, if_pos rfl]
      exact runs_pure _ h
    | cons n later =>
      obtain ⟨x, v⟩ := n
      obtain rfl : x = el := Option.some.inj first
      obtain ⟨-, absent, data⟩ := reads done _ state h split (List.cons_ne_nil _ _) holds
      obtain ⟨state₁, h₁, ran, holds₁⟩ := consumes _ v state h holds
      have holds' : Q ((done ++ [(x, v)]).map Prod.snd) state₁ h₁ := by
        rw [List.map_append]
        exact holds₁
      have split' : (done ++ [(x, v)]) ++ later = nodes := by
        rw [← List.append_cons]
        exact split
      have other : (some x : Pointer) ≠ some head := by
        intro same
        obtain rfl := Option.some.inj same
        exact absent List.mem_cons_self
      obtain ⟨el', next'⟩ := exists_head (later.map Prod.fst) head
      obtain rfl : some el' = el1 := next'.symm.trans (second _ later rfl)
      have onwards : ∀ m more, later = m :: more → (more.map Prod.fst ++ [head]).head? = h₁.next el' := by
        rintro ⟨y, w⟩ more rfl
        obtain ⟨onward, -, -⟩ := reads _ _ state₁ h₁ split' (List.cons_ne_nil _ _) holds'
        obtain rfl : y = el' := Option.some.inj next'
        exact onward.1.symm
      obtain ⟨state', h', ran', holds''⟩ := ih _ later state₁ h₁ el' (h₁.next el') split'
        (Nat.lt_of_succ_lt_succ few) holds' next' onwards
      refine ⟨state', h', ?_, holds''⟩
      rw [listForEachSafe, if_neg other]
      refine (runs_data h x).bind ?_
      rw [data (x, v) List.mem_cons_self]
      exact ran.bind ((runs_next h₁ el').bind ran')

/-- A loop over a list that is not changed by the body, or only in front of what is left to read. -/
theorem runs_forOf_list {head : Ref} {nodes : List (Ref × α)} (consumes : Consumes body Q)
    (reads : ∀ done rest state h, done ++ rest = nodes → rest ≠ [] → Q (done.map Prod.snd) state h →
      Readable h rest head) (enough : nodes.length < bound) (state : β)
    (first : h.next head = (nodes.map Prod.fst ++ [head]).head?) (start : Q [] state h) :
    ∃ state' h', Runs (forOf bound (.list ⟨head⟩) body state) h state' h' ∧ Q (nodes.map Prod.snd) state' h' := by
  obtain ⟨el, begins⟩ := exists_head (nodes.map Prod.fst) head
  have onwards : ∀ n later, nodes = n :: later → (later.map Prod.fst ++ [head]).head? = h.next el := by
    rintro ⟨x, v⟩ later rfl
    obtain ⟨onward, -, -⟩ := reads [] _ state h rfl (List.cons_ne_nil _ _) start
    obtain rfl : x = el := Option.some.inj begins
    exact onward.1.symm
  obtain ⟨state', h', ran, holds⟩ := runs_listForEachSafe consumes reads bound [] nodes state h el (h.next el) rfl
    enough start begins onwards
  refine ⟨state', h', (runs_next h head).bind ?_, holds⟩
  rw [first, begins]
  exact (runs_next h el).bind ran

end Loops

/-! ## Ranges -/

section Ranges

variable {h h₀ h' : Heap α} {c d : Cell α} {bound : Nat} {values : List α} {head : Ref}
  {done rest : List (Ref × α)}

/-- The script changes the values of a list to others. -/
def Becomes (m : Script α β) (h : Heap α) (b : β) (c : Cell α) (values : List α) : Prop :=
  ∃ h' c', Updates m h b h' c c' ∧ c'.head = c.head ∧ c'.values = values

/-- Values were appended to a cell. -/
def Appended (c : Cell α) (h₀ : Heap α) (done : List α) (_ : Unit) (h : Heap α) : Prop :=
  ∃ extra : List (Ref × α), extra.map Prod.snd = done ∧ Stored h ⟨c.head, c.nodes ++ extra⟩ ∧
    Allocates c.refs h₀ h ∧ ∀ n ∈ extra, h₀.fresh ≤ n.1

/-- Values were put before a cell, and the pointer stands at the last of them. -/
def Prepended (c : Cell α) (h₀ : Heap α) (done : List α) (p : Pointer) (h : Heap α) : Prop :=
  ∃ (extra : List (Ref × α)) (l' : List Ref) (q : Ref), p = some q ∧ c.head :: extra.map Prod.fst = l' ++ [q] ∧
    extra.map Prod.snd = done ∧ Stored h ⟨c.head, extra ++ c.nodes⟩ ∧ Allocates c.refs h₀ h ∧
    ∀ n ∈ extra, h₀.fresh ≤ n.1

/-- The body of `appendRange`. -/
def appendBody (head : Ref) (data : Option α) (_ : Unit) : Script α Unit := do
  let el ← newNode data
  _listAdd (some el) (← prev (some head)) (some head)

/-- The body of `prependRange`. -/
def prependBody (data : Option α) (head : Pointer) : Script α Pointer := do
  let el ← newNode data
  _listAdd (some el) head (← next head)
  return some el

theorem mem_refs_append {x : Ref} {l r : List (Ref × α)} : x ∈ Cell.refs ⟨head, l ++ r⟩ ↔
    x ∈ Cell.refs ⟨head, l⟩ ∨ x ∈ r.map Prod.fst := by
  simp only [Cell.refs, List.map_append, List.mem_cons, List.mem_append, or_assoc]

theorem consumes_append (c : Cell α) (h₀ : Heap α) : Consumes (appendBody c.head) (Appended c h₀) := by
  rintro done v _ h ⟨extra, rfl, stored, allocates, new⟩
  obtain ⟨h', ran, stored', allocates', refs⟩ := updates_append stored v
  rw [List.append_assoc] at stored'
  refine ⟨(), h', ran, extra ++ [(h.fresh, v)], by simp, stored', allocates.trans allocates' ?_, ?_⟩
  · intro x member was
    rcases mem_refs_append.mp member with among | among
    · exact among
    · obtain ⟨n, inside, rfl⟩ := List.mem_map.mp among
      exact absurd was (Nat.not_lt.mpr (new n inside))
  · intro n member
    rcases List.mem_append.mp member with among | last
    · exact new n among
    · rw [List.mem_singleton.mp last]
      exact allocates.fresh

theorem consumes_prepend (c : Cell α) (h₀ : Heap α) : Consumes prependBody (Prepended c h₀) := by
  rintro done v p h ⟨extra, l', q, rfl, front, rfl, stored, allocates, new⟩
  obtain ⟨n, r', back⟩ := exists_first (c.nodes.map Prod.fst) c.head
  obtain ⟨stored', allocates'⟩ := stored_insert stored front back v
  have behind : (h.alloc (some v)).next q = some n := by
    have ring := stored.ring
    rw [List.map_append] at ring
    exact (ring.cut front back).2.2.1
  have ran : Runs (prependBody (some v) (some q)) h (some h.fresh)
      (((h.alloc (some v)).link q h.fresh).link h.fresh n) := by
    refine (runs_newNode h (some v)).bind ((runs_next _ q).bind ?_)
    rw [behind]
    exact (runs_listAdd _ h.fresh q n).bind (runs_pure _ _)
  have moved : c.head :: (extra ++ [(h.fresh, v)]).map Prod.fst = c.head :: extra.map Prod.fst ++ [h.fresh] := by
    simp
  refine ⟨_, _, ran, extra ++ [(h.fresh, v)], _, h.fresh, rfl, moved, by simp, ?_, ?_, ?_⟩
  · rw [List.append_assoc]
    exact stored'
  · refine allocates.trans allocates' fun x member was => ?_
    have perm : (extra ++ c.nodes).Perm (c.nodes ++ extra) := List.perm_append_comm
    have member' : x ∈ Cell.refs ⟨c.head, c.nodes ++ extra⟩ := ((perm.map Prod.fst).cons c.head).mem_iff.mp member
    rcases mem_refs_append.mp member' with among | among
    · exact among
    · obtain ⟨m, inside, rfl⟩ := List.mem_map.mp among
      exact absurd was (Nat.not_lt.mpr (new m inside))
  · intro m member
    rcases List.mem_append.mp member with among | last
    · exact new m among
    · rw [List.mem_singleton.mp last]
      exact allocates.fresh

theorem readable_of_stored (stored : Stored h ⟨head, done ++ rest⟩) : Readable h rest head := by
  obtain ⟨⟨nodup, chain⟩, data, -, -⟩ := stored
  rw [List.map_append] at nodup chain
  refine ⟨onward_of_chain ?_, ?_, fun n member => data n (List.mem_append_right _ member)⟩
  · rw [← List.cons_append, List.append_assoc] at chain
    exact List.IsChain.right_of_append chain
  · exact fun member => (List.nodup_cons.mp nodup).1 (List.mem_append_right _ member)

/-- A list of other nodes stays readable. -/
theorem readable_other (stored : Stored h₀ d) (allocates : Allocates c.refs h₀ h)
    (apart : ∀ x ∈ d.refs, x ∉ c.refs) (split : done ++ rest = d.nodes) : Readable h rest d.head := by
  have there := stored.frame allocates apart
  obtain ⟨head, nodes⟩ := d
  obtain rfl := split
  exact readable_of_stored there

theorem updates_of_appended {m : Script α Unit} (ran : Runs m h () h') (appended : Appended c h values () h') :
    Becomes m h () c (c.values ++ values) := by
  obtain ⟨extra, rfl, stored, allocates, new⟩ := appended
  refine ⟨h', _, ⟨ran, stored, allocates, fun x member => ?_⟩, rfl, List.map_append⟩
  rcases mem_refs_append.mp member with among | among
  · exact .inl among
  · obtain ⟨n, inside, rfl⟩ := List.mem_map.mp among
    exact .inr (new n inside)

theorem updates_of_prepended {m : Script α Unit} {p : Pointer} (ran : Runs m h () h')
    (prepended : Prepended c h values p h') : Becomes m h () c (values ++ c.values) := by
  obtain ⟨extra, -, -, -, -, rfl, stored, allocates, new⟩ := prepended
  refine ⟨h', _, ⟨ran, stored, allocates, fun x member => ?_⟩, rfl, List.map_append⟩
  have perm : (extra ++ c.nodes).Perm (c.nodes ++ extra) := List.perm_append_comm
  rcases mem_refs_append.mp (((perm.map Prod.fst).cons c.head).mem_iff.mp member) with among | among
  · exact .inl among
  · obtain ⟨n, inside, rfl⟩ := List.mem_map.mp among
    exact .inr (new n inside)

theorem appended_start (stored : Stored h c) : Appended c h [] () h := by
  refine ⟨[], rfl, ?_, .refl _ h, nofun⟩
  rw [List.append_nil]
  exact stored

theorem prepended_start (stored : Stored h c) : Prepended c h [] (some c.head) h :=
  ⟨[], [], c.head, rfl, rfl, rfl, stored, .refl _ h, nofun⟩

theorem Stored.first (stored : Stored h c) : h.next c.head = (c.nodes.map Prod.fst ++ [c.head]).head? := by
  obtain ⟨n, r', back⟩ := exists_first (c.nodes.map Prod.fst) c.head
  rw [back]
  exact (stored.ring.first back).1

theorem appendRange_values (stored : Stored h c) (values : List α) :
    Becomes (LinkedList.appendRange bound ⟨c.head⟩ (.values values)) h () c (c.values ++ values) := by
  obtain ⟨_, h', ran, appended⟩ := @runs_forOf_values α Unit h _ _ bound (consumes_append c h) values ()
    (appended_start stored)
  exact updates_of_appended ran appended

theorem appendRange_list (stored : Stored h c) (source : Stored h d) (apart : ∀ x ∈ d.refs, x ∉ c.refs)
    (enough : d.nodes.length < bound) :
    Becomes (LinkedList.appendRange bound ⟨c.head⟩ (.list ⟨d.head⟩)) h () c (c.values ++ d.values) := by
  have reads : ∀ done rest state h', done ++ rest = d.nodes → rest ≠ [] →
      Appended c h (done.map Prod.snd) state h' → Readable h' rest d.head := by
    rintro done rest state h' split - ⟨extra, -, -, allocates, -⟩
    exact readable_other source allocates apart split
  obtain ⟨_, h', ran, appended⟩ := runs_forOf_list (consumes_append c h) reads enough () source.first
    (appended_start stored)
  exact updates_of_appended ran appended

/-- A list of at most one value can be appended to itself. -/
theorem appendRange_self (stored : Stored h c) (few : c.nodes.length < 2) (enough : c.nodes.length < bound) :
    Becomes (LinkedList.appendRange bound ⟨c.head⟩ (.list ⟨c.head⟩)) h () c (c.values ++ c.values) := by
  have reads : ∀ done rest state h', done ++ rest = c.nodes → rest ≠ [] →
      Appended c h (done.map Prod.snd) state h' → Readable h' rest c.head := by
    rintro done rest state h' split more ⟨extra, same, stored', -, -⟩
    have some := List.length_pos_iff.mpr more
    have total := congrArg List.length split
    rw [List.length_append] at total
    obtain rfl : done = [] := List.length_eq_zero_iff.mp (by omega)
    obtain rfl : extra = [] := List.map_eq_nil_iff.mp same
    obtain ⟨head, nodes⟩ := c
    obtain rfl := split
    rw [List.append_nil] at stored'
    exact readable_of_stored stored'
  obtain ⟨_, h', ran, appended⟩ := runs_forOf_list (consumes_append c h) reads enough () stored.first
    (appended_start stored)
  exact updates_of_appended ran appended

theorem prependRange_of_forOf {rng : Range α}
    (loop : ∃ p h', Runs (forOf bound rng prependBody (some c.head)) h p h' ∧ Prepended c h values p h') :
    Becomes (LinkedList.prependRange bound ⟨c.head⟩ rng) h () c (values ++ c.values) := by
  obtain ⟨p, h', ran, prepended⟩ := loop
  exact updates_of_prepended (ran.bind (runs_pure () h')) prepended

theorem prependRange_values (stored : Stored h c) (values : List α) :
    Becomes (LinkedList.prependRange bound ⟨c.head⟩ (.values values)) h () c (values ++ c.values) :=
  prependRange_of_forOf (runs_forOf_values (consumes_prepend c h) values _ (prepended_start stored))

theorem prependRange_list (stored : Stored h c) (source : Stored h d) (apart : ∀ x ∈ d.refs, x ∉ c.refs)
    (enough : d.nodes.length < bound) :
    Becomes (LinkedList.prependRange bound ⟨c.head⟩ (.list ⟨d.head⟩)) h () c (d.values ++ c.values) := by
  have reads : ∀ done rest state h', done ++ rest = d.nodes → rest ≠ [] →
      Prepended c h (done.map Prod.snd) state h' → Readable h' rest d.head := by
    rintro done rest state h' split - ⟨extra, -, -, -, -, -, -, allocates, -⟩
    exact readable_other source allocates apart split
  exact prependRange_of_forOf (runs_forOf_list (consumes_prepend c h) reads enough _ source.first
    (prepended_start stored))

/-- What a list puts in front of itself is not visited. -/
theorem prependRange_self (stored : Stored h c) (enough : c.nodes.length < bound) :
    Becomes (LinkedList.prependRange bound ⟨c.head⟩ (.list ⟨c.head⟩)) h () c (c.values ++ c.values) := by
  have reads : ∀ done rest state h', done ++ rest = c.nodes → rest ≠ [] →
      Prepended c h (done.map Prod.snd) state h' → Readable h' rest c.head := by
    rintro done rest state h' split - ⟨extra, -, -, -, -, -, stored', -, -⟩
    rw [← split, ← List.append_assoc] at stored'
    exact readable_of_stored stored'
  exact prependRange_of_forOf (runs_forOf_list (consumes_prepend c h) reads enough _ stored.first
    (prepended_start stored))

end Ranges

/-! ## What is read -/

section Reading

variable {h : Heap α} {c : Cell α} {bound : Nat}

theorem runs_iterate (stored : Stored h c) (enough : c.nodes.length < bound) :
    Runs (LinkedList.iterate bound ⟨c.head⟩) h (c.values.map some) h := by
  let Q : List α → List (Option α) → Heap α → Prop := fun done out h' => out = done.map some ∧ h' = h
  have consumes : Consumes (fun data values => pure (values ++ [data])) Q := by
    rintro done v _ _ ⟨rfl, rfl⟩
    exact ⟨_, _, runs_pure _ _, by simp, rfl⟩
  have reads : ∀ done rest state h', done ++ rest = c.nodes → rest ≠ [] → Q (done.map Prod.snd) state h' →
      Readable h' rest c.head := by
    rintro done rest state h' split - ⟨-, rfl⟩
    have whole : Stored h' ⟨c.head, done ++ rest⟩ := by
      rw [split]
      exact stored
    exact readable_of_stored whole
  obtain ⟨_, _, ran, rfl, rfl⟩ := runs_forOf_list consumes reads enough [] stored.first ⟨rfl, rfl⟩
  exact ran

theorem runs_front (stored : Stored h c) : Runs (LinkedList.front ⟨c.head⟩) h c.values.head? h := by
  obtain ⟨head, nodes⟩ := c
  refine (runs_next h head).bind ?_
  rw [stored.first]
  cases nodes with
  | nil =>
    have read := runs_data h head
    rw [show h.data head = none from stored.undefined] at read
    exact read
  | cons n nodes =>
    have read := runs_data h n.1
    rw [stored.data n List.mem_cons_self] at read
    exact read

theorem runs_back (stored : Stored h c) : Runs (LinkedList.back ⟨c.head⟩) h c.values.getLast? h := by
  obtain ⟨head, nodes⟩ := c
  refine (runs_prev h head).bind ?_
  rcases List.eq_nil_or_concat' nodes with rfl | ⟨nodes, n, rfl⟩
  · have read := runs_data h head
    rw [show h.data head = none from stored.undefined] at read
    rw [(stored.ring.last (List.nil_append [head]).symm).2]
    exact read
  · have read := runs_data h n.1
    rw [stored.data n (by simp)] at read
    have front : head :: (nodes ++ [n]).map Prod.fst = (head :: nodes.map Prod.fst) ++ [n.1] := by simp
    have last : h.prev head = some n.1 := (stored.ring.last front).2
    rw [last]
    simp only [Cell.values, List.map_append, List.map_cons, List.map_nil, List.getLast?_concat]
    exact read

theorem runs_empty (stored : Stored h c) : Runs (LinkedList.empty ⟨c.head⟩) h c.values.isEmpty h := by
  have empty := runs_listEmpty stored.ring
  rw [List.isEmpty_map] at empty
  rw [Cell.values, List.isEmpty_map]
  exact empty

end Reading

/-! ## Making lists -/

section Making

variable {h : Heap α} {c d : Cell α} {bound : Nat} {values : List α}

/-- The script makes a list of new nodes. -/
def Creates (m : Script α LinkedList) (h : Heap α) (values : List α) : Prop :=
  ∃ h' c, Runs m h ⟨c.head⟩ h' ∧ Stored h' c ∧ Allocates [] h h' ∧ (∀ x ∈ c.refs, h.fresh ≤ x) ∧
    c.values = values

/-- The heap with a new head. -/
def Heap.withHead (h : Heap α) : Heap α := (h.alloc none).link h.fresh h.fresh

theorem stored_withHead (h : Heap α) : Stored h.withHead ⟨h.fresh, []⟩ where
  ring := ⟨List.nodup_singleton _, List.isChain_cons_cons.mpr ⟨link_link _ _ _, .singleton _⟩⟩
  data := nofun
  undefined := Function.update_self ..
  old x member := by
    rw [List.mem_singleton.mp member]
    exact Nat.lt_succ_self _

theorem allocates_withHead (h : Heap α) : Allocates [] h h.withHead where
  next _ was _ := Function.update_of_ne (Nat.ne_of_lt was) ..
  prev _ was _ := Function.update_of_ne (Nat.ne_of_lt was) ..
  data _ was := Function.update_of_ne (Nat.ne_of_lt was) ..
  fresh := Nat.le_succ _

theorem creates_empty (h : Heap α) : Creates (LinkedList.construct bound none) h [] :=
  ⟨h.withHead, ⟨h.fresh, []⟩, rfl, stored_withHead h, allocates_withHead h,
    fun _ member => Nat.le_of_eq (List.mem_singleton.mp member).symm, rfl⟩

theorem creates_of_append {rng : Range α}
    (appends : Becomes (LinkedList.appendRange bound ⟨h.fresh⟩ rng) h.withHead () ⟨h.fresh, []⟩ values) :
    Creates (LinkedList.construct bound (some rng)) h values := by
  obtain ⟨h', c', ⟨ran, stored, allocates, refs⟩, same, rfl⟩ := appends
  have head : Runs (newNode none) h h.fresh (h.alloc none) := runs_newNode h none
  have init : Runs (LIST_HEAD_INIT (some h.fresh)) (h.alloc none) (some h.fresh) h.withHead := rfl
  refine ⟨h', c', ?_, stored, (allocates_withHead h).trans allocates ?_, ?_, rfl⟩
  · rw [same]
    exact head.bind (init.bind (ran.bind (runs_pure _ h')))
  · intro x member was
    rw [List.mem_singleton.mp member] at was
    exact absurd was (Nat.lt_irrefl _)
  · intro x member
    rcases refs x member with old | new
    · exact Nat.le_of_eq (List.mem_singleton.mp old).symm
    · exact Nat.le_trans (allocates_withHead h).fresh new

theorem creates_values (h : Heap α) (values : List α) :
    Creates (LinkedList.construct bound (some (.values values))) h values :=
  creates_of_append (appendRange_values (stored_withHead h) values)

theorem creates_list (source : Stored h d) (enough : d.nodes.length < bound) :
    Creates (LinkedList.construct bound (some (.list ⟨d.head⟩))) h d.values := by
  have apart : ∀ x ∈ d.refs, x ∉ Cell.refs ⟨h.fresh, ([] : List (Ref × α))⟩ := by
    intro x member new
    have same : x = h.fresh := List.mem_singleton.mp new
    exact Nat.ne_of_lt (source.old x member) same
  have source' := source.frame (allocates_withHead h) fun _ _ => List.not_mem_nil
  have appends := @appendRange_list α h.withHead ⟨h.fresh, []⟩ d bound (stored_withHead h) source' apart enough
  rw [show Cell.values ⟨h.fresh, ([] : List (Ref × α))⟩ = [] from rfl, List.nil_append] at appends
  exact creates_of_append appends

end Making

/-! ## The other methods -/

section Others

variable {h : Heap α} {c : Cell α} {bound : Nat} {v : α} {vs : List α}

theorem becomes_pushFront (stored : Stored h c) (v : α) :
    Becomes (LinkedList.pushFront ⟨c.head⟩ v) h () c (v :: c.values) := by
  obtain ⟨h', updates⟩ := updates_pushFront stored v
  exact ⟨h', _, updates, rfl, rfl⟩

theorem becomes_pushBack (stored : Stored h c) (v : α) :
    Becomes (LinkedList.pushBack ⟨c.head⟩ v) h () c (c.values ++ [v]) := by
  obtain ⟨h', updates⟩ := updates_append stored v
  exact ⟨h', _, updates, rfl, List.map_append⟩

theorem becomes_popFront (stored : Stored h c) (same : c.values = v :: vs) :
    Becomes (LinkedList.popFront ⟨c.head⟩) h (some v) c vs := by
  obtain ⟨head, nodes⟩ := c
  obtain ⟨⟨x, w⟩, rest, rfl, rfl, rfl⟩ := List.map_eq_cons_iff.mp same
  obtain ⟨h', updates⟩ := updates_popFront stored
  exact ⟨h', _, updates, rfl, rfl⟩

theorem becomes_popBack (stored : Stored h c) (same : c.values = vs ++ [v]) :
    Becomes (LinkedList.popBack ⟨c.head⟩) h (some v) c vs := by
  obtain ⟨head, nodes⟩ := c
  obtain ⟨rest, last, rfl, rfl, single⟩ := List.map_eq_append_iff.mp same
  obtain ⟨⟨x, w⟩, tail, rfl, rfl, nil⟩ := List.map_eq_cons_iff.mp single
  obtain rfl := List.map_eq_nil_iff.mp nil
  obtain ⟨h', updates⟩ := updates_popBack stored
  exact ⟨h', _, updates, rfl, rfl⟩

theorem becomes_reverse (stored : Stored h c) (enough : c.nodes.length < bound) :
    Becomes (LinkedList.reverse bound ⟨c.head⟩) h () c c.values.reverse := by
  obtain ⟨head, nodes⟩ := c
  obtain ⟨ring, data, undefined, old⟩ := stored
  obtain ⟨h', ran, ring', touches⟩ := runs_listReverse ring (by rw [List.length_map]; exact enough)
  rw [← List.map_reverse] at ring'
  have among : ∀ x ∈ Cell.refs ⟨head, nodes.reverse⟩, x ∈ Cell.refs ⟨head, nodes⟩ := by
    intro x member
    exact (((List.reverse_perm nodes).map Prod.fst).cons head).mem_iff.mp member
  refine ⟨h', ⟨head, nodes.reverse⟩, ⟨ran, ⟨ring', ?_, ?_, ?_⟩, touches.allocates, fun x member => .inl
    (among x member)⟩, rfl, List.map_reverse⟩
  · intro n member
    rw [touches.data]
    exact data n (List.mem_reverse.mp member)
  · rw [touches.data]
    exact undefined
  · intro x member
    rw [touches.fresh]
    exact old x (among x member)

end Others

end QjsLws.Linked
