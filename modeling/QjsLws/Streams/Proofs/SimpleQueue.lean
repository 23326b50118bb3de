import QjsLws.Misc.Packed
import QjsLws.Streams.SimpleQueue
import QjsLws.Streams.Proofs.Writable

/-!
# The queue of the streams, proofs

The nodes are the chunks of one list of places: those before the cursor are `undefined`, and behind them are the
elements of the queue.
-/

namespace QjsLws.Streams

open Misc

variable {α : Type}

namespace SimpleQueue

/-- The places of all nodes. -/
def places (q : SimpleQueue α) : List (Option α) := (q.nodes.map Node.elements).flatten

/-- The queue holds the elements of a list. -/
structure Holds (q : SimpleQueue α) (l : List α) : Prop where
  packed : Packed queueMaxArraySize (q.nodes.map Node.elements)
  links : ∀ i, i < q.nodes.length → (q.node i).next = if i + 1 < q.nodes.length then some (i + 1) else none
  back : q.back + 1 = q.nodes.length
  front : q.front ≤ q.back
  cursor : q.cursor < queueMaxArraySize
  places : q.places = List.replicate (q.front * queueMaxArraySize + q.cursor) none ++ l.map some
  size : q.size = l.length

variable {q : SimpleQueue α} {l : List α} {a : α}

theorem queueMaxArraySize_pos : 0 < queueMaxArraySize := by simp [queueMaxArraySize]

theorem holds_new : Holds (new : SimpleQueue α) [] where
  packed := .last queueMaxArraySize_pos
  links i inside := by
    obtain rfl : i = 0 := by simpa [new] using inside
    rfl
  back := rfl
  front := Nat.le_refl 0
  cursor := queueMaxArraySize_pos
  places := by simp [new, SimpleQueue.places]
  size := rfl

theorem elements_node (q : SimpleQueue α) (i : Nat) :
    (q.node i).elements = (q.nodes.map Node.elements)[i]?.getD [] := by
  rw [node, List.getElem?_map]
  cases q.nodes[i]? <;> rfl

namespace Holds

/-- The place of an element of a node. -/
theorem getElem?_places (holds : Holds q l) (i : Nat) {j : Nat} (inside : j < queueMaxArraySize) :
    q.places[i * queueMaxArraySize + j]? = (q.node i).elements[j]? := by
  rw [elements_node]
  exact holds.packed.getElem?_flatten i inside

/-- A node with another behind it is whole, the last one is not. -/
theorem elements_length (holds : Holds q l) (i : Nat) :
    (i < q.back → (q.node i).elements.length = queueMaxArraySize) ∧
      (i = q.back → (q.node i).elements.length < queueMaxArraySize) := by
  obtain ⟨whole, short⟩ := holds.packed.chunk_length i
  have back := holds.back
  rw [List.length_map] at whole short
  rw [elements_node]
  exact ⟨fun before => whole (by omega), fun last => short (by omega)⟩

theorem next_eq (holds : Holds q l) {i : Nat} (inside : i ≤ q.back) :
    (q.node i).next = if i < q.back then some (i + 1) else none := by
  have back := holds.back
  rw [holds.links i (by omega)]
  simp only [← back, Nat.add_lt_add_iff_right]

/-- What is at the cursor. -/
theorem getElem?_cursor (holds : Holds q l) : (q.node q.front).elements[q.cursor]? = (l.map some)[0]? := by
  rw [← holds.getElem?_places q.front holds.cursor, holds.places, List.getElem?_append_right (by simp)]
  simp

theorem element_cursor (holds : Holds q (a :: l)) : (q.node q.front).element q.cursor = some a := by
  rw [Node.element, holds.getElem?_cursor]
  rfl

/-- The last node, and what is before it. -/
theorem nodes_eq (holds : Holds q l) : q.nodes = q.nodes.take q.back ++ [q.node q.back] := by
  have back := holds.back
  have inside : q.back < q.nodes.length := by omega
  have last : q.nodes.drop q.back = [q.node q.back] := by
    rw [List.drop_eq_getElem_cons inside, node, List.getElem?_eq_getElem inside, back, List.drop_length]
    rfl
  rw [← last, List.take_append_drop]

/-- The node at the back is overwritten. -/
theorem set_back (holds : Holds q l) (n : Node α) : q.nodes.set q.back n = q.nodes.take q.back ++ [n] := by
  have back := holds.back
  have length : (q.nodes.take q.back).length = q.back := by simp; omega
  conv_lhs => rw [holds.nodes_eq]
  rw [List.set_append_right _ _ (by omega)]
  simp [length]

theorem push (holds : Holds q l) (a : α) : ∃ q', q.push a = .ok q' ∧ Holds q' (l ++ [a]) := by
  have back := holds.back
  have length : (q.nodes.take q.back).length = q.back := by simp; omega
  have last : (q.node q.back).next = none := by rw [holds.next_eq (Nat.le_refl _), if_neg (Nat.lt_irrefl _)]
  have short : (q.node q.back).elements.length < queueMaxArraySize := (holds.elements_length q.back).2 rfl
  have packed : Packed queueMaxArraySize
      ((q.nodes.take q.back).map Node.elements ++ [(q.node q.back).elements]) := by
    have packed := holds.packed
    rw [holds.nodes_eq, List.map_append, List.map_singleton] at packed
    exact packed
  have places : ((q.nodes.take q.back).map Node.elements).flatten ++ (q.node q.back).elements =
      List.replicate (q.front * queueMaxArraySize + q.cursor) none ++ l.map some := by
    have places := holds.places
    rw [SimpleQueue.places, holds.nodes_eq, List.map_append, List.flatten_append] at places
    simpa using places
  let n : Node α := ⟨(q.node q.back).elements ++ [some a], (q.node q.back).next⟩
  unfold SimpleQueue.push
  dsimp only
  rw [assert_of last, ok_bind]
  by_cases whole : (q.node q.back).elements.length = queueMaxArraySize - 1
  · have fills : (q.node q.back).elements.length + 1 = queueMaxArraySize := by omega
    refine ⟨_, if_pos whole, ?_, ?_, ?_, ?_, holds.cursor, ?_, by simp [holds.size]⟩
    · rw [holds.set_back]
      simpa using packed.fill (some a) fills
    · intro i inside
      rw [List.length_append, List.length_set] at inside
      simp only [List.length_append, List.length_set, List.length_singleton] at inside ⊢
      rcases Nat.lt_trichotomy i q.back with before | rfl | behind
      · have links := holds.links i (by omega)
        rw [if_pos (by omega)] at links ⊢
        rw [← links, node, List.getElem?_append_left (by simp; omega), List.getElem?_set_ne (by omega)]
        rfl
      · rw [if_pos (by omega), node, List.getElem?_append_left (by simp; omega),
          List.getElem?_set_self (by omega), back]
        rfl
      · obtain rfl : i = q.nodes.length := by omega
        rw [if_neg (by omega), node, List.getElem?_append_right (by simp)]
        simp
    · simp
    · have front := holds.front
      show q.front ≤ q.nodes.length
      omega
    · rw [SimpleQueue.places, holds.set_back]
      simp only [List.map_append, List.map_singleton, List.flatten_append, List.flatten_singleton, List.append_nil]
      rw [← List.append_assoc, places, List.append_assoc]
  · have grows : (q.node q.back).elements.length + 1 < queueMaxArraySize := by omega
    refine ⟨_, if_neg whole, ?_, ?_, ?_, holds.front, holds.cursor, ?_, by simp [holds.size]⟩
    · rw [holds.set_back]
      simpa using packed.grow (some a) grows
    · intro i inside
      rw [List.length_set] at inside ⊢
      rw [← holds.links i inside]
      by_cases here : i = q.back
      · rw [here, node, List.getElem?_set_self (by omega)]
        rfl
      · rw [node, List.getElem?_set_ne (Ne.symm here)]
        rfl
    · simp [back]
    · rw [SimpleQueue.places, holds.set_back]
      simp only [List.map_append, List.map_singleton, List.flatten_append, List.flatten_singleton]
      rw [← List.append_assoc, places, List.append_assoc]

theorem shift (holds : Holds q (a :: l)) : ∃ q', q.shift = .ok (some a, q') ∧ Holds q' l := by
  have back := holds.back
  have front := holds.front
  have filled : 0 < q.size := by simp [holds.size]
  have occupied : q.cursor < (q.node q.front).elements.length := by
    by_contra beyond
    have there := holds.getElem?_cursor
    rw [List.getElem?_eq_none (by omega)] at there
    simp at there
  let n : Node α := { q.node q.front with elements := (q.node q.front).elements.set q.cursor none }
  have cleared : (q.nodes.set q.front n).map Node.elements = (q.nodes.map Node.elements).set q.front
      (((q.nodes.map Node.elements)[q.front]?.getD []).set q.cursor none) := by
    rw [List.map_set, ← elements_node]
  have links : ∀ (q' : SimpleQueue α), q'.nodes = q.nodes.set q.front n → ∀ i, i < q'.nodes.length →
      (q'.node i).next = if i + 1 < q'.nodes.length then some (i + 1) else none := by
    intro q' nodes i inside
    rw [nodes, List.length_set] at inside ⊢
    rw [← holds.links i inside, node, nodes]
    by_cases here : i = q.front
    · rw [here, List.getElem?_set_self (by omega)]
      rfl
    · rw [List.getElem?_set_ne (Ne.symm here)]
      rfl
  have places : ((q.nodes.set q.front n).map Node.elements).flatten =
      List.replicate (q.front * queueMaxArraySize + q.cursor + 1) none ++ l.map some := by
    rw [cleared, holds.packed.flatten_set _ holds.cursor]
    have places := holds.places
    rw [SimpleQueue.places] at places
    rw [places, List.set_append_right _ _ (by simp), List.replicate_succ', List.append_assoc]
    simp
  have packed : Packed queueMaxArraySize ((q.nodes.set q.front n).map Node.elements) := by
    rw [cleared]
    exact holds.packed.set _ _ _
  have size : q.size - 1 = l.length := by simp [holds.size]
  unfold SimpleQueue.shift
  dsimp only
  rw [assert_of filled, ok_bind, holds.element_cursor]
  by_cases turns : q.cursor + 1 = queueMaxArraySize
  · have more : q.front < q.back := by
      by_contra last
      have short := (holds.elements_length q.front).2 (by omega)
      omega
    have length := (holds.elements_length q.front).1 more
    have next : (q.node q.front).next = some (q.front + 1) := by rw [holds.next_eq front, if_pos more]
    rw [if_pos turns, assert_of length, ok_bind]
    refine ⟨{ q with nodes := q.nodes.set q.front n, size := q.size - 1, cursor := 0, front := q.front + 1 }, ?_,
      packed, links _ rfl, ?_, more, queueMaxArraySize_pos, ?_, size⟩
    · simp only [next, n]
      rfl
    · simpa using back
    · rw [SimpleQueue.places, places, Nat.add_assoc, turns, Nat.add_zero, Nat.succ_mul]
  · rw [if_neg turns]
    refine ⟨_, rfl, packed, links _ rfl, ?_, front, ?_, ?_, size⟩
    · simpa using back
    · have cursor := holds.cursor
      show q.cursor + 1 < queueMaxArraySize
      omega
    · rw [SimpleQueue.places, places, Nat.add_assoc]

theorem peek (holds : Holds q (a :: l)) : q.peek = .ok (some a) := by
  have filled : 0 < q.size := by simp [holds.size]
  rw [SimpleQueue.peek, assert_of filled, ok_bind, holds.element_cursor]
  rfl

theorem drop_of_getElem? {β : Type} {l : List β} {b : β} {i : Nat} (there : l[i]? = some b) :
    l.drop i = b :: l.drop (i + 1) := by
  obtain ⟨inside, rfl⟩ := List.getElem?_eq_some_iff.mp there
  exact List.drop_eq_getElem_cons inside

/-- The loop of `forEach` passes the places from where it is to the callback. -/
theorem forEachFrom (holds : Holds q l) (fuel i n : Nat) (visited : List (Option α)) (inside : n ≤ q.back)
    (within : i ≤ (q.node n).elements.length)
    (enough : (q.places.drop (n * queueMaxArraySize + i)).length < fuel) :
    q.forEachFrom fuel i n visited = some (.done (visited ++ q.places.drop (n * queueMaxArraySize + i))) := by
  induction fuel generalizing i n visited with
  | zero => exact absurd enough (Nat.not_lt_zero _)
  | succ fuel ih =>
    have back := holds.back
    have length := holds.elements_length n
    unfold SimpleQueue.forEachFrom
    dsimp only
    by_cases ended : i = (q.node n).elements.length
    · rw [if_neg (not_not.mpr ended), holds.next_eq inside]
      by_cases more : n < q.back
      · have whole : i = queueMaxArraySize := ended.trans (length.1 more)
        have first : q.places[n * queueMaxArraySize + i]? = (q.node (n + 1)).elements[0]? := by
          rw [← holds.getElem?_places (n + 1) queueMaxArraySize_pos, whole, Nat.succ_mul, Nat.add_zero]
        simp only [if_pos more, if_neg (not_not.mpr whole)]
        cases elements : (q.node (n + 1)).elements with
        | nil =>
          rw [elements, List.getElem?_nil] at first
          rw [List.drop_eq_nil_of_le (List.getElem?_eq_none_iff.mp first), List.append_nil]
          rfl
        | cons e es =>
          have behind : q.places.drop (n * queueMaxArraySize + i) =
              e :: q.places.drop ((n + 1) * queueMaxArraySize + 1) := by
            rw [elements, List.getElem?_cons_zero] at first
            rw [drop_of_getElem? first, whole, Nat.succ_mul]
          rw [behind] at enough ⊢
          rw [if_neg (by simp), ih 1 (n + 1) _ more (by simp [elements]) (by simpa using enough), Node.element,
            elements]
          simp
      · have short := length.2 (by omega)
        have beyond : q.places[n * queueMaxArraySize + i]? = none := by
          rw [holds.getElem?_places n (by omega), List.getElem?_eq_none (by omega)]
        simp only [if_neg more]
        rw [List.drop_eq_nil_of_le (List.getElem?_eq_none_iff.mp beyond), List.append_nil]
    · have here : i < (q.node n).elements.length := by omega
      have bound : i < queueMaxArraySize := by
        rcases Nat.lt_or_ge n q.back with before | last
        · exact lt_of_lt_of_eq here (length.1 before)
        · exact here.trans (length.2 (by omega))
      have there := holds.getElem?_places n bound
      rw [List.getElem?_eq_getElem here] at there
      have behind := drop_of_getElem? there
      rw [Nat.add_assoc] at behind
      rw [behind] at enough ⊢
      rw [if_pos ended, ih (i + 1) n _ inside here (by simpa using enough), Node.element,
        List.getElem?_eq_getElem here]
      simp

/-- `forEach` passes the elements to the callback, from the front to the back. -/
theorem forEach (holds : Holds q l) : q.forEach = some (.done (l.map some)) := by
  have within : q.cursor ≤ (q.node q.front).elements.length := by
    cases cursor : q.cursor with
    | zero => exact Nat.zero_le _
    | succ i =>
      have bound := holds.cursor
      have shifted : q.places[q.front * queueMaxArraySize + i]? = some none := by
        rw [holds.places, List.getElem?_append_left (by simp [cursor])]
        simp [cursor]
      rw [holds.getElem?_places _ (by omega)] at shifted
      exact (List.getElem?_eq_some_iff.mp shifted).1
  have rest : q.places.drop (q.front * queueMaxArraySize + q.cursor) = l.map some := by
    rw [holds.places, List.drop_left' (by simp)]
  rw [SimpleQueue.forEach, holds.forEachFrom _ _ _ _ holds.front within (by simp [rest, holds.size]), rest]
  rfl

end Holds

/-! ## Programs -/

/-- Each use answers as the list does. -/
theorem perform_of_holds (holds : Holds q l) (op : QueueOp α) :
    (q.perform op).1 = (performList l op).1 ∧ Holds (q.perform op).2 (performList l op).2 := by
  cases op with
  | push a =>
    obtain ⟨q', done, holds'⟩ := holds.push a
    rw [perform, done]
    exact ⟨rfl, holds'⟩
  | length =>
    refine ⟨?_, holds⟩
    rw [perform, performList, holds.size]
  | forEach =>
    refine ⟨?_, holds⟩
    rw [perform, performList, holds.forEach]
  | shift =>
    cases l with
    | nil =>
      have empty : ¬ 0 < q.size := by simp [holds.size]
      have fails : q.shift = .error .assertionError := by simp [SimpleQueue.shift, assert, empty]; rfl
      rw [perform, fails]
      exact ⟨rfl, holds⟩
    | cons a l =>
      obtain ⟨q', done, holds'⟩ := holds.shift
      rw [perform, done]
      exact ⟨rfl, holds'⟩
  | peek =>
    cases l with
    | nil =>
      have empty : ¬ 0 < q.size := by simp [holds.size]
      have fails : q.peek = .error .assertionError := by simp [SimpleQueue.peek, assert, empty]; rfl
      rw [perform, fails]
      exact ⟨rfl, holds⟩
    | cons a l =>
      rw [perform, holds.peek]
      exact ⟨rfl, holds⟩
  | next =>
    cases l with
    | nil =>
      have empty : q.size = 0 := holds.size
      rw [perform, if_pos empty]
      exact ⟨rfl, holds⟩
    | cons a l =>
      obtain ⟨q', done, holds'⟩ := holds.shift
      rw [perform, if_neg (by simp [holds.size]), done]
      exact ⟨rfl, holds'⟩

/-- So does a program. -/
theorem answers_of_holds (holds : Holds q l) (ops : List (QueueOp α)) :
    (answers perform q ops).1 = (answers performList l ops).1 ∧
      Holds (answers perform q ops).2 (answers performList l ops).2 := by
  induction ops generalizing q l with
  | nil => exact ⟨rfl, holds⟩
  | cons op ops ih =>
    obtain ⟨same, holds'⟩ := perform_of_holds holds op
    obtain ⟨rest, held⟩ := ih holds'
    refine ⟨?_, held⟩
    rw [answers, answers]
    dsimp only
    rw [rest, same]

/-- The queue cannot be told from a list: in every program each use has the answer that it has on the list, and it
throws where the list is empty only. -/
theorem answers_eq_list (ops : List (QueueOp α)) :
    (answers perform (new : SimpleQueue α) ops).1 = (answers performList [] ops).1 :=
  (answers_of_holds holds_new ops).1

/-- From a node on all that were made behind it are reached. -/
theorem Holds.reachableFrom_eq (holds : Holds q l) : ∀ (fuel i : Nat), i < q.nodes.length →
    q.nodes.length - i ≤ fuel → q.reachableFrom fuel (some i) = (q.nodes.drop i).flatMap Node.elements := by
  intro fuel
  induction fuel with
  | zero =>
    intro i inside enough
    omega
  | succ fuel ih =>
    intro i inside enough
    have here : q.node i = q.nodes[i] := by rw [node, List.getElem?_eq_getElem inside, Option.getD_some]
    rw [reachableFrom, holds.links i inside, List.drop_eq_getElem_cons inside, List.flatMap_cons, here]
    congr 1
    split
    · rename_i more
      exact ih (i + 1) more (by omega)
    · rename_i last
      rw [List.drop_eq_nil_iff.mpr (by omega)]
      cases fuel <;> rfl

/-- What was shifted is not kept: from the front on there are the elements and no more than the places of one node
that are `undefined`. -/
theorem reachable_eq (ops : List (QueueOp α)) :
    ∃ shifted, shifted < queueMaxArraySize ∧ (answers perform (new : SimpleQueue α) ops).2.reachable =
      List.replicate shifted none ++ (answers performList [] ops).2.map some := by
  obtain ⟨-, holds⟩ := answers_of_holds (holds_new : Holds (new : SimpleQueue α) []) ops
  generalize (answers perform (new : SimpleQueue α) ops).2 = q at holds
  have back := holds.back
  have front := holds.front
  have inside : q.front < (q.nodes.map Node.elements).length := by
    rw [List.length_map]
    omega
  have places := holds.places
  rw [SimpleQueue.places] at places
  refine ⟨q.cursor, holds.cursor, ?_⟩
  rw [reachable, holds.reachableFrom_eq _ _ (by simpa using inside) (Nat.sub_le _ _), List.flatMap_def, List.map_drop, holds.packed.flatten_drop inside, places, List.replicate_add,
    List.append_assoc, List.drop_left' (by simp)]

end SimpleQueue

end QjsLws.Streams
