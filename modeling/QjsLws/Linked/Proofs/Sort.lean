import QjsLws.Misc.MergePasses
import QjsLws.Linked.Proofs.Ring

/-!
# Sorting a ring

In a pass the nodes that were not yet taken keep their `next` pointers, and the last of them leads to the old
first node. What was taken is linked in its new order. So each loop of `__list_sort` does what its counterpart
on lists does.
-/

namespace QjsLws.Linked

open Misc Script

variable {α : Type}

/-! ## What is not yet taken -/

section Remaining

variable {h h' : Heap α} {o x : Ref} {xs ys rest : List Ref}

/-- Past the first node, to `null` in place of the old first node. -/
theorem runs_advance (onward : Onward h (x :: xs) o) (absent : o ∉ xs) :
    Runs (advance (some x) (some o)) h xs.head? h := by
  refine (runs_next h x).bind ?_
  rw [onward.1]
  cases xs with
  | nil =>
    rw [List.nil_append, List.head?_cons, if_pos rfl]
    exact runs_pure none h
  | cons y xs =>
    have other : (some y : Pointer) ≠ some o := by
      intro same
      exact absent (by simp [Option.some.inj same])
    rw [List.cons_append, List.head?_cons, if_neg other]
    exact runs_pure (some y) h

/-- Past the first node of a run: behind the last one the pointer does not matter. -/
theorem exists_advance {c : Ref} (onward : Onward h (x :: xs) c) (absent : o ∉ xs) :
    ∃ p, Runs (advance (some x) (some o)) h p h ∧ (xs ≠ [] → p = xs.head?) := by
  refine ⟨_, (runs_next h x).bind (runs_pure _ h), fun more => ?_⟩
  obtain ⟨y, xs, rfl⟩ := List.exists_cons_of_ne_nil more
  rw [onward.1]
  refine if_neg fun same => absent ?_
  simp [Option.some.inj same]

/-- The loop that counts the first run. -/
theorem runs_stepRun (turns psize : Nat) (onward : Onward h (x :: xs) o) (absent : o ∉ xs) :
    Runs (stepRun (some o) turns (some x) psize) h
      (((x :: xs).drop turns).head?, psize + min turns (x :: xs).length) h := by
  induction turns generalizing x xs psize with
  | zero => exact runs_pure _ h
  | succ turns ih =>
    refine (runs_advance onward absent).bind ?_
    cases xs with
    | nil =>
      have count : min (turns + 1) [x].length = 1 := by simp
      rw [count, List.drop_eq_nil_of_le (by simp)]
      exact runs_pure _ h
    | cons y xs =>
      have later := ih (psize + 1) onward.2 fun member => absent (List.mem_cons_of_mem _ member)
      rw [List.head?_cons, if_neg (by simp)]
      have count : psize + min (turns + 1) (x :: y :: xs).length =
          psize + 1 + min turns (y :: xs).length := by
        simp only [List.length_cons]
        omega
      rw [count]
      exact later

end Remaining

/-! ## What was taken -/

section Taken

variable {h h' : Heap α} {o e : Ref} {out xs ys : List Ref} {list tail p : Pointer}

/-- The nodes between `list` and `tail`. -/
structure Built (h : Heap α) (out : List Ref) (list tail : Pointer) : Prop where
  list : list = out.head?
  tail : tail = out.getLast?
  chain : out.IsChain (Link h)

theorem runs_appendTail (built : Built h out list tail) (nodup : (out ++ [e]).Nodup) :
    ∃ list' h', Runs (appendTail (some e) list tail) h (list', some e) h' ∧ Built h' (out ++ [e]) list' (some e) ∧
      Touches (out ++ [e]) h h' := by
  obtain ⟨rfl, rfl, chain⟩ := built
  rcases List.eq_nil_or_concat' out with rfl | ⟨out, t, rfl⟩
  · refine ⟨some e, { h with prev := Function.update h.prev e none }, rfl, ⟨rfl, rfl, .singleton e⟩, ?_⟩
    exact ⟨fun _ _ => rfl, fun x outside => Function.update_of_ne (by simpa using outside) .., rfl, rfl⟩
  · have last : (out ++ [t]).getLast? = some t := List.getLast?_concat
    have fresh : e ∉ out ++ [t] := fun member => (List.nodup_append.mp nodup).2.2 e member e (by simp) rfl
    refine ⟨(out ++ [t]).head?, h.link t e, ?_, ⟨?_, List.getLast?_concat.symm, ?_⟩, ?_⟩
    · rw [last]
      rfl
    · cases out <;> rfl
    · rw [List.append_assoc, List.singleton_append, List.isChain_append_cons_cons]
      refine ⟨isChain_link ?_ ?_ chain, link_link h t e, .singleton e⟩
      · rw [List.dropLast_concat]
        intro member
        exact (List.nodup_append.mp (List.nodup_append.mp nodup).1).2.2 t member t (by simp) rfl
      · exact fun member => fresh (List.mem_of_mem_tail member)
    · exact touches_link (by simp) (by simp)

end Taken

/-! ## Merging two runs -/

/-- `cmp(a, b) <= 0`. -/
def below (cmp : Ref → Ref → Int) (a b : Ref) : Bool := decide (cmp a b ≤ 0)

section Merging

variable {cmp : Ref → Ref → Int} {h : Heap α} {o c : Ref} {out xs later : List Ref} {list tail p : Pointer}
  {qsize : Nat}

/-- The loop that merges: the nodes of the first run, and those from the second run on, are not yet taken. -/
structure Merging (h : Heap α) (o : Ref) (out xs later : List Ref) (p list tail : Pointer) : Prop where
  nodup : (out ++ (xs ++ later)).Nodup
  run : ∃ c, Onward h xs c
  onward : Onward h later o
  run_absent : o ∉ xs.tail
  absent : o ∉ later
  first : xs ≠ [] → p = xs.head?
  built : Built h out list tail

theorem merging_left {x : Ref} {xs : List Ref} (state : Merging h o out (x :: xs) later p list tail) :
    ∃ p' list' h', Runs (advance p (some o)) h p' h ∧
      Runs (appendTail p list tail) h (list', some x) h' ∧
      Merging h' o (out ++ [x]) xs later p' list' (some x) ∧ Touches (out ++ [x]) h h' := by
  obtain ⟨nodup, ⟨c, run⟩, onward, runAbsent, absent, first, built⟩ := state
  obtain rfl : p = some x := first (List.cons_ne_nil x xs)
  obtain ⟨p', advanced, next⟩ := exists_advance run runAbsent
  have moved : (out ++ [x] ++ (xs ++ later)).Nodup := by
    rw [List.append_assoc]
    exact nodup
  obtain ⟨list', h', appended, built', touches⟩ := runs_appendTail built (List.nodup_append.mp moved).1
  have outside : ∀ y ∈ xs ++ later, y ∉ out ++ [x] := fun y member taken =>
    (List.nodup_append.mp moved).2.2 y taken y member rfl
  refine ⟨p', list', h', advanced, appended, ⟨moved, ⟨c, ?_⟩, ?_, ?_, absent, next, built'⟩, touches⟩
  · exact run.2.congr fun y member => touches.next y (outside y (List.mem_append_left _ member))
  · exact onward.congr fun y member => touches.next y (outside y (List.mem_append_right _ member))
  · exact fun member => runAbsent (List.mem_of_mem_tail member)

theorem merging_right {y : Ref} {later : List Ref} (state : Merging h o out xs (y :: later) p list tail) :
    ∃ list' h', Runs (advance (some y) (some o)) h later.head? h ∧
      Runs (appendTail (some y) list tail) h (list', some y) h' ∧
      Merging h' o (out ++ [y]) xs later p list' (some y) ∧ Touches (out ++ [y]) h h' := by
  obtain ⟨nodup, ⟨c, run⟩, onward, runAbsent, absent, first, built⟩ := state
  have advanced := runs_advance onward fun member => absent (List.mem_cons_of_mem _ member)
  have moved : (out ++ [y] ++ (xs ++ later)).Nodup := by
    have perm : (out ++ [y] ++ (xs ++ later)).Perm (out ++ (xs ++ y :: later)) := by
      rw [List.append_assoc, List.singleton_append]
      exact List.perm_middle.symm.append_left out
    exact perm.nodup_iff.mpr nodup
  obtain ⟨list', h', appended, built', touches⟩ := runs_appendTail built (List.nodup_append.mp moved).1
  have outside : ∀ x ∈ xs ++ later, x ∉ out ++ [y] := fun x member taken =>
    (List.nodup_append.mp moved).2.2 x taken x member rfl
  refine ⟨list', h', advanced, appended, ⟨moved, ⟨c, ?_⟩, ?_, runAbsent, ?_, first, built'⟩, touches⟩
  · exact run.congr fun x member => touches.next x (outside x (List.mem_append_left _ member))
  · exact onward.2.congr fun x member => touches.next x (outside x (List.mem_append_right _ member))
  · exact fun member => absent (List.mem_cons_of_mem _ member)

/-- What the rest of the loop is to do. -/
def Merges (cmp : Ref → Ref → Int) (h : Heap α) (o : Ref) (out xs later : List Ref) (p list tail : Pointer)
    (qsize : Nat) : Prop :=
  ∃ list' tail' h', Runs (mergeRuns cmp (some o) p xs.length later.head? qsize list tail) h
      ((later.drop qsize).head?, list', tail') h' ∧
    Merging h' o (out ++ xs.merge (later.take qsize) (below cmp)) [] (later.drop qsize) none list' tail' ∧
    Touches (out ++ (xs ++ later.take qsize)) h h'

/-- Nothing is left of the two runs. -/
theorem merges_stop (state : Merging h o out [] later p list tail) (stop : qsize = 0 ∨ later = []) :
    Merges cmp h o out [] later p list tail qsize := by
  have none : later.take qsize = [] ∧ later.drop qsize = later := by
    rcases stop with rfl | rfl
    · exact ⟨rfl, rfl⟩
    · exact ⟨List.take_nil, List.drop_nil⟩
  have ended : ¬(([] : List Ref).length > 0 ∨ qsize > 0 ∧ later.head? ≠ Option.none) := by
    rcases stop with rfl | rfl <;> simp
  refine ⟨list, tail, h, ?_, ?_, Touches.refl _ h⟩
  · rw [mergeRuns, dif_neg ended, none.2]
    exact runs_pure _ h
  · rw [none.1, none.2, List.merge_right, List.append_nil]
    exact ⟨state.nodup, state.run, state.onward, state.run_absent, state.absent, nofun, state.built⟩

/-- After a node of the first run. -/
theorem merges_left {x : Ref} {xs : List Ref} {m : Script α (Pointer × Pointer × Pointer)} {ys : List Ref}
    (state : Merging h o out (x :: xs) later p list tail)
    (rest : ∀ p list (h' : Heap α), Merging h' o (out ++ [x]) xs later p list (some x) →
      Merges cmp h' o (out ++ [x]) xs later p list (some x) qsize)
    (taken : ys = later.take qsize) (merged : (x :: xs).merge ys (below cmp) = x :: xs.merge ys (below cmp))
    (unfolded : m = (do
      let p' ← advance p (some o)
      let (list, tail) ← appendTail p list tail
      mergeRuns cmp (some o) p' xs.length later.head? qsize list tail)) :
    ∃ list' tail' h', Runs m h ((later.drop qsize).head?, list', tail') h' ∧
      Merging h' o (out ++ (x :: xs).merge ys (below cmp)) [] (later.drop qsize) none list' tail' ∧
      Touches (out ++ (x :: xs ++ ys)) h h' := by
  obtain ⟨p', list', h₁, advanced, appended, state', touches⟩ := merging_left state
  obtain ⟨list'', tail', h', ran, final, touches'⟩ := rest p' list' h₁ state'
  refine ⟨list'', tail', h', ?_, ?_, ?_⟩
  · rw [unfolded]
    exact advanced.bind (appended.bind ran)
  · rw [← taken] at final
    rw [merged, List.append_cons]
    exact final
  · rw [← taken] at touches'
    refine (touches.mono fun y member => ?_).trans (touches'.mono fun y member => ?_)
    · simp at member ⊢
      tauto
    · simp at member ⊢
      tauto

/-- After a node of the second run. -/
theorem merges_right {y : Ref} {later : List Ref} {m : Script α (Pointer × Pointer × Pointer)}
    (state : Merging h o out xs (y :: later) p list tail)
    (rest : ∀ list (h' : Heap α), Merging h' o (out ++ [y]) xs later p list (some y) →
      Merges cmp h' o (out ++ [y]) xs later p list (some y) qsize)
    (merged : xs.merge (y :: later.take qsize) (below cmp) = y :: xs.merge (later.take qsize) (below cmp))
    (unfolded : m = (do
      let q ← advance (some y) (some o)
      let (list, tail) ← appendTail (some y) list tail
      mergeRuns cmp (some o) p xs.length q qsize list tail)) :
    ∃ list' tail' h', Runs m h ((later.drop qsize).head?, list', tail') h' ∧
      Merging h' o (out ++ xs.merge (y :: later.take qsize) (below cmp)) [] (later.drop qsize) none list' tail' ∧
      Touches (out ++ (xs ++ y :: later.take qsize)) h h' := by
  obtain ⟨list', h₁, advanced, appended, state', touches⟩ := merging_right state
  obtain ⟨list'', tail', h', ran, final, touches'⟩ := rest list' h₁ state'
  refine ⟨list'', tail', h', ?_, ?_, ?_⟩
  · rw [unfolded]
    exact advanced.bind (appended.bind ran)
  · rw [merged, List.append_cons]
    exact final
  · refine (touches.mono fun x member => ?_).trans (touches'.mono fun x member => ?_)
    · simp at member ⊢
      tauto
    · simp at member ⊢
      tauto

theorem runs_mergeRuns (n : Nat) : ∀ (h : Heap α) (out xs later : List Ref) (p list tail : Pointer) (qsize : Nat),
    xs.length + qsize = n → Merging h o out xs later p list tail →
      Merges cmp h o out xs later p list tail qsize := by
  induction n with
  | zero =>
    intro h out xs later p list tail qsize size state
    obtain ⟨rfl, rfl⟩ : xs = [] ∧ qsize = 0 := ⟨List.length_eq_zero_iff.mp (by omega), by omega⟩
    exact merges_stop state (.inl rfl)
  | succ n ih =>
    intro h out xs later p list tail qsize size state
    unfold Merges
    cases xs with
    | nil =>
      cases later with
      | nil => exact merges_stop state (.inr rfl)
      | cons y later =>
        obtain ⟨t, rfl⟩ : ∃ t, qsize = t + 1 := ⟨qsize - 1, by simp at size; omega⟩
        rw [List.take_succ_cons, List.drop_succ_cons]
        refine merges_right state (fun list h' state' => ih h' _ _ _ _ _ _ t (by simp at size ⊢; omega) state')
          (by rw [List.nil_merge, List.nil_merge]) ?_
        rw [mergeRuns, dif_pos (.inr ⟨Nat.succ_pos t, by simp⟩), dif_pos List.length_nil]
        rfl
    | cons x xs =>
      by_cases single : qsize = 0 ∨ later.head? = none
      · have none : later.take qsize = [] := by
          rcases single with rfl | empty
          · exact List.take_zero
          · rw [List.head?_eq_none_iff.mp empty, List.take_nil]
        rw [none]
        refine merges_left state (fun p list h' state' => ih h' _ _ _ _ _ _ _ (by simp at size ⊢; omega) state')
          none.symm (by rw [List.merge_right, List.merge_right]) ?_
        rw [mergeRuns, dif_pos (.inl (Nat.succ_pos _)), dif_neg (by simp), dif_pos single]
        rfl
      · rw [not_or] at single
        obtain ⟨y, later, rfl⟩ : ∃ y rest, later = y :: rest := List.exists_cons_of_ne_nil (by
          rintro rfl
          exact single.2 rfl)
        obtain ⟨t, rfl⟩ : ∃ t, qsize = t + 1 := Nat.exists_eq_succ_of_ne_zero single.1
        obtain rfl : p = some x := state.first (List.cons_ne_nil x xs)
        by_cases least : cmp x y ≤ 0
        · refine merges_left state
            (fun p list h' state' => ih h' _ _ _ _ _ _ _ (by simp at size ⊢; omega) state') rfl ?_ ?_
          · rw [List.take_succ_cons]
            exact List.cons_merge_cons_pos _ _ _ (decide_eq_true least)
          · rw [mergeRuns, dif_pos (.inl (Nat.succ_pos _)), dif_neg (by simp), dif_neg (by simp)]
            exact if_pos least
        · rw [List.take_succ_cons, List.drop_succ_cons]
          refine merges_right state (fun list h' state' => ih h' _ _ _ _ _ _ t (by simp at size ⊢; omega) state') ?_ ?_
          · exact List.cons_merge_cons_neg _ _ _ (by simpa [below] using least)
          · rw [mergeRuns, dif_pos (.inl (Nat.succ_pos _)), dif_neg (by simp), dif_neg (by simp)]
            exact if_neg least

end Merging

/-! ## A pass -/

section Passing

variable {cmp : Ref → Ref → Int} {h : Heap α} {o x : Ref} {out later : List Ref} {list tail : Pointer}
  {insize : Nat}

/-- The loop of a pass: what was taken, and what was not. -/
structure Passing (h : Heap α) (o : Ref) (out later : List Ref) (list tail : Pointer) : Prop where
  nodup : (out ++ later).Nodup
  onward : Onward h later o
  absent : o ∉ later.tail
  built : Built h out list tail

theorem merging_of_passing (state : Passing h o out (x :: later) list tail) (size : 0 < insize) :
    Merging h o out ((x :: later).take insize) ((x :: later).drop insize) (some x) list tail := by
  obtain ⟨k, rfl⟩ : ∃ k, insize = k + 1 := ⟨insize - 1, by omega⟩
  obtain ⟨nodup, onward, absent, built⟩ := state
  have split := List.take_append_drop (k + 1) (x :: later)
  obtain ⟨c, first⟩ := exists_head ((x :: later).drop (k + 1)) o
  rw [← split, onward_append first] at onward
  refine ⟨by rwa [split], ⟨c, onward.1⟩, onward.2, ?_, ?_, fun _ => rfl, built⟩
  · rw [List.take_succ_cons]
    exact fun member => absent (List.take_subset _ _ member)
  · rw [List.drop_succ_cons]
    exact fun member => absent (List.drop_subset _ _ member)

/-- One turn of the loop. -/
theorem runs_turn (state : Passing h o out (x :: later) list tail) (size : 0 < insize) :
    ∃ q psize list' tail' h', Runs (stepRun (some o) insize (some x) 0) h (q, psize) h ∧
      Runs (mergeRuns cmp (some o) (some x) psize q insize list tail) h
        ((((x :: later).drop insize).drop insize).head?, list', tail') h' ∧
      Passing h' o (out ++ ((x :: later).take insize).merge (((x :: later).drop insize).take insize) (below cmp))
        (((x :: later).drop insize).drop insize) list' tail' ∧ Touches (out ++ (x :: later)) h h' := by
  have counted := runs_stepRun insize 0 state.onward state.absent
  obtain ⟨list', tail', h', merged, final, touches⟩ := @runs_mergeRuns α cmp o _ h out _ _ _ list tail insize rfl
    (merging_of_passing state size)
  rw [Nat.zero_add, ← List.length_take] at counted
  refine ⟨_, _, list', tail', h', counted, merged, ?_, touches.mono fun y member => ?_⟩
  · have nodup := final.nodup
    rw [List.nil_append] at nodup
    exact ⟨nodup, final.onward, fun member => final.absent (List.mem_of_mem_tail member), final.built⟩
  · rcases List.mem_append.mp member with taken | rest
    · exact List.mem_append_left _ taken
    · refine List.mem_append_right _ ?_
      rcases List.mem_append.mp rest with first | second
      · exact List.take_subset _ _ first
      · exact List.drop_subset _ _ (List.take_subset _ _ second)

theorem pass_turn {out : List Ref} {n : Nat} (size : 0 < insize)
    (pass : Pass (below cmp) insize (((x :: later).drop insize).drop insize) n out) :
    Pass (below cmp) insize (x :: later) (n + 1)
      (((x :: later).take insize).merge (((x :: later).drop insize).take insize) (below cmp) ++ out) := by
  have split : (x :: later).take insize ++ (((x :: later).drop insize).take insize ++
      ((x :: later).drop insize).drop insize) = x :: later := by
    rw [List.take_append_drop, List.take_append_drop]
  have some : (x :: later).take insize ≠ [] := by
    obtain ⟨k, rfl⟩ : ∃ k, insize = k + 1 := ⟨insize - 1, by omega⟩
    exact List.cons_ne_nil _ _
  have merged := Pass.merge some (List.length_take_le _ _)
    (List.length_take_le insize ((x :: later).drop insize)) ?_ ?_ pass
  · rw [split] at merged
    exact merged
  · intro short
    rw [List.length_take] at short
    rw [List.take_append_drop]
    exact List.drop_eq_nil_of_le (by omega)
  · intro short
    rw [List.length_take] at short
    exact List.drop_eq_nil_of_le (by omega)

/-- A pass, with turns for all of its merges. -/
theorem runs_passLoop (size : 0 < insize) (turns : Nat) : ∀ (h : Heap α) (out later : List Ref)
    (nmerges : Nat) (list tail : Pointer), later.length ≤ turns → Passing h o out later list tail →
    ∃ n out' list' tail' h', Pass (below cmp) insize later n out' ∧
      Runs (passLoop cmp insize (some o) turns later.head? nmerges list tail) h (nmerges + n, list', tail') h' ∧
      Built h' (out ++ out') list' tail' ∧ Touches (out ++ later) h h' := by
  induction turns with
  | zero =>
    intro h out later nmerges list tail short state
    obtain rfl : later = [] := List.length_eq_zero_iff.mp (Nat.le_zero.mp short)
    refine ⟨0, [], list, tail, h, .done, runs_pure _ h, ?_, .refl _ h⟩
    rw [List.append_nil]
    exact state.built
  | succ turns ih =>
    intro h out later nmerges list tail short state
    cases later with
    | nil =>
      refine ⟨0, [], list, tail, h, .done, runs_pure _ h, ?_, .refl _ h⟩
      rw [List.append_nil]
      exact state.built
    | cons x later =>
      obtain ⟨q, psize, list₁, tail₁, h₁, counted, merged, state', touches⟩ :=
        @runs_turn α cmp h o x out later list tail insize state size
      have fewer : (((x :: later).drop insize).drop insize).length ≤ turns := by
        rw [List.length_drop, List.length_drop]
        omega
      obtain ⟨n, out', list', tail', h', pass, ran, built, touches'⟩ := ih h₁ _ _ (nmerges + 1) _ _ fewer state'
      refine ⟨n + 1, _, list', tail', h', pass_turn size pass, ?_, ?_, ?_⟩
      · rw [Nat.add_right_comm] at ran
        exact counted.bind (merged.bind ran)
      · rw [← List.append_assoc]
        exact built
      · refine touches.trans (touches'.mono fun y member => ?_)
        rw [List.mem_append, List.mem_append, List.mem_merge] at member
        rw [List.mem_append]
        rcases member with (taken | first | second) | rest
        · exact .inl taken
        · exact .inr (List.take_subset _ _ first)
        · exact .inr (List.drop_subset _ _ (List.take_subset _ _ second))
        · exact .inr (List.drop_subset _ _ (List.drop_subset _ _ rest))

end Passing

/-! ## All passes -/

section Sorting

variable {cmp : Ref → Ref → Int} {h : Heap α} {head a l t : Ref} {out rest nodes : List Ref} {bound insize : Nat}

/-- The last node is linked to the first. -/
theorem ring_close (nodup : (l :: out).Nodup) (chain : (l :: out).IsChain (Link h))
    (last : (l :: out).getLast? = some t) : Ring (h.link t l) l out := by
  obtain ⟨front, shape⟩ := List.getLast?_eq_some_iff.mp last
  refine ⟨nodup, ?_⟩
  rw [shape, List.append_assoc, List.singleton_append, List.isChain_append_cons_cons]
  refine ⟨isChain_link ?_ ?_ ?_, link_link h t l, .singleton l⟩
  · rw [List.dropLast_concat]
    rw [shape] at nodup
    exact fun member => (List.nodup_append.mp nodup).2.2 t member t (by simp) rfl
  · rw [← shape]
    exact (List.nodup_cons.mp nodup).1
  · rw [← shape]
    exact chain

theorem passing_of_ring (ring : Ring h a rest) : Passing h a [] (a :: rest) none none where
  nodup := ring.nodup
  onward := onward_of_chain ring.chain
  absent := (List.nodup_cons.mp ring.nodup).1
  built := ⟨rfl, rfl, .nil⟩

/-- One pass over a ring. -/
theorem runs_pass (size : 0 < insize) (enough : (a :: rest).length ≤ bound) (ring : Ring h a rest) :
    ∃ n l t out h', Pass (below cmp) insize (a :: rest) n (l :: out) ∧
      Runs (passLoop cmp insize (some a) bound (some a) 0 none none) h (n, some l, some t) h' ∧
      Ring (h'.link t l) l out ∧ Touches (a :: rest) h (h'.link t l) := by
  obtain ⟨n, out, list, tail, h', pass, ran, ⟨rfl, rfl, chain⟩, touches⟩ :=
    @runs_passLoop α cmp a insize size bound h [] (a :: rest) 0 none none enough (passing_of_ring ring)
  have perm := pass.perm
  obtain ⟨l, out, rfl⟩ : ∃ l rest, out = l :: rest := List.exists_cons_of_ne_nil (by
    rintro rfl
    exact List.cons_ne_nil _ _ (List.nil_perm.mp perm))
  obtain ⟨t, last⟩ : ∃ t, (l :: out).getLast? = some t :=
    ⟨_, List.getLast?_eq_getLast_of_ne_nil (List.cons_ne_nil l out)⟩
  rw [List.nil_append] at ran chain touches
  rw [Nat.zero_add, last] at ran
  refine ⟨n, l, t, out, h', pass, ran, ring_close (perm.nodup_iff.mpr ring.nodup) chain last, ?_⟩
  refine touches.trans (touches_link ?_ ?_)
  · exact perm.mem_iff.mp (List.mem_of_getLast? last)
  · exact perm.mem_iff.mp List.mem_cons_self

/-- The passes, with turns for all of them. -/
theorem runs_sortLoop (turns : Nat) : ∀ (h : Heap α) (a : Ref) (rest : List Ref) (insize : Nat), 0 < insize →
    (a :: rest).length ≤ bound → (a :: rest).length ≤ turns + insize → Ring h a rest →
    ∃ l out h', Passes (below cmp) insize (a :: rest) (l :: out) ∧
      Runs (sortLoop cmp bound (turns + 1) insize (some a)) h (some l) h' ∧ Ring h' l out ∧
      Touches (a :: rest) h h' := by
  induction turns with
  | zero =>
    intro h a rest insize size enough few ring
    obtain ⟨n, l, t, out, h', pass, ran, ring', touches⟩ := @runs_pass α cmp h a rest bound insize size enough ring
    have once : n ≤ 1 := pass.once (by omega)
    refine ⟨l, out, h'.link t l, .stop pass once, ran.bind ?_, ring', touches⟩
    change Runs (if n ≤ 1 then pure (some l) else _) (h'.link t l) (some l) (h'.link t l)
    rw [if_pos once]
    exact runs_pure _ _
  | succ turns ih =>
    intro h a rest insize size enough few ring
    obtain ⟨n, l, t, out, h₁, pass, ran, ring', touches⟩ := @runs_pass α cmp h a rest bound insize size enough ring
    by_cases once : n ≤ 1
    · refine ⟨l, out, h₁.link t l, .stop pass once, ran.bind ?_, ring', touches⟩
      change Runs (if n ≤ 1 then pure (some l) else _) (h₁.link t l) (some l) (h₁.link t l)
      rw [if_pos once]
      exact runs_pure _ _
    · have same : (l :: out).length = (a :: rest).length := pass.perm.length_eq
      obtain ⟨l', out', h', passes, sorted, ring'', touches'⟩ := ih (h₁.link t l) l out (2 * insize) (by omega)
        (by omega) (by omega) ring'
      refine ⟨l', out', h', .again pass (by omega) passes, ran.bind ?_, ring'', ?_⟩
      · change Runs (if n ≤ 1 then pure (some l) else sortLoop cmp bound (turns + 1) (insize * 2) (some l))
          (h₁.link t l) (some l') h'
        rw [if_neg once, Nat.mul_comm]
        exact sorted
      · exact touches.trans (touches'.mono fun x member => pass.perm.mem_iff.mp member)

/-- The head is taken out of its ring. -/
theorem runs_detach (ring : Ring h head (a :: rest)) :
    ∃ h', Runs (listDel (some head)) h () h' ∧ Ring h' a rest ∧ Touches (head :: a :: rest) h h' := by
  obtain ⟨front, t, shape⟩ : ∃ front t, a :: rest = front ++ [t] :=
    ⟨_, _, (List.dropLast_concat_getLast (List.cons_ne_nil a rest)).symm⟩
  have before : head :: a :: rest = head :: front ++ [t] := congrArg (head :: ·) shape
  have behind : (a :: rest) ++ [head] = a :: (rest ++ [head]) := rfl
  have removed := runs_listDel (ring.last before).2 (ring.first behind).1
  have turned : Ring h a (rest ++ head :: []) := @Ring.rotate α h head a [] rest ring
  have ring' := ring_remove turned shape (List.nil_append [a])
  rw [List.append_nil] at ring'
  refine ⟨_, removed, ring', (touches_link ?_ ?_).trans (touches_unlink List.mem_cons_self)⟩
  · rw [shape]
    simp
  · simp

/-- The head is put in front of the first node. -/
theorem runs_attach (ring : Ring h a rest) (outside : head ∉ a :: rest) :
    ∃ h', Runs (do
        setNext (some head) (some a)
        setPrev (some head) (← prev (some a))
        setNext (← prev (some a)) (some head)
        setPrev (some a) (some head)) h () h' ∧
      Ring h' head (a :: rest) ∧ Touches (head :: a :: rest) h h' := by
  obtain ⟨front, t, shape⟩ : ∃ front t, a :: rest = front ++ [t] :=
    ⟨_, _, (List.dropLast_concat_getLast (List.cons_ne_nil a rest)).symm⟩
  have last : h.prev a = some t := (ring.last shape).2
  have other : t ≠ head := by
    rintro rfl
    exact outside (by rw [shape]; simp)
  have other' : a ≠ head := fun same => outside (by simp [same])
  have whole : Ring h a (rest ++ []) := by
    rw [List.append_nil]
    exact ring
  have ring' : Ring ((h.link t head).link head a) a (rest ++ head :: []) :=
    ring_insert whole shape (List.nil_append [a]) (by rw [List.append_nil]; exact outside)
  have still : Function.update h.prev head (some t) a = some t := (Function.update_of_ne other' ..).trans last
  refine ⟨(h.link t head).link head a, ?_, @Ring.rotate α _ a head rest [] ring',
    (touches_link ?_ ?_).trans (touches_link ?_ ?_)⟩
  · refine (runs_setNext h head (some a)).bind ((runs_prev _ a).bind ?_)
    dsimp only
    rw [last]
    refine (runs_setPrev _ head (some t)).bind ((runs_prev _ a).bind ?_)
    dsimp only
    rw [still]
    have swapped : (h.link t head).link head a = { h with
        next := Function.update (Function.update h.next head (some a)) t (some head)
        prev := Function.update (Function.update h.prev head (some t)) a (some head) } := by
      rw [Function.update_comm other.symm]
      rfl
    rw [swapped]
    exact (runs_setNext _ t (some head)).bind (runs_setPrev _ a (some head))
  · rw [shape]
    simp
  · simp
  · simp
  · simp

/-- `list_sort` ends, and leaves a ring of the same nodes in order, those that compare equal as they were. -/
theorem listSort_sorts (cmp : Ref → Ref → Int) (ring : Ring h head nodes)
    (order : TotalPreorderOn (below cmp) nodes) (enough : nodes.length ≤ bound) :
    ∃ sorted h', Runs (listSort bound (some head) cmp) h () h' ∧ Ring h' head sorted ∧ sorted.Perm nodes ∧
      Sorted (below cmp) sorted ∧ (∀ a ∈ nodes, alike (below cmp) a sorted = alike (below cmp) a nodes) ∧
      Touches (head :: nodes) h h' := by
  cases nodes with
  | nil =>
    exact ⟨[], h, (runs_listEmpty ring).bind (runs_pure () h), ring, .nil, .nil, nofun, .refl _ h⟩
  | cons a rest =>
    obtain ⟨turns, rfl⟩ : ∃ turns, bound = turns + 1 := ⟨bound - 1, by simp at enough; omega⟩
    obtain ⟨h₁, detached, ring₁, touches₁⟩ := runs_detach ring
    obtain ⟨l, out, h₂, passes, ran, ring₂, touches₂⟩ := @runs_sortLoop α cmp (turns + 1) turns h₁ a rest 1
      Nat.one_pos enough enough ring₁
    have perm := passes.perm
    have outside : head ∉ l :: out := fun member =>
      (List.nodup_cons.mp ring.nodup).1 (perm.mem_iff.mp member)
    obtain ⟨h₃, attached, ring₃, touches₃⟩ := runs_attach ring₂ outside
    have runs := @sortedRuns_one Ref (below cmp) (a :: rest)
    refine ⟨l :: out, h₃, (runs_listEmpty ring).bind ?_, ring₃, perm,
      passes.sorted order (fun _ member => member) runs,
      fun x inside => passes.alike order inside (fun _ member => member) runs, ?_⟩
    · have first := (ring.first (show (a :: rest) ++ [head] = a :: (rest ++ [head]) from rfl)).1
      refine (runs_next h head).bind ?_
      rw [first]
      exact detached.bind (ran.bind attached)
    · refine touches₁.trans ((touches₂.mono fun x member => List.mem_cons_of_mem _ member).trans
        (touches₃.mono fun x member => ?_))
      rcases List.mem_cons.mp member with rfl | among
      · exact List.mem_cons_self
      · exact List.mem_cons_of_mem _ (perm.mem_iff.mp among)

/-- The nodes 1, 2, 3 of the head 0. -/
def threeNodes : Heap Nat := ⟨fun r => some ((r + 1) % 4), fun r => some ((r + 3) % 4), some, 4⟩

theorem ring_threeNodes : Ring threeNodes 0 [1, 2, 3] :=
  ⟨by decide, .cons_cons ⟨rfl, rfl⟩ (.cons_cons ⟨rfl, rfl⟩ (.cons_cons ⟨rfl, rfl⟩ (.cons_cons ⟨rfl, rfl⟩
    (.singleton 0))))⟩

theorem listSort_sorts_three : ∃ sorted h',
    Runs (listSort 3 (some 0) fun a b => (b : Int) - (a : Int)) threeNodes () h' ∧ Ring h' 0 sorted ∧
      sorted.Perm [1, 2, 3] ∧ Sorted (below fun a b => (b : Int) - (a : Int)) sorted ∧
      (∀ a ∈ [1, 2, 3], alike (below fun a b => (b : Int) - (a : Int)) a sorted =
        alike (below fun a b => (b : Int) - (a : Int)) a [1, 2, 3]) ∧ Touches [0, 1, 2, 3] threeNodes h' :=
  listSort_sorts (fun a b => (b : Int) - (a : Int)) ring_threeNodes ⟨by decide, by decide⟩ (by decide)

end Sorting

end QjsLws.Linked
