import Mathlib.Data.List.Basic
import Mathlib.Data.List.Sort

/-!
# Sorting by merge passes

A bottom-up merge sort goes over the list in passes. A pass of size `k` merges each two neighbouring runs of
`k` elements, and the last pass is the one that merges at most once. The comparison is a total preorder on the
elements of the list only.
-/

namespace QjsLws.Misc

variable {α : Type} {le : α → α → Bool} {s l xs ys : List α} {k n : Nat}

/-- The comparison is total and transitive on the elements of the list. -/
structure TotalPreorderOn (le : α → α → Bool) (s : List α) : Prop where
  total : ∀ a ∈ s, ∀ b ∈ s, le a b = true ∨ le b a = true
  trans : ∀ a ∈ s, ∀ b ∈ s, ∀ c ∈ s, le a b = true → le b c = true → le a c = true

/-- No element is above a later one. -/
def Sorted (le : α → α → Bool) (l : List α) : Prop := l.Pairwise fun a b => le a b = true

/-- The elements that compare equal to one, in their order. -/
def alike (le : α → α → Bool) (a : α) (l : List α) : List α := l.filter fun b => le a b && le b a

/-! ## One merge -/

section Merge

theorem alike_cons (le : α → α → Bool) (a b : α) (l : List α) :
    alike le a (b :: l) = if (le a b && le b a) = true then b :: alike le a l else alike le a l :=
  List.filter_cons

theorem sorted_merge (order : TotalPreorderOn le s) (left : Sorted le xs) (right : Sorted le ys)
    (inLeft : ∀ a ∈ xs, a ∈ s) (inRight : ∀ a ∈ ys, a ∈ s) : Sorted le (xs.merge ys le) := by
  fun_induction List.merge xs ys le with
  | case1 ys => exact right
  | case2 xs => exact left
  | case3 x xs y ys below ih =>
    refine List.pairwise_cons.mpr ⟨?_, ih (List.pairwise_cons.mp left).2 right
      (fun a member => inLeft a (List.mem_cons_of_mem _ member)) inRight⟩
    intro z member
    rcases List.mem_merge.mp member with early | later
    · exact (List.pairwise_cons.mp left).1 z early
    · rcases List.mem_cons.mp later with rfl | behind
      · exact below
      · exact order.trans x (inLeft x List.mem_cons_self) y (inRight y List.mem_cons_self) z (inRight z later)
          below ((List.pairwise_cons.mp right).1 z behind)
  | case4 x xs y ys above ih =>
    have first : le y x = true := (order.total x (inLeft x List.mem_cons_self) y
      (inRight y List.mem_cons_self)).resolve_left above
    refine List.pairwise_cons.mpr ⟨?_, ih left (List.pairwise_cons.mp right).2 inLeft
      fun a member => inRight a (List.mem_cons_of_mem _ member)⟩
    intro z member
    rcases List.mem_merge.mp member with early | later
    · rcases List.mem_cons.mp early with rfl | behind
      · exact first
      · exact order.trans y (inRight y List.mem_cons_self) x (inLeft x List.mem_cons_self) z (inLeft z early)
          first ((List.pairwise_cons.mp left).1 z behind)
    · exact (List.pairwise_cons.mp right).1 z later

/-- Elements that compare equal stay in order, those of the first run in front. -/
theorem alike_merge (order : TotalPreorderOn le s) {a : α} (ina : a ∈ s) (left : Sorted le xs)
    (inLeft : ∀ a ∈ xs, a ∈ s) (inRight : ∀ a ∈ ys, a ∈ s) :
    alike le a (xs.merge ys le) = alike le a xs ++ alike le a ys := by
  fun_induction List.merge xs ys le with
  | case1 ys => rfl
  | case2 xs => exact (List.append_nil _).symm
  | case3 x xs y ys below ih =>
    have rest := ih (List.pairwise_cons.mp left).2
      (fun a member => inLeft a (List.mem_cons_of_mem _ member)) inRight
    rw [alike_cons, alike_cons, rest]
    split <;> rfl
  | case4 x xs y ys above ih =>
    have rest := ih left inLeft fun a member => inRight a (List.mem_cons_of_mem _ member)
    by_cases same : (le a y && le y a) = true
    · have none : alike le a (x :: xs) = [] := by
        refine List.filter_eq_nil_iff.mpr fun z member equal => above ?_
        rw [Bool.and_eq_true] at same equal
        have z_y := order.trans z (inLeft z member) a ina y (inRight y List.mem_cons_self) equal.2 same.1
        rcases List.mem_cons.mp member with rfl | behind
        · exact z_y
        · exact order.trans x (inLeft x List.mem_cons_self) z (inLeft z member) y
            (inRight y List.mem_cons_self) ((List.pairwise_cons.mp left).1 z behind) z_y
      rw [none, List.nil_append] at rest ⊢
      rw [alike_cons, alike_cons, if_pos same, if_pos same, rest]
    · rw [alike_cons, alike_cons le a y, if_neg same, if_neg same, rest]

end Merge

/-! ## One pass -/

/-- A pass of size `k`, its number of merges and its result: a run is shorter only where the list ends. -/
inductive Pass (le : α → α → Bool) (k : Nat) : List α → Nat → List α → Prop where
  | done : Pass le k [] 0 []
  | merge {xs ys rest : List α} {n : Nat} {out : List α} : xs ≠ [] → xs.length ≤ k → ys.length ≤ k →
      (xs.length < k → ys ++ rest = []) → (ys.length < k → rest = []) → Pass le k rest n out →
      Pass le k (xs ++ (ys ++ rest)) (n + 1) (xs.merge ys le ++ out)

/-- The runs of `k` elements are sorted. -/
inductive SortedRuns (le : α → α → Bool) (k : Nat) : List α → Prop where
  | last {l : List α} : l.length ≤ k → Sorted le l → SortedRuns le k l
  | more {l rest : List α} : l.length = k → Sorted le l → SortedRuns le k rest → SortedRuns le k (l ++ rest)

section Passes

variable {rest out : List α}

theorem SortedRuns.of_nil : SortedRuns le k [] := .last (Nat.zero_le k) .nil

/-- The runs of one element. -/
theorem sortedRuns_one (l : List α) : SortedRuns le 1 l := by
  induction l with
  | nil => exact .of_nil
  | cons a l ih => exact .more rfl (List.pairwise_singleton _ a) ih

/-- The first run, and those behind it. -/
theorem SortedRuns.split (runs : SortedRuns le k (xs ++ rest)) (short : xs.length ≤ k)
    (last : xs.length < k → rest = []) : Sorted le xs ∧ SortedRuns le k rest := by
  generalize whole : xs ++ rest = l at runs
  cases runs with
  | last few sorted =>
    subst whole
    refine ⟨(List.pairwise_append.mp sorted).1, .last ?_ (List.pairwise_append.mp sorted).2.1⟩
    rw [List.length_append] at few
    omega
  | @more run more size sorted later =>
    rcases Nat.lt_or_eq_of_le short with less | full
    · have none := last less
      rw [none, List.append_nil] at whole
      have := congrArg List.length whole
      rw [List.length_append] at this
      omega
    · obtain ⟨rfl, rfl⟩ := List.append_inj whole (full.trans size.symm)
      exact ⟨sorted, later⟩

theorem Pass.of_nil (pass : Pass le k [] n out) : n = 0 ∧ out = [] := by
  generalize whole : [] = l at pass
  cases pass with
  | done => exact ⟨rfl, rfl⟩
  | merge nonempty => exact absurd (List.append_eq_nil_iff.mp whole.symm).1 nonempty

theorem Pass.perm (pass : Pass le k l n out) : out.Perm l := by
  induction pass with
  | done => exact .nil
  | merge _ _ _ _ _ _ ih =>
    rw [← List.append_assoc]
    exact (List.merge_perm_append le).append ih

/-- After a pass the runs of twice the size are sorted. -/
theorem Pass.sortedRuns (pass : Pass le k l n out) (order : TotalPreorderOn le s) (inside : ∀ a ∈ l, a ∈ s)
    (runs : SortedRuns le k l) : SortedRuns le (2 * k) out := by
  induction pass with
  | done => exact .of_nil
  | @merge xs ys rest n out nonempty short short' last last' pass ih =>
    obtain ⟨left, runs⟩ := runs.split short last
    obtain ⟨right, runs⟩ := runs.split short' last'
    have sorted := sorted_merge order left right (fun a member => inside a (List.mem_append_left _ member))
      fun a member => inside a (List.mem_append_right _ (List.mem_append_left _ member))
    have later := ih (fun a member => inside a (List.mem_append_right _ (List.mem_append_right _ member))) runs
    have size : (xs.merge ys le).length = xs.length + ys.length := List.length_merge le xs ys
    by_cases full : xs.length = k ∧ ys.length = k
    · exact .more (by omega) sorted later
    · have none : rest = [] := by
        by_cases small : ys.length < k
        · exact last' small
        · exact (List.append_eq_nil_iff.mp (last (by omega))).2
      subst none
      rw [pass.of_nil.2, List.append_nil]
      exact .last (by omega) sorted

/-- Elements that compare equal stay in order. -/
theorem Pass.alike (pass : Pass le k l n out) (order : TotalPreorderOn le s) {a : α} (ina : a ∈ s)
    (inside : ∀ a ∈ l, a ∈ s) (runs : SortedRuns le k l) : alike le a out = alike le a l := by
  induction pass with
  | done => rfl
  | @merge xs ys rest n out nonempty short short' last last' pass ih =>
    obtain ⟨left, runs⟩ := runs.split short last
    obtain ⟨right, runs⟩ := runs.split short' last'
    have merged := alike_merge order ina left (fun a member => inside a (List.mem_append_left _ member))
      fun a member => inside a (List.mem_append_right _ (List.mem_append_left _ member))
    have later := ih (fun a member => inside a (List.mem_append_right _ (List.mem_append_right _ member))) runs
    simp only [Misc.alike, List.filter_append] at merged later ⊢
    rw [merged, later, List.append_assoc]

/-- A pass that merges at most once leaves the list sorted. -/
theorem Pass.sorted (pass : Pass le k l n out) (order : TotalPreorderOn le s) (inside : ∀ a ∈ l, a ∈ s)
    (runs : SortedRuns le k l) (once : n ≤ 1) : Sorted le out := by
  cases pass with
  | done => exact .nil
  | @merge xs ys rest n out nonempty short short' last last' pass =>
    obtain ⟨left, runs⟩ := runs.split short last
    obtain ⟨right, -⟩ := runs.split short' last'
    cases pass with
    | done =>
      rw [List.append_nil]
      exact sorted_merge order left right (fun a member => inside a (List.mem_append_left _ member))
        fun a member => inside a (List.mem_append_right _ (List.mem_append_left _ member))
    | merge => omega

/-- A pass that is larger than half of the list merges at most once. -/
theorem Pass.once (pass : Pass le k l n out) (large : l.length ≤ 2 * k) : n ≤ 1 := by
  cases pass with
  | done => exact Nat.zero_le 1
  | @merge xs ys rest n out nonempty short short' last last' pass =>
    cases pass with
    | done => exact Nat.le_refl 1
    | @merge xs' _ _ _ _ nonempty' =>
      have some := List.length_pos_iff.mpr nonempty'
      simp only [List.length_append] at large
      have small : xs.length < k ∨ ys.length < k := by omega
      rcases small with first | second
      · simp [nonempty'] at last
        omega
      · simp [nonempty'] at last'
        omega

/-- Passes of doubling size, up to the first that merges at most once. -/
inductive Passes (le : α → α → Bool) : Nat → List α → List α → Prop where
  | stop {k n : Nat} {l out : List α} : Pass le k l n out → n ≤ 1 → Passes le k l out
  | again {k n : Nat} {l next out : List α} : Pass le k l n next → 1 < n → Passes le (2 * k) next out →
      Passes le k l out

theorem Passes.perm (passes : Passes le k l out) : out.Perm l := by
  induction passes with
  | stop pass => exact pass.perm
  | again pass _ _ ih => exact ih.trans pass.perm

theorem Passes.sorted (passes : Passes le k l out) (order : TotalPreorderOn le s) (inside : ∀ a ∈ l, a ∈ s)
    (runs : SortedRuns le k l) : Sorted le out := by
  induction passes with
  | stop pass once => exact pass.sorted order inside runs once
  | again pass _ _ ih =>
    exact ih (fun a member => inside a (pass.perm.mem_iff.mp member)) (pass.sortedRuns order inside runs)

theorem Passes.alike (passes : Passes le k l out) (order : TotalPreorderOn le s) {a : α} (ina : a ∈ s)
    (inside : ∀ a ∈ l, a ∈ s) (runs : SortedRuns le k l) : alike le a out = alike le a l := by
  induction passes with
  | stop pass => exact pass.alike order ina inside runs
  | again pass _ _ ih =>
    rw [ih (fun a member => inside a (pass.perm.mem_iff.mp member)) (pass.sortedRuns order inside runs),
      pass.alike order ina inside runs]

end Passes

end QjsLws.Misc
