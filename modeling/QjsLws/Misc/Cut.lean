import Mathlib.Data.List.Infix
import Mathlib.Data.List.TakeWhile

/-!
# Cutting at a pattern

A list is cut at the first separator, or at the first place where a pattern stands. Where the head of the
pattern does not come again in it, the pattern cannot straddle what stands in front of it.
-/

namespace QjsLws.Misc

variable {α : Type}

/-! ## Up to a separator -/

section Separator

variable [DecidableEq α] {c : α} {l : List α}

theorem not_separator (absent : c ∉ l) : ∀ d ∈ l, decide (d ≠ c) = true := by
  intro d member
  rw [decide_eq_true_eq]
  rintro rfl
  exact absent member

theorem takeWhile_whole (absent : c ∉ l) : l.takeWhile (· ≠ c) = l :=
  List.takeWhile_eq_self_iff.mpr (not_separator absent)

theorem dropWhile_whole (absent : c ∉ l) : l.dropWhile (· ≠ c) = [] :=
  List.dropWhile_eq_nil_iff.mpr (not_separator absent)

theorem takeWhile_until (absent : c ∉ l) (rest : List α) : (l ++ c :: rest).takeWhile (· ≠ c) = l := by
  rw [List.takeWhile_append_of_pos (not_separator absent), List.takeWhile_cons_of_neg (by simp),
    List.append_nil]

theorem dropWhile_until (absent : c ∉ l) (rest : List α) :
    (l ++ c :: rest).dropWhile (· ≠ c) = c :: rest := by
  rw [List.dropWhile_append_of_pos (not_separator absent), List.dropWhile_cons_of_neg (by simp)]

end Separator

/-! ## Up to a pattern -/

section Cut

variable [DecidableEq α]

/-- What stands before the first occurrence of the pattern, and after it. -/
def cut (p : List α) : List α → Option (List α × List α)
  | [] => if p = [] then some ([], []) else none
  | c :: rest =>
    if p <+: c :: rest then some ([], (c :: rest).drop p.length)
    else (cut p rest).map fun (before, after) => (c :: before, after)

end Cut

/-! ## Patterns whose head comes once -/

section Once

variable {c : α} {q x y a b : List α}

/-- A pattern at the front of a text and what follows its head: it does not reach the second part. -/
theorem prefix_of_once (once : c ∉ q) (begins : c :: q <+: x ++ c :: y) (nonempty : x ≠ []) :
    c :: q <+: x := by
  obtain ⟨after, same⟩ := begins
  rcases List.append_eq_append_iff.mp same with ⟨more, rfl, -⟩ | ⟨more, shape, rest⟩
  · exact List.prefix_append _ _
  · obtain ⟨d, x, rfl⟩ := List.exists_cons_of_ne_nil nonempty
    obtain ⟨rfl, rfl⟩ : c = d ∧ q = x ++ more := by simpa using shape
    cases more with
    | nil => rw [List.append_nil]
    | cons e more =>
      obtain ⟨rfl, -⟩ := List.cons.inj rest
      exact absurd (List.mem_append_right x List.mem_cons_self) once

/-- The pattern stands in neither of two texts, the second of which begins with its head. -/
theorem not_infix_append (once : c ∉ q) (front : ¬c :: q <:+: x) (back : ¬c :: q <:+: c :: y) :
    ¬c :: q <:+: x ++ c :: y := by
  induction x with
  | nil => exact back
  | cons d x ih =>
    have rest := ih fun inside => front (List.infix_cons_iff.mpr (.inr inside))
    intro inside
    rcases List.infix_cons_iff.mp inside with begins | later
    · exact front (@prefix_of_once α c q (d :: x) y once begins (List.cons_ne_nil _ _)).isInfix
    · exact rest later

/-- The pattern at the end of what it does not stand in. -/
theorem cut_append [DecidableEq α] (once : c ∉ q) (free : ¬c :: q <:+: a) :
    cut (c :: q) (a ++ c :: q ++ b) = some (a, b) := by
  induction a with
  | nil =>
    rw [List.nil_append, List.cons_append, cut, if_pos ⟨b, rfl⟩]
    simp
  | cons d a ih =>
    have rest := ih fun inside => free (List.infix_cons_iff.mpr (.inr inside))
    have other : ¬c :: q <+: d :: (a ++ c :: q ++ b) := by
      intro begins
      rw [List.append_assoc, ← List.cons_append, List.cons_append] at begins
      exact free (prefix_of_once once begins (List.cons_ne_nil _ _)).isInfix
    rw [List.cons_append, List.cons_append, cut, if_neg other, rest]
    rfl

end Once

end QjsLws.Misc
