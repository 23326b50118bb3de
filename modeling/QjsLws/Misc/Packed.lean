import Mathlib.Data.List.Basic

/-!
# Packed chunks

A list that is kept as chunks of `m` elements, of which the last one has fewer. The element at `i * m + j` is the
element `j` of the chunk `i`.
-/

namespace QjsLws.Misc

variable {β : Type} {m : Nat}

/-- Every chunk has `m` elements, but for the last one, which has fewer. -/
inductive Packed (m : Nat) : List (List β) → Prop
  | last {c : List β} (short : c.length < m) : Packed m [c]
  | full {c : List β} {chunks : List (List β)} (whole : c.length = m) (rest : Packed m chunks) :
    Packed m (c :: chunks)

namespace Packed

variable {chunks : List (List β)}

theorem chunk_length (packed : Packed m chunks) (i : Nat) :
    (i + 1 < chunks.length → (chunks[i]?.getD []).length = m) ∧
      (i + 1 = chunks.length → (chunks[i]?.getD []).length < m) := by
  induction packed generalizing i with
  | last short =>
    constructor
    · intro before
      simp at before
    · intro at_last
      obtain rfl : i = 0 := by simpa using at_last
      exact short
  | full whole rest ih =>
    cases i with
    | zero =>
      refine ⟨fun _ => whole, fun at_last => ?_⟩
      cases rest <;> simp at at_last
    | succ i => simpa using ih i

/-- Where an element of the flat list is. -/
theorem getElem?_flatten (packed : Packed m chunks) (i : Nat) {j : Nat} (inside : j < m) :
    chunks.flatten[i * m + j]? = (chunks[i]?.getD [])[j]? := by
  induction packed generalizing i with
  | @last c short =>
    cases i with
    | zero => simp
    | succ i =>
      have beyond : c.length ≤ (i + 1) * m + j := by
        rw [Nat.succ_mul]
        omega
      simp [beyond]
  | @full c chunks whole rest ih =>
    cases i with
    | zero => simp [List.getElem?_append_left (whole ▸ inside : j < c.length)]
    | succ i =>
      have behind : (i + 1) * m + j - c.length = i * m + j := by
        rw [Nat.succ_mul]
        omega
      have beyond : c.length ≤ (i + 1) * m + j := by
        rw [Nat.succ_mul]
        omega
      rw [List.flatten_cons, List.getElem?_append_right beyond, behind, ih]
      simp

/-- An element of a chunk is overwritten. -/
theorem set (packed : Packed m chunks) (i j : Nat) (b : β) :
    Packed m (chunks.set i ((chunks[i]?.getD []).set j b)) := by
  induction packed generalizing i with
  | last short =>
    cases i with
    | zero => exact .last (by simpa using short)
    | succ i => exact .last short
  | full whole rest ih =>
    cases i with
    | zero => exact .full (by simpa using whole) rest
    | succ i => exact .full whole (by simpa using ih i)

theorem flatten_set (packed : Packed m chunks) (i : Nat) {j : Nat} (inside : j < m) (b : β) :
    (chunks.set i ((chunks[i]?.getD []).set j b)).flatten = chunks.flatten.set (i * m + j) b := by
  induction packed generalizing i with
  | @last c short =>
    cases i with
    | zero => simp
    | succ i =>
      have beyond : c.length ≤ (i + 1) * m + j := by
        rw [Nat.succ_mul]
        omega
      simp [List.set_eq_of_length_le beyond]
  | @full c chunks whole rest ih =>
    cases i with
    | zero => simp [List.set_append_left _ _ (whole ▸ inside : j < c.length)]
    | succ i =>
      have behind : (i + 1) * m + j - c.length = i * m + j := by
        rw [Nat.succ_mul]
        omega
      have beyond : c.length ≤ (i + 1) * m + j := by
        rw [Nat.succ_mul]
        omega
      rw [List.flatten_cons, List.set_append_right _ _ beyond, behind, ← ih]
      simp

theorem of_cons {c : List β} (packed : Packed m (c :: chunks)) (more : chunks ≠ []) :
    c.length = m ∧ Packed m chunks := by
  cases packed with
  | last _ => exact absurd rfl more
  | full whole rest => exact ⟨whole, rest⟩

/-- The last chunk grows and is still not whole. -/
theorem grow {c : List β} (packed : Packed m (chunks ++ [c])) (b : β) (short : c.length + 1 < m) :
    Packed m (chunks ++ [c ++ [b]]) := by
  induction chunks with
  | nil => exact .last (by simpa using short)
  | cons first chunks ih =>
    obtain ⟨whole, rest⟩ := packed.of_cons (by simp)
    exact .full whole (ih rest)

/-- The last chunk becomes whole, and an empty one is behind it. -/
theorem fill {c : List β} (packed : Packed m (chunks ++ [c])) (b : β) (whole : c.length + 1 = m) :
    Packed m (chunks ++ [c ++ [b], []]) := by
  induction chunks with
  | nil => exact .full (by simpa using whole) (.last (by simp; omega))
  | cons first chunks ih =>
    obtain ⟨whole', rest⟩ := packed.of_cons (by simp)
    exact .full whole' (ih rest)

/-- The flat list without the first chunks. -/
theorem flatten_drop (packed : Packed m chunks) {i : Nat} (inside : i < chunks.length) :
    (chunks.drop i).flatten = chunks.flatten.drop (i * m) := by
  induction packed generalizing i with
  | last short =>
    obtain rfl : i = 0 := by simpa using inside
    simp
  | full whole rest ih =>
    cases i with
    | zero => simp
    | succ i =>
      have behind : (i + 1) * m = m + i * m := by rw [Nat.succ_mul, Nat.add_comm]
      rw [List.drop_succ_cons, ih (by simpa using inside), List.flatten_cons, behind, ← whole, ← List.drop_drop,
        List.drop_left]

end Packed

end QjsLws.Misc
