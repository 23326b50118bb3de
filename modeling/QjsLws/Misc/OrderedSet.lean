import Mathlib.Data.List.Nodup

/-!
# Insertion-ordered sets

The sets of the host language: distinct elements in the order in which they were added.
-/

namespace QjsLws.Misc

/-- A list of distinct elements. -/
structure OrderedSet (α : Type) where
  elems : List α
  nodup : elems.Nodup
  deriving DecidableEq

namespace OrderedSet

variable {α : Type}

/-- The empty set. -/
def empty : OrderedSet α := ⟨[], List.nodup_nil⟩

variable [DecidableEq α]

omit [DecidableEq α] in
theorem nodup_snoc {a : α} {l : List α} (nodup : l.Nodup) (absent : a ∉ l) :
    (l ++ [a]).Nodup := by
  rw [List.nodup_append]
  refine ⟨nodup, List.nodup_singleton a, ?_⟩
  rintro b member c new rfl
  exact absent (List.mem_singleton.mp new ▸ member)

/-- `set.add(a)`. A present element keeps its place. -/
def add (a : α) (s : OrderedSet α) : OrderedSet α :=
  if absent : a ∉ s.elems then ⟨s.elems ++ [a], nodup_snoc s.nodup absent⟩ else s

/-- `set.delete(a)`. -/
def delete (a : α) (s : OrderedSet α) : OrderedSet α :=
  ⟨s.elems.filter (· ≠ a), s.nodup.filter _⟩

/-- `set.has(a)`. -/
def has (a : α) (s : OrderedSet α) : Bool := a ∈ s.elems

omit [DecidableEq α] in
@[simp] theorem elems_empty : (empty : OrderedSet α).elems = [] := rfl

@[simp] theorem mem_add {a b : α} {s : OrderedSet α} :
    b ∈ (s.add a).elems ↔ b = a ∨ b ∈ s.elems := by
  rw [add]
  split
  · simp [or_comm]
  · rename_i present
    constructor
    · exact .inr
    · rintro (rfl | member)
      · exact not_not.mp present
      · exact member

@[simp] theorem mem_delete {a b : α} {s : OrderedSet α} :
    b ∈ (s.delete a).elems ↔ b ∈ s.elems ∧ b ≠ a := by simp [delete]

end OrderedSet

end QjsLws.Misc
