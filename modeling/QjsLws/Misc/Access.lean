import Mathlib.Data.List.Basic
import Mathlib.Data.List.TakeWhile

/-!
# Memory accesses

Code on a piece of memory ends at its first access outside of the bounds. A C string is read up to its
terminator.
-/

namespace QjsLws.Misc

/-- An access out of bounds, with its index. -/
inductive Fault where
  | read (i : Nat)
  | write (i : Nat)
  deriving DecidableEq, Repr

/-! ## Results -/

section Results

variable {ε α β : Type}

theorem ok_bind (a : α) (next : α → Except ε β) : (Except.ok a >>= next) = next a := rfl

theorem error_bind (error : ε) (next : α → Except ε β) : (Except.error error >>= next) = .error error := rfl

end Results

section Access

variable {α : Type} {l : List α} {a : α} {i : Nat}

/-- Reads an element. -/
def readAt (l : List α) (i : Nat) : Except Fault α :=
  match l[i]? with
  | some a => .ok a
  | none => .error (.read i)

/-- Overwrites an element. -/
def writeAt (l : List α) (i : Nat) (a : α) : Except Fault (List α) :=
  if i < l.length then .ok (l.set i a) else .error (.write i)

theorem readAt_eq_ok : readAt l i = .ok a ↔ l[i]? = some a := by
  unfold readAt
  cases l[i]? <;> simp

theorem readAt_of_le (beyond : l.length ≤ i) : readAt l i = .error (.read i) := by
  rw [readAt, List.getElem?_eq_none beyond]

theorem writeAt_of_lt (a : α) (inside : i < l.length) : writeAt l i a = .ok (l.set i a) := if_pos inside

theorem writeAt_of_le (a : α) (beyond : l.length ≤ i) : writeAt l i a = .error (.write i) :=
  if_neg (Nat.not_lt.mpr beyond)

end Access

/-! ## C strings -/

/-- The bytes in front of the terminator. -/
structure CString where
  bytes : List UInt8
  solid : 0 ∉ bytes
  deriving DecidableEq

/-- The string up to the first NUL. -/
def CString.upTo (memory : List UInt8) : CString where
  bytes := memory.takeWhile (· ≠ 0)
  solid member := by simpa using List.mem_takeWhile_imp member

namespace CString

/-- The string with its terminator. -/
def memory (s : CString) : List UInt8 := s.bytes ++ [0]

variable {s t : CString} {before rest : List UInt8} {b : UInt8}

theorem ext_bytes (same : s.bytes = t.bytes) : s = t := by
  obtain ⟨bytes, solid⟩ := s
  obtain ⟨bytes', solid'⟩ := t
  cases same
  rfl

/-- The byte behind a part of the string. -/
theorem read_split (split : s.bytes = before ++ b :: rest) : readAt s.memory before.length = .ok b := by
  rw [readAt_eq_ok, memory, split, List.append_assoc, List.getElem?_append_right (Nat.le_refl _)]
  simp

/-- The terminator. -/
theorem read_end (s : CString) : readAt s.memory s.bytes.length = .ok 0 := by
  rw [readAt_eq_ok, memory]
  simp

/-- Nothing is read behind the terminator. -/
theorem read_behind (s : CString) : readAt s.memory (s.bytes.length + 1) = .error (.read (s.bytes.length + 1)) :=
  readAt_of_le (by simp [memory])

theorem ne_zero_of_split (split : s.bytes = before ++ b :: rest) : b ≠ 0 := by
  rintro rfl
  exact s.solid (by simp [split])

theorem upTo_of_split {bytes tail : List UInt8} (solid : 0 ∉ bytes) :
    (upTo (bytes ++ 0 :: tail)).bytes = bytes := by
  change (bytes ++ 0 :: tail).takeWhile (· ≠ 0) = bytes
  have others : ∀ b ∈ bytes, decide (b ≠ 0) = true := by
    intro b member
    rw [decide_eq_true_eq]
    rintro rfl
    exact solid member
  rw [List.takeWhile_append_of_pos others, List.takeWhile_cons_of_neg (by simp), List.append_nil]

end CString

end QjsLws.Misc
