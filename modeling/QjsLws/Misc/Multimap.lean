import Mathlib.Logic.Function.Basic

/-!
# Multimaps

A multimap gives every key the list of values that were added under it, in order. It is what a
collection of headers or of form fields stands for, however it is stored.
-/

namespace QjsLws.Misc

/-- The values under each key. -/
def Multimap (κ β : Type) : Type := κ → List β

namespace Multimap

variable {κ β : Type}

/-- No values. -/
def empty : Multimap κ β := fun _ => []

variable [DecidableEq κ]

/-- The values under a key replaced. -/
def update (m : Multimap κ β) (k : κ) (values : List β) : Multimap κ β := Function.update m k values

/-- One more value under a key. -/
def append (m : Multimap κ β) (k : κ) (v : β) : Multimap κ β := m.update k (m k ++ [v])

/-- One value under a key, and no other. -/
def set (m : Multimap κ β) (k : κ) (v : β) : Multimap κ β := m.update k [v]

/-- No value under a key. -/
def delete (m : Multimap κ β) (k : κ) : Multimap κ β := m.update k []

/-- The multimap of a list of pairs. -/
def ofPairs (pairs : List (κ × β)) : Multimap κ β :=
  fun k => (pairs.filter fun pair => pair.1 = k).map Prod.snd

omit [DecidableEq κ] in
@[simp] theorem empty_apply (k : κ) : (empty : Multimap κ β) k = [] := rfl

@[simp] theorem update_self (m : Multimap κ β) (k : κ) (values : List β) :
    m.update k values k = values := Function.update_self ..

theorem update_of_ne (m : Multimap κ β) {k k' : κ} (other : k' ≠ k) (values : List β) :
    m.update k values k' = m k' := Function.update_of_ne other ..

@[simp] theorem append_self (m : Multimap κ β) (k : κ) (v : β) : m.append k v k = m k ++ [v] :=
  m.update_self k _

@[simp] theorem set_self (m : Multimap κ β) (k : κ) (v : β) : m.set k v k = [v] :=
  m.update_self k _

@[simp] theorem delete_self (m : Multimap κ β) (k : κ) : m.delete k k = [] := m.update_self k _

theorem append_of_ne (m : Multimap κ β) {k k' : κ} (other : k' ≠ k) (v : β) :
    m.append k v k' = m k' := m.update_of_ne other _

theorem set_of_ne (m : Multimap κ β) {k k' : κ} (other : k' ≠ k) (v : β) :
    m.set k v k' = m k' := m.update_of_ne other _

theorem delete_of_ne (m : Multimap κ β) {k k' : κ} (other : k' ≠ k) : m.delete k k' = m k' :=
  m.update_of_ne other _

theorem ofPairs_append (first second : List (κ × β)) (k : κ) :
    ofPairs (first ++ second) k = ofPairs first k ++ ofPairs second k := by
  simp [ofPairs, List.filter_append]

theorem ofPairs_values (k k' : κ) (values : List β) :
    ofPairs (values.map (k, ·)) k' = if k = k' then values else [] := by
  by_cases same : k = k' <;> simp [ofPairs, List.filter_map, Function.comp_def, same]

/-- Distinct keys with their values. -/
theorem ofPairs_flatMap (f : κ → List β) (k : κ) {keys : List κ} (nodup : keys.Nodup) :
    ofPairs (keys.flatMap fun k => (f k).map (k, ·)) k = if k ∈ keys then f k else [] := by
  induction keys with
  | nil => rfl
  | cons first rest ih =>
    obtain ⟨absent, nodup⟩ := List.nodup_cons.mp nodup
    rw [List.flatMap_cons, ofPairs_append, ofPairs_values, ih nodup]
    by_cases same : first = k
    · subst same
      simp [absent]
    · simp [same, Ne.symm same]

end Multimap

end QjsLws.Misc
