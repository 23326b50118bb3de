import Mathlib.Data.List.Nodup

/-!
# Insertion-ordered maps

The maps of the host language: one entry per key, in the order in which the keys were first
added. Storing under a present key keeps its place.
-/

namespace QjsLws.Misc

/-- A list of entries with distinct keys. -/
structure Assoc (α β : Type) where
  entries : List (α × β)
  nodup : (entries.map Prod.fst).Nodup
  deriving DecidableEq

namespace Assoc

variable {α β : Type}

/-- The map without entries. -/
def empty : Assoc α β := ⟨[], List.nodup_nil⟩

/-- The keys in order. -/
def keys (m : Assoc α β) : List α := m.entries.map Prod.fst

variable [DecidableEq α]

/-- Looks a key up in a list of entries. -/
def find (k : α) : List (α × β) → Option β
  | [] => none
  | e :: rest => if e.1 = k then some e.2 else find k rest

/-- The value stored under a key. -/
def get (m : Assoc α β) (k : α) : Option β := find k m.entries

/-- Whether the key is present. -/
def has (m : Assoc α β) (k : α) : Bool := (m.get k).isSome

/-- Overwrites the entry of a key, or adds one at the end. -/
def put (k : α) (v : β) : List (α × β) → List (α × β)
  | [] => [(k, v)]
  | e :: rest => if e.1 = k then (k, v) :: rest else e :: put k v rest

theorem mem_keys_put {k k' : α} {v : β} {l : List (α × β)} :
    k' ∈ (put k v l).map Prod.fst ↔ k' = k ∨ k' ∈ l.map Prod.fst := by
  induction l with
  | nil => simp [put]
  | cons e rest ih =>
    by_cases same : e.1 = k
    · simp [put, same]
    · simp only [put, if_neg same, List.map_cons, List.mem_cons, ih]
      tauto

theorem nodup_put {k : α} {v : β} {l : List (α × β)} (nodup : (l.map Prod.fst).Nodup) :
    ((put k v l).map Prod.fst).Nodup := by
  induction l with
  | nil => simp [put]
  | cons e rest ih =>
    rw [List.map_cons, List.nodup_cons] at nodup
    by_cases same : e.1 = k
    · simpa [put, same] using nodup
    · simp only [put, if_neg same, List.map_cons, List.nodup_cons, mem_keys_put]
      exact ⟨fun member => member.elim same nodup.1, ih nodup.2⟩

/-- `m[k] = v`. -/
def set (m : Assoc α β) (k : α) (v : β) : Assoc α β := ⟨put k v m.entries, nodup_put m.nodup⟩

/-- `delete m[k]`. -/
def erase (m : Assoc α β) (k : α) : Assoc α β :=
  ⟨m.entries.filter fun e => e.1 ≠ k, m.nodup.sublist (List.filter_sublist.map Prod.fst)⟩

omit [DecidableEq α] in
@[simp] theorem empty_entries : (empty : Assoc α β).entries = [] := rfl

@[simp] theorem get_empty (k : α) : (empty : Assoc α β).get k = none := rfl

theorem find_put {k k' : α} {v : β} {l : List (α × β)} :
    find k' (put k v l) = if k = k' then some v else find k' l := by
  induction l with
  | nil => simp [put, find]
  | cons e rest ih =>
    by_cases same : e.1 = k
    · by_cases target : k = k' <;> simp [put, find, same, target]
    · by_cases target : k = k'
      · subst target
        simpa [put, find, same] using ih
      · simp [put, find, same, ih, target]

theorem get_set (m : Assoc α β) (k k' : α) (v : β) :
    (m.set k v).get k' = if k = k' then some v else m.get k' := find_put

@[simp] theorem get_set_self (m : Assoc α β) (k : α) (v : β) : (m.set k v).get k = some v := by
  simp [get_set]

theorem get_set_ne (m : Assoc α β) {k k' : α} (v : β) (other : k ≠ k') :
    (m.set k v).get k' = m.get k' := by simp [get_set, other]

theorem find_filter {k k' : α} {l : List (α × β)} :
    find k' (l.filter fun e => e.1 ≠ k) = if k = k' then none else find k' l := by
  induction l with
  | nil => simp [find]
  | cons e rest ih =>
    by_cases same : e.1 = k
    · by_cases target : k = k'
      · simpa [same, target, find] using ih
      · simpa [same, target, find] using ih
    · by_cases target : k = k'
      · subst target
        simpa [same, find] using ih
      · rw [List.filter_cons_of_pos (by simpa using same), find, find, ih]
        simp [target]

theorem get_erase (m : Assoc α β) (k k' : α) :
    (m.erase k).get k' = if k = k' then none else m.get k' := find_filter

@[simp] theorem get_erase_self (m : Assoc α β) (k : α) : (m.erase k).get k = none := by
  simp [get_erase]

theorem get_erase_ne (m : Assoc α β) {k k' : α} (other : k ≠ k') :
    (m.erase k).get k' = m.get k' := by simp [get_erase, other]

theorem mem_put {k : α} {v : β} {l : List (α × β)} {e : α × β} (member : e ∈ put k v l) :
    e = (k, v) ∨ e ∈ l := by
  induction l with
  | nil => exact .inl (List.mem_singleton.mp member)
  | cons first rest ih =>
    rw [put] at member
    split at member
    · exact (List.mem_cons.mp member).imp_right (List.mem_cons_of_mem _)
    · rcases List.mem_cons.mp member with rfl | later
      · exact .inr List.mem_cons_self
      · exact (ih later).imp_right (List.mem_cons_of_mem _)

/-- An absent key goes to the end. -/
theorem put_of_absent {k : α} {v : β} {l : List (α × β)} (absent : find k l = none) :
    put k v l = l ++ [(k, v)] := by
  induction l with
  | nil => rfl
  | cons first rest ih =>
    rw [find] at absent
    split at absent
    · cases absent
    · rename_i other
      rw [put, if_neg other, ih absent, List.cons_append]

theorem put_put {k : α} {v w : β} {l : List (α × β)} : put k w (put k v l) = put k w l := by
  induction l with
  | nil => simp [put]
  | cons first rest ih =>
    by_cases same : first.1 = k
    · simp [put, same]
    · simp [put, same, ih]

/-- Storing the value that is there. -/
theorem put_self {k : α} {v : β} {l : List (α × β)} (found : find k l = some v) :
    put k v l = l := by
  induction l with
  | nil => cases found
  | cons first rest ih =>
    rw [find] at found
    split at found
    · rename_i same
      rw [put, if_pos same, ← same, ← Option.some.inj found]
    · rename_i other
      rw [put, if_neg other, ih found]

theorem find_append {k : α} {l l' : List (α × β)} :
    find k (l ++ l') = (find k l).or (find k l') := by
  induction l with
  | nil => rfl
  | cons first rest ih =>
    rw [List.cons_append, find, find]
    split
    · rfl
    · exact ih

/-- Lookup after a change of the values. -/
theorem find_map {γ : Type} {f : β → γ} {k : α} {l : List (α × β)} :
    find k (l.map fun e => (e.1, f e.2)) = (find k l).map f := by
  induction l with
  | nil => rfl
  | cons first rest ih =>
    rw [List.map_cons, find, find]
    split
    · rfl
    · exact ih

theorem mem_of_find {k : α} {v : β} {l : List (α × β)} (found : find k l = some v) :
    (k, v) ∈ l := by
  induction l with
  | nil => simp [find] at found
  | cons e rest ih =>
    rw [find] at found
    split at found
    · rename_i same
      cases found
      simp [← same]
    · exact List.mem_cons_of_mem _ (ih found)

theorem find_of_mem {k : α} {v : β} {l : List (α × β)} (nodup : (l.map Prod.fst).Nodup)
    (member : (k, v) ∈ l) : find k l = some v := by
  induction l with
  | nil => simp at member
  | cons e rest ih =>
    rw [List.map_cons, List.nodup_cons] at nodup
    rcases List.mem_cons.mp member with rfl | later
    · simp [find]
    · have other : e.1 ≠ k := by
        rintro rfl
        exact nodup.1 (List.mem_map.mpr ⟨_, later, rfl⟩)
      rw [find, if_neg other, ih nodup.2 later]

/-- Lookup does not depend on the order of the entries. -/
theorem find_perm {k : α} {l l' : List (α × β)} (perm : l.Perm l')
    (nodup : (l.map Prod.fst).Nodup) : find k l = find k l' := by
  have nodup' : (l'.map Prod.fst).Nodup := (perm.map Prod.fst).nodup_iff.mp nodup
  cases found : find k l with
  | some v => exact (find_of_mem nodup' (perm.mem_iff.mp (mem_of_find found))).symm
  | none =>
    cases found' : find k l' with
    | none => rfl
    | some v =>
      rw [find_of_mem nodup (perm.mem_iff.mpr (mem_of_find found'))] at found
      cases found

theorem mem_entries {m : Assoc α β} {k : α} {v : β} : (k, v) ∈ m.entries ↔ m.get k = some v :=
  ⟨find_of_mem m.nodup, mem_of_find⟩

/-- Maps with the same values have the same entries. -/
theorem perm_of_get_eq {m m' : Assoc α β} (same : ∀ k, m.get k = m'.get k) :
    m.entries.Perm m'.entries := by
  apply (List.perm_ext_iff_of_nodup m.nodup.of_map m'.nodup.of_map).mpr
  rintro ⟨k, v⟩
  rw [mem_entries, mem_entries, same]

omit [DecidableEq α] in
theorem nodup_filterMap {γ : Type} {f : β → Option γ} {l : List (α × β)}
    (nodup : (l.map Prod.fst).Nodup) :
    ((l.filterMap fun e => (f e.2).map (e.1, ·)).map Prod.fst).Nodup := by
  refine nodup.sublist ?_
  induction l with
  | nil => simp
  | cons e rest ih =>
    rw [List.map_cons, List.nodup_cons] at nodup
    cases value : f e.2 with
    | none =>
      rw [List.filterMap_cons_none (by simp [value])]
      exact (ih nodup.2).cons _
    | some c =>
      rw [List.filterMap_cons_some (by simp [value]; rfl), List.map_cons, List.map_cons]
      exact (ih nodup.2).cons_cons _

/-- Keeps the entries whose value `f` accepts. -/
def filterMap {γ : Type} (f : β → Option γ) (m : Assoc α β) : Assoc α γ :=
  ⟨m.entries.filterMap fun e => (f e.2).map (e.1, ·), nodup_filterMap m.nodup⟩

theorem find_filterMap {γ : Type} {f : β → Option γ} {k : α} {l : List (α × β)}
    (nodup : (l.map Prod.fst).Nodup) :
    find k (l.filterMap fun e => (f e.2).map (e.1, ·)) = (find k l).bind f := by
  induction l with
  | nil => rfl
  | cons e rest ih =>
    rw [List.map_cons, List.nodup_cons] at nodup
    have tail := ih nodup.2
    cases value : f e.2 with
    | some c =>
      rw [List.filterMap_cons_some (b := (e.1, c)) (by simp [value]), find, find]
      by_cases same : e.1 = k
      · simp [same, value]
      · simp [same, tail]
    | none =>
      rw [List.filterMap_cons_none (by simp [value]), tail, find]
      by_cases same : e.1 = k
      · have absent : find k rest = none := by
          cases found : find k rest with
          | none => rfl
          | some v => exact absurd (List.mem_map.mpr ⟨_, mem_of_find found, same.symm⟩) nodup.1
        simp [same, value, absent]
      · simp [same]

theorem get_filterMap {γ : Type} (f : β → Option γ) (m : Assoc α β) (k : α) :
    (m.filterMap f).get k = (m.get k).bind f := find_filterMap m.nodup

theorem find_filter_value {p : β → Bool} {k : α} {l : List (α × β)}
    (nodup : (l.map Prod.fst).Nodup) :
    find k (l.filter fun e => p e.2) = (find k l).filter p := by
  have same : (l.filter fun e => p e.2)
      = l.filterMap fun e => (Option.guard p e.2).map (e.1, ·) := by
    rw [← List.filterMap_eq_filter]
    congr 1
    funext e
    cases accepted : p e.2 <;> simp [Option.guard, accepted]
  rw [same, find_filterMap nodup]
  cases find k l with
  | none => rfl
  | some v => cases accepted : p v <;> simp [Option.guard, Option.filter, accepted]

/-- The same entries in another order. -/
def arrange (order : List (α × β) → List (α × β)) (perm : ∀ l, (order l).Perm l)
    (m : Assoc α β) : Assoc α β :=
  ⟨order m.entries, ((perm m.entries).map Prod.fst).nodup_iff.mpr m.nodup⟩

theorem get_arrange {order : List (α × β) → List (α × β)} (perm : ∀ l, (order l).Perm l)
    (m : Assoc α β) (k : α) : (m.arrange order perm).get k = m.get k :=
  find_perm (perm m.entries) (m.arrange order perm).nodup

end Assoc

end QjsLws.Misc
