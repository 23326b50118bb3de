import QjsLws.Linked.Heap

/-!
# Rings

A list is a ring of links through its head. What is inserted or removed stands between two neighbours, and the
links of all others are as they were.
-/

namespace QjsLws.Linked

open Script

variable {α β γ : Type}

/-! ## Runs of scripts -/

/-- The script ends with a result on another heap. -/
def Runs (m : Script α β) (h : Heap α) (b : β) (h' : Heap α) : Prop := m.run.run h = some (.ok b, h')

theorem Runs.bind_eq {m : Script α β} {h h₁ : Heap α} {b : β} (first : Runs m h b h₁) (f : β → Script α γ) :
    (m >>= f).run.run h = (f b).run.run h₁ := by
  unfold Runs at first
  rw [ExceptT.run_bind, StateT.run_bind, first]
  rfl

theorem Runs.bind {m : Script α β} {f : β → Script α γ} {h h₁ h₂ : Heap α} {b : β} {c : γ}
    (first : Runs m h b h₁) (rest : Runs (f b) h₁ c h₂) : Runs (m >>= f) h c h₂ :=
  (first.bind_eq f).trans rest

theorem runs_pure (b : β) (h : Heap α) : Runs (pure b : Script α β) h b h := rfl

/-! ## Links -/

namespace Heap

/-- `b` comes to stand behind `a`. -/
def link (h : Heap α) (a b : Ref) : Heap α :=
  { h with next := Function.update h.next a (some b), prev := Function.update h.prev b (some a) }

/-- The links of `a` are set to `null`. -/
def unlink (h : Heap α) (a : Ref) : Heap α :=
  { h with next := Function.update h.next a none, prev := Function.update h.prev a none }

end Heap

section Links

variable {h h' : Heap α} {a b : Ref} {c : List Ref}

theorem link_link (h : Heap α) (a b : Ref) : Link (h.link a b) a b :=
  ⟨Function.update_self .., Function.update_self ..⟩

/-- A chain only depends on what stands behind all but its last node, and before all but its first. -/
theorem isChain_congr (next : ∀ a ∈ c.dropLast, h'.next a = h.next a) (prev : ∀ b ∈ c.tail, h'.prev b = h.prev b)
    (chain : c.IsChain (Link h)) : c.IsChain (Link h') := by
  induction c with
  | nil => exact .nil
  | cons a c ih =>
    cases c with
    | nil => exact .singleton a
    | cons b c =>
      obtain ⟨first, rest⟩ := List.isChain_cons_cons.mp chain
      refine List.isChain_cons_cons.mpr ⟨?_, ih ?_ ?_ rest⟩
      · rw [Link, next a (by simp), prev b (by simp)]
        exact first
      · intro x member
        exact next x (by simp [member])
      · intro x member
        exact prev x (List.mem_cons_of_mem _ member)

theorem isChain_link (outside : a ∉ c.dropLast) (outside' : b ∉ c.tail) (chain : c.IsChain (Link h)) :
    c.IsChain (Link (h.link a b)) := by
  refine isChain_congr (fun x member => ?_) (fun x member => ?_) chain
  · exact Function.update_of_ne (ne_of_mem_of_not_mem member outside) ..
  · exact Function.update_of_ne (ne_of_mem_of_not_mem member outside') ..

theorem isChain_unlink (outside : a ∉ c) (chain : c.IsChain (Link h)) : c.IsChain (Link (h.unlink a)) := by
  refine isChain_congr (fun x member => ?_) (fun x member => ?_) chain
  · exact Function.update_of_ne (ne_of_mem_of_not_mem (List.dropLast_subset _ member) outside) ..
  · exact Function.update_of_ne (ne_of_mem_of_not_mem (List.mem_of_mem_tail member) outside) ..

end Links

/-! ## Insertion and removal -/

section Rings

variable {h : Heap α} {head el p n : Ref} {l r l' r' : List Ref}

/-- The way around the ring, over the neighbours at a place of the list. -/
theorem around (front : head :: l = l' ++ [p]) (back : r ++ [head] = n :: r') (middle : List Ref) :
    head :: (l ++ (middle ++ r)) ++ [head] = l' ++ p :: (middle ++ n :: r') := by
  rw [← back, List.append_cons l', ← front]
  simp

/-- The two neighbours at a place of the list. -/
theorem Ring.cut (ring : Ring h head (l ++ r)) (front : head :: l = l' ++ [p]) (back : r ++ [head] = n :: r') :
    (l' ++ [p]).IsChain (Link h) ∧ (n :: r').IsChain (Link h) ∧ Link h p n := by
  have shape : head :: (l ++ r) ++ [head] = l' ++ p :: n :: r' := around front back []
  have chain := ring.chain
  rw [shape, List.isChain_append_cons_cons] at chain
  exact ⟨chain.1, chain.2.2, chain.2.1⟩

/-- The nodes on both sides of a place are different. -/
theorem nodup_sides (nodup : (head :: (l ++ r)).Nodup) (front : head :: l = l' ++ [p])
    (back : r ++ [head] = n :: r') : p ∉ l' ∧ n ∉ r' ∧ n ∉ l ∧ p ∉ r := by
  have left : (l' ++ [p] ++ r).Nodup := by
    rw [← front]
    exact nodup
  have right : (l ++ n :: r').Nodup := by
    rw [← back]
    have perm : (l ++ (r ++ [head])).Perm (head :: (l ++ r)) := by
      rw [← List.append_assoc]
      exact List.perm_append_singleton head (l ++ r)
    exact perm.nodup_iff.mpr nodup
  refine ⟨?_, ?_, ?_, ?_⟩
  · intro member
    exact (List.nodup_append.mp (List.nodup_append.mp left).1).2.2 p member p (by simp) rfl
  · exact (List.nodup_cons.mp (List.nodup_append.mp right).2.1).1
  · intro member
    exact (List.nodup_append.mp right).2.2 n member n (by simp) rfl
  · intro member
    exact (List.nodup_append.mp left).2.2 p (by simp) p member rfl

theorem ring_insert (ring : Ring h head (l ++ r)) (front : head :: l = l' ++ [p]) (back : r ++ [head] = n :: r')
    (new : el ∉ head :: (l ++ r)) : Ring ((h.link p el).link el n) head (l ++ el :: r) := by
  obtain ⟨left, right, -⟩ := ring.cut front back
  obtain ⟨pl, nr, nl, pr⟩ := nodup_sides ring.nodup front back
  have elLeft : el ∉ l' ++ [p] := by
    rw [← front]
    exact fun member => new (by simp at member ⊢; tauto)
  have elRight : el ∉ n :: r' := by
    rw [← back]
    exact fun member => new (by simp at member ⊢; tauto)
  constructor
  · have perm : (head :: (l ++ el :: r)).Perm (el :: head :: (l ++ r)) :=
      (List.perm_middle.cons head).trans (List.Perm.swap el head _)
    exact perm.nodup_iff.mpr (List.nodup_cons.mpr ⟨new, ring.nodup⟩)
  · have shape : head :: (l ++ el :: r) ++ [head] = l' ++ p :: el :: n :: r' := around front back [el]
    rw [shape, List.isChain_append_cons_cons, List.isChain_cons_cons]
    refine ⟨?_, ?_, link_link _ el n, ?_⟩
    · refine isChain_link ?_ ?_ (isChain_link ?_ ?_ left)
      · exact fun member => elLeft (List.dropLast_subset _ member)
      · rw [← front]
        exact nl
      · rw [List.dropLast_concat]
        exact pl
      · exact fun member => elLeft (List.mem_of_mem_tail member)
    · have other : p ≠ el := fun same => elLeft (by simp [same])
      have other' : el ≠ n := fun same => elRight (by simp [same])
      exact ⟨(Function.update_of_ne other ..).trans (link_link h p el).1,
        (Function.update_of_ne other' ..).trans (link_link h p el).2⟩
    · refine isChain_link ?_ nr (isChain_link ?_ ?_ right)
      · exact fun member => elRight (List.dropLast_subset _ member)
      · rw [← back, List.dropLast_concat]
        exact pr
      · exact fun member => elRight (List.mem_of_mem_tail member)

theorem ring_remove (ring : Ring h head (l ++ el :: r)) (front : head :: l = l' ++ [p])
    (back : r ++ [head] = n :: r') : Ring ((h.link p n).unlink el) head (l ++ r) := by
  have perm : (head :: (l ++ el :: r)).Perm (el :: head :: (l ++ r)) :=
    (List.perm_middle.cons head).trans (List.Perm.swap el head _)
  obtain ⟨gone, nodup⟩ := List.nodup_cons.mp (perm.nodup_iff.mp ring.nodup)
  obtain ⟨pl, nr, nl, pr⟩ := nodup_sides nodup front back
  have shape : head :: (l ++ el :: r) ++ [head] = l' ++ p :: el :: n :: r' := around front back [el]
  have chain := ring.chain
  rw [shape, List.isChain_append_cons_cons, List.isChain_cons_cons] at chain
  obtain ⟨left, -, -, right⟩ := chain
  have shape' : head :: (l ++ r) ++ [head] = l' ++ p :: n :: r' := around front back []
  refine ⟨nodup, isChain_unlink ?_ ?_⟩
  · intro member
    exact gone (by simp at member ⊢; tauto)
  · rw [shape', List.isChain_append_cons_cons]
    refine ⟨isChain_link ?_ ?_ left, link_link h p n, isChain_link ?_ nr right⟩
    · rw [List.dropLast_concat]
      exact pl
    · rw [← front]
      exact nl
    · rw [← back, List.dropLast_concat]
      exact pr

/-- What stands first, and last. -/
theorem Ring.first (ring : Ring h head r) (back : r ++ [head] = n :: r') : Link h head n :=
  (@Ring.cut α h head head n [] r [] r' ring rfl back).2.2

theorem Ring.last (ring : Ring h head l) (front : head :: l = l' ++ [p]) : Link h p head := by
  have whole : Ring h head (l ++ []) := by
    rw [List.append_nil]
    exact ring
  exact (whole.cut front (List.nil_append [head])).2.2

/-- Any node of a ring can be taken for its head. -/
theorem Ring.rotate (ring : Ring h head (l ++ el :: r)) : Ring h el (r ++ head :: l) := by
  obtain ⟨nodup, chain⟩ := ring
  constructor
  · have perm : (el :: (r ++ head :: l)).Perm (head :: (l ++ el :: r)) := by
      rw [← List.cons_append, ← List.cons_append]
      exact List.perm_append_comm
    exact perm.nodup_iff.mpr nodup
  · have shape : head :: (l ++ el :: r) ++ [head] = (head :: l) ++ el :: (r ++ [head]) := by simp
    have shape' : el :: (r ++ head :: l) ++ [el] = (el :: r) ++ head :: (l ++ [el]) := by simp
    rw [shape, List.isChain_split] at chain
    rw [shape', List.isChain_split]
    exact ⟨chain.2, chain.1⟩

/-- A ring only depends on the links of its own nodes. -/
theorem Ring.congr {h' : Heap α} (ring : Ring h head l)
    (same : ∀ x ∈ head :: l, h'.next x = h.next x ∧ h'.prev x = h.prev x) : Ring h' head l := by
  refine ⟨ring.nodup, isChain_congr (fun x member => ?_) (fun x member => ?_) ring.chain⟩
  · rw [List.dropLast_concat] at member
    exact (same x member).1
  · have among : x ∈ head :: l := by
      simp at member ⊢
      tauto
    exact (same x among).2

end Rings

/-! ## The way on -/

section Onward

variable {h h' : Heap α} {o x : Ref} {xs rest : List Ref}

/-- The `next` pointers lead through the list and then to the node behind it. -/
def Onward (h : Heap α) : List Ref → Ref → Prop
  | [], _ => True
  | x :: xs, o => h.next x = (xs ++ [o]).head? ∧ Onward h xs o

theorem Onward.congr (onward : Onward h xs o) (same : ∀ x ∈ xs, h'.next x = h.next x) : Onward h' xs o := by
  induction xs with
  | nil => trivial
  | cons x xs ih =>
    exact ⟨(same x List.mem_cons_self).trans onward.1,
      ih onward.2 fun y member => same y (List.mem_cons_of_mem _ member)⟩

theorem onward_of_chain (chain : (xs ++ [o]).IsChain (Link h)) : Onward h xs o := by
  induction xs with
  | nil => trivial
  | cons x xs ih =>
    rw [List.cons_append, List.isChain_cons] at chain
    obtain ⟨y, first⟩ : ∃ y, (xs ++ [o]).head? = some y := by
      cases xs <;> exact ⟨_, rfl⟩
    exact ⟨(chain.1 y first).1.trans first.symm, ih chain.2⟩

/-- The first nodes lead to the next one, and the others on. -/
theorem onward_append {c : Ref} (next : (rest ++ [o]).head? = some c) :
    Onward h (xs ++ rest) o ↔ Onward h xs c ∧ Onward h rest o := by
  induction xs with
  | nil => exact (and_iff_right trivial).symm
  | cons x xs ih =>
    have same : (xs ++ rest ++ [o]).head? = (xs ++ [c]).head? := by
      cases xs with
      | nil => exact next
      | cons y xs => rfl
    rw [List.cons_append, Onward, Onward, same, ih, and_assoc]

theorem exists_head (rest : List Ref) (o : Ref) : ∃ c, (rest ++ [o]).head? = some c := by
  cases rest <;> exact ⟨_, rfl⟩

end Onward

/-! ## What a script leaves -/

/-- Only the links of these nodes change. -/
structure Touches (s : List Ref) (h h' : Heap α) : Prop where
  next : ∀ x, x ∉ s → h'.next x = h.next x
  prev : ∀ x, x ∉ s → h'.prev x = h.prev x
  data : h'.data = h.data
  fresh : h'.fresh = h.fresh

section Frames

variable {h h₁ h₂ : Heap α} {s t : List Ref} {a b : Ref}

theorem Touches.refl (s : List Ref) (h : Heap α) : Touches s h h := ⟨fun _ _ => rfl, fun _ _ => rfl, rfl, rfl⟩

theorem Touches.trans (first : Touches s h h₁) (second : Touches s h₁ h₂) : Touches s h h₂ where
  next x outside := (second.next x outside).trans (first.next x outside)
  prev x outside := (second.prev x outside).trans (first.prev x outside)
  data := second.data.trans first.data
  fresh := second.fresh.trans first.fresh

theorem Touches.mono (touches : Touches s h h₁) (inside : ∀ x ∈ s, x ∈ t) : Touches t h h₁ where
  next x outside := touches.next x fun member => outside (inside x member)
  prev x outside := touches.prev x fun member => outside (inside x member)
  data := touches.data
  fresh := touches.fresh

theorem touches_link (ina : a ∈ s) (inb : b ∈ s) : Touches s h (h.link a b) where
  next _ outside := Function.update_of_ne (ne_of_mem_of_not_mem ina outside).symm ..
  prev _ outside := Function.update_of_ne (ne_of_mem_of_not_mem inb outside).symm ..
  data := rfl
  fresh := rfl

theorem touches_unlink (ina : a ∈ s) : Touches s h (h.unlink a) where
  next _ outside := Function.update_of_ne (ne_of_mem_of_not_mem ina outside).symm ..
  prev _ outside := Function.update_of_ne (ne_of_mem_of_not_mem ina outside).symm ..
  data := rfl
  fresh := rfl

end Frames

/-! ## The functions on rings -/

section Functions

variable {h : Heap α} {head el p n : Ref} {l r l' r' : List Ref}

theorem runs_listAdd (h : Heap α) (el prev next : Ref) :
    Runs (_listAdd (some el) (some prev) (some next)) h () ((h.link prev el).link el next) := rfl

theorem runs_next (h : Heap α) (a : Ref) : Runs (next (some a)) h (h.next a) h := rfl

theorem runs_prev (h : Heap α) (a : Ref) : Runs (prev (some a)) h (h.prev a) h := rfl

theorem runs_data (h : Heap α) (a : Ref) : Runs (data (some a)) h (h.data a) h := rfl

theorem runs_setNext (h : Heap α) (a : Ref) (value : Pointer) :
    Runs (setNext (some a) value) h () { h with next := Function.update h.next a value } := rfl

theorem runs_setPrev (h : Heap α) (a : Ref) (value : Pointer) :
    Runs (setPrev (some a) value) h () { h with prev := Function.update h.prev a value } := rfl

theorem runs_listDel (before : h.prev el = some p) (behind : h.next el = some n) :
    Runs (listDel (some el)) h () ((h.link p n).unlink el) := by
  refine (runs_prev h el).bind ((runs_next h el).bind ?_)
  rw [before, behind]
  rfl

theorem runs_listEmpty (ring : Ring h head l) : Runs (listEmpty (some head)) h (l.isEmpty) h := by
  refine (runs_next h head).bind ?_
  cases l with
  | nil =>
    rw [(ring.first (List.nil_append [head])).1, decide_eq_true rfl]
    rfl
  | cons x l =>
    have other : some x ≠ some head := by
      intro same
      exact (List.nodup_cons.mp ring.nodup).1 (by simp [Option.some.inj same])
    rw [(ring.first List.cons_append).1, decide_eq_false other]
    rfl

end Functions

end QjsLws.Linked
