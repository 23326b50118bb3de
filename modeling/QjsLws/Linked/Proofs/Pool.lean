import QjsLws.Linked.Pool
import QjsLws.Linked.Proofs.LinkedList

/-!
# Lists in the manner of the kernel, proofs

A call changes the links of one list, or of two, and of the node that is put in; all other lists are as they
were. What is put in stands between two neighbours, be it one node or all nodes of a list.
-/

namespace QjsLws.Linked

open Script

variable {α β : Type}

/-! ## Nodes between two neighbours -/

section Between

variable {h : Heap α} {head src old el p n f t : Ref} {l r l' r' s s' : List Ref}

/-- A chain comes to stand between two neighbours. -/
theorem ring_between (left : (l' ++ [p]).IsChain (Link h)) (right : (n :: r').IsChain (Link h))
    (middle : (f :: s).IsChain (Link h)) (last : f :: s = s' ++ [t]) (nodup : (head :: (l ++ (f :: s ++ r))).Nodup)
    (front : head :: l = l' ++ [p]) (back : r ++ [head] = n :: r') :
    Ring ((h.link p f).link t n) head (l ++ (f :: s ++ r)) := by
  have outer : (head :: (l ++ r)).Nodup :=
    nodup.sublist (((List.sublist_append_right (f :: s) r).append_left l).cons_cons head)
  obtain ⟨pl, nr, nl, pr⟩ := nodup_sides outer front back
  have sides : ∀ x ∈ f :: s, x ∉ head :: l ∧ x ∉ r := by
    intro x member
    have parts : ((head :: l) ++ (f :: s ++ r)).Nodup := nodup
    obtain ⟨-, inner, across⟩ := List.nodup_append.mp parts
    exact ⟨fun early => across x early x (List.mem_append_left r member) rfl,
      fun late => (List.nodup_append.mp inner).2.2 x member x late rfl⟩
  have inside : (f :: s).Nodup := nodup.sublist
    (((List.sublist_append_left (f :: s) r).trans (List.sublist_append_right l _)).cons head)
  have inFront : p ∈ head :: l := by rw [front]; simp
  have inBack : n ∈ r ++ [head] := by rw [back]; simp
  have pOut : p ∉ f :: s := fun member => (sides p member).1 inFront
  have nOut : n ∉ f :: s := by
    intro member
    rcases List.mem_append.mp inBack with late | here
    · exact (sides n member).2 late
    · exact (sides n member).1 (by simp [List.mem_singleton.mp here])
  have tIn : t ∈ f :: s := by rw [last]; simp
  obtain ⟨fl, fr⟩ := sides f List.mem_cons_self
  obtain ⟨tl, tr⟩ := sides t tIn
  have fl' : f ∉ l := fun member => fl (List.mem_cons_of_mem _ member)
  have tl' : t ∉ l' := fun member => tl (by rw [front]; exact List.mem_append_left _ member)
  have fr' : f ∉ r' := by
    intro member
    have among : f ∈ r ++ [head] := by rw [back]; exact List.mem_cons_of_mem _ member
    rcases List.mem_append.mp among with late | here
    · exact fr late
    · exact fl (by simp [List.mem_singleton.mp here])
  refine ⟨nodup, ?_⟩
  have shape : head :: (l ++ (f :: s ++ r)) ++ [head] = l' ++ p :: f :: (s ++ n :: r') := around front back (f :: s)
  have shape' : f :: (s ++ n :: r') = s' ++ t :: n :: r' := by
    rw [← List.cons_append, last, List.append_assoc]
    rfl
  rw [shape, List.isChain_append_cons_cons, shape', List.isChain_append_cons_cons, ← last]
  refine ⟨isChain_link ?_ ?_ (isChain_link ?_ ?_ left), ?_, isChain_link ?_ ?_ (isChain_link ?_ ?_ middle),
    link_link _ t n, isChain_link ?_ nr (isChain_link ?_ fr' right)⟩
  · rw [List.dropLast_concat]
    exact tl'
  · rw [← front]
    exact nl
  · rw [List.dropLast_concat]
    exact pl
  · rw [← front]
    exact fl'
  · have other : p ≠ t := fun same => pOut (same ▸ tIn)
    have other' : f ≠ n := fun same => nOut (by simp [← same])
    exact ⟨(Function.update_of_ne other ..).trans (link_link h p f).1,
      (Function.update_of_ne other' ..).trans (link_link h p f).2⟩
  · rw [last, List.dropLast_concat]
    rw [last] at inside
    exact fun member => (List.nodup_append.mp inside).2.2 t member t (by simp) rfl
  · exact fun member => nOut (List.mem_cons_of_mem _ member)
  · exact fun member => pOut (List.dropLast_subset _ member)
  · exact (List.nodup_cons.mp inside).1
  · rw [← back, List.dropLast_concat]
    exact tr
  · rw [← back, List.dropLast_concat]
    exact pr

/-- All nodes of another list come to stand between two neighbours. -/
theorem ring_join (ring : Ring h head (l ++ r)) (other : Ring h src (f :: s)) (last : f :: s = s' ++ [t])
    (apart : ∀ x ∈ f :: s, x ∉ head :: (l ++ r)) (front : head :: l = l' ++ [p]) (back : r ++ [head] = n :: r') :
    Ring ((h.link p f).link t n) head (l ++ (f :: s ++ r)) := by
  obtain ⟨left, right, -⟩ := ring.cut front back
  have middle : (f :: s).IsChain (Link h) := by
    have chain := other.chain
    rw [List.cons_append, List.isChain_cons] at chain
    exact (List.isChain_append.mp chain.2).1
  have nodup : (head :: (l ++ (f :: s ++ r))).Nodup := by
    have perm : (head :: (l ++ (f :: s ++ r))).Perm (f :: s ++ head :: (l ++ r)) := by
      refine List.Perm.trans ?_ List.perm_middle.symm
      refine List.Perm.cons head ?_
      rw [← List.append_assoc, ← List.append_assoc]
      exact List.perm_append_comm.append_right r
    refine perm.nodup_iff.mpr (List.nodup_append.mpr ⟨(List.nodup_cons.mp other.nodup).2, ring.nodup, ?_⟩)
    rintro x member y among rfl
    exact apart x member among
  exact ring_between left right middle last nodup front back

/-- A node takes the place of another. -/
theorem ring_replace (ring : Ring h head (l ++ old :: r)) (front : head :: l = l' ++ [p])
    (back : r ++ [head] = n :: r') (new : el ∉ head :: (l ++ old :: r)) :
    Ring ((h.link p el).link el n) head (l ++ el :: r) := by
  have perm (x : Ref) : (head :: (l ++ x :: r)).Perm (x :: head :: (l ++ r)) :=
    (List.perm_middle.cons head).trans (List.Perm.swap x head _)
  have shape : head :: (l ++ old :: r) ++ [head] = l' ++ p :: old :: n :: r' := around front back [old]
  have chain := ring.chain
  rw [shape, List.isChain_append_cons_cons, List.isChain_cons_cons] at chain
  obtain ⟨left, -, -, right⟩ := chain
  have outside : el ∉ head :: (l ++ r) := fun member => new ((perm old).mem_iff.mpr (List.mem_cons_of_mem _ member))
  have nodup : (head :: (l ++ el :: r)).Nodup :=
    (perm el).nodup_iff.mpr (List.nodup_cons.mpr ⟨outside, (List.nodup_cons.mp
      ((perm old).nodup_iff.mp ring.nodup)).2⟩)
  exact @ring_between α h head p n el el l r l' r' [] [] left right (.singleton el) rfl nodup front back

end Between

/-! ## The functions -/

section Functions

variable {h : Heap α} {head src dest old el n q : Ref} {l r s : List Ref}

theorem runs_listAddHead (behind : h.next head = some n) :
    Runs (listAdd (some el) (some head)) h () ((h.link head el).link el n) := by
  refine (runs_next h head).bind ?_
  rw [behind]
  exact runs_listAdd h el head n

theorem runs_listAddTail (before : h.prev head = some q) :
    Runs (listAddTail (some el) (some head)) h () ((h.link q el).link el head) := by
  refine (runs_prev h head).bind ?_
  rw [before]
  exact runs_listAdd h el q head

/-- `prev` of the old node is read when its neighbour is already told of the new one. -/
theorem runs_listReplace (behind : h.next old = some n)
    (before : Function.update h.prev n (some el) old = some q) :
    Runs (listReplace (some old) (some el)) h () ((h.link el n).link q el) := by
  refine (runs_next h old).bind ?_
  rw [behind]
  refine (runs_setNext h el (some n)).bind ((runs_next _ el).bind ?_)
  have toNext : Function.update h.next el (some n) el = some n := Function.update_self ..
  dsimp only
  rw [toNext]
  refine (runs_setPrev _ n (some el)).bind ((runs_prev _ old).bind ?_)
  dsimp only
  rw [before]
  refine (runs_setPrev _ el (some q)).bind ((runs_prev _ el).bind ?_)
  have toPrev : Function.update (Function.update h.prev n (some el)) el (some q) el = some q :=
    Function.update_self ..
  dsimp only
  rw [toPrev]
  exact runs_setNext _ q (some el)

variable {f t : Ref}

theorem runs_listSplice (ring : Ring h src (f :: s)) (last : h.prev src = some t) (behind : h.next dest = some n) :
    Runs (listSplice (some src) (some dest)) h () ((h.link dest f).link t n) := by
  refine (runs_listEmpty ring).bind ((runs_next h src).bind ((runs_prev h src).bind ((runs_next h dest).bind ?_)))
  rw [(ring.first List.cons_append).1, last, behind]
  rfl

theorem runs_listMerge (ring : Ring h src (f :: s)) (last : h.prev src = some t) (behind : h.next dest = some n) :
    Runs (listMerge (some dest) (some src)) h () ((h.link dest f).link t n) := by
  refine (runs_listEmpty ring).bind ((runs_next h src).bind ((runs_prev h src).bind ((runs_next h dest).bind ?_)))
  rw [(ring.first List.cons_append).1, last, behind]
  rfl

theorem runs_listMergeTail (ring : Ring h src (f :: s)) (last : h.prev src = some t)
    (before : h.prev dest = some q) :
    Runs (listMergeTail (some dest) (some src)) h () ((h.link q f).link t dest) := by
  refine (runs_listEmpty ring).bind ((runs_prev h dest).bind ((runs_next h src).bind ((runs_prev h src).bind ?_)))
  rw [(ring.first List.cons_append).1, last, before]
  rfl

end Functions

/-! ## The lists that are alive -/

namespace Pool

section Kept

variable {h h' : Heap α} {pool pool' : Pool} {s l : List Ref} {c d new : Ref × List Ref} {head x : Ref}

/-- The lists are rings on the heap, and no two of them share a node. -/
structure Kept (h : Heap α) (pool : Pool) : Prop where
  rings : ∀ c ∈ pool, Ring h c.1 c.2
  apart : ∀ c ∈ pool, ∀ d ∈ pool, c = d ∨ ∀ x ∈ refs c, x ∉ refs d

theorem Kept.same (kept : Kept h pool) (there : c ∈ pool) (there' : d ∈ pool) (inC : x ∈ refs c) (inD : x ∈ refs d) :
    c = d :=
  (kept.apart c there d there').resolve_right fun apart => apart x inC inD

/-- One list is new, and the others are apart from what was touched. -/
theorem kept_of (kept : Kept h pool) (touches : Touches s h h') (ring : Ring h' new.1 new.2)
    (inside : ∀ x ∈ refs new, x ∈ s) (each : ∀ c ∈ pool', c = new ∨ c ∈ pool ∧ ∀ x ∈ refs c, x ∉ s) :
    Kept h' pool' := by
  refine ⟨fun c member => ?_, fun c member d member' => ?_⟩
  · rcases each c member with rfl | ⟨there, outside⟩
    · exact ring
    · exact (kept.rings c there).congr fun x among =>
        ⟨touches.next x (outside x among), touches.prev x (outside x among)⟩
  · rcases each c member with rfl | ⟨there, outside⟩
    · rcases each d member' with rfl | ⟨-, outside'⟩
      · exact .inl rfl
      · exact .inr fun x among among' => outside' x among' (inside x among)
    · rcases each d member' with rfl | ⟨there', -⟩
      · exact .inr fun x among among' => outside x among (inside x among')
      · exact kept.apart c there d there'

theorem mem_of_lookup (found : pool.lookup head = some l) : (head, l) ∈ pool := by
  obtain ⟨before, after, rfl, -⟩ := List.lookup_eq_some_iff.mp found
  simp

/-- A change of one list. -/
theorem kept_change (kept : Kept h pool) (there : (head, l) ∈ pool) {f : List Ref → List Ref}
    (touches : Touches s h h') (ring : Ring h' head (f l)) (inside : ∀ x ∈ head :: f l, x ∈ s)
    (outside : ∀ c ∈ pool, c ≠ (head, l) → ∀ x ∈ refs c, x ∉ s) :
    Kept h' (pool.map fun c => if c.1 = head then (c.1, f c.2) else c) := by
  refine @kept_of α h h' pool _ s (head, f l) kept touches ring inside fun c member => ?_
  obtain ⟨d, among, rfl⟩ := List.mem_map.mp member
  by_cases named : d.1 = head
  · have same : d = (head, l) := kept.same among there (List.mem_cons_self) (by simp [refs, named])
    rw [if_pos named, same]
    exact .inl rfl
  · rw [if_neg named]
    exact .inr ⟨among, outside d among fun same => named (by rw [same])⟩

/-- A free node, and the list it is put in, are apart from the others. -/
theorem outside_of_free (kept : Kept h pool) (there : (head, l) ∈ pool) {el : Ref} (free : pool.Free el)
    (within : ∀ x ∈ s, x = el ∨ x ∈ head :: l) : ∀ c ∈ pool, c ≠ (head, l) → ∀ x ∈ refs c, x ∉ s := by
  intro c among other x member touched
  rcases within x touched with rfl | mine
  · exact free c among member
  · exact other (kept.same among there member mine)

end Kept

/-! ## The calls -/

section Calls

variable {h : Heap α} {pool pool' : Pool} {s l : List Ref} {f : List Ref → List Ref} {el head old src dest : Ref}

theorem change_some (done : pool.change head f = some pool') :
    ∃ l, (head, l) ∈ pool ∧ pool' = pool.map fun c => if c.1 = head then (c.1, f c.2) else c := by
  unfold change at done
  by_cases found : (pool.lookup head).isSome
  · rw [if_pos found] at done
    obtain ⟨l, there⟩ := Option.isSome_iff_exists.mp found
    exact ⟨l, mem_of_lookup there, (Option.some.inj done).symm⟩
  · rw [if_neg found] at done
    exact absurd done (by simp)

theorem insert_some (done : pool.insert el head f = some pool') :
    pool.Free el ∧ pool.change head f = some pool' := by
  unfold Pool.insert at done
  by_cases free : pool.Free el
  · exact ⟨free, by rwa [if_pos free] at done⟩
  · rw [if_neg free] at done
    exact absurd done (by simp)

/-- A node is put in front. -/
theorem kept_add (kept : Kept h pool) (done : pool.insert el head (el :: ·) = some pool') :
    ∃ h', Runs (listAdd (some el) (some head)) h () h' ∧ Kept h' pool' := by
  obtain ⟨free, changed⟩ := insert_some done
  obtain ⟨l, there, rfl⟩ := change_some changed
  have ring := kept.rings _ there
  obtain ⟨n, r', back⟩ := exists_first l head
  have among : n ∈ l ++ [head] := by rw [back]; simp
  have mine : n ∈ el :: head :: l := by
    simp at among ⊢
    tauto
  refine ⟨_, runs_listAddHead (ring.first back).1, kept_change kept there (s := el :: head :: l)
    ((touches_link ?_ ?_).trans (touches_link ?_ mine))
    (@ring_insert α h head el head n [] l [] r' ring rfl back (free _ there)) (fun x member => ?_)
    (outside_of_free kept there free fun x member => List.mem_cons.mp member)⟩
  · simp
  · simp
  · simp
  · simp only [List.mem_cons] at member ⊢
    tauto

/-- A node is put at the end. -/
theorem kept_addTail (kept : Kept h pool) (done : pool.insert el head (· ++ [el]) = some pool') :
    ∃ h', Runs (listAddTail (some el) (some head)) h () h' ∧ Kept h' pool' := by
  obtain ⟨free, changed⟩ := insert_some done
  obtain ⟨l, there, rfl⟩ := change_some changed
  have ring := kept.rings _ there
  have ring' : Ring h head (l ++ []) := by
    rw [List.append_nil]
    exact ring
  obtain ⟨l', p, front⟩ := exists_last l head
  have mine : p ∈ el :: head :: l := by
    rw [front]
    simp
  have new : el ∉ head :: (l ++ []) := by
    rw [List.append_nil]
    exact free _ there
  refine ⟨_, runs_listAddTail (ring.last front).2, kept_change (f := (· ++ [el])) (s := el :: head :: l) kept there
    ((touches_link mine ?_).trans (touches_link ?_ ?_))
    (ring_insert ring' front (List.nil_append [head]) new) (fun x member => ?_)
    (outside_of_free kept there free fun x member => List.mem_cons.mp member)⟩
  · simp
  · simp
  · simp
  · simp only [List.mem_cons, List.mem_append, List.mem_nil_iff, or_false] at member ⊢
    tauto

/-- A node is taken out of its ring. -/
theorem runs_del {r : List Ref} (ring : Ring h head (l ++ el :: r)) :
    ∃ h', Runs (listDel (some el)) h () h' ∧ Ring h' head (l ++ r) ∧ Touches (head :: (l ++ el :: r)) h h' := by
  obtain ⟨l', p, front⟩ := exists_last l head
  obtain ⟨n, r', back⟩ := exists_first r head
  have shape : head :: (l ++ el :: r) ++ [head] = l' ++ p :: el :: n :: r' := around front back [el]
  have chain := ring.chain
  rw [shape, List.isChain_append_cons_cons, List.isChain_cons_cons] at chain
  obtain ⟨-, before, behind, -⟩ := chain
  have pIn : p ∈ head :: (l ++ el :: r) := by
    have among : p ∈ head :: l := by rw [front]; simp
    simp only [List.mem_cons, List.mem_append] at among ⊢
    tauto
  have nIn : n ∈ head :: (l ++ el :: r) := by
    have among : n ∈ r ++ [head] := by rw [back]; simp
    simp only [List.mem_cons, List.mem_append, List.mem_nil_iff, or_false] at among ⊢
    tauto
  exact ⟨_, runs_listDel before.2 behind.1, ring_remove ring front back,
    (touches_link pIn nIn).trans (touches_unlink (by simp))⟩

/-- A node is taken out of its list. -/
theorem kept_del (kept : Kept h pool) (done : pool.remove el = some pool') :
    ∃ h', Runs (listDel (some el)) h () h' ∧ Kept h' pool' := by
  unfold remove at done
  by_cases found : ∃ c ∈ pool, el ∈ c.2
  · rw [if_pos found] at done
    obtain rfl := Option.some.inj done
    obtain ⟨⟨head, nodes⟩, there, inside⟩ := found
    obtain ⟨l, r, rfl⟩ := List.append_of_mem inside
    have ring := kept.rings _ there
    obtain ⟨h', ran, ring', touches⟩ := runs_del ring
    have notLeft : el ∉ l := fun early =>
      (List.nodup_append.mp (List.nodup_cons.mp ring.nodup).2).2.2 el early el (by simp) rfl
    have rest : (l ++ el :: r).erase el = l ++ r := by
      rw [List.erase_append_right _ notLeft, List.erase_cons_head]
    refine ⟨h', ran, @kept_of α h h' pool _ (head :: (l ++ el :: r)) (head, l ++ r) kept touches ring'
      (fun x member => ?_) fun c member => ?_⟩
    · simp only [refs, List.mem_cons, List.mem_append] at member ⊢
      tauto
    · obtain ⟨d, among, rfl⟩ := List.mem_map.mp member
      by_cases same : d = (head, l ++ el :: r)
      · left
        rw [same, rest]
      · right
        have apart : ∀ x ∈ refs d, x ∉ head :: (l ++ el :: r) := fun x here mine =>
          same (kept.same among there here mine)
        have absent : el ∉ d.2 := fun here => apart el (List.mem_cons_of_mem _ here) (by simp)
        rw [List.erase_of_not_mem absent]
        exact ⟨among, apart⟩
  · rw [if_neg found] at done
    exact absurd done (by simp)

/-- Links of different nodes are set in any order. -/
theorem link_comm (h : Heap α) {a b c d : Ref} (behind : a ≠ c) (before : b ≠ d) :
    (h.link a b).link c d = (h.link c d).link a b := by
  unfold Heap.link
  rw [Function.update_comm behind.symm, Function.update_comm before.symm]

theorem map_replaced {l : List Ref} (absent : old ∉ l) : l.map (replaced old el) = l := by
  refine (List.map_congr_left fun x member => ?_).trans (List.map_id l)
  exact if_neg (ne_of_mem_of_not_mem member absent)

/-- A node that is in a list is replaced. -/
theorem runs_replace {nodes : List Ref} (ring : Ring h head nodes) (inside : old ∈ nodes)
    (new : el ∉ head :: nodes) :
    ∃ h', Runs (listReplace (some old) (some el)) h () h' ∧ Ring h' head (nodes.map (replaced old el)) ∧
      Touches (el :: head :: nodes) h h' := by
  obtain ⟨l, r, rfl⟩ := List.append_of_mem inside
  obtain ⟨l', p, front⟩ := exists_last l head
  obtain ⟨n, r', back⟩ := exists_first r head
  have shape : head :: (l ++ old :: r) ++ [head] = l' ++ p :: old :: n :: r' := around front back [old]
  have chain := ring.chain
  rw [shape, List.isChain_append_cons_cons, List.isChain_cons_cons] at chain
  obtain ⟨-, before, behind, -⟩ := chain
  have pIn : p ∈ head :: (l ++ old :: r) := by
    have among : p ∈ head :: l := by rw [front]; simp
    simp only [List.mem_cons, List.mem_append] at among ⊢
    tauto
  have among : n ∈ r ++ [head] := by rw [back]; simp
  have nIn : n ∈ head :: (l ++ old :: r) := by
    simp only [List.mem_cons, List.mem_append, List.mem_nil_iff, or_false] at among ⊢
    tauto
  have perm : (head :: (l ++ old :: r)).Perm (old :: head :: (l ++ r)) :=
    (List.perm_middle.cons head).trans (List.Perm.swap old head _)
  have absent := (List.nodup_cons.mp (perm.nodup_iff.mp ring.nodup)).1
  simp only [List.mem_cons, List.mem_append, not_or] at absent
  have other : n ≠ old := by
    rintro rfl
    simp only [List.mem_append, List.mem_singleton] at among
    tauto
  have still : Function.update h.prev n (some el) old = some p := (Function.update_of_ne other.symm ..).trans before.2
  have apart (x : Ref) (mine : x ∈ head :: (l ++ old :: r)) : el ≠ x := fun same => new (same ▸ mine)
  have values : (l ++ old :: r).map (replaced old el) = l ++ el :: r := by
    rw [List.map_append, List.map_cons, map_replaced absent.2.1, map_replaced absent.2.2]
    simp [replaced]
  refine ⟨_, runs_listReplace behind.1 still, ?_, ?_⟩
  · rw [values, link_comm h (apart p pIn) (apart n nIn).symm]
    exact ring_replace ring front back new
  · exact (touches_link List.mem_cons_self (List.mem_cons_of_mem _ nIn)).trans
      (touches_link (List.mem_cons_of_mem _ pIn) List.mem_cons_self)

/-- A head is replaced, also that of an empty list. -/
theorem runs_replaceHead {nodes : List Ref} (ring : Ring h old nodes) (new : el ∉ old :: nodes) :
    ∃ h', Runs (listReplace (some old) (some el)) h () h' ∧ Ring h' el nodes ∧ Touches (el :: old :: nodes) h h' := by
  cases nodes with
  | nil =>
    have behind : h.next old = some old := (ring.first (List.nil_append [old])).1
    have before : Function.update h.prev old (some el) old = some el := Function.update_self ..
    refine ⟨_, runs_listReplace behind before, ⟨List.nodup_singleton el,
      List.isChain_cons_cons.mpr ⟨link_link _ el el, .singleton el⟩⟩, ?_⟩
    exact (touches_link List.mem_cons_self (by simp)).trans (touches_link List.mem_cons_self List.mem_cons_self)
  | cons x xs =>
    have turned : Ring h x (xs ++ [old]) := @Ring.rotate α h old x [] xs ring
    have absent : old ∉ xs := fun member => (List.nodup_cons.mp ring.nodup).1 (List.mem_cons_of_mem _ member)
    have new' : el ∉ x :: (xs ++ [old]) := fun member => new (by simp at member ⊢; tauto)
    obtain ⟨h', ran, ring', touches⟩ := runs_replace turned (List.mem_append_right xs
      (List.mem_singleton_self old)) new'
    have values : (xs ++ [old]).map (replaced old el) = xs ++ [el] := by
      rw [List.map_append, map_replaced absent]
      simp [replaced]
    rw [values] at ring'
    refine ⟨h', ran, @Ring.rotate α h' x el xs [] ring', touches.mono fun y member => ?_⟩
    simp only [List.mem_cons, List.mem_append, List.mem_nil_iff, or_false] at member ⊢
    tauto

/-- A node takes the place of another. -/
theorem kept_replace (kept : Kept h pool) (done : pool.replace old el = some pool') :
    ∃ h', Runs (listReplace (some old) (some el)) h () h' ∧ Kept h' pool' := by
  unfold replace at done
  by_cases allowed : pool.Free el ∧ ¬ pool.Free old
  · rw [if_pos allowed] at done
    obtain rfl := Option.some.inj done
    obtain ⟨free, taken⟩ := allowed
    obtain ⟨⟨head, nodes⟩, there, inside⟩ : ∃ c ∈ pool, old ∈ refs c := by simpa [Free] using taken
    have ring := kept.rings _ there
    have new := free _ there
    -- the others are as they were
    have others : ∀ d ∈ pool, d ≠ (head, nodes) → (replaced old el d.1, d.2.map (replaced old el)) = d ∧
        ∀ x ∈ refs d, x ∉ el :: head :: nodes := by
      intro d among other
      have apart : ∀ x ∈ refs d, x ∉ head :: nodes := fun x here mine => other (kept.same among there here mine)
      have absent : old ∉ refs d := fun here => apart old here inside
      obtain ⟨other', absent'⟩ : ¬ old = d.1 ∧ old ∉ d.2 := by simpa [refs] using absent
      refine ⟨Prod.ext (if_neg (Ne.symm other')) (map_replaced absent'), fun x here mine => ?_⟩
      rcases List.mem_cons.mp mine with rfl | mine
      · exact free d among here
      · exact apart x here mine
    have result {h' : Heap α} (touches : Touches (el :: head :: nodes) h h')
        (ring' : Ring h' (replaced old el head) (nodes.map (replaced old el))) :
        Kept h' (pool.map fun c => (replaced old el c.1, c.2.map (replaced old el))) := by
      refine @kept_of α h h' pool _ _ (replaced old el head, nodes.map (replaced old el)) kept touches ring'
        (fun x member => ?_) fun c member => ?_
      · have among : x ∈ (head :: nodes).map (replaced old el) := member
        obtain ⟨y, mine, rfl⟩ := List.mem_map.mp among
        unfold replaced
        split
        · exact List.mem_cons_self
        · exact List.mem_cons_of_mem _ mine
      · obtain ⟨d, among, rfl⟩ := List.mem_map.mp member
        by_cases same : d = (head, nodes)
        · exact .inl (by rw [same])
        · obtain ⟨still, outside⟩ := others d among same
          rw [still]
          exact .inr ⟨among, outside⟩
    by_cases isHead : old = head
    · subst isHead
      obtain ⟨h', ran, ring', touches⟩ := runs_replaceHead ring new
      refine ⟨h', ran, result touches ?_⟩
      rw [map_replaced (List.nodup_cons.mp ring.nodup).1]
      simpa [replaced] using ring'
    · have within : old ∈ nodes := (List.mem_cons.mp inside).resolve_left isHead
      obtain ⟨h', ran, ring', touches⟩ := runs_replace ring within new
      refine ⟨h', ran, result touches ?_⟩
      have kept' : replaced old el head = head := if_neg (Ne.symm isHead)
      rw [kept']
      exact ring'
  · rw [if_neg allowed] at done
    exact absurd done (by simp)

/-- The head of an alive list of its own is free again, and the other list has all nodes. -/
theorem kept_join {h' : Heap α} {nodes : List Ref} (kept : Kept h pool) (source : (src, nodes) ∈ pool)
    (target : (dest, l) ∈ pool) (other : src ≠ dest) (ring : Ring h' dest (f l))
    (touches : Touches (src :: nodes ++ dest :: l) h h') (inside : ∀ x ∈ f l, x ∈ nodes ++ l) :
    Kept h' ((pool.filter fun c => c.1 ≠ src).map fun c => if c.1 = dest then (c.1, f c.2) else c) := by
  refine @kept_of α h h' pool _ _ (dest, f l) kept touches ring (fun x member => ?_) fun c member => ?_
  · rcases List.mem_cons.mp member with rfl | among
    · simp
    · have among := inside x among
      simp only [List.mem_append, List.mem_cons] at among ⊢
      tauto
  · obtain ⟨d, among, rfl⟩ := List.mem_map.mp member
    obtain ⟨there, away⟩ := List.mem_filter.mp among
    by_cases named : d.1 = dest
    · have same : d = (dest, l) := kept.same there target List.mem_cons_self (by simp [refs, named])
      rw [if_pos named, same]
      exact .inl rfl
    · rw [if_neg named]
      refine .inr ⟨there, fun x here touched => ?_⟩
      rcases List.mem_append.mp touched with early | late
      · have same : d = (src, nodes) := kept.same there source here early
        simp [same] at away
      · have same : d = (dest, l) := kept.same there target here late
        exact named (by rw [same])

theorem join_some {g : List Ref → List Ref → List Ref} (done : pool.join src dest g = some pool') :
    ∃ nodes l, src ≠ dest ∧ (src, nodes) ∈ pool ∧ (dest, l) ∈ pool ∧ if nodes = [] then pool' = pool else
      pool' = (pool.filter fun c => c.1 ≠ src).map fun c => if c.1 = dest then (c.1, g nodes c.2) else c := by
  unfold join at done
  by_cases same : src = dest
  · rw [if_pos same] at done
    exact absurd done (by simp)
  · rw [if_neg same] at done
    cases source : pool.lookup src with
    | none => simp [source] at done
    | some nodes =>
      cases target : pool.lookup dest with
      | none => simp [source, target] at done
      | some l =>
        refine ⟨nodes, l, same, mem_of_lookup source, mem_of_lookup target, ?_⟩
        by_cases empty : nodes = []
        · rw [if_pos empty]
          simpa [source, target, empty, eq_comm] using done
        · rw [if_neg empty]
          have changed : change (pool.filter fun c => c.1 ≠ src) dest (g nodes) = some pool' := by
            simpa [source, target, empty] using done
          obtain ⟨-, -, same⟩ := change_some changed
          exact same

/-- The nodes of a list go to the front of another. -/
theorem kept_splice (kept : Kept h pool) (done : pool.join src dest (· ++ ·) = some pool') :
    ∃ h', Runs (listSplice (some src) (some dest)) h () h' ∧ Runs (listMerge (some dest) (some src)) h () h' ∧
      Kept h' pool' := by
  obtain ⟨nodes, l, other, source, target, after⟩ := join_some done
  have ring := kept.rings _ source
  have ring' := kept.rings _ target
  cases nodes with
  | nil =>
    rw [if_pos rfl] at after
    rw [after]
    exact ⟨h, (runs_listEmpty ring).bind (runs_pure () h), (runs_listEmpty ring).bind (runs_pure () h), kept⟩
  | cons f s =>
    rw [if_neg (List.cons_ne_nil f s)] at after
    obtain ⟨s', t, last⟩ := exists_last s f
    obtain ⟨n, r', back⟩ := exists_first l dest
    have apart : ∀ x ∈ f :: s, x ∉ dest :: l := fun x member among =>
      other (congrArg Prod.fst (kept.same source target (List.mem_cons_of_mem _ member) among))
    have final : h.prev src = some t := (ring.last (show src :: f :: s = (src :: s') ++ [t] by rw [last]; rfl)).2
    have joined := @ring_join α h dest src dest n f t [] l [] r' s s' ring' ring last apart rfl back
    have nIn : n ∈ l ++ [dest] := by rw [back]; simp
    have tIn : t ∈ f :: s := by rw [last]; simp
    rw [after]
    refine ⟨_, runs_listSplice ring final (ring'.first back).1, runs_listMerge ring final (ring'.first back).1,
      @kept_join α h pool l (f :: s ++ ·) src dest _ (f :: s) kept source target other joined
        ((touches_link ?_ ?_).trans (touches_link ?_ ?_)) fun x member => member⟩
    · simp
    · simp
    · simp only [List.mem_append, List.mem_cons] at tIn ⊢
      tauto
    · simp only [List.mem_append, List.mem_cons, List.mem_nil_iff, or_false] at nIn ⊢
      tauto

/-- The nodes of a list go to the end of another. -/
theorem kept_mergeTail (kept : Kept h pool) (done : pool.join src dest (fun nodes l => l ++ nodes) = some pool') :
    ∃ h', Runs (listMergeTail (some dest) (some src)) h () h' ∧ Kept h' pool' := by
  obtain ⟨nodes, l, other, source, target, after⟩ := join_some done
  have ring := kept.rings _ source
  have ring' := kept.rings _ target
  cases nodes with
  | nil =>
    rw [if_pos rfl] at after
    rw [after]
    exact ⟨h, (runs_listEmpty ring).bind (runs_pure () h), kept⟩
  | cons f s =>
    rw [if_neg (List.cons_ne_nil f s)] at after
    obtain ⟨s', t, last⟩ := exists_last s f
    obtain ⟨l', p, front⟩ := exists_last l dest
    have whole : Ring h dest (l ++ []) := by
      rw [List.append_nil]
      exact ring'
    have apart : ∀ x ∈ f :: s, x ∉ dest :: (l ++ []) := by
      rw [List.append_nil]
      exact fun x member among =>
        other (congrArg Prod.fst (kept.same source target (List.mem_cons_of_mem _ member) among))
    have final : h.prev src = some t := (ring.last (show src :: f :: s = (src :: s') ++ [t] by rw [last]; rfl)).2
    have joined := ring_join whole ring last apart front (List.nil_append [dest])
    rw [List.append_nil] at joined
    have pIn : p ∈ dest :: l := by rw [front]; simp
    have tIn : t ∈ f :: s := by rw [last]; simp
    rw [after]
    refine ⟨_, runs_listMergeTail ring final (ring'.last front).2,
      @kept_join α h pool l (· ++ f :: s) src dest _ (f :: s) kept source target other joined
        ((touches_link ?_ ?_).trans (touches_link ?_ ?_)) fun x member => ?_⟩
    · simp only [List.mem_append, List.mem_cons] at pIn ⊢
      tauto
    · simp
    · simp only [List.mem_append, List.mem_cons] at tIn ⊢
      tauto
    · simp
    · simp only [List.mem_append] at member ⊢
      tauto

/-- Every call keeps the lists that are alive. -/
theorem call_kept {bound : Nat} (kept : Kept h pool) (few : ∀ c ∈ pool, c.2.length < bound) (call : ListCall)
    (done : pool.call call = some pool') : ∃ h', Runs (call.perform bound) h () h' ∧ Kept h' pool' := by
  cases call with
  | initListHead head =>
    by_cases free : pool.Free head
    · obtain rfl := Option.some.inj ((if_pos free).symm.trans done)
      refine ⟨h.link head head, rfl, @kept_of α h _ pool _ [head] (head, []) kept
        (touches_link List.mem_cons_self List.mem_cons_self) ⟨List.nodup_singleton head,
          List.isChain_cons_cons.mpr ⟨link_link h head head, .singleton head⟩⟩ (fun x member => member)
        fun c member => ?_⟩
      rcases List.mem_cons.mp member with rfl | there
      · exact .inl rfl
      · refine .inr ⟨there, fun x here same => ?_⟩
        rw [List.mem_singleton] at same
        exact free c there (same ▸ here)
    · exact absurd ((if_neg free).symm.trans done) (by simp)
  | add el head => exact kept_add kept done
  | addTail el head => exact kept_addTail kept done
  | del el => exact kept_del kept done
  | move el head =>
    obtain ⟨between, removed, inserted⟩ := Option.bind_eq_some_iff.mp done
    obtain ⟨h₁, ran, kept₁⟩ := kept_del kept removed
    obtain ⟨h', ran', kept'⟩ := kept_add kept₁ inserted
    exact ⟨h', ran.bind ran', kept'⟩
  | moveTail el head =>
    obtain ⟨between, removed, inserted⟩ := Option.bind_eq_some_iff.mp done
    obtain ⟨h₁, ran, kept₁⟩ := kept_del kept removed
    obtain ⟨h', ran', kept'⟩ := kept_addTail kept₁ inserted
    exact ⟨h', ran.bind ran', kept'⟩
  | replace old el => exact kept_replace kept done
  | splice src dest =>
    obtain ⟨h', ran, -, kept'⟩ := kept_splice kept done
    exact ⟨h', ran, kept'⟩
  | merge dest src =>
    obtain ⟨h', -, ran, kept'⟩ := kept_splice kept done
    exact ⟨h', ran, kept'⟩
  | mergeTail dest src => exact kept_mergeTail kept done
  | reverse head =>
    obtain ⟨l, there, rfl⟩ := change_some done
    obtain ⟨h', ran, ring, touches⟩ := runs_listReverse (kept.rings _ there) (few _ there)
    refine ⟨h', ran, kept_change kept there touches ring (fun x member => ?_) fun c among other x here mine => ?_⟩
    · simpa using member
    · exact other (kept.same among there here mine)

end Calls

end Pool

/-! ## Loops -/

section Loops

variable {on : Pointer → Script α Pointer} {way : Heap α → Ref → Pointer}
  {at' : Heap α → List Ref → List Ref → Prop} {h : Heap α} {head : Ref} {nodes : List Ref}

/-- A way around a list: what was visited and is still there, and what is to be visited. -/
structure Walk (on : Pointer → Script α Pointer) (way : Heap α → Ref → Pointer)
    (at' : Heap α → List Ref → List Ref → Prop) (head : Ref) : Prop where
  reads : ∀ h x, Runs (on (some x)) h (way h x) h
  leads : ∀ h kept x rest, at' h kept (x :: rest) → way h x = (rest ++ [head]).head?
  keep : ∀ h kept x rest, at' h kept (x :: rest) → at' h (kept ++ [x]) rest
  delete : ∀ h kept x rest, at' h kept (x :: rest) → ∃ h', Runs (listDel (some x)) h () h' ∧ at' h' kept rest
  apart : ∀ h kept rest, at' h kept rest → head ∉ rest

theorem ne_head (walk : Walk on way at' head) {kept rest : List Ref} {x : Ref} (here : at' h kept (x :: rest)) :
    some x ≠ some head := by
  intro same
  exact walk.apart h kept _ here (by simp [Option.some.inj same])

/-- A loop visits the nodes in order. -/
theorem runs_collect (walk : Walk on way at' head) (rest : List Ref) : ∀ (kept : List Ref) (turns : Nat)
    (seen : List Pointer), rest.length < turns → at' h kept rest →
      Runs (forEachLoop on (some head) collect turns (rest ++ [head]).head? seen) h (seen ++ rest.map some) h := by
  induction rest with
  | nil =>
    intro kept turns seen enough _
    obtain ⟨turns, rfl⟩ : ∃ n, turns = n + 1 := ⟨turns - 1, by simp at enough; omega⟩
    change Runs (if some head = some head then pure seen else _) h (seen ++ []) h
    rw [if_pos rfl, List.append_nil]
    exact runs_pure seen h
  | cons x rest ih =>
    intro kept turns seen enough here
    obtain ⟨turns, rfl⟩ : ∃ n, turns = n + 1 := ⟨turns - 1, by simp at enough; omega⟩
    have other := ne_head walk here
    have further := ih (kept ++ [x]) turns (seen ++ [some x]) (by simpa using enough) (walk.keep _ _ _ _ here)
    rw [← walk.leads _ _ _ _ here] at further
    change Runs (if some x = some head then pure seen else _) h _ h
    rw [if_neg other, List.map_cons, List.append_cons seen]
    exact (runs_pure (seen ++ [some x]) h).bind ((walk.reads h x).bind further)

/-- A loop that knows the next node before its body runs may delete each node it visits. -/
theorem runs_deleteIf (walk : Walk on way at' head) (unwanted : Ref → Bool) (rest : List Ref) :
    ∀ (h : Heap α) (kept : List Ref) (turns : Nat) (el1 : Pointer) (seen : List Pointer), rest.length < turns →
      at' h kept rest → (rest ≠ [] → el1 = (rest.tail ++ [head]).head?) →
      ∃ h', Runs (forEachSafeLoop on (some head) (deleteIf unwanted) turns (rest ++ [head]).head? el1 seen) h
        (seen ++ rest.map some) h' ∧ at' h' (kept ++ rest.filter fun x => !unwanted x) [] := by
  induction rest with
  | nil =>
    intro h kept turns el1 seen enough here _
    obtain ⟨turns, rfl⟩ : ∃ n, turns = n + 1 := ⟨turns - 1, by simp at enough; omega⟩
    refine ⟨h, ?_, by simpa using here⟩
    change Runs (if some head = some head then pure seen else _) h (seen ++ []) h
    rw [if_pos rfl, List.append_nil]
    exact runs_pure seen h
  | cons x rest ih =>
    intro h kept turns el1 seen enough here ahead
    obtain ⟨turns, rfl⟩ : ∃ n, turns = n + 1 := ⟨turns - 1, by simp at enough; omega⟩
    have other := ne_head walk here
    obtain ⟨y, first⟩ := exists_head rest head
    have el1_eq : el1 = some y := (ahead (List.cons_ne_nil x rest)).trans first
    -- the body, and what is left to visit behind it
    obtain ⟨h₁, kept₁, body, here₁, same⟩ : ∃ h₁ kept₁, Runs (deleteIf unwanted (some x) seen) h
      (seen ++ [some x]) h₁ ∧
        at' h₁ kept₁ rest ∧ kept₁ ++ (rest.filter fun x => !unwanted x) =
          kept ++ ((x :: rest).filter fun x => !unwanted x) := by
      cases choice : unwanted x with
      | true =>
        obtain ⟨h₁, ran, here₁⟩ := walk.delete _ _ _ _ here
        refine ⟨h₁, kept, ?_, here₁, by simp [choice]⟩
        refine (runs_pure x h).bind ?_
        rw [if_pos choice]
        exact ran.bind (runs_pure _ h₁)
      | false =>
        refine ⟨h, kept ++ [x], ?_, walk.keep _ _ _ _ here, by simp [choice]⟩
        refine (runs_pure x h).bind ?_
        rw [if_neg (by simp [choice])]
        exact runs_pure (seen ++ [some x]) h
    have ahead₁ : rest ≠ [] → way h₁ y = (rest.tail ++ [head]).head? := by
      cases rest with
      | nil => exact fun some => absurd rfl some
      | cons z rest =>
        obtain rfl : z = y := Option.some.inj first
        exact fun _ => walk.leads _ _ _ _ here₁
    obtain ⟨h', ran, here'⟩ := ih h₁ kept₁ turns (way h₁ y) (seen ++ [some x]) (by simpa using enough) here₁ ahead₁
    refine ⟨h', ?_, by rwa [same] at here'⟩
    change Runs (if some x = some head then pure seen else _) h _ h'
    rw [first] at ran
    rw [if_neg other, List.map_cons, List.append_cons seen, el1_eq]
    exact body.bind ((walk.reads h₁ y).bind ran)

theorem walk_next (head : Ref) : @Walk α next Heap.next (fun h kept rest => Ring h head (kept ++ rest)) head where
  reads := runs_next
  leads h kept x rest ring := by
    have turned := ring.rotate
    cases rest with
    | nil => exact (turned.first rfl).1
    | cons y rest => exact (turned.first rfl).1
  keep h kept x rest ring := by
    rw [List.append_assoc]
    exact ring
  delete h kept x rest ring := by
    obtain ⟨h', ran, ring', -⟩ := Pool.runs_del ring
    exact ⟨h', ran, ring'⟩
  apart h kept rest ring member :=
    (List.nodup_cons.mp ring.nodup).1 (List.mem_append_right kept member)

theorem walk_prev (head : Ref) :
    @Walk α prev Heap.prev (fun h kept rest => Ring h head (kept ++ rest).reverse) head where
  reads := runs_prev
  leads h kept x rest ring := by
    have shape : (kept ++ x :: rest).reverse = rest.reverse ++ x :: kept.reverse := by simp
    rw [shape] at ring
    have turned := ring.rotate
    cases rest with
    | nil =>
      have front : x :: (kept.reverse ++ [head]) = (x :: kept.reverse) ++ [head] := rfl
      exact (turned.last front).2
    | cons y rest =>
      have front : x :: (kept.reverse ++ head :: (y :: rest).reverse) =
          (x :: (kept.reverse ++ head :: rest.reverse)) ++ [y] := by simp
      exact (turned.last front).2
  keep h kept x rest ring := by
    rw [List.append_assoc]
    exact ring
  delete h kept x rest ring := by
    have shape : (kept ++ x :: rest).reverse = rest.reverse ++ x :: kept.reverse := by simp
    rw [shape] at ring
    obtain ⟨h', ran, ring', -⟩ := Pool.runs_del ring
    refine ⟨h', ran, ?_⟩
    rw [List.reverse_append]
    exact ring'
  apart h kept rest ring member :=
    (List.nodup_cons.mp ring.nodup).1 (by simp [member])

/-- The loops of both directions visit the nodes in their order. -/
theorem runs_loops {bound : Nat} (ring : Ring h head nodes) (enough : nodes.length < bound) :
    Runs (listForEach bound (some head) collect []) h (nodes.map some) h ∧
      Runs (listForEachPrev bound (some head) collect []) h (nodes.reverse.map some) h := by
  constructor
  · have visits := runs_collect (walk_next head) nodes [] bound [] enough ring
    obtain ⟨n, r', back⟩ := exists_first nodes head
    refine (runs_next h head).bind ?_
    rw [(ring.first back).1]
    rw [back] at visits
    exact visits
  · have ring' : Ring h head ([] ++ nodes.reverse).reverse := by simpa using ring
    have visits := runs_collect (walk_prev head) nodes.reverse [] bound [] (by simpa using enough) ring'
    obtain ⟨l', p, front⟩ := exists_last nodes head
    refine (runs_prev h head).bind ?_
    have last : (nodes.reverse ++ [head]).head? = some p := by
      have shape : nodes.reverse ++ [head] = (head :: nodes).reverse := by simp
      rw [shape, front]
      simp
    rw [(ring.last front).2]
    rw [last] at visits
    exact visits

/-- The safe loops visit all nodes in order though their body deletes those it likes, and leave the others. -/
theorem safe_loops_delete {bound : Nat} (ring : Ring h head nodes) (enough : nodes.length < bound)
    (unwanted : Ref → Bool) :
    (∃ h', Runs (listForEachNodeSafe bound (some head) (deleteIf unwanted) []) h (nodes.map some) h' ∧
        Ring h' head (nodes.filter fun x => !unwanted x)) ∧
      ∃ h', Runs (listForEachPrevSafe bound (some head) (deleteIf unwanted) []) h (nodes.reverse.map some) h' ∧
        Ring h' head (nodes.filter fun x => !unwanted x) := by
  constructor
  · obtain ⟨n, first⟩ := exists_head nodes head
    have behind : h.next head = some n := by
      cases nodes with
      | nil => exact (ring.first rfl).1.trans first
      | cons x rest => exact (ring.first rfl).1.trans first
    have ahead : nodes ≠ [] → h.next n = (nodes.tail ++ [head]).head? := by
      cases nodes with
      | nil => exact fun some => absurd rfl some
      | cons x rest =>
        obtain rfl : x = n := Option.some.inj first
        exact fun _ => (walk_next head).leads h [] x rest ring
    obtain ⟨h', ran, ring'⟩ := runs_deleteIf (walk_next head) unwanted nodes h [] bound (h.next n) [] enough
      ring ahead
    refine ⟨h', (runs_next h head).bind ?_, by simpa using ring'⟩
    rw [behind]
    rw [first] at ran
    exact (runs_next h n).bind ran
  · have turned : Ring h head ([] ++ nodes.reverse).reverse := by simpa using ring
    obtain ⟨p, last⟩ := exists_head nodes.reverse head
    have before : h.prev head = some p := by
      obtain ⟨l', q, front⟩ := exists_last nodes head
      have shape : nodes.reverse ++ [head] = (head :: nodes).reverse := by simp
      rw [shape, front] at last
      rw [(ring.last front).2]
      simpa using last
    have ahead : nodes.reverse ≠ [] → h.prev p = (nodes.reverse.tail ++ [head]).head? := by
      generalize nodes.reverse = back at last turned
      cases back with
      | nil => exact fun some => absurd rfl some
      | cons x rest =>
        obtain rfl : x = p := Option.some.inj last
        exact fun _ => (walk_prev head).leads h [] x rest turned
    obtain ⟨h', ran, ring'⟩ := runs_deleteIf (walk_prev head) unwanted nodes.reverse h [] bound (h.prev p) []
      (by simpa using enough) turned ahead
    refine ⟨h', (runs_prev h head).bind ?_, by simpa [← List.filter_reverse] using ring'⟩
    rw [before]
    rw [last] at ran
    exact (runs_prev h p).bind ran

end Loops

/-! ## Programs -/

namespace Pool

theorem exists_bound (pool : Pool) : ∃ enough, ∀ c ∈ pool, c.2.length < enough := by
  induction pool with
  | nil => exact ⟨0, by simp⟩
  | cons c pool ih =>
    obtain ⟨enough, few⟩ := ih
    refine ⟨max enough (c.2.length + 1), fun d member => ?_⟩
    rcases List.mem_cons.mp member with rfl | there
    · omega
    · have := few d there
      omega

theorem performAll_cons (bound : Nat) (call : ListCall) (calls : List ListCall) :
    (performAll bound (call :: calls) : Script α Unit) = (do
      call.perform bound
      performAll bound calls) := rfl

theorem run_kept (calls : List ListCall) : ∀ pool pool' : Pool, calls.foldlM Pool.call pool = some pool' →
    ∃ enough, ∀ bound ≥ enough, ∀ h : Heap α, Kept h pool →
      ∃ h', Runs (performAll bound calls) h () h' ∧ Kept h' pool' := by
  induction calls with
  | nil =>
    intro pool pool' done
    obtain rfl := Option.some.inj done
    exact ⟨0, fun bound _ h kept => ⟨h, runs_pure () h, kept⟩⟩
  | cons call calls ih =>
    intro pool pool' done
    rw [List.foldlM_cons] at done
    obtain ⟨between, first, rest⟩ := Option.bind_eq_some_iff.mp done
    obtain ⟨enough, few⟩ := exists_bound pool
    obtain ⟨enough', further⟩ := ih between pool' rest
    refine ⟨max enough enough', fun bound large h kept => ?_⟩
    have short : ∀ c ∈ pool, c.2.length < bound := fun c there => Nat.lt_of_lt_of_le (few c there) (by omega)
    obtain ⟨h₁, ran, kept₁⟩ := call_kept kept short call first
    obtain ⟨h', ran', kept'⟩ := further bound (by omega) h₁ kept₁
    refine ⟨h', ?_, kept'⟩
    rw [performAll_cons]
    exact ran.bind ran'

/-- In every program of calls that are made for the lists that are alive, on any heap, all lists have the nodes that
the plain lists have: they are read in order, forwards and backwards, and known to be empty or not. -/
theorem calls_keep_lists {calls : List ListCall} {pool : Pool} (done : Pool.run calls = some pool) :
    ∃ enough, ∀ bound ≥ enough, ∀ h : Heap α, ∃ h', Runs (performAll bound calls) h () h' ∧
      ∀ c ∈ pool, Runs (listForEach bound (some c.1) collect []) h' (c.2.map some) h' ∧
        Runs (listForEachPrev bound (some c.1) collect []) h' (c.2.reverse.map some) h' ∧
        Runs (listEmpty (some c.1)) h' c.2.isEmpty h' := by
  obtain ⟨enough, runs⟩ := @run_kept α calls [] pool done
  obtain ⟨enough', few⟩ := exists_bound pool
  refine ⟨max enough enough', fun bound large h => ?_⟩
  obtain ⟨h', ran, kept⟩ := runs bound (by omega) h ⟨by simp, by simp⟩
  refine ⟨h', ran, fun c there => ?_⟩
  have ring := kept.rings c there
  have short : c.2.length < bound := Nat.lt_of_lt_of_le (few c there) (by omega)
  obtain ⟨forwards, backwards⟩ := runs_loops ring short
  exact ⟨forwards, backwards, runs_listEmpty ring⟩

theorem calls_keep_lists_two : ∃ enough, ∀ bound ≥ enough, ∀ h : Heap Nat, ∃ h', Runs (performAll bound
      [.initListHead 0, .addTail 1 0, .add 2 0, .initListHead 3, .add 4 3, .mergeTail 3 0, .replace 1 5, .reverse 3,
        .initListHead 0, .moveTail 4 0]) h () h' ∧
    ∀ c ∈ [(0, [4]), (3, [5, 2])], Runs (listForEach bound (some c.1) collect []) h' (c.2.map some) h' ∧
      Runs (listForEachPrev bound (some c.1) collect []) h' (c.2.reverse.map some) h' ∧
      Runs (listEmpty (some c.1)) h' c.2.isEmpty h' := by
  have done : Pool.run [.initListHead 0, .addTail 1 0, .add 2 0, .initListHead 3, .add 4 3, .mergeTail 3 0,
      .replace 1 5, .reverse 3, .initListHead 0, .moveTail 4 0] = some [(0, [4]), (3, [5, 2])] := by decide
  exact calls_keep_lists done

end Pool

/-- The nodes 1 and 2 of the head 0. -/
def twoNodes : Heap Nat := ⟨fun r => some ((r + 1) % 3), fun r => some ((r + 2) % 3), some, 3⟩

theorem safe_loops_delete_two :
    (∃ h', Runs (listForEachNodeSafe 3 (some 0) (deleteIf (· == 1)) []) twoNodes [some 1, some 2] h' ∧
        Ring h' 0 [2]) ∧
      ∃ h', Runs (listForEachPrevSafe 3 (some 0) (deleteIf (· == 1)) []) twoNodes [some 2, some 1] h' ∧
        Ring h' 0 [2] :=
  @safe_loops_delete Nat twoNodes 0 [1, 2] 3 ⟨by decide, .cons_cons ⟨rfl, rfl⟩ (.cons_cons ⟨rfl, rfl⟩
    (.cons_cons ⟨rfl, rfl⟩ (.singleton 0)))⟩ (by decide) (· == 1)

end QjsLws.Linked
