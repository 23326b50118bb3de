import QjsLws.Http.Proofs.Headers

/-!
# Views and copies of `Headers`

What `entries`, `forEach` and `toObject` enumerate, and what the constructor makes of it again. All
of it is determined by the values under each name, so a copy is compared with its original through
the multimap of the pairs it was built from.
-/

namespace QjsLws.Http

open QjsLws.Misc

/-! ## Enumerations -/

/-- The values stored under a name. -/
def Headers.valuesOf (h : Headers) (name : Text) : List Text :=
  (h.map.get name).elim [] HeaderValue.values

/-- A pair that `append` accepts. -/
def PairOk (pair : Text × Text) : Prop := normalizeName pair.1 = .ok pair.1 ∧ Storable pair.2

section Enumerations

variable {h : Headers}

/-- The pairs of some names. -/
def Headers.pairsUnder (h : Headers) (names : List Text) : List (Text × Text) :=
  names.flatMap fun name => (h.valuesOf name).map (name, ·)

theorem entries_eq (h : Headers) : h.entries = h.pairsUnder h.keys := rfl

theorem pairsOf_eq {l : List (Text × HeaderValue)} (held : ∀ e ∈ l, h.map.get e.1 = some e.2) :
    pairsOf l = h.pairsUnder (l.map Prod.fst) := by
  unfold pairsOf Headers.pairsUnder
  rw [List.flatMap_map]
  apply List.flatMap_congr
  intro e member
  rw [Headers.valuesOf, held e member]
  rfl

theorem get_of_mem {e : Text × HeaderValue} (member : e ∈ h.map.entries) :
    h.map.get e.1 = some e.2 := Assoc.mem_entries.mp member

theorem forEach_eq (h : Headers) : h.forEach = h.pairsUnder h.map.keys :=
  pairsOf_eq fun _ member => get_of_mem member

theorem object_eq (h : Headers) :
    pairsOf h.toObject = h.pairsUnder (h.map.keys.filter (· ≠ "__proto__".toList)) := by
  have held : ∀ e ∈ h.toObject, h.map.get e.1 = some e.2 := fun e member =>
    get_of_mem (List.mem_of_mem_filter member)
  rw [pairsOf_eq held, Headers.toObject, Assoc.keys, List.filter_map]
  rfl

theorem keys_perm (h : Headers) : h.keys.Perm h.map.keys := List.perm_insertionSort _ _

theorem mem_keys {name : Text} : name ∈ h.map.keys ↔ ∃ value, h.map.get name = some value := by
  unfold Assoc.keys
  constructor
  · intro member
    obtain ⟨e, among, rfl⟩ := List.mem_map.mp member
    exact ⟨e.2, get_of_mem among⟩
  · rintro ⟨value, held⟩
    exact List.mem_map.mpr ⟨_, Assoc.mem_of_find held, rfl⟩

theorem valuesOf_of_not_mem {name : Text} (absent : name ∉ h.map.keys) : h.valuesOf name = [] := by
  cases held : h.map.get name with
  | none => rw [Headers.valuesOf, held, Option.elim]
  | some value => exact absurd (mem_keys.mpr ⟨value, held⟩) absent

/-- The values of a name among the pairs of some names. -/
theorem ofPairs_pairsUnder {names : List Text} (nodup : names.Nodup) (name : Text) :
    Multimap.ofPairs (h.pairsUnder names) name = if name ∈ names then h.valuesOf name else [] := by
  rw [Headers.pairsUnder, Multimap.ofPairs_flatMap h.valuesOf name nodup]
  congr

/-- Enumerating every name gives every value. -/
theorem ofPairs_all {names : List Text} (all : names.Perm h.map.keys) (name : Text) :
    Multimap.ofPairs (h.pairsUnder names) name = h.valuesOf name := by
  rw [ofPairs_pairsUnder (all.nodup_iff.mpr h.map.nodup)]
  split
  · rfl
  · rename_i absent
    exact (valuesOf_of_not_mem (mt all.mem_iff.mpr absent)).symm

theorem valuesOf_ne_nil (valid : h.Valid) {name : Text} {v : HeaderValue}
    (held : h.map.get name = some v) : h.valuesOf name ≠ [] := by
  have fits : v.Valid name := (valid (name, v) (Assoc.mem_of_find held)).2
  rw [Headers.valuesOf, held]
  cases v with
  | single value => exact List.cons_ne_nil _ _
  | list values => exact fits.2.1

theorem storable_valuesOf (valid : h.Valid) {name value : Text} (member : value ∈ h.valuesOf name) :
    Storable value := by
  cases held : h.map.get name with
  | none => simp [Headers.valuesOf, held] at member
  | some v =>
    have fits : v.Valid name := (valid (name, v) (Assoc.mem_of_find held)).2
    rw [Headers.valuesOf, held] at member
    cases v with
    | single text => exact List.mem_singleton.mp member ▸ fits.2
    | list values => exact fits.2.2 value member

/-- The constructor accepts what a valid object enumerates. -/
theorem pairOk_pairsUnder (valid : h.Valid) {names : List Text}
    (held : ∀ name ∈ names, name ∈ h.map.keys) : ∀ pair ∈ h.pairsUnder names, PairOk pair := by
  intro pair member
  obtain ⟨name, named, member⟩ := List.mem_flatMap.mp member
  obtain ⟨value, among, rfl⟩ := List.mem_map.mp member
  obtain ⟨stored, found⟩ := mem_keys.mp (held name named)
  exact ⟨(valid (name, stored) (Assoc.mem_of_find found)).1, storable_valuesOf valid among⟩

end Enumerations

/-! ## Order -/

section Order

theorem nameOrder_refl (a : Text) : nameOrder a a := by
  induction a with
  | nil => trivial
  | cons c a ih => exact .inr ⟨rfl, ih⟩

theorem nameOrder_total (a b : Text) : nameOrder a b ∨ nameOrder b a := by
  induction a generalizing b with
  | nil => exact .inl trivial
  | cons c a ih =>
    cases b with
    | nil => exact .inr trivial
    | cons d b =>
      rcases Nat.lt_trichotomy c.toNat d.toNat with less | same | more
      · exact .inl (.inl less)
      · have eq : c = d := Char.toNat_inj.mp same
        exact (ih b).imp (fun le => .inr ⟨eq, le⟩) fun le => .inr ⟨eq.symm, le⟩
      · exact .inr (.inl more)

theorem nameOrder_trans {a b e : Text} (first : nameOrder a b) (second : nameOrder b e) :
    nameOrder a e := by
  induction a generalizing b e with
  | nil => trivial
  | cons c a ih =>
    cases b with
    | nil => exact first.elim
    | cons d b =>
      cases e with
      | nil => exact second.elim
      | cons f e =>
        rcases first with less | ⟨rfl, first⟩
        · rcases second with less' | ⟨rfl, -⟩
          · exact .inl (less.trans less')
          · exact .inl less
        · rcases second with less | ⟨rfl, second⟩
          · exact .inl less
          · exact .inr ⟨rfl, ih first second⟩

instance : Std.Total nameOrder := ⟨nameOrder_total⟩

instance : IsTrans Text nameOrder := ⟨fun _ _ _ => nameOrder_trans⟩

theorem nameOrder_antisymm {a b : Text} (first : nameOrder a b) (second : nameOrder b a) :
    a = b := by
  induction a generalizing b with
  | nil =>
    cases b with
    | nil => rfl
    | cons d b => exact second.elim
  | cons c a ih =>
    cases b with
    | nil => exact first.elim
    | cons d b =>
      rcases first with less | ⟨rfl, first⟩
      · rcases second with less' | ⟨rfl, -⟩
        · exact absurd less' (Nat.lt_asymm less)
        · exact absurd less (Nat.lt_irrefl _)
      · rcases second with less | ⟨-, second⟩
        · exact absurd less (Nat.lt_irrefl _)
        · rw [ih first second]

theorem keys_sorted (h : Headers) : h.keys.Pairwise nameOrder := List.pairwise_insertionSort _ _

/-- `entries` is sorted by name. -/
theorem entries_sorted (h : Headers) : (h.entries.map Prod.fst).Pairwise nameOrder := by
  rw [entries_eq, Headers.pairsUnder, List.map_flatMap, List.pairwise_flatMap]
  constructor
  · intro name _
    rw [List.map_map]
    exact List.pairwise_map.mpr (List.pairwise_of_forall fun _ _ => nameOrder_refl name)
  · refine (keys_sorted h).imp ?_
    intro a b ordered x inA y inB
    simp only [List.map_map, List.mem_map] at inA inB
    obtain ⟨_, _, rfl⟩ := inA
    obtain ⟨_, _, rfl⟩ := inB
    exact ordered

end Order

/-! ## Equal objects -/

/-- No method tells the objects apart; `forEach` and `toObject` enumerate in any order. -/
structure ObsEq (h h' : Headers) : Prop where
  lookup : ∀ name, h.lookup name = h'.lookup name
  has : ∀ name, h.has name = h'.has name
  getSetCookie : h.getSetCookie = h'.getSetCookie
  keys : h.keys = h'.keys
  values : h.values = h'.values
  entries : h.entries = h'.entries
  forEach : h.forEach.Perm h'.forEach
  toObject : h.toObject.Perm h'.toObject

theorem obsEq_of_get_eq {h h' : Headers} (same : ∀ name, h.map.get name = h'.map.get name) :
    ObsEq h h' := by
  have perm : h.map.entries.Perm h'.map.entries := Assoc.perm_of_get_eq same
  have keys : h.keys = h'.keys :=
    List.Perm.eq_of_pairwise (fun _ _ _ _ => nameOrder_antisymm) (keys_sorted h) (keys_sorted h')
      ((keys_perm h).trans ((perm.map Prod.fst).trans (keys_perm h').symm))
  refine ⟨?_, ?_, ?_, keys, ?_, ?_, ?_, ?_⟩
  · intro name
    simp only [Headers.lookup, Headers.get, same]
  · intro name
    simp only [Headers.has, Assoc.has, same]
  · simp only [Headers.getSetCookie, same]
  · simp only [Headers.values, keys, same]
  · simp only [Headers.entries, keys, same]
  · exact perm.flatMap_right _
  · exact perm.filter _

/-! ## Copies -/

section Copies

variable {h h' : Headers}

theorem append_ok (h : Headers) {pair : Text × Text} (ok : PairOk pair) :
    ∃ h', h.append pair.1 pair.2 = .ok h' := by
  unfold Headers.append
  rw [ok.1, normalizeValue_of_storable ok.2]
  simp only [bind, Except.bind, pure, Except.pure]
  split
  · exact ⟨_, rfl⟩
  · exact ⟨_, rfl⟩

theorem appendAll_ok {pairs : List (Text × Text)} (ok : ∀ pair ∈ pairs, PairOk pair) :
    ∀ h : Headers, ∃ h', h.appendAll pairs = .ok h' := by
  induction pairs with
  | nil => exact fun h => ⟨h, rfl⟩
  | cons pair rest ih =>
    intro h
    obtain ⟨next, appended⟩ := append_ok h (ok pair List.mem_cons_self)
    obtain ⟨h', rest⟩ := ih (fun p member => ok p (List.mem_cons_of_mem _ member)) next
    refine ⟨h', ?_⟩
    rw [Headers.appendAll, appended]
    exact rest

theorem appendPairs_eq (pairs : List (Text × Text)) : ∀ h : Headers,
    h.appendPairs (pairs.map fun pair => [pair.1, pair.2]) = h.appendAll pairs := by
  induction pairs with
  | nil => exact fun h => rfl
  | cons pair rest ih =>
    intro h
    rw [List.map_cons, Headers.appendPairs, Headers.appendAll]
    exact congrArg _ (funext ih)

/-- The calls that append some pairs. -/
def appendCalls (pairs : List (Text × Text)) : List HeaderCall :=
  pairs.map fun pair => .append pair.1 pair.2

theorem calls_iterator (pairs : List (Text × Text)) :
    (HeadersInit.pairs (pairs.map fun pair => [pair.1, pair.2])).calls = appendCalls pairs := by
  rw [HeadersInit.calls, appendCalls, List.flatMap_map, List.map_eq_flatMap]

/-- A property with valid values is appended whole. -/
theorem calls_object {l : List (Text × HeaderValue)}
    (ok : ∀ e ∈ l, ∀ value ∈ e.2.values, Storable value) :
    (HeadersInit.object l).calls = appendCalls (pairsOf l) := by
  rw [HeadersInit.calls, appendCalls, pairsOf, List.map_flatMap]
  apply List.flatMap_congr
  intro e member
  rw [List.map_map, List.takeWhile_eq_self_iff.mpr]
  · rfl
  · intro value among
    rw [normalizeValue_of_storable (ok e member value among)]
    rfl

/-- What appending valid pairs adds. -/
theorem added_appendCalls {pairs : List (Text × Text)} (ok : ∀ pair ∈ pairs, PairOk pair)
    (name : Text) : ∀ m : Multimap Text Text,
      runFrom noteCall m (appendCalls pairs) name
        = m name ++ (Multimap.ofPairs pairs name).map (strip isHttpWhitespace) := by
  induction pairs with
  | nil => exact fun m => (List.append_nil _).symm
  | cons pair rest ih =>
    intro m
    have here := ok pair List.mem_cons_self
    have noted : noteCall m (.append pair.1 pair.2)
        = m.append pair.1 (strip isHttpWhitespace pair.2) := by
      simp [noteCall, here.1, normalizeValue_of_storable here.2]
    rw [appendCalls, List.map_cons, runFrom_cons, noted]
    refine (ih (fun p member => ok p (List.mem_cons_of_mem _ member)) _).trans ?_
    rw [show pair :: rest = [pair] ++ rest from rfl, Multimap.ofPairs_append]
    by_cases same : pair.1 = name
    · subst same
      simp [Multimap.ofPairs]
    · rw [Multimap.append_of_ne _ (Ne.symm same)]
      simp [Multimap.ofPairs, same]

/-- What an object built from valid pairs holds. -/
theorem get_copy {init : HeadersInit} {pairs : List (Text × Text)}
    (built : Headers.construct init = .ok h') (calls : init.calls = appendCalls pairs)
    (ok : ∀ pair ∈ pairs, PairOk pair) (name : Text) :
    h'.map.get name
      = storedAs name ((Multimap.ofPairs pairs name).map (strip isHttpWhitespace)) := by
  rw [← construct_eq_run built, calls, folds_empty.run (appendCalls pairs) name,
    added_appendCalls ok]
  rfl

/-- The copies that are made of an object: of itself, of its `toObject`, of its entries. -/
structure CopiesAgree (h : Headers) : Prop where
  headers : ∃ copy, Headers.construct (.headers h) = .ok copy ∧ ObsEq h copy
  object : ∃ copy, Headers.construct (.object h.toObject) = .ok copy ∧ ObsEq h copy
  iterator : ∃ copy, Headers.construct (.pairs (h.entries.map fun pair => [pair.1, pair.2]))
    = .ok copy ∧ ObsEq h copy

/-- The strings have no blanks around them. -/
def Trimmed (h : Headers) : Prop :=
  ∀ name value, h.map.get name = some (.single value) → strip isHttpWhitespace value = value

theorem folded_singleton (value : Text) : folded [value] = value := rfl

/-- Trimmed values are stored as they were. -/
theorem storedAs_valuesOf (valid : h.Valid) (trimmed : Trimmed h)
    (cookies : ∀ value ∈ h.getSetCookie, strip isHttpWhitespace value = value) (name : Text) :
    storedAs name ((h.valuesOf name).map (strip isHttpWhitespace)) = h.map.get name := by
  cases held : h.map.get name with
  | none =>
    rw [Headers.valuesOf, held]
    rfl
  | some v =>
    have fits : v.Valid name := (valid (name, v) (Assoc.mem_of_find held)).2
    rw [Headers.valuesOf, held]
    cases v with
    | single value =>
      have same := trimmed name value held
      simp [storedAs, HeaderValue.values, folded_singleton, fits.1, same]
    | list values =>
      obtain ⟨rfl, nonempty, -⟩ := fits
      have same : values.map (strip isHttpWhitespace) = values := by
        rw [List.map_congr_left (g := id), List.map_id]
        intro value member
        exact cookies value (by rw [Headers.getSetCookie, held]; exact member)
      simp [storedAs, HeaderValue.values, same, nonempty]

/-- An object built from all values of a trimmed one equals it. -/
theorem obsEq_copy (valid : h.Valid) (trimmed : Trimmed h)
    (cookies : ∀ value ∈ h.getSetCookie, strip isHttpWhitespace value = value)
    {init : HeadersInit} {names : List Text} (all : names.Perm h.map.keys)
    (calls : init.calls = appendCalls (h.pairsUnder names))
    (built : Headers.construct init = .ok h') : ObsEq h h' := by
  apply obsEq_of_get_eq
  intro name
  rw [get_copy built calls (pairOk_pairsUnder valid fun _ => all.mem_iff.mp) name,
    ofPairs_all all, storedAs_valuesOf valid trimmed cookies]

theorem trimmed_of_copy (valid : h.Valid)
    (copy : ∃ copy, Headers.construct (.headers h) = .ok copy ∧ ObsEq h copy) : Trimmed h := by
  obtain ⟨h', built, same⟩ := copy
  intro name value held
  have fits := (valid (name, _) (Assoc.mem_of_find held))
  have ok : ∀ pair ∈ h.pairsUnder h.map.keys, PairOk pair :=
    pairOk_pairsUnder valid fun _ member => member
  have copied : h'.map.get name = some (.single (strip isHttpWhitespace value)) := by
    rw [get_copy built (congrArg appendCalls (forEach_eq h)) ok name, ofPairs_all (.refl _),
      Headers.valuesOf, held]
    simp [storedAs, HeaderValue.values, folded_singleton, fits.2.1]
  have looked := same.lookup name
  simpa [Headers.lookup, Headers.get, fits.1, held, copied, bind, Except.bind, pure, Except.pure]
    using looked.symm

end Copies

/-! ## The law -/

/-- The views enumerate the same pairs, `entries` in order of the names, and the copies equal the
object. -/
structure ViewsAgree (h : Headers) : Prop where
  entries : h.entries.Perm h.forEach
  object : (pairsOf h.toObject).Perm h.forEach
  sorted : (h.entries.map Prod.fst).Pairwise nameOrder
  copies : CopiesAgree h

section Law

variable {h : Headers}

/-- Only `toObject` may lack a name. -/
theorem object_perm_iff (valid : h.Valid) :
    (pairsOf h.toObject).Perm h.forEach ↔ h.has "__proto__".toList = false := by
  rw [object_eq, forEach_eq]
  generalize "__proto__".toList = proto
  constructor
  · intro perm
    by_contra present
    obtain ⟨v, held⟩ := Option.ne_none_iff_exists'.mp (mt Headers.has_eq_false.mpr present)
    have lost : Multimap.ofPairs (h.pairsUnder (h.map.keys.filter (· ≠ proto))) proto = [] := by
      have nodup : (h.map.keys.filter (· ≠ proto)).Nodup := h.map.nodup.filter _
      rw [ofPairs_pairsUnder nodup, if_neg (by simp)]
    have kept : Multimap.ofPairs (h.pairsUnder h.map.keys) proto = h.valuesOf proto :=
      ofPairs_all (.refl _) proto
    have same : (Multimap.ofPairs (h.pairsUnder (h.map.keys.filter (· ≠ proto))) proto).Perm
        (Multimap.ofPairs (h.pairsUnder h.map.keys) proto) := (perm.filter _).map _
    rw [lost, kept, List.nil_perm] at same
    exact valuesOf_ne_nil valid held same
  · intro absent
    rw [List.filter_eq_self.mpr]
    intro name member
    obtain ⟨v, held⟩ := mem_keys.mp member
    apply decide_eq_true
    rintro rfl
    cases held.symm.trans (Headers.has_eq_false.mp absent)

theorem copiesAgree (valid : h.Valid) (trimmed : Trimmed h)
    (cookies : ∀ value ∈ h.getSetCookie, strip isHttpWhitespace value = value)
    (plain : h.has "__proto__".toList = false) : CopiesAgree h := by
  have ok : ∀ names : List Text, names.Perm h.map.keys →
      ∀ pair ∈ h.pairsUnder names, PairOk pair := fun names all =>
    pairOk_pairsUnder valid fun _ => all.mem_iff.mp
  refine ⟨?_, ?_, ?_⟩
  · obtain ⟨copy, built⟩ := appendAll_ok (ok _ (.refl _)) .empty
    have built' : Headers.construct (.headers h) = .ok copy := by
      rw [Headers.construct, forEach_eq, built]
    have calls : (HeadersInit.headers h).calls = appendCalls (h.pairsUnder h.map.keys) :=
      congrArg appendCalls (forEach_eq h)
    exact ⟨copy, built', obsEq_copy valid trimmed cookies (.refl _) calls built'⟩
  · have whole : h.toObject = h.map.entries := by
      rw [Headers.toObject, List.filter_eq_self]
      intro e member
      apply decide_eq_true
      intro same
      cases (get_of_mem member).symm.trans (same ▸ Headers.has_eq_false.mp plain)
    have storable : ∀ e ∈ h.toObject, ∀ value ∈ e.2.values, Storable value := by
      intro e member value among
      have held : value ∈ h.valuesOf e.1 := by
        rw [Headers.valuesOf, get_of_mem (List.mem_of_mem_filter member)]
        exact among
      exact storable_valuesOf valid held
    have calls : (HeadersInit.object h.toObject).calls = appendCalls (h.pairsUnder h.map.keys) := by
      rw [calls_object storable, whole]
      exact congrArg appendCalls (forEach_eq h)
    exact ⟨_, rfl, obsEq_copy valid trimmed cookies (.refl _) calls rfl⟩
  · obtain ⟨copy, built⟩ := appendAll_ok (ok _ (keys_perm h)) .empty
    have built' : Headers.construct (.pairs (h.entries.map fun pair => [pair.1, pair.2]))
        = .ok copy := by
      rw [Headers.construct, appendPairs_eq, entries_eq, built]
    exact ⟨copy, built', obsEq_copy valid trimmed cookies (keys_perm h) (calls_iterator _) built'⟩

/-- A value that is noted was there or is new. -/
theorem mem_noteCall {m : Multimap Text Text} {call : HeaderCall} {name value : Text}
    (member : value ∈ noteCall m call name) :
    value ∈ m name ∨ ∃ text, normalizeValue text = .ok value := by
  cases read : normalizeName call.name with
  | error e =>
    have apart : normalizeName call.name ≠ .ok name := by simp [read]
    exact .inl (noteCall_of_ne (m := m) apart ▸ member)
  | ok name' =>
    by_cases same : name' = name
    · subst same
      cases call with
      | append raw text =>
        cases found : normalizeValue text with
        | error e => exact .inl (by simpa [noteCall, found] using member)
        | ok new =>
          simp only [noteCall, show normalizeName raw = .ok name' from read, found,
            Multimap.append_self, List.mem_append, List.mem_singleton] at member
          exact member.imp_right fun (is : value = new) => ⟨text, is ▸ found⟩
      | set raw text =>
        cases found : normalizeValue text with
        | error e => exact .inl (by simpa [noteCall, found] using member)
        | ok new =>
          simp only [noteCall, show normalizeName raw = .ok name' from read, found,
            Multimap.set_self, List.mem_singleton] at member
          exact .inr ⟨text, member ▸ found⟩
      | delete raw =>
        simp [noteCall, show normalizeName raw = .ok name' from read] at member
    · have apart : normalizeName call.name ≠ .ok name := by simp [read, same]
      exact .inl (noteCall_of_ne (m := m) apart ▸ member)

/-- The values that are noted are trimmed. -/
theorem trimmed_note {m : Multimap Text Text}
    (trimmed : ∀ name, ∀ value ∈ m name, strip isHttpWhitespace value = value)
    (call : HeaderCall) : ∀ name, ∀ value ∈ noteCall m call name,
      strip isHttpWhitespace value = value := by
  intro name value member
  rcases mem_noteCall member with there | ⟨text, found⟩
  · exact trimmed name value there
  · rw [eq_strip_of_normalizeValue found, strip_strip]

end Law

/-- After any construction and any calls, the views agree and the copies equal the object exactly
if no header is named `__proto__` and no stored string has a blank at an end. -/
theorem viewsAgree_iff (init : HeadersInit) (calls : List HeaderCall) (h : Headers)
    (built : Headers.construct init = .ok h) :
    ViewsAgree (runFrom headerStep h calls) ↔
      (runFrom headerStep h calls).has "__proto__".toList = false ∧
        Trimmed (runFrom headerStep h calls) := by
  have whole : runFrom headerStep .empty (init.calls ++ calls) = runFrom headerStep h calls := by
    rw [runFrom_append, construct_eq_run built]
  have folds : Folds (added (init.calls ++ calls)) (runFrom headerStep h calls) :=
    whole ▸ folds_empty.run (init.calls ++ calls)
  have valid : (runFrom headerStep h calls).Valid :=
    whole ▸ run_invariant (fun h call valid => valid.step call) _ _ Headers.valid_empty
  have noted := run_invariant (I := fun m : Multimap Text Text =>
      ∀ name, ∀ value ∈ m name, strip isHttpWhitespace value = value)
    (fun m call trimmed => trimmed_note trimmed call) (init.calls ++ calls) .empty
    (fun name value member => absurd member List.not_mem_nil)
  constructor
  · intro agree
    exact ⟨(object_perm_iff valid).mp agree.object, trimmed_of_copy valid agree.copies.headers⟩
  · rintro ⟨plain, trimmed⟩
    refine ⟨?_, (object_perm_iff valid).mpr plain, entries_sorted _,
      copiesAgree valid trimmed ?_ plain⟩
    · rw [entries_eq, forEach_eq]
      exact (keys_perm _).flatMap_right _
    · rw [folds.getSetCookie_eq]
      exact noted setCookie

/-- Two cookies and another header. -/
theorem viewsAgree_cookies :
    ViewsAgree (runFrom headerStep .empty [.append "Set-Cookie".toList "a=1".toList,
      .set "Accept".toList " b ".toList, .append "Set-Cookie".toList "b=2".toList]) := by
  refine (viewsAgree_iff .absent _ .empty rfl).mpr ⟨by decide, ?_⟩
  have entries : (runFrom headerStep .empty [.append "Set-Cookie".toList "a=1".toList,
      .set "Accept".toList " b ".toList, .append "Set-Cookie".toList "b=2".toList]).map.entries
      = [(setCookie, .list ["a=1".toList, "b=2".toList]), ("accept".toList, .single "b".toList)] := by
    decide
  intro name value held
  have member := Assoc.mem_of_find held
  rw [entries] at member
  obtain ⟨-, rfl⟩ : name = "accept".toList ∧ value = "b".toList := by simpa using member
  decide

/-- `set('__proto__', 'v')` is not in `toObject()`, and `append('x', 'a')`, `append('x', '')` is
copied without its end. -/
theorem views_disagree :
    ¬ViewsAgree (runFrom headerStep .empty [.set "__proto__".toList "v".toList]) ∧
      ¬ViewsAgree (runFrom headerStep .empty
        [.append "x".toList "a".toList, .append "x".toList []]) := by
  constructor
  · intro agree
    have lengths := agree.object.length_eq
    revert lengths
    decide
  · intro agree
    obtain ⟨copy, built, same⟩ := agree.copies.headers
    have copied : copy = ⟨Assoc.empty.set "x".toList (.single "a,".toList)⟩ := by
      refine (Except.ok.inj (built.symm.trans ?_))
      decide
    have looked := same.lookup "x".toList
    rw [copied] at looked
    revert looked
    decide

end QjsLws.Http
