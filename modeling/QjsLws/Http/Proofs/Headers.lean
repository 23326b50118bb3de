import QjsLws.Http.Headers
import QjsLws.Misc.Multimap
import QjsLws.Misc.Run

/-!
# `Headers` as a multimap

A `Headers` object stands for the multimap of the values that were added to it. It keeps the list
itself for `set-cookie`, and for every other name a string that the values are folded into one
after the other.
-/

namespace QjsLws.Http

open QjsLws.Misc

/-! ## The values that were added -/

/-- The name a call is about. -/
def HeaderCall.name : HeaderCall → Text
  | .append name _ => name
  | .set name _ => name
  | .delete name => name

/-- What a call does to the values; a call with an invalid name or value does nothing. -/
def noteCall (m : Multimap Text Text) : HeaderCall → Multimap Text Text
  | .append name value =>
    match normalizeName name, normalizeValue value with
    | .ok name, .ok value => m.append name value
    | _, _ => m
  | .set name value =>
    match normalizeName name, normalizeValue value with
    | .ok name, .ok value => m.set name value
    | _, _ => m
  | .delete name =>
    match normalizeName name with
    | .ok name => m.delete name
    | _ => m

/-- The values that some calls leave under each name, starting with none. -/
def added (calls : List HeaderCall) : Multimap Text Text := runFrom noteCall .empty calls

/-- The calls of `append` that the constructor makes. -/
def HeadersInit.calls : HeadersInit → List HeaderCall
  | .absent | .invalid => []
  | .headers h => h.forEach.map fun pair => .append pair.1 pair.2
  | .pairs list => list.flatMap fun
    | [name, value] => [.append name value]
    | _ => []
  | .object entries => entries.flatMap fun e =>
    (e.2.values.takeWhile fun value => (normalizeValue value).isOk).map (.append e.1 ·)

/-! ## Folding -/

/-- The string that `append` makes of values. -/
def folded (values : List Text) : Text :=
  values.foldl (fun old value => if old = [] then value else old ++ ", ".toList ++ value) []

/-- What the object keeps for the values of a name. -/
def storedAs (name : Text) (values : List Text) : Option HeaderValue :=
  if values = [] then none
  else some (if name = setCookie then .list values else .single (folded values))

/-- The object keeps the values of every name. -/
def Folds (m : Multimap Text Text) (h : Headers) : Prop :=
  ∀ name, h.map.get name = storedAs name (m name)

theorem folded_snoc (values : List Text) (value : Text) :
    folded (values ++ [value])
      = if folded values = [] then value else folded values ++ ", ".toList ++ value := by
  simp [folded, List.foldl_append]

/-- The text that `join` puts after the first part. -/
theorem join_cons (separator part : Text) (rest : List Text) :
    join separator (part :: rest) = part ++ rest.flatMap (separator ++ ·) := by
  induction rest generalizing part with
  | nil => simp [join]
  | cons next rest ih =>
    show part ++ separator ++ join separator (next :: rest) = _
    rw [ih, List.flatMap_cons, List.append_assoc, List.append_assoc]

/-- Values folded into a string that is not empty are appended to it. -/
theorem foldl_of_ne_nil (rest : List Text) : ∀ {old : Text}, old ≠ [] →
    rest.foldl (fun old value => if old = [] then value else old ++ ", ".toList ++ value) old
      = old ++ rest.flatMap (", ".toList ++ ·) := by
  induction rest with
  | nil => simp
  | cons value rest ih =>
    intro old nonempty
    have nonempty' : old ++ ", ".toList ++ value ≠ [] := by simp
    rw [List.foldl_cons, if_neg nonempty, ih nonempty', List.flatMap_cons]
    simp only [List.append_assoc]

theorem length_foldl_le (rest : List Text) : ∀ old : Text,
    (rest.foldl (fun old value => if old = [] then value else old ++ ", ".toList ++ value)
      old).length ≤ (old ++ rest.flatMap (", ".toList ++ ·)).length := by
  induction rest with
  | nil => simp
  | cons value rest ih =>
    intro old
    rw [List.foldl_cons]
    refine (ih _).trans ?_
    split
    · rename_i empty
      simp only [empty, List.flatMap_cons, List.nil_append, List.length_append]
      omega
    · simp only [List.flatMap_cons, List.length_append]
      omega

/-- Folding loses nothing exactly if no further value follows an empty first one. -/
theorem folded_eq_join_iff {value : Text} {rest : List Text} :
    folded (value :: rest) = join ", ".toList (value :: rest) ↔ value = [] → rest = [] := by
  have first : folded (value :: rest) = rest.foldl
      (fun old value => if old = [] then value else old ++ ", ".toList ++ value) value := rfl
  rw [first, join_cons]
  by_cases empty : value = []
  · subst empty
    cases rest with
    | nil => simp
    | cons next rest =>
      have shorter := length_foldl_le rest next
      rw [List.foldl_cons, if_pos rfl]
      refine iff_of_false ?_ (by simp)
      intro same
      have lengths := congrArg List.length same
      simp only [List.flatMap_cons, List.length_append, List.length_nil] at lengths shorter
      have two : ", ".toList.length = 2 := rfl
      omega
  · exact iff_of_true (foldl_of_ne_nil rest empty) (fun is => absurd is empty)

/-! ## The object keeps the values -/

section Keeps

variable {m : Multimap Text Text} {h : Headers}

theorem folds_empty : Folds .empty .empty := fun _ => rfl

/-- A call that stores the values of one name keeps the others. -/
theorem Folds.update (folds : Folds m h) {name : Text} {values : List Text} {v : HeaderValue}
    (stores : storedAs name values = some v) :
    Folds (m.update name values) ⟨h.map.set name v⟩ := by
  intro other
  by_cases same : other = name
  · rw [same, Multimap.update_self, Assoc.get_set_self, stores]
  · rw [Multimap.update_of_ne _ same, Assoc.get_set_ne _ _ (Ne.symm same), folds other]

theorem Folds.append (folds : Folds m h) {raw name value text : Text}
    (read : normalizeName raw = .ok name) (found : normalizeValue text = .ok value) :
    ∃ h', h.append raw text = .ok h' ∧ Folds (m.append name value) h' := by
  have held := folds name
  unfold Headers.append
  simp only [read, found, bind, Except.bind, pure, Except.pure]
  by_cases cookie : name = setCookie
  · subst cookie
    rw [if_pos rfl]
    refine ⟨_, rfl, folds.update ?_⟩
    rw [held, storedAs, storedAs, if_neg (by simp), if_pos rfl]
    by_cases none : m setCookie = [] <;> simp [none]
  · rw [if_neg cookie]
    refine ⟨_, rfl, folds.update ?_⟩
    rw [held, storedAs, storedAs, if_neg (by simp), if_neg cookie, if_neg cookie, folded_snoc]
    by_cases none : m name = []
    · simp [none, folded]
    · rw [if_neg none]
      cases folded (m name) <;> simp

theorem Folds.set (folds : Folds m h) {raw name value text : Text}
    (read : normalizeName raw = .ok name) (found : normalizeValue text = .ok value) :
    ∃ h', h.set raw text = .ok h' ∧ Folds (m.set name value) h' := by
  unfold Headers.set
  simp only [read, found, bind, Except.bind, pure, Except.pure]
  refine ⟨_, rfl, folds.update ?_⟩
  rw [storedAs, if_neg (List.cons_ne_nil _ _)]
  rfl

theorem Folds.delete (folds : Folds m h) {raw name : Text} (read : normalizeName raw = .ok name) :
    ∃ h', h.delete raw = .ok h' ∧ Folds (m.delete name) h' := by
  unfold Headers.delete
  simp only [read, bind, Except.bind, pure, Except.pure]
  refine ⟨_, rfl, fun other => ?_⟩
  by_cases same : other = name
  · rw [same, Multimap.delete_self, Assoc.get_erase_self]
    rfl
  · rw [Multimap.delete_of_ne _ same, Assoc.get_erase_ne _ (Ne.symm same), folds other]

/-- One call. -/
theorem Folds.step (folds : Folds m h) (call : HeaderCall) :
    Folds (noteCall m call) (headerStep h call) := by
  cases call with
  | append name value =>
    cases read : normalizeName name with
    | error e => simpa [noteCall, headerStep, Headers.call, Headers.append, read, bind, Except.bind]
    | ok name' =>
      cases found : normalizeValue value with
      | error e =>
        simpa [noteCall, headerStep, Headers.call, Headers.append, read, found, bind, Except.bind]
      | ok value' =>
        obtain ⟨h', appended, folds'⟩ := folds.append read found
        simpa [noteCall, headerStep, Headers.call, read, found, appended] using folds'
  | set name value =>
    cases read : normalizeName name with
    | error e => simpa [noteCall, headerStep, Headers.call, Headers.set, read, bind, Except.bind]
    | ok name' =>
      cases found : normalizeValue value with
      | error e =>
        simpa [noteCall, headerStep, Headers.call, Headers.set, read, found, bind, Except.bind]
      | ok value' =>
        obtain ⟨h', stored, folds'⟩ := folds.set read found
        simpa [noteCall, headerStep, Headers.call, read, found, stored] using folds'
  | delete name =>
    cases read : normalizeName name with
    | error e => simpa [noteCall, headerStep, Headers.call, Headers.delete, read, bind, Except.bind]
    | ok name' =>
      obtain ⟨h', deleted, folds'⟩ := folds.delete read
      simpa [noteCall, headerStep, Headers.call, read, deleted] using folds'

/-- A sequence of calls. -/
theorem Folds.run (calls : List HeaderCall) : ∀ {m : Multimap Text Text} {h : Headers},
    Folds m h → Folds (runFrom noteCall m calls) (runFrom headerStep h calls) := by
  induction calls with
  | nil => exact id
  | cons call calls ih => exact fun folds => ih (folds.step call)

end Keeps

/-! ## The constructor -/

section Construct

variable {h h' : Headers}

theorem headerStep_append {name value : Text} (appended : h.append name value = .ok h') :
    headerStep h (.append name value) = h' := by
  simp [headerStep, Headers.call, appended]

theorem appendAll_eq_run {pairs : List (Text × Text)} : ∀ {h : Headers},
    h.appendAll pairs = .ok h' →
      runFrom headerStep h (pairs.map fun pair => .append pair.1 pair.2) = h' := by
  induction pairs with
  | nil => exact fun built => Except.ok.inj built
  | cons pair rest ih =>
    intro h built
    cases appended : h.append pair.1 pair.2 with
    | error e => simp [Headers.appendAll, appended, bind, Except.bind] at built
    | ok next =>
      rw [List.map_cons, runFrom_cons, headerStep_append appended]
      exact ih (by simpa [Headers.appendAll, appended, bind, Except.bind] using built)

theorem appendPairs_eq_run {list : List (List Text)} : ∀ {h : Headers},
    h.appendPairs list = .ok h' → runFrom headerStep h (HeadersInit.pairs list).calls = h' := by
  induction list with
  | nil => exact fun built => Except.ok.inj built
  | cons header rest ih =>
    intro h built
    rcases header with _ | ⟨name, _ | ⟨value, _ | ⟨third, more⟩⟩⟩
    · cases built
    · cases built
    · cases appended : h.append name value with
      | error e => simp [Headers.appendPairs, appended, bind, Except.bind] at built
      | ok next =>
        have start : (HeadersInit.pairs ([name, value] :: rest)).calls
            = .append name value :: (HeadersInit.pairs rest).calls := rfl
        rw [start, runFrom_cons, headerStep_append appended]
        exact ih (by simpa [Headers.appendPairs, appended, bind, Except.bind] using built)
    · cases built

/-- An invalid name makes every call of `append` a call without effect. -/
theorem run_append_invalid {name : Text} {e : JsError} (invalid : normalizeName name = .error e)
    (values : List Text) : runFrom headerStep h (values.map (.append name ·)) = h := by
  induction values with
  | nil => rfl
  | cons value rest ih =>
    have unchanged : headerStep h (.append name value) = h := by
      simp [headerStep, Headers.call, Headers.append, invalid, bind, Except.bind]
    rw [List.map_cons, runFrom_cons, unchanged, ih]

theorem appendCaught_eq_run (name : Text) (values : List Text) : ∀ h : Headers,
    h.appendCaught name values = runFrom headerStep h
      ((values.takeWhile fun value => (normalizeValue value).isOk).map (.append name ·)) := by
  cases read : normalizeName name with
  | error e =>
    intro h
    rw [run_append_invalid read]
    cases values with
    | nil => rfl
    | cons value rest =>
      simp [Headers.appendCaught, Headers.append, read, bind, Except.bind]
  | ok name' =>
    induction values with
    | nil => exact fun h => rfl
    | cons value rest ih =>
      intro h
      cases found : normalizeValue value with
      | error e =>
        rw [List.takeWhile_cons_of_neg (by simp [found, Except.isOk, Except.toBool])]
        simp [Headers.appendCaught, Headers.append, read, found, bind, Except.bind]
      | ok value' =>
        obtain ⟨next, appended⟩ : ∃ next, h.append name value = .ok next := by
          simp only [Headers.append, read, found, bind, Except.bind, pure, Except.pure]
          split
          · exact ⟨_, rfl⟩
          · exact ⟨_, rfl⟩
        rw [List.takeWhile_cons_of_pos (by simp [found, Except.isOk, Except.toBool]), List.map_cons,
          runFrom_cons, headerStep_append appended, ← ih]
        simp [Headers.appendCaught, appended]

/-- What the constructor builds is what its calls of `append` leave. -/
theorem construct_eq_run {init : HeadersInit} (built : Headers.construct init = .ok h) :
    runFrom headerStep .empty init.calls = h := by
  cases init with
  | absent => exact Except.ok.inj built
  | headers source => exact appendAll_eq_run built
  | pairs list => exact appendPairs_eq_run built
  | object entries =>
    have object : ∀ entries h, Headers.appendObject h entries
        = runFrom headerStep h (HeadersInit.object entries).calls := by
      intro entries
      induction entries with
      | nil => exact fun h => rfl
      | cons e rest ih =>
        intro h
        have start : (HeadersInit.object (e :: rest)).calls
            = ((e.2.values.takeWhile fun value => (normalizeValue value).isOk).map (.append e.1 ·))
              ++ (HeadersInit.object rest).calls := rfl
        rw [start, runFrom_append, ← appendCaught_eq_run, ← ih]
        rfl
    rw [← object]
    exact Except.ok.inj built
  | invalid => cases built

end Construct

/-! ## The law -/

/-- `lookup` returns the joined values, `getSetCookie` the values themselves, `has` agrees with
`lookup`, and a call changes no other name. -/
structure IsMultimap (h : Headers) (m : Multimap Text Text) : Prop where
  lookup : ∀ raw name, normalizeName raw = .ok name →
    h.lookup raw = .ok (if m name = [] then none else some (join ", ".toList (m name)))
  cookies : h.getSetCookie = m setCookie
  has : ∀ raw name, normalizeName raw = .ok name → (h.has name = true ↔ h.lookup raw ≠ .ok none)
  apart : ∀ (call : HeaderCall) other, normalizeName call.name ≠ .ok other →
    (headerStep h call).get other = h.get other

section Law

variable {m : Multimap Text Text} {h : Headers}

/-- What `get` returns for values that are kept. -/
theorem Folds.get_eq (folds : Folds m h) (name : Text) :
    h.get name = if m name = [] then none
      else some (if name = setCookie then join ", ".toList (m name) else folded (m name)) := by
  rw [Headers.get, folds name, storedAs]
  split
  · rfl
  · split <;> rfl

theorem Folds.getSetCookie_eq (folds : Folds m h) : h.getSetCookie = m setCookie := by
  rw [Headers.getSetCookie, folds setCookie, storedAs]
  by_cases empty : m setCookie = [] <;> simp [empty]

theorem noteCall_of_ne {call : HeaderCall} {other : Text}
    (apart : normalizeName call.name ≠ .ok other) : noteCall m call other = m other := by
  cases read : normalizeName call.name with
  | error e => cases call <;> simp_all [HeaderCall.name, noteCall]
  | ok name =>
    have different : other ≠ name := fun same => apart (same ▸ read)
    cases call with
    | append raw text =>
      cases found : normalizeValue text with
      | error e => simp [noteCall, found]
      | ok value =>
        simpa [noteCall, show normalizeName raw = .ok name from read, found]
          using m.append_of_ne different value
    | set raw text =>
      cases found : normalizeValue text with
      | error e => simp [noteCall, found]
      | ok value =>
        simpa [noteCall, show normalizeName raw = .ok name from read, found]
          using m.set_of_ne different value
    | delete raw =>
      simpa [noteCall, show normalizeName raw = .ok name from read] using m.delete_of_ne different

/-- Only valid names have values. -/
theorem Folds.normal (folds : Folds m h) (valid : h.Valid) {name : Text} (values : m name ≠ []) :
    normalizeName name = .ok name := by
  have held : h.map.get name = some _ := (folds name).trans (if_neg values)
  exact (valid _ (Assoc.mem_of_find held)).1

/-- An object that keeps the values follows the law exactly if folding loses none of them. -/
theorem Folds.ends_iff (folds : Folds m h) (valid : h.Valid) :
    IsMultimap h m ↔ ∀ name, name ≠ setCookie → (m name).head? = some [] → (m name).length = 1 := by
  constructor
  · intro law name plain first
    obtain ⟨rest, values⟩ : ∃ rest, m name = [] :: rest := by
      rcases values : m name with _ | ⟨value, rest⟩
      · simp [values] at first
      · simp only [values, List.head?_cons, Option.some.injEq] at first
        exact ⟨rest, by rw [first]⟩
    have looked := law.lookup name name (folds.normal valid (by simp [values]))
    rw [Headers.lookup, folds.normal valid (by simp [values])] at looked
    simp only [bind, Except.bind, pure, Except.pure, folds.get_eq, if_neg plain, values,
      if_neg (List.cons_ne_nil _ _), Except.ok.injEq, Option.some.injEq] at looked
    rw [values, folded_eq_join_iff.mp looked rfl]
    rfl
  · intro lossless
    have get_eq : ∀ name, h.get name
        = if m name = [] then none else some (join ", ".toList (m name)) := by
      intro name
      rw [folds.get_eq]
      by_cases plain : name = setCookie
      · rw [if_pos plain]
      · rw [if_neg plain]
        rcases values : m name with _ | ⟨value, rest⟩
        · rfl
        · have whole := lossless name plain
          rw [values] at whole
          rw [folded_eq_join_iff.mpr fun empty => by simpa [empty] using whole]
    have lookup_eq : ∀ raw name, normalizeName raw = .ok name → h.lookup raw = .ok (h.get name) := by
      intro raw name read
      rw [Headers.lookup, read]
      rfl
    refine ⟨?_, folds.getSetCookie_eq, ?_, ?_⟩
    · intro raw name read
      rw [lookup_eq raw name read, get_eq]
    · intro raw name read
      rw [lookup_eq raw name read]
      simp [Headers.get, Headers.has, Assoc.has, Option.isSome_iff_ne_none]
    · intro call other apart
      rw [folds.get_eq, (folds.step call).get_eq, noteCall_of_ne apart]

end Law

/-- After any construction and any calls, the object is the multimap of the values that were added
since the last `set` or `delete`, exactly if under no name but `set-cookie` further values follow
an empty first one. -/
theorem isMultimap_iff (init : HeadersInit) (calls : List HeaderCall) (h : Headers)
    (built : Headers.construct init = .ok h) :
    IsMultimap (runFrom headerStep h calls) (added (init.calls ++ calls)) ↔
      ∀ name, name ≠ setCookie → (added (init.calls ++ calls) name).head? = some [] →
        (added (init.calls ++ calls) name).length = 1 := by
  have whole : runFrom headerStep .empty (init.calls ++ calls) = runFrom headerStep h calls := by
    rw [runFrom_append, construct_eq_run built]
  have folds : Folds (added (init.calls ++ calls)) (runFrom headerStep h calls) :=
    whole ▸ folds_empty.run (init.calls ++ calls)
  have valid : (runFrom headerStep h calls).Valid :=
    whole ▸ run_invariant (fun h call valid => valid.step call) _ _ Headers.valid_empty
  exact folds.ends_iff valid

/-- Two values under one name in different letter case. -/
theorem isMultimap_accept :
    IsMultimap (runFrom headerStep ⟨Assoc.empty.set "accept".toList (.single "a".toList)⟩
        [.append "ACCEPT".toList " b ".toList])
      (added [.append "Accept".toList "a".toList, .append "ACCEPT".toList " b ".toList]) := by
  refine (isMultimap_iff (.pairs [["Accept".toList, "a".toList]])
    [.append "ACCEPT".toList " b ".toList] _ (by decide)).mpr ?_
  intro name plain first
  by_cases accept : name = "accept".toList
  · subst accept
    revert first
    decide
  · have skips : ∀ (m : Multimap Text Text) raw value, normalizeName raw = .ok "accept".toList →
        noteCall m (.append raw value) name = m name := fun m raw value read =>
      noteCall_of_ne fun same => accept (Except.ok.inj (same.symm.trans read))
    have none : added [.append "Accept".toList "a".toList, .append "ACCEPT".toList " b ".toList] name
        = [] :=
      (skips _ "ACCEPT".toList " b ".toList (by decide)).trans
        (skips .empty "Accept".toList "a".toList (by decide))
    exact absurd (congrArg List.head? none ▸ first) (by simp)

/-- `set('x', '')` and `append('x', 'a')`: the empty value is replaced. -/
theorem empty_value_lost :
    ¬IsMultimap (runFrom headerStep .empty [.set "x".toList [], .append "x".toList "a".toList])
      (added [.set "x".toList [], .append "x".toList "a".toList]) := by
  intro law
  have looked := law.lookup "x".toList "x".toList (by decide)
  revert looked
  decide

end QjsLws.Http
