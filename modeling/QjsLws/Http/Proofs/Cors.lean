import QjsLws.Http.Cors
import QjsLws.Http.Proofs.ServerResponse

/-!
# `cors`, proofs

What `matchOrigin` answers decides the header that names an origin and whether `Vary` is appended
(`effect`), and nothing else in the middleware touches the two (`cors_effect`). Two requests are then
compared by their effects.
-/

namespace QjsLws.Http

open QjsLws.Misc

/-! ## The effect of an answer -/

section Effect

variable {spec : OriginSpec} {reqOrigin : Option Text} {t v : Text}

/-- The origin that the response names and whether `Vary` is appended; `none` where the request is denied
or the value is no header value. -/
def effect (spec : OriginSpec) (reqOrigin : Option Text) : Option (Text × Bool) :=
  let allow := matchOrigin spec reqOrigin
  if allow = .denied then none
  else
    match normalizeValue (allow.text reqOrigin) with
    | .ok v => some (v, allow ≠ .named ['*'])
    | .error _ => none

theorem effect_denied (denied : matchOrigin spec reqOrigin = .denied) : effect spec reqOrigin = none :=
  if_pos denied

theorem effect_ok {allow : Allow} (answer : matchOrigin spec reqOrigin = allow) (granted : allow ≠ .denied)
    (read : normalizeValue (allow.text reqOrigin) = .ok v) :
    effect spec reqOrigin = some (v, decide (allow ≠ .named ['*'])) := by
  subst answer
  unfold effect
  rw [if_neg granted, read]

/-- A request that is granted, read backwards. -/
theorem of_effect {b : Bool} (shown : effect spec reqOrigin = some (v, b)) :
    matchOrigin spec reqOrigin ≠ .denied ∧
      normalizeValue ((matchOrigin spec reqOrigin).text reqOrigin) = .ok v ∧
        b = decide (matchOrigin spec reqOrigin ≠ .named ['*']) := by
  unfold effect at shown
  dsimp only at shown
  split at shown
  · cases shown
  · rename_i granted
    cases read : normalizeValue ((matchOrigin spec reqOrigin).text reqOrigin) with
    | error e =>
      rw [read] at shown
      cases shown
    | ok w =>
      rw [read] at shown
      cases shown
      exact ⟨granted, rfl, rfl⟩

theorem effect_error {allow : Allow} {e : JsError} (answer : matchOrigin spec reqOrigin = allow)
    (read : normalizeValue (allow.text reqOrigin) = .error e) : effect spec reqOrigin = none := by
  subst answer
  rw [effect, read]
  split <;> rfl

end Effect

/-! ## The middleware has the effect -/

section Run

variable {s : ServerResponse} {wsi : Wsi} {base h : Headers}

/-- The headers that a call leaves behind, whether it throws or not. -/
def Leaves (P : Headers → Prop) (o : ResponseOutcome) : Prop :=
  o.Sat (fun s => P s.headers) fun s => P s.headers

theorem Leaves.andThen {P : Headers → Prop} {o : ResponseOutcome} {f : ServerResponse → ResponseOutcome}
    (first : Leaves P o) (next : ∀ s, P s.headers → Leaves P (f s)) : Leaves P (o.andThen f) :=
  Outcome.Sat.andThen first next

theorem Leaves.imp {P Q : Headers → Prop} {o : ResponseOutcome} (leaves : Leaves P o)
    (weaker : ∀ h, P h → Q h) : Leaves Q o :=
  Outcome.Sat.imp leaves (fun _ => weaker _) fun _ => weaker _

theorem Leaves.state {P : Headers → Prop} {o : ResponseOutcome} (leaves : Leaves P o) :
    P o.state.headers :=
  Outcome.Sat.state leaves

/-- The two headers are the same. -/
structure Agree (base h : Headers) : Prop where
  allowOrigin : h.map.get allowOrigin = base.map.get allowOrigin
  vary : h.map.get vary = base.map.get vary

theorem agree_refl (h : Headers) : Agree h h := ⟨rfl, rfl⟩

/-- A header of another name is set. -/
theorem changeHeaders_agrees {name value : Text} (normal : normalizeName name = .ok name)
    (other : name ≠ allowOrigin) (other' : name ≠ vary) (agree : Agree base s.headers) :
    Leaves (Agree base) (ServerResponse.changeHeaders (·.set name value) s) := by
  rw [ServerResponse.changeHeaders, Headers.set, normal]
  cases normalizeValue value with
  | error e => exact agree
  | ok value =>
    exact ⟨(Assoc.get_set_ne _ _ other).trans agree.allowOrigin,
      (Assoc.get_set_ne _ _ other').trans agree.vary⟩

theorem set_agrees {name value : Text} (normal : normalizeName name = .ok name)
    (other : name ≠ allowOrigin) (other' : name ≠ vary) (agree : Agree base s.headers) :
    Leaves (Agree base) (s.set name value) := by
  unfold ServerResponse.set ServerResponse.assertOpen
  split
  · exact agree
  · exact changeHeaders_agrees normal other other' agree

theorem setIf_agrees {name : Text} {value : Option Text} (normal : normalizeName name = .ok name)
    (other : name ≠ allowOrigin) (other' : name ≠ vary) (agree : Agree base s.headers) :
    Leaves (Agree base) (setIf name value s) := by
  unfold setIf
  split
  · exact agree
  · exact agree
  · exact set_agrees normal other other' agree

theorem wsiWrite_agrees {chunk : Chunk} {proto : Socket.WriteProtocol} (agree : Agree base s.headers) :
    Leaves (Agree base) (s.wsiWrite wsi chunk proto) := by
  unfold ServerResponse.wsiWrite
  dsimp only
  split
  · exact agree
  · split <;> exact agree

/-- `end` without a chunk changes the length at most. -/
theorem end_agrees (agree : Agree base s.headers) : Leaves (Agree base) (s.end wsi none) := by
  unfold ServerResponse.end
  split
  · exact agree
  · refine Leaves.andThen ?_ fun s agree => Leaves.andThen ?_ fun s agree =>
      Leaves.andThen ?_ fun s agree => ?_
    · split
      · exact changeHeaders_agrees (by decide) (by decide) (by decide) agree
      · exact agree
    · unfold ServerResponse.flushHeaders
      split
      · exact agree
      · simp only [ServerResponse.wsiRespond]
        split
        · exact agree
        · split <;> exact agree
    · unfold ServerResponse.writeFinal
      split
      · exact @wsiWrite_agrees s wsi base (.string lastChunk) .httpFinal agree
      · exact wsiWrite_agrees agree
    · exact agree

theorem answerPreflight_agrees {opts : CorsOptions} {req : CorsRequest} (agree : Agree base s.headers) :
    Leaves (Agree base) (answerPreflight wsi opts req s) := by
  unfold answerPreflight
  refine Leaves.andThen (set_agrees (by decide) (by decide) (by decide) agree) fun s agree => ?_
  refine Leaves.andThen (setIf_agrees (by decide) (by decide) (by decide) agree) fun s agree => ?_
  refine Leaves.andThen (setIf_agrees (by decide) (by decide) (by decide) agree) fun s agree => ?_
  refine Leaves.andThen (set_agrees (by decide) (by decide) (by decide) agree) fun s agree => ?_
  exact end_agrees agree

/-- The parts of a text that ends with a separator and another text. -/
theorem mem_split_of_last {t : Text} : "origin".toList ∈
    (split ',' (t ++ ", ".toList ++ "Origin".toList)).map fun part =>
      asciiLower (strip isHttpWhitespace part) := by
  obtain ⟨part, parts, same⟩ := @split_append ',' t " Origin".toList (by decide)
  have shape : t ++ ", ".toList ++ "Origin".toList = t ++ ',' :: " Origin".toList := by simp
  rw [shape, same]
  refine List.mem_map.mpr ⟨" Origin".toList, by simp, by decide⟩

/-- `append('vary', 'Origin')` does not throw. -/
theorem append_vary (h : Headers) : ∃ t, h.append vary "Origin".toList
      = .ok ⟨h.map.set vary (.single t)⟩ ∧ VariesOnOrigin ⟨h.map.set vary (.single t)⟩ := by
  have name : normalizeName vary = .ok vary := by decide
  have value : normalizeValue "Origin".toList = .ok "Origin".toList := by decide
  have varies : ∀ t : Text, "origin".toList ∈
      ((split ',' t).map fun part => asciiLower (strip isHttpWhitespace part)) →
        VariesOnOrigin ⟨h.map.set vary (.single t)⟩ := by
    intro t member
    refine ⟨t, ?_, member⟩
    rw [Headers.get, Assoc.get_set_self]
    rfl
  rw [Headers.append, name, value]
  simp only [bind, Except.bind, pure, Except.pure]
  rw [if_neg (show vary ≠ setCookie by decide)]
  refine ⟨_, rfl, varies _ ?_⟩
  split
  · decide
  · decide
  · rename_i old _ _
    exact @mem_split_of_last old
  · rename_i old _
    exact @mem_split_of_last (join [','] old)

/-- What the middleware leaves in the headers. -/
structure Shows (effect : Option (Text × Bool)) (base h : Headers) : Prop where
  named : h.get allowOrigin = effect.map Prod.fst
  varies : (∃ v, effect = some (v, true)) → VariesOnOrigin h
  quiet : (∀ v, effect ≠ some (v, true)) → h.get vary = base.get vary

theorem Shows.of_agree {effect : Option (Text × Bool)} {h' : Headers} (shows : Shows effect base h)
    (agree : Agree h h') : Shows effect base h' := by
  have named : h'.get allowOrigin = h.get allowOrigin := by
    rw [Headers.get, Headers.get, agree.allowOrigin]
  have varied : h'.get vary = h.get vary := by
    rw [Headers.get, Headers.get, agree.vary]
  refine ⟨named.trans shows.named, fun varies => ?_, fun quiet => varied.trans (shows.quiet quiet)⟩
  obtain ⟨t, here, lists⟩ := shows.varies varies
  exact ⟨t, varied.trans here, lists⟩

/-- The rest of the branch sets headers of other names. -/
theorem rest_shows {opts : CorsOptions} {shown : Option (Text × Bool)} {s' : ServerResponse}
    (shows : Shows shown base s'.headers) :
    Leaves (Shows shown base)
      ((if opts.credentials then s'.set "access-control-allow-credentials".toList "true".toList
        else .done s').andThen fun s =>
        match joined opts.exposedHeaders with
        | none | some [] => .done s
        | some exposed => s.set "access-control-expose-headers".toList exposed) := by
  refine Leaves.imp (Leaves.andThen ?_ fun s'' agree => ?_)
    fun h (agree : Agree s'.headers h) => shows.of_agree agree
  · split
    · exact set_agrees (by decide) (by decide) (by decide) (agree_refl _)
    · exact agree_refl _
  · split
    · exact agree
    · exact agree
    · exact set_agrees (by decide) (by decide) (by decide) agree

/-- The headers after the branch for a request that is allowed. -/
theorem grant_shows {opts : CorsOptions} {reqOrigin : Option Text} (unsent : s.headersSent = false)
    (unnamed : s.headers.has allowOrigin = false) :
    Leaves (Shows (effect opts.spec reqOrigin) s.headers) (grant opts reqOrigin s) := by
  have absent : s.headers.get allowOrigin = none := by
    rw [Headers.get, Headers.has_eq_false.mp unnamed]
    rfl
  have untouched : Shows none s.headers s.headers :=
    ⟨absent, fun no => absurd no.choose_spec (by simp), fun _ => rfl⟩
  have name : normalizeName allowOrigin = .ok allowOrigin := by decide
  unfold grant
  dsimp only
  split
  · rename_i denied
    rw [effect_denied denied]
    exact untouched
  · rename_i granted
    unfold ServerResponse.set ServerResponse.assertOpen
    rw [if_neg (by simp [unsent]), Outcome.done_andThen, ServerResponse.changeHeaders, Headers.set, name]
    cases read : normalizeValue ((matchOrigin opts.spec reqOrigin).text reqOrigin) with
    | error e =>
      rw [effect_error rfl read]
      exact untouched
    | ok v =>
      rw [effect_ok rfl granted read]
      simp only [bind, Except.bind, pure, Except.pure]
      rw [if_neg (show allowOrigin ≠ setCookie by decide), Outcome.done_andThen]
      have named : Headers.get ⟨s.headers.map.set allowOrigin (.single v)⟩ allowOrigin = some v := by
        rw [Headers.get, Assoc.get_set_self]
        rfl
      by_cases star : matchOrigin opts.spec reqOrigin = .named ['*']
      · rw [if_pos star, Outcome.done_andThen]
        apply rest_shows
        refine ⟨named, ?_, fun _ => ?_⟩
        · rintro ⟨w, same⟩
          simp [star] at same
        · rw [Headers.get, Assoc.get_set_ne _ _ (by decide), Headers.get]
      · rw [if_neg star]
        unfold ServerResponse.append ServerResponse.assertOpen
        rw [if_neg (by simp [unsent]), Outcome.done_andThen, ServerResponse.changeHeaders]
        obtain ⟨t, appended, varies⟩ := append_vary ⟨s.headers.map.set allowOrigin (.single v)⟩
        dsimp only
        rw [appended]
        dsimp only
        rw [Outcome.done_andThen]
        apply rest_shows
        refine ⟨?_, fun _ => varies, fun quiet => ?_⟩
        · rw [Headers.get, Assoc.get_set_ne _ _ (by decide)]
          exact named
        · exact absurd (by simp [star]) (quiet v)

/-- The effect of the answer is what the response shows. -/
theorem cors_effect {opts : CorsOptions} {req : CorsRequest} (unsent : s.headersSent = false)
    (unnamed : s.headers.has allowOrigin = false) :
    Shows (effect opts.spec req.origin) s.headers (cors wsi opts req s).1.state.headers := by
  have granted := @grant_shows s opts req.origin unsent unnamed
  unfold cors
  dsimp only
  split
  · refine Leaves.state (granted.andThen fun s' shows => ?_)
    exact (answerPreflight_agrees (agree_refl _)).imp fun h agree => shows.of_agree agree
  · exact granted.state

end Run

/-! ## Two requests -/

section Pairs

variable {spec : OriginSpec} {answer : OriginAnswer} {reqOrigin : Option Text} {t v : Text}

theorem sent_none : Sent none := fun _ no => nomatch no

theorem sent_some (storable : Storable t) : Sent (some t) := fun _ same => Option.some.inj same ▸ storable

/-- `reqOrigin || '*'` is a header value. -/
theorem storable_orStar (sent : Sent reqOrigin) : Storable (orStar reqOrigin) := by
  have star : Storable ['*'] := forall_mem_of_all (P := fun c => isForbiddenInValue c = false) (by decide)
  match reqOrigin with
  | none | some [] => exact star
  | some (c :: t) => exact sent _ rfl

/-- Every two requests have the same effect on the header, or both say that they vary. -/
def Alike (spec : OriginSpec) : Prop :=
  ∀ origin origin', Sent origin → Sent origin' →
    (effect spec origin).map Prod.fst = (effect spec origin').map Prod.fst ∨
      (∃ v, effect spec origin = some (v, true)) ∧ ∃ v, effect spec origin' = some (v, true)

/-- Where no request is granted, all are alike. -/
theorem alike_of_none (none : ∀ origin, Sent origin → effect spec origin = Option.none) : Alike spec :=
  fun origin origin' sent sent' => .inl (by rw [none origin sent, none origin' sent'])

/-- A request that is granted, and one that is not. -/
theorem not_alike {origin origin' : Option Text} {e : Text × Bool} (sent : Sent origin)
    (sent' : Sent origin') (granted : effect spec origin = some e)
    (denied : effect spec origin' = none) : ¬Alike spec := by
  intro alike
  rcases alike origin origin' sent sent' with same | ⟨-, v, shown⟩
  · rw [granted, denied] at same
    cases same
  · rw [denied] at shown
    cases shown

/-- The effect of an origin that is named as it is. -/
theorem effect_named (storable : Storable t) (answer : matchOrigin spec (some t) = .named t) :
    ∃ e, effect spec (some t) = some e :=
  ⟨_, effect_ok answer (by simp) (normalizeValue_of_storable storable)⟩

theorem alike_string_iff : Alike (.string t) ↔ t = ['*'] ∨ ¬Storable t := by
  by_cases star : t = ['*']
  · refine iff_of_true (fun origin origin' _ _ => .inl ?_) (.inl star)
    have same : ∀ origin, effect (.string t) origin = some (['*'], false) := by
      intro origin
      have answer : matchOrigin (.string t) origin = .named ['*'] := if_pos star
      exact (effect_ok (v := ['*']) answer (by decide) rfl).trans (by decide)
    rw [same, same]
  · rw [or_iff_right star]
    have denied : ∀ origin, origin ≠ some t → effect (.string t) origin = none := by
      intro origin other
      apply effect_denied
      rw [matchOrigin, if_neg star, if_neg fun same => other same.symm]
    constructor
    · intro alike storable
      have answer : matchOrigin (.string t) (some t) = .named t := by
        rw [matchOrigin, if_neg star, if_pos rfl]
      obtain ⟨e, granted⟩ := effect_named storable answer
      exact not_alike (sent_some storable) sent_none granted (denied none nofun) alike
    · intro unsendable
      exact alike_of_none fun origin sent => denied origin fun same => unsendable (sent t same)

theorem alike_list_iff {l : List Text} : Alike (.list l) ↔ ∀ t ∈ l, ¬Storable t := by
  constructor
  · intro alike t member storable
    obtain ⟨e, granted⟩ := @effect_named (.list l) t storable (if_pos member)
    exact not_alike (sent_some storable) sent_none granted (effect_denied rfl) alike
  · intro unsendable
    refine alike_of_none fun origin sent => effect_denied ?_
    match origin with
    | none => rfl
    | some t => exact if_neg fun member => unsendable t member (sent t rfl)

theorem alike_bool_iff {b : Bool} : Alike (.bool b) ↔ b = false := by
  cases b with
  | false => exact iff_of_true (alike_of_none fun _ _ => effect_denied rfl) rfl
  | true =>
    refine iff_of_false (fun alike => ?_) (by decide)
    have letter : Storable ['a'] := forall_mem_of_all (P := fun c => isForbiddenInValue c = false) (by decide)
    have named : effect (.bool true) (some ['a']) = some (['a'], true) := by decide
    have open_ : effect (.bool true) none = some (['*'], false) := by decide
    rcases alike _ _ (sent_some letter) sent_none with same | ⟨-, v, shown⟩
    · rw [named, open_] at same
      exact absurd same (by decide)
    · rw [open_] at shown
      simp at shown

theorem alike_regex_iff {test : Text → Bool} :
    Alike (.regex test) ↔ ∀ t, Storable t → test t = false := by
  have plain : ∀ {t : Text}, t.all (fun c => !isForbiddenInValue c) = true → Storable t := by
    intro t all c member
    simpa using List.all_eq_true.mp all c member
  have matched : ∀ {t}, test t = true → matchOrigin (.regex test) (some t) = .named t :=
    fun matched => if_pos matched
  have unmatched : ∀ {t}, test t = false → effect (.regex test) (some t) = none :=
    fun unmatched => effect_denied (if_neg (by simp [unmatched]))
  constructor
  · intro alike t storable
    by_contra found
    rw [Bool.not_eq_false] at found
    obtain ⟨e, granted⟩ := effect_named storable (matched found)
    have star : Storable ['*'] := plain (by decide)
    have letter : Storable ['a'] := plain (by decide)
    cases starred : test ['*'] with
    | false => exact not_alike (sent_some storable) (sent_some star) granted (unmatched starred) alike
    | true =>
      have open_ : effect (.regex test) (some ['*']) = some (['*'], false) :=
        (effect_ok (matched starred) (by decide) rfl).trans (by decide)
      cases lettered : test ['a'] with
      | false => exact not_alike (sent_some star) (sent_some letter) open_ (unmatched lettered) alike
      | true =>
        have named : effect (.regex test) (some ['a']) = some (['a'], true) :=
          (effect_ok (matched lettered) (by decide) rfl).trans (by decide)
        rcases alike _ _ (sent_some letter) (sent_some star) with same | ⟨-, v, shown⟩
        · rw [named, open_] at same
          exact absurd same (by decide)
        · rw [open_] at shown
          simp at shown
  · intro never
    refine alike_of_none fun origin sent => ?_
    match origin with
    | none =>
      apply effect_denied
      rw [matchOrigin, never _ (plain (by decide))]
      rfl
    | some t => exact unmatched (never t (sent t rfl))

/-! ### Functions -/

variable {f : Option Text → OriginAnswer}

/-- What a function makes of a request: the effect of an answer, by its kind. -/
theorem effect_answer (sent : Sent reqOrigin) :
    ((f reqOrigin).Withholds ↔ effect (.function f) reqOrigin = none) ∧
      ((f reqOrigin).Opens reqOrigin ↔ (effect (.function f) reqOrigin).map Prod.fst = some ['*']) ∧
        ((f reqOrigin).Varies ↔ ∃ v, effect (.function f) reqOrigin = some (v, true)) := by
  cases answered : f reqOrigin with
  | no =>
    have matched : matchOrigin (.function f) reqOrigin = .denied := by simp only [matchOrigin, answered]
    rw [effect_denied matched]
    simp [OriginAnswer.Withholds, OriginAnswer.Opens, OriginAnswer.Varies]
  | yes =>
    have matched : matchOrigin (.function f) reqOrigin = .yes := by simp only [matchOrigin, answered]
    have read := normalizeValue_of_storable (storable_orStar sent)
    rw [effect_ok matched (by decide) read]
    simp [OriginAnswer.Withholds, OriginAnswer.Opens, OriginAnswer.Varies, read]
  | named t =>
    have matched : matchOrigin (.function f) reqOrigin = .named t := by simp only [matchOrigin, answered]
    cases read : normalizeValue t with
    | error e =>
      rw [effect_error matched read]
      simp [OriginAnswer.Withholds, OriginAnswer.Opens, OriginAnswer.Varies, read]
    | ok v =>
      rw [effect_ok matched (by simp) read]
      simp [OriginAnswer.Withholds, OriginAnswer.Opens, OriginAnswer.Varies, read]

/-- A request that does not vary decides for all. -/
theorem alike_function_iff : Alike (.function f) ↔ (OriginSpec.function f).Uniform := by
  constructor
  · intro alike
    by_cases varies : ∀ origin, Sent origin → (f origin).Varies
    · exact .inr (.inr varies)
    · push Not at varies
      obtain ⟨origin, sent, constant⟩ := varies
      have same : ∀ origin', Sent origin' → (effect (.function f) origin').map Prod.fst
          = (effect (.function f) origin).map Prod.fst := by
        intro origin' sent'
        exact (alike origin' origin sent' sent).resolve_right fun both =>
          constant ((effect_answer sent).2.2.mpr both.2)
      cases shown : effect (.function f) origin with
      | none =>
        refine .inl fun origin' sent' => (effect_answer sent').1.mpr ?_
        exact Option.map_eq_none_iff.mp ((same origin' sent').trans (by rw [shown]; rfl))
      | some e =>
        obtain ⟨v, b⟩ := e
        have still : b = false := by
          rw [← Bool.not_eq_true]
          rintro rfl
          exact constant ((effect_answer sent).2.2.mpr ⟨v, shown⟩)
        have star : v = ['*'] := by
          obtain ⟨-, read, named⟩ := of_effect shown
          rw [still, eq_comm, decide_eq_false_iff_not, not_not] at named
          rw [named] at read
          exact (Except.ok.inj read).symm
        refine .inr (.inl fun origin' sent' => (effect_answer sent').2.1.mpr ?_)
        rw [same origin' sent', shown, star]
        rfl
  · rintro (none | opens | varies)
    · exact alike_of_none fun origin sent => (effect_answer sent).1.mp (none origin sent)
    · intro origin origin' sent sent'
      exact .inl (((effect_answer sent).2.1.mp (opens origin sent)).trans
        ((effect_answer sent').2.1.mp (opens origin' sent')).symm)
    · intro origin origin' sent sent'
      exact .inr ⟨(effect_answer sent).2.2.mp (varies origin sent),
        (effect_answer sent').2.2.mp (varies origin' sent')⟩

theorem alike_iff : Alike spec ↔ spec.Uniform :=
  match spec with
  | .string _ => alike_string_iff
  | .list _ => alike_list_iff
  | .bool _ => alike_bool_iff
  | .regex _ => alike_regex_iff
  | .function _ => alike_function_iff

end Pairs

/-! ## The contract -/

section Contract

variable {opts : CorsOptions} {spec : OriginSpec} {reqOrigin : Option Text} {t v : Text}

/-- Only an origin that the specification allows is named. -/
theorem allows_of_effect {origin v : Text} {b : Bool}
    (shown : effect spec (some origin) = some (v, b)) (same : v = origin) : spec.Allows origin := by
  obtain ⟨granted, read, -⟩ := of_effect shown
  cases spec with
  | string t =>
    by_cases star : t = ['*']
    · exact .inl star
    · right
      by_contra other
      exact granted (by rw [matchOrigin, if_neg star, if_neg fun same => other (Option.some.inj same)])
  | list l =>
    by_contra absent
    exact granted (if_neg absent)
  | bool all =>
    cases all with
    | true => exact rfl
    | false => exact absurd rfl granted
  | regex test =>
    by_contra unmatched
    exact granted (if_neg unmatched)
  | function f =>
    cases answered : f (some origin) with
    | yes => exact .inl answered
    | no =>
      have matched : matchOrigin (.function f) (some origin) = .denied := by simp only [matchOrigin, answered]
      exact absurd matched granted
    | named t =>
      have matched : matchOrigin (.function f) (some origin) = .named t := by simp only [matchOrigin, answered]
      rw [matched] at read
      exact .inr ⟨t, answered, .inr (same ▸ read)⟩

/-- The contract at a fresh response. -/
theorem alike_of_contract (contract : CorsContract opts) : Alike opts.spec := by
  intro origin origin' sent sent'
  have fresh : ServerResponse.fresh.headersSent = false := rfl
  have unnamed : ServerResponse.fresh.headers.has allowOrigin = false := rfl
  by_contra differ
  rw [not_or] at differ
  have shows := @cors_effect .fresh .live opts ⟨"GET".toList, origin, none, none⟩ fresh unnamed
  have shows' := @cors_effect .fresh .live opts ⟨"GET".toList, origin', none, none⟩ fresh unnamed
  have both := contract.cacheSafe .live .live ⟨"GET".toList, origin, none, none⟩ origin' .fresh fresh
    unnamed sent sent' (by rw [shows.named, shows'.named]; exact differ.1)
  have varied : ∀ {effect h}, Shows effect ServerResponse.fresh.headers h → VariesOnOrigin h →
      ∃ v, effect = some (v, true) := by
    intro effect h shows varies
    by_contra quiet
    push Not at quiet
    obtain ⟨t, found, -⟩ := varies
    rw [shows.quiet quiet] at found
    cases found
  exact differ.2 ⟨varied shows both.1, varied shows' both.2⟩

/-- The middleware is cache-safe exactly where its specification treats all requests alike. -/
theorem corsContract_iff (opts : CorsOptions) : CorsContract opts ↔ opts.spec.Uniform := by
  rw [← alike_iff]
  constructor
  · exact alike_of_contract
  · intro alike
    refine ⟨?_, ?_⟩
    · intro wsi wsi' req origin s unsent unnamed sent sent'
      have shows := @cors_effect s wsi opts req unsent unnamed
      have shows' := @cors_effect s wsi' opts { req with origin } unsent unnamed
      intro h h' differ
      rcases alike req.origin origin sent sent' with same | both
      · exact absurd (shows.named.trans (same.trans shows'.named.symm)) differ
      · exact ⟨shows.varies both.1, shows'.varies both.2⟩
    · intro wsi req origin s unsent unnamed sent present denied named
      have shows := @cors_effect s wsi opts req unsent unnamed
      rw [shows.named, present, Option.map_eq_some_iff] at named
      obtain ⟨⟨v, b⟩, shown, same⟩ := named
      exact denied (allows_of_effect shown same)

/-- An origin that is not listed gets a response without `Vary`, which a cache gives to one that is. -/
theorem denied_uncacheable :
    ¬CorsContract ⟨some (.string "https://a.example".toList), none, none, none, false, none, none⟩ := by
  intro contract
  rcases alike_string_iff.mp (alike_of_contract contract) with star | unsendable
  · exact absurd star (by decide)
  · exact unsendable (forall_mem_of_all (P := fun c => isForbiddenInValue c = false) (by decide))

end Contract

end QjsLws.Http
