import QjsLws.Url.Proofs.WellFormed

/-!
# Parsing yields well-formed records

The invariant of the loop without a state override, state by state, for a base that is itself
well-formed.
-/

namespace QjsLws.Url

open QjsLws.Misc ParserInput

/-- A record of which only the scheme is set. -/
def schemeOnly (scheme : Text) : URLRecord := { newURLRecord with scheme }

/-- Nothing but the scheme was read. -/
structure Fresh (scheme : Text) (v : ParserVars) : Prop where
  url : v.url = schemeOnly scheme
  buffer : v.buffer = []
  unseen : v.atSignSeen = false

/-- The scheme and the credentials were read. -/
structure CredentialStage (u : URLRecord) : Prop where
  url : u = { schemeOnly u.scheme with username := u.username, password := u.password }
  scheme : SchemeOk u.scheme
  notFile : isFile u.scheme = false
  username : Encoded userinfoExtra u.username
  password : Encoded userinfoExtra u.password

/-- The authority is complete and a list path is being read. -/
structure PathStage (native : Native) (u : URLRecord) (l : List Text) : Prop where
  authority : AuthorityOk native u.scheme u.username u.password u.host u.port
  localhost : LocalOk u.scheme u.host
  path : u.path = .segments l
  segments : ∀ s ∈ l, SegmentOk native (isSpecialScheme u.scheme) s
  drive : DriveOk u.scheme l
  query : u.query = none
  fragment : u.fragment = none

/-- The part of a segment that was read. -/
structure SegmentStage (special : Bool) (buffer : Text) : Prop where
  encoded : Encoded pathExtra buffer
  slash : '/' ∉ buffer
  backslash : special = true → '\\' ∉ buffer

/-- An opaque path is being read. -/
structure OpaqueStage (x : ParserInput) (v : ParserVars) (t : Text) : Prop where
  url : v.url = { schemeOnly v.url.scheme with path := .text t }
  scheme : SchemeOk v.url.scheme
  special : isSpecialScheme v.url.scheme = false
  encoded : Encoded c0Extra t
  plain : ∀ c ∈ t, c ≠ '?' ∧ c ≠ '#'
  first : if t = [] then charAt x.cp v.pointer ≠ some '/' else t.head? ≠ some '/'
  last : t.getLast? = some ' ' → charAt x.cp (v.pointer - 1) = some ' '

/-- A host that was read, but not by the empty name. -/
def filledHost (u : URLRecord) : Prop := ∃ h, u.host = some h ∧ h ≠ .text []

/-- The invariant of the loop. -/
inductive ParserInv (x : ParserInput) (v : ParserVars) : Prop
  | schemeStart (state : v.state = .schemeStart) (fresh : Fresh [] v)
  | scheme (state : v.state = .scheme) (url : v.url = newURLRecord) (unseen : v.atSignSeen = false)
    (buffer : SchemeOk v.buffer)
  | noScheme (state : v.state = .noScheme) (fresh : Fresh [] v)
  | specialRelative (state : v.state = .specialRelativeOrAuthority) (base : URLRecord)
    (based : x.base = some base) (fresh : Fresh base.scheme v)
    (special : isSpecialScheme base.scheme = true) (notFile : isFile base.scheme = false)
  | pathOrAuthority (state : v.state = .pathOrAuthority) (scheme : Text) (fresh : Fresh scheme v)
    (ok : SchemeOk scheme) (special : isSpecialScheme scheme = false)
  | relative (state : v.state = .relative) (scheme : Text) (fresh : Fresh scheme v)
    (base : URLRecord) (based : x.base = some base) (list : base.opaquePath = false)
    (notFile : isFile base.scheme = false)
  | relativeSlash (state : v.state = .relativeSlash) (base : URLRecord)
    (based : x.base = some base) (fresh : Fresh base.scheme v) (notFile : isFile base.scheme = false)
  | slashes (state : v.state = .specialAuthoritySlashes ∨ v.state = .specialAuthorityIgnoreSlashes)
    (scheme : Text) (fresh : Fresh scheme v) (ok : SchemeOk scheme)
    (special : isSpecialScheme scheme = true) (notFile : isFile scheme = false)
  | authority (state : v.state = .authority) (stage : CredentialStage v.url)
    (unseen : v.atSignSeen = false → v.url.username = [] ∧ v.url.password = [])
    (read : v.buffer ≠ [] → ∃ c, charAt x.cp (v.pointer - v.buffer.length) = some c ∧
      endsAuthority (isSpecial v.url) (some c) = false)
  | host (state : v.state = .host) (stage : CredentialStage v.url)
    (read : v.buffer = [] → includesCredentials v.url = true →
      endsAuthority (isSpecial v.url) (charAt x.cp v.pointer) = false)
  | port (state : v.state = .port) (stage : PathStage x.native v.url [])
    (notFile : isFile v.url.scheme = false) (filled : filledHost v.url)
  | file (state : v.state = .file) (scheme : Text) (fresh : Fresh scheme v)
  | fileSlash (state : v.state = .fileSlash) (stage : PathStage x.native v.url [])
    (file : isFile v.url.scheme = true) (buffer : v.buffer = [])
  | fileHost (state : v.state = .fileHost) (stage : PathStage x.native v.url [])
    (file : isFile v.url.scheme = true)
  | pathStart (state : v.state = .pathStart) (stage : PathStage x.native v.url [])
    (host : v.url.host ≠ none) (buffer : v.buffer = [])
  | path (state : v.state = .path) (path : List Text) (stage : PathStage x.native v.url path)
    (buffer : SegmentStage (isSpecial v.url) v.buffer)
  | opaquePath (state : v.state = .opaquePath) (t : Text) (stage : OpaqueStage x v t)
  | query (state : v.state = .query) (ok : UrlOk x.native v.url) (query : v.url.query.isSome = true)
    (fragment : v.url.fragment = none)
  | fragment (state : v.state = .fragment) (ok : UrlOk x.native v.url)
    (fragment : v.url.fragment.isSome = true)

section Records

variable {native : Native} {u : URLRecord}

theorem UrlOk.withFragment (ok : UrlOk native u) {f : Text} (encoded : Encoded fragmentExtra f) :
    UrlOk native { u with fragment := some f } where
  safe := ⟨ok.safe.authority, ok.safe.path, ok.safe.query, fun g same => by cases same; exact encoded⟩
  stable := ⟨ok.stable.localhost, ok.stable.drive, fun _ _ _ => .inr (by simp)⟩

theorem UrlOk.withQuery (ok : UrlOk native u) {q : Text} (encoded : Encoded (querySet u) q) :
    UrlOk native { u with query := some q } where
  safe := ⟨ok.safe.authority, ok.safe.path, fun r same => by cases same; exact encoded,
    ok.safe.fragment⟩
  stable := ⟨ok.stable.localhost, ok.stable.drive, fun _ _ _ => .inl (by simp)⟩

/-- Without an opaque path nothing depends on the query or the fragment. -/
theorem UrlOk.withoutFragment (ok : UrlOk native u) (list : u.opaquePath = false) :
    UrlOk native { u with fragment := none } where
  safe := ⟨ok.safe.authority, ok.safe.path, ok.safe.query, fun f same => by cases same⟩
  stable := by
    refine ⟨ok.stable.localhost, ok.stable.drive, fun t same => ?_⟩
    simp only at same
    simp [URLRecord.opaquePath, same] at list

/-- A complete list path. -/
theorem PathStage.urlOk {path : List Text} (stage : PathStage native u path)
    (complete : isSpecialScheme u.scheme = true ∨ u.host = none → path ≠ []) : UrlOk native u where
  safe := by
    refine ⟨stage.authority, ?_, ?_, ?_⟩
    · rw [stage.path]
      exact ⟨stage.segments, complete⟩
    · simp [stage.query]
    · simp [stage.fragment]
  stable := by
    refine ⟨stage.localhost, fun l same => ?_, fun t same => ?_⟩
    · rw [stage.path] at same
      cases same
      exact stage.drive
    · rw [stage.path] at same
      cases same

theorem SegmentOk.of_stage {special : Bool} {buffer : Text} (stage : SegmentStage special buffer)
    (single : isSingleDotSegment native buffer = false)
    (double : isDoubleDotSegment native buffer = false) : SegmentOk native special buffer :=
  ⟨stage.encoded, stage.slash, stage.backslash, single, double⟩

theorem segmentStage_nil {special : Bool} : SegmentStage special [] :=
  ⟨encoded_nil, by simp, by simp⟩

theorem segmentOk_nil (lawful : native.Lawful) {special : Bool} : SegmentOk native special [] := by
  have lower := lawful.toLowerCase_ascii [] (by simp)
  refine .of_stage segmentStage_nil ?_ ?_
  · simp [isSingleDotSegment, lower, asciiLower]
  · simp [isDoubleDotSegment, lower, asciiLower]

end Records

section Keeps

/-- What a returned record is. -/
abbrev Returned (x : ParserInput) (url : URLRecord) (ended : ParseEnd) : Prop :=
  ended = .record → UrlOk x.native url

/-- A pass keeps the invariant. -/
abbrev Keeps (x : ParserInput) (pass : Pass) : Prop := pass.Sat x (ParserInv x) (Returned x)

variable {x : ParserInput} {v : ParserVars}

theorem keeps_null {url : URLRecord} : Keeps x (.done url .null) := by
  intro ended
  cases ended

theorem keeps_threw {url : URLRecord} {e : JsError} : Keeps x (.done url (.threw e)) := by
  intro ended
  cases ended

theorem toLower_schemeChar {c : Char} (char : isSchemeChar c = true) :
    c.toNat < 0x80 ∧ isSchemeChar c.toLower = true ∧ c.toLower.toLower = c.toLower ∧
      (c.isAlpha = true → c.toLower.isAlpha = true) := by
  have ascii : c.toNat < 0x80 := by
    simp only [isSchemeChar, Bool.or_eq_true, decide_eq_true_eq] at char
    rcases char with ((alphanum | rfl) | rfl) | rfl
    · exact ascii_of_isAlphanum alphanum
    all_goals decide
  exact ⟨ascii, forall_ascii (P := fun c => isSchemeChar c = true → isSchemeChar c.toLower = true ∧
    c.toLower.toLower = c.toLower ∧ (c.isAlpha = true → c.toLower.isAlpha = true))
    (by decide) ascii char⟩

theorem toLowerCase_singleton (lawful : x.native.Lawful) {c : Char} (ascii : c.toNat < 0x80) :
    x.native.toLowerCase [c] = [c.toLower] :=
  lawful.toLowerCase_ascii [c] (by simpa using ascii)

theorem isSchemeChar_of_isAlpha {c : Char} (alpha : c.isAlpha = true) : isSchemeChar c = true := by
  simp [isSchemeChar, Char.isAlphanum, alpha]

theorem keeps_schemeStart (lawful : x.native.Lawful) (override : x.stateOverride = none)
    (placed : Placed x.cp v) (fresh : Fresh [] v) :
    Keeps x (x.schemeStart v (charAt x.cp v.pointer)) := by
  unfold schemeStart
  split
  · rename_i c found
    rw [Option.filter_eq_some_iff] at found
    obtain ⟨ascii, char, idem, alpha⟩ := toLower_schemeChar (isSchemeChar_of_isAlpha found.2)
    refine sat_char found.1 (Int.le_refl _) ?_
    refine .scheme rfl fresh.url fresh.unseen ?_
    rw [toLowerCase_singleton lawful ascii]
    simp only [ParserVars.advance, ParserVars.goto, ParserVars.append, fresh.buffer, List.nil_append]
    refine ⟨⟨c.toLower, [], rfl, alpha found.2⟩, fun d member => ?_⟩
    rw [List.mem_singleton.mp member]
    exact ⟨char, idem⟩
  · rw [override]
    refine sat_back placed (by simp) ?_
    exact .noScheme rfl ⟨fresh.url, fresh.buffer, fresh.unseen⟩

/-- A scheme that was read whole. -/
theorem keeps_schemeRead (found : charAt x.cp v.pointer = some ':') (url : v.url = newURLRecord)
    (unseen : v.atSignSeen = false) (ok : SchemeOk v.buffer) :
    Keeps x (.next (x.schemeRead v)) := by
  have inside := (lt_of_charAt found).2
  unfold schemeRead
  dsimp only
  rw [url]
  split
  · refine sat_char found (Int.le_refl _) ?_
    exact .file rfl v.buffer ⟨rfl, rfl, unseen⟩
  · rename_i notFile
    split
    · rename_i based
      rw [Bool.and_eq_true, Option.any_eq_true] at based
      obtain ⟨special, base, isBase, same⟩ := based
      rw [decide_eq_true_eq] at same
      refine sat_char found (Int.le_refl _) ?_
      refine .specialRelative rfl base isBase ⟨?_, rfl, unseen⟩ ?_ ?_
      · rw [same]
        rfl
      · rw [same]
        exact special
      · rw [same]
        exact Bool.eq_false_iff.mpr notFile
    · split
      · rename_i special
        refine sat_char found (Int.le_refl _) ?_
        exact .slashes (.inl rfl) v.buffer ⟨rfl, rfl, unseen⟩ ok special
          (Bool.eq_false_iff.mpr notFile)
      · rename_i special
        have special : isSpecialScheme v.buffer = false := Bool.eq_false_iff.mpr special
        split
        · rename_i slash
          have next := (lt_of_charAt slash).2
          refine ⟨fun _ => ?_, fun outside => ?_⟩
          · exact .pathOrAuthority rfl v.buffer ⟨rfl, rfl, unseen⟩ ok special
          · simp only [ParserVars.skip, ParserVars.goto] at outside next
            omega
        · rename_i slash
          refine sat_char found (Int.le_refl _) ?_
          refine .opaquePath rfl [] ⟨rfl, ok, special, encoded_nil, by simp, ?_, by simp⟩
          rw [if_pos rfl]
          exact slash

theorem keeps_scheme (lawful : x.native.Lawful) (override : x.stateOverride = none)
    (state : v.state = .scheme) (url : v.url = newURLRecord) (unseen : v.atSignSeen = false)
    (ok : SchemeOk v.buffer) : Keeps x (x.scheme v (charAt x.cp v.pointer)) := by
  unfold scheme
  split
  · rename_i c found
    rw [Option.filter_eq_some_iff] at found
    obtain ⟨ascii, char, idem, -⟩ := toLower_schemeChar found.2
    refine sat_char found.1 (Int.le_refl _) ?_
    refine .scheme state url unseen ?_
    rw [toLowerCase_singleton lawful ascii]
    obtain ⟨a, rest, same, alpha⟩ := ok.first
    refine ⟨⟨a, rest ++ [c.toLower], by simp [same], alpha⟩, fun d member => ?_⟩
    rcases List.mem_append.mp member with old | new
    · exact ok.chars d old
    · rw [List.mem_singleton.mp new]
      exact ⟨char, idem⟩
  · rw [override]
    split
    · rename_i colon
      exact keeps_schemeRead colon url unseen ok
    · refine ⟨fun _ => .noScheme rfl ⟨url, rfl, unseen⟩, fun outside => ?_⟩
      simp only at outside
      have := Int.natCast_nonneg x.cp.length
      omega

/-- A record with an opaque path has no authority. -/
theorem UrlSafe.authority_of_opaque {native : Native} {u : URLRecord} (safe : UrlSafe native u)
    (list : u.opaquePath = true) :
    u.username = [] ∧ u.password = [] ∧ u.host = none ∧ u.port = none := by
  have path := safe.path
  cases same : u.path with
  | segments l => simp [URLRecord.opaquePath, same] at list
  | text t =>
    rw [same] at path
    obtain ⟨username, password, port⟩ := safe.authority.bare (.inr (.inl path.2.1))
    exact ⟨username, password, path.2.1, port⟩

theorem UrlSafe.segments {native : Native} {u : URLRecord} (safe : UrlSafe native u)
    (list : u.opaquePath = false) :
    ∃ l, u.path = .segments l ∧ (∀ s ∈ l, SegmentOk native (isSpecialScheme u.scheme) s) := by
  have path := safe.path
  cases same : u.path with
  | text t => simp [URLRecord.opaquePath, same] at list
  | segments l =>
    rw [same] at path
    exact ⟨l, rfl, path.1⟩

theorem opaquePath_of_special {native : Native} {u : URLRecord} (safe : UrlSafe native u)
    (special : isSpecialScheme u.scheme = true) : u.opaquePath = false := by
  have path := safe.path
  cases same : u.path with
  | segments l => simp [URLRecord.opaquePath, same]
  | text t =>
    rw [same] at path
    have other : isSpecialScheme u.scheme = false := path.1
    rw [special] at other
    cases other

/-- Going on from an inherited path. -/
theorem keeps_afterInherited (placed : Placed x.cp v) (ok : UrlOk x.native v.url)
    (fragment : v.url.fragment = none) (buffer : v.buffer = []) {l : List Text}
    (path : v.url.path = .segments l) {f : List Text → List Text} (shorter : f l <+: l) :
    Keeps x (afterInherited v (charAt x.cp v.pointer) (.modify f)) := by
  unfold afterInherited
  split
  · rename_i found
    refine sat_char found (Int.le_refl _) ?_
    exact .query rfl (ok.withQuery encoded_nil) rfl fragment
  · split
    · rename_i found
      refine sat_char found (Int.le_refl _) ?_
      exact .fragment rfl (ok.withFragment encoded_nil) rfl
    · split
      · refine sat_back placed (by simp) ?_
        have segments := ok.safe.path
        rw [path] at segments
        refine .path rfl (f l) ?_ ?_
        · refine ⟨ok.safe.authority, ok.stable.localhost, ?_, ?_, ?_, rfl, fragment⟩
          · simp [path, UrlPath.modify]
          · exact fun s member => segments.1 s (shorter.subset member)
          · exact (ok.stable.drive l path).of_isPrefix shorter
        · simp only [ParserVars.advance, ParserVars.back, ParserVars.goto, buffer]
          exact segmentStage_nil
      · rename_i rest
        refine sat_end placed ?_ (Int.le_refl _) (fun _ => ok)
        simpa using rest

theorem keeps_noScheme (baseOk : ∀ base, x.base = some base → UrlOk x.native base)
    (placed : Placed x.cp v) (fresh : Fresh [] v) :
    Keeps x (x.noScheme v (charAt x.cp v.pointer)) := by
  unfold noScheme
  split
  · exact keeps_null
  · rename_i base based
    split
    · rename_i list
      split
      · rename_i found
        obtain ⟨username, password, host, port⟩ := (baseOk base based).safe.authority_of_opaque list
        have whole : { v.url with
            scheme := base.scheme, path := base.path, query := base.query, fragment := some [] }
            = { base with fragment := some [] } := by
          rw [fresh.url, URLRecord.mk.injEq]
          exact ⟨rfl, username.symm, password.symm, host.symm, port.symm, rfl, rfl, rfl⟩
        refine sat_char found (Int.le_refl _) (.fragment rfl ?_ rfl)
        simp only [ParserVars.advance, ParserVars.toFragment]
        rw [whole]
        exact (baseOk base based).withFragment encoded_nil
      · exact keeps_null
    · rename_i list
      have list : base.opaquePath = false := Bool.eq_false_iff.mpr list
      split
      · rename_i notFile
        refine sat_back placed (by simp) ?_
        exact .relative rfl [] ⟨fresh.url, fresh.buffer, fresh.unseen⟩ base based list
          (by simpa using notFile)
      · refine sat_back placed (by simp) ?_
        exact .file rfl [] ⟨fresh.url, fresh.buffer, fresh.unseen⟩

theorem keeps_specialRelative (baseOk : ∀ base, x.base = some base → UrlOk x.native base)
    (placed : Placed x.cp v) {base : URLRecord} (based : x.base = some base)
    (fresh : Fresh base.scheme v) (special : isSpecialScheme base.scheme = true)
    (notFile : isFile base.scheme = false) :
    Keeps x (x.specialRelativeOrAuthority v (charAt x.cp v.pointer)) := by
  have safe := (baseOk base based).safe
  unfold specialRelativeOrAuthority
  split
  · rename_i found
    have next := (lt_of_charAt found.2).2
    refine ⟨fun _ => ?_, fun outside => ?_⟩
    · exact .slashes (.inr rfl) base.scheme ⟨fresh.url, fresh.buffer, fresh.unseen⟩
        safe.authority.schemeOk special notFile
    · simp only [ParserVars.skip, ParserVars.goto] at outside
      omega
  · refine sat_back placed (by simp) ?_
    exact .relative rfl base.scheme ⟨fresh.url, fresh.buffer, fresh.unseen⟩ base based
      (opaquePath_of_special safe special) notFile

theorem credentialStage_fresh {scheme : Text} (fresh : Fresh scheme v) (ok : SchemeOk scheme)
    (notFile : isFile scheme = false) : CredentialStage v.url := by
  rw [fresh.url]
  exact ⟨rfl, ok, notFile, encoded_nil, encoded_nil⟩

/-- The start of the authority. -/
theorem authority_fresh {w : ParserVars} {scheme : Text} (state : w.state = .authority)
    (fresh : Fresh scheme w) (ok : SchemeOk scheme) (notFile : isFile scheme = false) :
    ParserInv x w := by
  refine .authority state (credentialStage_fresh fresh ok notFile) ?_ ?_
  · rw [fresh.url]
    exact fun _ => ⟨rfl, rfl⟩
  · rw [fresh.buffer]
    exact fun nonempty => absurd rfl nonempty

theorem keeps_pathOrAuthority (placed : Placed x.cp v) {scheme : Text} (fresh : Fresh scheme v)
    (ok : SchemeOk scheme) (special : isSpecialScheme scheme = false) :
    Keeps x (pathOrAuthority v (charAt x.cp v.pointer)) := by
  have notFile : isFile scheme = false := by
    cases file : isFile scheme with
    | false => rfl
    | true => rw [isSpecialScheme_of_isFile file] at special; cases special
  unfold pathOrAuthority
  split
  · rename_i found
    refine sat_char found (Int.le_refl _) ?_
    exact authority_fresh rfl ⟨fresh.url, fresh.buffer, fresh.unseen⟩ ok notFile
  · refine sat_back placed (by simp) (.path rfl [] ?_ ?_)
    · simp only [ParserVars.advance, ParserVars.back, ParserVars.goto]
      rw [fresh.url]
      refine ⟨⟨ok, encoded_nil, encoded_nil, by simp [schemeOnly, newURLRecord], fun _ => special,
        fun _ => ⟨rfl, rfl, rfl⟩, by simp [schemeOnly, newURLRecord]⟩, ?_, rfl, by simp, driveOk_nil,
        rfl, rfl⟩
      simp [LocalOk, schemeOnly, newURLRecord]
    · simp only [ParserVars.advance, ParserVars.back, ParserVars.goto, fresh.buffer]
      exact segmentStage_nil

/-- Everything but the fragment is taken from the base. -/
theorem inherited_eq (scheme : Text) (base : URLRecord) :
    { inheritAuthority { schemeOnly scheme with scheme := base.scheme } base with
      path := base.path, query := base.query } = { base with fragment := none } := rfl

theorem keeps_relative (baseOk : ∀ base, x.base = some base → UrlOk x.native base)
    (placed : Placed x.cp v) {scheme : Text} (fresh : Fresh scheme v) {base : URLRecord}
    (based : x.base = some base) (list : base.opaquePath = false)
    (notFile : isFile base.scheme = false) :
    Keeps x (x.relative v (charAt x.cp v.pointer)) := by
  have ok := baseOk base based
  obtain ⟨l, path, -⟩ := ok.safe.segments list
  unfold relative
  rw [based]
  dsimp only
  rw [fresh.url]
  split
  · rename_i slash
    obtain ⟨c, found⟩ : ∃ c, charAt x.cp v.pointer = some c := by
      cases found : charAt x.cp v.pointer with
      | none => simp [found, isSlash] at slash
      | some c => exact ⟨c, rfl⟩
    refine sat_char found (Int.le_refl _) ?_
    exact .relativeSlash rfl base based ⟨rfl, fresh.buffer, fresh.unseen⟩ notFile
  · rw [inherited_eq]
    exact keeps_afterInherited (v := { v with url := { base with fragment := none } })
      ⟨placed.low, placed.high, placed.buffer⟩
      (ok.withoutFragment list) rfl fresh.buffer path (List.dropLast_prefix l)

/-- A path on the authority of the base. -/
theorem pathStage_inherit {base : URLRecord} (ok : UrlOk x.native base) :
    PathStage x.native (inheritAuthority (schemeOnly base.scheme) base) [] :=
  ⟨ok.safe.authority, ok.stable.localhost, rfl, by simp, driveOk_nil, rfl, rfl⟩

theorem keeps_relativeSlash (baseOk : ∀ base, x.base = some base → UrlOk x.native base)
    (placed : Placed x.cp v) {base : URLRecord} (based : x.base = some base)
    (fresh : Fresh base.scheme v) (notFile : isFile base.scheme = false) :
    Keeps x (x.relativeSlash v (charAt x.cp v.pointer)) := by
  have ok := baseOk base based
  unfold relativeSlash
  split
  · rename_i slashes
    rw [Bool.and_eq_true, fresh.url, Bool.or_eq_true, decide_eq_true_eq, decide_eq_true_eq] at slashes
    have inv : ParserInv x (v.goto .specialAuthorityIgnoreSlashes).advance :=
      .slashes (.inr rfl) base.scheme ⟨fresh.url, fresh.buffer, fresh.unseen⟩
        ok.safe.authority.schemeOk slashes.1 notFile
    rcases slashes.2 with found | found
    · exact sat_char found (Int.le_refl _) inv
    · exact sat_char found (Int.le_refl _) inv
  · split
    · rename_i found
      refine sat_char found (Int.le_refl _) ?_
      exact authority_fresh rfl ⟨fresh.url, fresh.buffer, fresh.unseen⟩ ok.safe.authority.schemeOk
        notFile
    · rw [based]
      refine sat_back placed (by simp) (.path rfl [] ?_ ?_)
      · simp only [ParserVars.advance, ParserVars.back, ParserVars.goto, fresh.url]
        exact pathStage_inherit ok
      · simp only [ParserVars.advance, ParserVars.back, ParserVars.goto, fresh.buffer]
        exact segmentStage_nil

theorem keeps_specialAuthoritySlashes (placed : Placed x.cp v) {scheme : Text}
    (fresh : Fresh scheme v) (ok : SchemeOk scheme) (special : isSpecialScheme scheme = true)
    (notFile : isFile scheme = false) :
    Keeps x (x.specialAuthoritySlashes v (charAt x.cp v.pointer)) := by
  unfold specialAuthoritySlashes
  split
  · rename_i found
    have next := (lt_of_charAt found.2).2
    refine ⟨fun _ => ?_, fun outside => ?_⟩
    · exact .slashes (.inr rfl) scheme ⟨fresh.url, fresh.buffer, fresh.unseen⟩ ok special notFile
    · simp only [ParserVars.skip, ParserVars.goto] at outside
      omega
  · refine sat_back placed (by simp) ?_
    exact .slashes (.inr rfl) scheme ⟨fresh.url, fresh.buffer, fresh.unseen⟩ ok special notFile

theorem keeps_specialAuthorityIgnoreSlashes (state : v.state = .specialAuthorityIgnoreSlashes)
    (placed : Placed x.cp v) {scheme : Text} (fresh : Fresh scheme v) (ok : SchemeOk scheme)
    (special : isSpecialScheme scheme = true) (notFile : isFile scheme = false) :
    Keeps x (specialAuthorityIgnoreSlashes v (charAt x.cp v.pointer)) := by
  unfold specialAuthorityIgnoreSlashes
  split
  · refine sat_back placed (by simp) ?_
    exact authority_fresh rfl ⟨fresh.url, fresh.buffer, fresh.unseen⟩ ok notFile
  · rename_i slash
    have inv : ParserInv x v.advance :=
      .slashes (.inr state) scheme ⟨fresh.url, fresh.buffer, fresh.unseen⟩ ok special notFile
    rw [not_and_or, not_not, not_not] at slash
    rcases slash with found | found
    · exact sat_char found (Int.le_refl _) inv
    · exact sat_char found (Int.le_refl _) inv

theorem userinfoChar_stage (stage : CredentialStage v.url) (ch : Char) :
    CredentialStage (userinfoChar v ch).url ∧
      (userinfoChar v ch).atSignSeen = v.atSignSeen := by
  have encoded := encoded_encode keepsEscapes_userinfoExtra [ch]
  unfold userinfoChar
  dsimp only
  split
  · exact ⟨stage, rfl⟩
  · split
    · refine ⟨⟨?_, stage.scheme, stage.notFile, stage.username, stage.password.append encoded⟩, rfl⟩
      rw [stage.url]
      rfl
    · refine ⟨⟨?_, stage.scheme, stage.notFile, stage.username.append encoded, stage.password⟩, rfl⟩
      rw [stage.url]
      rfl

/-- Credentials are collected encoded. -/
theorem userinfo_stage (t : Text) : ∀ {v : ParserVars}, CredentialStage v.url →
    CredentialStage (t.foldl userinfoChar v).url ∧
      (t.foldl userinfoChar v).atSignSeen = v.atSignSeen := by
  induction t with
  | nil => exact fun stage => ⟨stage, rfl⟩
  | cons ch t ih =>
    intro v stage
    obtain ⟨stage', seen⟩ := userinfoChar_stage stage ch
    rw [List.foldl_cons, ← seen]
    exact ih stage'

theorem keeps_authority (state : v.state = .authority) (placed : Placed x.cp v)
    (stage : CredentialStage v.url)
    (unseen : v.atSignSeen = false → v.url.username = [] ∧ v.url.password = [])
    (read : v.buffer ≠ [] → ∃ c, charAt x.cp (v.pointer - v.buffer.length) = some c ∧
      endsAuthority (isSpecial v.url) (some c) = false) :
    Keeps x (authority v (charAt x.cp v.pointer)) := by
  unfold authority
  dsimp only
  split
  · rename_i found
    obtain ⟨same, place⟩ := userinfo_place
      (if v.atSignSeen = true then "%40".toList ++ v.buffer else v.buffer)
      { v with atSignSeen := true }
    obtain ⟨stage', seen⟩ := userinfo_stage
      (if v.atSignSeen = true then "%40".toList ++ v.buffer else v.buffer)
      (v := { v with atSignSeen := true }) stage
    refine sat_char found (Int.le_of_eq place) ?_
    refine .authority (same.trans state) stage' (fun no => ?_) (fun nonempty => absurd rfl nonempty)
    simp only [ParserVars.advance, ParserVars.clear] at no
    rw [seen] at no
    cases no
  · split
    · split
      · exact keeps_null
      · rename_i filled
        refine sat_back placed (by simp only; omega) (.host rfl stage ?_)
        intro _ credentials
        have seen : v.atSignSeen = true := by
          cases flag : v.atSignSeen with
          | true => rfl
          | false =>
            obtain ⟨username, password⟩ := unseen flag
            simp [includesCredentials, username, password] at credentials
        obtain ⟨c, first, inside⟩ := read (by simpa [seen] using filled)
        have place : v.pointer - (v.buffer.length + 1) + 1 = v.pointer - v.buffer.length := by omega
        simp only [ParserVars.advance, place, first]
        exact inside
    · rename_i inside
      obtain ⟨ch, found⟩ : ∃ ch, charAt x.cp v.pointer = some ch := by
        cases found : charAt x.cp v.pointer with
        | none => simp [found, endsAuthority] at inside
        | some ch => exact ⟨ch, rfl⟩
      rw [found] at inside ⊢
      refine sat_char found (Int.le_refl _) (.authority state stage unseen ?_)
      intro _
      cases empty : v.buffer with
      | nil =>
        refine ⟨ch, ?_, Bool.eq_false_iff.mpr inside⟩
        have place : v.pointer + 1 - ((1 : Nat) : Int) = v.pointer := by omega
        simp only [ParserVars.advance, ParserVars.append, empty, Option.toList_some,
          List.nil_append, List.length_singleton, place]
        exact found
      | cons b bs =>
        obtain ⟨c, first, within⟩ := read (by simp [empty])
        refine ⟨c, ?_, within⟩
        have place : v.pointer + 1 - ((v.buffer.length + 1 : Nat) : Int)
            = v.pointer - v.buffer.length := by omega
        simp only [ParserVars.advance, ParserVars.append, Option.toList_some, List.length_append,
          List.length_singleton, place]
        exact first

/-- The host completes the authority. -/
theorem pathStage_host (lawful : x.native.Lawful) {u : URLRecord} (stage : CredentialStage u)
    {buffer : Text} {h : Host} (parsed : parseHost x.native buffer (isSpecial u) = .ok (some h))
    (bare : h = .text [] → u.username = [] ∧ u.password = []) :
    PathStage x.native { u with host := some h } [] := by
  have rest := stage.url
  have port : u.port = none := by rw [rest]; rfl
  refine ⟨⟨stage.scheme, stage.username, stage.password, ?_, ?_, ?_, ?_⟩, ?_, ?_, by simp,
    driveOk_nil, ?_, ?_⟩
  · intro h' same
    cases same
    exact .inl (hostOk_of_parseHost lawful parsed)
  · intro none
    cases none
  · rintro (file | none | empty)
    · rw [stage.notFile] at file
      cases file
    · cases none
    · cases empty
      obtain ⟨username, password⟩ := bare rfl
      exact ⟨username, password, port⟩
  · intro p same
    simp only at same
    rw [port] at same
    cases same
  · intro file
    rw [stage.notFile] at file
    cases file
  · rw [rest]
    rfl
  · rw [rest]
    rfl
  · rw [rest]
    rfl

theorem keeps_host (lawful : x.native.Lawful) (override : x.stateOverride = none)
    (state : v.state = .host) (placed : Placed x.cp v) (stage : CredentialStage v.url)
    (read : v.buffer = [] → includesCredentials v.url = true →
      endsAuthority (isSpecial v.url) (charAt x.cp v.pointer) = false) :
    Keeps x (x.host v (charAt x.cp v.pointer)) := by
  unfold host
  dsimp only
  split
  · rename_i found
    split
    · exact keeps_null
    · rename_i nonempty
      rw [if_neg (by simp [override])]
      unfold withHost
      split
      · exact keeps_threw
      · exact keeps_null
      · rename_i h parsed
        have filled := parseHost_ne_empty lawful nonempty parsed
        refine sat_char found.1 (Int.le_refl _) (.port rfl ?_ stage.notFile ⟨h, rfl, filled⟩)
        exact pathStage_host lawful stage parsed fun empty => absurd empty filled
  · split
    · rename_i ends
      split
      · exact keeps_null
      · rw [override]
        simp only [Option.isSome_none, Bool.false_and, Bool.false_eq_true, if_false]
        unfold withHost
        split
        · exact keeps_threw
        · exact keeps_null
        · rename_i h parsed
          refine sat_back placed (by simp [setHost]) (.pathStart rfl ?_ (by simp [setHost]) rfl)
          apply pathStage_host lawful stage parsed
          intro empty
          have blank : v.buffer = [] := by
            by_contra nonempty
            exact parseHost_ne_empty lawful nonempty parsed empty
          have none : includesCredentials v.url = false := by
            cases credentials : includesCredentials v.url with
            | false => rfl
            | true =>
              rw [read blank credentials] at ends
              cases ends
          simpa [includesCredentials] using none
    · rename_i inside
      obtain ⟨ch, found⟩ : ∃ ch, charAt x.cp v.pointer = some ch := by
        cases found : charAt x.cp v.pointer with
        | none => simp [found, endsAuthority] at inside
        | some ch => exact ⟨ch, rfl⟩
      refine sat_char found (Int.le_refl _) (.host state stage fun empty => ?_)
      simp [found] at empty

theorem keeps_port (override : x.stateOverride = none) (state : v.state = .port)
    (placed : Placed x.cp v) (stage : PathStage x.native v.url [])
    (notFile : isFile v.url.scheme = false) (filled : filledHost v.url) :
    Keeps x (x.port v (charAt x.cp v.pointer)) := by
  obtain ⟨h, host, name⟩ := filled
  unfold port
  dsimp only
  split
  · rename_i digit
    obtain ⟨c, found, -⟩ := (Option.any_eq_true _ _).mp digit
    exact sat_char found (Int.le_refl _) (.port state stage notFile ⟨h, host, name⟩)
  · rw [override]
    split
    · split
      · exact keeps_null
      · rename_i small
        simp only [Option.isSome_none, Bool.false_eq_true, if_false]
        split
        · rename_i blank
          refine sat_back placed (by simp) (.pathStart rfl stage ?_ blank)
          simp [host]
        · rename_i digits
          refine sat_back placed (by simp) (.pathStart rfl ?_ ?_ rfl)
          · refine ⟨⟨stage.authority.schemeOk, stage.authority.usernameOk,
              stage.authority.passwordOk, stage.authority.hostOk, stage.authority.hostless, ?_, ?_⟩,
              stage.localhost, stage.path, stage.segments, stage.drive, stage.query,
              stage.fragment⟩
            · rintro (file | none | empty)
              · simp only [ParserVars.advance, ParserVars.back, ParserVars.goto, notFile] at file
                cases file
              · simp only [ParserVars.advance, ParserVars.back, ParserVars.goto, host] at none
                cases none
              · simp only [ParserVars.advance, ParserVars.back, ParserVars.goto, host,
                  Option.some.injEq] at empty
                exact absurd empty name
            · intro p same
              simp only [ParserVars.advance, ParserVars.back, ParserVars.goto] at same
              split at same
              · cases same
              · rename_i other
                cases same
                refine ⟨?_, fun default => other default.symm⟩
                simpa [digits] using small
          · simp [host]
    · exact keeps_null

theorem isFile_file : isFile "file".toList = true := by decide

theorem schemeOk_file : SchemeOk "file".toList :=
  ⟨⟨'f', "ile".toList, rfl, by decide⟩, forall_mem_of_all (by decide)⟩

/-- The record that the file states start from. -/
theorem pathStage_file (native : Native) :
    PathStage native { schemeOnly "file".toList with host := some (.text []) } [] := by
  refine ⟨⟨schemeOk_file, encoded_nil, encoded_nil, ?_, ?_, fun _ => ⟨rfl, rfl, rfl⟩, ?_⟩, ?_, rfl,
    by simp, driveOk_nil, rfl, rfl⟩
  · intro h same
    cases same
    exact .inr ⟨rfl, rfl⟩
  · intro none
    cases none
  · intro p same
    cases same
  · intro _ same
    cases same

/-- Everything but the fragment is taken from a file base. -/
theorem fileInherited_eq {native : Native} {base : URLRecord} (ok : UrlOk native base)
    (file : isFile base.scheme = true) :
    { schemeOnly "file".toList with host := base.host, path := base.path, query := base.query }
      = { base with fragment := none } := by
  obtain ⟨username, password, port⟩ := ok.safe.authority.bare (.inl file)
  rw [URLRecord.mk.injEq]
  exact ⟨(isFile_iff.mp file).symm, username.symm, password.symm, rfl, port.symm, rfl, rfl, rfl⟩

theorem keeps_file (baseOk : ∀ base, x.base = some base → UrlOk x.native base)
    (placed : Placed x.cp v) {scheme : Text} (fresh : Fresh scheme v) :
    Keeps x (x.file v (charAt x.cp v.pointer)) := by
  have start : { v.url with scheme := "file".toList, host := some (.text []) }
      = { schemeOnly "file".toList with host := some (.text []) } := by
    rw [fresh.url]
    rfl
  unfold file
  dsimp only
  rw [start]
  split
  · rename_i slash
    have inv : ParserInv x { v with
        url := { schemeOnly "file".toList with host := some (.text []) }
        state := .fileSlash
        pointer := v.pointer + 1 } :=
      .fileSlash rfl (pathStage_file x.native) isFile_file fresh.buffer
    rcases slash with found | found
    · exact sat_char found (Int.le_refl _) inv
    · exact sat_char found (Int.le_refl _) inv
  · split
    · rename_i base based
      rw [Option.filter_eq_some_iff] at based
      have ok := baseOk base based.1
      have list := opaquePath_of_special ok.safe (isSpecialScheme_of_isFile based.2)
      obtain ⟨l, path, -⟩ := ok.safe.segments list
      have shorter : (if startsWithWindowsDriveLetter (x.cp.drop v.pointer.toNat) = true then []
          else shortenSegments "file".toList l) <+: l := by
        split
        · exact List.nil_prefix
        · exact shortenSegments_prefix _ l
      have keeps := keeps_afterInherited (v := { v with url := { base with fragment := none } })
        (f := fun path => if startsWithWindowsDriveLetter (x.cp.drop v.pointer.toNat) then []
          else shortenSegments "file".toList path)
        ⟨placed.low, placed.high, placed.buffer⟩
        (ok.withoutFragment list) rfl fresh.buffer path shorter
      rw [← fileInherited_eq ok based.2] at keeps
      rw [fresh.url]
      exact keeps
    · refine sat_back placed (by simp) (.path rfl [] (pathStage_file x.native) ?_)
      simp only [ParserVars.advance, ParserVars.back, ParserVars.goto, fresh.buffer]
      exact segmentStage_nil

theorem keeps_fileSlash (baseOk : ∀ base, x.base = some base → UrlOk x.native base)
    (placed : Placed x.cp v) (stage : PathStage x.native v.url [])
    (file : isFile v.url.scheme = true) (buffer : v.buffer = []) :
    Keeps x (x.fileSlash v (charAt x.cp v.pointer)) := by
  unfold fileSlash
  dsimp only
  split
  · rename_i slash
    have inv : ParserInv x (v.goto .fileHost).advance := .fileHost rfl stage file
    rcases slash with found | found
    · exact sat_char found (Int.le_refl _) inv
    · exact sat_char found (Int.le_refl _) inv
  · split
    · rename_i base based
      rw [Option.filter_eq_some_iff] at based
      have ok := baseOk base based.1
      have same : base.scheme = v.url.scheme := by
        rw [isFile_iff.mp based.2, isFile_iff.mp file]
      have list := opaquePath_of_special ok.safe (isSpecialScheme_of_isFile based.2)
      obtain ⟨l, path, segments⟩ := ok.safe.segments list
      have bare := stage.authority.bare (.inl file)
      have first : base.path.first = l.head? := by rw [path]; rfl
      generalize chosen : (base.path.first.filter fun segment =>
        !startsWithWindowsDriveLetter (x.cp.drop v.pointer.toNat)
          && isNormalizedWindowsDriveLetter segment) = drive
      rw [first] at chosen
      refine sat_back placed (by simp) (.path rfl drive.toList ?_ ?_)
      · refine ⟨⟨stage.authority.schemeOk, stage.authority.usernameOk, stage.authority.passwordOk,
          ?_, ?_, fun _ => bare, stage.authority.portOk⟩, ?_, ?_, ?_, ?_, stage.query,
          stage.fragment⟩
        · intro h host
          have fits := ok.safe.authority.hostOk h host
          rwa [same] at fits
        · intro none
          have special := ok.safe.authority.hostless none
          rwa [same] at special
        · have fits := ok.stable.localhost
          rwa [same] at fits
        · simp only [ParserVars.advance, ParserVars.back, ParserVars.goto, stage.path,
            UrlPath.modify, List.nil_append]
        · intro s member
          rw [Option.mem_toList, ← chosen, Option.filter_eq_some_iff] at member
          have fits := segments s (List.mem_of_head? member.1)
          rwa [same] at fits
        · intro _ s head _
          rw [Option.head?_toList, ← chosen, Option.filter_eq_some_iff, Bool.and_eq_true] at head
          exact head.2.2
      · simp only [ParserVars.advance, ParserVars.back, ParserVars.goto, buffer]
        exact segmentStage_nil
    · refine sat_back placed (by simp) (.path rfl [] stage ?_)
      simp only [ParserVars.advance, ParserVars.back, ParserVars.goto, buffer]
      exact segmentStage_nil

/-- A drive letter is part of a segment. -/
theorem segmentStage_drive {special : Bool} {buffer : Text}
    (drive : isWindowsDriveLetter buffer = true) : SegmentStage special buffer := by
  obtain ⟨letter, mark, rfl, alpha, bar⟩ : ∃ letter mark, buffer = [letter, mark] ∧
      letter.isAlpha = true ∧ (mark = ':' ∨ mark = '|') := by
    unfold isWindowsDriveLetter at drive
    split at drive
    · simp only [Bool.and_eq_true, Bool.or_eq_true, decide_eq_true_eq] at drive
      exact ⟨_, _, rfl, drive.1, drive.2⟩
    · cases drive
  have plain : copied pathExtra letter = true ∧ letter ≠ '/' ∧ letter ≠ '\\' :=
    forall_ascii (P := fun c => c.isAlpha = true →
      copied pathExtra c = true ∧ c ≠ '/' ∧ c ≠ '\\') (by decide)
      (ascii_of_isAlphanum (by simp [Char.isAlphanum, alpha])) alpha
  rcases bar with rfl | rfl
  · refine ⟨?_, ?_, ?_⟩
    · intro c member
      simp only [List.mem_cons, List.not_mem_nil, or_false] at member
      rcases member with rfl | rfl
      · exact plain.1
      · decide
    · simp [Ne.symm plain.2.1]
    · simp [Ne.symm plain.2.2]
  · refine ⟨?_, ?_, ?_⟩
    · intro c member
      simp only [List.mem_cons, List.not_mem_nil, or_false] at member
      rcases member with rfl | rfl
      · exact plain.1
      · decide
    · simp [Ne.symm plain.2.1]
    · simp [Ne.symm plain.2.2]

/-- A file host: `localhost` is dropped. -/
theorem pathStage_fileHost {u : URLRecord} (stage : PathStage x.native u [])
    (file : isFile u.scheme = true) {h : Host} (fits : HostFor x.native u.scheme h)
    (other : h ≠ .text "localhost".toList) :
    PathStage x.native { u with host := some h } [] := by
  refine ⟨⟨stage.authority.schemeOk, stage.authority.usernameOk, stage.authority.passwordOk, ?_, ?_,
    fun _ => stage.authority.bare (.inl file), stage.authority.portOk⟩, ?_, stage.path,
    stage.segments, stage.drive, stage.query, stage.fragment⟩
  · intro h' same
    cases same
    exact fits
  · intro none
    cases none
  · intro _ same
    cases same
    exact other rfl

theorem keeps_fileHost (lawful : x.native.Lawful) (override : x.stateOverride = none)
    (state : v.state = .fileHost) (placed : Placed x.cp v) (stage : PathStage x.native v.url [])
    (file : isFile v.url.scheme = true) : Keeps x (x.fileHost v (charAt x.cp v.pointer)) := by
  unfold fileHost
  rw [override]
  dsimp only
  split
  · split
    · rename_i drive
      refine sat_back placed (by simp) (.path rfl [] stage ?_)
      exact segmentStage_drive (by simpa using drive)
    · split
      · rename_i blank
        simp only [Option.isSome_none, Bool.false_eq_true, if_false]
        refine sat_back placed (by simp) (.pathStart rfl ?_ (by simp) blank)
        exact pathStage_fileHost stage file (.inr ⟨file, rfl⟩) (by decide)
      · unfold withHost
        split
        · exact keeps_threw
        · exact keeps_null
        · rename_i h parsed
          simp only [Option.isSome_none, Bool.false_eq_true, if_false]
          refine sat_back placed (Int.le_of_eq (Int.sub_add_cancel _ _))
            (.pathStart rfl ?_ (Option.some_ne_none _) rfl)
          apply pathStage_fileHost stage file
          · split
            · exact .inr ⟨file, rfl⟩
            · exact .inl (hostOk_of_parseHost lawful parsed)
          · split
            · decide
            · assumption
  · rename_i inside
    obtain ⟨ch, found⟩ : ∃ ch, charAt x.cp v.pointer = some ch := by
      cases found : charAt x.cp v.pointer with
      | none => simp [found, endsAuthority] at inside
      | some ch => exact ⟨ch, rfl⟩
    exact sat_char found (Int.le_refl _) (.fileHost state stage file)

theorem keeps_pathStart (override : x.stateOverride = none) (placed : Placed x.cp v)
    (stage : PathStage x.native v.url []) (host : v.url.host ≠ none)
    (buffer : v.buffer = []) : Keeps x (x.pathStart v (charAt x.cp v.pointer)) := by
  have inv : ∀ pointer, ParserInv x { v with state := .path, pointer } := by
    intro pointer
    refine .path rfl [] stage ?_
    simp only [buffer]
    exact segmentStage_nil
  unfold pathStart
  rw [override]
  dsimp only
  split
  · split
    · exact sat_back placed (by simp) (inv _)
    · rename_i slash
      rw [not_and_or, not_not, not_not] at slash
      rcases slash with found | found
      · exact sat_char found (Int.le_refl _) (inv _)
      · exact sat_char found (Int.le_refl _) (inv _)
  · rename_i special
    have ok : UrlOk x.native v.url := by
      apply stage.urlOk
      rintro (yes | none)
      · exact absurd yes special
      · exact absurd none host
    simp only [Option.isNone_none, Bool.true_and, decide_eq_true_eq, Option.isSome_none,
      Bool.false_and, Bool.false_eq_true, if_false]
    split
    · rename_i found
      exact sat_char found (Int.le_refl _) (.query rfl (ok.withQuery encoded_nil) rfl stage.fragment)
    · split
      · rename_i found
        exact sat_char found (Int.le_refl _) (.fragment rfl (ok.withFragment encoded_nil) rfl)
      · split
        · split
          · exact sat_back placed (by simp) (inv _)
          · rename_i found
            rw [not_not] at found
            exact sat_char found (Int.le_refl _) (inv _)
        · rename_i rest
          exact sat_end placed (by simpa using rest) (Int.le_refl _) (fun _ => ok)

/-- A drive letter in the first segment is normalized. -/
theorem normalized_drive {buffer : Text} (drive : isWindowsDriveLetter buffer = true) :
    isWindowsDriveLetter (buffer.take 1 ++ [':']) = true ∧
      isNormalizedWindowsDriveLetter (buffer.take 1 ++ [':']) = true := by
  unfold isWindowsDriveLetter at drive
  split at drive
  · rw [Bool.and_eq_true] at drive
    simp [isWindowsDriveLetter, isNormalizedWindowsDriveLetter, drive.1]
  · cases drive

theorem toLowerCase_drive (lawful : x.native.Lawful) {buffer : Text}
    (drive : isWindowsDriveLetter buffer = true) :
    isSingleDotSegment x.native buffer = false ∧ isDoubleDotSegment x.native buffer = false := by
  unfold isWindowsDriveLetter at drive
  split at drive
  · rename_i letter mark
    simp only [Bool.and_eq_true, Bool.or_eq_true, decide_eq_true_eq] at drive
    have ascii : letter.toNat < 0x80 :=
      ascii_of_isAlphanum (by simp [Char.isAlphanum, show letter.isAlpha = true from drive.1])
    have letterOk : letter ≠ '.' ∧ letter.toLower ≠ '.' :=
      forall_ascii (P := fun c => c.isAlpha = true → c ≠ '.' ∧ c.toLower ≠ '.') (by decide) ascii
        drive.1
    have lower : x.native.toLowerCase [letter, mark] = [letter.toLower, mark.toLower] := by
      apply lawful.toLowerCase_ascii
      rcases drive.2 with rfl | rfl <;> simpa using ascii
    refine ⟨?_, ?_⟩
    · simp [isSingleDotSegment, lower, letterOk.1]
    · simp [isDoubleDotSegment, lower, letterOk.2]
  · cases drive

/-- The segments after one more was read. -/
theorem pathSegment_segments (lawful : x.native.Lawful) {u : URLRecord} {l : List Text}
    (segments : ∀ s ∈ l, SegmentOk x.native (isSpecial u) s) (drive : DriveOk u.scheme l)
    {buffer : Text} (read : SegmentStage (isSpecial u) buffer) (slashish : Bool) :
    (∀ s ∈ x.pathSegment u buffer slashish l, SegmentOk x.native (isSpecial u) s) ∧
      DriveOk u.scheme (x.pathSegment u buffer slashish l) ∧
      (slashish = false → x.pathSegment u buffer slashish l ≠ []) := by
  have push : ∀ path : List Text, (∀ s ∈ path, SegmentOk x.native (isSpecial u) s) →
      ∀ segment, SegmentOk x.native (isSpecial u) segment →
      ∀ s ∈ path ++ [segment], SegmentOk x.native (isSpecial u) s := by
    intro path all segment ok s member
    rcases List.mem_append.mp member with old | new
    · exact all s old
    · rw [List.mem_singleton.mp new]
      exact ok
  have trailing : ∀ path : List Text, (∀ s ∈ path, SegmentOk x.native (isSpecial u) s) →
      DriveOk u.scheme path →
      (∀ s ∈ path ++ (if slashish = true then [] else [[]]), SegmentOk x.native (isSpecial u) s) ∧
        DriveOk u.scheme (path ++ if slashish = true then [] else [[]]) ∧
        (slashish = false → (path ++ if slashish = true then [] else [[]]) ≠ []) := by
    intro path all ok
    cases slashish with
    | true => simpa using ⟨all, ok⟩
    | false =>
      refine ⟨push path all [] (segmentOk_nil lawful), ?_, fun _ => by simp⟩
      exact ok.push fun _ _ no => by cases no
  unfold pathSegment
  dsimp only
  split
  · have le := shortenSegments_prefix u.scheme l
    exact trailing _ (fun s member => segments s (le.subset member)) (drive.of_isPrefix le)
  · rename_i double
    split
    · exact trailing _ segments drive
    · rename_i single
      split
      · rename_i first
        simp only [Bool.and_eq_true] at first
        obtain ⟨letter, normal⟩ := normalized_drive first.2
        obtain ⟨single', double'⟩ := toLowerCase_drive lawful letter
        exact ⟨push l segments _ (.of_stage (segmentStage_drive letter) single' double'),
          drive.push fun _ _ _ => normal, fun _ => by simp⟩
      · rename_i other
        refine ⟨push l segments _ (.of_stage read (Bool.eq_false_iff.mpr single)
          (Bool.eq_false_iff.mpr double)), ?_, fun _ => by simp⟩
        refine drive.push fun blank file letter => ?_
        simp [blank, file, letter] at other

/-- The path after a segment. -/
theorem pathSegment_stage (lawful : x.native.Lawful) {u : URLRecord} {l : List Text}
    (stage : PathStage x.native u l) {buffer : Text}
    (read : SegmentStage (isSpecial u) buffer) (slashish : Bool) :
    PathStage x.native { u with path := .segments (x.pathSegment u buffer slashish l) }
        (x.pathSegment u buffer slashish l) ∧
      (slashish = false → x.pathSegment u buffer slashish l ≠ []) := by
  obtain ⟨segments, drive, filled⟩ :=
    pathSegment_segments lawful stage.segments stage.drive read slashish
  exact ⟨⟨stage.authority, stage.localhost, rfl, segments, drive, stage.query, stage.fragment⟩,
    filled⟩

/-- A character that does not end a segment. -/
theorem segmentStage_append {special : Bool} {buffer : Text} (read : SegmentStage special buffer)
    {c : Char} (slash : isSlash special (some c) = false) :
    SegmentStage special (buffer ++ utf8PercentEncode [c] pathExtra) := by
  simp only [isSlash, Bool.or_eq_false_iff, Bool.and_eq_false_iff, decide_eq_false_iff_not,
    Option.some.injEq] at slash
  have chars : ∀ d ∈ utf8PercentEncode [c] pathExtra, d ≠ '/' ∧ (special = true → d ≠ '\\') := by
    apply forall_mem_utf8PercentEncode
    · have check : ∀ d ∈ escapeChars, d ≠ '/' ∧ d ≠ '\\' := forall_mem_of_all (by decide)
      exact fun d member => ⟨(check d member).1, fun _ => (check d member).2⟩
    · intro d member _
      rw [List.mem_singleton.mp member]
      refine ⟨slash.1, fun yes => ?_⟩
      rcases slash.2 with no | other
      · rw [yes] at no
        cases no
      · exact other
  refine ⟨read.encoded.append (encoded_encode keepsEscapes_pathExtra [c]), ?_, ?_⟩
  · intro member
    rcases List.mem_append.mp member with old | new
    · exact read.slash old
    · exact (chars _ new).1 rfl
  · intro yes member
    rcases List.mem_append.mp member with old | new
    · exact read.backslash yes old
    · exact (chars _ new).2 yes rfl

theorem keeps_path (lawful : x.native.Lawful) (override : x.stateOverride = none)
    (placed : Placed x.cp v) (state : v.state = .path) {l : List Text}
    (stage : PathStage x.native v.url l) (read : SegmentStage (isSpecial v.url) v.buffer) :
    Keeps x (x.path v (charAt x.cp v.pointer)) := by
  obtain ⟨stage', filled⟩ := pathSegment_stage lawful stage read
    (isSlash (isSpecial v.url) (charAt x.cp v.pointer))
  unfold path
  dsimp only
  rw [stage.path, override]
  simp only [UrlPath.modify, true_and]
  split
  · rename_i ends
    have ok : isSlash (isSpecial v.url) (charAt x.cp v.pointer) = false →
        UrlOk x.native { v.url with path := .segments (x.pathSegment v.url v.buffer
          (isSlash (isSpecial v.url) (charAt x.cp v.pointer)) l) } :=
      fun no => stage'.urlOk fun _ => filled no
    split
    · rename_i found
      have no : isSlash (isSpecial v.url) (charAt x.cp v.pointer) = false := by
        simp [isSlash, found]
      exact sat_char found (Int.le_refl _)
        (.query rfl ((ok no).withQuery encoded_nil) rfl stage.fragment)
    · split
      · rename_i found
        have no : isSlash (isSpecial v.url) (charAt x.cp v.pointer) = false := by
          simp [isSlash, found]
        exact sat_char found (Int.le_refl _) (.fragment rfl ((ok no).withFragment encoded_nil) rfl)
      · cases found : charAt x.cp v.pointer with
        | none =>
          refine sat_end placed found (Int.le_refl _) (fun _ => ?_)
          rw [found] at ok
          exact ok (by simp [isSlash])
        | some c =>
          rw [found] at stage'
          exact sat_char found (Int.le_refl _) (.path state _ stage' segmentStage_nil)
  · rename_i inside
    rw [not_or, not_or] at inside
    cases found : charAt x.cp v.pointer with
    | none => exact absurd found inside.1
    | some c =>
      rw [found] at inside
      refine sat_char found (Int.le_refl _) (.path state l stage ?_)
      exact segmentStage_append read (Bool.eq_false_iff.mpr inside.2.1)

/-- An opaque path that is complete. -/
theorem OpaqueStage.urlOk {t : Text} (stage : OpaqueStage x v t) {u : URLRecord}
    (same : u = { v.url with query := u.query, fragment := u.fragment })
    (query : ∀ q, u.query = some q → q = []) (fragment : ∀ f, u.fragment = some f → f = [])
    (first : t.head? ≠ some '/')
    (trailing : t.getLast? = some ' ' → u.query ≠ none ∨ u.fragment ≠ none) : UrlOk x.native u := by
  have notFile : isFile v.url.scheme = false := by
    cases file : isFile v.url.scheme with
    | false => rfl
    | true =>
      have special := stage.special
      rw [isSpecialScheme_of_isFile file] at special
      cases special
  have whole : u = { schemeOnly v.url.scheme with
      path := .text t, query := u.query, fragment := u.fragment } := by
    rw [same, stage.url]
    rfl
  refine ⟨⟨?_, ?_, ?_, ?_⟩, ⟨?_, ?_, ?_⟩⟩
  · rw [whole]
    exact ⟨stage.scheme, encoded_nil, encoded_nil, fun h no => (by cases no),
      fun _ => stage.special, fun _ => ⟨rfl, rfl, rfl⟩, fun p no => (by cases no)⟩
  · rw [whole]
    exact ⟨stage.special, rfl, stage.encoded, stage.plain, first⟩
  · intro q found
    rw [query q found]
    exact encoded_nil
  · intro f found
    rw [fragment f found]
    exact encoded_nil
  · rw [whole]
    intro file
    rw [show isFile v.url.scheme = true from file] at notFile
    cases notFile
  · intro path found
    rw [whole] at found
    cases found
  · intro t' found
    rw [whole] at found
    cases found
    exact trailing

theorem OpaqueStage.head_ne {t : Text} (stage : OpaqueStage x v t) : t.head? ≠ some '/' := by
  have first := stage.first
  split at first
  · rename_i blank
    simp [blank]
  · exact first

/-- One more character of an opaque path. -/
theorem OpaqueStage.append {t : Text} (stage : OpaqueStage x v t) {c : Char}
    (found : charAt x.cp v.pointer = some c) (query : c ≠ '?') (fragment : c ≠ '#') :
    OpaqueStage x { v with
      url := { v.url with path := .text (t ++ utf8PercentEncode [c] c0Extra) }
      pointer := v.pointer + 1 } (t ++ utf8PercentEncode [c] c0Extra) := by
  have chars : ∀ d ∈ encodeChar c0Extra c, d ≠ '?' ∧ d ≠ '#' := by
    have escapes : ∀ d ∈ escapeChars, d ≠ '?' ∧ d ≠ '#' := forall_mem_of_all (by decide)
    refine forall_mem_encodeChar escapes ?_
    exact fun _ => ⟨query, fragment⟩
  have nonempty : encodeChar c0Extra c ≠ [] := encodeChar_ne_nil c
  rw [utf8PercentEncode_singleton]
  refine ⟨?_, stage.scheme, stage.special, ?_, ?_, ?_, ?_⟩
  · rw [stage.url]
    rfl
  · rw [← utf8PercentEncode_singleton]
    exact stage.encoded.append (encoded_encode keepsEscapes_c0Extra [c])
  · intro d member
    rcases List.mem_append.mp member with old | new
    · exact stage.plain d old
    · exact chars d new
  · rw [if_neg (by simp [nonempty])]
    cases t with
    | nil =>
      have first := stage.first
      rw [if_pos rfl, found] at first
      intro head
      rw [List.nil_append] at head
      have slash : ∀ d ∈ encodeChar c0Extra c, d ≠ '/' := by
        refine forall_mem_encodeChar (P := fun d => d ≠ '/') (forall_mem_of_all (by decide)) ?_
        rintro - rfl
        exact first rfl
      exact slash '/' (List.mem_of_head? head) rfl
    | cons a t => exact stage.head_ne
  · intro last
    rw [List.getLast?_append] at last
    have space : ∀ d ∈ encodeChar c0Extra c, d = ' ' → c = ' ' := by
      apply forall_mem_encodeChar
      · have check : ∀ d ∈ escapeChars, d ≠ ' ' := forall_mem_of_all (by decide)
        exact fun d member same => absurd same (check d member)
      · exact fun _ same => same
    have place : v.pointer + 1 - 1 = v.pointer := by omega
    simp only [place, found]
    cases ending : (encodeChar c0Extra c).getLast? with
    | none => exact absurd (List.getLast?_eq_none_iff.mp ending) nonempty
    | some d =>
      rw [ending] at last
      cases last
      exact congrArg some (space ' ' (List.mem_of_getLast? ending) rfl)

theorem charAt_last {cp : Text} {c : Char} (found : charAt cp ((cp.length : Int) - 1) = some c) :
    cp.getLast? = some c := by
  have inside := lt_of_charAt found
  have place : ((cp.length : Int) - 1).toNat = cp.length - 1 := by omega
  rwa [charAt, if_pos inside.1, place, ← List.getLast?_eq_getElem?] at found

theorem keeps_opaquePath (trimmed : x.cp.getLast? ≠ some ' ') (placed : Placed x.cp v)
    (state : v.state = .opaquePath) {t : Text} (stage : OpaqueStage x v t) :
    Keeps x (opaquePath v (charAt x.cp v.pointer)) := by
  have path : v.url.path = .text t := by
    rw [stage.url]
  have query : v.url.query = none := by
    rw [stage.url]
    rfl
  have fragment : v.url.fragment = none := by
    rw [stage.url]
    rfl
  unfold opaquePath
  split
  · rename_i found
    refine sat_char found (Int.le_refl _) (.query rfl ?_ rfl fragment)
    refine stage.urlOk rfl ?_ ?_ stage.head_ne (fun _ => .inl (Option.some_ne_none _))
    · intro q same
      cases same
      rfl
    · intro f same
      rw [show v.url.fragment = some f from same] at fragment
      cases fragment
  · split
    · rename_i found
      refine sat_char found (Int.le_refl _) (.fragment rfl ?_ rfl)
      refine stage.urlOk rfl ?_ ?_ stage.head_ne (fun _ => .inr (Option.some_ne_none _))
      · intro q same
        rw [show v.url.query = some q from same] at query
        cases query
      · intro f same
        cases same
        rfl
    · rename_i question hash
      rw [path]
      dsimp only
      cases found : charAt x.cp v.pointer with
      | some c =>
        rw [found] at question hash
        refine sat_char found (Int.le_refl _) (.opaquePath state _ (stage.append found ?_ ?_))
        · rintro rfl
          exact question rfl
        · rintro rfl
          exact hash rfl
      | none =>
        refine sat_end placed found (Int.le_refl _) (fun _ => ?_)
        simp only [Option.toList_none, utf8PercentEncode, List.flatMap_nil, List.append_nil, ← path]
        refine stage.urlOk rfl ?_ ?_ stage.head_ne ?_
        · intro q same
          rw [query] at same
          cases same
        · intro f same
          rw [fragment] at same
          cases same
        · intro last
          have space := stage.last last
          rw [(charAt_eq_none_iff placed).mp found] at space
          exact absurd (charAt_last space) trimmed

theorem keepsEscapes_querySet (u : URLRecord) : KeepsEscapes (querySet u) := by
  unfold querySet
  split
  · exact keepsEscapes_specialQueryExtra
  · exact keepsEscapes_queryExtra

theorem keeps_query (override : x.stateOverride = none) (placed : Placed x.cp v)
    (state : v.state = .query) (ok : UrlOk x.native v.url) (query : v.url.query.isSome = true)
    (fragment : v.url.fragment = none) : Keeps x (x.query v (charAt x.cp v.pointer)) := by
  obtain ⟨q, present⟩ := Option.isSome_iff_exists.mp query
  have ok' : UrlOk x.native { v.url with
      query := some (q ++ utf8PercentEncode v.buffer (querySet v.url)) } :=
    ok.withQuery ((ok.safe.query q present).append
      (encoded_encode (keepsEscapes_querySet v.url) v.buffer))
  unfold ParserInput.query
  rw [override]
  simp only [true_and, present, Option.map_some]
  split
  · split
    · rename_i found
      exact sat_char found (Int.le_refl _) (.fragment rfl (ok'.withFragment encoded_nil) rfl)
    · rename_i ends other
      exact sat_end placed (ends.resolve_right other) (Int.le_refl _) (fun _ => ok')
  · rename_i inside
    rw [not_or] at inside
    obtain ⟨c, found⟩ := Option.ne_none_iff_exists'.mp inside.1
    exact sat_char found (Int.le_refl _) (.query state ok query fragment)

theorem keeps_fragment (placed : Placed x.cp v) (state : v.state = .fragment)
    (ok : UrlOk x.native v.url) (fragment : v.url.fragment.isSome = true) :
    Keeps x (ParserInput.fragment v (charAt x.cp v.pointer)) := by
  obtain ⟨f, present⟩ := Option.isSome_iff_exists.mp fragment
  unfold ParserInput.fragment
  simp only [present, Option.map_some]
  have ok' := ok.withFragment ((ok.safe.fragment f present).append
    (encoded_encode keepsEscapes_fragmentExtra (charAt x.cp v.pointer).toList))
  cases found : charAt x.cp v.pointer with
  | none =>
    rw [found] at ok'
    exact sat_end placed found (Int.le_refl _) (fun _ => ok')
  | some c =>
    rw [found] at ok'
    exact sat_char found (Int.le_refl _) (.fragment state ok' rfl)

/-- Every pass keeps the invariant. -/
theorem keeps_pass (lawful : x.native.Lawful) (override : x.stateOverride = none)
    (baseOk : ∀ base, x.base = some base → UrlOk x.native base)
    (trimmed : x.cp.getLast? ≠ some ' ') (placed : Placed x.cp v) (inv : ParserInv x v) :
    Keeps x (x.pass v) := by
  unfold ParserInput.pass
  cases inv with
  | schemeStart state fresh =>
    simp only [state]
    exact keeps_schemeStart lawful override placed fresh
  | scheme state url unseen ok =>
    simp only [state]
    exact keeps_scheme lawful override state url unseen ok
  | noScheme state fresh =>
    simp only [state]
    exact keeps_noScheme baseOk placed fresh
  | specialRelative state base based fresh special notFile =>
    simp only [state]
    exact keeps_specialRelative baseOk placed based fresh special notFile
  | pathOrAuthority state scheme fresh ok special =>
    simp only [state]
    exact keeps_pathOrAuthority placed fresh ok special
  | relative state scheme fresh base based list notFile =>
    simp only [state]
    exact keeps_relative baseOk placed fresh based list notFile
  | relativeSlash state base based fresh notFile =>
    simp only [state]
    exact keeps_relativeSlash baseOk placed based fresh notFile
  | slashes state scheme fresh ok special notFile =>
    rcases state with state | state
    · simp only [state]
      exact keeps_specialAuthoritySlashes placed fresh ok special notFile
    · simp only [state]
      exact keeps_specialAuthorityIgnoreSlashes state placed fresh ok special notFile
  | authority state stage unseen read =>
    simp only [state]
    exact keeps_authority state placed stage unseen read
  | host state stage read =>
    simp only [state]
    exact keeps_host lawful override state placed stage read
  | port state stage notFile filled =>
    simp only [state]
    exact keeps_port override state placed stage notFile filled
  | file state scheme fresh =>
    simp only [state]
    exact keeps_file baseOk placed fresh
  | fileSlash state stage file buffer =>
    simp only [state]
    exact keeps_fileSlash baseOk placed stage file buffer
  | fileHost state stage file =>
    simp only [state]
    exact keeps_fileHost lawful override state placed stage file
  | pathStart state stage host buffer =>
    simp only [state]
    exact keeps_pathStart override placed stage host buffer
  | path state l stage read =>
    simp only [state]
    exact keeps_path lawful override placed state stage read
  | opaquePath state t stage =>
    simp only [state]
    exact keeps_opaquePath trimmed placed state stage
  | query state ok query fragment =>
    simp only [state]
    exact keeps_query override placed state ok query fragment
  | fragment state ok fragment =>
    simp only [state]
    exact keeps_fragment placed state ok fragment

end Keeps

section Results

variable {native : Native} {input : Text} {base : Option URLRecord} {u : URLRecord}

/-- The end of the input is no space. -/
theorem getLast?_preprocess (input : Text) : (preprocess input).getLast? ≠ some ' ' := by
  unfold preprocess strip
  generalize input.dropWhile _ = t
  rcases List.eq_nil_or_concat (t.rdropWhile (·.toNat ≤ 0x20)) with none | ⟨front, last, ends⟩
  · simp [none]
  · have visible : ¬(last.toNat ≤ 0x20) := by
      have not := List.rdropWhile_last_not (fun c : Char => decide (c.toNat ≤ 0x20)) t
        (by rw [ends]; simp)
      simpa [ends] using not
    have keep : ∀ c : Char, c.toNat ≤ 0x20 → last ≠ c := by
      rintro c le rfl
      exact visible le
    rw [ends, List.concat_eq_append, List.filter_append, List.filter_cons_of_pos]
    · simpa using keep ' ' (by decide)
    · simp [keep '\t' (by decide), keep '\n' (by decide), keep '\r' (by decide)]

/-- What is parsed against a well-formed base is well-formed. -/
theorem urlOk_of_parseURL (lawful : native.Lawful)
    (baseOk : ∀ b, base = some b → UrlOk native b)
    (parsed : parseURL native input base = some (u, .record)) : UrlOk native u := by
  unfold parseURL basicURLParse at parsed
  have post : Returned ⟨native, preprocess input, base, none⟩ u .record :=
    run_rule (x := ⟨native, preprocess input, base, none⟩)
    (fun v placed inv => keeps_pass lawful rfl baseOk (getLast?_preprocess input) placed inv)
    _ (placed_initialVars _) (.schemeStart rfl ⟨rfl, rfl, rfl⟩) parsed
  exact post rfl

/-- The records that parsing yields, with a base of the same kind or none. -/
inductive Parsed (native : Native) : URLRecord → Prop
  | intro {u : URLRecord} (input : Text) (base : Option URLRecord)
    (based : ∀ b, base = some b → Parsed native b)
    (result : parseURL native input base = some (u, .record)) : Parsed native u

theorem Parsed.urlOk (lawful : native.Lawful) (parsed : Parsed native u) : UrlOk native u := by
  induction parsed with
  | intro input base _ result ih => exact urlOk_of_parseURL lawful ih result

end Results

end QjsLws.Url
