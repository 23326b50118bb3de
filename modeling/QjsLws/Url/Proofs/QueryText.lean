import QjsLws.Url.Proofs.HostText
import QjsLws.Url.Proofs.SearchParams

/-!
# The query that is read

The query of a record that the parser returns has the same pairs as the query text of its input.
-/

namespace QjsLws.Url

open QjsLws.Misc ParserInput

/-- A character that starts neither a query nor a fragment. -/
def Plain (c : Char) : Prop := c ≠ '?' ∧ c ≠ '#'

instance : DecidablePred Plain := fun c => inferInstanceAs (Decidable (c ≠ '?' ∧ c ≠ '#'))

/-- The states between the scheme and the query in which nothing is inherited any more. -/
def Middle (s : ParserState) : Prop :=
  s = .pathOrAuthority ∨ s = .relativeSlash ∨ s = .specialAuthoritySlashes ∨
    s = .specialAuthorityIgnoreSlashes ∨ s = .authority ∨ s = .host ∨ s = .port ∨ s = .fileSlash ∨
    s = .fileHost ∨ s = .pathStart ∨ s = .path ∨ s = .opaquePath

/-- The query of the base, where nothing is left before the fragment. -/
def inheritsAt (base : Option URLRecord) (t : Text) : Option Text :=
  base.bind fun base => if beforeFragment t = [] then base.query else none

/-- What the variables say about the query text, where `t` is the rest of the input. -/
inductive QueryStage (x : ParserInput) (v : ParserVars) (t : Text) : Prop
  | schemeStart (state : v.state = .schemeStart) (start : t = x.cp) (query : v.url.query = none)
  | scheme (state : v.state = .scheme) (read : Text) (input : x.cp = read ++ t)
    (first : read.head?.any isASCIIAlpha = true) (chars : ∀ c ∈ read, isSchemeChar c = true)
    (buffer : v.buffer = read.flatMap fun c => x.native.toLowerCase [c])
    (query : v.url.query = none)
  | noScheme (state : v.state = .noScheme) (start : t = x.cp)
    (unsplit : splitScheme x.native x.cp = none) (query : v.url.query = none)
  | relative (state : v.state = .specialRelativeOrAuthority ∨ v.state = .relative)
    (inherited : inheritedQuery x.native x.cp x.base = inheritsAt x.base t)
    (query : v.url.query = none)
  | file (state : v.state = .file)
    (inherited : inheritedQuery x.native x.cp x.base
      = inheritsAt (x.base.filter fun base => isFile base.scheme) t)
    (query : v.url.query = none)
  | middle (state : Middle v.state) (inherited : inheritedQuery x.native x.cp x.base = none)
    (query : v.url.query = none)
    (buffer : v.state = .pathStart ∨ v.state = .opaquePath → v.buffer = [])
  | query (state : v.state = .query) (query : v.url.query = some [])
    (text : queryText x.native x.cp x.base = some (v.buffer ++ beforeFragment t))
  | fragment (state : v.state = .fragment)
    (same : queryList v.url.query = queryList (queryText x.native x.cp x.base))

/-- The invariant of the loop: no mark of a query or a fragment was read before its state. -/
def QueryInv (x : ParserInput) (v : ParserVars) : Prop :=
  ∃ read t, x.cp = read ++ t ∧ v.pointer = read.length ∧
    (v.state.rank < 12 → ∀ c ∈ read, Plain c) ∧ QueryStage x v t

/-- The pairs of the query are those of the query text. -/
def QueryPost (x : ParserInput) (url : URLRecord) (ended : ParseEnd) : Prop :=
  ended = .record → queryList url.query = queryList (queryText x.native x.cp x.base)

/-- What a pass has to establish. -/
abbrev KeepsQuery (x : ParserInput) (p : Pass) : Prop := p.Sat x (QueryInv x) (QueryPost x)

section Parts

variable {native : Native} {base : Option URLRecord} {cp read t : Text} {c : Char}

theorem beforeFragment_append (plain : ∀ c ∈ read, Plain c) (t : Text) :
    beforeFragment (read ++ t) = read ++ beforeFragment t := by
  unfold beforeFragment
  rw [List.takeWhile_append_of_pos]
  intro c member
  simpa using (plain c member).2

theorem beforeFragment_cons (other : c ≠ '#') :
    beforeFragment (c :: t) = c :: beforeFragment t := by
  rw [beforeFragment, List.takeWhile_cons, if_pos (by simpa using other)]
  rfl

theorem beforeFragment_hash : beforeFragment ('#' :: t) = [] := rfl

/-- The query text, seen from a place before the query. -/
theorem queryText_append (plain : ∀ c ∈ read, Plain c) (input : cp = read ++ t) :
    queryText native cp base
      = if '?' ∈ beforeFragment t then some ((beforeFragment t).dropWhile (· ≠ '?')).tail
        else inheritedQuery native cp base := by
  have absent : '?' ∉ read := fun member => (plain _ member).1 rfl
  have front : beforeFragment cp = read ++ beforeFragment t := by
    rw [input, beforeFragment_append plain]
  have skipped : (read ++ beforeFragment t).dropWhile (· ≠ '?')
      = (beforeFragment t).dropWhile (· ≠ '?') := by
    apply List.dropWhile_append_of_pos
    intro c member
    simpa using (plain c member).1
  rw [queryText, front, skipped]
  simp [absent]

theorem queryText_mark (plain : ∀ c ∈ read, Plain c) (input : cp = read ++ '?' :: t) :
    queryText native cp base = some (beforeFragment t) := by
  rw [queryText_append plain input, beforeFragment_cons (by decide), if_pos List.mem_cons_self]
  simp

theorem queryText_end (plain : ∀ c ∈ read, Plain c) (input : cp = read ++ t)
    (ended : beforeFragment t = []) : queryText native cp base = inheritedQuery native cp base := by
  rw [queryText_append plain input, ended, if_neg (by simp)]

theorem plain_of_inside {special : Bool} (inside : endsAuthority special (some c) = false) :
    Plain c := by
  simp only [endsAuthority, Bool.or_eq_false_iff, decide_eq_false_iff_not] at inside
  exact ⟨inside.1.1.2, inside.1.2⟩

end Parts

theorem plain_of_schemeChar {c : Char} (char : isSchemeChar c = true) : Plain c := by
  constructor <;> rintro rfl <;> revert char <;> decide

section Steps

variable {x : ParserInput} {v v' : ParserVars} {read t : Text} {c : Char}

theorem keepsQuery_done {url : URLRecord} {ended : ParseEnd} (other : ended ≠ .record) :
    KeepsQuery x (.done url ended) := by
  show QueryPost x url ended
  exact fun record => absurd record other

/-- A pass that consumes a character. -/
theorem keepsQuery_char (input : x.cp = read ++ c :: t) (place : v.pointer = read.length)
    (plain : ∀ c ∈ read, Plain c) (same : v'.pointer = v.pointer)
    (early : v'.state.rank < 12 → Plain c) (stage : QueryStage x v'.advance t) :
    KeepsQuery x (.next v') := by
  have length := congrArg List.length input
  rw [List.length_append, List.length_cons] at length
  refine ⟨fun _ => ⟨read ++ [c], t, by simp [input], ?_, ?_, stage⟩, fun far => by omega⟩
  · simp only [ParserVars.advance, List.length_append, List.length_singleton]
    omega
  · intro before d member
    rcases List.mem_append.mp member with earlier | new
    · exact plain d earlier
    · rw [List.mem_singleton.mp new]
      exact early before

/-- A pass that leaves the character to the next state. -/
theorem keepsQuery_back (input : x.cp = read ++ t) (place : v.pointer = read.length)
    (plain : ∀ c ∈ read, Plain c) (same : v'.pointer = v.pointer - 1)
    (stage : QueryStage x v'.advance t) : KeepsQuery x (.next v') := by
  have length := congrArg List.length input
  rw [List.length_append] at length
  refine ⟨fun _ => ⟨read, t, input, ?_, fun _ => plain, stage⟩, fun far => by omega⟩
  simp only [ParserVars.advance]
  omega

/-- A pass at the end of the input. -/
theorem keepsQuery_end (input : x.cp = read ++ []) (place : v.pointer = read.length)
    (same : v'.pointer = v.pointer)
    (post : queryList v'.url.query = queryList (queryText x.native x.cp x.base)) :
    KeepsQuery x (.next v') := by
  have length := congrArg List.length input
  rw [List.append_nil] at length
  exact ⟨fun inside => by omega, fun _ _ => post⟩

/-- The question mark. -/
theorem keepsQuery_toQuery (input : x.cp = read ++ '?' :: t) (place : v.pointer = read.length)
    (plain : ∀ c ∈ read, Plain c) (same : v'.pointer = v.pointer) (buffer : v'.buffer = []) :
    KeepsQuery x (.next v'.toQuery) := by
  refine keepsQuery_char input place plain same (by simp [ParserState.rank]) (.query rfl rfl ?_)
  simp [queryText_mark plain input, buffer]

/-- The number sign. -/
theorem keepsQuery_toFragment (input : x.cp = read ++ '#' :: t) (place : v.pointer = read.length)
    (plain : ∀ c ∈ read, Plain c) (same : v'.pointer = v.pointer)
    (query : v'.url.query = inheritedQuery x.native x.cp x.base) :
    KeepsQuery x (.next v'.toFragment) := by
  refine keepsQuery_char input place plain same (by simp [ParserState.rank]) (.fragment rfl ?_)
  rw [queryText_end plain input beforeFragment_hash, ← query]
  rfl

/-- From a place in front of the query the middle states go back, -/
theorem keepsQuery_middle_back (input : x.cp = read ++ t) (place : v.pointer = read.length)
    (plain : ∀ c ∈ read, Plain c) (low : 0 ≤ v'.pointer + 1) (back : v'.pointer + 1 ≤ v.pointer)
    (stage : ∀ t, QueryStage x v'.advance t) : KeepsQuery x (.next v') := by
  have length := congrArg List.length input
  rw [List.length_append] at length
  refine ⟨fun _ => ⟨read.take (v'.pointer + 1).toNat, read.drop (v'.pointer + 1).toNat ++ t, ?_, ?_,
    ?_, stage _⟩, fun far => by omega⟩
  · rw [← List.append_assoc, List.take_append_drop, input]
  · simp only [ParserVars.advance, List.length_take]
    omega
  · exact fun _ c member => plain c (List.mem_of_mem_take member)

/-- In a middle state nothing is known but that no query was read or inherited. -/
structure MiddleStage (x : ParserInput) (v : ParserVars) : Prop where
  state : Middle v.state
  inherited : inheritedQuery x.native x.cp x.base = none
  query : v.url.query = none
  buffer : v.state = .pathStart ∨ v.state = .opaquePath → v.buffer = []

theorem MiddleStage.stage (middle : MiddleStage x v') (t : Text) : QueryStage x v'.advance t :=
  .middle middle.state middle.inherited middle.query middle.buffer

theorem keepsQuery_middle_end (input : x.cp = read ++ []) (place : v.pointer = read.length)
    (plain : ∀ c ∈ read, Plain c) (inherited : inheritedQuery x.native x.cp x.base = none)
    (same : v'.pointer = v.pointer) (query : v'.url.query = none) : KeepsQuery x (.next v') := by
  apply keepsQuery_end input place same
  rw [queryText_end plain input rfl, inherited, query]

theorem isSlash_plain {special : Bool} (slash : isSlash special (some c) = true) : Plain c := by
  simp only [isSlash, Option.some.injEq, Bool.or_eq_true, decide_eq_true_eq,
    Bool.and_eq_true] at slash
  rcases slash with rfl | ⟨-, rfl⟩ <;> decide

/-- On to another middle state. -/
theorem MiddleStage.goto (middle : MiddleStage x v) (v' : ParserVars) (state : Middle v'.state)
    (query : v'.url.query = v.url.query)
    (buffer : v'.state = .pathStart ∨ v'.state = .opaquePath → v'.buffer = []) :
    MiddleStage x v' := ⟨state, middle.inherited, query.trans middle.query, buffer⟩

/-- What follows the call of `parseHost`. -/
theorem keepsQuery_withHost {next : ParserVars → Host → Pass} (goes : ∀ h, KeepsQuery x (next v h)) :
    KeepsQuery x (x.withHost v next) := by
  unfold ParserInput.withHost
  split
  · exact keepsQuery_done (by simp)
  · exact keepsQuery_done (by simp)
  · exact goes _

section States

variable (input : x.cp = read ++ t) (place : v.pointer = read.length)
  (plain : ∀ c ∈ read, Plain c) (middle : MiddleStage x v)
include input place plain middle

theorem keepsQuery_pathOrAuthority : KeepsQuery x (pathOrAuthority v t.head?) := by
  unfold ParserInput.pathOrAuthority
  split
  · rename_i slash
    obtain ⟨t', rfl⟩ := List.head?_eq_some_iff.mp slash
    refine keepsQuery_char input place plain rfl (fun _ => by decide) ?_
    exact (middle.goto (v.goto .authority) (by simp [Middle]) rfl (by simp)).stage t'
  · refine keepsQuery_back input place plain rfl ?_
    exact (middle.goto ((v.goto .path).back) (by simp [Middle]) rfl (by simp)).stage t

theorem keepsQuery_relativeSlash : KeepsQuery x (x.relativeSlash v t.head?) := by
  unfold ParserInput.relativeSlash
  split
  · rename_i slash
    cases t with
    | nil => simp at slash
    | cons c t =>
      have mark : c = '/' ∨ c = '\\' := by simpa using (Bool.and_eq_true_iff.mp slash).2
      refine keepsQuery_char input place plain rfl (fun _ => ?_) ?_
      · rcases mark with rfl | rfl <;> decide
      · exact (middle.goto (v.goto .specialAuthorityIgnoreSlashes) (by simp [Middle]) rfl
          (by simp)).stage t
  · split
    · rename_i slash
      obtain ⟨t', rfl⟩ := List.head?_eq_some_iff.mp slash
      refine keepsQuery_char input place plain rfl (fun _ => by decide) ?_
      exact (middle.goto (v.goto .authority) (by simp [Middle]) rfl (by simp)).stage t'
    · split
      · exact keepsQuery_done (by simp)
      · rename_i base based
        refine keepsQuery_back input place plain rfl ?_
        exact (middle.goto (({ v with url := inheritAuthority v.url base }.goto .path).back)
          (by simp [Middle]) rfl (by simp)).stage t

theorem keepsQuery_slashes : KeepsQuery x (x.specialAuthoritySlashes v t.head?) := by
  have next : (v.goto .specialAuthorityIgnoreSlashes).state = .specialAuthorityIgnoreSlashes := rfl
  unfold ParserInput.specialAuthoritySlashes
  split
  · rename_i slashes
    obtain ⟨t', rfl⟩ := List.head?_eq_some_iff.mp slashes.1
    have rest : Rest x.cp v.pointer ('/' :: t') := ⟨read, input, place⟩
    have second := slashes.2
    rw [rest.next.charAt_eq] at second
    obtain ⟨t'', rfl⟩ := List.head?_eq_some_iff.mp second
    have further : x.cp = (read ++ ['/']) ++ '/' :: t'' := by simp [input]
    refine keepsQuery_char (v := { v with pointer := v.pointer + 1 }) further (by simp [place]) ?_
      rfl (fun _ => by decide) ?_
    · intro c member
      rcases List.mem_append.mp member with earlier | new
      · exact plain c earlier
      · rw [List.mem_singleton.mp new]
        decide
    · exact (middle.goto ((v.goto .specialAuthorityIgnoreSlashes).skip) (by simp [Middle]) rfl
        (by simp)).stage t''
  · refine keepsQuery_back input place plain rfl ?_
    exact (middle.goto ((v.goto .specialAuthorityIgnoreSlashes).back) (by simp [Middle]) rfl
      (by simp)).stage t

theorem keepsQuery_ignoreSlashes (state : v.state = .specialAuthorityIgnoreSlashes) :
    KeepsQuery x (specialAuthorityIgnoreSlashes v t.head?) := by
  unfold ParserInput.specialAuthorityIgnoreSlashes
  split
  · refine keepsQuery_back input place plain rfl ?_
    exact (middle.goto ((v.goto .authority).back) (by simp [Middle]) rfl (by simp)).stage t
  · rename_i slash
    cases t with
    | nil => simp at slash
    | cons c t =>
      refine keepsQuery_char input place plain rfl (fun _ => ?_) ?_
      · rw [not_and_or, not_not, not_not] at slash
        simp only [List.head?_cons, Option.some.injEq] at slash
        rcases slash with rfl | rfl <;> decide
      · exact (middle.goto v middle.state rfl (by simp [state])).stage t

theorem keepsQuery_authority (placed : Placed x.cp v) (state : v.state = .authority) :
    KeepsQuery x (authority v t.head?) := by
  unfold ParserInput.authority
  split
  · rename_i mark
    obtain ⟨t', rfl⟩ := List.head?_eq_some_iff.mp mark
    dsimp only
    generalize (if v.atSignSeen then "%40".toList ++ v.buffer else v.buffer) = credentials
    obtain ⟨⟨-, query⟩, same, pointer, -⟩ :=
      foldl_userinfoChar credentials { v with atSignSeen := true }
    refine keepsQuery_char input place plain pointer (fun _ => by decide) ?_
    refine (middle.goto ((credentials.foldl userinfoChar
      { v with atSignSeen := true }).clear) ?_ query (fun _ => rfl)).stage t'
    rw [ParserVars.clear, same]
    exact middle.state
  · split
    · split
      · exact keepsQuery_done (by simp)
      · have enough := placed.buffer
        rw [BufferOk, state] at enough
        refine keepsQuery_middle_back input place plain ?_ ?_ ?_
        · dsimp only at enough ⊢
          omega
        · dsimp only
          omega
        · exact (middle.goto ({ v with
            pointer := v.pointer - (v.buffer.length + 1), buffer := [], state := .host })
            (by simp [Middle]) rfl (by simp)).stage
    · rename_i inside
      cases t with
      | nil => exact absurd rfl inside
      | cons c t =>
        refine keepsQuery_char input place plain rfl (fun _ => ?_) ?_
        · exact plain_of_inside (by simpa using inside)
        · exact (middle.goto (v.append (some c).toList) middle.state rfl
            (by simp [state])).stage t

theorem keepsQuery_host (override : x.stateOverride = none) (state : v.state = .host) :
    KeepsQuery x (x.host v t.head?) := by
  unfold ParserInput.host
  split
  · rename_i port
    obtain ⟨t', rfl⟩ := List.head?_eq_some_iff.mp port.1
    split
    · exact keepsQuery_done (by simp)
    · rw [override, if_neg (by simp)]
      refine keepsQuery_withHost fun h => ?_
      refine keepsQuery_char input place plain rfl (fun _ => by decide) ?_
      exact (middle.goto ((setHost v h).goto .port) (by simp [Middle]) rfl (by simp)).stage t'
  · split
    · rw [override]
      simp only [Option.isSome_none, Bool.false_and, Bool.false_eq_true, if_false]
      split
      · exact keepsQuery_done (by simp)
      · refine keepsQuery_withHost fun h => ?_
        refine keepsQuery_back input place plain rfl ?_
        exact (middle.goto ((setHost v.back h).goto .pathStart) (by simp [Middle]) rfl
          (fun _ => rfl)).stage t
    · rename_i inside
      cases t with
      | nil => exact absurd rfl inside
      | cons c t =>
        refine keepsQuery_char input place plain rfl (fun _ => ?_) ?_
        · exact plain_of_inside (by simpa using inside)
        · exact .middle middle.state middle.inherited middle.query (by simp [state])

theorem keepsQuery_port (override : x.stateOverride = none) (state : v.state = .port) :
    KeepsQuery x (x.port v t.head?) := by
  unfold ParserInput.port
  split
  · rename_i digit
    cases t with
    | nil => simp at digit
    | cons c t =>
      have digit : c.isDigit = true := digit
      refine keepsQuery_char input place plain rfl (fun _ => ?_) ?_
      · constructor <;> rintro rfl <;> revert digit <;> decide
      · exact .middle middle.state middle.inherited middle.query (by simp [state])
  · split
    · rw [override]
      simp only [Option.isSome_none, Bool.false_eq_true, if_false]
      split
      · exact keepsQuery_done (by simp)
      · split
        · rename_i empty
          refine keepsQuery_back input place plain rfl ?_
          exact (middle.goto ((v.goto .pathStart).back) (by simp [Middle]) rfl
            (fun _ => empty)).stage t
        · refine keepsQuery_back input place plain rfl ?_
          exact .middle (by simp [Middle]) middle.inherited middle.query (fun _ => rfl)
    · exact keepsQuery_done (by simp)

theorem keepsQuery_fileSlash : KeepsQuery x (x.fileSlash v t.head?) := by
  unfold ParserInput.fileSlash
  split
  · rename_i slash
    cases t with
    | nil => simp at slash
    | cons c t =>
      refine keepsQuery_char input place plain rfl (fun _ => ?_) ?_
      · simp only [List.head?_cons, Option.some.injEq] at slash
        rcases slash with rfl | rfl <;> decide
      · exact (middle.goto (v.goto .fileHost) (by simp [Middle]) rfl (by simp)).stage t
  · split
    · refine keepsQuery_back input place plain rfl ?_
      exact .middle (by simp [Middle]) middle.inherited middle.query (by simp)
    · refine keepsQuery_back input place plain rfl ?_
      exact (middle.goto ((v.goto .path).back) (by simp [Middle]) rfl (by simp)).stage t

theorem keepsQuery_fileHost (override : x.stateOverride = none) (state : v.state = .fileHost) :
    KeepsQuery x (x.fileHost v t.head?) := by
  unfold ParserInput.fileHost
  split
  · rw [override]
    simp only [Option.isSome_none, Bool.false_eq_true, if_false]
    split
    · refine keepsQuery_back input place plain rfl ?_
      exact (middle.goto (v.back.goto .path) (by simp [Middle]) rfl (by simp)).stage t
    · split
      · rename_i empty
        refine keepsQuery_back input place plain rfl ?_
        exact .middle (by simp [Middle]) middle.inherited middle.query (fun _ => empty)
      · refine keepsQuery_withHost fun h => ?_
        generalize (if h = .text "localhost".toList then Host.text [] else h) = host
        refine keepsQuery_back input place plain rfl ?_
        exact (middle.goto ((setHost v.back host).goto .pathStart) (by simp [Middle]) rfl
          (fun _ => rfl)).stage t
  · rename_i inside
    cases t with
    | nil => exact absurd rfl inside
    | cons c t =>
      refine keepsQuery_char input place plain rfl (fun _ => ?_) ?_
      · exact @plain_of_inside _ true (by simpa using inside)
      · exact (middle.goto (v.append (some c).toList) middle.state rfl
          (by simp [state])).stage t

theorem keepsQuery_pathStart (override : x.stateOverride = none) (state : v.state = .pathStart) :
    KeepsQuery x (x.pathStart v t.head?) := by
  have empty : v.buffer = [] := middle.buffer (.inl state)
  unfold ParserInput.pathStart
  rw [override]
  simp only [Option.isNone_none, Option.isSome_none, Bool.true_and, Bool.false_and,
    Bool.false_eq_true, if_false, decide_eq_true_eq]
  split
  · split
    · exact keepsQuery_back input place plain rfl
        (.middle (by simp [Middle]) middle.inherited middle.query (by simp))
    · rename_i slash
      cases t with
      | nil => simp at slash
      | cons c t =>
        refine keepsQuery_char input place plain rfl (fun _ => ?_)
          (.middle (by simp [Middle]) middle.inherited middle.query (by simp))
        rw [not_and_or, not_not, not_not] at slash
        simp only [List.head?_cons, Option.some.injEq] at slash
        rcases slash with rfl | rfl <;> decide
  · split
    · rename_i mark
      obtain ⟨t', rfl⟩ := List.head?_eq_some_iff.mp mark
      exact keepsQuery_toQuery input place plain rfl empty
    · split
      · rename_i mark
        obtain ⟨t', rfl⟩ := List.head?_eq_some_iff.mp mark
        exact keepsQuery_toFragment input place plain rfl (middle.query.trans middle.inherited.symm)
      · cases t with
        | nil =>
          exact keepsQuery_middle_end input place plain middle.inherited rfl middle.query
        | cons c t =>
          rw [if_pos (show (c :: t).head?.isSome = true from rfl)]
          split
          · exact keepsQuery_back input place plain rfl
              (.middle (by simp [Middle]) middle.inherited middle.query (by simp))
          · rename_i slash
            have slash : c = '/' := by simpa using slash
            refine keepsQuery_char input place plain rfl (fun _ => ?_)
              (.middle (by simp [Middle]) middle.inherited middle.query (by simp))
            rw [slash]
            decide

theorem keepsQuery_path (override : x.stateOverride = none) (state : v.state = .path) :
    KeepsQuery x (x.path v t.head?) := by
  unfold ParserInput.path
  dsimp only
  split
  · rename_i segment
    split
    · rename_i mark
      obtain ⟨t', rfl⟩ := List.head?_eq_some_iff.mp mark
      exact keepsQuery_toQuery input place plain rfl rfl
    · split
      · rename_i mark
        obtain ⟨t', rfl⟩ := List.head?_eq_some_iff.mp mark
        exact keepsQuery_toFragment input place plain rfl (middle.query.trans middle.inherited.symm)
      · rename_i question hash
        cases t with
        | nil =>
          exact keepsQuery_middle_end input place plain middle.inherited rfl middle.query
        | cons c t =>
          refine keepsQuery_char input place plain rfl (fun _ => ?_)
            (.middle (by simp [Middle, state]) middle.inherited middle.query (by simp [state]))
          exact ⟨by simpa using question, by simpa using hash⟩
  · rename_i other
    rw [not_or, not_or] at other
    cases t with
    | nil => exact absurd rfl other.1
    | cons c t =>
      refine keepsQuery_char input place plain rfl (fun _ => ?_)
        (.middle (by simp [Middle, state]) middle.inherited middle.query (by simp [state]))
      have marks := other.2.2
      rw [not_and, not_or] at marks
      obtain ⟨question, hash⟩ := marks override
      exact ⟨by simpa using question, by simpa using hash⟩

theorem keepsQuery_opaquePath (state : v.state = .opaquePath) :
    KeepsQuery x (opaquePath v t.head?) := by
  have empty : v.buffer = [] := middle.buffer (.inr state)
  unfold ParserInput.opaquePath
  split
  · rename_i mark
    obtain ⟨t', rfl⟩ := List.head?_eq_some_iff.mp mark
    exact keepsQuery_toQuery input place plain rfl empty
  · rename_i question
    split
    · rename_i mark
      obtain ⟨t', rfl⟩ := List.head?_eq_some_iff.mp mark
      exact keepsQuery_toFragment input place plain rfl (middle.query.trans middle.inherited.symm)
    · rename_i hash
      cases t with
      | nil =>
        split
        all_goals
          exact keepsQuery_middle_end input place plain middle.inherited rfl middle.query
      | cons c t =>
        have fine : Plain c := ⟨by simpa using question, by simpa using hash⟩
        split
        all_goals
          refine keepsQuery_char input place plain rfl (fun _ => fine) ?_
          exact .middle middle.state middle.inherited middle.query (fun _ => empty)

end States

/-- One pass in a middle state. -/
theorem keepsQuery_middle (override : x.stateOverride = none) (placed : Placed x.cp v)
    (input : x.cp = read ++ t) (place : v.pointer = read.length) (plain : ∀ c ∈ read, Plain c)
    (middle : MiddleStage x v) : KeepsQuery x (x.pass v) := by
  have found : charAt x.cp v.pointer = t.head? := Rest.charAt_eq ⟨read, input, place⟩
  rcases middle.state with state | state | state | state | state | state | state | state | state |
    state | state | state <;> simp only [ParserInput.pass, state, found]
  · exact keepsQuery_pathOrAuthority input place plain middle
  · exact keepsQuery_relativeSlash input place plain middle
  · exact keepsQuery_slashes input place plain middle
  · exact keepsQuery_ignoreSlashes input place plain middle state
  · exact keepsQuery_authority input place plain middle placed state
  · exact keepsQuery_host input place plain middle override state
  · exact keepsQuery_port input place plain middle override state
  · exact keepsQuery_fileSlash input place plain middle
  · exact keepsQuery_fileHost input place plain middle override state
  · exact keepsQuery_pathStart input place plain middle override state
  · exact keepsQuery_path input place plain middle override state
  · exact keepsQuery_opaquePath input place plain middle state

/-- After an inherited path the query is inherited too, unless more of the text follows. -/
theorem keepsQuery_afterInherited (input : x.cp = read ++ t) (place : v.pointer = read.length)
    (plain : ∀ c ∈ read, Plain c) (buffer : v.buffer = []) (url base : URLRecord)
    (query : url.query = base.query)
    (inherited : inheritedQuery x.native x.cp x.base = inheritsAt (some base) t)
    (pop : UrlPath → UrlPath) : KeepsQuery x (afterInherited { v with url } t.head? pop) := by
  unfold afterInherited
  split
  · rename_i mark
    obtain ⟨t', rfl⟩ := List.head?_eq_some_iff.mp mark
    exact keepsQuery_toQuery input place plain rfl buffer
  · split
    · rename_i mark
      obtain ⟨t', rfl⟩ := List.head?_eq_some_iff.mp mark
      refine keepsQuery_toFragment input place plain rfl (query.trans ?_)
      rw [inherited]
      rfl
    · rename_i hash
      cases t with
      | nil =>
        rw [if_neg (by simp)]
        refine @keepsQuery_end _ _ { v with url } _ input place rfl ?_
        rw [queryText_end plain input rfl, inherited, query]
        rfl
      | cons c t =>
        have other : c ≠ '#' := by simpa using hash
        rw [if_pos (show (c :: t).head?.isSome = true from rfl)]
        refine keepsQuery_back input place plain rfl ?_
        refine .middle (by simp [Middle]) ?_ rfl (by simp)
        rw [inherited, inheritsAt, Option.bind_some, beforeFragment_cons other, if_neg (by simp)]

theorem keepsQuery_schemeStart (override : x.stateOverride = none) (input : x.cp = read ++ t)
    (place : v.pointer = read.length) (plain : ∀ c ∈ read, Plain c) (start : t = x.cp)
    (buffer : v.buffer = []) (query : v.url.query = none) :
    KeepsQuery x (x.schemeStart v t.head?) := by
  unfold ParserInput.schemeStart
  split
  · rename_i c found
    obtain ⟨first, alpha⟩ := Option.filter_eq_some_iff.mp found
    obtain ⟨t', rfl⟩ := List.head?_eq_some_iff.mp first
    have char : isSchemeChar c = true := isSchemeChar_of_isAlpha alpha
    refine keepsQuery_char input place plain rfl (fun _ => plain_of_schemeChar char) ?_
    refine .scheme rfl [c] start.symm alpha ?_ ?_ query
    · intro d member
      rw [List.mem_singleton.mp member]
      exact char
    · simp [buffer]
  · rename_i found
    rw [override]
    refine keepsQuery_back input place plain rfl (.noScheme rfl start ?_ query)
    exact splitScheme_eq_none (start ▸ found)

/-- What a text with a scheme takes from the base. -/
theorem inheritedQuery_split {native : Native} {cp scheme rest : Text} (base : Option URLRecord)
    (split : splitScheme native cp = some (scheme, rest)) :
    inheritedQuery native cp base
      = base.bind fun base =>
          if isSpecialScheme scheme && scheme = base.scheme && beforeFragment rest = [] then
            base.query
          else none := by
  unfold inheritedQuery
  rw [split]
  cases base <;> rfl

theorem keepsQuery_schemeRead (input : x.cp = read ++ ':' :: t) (place : v.pointer = read.length)
    (plain : ∀ c ∈ read, Plain c) (split : splitScheme x.native x.cp = some (v.buffer, t))
    (query : v.url.query = none) : KeepsQuery x (.next (x.schemeRead v)) := by
  have ahead : charAt x.cp (v.pointer + 1) = t.head? :=
    (Rest.next ⟨read, input, place⟩).charAt_eq
  have inherited := inheritedQuery_split x.base split
  unfold ParserInput.schemeRead
  dsimp only
  rw [ahead]
  split_ifs with file same special slash
  · have file : v.buffer = "file".toList := isFile_iff.mp file
    refine keepsQuery_char input place plain rfl (fun _ => by decide) (.file rfl ?_ query)
    rw [inherited]
    cases x.base with
    | none => rfl
    | some base =>
      rw [Option.bind_some, file, isSpecialScheme_file, Option.filter_some]
      by_cases fileBase : base.scheme = "file".toList
      · rw [if_pos (isFile_iff.mpr fileBase)]
        simp [inheritsAt, fileBase]
      · rw [if_neg (fun isFile => fileBase (isFile_iff.mp isFile))]
        simp only [Ne.symm fileBase, decide_false, Bool.and_false, Bool.false_and, inheritsAt,
          Bool.false_eq_true, if_false, Option.bind_none]
  · obtain ⟨special, based⟩ := Bool.and_eq_true_iff.mp same
    have special : isSpecialScheme v.buffer = true := special
    refine keepsQuery_char input place plain rfl (fun _ => by decide) (.relative (.inl rfl) ?_ query)
    rw [inherited]
    cases isBase : x.base with
    | none => simp [isBase] at based
    | some base =>
      have scheme : base.scheme = v.buffer := by simpa [isBase] using based
      simp [inheritsAt, special, scheme]
  · have special : isSpecialScheme v.buffer = true := special
    refine keepsQuery_char input place plain rfl (fun _ => by decide) ?_
    refine .middle (by simp [Middle]) ?_ query (by simp)
    rw [inherited]
    cases isBase : x.base with
    | none => rfl
    | some base =>
      have other : ¬v.buffer = base.scheme := by
        intro scheme
        have baseSpecial : isSpecialScheme base.scheme = true := scheme ▸ special
        apply same
        simp [isSpecial, isBase, scheme, baseSpecial]
      simp [other]
  · have notSpecial : isSpecialScheme v.buffer = false := by simpa [isSpecial] using special
    have none : inheritedQuery x.native x.cp x.base = none := by
      rw [inherited, notSpecial]
      cases x.base <;> simp
    obtain ⟨t', rfl⟩ := List.head?_eq_some_iff.mp slash
    have further : x.cp = (read ++ [':']) ++ '/' :: t' := by simp [input]
    refine keepsQuery_char (v := { v with pointer := v.pointer + 1 }) further (by simp [place]) ?_
      rfl (fun _ => by decide) (.middle (by simp [Middle]) none query (by simp))
    intro c member
    rcases List.mem_append.mp member with earlier | new
    · exact plain c earlier
    · rw [List.mem_singleton.mp new]
      decide
  · have notSpecial : isSpecialScheme v.buffer = false := by simpa [isSpecial] using special
    have none : inheritedQuery x.native x.cp x.base = none := by
      rw [inherited, notSpecial]
      cases x.base <;> simp
    exact keepsQuery_char input place plain rfl (fun _ => by decide)
      (.middle (by simp [Middle]) none query (fun _ => rfl))

theorem keepsQuery_scheme (override : x.stateOverride = none) (input : x.cp = read ++ t)
    (place : v.pointer = read.length) (state : v.state = .scheme)
    (first : read.head?.any isASCIIAlpha = true) (chars : ∀ c ∈ read, isSchemeChar c = true)
    (buffer : v.buffer = read.flatMap fun c => x.native.toLowerCase [c])
    (query : v.url.query = none) : KeepsQuery x (x.scheme v t.head?) := by
  have plain : ∀ c ∈ read, Plain c := fun c member => plain_of_schemeChar (chars c member)
  unfold ParserInput.scheme
  split
  · rename_i c found
    obtain ⟨next, char⟩ := Option.filter_eq_some_iff.mp found
    obtain ⟨t', rfl⟩ := List.head?_eq_some_iff.mp next
    refine keepsQuery_char input place plain rfl (fun _ => plain_of_schemeChar char) ?_
    refine .scheme state (read ++ [c]) ?_ ?_ ?_ ?_ query
    · rw [input, List.append_assoc, List.singleton_append]
    · cases read with
      | nil => cases first
      | cons d read => exact first
    · intro d member
      rcases List.mem_append.mp member with earlier | new
      · exact chars d earlier
      · rw [List.mem_singleton.mp new]
        exact char
    · simp [buffer]
  · rename_i found
    have split := @splitScheme_read _ x.native _ first chars (ended_of_filter found)
    rw [← input] at split
    rw [override]
    split_ifs with colon
    · obtain ⟨t', rfl⟩ := List.head?_eq_some_iff.mp colon
      refine keepsQuery_schemeRead input place plain ?_ query
      rw [split, if_pos colon, buffer]
      rfl
    · rw [if_neg colon] at split
      refine ⟨fun _ => ⟨[], x.cp, rfl, rfl, by simp, .noScheme rfl rfl split query⟩, ?_⟩
      intro far
      dsimp only at far
      omega

theorem keepsQuery_noScheme (input : x.cp = read ++ t) (place : v.pointer = read.length)
    (plain : ∀ c ∈ read, Plain c) (start : t = x.cp)
    (unsplit : splitScheme x.native x.cp = none) (query : v.url.query = none) :
    KeepsQuery x (x.noScheme v t.head?) := by
  have inherited : inheritedQuery x.native x.cp x.base = inheritsAt x.base t := by
    unfold inheritedQuery
    rw [unsplit, start]
    cases x.base <;> rfl
  unfold ParserInput.noScheme
  split
  · exact keepsQuery_done (by simp)
  · rename_i base based
    split
    · split
      · rename_i mark
        obtain ⟨t', rfl⟩ := List.head?_eq_some_iff.mp mark
        refine keepsQuery_toFragment input place plain rfl ?_
        rw [inherited, based]
        rfl
      · exact keepsQuery_done (by simp)
    · split
      · exact keepsQuery_back input place plain rfl (.relative (.inr rfl) inherited query)
      · rename_i file
        refine keepsQuery_back input place plain rfl (.file rfl ?_ query)
        have file : isFile base.scheme = true := by simpa using file
        rw [inherited, based, Option.filter_some, if_pos file]

theorem keepsQuery_specialRelative (input : x.cp = read ++ t) (place : v.pointer = read.length)
    (plain : ∀ c ∈ read, Plain c)
    (inherited : inheritedQuery x.native x.cp x.base = inheritsAt x.base t)
    (query : v.url.query = none) : KeepsQuery x (x.specialRelativeOrAuthority v t.head?) := by
  unfold ParserInput.specialRelativeOrAuthority
  split
  · rename_i slashes
    obtain ⟨t', rfl⟩ := List.head?_eq_some_iff.mp slashes.1
    have second := slashes.2
    rw [(Rest.next ⟨read, input, place⟩).charAt_eq] at second
    obtain ⟨t'', rfl⟩ := List.head?_eq_some_iff.mp second
    have none : inheritedQuery x.native x.cp x.base = none := by
      rw [inherited, inheritsAt]
      cases x.base <;> simp [beforeFragment]
    have further : x.cp = (read ++ ['/']) ++ '/' :: t'' := by simp [input]
    refine keepsQuery_char (v := { v with pointer := v.pointer + 1 }) further (by simp [place]) ?_
      rfl (fun _ => by decide) (.middle (by simp [Middle]) none query (by simp))
    intro c member
    rcases List.mem_append.mp member with earlier | new
    · exact plain c earlier
    · rw [List.mem_singleton.mp new]
      decide
  · exact keepsQuery_back input place plain rfl (.relative (.inr rfl) inherited query)

theorem inheritsAt_cons {c : Char} (base : Option URLRecord) (other : c ≠ '#') :
    inheritsAt base (c :: t) = none := by
  cases base <;> simp [inheritsAt, beforeFragment_cons other]

theorem keepsQuery_relative (input : x.cp = read ++ t) (place : v.pointer = read.length)
    (plain : ∀ c ∈ read, Plain c)
    (inherited : inheritedQuery x.native x.cp x.base = inheritsAt x.base t) (buffer : v.buffer = [])
    (query : v.url.query = none) : KeepsQuery x (x.relative v t.head?) := by
  unfold ParserInput.relative
  split
  · exact keepsQuery_done (by simp)
  · rename_i base based
    dsimp only
    split
    · rename_i slash
      cases t with
      | nil => simp [isSlash] at slash
      | cons c t =>
        have fine : Plain c := isSlash_plain slash
        refine keepsQuery_char input place plain rfl (fun _ => fine) ?_
        exact .middle (by simp [Middle]) (inherited.trans (inheritsAt_cons x.base fine.2)) query
          (by simp)
    · rw [based] at inherited
      refine keepsQuery_afterInherited input place plain buffer _ base ?_ (based ▸ inherited) _
      rfl

theorem keepsQuery_file (input : x.cp = read ++ t) (place : v.pointer = read.length)
    (plain : ∀ c ∈ read, Plain c)
    (inherited : inheritedQuery x.native x.cp x.base
      = inheritsAt (x.base.filter fun base => isFile base.scheme) t)
    (buffer : v.buffer = []) (query : v.url.query = none) : KeepsQuery x (x.file v t.head?) := by
  unfold ParserInput.file
  dsimp only
  split
  · rename_i slash
    cases t with
    | nil => simp at slash
    | cons c t =>
      have slash : c = '/' ∨ c = '\\' := by simpa using slash
      have fine : Plain c := by rcases slash with rfl | rfl <;> decide
      refine keepsQuery_char input place plain rfl (fun _ => fine) ?_
      exact .middle (by simp [Middle]) (inherited.trans (inheritsAt_cons _ fine.2)) query (by simp)
  · split
    · rename_i base based
      rw [based] at inherited
      refine keepsQuery_afterInherited input place plain buffer _ base ?_ inherited _
      rfl
    · rename_i based
      rw [based] at inherited
      exact keepsQuery_back input place plain rfl
        (.middle (by simp [Middle]) inherited query (by simp))

theorem queryList_encode (u : URLRecord) (t : Text) :
    queryList (some (utf8PercentEncode t (querySet u))) = queryList (some t) :=
  parseFormURLEncoded_encode u t

theorem keepsQuery_query (override : x.stateOverride = none) (input : x.cp = read ++ t)
    (place : v.pointer = read.length) (state : v.state = .query) (query : v.url.query = some [])
    (text : queryText x.native x.cp x.base = some (v.buffer ++ beforeFragment t)) :
    KeepsQuery x (x.query v t.head?) := by
  have length := congrArg List.length input
  rw [List.length_append] at length
  unfold ParserInput.query
  split
  · rename_i ended
    have whole : beforeFragment t = [] := by
      rcases ended with none | ⟨-, mark⟩
      · rw [List.head?_eq_none_iff.mp none]
        rfl
      · obtain ⟨t', rfl⟩ := List.head?_eq_some_iff.mp mark
        rfl
    have same : queryList (v.url.query.map (· ++ utf8PercentEncode v.buffer (querySet v.url)))
        = queryList (queryText x.native x.cp x.base) := by
      rw [query, text, whole, List.append_nil, Option.map_some, List.nil_append, queryList_encode]
    dsimp only
    split
    · rename_i mark
      obtain ⟨t', rfl⟩ := List.head?_eq_some_iff.mp mark
      refine ⟨fun _ => ⟨read ++ ['#'], t', by simp [input], ?_, ?_, .fragment rfl same⟩, ?_⟩
      · simp [place]
      · simp [ParserState.rank]
      · intro far
        rw [List.length_cons] at length
        simp only [ParserVars.toFragment] at far
        omega
    · rename_i mark
      cases t with
      | nil => exact keepsQuery_end input place rfl same
      | cons c t =>
        rcases ended with none | ⟨-, found⟩
        · cases none
        · exact absurd found mark
  · rename_i inside
    cases t with
    | nil => exact absurd (.inl rfl) inside
    | cons c t =>
      have other : c ≠ '#' := by
        rintro rfl
        exact inside (.inr ⟨override, rfl⟩)
      refine ⟨fun _ => ⟨read ++ [c], t, by simp [input], ?_, ?_, .query state query ?_⟩, ?_⟩
      · simp [place]
      · simp [state, ParserState.rank]
      · simp [text, beforeFragment_cons other]
      · intro far
        rw [List.length_cons] at length
        simp only [ParserVars.append] at far
        omega

theorem keepsQuery_pass (override : x.stateOverride = none) (placed : Placed x.cp v)
    (inv : QueryInv x v) : KeepsQuery x (x.pass v) := by
  obtain ⟨read, t, input, place, plain, stage⟩ := inv
  have found : charAt x.cp v.pointer = t.head? := Rest.charAt_eq ⟨read, input, place⟩
  have empty := placed.buffer
  unfold BufferOk at empty
  cases stage with
  | schemeStart state start query =>
    rw [state] at empty
    have plain := plain (by simp [state, ParserState.rank])
    simp only [ParserInput.pass, state, found]
    exact keepsQuery_schemeStart override input place plain start empty query
  | scheme state read' input' first chars buffer query =>
    have same : read = read' := List.append_cancel_right (input.symm.trans input')
    subst same
    simp only [ParserInput.pass, state, found]
    exact keepsQuery_scheme override input place state first chars buffer query
  | noScheme state start unsplit query =>
    have plain := plain (by simp [state, ParserState.rank])
    simp only [ParserInput.pass, state, found]
    exact keepsQuery_noScheme input place plain start unsplit query
  | relative state inherited query =>
    rcases state with state | state
    · have plain := plain (by simp [state, ParserState.rank])
      simp only [ParserInput.pass, state, found]
      exact keepsQuery_specialRelative input place plain inherited query
    · rw [state] at empty
      have plain := plain (by simp [state, ParserState.rank])
      simp only [ParserInput.pass, state, found]
      exact keepsQuery_relative input place plain inherited empty query
  | file state inherited query =>
    rw [state] at empty
    have plain := plain (by simp [state, ParserState.rank])
    simp only [ParserInput.pass, state, found]
    exact keepsQuery_file input place plain inherited empty query
  | middle state inherited query buffer =>
    have early : v.state.rank < 12 := by
      rcases state with s | s | s | s | s | s | s | s | s | s | s | s <;> simp [s, ParserState.rank]
    exact keepsQuery_middle override placed input place (plain early)
      ⟨state, inherited, query, buffer⟩
  | query state query text =>
    simp only [ParserInput.pass, state, found]
    exact keepsQuery_query override input place state query text
  | fragment state same =>
    simp only [ParserInput.pass, state]
    have length := congrArg List.length input
    rw [List.length_append] at length
    refine ⟨fun inside => ?_, fun _ _ => same⟩
    have filled : t ≠ [] := by
      rintro rfl
      rw [List.length_nil] at length
      dsimp only at inside
      omega
    obtain ⟨c, t, rfl⟩ := List.exists_cons_of_ne_nil filled
    refine ⟨read ++ [c], t, by simp [input], by simp [place], ?_, .fragment state same⟩
    simp [state, ParserState.rank]

end Steps

/-- The query of a returned record has the pairs of the query text. -/
theorem queryList_parseURL {native : Native} {input : Text} {base : Option URLRecord}
    {url : URLRecord} (parsed : parseURL native input base = some (url, .record)) :
    queryList url.query = queryList (queryText native (preprocess input) base) := by
  have start : QueryInv ⟨native, preprocess input, base, none⟩ (initialVars newURLRecord none) :=
    ⟨[], preprocess input, rfl, rfl, by simp, .schemeStart rfl rfl rfl⟩
  exact run_rule (fun v => keepsQuery_pass rfl) _ (placed_initialVars _) start parsed rfl

end QjsLws.Url
