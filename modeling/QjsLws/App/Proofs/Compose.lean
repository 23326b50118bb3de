import QjsLws.App.Proofs.Language
import QjsLws.App.Proofs.Mount

/-!
# When mounting composes

A router mounted at a path of words other than `/` behaves as its routes joined to that path, for
routes that start with a segment of their own and do not match `/`. Where no word has a star in it,
there is in every other case a request that tells the two apart.
-/

namespace QjsLws.App

open QjsLws.Misc

/-! ## The compiled patterns -/

/-- The regular expression of a mount path. -/
def mountRegex (p : List Piece) : PathRegex :=
  if p.isEmpty then .slash else .parts (partsOf p) false

/-- The regular expression of a route. -/
def routeRegex (r : RoutePattern) : PathRegex :=
  if r.segments.isEmpty then if r.star then .anything else .optionalSlash
  else .parts (partsOf r.segments ++ starParts r.star) true

/-- The regular expression of the joined pattern. -/
def joinedRegex (p : List Piece) (r : RoutePattern) : PathRegex :=
  if p.isEmpty then routeRegex r
  else if r.segments.isEmpty && !r.star then .parts (partsOf p ++ [.text ['/']]) true
  else .parts (partsOf (p ++ r.segments) ++ starParts r.star) true

theorem compilePath_mountText {p : List Piece} (starless : Starless p) :
    compilePath (mountText p) false = some (mountRegex p, keysOf p) := by
  cases p with
  | nil => rfl
  | cons s p =>
    simpa [mountText, mountRegex, starParts] using
      compilePath_segments (List.cons_ne_nil s p) starless false false

theorem compilePath_routeText {r : RoutePattern} (starless : Starless r.segments) :
    compilePath r.text true = some (routeRegex r, keysOf r.segments) := by
  rcases r with ⟨segments, star⟩
  cases segments with
  | nil => cases star <;> rfl
  | cons s segments => exact compilePath_segments (List.cons_ne_nil s segments) starless star true

theorem slashed_append (p q : List Piece) : slashed (p ++ q) = slashed p ++ slashed q := by
  simp [slashed]

theorem keysOf_append (p q : List Piece) : keysOf (p ++ q) = keysOf p ++ keysOf q := by
  simp [keysOf]

theorem Starless.append {p q : List Piece} (first : Starless p) (second : Starless q) :
    Starless (p ++ q) := by
  intro w member
  rcases List.mem_append.mp member with left | right
  · exact first w left
  · exact second w right

theorem joined_text {p : List Piece} {r : RoutePattern} (mounted : p ≠ []) (own : r.segments ≠ []) :
    joined p r = slashed (p ++ r.segments) ++ if r.star then ['/', '*'] else [] := by
  simp [joined, mountText, RoutePattern.text, mounted, own, slashed_append]

theorem compilePath_joined {p : List Piece} {r : RoutePattern} (starless : Starless p)
    (starless' : Starless r.segments) :
    compilePath (joined p r) true = some (joinedRegex p r, keysOf (p ++ r.segments)) := by
  cases p with
  | nil => exact compilePath_routeText starless'
  | cons s p =>
    have nonempty := List.cons_ne_nil s p
    rcases r with ⟨segments, star⟩
    cases segments with
    | nil =>
      rw [List.append_nil]
      cases star with
      | false =>
        obtain ⟨parts, compiled, flat⟩ := parts_starless starless
        have direct := compilePath_slash nonempty true
        rw [compiled, Option.map_some, flat] at direct
        exact direct
      | true =>
        rw [joinedRegex]
        simp only [List.isEmpty_cons, Bool.false_eq_true, if_false, List.append_nil,
          Bool.not_true, Bool.and_false]
        exact compilePath_segments nonempty starless true true
    | cons t segments =>
      have whole : s :: p ++ t :: segments ≠ [] := by simp
      rw [joined_text nonempty (List.cons_ne_nil t segments)]
      exact compilePath_segments whole (starless.append starless') star true

/-! ## Patterns that are no regular expression -/

theorem mapM_of_mount {p : List Piece} (nonempty : p ≠ [])
    (fails : compilePath (mountText p) false = none) : p.mapM Piece.parts = none := by
  have compiled := compilePath_pieces nonempty false false
  simp only [Bool.false_eq_true, if_false, List.append_nil] at compiled
  rw [mountText, if_neg (by simpa using nonempty), compiled] at fails
  simpa using fails

/-- Where one of the patterns is no regular expression, neither is the joined one. -/
theorem joined_fails {p : List Piece} {r : RoutePattern}
    (fails : compilePath (mountText p) false = none ∨ compilePath r.text true = none) :
    compilePath (joined p r) true = none := by
  by_cases mounted : p = []
  · subst mounted
    rcases fails with mount | route
    · cases mount
    · exact route
  · by_cases own : r.segments = []
    · have route : compilePath r.text true ≠ none := by
        rcases r with ⟨segments, star⟩
        subst own
        cases star <;> simp [RoutePattern.text, compilePath, slashed]
      have missing := mapM_of_mount mounted (fails.resolve_right route)
      have text : joined p r = slashed p ++ if r.star then ['/', '*'] else ['/'] := by
        cases star : r.star <;> simp [joined, mountText, RoutePattern.text, mounted, own, star, slashed]
      rw [text]
      cases r.star with
      | true =>
        have compiled := compilePath_pieces mounted true true
        rw [missing] at compiled
        exact compiled
      | false =>
        rw [if_neg Bool.false_ne_true, compilePath_slash mounted, missing]
        rfl
    · rw [joined_text mounted own, compilePath_pieces (by simp [mounted]), List.mapM_append]
      rcases fails with mount | route
      · rw [mapM_of_mount mounted mount]
        rfl
      · have compiled := compilePath_pieces own r.star true
        have text : r.text = slashed r.segments ++ if r.star then ['/', '*'] else [] := by
          simp [RoutePattern.text, own]
        rw [text, compiled, Option.map_eq_none_iff] at route
        rw [route]
        cases p.mapM Piece.parts <;> rfl

theorem composes_of_fails {p : List Piece} {r : RoutePattern}
    (fails : compilePath (mountText p) false = none ∨ compilePath r.text true = none) :
    Composes p r := by
  intro method isError
  refine .inl ⟨?_, by simp [directApp, route, joined_fails fails]⟩
  rcases fails with mount | inner
  · simp [mountedApp, useRouter, mount]
  · simp [mountedApp, route, inner]

/-- A segment without a leading star starts with its slash. -/
theorem parts_slash {s : Piece} {parts : List Part} (plain : s.text.head? ≠ some '*')
    (compiled : s.parts = some parts) : ∃ later, parts = .text ['/'] :: later := by
  cases s with
  | param name noSlash =>
    cases compiled
    exact ⟨_, rfl⟩
  | word w =>
    rw [Piece.parts] at compiled
    split at compiled
    · obtain ⟨c, t, text⟩ := List.exists_cons_of_ne_nil w.nonempty
      have other : c ≠ '*' := by
        rintro rfl
        exact plain (by rw [Piece.text, text]; rfl)
      rw [text, quantified, if_neg (by decide), if_neg other, Option.map_eq_some_iff] at compiled
      obtain ⟨later, -, rfl⟩ := compiled
      exact ⟨later, rfl⟩
    · cases compiled
      exact ⟨_, rfl⟩

/-! ## The handler's requests -/

/-- What the route's handler sees as parameters when its router is mounted. -/
def mountedParams (p : List Piece) (r : RoutePattern) (method : Text) (isError : Bool)
    (req : Exchange) : Option (Assoc Text Text) :=
  ((mountEnters (mountText p) (mountRegex p) (keysOf p) req).bind
    (enters method (routeRegex r) (keysOf r.segments) isError)).map Exchange.params

/-- What it sees when the joined pattern is registered. -/
def directParams (p : List Piece) (r : RoutePattern) (method : Text) (isError : Bool)
    (req : Exchange) : Option (Assoc Text Text) :=
  (enters method (joinedRegex p r) (keysOf (p ++ r.segments)) isError req).map Exchange.params

theorem toList_map_inj {α β γ : Type} (f : α → γ) (g : β → γ) (o : Option α) (o' : Option β) :
    o.toList.map f = o'.toList.map g ↔ o.map f = o'.map g := by
  cases o <;> cases o' <;> simp

theorem composes_iff_of_compiled {p : List Piece} {r : RoutePattern} {outer inner whole : PathRegex}
    {outerKeys innerKeys wholeKeys : List Text}
    (mount : compilePath (mountText p) false = some (outer, outerKeys))
    (routed : compilePath r.text true = some (inner, innerKeys))
    (direct : compilePath (joined p r) true = some (whole, wholeKeys)) :
    Composes p r ↔ ∀ method isError req,
      ((mountEnters (mountText p) outer outerKeys req).bind
          (enters method inner innerKeys isError)).map Exchange.params
        = (enters method whole wholeKeys isError req).map Exchange.params := by
  have mountedIs : ∀ method isError, mountedApp p r method isError
      = some [.router (mountText p) outer outerKeys
          [.handler (some method) inner innerKeys isError 0]] := by
    intro method isError
    simp [mountedApp, route, useRouter, routed, mount]
  have directIs : ∀ method isError, directApp p r method isError
      = some [.handler (some method) whole wholeKeys isError 0] := by
    intro method isError
    simp [directApp, route, direct]
  have calls : ∀ (behave : Nat → Exchange → Behaviour) method isError later req,
      AllLack 0 later →
      (paramsOf 0 (dispatch behave (.router (mountText p) outer outerKeys
            [.handler (some method) inner innerKeys isError 0] :: later) req).calls
        = paramsOf 0 (dispatch behave (.handler (some method) whole wholeKeys isError 0 :: later)
            req).calls ↔
      ((mountEnters (mountText p) outer outerKeys req).bind
          (enters method inner innerKeys isError)).map Exchange.params
        = (enters method whole wholeKeys isError req).map Exchange.params) := by
    intro behave method isError later req lacks
    rw [dispatch, paramsOf_router behave _ _ _ _ _ _ _ lacks, dispatch,
      paramsOf_handler behave _ _ _ _ lacks, toList_map_inj]
  constructor
  · intro composes method isError req
    rcases composes method isError with ⟨missing, -⟩ | ⟨mounted, direct, mountedIs', directIs', same⟩
    · rw [mountedIs] at missing
      cases missing
    · rw [mountedIs, Option.some.injEq] at mountedIs'
      rw [directIs, Option.some.injEq] at directIs'
      subst mountedIs' directIs'
      have empty : AllLack 0 [] := by simp [AllLack]
      exact (calls (fun _ _ => ⟨false, false, .takes⟩) method isError [] req empty).mp
        (same _ [] req empty).1
  · intro same method isError
    refine .inr ⟨_, _, mountedIs method isError, directIs method isError, ?_⟩
    intro behave later req lacks
    exact ⟨(calls behave method isError later req lacks).mpr (same method isError req),
      path_of_call behave _ 0 false req⟩

theorem composes_iff_params {p : List Piece} {r : RoutePattern} (starless : Starless p)
    (starless' : Starless r.segments) :
    Composes p r ↔ ∀ method isError req,
      mountedParams p r method isError req = directParams p r method isError req :=
  composes_iff_of_compiled (compilePath_mountText starless) (compilePath_routeText starless')
    (compilePath_joined starless starless')

/-! ## Slices -/

theorem slice_zero (t : Text) : slice 0 t = t := by cases t <;> rfl

theorem slice_append (t u : Text) (n : Nat) :
    slice (unitLength t + n) (t ++ u) = slice n u := by
  induction t with
  | nil => simp [unitLength]
  | cons c t ih =>
    have units : 1 ≤ unitsOf c := by
      rw [unitsOf]
      split <;> omega
    have total : unitLength (c :: t) + n = unitsOf c + (unitLength t + n) := by
      simp [unitLength, Nat.add_assoc]
    rw [total, List.cons_append, slice, if_neg (by omega), if_pos (by omega), ← ih]
    congr 1
    omega

theorem slice_eq_nil {t : Text} {n : Nat} (enough : unitLength t ≤ n) : slice n t = [] := by
  obtain ⟨more, rfl⟩ := Nat.exists_eq_add_of_le enough
  have cut := slice_append t [] more
  rw [List.append_nil] at cut
  rw [cut, slice]

theorem slice_run {n k : Nat} (inside : k < n) (t : Text) :
    (slice k (List.replicate n 'a' ++ t)).head? = some 'a' := by
  obtain ⟨more, rfl⟩ := Nat.exists_eq_add_of_le inside
  have run : List.replicate (k + 1 + more) 'a' ++ t
      = List.replicate k 'a' ++ 'a' :: (List.replicate more 'a' ++ t) := by
    rw [Nat.add_assoc, List.replicate_add, Nat.add_comm 1 more, List.replicate_succ,
      List.append_assoc, List.cons_append]
  have length : unitLength (List.replicate k 'a') = k := by
    simp [unitLength, unitsOf]
  have cut := slice_append (List.replicate k 'a') ('a' :: (List.replicate more 'a' ++ t)) 0
  rw [length, Nat.add_zero, slice_zero] at cut
  rw [run, cut]
  rfl

theorem unitLength_append (t u : Text) : unitLength (t ++ u) = unitLength t + unitLength u := by
  simp [unitLength]

/-! ## Mount paths of words -/

theorem keysOf_words {p : List Piece} (words : ∀ s ∈ p, s.isWord = true) : keysOf p = [] := by
  rw [keysOf, List.flatMap_eq_nil_iff]
  intro s member
  cases s with
  | word w => rfl
  | param name noSlash => exact absurd (words _ member) (by simp [Piece.isWord])

/-- The parts of a route with a segment match only what starts with a slash, and more than it. -/
theorem matchParts_start {segments : List Piece} (nonempty : segments ≠ []) {whole : Bool}
    {l : List Part} {t : Text} (start : ¬∃ c u, t = '/' :: c :: u) :
    matchParts whole (partsOf segments ++ l) t = none := by
  obtain ⟨s, rest, rfl⟩ := List.exists_cons_of_ne_nil nonempty
  have parts : partsOf (s :: rest) ++ l = .text ['/'] :: s.part :: (partsOf rest ++ l) := rfl
  rw [parts, matchParts]
  split
  · rename_i slash
    rw [List.isPrefixOf_iff_prefix] at slash
    obtain ⟨u, rfl⟩ := slash
    cases u with
    | cons c u => exact absurd ⟨c, u, rfl⟩ start
    | nil =>
      cases s with
      | word w =>
        obtain ⟨c, text, shape, -⟩ := Piece.text_cons (.word w)
        rw [Piece.text] at shape
        simp [Piece.part, matchParts, shape]
      | param name noSlash => simp [Piece.part, matchParts, longest]
  · rfl

theorem enters_path (method : Text) (regex : PathRegex) (keys : List Text) (isError : Bool)
    (req : Exchange) (path : Text) :
    (enters method regex keys isError { req with path := path }).map Exchange.params
      = if method ≠ req.method then none
        else (regex.exec path).bind fun captured =>
          match assignParams (keys.zip captured) req with
          | (req, true) => if isError then none else some req.params
          | (_, false) => none := by
  have assigned : ∀ (l : List (Text × Text)) (req : Exchange),
      assignParams l { req with path := path }
        = ({ (assignParams l req).1 with path := path }, (assignParams l req).2) := by
    intro l
    induction l with
    | nil => intro req; rfl
    | cons pair l ih =>
      intro req
      rw [assignParams, assignParams]
      cases decodeURIComponent pair.2 with
      | none => rfl
      | some decoded => exact ih { req with params := req.params.set pair.1 decoded }
  rw [enters]
  split
  · rfl
  · dsimp only
    cases regex.exec path with
    | none => rfl
    | some captured =>
      simp only [Option.bind_some, assigned]
      rcases assignParams (keys.zip captured) req with ⟨after, _ | _⟩
      · rfl
      · cases isError <;> rfl

/-- Behind words without stars, both see the rest of the path if it starts with a slash. Otherwise the
joined pattern does not match, and the router sees `/` at most. -/
theorem params_words {p : List Piece} (mounted : p ≠ []) (words : ∀ s ∈ p, s.isWord = true)
    {later : List Part} (root : matchParts true (.text ['/'] :: later) ['/'] = none)
    (keys : List Text) (method : Text) (isError : Bool) (req : Exchange) :
    ((mountEnters (mountText p) (.parts (partsOf p) false) [] req).bind
        (enters method (.parts (.text ['/'] :: later) true) keys isError)).map Exchange.params
      = (enters method (.parts (partsOf p ++ .text ['/'] :: later) true) keys isError req).map
          Exchange.params := by
  have text : mountText p = slashed p := by simp [mountText, mounted]
  have direct := enters_path method (.parts (partsOf p ++ .text ['/'] :: later) true) keys isError req
    req.path
  rw [direct, mountEnters, text, PathRegex.exec, PathRegex.exec, matchParts_words words,
    ← List.append_nil (partsOf p), matchParts_words words]
  by_cases front : (slashed p).isPrefixOf req.path = true
  · obtain ⟨rest, path⟩ := List.isPrefixOf_iff_prefix.mp front
    have cut : slice (unitLength (slashed p)) (slashed p ++ rest) = rest := by
      rw [← Nat.add_zero (unitLength _), slice_append, slice_zero]
    have always : (slashed p).isPrefixOf (slashed p ++ rest) = true :=
      List.isPrefixOf_iff_prefix.mpr (List.prefix_append _ _)
    simp only [← path, always, if_true, List.drop_left]
    cases rest with
    | nil =>
      have suffix : matchParts false [] [] = some [] := rfl
      have stripped : strippedPath (slashed p) (slashed p ++ []) = ['/'] := by
        rw [strippedPath, cut]
        rfl
      have missing : matchParts true (.text ['/'] :: later) [] = none := rfl
      simp only [suffix, Option.bind_some, List.zip_nil_left, assignParams, stripped]
      rw [enters_path, PathRegex.exec, root, missing]
    | cons c rest =>
      by_cases slash : c = '/'
      · subst slash
        have suffix : matchParts false [] ('/' :: rest) = some [] := rfl
        have stripped : strippedPath (slashed p) (slashed p ++ '/' :: rest) = '/' :: rest := by
          rw [strippedPath, cut]
          rfl
        simp only [suffix, Option.bind_some, List.zip_nil_left, assignParams, stripped]
        rw [enters_path]
        rfl
      · have suffix : matchParts false [] (c :: rest) = none := by
          simp [matchParts, matchSuffix, slash]
        have missing : matchParts true (.text ['/'] :: later) (c :: rest) = none := by
          simp [matchParts, Ne.symm slash]
        simp [suffix, missing]
  · simp [front]

/-- What is composable composes. -/
theorem composes_of_composable {p : List Piece} {r : RoutePattern} (composable : Composable p r) :
    Composes p r := by
  rcases composable with fails | ⟨mounted, words, starless, ⟨first, later, own, plain⟩, root⟩
  · exact composes_of_fails fails
  · have nonempty : r.segments ≠ [] := by simp [own]
    have text : r.text = slashed r.segments ++ if r.star then ['/', '*'] else [] := by
      simp [RoutePattern.text, nonempty]
    have routed := compilePath_pieces nonempty r.star true
    rw [← text] at routed
    cases compiled : r.segments.mapM Piece.parts with
    | none =>
      rw [compiled] at routed
      exact composes_of_fails (.inr routed)
    | some parts =>
      rw [compiled, Option.map_some] at routed
      obtain ⟨own', more, rfl, headed⟩ : ∃ own' more, parts = own' :: more ∧
          first.parts = some own' := by
        rw [own, List.mapM_cons] at compiled
        cases head : first.parts with
        | none => simp [head] at compiled
        | some own' =>
          cases rest : later.mapM Piece.parts with
          | none => simp [head, rest] at compiled
          | some more =>
            exact ⟨own', more, by simpa [head, rest] using compiled.symm, rfl⟩
      obtain ⟨tail, rfl⟩ := parts_slash plain headed
      obtain ⟨outerParts, outerCompiled, flat⟩ := parts_starless starless
      have shape : ((.text ['/'] :: tail) :: more).flatten ++ starParts r.star
          = .text ['/'] :: (tail ++ more.flatten ++ starParts r.star) := by
        simp
      rw [shape] at routed
      have direct : compilePath (joined p r) true = some (.parts (partsOf p ++
          .text ['/'] :: (tail ++ more.flatten ++ starParts r.star)) true, keysOf (p ++ r.segments)) := by
        rw [joined_text mounted nonempty, compilePath_pieces (by simp [mounted]), List.mapM_append,
          outerCompiled, compiled]
        simp [← flat]
      have mount := compilePath_mountText starless
      have outer : mountRegex p = .parts (partsOf p) false := by simp [mountRegex, mounted]
      have keys : keysOf (p ++ r.segments) = keysOf r.segments := by
        rw [keysOf_append, keysOf_words words, List.nil_append]
      rw [outer, keysOf_words words] at mount
      rw [keys] at direct
      rw [composes_iff_of_compiled mount routed direct]
      exact params_words mounted words (root _ _ routed) (keysOf r.segments)

/-! ## Requests that tell the two apart -/

/-- A request for the path. -/
def requestFor (path : Text) : Exchange := ⟨[], path, .empty, false, false⟩

theorem assignParams_plain {l : List (Text × Text)} (plain : ∀ pair ∈ l, '%' ∉ pair.2)
    (req : Exchange) : (assignParams l req).2 = true := by
  induction l generalizing req with
  | nil => rfl
  | cons pair l ih =>
    rw [assignParams, decodeURIComponent_plain (plain pair List.mem_cons_self)]
    exact ih (fun other member => plain other (List.mem_cons_of_mem _ member)) _

theorem assignParams_captured {captured : List Text} (plain : ∀ t ∈ captured, '%' ∉ t)
    (keys : List Text) (req : Exchange) :
    ∃ after, assignParams (keys.zip captured) req = (after, true) := by
  have values : ∀ pair ∈ keys.zip captured, '%' ∉ pair.2 := by
    intro pair member
    exact plain pair.2 (List.of_mem_zip member).2
  have flag := assignParams_plain values req
  exact ⟨(assignParams (keys.zip captured) req).1, Prod.ext rfl flag⟩

theorem method_assignParams (l : List (Text × Text)) (req : Exchange) :
    (assignParams l req).1.method = req.method := by
  induction l generalizing req with
  | nil => rfl
  | cons pair l ih =>
    rw [assignParams]
    cases decodeURIComponent pair.2 with
    | none => rfl
    | some decoded => exact ih _

theorem direct_isSome {p : List Piece} {r : RoutePattern} {path : Text} {captured : List Text}
    (found : (joinedRegex p r).exec path = some captured) (plain : ∀ t ∈ captured, '%' ∉ t) :
    (directParams p r [] false (requestFor path)).isSome := by
  obtain ⟨after, assigned⟩ :=
    assignParams_captured plain (keysOf (p ++ r.segments)) (requestFor path)
  simp [directParams, enters, requestFor, found] at assigned ⊢
  simp [assigned]

theorem direct_eq_none {p : List Piece} {r : RoutePattern} {path : Text}
    (missing : (joinedRegex p r).exec path = none) :
    directParams p r [] false (requestFor path) = none := by
  simp [directParams, enters, requestFor, missing]

theorem mounted_isSome {p : List Piece} {r : RoutePattern} {path : Text} {captured : List Text}
    (found : (mountRegex p).exec path = some captured) (plain : ∀ t ∈ captured, '%' ∉ t)
    (inner : (routeRegex r).exec (strippedPath (mountText p) path) = some []) :
    (mountedParams p r [] false (requestFor path)).isSome := by
  obtain ⟨after, assigned⟩ := assignParams_captured plain (keysOf p) (requestFor path)
  have method := method_assignParams ((keysOf p).zip captured) (requestFor path)
  rw [assigned] at method
  replace method : after.method = [] := method
  simp only [mountedParams, mountEnters, requestFor] at assigned ⊢
  simp [found, assigned, enters, method, inner, assignParams]

theorem mounted_eq_none {p : List Piece} {r : RoutePattern} {path : Text}
    (missing : (mountRegex p).exec path = none ∨
      (routeRegex r).exec (strippedPath (mountText p) path) = none) :
    mountedParams p r [] false (requestFor path) = none := by
  rw [mountedParams, mountEnters]
  rcases missing with outer | inner
  · rw [requestFor, outer]
    rfl
  · rw [requestFor]
    cases (mountRegex p).exec path with
    | none => rfl
    | some captured =>
      rcases result : assignParams ((keysOf p).zip captured) ⟨[], path, .empty, false, false⟩
        with ⟨after, _ | _⟩
      · simp [result]
      · simp [result, enters, inner]

theorem mem_fillValues {value t : Text} {segments : List Piece}
    (member : t ∈ fillValues value segments) : t = value := by
  rw [fillValues, List.mem_filterMap] at member
  obtain ⟨s, -, found⟩ := member
  split at found
  · cases found
  · exact (Option.some.inj found).symm

/-- A value of one character is never longer than the parameter's name. -/
theorem unitLength_fill (segments : List Piece) :
    unitLength (fill ['a'] segments) ≤ unitLength (slashed segments) := by
  induction segments with
  | nil => exact Nat.le_refl 0
  | cons s segments ih =>
    have left : fill ['a'] (s :: segments)
        = ('/' :: if s.isWord then s.text else ['a']) ++ fill ['a'] segments := rfl
    have right : slashed (s :: segments) = ('/' :: s.text) ++ slashed segments := rfl
    have own : unitLength ('/' :: if s.isWord then s.text else ['a'])
        ≤ unitLength ('/' :: s.text) := by
      cases s with
      | word w => exact Nat.le_refl _
      | param name noSlash =>
        simp [unitLength, Piece.isWord, Piece.text, unitsOf]
        omega
    rw [left, right, unitLength_append, unitLength_append]
    exact Nat.add_le_add own ih

/-- A route without a segment of its own answers the mount path itself, or a path without a
slash. -/
theorem params_no_segment (p : List Piece) {r : RoutePattern} (empty : r.segments = []) :
    ∃ path, mountedParams p r [] false (requestFor path)
      ≠ directParams p r [] false (requestFor path) := by
  rcases r with ⟨segments, star⟩
  subst empty
  cases p with
  | nil =>
    cases star with
    | false => exact ⟨['/', '/'], by decide⟩
    | true => exact ⟨['a'], by decide⟩
  | cons s p =>
    refine ⟨fill ['a'] (s :: p), ?_⟩
    have outer : matchParts false (partsOf (s :: p) ++ []) (fill ['a'] (s :: p) ++ [])
        = (matchParts false [] []).map (fillValues ['a'] (s :: p) ++ ·) :=
      matchParts_fill (s :: p) (by decide) (by decide) rfl (.inl rfl)
    rw [List.append_nil, List.append_nil] at outer
    have found : (mountRegex (s :: p)).exec (fill ['a'] (s :: p))
        = some (fillValues ['a'] (s :: p) ++ []) := outer
    have plain : ∀ t ∈ fillValues ['a'] (s :: p) ++ [], '%' ∉ t := by
      intro t member
      rw [List.append_nil] at member
      rw [mem_fillValues member]
      decide
    have stripped : strippedPath (mountText (s :: p)) (fill ['a'] (s :: p)) = ['/'] := by
      have cut : slice (unitLength (mountText (s :: p))) (fill ['a'] (s :: p)) = [] :=
        slice_eq_nil (unitLength_fill (s :: p))
      rw [strippedPath, cut]
      rfl
    have inner : (routeRegex ⟨[], star⟩).exec
        (strippedPath (mountText (s :: p)) (fill ['a'] (s :: p))) = some [] := by
      rw [stripped]
      cases star <;> rfl
    have missing : (joinedRegex (s :: p) ⟨[], star⟩).exec (fill ['a'] (s :: p)) = none := by
      obtain ⟨l, parts⟩ : ∃ l : List Part,
          (if star then [.text ['/'], .rest] else [.text ['/']]) = l := ⟨_, rfl⟩
      have direct : matchParts true (partsOf (s :: p) ++ l) (fill ['a'] (s :: p) ++ [])
          = (matchParts true l []).map (fillValues ['a'] (s :: p) ++ ·) :=
        matchParts_fill (s :: p) (by decide) (by decide) rfl (.inl rfl)
      have fails : matchParts true l [] = none := by
        rw [← parts]
        cases star <;> rfl
      rw [fails, List.append_nil, ← parts] at direct
      cases star with
      | false => exact direct
      | true =>
        rw [joinedRegex]
        simp only [List.isEmpty_cons, Bool.false_eq_true, if_false, List.append_nil, starParts,
          if_true, Bool.not_true, Bool.and_false]
        exact direct
    rw [direct_eq_none missing]
    exact Option.isSome_iff_ne_none.mp (mounted_isSome found plain inner)

/-- What comes after the filled-in segments of a route. -/
def starText (star : Bool) : Text := if star then ['/'] else []

/-- The joined pattern matches what fills it in. -/
theorem direct_fill (p : List Piece) {r : RoutePattern} (nonempty : r.segments ≠ [])
    {value : Text} (noSlash : '/' ∉ value) (filled : value ≠ []) (plain : '%' ∉ value) :
    (directParams p r [] false
      (requestFor (fill value (p ++ r.segments) ++ starText r.star))).isSome := by
  have rest : matchParts true (starParts r.star) (starText r.star) = some [] := by
    cases r.star <;> rfl
  have boundary : (starText r.star).head?.all (· = '/') := by
    cases r.star <;> rfl
  have regex : joinedRegex p r
      = .parts (partsOf (p ++ r.segments) ++ starParts r.star) true := by
    cases p with
    | nil => simp [joinedRegex, routeRegex, nonempty]
    | cons s p => simp [joinedRegex, nonempty]
  have found := matchParts_fill (p ++ r.segments) noSlash filled boundary
    (.inr (by rw [rest]; rfl))
  rw [rest, Option.map_some] at found
  rw [← PathRegex.exec, ← regex] at found
  apply direct_isSome found
  intro t member
  rw [List.append_nil] at member
  rw [mem_fillValues member]
  exact plain

/-- Mounted at the root, the router sees paths without their slash. -/
theorem params_root {r : RoutePattern} (nonempty : r.segments ≠ []) :
    ∃ path, mountedParams [] r [] false (requestFor path)
      ≠ directParams [] r [] false (requestFor path) := by
  refine ⟨fill ['a'] ([] ++ r.segments) ++ starText r.star, ?_⟩
  have direct : (directParams [] r [] false
      (requestFor (fill ['a'] ([] ++ r.segments) ++ starText r.star))).isSome :=
    direct_fill [] nonempty (by decide) (by decide) (by decide)
  obtain ⟨s, rest, segments⟩ := List.exists_cons_of_ne_nil nonempty
  obtain ⟨c, u, head, other⟩ : ∃ c u, (if s.isWord then s.text else ['a']) = c :: u ∧ c ≠ '/' := by
    cases s with
    | word w => exact Piece.text_cons (.word w)
    | param name noSlash => exact ⟨'a', [], rfl, by decide⟩
  have shape : ∃ v, fill ['a'] ([] ++ r.segments) ++ starText r.star = '/' :: c :: v := by
    refine ⟨u ++ fill ['a'] rest ++ starText r.star, ?_⟩
    rw [segments, List.nil_append, fill, List.flatMap_cons, head]
    rfl
  obtain ⟨v, shape⟩ := shape
  have stripped : strippedPath (mountText []) ('/' :: c :: v) = c :: v := by
    have cut := slice_append ['/'] (c :: v) 0
    rw [slice_zero] at cut
    rw [strippedPath]
    have same : slice (unitLength (mountText [])) ('/' :: c :: v) = c :: v := cut
    rw [same]
    rfl
  have regex : routeRegex r = .parts (partsOf r.segments ++ starParts r.star) true := by
    simp [routeRegex, nonempty]
  have missing : (routeRegex r).exec (strippedPath (mountText []) ('/' :: c :: v)) = none := by
    rw [stripped, regex]
    apply matchParts_start nonempty
    rintro ⟨d, w, same⟩
    exact other (List.cons.inj same).1
  rw [shape] at direct ⊢
  rw [mounted_eq_none (.inr missing)]
  exact (Option.isSome_iff_ne_none.mp direct).symm

theorem exists_first_param {p : List Piece} (param : ¬∀ s ∈ p, s.isWord = true) :
    ∃ q name noSlash rest, p = q ++ .param name noSlash :: rest ∧ ∀ s ∈ q, s.isWord = true := by
  induction p with
  | nil => simp at param
  | cons s p ih =>
    cases s with
    | param name noSlash => exact ⟨[], name, noSlash, p, rfl, by simp⟩
    | word w =>
      have later : ¬∀ s ∈ p, s.isWord = true := by
        intro all
        apply param
        intro s member
        rcases List.mem_cons.mp member with rfl | member
        · rfl
        · exact all s member
      obtain ⟨q, name, noSlash, rest, rfl, words⟩ := ih later
      refine ⟨.word w :: q, name, noSlash, rest, rfl, ?_⟩
      intro s member
      rcases List.mem_cons.mp member with rfl | member
      · rfl
      · exact words s member

theorem fill_words {value : Text} {q : List Piece} (words : ∀ s ∈ q, s.isWord = true) :
    fill value q = slashed q := by
  rw [fill, slashed]
  apply List.flatMap_congr
  intro s member
  rw [if_pos (words s member)]

/-- With a parameter in the mount path, a value longer than the path is cut in the middle. -/
theorem params_param {p : List Piece} {r : RoutePattern} (nonempty : r.segments ≠ [])
    (param : ¬∀ s ∈ p, s.isWord = true) :
    ∃ path, mountedParams p r [] false (requestFor path)
      ≠ directParams p r [] false (requestFor path) := by
  obtain ⟨q, name, noSlash, rest, split, words⟩ := exists_first_param param
  obtain ⟨value, valueIs⟩ : ∃ value, value = List.replicate (unitLength (slashed p) + 1) 'a' :=
    ⟨_, rfl⟩
  have characters : ∀ c ∈ value, c = 'a' := by
    intro c member
    rw [valueIs] at member
    exact List.eq_of_mem_replicate member
  have without : ∀ c, c ≠ 'a' → c ∉ value := fun c other member => other (characters c member)
  have filled : value ≠ [] := by simp [valueIs]
  have direct := direct_fill p nonempty (without '/' (by decide)) filled (without '%' (by decide))
  refine ⟨fill value (p ++ r.segments) ++ starText r.star, ?_⟩
  obtain ⟨tail, shape⟩ : ∃ tail, fill value (p ++ r.segments) ++ starText r.star
      = (slashed q ++ ['/']) ++ (value ++ tail) := by
    refine ⟨fill value (rest ++ r.segments) ++ starText r.star, ?_⟩
    rw [← @fill_words value q words, split]
    simp [fill, Piece.isWord]
  have mount : mountText p = slashed p := by
    rw [mountText, split]
    simp
  have length : unitLength (slashed p) = unitLength (slashed q ++ ['/'])
      + unitLength (':' :: name ++ slashed rest) := by
    rw [← unitLength_append, split, slashed_append]
    simp [slashed, Piece.text]
  have start : (strippedPath (mountText p) (fill value (p ++ r.segments) ++ starText r.star)).head?
      = some 'a' := by
    have short : unitLength (':' :: name ++ slashed rest) < unitLength (slashed p) + 1 := by omega
    have cut := slice_run short tail
    rw [← valueIs] at cut
    rw [strippedPath, mount, shape, length, slice_append]
    rw [if_neg]
    · exact cut
    · intro nothing
      rw [nothing] at cut
      cases cut
  have regex : routeRegex r = .parts (partsOf r.segments ++ starParts r.star) true := by
    simp [routeRegex, nonempty]
  have missing : (routeRegex r).exec
      (strippedPath (mountText p) (fill value (p ++ r.segments) ++ starText r.star)) = none := by
    rw [regex]
    apply matchParts_start nonempty
    rintro ⟨d, w, same⟩
    rw [same] at start
    cases start
  rw [mounted_eq_none (.inr missing)]
  exact (Option.isSome_iff_ne_none.mp direct).symm

/-! ## The main result -/

/-- Without stars, a route with a segment does not match `/`. -/
theorem routeRegex_root {r : RoutePattern} (own : r.segments ≠ []) :
    (routeRegex r).exec ['/'] = none := by
  rw [routeRegex, if_neg (by simpa using own), PathRegex.exec]
  apply matchParts_start own
  rintro ⟨c, u, same⟩
  cases same

/-- What is composable composes, and where no word has a star in it nothing else does. -/
theorem composes_iff (p : List Piece) (r : RoutePattern) :
    (Composable p r → Composes p r) ∧
      (Starless p ∧ Starless r.segments → (Composes p r ↔ Composable p r)) := by
  refine ⟨composes_of_composable, ?_⟩
  rintro ⟨starless, starless'⟩
  refine ⟨?_, composes_of_composable⟩
  rw [composes_iff_params starless starless']
  intro same
  have told : ¬∃ path, mountedParams p r [] false (requestFor path)
      ≠ directParams p r [] false (requestFor path) := by
    rintro ⟨path, different⟩
    exact different (same [] false (requestFor path))
  have own : r.segments ≠ [] := fun empty => told (params_no_segment p empty)
  have mounted : p ≠ [] := by
    rintro rfl
    exact told (params_root own)
  have words : ∀ s ∈ p, s.isWord = true := by_contra fun param => told (params_param own param)
  refine .inr ⟨mounted, words, starless, ?_, ?_⟩
  · obtain ⟨first, later, segments⟩ := List.exists_cons_of_ne_nil own
    refine ⟨first, later, segments, fun star => ?_⟩
    cases first with
    | param name noSlash => cases star
    | word w =>
      exact starless' w (segments ▸ List.mem_cons_self) (List.mem_of_head? star)
  · intro regex keys routed
    rw [compilePath_routeText starless'] at routed
    cases routed
    exact routeRegex_root own

/-- The route `/foo` of a router mounted at `/` is not found. -/
theorem root_mount_loses_route :
    ¬Composes [] ⟨[.word ⟨"foo".toList, by decide, by decide, by decide, by decide⟩], false⟩ := by
  have starless : Starless [.word ⟨"foo".toList, by decide, by decide, by decide, by decide⟩] := by
    intro w member
    cases List.mem_singleton.mp member
    decide
  rw [composes_iff_params (fun w member => by cases member) starless]
  intro same
  have path := same "GET".toList false ⟨"GET".toList, "/foo".toList, .empty, false, false⟩
  revert path
  decide

end QjsLws.App
