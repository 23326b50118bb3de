import QjsLws.Client.CookieJar
import QjsLws.Misc.Cut

/-!
# The cookies of `fetch`, proofs

The folded header is cut at almost every comma. Plain values are found again, and of silent ones nothing
is stored (`foldl_splitFolded`). The map of a history is then that of all hosts together.
-/

namespace QjsLws.Client

open QjsLws.Misc QjsLws.Http

namespace JarHistory

/-! ## The folded header -/

section Folded

variable {u w t part : Text} {after : List Text} {b : Bool}

theorem splitFolded_ne_nil (t : Text) : splitFolded t ≠ [] := by
  induction t with
  | nil => exact List.cons_ne_nil _ _
  | cons c t ih =>
    rw [splitFolded]
    cases parts : splitFolded t with
    | nil => exact absurd parts ih
    | cons part rest =>
      dsimp only
      split <;> exact List.cons_ne_nil _ _

/-- Text without commas stays in one piece. -/
theorem splitFolded_plain (absent : ',' ∉ u) (base : splitFolded w = part :: after) :
    splitFolded (u ++ w) = (u ++ part) :: after := by
  induction u with
  | nil => exact base
  | cons c u ih =>
    rw [List.mem_cons, not_or] at absent
    rw [List.cons_append, splitFolded, ih absent.2]
    dsimp only
    rw [if_neg fun comma => absent.1 comma.1.symm]
    rfl

/-- What follows a comma and a space is cut off. -/
theorem splitFolded_comma (rest : Text) :
    splitFolded (',' :: ' ' :: rest) = [] :: splitFolded (' ' :: rest) := by
  rw [splitFolded]
  cases parts : splitFolded (' ' :: rest) with
  | nil => exact absurd parts (splitFolded_ne_nil _)
  | cons part after =>
    dsimp only
    rw [if_pos ⟨rfl, rfl⟩]

/-- Silent text, in the first part of which a `;` may have been seen already. -/
def silentFrom : Bool → Text → Bool
  | _, [] => true
  | b, c :: t =>
    if c = ',' then silentFrom false t
    else if c = ';' then silentFrom true t
    else if c = '=' then b && silentFrom b t
    else silentFrom b t

theorem firstSegment_cons {c : Char} (other : c ≠ ';') (t : Text) :
    firstSegment (c :: t) = c :: firstSegment t := by
  rw [firstSegment, List.takeWhile_cons_of_pos (by simpa using other)]
  rfl

theorem firstSegment_semicolon (t : Text) : firstSegment (';' :: t) = [] :=
  List.takeWhile_cons_of_neg (by decide)

theorem silentFrom_iff (t : Text) : ∀ b, silentFrom b t = true ↔
    (b = true ∨ '=' ∉ firstSegment ((split ',' t).headD [])) ∧
      ∀ part ∈ (split ',' t).tail, '=' ∉ firstSegment part := by
  induction t with
  | nil => simp [silentFrom, split, firstSegment]
  | cons c t ih =>
    intro b
    cases parts : split ',' t with
    | nil => exact absurd parts (split_ne_nil _ _)
    | cons part rest =>
      simp only [parts, List.headD_cons, List.tail_cons] at ih
      rw [silentFrom, split, parts]
      dsimp only
      by_cases comma : c = ','
      · rw [if_pos comma, if_pos comma, ih]
        simp [firstSegment]
      · rw [if_neg comma, if_neg comma]
        by_cases semicolon : c = ';'
        · subst semicolon
          rw [if_pos rfl, ih]
          simp [firstSegment_semicolon]
        · rw [if_neg semicolon, List.headD_cons, List.tail_cons, firstSegment_cons semicolon,
            List.mem_cons, not_or]
          by_cases equals : c = '='
          · subst equals
            rw [if_pos rfl, Bool.and_eq_true, ih]
            cases b <;> simp
          · rw [if_neg equals, ih]
            simp [Ne.symm equals]

theorem silent_iff {value : Text} : Silent value ↔ silentFrom false value = true := by
  rw [silentFrom_iff, Silent]
  cases parts : split ',' value with
  | nil => exact absurd parts (split_ne_nil _ _)
  | cons part rest => simp

/-- Silent text names no cookie, however it is cut. -/
theorem splitFolded_silent (base : splitFolded w = [] :: after) : ∀ b, silentFrom b u = true →
    ∃ first others, splitFolded (u ++ w) = first :: others ++ after ∧
      (b = true ∨ '=' ∉ firstSegment first) ∧ ∀ part ∈ others, '=' ∉ firstSegment part := by
  induction u with
  | nil =>
    intro b _
    exact ⟨[], [], base, .inr (by simp [firstSegment]), by simp⟩
  | cons c u ih =>
    intro b silent
    rw [silentFrom] at silent
    rw [List.cons_append, splitFolded]
    by_cases comma : c = ','
    · rw [if_pos comma] at silent
      obtain ⟨first, others, same, front, rest⟩ := ih false silent
      rw [same]
      dsimp only [List.cons_append]
      split
      · exact ⟨[], first :: others, rfl, .inr (by simp [firstSegment]),
          List.forall_mem_cons.mpr ⟨front.resolve_left Bool.false_ne_true, rest⟩⟩
      · refine ⟨c :: first, others, rfl, .inr ?_, rest⟩
        rw [comma, firstSegment_cons (by decide), List.mem_cons, not_or]
        exact ⟨by decide, front.resolve_left Bool.false_ne_true⟩
    · rw [if_neg comma] at silent
      have whole : ¬(c = ',' ∧ startsField (u ++ w) = true) := fun both => comma both.1
      by_cases semicolon : c = ';'
      · rw [if_pos semicolon] at silent
        obtain ⟨first, others, same, -, rest⟩ := ih true silent
        rw [same]
        dsimp only [List.cons_append]
        rw [if_neg whole, semicolon]
        exact ⟨_, others, rfl, .inr (by simp [firstSegment_semicolon]), rest⟩
      · rw [if_neg semicolon] at silent
        by_cases equals : c = '='
        · rw [if_pos equals, Bool.and_eq_true] at silent
          obtain ⟨first, others, same, -, rest⟩ := ih b silent.2
          rw [same]
          dsimp only [List.cons_append]
          rw [if_neg whole]
          exact ⟨_, others, rfl, .inl silent.1, rest⟩
        · rw [if_neg equals] at silent
          obtain ⟨first, others, same, front, rest⟩ := ih b silent
          rw [same]
          dsimp only [List.cons_append]
          rw [if_neg whole]
          refine ⟨_, others, rfl, front.imp_right fun absent => ?_, rest⟩
          rw [firstSegment_cons semicolon, List.mem_cons, not_or]
          exact ⟨Ne.symm equals, absent⟩

end Folded

/-! ## Storing the pieces -/

section Store

variable {jar : Assoc Text Text} {value : Text} {values after : List Text} {w : Text}

theorem foldl_silent {pieces : List Text} (silent : ∀ part ∈ pieces, '=' ∉ firstSegment part) :
    pieces.foldl storeCookie jar = jar := by
  induction pieces with
  | nil => rfl
  | cons part pieces ih =>
    rw [List.foldl_cons, storeCookie, if_neg (silent part List.mem_cons_self)]
    exact ih fun p member => silent p (List.mem_cons_of_mem _ member)

/-- A plain value is stored as its pair. -/
theorem storeCookie_plain (solid : ';' ∉ value) : storeCookie jar value = keep jar value := by
  have whole : firstSegment value = value := takeWhile_whole solid
  rw [storeCookie, keep, cookiePair, whole]
  split <;> rfl

theorem not_mem_of_silentFrom {t : Text} (silent : silentFrom false t = true) :
    '=' ∉ firstSegment t := by
  induction t with
  | nil => simp [firstSegment]
  | cons c t ih =>
    rw [silentFrom] at silent
    by_cases semicolon : c = ';'
    · rw [semicolon, firstSegment_semicolon]
      exact List.not_mem_nil
    · rw [if_neg semicolon] at silent
      rw [firstSegment_cons semicolon, List.mem_cons, not_or]
      split at silent
      · rename_i comma
        exact ⟨by rw [comma]; decide, ih silent⟩
      · split at silent
        · cases silent
        · rename_i other
          exact ⟨Ne.symm other, ih silent⟩

/-- A silent value is no pair. -/
theorem keep_silent (silent : Silent value) : keep jar value = jar := by
  have absent := not_mem_of_silentFrom (silent_iff.mp silent)
  rw [keep, cookiePair, if_neg absent]

/-- A space in front makes no difference. -/
theorem storeCookie_space (h : Text) : storeCookie jar (' ' :: h) = storeCookie jar h := by
  have stripped : ∀ t : Text, strip isStrWhiteSpace (' ' :: t) = strip isStrWhiteSpace t := fun t => by
    rw [strip, List.dropWhile_cons_of_pos (by decide), strip]
  rw [storeCookie, storeCookie, firstSegment_cons (by decide), List.takeWhile_cons_of_pos (by decide),
    List.dropWhile_cons_of_pos (by decide), stripped]
  simp

/-- A value and the space that the folding puts in front of it. -/
def Spaced (value u : Text) : Prop := u = value ∨ u = ' ' :: value

theorem storeCookie_spaced {u : Text} (spaced : Spaced value u) (solid : ';' ∉ value) :
    storeCookie jar u = keep jar value := by
  rcases spaced with rfl | rfl
  · exact storeCookie_plain solid
  · rw [storeCookie_space, storeCookie_plain solid]

theorem not_mem_spaced {u : Text} {c : Char} (spaced : Spaced value u) (visible : c ≠ ' ')
    (absent : c ∉ value) : c ∉ u := by
  rcases spaced with rfl | rfl
  · exact absent
  · rw [List.mem_cons, not_or]
    exact ⟨visible, absent⟩

/-- A value that is followed by a cut. -/
theorem foldl_value {u : Text} (spaced : Spaced value u) (legible : Plain value ∨ Silent value)
    (base : splitFolded w = [] :: after) :
    (splitFolded (u ++ w)).foldl storeCookie jar = after.foldl storeCookie (keep jar value) := by
  rcases legible with plain | silent
  · rw [splitFolded_plain (not_mem_spaced spaced (by decide) plain.2) base, List.append_nil,
      List.foldl_cons, storeCookie_spaced spaced plain.1]
  · have quiet : silentFrom false u = true := by
      rcases spaced with rfl | rfl
      · exact silent_iff.mp silent
      · change silentFrom false value = true
        exact silent_iff.mp silent
    obtain ⟨first, others, same, front, rest⟩ := splitFolded_silent base false quiet
    rw [same, List.foldl_append, keep_silent silent,
      foldl_silent (List.forall_mem_cons.mpr ⟨front.resolve_left Bool.false_ne_true, rest⟩)]

/-- Legible headers are found again in what they are folded to. -/
theorem foldl_splitFolded (first : Text) (values : List Text) : ∀ jar,
    Legible (first :: values) → ∀ u, (u = join ", ".toList (first :: values) ∨
      u = ' ' :: join ", ".toList (first :: values)) →
        (splitFolded u).foldl storeCookie jar = (first :: values).foldl keep jar := by
  induction values generalizing first with
  | nil =>
    intro jar legible u spaced
    rcases legible with plain | silent | ⟨front, rfl, plain⟩
    · have value := @foldl_value jar first [] [] u spaced (.inl plain) rfl
      rwa [List.append_nil] at value
    · have value := @foldl_value jar first [] [] u spaced (.inr silent) rfl
      rwa [List.append_nil] at value
    · have comma : splitFolded [','] = [',' :: []] := rfl
      have solid : ';' ∉ front ++ [','] := by simp [plain.1]
      have whole : splitFolded u = [u] := by
        rcases spaced with rfl | rfl
        · exact splitFolded_plain plain.2 comma
        · exact splitFolded_plain (u := ' ' :: front) (by simp [plain.2]) comma
      rw [whole]
      exact storeCookie_spaced spaced solid
  | cons next values ih =>
    intro jar legible u spaced
    obtain ⟨here, later⟩ := legible
    have rest := ih next (keep jar first) later (' ' :: join ", ".toList (next :: values)) (.inr rfl)
    have shape : ∃ v, Spaced first v ∧ u = v ++ ',' :: ' ' :: join ", ".toList (next :: values) := by
      rcases spaced with rfl | rfl
      · refine ⟨first, .inl rfl, ?_⟩
        rw [join]
        · simp
        · simp
      · refine ⟨' ' :: first, .inr rfl, ?_⟩
        rw [join]
        · simp
        · simp
    obtain ⟨v, front, rfl⟩ := shape
    rw [foldl_value front here (splitFolded_comma _), rest, List.foldl_cons, List.foldl_cons,
      List.foldl_cons]

end Store

/-! ## Histories -/

section Run

variable {history earlier : JarHistory} {host other : Text} {headers : Headers} {jar : Assoc Text Text}

/-- `get` folds what `getSetCookie` lists. -/
theorem get_setCookie (headers : Headers) :
    headers.get setCookie = none ∧ headers.getSetCookie = [] ∨
      headers.get setCookie = some (join ", ".toList headers.getSetCookie) := by
  rw [Headers.get, Headers.getSetCookie]
  cases headers.map.get setCookie with
  | none => exact .inl ⟨rfl, rfl⟩
  | some value =>
    cases value with
    | single value => exact .inr rfl
    | list values => exact .inr rfl

/-- The handler keeps the pairs of legible headers. -/
theorem storeResponse_legible (legible : Legible headers.getSetCookie) :
    storeResponse jar headers = headers.getSetCookie.foldl keep jar := by
  rcases get_setCookie headers with ⟨none, empty⟩ | folded
  · rw [storeResponse, none, empty]
    rfl
  · rw [storeResponse, folded]
    cases list : headers.getSetCookie with
    | nil => rfl
    | cons first values =>
      rw [list] at legible
      have stored := foldl_splitFolded first values jar legible _ (.inl rfl)
      split
      · rename_i no
        cases no
      · rename_i empty
        rw [Option.some.inj empty] at stored
        exact stored
      · rename_i t other same
        rw [← Option.some.inj same]
        exact stored

/-- The pairs received from anyone. -/
def everything : JarHistory → Assoc Text Text
  | [] => .empty
  | .fetch .. :: earlier => everything earlier
  | .response id headers :: earlier =>
    match requestOf id earlier with
    | some (_, true) => headers.getSetCookie.foldl keep (everything earlier)
    | _ => everything earlier

/-- Every event of the history is clean. -/
def AllClean (history : JarHistory) : Prop :=
  ∀ later event earlier, history = later ++ event :: earlier → Clean earlier event

theorem AllClean.tail {event : JarEvent} (clean : AllClean (event :: earlier)) : AllClean earlier := by
  rintro later e before rfl
  exact clean (event :: later) e before rfl

theorem run_eq (clean : AllClean history) : run history = everything history := by
  induction history with
  | nil => rfl
  | cons event earlier ih =>
    have before := ih clean.tail
    cases event with
    | fetch id host credentials => exact before
    | response id headers =>
      rw [run, everything, before]
      cases found : requestOf id earlier with
      | none => rfl
      | some request =>
        obtain ⟨host, credentials⟩ := request
        cases credentials with
        | false => rfl
        | true =>
          have legible : Legible headers.getSetCookie :=
            clean [] (.response id headers) earlier rfl host found
          exact storeResponse_legible legible

/-- A jar is empty only where nothing was kept. -/
theorem of_foldl_keep {values : List Text} (empty : (values.foldl keep jar).entries = []) :
    jar.entries = [] ∧ ∀ jar', values.foldl keep jar' = jar' := by
  induction values generalizing jar with
  | nil => exact ⟨empty, fun _ => rfl⟩
  | cons value values ih =>
    obtain ⟨before, rest⟩ := ih empty
    have filled : ∀ {name v : Text}, (jar.set name v).entries ≠ [] := by
      intro name v none
      have member := Assoc.mem_entries.mpr (Assoc.get_set_self jar name v)
      rw [none] at member
      cases member
    cases pair : cookiePair value with
    | some pair' =>
      rw [keep, pair] at before
      exact absurd before filled
    | none =>
      have kept : ∀ jar', keep jar' value = jar' := fun jar' => by rw [keep, pair]
      rw [kept] at before
      refine ⟨before, fun jar' => ?_⟩
      rw [List.foldl_cons, kept, rest]

/-- Where no other host has sent a cookie, the pairs are the host's own. -/
theorem everything_eq (others : ∀ other, other ≠ host → (received other history).entries = []) :
    everything history = received host history := by
  induction history with
  | nil => rfl
  | cons event earlier ih =>
    cases event with
    | fetch id target credentials => exact ih others
    | response id headers =>
      simp only [received] at others
      rw [everything, received]
      cases found : requestOf id earlier with
      | none =>
        simp only [found, reduceCtorEq, if_false] at others ⊢
        exact ih others
      | some request =>
        obtain ⟨target, credentials⟩ := request
        cases credentials with
        | false =>
          simp only [found, Option.some.injEq, Prod.mk.injEq, Bool.false_eq_true, and_false,
            if_false] at others ⊢
          exact ih others
        | true =>
          simp only [found, Option.some.injEq, Prod.mk.injEq, and_true] at others ⊢
          by_cases same : target = host
          · subst same
            rw [if_pos rfl, ih fun other apart => ?_]
            have unchanged := others other apart
            rwa [if_neg (Ne.symm apart)] at unchanged
          · have none := others target same
            rw [if_pos rfl] at none
            obtain ⟨empty, idle⟩ := of_foldl_keep none
            rw [if_neg same, idle]
            refine ih fun other apart => ?_
            by_cases sender : other = target
            · rw [sender, empty]
            · have unchanged := others other apart
              rwa [if_neg (Ne.symm sender)] at unchanged

/-- In a clean history every request carries what it should. -/
theorem contract_of_clean (history : JarHistory) (clean : AllClean history) : Contract history := by
  rintro later id host earlier rfl
  have before : AllClean earlier := by
    rintro front event before rfl
    exact clean (later ++ .fetch id host true :: front) event before (by simp)
  rw [run_eq before, everything_eq (clean later _ earlier rfl)]

theorem allClean_nil : AllClean [] := by
  intro later event earlier split
  simp at split

theorem AllClean.cons {event : JarEvent} (clean : AllClean earlier) (latest : Clean earlier event) :
    AllClean (event :: earlier) := by
  intro later e before split
  cases later with
  | nil =>
    obtain ⟨rfl, rfl⟩ := List.cons.inj split
    exact latest
  | cons _ later => exact clean later e before (List.cons.inj split).2

/-- Two plain cookies in one response, sent back to their host. -/
theorem contract_two :
    Contract [.fetch 2 "a".toList true,
      .response 1 ⟨Assoc.empty.set setCookie (.list ["x=1".toList, "y=2".toList])⟩,
      .fetch 1 "a".toList true] := by
  apply contract_of_clean
  refine ((allClean_nil.cons ?_).cons ?_).cons ?_
  · exact fun other _ => rfl
  · exact fun host _ => ⟨.inl ⟨by decide, by decide⟩, .inl ⟨by decide, by decide⟩⟩
  · intro other apart
    rw [received, if_neg]
    · rfl
    · intro same
      exact apart (congrArg Prod.fst (Option.some.inj same)).symm

/-- The attributes are sent back with the value. -/
theorem attributes_kept :
    ¬Contract [.fetch 2 "a".toList true,
      .response 1 ⟨Assoc.empty.set setCookie (.list ["x=1; Path=/".toList])⟩,
      .fetch 1 "a".toList true] := by
  intro contract
  have same := contract [] 2 "a".toList _ rfl
  revert same
  decide

end Run

end JarHistory

end QjsLws.Client
