import QjsLws.Form.Decoders
import QjsLws.Url.Proofs.SearchParams
import QjsLws.Misc.Cut

/-!
# The decoders compared

The query, the form data of a body and the `urlencoded` middleware decode the same fields, or fail
on the same texts. `URLSearchParams` gives these fields too where every escape is well formed and no
question mark comes first; malformed escapes, which it copies, make the others fail.
-/

namespace QjsLws.Form

open QjsLws.Misc

/-! ## The two percent decoders -/

section Percent

theorem wellEscaped_cons {c : Char} (plain : c ≠ '%') (t : Text) :
    wellEscaped (c :: t) = wellEscaped t := by
  rw [wellEscaped.eq_def]
  split
  · rename_i same
    exact absurd (List.cons.inj same).1 plain
  · rename_i same
    obtain ⟨rfl, rfl⟩ := List.cons.inj same
    simp [plain]
  · rename_i nil
    cases nil

theorem wellEscaped_percent (a b : Char) (t : Text) :
    wellEscaped ('%' :: a :: b :: t) = (a.isHexDigit && b.isHexDigit && wellEscaped t) := rfl

/-- Cutting at a character that is no part of an escape. -/
theorem wellEscaped_append {c : Char} (plain : c ≠ '%') (digit : c.isHexDigit = false)
    (t u : Text) : wellEscaped (t ++ c :: u) = (wellEscaped t && wellEscaped u) := by
  induction t using wellEscaped.induct with
  | case1 a b rest ih =>
    rw [List.cons_append, List.cons_append, List.cons_append, wellEscaped_percent,
      wellEscaped_percent, ih, Bool.and_assoc (a.isHexDigit && b.isHexDigit)]
  | case2 d rest short ih =>
    by_cases percent : d = '%'
    · subst percent
      match rest, short with
      | [], _ => cases u <;> simp [wellEscaped, digit]
      | [a], _ => simp [wellEscaped, digit]
      | a :: b :: rest, short => exact absurd rfl (short a b rest rfl)
    · rw [List.cons_append, wellEscaped_cons percent, wellEscaped_cons percent, ih]
  | case3 => rw [List.nil_append, wellEscaped_cons plain, wellEscaped, Bool.true_and]

theorem wellEscaped_spaceForPlus (t : Text) :
    wellEscaped (Url.spaceForPlus t) = wellEscaped t := by
  have digit : ∀ c : Char, (if c = '+' then ' ' else c).isHexDigit = c.isHexDigit := by
    intro c
    split
    · rename_i plus
      subst plus
      rfl
    · rfl
  induction t using wellEscaped.induct with
  | case1 a b rest ih =>
    rw [Url.spaceForPlus] at ih ⊢
    rw [List.map_cons, List.map_cons, List.map_cons, if_neg (by decide), wellEscaped_percent,
      wellEscaped_percent, digit, digit, ih]
  | case2 d rest short ih =>
    rw [Url.spaceForPlus] at ih ⊢
    by_cases percent : d = '%'
    · subst percent
      rcases rest with _ | ⟨a, _ | ⟨b, rest⟩⟩
      · rfl
      · simp [wellEscaped]
      · exact absurd rfl (short a b rest rfl)
    · have plain : (if d = '+' then ' ' else d) ≠ '%' := by
        split
        · decide
        · exact percent
      rw [List.map_cons, wellEscaped_cons plain, wellEscaped_cons percent, ih]
  | case3 => rfl

theorem percentDecodeBytes_escape {a b : Char} (first : a.isHexDigit = true)
    (second : b.isHexDigit = true) (t : Text) :
    Url.percentDecodeBytes (utf8 ('%' :: a :: b :: t))
      = UInt8.ofNat (16 * digitOf a + digitOf b) :: Url.percentDecodeBytes (utf8 t) := by
  have value : ∀ c ∈ "0123456789abcdefABCDEF".toList,
      Url.hexValue (UInt8.ofNat c.toNat) = UInt8.ofNat (digitOf c) :=
    forall_mem_of_all (by decide)
  obtain ⟨bytes, digit⟩ := Url.utf8_cons_hex first (b :: t)
  obtain ⟨bytes', digit'⟩ := Url.utf8_cons_hex second t
  have percent : utf8 ('%' :: a :: b :: t) = 0x25 :: utf8 (a :: b :: t) := rfl
  rw [percent, bytes, bytes', Url.percentDecodeBytes, if_pos (by simp [digit, digit']),
    value a (mem_of_isHexDigit first), value b (mem_of_isHexDigit second), UInt8.ofNat_add,
    UInt8.ofNat_mul]
  rfl

theorem percentDecodeBytes_cons {c : Char} (plain : c ≠ '%') (t : Text) :
    Url.percentDecodeBytes (utf8 (c :: t))
      = String.utf8EncodeChar c ++ Url.percentDecodeBytes (utf8 t) := by
  rw [Url.utf8_cons]
  apply Url.percentDecodeBytes_append_of_ne
  intro member
  exact plain (Char.toNat_inj.mp (toNat_of_mem_utf8EncodeChar member (by decide)))

/-- The escaped bytes collected so far are decoded with those that follow. -/
theorem decodeAfter_eq (run : List UInt8) (t : Text) : App.decodeAfter run t
    = if wellEscaped t then
        (decodeUtf8 (run.reverse ++ Url.percentDecodeBytes (utf8 t))).toOption
      else none := by
  induction run, t using App.decodeAfter.induct with
  | case1 run =>
    rw [App.decodeAfter, App.decodeRun]
    simp [wellEscaped, utf8, Url.percentDecodeBytes]
  | case2 run a b rest digits ih =>
    obtain ⟨first, second⟩ := Bool.and_eq_true_iff.mp digits
    rw [App.decodeAfter, if_pos digits, ih, wellEscaped_percent, first, second,
      percentDecodeBytes_escape first second]
    simp
  | case3 run a b rest digits =>
    rw [App.decodeAfter, if_neg digits, wellEscaped_percent]
    simp [digits]
  | case4 run rest short =>
    rcases rest with _ | ⟨a, _ | ⟨b, rest⟩⟩
    · rfl
    · simp [App.decodeAfter, wellEscaped]
    · exact (short a b rest rfl rfl).elim
  | case5 run c rest short plain ih =>
    rw [App.decodeAfter, if_neg plain, ih, wellEscaped_cons plain, percentDecodeBytes_cons plain,
      decodeUtf8_around, App.decodeRun]
    · split
      · rfl
      · simp
    · exact short

/-- `decodeURIComponent` is the lenient decoder where every escape is well formed, and fails
elsewhere. -/
theorem decodeURIComponent_eq (t : Text) : App.decodeURIComponent t
    = if wellEscaped t then (Url.percentDecodeString t).toOption else none := by
  rw [App.decodeURIComponent, decodeAfter_eq, Url.percentDecodeString, Url.toString]
  simp only [List.reverse_nil, List.nil_append]
  cases decodeUtf8 (Url.percentDecodeBytes (utf8 t)) <;> rfl

theorem decodeField_eq (t : Text) : decodeField t
    = if wellEscaped t then (Url.percentDecodeString (Url.spaceForPlus t)).toOption else none := by
  rw [decodeField, decodeURIComponent_eq, wellEscaped_spaceForPlus]

end Percent

/-! ## The fields of a text -/

section Parts

theorem parseFormSequence_toOption (part : Text) : (Url.parseFormSequence part).toOption
    = (Url.percentDecodeString (Url.spaceForPlus (part.takeWhile (· ≠ '=')))).toOption.bind
      fun name => (Url.percentDecodeString
        (Url.spaceForPlus ((part.dropWhile (· ≠ '=')).drop 1))).toOption.map (name, ·) := by
  rw [Url.parseFormSequence]
  cases Url.percentDecodeString (Url.spaceForPlus (part.takeWhile (· ≠ '='))) with
  | error e => rfl
  | ok name =>
    cases Url.percentDecodeString (Url.spaceForPlus ((part.dropWhile (· ≠ '=')).drop 1)) <;> rfl

theorem decodePart_eq (part : Text) : decodePart part
    = if wellEscaped part then (Url.parseFormSequence part).toOption else none := by
  rw [decodePart, parseFormSequence_toOption, decodeField_eq, decodeField_eq]
  by_cases equals : '=' ∈ part
  · obtain ⟨name, value, rfl, absent⟩ := List.eq_append_cons_of_mem equals
    rw [if_pos equals, takeWhile_until absent, dropWhile_until absent, List.drop_one, List.tail_cons,
      wellEscaped_append (by decide) (by decide)]
    cases wellEscaped name <;> cases wellEscaped value <;> simp
  · have empty : Url.percentDecodeString (Url.spaceForPlus []) = .ok [] := by decide
    rw [if_neg equals, takeWhile_whole equals, dropWhile_whole equals, List.drop_nil, empty]
    cases wellEscaped part <;> rfl

/-- The fields that the strict decoders find. -/
def fieldsOf (text : Text) : Option (List Url.Param) :=
  ((split '&' text).filter (· ≠ [])).mapM decodePart

theorem foldlM_map {σ α β : Type} (f : α → Option β) (g : σ → β → σ) (l : List α) : ∀ out,
    l.foldlM (fun out a => (f a).map (g out)) out = (l.mapM f).map (·.foldl g out) := by
  induction l with
  | nil => intro out; rfl
  | cons a l ih =>
    intro out
    rw [List.foldlM_cons, List.mapM_cons]
    cases f a with
    | none => rfl
    | some b =>
      have rest := ih (g out b)
      cases all : l.mapM f with
      | none => rw [all] at rest; exact rest
      | some bs => rw [all] at rest; exact rest

theorem collectFields_eq {σ : Type} (add : σ → Text → Text → σ) (out : σ) (text : Text) :
    collectFields add out text
      = (fieldsOf text).map (·.foldl (fun out field => add out field.1 field.2) out) :=
  foldlM_map decodePart _ _ out

theorem mapM_cons_map {α β : Type} (f : α → Option β) (a : α) (l : List α) :
    (a :: l).mapM f = (f a).bind fun b => (l.mapM f).map (b :: ·) := by
  rw [List.mapM_cons]
  cases f a with
  | none => rfl
  | some b => cases l.mapM f <;> rfl

theorem mapM_toOption {α β ε : Type} (f : α → Except ε β) (l : List α) :
    (l.mapM f).toOption = l.mapM fun a => (f a).toOption := by
  induction l with
  | nil => rfl
  | cons a l ih =>
    rw [List.mapM_cons, List.mapM_cons, ← ih]
    cases f a with
    | error e => rfl
    | ok b => cases l.mapM f <;> rfl

theorem mapM_checked {α β : Type} (check : α → Bool) (f : α → Option β) (l : List α) :
    (l.mapM fun a => if check a then f a else none)
      = if l.all check then l.mapM f else none := by
  induction l with
  | nil => rfl
  | cons a l ih =>
    rw [List.mapM_cons, List.mapM_cons, ih, List.all_cons]
    cases check a with
    | false => rfl
    | true =>
      cases l.all check with
      | true => rfl
      | false => cases f a <;> rfl

theorem all_split (n : Nat) : ∀ s : Text, s.length ≤ n →
    ((split '&' s).filter (· ≠ [])).all wellEscaped = wellEscaped s := by
  have single : ∀ t : Text, ([t].filter (· ≠ [])).all wellEscaped = wellEscaped t := by
    intro t
    cases t with
    | nil => rfl
    | cons c t => simp
  induction n with
  | zero =>
    intro s short
    obtain rfl := List.length_eq_zero_iff.mp (Nat.le_zero.mp short)
    rfl
  | succ n ih =>
    intro s short
    by_cases cut : '&' ∈ s
    · obtain ⟨t, u, rfl, absent⟩ := List.eq_append_cons_of_mem cut
      rw [List.length_append, List.length_cons] at short
      rw [split_append_cons absent, ← List.singleton_append, List.filter_append, List.all_append,
        single, ih u (by omega), wellEscaped_append (by decide) (by decide)]
    · rw [split_of_not_mem cut, single]

/-- The fields that the lenient decoder finds. -/
def lenient (s : Text) : Option (List Url.Param) :=
  ((split '&' s).filter (· ≠ [])).mapM fun part => (Url.parseFormSequence part).toOption

theorem parseFormURLEncoded_toOption (s : Text) :
    (Url.parseFormURLEncoded s).toOption = lenient s := by
  rw [Url.parseFormURLEncoded, lenient]
  split
  · rename_i empty
    subst empty
    rfl
  · rw [mapM_toOption]

/-- The strict decoders find the fields of `parseFormURLEncoded` where every escape is well
formed. -/
theorem fieldsOf_eq (s : Text) : fieldsOf s = if wellEscaped s then lenient s else none := by
  rw [fieldsOf, funext decodePart_eq, mapM_checked, all_split _ s (Nat.le_refl _), lenient]

end Parts

/-! ## The strict decoders -/

section Strict

theorem multimap_addField (out : Fields) (k v : Text) :
    (addField out k v).multimap = out.multimap.append k v := by
  funext k'
  rw [addField]
  by_cases same : k' = k
  · subst same
    rw [Multimap.append_self]
    cases held : out.get k' <;> simp [Fields.multimap, held, FieldValue.values]
  · rw [Multimap.append_of_ne _ same]
    cases out.get k <;> simp [Fields.multimap, Assoc.get_set_ne _ _ (Ne.symm same)]

theorem ofPairs_cons (field : Url.Param) (fields : List Url.Param) (k : Text) :
    Multimap.ofPairs (field :: fields) k
      = if field.1 = k then field.2 :: Multimap.ofPairs fields k else Multimap.ofPairs fields k := by
  by_cases same : field.1 = k <;> simp [Multimap.ofPairs, same]

theorem multimap_foldl (fields : List Url.Param) : ∀ out : Fields,
    (fields.foldl (fun out field => addField out field.1 field.2) out).multimap
      = fun k => out.multimap k ++ Multimap.ofPairs fields k := by
  induction fields with
  | nil =>
    intro out
    simp [Multimap.ofPairs]
  | cons field fields ih =>
    intro out
    rw [List.foldl_cons, ih, multimap_addField]
    funext k
    rw [ofPairs_cons]
    by_cases same : field.1 = k
    · subst same
      simp
    · rw [Multimap.append_of_ne _ (Ne.symm same), if_neg same]

theorem collectFields_object (text : Text) :
    (collectFields addField .empty text).map Fields.multimap
      = (fieldsOf text).map Multimap.ofPairs := by
  rw [collectFields_eq, Option.map_map]
  congr 1
  funext fields
  rw [Function.comp_apply, multimap_foldl]
  funext k
  simp [Fields.multimap]

theorem fieldsOf_nil : fieldsOf [] = some [] := rfl

theorem query_eq (line : RequestLine) :
    line.query.map Fields.multimap = (fieldsOf line.args).map Multimap.ofPairs := by
  have plain : '?' ∉ (if line.uri = [] then ['/'] else line.uri) := by
    split
    · decide
    · exact line.noQuery
  rw [RequestLine.query, RequestLine.originalUrl]
  by_cases empty : line.args = []
  · rw [if_pos empty, List.append_nil, if_pos plain, empty, fieldsOf_nil]
    simp only [Option.map_some]
    congr 1
  · rw [if_neg empty, if_neg (by simp), dropWhile_until plain]
    exact collectFields_object line.args

theorem formData_eq {contentType : Text} (plain : isMultipart contentType = false) (text : Text) :
    formData contentType text = fieldsOf text := by
  have entries : ∀ (fields entries : List Url.Param),
      fields.foldl (fun entries field => entries ++ [(field.1, field.2)]) entries
        = entries ++ fields := by
    intro fields
    induction fields with
    | nil => simp
    | cons field fields ih => simp [ih]
  rw [formData, plain, if_neg Bool.false_ne_true]
  split
  · rename_i empty
    rw [empty, fieldsOf_nil]
  · rw [collectFields_eq]
    simp [entries]

theorem urlencoded_eq {limit : Nat} {type : Text → Bool} {contentType text : Text}
    (typed : type contentType = true) (fits : (utf8 text).length ≤ limit) :
    (urlencoded limit type contentType (utf8 text)).body.map Fields.multimap
      = (fieldsOf text).map Multimap.ofPairs := by
  have decoded : Url.toString (utf8 text) = .ok text := by
    rw [Url.toString, decodeUtf8_utf8]
  rw [urlencoded, typed, Bool.not_true, if_neg Bool.false_ne_true, if_neg (by omega), decoded]
  dsimp only
  split
  · rename_i empty
    rw [empty, fieldsOf_nil]
    simp only [Handled.body, Option.map_some]
    congr 1
  · rw [← collectFields_object]
    cases collectFields addField .empty text <;> rfl

end Strict

/-! ## The question mark -/

section Question

theorem decode_question (t : Text) :
    (Url.percentDecodeString (Url.spaceForPlus ('?' :: t))).toOption
      = (Url.percentDecodeString (Url.spaceForPlus t)).toOption.map ('?' :: ·) := by
  have plain : Url.spaceForPlus ('?' :: t) = '?' :: Url.spaceForPlus t := rfl
  have bytes : ∀ bytes, (Url.toString bytes).toOption = (decodeUtf8 bytes).toOption := by
    intro bytes
    rw [Url.toString]
    cases decodeUtf8 bytes <;> rfl
  rw [Url.percentDecodeString, Url.percentDecodeString, bytes, bytes, plain,
    percentDecodeBytes_cons (by decide)]
  have around := decodeUtf8_around [] (Url.percentDecodeBytes (utf8 (Url.spaceForPlus t))) '?'
  rw [List.nil_append] at around
  rw [around]
  rfl

theorem parseFormSequence_question (part : Text) :
    (Url.parseFormSequence ('?' :: part)).toOption
      = (Url.parseFormSequence part).toOption.map fun field => ('?' :: field.1, field.2) := by
  rw [parseFormSequence_toOption, parseFormSequence_toOption, List.takeWhile_cons_of_pos (by simp),
    List.dropWhile_cons_of_pos (by simp), decode_question]
  cases Url.percentDecodeString (Url.spaceForPlus (part.takeWhile (· ≠ '='))) with
  | error e => rfl
  | ok name =>
    cases Url.percentDecodeString (Url.spaceForPlus ((part.dropWhile (· ≠ '=')).drop 1)) <;> rfl

/-- A question mark at the front becomes part of the first name, and of a first field of its own
where there was none. -/
theorem lenient_question (u : Text) : ∃ (front : Option Url.Param) (rest : Option (List Url.Param)),
    lenient ('?' :: u)
        = front.bind (fun field => rest.map (('?' :: field.1, field.2) :: ·)) ∧
      (lenient u = front.bind (fun field => rest.map (field :: ·)) ∨
        front = some ([], []) ∧ lenient u = rest) := by
  cases parts : split '&' u with
  | nil => exact absurd parts (split_ne_nil '&' u)
  | cons part parts' =>
    have more : split '&' ('?' :: u) = ('?' :: part) :: parts' := by
      rw [split, parts]
      simp
    refine ⟨(Url.parseFormSequence part).toOption,
      (parts'.filter (· ≠ [])).mapM fun part => (Url.parseFormSequence part).toOption, ?_, ?_⟩
    · rw [lenient, more, List.filter_cons_of_pos (by simp), mapM_cons_map,
        parseFormSequence_question]
      cases (Url.parseFormSequence part).toOption <;> rfl
    · rw [lenient, parts]
      by_cases empty : part = []
      · subst empty
        exact .inr ⟨by decide, rfl⟩
      · rw [List.filter_cons_of_pos (by simpa using empty), mapM_cons_map]
        exact .inl rfl

/-- The fields differ when the question mark is read as part of the first name. -/
theorem question_differs (u : Text) :
    (lenient u).map Multimap.ofPairs = (fieldsOf ('?' :: u)).map Multimap.ofPairs ↔
      lenient u = none := by
  obtain ⟨front, rest, strict, known⟩ := lenient_question u
  rw [fieldsOf_eq]
  constructor
  · intro same
    cases found : lenient u with
    | none => rfl
    | some fields =>
      rw [found] at same known
      cases escaped : wellEscaped ('?' :: u) with
      | false => simp [escaped] at same
      | true =>
        rw [escaped, if_pos rfl, strict] at same
        cases front with
        | none => simp at same
        | some field =>
          cases rest with
          | none => simp at same
          | some rest =>
            have equal : Multimap.ofPairs fields
                = Multimap.ofPairs (('?' :: field.1, field.2) :: rest) := by simpa using same
            have counts := congrArg List.length (congrFun equal ('?' :: field.1))
            rw [ofPairs_cons, if_pos rfl, List.length_cons] at counts
            have other : field.1 ≠ '?' :: field.1 := fun loop =>
              absurd (congrArg List.length loop) (by simp)
            rcases known with shape | ⟨-, shape⟩
            · obtain rfl : fields = field :: rest := by simpa using shape
              rw [ofPairs_cons, if_neg other] at counts
              omega
            · obtain rfl : fields = rest := by simpa using shape
              omega
  · intro failed
    rw [failed] at known ⊢
    have strictFails : lenient ('?' :: u) = none := by
      rw [strict]
      cases front with
      | none => rfl
      | some field =>
        cases rest with
        | none => rfl
        | some rest => rcases known with shape | ⟨-, shape⟩ <;> cases shape
    rw [strictFails]
    split <;> rfl

end Question

/-! ## The main result -/

/-- The query, the form data and the middleware report the same fields of a text or all fail.
`URLSearchParams` agrees with them exactly when it fails itself, or when no question mark comes
first and every escape is well formed. -/
theorem decoders_agree (line : RequestLine) (limit : Nat) (type : Text → Bool)
    (formType bodyType : Text) (plain : isMultipart formType = false)
    (typed : type bodyType = true) (fits : (utf8 line.args).length ≤ limit) :
    line.query.map Fields.multimap = (formData formType line.args).map Multimap.ofPairs ∧
    (urlencoded limit type bodyType (utf8 line.args)).body.map Fields.multimap
      = (formData formType line.args).map Multimap.ofPairs ∧
    ((searchParams line.args).toOption.map Multimap.ofPairs
        = (formData formType line.args).map Multimap.ofPairs ↔
      (searchParams line.args).toOption = none ∨
        line.args.head? ≠ some '?' ∧ wellEscaped line.args = true) := by
  rw [query_eq, formData_eq plain, urlencoded_eq typed fits]
  refine ⟨rfl, rfl, ?_⟩
  rw [searchParams, parseFormURLEncoded_toOption]
  by_cases question : line.args.head? = some '?'
  · obtain ⟨u, shape⟩ := List.head?_eq_some_iff.mp question
    rw [if_pos question, shape]
    simpa using question_differs u
  · rw [if_neg question, fieldsOf_eq]
    cases wellEscaped line.args with
    | true => simp [question]
    | false => cases lenient line.args <;> simp

/-- `decoders_agree` for `/search?q=1` and the same text in a body. -/
theorem decoders_agree_search :
    isMultipart "application/x-www-form-urlencoded".toList = false ∧
      isForm "application/x-www-form-urlencoded".toList = true ∧
      (utf8 "q=1".toList).length ≤ 1048576 ∧
      ((searchParams "q=1".toList).toOption.map Multimap.ofPairs
          = (formData "application/x-www-form-urlencoded".toList "q=1".toList).map
            Multimap.ofPairs ↔
        (searchParams "q=1".toList).toOption = none ∨
          "q=1".toList.head? ≠ some '?' ∧ wellEscaped "q=1".toList = true) :=
  ⟨by decide, by decide, by decide,
    (decoders_agree ⟨"/search".toList, "q=1".toList, by decide⟩ 1048576 isForm
      "application/x-www-form-urlencoded".toList "application/x-www-form-urlencoded".toList
      (by decide) (by decide) (by decide)).2.2⟩

/-- A malformed escape: `URLSearchParams` copies it and the other three fail. -/
theorem malformed_escape_differs :
    (searchParams "a=%zz".toList).toOption = some [("a".toList, "%zz".toList)] ∧
      (RequestLine.mk "/".toList "a=%zz".toList (by decide)).query = none ∧
      formData [] "a=%zz".toList = none ∧
      (urlencoded 1048576 isForm "application/x-www-form-urlencoded".toList
        (utf8 "a=%zz".toList)).body = none ∧
      ¬(searchParams "a=%zz".toList).toOption.map Multimap.ofPairs
        = (formData [] "a=%zz".toList).map Multimap.ofPairs := by
  have lenient : (searchParams "a=%zz".toList).toOption = some [("a".toList, "%zz".toList)] := by
    decide
  have strict : formData [] "a=%zz".toList = none := by decide
  refine ⟨lenient, by decide, strict, by decide, ?_⟩
  rw [lenient, strict]
  rintro ⟨⟩

end QjsLws.Form
