import Mathlib.Data.List.Infix
import QjsLws.Form.BodyParser
import QjsLws.Form.Proofs.Decoders

/-!
# Body parsers, proofs

The status is picked by a word in the message of the error. The message of `readBody` has it and that of
`toString` never does, so what decides is what the parsers make of the other errors (`parser_meets_iff`).
-/

namespace QjsLws.Form

open QjsLws.Misc

/-! ## Messages -/

section Messages

variable {message before after : Text} {limit : Limit} {body : List UInt8}

theorem saysLimit_infix : saysLimit (before ++ "limit".toList ++ after) = true := by
  refine List.any_eq_true.mpr ⟨"limit".toList ++ after, ?_, ?_⟩
  · exact (List.mem_tails _ _).mpr ⟨before, (List.append_assoc ..).symm⟩
  · exact List.isPrefixOf_iff_prefix.mpr (List.prefix_append ..)

theorem saysLimit_of_not_mem (absent : 'm' ∉ message) : saysLimit message = false := by
  refine List.any_eq_false.mpr fun tail member => ?_
  have suffix := (List.mem_tails _ _).mp member
  intro begins
  have inside : 'm' ∈ tail := (List.isPrefixOf_iff_prefix.mp begins).subset (by decide)
  exact absent (suffix.subset inside)

/-- The message of `toString` consists of two fixed texts, a number and bytes in hexadecimal. -/
theorem saysLimit_toString {e : JsError} (failed : Url.toString body = .error e) :
    saysLimit e.message = false := by
  rw [Url.toString] at failed
  split at failed
  · cases failed
  · rename_i offset _
    cases failed
    apply saysLimit_of_not_mem
    have letters : ∀ n, n < 16 → 'm' ≠ Nat.digitChar n := by decide
    have shown : ∀ byte, 'm' ∉ Url.shownByte byte := by
      intro byte
      have large := letters (byte.toNat / 16) (Nat.div_lt_of_lt_mul byte.toNat_lt)
      have small := letters (byte.toNat % 16) (Nat.mod_lt _ (by decide))
      simp [Url.shownByte, large, small]
    have digits : 'm' ∉ decimal offset := fun member =>
      absurd (isDigit_of_mem_decimal member) (by decide)
    have bytes : 'm' ∉ ((body.drop offset).take 4).flatMap Url.shownByte := by
      rintro member
      obtain ⟨byte, -, inside⟩ := List.mem_flatMap.mp member
      exact shown byte inside
    simp only [List.mem_append, not_or]
    exact ⟨⟨⟨by decide, digits⟩, by decide⟩, bytes⟩

theorem readBody_over (excess : limit.most < (body.length : ℤ)) :
    ∃ e, readBody limit body = .error e ∧ saysLimit e.message = true := by
  refine ⟨_, if_pos excess, ?_⟩
  have shape : "request body exceeds limit of ".toList ++ limit.text ++ " bytes".toList
      = "request body exceeds ".toList ++ "limit".toList ++
        (" of ".toList ++ limit.text ++ " bytes".toList) := by
    simp
  rw [shape]
  exact saysLimit_infix

theorem readText_over (excess : limit.most < (body.length : ℤ)) :
    ∃ e, readText limit body = .error e ∧ saysLimit e.message = true := by
  obtain ⟨e, failed, named⟩ := readBody_over excess
  exact ⟨e, by rw [readText, failed]; rfl, named⟩

theorem readText_within (within : ¬limit.most < (body.length : ℤ)) :
    readText limit body = Url.toString body := by
  rw [readText, readBody, if_neg within]
  rfl

theorem toString_ok {text : Text} (decoded : (decodeUtf8 body).toOption = some text) :
    Url.toString body = .ok text := by
  rw [Url.toString]
  cases shape : decodeUtf8 body with
  | ok t =>
    rw [shape] at decoded
    exact congrArg Except.ok (Option.some.inj decoded)
  | error offset =>
    rw [shape] at decoded
    cases decoded

theorem toString_error (undecodable : (decodeUtf8 body).toOption = none) :
    ∃ e, Url.toString body = .error e := by
  rw [Url.toString]
  cases shape : decodeUtf8 body with
  | ok t =>
    rw [shape] at undecodable
    cases undecodable
  | error offset => exact ⟨_, rfl⟩

end Messages

/-! ## Reactions -/

section Reactions

variable {J : Type} {tooLong : Prop} {decoded : Option (BodyValue J)} {later : Settled}
  {value : BodyValue J} {status : Nat} {t : Text}

theorem meets_goOn (fits : ¬tooLong) (known : decoded = some value) :
    Meets tooLong decoded later (goOn later (some value)) where
  tooLarge := by simp [goOn, fits]
  malformed _ := by simp [goOn, known]
  parsed _ v found := ⟨rfl, known ▸ found, rfl⟩
  apart _ := ⟨rfl, rfl⟩

theorem meets_tooLarge (excess : tooLong) : Meets tooLong decoded later (refuse 413 t : Reaction J) where
  tooLarge := iff_of_true ⟨_, rfl, rfl⟩ excess
  malformed fits := absurd excess fits
  parsed fits := absurd excess fits
  apart no := absurd rfl no

/-- What cannot be decoded is to be answered with 400. -/
theorem meets_refuse (fits : ¬tooLong) (undecodable : decoded = none) (known : status = 413 ∨ status = 400) :
    Meets tooLong decoded later (refuse status t : Reaction J) ↔ status = 400 := by
  constructor
  · intro meets
    refine known.resolve_left fun large => fits (meets.tooLarge.mp ⟨_, rfl, large⟩)
  · rintro rfl
    refine ⟨iff_of_false ?_ fits, fun _ => iff_of_true ⟨_, rfl, rfl⟩ undecodable, ?_, ?_⟩
    · rintro ⟨a, same, large⟩
      cases same
      cases large
    · intro _ value found
      rw [undecodable] at found
      cases found
    · exact fun no => absurd rfl no

theorem meets_byMessage {label : Text} {e : JsError} (fits : ¬tooLong) (undecodable : decoded = none) :
    Meets tooLong decoded later (byMessage label e) ↔ saysLimit e.message = false := by
  rw [byMessage]
  split
  · rename_i named
    rw [meets_refuse fits undecodable (.inl rfl), named]
    exact iff_of_false (by decide) (by decide)
  · rename_i silent
    rw [meets_refuse fits undecodable (.inr rfl)]
    exact iff_of_true rfl (Bool.eq_false_of_not_eq_true silent)

theorem bodyParser_eq {type : Text → Bool} {block : Except JsError (BodyValue J)}
    {caught : JsError → Reaction J} {contentType : Text} (matched : type contentType = true) :
    bodyParser type block caught contentType later
      = match block with
        | .ok value => goOn later (some value)
        | .error e => caught e := by
  unfold bodyParser
  rw [matched]
  rfl

end Reactions

/-! ## The parsers -/

section Parsers

variable {J : Type} {engine : Engine J} {opts : ParserOptions} {body : List UInt8} {contentType : Text}
  {later : Settled}

/-- A body over the limit, whatever the parser makes of the text. -/
theorem meets_over {f : Text → Except JsError (BodyValue J)} {type : Text → Bool} {label : Text}
    {decoded : Option (BodyValue J)} (matched : type contentType = true) (excess : Exceeds opts body) :
    Meets (Exceeds opts body) decoded later
      (bodyParser type ((readText (opts.limit.getD defaultLimit) body).bind f) (byMessage label)
        contentType later) := by
  obtain ⟨e, failed, named⟩ := readText_over excess
  rw [bodyParser_eq matched, failed]
  change Meets _ _ _ (byMessage label e)
  rw [byMessage, if_pos named]
  exact meets_tooLarge excess

/-- A body that is not UTF-8 is answered with 400 by a parser that looks at the message. -/
theorem meets_undecodable {f : Text → Except JsError (BodyValue J)} {type : Text → Bool} {label : Text}
    (matched : type contentType = true) (fits : ¬Exceeds opts body)
    (undecodable : (decodeUtf8 body).toOption = none) :
    Meets (Exceeds opts body) none later
      (bodyParser type ((readText (opts.limit.getD defaultLimit) body).bind f) (byMessage label)
        contentType later) := by
  obtain ⟨e, failed⟩ := toString_error undecodable
  rw [bodyParser_eq matched, readText_within fits, failed]
  exact (meets_byMessage fits rfl).mpr (saysLimit_toString failed)

/-- The same for a body that is. -/
theorem bodyParser_decoded {f : Text → Except JsError (BodyValue J)} {type : Text → Bool}
    {caught : JsError → Reaction J} {text : Text} (matched : type contentType = true)
    (fits : ¬Exceeds opts body) (decoded : (decodeUtf8 body).toOption = some text) :
    bodyParser type ((readText (opts.limit.getD defaultLimit) body).bind f) caught contentType later
      = match f text with
        | .ok value => goOn later (some value)
        | .error e => caught e := by
  rw [bodyParser_eq matched, readText_within fits, toString_ok decoded]
  rfl

theorem json_meets_iff (matched : Parser.json.type opts contentType = true) (fits : ¬Exceeds opts body) :
    Meets (Exceeds opts body) (Parser.json.decoded engine opts body) later
      (jsonBody engine opts contentType body later) ↔ Parser.json.Honest engine opts body := by
  have typed : opts.type.getD isJson contentType = true := matched
  rw [jsonBody, jsonBlock, Parser.decoded, Parser.Honest]
  cases decoded : (decodeUtf8 body).toOption with
  | none =>
    refine iff_of_true (meets_undecodable typed fits decoded) ?_
    rintro text e found
    cases found
  | some text =>
    rw [bodyParser_decoded typed fits decoded, Option.bind_some]
    by_cases empty : text = []
    · rw [if_pos empty, if_pos empty]
      refine iff_of_true (meets_goOn fits rfl) ?_
      rintro t e found nonempty
      exact absurd (Option.some.inj found ▸ empty) nonempty
    · rw [if_neg empty, if_neg empty]
      by_cases strict : opts.strict ≠ some false ∧ (!startsStrict text) = true
      · rw [if_pos strict, if_pos strict]
        refine iff_of_true ((meets_byMessage fits rfl).mpr (by decide)) ?_
        rintro t e found _ starts
        cases found
        have begins := starts strict.1
        rw [begins] at strict
        exact absurd strict.2 (by decide)
      · rw [if_neg strict, if_neg strict]
        cases parsed : engine.jsonParse text with
        | ok value =>
          refine iff_of_true (meets_goOn fits rfl) ?_
          rintro t e found _ _ failed
          cases found
          rw [parsed] at failed
          cases failed
        | error e =>
          refine (meets_byMessage fits rfl).trans ⟨?_, fun honest => ?_⟩
          · rintro silent t e' found _ _ failed
            cases found
            rw [parsed] at failed
            cases failed
            exact silent
          · refine honest text e rfl empty (fun checked => ?_) parsed
            by_contra other
            exact strict ⟨checked, by simpa using other⟩

theorem urlencoded_meets_iff (matched : Parser.urlencoded.type opts contentType = true)
    (fits : ¬Exceeds opts body) :
    Meets (Exceeds opts body) (Parser.urlencoded.decoded engine opts body) later
      (urlencodedBody engine opts contentType body later) ↔ Parser.urlencoded.Honest engine opts body := by
  have typed : opts.type.getD isForm contentType = true := matched
  rw [urlencodedBody, urlencodedBlock, Parser.decoded, Parser.Honest]
  cases decoded : (decodeUtf8 body).toOption with
  | none =>
    refine iff_of_true (meets_undecodable typed fits decoded) ?_
    rintro text found
    cases found
  | some text =>
    rw [bodyParser_decoded typed fits decoded, Option.bind_some]
    have fields := collectFields_eq addField .empty text
    rw [fieldsOf] at fields
    by_cases empty : text = []
    · subst empty
      refine iff_of_true (meets_goOn fits rfl) ?_
      rintro t found failed
      cases found
      cases failed
    · rw [if_neg empty, fields]
      cases parts : ((split '&' text).filter (· ≠ [])).mapM decodePart with
      | some params =>
        refine iff_of_true (meets_goOn fits rfl) ?_
        rintro t found failed
        cases found
        rw [parts] at failed
        cases failed
      | none =>
        refine (meets_byMessage fits rfl).trans ⟨?_, fun honest => honest text rfl parts⟩
        rintro silent t found _
        cases found
        exact silent

theorem raw_meets (matched : Parser.raw.type opts contentType = true) :
    Meets (Exceeds opts body) (some (.buffer body)) later
      (rawBody opts contentType body later : Reaction J) := by
  have typed : (opts.type.getD fun _ => true) contentType = true := matched
  rw [rawBody, bodyParser_eq typed]
  by_cases excess : Exceeds opts body
  · obtain ⟨e, failed, -⟩ := readBody_over excess
    rw [failed]
    exact meets_tooLarge excess
  · have read : readBody (opts.limit.getD defaultLimit) body = .ok body := if_neg excess
    rw [read]
    exact meets_goOn excess rfl

theorem text_meets_iff (matched : Parser.text.type opts contentType = true) (fits : ¬Exceeds opts body) :
    Meets (Exceeds opts body) ((decodeUtf8 body).toOption.map .text) later
      (textBody opts contentType body later : Reaction J) ↔ (decodeUtf8 body).toOption ≠ none := by
  have typed : opts.type.getD isText contentType = true := matched
  rw [textBody, bodyParser_eq typed, readText_within fits]
  cases decoded : (decodeUtf8 body).toOption with
  | none =>
    obtain ⟨e, failed⟩ := toString_error decoded
    rw [failed]
    refine (meets_refuse fits rfl (.inl rfl)).trans ?_
    exact iff_of_false (by decide) (fun no => no rfl)
  | some text =>
    rw [toString_ok decoded]
    exact iff_of_true (meets_goOn fits rfl) (Option.some_ne_none text)

/-- Each of the four reacts as it should exactly where the body is over the limit or the failure to
decode it is not taken for that. -/
theorem parser_meets_iff (engine : Engine J) (opts : ParserOptions) (parser : Parser) (contentType : Text)
    (matched : parser.type opts contentType = true) (body : List UInt8) (later : Settled) :
    Meets (Exceeds opts body) (parser.decoded engine opts body) later
      (parser.handle engine opts contentType body later)
        ↔ Exceeds opts body ∨ parser.Honest engine opts body := by
  by_cases excess : Exceeds opts body
  · refine iff_of_true ?_ (.inl excess)
    match parser with
    | .json | .urlencoded => exact meets_over matched excess
    | .raw => exact raw_meets matched
    | .text =>
      have typed : opts.type.getD isText contentType = true := matched
      obtain ⟨e, failed, -⟩ := readText_over excess
      rw [Parser.handle, textBody, bodyParser_eq typed, failed]
      exact meets_tooLarge excess
  · rw [or_iff_right excess]
    match parser with
    | .json => exact json_meets_iff matched excess
    | .urlencoded => exact urlencoded_meets_iff matched excess
    | .raw => exact iff_of_true (raw_meets matched) trivial
    | .text => exact text_meets_iff matched excess

/-- An empty array is parsed. -/
theorem parser_meets_array :
    Meets (Exceeds ⟨none, none, none⟩ (utf8 "[]".toList))
      (Parser.json.decoded ⟨fun _ => .ok [], id⟩ ⟨none, none, none⟩ (utf8 "[]".toList)) .resolved
      (Parser.json.handle (⟨fun _ => .ok [], id⟩ : Engine (List Nat)) ⟨none, none, none⟩
        "application/json".toList (utf8 "[]".toList) .resolved) :=
  (parser_meets_iff _ _ .json _ (by decide) _ _).mpr
    (.inr fun _ _ _ _ _ failed => nomatch failed)

/-- A text that is not UTF-8 is answered as one that is too long, and so is JSON where the message quotes
the word. -/
theorem parser_mistaken :
    ¬Meets (Exceeds ⟨none, none, none⟩ [0xff]) ((decodeUtf8 [0xff]).toOption.map .text) .resolved
        (textBody ⟨none, none, none⟩ "text/plain".toList [0xff] .resolved : Reaction Unit) ∧
      ∀ engine : Engine Unit, engine.jsonParse "[limit]".toList
          = .error ⟨"SyntaxError".toList, "unexpected token: 'limit'".toList⟩ →
        ¬Meets (Exceeds ⟨none, none, none⟩ (utf8 "[limit]".toList))
          (Parser.json.decoded engine ⟨none, none, none⟩ (utf8 "[limit]".toList)) .resolved
          (jsonBody engine ⟨none, none, none⟩ "application/json".toList (utf8 "[limit]".toList)
            .resolved) := by
  have fits : ∀ body : List UInt8, body.length ≤ 1048576 → ¬Exceeds ⟨none, none, none⟩ body := by
    intro body short excess
    have less : (1048576 : ℤ) < (body.length : ℤ) := WithTop.coe_lt_coe.mp excess
    omega
  constructor
  · rw [text_meets_iff (by decide) (fits _ (by decide))]
    decide
  · intro engine parsed
    rw [json_meets_iff (by decide) (fits _ (by decide))]
    intro honest
    have silent := honest "[limit]".toList _ (by rw [decodeUtf8_utf8]; rfl) (by decide) (fun _ => by decide) parsed
    revert silent
    decide

end Parsers

end QjsLws.Form
