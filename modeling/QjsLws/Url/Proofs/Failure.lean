import QjsLws.Url.Proofs.Numeric
import QjsLws.Url.Proofs.QueryText
import QjsLws.Url.Proofs.Overrides

/-!
# What the parser and the constructor throw

Only the host text makes the parser throw, and beyond a parser that returned `null` only the host
text and the query text make the constructor throw.
-/

namespace QjsLws.Url

open QjsLws.Misc

/-- The parser returns a record or `null`. -/
def ParserReturns (native : Native) (input : Text) (base : Option URLRecord) : Prop :=
  ∃ url, parseURL native input base = some (url, .record) ∨
    parseURL native input base = some (url, .null)

/-- The parser returns `null`. -/
def IsNull (native : Native) (input : Text) (base : Option URLRecord) : Prop :=
  ∃ url, parseURL native input base = some (url, .null)

/-- The parser returns `null` for the base, or for the url against the base. -/
def Rejected (native : Native) (url : Text) : Option Text → Prop
  | none => IsNull native url none
  | some base => IsNull native base none ∨
      ∃ record, parseURL native base none = some (record, .record) ∧ IsNull native url (some record)

/-- The constructor throws exactly where the parser returns `null`. -/
def ThrowsIfRejected (native : Native) (url : Text) (base : Option Text) : Prop :=
  (∃ e, newURL native url base = .error e) ↔ Rejected native url base

/-- The host text of the url is readable and, if the url is accepted, so is its query text. -/
def UrlReadable (native : Native) (url : Text) (base : Option URLRecord) : Prop :=
  ¬HostUnreadable native url base ∧
    ∀ record, parseURL native url base = some (record, .record) →
      ∃ list, queryList (queryText native (preprocess url) base) = .ok list

/-- The host text of the base is readable and, if the base is accepted, the url is readable. -/
def ArgumentsReadable (native : Native) (url : Text) : Option Text → Prop
  | none => UrlReadable native url none
  | some base => ¬HostUnreadable native base none ∧
      ∀ record, parseURL native base none = some (record, .record) →
        UrlReadable native url (some record)

section Results

variable {native : Native} {input url : Text} {base : Option URLRecord}

/-- The three ends of the parser. -/
theorem parseURL_cases (native : Native) (input : Text) (base : Option URLRecord) :
    (∃ url, parseURL native input base = some (url, .record)) ∨ IsNull native input base ∨
      ∃ url e, parseURL native input base = some (url, .threw e) := by
  obtain ⟨⟨url, ended⟩, result⟩ :=
    Option.isSome_iff_exists.mp (basicURLParse_isSome native input base newURLRecord none)
  cases ended with
  | record => exact .inl ⟨url, result⟩
  | null => exact .inr (.inl ⟨url, result⟩)
  | threw e => exact .inr (.inr ⟨url, e, result⟩)

theorem parserReturns_iff (native : Native) (input : Text) (base : Option URLRecord) :
    ParserReturns native input base ↔ ¬HostUnreadable native input base := by
  rw [← parseURL_threw_iff]
  constructor
  · rintro ⟨url, record | null⟩ ⟨url', e, threw⟩
    · rw [record] at threw
      cases threw
    · rw [null] at threw
      cases threw
  · intro quiet
    rcases parseURL_cases native input base with ⟨url, record⟩ | ⟨url, null⟩ | threw
    · exact ⟨url, .inl record⟩
    · exact ⟨url, .inr null⟩
    · exact absurd threw quiet

theorem parseOrThrow_eq (native : Native) (text : String) (value : Text)
    (base : Option URLRecord) {record : URLRecord} {ended : ParseEnd}
    (result : parseURL native value base = some (record, ended)) :
    parseOrThrow native text value base =
      match ended with
      | .record => .ok record
      | .null => .error (invalidURL text value)
      | .threw e => .error e := by
  have run : parseInto native value base newURLRecord none = (record, ended) := by
    rw [parseURL, basicURLParse_eq, Option.some.injEq] at result
    exact result
  rw [parseOrThrow, run]
  cases ended <;> rfl

/-- The constructor after the base was parsed. -/
def constructed (native : Native) (url : Text) (base : Option URLRecord) :
    Except JsError UrlObject := do
  let record ← parseOrThrow native "Invalid URL: " url base
  let list ← queryList record.query
  pure ⟨record, list⟩

/-- The constructor throws where the parser does not return `null` exactly when the url is not
readable. -/
theorem constructed_iff (native : Native) (url : Text) (base : Option URLRecord) :
    ((∃ e, constructed native url base = .error e) ↔ IsNull native url base)
      ↔ UrlReadable native url base := by
  rcases parseURL_cases native url base with ⟨record, parsed⟩ | ⟨record, null⟩ | ⟨record, e, threw⟩
  · have quiet : ¬HostUnreadable native url base :=
      (parserReturns_iff native url base).mp ⟨record, .inl parsed⟩
    have accepted : ¬IsNull native url base := by
      rintro ⟨record', null⟩
      rw [parsed] at null
      cases null
    have same := queryList_parseURL parsed
    have built : constructed native url base
        = (queryList record.query).map fun list => ⟨record, list⟩ := by
      rw [constructed, parseOrThrow_eq native _ url base parsed]
      rfl
    rw [built, same, UrlReadable]
    cases read : queryList (queryText native (preprocess url) base) with
    | error e =>
      simp only [Except.map, Except.error.injEq, exists_eq', true_iff, accepted, false_iff, not_and,
        reduceCtorEq, exists_false]
      exact fun _ all => all record parsed
    | ok list => simp [Except.map, accepted, quiet]
  · have quiet : ¬HostUnreadable native url base :=
      (parserReturns_iff native url base).mp ⟨record, .inr null⟩
    have failed : constructed native url base = .error (invalidURL "Invalid URL: " url) := by
      rw [constructed, parseOrThrow_eq native _ url base null]
      rfl
    have vacuous : ∀ record', parseURL native url base = some (record', .record) →
        ∃ list, queryList (queryText native (preprocess url) base) = .ok list := by
      intro record' parsed
      rw [null] at parsed
      cases parsed
    exact iff_of_true (iff_of_true ⟨_, failed⟩ ⟨record, null⟩) ⟨quiet, vacuous⟩
  · have unreadable : HostUnreadable native url base :=
      (parseURL_threw_iff native url base).mp ⟨record, e, threw⟩
    have failed : constructed native url base = .error e := by
      rw [constructed, parseOrThrow_eq native _ url base threw]
      rfl
    have other : ¬IsNull native url base := by
      rintro ⟨record', null⟩
      rw [threw] at null
      cases null
    refine iff_of_false (fun both => other (both.mp ⟨e, failed⟩)) fun readable => ?_
    exact readable.1 unreadable

theorem newURL_some {text : Text} {record : URLRecord} {ended : ParseEnd}
    (result : parseURL native text none = some (record, ended)) :
    newURL native url (some text) =
      match ended with
      | .record => constructed native url (some record)
      | .null => .error (invalidURL "Invalid base URL: " text)
      | .threw e => .error e := by
  have base : (some text).mapM (fun base => parseOrThrow native "Invalid base URL: " base none)
      = (parseOrThrow native "Invalid base URL: " text none).map some := rfl
  rw [newURL, base, parseOrThrow_eq native _ text none result]
  cases ended <;> rfl

theorem throwsIfRejected_iff (native : Native) (url : Text) (base : Option Text) :
    ThrowsIfRejected native url base ↔ ArgumentsReadable native url base := by
  cases base with
  | none => exact constructed_iff native url none
  | some text =>
    rw [ThrowsIfRejected, Rejected, ArgumentsReadable]
    rcases parseURL_cases native text none with ⟨record, parsed⟩ | ⟨record, null⟩ |
      ⟨record, e, threw⟩
    · have quiet : ¬HostUnreadable native text none :=
        (parserReturns_iff native text none).mp ⟨record, .inl parsed⟩
      have accepted : ¬IsNull native text none := by
        rintro ⟨record', null⟩
        rw [parsed] at null
        cases null
      rw [newURL_some parsed]
      simp only [parsed, accepted, false_or, Option.some.injEq, Prod.mk.injEq, and_true,
        exists_eq_left', quiet, not_false_eq_true, true_and, forall_eq']
      exact constructed_iff native url (some record)
    · have quiet : ¬HostUnreadable native text none :=
        (parserReturns_iff native text none).mp ⟨record, .inr null⟩
      refine iff_of_true (iff_of_true ?_ (.inl ⟨record, null⟩)) ⟨quiet, ?_⟩
      · exact ⟨_, newURL_some null⟩
      · intro record' parsed
        rw [null] at parsed
        cases parsed
    · have unreadable : HostUnreadable native text none :=
        (parseURL_threw_iff native text none).mp ⟨record, e, threw⟩
      refine iff_of_false (fun both => ?_) fun readable => readable.1 unreadable
      rcases both.mp ⟨_, newURL_some threw⟩ with ⟨record', null⟩ | ⟨record', parsed, -⟩
      · rw [threw] at null
        cases null
      · rw [threw] at parsed
        cases parsed

/-- The parser returns exactly where the host text is readable, and the constructor throws only
for a `null` exactly where the arguments are readable. -/
theorem failureDiscipline_iff (native : Native) :
    (∀ input base, ParserReturns native input base ↔ ¬HostUnreadable native input base) ∧
      ∀ url base, ThrowsIfRejected native url base ↔ ArgumentsReadable native url base :=
  ⟨parserReturns_iff native, throwsIfRejected_iff native⟩

/-- An escape that is not UTF-8 makes the parser throw in a host, and the constructor throw for an
accepted URL in a query. -/
theorem escape_makes_throw :
    ¬ParserReturns numericNative "http://%ff/".toList none ∧
      ¬ThrowsIfRejected numericNative "http://h/?%ff".toList none := by
  constructor
  · have threw : (parseURL numericNative "http://%ff/".toList none).map Prod.snd
        = some (.threw ⟨"TypeError".toList, "invalid UTF-8 at offset 0: ff ".toList⟩) := by
      decide +kernel
    rintro ⟨url, record | null⟩
    · rw [record] at threw
      cases threw
    · rw [null] at threw
      cases threw
  · have accepted : (parseURL numericNative "http://h/?%ff".toList none).map Prod.snd
        = some .record := by decide +kernel
    have failed : (newURL numericNative "http://h/?%ff".toList none).toOption = none := by
      decide +kernel
    intro throws
    have thrown : ∃ e, newURL numericNative "http://h/?%ff".toList none = .error e := by
      cases result : newURL numericNative "http://h/?%ff".toList none with
      | error e => exact ⟨e, rfl⟩
      | ok o =>
        rw [result] at failed
        cases failed
    obtain ⟨url, null⟩ := throws.mp thrown
    rw [null] at accepted
    cases accepted

end Results

end QjsLws.Url
