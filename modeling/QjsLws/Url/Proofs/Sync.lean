import QjsLws.Url.Proofs.Setters
import QjsLws.Url.Proofs.Numeric

/-!
# The query and the search parameters

The pairs of `searchParams` are those of the query, in every state of a `URL` object, as long as
every query that is assigned can be decoded.
-/

namespace QjsLws.Url

open QjsLws.Misc UrlObject

/-- The list has the pairs of the query. -/
def InSync (o : UrlObject) : Prop := queryList o.record.query = .ok o.list

/-- An assignment of a query that is not UTF-8 once its escapes are decoded. -/
def Undecodable (native : Native) : Op → Prop
  | .search value => value ≠ [] ∧
      ∃ e, parseFormURLEncoded (preprocess (withoutMark '?' value)) = .error e
  | .href value => ∃ u e, parseURL native value none = some (u, .record) ∧
      queryList u.query = .error e
  | _ => False

/-- The object stays in sync along the run, and an operation that throws changes nothing. -/
structure KeepsSync (native : Native) (o : UrlObject) (ops : List Op) : Prop where
  sync : ∀ first, first <+: ops → InSync (runFrom (step native) o first)
  unchanged : ∀ first op, first ++ [op] <+: ops →
    ∀ e, ((runFrom (step native) o first).apply native op).thrown = some e →
      ((runFrom (step native) o first).apply native op).state = runFrom (step native) o first

section Steps

variable {native : Native} {o : UrlObject} {op : Op}

theorem InSync.withRecord (sync : InSync o) {record : URLRecord}
    (query : record.query = o.record.query) : InSync { o with record } := by
  rw [InSync, query]
  exact sync

theorem sat_override {value : Text} {state : ParserState} (sync : InSync o)
    (query : (parseInto native value none o.record (some state)).1.query = o.record.query)
    (threw : ∀ e, (parseInto native value none o.record (some state)).2 = .threw e →
      (parseInto native value none o.record (some state)).1 = o.record) :
    (o.override native value state).Sat InSync (· = o) := by
  unfold UrlObject.override
  split
  · rename_i found
    rw [found] at threw
    have same := threw _ rfl
    rw [Outcome.sat_threw]
    simp only at same
    rw [same]
  · rename_i found
    rw [found] at query
    exact sync.withRecord query

theorem query_withScheme (u : URLRecord) (scheme : Text) : (withScheme u scheme).query = u.query := by
  obtain same | ⟨-, -, -, changed⟩ := withScheme_cases u scheme
  · rw [same]
  · rw [changed]

theorem withPort_fst (u : URLRecord) (digits : Text) :
    (withPort u digits).1.query = u.query ∧ ∀ e, (withPort u digits).2 ≠ .threw e := by
  unfold withPort
  split
  · simp
  · split
    · simp
    · simp

theorem query_hostAssigned {u url : URLRecord} {hostname : Bool} {value : Text}
    (assigned : HostAssigned native u hostname value url) : url.query = u.query := by
  cases assigned <;> rfl

theorem withParsedHost_threw {u : URLRecord} {buffer : Text}
    {next : URLRecord → URLRecord × ParseEnd} (returns : ∀ u e, (next u).2 ≠ .threw e) {e : JsError}
    (threw : (withParsedHost native u buffer next).2 = .threw e) :
    (withParsedHost native u buffer next).1 = u := by
  obtain same | ⟨h, -, result⟩ := withParsedHost_cases native u buffer next
  · exact same
  · rw [result] at threw
    exact absurd threw (returns _ e)

/-- A host that throws is not assigned. -/
theorem withHostText_threw {u : URLRecord} {hostname : Bool} {buffer rest : Text} {e : JsError}
    (threw : (withHostText native u hostname buffer rest).2 = .threw e) :
    (withHostText native u hostname buffer rest).1 = u := by
  revert threw
  unfold withHostText
  split
  · split
    · exact fun _ => rfl
    · split
      · exact fun _ => rfl
      · exact withParsedHost_threw fun u => (withPort_fst u _).2
  · split
    · exact fun _ => rfl
    · split
      · exact fun _ => rfl
      · exact withParsedHost_threw (by simp)

theorem sat_loadList (read : ∃ list, queryList o.record.query = .ok list) :
    o.loadList.Sat InSync (fun _ => False) := by
  obtain ⟨list, read⟩ := read
  rw [UrlObject.loadList, read]
  exact read

theorem except_cases {ε α : Type} (x : Except ε α) (fine : ¬∃ e, x = .error e) : ∃ a, x = .ok a := by
  cases x with
  | ok a => exact ⟨a, rfl⟩
  | error e => exact absurd ⟨e, rfl⟩ fine

/-- An operation keeps the object in sync, or throws and leaves it alone. -/
theorem sat_apply (lawful : native.Lawful) (sync : InSync o) (fine : ¬Undecodable native op) :
    (o.apply native op).Sat InSync (· = o) := by
  cases op with
  | href value =>
    rw [UrlObject.apply, UrlObject.setHref]
    split
    · rename_i u parsed
      have read : ∃ list, queryList u.query = .ok list := by
        refine except_cases _ ?_
        rintro ⟨e, failed⟩
        exact fine ⟨u, e, parseOrThrow_eq_ok parsed, failed⟩
      exact (sat_loadList read).imp (fun _ ok => ok) fun _ no => no.elim
    · rfl
  | protocol value =>
    apply sat_override sync
    · rw [parseInto_schemeStart lawful]
      split
      · exact query_withScheme _ _
      · rfl
    · rw [parseInto_schemeStart lawful]
      split <;> simp
  | username value =>
    simp only [UrlObject.apply, UrlObject.setUsername]
    split
    · exact sync
    · exact sync.withRecord rfl
  | password value =>
    simp only [UrlObject.apply, UrlObject.setPassword]
    split
    · exact sync
    · exact sync.withRecord rfl
  | host value =>
    simp only [UrlObject.apply, UrlObject.setHost]
    split
    · exact sync
    · apply sat_override sync
      · rw [parseInto_host]
        exact query_hostAssigned (hostAssigned_hostRecord lawful)
      · rw [parseInto_host]
        exact fun e => withHostText_threw
  | hostname value =>
    simp only [UrlObject.apply, UrlObject.setHostname]
    split
    · exact sync
    · apply sat_override sync
      · rw [parseInto_hostname]
        exact query_hostAssigned (hostAssigned_hostRecord lawful)
      · rw [parseInto_hostname]
        exact fun e => withHostText_threw
  | port value =>
    simp only [UrlObject.apply, UrlObject.setPort]
    split
    · exact sync
    · split
      · exact sync.withRecord rfl
      · apply sat_override sync
        · rw [parseInto_port]
          exact (withPort_fst _ _).1
        · rw [parseInto_port]
          exact fun e threw => absurd threw ((withPort_fst _ _).2 e)
  | pathname value =>
    simp only [UrlObject.apply, UrlObject.setPathname]
    split
    · exact sync
    · obtain ⟨l, result, -⟩ := parseInto_pathStart (u := o.record) lawful value
      rw [UrlObject.override, result]
      exact sync.withRecord rfl
  | search value =>
    rw [UrlObject.apply]
    by_cases empty : value = []
    · rw [UrlObject.setSearch, if_pos empty]
      rfl
    · have read := except_cases (parseFormURLEncoded (preprocess (withoutMark '?' value)))
        fun failed => fine ⟨empty, failed⟩
      rw [setSearch_eq empty]
      refine (sat_loadList ?_).imp (fun _ ok => ok) fun _ no => no.elim
      simpa only [queryList, searchQuery, parseFormURLEncoded_encode] using read
  | hash value =>
    rw [UrlObject.apply]
    by_cases empty : value = []
    · rw [UrlObject.setHash, if_pos empty]
      exact sync.withRecord rfl
    · rw [setHash_eq empty]
      exact sync.withRecord rfl
  | searchParams call =>
    rw [UrlObject.apply, Outcome.sat_done, InSync, UrlObject.update]
    by_cases empty : call.apply o.list = []
    · simp [empty, serializeFormURLEncoded_eq_nil, queryList]
    · simp [empty, serializeFormURLEncoded_eq_nil, queryList, parseFormURLEncoded_filled empty]

theorem not_inSync_loadList {e : JsError} (failed : queryList o.record.query = .error e) :
    ¬InSync o.loadList.state := by
  intro sync
  rw [InSync, loadList_record, failed] at sync
  cases sync

/-- A query that cannot be decoded is in the record when the operation throws. -/
theorem not_inSync_of_undecodable (undecodable : Undecodable native op) :
    ¬InSync (o.step native op) := by
  cases op with
  | href value =>
    obtain ⟨u, e, parsed, failed⟩ := undecodable
    rw [UrlObject.step, UrlObject.apply, UrlObject.setHref, parseOrThrow_of_parseURL parsed]
    exact not_inSync_loadList failed
  | search value =>
    obtain ⟨nonempty, e, failed⟩ := undecodable
    rw [UrlObject.step, UrlObject.apply, setSearch_eq nonempty]
    apply not_inSync_loadList (e := e)
    rw [queryList, searchQuery, parseFormURLEncoded_encode]
    exact failed
  | _ => exact undecodable.elim

theorem inSync_step (lawful : native.Lawful) (sync : InSync o) (fine : ¬Undecodable native op) :
    InSync (o.step native op) := by
  apply Outcome.Sat.state
  exact (sat_apply lawful sync fine).imp (fun _ ok => ok) fun s same => by rw [same]; exact sync

/-- The object stays in sync exactly when every query that is assigned can be decoded. -/
theorem keepsSync_iff (lawful : native.Lawful) {url : Text} {base : Option Text}
    (made : newURL native url base = .ok o) (ops : List Op) :
    KeepsSync native o ops ↔ ∀ op ∈ ops, ¬Undecodable native op := by
  have start : InSync o := (newURL_eq_ok made).2
  have along : (∀ first, first <+: ops → InSync (runFrom (step native) o first)) ↔
      Along (step native) (fun _ op => ¬Undecodable native op) o ops :=
    prefixes_iff_along (fun s op sync fine => inSync_step lawful sync fine)
      (fun s op _ sync undecodable => not_inSync_of_undecodable undecodable sync)
      (fun _ sync => sync) ops o start
  rw [along_iff_forall] at along
  constructor
  · intro keeps
    exact along.mp keeps.sync
  · intro fine
    have sync := along.mpr fine
    refine ⟨sync, fun first op isFirst e thrown => ?_⟩
    have before : first <+: ops := (List.prefix_append first [op]).trans isFirst
    have listed : op ∈ ops := isFirst.subset (by simp)
    have result := sat_apply lawful (sync first before) (fine op listed)
    rw [Outcome.Sat, thrown] at result
    exact result

end Steps

/-- The object of `new URL('http://h/')`. -/
def plainObject : UrlObject :=
  { record := { newURLRecord with
      scheme := "http".toList
      host := some (.text "h".toList)
      path := .segments [[]] }
    list := [] }

theorem newURL_plainObject : newURL numericNative "http://h/".toList none = .ok plainObject := by
  decide +kernel

/-- `url.search = '?%ff'` throws, with the query already in the record. -/
theorem search_throws_out_of_sync :
    newURL numericNative "http://h/".toList none = .ok plainObject ∧
      (plainObject.apply numericNative (.search "?%ff".toList)).thrown
        = some ⟨"TypeError".toList, "invalid UTF-8 at offset 0: ff ".toList⟩ ∧
      (plainObject.apply numericNative (.search "?%ff".toList)).state
        = { plainObject with record.query := some "%ff".toList } ∧
      ¬KeepsSync numericNative plainObject [.search "?%ff".toList] := by
  have thrown : (plainObject.apply numericNative (.search "?%ff".toList)).thrown
      = some ⟨"TypeError".toList, "invalid UTF-8 at offset 0: ff ".toList⟩ := by decide +kernel
  have state : (plainObject.apply numericNative (.search "?%ff".toList)).state
      = { plainObject with record.query := some "%ff".toList } := by decide +kernel
  refine ⟨newURL_plainObject, thrown, state, ?_⟩
  intro keeps
  have same := keeps.unchanged [] (.search "?%ff".toList) List.prefix_rfl _ thrown
  rw [runFrom_nil, state] at same
  revert same
  decide

theorem keepsSync_plainObject :
    KeepsSync numericNative plainObject
      [.search "?a=%20".toList, .searchParams (.append "b".toList "%ff".toList)] := by
  refine (keepsSync_iff lawful_numericNative newURL_plainObject _).mpr ?_
  simp only [List.mem_cons, List.not_mem_nil, or_false, forall_eq_or_imp, forall_eq]
  refine ⟨?_, id⟩
  rintro ⟨-, e, failed⟩
  have read : parseFormURLEncoded (preprocess (withoutMark '?' "?a=%20".toList))
      = .ok [("a".toList, " ".toList)] := by decide +kernel
  rw [read] at failed
  cases failed

end QjsLws.Url
