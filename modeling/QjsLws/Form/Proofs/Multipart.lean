import QjsLws.Form.Multipart

/-!
# Multipart form data, proofs

With the line break in front of it, a body is its delimiters with the fields' segments between them
(`crlf_generate`). No delimiter stands in a segment, so the reader finds the segments again, and in them
the lines of the headers, unless a content type breaks its line.
-/

namespace QjsLws.Form

open QjsLws.Misc

/-! ## Line breaks -/

section Breaks

variable {t u : Text} {c : Char} {b : UInt8}

theorem mem_of_mem_utf8 (member : b ∈ utf8 t) (ascii : b.toNat < 128) : Char.ofNat b.toNat ∈ t := by
  obtain ⟨c, inside, byte⟩ := List.mem_flatMap.mp member
  have value := toNat_of_mem_utf8EncodeChar byte ascii
  rw [← value, Char.ofNat_toNat]
  exact inside

theorem breaksLine_eq_false : breaksLine t = false ↔ ∀ c ∈ t, c ≠ '\r' ∧ c ≠ '\n' := by
  rw [breaksLine, List.any_eq_false]
  simp

/-- A line without a CR has no line break. -/
theorem not_crlf (fine : breaksLine t = false) : ¬crlf <:+: utf8 t := by
  intro inside
  have member := mem_of_mem_utf8 (inside.subset List.mem_cons_self) (by decide)
  exact (breaksLine_eq_false.mp fine _ member).1 rfl

@[simp] theorem breaksLine_append : breaksLine (t ++ u) = (breaksLine t || breaksLine u) := List.any_append

end Breaks

/-! ## Quoted strings -/

section Quoted

variable {s t rest : Text} {c : Char}

theorem escapeQuoted_cons (c : Char) (s : Text) : escapeQuoted (c :: s)
    = (if c = '\\' then ['\\', '\\'] else if c = '"' then ['\\', '"'] else [c]) ++ escapeQuoted s := by
  rw [escapeQuoted, List.flatMap_cons, List.flatMap_append, ← escapeQuoted]
  congr 1
  by_cases backslash : c = '\\'
  · subst backslash
    rfl
  · rw [if_neg backslash, if_neg backslash]
    exact List.append_nil _

/-- The reader undoes the escapes. -/
theorem readQuoted_escape (s rest : Text) :
    readQuoted (escapeQuoted s ++ '"' :: rest) = some (s, rest) := by
  induction s with
  | nil => rfl
  | cons c s ih =>
    rw [escapeQuoted_cons]
    by_cases backslash : c = '\\'
    · subst backslash
      rw [if_pos rfl]
      change readQuoted ('\\' :: '\\' :: (escapeQuoted s ++ '"' :: rest)) = _
      rw [readQuoted, ih]
      rfl
    · rw [if_neg backslash]
      by_cases quote : c = '"'
      · subst quote
        rw [if_pos rfl]
        change readQuoted ('\\' :: '"' :: (escapeQuoted s ++ '"' :: rest)) = _
        rw [readQuoted, ih]
        rfl
      · rw [if_neg quote]
        change readQuoted (c :: (escapeQuoted s ++ '"' :: rest)) = _
        rw [readQuoted, if_neg quote, ih]
        · rfl
        · intro d u same
          exact absurd same backslash

theorem mem_escape (member : c ∈ escapeQuoted s) : c ∈ s ∨ c = '\\' := by
  induction s with
  | nil => cases member
  | cons d s ih =>
    rw [escapeQuoted_cons, List.mem_append] at member
    rcases member with here | later
    · split at here
      · exact .inr (by simpa using here)
      · split at here
        · rename_i quote
          rcases List.mem_cons.mp here with backslash | same
          · exact .inr backslash
          · exact .inl (by simp [quote, List.mem_singleton.mp same])
        · exact .inl (List.mem_cons.mpr (.inl (List.mem_singleton.mp here)))
    · exact (ih later).imp_left (List.mem_cons_of_mem _)

theorem breaksLine_escape (fine : breaksLine s = false) : breaksLine (escapeQuoted s) = false := by
  rw [breaksLine_eq_false] at fine ⊢
  intro c member
  rcases mem_escape member with inside | rfl
  · exact fine c inside
  · decide

theorem quotedString_ok {label : Text} (fine : breaksLine s = false) :
    quotedString s label = .ok (escapeQuoted s) := by
  rw [quotedString, fine, if_neg Bool.false_ne_true]

theorem quotedString_error {label : Text} (breaks : breaksLine s = true) :
    ∃ e, quotedString s label = .error e := ⟨_, if_pos breaks⟩

end Quoted

/-! ## The bytes of a body -/

section Encode

variable {random : RandomBoundary} {boundary name : Text} {value : FieldInput}
  {fields : List (Text × FieldInput)}

/-- The name of the field, and of the file, are accepted. -/
def Accepted (name : Text) (value : FieldInput) : Prop :=
  breaksLine name = false ∧ ∀ f, value = .file f → breaksLine f.name = false

/-- The parameters of the disposition. -/
def dispositionParams (name : Text) : FieldInput → Text
  | .string _ => "; name=\"".toList ++ (escapeQuoted name ++ ['"'])
  | .file f => "; name=\"".toList ++ (escapeQuoted name ++ '"' :: ("; filename=\"".toList ++
    (escapeQuoted f.name ++ ['"'])))

/-- The header lines of a field. -/
def headLines (name : Text) (value : FieldInput) : List Text :=
  ("Content-Disposition: form-data".toList ++ dispositionParams name value) ::
    match value with
    | .string _ => []
    | .file f => ["Content-Type: ".toList ++ f.contentType]

/-- The lines, each after a line break. -/
def brokenLines (lines : List Text) : List UInt8 := lines.flatMap fun line => crlf ++ utf8 line

/-- What stands between two delimiters. -/
def segment (name : Text) (value : FieldInput) : List UInt8 :=
  brokenLines (headLines name value ++ [[]]) ++ (crlf ++ value.content)

/-- What stands after the first delimiter. -/
def afterFirst (boundary : Text) : List (Text × FieldInput) → List UInt8
  | [] => utf8 "--\r\n".toList
  | (name, value) :: fields =>
    segment name value ++ (delimiter boundary ++ afterFirst boundary fields)

theorem brokenLines_one (line : Text) :
    crlf ++ utf8 (line ++ "\r\n\r\n".toList) = brokenLines ([line] ++ [[]]) ++ crlf := by
  have breaks : utf8 "\r\n\r\n".toList = crlf ++ crlf := rfl
  rw [utf8_append, breaks, brokenLines, List.singleton_append, List.flatMap_cons, List.flatMap_cons,
    List.flatMap_nil, utf8_nil]
  simp only [List.append_assoc, List.append_nil]

theorem brokenLines_two (line next : Text) :
    crlf ++ utf8 (line ++ ("\r\n".toList ++ (next ++ "\r\n\r\n".toList)))
      = brokenLines ([line, next] ++ [[]]) ++ crlf := by
  have one := brokenLines_one next
  have newline : utf8 "\r\n".toList = crlf := rfl
  have shape : brokenLines ([line, next] ++ [[]]) = crlf ++ utf8 line ++ brokenLines ([next] ++ [[]]) :=
    List.flatMap_cons
  rw [shape, utf8_append, utf8_append, newline, one]
  simp only [List.append_assoc]

/-- The literals of the encoder, cut where the lines are. -/
theorem head_string (quoted : Text) :
    "Content-Disposition: form-data; name=\"".toList ++ quoted ++ "\"\r\n\r\n".toList
      = "Content-Disposition: form-data".toList ++ ("; name=\"".toList ++ (quoted ++ ['"'])) ++
        "\r\n\r\n".toList := by
  have front : "Content-Disposition: form-data; name=\"".toList
      = "Content-Disposition: form-data".toList ++ "; name=\"".toList := by decide
  have back : "\"\r\n\r\n".toList = ['"'] ++ "\r\n\r\n".toList := by decide
  refine (congrArg₂ (fun a b => a ++ quoted ++ b) front back).trans ?_
  simp only [List.append_assoc]

theorem head_file (quoted file type : Text) :
    "Content-Disposition: form-data; name=\"".toList ++ quoted ++ "\"; filename=\"".toList ++ file ++
        "\"\r\nContent-Type: ".toList ++ type ++ "\r\n\r\n".toList
      = "Content-Disposition: form-data".toList ++ ("; name=\"".toList ++ (quoted ++ '"' ::
          ("; filename=\"".toList ++ (file ++ ['"'])))) ++
        ("\r\n".toList ++ ("Content-Type: ".toList ++ type ++ "\r\n\r\n".toList)) := by
  have front : "Content-Disposition: form-data; name=\"".toList
      = "Content-Disposition: form-data".toList ++ "; name=\"".toList := by decide
  have middle : "\"; filename=\"".toList = ['"'] ++ "; filename=\"".toList := by decide
  have back : "\"\r\nContent-Type: ".toList = ['"'] ++ ("\r\n".toList ++ "Content-Type: ".toList) := by
    decide
  refine (congrArg₂ (fun a b => a ++ quoted ++ b ++ file ++ "\"\r\nContent-Type: ".toList ++ type ++
    "\r\n\r\n".toList) front middle).trans ?_
  refine (congrArg (fun c => "Content-Disposition: form-data".toList ++ "; name=\"".toList ++ quoted ++
    (['"'] ++ "; filename=\"".toList) ++ file ++ c ++ type ++ "\r\n\r\n".toList) back).trans ?_
  simp only [List.append_assoc, List.cons_append, List.nil_append]

theorem fieldHead_ok (accepted : Accepted name value) : ∃ head, fieldHead name value = .ok head ∧
    crlf ++ utf8 head = brokenLines (headLines name value ++ [[]]) ++ crlf := by
  cases value with
  | string t =>
    have written : fieldHead name (.string t) = .ok ("Content-Disposition: form-data; name=\"".toList ++
        escapeQuoted name ++ "\"\r\n\r\n".toList) := by
      simp only [fieldHead, quotedString_ok accepted.1, bind, Except.bind, pure, Except.pure]
    refine ⟨_, written, ?_⟩
    rw [head_string]
    exact brokenLines_one _
  | file f =>
    have written : fieldHead name (.file f) = .ok ("Content-Disposition: form-data; name=\"".toList ++
        escapeQuoted name ++ "\"; filename=\"".toList ++ escapeQuoted f.name ++
        "\"\r\nContent-Type: ".toList ++ f.contentType ++ "\r\n\r\n".toList) := by
      simp only [fieldHead, quotedString_ok accepted.1, quotedString_ok (accepted.2 f rfl), bind,
        Except.bind, pure, Except.pure]
    refine ⟨_, written, ?_⟩
    rw [head_file]
    exact brokenLines_two _ _

theorem fieldHead_error (rejected : breaksLine name = true ∨
    ∃ f, value = .file f ∧ breaksLine f.name = true) : ∃ e, fieldHead name value = .error e := by
  cases named : breaksLine name with
  | true =>
    obtain ⟨e, failed⟩ := @quotedString_error name "field name".toList named
    cases value with
    | string t => exact ⟨e, by rw [fieldHead, failed]; rfl⟩
    | file f => exact ⟨e, by rw [fieldHead, failed]; rfl⟩
  | false =>
    obtain ⟨f, rfl, breaks⟩ := rejected.resolve_left (by simp [named])
    obtain ⟨e, failed⟩ := @quotedString_error f.name "file name".toList breaks
    exact ⟨e, by rw [fieldHead, quotedString_ok named, failed]; rfl⟩

theorem flatMap_chunks (value : FieldInput) :
    value.chunks.flatMap StreamChunk.utf8 = value.content := by
  cases value with
  | string t => exact List.append_nil _
  | file f => rfl

/-- With a line break in front, what is yielded is the delimiters and the segments. -/
theorem crlf_generate (accepted : ∀ field ∈ fields, Accepted field.1 field.2) :
    ∃ chunks, generate boundary fields = (chunks, none) ∧
      crlf ++ chunks.flatMap StreamChunk.utf8 = delimiter boundary ++ afterFirst boundary fields := by
  induction fields with
  | nil =>
    refine ⟨_, rfl, ?_⟩
    rw [List.flatMap_cons, List.flatMap_nil, StreamChunk.utf8, delimiter, afterFirst, utf8_append,
      List.append_nil, List.append_assoc]
  | cons field fields ih =>
    obtain ⟨name, value⟩ := field
    obtain ⟨later, yields, bytes⟩ := ih fun f member => accepted f (List.mem_cons_of_mem _ member)
    obtain ⟨head, written, lines⟩ := fieldHead_ok (accepted (name, value) List.mem_cons_self)
    refine ⟨_, by rw [generate, written, yields], ?_⟩
    have newline : utf8 "\r\n".toList = crlf := rfl
    simp only [List.flatMap_cons, List.flatMap_append, List.cons_append, StreamChunk.utf8, flatMap_chunks,
      utf8_append, newline, List.append_assoc]
    rw [bytes, afterFirst, segment, delimiter, utf8_append]
    calc _ = (crlf ++ (utf8 "--".toList ++ utf8 boundary)) ++ ((crlf ++ utf8 head) ++ (value.content ++
          (crlf ++ (utf8 "--".toList ++ utf8 boundary) ++ afterFirst boundary fields))) := by
          simp only [List.append_assoc]
      _ = _ := by
          rw [lines]
          simp only [List.append_assoc]

theorem generate_rejected (rejected : Rejected fields) :
    ∃ chunks e, generate boundary fields = (chunks, some e) := by
  induction fields with
  | nil =>
    obtain ⟨field, member, -⟩ := rejected
    cases member
  | cons field fields ih =>
    obtain ⟨name, value⟩ := field
    rw [generate]
    cases written : fieldHead name value with
    | error e => exact ⟨_, e, rfl⟩
    | ok head =>
      have later : Rejected fields := by
        obtain ⟨field, member, breaks⟩ := rejected
        rcases List.mem_cons.mp member with rfl | inside
        · obtain ⟨e, failed⟩ := fieldHead_error breaks
          rw [written] at failed
          cases failed
        · exact ⟨field, inside, breaks⟩
      obtain ⟨chunks, e, same⟩ := ih later
      rw [same]
      exact ⟨_, e, rfl⟩

end Encode

/-! ## The reader finds the fields -/

section Read

variable {random : RandomBoundary} {boundary name value key after : Text} {line bytes content : List UInt8}
  {lines : List Text} {fields : List (Text × FieldInput)}

theorem cut_crlf (free : ¬crlf <:+: line) (rest : List UInt8) :
    cut crlf (line ++ crlf ++ rest) = some (line, rest) :=
  cut_append (by decide) free

/-- The lines of the headers. -/
theorem readLines_eq (lines : List Text) (content : List UInt8)
    (whole : ∀ line ∈ lines, (∃ t, line = 'C' :: t) ∧ breaksLine line = false) : ∀ fuel, lines.length < fuel →
      readLines fuel ((lines.flatMap fun line => utf8 line ++ crlf) ++ (crlf ++ content))
        = some (lines.map utf8, content) := by
  induction lines with
  | nil =>
    intro fuel enough
    obtain ⟨fuel, rfl⟩ := Nat.exists_eq_add_one_of_ne_zero (Nat.ne_of_gt enough)
    have found := @cut_crlf [] (by decide) content
    rw [List.nil_append] at found
    rw [List.flatMap_nil, List.nil_append, readLines, found]
    rfl
  | cons line lines ih =>
    intro fuel enough
    rw [List.length_cons] at enough
    obtain ⟨fuel, rfl⟩ := Nat.exists_eq_add_one_of_ne_zero (Nat.ne_of_gt (Nat.zero_lt_of_lt enough))
    obtain ⟨⟨t, rfl⟩, free⟩ := whole line List.mem_cons_self
    have rest := ih (fun l member => whole l (List.mem_cons_of_mem _ member)) fuel (by omega)
    have found := cut_crlf (not_crlf free)
      ((lines.flatMap fun line => utf8 line ++ crlf) ++ (crlf ++ content))
    rw [List.flatMap_cons, List.append_assoc, readLines, found, Option.bind_some]
    dsimp only
    rw [if_neg (utf8_ne_nil (List.cons_ne_nil _ _)), rest]
    rfl

theorem readHeader_eq (absent : ':' ∉ name) (value : Text) :
    readHeader (name ++ ':' :: ' ' :: value) = (asciiLower name, value) := by
  rw [readHeader, takeWhile_until absent, dropWhile_until absent]
  rfl

theorem readParams_cons (absent : '=' ∉ key) (value after : Text) (fuel : Nat) :
    readParams (fuel + 1) (';' :: ' ' :: (key ++ '=' :: '"' :: (escapeQuoted value ++ '"' :: after)))
      = (readParams fuel after).map ((key, value) :: ·) := by
  rw [readParams, takeWhile_until absent, dropWhile_until absent]
  change (readQuoted (escapeQuoted value ++ '"' :: after)).bind
    (fun x => (readParams fuel x.2).map ((key, x.1) :: ·)) = _
  rw [readQuoted_escape, Option.bind_some]

/-- The parameters of the disposition. -/
def paramsOf (name : Text) : FieldInput → List (Text × Text)
  | .string _ => [("name".toList, name)]
  | .file f => [("name".toList, name), ("filename".toList, f.name)]

theorem readParams_end (fuel : Nat) : readParams fuel [] = some [] := by
  cases fuel <;> rfl

/-- A literal of the encoder is the front of a parameter. -/
theorem readParams_literal {literal : Text} (front : literal = ';' :: ' ' :: (key ++ ['=', '"']))
    (absent : '=' ∉ key) (value after : Text) (fuel : Nat) :
    readParams (fuel + 1) (literal ++ (escapeQuoted value ++ '"' :: after))
      = (readParams fuel after).map ((key, value) :: ·) := by
  rw [front, ← readParams_cons absent]
  simp only [List.cons_append, List.append_assoc, List.nil_append]

theorem dispositionParams_string (name t : Text) : dispositionParams name (.string t)
    = "; name=\"".toList ++ (escapeQuoted name ++ ['"']) := rfl

theorem dispositionParams_file (name : Text) (f : File) : dispositionParams name (.file f)
    = "; name=\"".toList ++ (escapeQuoted name ++ '"' :: ("; filename=\"".toList ++
      (escapeQuoted f.name ++ ['"']))) := rfl

theorem readParams_disposition (name : Text) (value : FieldInput) (fuel : Nat) :
    readParams (fuel + 2) (dispositionParams name value) = some (paramsOf name value) := by
  have named : "; name=\"".toList = ';' :: ' ' :: ("name".toList ++ ['=', '"']) := by decide
  have filed : "; filename=\"".toList = ';' :: ' ' :: ("filename".toList ++ ['=', '"']) := by decide
  cases value with
  | string t =>
    rw [dispositionParams_string, readParams_literal named (by decide), readParams_end]
    rfl
  | file f =>
    rw [dispositionParams_file, readParams_literal named (by decide), readParams_literal filed (by decide),
      readParams_end]
    rfl

theorem readDisposition_eq (name : Text) (value : FieldInput) :
    readDisposition ("form-data".toList ++ dispositionParams name value) = some (paramsOf name value) := by
  have nine : "form-data".toList.length = 9 := by decide
  obtain ⟨k, enough⟩ : ∃ k, ("form-data".toList ++ dispositionParams name value).length = k + 2 := by
    refine ⟨(dispositionParams name value).length + 7, ?_⟩
    rw [List.length_append, nine]
    omega
  have begins := List.isPrefixOf_iff_prefix.mpr
    (List.prefix_append "form-data".toList (dispositionParams name value))
  unfold readDisposition
  exact (if_pos begins).trans (by
    rw [enough, List.drop_left]
    exact readParams_disposition name value k)

/-- A content type that stays in its line, or is replaced. -/
def Inline (value : FieldInput) : Prop := ∀ f, value = .file f → breaksLine f.type = false

theorem File.breaks_contentType {f : File} (inline : breaksLine f.type = false) :
    breaksLine f.contentType = false := by
  unfold File.contentType
  split
  · decide
  · exact inline

/-- The lines have no line breaks, and begin with a letter. -/
theorem headLines_whole {value : FieldInput} (accepted : Accepted name value) (inline : Inline value) :
    ∀ line ∈ headLines name value, (∃ t, line = 'C' :: t) ∧ breaksLine line = false := by
  have named := breaksLine_escape accepted.1
  have front : breaksLine "Content-Disposition: form-data".toList = false := by decide
  have opens : breaksLine "; name=\"".toList = false := by decide
  have quote : breaksLine ['"'] = false := by decide
  intro line member
  rcases List.mem_cons.mp member with rfl | later
  · refine ⟨⟨_, rfl⟩, ?_⟩
    rw [breaksLine_append, front, Bool.false_or]
    cases value with
    | string t => rw [dispositionParams_string, breaksLine_append, breaksLine_append, opens, named, quote]; rfl
    | file f =>
      have next : breaksLine "; filename=\"".toList = false := by decide
      have split : ∀ t : Text, '"' :: t = ['"'] ++ t := fun _ => rfl
      rw [dispositionParams_file, split, breaksLine_append, breaksLine_append, breaksLine_append,
        breaksLine_append, breaksLine_append, opens, named, quote, next,
        breaksLine_escape (accepted.2 f rfl)]
      rfl
  · cases value with
    | string t => cases later
    | file f =>
      obtain rfl := List.mem_singleton.mp later
      have kind : breaksLine "Content-Type: ".toList = false := by decide
      refine ⟨⟨_, rfl⟩, ?_⟩
      rw [breaksLine_append, kind, Bool.false_or]
      exact File.breaks_contentType (inline f rfl)

theorem brokenLines_last (lines : List Text) :
    brokenLines (lines ++ [[]]) = crlf ++ lines.flatMap fun line => utf8 line ++ crlf := by
  induction lines with
  | nil => rfl
  | cons line lines ih =>
    have shape : brokenLines (line :: lines ++ [[]]) = crlf ++ utf8 line ++ brokenLines (lines ++ [[]]) :=
      List.flatMap_cons
    rw [shape, ih, List.flatMap_cons]
    simp only [List.append_assoc]

theorem length_le_lines (lines : List Text) :
    lines.length ≤ (lines.flatMap fun line => utf8 line ++ crlf).length := by
  induction lines with
  | nil => exact Nat.zero_le _
  | cons line lines ih =>
    have two : crlf.length = 2 := rfl
    rw [List.flatMap_cons, List.length_append, List.length_append, List.length_cons, two]
    omega

theorem mapM_readLine (fine : ∀ line ∈ lines, breaksLine line = false) :
    (lines.map utf8).mapM readLine = some lines := by
  induction lines with
  | nil => rfl
  | cons line lines ih =>
    have here : readLine (utf8 line) = some line := by
      rw [readLine, decodeUtf8_utf8, Except.toOption, Option.filter_some, fine line List.mem_cons_self]
      rfl
    rw [List.map_cons, List.mapM_cons, here, ih fun l member => fine l (List.mem_cons_of_mem _ member)]
    rfl

theorem readHeader_disposition (t : Text) :
    readHeader ("Content-Disposition: form-data".toList ++ t)
      = ("content-disposition".toList, "form-data".toList ++ t) := by
  have split : "Content-Disposition: form-data".toList
      = "Content-Disposition".toList ++ ':' :: ' ' :: "form-data".toList := by decide
  have lower : asciiLower "Content-Disposition".toList = "content-disposition".toList := by decide
  have absent : ':' ∉ "Content-Disposition".toList := by decide
  rw [split, List.append_assoc, List.cons_append, List.cons_append, readHeader_eq absent, lower]

theorem readHeader_type (t : Text) :
    readHeader ("Content-Type: ".toList ++ t) = ("content-type".toList, t) := by
  have split : "Content-Type: ".toList = "Content-Type".toList ++ [':', ' '] := by decide
  have lower : asciiLower "Content-Type".toList = "content-type".toList := by decide
  have absent : ':' ∉ "Content-Type".toList := by decide
  rw [split, List.append_assoc, List.cons_append, List.cons_append, List.nil_append, readHeader_eq absent,
    lower]

theorem find_here (key value : Text) (l : List (Text × Text)) :
    ((key, value) :: l).find? (fun x => decide (x.1 = key)) = some (key, value) :=
  List.find?_cons_of_pos (decide_eq_true rfl)

theorem find_later {name : Text} (other : key ≠ name) (value : Text) (l : List (Text × Text)) :
    ((key, value) :: l).find? (fun x => decide (x.1 = name)) = l.find? fun x => decide (x.1 = name) := by
  rw [List.find?_cons_of_neg]
  rwa [decide_eq_true_eq]

/-- The part of a segment. -/
theorem readPart_segment {value : FieldInput} (accepted : Accepted name value) (inline : Inline value) :
    readPart (segment name value) = some (partOf name value) := by
  have whole := headLines_whole accepted inline
  have shape : segment name value = crlf ++ (((headLines name value).flatMap fun line =>
      utf8 line ++ crlf) ++ (crlf ++ value.content)) := by
    rw [segment, brokenLines_last, List.append_assoc]
  have enough : (headLines name value).length < (segment name value).length := by
    have two : crlf.length = 2 := rfl
    have bound := length_le_lines (headLines name value)
    rw [shape, List.length_append, List.length_append, two]
    omega
  have read := readLines_eq (headLines name value) value.content whole _ enough
  have texts := mapM_readLine fun line member => (whole line member).2
  have skip : ∀ x : List UInt8, (crlf ++ x).dropWhile (fun b => b = 32 || b = 9) = crlf ++ x :=
    fun _ => rfl
  have later : ∀ x : List UInt8, (crlf ++ x).drop 2 = x := fun _ => rfl
  rw [shape] at read ⊢
  unfold readPart
  simp only [skip, later]
  rw [if_pos (List.isPrefixOf_iff_prefix.mpr (List.prefix_append ..)), read, Option.bind_some]
  simp only []
  rw [texts, Option.bind_some]
  have disposition : (headLines name value).map readHeader
      = ("content-disposition".toList, "form-data".toList ++ dispositionParams name value) ::
        (headLines name value).tail.map readHeader := by
    rw [← readHeader_disposition]
    rfl
  rw [disposition, find_here, Option.map_some, Option.bind_some, readDisposition_eq, Option.bind_some]
  have typed : "content-disposition".toList ≠ "content-type".toList := by decide
  have filed : "name".toList ≠ "filename".toList := by decide
  rw [find_later typed]
  cases value with
  | string t =>
    rw [paramsOf, find_here, find_later filed]
    rfl
  | file f =>
    have kind : (headLines name (.file f)).tail.map readHeader
        = [("content-type".toList, f.contentType)] := by
      rw [← readHeader_type]
      rfl
    rw [paramsOf, find_here, find_later filed, find_here, kind, find_here]
    rfl

theorem delimiter_eq (random : RandomBoundary) : ∃ q, delimiter random.boundary = 13 :: q ∧ 13 ∉ q := by
  refine ⟨10 :: utf8 ("--".toList ++ random.boundary), rfl, ?_⟩
  intro member
  rcases List.mem_cons.mp member with same | inside
  · cases same
  · have char : '\r' ∈ "--".toList ++ random.boundary := mem_of_mem_utf8 inside (by decide)
    rcases List.mem_append.mp char with dashes | named
    · exact absurd dashes (by decide)
    · rcases List.mem_append.mp named with literal | digit
      · exact absurd literal (by decide)
      · exact absurd (random.hex _ digit) (by decide)

/-- No delimiter stands in a line, or straddles one. -/
theorem not_infix_lines {y : List UInt8} (undelimited : ¬delimiter random.boundary <:+: 13 :: y)
    (fine : ∀ line ∈ lines, (line = [] ∨ ∃ t, line = 'C' :: t) ∧ breaksLine line = false) :
    ¬delimiter random.boundary <:+: brokenLines lines ++ 13 :: y := by
  obtain ⟨q, shape, once⟩ := delimiter_eq random
  induction lines with
  | nil => exact undelimited
  | cons line lines ih =>
    have rest := ih fun l member => fine l (List.mem_cons_of_mem _ member)
    obtain ⟨other, free⟩ := fine line List.mem_cons_self
    have front : ¬delimiter random.boundary <:+: crlf ++ utf8 line := by
      intro inside
      rcases List.infix_cons_iff.mp inside with ⟨after, begins⟩ | later
      · obtain ⟨tail, same⟩ : ∃ tail, (45 : UInt8) :: tail = utf8 line :=
          ⟨_, (List.cons.inj (List.cons.inj begins).2).2⟩
        rcases other with rfl | ⟨t, rfl⟩
        · cases same
        · exact absurd (List.cons.inj same).1 (by decide)
      · have member : (13 : UInt8) ∈ 10 :: utf8 line := later.subset (by rw [shape]; exact List.mem_cons_self)
        rcases List.mem_cons.mp member with ten | cr
        · exact absurd ten (by decide)
        · exact (breaksLine_eq_false.mp free _ (mem_of_mem_utf8 cr (by decide))).1 rfl
    obtain ⟨z, begins⟩ : ∃ z, brokenLines lines ++ 13 :: y = 13 :: z := by
      cases lines with
      | nil => exact ⟨_, rfl⟩
      | cons next lines => exact ⟨_, rfl⟩
    have split : brokenLines (line :: lines) ++ 13 :: y
        = (crlf ++ utf8 line) ++ (brokenLines lines ++ 13 :: y) := by
      rw [brokenLines, List.flatMap_cons, List.append_assoc]
      rfl
    rw [split, begins]
    rw [shape] at front ⊢
    rw [shape, begins] at rest
    exact not_infix_append once front rest

/-- No delimiter stands in a segment. -/
theorem not_infix_segment {value : FieldInput} (accepted : Accepted name value) (inline : Inline value)
    (undelimited : ¬delimiter random.boundary <:+: crlf ++ value.content) :
    ¬delimiter random.boundary <:+: segment name value := by
  refine not_infix_lines undelimited ?_
  intro line member
  rcases List.mem_append.mp member with inside | last
  · have whole := headLines_whole accepted inline line inside
    exact ⟨.inr whole.1, whole.2⟩
  · obtain rfl := List.mem_singleton.mp last
    exact ⟨.inl rfl, rfl⟩

theorem readParts_afterFirst (accepted : ∀ field ∈ fields, Accepted field.1 field.2)
    (inline : ∀ field ∈ fields, Inline field.2) (undelimited : Undelimited random fields) :
    ∀ fuel, fields.length < fuel → readParts random.boundary fuel (afterFirst random.boundary fields)
      = some (fields.map fun field => partOf field.1 field.2) := by
  obtain ⟨q, shape, once⟩ := delimiter_eq random
  induction fields with
  | nil =>
    intro fuel enough
    obtain ⟨fuel, rfl⟩ := Nat.exists_eq_add_one_of_ne_zero (Nat.ne_of_gt enough)
    rfl
  | cons field fields ih =>
    obtain ⟨name, value⟩ := field
    intro fuel enough
    rw [List.length_cons] at enough
    obtain ⟨fuel, rfl⟩ := Nat.exists_eq_add_one_of_ne_zero (Nat.ne_of_gt (Nat.zero_lt_of_lt enough))
    have rest := ih (fun f member => accepted f (List.mem_cons_of_mem _ member))
      (fun f member => inline f (List.mem_cons_of_mem _ member))
      (fun f member => undelimited f (List.mem_cons_of_mem _ member)) fuel (by omega)
    have here : Accepted name value := accepted (name, value) List.mem_cons_self
    have whole : Inline value := inline (name, value) List.mem_cons_self
    have free := not_infix_segment here whole (undelimited (name, value) List.mem_cons_self)
    have found : cut (delimiter random.boundary) (segment name value ++
        (delimiter random.boundary ++ afterFirst random.boundary fields))
          = some (segment name value, afterFirst random.boundary fields) := by
      rw [shape] at free ⊢
      rw [← List.append_assoc]
      exact cut_append once free
    have opens : ¬List.isPrefixOf [45, 45] (segment name value ++
        (delimiter random.boundary ++ afterFirst random.boundary fields)) = true := by
      have first : segment name value = 13 :: (segment name value).drop 1 := rfl
      rw [first]
      exact Bool.false_ne_true
    rw [afterFirst, readParts, if_neg opens, found, Option.bind_some]
    dsimp only
    rw [readPart_segment here whole, Option.bind_some, rest]
    rfl

end Read

/-! ## The main result -/

section Main

variable {random : RandomBoundary} {name : Text} {line t : Text} {bytes : List UInt8} {part : MimePart}
  {parts : List MimePart} {fields : List (Text × FieldInput)}

theorem breaksLine_of_subset {u : Text} (inside : u ⊆ t) (fine : breaksLine t = false) :
    breaksLine u = false :=
  breaksLine_eq_false.mpr fun c member => breaksLine_eq_false.mp fine c (inside member)

theorem readHeader_subset (line : Text) : (readHeader line).2 ⊆ line := by
  have value : (line.dropWhile (· ≠ ':')).drop 1 <:+ line :=
    (List.drop_suffix _ _).trans (List.dropWhile_suffix _)
  rw [readHeader]
  dsimp only
  split
  · exact ((List.drop_suffix _ _).trans value).subset
  · exact value.subset

theorem readLine_fine {b : List UInt8} (read : readLine b = some t) : breaksLine t = false := by
  have kept := (Option.filter_eq_some_iff.mp read).2
  simpa using kept

theorem mapM_fine : ∀ {lines : List (List UInt8)} {texts : List Text}, lines.mapM readLine = some texts →
    ∀ line ∈ texts, breaksLine line = false := by
  intro lines
  induction lines with
  | nil =>
    intro texts decoded line member
    cases decoded
    cases member
  | cons l lines ih =>
    intro texts decoded line member
    rw [List.mapM_cons] at decoded
    obtain ⟨t, here, decoded⟩ := Option.bind_eq_some_iff.mp decoded
    obtain ⟨later, tail, same⟩ := Option.bind_eq_some_iff.mp decoded
    obtain rfl : t :: later = texts := Option.some.inj same
    rcases List.mem_cons.mp member with rfl | inside
    · exact readLine_fine here
    · exact ih tail line inside

/-- The content type that is read has no line break. -/
theorem readPart_type (read : readPart bytes = some part) (typed : part.type = some t) :
    breaksLine t = false := by
  unfold readPart at read
  dsimp only at read
  split at read
  · obtain ⟨⟨lines, content⟩, -, read⟩ := Option.bind_eq_some_iff.mp read
    obtain ⟨texts, decoded, read⟩ := Option.bind_eq_some_iff.mp read
    obtain ⟨disposition, -, read⟩ := Option.bind_eq_some_iff.mp read
    obtain ⟨params, -, read⟩ := Option.bind_eq_some_iff.mp read
    obtain ⟨name, -, rfl⟩ := Option.map_eq_some_iff.mp read
    obtain ⟨header, found, rfl⟩ := Option.map_eq_some_iff.mp typed
    obtain ⟨line, member, rfl⟩ := List.mem_map.mp (List.mem_of_find?_eq_some found)
    exact breaksLine_of_subset (readHeader_subset line) (mapM_fine decoded line member)
  · cases read

theorem readParts_type {boundary : Text} : ∀ {fuel bytes parts}, readParts boundary fuel bytes = some parts →
    ∀ part ∈ parts, ∀ t, part.type = some t → breaksLine t = false := by
  intro fuel
  induction fuel with
  | zero =>
    intro bytes parts read
    cases read
  | succ fuel ih =>
    intro bytes parts read part member t typed
    rw [readParts] at read
    split at read
    · cases read
      cases member
    · obtain ⟨⟨segment, rest⟩, -, read⟩ := Option.bind_eq_some_iff.mp read
      obtain ⟨first, here, read⟩ := Option.bind_eq_some_iff.mp read
      obtain ⟨later, tail, rfl⟩ := Option.map_eq_some_iff.mp read
      rcases List.mem_cons.mp member with rfl | inside
      · exact readPart_type here typed
      · exact ih tail part inside t typed

theorem length_lt_afterFirst (boundary : Text) (fields : List (Text × FieldInput)) :
    fields.length < (afterFirst boundary fields).length := by
  induction fields with
  | nil => exact Nat.zero_lt_succ _
  | cons field fields ih =>
    obtain ⟨name, value⟩ := field
    have two : (delimiter boundary).length = 1 + (10 :: utf8 ("--".toList ++ boundary)).length := by
      rw [Nat.add_comm]
      rfl
    rw [afterFirst, List.length_append, List.length_append, List.length_cons, two]
    omega

theorem accepted_of_not (fine : ¬Rejected fields) : ∀ field ∈ fields, Accepted field.1 field.2 := by
  intro field member
  constructor
  · by_contra breaks
    exact fine ⟨field, member, .inl (by simpa using breaks)⟩
  · intro f same
    by_contra breaks
    exact fine ⟨field, member, .inr ⟨f, same, by simpa using breaks⟩⟩

/-- The body of accepted fields. -/
theorem multipart_accepted (accepted : ∀ field ∈ fields, Accepted field.1 field.2) :
    ∃ body, multipart random fields = .ok body ∧
      crlf ++ body = delimiter random.boundary ++ afterFirst random.boundary fields := by
  obtain ⟨chunks, yields, bytes⟩ := @crlf_generate random.boundary _ accepted
  exact ⟨_, by rw [multipart, yields], bytes⟩

theorem readMultipart_accepted {body : List UInt8} (accepted : ∀ field ∈ fields, Accepted field.1 field.2)
    (inline : ∀ field ∈ fields, Inline field.2) (undelimited : Undelimited random fields)
    (bytes : crlf ++ body = delimiter random.boundary ++ afterFirst random.boundary fields) :
    readMultipart random.boundary body = some (fields.map fun field => partOf field.1 field.2) := by
  obtain ⟨q, shape, once⟩ := delimiter_eq random
  have first : cut (delimiter random.boundary)
      (delimiter random.boundary ++ afterFirst random.boundary fields)
        = some ([], afterFirst random.boundary fields) := by
    rw [shape]
    exact @cut_append _ 13 q [] _ _ once (by simp)
  have enough : fields.length < body.length := by
    have lengths := congrArg List.length bytes
    have two : crlf.length = 2 := rfl
    have four : 4 ≤ (delimiter random.boundary).length := Nat.le_add_left ..
    have bound := length_lt_afterFirst random.boundary fields
    rw [List.length_append, List.length_append, two] at lengths
    omega
  rw [readMultipart, bytes, first, Option.bind_some]
  exact readParts_afterFirst accepted inline undelimited _ enough

theorem roundTrips_of_rejected (rejected : Rejected fields) : RoundTrips random fields := by
  refine .inl ⟨?_, ?_⟩
  · obtain ⟨chunks, e, thrown⟩ := @generate_rejected random.boundary _ rejected
    exact ⟨e, by rw [multipart, thrown]⟩
  · obtain ⟨⟨name, value⟩, member, breaks⟩ := rejected
    refine ⟨_, member, ?_⟩
    cases value with
    | string t => exact breaks.resolve_right fun ⟨f, same, _⟩ => by cases same
    | file f =>
      rcases breaks with named | ⟨g, same, filed⟩
      · exact .inl named
      · cases same
        exact .inr (.inl filed)

/-- What is read as a content type is in one line. -/
theorem inline_of_roundTrips (fine : ¬Rejected fields) (trips : RoundTrips random fields) :
    ∀ field ∈ fields, Inline field.2 := by
  obtain ⟨body, encoded, bytes⟩ := @multipart_accepted random _ (accepted_of_not fine)
  rcases trips with ⟨⟨e, failed⟩, -⟩ | ⟨body', encoded', read⟩
  · rw [encoded] at failed
    cases failed
  · rw [readMultipart] at read
    obtain ⟨⟨before, rest⟩, -, read⟩ := Option.bind_eq_some_iff.mp read
    intro field member f same
    have typed := readParts_type read _ (List.mem_map_of_mem member) f.contentType (by rw [same]; rfl)
    unfold File.contentType at typed
    split at typed
    · rename_i empty
      rw [empty]
      rfl
    · exact typed

/-- Where no content contains the delimiter, encoding fails or the body gives the fields back exactly
where a name is rejected or no content type breaks its line: the type is written as it is. -/
theorem fields_roundTrip_iff (random : RandomBoundary) (fields : List (Text × FieldInput))
    (undelimited : Undelimited random fields) : RoundTrips random fields ↔
      Rejected fields ∨ ∀ field ∈ fields, Inline field.2 := by
  by_cases rejected : Rejected fields
  · exact iff_of_true (roundTrips_of_rejected rejected) (.inl rejected)
  · have accepted := accepted_of_not rejected
    obtain ⟨body, encoded, bytes⟩ := @multipart_accepted random _ accepted
    rw [or_iff_right rejected]
    constructor
    · exact inline_of_roundTrips rejected
    · intro inline
      exact .inr ⟨body, encoded, readMultipart_accepted accepted inline undelimited bytes⟩

/-- A boundary of zeros. -/
def zeros : RandomBoundary where
  digits := List.replicate 32 '0'
  hex := by
    intro c member
    rw [List.eq_of_mem_replicate member]
    decide
  length := List.length_replicate

/-- Contents shorter than the delimiter do not have it in them. -/
theorem undelimited_of_short
    (short : ∀ field ∈ fields, field.2.content.length + 2 < (delimiter random.boundary).length) :
    Undelimited random fields := by
  intro field member inside
  have bound := inside.length_le
  have two : crlf.length = 2 := rfl
  rw [List.length_append, two] at bound
  have less := short field member
  omega

/-- A note with a line break and dashes in it, and a file in two chunks. -/
def noteAndFile : List (Text × FieldInput) :=
  [("note".toList, .string "a\r\n--b".toList),
    ("f".toList, .file ⟨[.text "x\r\n".toList, .bytes [45, 45, 255]], "a\"b".toList, "text/plain".toList⟩)]

/-- The note and the file come back. -/
theorem roundTrips_plain : RoundTrips zeros noteAndFile := by
  refine (fields_roundTrip_iff zeros _ (undelimited_of_short (by decide))).mpr (.inr ?_)
  intro field member f same
  simp only [noteAndFile, List.mem_cons, List.not_mem_nil, or_false] at member
  rcases member with rfl | rfl
  · cases same
  · cases same
    decide

/-- A type with a line break is written, and does not come back. -/
theorem type_injected : ∃ fields, Undelimited zeros fields ∧ ¬RoundTrips zeros fields := by
  refine ⟨[("f".toList, .file ⟨[], "a".toList, "text/plain\r\nX-Injected: 1".toList⟩)],
    undelimited_of_short (by decide), ?_⟩
  · intro trips
    have fine : ¬Rejected [("f".toList, .file ⟨[], "a".toList, "text/plain\r\nX-Injected: 1".toList⟩)] := by
      rintro ⟨field, member, breaks⟩
      obtain rfl := List.mem_singleton.mp member
      rcases breaks with named | ⟨f, same, filed⟩
      · exact absurd named (by decide)
      · cases same
        exact absurd filed (by decide)
    exact absurd (inline_of_roundTrips fine trips _ List.mem_cons_self _ rfl) (by decide)

end Main

end QjsLws.Form
