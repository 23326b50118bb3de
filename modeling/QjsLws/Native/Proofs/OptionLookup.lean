import QjsLws.Native.OptionLookup
import QjsLws.Native.Proofs.CaseNames

/-!
# Options by name, proofs

On a name in snake_case `camelize` gives the camelCase spelling, and on that one the name in lower case
without underscores: `js_has_property2` looks for all three. A name in camelCase loses its capitals.
-/

namespace QjsLws.Native

open QjsLws.Misc

/-! ## Letters -/

section Letters

variable {b : UInt8} {name rest : List UInt8}

theorem tolower_of_not_upper (plain : isupper b = false) : tolower b = b := by
  rw [tolower, plain, if_neg Bool.false_ne_true]

theorem tolower_ne_of_upper (upper : isupper b = true) : tolower b ≠ b :=
  forall_byte (P := fun b => isupper b = true → tolower b ≠ b) (by decide +kernel) b upper

theorem tolower_toupper (plain : isupper b = false) : tolower (toupper b) = b :=
  forall_byte (P := fun b => isupper b = false → tolower (toupper b) = b) (by decide +kernel) b plain

theorem not_upper_of_word (word : islower b = true ∨ isdigit b = true) :
    isupper b = false ∧ b ≠ underscore :=
  forall_byte (P := fun b => (islower b = true ∨ isdigit b = true) → isupper b = false ∧ b ≠ underscore)
    (by decide +kernel) b word

theorem alnum_ne_underscore (alnum : islower b = true ∨ isupper b = true ∨ isdigit b = true) :
    b ≠ underscore :=
  forall_byte (P := fun b => (islower b = true ∨ isupper b = true ∨ isdigit b = true) → b ≠ underscore)
    (by decide +kernel) b alnum

end Letters

/-! ## Names -/

section Names

variable {name rest : List UInt8} {b c : UInt8}

/-- Every underscore has another byte behind it. -/
def spaced : List UInt8 → Bool
  | [] => true
  | [b] => b ≠ underscore
  | b :: c :: rest => if b = underscore then c ≠ underscore && spaced rest else spaced (c :: rest)

theorem spaced_cons (plain : b ≠ underscore) (rest : List UInt8) : spaced (b :: rest) = spaced rest := by
  cases rest with
  | nil => exact decide_eq_true plain
  | cons c rest => exact if_neg plain

theorem not_dangling_of_spaced (name : List UInt8) (fine : spaced name = true) : dangles name = false := by
  induction name using camelLength.induct with
  | case1 => rfl
  | case2 b => exact decide_eq_false (of_decide_eq_true fine)
  | case3 c rest ih =>
    rw [spaced, if_pos rfl, Bool.and_eq_true] at fine
    exact (if_pos rfl).trans (ih fine.2)
  | case4 b c rest plain ih =>
    rw [spaced, if_neg plain] at fine
    exact (if_neg plain).trans (ih fine)

theorem camelCase_cons (plain : b ≠ underscore) (rest : List UInt8) :
    camelCase (b :: rest) = tolower b :: camelCase rest := by
  cases rest with
  | nil => rfl
  | cons c rest => exact if_neg plain

theorem spaced_of_absent (absent : underscore ∉ name) : spaced name = true := by
  induction name with
  | nil => rfl
  | cons b rest ih =>
    rw [List.mem_cons, not_or] at absent
    rw [spaced_cons (Ne.symm absent.1), ih absent.2]

/-- Without underscores only the case changes. -/
theorem camelCase_of_absent (absent : underscore ∉ name) : camelCase name = name.map tolower := by
  induction name with
  | nil => rfl
  | cons b rest ih =>
    rw [List.mem_cons, not_or] at absent
    rw [camelCase_cons (Ne.symm absent.1), ih absent.2, List.map_cons]

theorem dangles_of_absent (absent : underscore ∉ name) : dangles name = false := by
  induction name with
  | nil => rfl
  | cons b rest ih =>
    rw [List.mem_cons, not_or] at absent
    cases rest with
    | nil => exact decide_eq_false (Ne.symm absent.1)
    | cons c rest => exact (if_neg (Ne.symm absent.1)).trans (ih absent.2)

/-- `camelize` gives a name without capitals its camelCase spelling. -/
theorem camelCase_eq_spelling (name : List UInt8) (plain : ∀ b ∈ name, isupper b = false) :
    camelCase name = camelSpelling name := by
  induction name using camelLength.induct with
  | case1 => rfl
  | case2 b => rw [camelCase, camelSpelling, tolower_of_not_upper (plain b List.mem_cons_self)]
  | case3 c rest ih =>
    rw [camelCase, if_pos rfl, camelSpelling, if_pos rfl,
      ih fun b member => plain b (List.mem_cons_of_mem _ (List.mem_cons_of_mem _ member))]
  | case4 b c rest other ih =>
    rw [camelCase, if_neg other, camelSpelling, if_neg other,
      tolower_of_not_upper (plain b List.mem_cons_self), ih fun b member =>
        plain b (List.mem_cons_of_mem _ member)]

theorem toupper_ne_underscore (other : b ≠ underscore) : toupper b ≠ underscore :=
  forall_byte (P := fun b => b ≠ underscore → toupper b ≠ underscore) (by decide +kernel) b other

/-- The camelCase spelling has no underscores left. -/
theorem camelSpelling_absent (name : List UInt8) (fine : spaced name = true) :
    underscore ∉ camelSpelling name := by
  induction name using camelLength.induct with
  | case1 => exact List.not_mem_nil
  | case2 b =>
    intro member
    exact of_decide_eq_true fine (List.mem_singleton.mp member).symm
  | case3 c rest ih =>
    rw [spaced, if_pos rfl, Bool.and_eq_true] at fine
    rw [camelSpelling, if_pos rfl, List.mem_cons, not_or]
    exact ⟨Ne.symm (toupper_ne_underscore (of_decide_eq_true fine.1)), ih fine.2⟩
  | case4 b c rest other ih =>
    rw [spaced, if_neg other] at fine
    rw [camelSpelling, if_neg other, List.mem_cons, not_or]
    exact ⟨Ne.symm other, ih fine⟩

/-- In lower case it is the name without its underscores. -/
theorem map_tolower_spelling (name : List UInt8) (fine : spaced name = true)
    (plain : ∀ b ∈ name, isupper b = false) : (camelSpelling name).map tolower = flat name := by
  induction name using camelLength.induct with
  | case1 => rfl
  | case2 b =>
    have kept : flat [b] = [b] := List.filter_eq_self.mpr (by simpa [spaced] using fine)
    rw [kept, camelSpelling, List.map_singleton, tolower_of_not_upper (plain b List.mem_cons_self)]
  | case3 c rest ih =>
    rw [spaced, if_pos rfl, Bool.and_eq_true] at fine
    have kept : flat (underscore :: c :: rest) = c :: flat rest := by
      rw [flat, List.filter_cons_of_neg (by simp), List.filter_cons_of_pos (by simpa using fine.1), flat]
    have lower := plain c (List.mem_cons_of_mem _ List.mem_cons_self)
    rw [camelSpelling, if_pos rfl, List.map_cons, tolower_toupper lower, kept, ih fine.2 fun b member =>
      plain b (List.mem_cons_of_mem _ (List.mem_cons_of_mem _ member))]
  | case4 b c rest other ih =>
    rw [spaced, if_neg other] at fine
    have kept : flat (b :: c :: rest) = b :: flat (c :: rest) := by
      rw [flat, List.filter_cons_of_pos (by simpa using other), flat]
    rw [camelSpelling, if_neg other, List.map_cons, tolower_of_not_upper (plain b List.mem_cons_self), kept,
      ih fine fun b member => plain b (List.mem_cons_of_mem _ member)]

/-- A word in front of a name. -/
theorem spaced_word {word : List UInt8} (lower : ∀ b ∈ word, islower b = true ∨ isdigit b = true)
    (rest : List UInt8) : spaced (word ++ rest) = spaced rest := by
  induction word with
  | nil => rfl
  | cons b word ih =>
    rw [List.cons_append, spaced_cons (not_upper_of_word (lower b List.mem_cons_self)).2,
      ih fun c member => lower c (List.mem_cons_of_mem _ member)]

theorem snakeCase_plain (snake : SnakeCase name) : spaced name = true ∧ ∀ b ∈ name, isupper b = false := by
  obtain ⟨word, words, first, others, rfl⟩ := snake
  constructor
  · rw [spaced_word first.2]
    induction words with
    | nil => rfl
    | cons w words ih =>
      obtain ⟨nonempty, letters⟩ := others w List.mem_cons_self
      obtain ⟨b, w, rfl⟩ := List.exists_cons_of_ne_nil nonempty
      have later := ih fun w member => others w (List.mem_cons_of_mem _ member)
      rw [List.flatMap_cons, List.cons_append, List.cons_append, spaced, if_pos rfl,
        spaced_word fun c member => letters c (List.mem_cons_of_mem _ member), later, Bool.and_true]
      exact decide_eq_true (not_upper_of_word (letters b List.mem_cons_self)).2
  · intro b member
    rcases List.mem_append.mp member with front | later
    · exact (not_upper_of_word (first.2 b front)).1
    · obtain ⟨w, among, inside⟩ := List.mem_flatMap.mp later
      rcases List.mem_cons.mp inside with rfl | letter
      · decide
      · exact (not_upper_of_word ((others w among).2 b letter)).1

theorem camelCase_absent (camel : CamelCase name) : underscore ∉ name := by
  obtain ⟨b, rest, rfl, lower, letters⟩ := camel
  intro member
  rcases List.mem_cons.mp member with rfl | later
  · exact absurd lower (by decide)
  · exact alnum_ne_underscore (letters _ later) rfl

end Names

/-! ## Lookups -/

section Lookups

variable {α : Type} {obj : ScriptObject α} {name buf : CString}

/-- The buffer has room for all of the name. -/
theorem camelized_ok (fine : dangles name.bytes = false) :
    ∃ buf, camelized name = .ok buf ∧ buf.bytes = camelCase name.bytes := by
  have size : (List.replicate (name.bytes.length + 1) (0 : UInt8)).length = name.bytes.length + 1 :=
    List.length_replicate
  have whole : ¬(Dangling name.bytes ∧ camelLength name.bytes < (List.replicate (name.bytes.length + 1)
      (0 : UInt8)).length) := by
    rintro ⟨dangling, _⟩
    rw [← dangles_iff, fine] at dangling
    exact Bool.false_ne_true dangling
  obtain ⟨tail, written, _⟩ := camelize_ok (by rw [size]; exact Nat.le_add_left 1 _) whole
  have all : (camelCase name.bytes).take ((List.replicate (name.bytes.length + 1) (0 : UInt8)).length - 1) =
      camelCase name.bytes := by
    rw [size, List.take_of_length_le]
    rw [length_camelCase]
    exact camelLength_le _
  rw [all] at written
  have made : camelized name = .ok (CString.upTo (camelCase name.bytes ++ 0 :: tail)) := by
    rw [camelized, written]
    rfl
  exact ⟨_, made, CString.upTo_of_split (camelCase_solid name.solid)⟩

theorem jsHasProperty_eq (made : camelized name = .ok buf) :
    jsHasProperty obj name = .ok (obj.has name.bytes || obj.has buf.bytes) := by
  rw [jsHasProperty, made]
  cases present : obj.has name.bytes with
  | true => rfl
  | false =>
    by_cases same : buf = name
    · rw [same, present]
      exact congrArg _ (if_neg (not_not_intro rfl))
    · exact if_pos same

theorem jsGetProperty_eq (made : camelized name = .ok buf) :
    jsGetProperty obj name = .ok ((obj.get name.bytes).or (obj.get buf.bytes)) := by
  rw [jsGetProperty, made]
  cases stored : obj.get name.bytes with
  | some value => rfl
  | none =>
    by_cases same : buf = name
    · rw [same, stored]
      exact if_neg (not_not_intro rfl)
    · exact if_pos same

theorem jsHasProperty2_eq {again : CString} (made : camelized name = .ok buf) (second : camelized buf = .ok again) :
    jsHasProperty2 obj name =
      .ok (obj.has name.bytes || obj.has buf.bytes || (obj.has buf.bytes || obj.has again.bytes)) := by
  rw [jsHasProperty2, jsHasProperty_eq made]
  cases found : obj.has name.bytes || obj.has buf.bytes with
  | true => rfl
  | false =>
    rw [made]
    exact jsHasProperty_eq second

/-- A name in lower case, with the two other names that are looked for. -/
theorem camelized_plain (fine : spaced name.bytes = true) (plain : ∀ b ∈ name.bytes, isupper b = false) :
    ∃ buf again, camelized name = .ok buf ∧ camelized buf = .ok again ∧
      buf.bytes = camelSpelling name.bytes ∧ again.bytes = flat name.bytes := by
  obtain ⟨buf, made, bytes⟩ := camelized_ok (not_dangling_of_spaced _ fine)
  rw [camelCase_eq_spelling _ plain] at bytes
  have absent : underscore ∉ buf.bytes := bytes ▸ camelSpelling_absent _ fine
  obtain ⟨again, second, bytes'⟩ := camelized_ok (dangles_of_absent absent)
  rw [camelCase_of_absent absent, bytes, map_tolower_spelling _ fine plain] at bytes'
  exact ⟨buf, again, made, second, bytes, bytes'⟩

/-- A name without underscores is kept just when it has no capitals. -/
theorem camelized_eq_self_iff (absent : underscore ∉ name.bytes) :
    camelized name = .ok name ↔ ∀ b ∈ name.bytes, isupper b = false := by
  obtain ⟨buf, made, bytes⟩ := camelized_ok (dangles_of_absent absent)
  rw [camelCase_of_absent absent] at bytes
  rw [made]
  constructor
  · intro same b member
    cases same
    by_contra upper
    have kept : ∀ c ∈ name.bytes, tolower c = id c :=
      List.map_inj_left.mp (bytes.symm.trans (List.map_id _).symm)
    exact tolower_ne_of_upper (by simpa using upper) (kept b member)
  · intro plain
    have kept : name.bytes.map tolower = name.bytes.map id :=
      List.map_congr_left fun b member => tolower_of_not_upper (plain b member)
    rw [CString.ext_bytes (bytes.trans (kept.trans (List.map_id _)))]

/-- On a name with no capitals only the third name makes a difference. -/
theorem lookupAgrees_of_plain (fine : spaced name.bytes = true) (plain : ∀ b ∈ name.bytes, isupper b = false) :
    LookupAgrees obj name ↔
      (obj.has (flat name.bytes) = true →
        obj.has name.bytes = true ∨ obj.has (camelSpelling name.bytes) = true) := by
  obtain ⟨buf, again, made, second, bytes, bytes'⟩ := camelized_plain fine plain
  have has := @jsHasProperty_eq α obj _ _ made
  have has2 := @jsHasProperty2_eq α obj _ _ _ made second
  have get := @jsGetProperty_eq α obj _ _ made
  rw [bytes] at has has2 get
  rw [bytes'] at has2
  constructor
  · intro agrees third
    have equal := Except.ok.inj (has2.symm.trans agrees.has2)
    rw [third, Bool.or_true, Bool.or_true] at equal
    exact Bool.or_eq_true _ _ ▸ equal.symm
  · intro covered
    refine ⟨has, ?_, get, fun absent => (camelized_eq_self_iff absent).mpr plain⟩
    rw [has2]
    congr 1
    cases third : obj.has (flat name.bytes) with
    | true =>
      rw [Bool.or_true, Bool.or_true]
      exact ((Bool.or_eq_true _ _).mpr (covered third)).symm
    | false => cases obj.has name.bytes <;> cases obj.has (camelSpelling name.bytes) <;> rfl

/-- The lookups agree on a name just when it has no capitals, and the object no property of its flat
spelling alone. -/
theorem lookupAgrees_iff (obj : ScriptObject α) (name : CString)
    (option : SnakeCase name.bytes ∨ CamelCase name.bytes) :
    LookupAgrees obj name ↔ (∀ b ∈ name.bytes, isupper b = false) ∧
      (obj.has (flat name.bytes) = true →
        obj.has name.bytes = true ∨ obj.has (camelSpelling name.bytes) = true) := by
  have fine : spaced name.bytes = true := by
    rcases option with snake | camel
    · exact (snakeCase_plain snake).1
    · exact spaced_of_absent (camelCase_absent camel)
  constructor
  · intro agrees
    have plain : ∀ b ∈ name.bytes, isupper b = false := by
      rcases option with snake | camel
      · exact (snakeCase_plain snake).2
      · exact (camelized_eq_self_iff (camelCase_absent camel)).mp (agrees.unchanged (camelCase_absent camel))
    exact ⟨plain, (lookupAgrees_of_plain fine plain).mp agrees⟩
  · rintro ⟨plain, covered⟩
    exact (lookupAgrees_of_plain fine plain).mpr covered

end Lookups

/-! ## A name in camelCase, and a flat one -/

/-- `localPort`. -/
def localPort : CString := ⟨[108, 111, 99, 97, 108, 80, 111, 114, 116], by decide⟩

/-- `local_port`. -/
def localPortSnake : CString := ⟨[108, 111, 99, 97, 108, 95, 112, 111, 114, 116], by decide⟩

/-- The object with the one property `localport`. -/
def flatOnly : ScriptObject Nat where
  property name := if name = [108, 111, 99, 97, 108, 112, 111, 114, 116] then some (some 7) else none

theorem localPort_camel : CamelCase localPort.bytes :=
  ⟨108, _, rfl, by decide, by decide +kernel⟩

theorem localPort_snake : SnakeCase localPortSnake.bytes :=
  ⟨[108, 111, 99, 97, 108], [[112, 111, 114, 116]], ⟨by decide, by decide +kernel⟩,
    by simp only [List.mem_singleton, forall_eq]; exact ⟨by decide, by decide +kernel⟩, by decide⟩

/-- `localPort` loses its capital, and `localport` is taken for `local_port` but not read. -/
theorem localPort_disagrees :
    (CamelCase localPort.bytes ∧ camelized localPort ≠ .ok localPort ∧ ¬LookupAgrees flatOnly localPort) ∧
    (SnakeCase localPortSnake.bytes ∧ flatOnly.has localPortSnake.bytes = false ∧
      flatOnly.has (camelSpelling localPortSnake.bytes) = false ∧
      jsHasProperty2 flatOnly localPortSnake = .ok true ∧ jsGetProperty flatOnly localPortSnake = .ok none ∧
      strProperty flatOnly localPortSnake = .ok (some none) ∧ ¬LookupAgrees flatOnly localPortSnake) := by
  have changed : camelized localPort ≠ .ok localPort := by
    rw [Ne, camelized_eq_self_iff (camelCase_absent localPort_camel)]
    decide
  obtain ⟨fine, plain⟩ := snakeCase_plain localPort_snake
  obtain ⟨buf, again, made, second, bytes, bytes'⟩ := camelized_plain fine plain
  have has2 : jsHasProperty2 flatOnly localPortSnake = .ok true := by
    rw [jsHasProperty2_eq made second, bytes, bytes']
    decide
  have get : jsGetProperty flatOnly localPortSnake = .ok none := by
    rw [jsGetProperty_eq made, bytes]
    decide
  refine ⟨⟨localPort_camel, changed, fun agrees => changed (agrees.unchanged ?_)⟩, localPort_snake,
    by decide, by decide, has2, get, ?_, fun agrees => ?_⟩
  · exact camelCase_absent localPort_camel
  · rw [strProperty, has2]
    exact congrArg (fun value => value >>= fun found => Except.ok (some found)) get
  · exact absurd (has2.symm.trans agrees.has2) (by decide)

/-- The object with the one property `localPort`. -/
def camelOnly : ScriptObject Nat where
  property name := if name = localPort.bytes then some (some 7) else none

theorem lookupAgrees_localPort : LookupAgrees camelOnly localPortSnake ∧
    camelOnly.get (camelSpelling localPortSnake.bytes) = some 7 :=
  ⟨(lookupAgrees_iff camelOnly localPortSnake (.inl localPort_snake)).mpr
    ⟨by decide +kernel, by decide⟩, by decide⟩

end QjsLws.Native
