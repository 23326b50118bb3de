import Mathlib.Data.List.Induction
import QjsLws.Native.CaseNames

/-!
# Names in another case, proofs

Each loop is followed along the name: `done` is what was written, `junk` what the destination still has
behind it. `camelize` leaves the source where an underscore is the last byte and there is room to look
behind it, `decamelize` the destination where a hump takes the two bytes in front of its end.
-/

namespace QjsLws.Native

open QjsLws.Misc

/-! ## Bytes -/

section Bytes

variable {b : UInt8}

theorem forall_byte {P : UInt8 → Prop} (check : ∀ n : Fin 256, P (UInt8.ofFin n)) (b : UInt8) : P b :=
  check b.toFin

theorem toupper_ne_zero (b : UInt8) : b ≠ 0 → toupper b ≠ 0 :=
  forall_byte (P := fun b => b ≠ 0 → toupper b ≠ 0) (by decide +kernel) b

theorem tolower_ne_zero (b : UInt8) : b ≠ 0 → tolower b ≠ 0 :=
  forall_byte (P := fun b => b ≠ 0 → tolower b ≠ 0) (by decide +kernel) b

end Bytes

/-! ## The destination -/

section Destination

variable {done junk : List UInt8}

/-- A byte is written behind what was written. -/
theorem set_behind (done : List UInt8) (a b : UInt8) (junk : List UInt8) :
    (done ++ a :: junk).set done.length b = done ++ [b] ++ junk := by
  simp

theorem length_snoc (done : List UInt8) (b : UInt8) : (done ++ [b]).length = done.length + 1 :=
  List.length_append

/-- A byte of the destination behind `done` is taken. -/
theorem write_behind (done : List UInt8) (a b : UInt8) (junk : List UInt8) :
    writeAt (done ++ a :: junk) done.length b = .ok (done ++ [b] ++ junk) := by
  rw [writeAt_of_lt b (by simp), set_behind]

theorem size_behind (done : List UInt8) (a b : UInt8) (junk : List UInt8) :
    done.length + (a :: junk).length = (done ++ [b]).length + junk.length := by
  rw [length_snoc, List.length_cons]
  omega

/-- Room for a byte and the terminator. -/
theorem room_of_ne_nil {a : UInt8} (room : junk ≠ []) :
    done.length + 1 < done.length + (a :: junk).length := by
  have positive := List.length_pos_iff.mpr room
  rw [List.length_cons]
  omega

/-- A result in bounds, from its form. -/
theorem inBounds_of_form {dst out tail : List UInt8} {result : Except Fault (List UInt8 × Nat)}
    (form : result = .ok (out ++ 0 :: tail, out.length))
    (size : out.length + (tail.length + 1) = dst.length) (solid : 0 ∉ out) : InBounds dst result := by
  refine ⟨_, _, form, ?_, ?_, ?_⟩
  · rw [List.length_append, List.length_cons, size]
  · rw [List.getElem?_append_right (Nat.le_refl _), Nat.sub_self]
    rfl
  · rw [CString.upTo_of_split solid]

end Destination

/-! ## `camelize` -/

section Camelize

variable {src : CString} {before rest done junk : List UInt8} {b c : UInt8}

/-- What `camelize` writes. -/
def camelCase : List UInt8 → List UInt8
  | [] => []
  | [b] => [tolower b]
  | b :: c :: rest =>
    if b = underscore then toupper c :: camelCase rest else tolower b :: camelCase (c :: rest)

/-- An underscore is left at the end, when each takes the byte behind it. -/
def dangles : List UInt8 → Bool
  | [] => false
  | [b] => b = underscore
  | b :: c :: rest => if b = underscore then dangles rest else dangles (c :: rest)

/-- The loop ends at the terminator, or where only one byte is left. -/
theorem camelizeLoop_stop {a : UInt8} (split : src.bytes = before ++ rest)
    (stop : rest = [] ∨ junk = []) :
    camelizeLoop src (done.length + (a :: junk).length) (done ++ a :: junk) before.length done.length
      = .ok (done ++ 0 :: junk, done.length) := by
  have written : writeAt (done ++ a :: junk) done.length 0 = .ok (done ++ 0 :: junk) := by
    rw [write_behind, List.append_assoc]
    rfl
  cases rest with
  | nil =>
    have last : before.length = src.bytes.length := by rw [split, List.append_nil]
    rw [camelizeLoop, last, src.read_end]
    simp only [bind, Except.bind, ne_eq, not_true_eq_false, false_and, dite_false, written]
    rfl
  | cons c rest =>
    obtain rfl := stop.resolve_left (List.cons_ne_nil c rest)
    rw [camelizeLoop, CString.read_split split]
    simp only [bind, Except.bind, List.length_singleton, Nat.lt_irrefl, and_false, dite_false, written]
    rfl

/-- A byte that is no underscore. -/
theorem camelizeLoop_plain (a : UInt8) (split : src.bytes = before ++ c :: rest) (plain : c ≠ underscore)
    (room : junk ≠ []) :
    camelizeLoop src (done.length + (a :: junk).length) (done ++ a :: junk) before.length done.length
      = camelizeLoop src ((done ++ [tolower c]).length + junk.length) (done ++ [tolower c] ++ junk)
        (before ++ [c]).length (done ++ [tolower c]).length := by
  have goes := And.intro (CString.ne_zero_of_split split) (@room_of_ne_nil done junk a room)
  rw [camelizeLoop, CString.read_split split]
  simp only [bind, Except.bind, dif_pos goes, if_neg plain, write_behind]
  rw [size_behind _ a (tolower c), length_snoc before, length_snoc done]

/-- An underscore with the byte behind it, which may be the terminator. -/
theorem camelizeLoop_pair (a : UInt8) (split : src.bytes = before ++ underscore :: rest) (room : junk ≠ [])
    (next : readAt src.memory (before.length + 1) = .ok c) :
    camelizeLoop src (done.length + (a :: junk).length) (done ++ a :: junk) before.length done.length
      = camelizeLoop src ((done ++ [toupper c]).length + junk.length) (done ++ [toupper c] ++ junk)
        (before.length + 2) (done ++ [toupper c]).length := by
  have goes := And.intro (CString.ne_zero_of_split split) (@room_of_ne_nil done junk a room)
  rw [camelizeLoop, CString.read_split split]
  simp only [bind, Except.bind, dif_pos goes, if_true, next, write_behind]
  rw [size_behind _ a (toupper c), length_snoc done]

/-- The byte behind an underscore in the name. -/
theorem read_next (split : src.bytes = before ++ underscore :: c :: rest) :
    readAt src.memory (before.length + 1) = .ok c := by
  have next : src.bytes = (before ++ [underscore]) ++ c :: rest := by simp [split]
  have read := CString.read_split next
  rwa [List.length_append] at read

/-- Where the last underscore is reached, the byte behind the terminator is read. -/
theorem camelizeLoop_dangling (rest : List UInt8) : ∀ (before done junk : List UInt8),
    src.bytes = before ++ rest → dangles rest = true → camelLength rest < junk.length →
      camelizeLoop src (done.length + junk.length) (done ++ junk) before.length done.length
        = .error (.read (src.bytes.length + 1)) := by
  induction rest using camelLength.induct with
  | case1 =>
    intro before done junk split dangling
    cases dangling
  | case2 b =>
    intro before done junk split dangling room
    obtain rfl : b = underscore := of_decide_eq_true dangling
    obtain ⟨a, junk, rfl⟩ := List.exists_cons_of_length_pos (Nat.zero_lt_of_lt room)
    have more : junk ≠ [] := by
      rintro rfl
      exact Nat.lt_irrefl 1 room
    have last : before.length + 1 = src.bytes.length := by simp [split]
    have next : readAt src.memory (before.length + 1) = .ok 0 := last ▸ src.read_end
    have behind : readAt src.memory (before.length + 2) = .error (.read (src.bytes.length + 1)) :=
      last ▸ src.read_behind
    rw [camelizeLoop_pair a split more next, camelizeLoop, behind]
    rfl
  | case3 c rest ih =>
    intro before done junk split dangling room
    rw [dangles, if_pos rfl] at dangling
    rw [camelLength, if_pos rfl] at room
    obtain ⟨a, junk, rfl⟩ := List.exists_cons_of_length_pos (Nat.zero_lt_of_lt room)
    rw [List.length_cons] at room
    have more : junk ≠ [] := List.length_pos_iff.mp (by omega)
    rw [camelizeLoop_pair a split more (read_next split)]
    have later := ih (before ++ [underscore, c]) (done ++ [toupper c]) junk (by simp [split]) dangling (by omega)
    have two : (before ++ [underscore, c]).length = before.length + 2 := by simp
    rwa [two] at later
  | case4 b c rest plain ih =>
    intro before done junk split dangling room
    rw [dangles, if_neg plain] at dangling
    rw [camelLength, if_neg plain] at room
    obtain ⟨a, junk, rfl⟩ := List.exists_cons_of_length_pos (Nat.zero_lt_of_lt room)
    rw [List.length_cons] at room
    have more : junk ≠ [] := List.length_pos_iff.mp (by omega)
    rw [camelizeLoop_plain a split plain more]
    exact ih (before ++ [b]) (done ++ [tolower b]) junk (by simp [split]) dangling (by omega)

theorem length_camelCase (name : List UInt8) : (camelCase name).length = camelLength name := by
  induction name using camelLength.induct with
  | case1 => rfl
  | case2 b => rfl
  | case3 c rest ih => rw [camelCase, if_pos rfl, camelLength, if_pos rfl, List.length_cons, ih]
  | case4 b c rest plain ih => rw [camelCase, if_neg plain, camelLength, if_neg plain, List.length_cons, ih]

theorem camelLength_le (name : List UInt8) : camelLength name ≤ name.length := by
  induction name using camelLength.induct with
  | case1 => exact Nat.le_refl 0
  | case2 b => exact Nat.le_refl 1
  | case3 c rest ih =>
    rw [camelLength, if_pos rfl, List.length_cons, List.length_cons]
    omega
  | case4 b c rest plain ih =>
    rw [camelLength, if_neg plain, List.length_cons]
    omega

theorem camelCase_solid {name : List UInt8} (solid : 0 ∉ name) : 0 ∉ camelCase name := by
  induction name using camelLength.induct with
  | case1 => exact solid
  | case2 b =>
    intro member
    have plain : b ≠ 0 := fun same => solid (by simp [same])
    exact tolower_ne_zero b plain (List.mem_singleton.mp member).symm
  | case3 c rest ih =>
    rw [List.mem_cons, List.mem_cons, not_or, not_or] at solid
    rw [camelCase, if_pos rfl, List.mem_cons, not_or]
    exact ⟨fun same => toupper_ne_zero c (Ne.symm solid.2.1) same.symm, ih solid.2.2⟩
  | case4 b c rest plain ih =>
    rw [List.mem_cons, not_or] at solid
    rw [camelCase, if_neg plain, List.mem_cons, not_or]
    exact ⟨fun same => tolower_ne_zero b (Ne.symm solid.1) same.symm, ih solid.2⟩

/-- Otherwise as much of the name is written as there is room for, with a terminator. -/
theorem camelizeLoop_ok (rest : List UInt8) : ∀ (before done junk : List UInt8),
    src.bytes = before ++ rest → junk ≠ [] → (dangles rest = true → junk.length ≤ camelLength rest) →
      ∃ tail, camelizeLoop src (done.length + junk.length) (done ++ junk) before.length done.length
          = .ok (done ++ (camelCase rest).take (junk.length - 1) ++ 0 :: tail,
            (done ++ (camelCase rest).take (junk.length - 1)).length) ∧
        ((camelCase rest).take (junk.length - 1)).length + (tail.length + 1) = junk.length := by
  induction rest using camelLength.induct with
  | case1 =>
    intro before done junk split room fine
    obtain ⟨a, junk, rfl⟩ := List.exists_cons_of_ne_nil room
    refine ⟨junk, ?_, by simp [camelCase]⟩
    rw [camelizeLoop_stop split (.inl rfl)]
    simp [camelCase]
  | case2 b =>
    intro before done junk split room fine
    obtain ⟨a, junk, rfl⟩ := List.exists_cons_of_ne_nil room
    cases junk with
    | nil =>
      refine ⟨[], ?_, by simp⟩
      rw [camelizeLoop_stop split (.inr rfl)]
      simp
    | cons a' junk =>
      have plain : b ≠ underscore := by
        rintro rfl
        have short := fine rfl
        rw [List.length_cons, List.length_cons, camelLength] at short
        omega
      have stop := @camelizeLoop_stop src (before ++ [b]) [] (done ++ [tolower b]) junk a' (by simp [split])
        (.inl rfl)
      refine ⟨junk, ?_, by simp [camelCase, Nat.add_comm]⟩
      rw [camelizeLoop_plain a split plain (List.cons_ne_nil _ _), stop]
      simp [camelCase]
  | case3 c rest ih =>
    intro before done junk split room fine
    obtain ⟨a, junk, rfl⟩ := List.exists_cons_of_ne_nil room
    cases junk with
    | nil =>
      refine ⟨[], ?_, by simp⟩
      rw [camelizeLoop_stop split (.inr rfl)]
      simp
    | cons a' junk =>
      rw [dangles, if_pos rfl, camelLength, if_pos rfl, List.length_cons, Nat.add_le_add_iff_right] at fine
      obtain ⟨tail, result, size⟩ := ih (before ++ [underscore, c]) (done ++ [toupper c]) (a' :: junk)
        (by simp [split]) (List.cons_ne_nil _ _) fine
      have two : (before ++ [underscore, c]).length = before.length + 2 := by simp
      rw [two] at result
      rw [camelizeLoop_pair a split (List.cons_ne_nil _ _) (read_next split), result, camelCase, if_pos rfl]
      refine ⟨tail, by simp, ?_⟩
      simp only [List.length_cons, Nat.add_sub_cancel, List.take_succ_cons] at size ⊢
      omega
  | case4 b c rest plain ih =>
    intro before done junk split room fine
    obtain ⟨a, junk, rfl⟩ := List.exists_cons_of_ne_nil room
    cases junk with
    | nil =>
      refine ⟨[], ?_, by simp⟩
      rw [camelizeLoop_stop split (.inr rfl)]
      simp
    | cons a' junk =>
      rw [dangles, if_neg plain, camelLength, if_neg plain, List.length_cons, Nat.add_le_add_iff_right] at fine
      obtain ⟨tail, result, size⟩ := ih (before ++ [b]) (done ++ [tolower b]) (a' :: junk)
        (by simp [split]) (List.cons_ne_nil _ _) fine
      rw [camelizeLoop_plain a split plain (List.cons_ne_nil _ _), result, camelCase, if_neg plain]
      refine ⟨tail, by simp, ?_⟩
      simp only [List.length_cons, Nat.add_sub_cancel, List.take_succ_cons] at size ⊢
      omega

/-! ### The underscores at the end -/

theorem dangles_append {front : List UInt8} (ends : ∀ b, front.getLast? = some b → b ≠ underscore)
    (tail : List UInt8) : dangles (front ++ tail) = dangles tail := by
  induction front using camelLength.induct with
  | case1 => rfl
  | case2 b =>
    have plain := ends b rfl
    cases tail with
    | nil => exact decide_eq_false plain
    | cons c tail => exact if_neg plain
  | case3 c rest ih =>
    cases rest with
    | nil => exact if_pos rfl
    | cons d rest => exact (if_pos rfl).trans (ih ends)
  | case4 b c rest plain ih => exact (if_neg plain).trans (ih ends)

theorem dangles_replicate (n : Nat) : dangles (List.replicate n underscore) = decide (n % 2 = 1) := by
  induction n using Nat.twoStepInduction with
  | zero => rfl
  | one => rfl
  | more n ih =>
    have two : dangles (List.replicate (n + 2) underscore) = dangles (List.replicate n underscore) :=
      if_pos rfl
    rw [two, ih, Nat.add_mod_right]

/-- An underscore is left exactly if the underscores at the end are odd in number. -/
theorem dangles_iff (name : List UInt8) : dangles name = true ↔ Dangling name := by
  obtain ⟨front, n, rfl, ends⟩ : ∃ front n, name = front ++ List.replicate n underscore ∧
      ∀ b, front.getLast? = some b → b ≠ underscore := by
    induction name using List.reverseRecOn with
    | nil => exact ⟨[], 0, rfl, by simp⟩
    | append_singleton name b ih =>
      by_cases under : b = underscore
      · obtain ⟨front, n, rfl, ends⟩ := ih
        exact ⟨front, n + 1, by rw [under, List.replicate_succ', List.append_assoc], ends⟩
      · refine ⟨name ++ [b], 0, (List.append_nil _).symm, ?_⟩
        intro c last
        rw [List.getLast?_concat] at last
        rwa [← Option.some.inj last]
  have run : (front ++ List.replicate n underscore).reverse.takeWhile (· = underscore)
      = List.replicate n underscore := by
    have all : ∀ b ∈ List.replicate n underscore, decide (b = underscore) = true := by
      intro b member
      exact decide_eq_true (List.eq_of_mem_replicate member)
    have stop : front.reverse.takeWhile (· = underscore) = [] := by
      cases shape : front.reverse with
      | nil => rfl
      | cons b rest =>
        have last : front.getLast? = some b := by rw [List.getLast?_eq_head?_reverse, shape]; rfl
        exact List.takeWhile_cons_of_neg (by simpa using ends b last)
    rw [List.reverse_append, List.reverse_replicate, List.takeWhile_append_of_pos all, stop,
      List.append_nil]
  rw [dangles_append ends, dangles_replicate, Dangling, run, List.length_replicate, decide_eq_true_eq]

theorem camelize_start (dst : List UInt8) (src : CString) : camelize dst src
    = camelizeLoop src (([] : List UInt8).length + dst.length) ([] ++ dst) ([] : List UInt8).length
      ([] : List UInt8).length := by
  rw [camelize, List.nil_append, List.length_nil, Nat.zero_add]

theorem camelize_dangling {dst : List UInt8} (dangling : Dangling src.bytes)
    (enough : camelLength src.bytes < dst.length) :
    camelize dst src = .error (.read (src.bytes.length + 1)) := by
  rw [camelize_start, camelizeLoop_dangling src.bytes [] [] dst rfl ((dangles_iff _).mpr dangling) enough]

/-- `camelize` writes as much of the name as there is room for. -/
theorem camelize_ok {dst : List UInt8} (size : 1 ≤ dst.length)
    (fine : ¬(Dangling src.bytes ∧ camelLength src.bytes < dst.length)) :
    ∃ tail, camelize dst src = .ok ((camelCase src.bytes).take (dst.length - 1) ++ 0 :: tail,
        ((camelCase src.bytes).take (dst.length - 1)).length) ∧
      ((camelCase src.bytes).take (dst.length - 1)).length + (tail.length + 1) = dst.length := by
  have short : dangles src.bytes = true → dst.length ≤ camelLength src.bytes := by
    intro dangling
    exact Nat.not_lt.mp fun enough => fine ⟨(dangles_iff _).mp dangling, enough⟩
  obtain ⟨tail, result, length⟩ :=
    camelizeLoop_ok src.bytes [] [] dst rfl (List.length_pos_iff.mp size) short
  have start := camelize_start dst src
  simp only [List.nil_append] at result start
  exact ⟨tail, start.trans result, length⟩

/-- `camelize` stays in bounds unless it reaches an underscore that is left at the end. -/
theorem camelize_inBounds_iff (dst : List UInt8) (src : CString) (size : 1 ≤ dst.length) :
    InBounds dst (camelize dst src) ↔ ¬(Dangling src.bytes ∧ camelLength src.bytes < dst.length) := by
  constructor
  · rintro ⟨written, length, result, -⟩ ⟨dangling, enough⟩
    rw [camelize_dangling dangling enough] at result
    cases result
  · intro fine
    obtain ⟨tail, result, length⟩ := camelize_ok size fine
    exact inBounds_of_form result length fun member =>
      camelCase_solid src.solid (List.mem_of_mem_take member)

end Camelize

/-! ## `decamelize` -/

section Decamelize

variable {src : CString} {before rest done junk : List UInt8} {b c : UInt8}

/-- An underscore is put before a byte, as to what is in front of it. -/
def hump (before : List UInt8) (c : UInt8) : Bool :=
  before.getLast?.any fun b => islower b && isupper c

theorem hump_snoc (before : List UInt8) (b c : UInt8) : hump (before ++ [b]) c = (islower b && isupper c) := by
  rw [hump, List.getLast?_concat]
  rfl

theorem humps_snoc (before : List UInt8) (c : UInt8) :
    humps (before ++ [c]) = humps before + if hump before c then 1 else 0 := by
  induction before using humps.induct with
  | case1 b d rest ih =>
    have last : hump (b :: d :: rest) c = hump (d :: rest) c := by
      rw [hump, hump, List.getLast?_cons_cons]
    have shape : humps (b :: d :: rest ++ [c])
        = humps (d :: rest ++ [c]) + if islower b && isupper d then 1 else 0 := rfl
    rw [shape, ih, last, humps]
    omega
  | case2 before short =>
    rcases before with _ | ⟨b, _ | ⟨d, rest⟩⟩
    · rfl
    · rfl
    · exact absurd rfl (short b d rest)

theorem atHump_eq (split : src.bytes = before ++ c :: rest) :
    atHump src before.length c = .ok (hump before c) := by
  rcases List.eq_nil_or_concat before with rfl | ⟨front, b, rfl⟩
  · rfl
  · rw [List.concat_eq_append] at split ⊢
    have read : readAt src.memory front.length = .ok b := by
      have shape : src.bytes = front ++ b :: c :: rest := by
        rw [split, List.append_assoc]
        rfl
      exact CString.read_split shape
    rw [atHump, length_snoc, if_pos (Nat.succ_pos _), Nat.add_sub_cancel, read, hump_snoc]
    rfl

/-- A hump is met where only two bytes are left. -/
def fills (before : List UInt8) : List UInt8 → Nat → Bool
  | [], _ => false
  | c :: rest, room =>
    if room ≤ 1 then false
    else if hump before c then room = 2 || fills (before ++ [c]) rest (room - 2)
    else fills (before ++ [c]) rest (room - 1)

theorem fills_cons {n : Nat} (before : List UInt8) (c : UInt8) (rest : List UInt8) (many : 2 ≤ n) :
    fills before (c :: rest) n
      = if hump before c then n = 2 || fills (before ++ [c]) rest (n - 2)
        else fills (before ++ [c]) rest (n - 1) := if_neg (by omega)

/-- In closed form: the place of the hump in the destination. -/
theorem fills_iff (rest : List UInt8) : ∀ (before : List UInt8) (n : Nat),
    fills before rest n = true ↔ ∃ front c tail, rest = front ++ c :: tail ∧
      hump (before ++ front) c = true ∧ front.length + humps (before ++ front) + 2 = n + humps before := by
  induction rest with
  | nil =>
    intro before n
    refine iff_of_false nofun ?_
    rintro ⟨front, c, tail, empty, -⟩
    simp at empty
  | cons c rest ih =>
    intro before n
    have grows : ∀ front, humps before ≤ humps (before ++ front) := by
      intro front
      induction front using List.reverseRecOn with
      | nil => rw [List.append_nil]
      | append_singleton front d later =>
        rw [← List.append_assoc, humps_snoc]
        omega
    -- The hump is at the first byte, or at a later one.
    have split : (∃ front d tail, c :: rest = front ++ d :: tail ∧ hump (before ++ front) d = true ∧
        front.length + humps (before ++ front) + 2 = n + humps before) ↔
          (hump before c = true ∧ n = 2) ∨ ∃ front d tail, rest = front ++ d :: tail ∧
            hump (before ++ [c] ++ front) d = true ∧
              front.length + 1 + humps (before ++ [c] ++ front) + 2 = n + humps before := by
      constructor
      · rintro ⟨front, d, tail, shape, here, size⟩
        cases front with
        | nil =>
          obtain ⟨rfl, -⟩ := List.cons.inj shape
          rw [List.append_nil] at here size
          rw [List.length_nil] at size
          exact .inl ⟨here, by omega⟩
        | cons e front =>
          obtain ⟨rfl, later⟩ := List.cons.inj shape
          refine .inr ⟨front, d, tail, later, ?_, ?_⟩
          · rwa [List.append_assoc]
          · rwa [List.append_assoc]
      · rintro (⟨here, rfl⟩ | ⟨front, d, tail, rfl, here, size⟩)
        · exact ⟨[], c, rest, rfl, by rwa [List.append_nil], by rw [List.append_nil, List.length_nil]; omega⟩
        · rw [List.append_assoc] at here size
          exact ⟨c :: front, d, tail, rfl, here, size⟩
    rw [split]
    by_cases many : 2 ≤ n
    · rw [fills_cons _ _ _ many]
      cases here : hump before c with
      | true =>
        have snoc := humps_snoc before c
        rw [here, if_pos rfl] at snoc
        rw [if_pos rfl, Bool.or_eq_true, decide_eq_true_eq, ih, snoc, and_iff_right rfl]
        refine or_congr_right (exists_congr fun front => exists_congr fun d => exists_congr fun tail =>
          and_congr_right fun _ => and_congr_right fun _ => ?_)
        omega
      | false =>
        have snoc := humps_snoc before c
        rw [here, if_neg Bool.false_ne_true, Nat.add_zero] at snoc
        rw [if_neg Bool.false_ne_true, ih, snoc, or_iff_right (by simp)]
        refine exists_congr fun front => exists_congr fun d => exists_congr fun tail =>
          and_congr_right fun _ => and_congr_right fun _ => ?_
        omega
    · refine iff_of_false ?_ ?_
      · rw [fills, if_pos (by omega)]
        exact Bool.false_ne_true
      · rintro (⟨-, rfl⟩ | ⟨front, d, tail, -, -, size⟩)
        · exact many (Nat.le_refl 2)
        · have more := grows ([c] ++ front)
          rw [← List.append_assoc] at more
          omega

theorem fills_iff_fillsUp (name : List UInt8) (dlen : Nat) : fills [] name dlen = true ↔ FillsUp name dlen := by
  rw [fills_iff]
  simp only [List.nil_append, humps, Nat.add_zero]
  constructor
  · rintro ⟨front, c, tail, rfl, here, size⟩
    rcases List.eq_nil_or_concat front with rfl | ⟨before, b, rfl⟩
    · cases here
    · rw [List.concat_eq_append, hump_snoc, Bool.and_eq_true] at here
      rw [List.concat_eq_append, length_snoc] at size
      exact ⟨before, b, c, tail, by simp, here.1, here.2, size⟩
  · rintro ⟨before, b, c, rest, rfl, lower, upper, size⟩
    refine ⟨before ++ [b], c, rest, by simp, ?_, by rwa [length_snoc]⟩
    rw [hump_snoc, lower, upper]
    rfl

/-! ### The loop -/

theorem read_any (split : src.bytes = before ++ rest) : ∃ c, readAt src.memory before.length = .ok c := by
  cases rest with
  | nil =>
    have last : before.length = src.bytes.length := by rw [split, List.append_nil]
    exact ⟨0, last ▸ src.read_end⟩
  | cons c rest => exact ⟨c, CString.read_split split⟩

theorem decamelizeLoop_stop {a : UInt8} (split : src.bytes = before ++ rest)
    (stop : rest = [] ∨ junk = []) :
    decamelizeLoop src (done.length + (a :: junk).length) (done ++ a :: junk) before.length done.length
      = .ok (done ++ 0 :: junk, done.length) := by
  have written : writeAt (done ++ a :: junk) done.length 0 = .ok (done ++ 0 :: junk) := by
    rw [write_behind, List.append_assoc]
    rfl
  cases rest with
  | nil =>
    have last : before.length = src.bytes.length := by rw [split, List.append_nil]
    rw [decamelizeLoop, last, src.read_end]
    simp only [bind, Except.bind, ne_eq, not_true_eq_false, false_and, dite_false, written]
    rfl
  | cons c rest =>
    obtain rfl := stop.resolve_left (List.cons_ne_nil c rest)
    rw [decamelizeLoop, CString.read_split split]
    simp only [bind, Except.bind, List.length_singleton, Nat.lt_irrefl, and_false, dite_false, written]
    rfl

/-- A destination that is used up takes no terminator. -/
theorem decamelizeLoop_overflow (split : src.bytes = before ++ rest) :
    decamelizeLoop src done.length done before.length done.length = .error (.write done.length) := by
  obtain ⟨c, read⟩ := read_any split
  have stop : ¬(c ≠ 0 ∧ done.length + 1 < done.length) := by omega
  rw [decamelizeLoop, read]
  simp only [bind, Except.bind, dif_neg stop, writeAt_of_le 0 (Nat.le_refl done.length)]

theorem decamelizeLoop_plain (a : UInt8) (split : src.bytes = before ++ c :: rest)
    (plain : hump before c = false) (room : junk ≠ []) :
    decamelizeLoop src (done.length + (a :: junk).length) (done ++ a :: junk) before.length done.length
      = decamelizeLoop src ((done ++ [toupper c]).length + junk.length) (done ++ [toupper c] ++ junk)
        (before ++ [c]).length (done ++ [toupper c]).length := by
  have goes := And.intro (CString.ne_zero_of_split split) (@room_of_ne_nil done junk a room)
  rw [decamelizeLoop, CString.read_split split]
  simp only [bind, Except.bind, dif_pos goes, atHump_eq split, plain, write_behind]
  rw [size_behind _ a (toupper c), length_snoc before, length_snoc done]
  rfl

theorem decamelizeLoop_hump (a a' : UInt8) (split : src.bytes = before ++ c :: rest)
    (here : hump before c = true) :
    decamelizeLoop src (done.length + (a :: a' :: junk).length) (done ++ a :: a' :: junk) before.length
        done.length
      = decamelizeLoop src ((done ++ [underscore, toupper c]).length + junk.length)
        (done ++ [underscore, toupper c] ++ junk) (before ++ [c]).length
        (done ++ [underscore, toupper c]).length := by
  have goes := And.intro (CString.ne_zero_of_split split)
    (@room_of_ne_nil done (a' :: junk) a (List.cons_ne_nil _ _))
  have second : writeAt (done ++ [underscore] ++ a' :: junk) (done.length + 1) (toupper c)
      = .ok (done ++ [underscore, toupper c] ++ junk) := by
    have write := write_behind (done ++ [underscore]) a' (toupper c) junk
    rw [length_snoc] at write
    rw [write, List.append_assoc done]
    rfl
  have size : done.length + (a :: a' :: junk).length
      = (done ++ [underscore, toupper c]).length + junk.length := by
    simp only [List.length_append, List.length_cons, List.length_nil]
    omega
  have two : (done ++ [underscore, toupper c]).length = done.length + 2 := List.length_append
  rw [decamelizeLoop, CString.read_split split]
  simp only [bind, Except.bind, dif_pos goes, atHump_eq split, here, write_behind, second]
  rw [size, length_snoc before, two]
  rfl

/-- The terminator is written behind the destination. -/
theorem decamelizeLoop_fills (rest : List UInt8) : ∀ (before done junk : List UInt8),
    src.bytes = before ++ rest → fills before rest junk.length = true →
      decamelizeLoop src (done.length + junk.length) (done ++ junk) before.length done.length
        = .error (.write (done.length + junk.length)) := by
  induction rest with
  | nil =>
    intro before done junk split full
    cases full
  | cons c rest ih =>
    intro before done junk split full
    have next : src.bytes = (before ++ [c]) ++ rest := by rw [split, List.append_assoc]; rfl
    rcases junk with _ | ⟨a, _ | ⟨a', junk⟩⟩
    · cases full
    · cases full
    · have many : 2 ≤ (a :: a' :: junk).length := Nat.le_add_left 2 junk.length
      rw [fills_cons _ _ _ many] at full
      cases here : hump before c with
      | true =>
        rw [here, if_pos rfl, Bool.or_eq_true] at full
        rw [decamelizeLoop_hump a a' split here]
        have size : done.length + (a :: a' :: junk).length
            = (done ++ [underscore, toupper c]).length + junk.length := by
          simp only [List.length_append, List.length_cons, List.length_nil]
          omega
        rw [size]
        rcases full with last | later
        · obtain rfl : junk = [] := List.length_eq_zero_iff.mp (by simpa using last)
          rw [List.append_nil, List.length_nil, Nat.add_zero]
          exact decamelizeLoop_overflow next
        · exact ih (before ++ [c]) (done ++ [underscore, toupper c]) junk next later
      | false =>
        rw [here, if_neg Bool.false_ne_true] at full
        rw [decamelizeLoop_plain a split here (List.cons_ne_nil _ _), size_behind done a (toupper c)]
        exact ih (before ++ [c]) (done ++ [toupper c]) (a' :: junk) next full

/-- Otherwise the terminator is behind what was written. -/
theorem decamelizeLoop_ok (rest : List UInt8) : ∀ (before done junk : List UInt8),
    src.bytes = before ++ rest → junk ≠ [] → fills before rest junk.length = false →
      ∃ out tail, decamelizeLoop src (done.length + junk.length) (done ++ junk) before.length done.length
          = .ok (done ++ out ++ 0 :: tail, (done ++ out).length) ∧
        out.length + (tail.length + 1) = junk.length ∧ 0 ∉ out := by
  induction rest with
  | nil =>
    intro before done junk split room fine
    obtain ⟨a, junk, rfl⟩ := List.exists_cons_of_ne_nil room
    refine ⟨[], junk, ?_, by simp, List.not_mem_nil⟩
    rw [decamelizeLoop_stop split (.inl rfl), List.append_nil]
  | cons c rest ih =>
    intro before done junk split room fine
    have next : src.bytes = (before ++ [c]) ++ rest := by rw [split, List.append_assoc]; rfl
    have letter : toupper c ≠ 0 := toupper_ne_zero c (CString.ne_zero_of_split split)
    rcases junk with _ | ⟨a, _ | ⟨a', junk⟩⟩
    · exact absurd rfl room
    · refine ⟨[], [], ?_, rfl, List.not_mem_nil⟩
      rw [decamelizeLoop_stop split (.inr rfl), List.append_nil]
    · have many : 2 ≤ (a :: a' :: junk).length := Nat.le_add_left 2 junk.length
      rw [fills_cons _ _ _ many] at fine
      cases here : hump before c with
      | true =>
        rw [here, if_pos rfl, Bool.or_eq_false_iff, decide_eq_false_iff_not] at fine
        have more : junk ≠ [] := by
          rintro rfl
          exact fine.1 rfl
        obtain ⟨out, tail, result, size, solid⟩ :=
          ih (before ++ [c]) (done ++ [underscore, toupper c]) junk next more fine.2
        refine ⟨underscore :: toupper c :: out, tail, ?_, ?_, ?_⟩
        · rw [decamelizeLoop_hump a a' split here, result]
          simp
        · rw [List.length_cons, List.length_cons, List.length_cons, List.length_cons]
          omega
        · rw [List.mem_cons, List.mem_cons, not_or, not_or]
          exact ⟨by decide, Ne.symm letter, solid⟩
      | false =>
        rw [here, if_neg Bool.false_ne_true] at fine
        obtain ⟨out, tail, result, size, solid⟩ :=
          ih (before ++ [c]) (done ++ [toupper c]) (a' :: junk) next (List.cons_ne_nil _ _) fine
        refine ⟨toupper c :: out, tail, ?_, ?_, ?_⟩
        · rw [decamelizeLoop_plain a split here (List.cons_ne_nil _ _), result]
          simp
        · rw [List.length_cons] at size ⊢
          rw [List.length_cons, List.length_cons]
          omega
        · rw [List.mem_cons, not_or]
          exact ⟨Ne.symm letter, solid⟩

theorem decamelize_start (dst : List UInt8) (src : CString) : decamelize dst src
    = decamelizeLoop src (([] : List UInt8).length + dst.length) ([] ++ dst) ([] : List UInt8).length
      ([] : List UInt8).length := by
  rw [decamelize, List.nil_append, List.length_nil, Nat.zero_add]

theorem decamelize_fillsUp {dst : List UInt8} (full : FillsUp src.bytes dst.length) :
    decamelize dst src = .error (.write dst.length) := by
  rw [decamelize_start, decamelizeLoop_fills src.bytes [] [] dst rfl ((fills_iff_fillsUp _ _).mpr full),
    List.length_nil, Nat.zero_add]

/-- `decamelize` stays in bounds unless a hump fills the destination up. -/
theorem decamelize_inBounds_iff (dst : List UInt8) (src : CString) (size : 1 ≤ dst.length) :
    InBounds dst (decamelize dst src) ↔ ¬FillsUp src.bytes dst.length := by
  constructor
  · rintro ⟨written, length, result, -⟩ full
    rw [decamelize_fillsUp full] at result
    cases result
  · intro fine
    rw [← fills_iff_fillsUp, Bool.not_eq_true] at fine
    obtain ⟨out, tail, result, length, solid⟩ :=
      decamelizeLoop_ok src.bytes [] [] dst rfl (List.length_pos_iff.mp size) fine
    have start := decamelize_start dst src
    simp only [List.nil_append] at result start
    exact inBounds_of_form (start.trans result) length solid

end Decamelize

/-! ## The main result -/

/-- `lwsjs_callback_find` stays in bounds exactly where its `decamelize` does. -/
theorem lwsjsCallbackFind_ok_iff (callbackNames : List (Option CString)) (buf : List UInt8)
    (name : CString) (size : buf.length = 128) :
    (∃ reason, lwsjsCallbackFind callbackNames buf name = .ok reason) ↔ ¬FillsUp name.bytes 128 := by
  constructor
  · rintro ⟨reason, found⟩ full
    rw [lwsjsCallbackFind, decamelize_fillsUp (size.symm ▸ full)] at found
    cases found
  · intro fine
    obtain ⟨written, length, result, -⟩ :=
      (decamelize_inBounds_iff buf name (by omega)).mpr (size.symm ▸ fine)
    rw [lwsjsCallbackFind, result]
    simp only [bind, Except.bind]
    split
    · exact ⟨_, rfl⟩
    · exact ⟨_, rfl⟩

/-- Both functions stay in bounds for a source and a destination exactly if the source does not end in an
odd number of underscores, all of which are reached, and has no hump that fills the destination up; and
`lwsjs_callback_find` is safe exactly for the names without a hump that fills 128 bytes up. -/
theorem case_names_in_bounds (callbackNames : List (Option CString)) (dst buf : List UInt8)
    (src : CString) (size : 1 ≤ dst.length) (buffer : buf.length = 128) :
    (InBounds dst (camelize dst src) ∧ InBounds dst (decamelize dst src) ↔
        ¬(Dangling src.bytes ∧ camelLength src.bytes < dst.length) ∧ ¬FillsUp src.bytes dst.length) ∧
      ((∃ reason, lwsjsCallbackFind callbackNames buf src = .ok reason) ↔ ¬FillsUp src.bytes 128) :=
  ⟨and_congr (camelize_inBounds_iff dst src size) (decamelize_inBounds_iff dst src size),
    lwsjsCallbackFind_ok_iff callbackNames buf src buffer⟩

/-- 126 times `a` and a `B`. -/
def longName : CString where
  bytes := List.replicate 126 97 ++ [66]
  solid := by
    intro member
    rcases List.mem_append.mp member with front | last
    · exact absurd (List.eq_of_mem_replicate front) (by decide)
    · exact absurd (List.mem_singleton.mp last) (by decide)

theorem humps_replicate (n : Nat) : humps (List.replicate n 97) = 0 := by
  induction n using Nat.twoStepInduction with
  | zero => rfl
  | one => rfl
  | more n _ ih => exact ih

theorem longName_fillsUp : FillsUp longName.bytes 128 := by
  have front : List.replicate 126 (97 : UInt8) = List.replicate 125 97 ++ [97] := List.replicate_succ'
  refine ⟨List.replicate 125 97, 97, 66, [], ?_, by decide, by decide, ?_⟩
  · change List.replicate 126 97 ++ [66] = _
    rw [front, List.append_assoc]
    rfl
  · rw [← front, humps_replicate, List.length_replicate]

/-- `camelize` reads behind the terminator of `a_`, and `decamelize` writes behind the 128 bytes of
`lwsjs_callback_find`. -/
theorem case_names_overrun : ¬InBounds [0, 0, 0] (camelize [0, 0, 0] ⟨[97, 95], by decide⟩) ∧
    ¬InBounds (List.replicate 128 0) (decamelize (List.replicate 128 0) longName) ∧
      lwsjsCallbackFind [] (List.replicate 128 0) longName = .error (.write 128) := by
  have full : FillsUp longName.bytes (List.replicate 128 (0 : UInt8)).length := by
    rw [List.length_replicate]
    exact longName_fillsUp
  refine ⟨?_, ?_, ?_⟩
  · rintro ⟨written, length, result, -⟩
    rw [@camelize_dangling ⟨[97, 95], by decide⟩ [0, 0, 0] (by decide) (by decide)] at result
    cases result
  · rintro ⟨written, length, result, -⟩
    rw [decamelize_fillsUp full] at result
    cases result
  · rw [lwsjsCallbackFind, decamelize_fillsUp full]
    rfl

/-- The name `on_httpBody`. -/
def bodyName : CString := ⟨[111, 110, 95, 104, 116, 116, 112, 66, 111, 100, 121], by decide⟩

/-- The table entry `ON_HTTP_BODY`. -/
def bodyEntry : CString := ⟨[79, 78, 95, 72, 84, 84, 80, 95, 66, 79, 68, 89], by decide⟩

/-- A name with an underscore and a hump, and buffers it fits in. -/
theorem case_names_fit : (InBounds (List.replicate 16 0) (camelize (List.replicate 16 0) bodyName) ∧
      InBounds (List.replicate 16 0) (decamelize (List.replicate 16 0) bodyName) ↔
        ¬(Dangling bodyName.bytes ∧ camelLength bodyName.bytes < 16) ∧ ¬FillsUp bodyName.bytes 16) ∧
    ((∃ reason, lwsjsCallbackFind [none, some bodyEntry] (List.replicate 128 0) bodyName = .ok reason) ↔
      ¬FillsUp bodyName.bytes 128) :=
  case_names_in_bounds [none, some bodyEntry] (List.replicate 16 0) (List.replicate 128 0) bodyName
    (by decide) List.length_replicate

end QjsLws.Native
