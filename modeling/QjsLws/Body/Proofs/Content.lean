import Mathlib.Data.List.GetD
import QjsLws.Body.Content

/-!
# When a body is read as its content

`concatArrayBuffer` puts the chunks of a body together as their bytes, apart from views with other
elements than bytes, which `set` converts element by element, and the promise of an asynchronous
`arrayBuffer` method.
-/

namespace QjsLws.Body

open QjsLws.Misc

/-! ## `concatArrayBuffer` -/

section Concat

/-- Data at the start of a range of zeros. -/
def padded (data : List UInt8) (n : Nat) : List UInt8 :=
  data ++ List.replicate (n - data.length) 0

/-- What becomes of the range of a chunk. -/
def Binary.part (chunk : Binary) : Option (List UInt8) :=
  chunk.stored.bind fun data => chunk.byteLength.map (padded data)

/-- The chunk has a length, and its data fits. -/
def Binary.Fits (chunk : Binary) : Prop :=
  ∃ n, chunk.byteLength = some n ∧ ∀ data, chunk.stored = some data → data.length ≤ n

/-- The size of the array. -/
def total (chunks : List Binary) : Nat := (chunks.map fun chunk => chunk.byteLength.getD 0).sum

theorem length_padded {data : List UInt8} {n : Nat} (fits : data.length ≤ n) :
    (padded data n).length = n := by
  rw [padded, List.length_append, List.length_replicate]
  omega

theorem foldl_advance {chunks : List Binary} (fit : ∀ chunk ∈ chunks, chunk.Fits) : ∀ k,
    chunks.foldl advance (some k) = some (k + total chunks) := by
  induction chunks with
  | nil => exact fun _ => rfl
  | cons chunk chunks ih =>
    intro k
    obtain ⟨⟨n, length, -⟩, rest⟩ := List.forall_mem_cons.mp fit
    have next : advance (some k) chunk = some (k + n) := by rw [advance, length]; rfl
    rw [List.foldl_cons, next, ih rest, total, total, List.map_cons, List.sum_cons, length,
      Option.getD_some, Nat.add_assoc]

theorem store_eq {front data : List UInt8} {n rest : Nat} (fits : data.length ≤ n) :
    store (front ++ List.replicate (n + rest) 0) data front.length
      = some (front ++ padded data n ++ List.replicate rest 0) := by
  have zeros : (List.replicate (n + rest) (0 : UInt8)).drop data.length
      = List.replicate (n - data.length) 0 ++ List.replicate rest 0 := by
    rw [List.drop_replicate, List.replicate_append_replicate]
    congr 1
    omega
  rw [store, if_pos (by simp; omega), List.take_left, List.drop_append, List.drop_eq_nil_of_le (by omega),
    List.nil_append, Nat.add_sub_cancel_left, zeros, padded]
  simp only [List.append_assoc]

theorem concatLoop_eq {chunks : List Binary} (fit : ∀ chunk ∈ chunks, chunk.Fits) : ∀ front,
    concatLoop (front ++ List.replicate (total chunks) 0) (some front.length) chunks
      = (chunks.mapM Binary.part).map (front ++ ·.flatten) := by
  induction chunks with
  | nil =>
    intro front
    simp [concatLoop, total]
  | cons chunk chunks ih =>
    intro front
    obtain ⟨⟨n, length, bound⟩, rest⟩ := List.forall_mem_cons.mp fit
    have size : total (chunk :: chunks) = n + total chunks := by
      rw [total, List.map_cons, List.sum_cons, length]
      rfl
    rw [concatLoop, List.mapM_cons, Binary.part, size]
    cases stored : chunk.stored with
    | none => rfl
    | some data =>
      have next : advance (some front.length) chunk = some (front ++ padded data n).length := by
        rw [List.length_append, length_padded (bound data stored), advance, length]
        rfl
      rw [length, Option.bind_some, Option.getD_some, store_eq (bound data stored), Option.bind_some,
        next, ih rest]
      cases chunks.mapM Binary.part with
      | none => rfl
      | some parts => simp

theorem concatArrayBuffer_eq {chunks : List Binary} (fit : ∀ chunk ∈ chunks, chunk.Fits) :
    concatArrayBuffer chunks = (chunks.mapM Binary.part).map List.flatten := by
  rw [concatArrayBuffer, foldl_advance fit, Option.getD_some, Nat.zero_add]
  exact concatLoop_eq fit []

/-- The array is made of given ranges exactly when each chunk makes its own. -/
theorem concatArrayBuffer_iff {α : Type} {items : List α} {chunk : α → Binary}
    {bytes : α → List UInt8} (fit : ∀ item ∈ items, (chunk item).Fits)
    (sized : ∀ item ∈ items, (chunk item).byteLength = some (bytes item).length) :
    concatArrayBuffer (items.map chunk) = some (items.flatMap bytes) ↔
      ∀ item ∈ items, (chunk item).part = some (bytes item) := by
  rw [concatArrayBuffer_eq (by simpa using fit)]
  induction items with
  | nil => simp
  | cons item items ih =>
    obtain ⟨⟨n, length, bound⟩, fit⟩ := List.forall_mem_cons.mp fit
    obtain ⟨size, sized⟩ := List.forall_mem_cons.mp sized
    obtain rfl : n = (bytes item).length := Option.some.inj (length.symm.trans size)
    rw [List.map_cons, List.mapM_cons, List.flatMap_cons, List.forall_mem_cons, ← ih fit sized]
    cases made : (chunk item).part with
    | none => simp
    | some part =>
      have same : part.length = (bytes item).length := by
        rw [Binary.part, length] at made
        obtain ⟨data, stored, padding⟩ := Option.bind_eq_some_iff.mp made
        rw [Option.map_some] at padding
        rw [← Option.some.inj padding, length_padded (bound data stored)]
      cases (items.map chunk).mapM Binary.part with
      | none => simp
      | some parts =>
        simp only [Option.pure_def, Option.bind_eq_bind, Option.bind_some, Option.map_some,
          List.flatten_cons, Option.some.injEq]
        exact ⟨fun eq => List.append_inj eq same, fun both => by rw [both.1, both.2]⟩

end Concat

/-! ## Views -/

section Views

variable {v : View}

theorem View.length_bytes (v : View) : v.bytes.length = v.byteLength := by
  have inside := v.inside
  rw [View.bytes, List.length_take, List.length_drop]
  omega

/-- The bytes of one element. -/
def block (bytes : List UInt8) (width i : Nat) : List UInt8 := (bytes.drop (i * width)).take width

theorem elements_typed {e : Element} (typed : v.element = some e) (number : e.isBigInt = false) :
    v.elements = some ((List.range (v.bytes.length / e.width)).map fun i =>
      e.toUint8 (block v.bytes e.width i)) := by
  rw [View.elements, typed, v.length_bytes]
  simp only [number, Bool.false_eq_true, if_false]
  rfl

theorem ofNat_littleEndian (bytes : List UInt8) :
    UInt8.ofNat (littleEndian bytes) = bytes.getD 0 0 := by
  cases bytes with
  | nil => rfl
  | cons b bytes =>
    have small := b.toNat_lt
    rw [littleEndian, List.foldr_cons, List.getD_cons_zero, ← UInt8.toNat_inj, UInt8.toNat_ofNat']
    omega

theorem littleEndian_zeros {bytes : List UInt8} (zeros : ∀ b ∈ bytes, b = 0) :
    littleEndian bytes = 0 := by
  induction bytes with
  | nil => rfl
  | cons b bytes ih =>
    obtain ⟨rfl, rest⟩ := List.forall_mem_cons.mp zeros
    have later := ih rest
    rw [littleEndian] at later ⊢
    rw [List.foldr_cons, later]
    rfl

/-- A number with its lowest byte alone has no exponent and lies below one. -/
theorem floatToUint8_tail {mantissa exponent : Nat} {bytes : List UInt8} (wide : 8 ≤ mantissa)
    (exponents : 2 ≤ exponent) (zeros : ∀ b ∈ bytes.tail, b = 0) :
    floatToUint8 mantissa exponent (littleEndian bytes) = 0 := by
  have small : littleEndian bytes < 2 ^ mantissa := by
    have byte : littleEndian bytes < 256 := by
      cases bytes with
      | nil => decide
      | cons b bytes =>
        have bound := b.toNat_lt
        have rest := littleEndian_zeros zeros
        rw [List.tail_cons] at rest
        rw [littleEndian] at rest ⊢
        rw [List.foldr_cons, rest]
        omega
    exact byte.trans_le (Nat.pow_le_pow_right (by decide) wide : 2 ^ 8 ≤ 2 ^ mantissa)
  have bias : 0 < 2 ^ (exponent - 1) - 1 := by
    have least : 2 ^ 1 ≤ 2 ^ (exponent - 1) := Nat.pow_le_pow_right (by decide) (by omega)
    omega
  rw [floatToUint8]
  exact if_pos (.inl (by rw [Nat.div_eq_of_lt small, Nat.zero_mod]; exact bias))

theorem getD_padded (data : List UInt8) (n i : Nat) : (padded data n).getD i 0 = data.getD i 0 := by
  rw [padded]
  by_cases inside : i < data.length
  · rw [List.getD_append _ _ _ _ inside]
  · rw [List.getD_append_right _ _ _ _ (by omega), List.getD_eq_default data _ (by omega)]
    rw [List.getD_eq_getElem?_getD]
    exact List.getElem?_getD_replicate_default_eq _ _ _

theorem padded_eq_iff {data bytes : List UInt8} (fits : data.length ≤ bytes.length) :
    padded data bytes.length = bytes ↔ ∀ i, data.getD i 0 = bytes.getD i 0 := by
  constructor
  · intro same i
    rw [← getD_padded data bytes.length, same]
  · intro same
    apply List.ext_getElem (length_padded fits)
    intro i bound bound'
    rw [← List.getD_eq_getElem _ 0, ← List.getD_eq_getElem _ 0, getD_padded, same]

theorem mem_block {bytes : List UInt8} {width i : Nat} {b : UInt8} (member : b ∈ block bytes width i) :
    ∃ j, b = bytes.getD (i * width + j) 0 := by
  obtain ⟨j, found⟩ := List.mem_iff_getElem?.mp (List.mem_of_mem_take member)
  rw [List.getElem?_drop] at found
  exact ⟨j, by rw [List.getD_eq_getElem?_getD, found]; rfl⟩

theorem tail_zero_iff (bytes : List UInt8) :
    (∀ b ∈ bytes.tail, b = 0) ↔ ∀ i, bytes.getD (i + 1) 0 = 0 := by
  cases bytes with
  | nil => simp
  | cons b bytes =>
    simp only [List.tail_cons, List.getD_cons_succ]
    constructor
    · intro zeros i
      by_cases inside : i < bytes.length
      · rw [List.getD_eq_getElem _ _ inside]
        exact zeros _ (List.getElem_mem inside)
      · exact List.getD_eq_default _ _ (by omega)
    · intro zeros b member
      obtain ⟨i, bound, rfl⟩ := List.mem_iff_getElem.mp member
      rw [← List.getD_eq_getElem _ 0]
      exact zeros i

theorem getD_elements (f : List UInt8 → UInt8) (bytes : List UInt8) (width i : Nat) :
    ((List.range (bytes.length / width)).map fun i => f (block bytes width i)).getD i 0
      = if i < bytes.length / width then f (block bytes width i) else 0 := by
  rw [List.getD_eq_getElem?_getD, List.getElem?_map]
  split
  · rename_i inside
    rw [List.getElem?_range inside]
    rfl
  · rename_i outside
    rw [List.getElem?_eq_none (by simpa using outside)]
    rfl

/-- Elements of several bytes: the last bytes are zero since nothing is stored there, and so are
those before, as each is the value of an element that lies behind it. -/
theorem padded_elements_iff {f : List UInt8 → UInt8} {width : Nat} {bytes : List UInt8}
    (wide : 2 ≤ width) (whole : width ∣ bytes.length)
    (zero : ∀ block, (∀ b ∈ block, b = 0) → f block = 0) :
    padded ((List.range (bytes.length / width)).map fun i => f (block bytes width i)) bytes.length
        = bytes ↔
      (∀ b ∈ bytes.tail, b = 0) ∧ f (block bytes width 0) = bytes.getD 0 0 := by
  have fits : bytes.length / width ≤ bytes.length := Nat.div_le_self _ _
  rw [padded_eq_iff (by simpa using fits), tail_zero_iff]
  simp only [getD_elements]
  have beyond : ∀ i, bytes.length ≤ i → bytes.getD i 0 = 0 :=
    fun i outside => List.getD_eq_default _ _ outside
  have nothing : ¬0 < bytes.length / width → bytes = [] := by
    intro none
    obtain ⟨m, length⟩ := whole
    rw [length, Nat.mul_div_cancel_left m (by omega), Nat.not_lt, Nat.le_zero] at none
    exact List.length_eq_zero_iff.mp (by rw [length, none, Nat.mul_zero])
  have later : ∀ i, (∀ k, i < k → bytes.getD (k + 1) 0 = 0) →
      f (block bytes width (i + 1)) = 0 := by
    intro i zeros
    apply zero
    intro b member
    obtain ⟨j, rfl⟩ := mem_block member
    have behind : (i + 1) * 2 ≤ (i + 1) * width := Nat.mul_le_mul_left _ wide
    obtain ⟨k, index⟩ : ∃ k, (i + 1) * width + j = k + 1 := ⟨(i + 1) * width + j - 1, by omega⟩
    rw [index]
    exact zeros k (by omega)
  constructor
  · intro same
    have tail : ∀ n i, bytes.length - i ≤ n → bytes.getD (i + 1) 0 = 0 := by
      intro n
      induction n with
      | zero => exact fun i near => beyond _ (by omega)
      | succ n ih =>
        intro i near
        rw [← same (i + 1)]
        split
        · exact later i fun k behind => ih k (by omega)
        · rfl
    refine ⟨fun i => tail _ i (Nat.le_refl _), ?_⟩
    rw [← same 0]
    split
    · rfl
    · rename_i none
      rw [nothing none]
      exact zero _ (by simp [block])
  · rintro ⟨tail, first⟩ i
    cases i with
    | zero =>
      split
      · exact first
      · rename_i none
        rw [nothing none]
        rfl
    | succ i =>
      rw [tail i]
      split
      · exact later i fun k _ => tail k
      · rfl

theorem getD_block_zero {width : Nat} (some : 0 < width) (bytes : List UInt8) (i : Nat) :
    (block bytes width i).getD 0 0 = bytes.getD (i * width) 0 := by
  rw [block, List.getD_eq_getElem?_getD, List.getElem?_take_of_lt some, List.getElem?_drop,
    Nat.add_zero, List.getD_eq_getElem?_getD]

/-- One byte for each element: all bytes are stored. -/
theorem padded_bytes {f : List UInt8 → UInt8} (bytes : List UInt8)
    (first : ∀ block, f block = block.getD 0 0) :
    padded ((List.range (bytes.length / 1)).map fun i => f (block bytes 1 i)) bytes.length
      = bytes := by
  rw [padded_eq_iff (by simp)]
  intro i
  rw [getD_elements, Nat.div_one, first, getD_block_zero Nat.one_pos, Nat.mul_one]
  split
  · rfl
  · exact (List.getD_eq_default _ _ (by omega)).symm

theorem forall_zero_iff (bytes : List UInt8) :
    (∀ b ∈ bytes, b = 0) ↔ (∀ b ∈ bytes.tail, b = 0) ∧ 0 = bytes.getD 0 0 := by
  cases bytes with
  | nil => simp
  | cons b bytes =>
    rw [List.forall_mem_cons, and_comm]
    exact and_congr_right fun _ => eq_comm

theorem part_view_eq {e : Element} (typed : v.element = some e) (number : e.isBigInt = false) :
    (Binary.view v).part = some v.bytes ↔
      padded ((List.range (v.bytes.length / e.width)).map fun i =>
        e.toUint8 (block v.bytes e.width i)) v.bytes.length = v.bytes := by
  rw [Binary.part, Binary.stored, elements_typed typed number, Binary.byteLength, ← v.length_bytes]
  simp

theorem part_view_iff (v : View) : (Binary.view v).part = some v.bytes ↔ v.ElementsAreBytes := by
  have whole : ∀ {e}, v.element = some e → e.width ∣ v.bytes.length := by
    intro e typed
    rw [v.length_bytes]
    exact v.whole e typed
  have integer : ∀ {e : Element}, v.element = some e → e.isBigInt = false → 2 ≤ e.width →
      (∀ block, e.toUint8 block = block.getD 0 0) →
      ((Binary.view v).part = some v.bytes ↔ ∀ b ∈ v.bytes.tail, b = 0) := by
    intro e typed number wide first
    rw [part_view_eq typed number, padded_elements_iff wide (whole typed), first,
      getD_block_zero (by omega), Nat.zero_mul, and_iff_left rfl]
    intro block zeros
    rw [first]
    cases block with
    | nil => rfl
    | cons b block => exact zeros b List.mem_cons_self
  have float : ∀ {e : Element}, v.element = some e → e.isBigInt = false → 2 ≤ e.width →
      (∀ block : List UInt8, (∀ b ∈ block.tail, b = 0) → e.toUint8 block = 0) →
      ((Binary.view v).part = some v.bytes ↔ ∀ b ∈ v.bytes, b = 0) := by
    intro e typed number wide small
    rw [part_view_eq typed number, padded_elements_iff wide (whole typed),
      forall_zero_iff v.bytes]
    · refine and_congr_right fun tail => ?_
      rw [small]
      intro b member
      rw [block, Nat.zero_mul, List.drop_zero, ← List.drop_one, List.drop_take] at member
      exact tail b (List.drop_one ▸ List.mem_of_mem_take member)
    · exact fun block zeros => small block fun b member => zeros b (List.mem_of_mem_tail member)
  rw [View.ElementsAreBytes]
  cases typed : v.element with
  | none =>
    have stored : (Binary.view v).part = some (padded [] v.bytes.length) := by
      rw [Binary.part, Binary.stored, View.elements, typed, Binary.byteLength, ← v.length_bytes]
      rfl
    rw [stored, Option.some.injEq, padded, List.nil_append, List.length_nil, Nat.sub_zero, eq_comm,
      List.eq_replicate_iff, and_iff_right rfl]
  | some e =>
    have bytes : e.isBigInt = false → e.width = 1 → (∀ block, e.toUint8 block = block.getD 0 0) →
        (Binary.view v).part = some v.bytes := by
      intro number one first
      rw [part_view_eq typed number, one]
      exact padded_bytes v.bytes first
    have never : e.isBigInt = true → (Binary.view v).part ≠ some v.bytes := by
      intro big
      rw [Binary.part, Binary.stored, View.elements, typed]
      simp [big]
    cases e with
    | int8 | uint8 | uint8Clamped => exact iff_of_true (bytes rfl rfl ofNat_littleEndian) trivial
    | int16 | uint16 | int32 | uint32 => exact integer typed rfl (by decide) ofNat_littleEndian
    | float16 | float32 | float64 =>
      exact float typed rfl (by decide) fun _ => floatToUint8_tail (by decide) (by decide)
    | bigInt64 | bigUint64 => exact iff_of_false (never rfl) id

end Views

/-! ## Lossy decoding -/

section Lossy

variable {d d' : Decoder} {b : UInt8} {n : Nat} {bytes : List UInt8}

theorem lossyFrom_silent (value : b.toNat = n) (step : d.step n = ([], d')) :
    lossyFrom d (b :: bytes) = lossyFrom d' bytes := by
  rw [lossyFrom, value, step, List.nil_append]

theorem lossyFrom_emit {c : Char} (value : b.toNat = n) (step : d.step n = ([c], d')) :
    lossyFrom d (b :: bytes) = c :: lossyFrom d' bytes := by
  rw [lossyFrom, value, step, List.singleton_append]

theorem step_more {seen needed cp lower upper : Nat} (more : seen + 1 < needed) (above : lower ≤ n)
    (below : n ≤ upper) : Decoder.step ⟨seen, needed, cp, lower, upper⟩ n
      = ([], ⟨seen + 1, needed, cp * 0x40 + n % 0x40, 0x80, 0xbf⟩) := by
  rw [Decoder.step, if_neg (by dsimp only; omega), if_neg (by dsimp only; omega)]
  exact if_neg (by dsimp only; omega)

theorem step_last {seen cp lower upper : Nat} (above : lower ≤ n) (below : n ≤ upper) :
    Decoder.step ⟨seen, seen + 1, cp, lower, upper⟩ n
      = ([Char.ofNat (cp * 0x40 + n % 0x40)], .start) := by
  rw [Decoder.step, if_neg (by dsimp only; omega), if_neg (by dsimp only; omega)]
  exact if_pos rfl

theorem step_lead (n : Nat) : Decoder.start.step n = Decoder.lead n := if_pos rfl

theorem lead_two (above : 0xc2 ≤ n) (below : n ≤ 0xdf) :
    Decoder.lead n = ([], ⟨0, 1, n % 0x20, 0x80, 0xbf⟩) := by
  rw [Decoder.lead, if_neg (by omega), if_pos ⟨above, below⟩]
  rfl

theorem lead_three (above : 0xe0 ≤ n) (below : n ≤ 0xef) :
    Decoder.lead n = ([], ⟨0, 2, n % 0x10, if n = 0xe0 then 0xa0 else 0x80,
      if n = 0xed then 0x9f else 0xbf⟩) := by
  rw [Decoder.lead, if_neg (by omega), if_neg (by omega), if_pos ⟨above, below⟩]
  rfl

theorem lead_four (above : 0xf0 ≤ n) (below : n ≤ 0xf4) :
    Decoder.lead n = ([], ⟨0, 3, n % 8, if n = 0xf0 then 0x90 else 0x80,
      if n = 0xf4 then 0x8f else 0xbf⟩) := by
  rw [Decoder.lead, if_neg (by omega), if_neg (by omega), if_neg (by omega), if_pos ⟨above, below⟩]
  rfl

/-- A whole character is decoded, whatever follows it. -/
theorem lossyFrom_char (c : Char) (rest : List UInt8) :
    lossyFrom .start (String.utf8EncodeChar c ++ rest) = c :: lossyFrom .start rest := by
  have value : c.val.toNat = c.toNat := rfl
  have byte : ∀ n : Nat, n < 256 → (UInt8.ofNat n).toNat = n := by
    intro n small
    rw [UInt8.toNat_ofNat']
    omega
  have scalar : c.toNat < 0xd800 ∨ 0xdfff < c.toNat ∧ c.toNat < 0x110000 := c.valid
  have self : ∀ {n}, n = c.toNat → Char.ofNat n = c := by
    rintro n rfl
    exact Char.ofNat_toNat c
  unfold String.utf8EncodeChar
  simp only [value]
  split
  · rename_i one
    have lead : Decoder.lead c.toNat = ([c], .start) := by
      rw [Decoder.lead, if_pos (by omega), self rfl]
    exact lossyFrom_emit (byte _ (by omega)) ((step_lead _).trans lead)
  · split
    · rename_i two
      exact (lossyFrom_silent (byte _ (by omega))
          ((step_lead _).trans (lead_two (by omega) (by omega)))).trans <|
        lossyFrom_emit (byte _ (by omega)) <|
          (step_last (by omega) (by omega)).trans (by rw [self (by omega)])
    · split
      · rename_i three
        exact (lossyFrom_silent (byte _ (by omega))
            ((step_lead _).trans (lead_three (by omega) (by omega)))).trans <|
          (lossyFrom_silent (byte _ (by omega))
            (step_more (by decide) (by split <;> omega) (by split <;> omega))).trans <|
          lossyFrom_emit (byte _ (by omega)) <|
            (step_last (by omega) (by omega)).trans (by rw [self (by omega)])
      · exact (lossyFrom_silent (byte _ (by omega))
            ((step_lead _).trans (lead_four (by omega) (by omega)))).trans <|
          (lossyFrom_silent (byte _ (by omega))
            (step_more (by decide) (by split <;> omega) (by split <;> omega))).trans <|
          (lossyFrom_silent (byte _ (by omega))
            (step_more (by decide) (by omega) (by omega))).trans <|
          lossyFrom_emit (byte _ (by omega)) <|
            (step_last (by omega) (by omega)).trans (by rw [self (by omega)])

/-- The lossy decoder undoes encoding. -/
theorem lossyUtf8_utf8 (t : Text) : lossyUtf8 (utf8 t) = t := by
  induction t with
  | nil => rfl
  | cons c t ih => exact (lossyFrom_char c (utf8 t)).trans (congrArg (c :: ·) ih)

end Lossy

/-! ## The main result -/

section Main

theorem fits_binary (c : Chunk) : (Delivered.chunk c).binary.Fits ∧
    (Delivered.chunk c).binary.byteLength = some c.bytes.length := by
  cases c with
  | string t => exact ⟨⟨_, rfl, fun data stored => by cases stored; exact Nat.le_refl _⟩, rfl⟩
  | buffer bytes => exact ⟨⟨_, rfl, fun data stored => by cases stored; exact Nat.le_refl _⟩, rfl⟩
  | view v =>
    refine ⟨⟨_, rfl, ?_⟩, by rw [Chunk.bytes, v.length_bytes]; rfl⟩
    intro data stored
    simp only [Delivered.binary, Binary.stored, View.elements] at stored
    split at stored
    · cases stored
      exact Nat.zero_le _
    · split at stored
      · cases stored
      · cases stored
        simpa using Nat.div_le_self _ _

theorem part_chunk_iff (c : Chunk) : (Delivered.chunk c).binary.part = some c.bytes ↔
    ∀ v, c = .view v → v.ElementsAreBytes := by
  have own : ∀ bytes : List UInt8, (Binary.buffer bytes).part = some bytes := by
    intro bytes
    simp [Binary.part, Binary.stored, Binary.byteLength, padded]
  cases c with
  | string t => exact iff_of_true (own _) (by simp)
  | buffer bytes => exact iff_of_true (own _) (by simp)
  | view v =>
    refine (part_view_iff v).trans ?_
    simp

theorem readArrayBuffer_chunks (chunks : List Chunk) :
    concatArrayBuffer ((chunks.map Delivered.chunk).map Delivered.binary)
        = some (chunks.flatMap Chunk.bytes) ↔
      ∀ v, .view v ∈ chunks → v.ElementsAreBytes := by
  rw [List.map_map]
  refine (concatArrayBuffer_iff (fun c _ => (fits_binary c).1) fun c _ => (fits_binary c).2).trans ?_
  constructor
  · intro parts v member
    exact (part_chunk_iff (.view v)).mp (parts _ member) v rfl
  · intro direct c member
    exact (part_chunk_iff c).mpr fun v same => direct v (same ▸ member)

theorem readArrayBuffer_iff (init : BodyInit) :
    init.readArrayBuffer = some init.contents ↔ init.Direct := by
  have single : ∀ c : Chunk, (∀ v, c ≠ .view v) →
      concatArrayBuffer ([Delivered.chunk c].map Delivered.binary) = some c.bytes := by
    intro c noView
    have only := (readArrayBuffer_chunks [c]).mpr fun v member =>
      absurd (List.mem_singleton.mp member).symm (noView v)
    simpa using only
  cases init with
  | none => exact iff_of_true rfl trivial
  | string t => exact iff_of_true (single (.string t) (by simp)) trivial
  | arrayBuffer bytes => exact iff_of_true (single (.buffer bytes) (by simp)) trivial
  | view v => exact iff_of_true (single (.buffer v.bytes) (by simp)) trivial
  | object bytes async =>
    cases async with
    | false => exact iff_of_true (single (.buffer bytes) (by simp)) (.inl rfl)
    | true =>
      have empty : (BodyInit.object bytes true).readArrayBuffer = some [] := rfl
      rw [empty, Option.some.injEq, BodyInit.contents, BodyInit.Direct]
      simp [eq_comm]
  | source chunks => exact readArrayBuffer_chunks chunks

/-- A body is read as the bytes of its chunks exactly when nothing asynchronous stands in for them
and no view among the chunks is stored as anything but its bytes. -/
theorem readsContents_iff (init : BodyInit) : init.ReadsContents ↔ init.Direct := by
  rw [← readArrayBuffer_iff]
  constructor
  · exact fun reads => reads.arrayBuffer
  · intro content
    exact ⟨content, content, by rw [BodyInit.readText, content]; rfl⟩

/-- `Uint16Array` chunks lose the high bytes of their elements, and a blob reads as nothing. -/
theorem contents_lost :
    ¬(BodyInit.source [.view ⟨some .uint16, [0x41, 0x42], 0, 2, by decide, by
      rintro e ⟨⟩
      decide⟩]).ReadsContents ∧
    ¬(BodyInit.object [0x41] true).ReadsContents := by
  constructor
  · intro reads
    have bytes := reads.arrayBuffer
    exact absurd bytes (by decide)
  · intro reads
    have bytes := reads.arrayBuffer
    exact absurd bytes (by decide)

/-- The bytes of a text are read as the text, also where a chunk ends inside a character. -/
theorem readText_eq {init : BodyInit} {t : Text} (direct : init.Direct)
    (encoded : init.contents = utf8 t) : init.readText = some t := by
  rw [BodyInit.readText, (readArrayBuffer_iff init).mpr direct, encoded, Option.map_some,
    lossyUtf8_utf8]

/-- The euro sign in two chunks. -/
example : (BodyInit.source [.buffer [0xe2, 0x82], .buffer [0xac]]).readText = some ['€'] :=
  readText_eq (by simp [BodyInit.Direct]) rfl

end Main

end QjsLws.Body
