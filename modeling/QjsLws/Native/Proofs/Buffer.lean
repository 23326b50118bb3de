import QjsLws.Native.Buffer

/-!
# Buffer arguments, proofs

The clamps keep every window in what is left of the buffer after the first offset. That offset need not
lie in the buffer, though, and what is left need not lie in the view.
-/

namespace QjsLws.Native

/-! ## Offset and length -/

theorem int64_eq_self {n : Int} (low : -2 ^ 63 ≤ n) (high : n < 2 ^ 63) : int64 n = n := by
  unfold int64
  omega

theorem size_eq_self {n : Nat} (small : n < 2 ^ 64) : size n = n := by
  unfold size
  omega

theorem toUint32_lt (n : Int) : toUint32 n < 2 ^ 32 := by
  unfold toUint32
  omega

theorem clamp_zero (a : Int) (n : Nat) : clamp a 0 n = (min a.toNat n : Nat) := by
  unfold clamp
  omega

theorem size_sub {a n : Nat} (below : a ≤ n) (small : n < 2 ^ 64) : size (n - a) = n - a := by
  unfold size
  omega

/-- The offset is cut to what there is, the length to what is left after it. -/
theorem getOffsetLength_spec (args : List Int) {maxlen : Nat} (small : maxlen < 2 ^ 53) :
    getOffsetLength args maxlen =
      match args with
      | [] => (0, maxlen)
      | [ofs] => (min (fromEnd ofs maxlen) maxlen, maxlen - min (fromEnd ofs maxlen) maxlen)
      | ofs :: len :: _ => (min (fromEnd ofs maxlen) maxlen,
          min (fromEnd len maxlen) (maxlen - min (fromEnd ofs maxlen) maxlen)) := by
  have whole : ∀ {n : Nat}, n ≤ maxlen → int64 n = n := fun below =>
    int64_eq_self (by omega) (by omega)
  -- both clamps, for an offset and a length that are numbers already
  have cut : ∀ ofs len : Int,
      (size (clamp ofs 0 maxlen), size (clamp len 0 (int64 (size (maxlen - clamp ofs 0 maxlen)))))
        = (min ofs.toNat maxlen, min len.toNat (maxlen - min ofs.toNat maxlen)) := by
    intro ofs len
    have below : min ofs.toNat maxlen ≤ maxlen := Nat.min_le_right ..
    rw [clamp_zero, size_sub below (by omega), whole (Nat.sub_le ..), clamp_zero,
      size_eq_self (by omega), size_eq_self (by omega)]
  match args with
  | [] =>
    simp only [getOffsetLength, whole (Nat.le_refl _), cut]
    simp
  | [ofs] =>
    simp only [getOffsetLength, whole (Nat.le_refl _), cut, fromEnd]
    simp
  | ofs :: len :: rest =>
    simp only [getOffsetLength, whole (Nat.le_refl _), cut, fromEnd]

/-- Where the offset of an object lies behind its buffer, nothing is left, at the end of the buffer. -/
theorem getOffsetLength_behind (args : List Int) {length offset : Nat} (small : length < 2 ^ 53)
    (beyond : length < offset) (below : offset < 2 ^ 32) (given : args ≠ []) :
    getOffsetLength args (size (length - offset)) = (size (length - offset), 0) := by
  have maxlen : int64 (size (length - offset)) = length - offset := by
    unfold int64 size
    omega
  have ofs : ∀ a : Int, clamp a 0 (length - offset) = length - offset := by
    intro a
    unfold clamp
    omega
  have left : int64 (size (size ((length : Int) - offset) - ((length : Int) - offset))) = 0 := by
    unfold int64 size
    omega
  have len : ∀ a : Int, clamp a 0 0 = 0 := by
    intro a
    unfold clamp
    omega
  match args with
  | [_] | _ :: _ :: _ =>
    simp only [getOffsetLength, maxlen, ofs, left, len]
    rfl

/-! ## The window -/

section Windows

variable {arg : BufferArg} {b : ArrayBuffer} {base bytes : Nat}

theorem getBuffer_eq (taken : getTypedarrayBuffer arg = some (b, base, bytes)) (args : List Int) :
    getBuffer arg args = some (if args = [] then ⟨base, min (size (b.byteLength - base)) bytes⟩
      else ⟨size (base + (getOffsetLength args (size (b.byteLength - base))).1),
        (getOffsetLength args (size (b.byteLength - base))).2⟩) := by
  simp only [getBuffer, taken, Option.map_some]

theorem getBuffer_plain (taken : getTypedarrayBuffer arg = some (b, base, bytes))
    (within : base ≤ b.byteLength) :
    getBuffer arg [] = some ⟨base, min (b.byteLength - base) bytes⟩ := by
  have small := b.small
  rw [getBuffer_eq taken, if_pos rfl, size_sub within (by omega)]

theorem getBuffer_given (taken : getTypedarrayBuffer arg = some (b, base, bytes))
    (within : base ≤ b.byteLength) (ofs : Int) (rest : List Int) :
    getBuffer arg (ofs :: rest) =
      let left := b.byteLength - base
      let start := min (fromEnd ofs left) left
      some ⟨base + start, match rest with
        | [] => left - start
        | n :: _ => min (fromEnd n left) (left - start)⟩ := by
  have small := b.small
  have exact_ : ∀ {n : Nat}, n ≤ b.byteLength - base → size (base + n) = base + n := fun below =>
    size_eq_self (n := base + _) (by omega)
  rw [getBuffer_eq taken, if_neg (List.cons_ne_nil _ _), size_sub within (by omega),
    getOffsetLength_spec _ (by omega)]
  match rest with
  | [] | _ :: _ => simp only [exact_ (Nat.min_le_right ..)]

theorem getBuffer_within (taken : getTypedarrayBuffer arg = some (b, base, bytes))
    (within : base ≤ b.byteLength) {args : List Int} {w : Window}
    (found : getBuffer arg args = some w) : w.offset + w.length ≤ b.byteLength := by
  cases args with
  | nil =>
    rw [getBuffer_plain taken within] at found
    obtain rfl := Option.some.inj found
    dsimp only
    omega
  | cons ofs rest =>
    rw [getBuffer_given taken within] at found
    obtain rfl := Option.some.inj found
    dsimp only
    split <;> omega

/-- An object may begin behind its buffer. -/
theorem getBuffer_behind (taken : getTypedarrayBuffer arg = some (b, base, bytes))
    (beyond : b.byteLength < base) (below : base < 2 ^ 32) (shown : bytes < 2 ^ 32)
    (args : List Int) : getBuffer arg args = some (if args = [] then ⟨base, bytes⟩
      else ⟨b.byteLength, 0⟩) := by
  have small := b.small
  have huge : bytes ≤ size (b.byteLength - base) := by
    unfold size
    omega
  have back : size (base + size (b.byteLength - base)) = b.byteLength := by
    unfold size
    omega
  rw [getBuffer_eq taken]
  by_cases given : args = []
  · rw [if_pos given, if_pos given, Nat.min_eq_right huge]
  · rw [if_neg given, if_neg given, getOffsetLength_behind args small beyond below given, back]

end Windows

/-! ### Views -/

/-- Where the part from `base + f` ends, without a length and with the length `g`. -/
theorem part_inside_iff {offset length whole base f : Nat} (low : base ≤ offset)
    (inside : offset + length ≤ whole) :
    ((offset ≤ base + min f (whole - base) ∧
        base + min f (whole - base) + (whole - base - min f (whole - base)) ≤ offset + length) ↔
      offset ≤ base + f ∧ offset + length = whole) ∧
    ∀ g, (offset ≤ base + min f (whole - base) ∧
        base + min f (whole - base) + min g (whole - base - min f (whole - base)) ≤
          offset + length) ↔
      offset ≤ base + f ∧ (offset + length = whole ∨ base + f + g ≤ offset + length) := by
  refine ⟨by omega, fun g => by omega⟩

/-- A view that the code takes from a base before its offset. -/
theorem view_inside_iff {arg : BufferArg} (v : BufferView) {base bytes : Nat}
    (taken : getTypedarrayBuffer arg = some (v.buffer, base, bytes)) (low : base ≤ v.byteOffset)
    (ofs : Int) (rest : List Int) :
    (∀ w, getBuffer arg (ofs :: rest) = some w → v.byteOffset ≤ w.offset ∧
      w.offset + w.length ≤ v.byteOffset + v.byteLength ∧
        w.offset + w.length ≤ v.buffer.byteLength) ↔ AsksInside v base (ofs :: rest) := by
  have inside := v.inside
  have parts := @part_inside_iff v.byteOffset v.byteLength v.buffer.byteLength base
    (fromEnd ofs (v.buffer.byteLength - base)) low inside
  rw [getBuffer_given taken (by omega)]
  simp only [Option.some.injEq, forall_eq']
  match rest with
  | [] =>
    simp only [AsksInside, reduceCtorEq, false_and, exists_false, or_false, ← parts.1]
    omega
  | n :: more =>
    have ends : (∃ m more', n :: more = m :: more' ∧
        base + fromEnd ofs (v.buffer.byteLength - base) + fromEnd m (v.buffer.byteLength - base) ≤
          v.byteOffset + v.byteLength) ↔
        base + fromEnd ofs (v.buffer.byteLength - base) + fromEnd n (v.buffer.byteLength - base) ≤
          v.byteOffset + v.byteLength := by
      constructor
      · rintro ⟨m, more', same, fits⟩
        obtain ⟨rfl, -⟩ := List.cons.inj same
        exact fits
      · exact fun fits => ⟨n, more, rfl, fits⟩
    rw [AsksInside, ends, ← parts.2]
    exact and_congr_right fun _ => and_iff_left_of_imp fun fits => Nat.le_trans fits inside

/-! ## Windows inside their buffer -/

/-- A window lies in its buffer and view exactly if the arguments are proper. -/
theorem window_inside_iff (arg : BufferArg) (args : List Int) :
    (∀ w, getBuffer arg args = some w → w.Inside arg) ↔ Proper arg args := by
  match arg with
  | .other =>
    have refused : getBuffer .other args = none := by
      cases args <;> rfl
    rw [refused]
    exact iff_of_true nofun trivial
  | .arrayBuffer b => exact iff_of_true (fun w found => getBuffer_within rfl (Nat.zero_le _) found) trivial
  | .object b byteOffset byteLength =>
    have below := toUint32_lt byteOffset
    have shown := toUint32_lt byteLength
    rcases Nat.lt_or_ge b.byteLength (toUint32 byteOffset) with beyond | within
    · simp only [Proper, Window.Inside]
      rw [getBuffer_behind rfl beyond below shown]
      by_cases given : args = []
      · simp only [given, if_true, Option.some.injEq, forall_eq', ne_eq, not_true_eq_false, or_false]
        omega
      · simp [given]
    · exact iff_of_true (fun w found => getBuffer_within rfl within found) (.inl within)
  | .typedArray v =>
    have inside := v.inside
    cases args with
    | nil =>
      refine iff_of_true (fun w found => ?_) trivial
      rw [getBuffer_plain rfl (by omega)] at found
      obtain rfl := Option.some.inj found
      simp only [Window.Inside]
      omega
    | cons ofs rest => exact view_inside_iff v rfl (Nat.le_refl _) ofs rest
  | .dataView v =>
    have inside := v.inside
    have low : toUint32 v.byteOffset ≤ v.byteOffset := by
      unfold toUint32
      omega
    cases args with
    | nil =>
      rw [getBuffer_plain rfl (by omega)]
      simp only [Option.some.injEq, forall_eq', Window.Inside, Proper, AsksInside, forall_const, and_true]
      unfold toUint32
      omega
    | cons ofs rest =>
      have asks := @view_inside_iff (.dataView v) v _ _ rfl low ofs rest
      rw [Proper, ← asks]
      exact (and_iff_right nofun).symm

/-- An object that begins behind its buffer, and a view of a larger buffer with an offset. -/
theorem window_outside :
    (∃ w, getBuffer (.object ⟨4, by decide⟩ 8 4) [] = some w ∧
      ¬w.Inside (.object ⟨4, by decide⟩ 8 4)) ∧
    ∃ w, getBuffer (.typedArray ⟨⟨16, by decide⟩, 4, 4, by decide⟩) [0] = some w ∧
      ¬w.Inside (.typedArray ⟨⟨16, by decide⟩, 4, 4, by decide⟩) := by
  refine ⟨⟨⟨8, 4⟩, by decide, by simp [Window.Inside]⟩, ⟨⟨4, 12⟩, by decide, by simp [Window.Inside]⟩⟩

end QjsLws.Native
