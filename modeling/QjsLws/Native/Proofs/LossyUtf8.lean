import QjsLws.Body.Proofs.Content
import QjsLws.Native.LossyUtf8

/-!
# Lossy decoding, proofs

Between two rounds the loop has read the beginning of a character, and its variables say which bytes may
follow (`Pending`). What does not follow ends a maximal subpart. The decoder of `Body.Content`, which
takes each byte once, makes the same text.
-/

namespace QjsLws.Native

open QjsLws.Misc QjsLws.Body

/-! ## Characters that have begun -/

section Begun

variable {seq rest : List UInt8} {d d' : Decoder} {a b c : UInt8}

/-- The bytes that begin a character, and the state of the decoder after them. -/
inductive Pending : List UInt8 → Decoder → Prop where
  | ofTwo {a : UInt8} : 0xc2 ≤ a.toNat → a.toNat ≤ 0xdf →
    Pending [a] ⟨0, 1, a.toNat % 0x20, 0x80, 0xbf⟩
  | ofThree {a : UInt8} : 0xe0 ≤ a.toNat → a.toNat ≤ 0xef →
    Pending [a] ⟨0, 2, a.toNat % 0x10, if a.toNat = 0xe0 then 0xa0 else 0x80,
      if a.toNat = 0xed then 0x9f else 0xbf⟩
  | ofFour {a : UInt8} : 0xf0 ≤ a.toNat → a.toNat ≤ 0xf4 →
    Pending [a] ⟨0, 3, a.toNat % 8, if a.toNat = 0xf0 then 0x90 else 0x80,
      if a.toNat = 0xf4 then 0x8f else 0xbf⟩
  | lastOfThree {a b : UInt8} : 0xe0 ≤ a.toNat → a.toNat ≤ 0xef →
    (if a.toNat = 0xe0 then 0xa0 else 0x80) ≤ b.toNat →
    b.toNat ≤ (if a.toNat = 0xed then 0x9f else 0xbf) →
    Pending [a, b] ⟨1, 2, a.toNat % 0x10 * 0x40 + b.toNat % 0x40, 0x80, 0xbf⟩
  | thirdOfFour {a b : UInt8} : 0xf0 ≤ a.toNat → a.toNat ≤ 0xf4 →
    (if a.toNat = 0xf0 then 0x90 else 0x80) ≤ b.toNat →
    b.toNat ≤ (if a.toNat = 0xf4 then 0x8f else 0xbf) →
    Pending [a, b] ⟨1, 3, a.toNat % 8 * 0x40 + b.toNat % 0x40, 0x80, 0xbf⟩
  | lastOfFour {a b c : UInt8} : 0xf0 ≤ a.toNat → a.toNat ≤ 0xf4 →
    (if a.toNat = 0xf0 then 0x90 else 0x80) ≤ b.toNat →
    b.toNat ≤ (if a.toNat = 0xf4 then 0x8f else 0xbf) → 0x80 ≤ c.toNat → c.toNat ≤ 0xbf →
    Pending [a, b, c] ⟨2, 3, (a.toNat % 8 * 0x40 + b.toNat % 0x40) * 0x40 + c.toNat % 0x40, 0x80,
      0xbf⟩

/-- What is known of the variables. -/
theorem Pending.bounds (pending : Pending seq d) : d.seen < d.needed ∧ d.needed ≤ 3 ∧
    d.cp < 2 ^ 20 ∧ 0x80 ≤ d.lower ∧ d.lower ≤ d.upper ∧ d.upper ≤ 0xbf := by
  cases pending with
  | ofTwo low high | lastOfThree low high | thirdOfFour low high | lastOfFour low high =>
    dsimp only
    omega
  | ofThree low high | ofFour low high =>
    dsimp only
    split <;> split <;> omega

/-- A byte that may follow ends the character or goes on with it. -/
theorem Pending.next (pending : Pending seq d) (low : d.lower ≤ b.toNat) (high : b.toNat ≤ d.upper) :
    (d.seen + 1 = d.needed ∧ (Char.ofNat (d.cp * 0x40 + b.toNat % 0x40)).toNat
        = d.cp * 0x40 + b.toNat % 0x40 ∧
      String.utf8EncodeChar (Char.ofNat (d.cp * 0x40 + b.toNat % 0x40)) = seq ++ [b]) ∨
    d.seen + 1 < d.needed ∧ Pending (seq ++ [b])
      ⟨d.seen + 1, d.needed, d.cp * 0x40 + b.toNat % 0x40, 0x80, 0xbf⟩ := by
  cases pending with
  | ofTwo low₁ high₁ =>
    refine .inl ⟨rfl, toNat_ofNat (.inl (by dsimp only; omega)), encode_two low₁ high₁ low high⟩
  | ofThree low₁ high₁ => exact .inr ⟨Nat.lt_succ_self 1, .lastOfThree low₁ high₁ low high⟩
  | ofFour low₁ high₁ =>
    exact .inr ⟨Nat.lt_succ_of_lt (Nat.lt_succ_self 1), .thirdOfFour low₁ high₁ low high⟩
  | lastOfThree low₁ high₁ low₂ high₂ =>
    exact .inl ⟨rfl, encode_three low₁ high₁ low₂ high₂ low high rfl⟩
  | thirdOfFour low₁ high₁ low₂ high₂ =>
    exact .inr ⟨Nat.lt_succ_self 2, .lastOfFour low₁ high₁ low₂ high₂ low high⟩
  | lastOfFour low₁ high₁ low₂ high₂ low₃ high₃ =>
    exact .inl ⟨rfl, encode_four low₁ high₁ low₂ high₂ low₃ high₃ low high rfl⟩

theorem Pending.step_next (pending : Pending seq d) (low : d.lower ≤ b.toNat)
    (high : b.toNat ≤ d.upper) : d.step b.toNat =
      if d.seen + 1 = d.needed then ([Char.ofNat (d.cp * 0x40 + b.toNat % 0x40)], .start)
      else ([], ⟨d.seen + 1, d.needed, d.cp * 0x40 + b.toNat % 0x40, 0x80, 0xbf⟩) := by
  have bounds := pending.bounds
  rw [Decoder.step, if_neg (by omega), if_neg (by omega)]
  rfl

/-- A byte that may not follow is looked at again. -/
theorem Pending.step_bad (pending : Pending seq d) (bad : b.toNat < d.lower ∨ d.upper < b.toNat) :
    lossyFrom d (b :: rest) = replacement :: lossyFrom .start (b :: rest) := by
  have bounds := pending.bounds
  have first : Decoder.start.step b.toNat = Decoder.lead b.toNat := step_lead _
  rw [lossyFrom, lossyFrom, Decoder.step, if_neg (by omega), if_pos bad, first]
  rfl

/-- A first byte. -/
theorem lead_cases (b : UInt8) :
    (b.toNat < 0x80 ∧ Decoder.lead b.toNat = ([Char.ofNat b.toNat], .start)) ∨
    (∃ d, Pending [b] d ∧ Decoder.lead b.toNat = ([], d)) ∨
      ((0x80 ≤ b.toNat ∧ b.toNat < 0xc2 ∨ 0xf4 < b.toNat) ∧
        Decoder.lead b.toNat = ([replacement], .start)) := by
  rcases Nat.lt_or_ge b.toNat 0x80 with ascii | beyond
  · exact .inl ⟨ascii, if_pos ascii⟩
  · by_cases two : 0xc2 ≤ b.toNat ∧ b.toNat ≤ 0xdf
    · exact .inr (.inl ⟨_, .ofTwo two.1 two.2, lead_two two.1 two.2⟩)
    · by_cases three : 0xe0 ≤ b.toNat ∧ b.toNat ≤ 0xef
      · exact .inr (.inl ⟨_, .ofThree three.1 three.2, lead_three three.1 three.2⟩)
      · by_cases four : 0xf0 ≤ b.toNat ∧ b.toNat ≤ 0xf4
        · exact .inr (.inl ⟨_, .ofFour four.1 four.2, lead_four four.1 four.2⟩)
        · refine .inr (.inr ⟨by omega, ?_⟩)
          rw [Decoder.lead, if_neg (by omega), if_neg two, if_neg three, if_neg four]
          rfl

/-- A character that has begun can be ended. -/
theorem Pending.completion (pending : Pending seq d) :
    ∃ c more, more ≠ [] ∧ String.utf8EncodeChar c = seq ++ more := by
  have least : ∀ {d : Decoder}, d.lower < 256 → (UInt8.ofNat d.lower).toNat = d.lower := by
    intro d small
    rw [UInt8.toNat_ofNat']
    omega
  -- induction on the bytes that are still owed; the least byte that may follow is one
  suffices ∀ n seq d, Pending seq d → d.needed - d.seen = n →
      ∃ c more, more ≠ [] ∧ String.utf8EncodeChar c = seq ++ more from this _ seq d pending rfl
  intro n
  induction n with
  | zero =>
    intro seq d pending owed
    have bounds := pending.bounds
    omega
  | succ n ih =>
    intro seq d pending owed
    obtain ⟨owing, -, -, -, low, high⟩ := pending.bounds
    have value := @least d (by omega)
    rcases pending.next (Nat.le_of_eq value.symm) (by rw [value]; exact low) with whole | more
    · exact ⟨_, [UInt8.ofNat d.lower], List.cons_ne_nil _ _, whole.2.2⟩
    · obtain ⟨c, rest, -, same⟩ := ih _ _ more.2 (by dsimp only; omega)
      exact ⟨c, UInt8.ofNat d.lower :: rest, List.cons_ne_nil _ _, by rw [same]; simp⟩

/-- The decoder reads the beginning of a character without a word. -/
theorem Pending.run (pending : Pending seq d) (rest : List UInt8) :
    lossyFrom .start (seq ++ rest) = lossyFrom d rest := by
  have first : ∀ {a : UInt8} {d : Decoder} (rest : List UInt8), Decoder.lead a.toNat = ([], d) →
      lossyFrom .start (a :: rest) = lossyFrom d rest := fun rest lead =>
    lossyFrom_silent rfl ((step_lead _).trans lead)
  cases pending with
  | ofTwo low high => exact first rest (lead_two low high)
  | ofThree low high => exact first rest (lead_three low high)
  | ofFour low high => exact first rest (lead_four low high)
  | lastOfThree low high low₂ high₂ =>
    exact (first _ (lead_three low high)).trans
      (lossyFrom_silent rfl (step_more (by decide) low₂ high₂))
  | thirdOfFour low high low₂ high₂ =>
    exact (first _ (lead_four low high)).trans
      (lossyFrom_silent rfl (step_more (by decide) low₂ high₂))
  | lastOfFour low high low₂ high₂ low₃ high₃ =>
    exact ((first _ (lead_four low high)).trans
      (lossyFrom_silent rfl (step_more (by decide) low₂ high₂))).trans
        (lossyFrom_silent rfl (step_more (by decide) low₃ high₃))

end Begun

/-! ## Maximal subparts -/

section Subparts

variable {seq rest bytes : List UInt8} {d : Decoder} {b : UInt8} {t : Text}

theorem Pending.ne_nil (pending : Pending seq d) : seq ≠ [] := by
  cases pending <;> exact List.cons_ne_nil _ _

/-- Where a character has begun or bytes are left, some text comes out. -/
theorem lossyFrom_ne_nil (bytes : List UInt8) : ∀ d : Decoder, d.needed ≠ 0 ∨ bytes ≠ [] →
    lossyFrom d bytes ≠ [] := by
  have lead : ∀ b : UInt8, (Decoder.lead b.toNat).1 ≠ [] ∨ (Decoder.lead b.toNat).2.needed ≠ 0 := by
    intro b
    rcases lead_cases b with ⟨-, same⟩ | ⟨d, pending, same⟩ | ⟨-, same⟩
    · simp [same]
    · have bounds := pending.bounds
      exact .inr (by rw [same]; dsimp only; omega)
    · simp [same]
  induction bytes with
  | nil =>
    intro d more
    rw [lossyFrom, if_neg (more.resolve_right fun no => no rfl)]
    exact List.cons_ne_nil _ _
  | cons b bytes ih =>
    intro d _
    have next : (d.step b.toNat).1 ≠ [] ∨ (d.step b.toNat).2.needed ≠ 0 := by
      rw [Decoder.step]
      split
      · exact lead b
      · rename_i owing
        split
        · exact .inl (List.cons_ne_nil _ _)
        · dsimp only
          split
          · exact .inl (List.cons_ne_nil _ _)
          · exact .inr owing
    rw [lossyFrom]
    intro empty
    obtain ⟨none, nothing⟩ := List.append_eq_nil_iff.mp empty
    rcases next with some | owing
    · exact some none
    · exact ih _ (.inl owing) nothing

/-- Bytes at which the decoder gives up begin no character. -/
theorem not_viable_of_replaced {before : List UInt8}
    (replaced : ∀ more, lossyFrom .start (before ++ b :: more)
      = replacement :: lossyFrom .start (b :: more)) : ¬Viable (before ++ [b]) := by
  rintro ⟨c, more, same⟩
  rw [List.append_assoc, List.singleton_append] at same
  have whole := lossyFrom_char c []
  rw [List.append_nil, ← same, replaced] at whole
  exact lossyFrom_ne_nil (b :: more) .start (.inr (List.cons_ne_nil _ _)) (List.cons.inj whole).2

/-- The beginning of a character is a maximal subpart where nothing follows or a bad byte. -/
theorem Pending.maximalSubpart (pending : Pending seq d)
    (stuck : ∀ b more, rest = b :: more → ¬Viable (seq ++ [b])) : MaximalSubpart seq rest := by
  obtain ⟨c, tail, owed, whole⟩ := pending.completion
  refine ⟨pending.ne_nil, ?_, .inl ⟨c, tail, whole.symm⟩, ?_⟩
  · rintro e ⟨more, same⟩
    rcases List.append_eq_append_iff.mp same with ⟨extra, rfl, -⟩ | ⟨extra, shape, split⟩
    · -- a whole character inside one that has only begun
      have inside : String.utf8EncodeChar e ++ (extra ++ tail) = String.utf8EncodeChar c ++ [] := by
        rw [whole]
        simp
      exact owed (List.append_eq_nil_iff.mp (eq_of_encode_append inside).2).2
    · cases extra with
      | nil =>
        rw [List.append_nil] at shape
        have inside : String.utf8EncodeChar e ++ tail = String.utf8EncodeChar c ++ [] := by
          rw [whole, shape]
          simp
        exact owed (eq_of_encode_append inside).2
      | cons b extra =>
        exact stuck b (extra ++ more) split ⟨e, extra, by rw [shape]; simp⟩
  · rintro longer ⟨more, same⟩ larger viable
    rcases List.append_eq_append_iff.mp same with ⟨extra, shape, -⟩ | ⟨extra, rfl, split⟩
    · rw [shape, List.length_append] at larger
      omega
    · cases extra with
      | nil => simp at larger
      | cons b extra => exact stuck b (extra ++ more) split (viable.of_prefix ⟨extra, by simp⟩)

/-- The input after a character that has begun: a whole character, or a maximal subpart. -/
theorem Pending.scan (rest : List UInt8) : ∀ seq d, Pending seq d →
    (∃ c more, seq ++ rest = String.utf8EncodeChar c ++ more) ∨
      ∃ sub more, seq ++ rest = sub ++ more ∧ MaximalSubpart sub more ∧
        lossyFrom .start (sub ++ more) = replacement :: lossyFrom .start more := by
  induction rest with
  | nil =>
    intro seq d pending
    refine .inr ⟨seq, [], rfl, pending.maximalSubpart (by simp), ?_⟩
    have bounds := pending.bounds
    rw [pending.run, lossyFrom, if_neg (by omega)]
    rfl
  | cons b rest ih =>
    intro seq d pending
    by_cases bad : b.toNat < d.lower ∨ d.upper < b.toNat
    · have replaced : ∀ more, lossyFrom .start (seq ++ b :: more)
          = replacement :: lossyFrom .start (b :: more) := fun more => by
        rw [pending.run, pending.step_bad bad]
      refine .inr ⟨seq, b :: rest, rfl, pending.maximalSubpart ?_, replaced rest⟩
      rintro b' more same
      obtain ⟨rfl, -⟩ := List.cons.inj same
      exact not_viable_of_replaced replaced
    · rw [not_or, Nat.not_lt, Nat.not_lt] at bad
      rcases pending.next bad.1 bad.2 with whole | more
      · exact .inl ⟨_, rest, by rw [whole.2.2]; simp⟩
      · have further := ih _ _ more.2
        rw [List.append_assoc, List.singleton_append] at further
        exact further

theorem scan (b : UInt8) (rest : List UInt8) :
    (∃ c more, b :: rest = String.utf8EncodeChar c ++ more) ∨
      ∃ sub more, b :: rest = sub ++ more ∧ MaximalSubpart sub more ∧
        lossyFrom .start (sub ++ more) = replacement :: lossyFrom .start more := by
  rcases lead_cases b with ⟨ascii, -⟩ | ⟨d, pending, -⟩ | ⟨bad, lead⟩
  · exact .inl ⟨_, rest, by rw [encode_one ascii]; rfl⟩
  · exact pending.scan rest [b] d
  · have replaced : ∀ more, lossyFrom .start (b :: more) = replacement :: lossyFrom .start more :=
      fun more => lossyFrom_emit rfl ((step_lead _).trans lead)
    -- no character has the byte in front
    have absent : ¬Viable [b] := by
      rintro ⟨c, tail, same⟩
      have whole := lossyFrom_char c []
      rw [List.append_nil, ← same, List.singleton_append, replaced] at whole
      obtain ⟨rfl, nothing⟩ := List.cons.inj whole
      have single : tail = [] := by
        by_contra some
        exact lossyFrom_ne_nil tail .start (.inr some) nothing
      have three : (String.utf8EncodeChar replacement).length = 3 := by decide
      rw [← same, single, List.append_nil, List.length_singleton] at three
      omega
    refine .inr ⟨[b], rest, rfl, ⟨List.cons_ne_nil _ _, ?_, .inr rfl, ?_⟩, replaced rest⟩
    · rintro c ⟨more, same⟩
      cases shape : String.utf8EncodeChar c with
      | nil => exact utf8EncodeChar_ne_nil c shape
      | cons a tail =>
        rw [shape] at same
        obtain ⟨rfl, -⟩ := List.cons.inj same
        exact absent ⟨c, tail, by rw [shape]; rfl⟩
    · rintro longer ⟨more, same⟩ larger viable
      cases longer with
      | nil => simp at larger
      | cons a longer =>
        obtain ⟨rfl, -⟩ := List.cons.inj same
        exact absent (viable.of_prefix ⟨longer, rfl⟩)

/-- The decoder makes the text that the bytes decode to. -/
theorem decodes_lossyUtf8 (bytes : List UInt8) : Decodes bytes (lossyUtf8 bytes) := by
  suffices ∀ n (bytes : List UInt8), bytes.length ≤ n → Decodes bytes (lossyFrom .start bytes) from
    this _ bytes (Nat.le_refl _)
  intro n
  induction n with
  | zero =>
    intro bytes short
    obtain rfl := List.length_eq_zero_iff.mp (Nat.le_zero.mp short)
    exact .nil
  | succ n ih =>
    intro bytes short
    cases bytes with
    | nil => exact .nil
    | cons b rest =>
      rcases scan b rest with ⟨c, more, same⟩ | ⟨sub, more, same, maximal, replaced⟩
      · have positive := List.length_pos_iff.mpr (utf8EncodeChar_ne_nil c)
        rw [same, List.length_append] at short
        rw [same, lossyFrom_char]
        exact .char c (ih more (by omega))
      · have positive := List.length_pos_iff.mpr maximal.nonempty
        rw [same, List.length_append] at short
        rw [same, replaced]
        exact .subpart maximal (ih more (by omega))

end Subparts

/-! ## The loop -/

section Loop

variable {encode : Nat → List UInt8} {p : List UInt8} {s : LossyState} {b : UInt8}

/-- The part of the variables that the decoder has. -/
def LossyState.decoder (s : LossyState) : Decoder := ⟨s.seen, s.needed, s.cp, s.lower, s.upper⟩

/-- Between characters, or in one that has begun. -/
def Reading (d : Decoder) : Prop := d = .start ∨ ∃ seq, Pending seq d

/-- The rounds that are left at most, but the last. -/
def roundsLeft (p : List UInt8) (s : LossyState) : Nat :=
  2 * (p.length - s.i) + if s.needed = 0 then 0 else 1

/-- A first byte. -/
theorem lead_spec (encoder : ∀ c : Char, encode c.toNat = String.utf8EncodeChar c)
    (start : s.decoder = .start) :
    (s.lead encode b.toNat).decoder = (Decoder.lead b.toNat).2 ∧
      (s.lead encode b.toNat).out = s.out ++ utf8 (Decoder.lead b.toNat).1 ∧
        (s.lead encode b.toNat).i = s.i + 1 := by
  obtain ⟨out, i, seen, needed, cp, lower, upper⟩ := s
  obtain ⟨rfl, rfl, rfl, rfl, rfl⟩ : seen = 0 ∧ needed = 0 ∧ cp = 0 ∧ lower = 0x80 ∧ upper = 0xbf := by
    simpa [LossyState.decoder, Decoder.start] using start
  have one : ∀ {n : Nat}, n < 0xd800 ∨ 0xdfff < n ∧ n < 0x110000 →
      encode n = utf8 [Char.ofNat n] := by
    intro n scalar
    have same := encoder (Char.ofNat n)
    rw [toNat_ofNat scalar] at same
    rw [same]
    simp [utf8]
  have five : b.toNat &&& 0x1f = b.toNat % 0x20 := Nat.and_two_pow_sub_one_eq_mod b.toNat 5
  have four : b.toNat &&& 0x0f = b.toNat % 0x10 := Nat.and_two_pow_sub_one_eq_mod b.toNat 4
  have three : b.toNat &&& 0x07 = b.toNat % 8 := Nat.and_two_pow_sub_one_eq_mod b.toNat 3
  unfold LossyState.lead Decoder.lead
  split
  · exact ⟨rfl, congrArg (out ++ ·) (one (.inl (by omega))), rfl⟩
  · split
    · exact ⟨by rw [five]; rfl, (List.append_nil _).symm, rfl⟩
    · split
      · exact ⟨by rw [four]; rfl, (List.append_nil _).symm, rfl⟩
      · split
        · exact ⟨by rw [three]; rfl, (List.append_nil _).symm, rfl⟩
        · exact ⟨rfl, congrArg (out ++ ·) (one (.inr (by decide))), rfl⟩

/-- A byte that may follow. -/
theorem next_spec (encoder : ∀ c : Char, encode c.toNat = String.utf8EncodeChar c) {seq : List UInt8}
    (pending : Pending seq s.decoder) (low : s.lower ≤ b.toNat) (high : b.toNat ≤ s.upper) :
    (s.step encode b.toNat).decoder = (s.decoder.step b.toNat).2 ∧
      (s.step encode b.toNat).out = s.out ++ utf8 (s.decoder.step b.toNat).1 ∧
        (s.step encode b.toNat).i = s.i + 1 := by
  obtain ⟨owing, most, small, -⟩ := pending.bounds
  have value : (s.cp <<< 6 ||| b.toNat &&& 0x3f) % 2 ^ 32 = s.cp * 0x40 + b.toNat % 0x40 := by
    have mask : b.toNat &&& 0x3f = b.toNat % 2 ^ 6 := Nat.and_two_pow_sub_one_eq_mod b.toNat 6
    have cp : s.cp < 2 ^ 20 := small
    rw [mask, ← Nat.shiftLeft_add_eq_or_of_lt (Nat.mod_lt _ (by decide)), Nat.shiftLeft_eq]
    omega
  have begun : s.needed ≠ 0 := Nat.ne_of_gt (Nat.zero_lt_of_lt owing)
  have good : ¬(b.toNat < s.lower ∨ s.upper < b.toNat) := by omega
  rw [pending.step_next low high, LossyState.step, if_neg begun, if_neg good]
  by_cases last : s.seen + 1 = s.needed
  · rw [if_pos last, if_pos (show s.decoder.seen + 1 = s.decoder.needed from last)]
    have whole := (pending.next low high).resolve_right fun more => Nat.ne_of_lt more.1 last
    have written : encode (s.cp * 0x40 + b.toNat % 0x40)
        = utf8 [Char.ofNat (s.cp * 0x40 + b.toNat % 0x40)] := by
      have scalar : (Char.ofNat (s.cp * 0x40 + b.toNat % 0x40)).toNat = s.cp * 0x40 + b.toNat % 0x40 :=
        whole.2.1
      have same := encoder (Char.ofNat (s.cp * 0x40 + b.toNat % 0x40))
      rw [scalar] at same
      rw [same]
      simp [utf8]
    dsimp only [LossyState.decoder, LossyState.write]
    rw [value]
    exact ⟨rfl, congrArg (s.out ++ ·) written, rfl⟩
  · rw [if_neg last, if_neg (show s.decoder.seen + 1 ≠ s.decoder.needed from last)]
    dsimp only [LossyState.decoder]
    rw [value]
    exact ⟨rfl, (List.append_nil _).symm, rfl⟩

/-- The loop ends with what the decoder makes of the bytes that are left. -/
theorem lossyLoop_spec (encoder : ∀ c : Char, encode c.toNat = String.utf8EncodeChar c) :
    ∀ rounds s, Reading s.decoder → roundsLeft p s < rounds →
      ∃ s', lossyLoop encode p rounds s = some s' ∧
        (if s'.needed = 0 then s'.out else (s'.write encode 0xfffd).out)
          = s.out ++ utf8 (lossyFrom s.decoder (p.drop s.i)) := by
  have mark : encode 0xfffd = utf8 [replacement] := by
    have same := encoder replacement
    rw [show replacement.toNat = 0xfffd from toNat_ofNat (.inr (by decide))] at same
    rw [same]
    simp [utf8]
  intro rounds
  induction rounds with
  | zero =>
    intro s _ enough
    omega
  | succ rounds ih =>
    intro s reading enough
    rw [lossyLoop]
    cases found : p[s.i]? with
    | none =>
      have ended : p.drop s.i = [] := List.drop_eq_nil_of_le (List.getElem?_eq_none_iff.mp found)
      refine ⟨s, rfl, ?_⟩
      rw [ended, lossyFrom]
      by_cases between : s.needed = 0
      · rw [if_pos between, if_pos (show s.decoder.needed = 0 from between)]
        exact (List.append_nil _).symm
      · rw [if_neg between, if_neg (show s.decoder.needed ≠ 0 from between)]
        exact congrArg (s.out ++ ·) mark
    | some b =>
      obtain ⟨inside, rfl⟩ := List.getElem?_eq_some_iff.mp found
      have front : p.drop s.i = p[s.i] :: p.drop (s.i + 1) := List.drop_eq_getElem_cons inside
      change ∃ s', lossyLoop encode p rounds (s.step encode p[s.i].toNat) = some s' ∧ _
      -- a round that consumes the byte as the decoder does
      have consumed : ∀ s' : LossyState, s'.decoder = (s.decoder.step p[s.i].toNat).2 →
          s'.out = s.out ++ utf8 (s.decoder.step p[s.i].toNat).1 → s'.i = s.i + 1 →
            Reading s'.decoder → ∃ s'', lossyLoop encode p rounds s' = some s'' ∧
              (if s''.needed = 0 then s''.out else (s''.write encode 0xfffd).out)
                = s.out ++ utf8 (lossyFrom s.decoder (p.drop s.i)) := by
        intro s' decoder out i reading'
        have fewer : roundsLeft p s' < rounds := by
          unfold roundsLeft at enough ⊢
          rw [i]
          split <;> omega
        obtain ⟨s'', ends, result⟩ := ih s' reading' fewer
        refine ⟨s'', ends, ?_⟩
        rw [result, out, i, decoder, front, lossyFrom, utf8_append, List.append_assoc]
      rcases reading with start | ⟨seq, pending⟩
      · have between : s.needed = 0 := congrArg Decoder.needed start
        have same : s.step encode p[s.i].toNat = s.lead encode p[s.i].toNat := if_pos between
        obtain ⟨decoder, out, i⟩ := @lead_spec encode s p[s.i] encoder start
        rw [← step_lead, ← start] at decoder out
        rw [same]
        refine consumed _ decoder out i ?_
        rw [decoder, start, step_lead]
        rcases lead_cases p[s.i] with ⟨-, lead⟩ | ⟨d, pending, lead⟩ | ⟨-, lead⟩
        · exact .inl (by rw [lead])
        · exact .inr ⟨_, by rw [lead]; exact pending⟩
        · exact .inl (by rw [lead])
      · by_cases bad : p[s.i].toNat < s.lower ∨ s.upper < p[s.i].toNat
        · -- the byte is looked at again, between characters
          have owing : s.needed ≠ 0 := Nat.ne_of_gt (Nat.zero_lt_of_lt pending.bounds.1)
          have fewer : roundsLeft p (s.step encode p[s.i].toNat) < rounds := by
            rw [LossyState.step, if_neg owing, if_pos bad]
            unfold roundsLeft at enough ⊢
            rw [if_neg owing] at enough
            dsimp only [LossyState.write]
            rw [if_pos rfl]
            omega
          have restarted : (s.step encode p[s.i].toNat).decoder = .start := by
            rw [LossyState.step, if_neg owing, if_pos bad]
            rfl
          obtain ⟨s', ends, result⟩ := ih _ (.inl restarted) fewer
          refine ⟨s', ends, ?_⟩
          rw [result, restarted, LossyState.step, if_neg owing, if_pos bad, front, pending.step_bad bad,
            ← List.singleton_append, utf8_append, ← List.append_assoc]
          dsimp only [LossyState.write]
          rw [mark, front]
        · rw [not_or, Nat.not_lt, Nat.not_lt] at bad
          obtain ⟨decoder, out, i⟩ := @next_spec encode s p[s.i] encoder seq pending bad.1 bad.2
          refine consumed _ decoder out i ?_
          rw [decoder, pending.step_next bad.1 bad.2]
          rcases pending.next bad.1 bad.2 with ⟨last, -⟩ | ⟨more, further⟩
          · exact .inl (by rw [if_pos last])
          · exact .inr ⟨_, by rw [if_neg (Nat.ne_of_lt more)]; exact further⟩

/-- `lossy_utf8_decode` ends, and replaces every maximal ill-formed subpart by one `U+FFFD`. The result
is the only one, is the input where that is well-formed, and fits what was allocated. -/
theorem lossyUtf8Decode_spec (unicodeToUtf8 : Nat → List UInt8) (charLenMax : Nat)
    (encoder : ∀ c : Char, unicodeToUtf8 c.toNat = String.utf8EncodeChar c)
    (room : 4 ≤ charLenMax) (p : List UInt8) (rounds : Nat) (enough : 2 * p.length < rounds) :
    ∃ t, lossyUtf8Decode unicodeToUtf8 rounds p = some (utf8 t) ∧ Decodes p t ∧
      (∀ t', Decodes p t' → t' = t) ∧ (∀ u, p = utf8 u → utf8 t = p) ∧
        (utf8 t).length ≤ p.length * charLenMax := by
  have decodes := decodes_lossyUtf8 p
  refine ⟨lossyUtf8 p, ?_, decodes, fun t' other => other.unique decodes, ?_, ?_⟩
  · rw [lossyUtf8Decode]
    split
    · rename_i empty
      rw [empty]
      rfl
    · have left : roundsLeft p .start < rounds := enough
      obtain ⟨s', ends, result⟩ := lossyLoop_spec encoder rounds .start (.inl rfl) left
      rw [ends, Option.map_some, result]
      rfl
  · rintro u rfl
    rw [lossyUtf8_utf8]
  · calc (utf8 (lossyUtf8 p)).length ≤ 4 * (lossyUtf8 p).length := length_utf8_le _
      _ ≤ 4 * p.length := Nat.mul_le_mul_left 4 decodes.length_le
      _ ≤ p.length * charLenMax := by
        rw [Nat.mul_comm]
        exact Nat.mul_le_mul_left _ room

theorem lossyUtf8Decode_interrupted :
    ∃ t, lossyUtf8Decode (fun n => String.utf8EncodeChar (Char.ofNat n)) 9 [0xe0, 0xc3, 0xa9, 0xf0]
        = some (utf8 t) ∧ Decodes [0xe0, 0xc3, 0xa9, 0xf0] t ∧
      (∀ t', Decodes [0xe0, 0xc3, 0xa9, 0xf0] t' → t' = t) ∧
        (∀ u, [0xe0, 0xc3, 0xa9, 0xf0] = utf8 u → utf8 t = [0xe0, 0xc3, 0xa9, 0xf0]) ∧
          (utf8 t).length ≤ [0xe0, 0xc3, 0xa9, (0xf0 : UInt8)].length * 4 :=
  lossyUtf8Decode_spec _ 4
    (fun c => congrArg String.utf8EncodeChar (Char.ofNat_toNat c)) (Nat.le_refl 4) _ 9 (by decide)

example : lossyUtf8Decode (fun n => String.utf8EncodeChar (Char.ofNat n)) 9 [0xe0, 0xc3, 0xa9, 0xf0]
    = some [0xef, 0xbf, 0xbd, 0xc3, 0xa9, 0xef, 0xbf, 0xbd] := by decide

end Loop

end QjsLws.Native
