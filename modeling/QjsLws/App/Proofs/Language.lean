import Mathlib.Algebra.Order.BigOperators.Group.List
import QjsLws.App.Language
import QjsLws.App.Proofs.Path

/-!
# The compiled pattern and its language

`compilePath` gives an expression for exactly the paths of its pattern, for patterns whose literal
segments have no star. The escape list leaves the star out, so in a literal it repeats the character
before it.
-/

namespace QjsLws.App

open QjsLws.Misc

/-! ## What a pattern compiles to -/

theorem compilePath_pattern {p : Pattern} (present : p.pieces ≠ []) (whole : Bool) :
    compilePath p.text whole = (p.pieces.mapM Piece.parts).map fun parts =>
      (.parts (parts.flatten ++ starParts p.star) whole, p.keys) :=
  compilePath_pieces present p.star whole

/-! ## Matching without stars -/

section Plain

variable {whole : Bool} {l : List Part} {t : Text} {params : List Text}

theorem exists_of_longest {β : Type} {attempt : Nat → Option β} {least n : Nat} {b : β}
    (found : longest attempt least n = some b) :
    ∃ k, least ≤ k ∧ k ≤ n ∧ attempt k = some b := by
  induction n with
  | zero =>
    rw [longest] at found
    split at found
    · exact ⟨0, by omega, Nat.le_refl 0, found⟩
    · cases found
  | succ n ih =>
    rw [longest] at found
    split at found
    · cases found
    · cases first : attempt (n + 1) with
      | some b' =>
        rw [first] at found
        exact ⟨n + 1, by omega, Nat.le_refl _, first.trans found⟩
      | none =>
        rw [first, Option.none_or] at found
        obtain ⟨k, enough, below, success⟩ := ih found
        exact ⟨k, enough, by omega, success⟩

theorem matchParts_text (u : Text) :
    matchParts whole (.text u :: l) t = some params ↔
      ∃ back, t = u ++ back ∧ matchParts whole l back = some params := by
  rw [matchParts]
  constructor
  · intro found
    split at found
    · rename_i front
      obtain ⟨back, rfl⟩ := List.isPrefixOf_iff_prefix.mp front
      exact ⟨back, rfl, by simpa using found⟩
    · cases found
  · rintro ⟨back, rfl, found⟩
    rw [if_pos (List.isPrefixOf_iff_prefix.mpr (List.prefix_append u back)), List.drop_left]
    exact found

/-- A match of what follows a parameter starts at a slash or at the end. -/
def Ends (whole : Bool) (l : List Part) : Prop :=
  ∀ t params, matchParts whole l t = some params → t.head?.all (· = '/') = true

theorem matchParts_segment (ends : Ends whole l) :
    matchParts whole (.segment :: l) t = some params ↔
      ∃ value back later, t = value ++ back ∧ (value ≠ [] ∧ '/' ∉ value) ∧
        matchParts whole l back = some later ∧ params = value :: later := by
  rw [matchParts]
  constructor
  · intro found
    obtain ⟨n, least, most, success⟩ := exists_of_longest found
    obtain ⟨later, matched, rfl⟩ := Option.map_eq_some_iff.mp success
    have short : n ≤ t.length := most.trans (List.takeWhile_prefix _).length_le
    refine ⟨t.take n, t.drop n, later, (List.take_append_drop n t).symm, ⟨?_, ?_⟩, matched, rfl⟩
    · intro empty
      have length := List.length_take_of_le short
      rw [empty] at length
      exact absurd length (by simp; omega)
    · intro slash
      have within : t.take n <+: t.takeWhile (· ≠ '/') :=
        List.prefix_of_prefix_length_le (List.take_prefix n t) (List.takeWhile_prefix _)
          (by rw [List.length_take_of_le short]; exact most)
      have kept := List.mem_takeWhile_imp (within.subset slash)
      simp at kept
  · rintro ⟨value, back, later, rfl, ⟨nonempty, noSlash⟩, matched, rfl⟩
    rw [takeWhile_value noSlash (ends back later matched)]
    have attempt : (matchParts whole l ((value ++ back).drop value.length)).map
        ((value ++ back).take value.length :: ·) = some (value :: later) := by
      rw [List.drop_left, List.take_left, matched]
      rfl
    rw [longest_eq_of_isSome (List.length_pos_iff.mpr nonempty)]
    · exact attempt
    · rw [attempt]
      rfl

theorem ends_plain (ends : Ends whole l) (pieces : List Piece) :
    Ends whole (partsOf pieces ++ l) := by
  cases pieces with
  | nil => exact ends
  | cons piece pieces =>
    intro t params matched
    have slash : ∃ rest, partsOf (piece :: pieces) ++ l = .text ['/'] :: rest := by
      cases piece <;> exact ⟨_, rfl⟩
    obtain ⟨rest, shape⟩ := slash
    rw [shape, matchParts_text] at matched
    obtain ⟨back, rfl, -⟩ := matched
    simp

theorem reads_cons {piece : Piece} {pieces : List Piece} {path : Text} :
    Reads (piece :: pieces) path params ↔ ∃ t front own, path = '/' :: (t ++ front) ∧
      piece.Accepts t ∧ Reads pieces front own ∧ params = piece.captures t ++ own := by
  constructor
  · rintro (_ | ⟨accepted, read⟩)
    exact ⟨_, _, _, rfl, accepted, read, rfl⟩
  · rintro ⟨t, front, own, rfl, accepted, read, rfl⟩
    exact .cons accepted read

/-- The parts of the segments match a path exactly as the segments read it. -/
theorem matchParts_plain (ends : Ends whole l) (pieces : List Piece) : ∀ t params,
    matchParts whole (partsOf pieces ++ l) t = some params ↔
      ∃ front back own later, t = front ++ back ∧ Reads pieces front own ∧
        matchParts whole l back = some later ∧ params = own ++ later := by
  induction pieces with
  | nil =>
    intro t params
    constructor
    · exact fun matched => ⟨[], t, [], params, rfl, .nil, matched, rfl⟩
    · rintro ⟨front, back, own, later, rfl, ⟨⟩, matched, rfl⟩
      exact matched
  | cons piece pieces ih =>
    intro t params
    cases piece with
    | word w =>
      have shape : partsOf (.word w :: pieces) ++ l
          = .text ['/'] :: .text w.text :: (partsOf pieces ++ l) := rfl
      simp only [shape, matchParts_text, ih]
      constructor
      · rintro ⟨-, rfl, -, rfl, front, back, own, later, rfl, read, matched, rfl⟩
        refine ⟨'/' :: (w.text ++ front), back, own, later, ?_, ?_, matched, rfl⟩
        · simp
        · exact reads_cons.mpr ⟨w.text, front, own, rfl, rfl, read, rfl⟩
      · rintro ⟨path, back, caps, later, rfl, all, matched, rfl⟩
        obtain ⟨t, front, own, rfl, accepted, read, captured⟩ := reads_cons.mp all
        cases accepted
        exact ⟨_, rfl, _, List.append_assoc _ _ _, front, back, own, later, rfl, read, matched,
          congrArg (· ++ later) captured⟩
    | param name noSlash =>
      have shape : partsOf (.param name noSlash :: pieces) ++ l
          = .text ['/'] :: .segment :: (partsOf pieces ++ l) := rfl
      simp only [shape, matchParts_text, matchParts_segment (ends_plain ends pieces), ih]
      constructor
      · rintro ⟨-, rfl, value, -, -, rfl, accepted, ⟨front, back, own, later, rfl, read, matched,
          rfl⟩, rfl⟩
        refine ⟨'/' :: (value ++ front), back, value :: own, later, ?_, ?_, matched, rfl⟩
        · simp
        · exact reads_cons.mpr ⟨value, front, own, rfl, accepted, read, rfl⟩
      · rintro ⟨path, back, caps, later, rfl, all, matched, rfl⟩
        obtain ⟨value, front, own, rfl, accepted, read, rfl⟩ := reads_cons.mp all
        exact ⟨_, rfl, value, front ++ back, own ++ later, List.append_assoc _ _ _, accepted,
          ⟨front, back, own, later, rfl, read, matched, rfl⟩, rfl⟩

/-- What stands after the segments: the suffix, or any rest after the slash of a final star. -/
theorem matchParts_tail (star : Bool) (single : ∀ c ∈ t, isLineTerminator c = false) :
    matchParts whole (starParts star) t = some params ↔
      params = [] ∧ if star then t.head? = some '/' else matchSuffix whole t = true := by
  cases star with
  | false =>
    rw [starParts, if_neg Bool.false_ne_true, if_neg Bool.false_ne_true, matchParts]
    cases matchSuffix whole t with
    | false => simp
    | true =>
      constructor
      · exact fun found => ⟨(Option.some.inj found).symm, rfl⟩
      · exact fun both => by rw [both.1]; rfl
  | true =>
    rw [starParts, if_pos rfl, if_pos rfl, matchParts_text]
    have rest : ∀ back : Text, (∀ c ∈ back, isLineTerminator c = false) →
        matchParts whole [.rest] back = some [] := by
      intro back single
      have all : back.takeWhile (fun c => !isLineTerminator c) = back := by
        rw [List.takeWhile_eq_self_iff]
        exact fun c member => by rw [single c member]; rfl
      have attempt : matchParts whole [] (back.drop back.length) = some [] := by
        rw [List.drop_length]
        cases whole <;> rfl
      rw [matchParts, all, longest_eq_of_isSome (Nat.zero_le _) (by rw [attempt]; rfl), attempt]
    constructor
    · rintro ⟨back, rfl, matched⟩
      rw [rest back fun c member => single c (List.mem_cons_of_mem _ member)] at matched
      exact ⟨(Option.some.inj matched).symm, rfl⟩
    · rintro ⟨rfl, slash⟩
      obtain ⟨back, rfl⟩ := List.head?_eq_some_iff.mp slash
      exact ⟨back, rfl, rest back fun c member => single c (List.mem_cons_of_mem _ member)⟩

theorem ends_starParts (star : Bool) : Ends whole (starParts star) := by
  intro t params matched
  cases star with
  | true =>
    obtain ⟨back, rfl, -⟩ := (matchParts_text _).mp matched
    rfl
  | false =>
    rw [starParts, if_neg Bool.false_ne_true, matchParts] at matched
    split at matched
    · rename_i suffix
      cases whole with
      | false => exact suffix
      | true =>
        rcases (by simpa [matchSuffix] using suffix : t = [] ∨ t = ['/']) with rfl | rfl <;> rfl
    · cases matched

end Plain

theorem Reads.length_eq {pieces : List Piece} {path : Text} {params : List Text}
    (read : Reads pieces path params) : params.length = (pieces.flatMap Piece.keys).length := by
  induction read with
  | nil => rfl
  | @cons piece _ _ _ _ _ _ ih =>
    cases piece <;> simp [Piece.captures, Piece.keys, ih, Nat.add_comm]

/-- The expression of a pattern without stars in its words matches what the pattern describes. -/
theorem exec_plain {p : Pattern} {whole : Bool} {path : Text} {params : List Text}
    (single : ∀ c ∈ path, isLineTerminator c = false) :
    (PathRegex.parts (partsOf p.pieces ++ starParts p.star) whole).exec path = some params ↔
      p.Describes whole path params := by
  rw [PathRegex.exec, matchParts_plain (ends_starParts p.star)]
  have tail : ∀ front back later, path = front ++ back →
      (matchParts whole (starParts p.star) back = some later ↔
        later = [] ∧ if p.star then back.head? = some '/' else matchSuffix whole back = true) :=
    fun front back later shape => matchParts_tail p.star fun c member =>
      single c (shape ▸ List.mem_append_right front member)
  rw [Pattern.Describes]
  constructor
  · rintro ⟨front, back, own, later, shape, read, matched, rfl⟩
    obtain ⟨rfl, suffix⟩ := (tail front back later shape).mp matched
    rw [List.append_nil]
    have whenStar : p.star = true → p.Form path own := by
      intro star
      rw [if_pos star] at suffix
      exact ⟨front, back, shape, read, by rw [if_pos star]; exact suffix⟩
    have alone : p.star = false → p.Form front own := by
      intro star
      exact ⟨front, [], (List.append_nil front).symm, read, by simp [star]⟩
    cases star : p.star with
    | true =>
      cases whole with
      | true => exact .inl (whenStar star)
      | false => exact ⟨path, [], (List.append_nil path).symm, .inl rfl, whenStar star⟩
    | false =>
      rw [star, if_neg Bool.false_ne_true] at suffix
      cases whole with
      | true =>
        rcases (by simpa [matchSuffix] using suffix : back = [] ∨ back = ['/']) with rfl | rfl
        · rw [List.append_nil] at shape
          exact .inl (shape ▸ alone star)
        · exact .inr ⟨front, shape, alone star⟩
      | false =>
        refine ⟨front, back, shape, ?_, alone star⟩
        cases back with
        | nil => exact .inl rfl
        | cons c back => exact .inr (by simpa [matchSuffix] using suffix)
  · have matches_of_form : ∀ front back, path = front ++ back → p.Form front params →
        (p.star = false → matchSuffix whole back = true) →
        ∃ front back own later, path = front ++ back ∧ Reads p.pieces front own ∧
          matchParts whole (starParts p.star) back = some later ∧ params = own ++ later := by
      rintro front back rfl ⟨start, rest, rfl, read, ending⟩ suffix
      refine ⟨start, rest ++ back, params, [], List.append_assoc _ _ _, read, ?_,
        (List.append_nil params).symm⟩
      rw [tail start (rest ++ back) [] (List.append_assoc _ _ _)]
      refine ⟨rfl, ?_⟩
      cases star : p.star with
      | true =>
        rw [star, if_pos rfl] at ending
        obtain ⟨rest', rfl⟩ := List.head?_eq_some_iff.mp ending
        rfl
      | false =>
        rw [star, if_neg Bool.false_ne_true] at ending
        subst ending
        exact suffix star
    intro described
    cases whole with
    | true =>
      rcases described with form | ⟨front, shape, form⟩
      · exact matches_of_form path [] (List.append_nil path).symm form fun _ => rfl
      · exact matches_of_form front ['/'] shape form fun _ => rfl
    | false =>
      obtain ⟨front, back, shape, boundary, form⟩ := described
      refine matches_of_form front back shape form fun _ => ?_
      rcases boundary with rfl | slash
      · rfl
      · simp [matchSuffix, slash]

theorem Pattern.Form.length_eq {p : Pattern} {path : Text} {params : List Text}
    (form : p.Form path params) : params.length = p.keys.length := by
  obtain ⟨front, back, shape, read, ending⟩ := form
  exact read.length_eq

theorem Pattern.Describes.length_eq {p : Pattern} {whole : Bool} {path : Text} {params : List Text}
    (described : p.Describes whole path params) : params.length = p.keys.length := by
  cases whole with
  | true =>
    rcases described with form | ⟨front, shape, form⟩
    · exact form.length_eq
    · exact form.length_eq
  | false =>
    obtain ⟨front, back, shape, boundary, form⟩ := described
    exact form.length_eq

/-! ## Stars -/

section Stars

/-- Text without the characters a star repeats. -/
def shortest : Text → Text
  | [] => []
  | [c] => [c]
  | c :: d :: rest =>
    if d = '*' then if c.toNat < 0x10000 then shortest rest else c :: shortest rest
    else c :: shortest (d :: rest)

theorem shortest_starless {t : Text} (starless : '*' ∉ t) : shortest t = t := by
  induction t using shortest.induct <;> simp_all [shortest]

/-- What the segment's parts match in the shortest way. -/
def Piece.shortest : Piece → Text
  | .word w => App.shortest ('/' :: w.text)
  | .param .. => ['/', 'x']

/-- The stars in the segment's text that repeat something. -/
def Piece.stars : Piece → Nat
  | .word w => w.text.count '*'
  | .param .. => 0

theorem quantified_isSome (t : Text) :
    (quantified t).isSome = true ↔ t.head? ≠ some '*' ∧ ¬['*', '*'] <:+: t := by
  induction t using quantified.induct with
  | case1 => simp [quantified]
  | case2 => simp [quantified]
  | case3 c plain => simp [quantified, plain, List.infix_cons_iff]
  | case4 d rest => simp [quantified]
  | case5 c rest plain ih =>
    rw [quantified, if_neg plain, if_pos rfl, Option.isSome_map, ih, List.infix_cons_iff,
      List.infix_cons_iff]
    cases rest with
    | nil => simp [plain, Ne.symm plain]
    | cons e rest => simp [plain, Ne.symm plain, eq_comm]
  | case6 c d rest plain other ih =>
    rw [quantified, if_neg plain, if_neg other, Option.isSome_map, ih, @List.infix_cons_iff _ _ c]
    simp [plain, other, Ne.symm plain]

variable {whole : Bool} {l : List Part} {t : Text}

theorem longest_isSome {β : Type} {attempt : Nat → Option β} {least k : Nat} (enough : least ≤ k)
    (success : (attempt k).isSome = true) :
    ∀ n, k ≤ n → (longest attempt least n).isSome = true := by
  intro n
  induction n with
  | zero =>
    intro reaches
    rw [longest_eq_of_isSome (enough.trans reaches) (Nat.le_zero.mp reaches ▸ success)]
    exact Nat.le_zero.mp reaches ▸ success
  | succ n ih =>
    intro reaches
    rw [longest, if_neg (by omega), Option.isSome_or]
    rcases Nat.le_succ_iff.mp reaches with below | rfl
    · rw [ih below, Bool.or_true]
    · rw [success, Bool.true_or]

theorem isSome_text {u : Text} (found : (matchParts whole l t).isSome = true) :
    (matchParts whole (.text u :: l) (u ++ t)).isSome = true := by
  obtain ⟨params, matched⟩ := Option.isSome_iff_exists.mp found
  exact Option.isSome_iff_exists.mpr ⟨params, (matchParts_text u).mpr ⟨t, rfl, matched⟩⟩

theorem isSome_repeated {c : Char} (found : (matchParts whole l t).isSome = true) :
    (matchParts whole (repeated c :: l)
      (if c.toNat < 0x10000 then t else c :: t)).isSome = true := by
  rw [repeated]
  split
  · rw [matchParts]
    exact longest_isSome (Nat.le_refl 0) found _ (Nat.zero_le _)
  · exact isSome_text found

theorem isSome_quantified {u : Text} : ∀ {parts : List Part}, quantified u = some parts →
    (matchParts whole l t).isSome = true →
    (matchParts whole (parts ++ l) (shortest u ++ t)).isSome = true := by
  induction u using quantified.induct with
  | case1 =>
    rintro parts ⟨⟩ found
    exact found
  | case2 =>
    intro parts compiled
    simp [quantified] at compiled
  | case3 c plain =>
    intro parts compiled found
    rw [quantified, if_neg plain] at compiled
    cases compiled
    exact isSome_text found
  | case4 d rest =>
    intro parts compiled
    simp [quantified] at compiled
  | case5 c rest plain ih =>
    intro parts compiled found
    rw [quantified, if_neg plain, if_pos rfl] at compiled
    obtain ⟨later, compiled', rfl⟩ := Option.map_eq_some_iff.mp compiled
    have step := isSome_repeated (c := c) (ih compiled' found)
    rw [shortest, if_pos rfl]
    split
    · rwa [if_pos ‹_›] at step
    · rwa [if_neg ‹_›] at step
  | case6 c d rest plain other ih =>
    intro parts compiled found
    rw [quantified, if_neg plain, if_neg other] at compiled
    obtain ⟨later, compiled', rfl⟩ := Option.map_eq_some_iff.mp compiled
    rw [shortest, if_neg other]
    exact isSome_text (u := [c]) (ih compiled' found)

theorem length_shortest_le (u : Text) : (quantified u).isSome = true →
    (shortest u).length + u.count '*' ≤ u.length := by
  induction u using quantified.induct with
  | case1 => simp [shortest]
  | case2 => simp [quantified]
  | case3 c plain => simp [shortest, plain]
  | case4 d rest => simp [quantified]
  | case5 c rest plain ih =>
    intro compiled
    rw [quantified, if_neg plain, if_pos rfl, Option.isSome_map] at compiled
    have least := ih compiled
    rw [shortest, if_pos rfl, List.count_cons_of_ne plain, List.count_cons_self]
    split <;> simp only [List.length_cons] <;> omega
  | case6 c d rest plain other ih =>
    intro compiled
    rw [quantified, if_neg plain, if_neg other, Option.isSome_map] at compiled
    have least := ih compiled
    rw [shortest, if_neg other, List.count_cons_of_ne plain]
    simp only [List.length_cons] at least ⊢
    omega

/-- A line terminator is left in the shortest text when no star makes it optional. -/
theorem mem_shortest_iff {u : Text} {c : Char} (terminator : isLineTerminator c = true) :
    c ∈ shortest u ↔ ∃ before after, u = before ++ c :: after ∧ after.head? ≠ some '*' := by
  have basic : c ≠ '*' ∧ c.toNat < 0x10000 := by
    constructor
    · rintro rfl
      exact absurd terminator (by decide)
    · simp only [isLineTerminator, Bool.or_eq_true, decide_eq_true_eq] at terminator
      rcases terminator with ((rfl | rfl) | same) | same
      · decide
      · decide
      · omega
      · omega
  induction u using shortest.induct with
  | case1 => simp [shortest]
  | case2 d =>
    rw [shortest, List.mem_singleton]
    constructor
    · rintro rfl
      exact ⟨[], [], rfl, by simp⟩
    · rintro ⟨before, after, shape, -⟩
      cases before with
      | nil => exact (List.cons.inj shape).1.symm
      | cons _ before => simp at shape
  | case3 d rest small ih =>
    rw [shortest, if_pos rfl, if_pos small]
    refine ih.trans ?_
    constructor
    · rintro ⟨before, after, rfl, plain⟩
      exact ⟨d :: '*' :: before, after, rfl, plain⟩
    · rintro ⟨before, after, shape, plain⟩
      match before with
      | [] =>
        obtain ⟨-, rfl⟩ := List.cons.inj shape
        exact absurd rfl plain
      | [e] => exact absurd (List.cons.inj (List.cons.inj shape).2).1 (Ne.symm basic.1)
      | e :: f :: before => exact ⟨before, after, (List.cons.inj (List.cons.inj shape).2).2, plain⟩
  | case4 d rest large ih =>
    have apart : c ≠ d := by
      rintro rfl
      exact large basic.2
    rw [shortest, if_pos rfl, if_neg large, List.mem_cons, or_iff_right apart]
    refine ih.trans ?_
    constructor
    · rintro ⟨before, after, rfl, plain⟩
      exact ⟨d :: '*' :: before, after, rfl, plain⟩
    · rintro ⟨before, after, shape, plain⟩
      match before with
      | [] => exact absurd (List.cons.inj shape).1 (Ne.symm apart)
      | [e] => exact absurd (List.cons.inj (List.cons.inj shape).2).1 (Ne.symm basic.1)
      | e :: f :: before => exact ⟨before, after, (List.cons.inj (List.cons.inj shape).2).2, plain⟩
  | case5 d e rest other ih =>
    rw [shortest, if_neg other, List.mem_cons]
    refine (or_congr_right ih).trans ?_
    constructor
    · rintro (rfl | ⟨before, after, shape, plain⟩)
      · exact ⟨[], e :: rest, rfl, by simpa using other⟩
      · exact ⟨d :: before, after, by rw [shape]; rfl, plain⟩
    · rintro ⟨before, after, shape, plain⟩
      cases before with
      | nil => exact .inl (List.cons.inj shape).1.symm
      | cons f before => exact .inr ⟨before, after, (List.cons.inj shape).2, plain⟩

theorem Word.unmatched_iff (w : Word) :
    w.Unmatched ↔ ∃ c ∈ shortest ('/' :: w.text), isLineTerminator c = true := by
  constructor
  · rintro ⟨before, c, after, shape, terminator, plain⟩
    exact ⟨c, (mem_shortest_iff terminator).mpr ⟨'/' :: before, after, by rw [shape]; rfl, plain⟩,
      terminator⟩
  · rintro ⟨c, member, terminator⟩
    obtain ⟨before, after, shape, plain⟩ := (mem_shortest_iff terminator).mp member
    cases before with
    | nil =>
      obtain ⟨rfl, -⟩ := List.cons.inj shape
      exact absurd terminator (by decide)
    | cons d before => exact ⟨before, c, after, (List.cons.inj shape).2, terminator, plain⟩

theorem mem_quantified {u : Text} {c : Char} : ∀ {parts : List Part}, quantified u = some parts →
    c ∈ shortest u → .text [c] ∈ parts := by
  induction u using quantified.induct with
  | case1 => simp [shortest]
  | case2 => simp [quantified]
  | case3 d plain =>
    intro parts compiled member
    rw [quantified, if_neg plain] at compiled
    cases compiled
    rw [shortest, List.mem_singleton] at member
    rw [member]
    exact List.mem_cons_self
  | case4 d rest => simp [quantified]
  | case5 d rest plain ih =>
    intro parts compiled member
    rw [quantified, if_neg plain, if_pos rfl] at compiled
    obtain ⟨later, compiled', rfl⟩ := Option.map_eq_some_iff.mp compiled
    rw [shortest, if_pos rfl] at member
    split at member
    · exact List.mem_cons_of_mem _ (ih compiled' member)
    · rename_i large
      rcases List.mem_cons.mp member with rfl | member
      · rw [repeated, if_neg large]
        exact List.mem_cons_self
      · exact List.mem_cons_of_mem _ (ih compiled' member)
  | case6 d e rest plain other ih =>
    intro parts compiled member
    rw [quantified, if_neg plain, if_neg other] at compiled
    obtain ⟨later, compiled', rfl⟩ := Option.map_eq_some_iff.mp compiled
    rw [shortest, if_neg other] at member
    rcases List.mem_cons.mp member with rfl | member
    · exact List.mem_cons_self
    · exact List.mem_cons_of_mem _ (ih compiled' member)

/-- Every match has the characters of the pattern's text in it. -/
theorem mem_of_matchParts {u : Text} {c : Char} (inside : c ∈ u) : ∀ {t : Text},
    (matchParts whole l t).isSome = true → .text u ∈ l → c ∈ t := by
  induction l with
  | nil => simp
  | cons part l ih =>
    intro t found member
    obtain ⟨params, matched⟩ := Option.isSome_iff_exists.mp found
    have later : ∀ {attempt : Nat → Option (List Text)} {least n : Nat},
        longest attempt least n = some params → .text u ∈ l →
        (∀ k, (attempt k).isSome = true → (matchParts whole l (t.drop k)).isSome = true) →
        c ∈ t := by
      intro attempt least n matched member inner
      obtain ⟨k, -, -, success⟩ := exists_of_longest matched
      exact List.mem_of_mem_drop (ih (inner k (success ▸ rfl)) member)
    cases part with
    | text v =>
      obtain ⟨back, rfl, matched'⟩ := (matchParts_text v).mp matched
      rcases List.mem_cons.mp member with same | member
      · cases same
        exact List.mem_append_left _ inside
      · exact List.mem_append_right _ (ih (matched' ▸ rfl) member)
    | segment =>
      rw [matchParts] at matched
      exact later matched (by simpa using member) fun k success => by simpa using success
    | rest =>
      rw [matchParts] at matched
      exact later matched (by simpa using member) fun _ success => success
    | many d =>
      rw [matchParts] at matched
      exact later matched (by simpa using member) fun _ success => success

theorem isSome_piece {piece : Piece} {parts : List Part} (compiled : piece.parts = some parts)
    (found : (matchParts whole l t).isSome = true) :
    (matchParts whole (parts ++ l) (piece.shortest ++ t)).isSome = true := by
  cases piece with
  | word w =>
    rw [Piece.parts] at compiled
    split at compiled
    · exact isSome_quantified compiled found
    · rename_i starless
      cases compiled
      have plain : '*' ∉ '/' :: w.text := by simpa using starless
      rw [Piece.shortest, shortest_starless plain]
      exact isSome_text (u := ['/']) (isSome_text found)
  | param name noSlash =>
    cases compiled
    refine isSome_text (u := ['/']) (t := 'x' :: t) ?_
    show (matchParts whole (.segment :: l) ('x' :: t)).isSome = true
    rw [matchParts]
    refine longest_isSome (k := 1) (Nat.le_refl 1) ?_ _ ?_
    · simpa using found
    · simp

theorem length_piece {piece : Piece} {t : Text} (compiled : piece.parts.isSome = true)
    (accepted : piece.Accepts t) :
    piece.shortest.length + piece.stars ≤ ('/' :: t).length := by
  cases piece with
  | word w =>
    cases accepted
    rw [Piece.parts] at compiled
    split at compiled
    · have least := length_shortest_le ('/' :: w.text) compiled
      rwa [List.count_cons_of_ne (by decide)] at least
    · rename_i starless
      have plain : '*' ∉ '/' :: w.text := by simpa using starless
      rw [Piece.shortest, shortest_starless plain, Piece.stars, List.count_eq_zero.mpr starless]
      exact Nat.le_refl _
  | param name noSlash =>
    have some := List.length_pos_iff.mpr accepted.1
    simp only [Piece.shortest, Piece.stars, List.length_cons, List.length_nil]
    omega

end Stars

/-! ## The main result -/

section Main

variable {p : Pattern} {pieces : List Piece} {path : Text} {params : List Text}

theorem mapM_isSome {α β : Type} {f : α → Option β} {l : List α} :
    (l.mapM f).isSome = true ↔ ∀ a ∈ l, (f a).isSome = true := by
  induction l with
  | nil => simp
  | cons a l ih =>
    rw [List.mapM_cons, List.forall_mem_cons, ← ih]
    cases f a <;> cases l.mapM f <;> simp

theorem exists_of_mapM {α β : Type} {f : α → Option β} {l : List α} : ∀ {bs : List β},
    l.mapM f = some bs → ∀ {a}, a ∈ l → ∃ b ∈ bs, f a = some b := by
  induction l with
  | nil => simp
  | cons a l ih =>
    intro bs compiled a' member
    rw [List.mapM_cons] at compiled
    cases first : f a with
    | none => simp [first] at compiled
    | some b =>
      cases rest : l.mapM f with
      | none => simp [first, rest] at compiled
      | some later =>
        obtain rfl : bs = b :: later := by simpa [first, rest] using compiled.symm
        rcases List.mem_cons.mp member with rfl | member
        · exact ⟨b, List.mem_cons_self, first⟩
        · obtain ⟨b', among, found⟩ := ih rest member
          exact ⟨b', List.mem_cons_of_mem _ among, found⟩

theorem isSome_pieces {whole : Bool} {l : List Part} {t : Text}
    (found : (matchParts whole l t).isSome = true) :
    ∀ {parts : List (List Part)}, pieces.mapM Piece.parts = some parts →
      (matchParts whole (parts.flatten ++ l) (pieces.flatMap Piece.shortest ++ t)).isSome
        = true := by
  induction pieces with
  | nil =>
    rintro parts ⟨⟩
    exact found
  | cons piece pieces ih =>
    intro parts compiled
    rw [List.mapM_cons] at compiled
    cases first : piece.parts with
    | none => simp [first] at compiled
    | some own =>
      cases rest : pieces.mapM Piece.parts with
      | none => simp [first, rest] at compiled
      | some later =>
        obtain rfl : parts = own :: later := by simpa [first, rest] using compiled.symm
        rw [List.flatten_cons, List.flatMap_cons, List.append_assoc, List.append_assoc]
        exact isSome_piece first (ih rest)

/-- Each star makes the shortest match shorter than the paths of the pattern. -/
theorem length_pieces (compiled : ∀ piece ∈ pieces, piece.parts.isSome = true)
    (read : Reads pieces path params) :
    (pieces.flatMap Piece.shortest).length + (pieces.map Piece.stars).sum ≤ path.length := by
  induction read with
  | nil => simp
  | cons accepted later ih =>
    obtain ⟨own, rest⟩ := List.forall_mem_cons.mp compiled
    have least := length_piece own accepted
    have least' := ih rest
    simp only [List.flatMap_cons, List.map_cons, List.sum_cons, List.length_append,
      List.length_cons] at least least' ⊢
    omega

theorem Reads.mem {w : Word} {c : Char} (inside : c ∈ w.text) (read : Reads pieces path params)
    (member : .word w ∈ pieces) : c ∈ path := by
  induction read with
  | nil => cases member
  | cons accepted later ih =>
    rcases List.mem_cons.mp member with rfl | member
    · cases accepted
      exact List.mem_cons_of_mem _ (List.mem_append_left _ inside)
    · exact List.mem_cons_of_mem _ (List.mem_append_right _ (ih member))

/-- A path the pattern stands for starts with one of its form without the final rest. -/
theorem Pattern.Describes.reads {whole : Bool} (described : p.Describes whole path params) :
    ∃ front back, path = front ++ back ∧ Reads p.pieces front params ∧
      (p.star = true → back ≠ []) := by
  have ofForm : ∀ front, p.Form front params → ∀ more, path = front ++ more →
      ∃ front back, path = front ++ back ∧ Reads p.pieces front params ∧
        (p.star = true → back ≠ []) := by
    rintro - ⟨front, back, rfl, read, ending⟩ more rfl
    refine ⟨front, back ++ more, List.append_assoc _ _ _, read, ?_⟩
    rintro star empty
    rw [if_pos star, (List.append_eq_nil_iff.mp empty).1] at ending
    cases ending
  cases whole with
  | true =>
    rcases described with form | ⟨front, shape, form⟩
    · exact ofForm path form [] (List.append_nil path).symm
    · exact ofForm front form _ shape
  | false =>
    obtain ⟨front, back, shape, -, form⟩ := described
    exact ofForm front form back shape

/-- The expression of a pattern with a star in a word matches a path that is too short for the
pattern, unless no path has what the expression asks for. -/
theorem not_exact_starred {whole : Bool} {parts : List (List Part)}
    (compiled : p.pieces.mapM Piece.parts = some parts) {w : Word} (member : .word w ∈ p.pieces)
    (starred : '*' ∈ w.text) (matched : ∀ w, .word w ∈ p.pieces → ¬w.Unmatched) :
    ∃ path params, (∀ c ∈ path, isLineTerminator c = false) ∧
      (PathRegex.parts (parts.flatten ++ starParts p.star) whole).exec path = some params ∧
        ¬p.Describes whole path params := by
  have tail : (matchParts whole (starParts p.star) (if p.star then ['/'] else [])).isSome
      = true := by
    cases p.star <;> cases whole <;> rfl
  obtain ⟨params, found⟩ := Option.isSome_iff_exists.mp (isSome_pieces tail compiled)
  refine ⟨_, params, ?_, found, ?_⟩
  · intro c inside
    by_contra terminator
    rw [Bool.not_eq_false] at terminator
    rcases List.mem_append.mp inside with inside | inside
    · obtain ⟨piece, among, inside⟩ := List.mem_flatMap.mp inside
      cases piece with
      | word v => exact matched v among (v.unmatched_iff.mpr ⟨c, inside, terminator⟩)
      | param name noSlash =>
        simp only [Piece.shortest, List.mem_cons, List.not_mem_nil, or_false] at inside
        rcases inside with rfl | rfl <;> exact absurd terminator (by decide)
    · have slash : c = '/' := by
        split at inside
        · exact List.mem_singleton.mp inside
        · cases inside
      subst slash
      exact absurd terminator (by decide)
  · intro described
    obtain ⟨front, back, shape, read, rest⟩ := described.reads
    have each := mapM_isSome.mp (compiled ▸ rfl : (p.pieces.mapM Piece.parts).isSome = true)
    have least := length_pieces each read
    have some : 0 < (p.pieces.map Piece.stars).sum := by
      refine Nat.lt_of_lt_of_le (List.count_pos_iff.mpr starred) ?_
      exact List.single_le_sum (fun _ _ => Nat.zero_le _) _
        (List.mem_map.mpr ⟨.word w, member, rfl⟩)
    have lengths := congrArg List.length shape
    cases star : p.star with
    | true =>
      have more := List.length_pos_iff.mpr (rest star)
      simp only [star, if_true, List.length_append, List.length_singleton] at lengths
      omega
    | false =>
      simp only [star, Bool.false_eq_true, if_false, List.length_append, List.length_nil] at lengths
      omega

/-- The lone star: its expression matches every path, also those without a slash. -/
theorem not_faithful_star {whole : Bool} (empty : p.pieces = []) : ¬p.Faithful whole := by
  obtain ⟨pieces, star, nonempty⟩ := p
  obtain rfl : pieces = [] := empty
  cases star with
  | false => exact absurd nonempty (by simp)
  | true =>
    rintro ⟨regex, compiled, exact⟩
    cases compiled
    have described := ((exact [] (by simp) []).1.mp rfl).reads
    obtain ⟨front, back, shape, -, rest⟩ := described
    exact rest rfl (List.append_eq_nil_iff.mp shape.symm).2

theorem faithful_of_starless {whole : Bool} (present : p.pieces ≠ []) (starless : p.Starless) :
    p.Faithful whole := by
  obtain ⟨parts, compiled, flat⟩ := parts_starless starless
  refine ⟨.parts (partsOf p.pieces ++ starParts p.star) whole, ?_, fun path single params => ?_⟩
  · rw [compilePath_pattern present, compiled, ← flat]
    rfl
  · have same : _ ↔ p.Describes whole path params := exec_plain single
    exact ⟨same, fun found => (same.mp found).length_eq⟩

/-- A word with a line terminator that every match needs: no path matches, and none is described. -/
theorem faithful_of_hopeless {whole : Bool} (present : p.pieces ≠ []) (hopeless : p.Hopeless) :
    p.Faithful whole := by
  obtain ⟨regular, w, member, unmatched⟩ := hopeless
  have each : ∀ piece ∈ p.pieces, piece.parts.isSome = true := by
    intro piece among
    cases piece with
    | param name noSlash => rfl
    | word v =>
      rw [Piece.parts]
      split
      · rw [quantified_isSome, List.infix_cons_iff]
        simpa using regular v among
      · rfl
  obtain ⟨parts, compiled⟩ := Option.isSome_iff_exists.mp (mapM_isSome.mpr each)
  obtain ⟨c, inside, terminator⟩ := w.unmatched_iff.mp unmatched
  have plain : c ∈ w.text := by
    obtain ⟨before, after, shape, -⟩ := (mem_shortest_iff terminator).mp inside
    have member : c ∈ '/' :: w.text := shape ▸ by simp
    rcases List.mem_cons.mp member with rfl | member
    · exact absurd terminator (by decide)
    · exact member
  have asked : ∃ u, .text u ∈ parts.flatten ∧ c ∈ u := by
    obtain ⟨own, among, mine⟩ : ∃ own ∈ parts, (Piece.word w).parts = some own :=
      exists_of_mapM compiled member
    rw [Piece.parts] at mine
    split at mine
    · exact ⟨[c], List.mem_flatten_of_mem among (mem_quantified mine inside), List.mem_cons_self⟩
    · cases mine
      exact ⟨w.text, List.mem_flatten_of_mem among (by simp), plain⟩
  obtain ⟨u, among, within⟩ := asked
  refine ⟨.parts (parts.flatten ++ starParts p.star) whole, ?_, fun path single params => ?_⟩
  · rw [compilePath_pattern present, compiled]
    rfl
  · have unmatchedPath : (PathRegex.parts (parts.flatten ++ starParts p.star) whole).exec path
        ≠ some params := by
      intro found
      have inPath := mem_of_matchParts within (Option.isSome_iff_exists.mpr ⟨params, found⟩)
        (List.mem_append_left _ among)
      rw [single c inPath] at terminator
      cases terminator
    have undescribed : ¬p.Describes whole path params := by
      intro described
      obtain ⟨front, back, rfl, read, -⟩ := described.reads
      rw [single c (List.mem_append_left _ (read.mem plain member))] at terminator
      cases terminator
    exact ⟨iff_of_false unmatchedPath undescribed, fun found => absurd found unmatchedPath⟩

/-- The expression of a pattern matches exactly what the pattern describes when no literal has a
star in it and the pattern is not the lone star, and when nothing can match for another reason. -/
theorem faithful_iff (p : Pattern) (whole : Bool) :
    p.Faithful whole ↔ p.pieces ≠ [] ∧ (p.Starless ∨ p.Hopeless) := by
  constructor
  · intro faithful
    have present : p.pieces ≠ [] := fun empty => not_faithful_star empty faithful
    refine ⟨present, ?_⟩
    by_cases starless : p.Starless
    · exact .inl starless
    · refine .inr ?_
      obtain ⟨regex, compiled, exact⟩ := faithful
      rw [compilePath_pattern present] at compiled
      obtain ⟨parts, each, shape⟩ := Option.map_eq_some_iff.mp compiled
      cases shape
      constructor
      · intro v among double
        have starred : '*' ∈ v.text := double.subset List.mem_cons_self
        have all : (p.pieces.mapM Piece.parts).isSome = true := by rw [each]; rfl
        have regular := mapM_isSome.mp all _ among
        rw [Piece.parts, if_pos starred, quantified_isSome, List.infix_cons_iff] at regular
        exact regular.2 (.inr double)
      · by_contra unmatched
        obtain ⟨w, member, starred⟩ : ∃ w, .word w ∈ p.pieces ∧ '*' ∈ w.text := by
          simpa [Pattern.Starless] using starless
        obtain ⟨path, params, single, found, undescribed⟩ := not_exact_starred each member starred
          fun v among needed => unmatched ⟨v, among, needed⟩
        exact undescribed ((exact path single params).1.mp found)
  · rintro ⟨present, starless | hopeless⟩
    · exact faithful_of_starless present starless
    · exact faithful_of_hopeless present hopeless

/-- In the literal of `/a*` the star repeats the `a`, and the expression matches `/`. -/
theorem starred_literal_unfaithful :
    ¬Pattern.Faithful ⟨[.word ⟨['a', '*'], by decide, by decide, by decide, by decide⟩], false,
      by decide⟩ true := by
  rintro ⟨regex, compiled, exact⟩
  have computed : compilePath ['/', 'a', '*'] true
      = some (.parts [.text ['/'], .many 'a'] true, []) := by decide
  cases compiled.symm.trans computed
  have single : ∀ c ∈ ['/'], isLineTerminator c = false := forall_mem_of_all (by decide)
  obtain ⟨front, back, shape, read, -⟩ := ((exact ['/'] single []).1.mp (by decide)).reads
  obtain ⟨t, rest, -, rfl, rfl, -, -⟩ := reads_cons.mp read
  cases shape

end Main

end QjsLws.App
