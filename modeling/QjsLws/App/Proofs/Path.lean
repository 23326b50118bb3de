import QjsLws.App.Mount

/-!
# Compiled patterns

What `compilePath` gives for the patterns of mount paths and routes, and what the regular
expressions do on texts that fill in the parameters.
-/

namespace QjsLws.App

open QjsLws.Misc

/-! ## `compilePath` on segments -/

/-- Texts without a slash, each after one. -/
def rawSlashed (raws : List Text) : Text := raws.flatMap ('/' :: ·)

theorem split_rawSlashed {raws : List Text} (noSlash : ∀ t ∈ raws, '/' ∉ t) :
    split '/' (rawSlashed raws) = [] :: raws := by
  have tail : ∀ (rest : List Text) (t : Text), '/' ∉ t → (∀ u ∈ rest, '/' ∉ u) →
      split '/' (t ++ rawSlashed rest) = t :: rest := by
    intro rest
    induction rest with
    | nil => intro t absent _; simp [rawSlashed, split_of_not_mem absent]
    | cons u rest ih =>
      intro t absent clean
      rw [rawSlashed, List.flatMap_cons, List.cons_append, split_append_cons absent]
      rw [← rawSlashed, ih u (clean u List.mem_cons_self)
        fun v later => clean v (List.mem_cons_of_mem _ later)]
  exact tail raws [] (by simp) noSlash

/-- The part a segment without stars compiles to. -/
def Piece.part : Piece → Part
  | .word w => .text w.text
  | .param .. => .segment

/-- The parts of segments without stars, each after a slash. -/
def partsOf (segments : List Piece) : List Part :=
  segments.flatMap fun s => [.text ['/'], s.part]

/-- What a final star adds to the parts. -/
def starParts (star : Bool) : List Part := if star then [.text ['/'], .rest] else []

/-- The keys of segments. -/
def keysOf (segments : List Piece) : List Text := segments.flatMap Piece.keys

theorem Piece.noSlash_text (s : Piece) : '/' ∉ s.text := by
  cases s with
  | word w => exact w.noSlash
  | param name noSlash => simpa [Piece.text] using noSlash

/-- What a segment compiles to, with the slash before it. -/
def Piece.parts : Piece → Option (List Part)
  | .word w =>
    if '*' ∈ w.text then quantified ('/' :: w.text) else some [.text ['/'], .text w.text]
  | .param .. => some [.text ['/'], .segment]

theorem compileSlashed_piece (piece : Piece) : compileSlashed piece.text = piece.parts := by
  cases piece with
  | param name noSlash => simp [compileSlashed, compileSegment, Piece.text, Piece.parts]
  | word w =>
    rw [Piece.text, Piece.parts, compileSlashed]
    by_cases starred : '*' ∈ w.text
    · rw [if_pos starred]
      cases shape : w.text with
      | nil => exact absurd shape w.nonempty
      | cons d rest =>
        by_cases star : d = '*'
        · subst star
          exact if_pos ⟨rfl, shape ▸ w.notStar⟩
        · have front : ¬((d :: rest).head? = some '*' ∧ d :: rest ≠ ['*']) := by simp [star]
          rw [if_neg front, compileSegment, if_neg (List.cons_ne_nil d rest),
            if_neg (shape ▸ w.noColon), if_neg (shape ▸ w.notStar), if_pos (shape ▸ starred),
            quantified, if_neg (by decide), if_neg star]
    · have front : ¬(w.text.head? = some '*' ∧ w.text ≠ ['*']) :=
        fun both => starred (List.mem_of_head? both.1)
      rw [if_neg front, if_neg starred, compileSegment, if_neg w.nonempty, if_neg w.noColon,
        if_neg w.notStar, if_neg starred]
      rfl

theorem mapM_slashed (pieces : List Piece) :
    (pieces.map Piece.text).mapM compileSlashed = pieces.mapM Piece.parts := by
  induction pieces with
  | nil => rfl
  | cons piece pieces ih =>
    rw [List.map_cons, List.mapM_cons, List.mapM_cons, compileSlashed_piece, ih]

theorem parts_starless {pieces : List Piece} (starless : Starless pieces) :
    ∃ parts, pieces.mapM Piece.parts = some parts ∧ parts.flatten = partsOf pieces := by
  induction pieces with
  | nil => exact ⟨[], rfl, rfl⟩
  | cons piece pieces ih =>
    obtain ⟨parts, compiled, flat⟩ := ih fun w member => starless w (List.mem_cons_of_mem _ member)
    cases piece with
    | word w =>
      refine ⟨[.text ['/'], .text w.text] :: parts, ?_, ?_⟩
      · rw [List.mapM_cons, Piece.parts, if_neg (starless w List.mem_cons_self), compiled]
        rfl
      · rw [List.flatten_cons, flat]
        rfl
    | param name noSlash =>
      refine ⟨[.text ['/'], .segment] :: parts, ?_, ?_⟩
      · rw [List.mapM_cons, Piece.parts, compiled]
        rfl
      · rw [List.flatten_cons, flat]
        rfl

/-- A pattern that starts with a slash, unless it is one of the special ones. -/
theorem compilePath_rawSlashed {raws : List Text} (nonempty : raws ≠ [])
    (noSlash : ∀ t ∈ raws, '/' ∉ t) (other : raws ≠ [[]] ∧ raws ≠ [['*']]) (whole : Bool) :
    compilePath (rawSlashed raws) whole = (raws.mapM compileSlashed).map fun parts =>
      (.parts parts.flatten whole, (raws.filter fun seg => seg.head? = some ':').map keyOf) := by
  obtain ⟨t, rest, rfl⟩ := List.exists_cons_of_ne_nil nonempty
  have special : ∀ u : Text, '/' ∉ u → rawSlashed (t :: rest) = '/' :: u → t :: rest = [u] := by
    intro u clean same
    have pieces := split_rawSlashed noSlash
    rw [same, ← List.nil_append ('/' :: u), split_append_cons (by simp), split_of_not_mem clean]
      at pieces
    exact (List.cons.inj pieces).2.symm
  have notAny : ¬(rawSlashed (t :: rest) = ['*'] ∨ rawSlashed (t :: rest) = ['/', '*']) := by
    rintro (same | same)
    · exact absurd (List.cons.inj same).1 (by decide)
    · exact other.2 (special ['*'] (by decide) same)
  have notRoot : ¬(rawSlashed (t :: rest) = ['/'] ∨ rawSlashed (t :: rest) = []) := by
    rintro (same | same)
    · exact other.1 (special [] (by decide) same)
    · cases same
  rw [compilePath, if_neg notAny, if_neg notRoot, split_rawSlashed noSlash]
  dsimp only
  rw [List.filter_cons_of_neg (by simp), compileSegments, compileSegment, if_pos rfl]
  cases (t :: rest).mapM compileSlashed <;> rfl

theorem keys_text (segments : List Piece) :
    ((segments.map Piece.text).filter fun seg => seg.head? = some ':').map keyOf
      = keysOf segments := by
  induction segments with
  | nil => rfl
  | cons s segments ih =>
    rw [keysOf, List.flatMap_cons, ← keysOf, ← ih]
    cases s with
    | word w => simp [Piece.text, Piece.keys, w.noColon]
    | param name noSlash => simp [Piece.text, Piece.keys]

theorem slashed_eq_raw (segments : List Piece) :
    slashed segments = rawSlashed (segments.map Piece.text) := by
  simp [slashed, rawSlashed, List.flatMap_map]

theorem Piece.text_cons (s : Piece) : ∃ c t, s.text = c :: t ∧ c ≠ '/' := by
  cases s with
  | word w =>
    obtain ⟨c, t, text⟩ := List.exists_cons_of_ne_nil w.nonempty
    refine ⟨c, t, text, ?_⟩
    rintro rfl
    exact w.noSlash (by simp [text])
  | param name noSlash => exact ⟨':', name, rfl, by decide⟩

theorem Piece.text_ne_star (s : Piece) : s.text ≠ ['*'] := by
  cases s with
  | word w => exact w.notStar
  | param name noSlash => simp [Piece.text]

/-- A pattern of at least one literal or parameter, with further segments that add no key. -/
theorem compilePath_raw {pieces : List Piece} (nonempty : pieces ≠ []) {extra : List Text}
    (noSlash : ∀ t ∈ extra, '/' ∉ t) (noKey : ∀ t ∈ extra, t.head? ≠ some ':')
    {parts : List (List Part)} (compiled : extra.mapM compileSlashed = some parts) (whole : Bool) :
    compilePath (slashed pieces ++ rawSlashed extra) whole
      = (pieces.mapM Piece.parts).map fun own =>
          (.parts (own.flatten ++ parts.flatten) whole, keysOf pieces) := by
  have raw : slashed pieces ++ rawSlashed extra
      = rawSlashed (pieces.map Piece.text ++ extra) := by
    rw [slashed_eq_raw, rawSlashed, rawSlashed, rawSlashed, List.flatMap_append]
  have clean : ∀ t ∈ pieces.map Piece.text ++ extra, '/' ∉ t := by
    intro t member
    rcases List.mem_append.mp member with known | more
    · obtain ⟨s, -, rfl⟩ := List.mem_map.mp known
      exact s.noSlash_text
    · exact noSlash t more
  have quiet : extra.filter (fun seg => seg.head? = some ':') = [] := by
    rw [List.filter_eq_nil_iff]
    intro t member
    simpa using noKey t member
  obtain ⟨s, rest, rfl⟩ := List.exists_cons_of_ne_nil nonempty
  obtain ⟨c, t, text, -⟩ := s.text_cons
  have other : (s :: rest).map Piece.text ++ extra ≠ [[]] ∧
      (s :: rest).map Piece.text ++ extra ≠ [['*']] := by
    refine ⟨by simp [text], fun same => s.text_ne_star ?_⟩
    exact (List.cons.inj same).1
  rw [raw, compilePath_rawSlashed (by simp) clean other, List.mapM_append, mapM_slashed, compiled,
    List.filter_append, quiet, List.append_nil, keys_text]
  cases (s :: rest).mapM Piece.parts <;> simp

theorem compilePath_pieces {pieces : List Piece} (nonempty : pieces ≠ []) (star whole : Bool) :
    compilePath (slashed pieces ++ if star then ['/', '*'] else []) whole
      = (pieces.mapM Piece.parts).map fun parts =>
          (.parts (parts.flatten ++ starParts star) whole, keysOf pieces) := by
  cases star with
  | false =>
    simpa [rawSlashed, starParts] using
      @compilePath_raw pieces nonempty [] (by simp) (by simp) _ rfl whole
  | true =>
    simpa [rawSlashed, starParts] using
      @compilePath_raw pieces nonempty [['*']] (by simp) (by simp) _ rfl whole

theorem compilePath_slash {pieces : List Piece} (nonempty : pieces ≠ []) (whole : Bool) :
    compilePath (slashed pieces ++ ['/']) whole
      = (pieces.mapM Piece.parts).map fun parts =>
          (.parts (parts.flatten ++ [.text ['/']]) whole, keysOf pieces) := by
  simpa [rawSlashed] using
    @compilePath_raw pieces nonempty [[]] (by simp) (by simp) _ rfl whole

/-- Without stars in its words, a pattern compiles to the words themselves. -/
theorem compilePath_segments {pieces : List Piece} (nonempty : pieces ≠ [])
    (starless : Starless pieces) (star whole : Bool) :
    compilePath (slashed pieces ++ if star then ['/', '*'] else []) whole
      = some (.parts (partsOf pieces ++ starParts star) whole, keysOf pieces) := by
  obtain ⟨parts, compiled, flat⟩ := parts_starless starless
  rw [compilePath_pieces nonempty, compiled, ← flat]
  rfl

/-! ## Matching -/

theorem longest_eq_of_isSome {β : Type} {attempt : Nat → Option β} {least n : Nat}
    (enough : least ≤ n) (success : (attempt n).isSome) :
    longest attempt least n = attempt n := by
  obtain ⟨b, found⟩ := Option.isSome_iff_exists.mp success
  cases n with
  | zero => simp [longest, Nat.le_zero.mp enough]
  | succ n => simp [longest, Nat.not_lt.mpr enough, found]

theorem longest_self {β : Type} (attempt : Nat → Option β) : longest attempt 1 1 = attempt 1 := by
  simp [longest]

theorem matchParts_words {whole : Bool} {l : List Part} {p : List Piece}
    (words : ∀ s ∈ p, s.isWord = true) (t : Text) :
    matchParts whole (partsOf p ++ l) t
      = if (slashed p).isPrefixOf t then matchParts whole l (t.drop (slashed p).length)
        else none := by
  induction p generalizing t with
  | nil => simp [partsOf, slashed]
  | cons s p ih =>
    have later : ∀ s ∈ p, s.isWord = true := fun s member =>
      words s (List.mem_cons_of_mem _ member)
    cases s with
    | param name noSlash => exact absurd (words _ List.mem_cons_self) (by simp [Piece.isWord])
    | word u =>
      have parts : partsOf (.word u :: p) ++ l
          = .text ['/'] :: .text u.text :: (partsOf p ++ l) := rfl
      have text : slashed (.word u :: p) = '/' :: (u.text ++ slashed p) := rfl
      rw [parts, text]
      cases t with
      | nil => simp [matchParts]
      | cons c t =>
        rw [matchParts, matchParts, ih later]
        by_cases slash : c = '/'
        · subst slash
          by_cases front : u.text.isPrefixOf t = true
          · obtain ⟨rest, rfl⟩ := List.isPrefixOf_iff_prefix.mp front
            have back : (slashed p).isPrefixOf rest
                = (u.text ++ slashed p).isPrefixOf (u.text ++ rest) := by
              rw [Bool.eq_iff_iff, List.isPrefixOf_iff_prefix, List.isPrefixOf_iff_prefix,
                List.prefix_append_right_inj]
            have dropped : (u.text ++ rest).drop (u.text.length + (slashed p).length)
                = rest.drop (slashed p).length := by
              rw [← List.drop_drop, List.drop_left]
            simp only [List.isPrefixOf_cons_cons, beq_self_eq_true, List.isPrefixOf_nil_left,
              Bool.and_self, if_true, List.length_nil, List.drop_succ_cons, List.drop_zero,
              front, List.drop_left, Bool.true_and, List.length_cons, List.length_append, back,
              dropped]
          · have whole : (u.text ++ slashed p).isPrefixOf t ≠ true := by
              intro both
              apply front
              rw [List.isPrefixOf_iff_prefix] at both ⊢
              exact (List.prefix_append _ _).trans both
            simp [front, whole]
        · simp [Ne.symm slash]

/-! ## Filled-in segments -/

/-- The segments with a value for every parameter. -/
def fill (value : Text) (segments : List Piece) : Text :=
  segments.flatMap fun s => '/' :: (if s.isWord then s.text else value)

/-- The value, once for each parameter. -/
def fillValues (value : Text) (segments : List Piece) : List Text :=
  segments.filterMap fun s => if s.isWord then none else some value

theorem takeWhile_value {value t : Text} (noSlash : '/' ∉ value)
    (boundary : t.head?.all (· = '/')) :
    (value ++ t).takeWhile (· ≠ '/') = value := by
  have stops : t.takeWhile (· ≠ '/') = [] := by
    cases t with
    | nil => rfl
    | cons c t =>
      have slash : c = '/' := by simpa using boundary
      simp [slash]
  rw [List.takeWhile_append_of_pos, stops, List.append_nil]
  intro c member
  simp only [ne_eq, decide_not, Bool.not_eq_eq_eq_not, Bool.not_true, decide_eq_false_iff_not]
  rintro rfl
  exact noSlash member

theorem head_fill {value : Text} {segments : List Piece} {t : Text}
    (boundary : t.head?.all (· = '/')) : (fill value segments ++ t).head?.all (· = '/') := by
  cases segments with
  | nil => exact boundary
  | cons s segments => simp [fill]

/-- The parts of the segments match what fills them in, and the groups capture the values. With a
value of one character there is no other way to match. -/
theorem matchParts_fill {whole : Bool} {l : List Part} {value : Text} (segments : List Piece)
    {t : Text} (noSlash : '/' ∉ value) (nonempty : value ≠ []) (boundary : t.head?.all (· = '/'))
    (settled : value.length = 1 ∨ (matchParts whole l t).isSome) :
    matchParts whole (partsOf segments ++ l) (fill value segments ++ t)
      = (matchParts whole l t).map (fillValues value segments ++ ·) := by
  induction segments with
  | nil => simp [partsOf, fill, fillValues]
  | cons s segments ih =>
    cases s with
    | word u =>
      have parts : partsOf (.word u :: segments) ++ l
          = .text ['/'] :: .text u.text :: (partsOf segments ++ l) := rfl
      have text : fill value (.word u :: segments) ++ t
          = '/' :: (u.text ++ (fill value segments ++ t)) := by
        simp [fill, Piece.isWord, Piece.text]
      have values : fillValues value (.word u :: segments) = fillValues value segments := by
        simp [fillValues, Piece.isWord]
      rw [parts, text, values, matchParts, matchParts]
      simp [ih]
    | param name nameNoSlash =>
      have parts : partsOf (.param name nameNoSlash :: segments) ++ l
          = .text ['/'] :: .segment :: (partsOf segments ++ l) := rfl
      have text : fill value (.param name nameNoSlash :: segments) ++ t
          = '/' :: (value ++ (fill value segments ++ t)) := by
        simp [fill, Piece.isWord]
      have values : fillValues value (.param name nameNoSlash :: segments)
          = value :: fillValues value segments := by
        simp [fillValues, Piece.isWord]
      rw [parts, text, values, matchParts]
      simp only [List.isPrefixOf_cons_cons, beq_self_eq_true, List.isPrefixOf_nil_left, Bool.and_self,
        if_true, List.length_singleton, List.drop_succ_cons, List.drop_zero]
      rw [matchParts, takeWhile_value noSlash (head_fill boundary)]
      have first : (fun n => (matchParts whole (partsOf segments ++ l)
            ((value ++ (fill value segments ++ t)).drop n)).map
              ((value ++ (fill value segments ++ t)).take n :: ·)) value.length
          = (matchParts whole l t).map (value :: fillValues value segments ++ ·) := by
        simp only [List.drop_left, List.take_left, ih, Option.map_map]
        rfl
      rcases settled with one | success
      · rw [one] at first ⊢
        rw [longest_self]
        exact first
      · rw [longest_eq_of_isSome (List.length_pos_iff.mpr nonempty)]
        · exact first
        · have found := congrArg Option.isSome first
          dsimp only at found
          rw [found]
          simpa using success

theorem decodeAfter_plain {t : Text} (plain : '%' ∉ t) : decodeAfter [] t = some t := by
  induction t with
  | nil => rfl
  | cons c t ih =>
    rw [List.mem_cons, not_or] at plain
    have other : c ≠ '%' := Ne.symm plain.1
    unfold decodeAfter
    split
    · rename_i nil
      cases nil
    · rename_i same
      exact absurd (List.cons.inj same).1 other
    · rename_i c' rest _ same
      obtain ⟨rfl, rfl⟩ := List.cons.inj same
      rw [if_neg other, ih plain.2]
      rfl

theorem decodeURIComponent_plain {t : Text} (plain : '%' ∉ t) : decodeURIComponent t = some t :=
  decodeAfter_plain plain

end QjsLws.App
