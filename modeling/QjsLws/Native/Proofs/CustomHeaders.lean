import QjsLws.Native.CustomHeaders

/-!
# Custom headers, proofs

Each scan of the block finds the end of a run of bytes, and the two that skip bytes need another byte behind
the run. So a block is scanned without a fault just when it falls into lines, each with something behind it.
-/

namespace QjsLws.Native

open QjsLws.Misc

/-! ## Scans -/

section Scans

variable {before run rest set block : List UInt8} {b : UInt8}

theorem readAt_split (before rest : List UInt8) (b : UInt8) :
    readAt (before ++ b :: rest) before.length = .ok b := by
  rw [readAt_eq_ok, List.getElem?_append_right (Nat.le_refl _)]
  simp

/-- Over bytes outside of the set. -/
theorem findbLoop_run (before done rest : List UInt8) (len : Nat) (run : List UInt8)
    (others : ∀ b ∈ run, b ∉ set) (room : done.length + run.length ≤ len) :
    findbLoop (before ++ (done ++ (run ++ rest))) set before.length len done.length =
      findbLoop (before ++ (done ++ (run ++ rest))) set before.length len (done.length + run.length) := by
  induction run generalizing done with
  | nil => rfl
  | cons b run ih =>
    rw [List.length_cons] at room
    have read : readAt (before ++ (done ++ (b :: run ++ rest))) (before.length + done.length) = .ok b := by
      rw [← List.length_append, ← List.append_assoc, List.cons_append, readAt_split]
    have next := ih (done ++ [b]) (fun c member => others c (List.mem_cons_of_mem _ member)) (by
      rw [List.length_append, List.length_singleton]
      omega)
    rw [findbLoop, if_pos (by omega), read]
    simp only [if_neg (others b List.mem_cons_self)]
    simpa [Nat.add_assoc, Nat.add_comm 1] using next

/-- Up to a byte of the set. -/
theorem findbCharset_found (before : List UInt8) {i : Nat} (split : block = before ++ (run ++ b :: rest)) (place : before.length = i)
    (others : ∀ b ∈ run, b ∉ set) (member : b ∈ set) :
    findbCharset block i (block.length - i) set = .ok run.length := by
  subst place split
  have scan := findbLoop_run before [] (b :: rest) (run ++ b :: rest).length run others (by simp)
  have read : readAt (before ++ (run ++ b :: rest)) (before.length + run.length) = .ok b := by
    rw [← List.length_append, ← List.append_assoc, readAt_split]
  rw [List.nil_append, List.length_nil, Nat.zero_add] at scan
  rw [List.length_append, Nat.add_sub_cancel_left, findbCharset, scan, findbLoop, if_pos (by simp), read]
  exact if_pos member

/-- Up to the end. -/
theorem findbCharset_absent (before : List UInt8) {i : Nat} (split : block = before ++ run) (place : before.length = i)
    (others : ∀ b ∈ run, b ∉ set) : findbCharset block i (block.length - i) set = .ok run.length := by
  subst place split
  have scan := findbLoop_run before [] [] run.length run others (by simp)
  rw [List.nil_append, List.length_nil, Nat.zero_add, List.append_nil] at scan
  rw [List.length_append, Nat.add_sub_cancel_left, findbCharset, scan, findbLoop, if_neg (Nat.lt_irrefl _)]

theorem skipCharset_run (before rest : List UInt8) (run : List UInt8) (all : ∀ b ∈ run, b ∈ set) :
    skipCharset (before ++ (run ++ rest)) set before.length =
      skipCharset (before ++ (run ++ rest)) set (before.length + run.length) := by
  induction run generalizing before with
  | nil => rfl
  | cons b run ih =>
    have next := ih (before ++ [b]) fun c member => all c (List.mem_cons_of_mem _ member)
    rw [skipCharset, List.cons_append, readAt_split]
    simp only [if_pos (all b List.mem_cons_self)]
    simpa [Nat.add_assoc, Nat.add_comm 1] using next

/-- Behind a run of bytes of the set. -/
theorem skipCharset_stop (before : List UInt8) {k : Nat} (split : block = before ++ (run ++ b :: rest)) (place : before.length = k)
    (all : ∀ b ∈ run, b ∈ set) (other : b ∉ set) : skipCharset block set k = .ok (k + run.length) := by
  subst place split
  have read : readAt (before ++ (run ++ b :: rest)) (before.length + run.length) = .ok b := by
    rw [← List.length_append, ← List.append_assoc, readAt_split]
  rw [skipCharset_run before _ run all, skipCharset, read]
  exact if_neg other

/-- A run to the end of the block is left behind it. -/
theorem skipCharset_fault (before : List UInt8) {k : Nat} (split : block = before ++ run) (place : before.length = k)
    (all : ∀ b ∈ run, b ∈ set) : skipCharset block set k = .error (.read block.length) := by
  subst place split
  have whole := skipCharset_run before [] run all
  rw [List.append_nil] at whole
  rw [whole, skipCharset, readAt_of_le (by rw [List.length_append]), List.length_append]

theorem copyBytes_split (before : List UInt8) {i : Nat} {bytes : List UInt8} (split : block = before ++ (bytes ++ rest))
    (place : before.length = i) : copyBytes block i bytes.length = .ok bytes := by
  induction bytes generalizing before i with
  | nil => rfl
  | cons b bytes ih =>
    have next : copyBytes block (i + 1) bytes.length = .ok bytes :=
      ih (before ++ [b]) (by rw [split]; simp) (by simp [place])
    have read : readAt block i = .ok b := by
      rw [split, ← place, List.cons_append, readAt_split]
    rw [List.length_cons, copyBytes, next, read]
    rfl

end Scans

/-! ## Turns of the loop -/

section Turns

variable {before word seps value ends rest tail : List UInt8} {b : UInt8}

/-- A turn of the loop. -/
theorem headerLines_eq (block : List UInt8) (i : Nat) : headerLines block i = (do
    let j ← findbCharset block i (block.length - i) separators
    if (j : Int) < block.length - i - 1 then
      let k ← skipCharset block separators (i + j)
      let n ← findbCharset block k (block.length - k) lineEnds
      let ends ← skipCharset block lineEnds (k + n)
      let calls ←
        if n < block.length - k then do
          let name ← copyBytes block i j
          let value ← copyBytes block k n
          pure [(name, value)]
        else pure []
      if n ≥ block.length - k then return (calls, ends)
      let (later, i) ← headerLines block ends
      return (calls ++ later, i)
    else return ([], i)) := by
  rw [headerLines]
  split
  · rename_i fault found
    rw [found]
    rfl
  · rename_i j found
    rw [found]
    by_cases more : (j : Int) < block.length - i - 1
    · rw [dif_pos more]
      refine Eq.trans ?_ (if_pos more).symm
      split
      · rename_i fault skipped
        rw [skipped, error_bind]
      · rename_i k skipped
        rw [skipped, ok_bind]
        cases findbCharset block k (block.length - k) lineEnds with
        | error fault => rfl
        | ok n =>
          rw [ok_bind]
          dsimp only
          split
          · rename_i fault passed
            rw [passed, error_bind]
          · rename_i ends passed
            rw [passed, ok_bind]
    · rw [dif_neg more]
      exact (if_neg more).symm

/-- The last turn: no separator, or only as the last byte. -/
theorem headerLines_last {i : Nat} (split : block = before ++ tail) (place : before.length = i)
    (plain : ∀ b ∈ tail.dropLast, b ∉ separators) : headerLines block i = .ok ([], i) := by
  obtain ⟨j, found, late⟩ : ∃ j, findbCharset block i (block.length - i) separators = .ok j ∧
      tail.length ≤ j + 1 := by
    rcases List.eq_nil_or_concat' tail with rfl | ⟨front, b, rfl⟩
    · exact ⟨0, findbCharset_absent before split place (by simp), Nat.zero_le _⟩
    · rw [List.dropLast_concat] at plain
      by_cases sep : b ∈ separators
      · exact ⟨front.length, findbCharset_found before split place plain sep, by simp⟩
      · refine ⟨(front ++ [b]).length, findbCharset_absent before split place ?_, by simp⟩
        intro c member
        rcases List.mem_append.mp member with inside | last
        · exact plain c inside
        · exact List.mem_singleton.mp last ▸ sep
  have stop : ¬(j : Int) < block.length - i - 1 := by
    rw [split, List.length_append, ← place]
    omega
  rw [headerLines_eq, found]
  exact if_neg stop

/-- What stands behind the separators does not begin with one. -/
theorem behind_seps (begins : ∀ b ∈ value.head?, b ∉ separators) (all : ∀ b ∈ ends, b ∈ lineEnds) :
    ∀ b ∈ (value ++ ends).head?, b ∉ separators := by
  cases value with
  | nil =>
    intro b first
    have member := all b (List.mem_of_mem_head? first)
    intro sep
    simp only [lineEnds, separators, List.mem_cons, List.not_mem_nil, or_false] at member sep
    rcases member with rfl | rfl <;> exact absurd sep (by decide)
  | cons c value => exact begins

/-- A turn that makes a call. -/
theorem headerLines_turn {i j k n e : Nat} {name content : List UInt8}
    (found : findbCharset block i (block.length - i) separators = .ok j) (more : i + j + 1 < block.length)
    (skipped : skipCharset block separators (i + j) = .ok k)
    (valued : findbCharset block k (block.length - k) lineEnds = .ok n) (inside : k + n < block.length)
    (passed : skipCharset block lineEnds (k + n) = .ok e) (named : copyBytes block i j = .ok name)
    (filled : copyBytes block k n = .ok content) :
    headerLines block i = (do
      let (later, i) ← headerLines block e
      return ((name, content) :: later, i)) := by
  rw [headerLines_eq, found, ok_bind, if_pos (by omega), skipped, ok_bind, valued, ok_bind, passed, ok_bind,
    if_pos (by omega), named, ok_bind, filled, ok_bind]
  exact if_neg (by omega)

/-- A line with something behind it. -/
theorem headerLines_line {i : Nat} (line : ScannedLine) (split : block = before ++ (line.bytes ++ b :: rest))
    (place : before.length = i) (other : b ∉ lineEnds) :
    headerLines block i = (do
      let (later, i) ← headerLines block (i + line.bytes.length)
      return ((line.word, line.value) :: later, i)) := by
  obtain ⟨word, seps, value, ends, plain, someSeps, allSeps, begins, free, someEnds, allEnds⟩ := line
  obtain ⟨s, seps, rfl⟩ := List.exists_cons_of_ne_nil someSeps
  obtain ⟨c, ends, rfl⟩ := List.exists_cons_of_ne_nil someEnds
  obtain ⟨d, more, shape⟩ : ∃ d more, value ++ c :: ends = d :: more := by
    cases value <;> exact ⟨_, _, rfl⟩
  have first : d ∉ separators := by
    have behind := behind_seps begins allEnds
    rw [shape] at behind
    exact behind d rfl
  have whole : block = before ++ (word ++ (s :: seps ++ (value ++ (c :: ends ++ b :: rest)))) := by
    rw [split, ScannedLine.bytes]
    simp
  have atSeps : block = before ++ word ++ (s :: seps ++ d :: (more ++ b :: rest)) := by
    rw [← List.cons_append (a := d), ← shape, whole]
    simp
  have atValue : block = before ++ word ++ s :: seps ++ (value ++ c :: (ends ++ b :: rest)) := by
    rw [whole]
    simp
  have atEnds : block = before ++ word ++ s :: seps ++ value ++ (c :: ends ++ b :: rest) := by
    rw [whole]
    simp
  have place2 : (before ++ word).length = i + word.length := by rw [List.length_append, place]
  have place3 : (before ++ word ++ s :: seps).length = i + word.length + (s :: seps).length := by
    rw [List.length_append, place2]
  have place4 : (before ++ word ++ s :: seps ++ value).length = i + word.length + (s :: seps).length +
      value.length := by rw [List.length_append, place3]
  have size : i + word.length + (s :: seps).length + value.length + 1 < block.length := by
    rw [atEnds, List.length_append, place4]
    simp only [List.length_append, List.length_cons]
    omega
  have some : 0 < (s :: seps).length := Nat.succ_pos _
  have turn := headerLines_turn (findbCharset_found before whole place plain (allSeps s List.mem_cons_self))
    (by omega) (skipCharset_stop _ atSeps place2 allSeps first)
    (findbCharset_found _ atValue place3 free (allEnds c List.mem_cons_self)) (by omega)
    (skipCharset_stop _ atEnds place4 allEnds other) (copyBytes_split before whole place)
    (copyBytes_split _ atValue place3)
  rw [turn, ScannedLine.bytes]
  simp only [List.length_append, Nat.add_assoc]

/-- A turn that scans to the end of the block: with no value, no end of a line, or nothing behind it. -/
theorem headerLines_fault {i : Nat} (split : block = before ++ (word ++ (seps ++ (value ++ ends))))
    (place : before.length = i) (plain : ∀ b ∈ word, b ∉ separators) (someSeps : seps ≠ [])
    (allSeps : ∀ b ∈ seps, b ∈ separators) (begins : ∀ b ∈ value.head?, b ∉ separators)
    (free : ∀ b ∈ value, b ∉ lineEnds) (allEnds : ∀ b ∈ ends, b ∈ lineEnds)
    (enough : 2 ≤ (seps ++ (value ++ ends)).length) : headerLines block i = .error (.read block.length) := by
  obtain ⟨s, seps, rfl⟩ := List.exists_cons_of_ne_nil someSeps
  have found := findbCharset_found before (i := i) split place plain (allSeps s List.mem_cons_self)
  have size : block.length = i + word.length + (s :: seps ++ (value ++ ends)).length := by
    rw [split, ← place]
    simp only [List.length_append]
    omega
  have place2 : (before ++ word).length = i + word.length := by rw [List.length_append, place]
  rw [headerLines_eq, found, ok_bind, if_pos (by omega)]
  have begun := behind_seps begins allEnds
  cases behind : value ++ ends with
  | nil =>
    rw [behind, List.append_nil] at split
    rw [skipCharset_fault (before ++ word) (by rw [split, List.append_assoc]) place2 allSeps, error_bind]
  | cons d more =>
    rw [behind] at begun
    have atSeps : block = before ++ word ++ (s :: seps ++ d :: more) := by
      rw [split, behind, List.append_assoc]
    have skipped := skipCharset_stop _ atSeps place2 allSeps (begun d rfl)
    have place3 : (before ++ word ++ s :: seps).length = i + word.length + (s :: seps).length := by
      rw [List.length_append, place2]
    have place4 : (before ++ word ++ s :: seps ++ value).length = i + word.length + (s :: seps).length +
        value.length := by rw [List.length_append, place3]
    have atValue : block = before ++ word ++ s :: seps ++ (value ++ ends) := by
      rw [split]
      simp
    have valued : findbCharset block (i + word.length + (s :: seps).length)
        (block.length - (i + word.length + (s :: seps).length)) lineEnds = .ok value.length := by
      cases ends with
      | nil => exact findbCharset_absent _ (by rw [atValue, List.append_nil]) place3 free
      | cons c ends => exact findbCharset_found _ atValue place3 free (allEnds c List.mem_cons_self)
    rw [skipped, ok_bind, valued, ok_bind,
      skipCharset_fault _ (by rw [atValue]; simp) place4 allEnds, error_bind]

end Turns

/-! ## Blocks -/

section Blocks

variable {before block tail : List UInt8} {lines : List ScannedLine}

/-- A list begins with a run of what has a property. -/
theorem exists_run (P : UInt8 → Prop) [DecidablePred P] (l : List UInt8) :
    ∃ run rest, l = run ++ rest ∧ (∀ b ∈ run, P b) ∧ ∀ b ∈ rest.head?, ¬P b := by
  refine ⟨l.takeWhile (P ·), l.dropWhile (P ·), List.takeWhile_append_dropWhile.symm, ?_, ?_⟩
  · intro b member
    simpa using List.mem_takeWhile_imp member
  · intro b first
    have stopped := List.head?_dropWhile_not (P ·) l
    rw [first] at stopped
    simpa using stopped

/-- The call for a line. -/
def ScannedLine.call (line : ScannedLine) : Property := (line.word, line.value)

theorem headerLines_ok (lines : List ScannedLine) {before : List UInt8} {i : Nat}
    (split : block = before ++ scannedBlock lines tail) (place : before.length = i) (follows : Follows lines tail)
    (plain : ∀ b ∈ tail.dropLast, b ∉ separators) :
    headerLines block i = .ok (lines.map ScannedLine.call, i + (lines.flatMap ScannedLine.bytes).length) := by
  induction lines generalizing before i with
  | nil => exact headerLines_last split place plain
  | cons line lines ih =>
    obtain ⟨⟨b, first, other⟩, later⟩ := follows
    obtain ⟨rest, shape⟩ := List.head?_eq_some_iff.mp first
    have joined : scannedBlock (line :: lines) tail = line.bytes ++ scannedBlock lines tail := by
      rw [scannedBlock, scannedBlock, List.flatMap_cons, List.append_assoc]
    rw [joined] at split
    have split' : block = before ++ line.bytes ++ scannedBlock lines tail := by rw [split, List.append_assoc]
    have next := ih split' (by rw [List.length_append, place]) later
    rw [shape] at split
    rw [headerLines_line line split place other, next, List.flatMap_cons, List.length_append, ← Nat.add_assoc]
    rfl

/-- A run that is not there, where it could not have ended. -/
theorem run_nonempty {P : UInt8 → Prop} {run rest : List UInt8} (stop : ∀ b ∈ (run ++ rest).head?, P b)
    (beyond : ∀ b ∈ rest.head?, ¬P b) (more : run ++ rest ≠ []) : run ≠ [] := by
  rintro rfl
  obtain ⟨b, rest, rfl⟩ := List.exists_cons_of_ne_nil more
  exact beyond b rfl (stop b rfl)

theorem scannable_line (line : ScannedLine) {rest : List UInt8} (scannable : Scannable rest)
    (behind : ∃ b ∈ rest.head?, b ∉ lineEnds) : Scannable (line.bytes ++ rest) := by
  obtain ⟨lines, tail, rfl, follows, plain⟩ := scannable
  refine ⟨line :: lines, tail, ?_, ⟨behind, follows⟩, plain⟩
  rw [scannedBlock, scannedBlock, List.flatMap_cons, List.append_assoc]

theorem scannable_last {word rest : List UInt8} (plain : ∀ b ∈ word, b ∉ separators) (short : rest.length < 2) :
    Scannable (word ++ rest) := by
  refine ⟨[], word ++ rest, rfl, trivial, ?_⟩
  intro b member
  cases rest with
  | nil => exact plain b (List.dropLast_subset _ (by simpa using member))
  | cons c rest =>
    cases rest with
    | nil => exact plain b (by simpa using member)
    | cons d rest =>
      rw [List.length_cons, List.length_cons] at short
      omega

/-- Every rest of a block is taken apart, or the block left. -/
theorem headerLines_cases (n : Nat) : ∀ (rest before : List UInt8), rest.length ≤ n →
    Scannable rest ∨ headerLines (before ++ rest) before.length = .error (.read (before ++ rest).length) := by
  induction n with
  | zero =>
    intro rest before short
    rw [List.length_eq_zero_iff.mp (Nat.le_zero.mp short)]
    exact .inl ⟨[], [], rfl, trivial, by simp⟩
  | succ n ih =>
    intro rest before short
    obtain ⟨word, rest, rfl, plain, stop⟩ := exists_run (· ∉ separators) rest
    by_cases few : rest.length < 2
    · exact .inl (scannable_last plain few)
    obtain ⟨seps, rest, rfl, allSeps, begins⟩ := exists_run (· ∈ separators) rest
    have someSeps : seps ≠ [] := by
      refine run_nonempty (P := (· ∈ separators)) (fun b first => not_not.mp (stop b first)) begins ?_
      rintro none
      simp [none] at few
    obtain ⟨value, rest, rfl, free, ended⟩ := exists_run (· ∉ lineEnds) rest
    obtain ⟨ends, rest, rfl, allEnds, behind⟩ := exists_run (· ∈ lineEnds) rest
    have valueBegins : ∀ b ∈ value.head?, b ∉ separators := by
      cases value with
      | nil => simp
      | cons c value => exact begins
    cases rest with
    | nil =>
      rw [List.append_nil] at few ⊢
      exact .inr (headerLines_fault rfl rfl plain someSeps allSeps valueBegins free allEnds (by omega))
    | cons b rest =>
      have someEnds : ends ≠ [] := run_nonempty (P := (· ∈ lineEnds)) (fun b first => not_not.mp (ended b first))
        behind (by simp)
      have other := behind b rfl
      let line : ScannedLine := ⟨word, seps, value, ends, plain, someSeps, allSeps, valueBegins, free, someEnds,
        allEnds⟩
      have joined : word ++ (seps ++ (value ++ (ends ++ b :: rest))) = line.bytes ++ b :: rest := by
        simp only [ScannedLine.bytes, List.append_assoc, line]
      rw [joined]
      have shorter : (b :: rest).length ≤ n := by
        have := List.length_pos_iff.mpr someSeps
        simp only [List.length_append] at short ⊢
        omega
      rcases ih (b :: rest) (before ++ line.bytes) shorter with scannable | left
      · exact .inl (scannable_line line scannable ⟨b, rfl, other⟩)
      · rw [List.length_append, List.append_assoc] at left
        right
        rw [headerLines_line line rfl rfl other, left]
        rfl

/-- The loop is left in the block just when this falls into lines and a rest. -/
theorem scannable_of_ok {copied : List UInt8} {calls : List Property}
    (ran : customHeadersCallback block copied = .ok calls) : Scannable block := by
  rcases headerLines_cases block.length block [] (Nat.le_refl _) with scannable | left
  · exact scannable
  · rw [customHeadersCallback, show headerLines block 0 = _ from left] at ran
    cases ran

/-- The calls for the lines, and the last one. -/
theorem customHeaders_ok (lines : List ScannedLine) {name more : List UInt8} (copied : List UInt8)
    (follows : Follows lines (name ++ more)) (plain : ∀ b ∈ (name ++ more).dropLast, b ∉ separators)
    (word : ∀ b ∈ name, b ∉ separators) (stop : ∀ b ∈ more.head?, b ∈ separators) :
    customHeadersCallback (scannedBlock lines (name ++ more)) copied =
      .ok (lines.map ScannedLine.call ++ [(name, copied)]) := by
  have ran : headerLines (scannedBlock lines (name ++ more)) 0 =
      .ok (lines.map ScannedLine.call, (lines.flatMap ScannedLine.bytes).length) := by
    rw [headerLines_ok lines (List.nil_append _).symm List.length_nil follows plain, Nat.zero_add]
  have found : findbCharset (scannedBlock lines (name ++ more)) (lines.flatMap ScannedLine.bytes).length
      ((scannedBlock lines (name ++ more)).length - (lines.flatMap ScannedLine.bytes).length) separators =
        .ok name.length := by
    cases more with
    | nil => exact findbCharset_absent _ (by rw [scannedBlock, List.append_nil]) rfl word
    | cons c more => exact findbCharset_found _ rfl rfl word (stop c rfl)
  have copy : copyBytes (scannedBlock lines (name ++ more)) (lines.flatMap ScannedLine.bytes).length
      name.length = .ok name := copyBytes_split _ rfl rfl
  rw [customHeadersCallback, ran, ok_bind]
  simp only [found, ok_bind, copy]
  rfl

theorem customHeaders_ok_iff (block copied : List UInt8) :
    (∃ calls, customHeadersCallback block copied = .ok calls) ↔ Scannable block := by
  constructor
  · rintro ⟨calls, ran⟩
    exact scannable_of_ok ran
  · rintro ⟨lines, tail, rfl, follows, plain⟩
    obtain ⟨name, more, rfl, word, stop⟩ := exists_run (· ∉ separators) tail
    exact ⟨_, customHeaders_ok lines copied follows plain word fun b first => not_not.mp (stop b first)⟩

end Blocks

/-! ## Headers -/

section Headers

variable {copied : List UInt8} {last : HeaderName}

/-- A line as it is scanned: the separators at the front of its value are lost. -/
def HeaderLine.scanned (line : HeaderLine) : ScannedLine where
  word := line.name.bytes
  seps := [58, 32] ++ line.value.takeWhile (· ∈ separators)
  value := line.value.dropWhile (· ∈ separators)
  ends := [13, 10]
  word_plain b member := (line.name.token b member).1
  seps_nonempty := List.cons_ne_nil _ _
  seps_all b member := by
    rcases List.mem_append.mp member with front | later
    · exact front
    · simpa using List.mem_takeWhile_imp later
  value_begins b first := by
    have stopped := List.head?_dropWhile_not (· ∈ separators) line.value
    rw [first] at stopped
    simpa using stopped
  value_plain b member := line.value_plain b (List.dropWhile_subset _ member)
  ends_nonempty := List.cons_ne_nil _ _
  ends_all b member := member

theorem bytes_scanned (line : HeaderLine) : line.scanned.bytes = line.bytes := by
  have whole := List.takeWhile_append_dropWhile (p := (· ∈ separators)) (l := line.value)
  simp only [ScannedLine.bytes, HeaderLine.scanned, HeaderLine.bytes, List.append_assoc]
  rw [← List.append_assoc (List.takeWhile _ _), whole]

theorem call_scanned_iff (line : HeaderLine) :
    line.scanned.call = line.property ↔ ∀ b ∈ line.value.head?, b ∉ separators := by
  have same : line.scanned.call = line.property ↔ line.value.dropWhile (· ∈ separators) = line.value := by
    constructor
    · exact congrArg Prod.snd
    · exact congrArg (Prod.mk line.name.bytes)
  rw [same, List.dropWhile_eq_self_iff]
  cases line.value with
  | nil => simp
  | cons c value => simp

/-- A name does not begin with an end of a line. -/
theorem name_head (name : HeaderName) (rest : List UInt8) : ∃ b ∈ (name.bytes ++ rest).head?, b ∉ lineEnds := by
  obtain ⟨bytes, nonempty, token⟩ := name
  obtain ⟨b, bytes, rfl⟩ := List.exists_cons_of_ne_nil nonempty
  exact ⟨b, rfl, (token b List.mem_cons_self).2⟩

theorem headerBlock_eq (lines : List HeaderLine) (last : HeaderName) (colon : Bool) :
    headerBlock lines last colon =
      scannedBlock (lines.map HeaderLine.scanned) (last.bytes ++ if colon then [58] else []) := by
  rw [headerBlock, scannedBlock, List.flatMap_map]
  simp only [bytes_scanned]

theorem headerBlock_head (lines : List HeaderLine) (last : HeaderName) (colon : Bool) :
    ∃ b ∈ (headerBlock lines last colon).head?, b ∉ lineEnds := by
  cases lines with
  | nil => exact name_head last _
  | cons line lines =>
    rw [headerBlock, List.flatMap_cons, HeaderLine.bytes, List.append_assoc, List.append_assoc]
    exact name_head line.name _

theorem headerBlock_follows (lines : List HeaderLine) (last : HeaderName) (colon : Bool) :
    Follows (lines.map HeaderLine.scanned) (last.bytes ++ if colon then [58] else []) := by
  induction lines with
  | nil => trivial
  | cons line lines ih =>
    refine ⟨?_, ih⟩
    rw [← headerBlock_eq]
    exact headerBlock_head lines last colon

/-- On a block of headers the values lose what separators they begin with. -/
theorem customHeaders_headers (lines : List HeaderLine) (last : HeaderName) (colon : Bool)
    (copied : List UInt8) : customHeadersCallback (headerBlock lines last colon) copied =
      .ok ((lines.map fun line => line.scanned.call) ++ [(last.bytes, copied)]) := by
  have word : ∀ b ∈ last.bytes, b ∉ separators := fun b member => (last.token b member).1
  have plain : ∀ b ∈ (last.bytes ++ if colon then [58] else []).dropLast, b ∉ separators := by
    cases colon with
    | true =>
      rw [if_pos rfl, List.dropLast_concat]
      exact word
    | false =>
      intro b member
      exact word b (by simpa using List.dropLast_subset _ member)
  have stop : ∀ b ∈ (if colon then [58] else [] : List UInt8).head?, b ∈ separators := by
    cases colon <;> simp [separators]
  have calls := customHeaders_ok _ copied (headerBlock_follows lines last colon) plain word stop
  rw [headerBlock_eq, calls, List.map_map]
  rfl

/-- The callback stays in the block just when this falls into lines, each with something behind it, and on a
block of headers it sets the properties of the lines and the last one just when no value begins with a colon
or a space. -/
theorem customHeaders_iff (copied : List UInt8) :
    (∀ block, (∃ calls, customHeadersCallback block copied = .ok calls) ↔ Scannable block) ∧
    ∀ (lines : List HeaderLine) (last : HeaderName) (colon : Bool),
      customHeadersCallback (headerBlock lines last colon) copied =
          .ok (lines.map HeaderLine.property ++ [(last.bytes, copied)]) ↔
        ∀ line ∈ lines, ∀ b ∈ line.value.head?, b ∉ separators := by
  refine ⟨fun block => customHeaders_ok_iff block copied, fun lines last colon => ?_⟩
  rw [customHeaders_headers, Except.ok.injEq, List.append_left_inj, List.map_inj_left]
  simp only [call_scanned_iff]

end Headers

/-- In `a: b` the block is left, and in `a: ::1` the value loses its colons. -/
theorem customHeaders_overrun :
    customHeadersCallback [97, 58, 32, 98] [98] = .error (.read 4) ∧
    customHeadersCallback [97, 58, 32, 58, 58, 49, 13, 10, 99] [50] = .ok [([97], [49]), ([99], [50])] := by
  constructor
  · have left := @headerLines_fault [] [97] [58, 32] [98] [] [97, 58, 32, 98] 0 rfl rfl
      (by simp [separators]) (by simp) (by simp [separators]) (by simp [separators]) (by simp [lineEnds])
      (by simp) (by simp)
    rw [customHeadersCallback, left]
    rfl
  · exact customHeaders_headers [⟨⟨[97], by simp, by simp [separators, lineEnds]⟩, [58, 58, 49],
      by simp [lineEnds]⟩] ⟨[99], by simp, by simp [separators, lineEnds]⟩ false [50]

end QjsLws.Native
