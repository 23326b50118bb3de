import QjsLws.Url.Parser

/-!
# The parser's loop

Every pass moves on to a later state, or stays in its state and moves the pointer forward, so the
loop ends within `passBound` passes. Runs on known input are put together pass by pass.
-/

namespace QjsLws.Url

open QjsLws.Misc ParserInput

/-- The order in which the states are passed through. -/
def ParserState.rank : ParserState → Nat
  | .schemeStart => 0
  | .scheme => 1
  | .noScheme => 2
  | .specialRelativeOrAuthority | .pathOrAuthority | .specialAuthoritySlashes => 3
  | .relative | .file => 4
  | .relativeSlash | .fileSlash => 5
  | .specialAuthorityIgnoreSlashes | .fileHost => 6
  | .authority => 7
  | .host | .hostname => 8
  | .port => 9
  | .pathStart => 10
  | .path | .opaquePath => 11
  | .query => 12
  | .fragment => 13

/-- Before the authority the buffer is empty, and in the authority it was read from the input. -/
def BufferOk (v : ParserVars) : Prop :=
  match v.state with
  | .scheme | .fileHost | .host | .hostname | .port | .pathStart | .path
  | .opaquePath | .query | .fragment => True
  | .authority => (v.buffer.length : Int) ≤ v.pointer
  | _ => v.buffer = []

/-- The variables at the start of a pass. -/
structure Placed (cp : Text) (v : ParserVars) : Prop where
  low : 0 ≤ v.pointer
  high : v.pointer ≤ cp.length
  buffer : BufferOk v

/-- The variables after `pointer++`. -/
@[simp] def ParserVars.advance (v : ParserVars) : ParserVars := { v with pointer := v.pointer + 1 }

/-- What a pass does to the place in the input. -/
structure Moves (v v' : ParserVars) : Prop where
  low : 0 ≤ v'.advance.pointer
  forward : v.state.rank < v'.state.rank ∨ v'.state = v.state ∧ v.pointer ≤ v'.pointer
  buffer : BufferOk v'.advance

/-- A pass that stays in the loop moves on. -/
def Pass.Moves (v : ParserVars) : Pass → Prop
  | .next v' => Url.Moves v v'
  | .done _ _ => True

section Moves

variable {x : ParserInput} {v : ParserVars} {c : Option Char}

theorem moves_schemeStart (state : v.state = .schemeStart) (low : 0 ≤ v.pointer)
    (buffer : BufferOk v) : (x.schemeStart v c).Moves v := by
  unfold schemeStart
  split
  · refine ⟨?_, ?_, ?_⟩ <;> simp_all [ParserState.rank, BufferOk]
    omega
  · split
    · refine ⟨?_, ?_, ?_⟩ <;> simp_all [ParserState.rank, BufferOk]
    · trivial

theorem moves_scheme (state : v.state = .scheme) (low : 0 ≤ v.pointer) :
    (x.scheme v c).Moves v := by
  unfold scheme
  split
  · refine ⟨?_, ?_, ?_⟩ <;> simp_all [ParserState.rank, BufferOk]
    omega
  · split
    · split
      · unfold schemeRead
        dsimp only
        split_ifs <;> refine ⟨?_, ?_, ?_⟩ <;> simp_all [ParserState.rank, BufferOk] <;> omega
      · unfold schemeOverride
        split_ifs <;> trivial
    · split
      · refine ⟨?_, ?_, ?_⟩ <;> simp_all [ParserState.rank, BufferOk]
      · trivial

theorem moves_noScheme (state : v.state = .noScheme) (low : 0 ≤ v.pointer)
    (buffer : BufferOk v) : (x.noScheme v c).Moves v := by
  unfold noScheme
  split
  · trivial
  · split_ifs
    · refine ⟨?_, ?_, ?_⟩ <;> simp_all [ParserState.rank, BufferOk]
      omega
    · trivial
    · refine ⟨?_, ?_, ?_⟩ <;> simp_all [ParserState.rank, BufferOk]
    · refine ⟨?_, ?_, ?_⟩ <;> simp_all [ParserState.rank, BufferOk]

theorem moves_specialRelativeOrAuthority (state : v.state = .specialRelativeOrAuthority)
    (low : 0 ≤ v.pointer) (buffer : BufferOk v) :
    (x.specialRelativeOrAuthority v c).Moves v := by
  unfold specialRelativeOrAuthority
  split_ifs <;> refine ⟨?_, ?_, ?_⟩ <;> simp_all [ParserState.rank, BufferOk]
  omega

theorem moves_pathOrAuthority (state : v.state = .pathOrAuthority) (low : 0 ≤ v.pointer)
    (buffer : BufferOk v) : (pathOrAuthority v c).Moves v := by
  unfold pathOrAuthority
  split_ifs <;> refine ⟨?_, ?_, ?_⟩ <;> simp_all [ParserState.rank, BufferOk] <;> omega

theorem moves_relative (state : v.state = .relative) (low : 0 ≤ v.pointer) (buffer : BufferOk v) :
    (x.relative v c).Moves v := by
  unfold relative
  split
  · trivial
  · simp only [afterInherited]
    split_ifs <;> refine ⟨?_, ?_, ?_⟩ <;> simp_all [ParserState.rank, BufferOk] <;> omega

theorem moves_relativeSlash (state : v.state = .relativeSlash) (low : 0 ≤ v.pointer)
    (buffer : BufferOk v) : (x.relativeSlash v c).Moves v := by
  unfold relativeSlash
  split_ifs
  · refine ⟨?_, ?_, ?_⟩ <;> simp_all [ParserState.rank, BufferOk]
    omega
  · refine ⟨?_, ?_, ?_⟩ <;> simp_all [ParserState.rank, BufferOk] <;> omega
  · split
    · trivial
    · refine ⟨?_, ?_, ?_⟩ <;> simp_all [ParserState.rank, BufferOk]

theorem moves_specialAuthoritySlashes (state : v.state = .specialAuthoritySlashes)
    (low : 0 ≤ v.pointer) (buffer : BufferOk v) : (x.specialAuthoritySlashes v c).Moves v := by
  unfold specialAuthoritySlashes
  split_ifs <;> refine ⟨?_, ?_, ?_⟩ <;> simp_all [ParserState.rank, BufferOk]
  omega

theorem moves_specialAuthorityIgnoreSlashes (state : v.state = .specialAuthorityIgnoreSlashes)
    (low : 0 ≤ v.pointer) (buffer : BufferOk v) : (specialAuthorityIgnoreSlashes v c).Moves v := by
  unfold specialAuthorityIgnoreSlashes
  split_ifs <;> refine ⟨?_, ?_, ?_⟩ <;> simp_all [ParserState.rank, BufferOk]
  omega

/-- Reading credentials changes neither the state nor the pointer. -/
theorem userinfo_place (t : Text) (v : ParserVars) :
    (t.foldl userinfoChar v).state = v.state ∧ (t.foldl userinfoChar v).pointer = v.pointer := by
  induction t generalizing v with
  | nil => exact ⟨rfl, rfl⟩
  | cons ch t ih =>
    have one : (userinfoChar v ch).state = v.state ∧ (userinfoChar v ch).pointer = v.pointer := by
      unfold userinfoChar
      split_ifs <;> exact ⟨rfl, rfl⟩
    rw [List.foldl_cons, (ih _).1, (ih _).2]
    exact one

theorem bufferOk_authority {w : ParserVars} (state : w.state = .authority)
    (le : (w.buffer.length : Int) ≤ w.pointer) : BufferOk w := by
  rw [BufferOk, state]
  exact le

theorem moves_authority (state : v.state = .authority) (low : 0 ≤ v.pointer)
    (buffer : BufferOk v) : (authority v c).Moves v := by
  unfold authority
  dsimp only
  split
  · obtain ⟨same, place⟩ := userinfo_place
      (if v.atSignSeen = true then "%40".toList ++ v.buffer else v.buffer)
      { v with atSignSeen := true }
    refine ⟨?_, .inr ⟨same, Int.le_of_eq place.symm⟩, ?_⟩
    · simp only [ParserVars.advance, ParserVars.clear, place]
      omega
    · refine bufferOk_authority ?_ ?_
      · exact same.trans state
      · simp only [ParserVars.advance, ParserVars.clear, place, List.length_nil]
        omega
  · split
    · split
      · trivial
      · simp only [BufferOk, state] at buffer
        refine ⟨?_, ?_, ?_⟩ <;> simp [ParserState.rank, BufferOk, state]
        omega
    · rename_i notEnd
      obtain ⟨ch, rfl⟩ : ∃ ch, c = some ch := by
        cases c with
        | none => exact absurd rfl notEnd
        | some ch => exact ⟨ch, rfl⟩
      simp only [BufferOk, state] at buffer
      refine ⟨?_, ?_, ?_⟩ <;> simp [BufferOk, state] <;> omega

theorem moves_withHost {next : ParserVars → Host → Pass} {u : ParserVars}
    (moves : ∀ host, (next u host).Moves v) : (x.withHost u next).Moves v := by
  unfold withHost
  split
  · trivial
  · trivial
  · exact moves _

theorem moves_host (state : v.state = .host ∨ v.state = .hostname) (low : 0 ≤ v.pointer) :
    (x.host v c).Moves v := by
  have rank : v.state.rank = 8 := by rcases state with state | state <;> rw [state] <;> rfl
  have free : ∀ w : ParserVars, w.state = v.state → BufferOk w := by
    intro w same
    rcases state with state | state <;> simp [BufferOk, same, state]
  unfold host
  dsimp only
  split
  · split
    · trivial
    · split
      · trivial
      · apply moves_withHost
        intro host
        refine ⟨?_, .inl ?_, trivial⟩
        · simp only [ParserVars.advance, ParserVars.goto, setHost]
          omega
        · rw [rank]
          exact (by decide : 8 < 9)
  · split
    · split
      · trivial
      · split
        · trivial
        · apply moves_withHost
          intro host
          split
          · trivial
          · refine ⟨?_, .inl ?_, trivial⟩
            · simp only [ParserVars.advance, ParserVars.goto, setHost, ParserVars.back]
              omega
            · rw [rank]
              exact (by decide : 8 < 10)
    · refine ⟨?_, .inr ⟨rfl, Int.le_refl _⟩, free _ rfl⟩
      simp only [ParserVars.advance, ParserVars.append]
      omega

theorem moves_port (state : v.state = .port) (low : 0 ≤ v.pointer) : (x.port v c).Moves v := by
  unfold port
  dsimp only
  split_ifs <;> first
    | trivial
    | refine ⟨?_, ?_, ?_⟩ <;> simp_all [ParserState.rank, BufferOk] <;> omega

theorem moves_file (state : v.state = .file) (low : 0 ≤ v.pointer) (buffer : BufferOk v) :
    (x.file v c).Moves v := by
  unfold file
  dsimp only
  split
  · refine ⟨?_, ?_, ?_⟩ <;> simp_all [ParserState.rank, BufferOk]
    omega
  · split
    · unfold afterInherited
      dsimp only
      split_ifs <;> refine ⟨?_, ?_, ?_⟩ <;> simp_all [ParserState.rank, BufferOk] <;> omega
    · refine ⟨?_, ?_, ?_⟩ <;> simp_all [ParserState.rank, BufferOk]

theorem moves_fileSlash (state : v.state = .fileSlash) (low : 0 ≤ v.pointer) :
    (x.fileSlash v c).Moves v := by
  unfold fileSlash
  dsimp only
  split
  · refine ⟨?_, ?_, ?_⟩ <;> simp [ParserState.rank, BufferOk, state]
    omega
  · split <;> refine ⟨?_, ?_, ?_⟩ <;> simp [ParserState.rank, BufferOk, state, low]

theorem moves_fileHost (state : v.state = .fileHost) (low : 0 ≤ v.pointer) :
    (x.fileHost v c).Moves v := by
  unfold fileHost
  dsimp only
  split
  · split
    · refine ⟨?_, ?_, ?_⟩ <;> simp [ParserState.rank, BufferOk, state, low]
    · split
      · split
        · trivial
        · refine ⟨?_, ?_, ?_⟩ <;> simp [ParserState.rank, BufferOk, state, low]
      · apply moves_withHost
        intro host
        split
        · trivial
        · refine ⟨?_, .inl ?_, trivial⟩
          · simp only [ParserVars.advance, ParserVars.goto, setHost, ParserVars.back]
            omega
          · rw [state]
            exact (by decide : 6 < 10)
  · refine ⟨?_, ?_, ?_⟩ <;> simp [BufferOk, state]
    omega

theorem moves_pathStart (state : v.state = .pathStart) (low : 0 ≤ v.pointer) :
    (x.pathStart v c).Moves v := by
  unfold pathStart
  dsimp only
  split_ifs <;> refine ⟨?_, ?_, ?_⟩ <;> simp_all [ParserState.rank, BufferOk] <;> omega

theorem moves_path (state : v.state = .path) (low : 0 ≤ v.pointer) : (x.path v c).Moves v := by
  unfold path
  dsimp only
  split_ifs <;> refine ⟨?_, ?_, ?_⟩ <;> simp_all [ParserState.rank, BufferOk] <;> omega

theorem moves_opaquePath (state : v.state = .opaquePath) (low : 0 ≤ v.pointer) :
    (opaquePath v c).Moves v := by
  unfold opaquePath
  dsimp only
  split_ifs
  · refine ⟨?_, ?_, ?_⟩ <;> simp [ParserState.rank, BufferOk, state]
    omega
  · refine ⟨?_, ?_, ?_⟩ <;> simp [ParserState.rank, BufferOk, state]
    omega
  · split <;> refine ⟨?_, ?_, ?_⟩ <;> simp [BufferOk, state] <;> omega

theorem moves_query (state : v.state = .query) (low : 0 ≤ v.pointer) : (x.query v c).Moves v := by
  unfold query
  dsimp only
  split_ifs <;> refine ⟨?_, ?_, ?_⟩ <;> simp_all [ParserState.rank, BufferOk] <;> omega

theorem moves_fragment (state : v.state = .fragment) (low : 0 ≤ v.pointer) :
    (fragment v c).Moves v := by
  refine ⟨?_, .inr ⟨rfl, Int.le_refl _⟩, ?_⟩
  · simp only [ParserVars.advance]
    omega
  · simp [BufferOk, state]

/-- Every pass moves on. -/
theorem moves_pass {cp : Text} (placed : Placed cp v) : (x.pass v).Moves v := by
  unfold ParserInput.pass
  dsimp only
  split
  · exact moves_schemeStart ‹_› placed.low placed.buffer
  · exact moves_scheme ‹_› placed.low
  · exact moves_noScheme ‹_› placed.low placed.buffer
  · exact moves_specialRelativeOrAuthority ‹_› placed.low placed.buffer
  · exact moves_pathOrAuthority ‹_› placed.low placed.buffer
  · exact moves_relative ‹_› placed.low placed.buffer
  · exact moves_relativeSlash ‹_› placed.low placed.buffer
  · exact moves_specialAuthoritySlashes ‹_› placed.low placed.buffer
  · exact moves_specialAuthorityIgnoreSlashes ‹_› placed.low placed.buffer
  · exact moves_authority ‹_› placed.low placed.buffer
  · exact moves_host (.inl ‹_›) placed.low
  · exact moves_host (.inr ‹_›) placed.low
  · exact moves_port ‹_› placed.low
  · exact moves_file ‹_› placed.low placed.buffer
  · exact moves_fileSlash ‹_› placed.low
  · exact moves_fileHost ‹_› placed.low
  · exact moves_pathStart ‹_› placed.low
  · exact moves_path ‹_› placed.low
  · exact moves_opaquePath ‹_› placed.low
  · exact moves_query ‹_› placed.low
  · exact moves_fragment ‹_› placed.low

end Moves

section Termination

variable {x : ParserInput}

/-- The passes that are left at most. -/
def passesLeft (cp : Text) (v : ParserVars) : Nat :=
  (13 - v.state.rank) * (cp.length + 2) + (cp.length + 1 - v.pointer.toNat)

theorem ParserState.rank_le (state : ParserState) : state.rank ≤ 13 := by
  cases state <;> decide

/-- A pass uses one of them up. -/
theorem passesLeft_lt {v v' : ParserVars} (placed : Placed x.cp v) (moves : Moves v v')
    (inside : v'.pointer + 1 ≤ x.cp.length) :
    Placed x.cp v'.advance ∧ passesLeft x.cp v'.advance < passesLeft x.cp v := by
  refine ⟨⟨moves.low, inside, moves.buffer⟩, ?_⟩
  have low := placed.low
  have high := placed.high
  have low' := moves.low
  unfold passesLeft
  simp only [ParserVars.advance] at low' ⊢
  rcases moves.forward with later | ⟨same, forward⟩
  · have bound := v'.state.rank_le
    obtain ⟨d, gap⟩ : ∃ d, 13 - v.state.rank = (13 - v'.state.rank) + (d + 1) :=
      ⟨v'.state.rank - v.state.rank - 1, by omega⟩
    rw [gap, Nat.add_mul, Nat.add_mul]
    omega
  · rw [same]
    omega

theorem run_isSome_of_fuel : ∀ (fuel : Nat) {v : ParserVars}, Placed x.cp v →
    passesLeft x.cp v < fuel → (x.run fuel v).isSome = true := by
  intro fuel
  induction fuel with
  | zero => intro v _ enough; omega
  | succ fuel ih =>
    intro v placed enough
    have moves := moves_pass (x := x) placed
    unfold run
    split
    · rfl
    · rename_i v' result
      rw [result] at moves
      split
      · rfl
      · rename_i inside
        obtain ⟨placed', less⟩ := passesLeft_lt placed moves (Int.not_lt.mp inside)
        exact ih placed' (Nat.lt_of_lt_of_le less (Nat.le_of_lt_succ enough))

theorem placed_initialVars {url : URLRecord} {stateOverride : Option ParserState} (cp : Text) :
    Placed cp (initialVars url stateOverride) := by
  refine ⟨Int.le_refl 0, Int.natCast_nonneg _, ?_⟩
  unfold BufferOk
  split
  all_goals trivial

theorem passesLeft_initialVars (cp : Text) (url : URLRecord) (stateOverride : Option ParserState) :
    passesLeft cp (initialVars url stateOverride) < passBound cp := by
  unfold passesLeft passBound
  dsimp only [initialVars]
  have bound : (13 - (stateOverride.getD .schemeStart).rank) * (cp.length + 2)
      ≤ 13 * (cp.length + 2) := Nat.mul_le_mul_right _ (Nat.sub_le _ _)
  omega

/-- The parser never runs out of passes. -/
theorem basicURLParse_isSome (native : Native) (input : Text) (base : Option URLRecord)
    (url : URLRecord) (stateOverride : Option ParserState) :
    (basicURLParse native input base url stateOverride).isSome = true := by
  exact run_isSome_of_fuel _ (placed_initialVars _) (passesLeft_initialVars _ url stateOverride)

/-- One iteration of the loop that does not leave it. -/
def Iterates (x : ParserInput) (v w : ParserVars) : Prop :=
  ∃ v', x.pass v = .next v' ∧ v'.pointer + 1 ≤ x.cp.length ∧ w = v'.advance

/-- One iteration keeps the place in the input and uses a pass up. -/
theorem Iterates.step {v w : ParserVars} (placed : Placed x.cp v) (iterates : Iterates x v w) :
    Placed x.cp w ∧ passesLeft x.cp w < passesLeft x.cp v := by
  obtain ⟨v', result, inside, rfl⟩ := iterates
  have moves := moves_pass (x := x) placed
  rw [result] at moves
  exact passesLeft_lt placed moves inside

theorem Iterates.placed {v w : ParserVars} (placed : Placed x.cp v)
    (reached : Relation.ReflTransGen (Iterates x) v w) : Placed x.cp w := by
  induction reached with
  | refl => exact placed
  | tail _ last ih => exact (last.step ih).1

/-- A run of iterations is no longer than the passes that were left. -/
theorem Iterates.length_le {trail : List ParserVars} : ∀ {v : ParserVars}, Placed x.cp v →
    (v :: trail).IsChain (Iterates x) → trail.length ≤ passesLeft x.cp v := by
  induction trail with
  | nil =>
    intro v _ _
    exact Nat.zero_le _
  | cons w trail ih =>
    intro v placed chain
    rw [List.isChain_cons_cons] at chain
    obtain ⟨placed', less⟩ := chain.1.step placed
    exact Nat.le_trans (Nat.succ_le_succ (ih placed' chain.2)) less

/-- The loop of `basicURLParse` ends on every input, whatever the base, the record and the state
override: the call has a result, no run of iterations is longer than the bound, and no iteration
reads the input before its start. -/
theorem basicURLParse_terminates (native : Native) (input : Text) (base : Option URLRecord)
    (url : URLRecord) (stateOverride : Option ParserState) :
    let x : ParserInput := ⟨native, preprocess input, base, stateOverride⟩
    let start := initialVars url stateOverride
    (basicURLParse native input base url stateOverride).isSome = true ∧
      (∀ trail, (start :: trail).IsChain (Iterates x) → trail.length < passBound x.cp) ∧
      ∀ v, Relation.ReflTransGen (Iterates x) start v → 0 ≤ v.pointer := by
  intro x start
  have placed : Placed x.cp start := placed_initialVars x.cp
  have enough : passesLeft x.cp start < passBound x.cp := passesLeft_initialVars x.cp url stateOverride
  refine ⟨basicURLParse_isSome native input base url stateOverride, ?_, ?_⟩
  · intro trail chain
    exact Nat.lt_of_le_of_lt (Iterates.length_le placed chain) enough
  · intro v reached
    exact (Iterates.placed placed reached).low

end Termination

section Rule

variable {x : ParserInput}

/-- What a pass has to establish: the invariant where the loop goes on, the postcondition where
it ends. -/
def Pass.Sat (x : ParserInput) (Inv : ParserVars → Prop) (Post : URLRecord → ParseEnd → Prop) :
    Pass → Prop
  | .done url ended => Post url ended
  | .next v =>
    (v.pointer + 1 ≤ x.cp.length → Inv v.advance) ∧
      ((x.cp.length : Int) < v.pointer + 1 → Post v.url .record)

/-- The rule for the loop. -/
theorem run_rule {Inv : ParserVars → Prop} {Post : URLRecord → ParseEnd → Prop}
    (keeps : ∀ v, Placed x.cp v → Inv v → (x.pass v).Sat x Inv Post) :
    ∀ (fuel : Nat) {v : ParserVars}, Placed x.cp v → Inv v →
      ∀ {url ended}, x.run fuel v = some (url, ended) → Post url ended := by
  intro fuel
  induction fuel with
  | zero =>
    intro v _ _ url ended result
    cases result
  | succ fuel ih =>
    intro v placed inv url ended result
    have sat := keeps v placed inv
    have moves := moves_pass (x := x) placed
    unfold run at result
    split at result
    · rename_i next
      rw [next] at sat
      cases result
      exact sat
    · rename_i v' next
      rw [next] at sat moves
      split at result
      · rename_i outside
        cases result
        exact sat.2 outside
      · rename_i inside
        obtain ⟨placed', -⟩ := passesLeft_lt placed moves (Int.not_lt.mp inside)
        exact ih placed' (sat.1 (Int.not_lt.mp inside)) result

variable {Inv : ParserVars → Prop} {Post : URLRecord → ParseEnd → Prop} {v v' : ParserVars}

theorem charAt_eq_none_iff {cp : Text} (placed : Placed cp v) :
    charAt cp v.pointer = none ↔ v.pointer = cp.length := by
  have low := placed.low
  have high := placed.high
  rw [charAt, if_pos low, List.getElem?_eq_none_iff]
  omega

theorem lt_of_charAt {cp : Text} {i : Int} {c : Char} (found : charAt cp i = some c) :
    0 ≤ i ∧ i < cp.length := by
  unfold charAt at found
  split at found
  · obtain ⟨inside, -⟩ := List.getElem?_eq_some_iff.mp found
    omega
  · cases found

/-- The pointer goes back: the character is read again. -/
theorem sat_back (placed : Placed x.cp v) (same : v'.pointer + 1 ≤ v.pointer)
    (inv : Inv v'.advance) : (Pass.next v').Sat x Inv Post := by
  have high := placed.high
  exact ⟨fun _ => inv, fun outside => by omega⟩

/-- A character is consumed. -/
theorem sat_char {c : Char} (found : charAt x.cp v.pointer = some c)
    (same : v'.pointer ≤ v.pointer) (inv : Inv v'.advance) : (Pass.next v').Sat x Inv Post := by
  have inside := (lt_of_charAt found).2
  exact ⟨fun _ => inv, fun outside => by omega⟩

/-- The end of the input is consumed. -/
theorem sat_end (placed : Placed x.cp v) (ended : charAt x.cp v.pointer = none)
    (same : v.pointer ≤ v'.pointer) (post : Post v'.url .record) :
    (Pass.next v').Sat x Inv Post := by
  have last := (charAt_eq_none_iff placed).mp ended
  exact ⟨fun inside => by omega, fun _ => post⟩

end Rule

section Returns

variable {x : ParserInput} {v v' : ParserVars} {r : URLRecord × ParseEnd}

/-- The loop ends with the given result. -/
def Returns (x : ParserInput) (v : ParserVars) (r : URLRecord × ParseEnd) : Prop :=
  ∃ fuel, x.run fuel v = some r

/-- One pass, and the rest of the run. -/
theorem Returns.step (pass : x.pass v = .next v') (inside : v'.pointer + 1 ≤ x.cp.length)
    (rest : Returns x v'.advance r) : Returns x v r := by
  obtain ⟨fuel, result⟩ := rest
  refine ⟨fuel + 1, ?_⟩
  rw [run, pass]
  dsimp only
  rw [if_neg (Int.not_lt.mpr inside)]
  exact result

/-- The last pass. -/
theorem Returns.last (pass : x.pass v = .next v') (outside : (x.cp.length : Int) < v'.pointer + 1) :
    Returns x v (v'.url, .record) := by
  refine ⟨1, ?_⟩
  rw [run, pass]
  dsimp only
  rw [if_pos outside]

/-- A pass that leaves the function. -/
theorem Returns.done {url : URLRecord} {ended : ParseEnd} (pass : x.pass v = .done url ended) :
    Returns x v (url, ended) := by
  refine ⟨1, ?_⟩
  rw [run, pass]

theorem run_mono {fuel : Nat} : ∀ {v : ParserVars}, x.run fuel v = some r →
    x.run (fuel + 1) v = some r := by
  induction fuel with
  | zero =>
    intro v result
    cases result
  | succ fuel ih =>
    intro v result
    rw [run] at result ⊢
    split at result
    · exact result
    · split at result
      · rename_i outside
        rw [if_pos outside]
        exact result
      · rename_i inside
        rw [if_neg inside]
        exact ih result

theorem run_le {n m : Nat} (le : n ≤ m) (result : x.run n v = some r) : x.run m v = some r := by
  induction le with
  | refl => exact result
  | step _ ih => exact run_mono ih

/-- With enough fuel the loop gives its result. -/
theorem Returns.eq {fuel : Nat} (returns : Returns x v r) (enough : (x.run fuel v).isSome = true) :
    x.run fuel v = some r := by
  obtain ⟨n, result⟩ := returns
  obtain ⟨r', found⟩ := Option.isSome_iff_exists.mp enough
  have first := run_le (Nat.le_max_left n fuel) result
  have second := run_le (Nat.le_max_right n fuel) found
  rw [first] at second
  rw [found, second]

/-- The input from a place on. -/
def Rest (cp : Text) (p : Int) (t : Text) : Prop := ∃ pre : Text, cp = pre ++ t ∧ p = pre.length

theorem Rest.charAt_eq {cp t : Text} {p : Int} (rest : Rest cp p t) : charAt cp p = t.head? := by
  obtain ⟨pre, rfl, rfl⟩ := rest
  rw [charAt, if_pos (Int.natCast_nonneg _), Int.toNat_natCast, List.getElem?_append_right
    (Nat.le_refl _), Nat.sub_self, List.head?_eq_getElem?]

theorem Rest.drop {cp t u : Text} {p : Int} (rest : Rest cp p (t ++ u)) :
    Rest cp (p + t.length) u := by
  obtain ⟨pre, rfl, rfl⟩ := rest
  exact ⟨pre ++ t, by simp, by simp⟩

theorem Rest.next {cp t : Text} {p : Int} {c : Char} (rest : Rest cp p (c :: t)) :
    Rest cp (p + 1) t := by
  obtain ⟨pre, rfl, rfl⟩ := rest
  exact ⟨pre ++ [c], by simp, by simp⟩

theorem Rest.length_eq {cp t : Text} {p : Int} (rest : Rest cp p t) : p + t.length = cp.length := by
  obtain ⟨pre, rfl, rfl⟩ := rest
  simp

theorem rest_zero (cp : Text) : Rest cp 0 cp := ⟨[], rfl, rfl⟩

/-- A pass that consumes a character. -/
theorem Returns.char {c : Char} {t : Text} (rest : Rest x.cp v.pointer (c :: t))
    (pass : x.pass v = .next v') (same : v'.pointer = v.pointer) (next : Returns x v'.advance r) :
    Returns x v r := by
  have length := rest.length_eq
  rw [List.length_cons] at length
  exact Returns.step pass (by omega) next

/-- A pass that leaves the character to the next state. -/
theorem Returns.again {t : Text} (rest : Rest x.cp v.pointer t) (pass : x.pass v = .next v')
    (same : v'.pointer = v.pointer - 1) (next : Returns x v'.advance r) : Returns x v r := by
  have length := rest.length_eq
  exact Returns.step pass (by omega) next

/-- A pass at the end of the input. -/
theorem Returns.finish (rest : Rest x.cp v.pointer []) (pass : x.pass v = .next v')
    (same : v'.pointer = v.pointer) : Returns x v (v'.url, .record) := by
  have length := rest.length_eq
  rw [List.length_nil] at length
  exact Returns.last pass (by omega)

/-- Characters that a state only appends to the buffer. -/
theorem Returns.read {t u : Text} (rest : Rest x.cp v.pointer (t ++ u))
    (appends : ∀ (buffer : Text) (p : Int) (c : Char), c ∈ t → charAt x.cp p = some c →
      x.pass { v with buffer, pointer := p }
        = .next { v with buffer := buffer ++ [c], pointer := p })
    (next : Returns x { v with buffer := v.buffer ++ t, pointer := v.pointer + t.length } r) :
    Returns x v r := by
  induction t generalizing v with
  | nil =>
    have same : { v with buffer := v.buffer ++ [], pointer := v.pointer + ([] : Text).length } = v := by
      simp
    rwa [same] at next
  | cons c t ih =>
    have found : charAt x.cp v.pointer = some c := by
      rw [rest.charAt_eq]
      rfl
    refine Returns.char rest (appends v.buffer v.pointer c List.mem_cons_self found) rfl ?_
    apply ih (v := { v with buffer := v.buffer ++ [c], pointer := v.pointer + 1 }) rest.next
    · exact fun buffer p d member => appends buffer p d (List.mem_cons_of_mem c member)
    · have place : v.pointer + 1 + (t.length : Int) = v.pointer + ((c :: t).length : Int) := by
        simp
        omega
      simp only [List.append_assoc, List.singleton_append, place]
      exact next

end Returns

end QjsLws.Url
