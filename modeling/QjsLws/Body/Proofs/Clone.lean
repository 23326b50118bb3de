import Mathlib.Data.List.GetD
import QjsLws.Body.Clone

/-!
# What clones and second reads give

As long as no body is cloned that cannot be built again, every object has a source and a stream of
its own. The streams then hold nothing but a list of chunks for each body, which a read empties and
nothing else changes.
-/

namespace QjsLws.Body

open QjsLws.Misc

/-! ## The streams as lists of chunks -/

section Streams

variable {heap heap' : Heap} {sources : List (List Delivered)} {chunks : List Delivered} {k : Nat}

/-- Body `k` has its source at `2 * k` and its stream behind it. What the two hold together. -/
def PairHolds (heap : Heap) (k : Nat) (chunks : List Delivered) : Prop :=
  ∃ queue waiting upstream held,
    heap[2 * k]? = some ⟨waiting, none, held⟩ ∧ heap[2 * k + 1]? = some ⟨queue, upstream, false⟩ ∧
      (upstream = some (2 * k) ∨ upstream = none ∧ waiting = []) ∧ chunks = queue ++ waiting

/-- The streams hold these chunks, a list for each body. -/
structure Holds (heap : Heap) (sources : List (List Delivered)) : Prop where
  length : heap.length = 2 * sources.length
  pair : ∀ k chunks, sources[k]? = some chunks → PairHolds heap k chunks

theorem PairHolds.congr (holds : PairHolds heap k chunks) (first : heap'[2 * k]? = heap[2 * k]?)
    (second : heap'[2 * k + 1]? = heap[2 * k + 1]?) : PairHolds heap' k chunks := by
  obtain ⟨queue, waiting, upstream, held, source, stream, linked, eq⟩ := holds
  exact ⟨queue, waiting, upstream, held, first.trans source, second.trans stream, linked, eq⟩

/-- What happens to one body leaves the others alone. -/
theorem Holds.replace (holds : Holds heap sources) (length : heap'.length = heap.length)
    (frame : ∀ i, i ≠ 2 * k → i ≠ 2 * k + 1 → heap'[i]? = heap[i]?)
    (pair : PairHolds heap' k chunks) : Holds heap' (sources.set k chunks) := by
  constructor
  · rw [List.length_set, length, holds.length]
  · intro j others found
    rw [List.getElem?_set] at found
    by_cases same : k = j
    · subst same
      rw [if_pos rfl] at found
      split at found
      · exact Option.some.inj found ▸ pair
      · cases found
    · rw [if_neg same] at found
      exact (holds.pair j others found).congr (frame _ (by omega) (by omega))
        (frame _ (by omega) (by omega))

theorem holds_empty : Holds [] [] := ⟨rfl, by simp⟩

theorem Holds.openSource (holds : Holds heap sources) (chunks : List Delivered) :
    Holds (Body.openSource heap chunks).1 (sources ++ [chunks]) := by
  have length := holds.length
  constructor
  · rw [Body.openSource, List.length_append, List.length_append, length]
    simp only [List.length_cons, List.length_nil]
    omega
  · intro k others found
    rcases getElem?_snoc.mp found with old | ⟨rfl, rfl⟩
    · obtain ⟨inside, -⟩ := List.getElem?_eq_some_iff.mp old
      exact (holds.pair k others old).congr (List.getElem?_append_left (by omega))
        (List.getElem?_append_left (by omega))
    · refine ⟨[], chunks, some heap.length, true, ?_, ?_, .inl (by rw [length]), rfl⟩
      · rw [Body.openSource, List.getElem?_append_right (by omega), length, Nat.sub_self]
        rfl
      · rw [Body.openSource, List.getElem?_append_right (by omega), length, Nat.add_sub_cancel_left]
        rfl

theorem getElem?_release (heap : Heap) (u i : Nat) :
    (release heap u)[i]? = if u = i then heap[i]?.map fun cell => { cell with locked := false }
      else heap[i]? := by
  rw [release, List.getElem?_modify]
  split <;> simp

/-- Reading a stream to its end gives what the body holds and leaves nothing. -/
theorem Holds.drain (holds : Holds heap sources) (found : sources[k]? = some chunks) :
    (drain heap.length heap (2 * k + 1)).1 = chunks ∧
      Holds (drain heap.length heap (2 * k + 1)).2 (sources.set k []) := by
  obtain ⟨inside, -⟩ := List.getElem?_eq_some_iff.mp found
  obtain ⟨queue, waiting, upstream, held, source, stream, linked, rfl⟩ := holds.pair k chunks found
  have length := holds.length
  obtain ⟨n, fuel⟩ : ∃ n, heap.length = n + 2 := ⟨heap.length - 2, by omega⟩
  rcases linked with rfl | ⟨rfl, rfl⟩
  · have run : Body.drain heap.length heap (2 * k + 1) = (queue ++ waiting,
        (release (heap.set (2 * k) ⟨[], none, held⟩) (2 * k)).set (2 * k + 1) ⟨[], none, false⟩) := by
      rw [fuel, Body.drain, stream]
      simp only [Body.drain, source]
    rw [run]
    refine ⟨rfl, holds.replace (by simp [release]) ?_ ⟨[], [], none, false, ?_, ?_, .inr ⟨rfl, rfl⟩, rfl⟩⟩
    · intro i notSource notStream
      rw [List.getElem?_set_ne (Ne.symm notStream), getElem?_release, if_neg (Ne.symm notSource),
        List.getElem?_set_ne (Ne.symm notSource)]
    · rw [List.getElem?_set_ne (by omega), getElem?_release, if_pos rfl,
        List.getElem?_set_self (by omega)]
      rfl
    · rw [List.getElem?_set_self (by simp only [release, List.length_modify, List.length_set]; omega)]
  · have run : Body.drain heap.length heap (2 * k + 1)
        = (queue, heap.set (2 * k + 1) ⟨[], none, false⟩) := by
      rw [fuel, Body.drain, stream]
    rw [run, List.append_nil]
    refine ⟨rfl, holds.replace (by simp) ?_ ⟨[], [], none, held, ?_, ?_, .inr ⟨rfl, rfl⟩, rfl⟩⟩
    · intro i _ notStream
      rw [List.getElem?_set_ne (Ne.symm notStream)]
    · rw [List.getElem?_set_ne (by omega), source]
    · rw [List.getElem?_set_self (by omega)]

/-- The progress of a stream moves chunks between the two streams of a body. -/
theorem Holds.pull (holds : Holds heap sources) (i : Nat) : Holds (pull heap i) sources := by
  have length := holds.length
  by_cases inside : i < heap.length
  · obtain ⟨k, position⟩ : ∃ k, i = 2 * k ∨ i = 2 * k + 1 := ⟨i / 2, by omega⟩
    have within : k < sources.length := by omega
    have known : sources[k]? = some sources[k] := List.getElem?_eq_getElem within
    obtain ⟨queue, waiting, upstream, held, source, stream, linked, eq⟩ := holds.pair k _ known
    have unchanged : sources.set k (queue ++ waiting) = sources := by
      rw [← eq, List.set_getElem_self]
    rcases position with rfl | rfl
    · have still : Body.pull heap (2 * k) = heap := by
        unfold Body.pull
        rw [source]
        cases waiting with
        | nil => rfl
        | cons chunk rest => rfl
      rw [still]
      exact holds
    · cases queue with
      | cons chunk rest =>
        have still : Body.pull heap (2 * k + 1) = heap := by
          unfold Body.pull
          rw [stream]
        rw [still]
        exact holds
      | nil =>
        rcases linked with rfl | ⟨rfl, rfl⟩
        · rw [← unchanged]
          cases waiting with
          | nil =>
            have run : Body.pull heap (2 * k + 1)
                = (release heap (2 * k)).set (2 * k + 1) ⟨[], none, false⟩ := by
              unfold Body.pull
              rw [stream]
              simp only [source]
            rw [run]
            refine holds.replace (by simp [release]) ?_
              ⟨[], [], none, false, ?_, ?_, .inr ⟨rfl, rfl⟩, rfl⟩
            · intro i notSource notStream
              rw [List.getElem?_set_ne (Ne.symm notStream), getElem?_release,
                if_neg (Ne.symm notSource)]
            · rw [List.getElem?_set_ne (by omega), getElem?_release, if_pos rfl, source]
              rfl
            · rw [List.getElem?_set_self (by rw [release, List.length_modify]; omega)]
          | cons chunk rest =>
            have run : Body.pull heap (2 * k + 1)
                = (heap.set (2 * k) ⟨rest, none, held⟩).set (2 * k + 1)
                    ⟨[chunk], some (2 * k), false⟩ := by
              unfold Body.pull
              rw [stream]
              simp only [source]
            rw [run]
            refine holds.replace (by simp) ?_
              ⟨[chunk], rest, some (2 * k), held, ?_, ?_, .inl rfl, rfl⟩
            · intro i notSource notStream
              rw [List.getElem?_set_ne (Ne.symm notStream), List.getElem?_set_ne (Ne.symm notSource)]
            · rw [List.getElem?_set_ne (by omega), List.getElem?_set_self (by omega)]
            · rw [List.getElem?_set_self (by rw [List.length_set]; omega)]
        · have still : Body.pull heap (2 * k + 1) = heap := by
            unfold Body.pull
            rw [stream]
          rw [still]
          exact holds
  · have still : Body.pull heap i = heap := by
      unfold Body.pull
      rw [List.getElem?_eq_none (by omega)]
    rw [still]
    exact holds

theorem Holds.unlocked (holds : Holds heap sources) (found : sources[k]? = some chunks) :
    (heap[2 * k + 1]?.map StreamCell.locked).getD false = false := by
  obtain ⟨queue, waiting, upstream, held, -, stream, -, -⟩ := holds.pair k chunks found
  rw [stream]
  rfl

end Streams

/-! ## The objects -/

section Objects

variable {isJson : Text → Bool} {s s' : Bodies} {sources sources' : List (List Delivered)}
  {object : BodyObject} {o : Nat}

/-- What the stream of an object still gives. -/
def heldBy (sources : List (List Delivered)) (body : Option Nat) : List Delivered :=
  body.elim [] fun stream => sources.getD (stream / 2) []

/-- What an object keeps of its body fits what its stream still gives. -/
structure ObjectOk (sources : List (List Delivered)) (object : BodyObject) : Prop where
  place : ∀ stream, object.body = some stream → ∃ k < sources.length, stream = 2 * k + 1
  read : object.wasRead = true → object.bodyUsed = true ∧ heldBy sources object.body = []
  unread : object.wasRead = false → ∀ init, object.bodyInit = some init →
    heldBy sources object.body = init.delivered
  init : ∀ init, object.bodyInit = some init →
    init.rebuildable = true ∧ (object.kind = .request true → init.truthy = false)

/-- No two objects share a stream, and all fit the chunks that the streams hold. -/
structure BodiesInv (s : Bodies) (sources : List (List Delivered)) : Prop where
  holds : Holds s.heap sources
  objects : ∀ (o : Nat) object, s.objects[o]? = some object → ObjectOk sources object
  own : ∀ (o o' : Nat) object other, s.objects[o]? = some object → s.objects[o']? = some other →
    object.body = other.body → object.body ≠ none → o = o'

/-- What an object gives that is not read: its body was made of the value it keeps, or it has none. -/
def Fixed (object : BodyObject) (chunks : List Delivered) : Prop :=
  (∃ init, object.bodyInit = some init ∧ chunks = init.delivered) ∨ object.body = none ∧ chunks = []

theorem ObjectOk.heldBy_eq (ok : ObjectOk sources object) (unread : object.wasRead = false)
    {chunks : List Delivered} (fixed : Fixed object chunks) : heldBy sources object.body = chunks := by
  rcases fixed with ⟨init, kept, rfl⟩ | ⟨absent, rfl⟩
  · exact ok.unread unread init kept
  · rw [absent]
    rfl

theorem ObjectOk.congr (ok : ObjectOk sources object) (longer : sources.length ≤ sources'.length)
    (same : heldBy sources' object.body = heldBy sources object.body) :
    ObjectOk sources' object where
  place stream found := by
    obtain ⟨k, inside, eq⟩ := ok.place stream found
    exact ⟨k, inside.trans_le longer, eq⟩
  read done := same ▸ ok.read done
  unread fresh init kept := same ▸ ok.unread fresh init kept
  init := ok.init

theorem heldBy_append (place : ∀ stream, object.body = some stream →
      ∃ k < sources.length, stream = 2 * k + 1) (more : List (List Delivered)) :
    heldBy (sources ++ more) object.body = heldBy sources object.body := by
  cases found : object.body with
  | none => rfl
  | some stream =>
    obtain ⟨k, inside, rfl⟩ := place stream found
    exact List.getD_append _ _ _ _ (by omega)

/-! ### Reading -/

theorem heldBy_of_stream {k : Nat} (found : object.body = some (2 * k + 1)) :
    heldBy sources object.body = sources.getD k [] := by
  rw [found]
  exact congrArg (sources.getD · []) (by omega)

/-- What a read returns, and the chunks it leaves. -/
theorem read_eq (inv : BodiesInv s sources) (found : s.objects[o]? = some object) (m : Method) :
    ∃ sources', (∀ other : BodyObject, other.body ≠ object.body → ObjectOk sources other →
          heldBy sources' other.body = heldBy sources other.body) ∧
      heldBy sources' object.body = [] ∧ sources'.length = sources.length ∧
      Holds (s.read isJson o m).1.heap sources' ∧
      (s.read isJson o m).1.objects = s.objects.modify o (fun object =>
        { object with bodyUsed := true, wasRead := true }) ∧
      (s.read isJson o m).2
        = (concatArrayBuffer ((heldBy sources object.body).map Delivered.binary)).elim .failed
          fun bytes => if m = .json ∧ isJson (lossyUtf8 bytes) = false then .failed
            else .content bytes := by
  cases body : object.body with
  | none =>
    refine ⟨sources, fun _ _ _ => rfl, rfl, rfl, ?_⟩
    rw [Bodies.read, found]
    simp only [body]
    exact ⟨inv.holds, rfl, rfl⟩
  | some stream =>
    obtain ⟨k, inside, rfl⟩ := (inv.objects o object found).place stream body
    have chunks : sources[k]? = some (sources.getD k []) := by
      rw [List.getD_eq_getElem _ _ inside, List.getElem?_eq_getElem inside]
    obtain ⟨given, after⟩ := inv.holds.drain chunks
    refine ⟨sources.set k [], ?_, ?_, List.length_set, ?_⟩
    · intro other differs ok
      cases place : other.body with
      | none => rfl
      | some stream =>
        obtain ⟨j, within, rfl⟩ := ok.place stream place
        have apart : k ≠ j := fun same => differs (by rw [place, same])
        rw [← place, heldBy_of_stream place, heldBy_of_stream place, List.getD_eq_getElem?_getD,
          List.getElem?_set_ne apart, ← List.getD_eq_getElem?_getD]
    · rw [← body, heldBy_of_stream body, List.getD_eq_getElem?_getD, List.getElem?_set_self inside]
      rfl
    · rw [Bodies.read, found]
      have free : ((s.update o fun object => { object with bodyUsed := true, wasRead := true }).heap[
          2 * k + 1]?.map StreamCell.locked).getD false = false := inv.holds.unlocked chunks
      simp only [body, free, Bool.false_eq_true, if_false]
      refine ⟨after, rfl, ?_⟩
      rw [← body, heldBy_of_stream body]
      exact congrArg (fun chunks : List Delivered =>
        (concatArrayBuffer (chunks.map Delivered.binary)).elim _ _) given

theorem wouldRead_eq (inv : BodiesInv s sources) (found : s.objects[o]? = some object) :
    wouldRead isJson s o
      = concatArrayBuffer ((heldBy sources object.body).map Delivered.binary) := by
  obtain ⟨-, -, -, -, -, -, outcome⟩ := @read_eq isJson _ _ _ _ inv found .arrayBuffer
  rw [wouldRead, outcome]
  cases concatArrayBuffer ((heldBy sources object.body).map Delivered.binary) with
  | none => rfl
  | some bytes => simp

/-! ### New objects -/

/-- A new object on top of what is there. -/
theorem BodiesInv.push (inv : BodiesInv s sources) {heap : Heap} {more : List (List Delivered)}
    (holds : Holds heap (sources ++ more)) (fits : ObjectOk (sources ++ more) object)
    (fresh : ∀ stream, object.body = some stream → 2 * sources.length ≤ stream) :
    BodiesInv { heap, objects := s.objects ++ [object] } (sources ++ more) where
  holds := holds
  objects o other found := by
    rcases getElem?_snoc.mp found with old | ⟨-, rfl⟩
    · have ok := inv.objects o other old
      exact ok.congr (by rw [List.length_append]; omega) (heldBy_append ok.place more)
    · exact fits
  own o o' first second foundFirst foundSecond same present := by
    have apart : ∀ {p : Nat} {old : BodyObject}, s.objects[p]? = some old →
        old.body = object.body → old.body = none := by
      intro p old found same
      cases place : old.body with
      | none => rfl
      | some stream =>
        obtain ⟨k, inside, rfl⟩ := (inv.objects p old found).place stream place
        have new := fresh (2 * k + 1) (by rw [← same, place])
        omega
    rcases getElem?_snoc.mp foundFirst with oldFirst | ⟨rfl, rfl⟩
    · rcases getElem?_snoc.mp foundSecond with oldSecond | ⟨rfl, rfl⟩
      · exact inv.own o o' first second oldFirst oldSecond same present
      · exact (present (apart oldFirst same)).elim
    · rcases getElem?_snoc.mp foundSecond with oldSecond | ⟨rfl, rfl⟩
      · exact (present (same.trans (apart oldSecond same.symm))).elim
      · rfl

/-- The object that a constructor makes of a value. -/
def newObject (kind : Kind) (init : BodyInit) (stream : Nat) : BodyObject :=
  match init with
  | .none => ⟨kind, none, none, false, false⟩
  | _ => ⟨kind, if init.rebuildable then some init else none, some stream, false, false⟩

theorem newObject_bodyInit {kind : Kind} {init : BodyInit} {stream : Nat}
    (rebuildable : init.rebuildable = true) :
    (newObject kind init stream).bodyInit = some init := by
  cases init with
  | none | source chunks => cases rebuildable
  | string t | arrayBuffer bytes | view v | object bytes async => rfl

theorem construct_eq (s : Bodies) (kind : Kind) (init : BodyInit) :
    (s.construct kind init).2 = .made s.objects.length ∧
      (s.construct kind init).1.objects
        = s.objects ++ [newObject kind init (s.heap.length + 1)] := by
  cases init <;> exact ⟨rfl, rfl⟩

theorem construct_inv (inv : BodiesInv s sources) {kind : Kind} {init : BodyInit}
    (fine : kind = .request true → init.truthy = false) :
    ∃ sources', BodiesInv (s.construct kind init).1 sources' := by
  have length := inv.holds.length
  by_cases absent : init = .none
  · subst absent
    refine ⟨sources ++ [], inv.push (by rw [List.append_nil]; exact inv.holds) ?_ (by simp)⟩
    exact ⟨by simp, by simp, by simp, by simp⟩
  · have made : (s.construct kind init).1 = ⟨(openSource s.heap init.delivered).1,
        s.objects ++ [⟨kind, if init.rebuildable then some init else none,
          some (s.heap.length + 1), false, false⟩]⟩ := by
      cases init with
      | none => exact (absent rfl).elim
      | _ => rfl
    have last : heldBy (sources ++ [init.delivered]) (some (s.heap.length + 1)) = init.delivered := by
      have position : (s.heap.length + 1) / 2 = sources.length := by omega
      simp [heldBy, position]
    rw [made]
    refine ⟨_, inv.push (inv.holds.openSource init.delivered) ⟨?_, by simp, ?_, ?_⟩ ?_⟩
    · rintro stream ⟨⟩
      exact ⟨sources.length, by simp, by rw [length]⟩
    · intro _ kept eq
      obtain ⟨-, same⟩ := Option.ite_none_right_eq_some.mp eq
      obtain rfl := Option.some.inj same
      exact last
    · intro kept eq
      obtain ⟨rebuildable, same⟩ := Option.ite_none_right_eq_some.mp eq
      obtain rfl := Option.some.inj same
      exact ⟨rebuildable, fine⟩
    · rintro stream ⟨⟩
      omega

theorem make_inv (inv : BodiesInv s sources) (kind : Kind) (init : BodyInit) :
    ∃ sources', BodiesInv (s.make kind init).1 sources' := by
  rw [Bodies.make]
  split
  · exact ⟨sources, inv⟩
  · next allowed =>
    exact construct_inv inv fun kind => by simpa [kind] using allowed

/-! ### Steps -/

theorem getElem?_modify_eq_some {objects : List BodyObject} {f : BodyObject → BodyObject} {p : Nat}
    {new : BodyObject} (found : (objects.modify o f)[p]? = some new) :
    ∃ old, objects[p]? = some old ∧ new = if o = p then f old else old := by
  rw [List.getElem?_modify] at found
  obtain ⟨old, known, rfl⟩ := Option.map_eq_some_iff.mp found
  refine ⟨old, known, ?_⟩
  split <;> rfl

theorem mark_inv (inv : BodiesInv s sources) (o : Nat) :
    BodiesInv (s.update o fun object => { object with bodyUsed := true }) sources where
  holds := inv.holds
  objects p new found := by
    obtain ⟨old, known, rfl⟩ := getElem?_modify_eq_some found
    have ok := inv.objects p old known
    split
    · exact ⟨ok.place, fun done => ⟨rfl, (ok.read done).2⟩, ok.unread, ok.init⟩
    · exact ok
  own p q first second foundFirst foundSecond same present := by
    obtain ⟨old, known, rfl⟩ := getElem?_modify_eq_some foundFirst
    obtain ⟨other, knownOther, rfl⟩ := getElem?_modify_eq_some foundSecond
    refine inv.own p q old other known knownOther ?_ ?_
    · split at same <;> split at same <;> exact same
    · split at present <;> exact present

theorem read_inv (inv : BodiesInv s sources) (o : Nat) (m : Method) :
    ∃ sources', BodiesInv (s.read isJson o m).1 sources' := by
  cases found : s.objects[o]? with
  | none =>
    rw [Bodies.read, found]
    exact ⟨sources, inv⟩
  | some object =>
    obtain ⟨sources', others, empty, length, holds, objects, -⟩ :=
      @read_eq isJson _ _ _ _ inv found m
    refine ⟨sources', holds, ?_, ?_⟩
    · intro p new foundNew
      rw [objects] at foundNew
      obtain ⟨old, known, rfl⟩ := getElem?_modify_eq_some foundNew
      have ok := inv.objects p old known
      split
      · next same =>
        subst same
        obtain rfl : object = old := Option.some.inj (found.symm.trans known)
        refine ⟨?_, fun _ => ⟨rfl, empty⟩, by simp, ok.init⟩
        rw [length]
        exact ok.place
      · next differs =>
        by_cases absent : old.body = none
        · exact ok.congr length.ge (by rw [absent]; rfl)
        · have apart : old.body ≠ object.body := fun same =>
            differs (inv.own p o old object known found same absent).symm
          exact ok.congr length.ge (others old apart ok)
    · intro p q first second foundFirst foundSecond same present
      rw [objects] at foundFirst foundSecond
      obtain ⟨old, known, rfl⟩ := getElem?_modify_eq_some foundFirst
      obtain ⟨other, knownOther, rfl⟩ := getElem?_modify_eq_some foundSecond
      refine inv.own p q old other known knownOther ?_ ?_
      · split at same <;> split at same <;> exact same
      · split at present <;> exact present

/-- Cloning an object whose body is not used constructs another one of the value it keeps. -/
theorem clone_eq (inv : BodiesInv s sources) (found : s.objects[o]? = some object)
    (unused : object.bodyUsed = false) (proper : (BodyOp.clone o).Proper s) :
    ∃ init, s.clone o = s.construct object.kind init ∧
      (object.kind = .request true → init.truthy = false) ∧
      (object.bodyInit = some init ∨ object.body = none ∧ object.bodyInit = none ∧ init = .none) := by
  have ok := inv.objects o object found
  have make : ∀ init : BodyInit, (object.kind = .request true → init.truthy = false) →
      s.make object.kind init = s.construct object.kind init := by
    intro init fine
    rw [Bodies.make, if_neg]
    rintro ⟨kind, truthy⟩
    rw [fine kind] at truthy
    cases truthy
  cases kept : object.bodyInit with
  | some init =>
    refine ⟨init, ?_, (ok.init init kept).2, .inl rfl⟩
    rw [← make init (ok.init init kept).2, Bodies.clone, found]
    simp only [unused, Bool.false_eq_true, if_false, kept]
    cases object.kind <;> rfl
  | none =>
    have absent : object.body = none := by
      rcases proper object found with used | absent | kept'
      · rw [unused] at used
        cases used
      · exact absent
      · exact (kept' kept).elim
    refine ⟨.none, ?_, fun _ => rfl, .inr ⟨absent, rfl, rfl⟩⟩
    rw [← make .none fun _ => rfl, Bodies.clone, found]
    simp only [unused, Bool.false_eq_true, if_false, kept, absent]
    cases object.kind <;> rfl

theorem clone_of_used (found : s.objects[o]? = some object) (used : object.bodyUsed = true) :
    s.clone o = (s, .failed) := by
  rw [Bodies.clone, found]
  exact if_pos used

/-- Every proper step keeps the invariant. -/
theorem step_inv (inv : BodiesInv s sources) (op : BodyOp) (proper : op.Proper s) :
    ∃ sources', BodiesInv (bodyStep isJson s op) sources' := by
  cases op with
  | clone o =>
    change ∃ sources', BodiesInv (s.clone o).1 sources'
    cases found : s.objects[o]? with
    | none =>
      rw [Bodies.clone, found]
      exact ⟨sources, inv⟩
    | some object =>
      cases used : object.bodyUsed with
      | true =>
        rw [clone_of_used found used]
        exact ⟨sources, inv⟩
      | false =>
        obtain ⟨init, made, fine, -⟩ := clone_eq inv found used proper
        rw [made]
        exact construct_inv inv fine
  | constructFrom o getOrHead body =>
    change ∃ sources', BodiesInv (s.constructFrom o getOrHead body).1 sources'
    rw [Bodies.constructFrom]
    split
    · exact ⟨sources, inv⟩
    · split
      · exact ⟨sources, inv⟩
      · split
        · exact make_inv (mark_inv inv o) _ _
        · exact make_inv inv _ _
  | read o m => exact read_inv inv o m
  | pull i => exact ⟨sources, inv.holds.pull i, inv.objects, inv.own⟩

/-! ### What every step keeps of an object -/

/-- The objects keep their bodies and the values these were made of. -/
def Bodies.Keeps (s s' : Bodies) : Prop :=
  ∀ (o : Nat) object, s.objects[o]? = some object → ∃ later, s'.objects[o]? = some later ∧
    later.body = object.body ∧ later.bodyInit = object.bodyInit

theorem Bodies.Keeps.refl (s : Bodies) : s.Keeps s := fun _ object found => ⟨object, found, rfl, rfl⟩

theorem Bodies.Keeps.trans {t : Bodies} (first : s.Keeps s') (second : s'.Keeps t) : s.Keeps t := by
  intro o object found
  obtain ⟨middle, foundMiddle, body, kept⟩ := first o object found
  obtain ⟨last, foundLast, body', kept'⟩ := second o middle foundMiddle
  exact ⟨last, foundLast, body'.trans body, kept'.trans kept⟩

theorem keeps_append {new : BodyObject} (eq : s'.objects = s.objects ++ [new]) : s.Keeps s' := by
  intro o object found
  obtain ⟨inside, -⟩ := List.getElem?_eq_some_iff.mp found
  exact ⟨object, by rw [eq, List.getElem?_append_left inside, found], rfl, rfl⟩

theorem keeps_modify (f : BodyObject → BodyObject) (eq : s'.objects = s.objects.modify o f)
    (same : ∀ object, (f object).body = object.body ∧ (f object).bodyInit = object.bodyInit) :
    s.Keeps s' := by
  intro p object found
  refine ⟨if o = p then f object else object, ?_, ?_⟩
  · rw [eq, List.getElem?_modify, found]
    change some _ = _
    split <;> rfl
  · split
    · exact same object
    · exact ⟨rfl, rfl⟩

theorem make_keeps (s : Bodies) (kind : Kind) (init : BodyInit) : s.Keeps (s.make kind init).1 := by
  rw [Bodies.make]
  split
  · exact .refl s
  · exact keeps_append (construct_eq s kind init).2

theorem clone_keeps (s : Bodies) (o : Nat) : s.Keeps (s.clone o).1 := by
  rw [Bodies.clone]
  split
  · exact .refl s
  · split
    · exact .refl s
    · split
      · exact make_keeps _ _ _
      · exact make_keeps _ _ _
      · exact make_keeps _ _ _
      · split
        · exact .refl s
        · split
          · exact fun _ object found => ⟨object, found, rfl, rfl⟩
          · exact keeps_append rfl

theorem constructFrom_keeps (s : Bodies) (o : Nat) (getOrHead : Bool) (body : BodyInit) :
    s.Keeps (s.constructFrom o getOrHead body).1 := by
  rw [Bodies.constructFrom]
  split
  · exact .refl s
  · split
    · exact .refl s
    · split
      · exact .trans (keeps_modify (fun object => { object with bodyUsed := true }) rfl
          fun _ => ⟨rfl, rfl⟩) (make_keeps _ _ _)
      · exact make_keeps _ _ _

theorem read_keeps (s : Bodies) (o : Nat) (m : Method) : s.Keeps (s.read isJson o m).1 := by
  rw [Bodies.read]
  split
  · exact .refl s
  · split
    · exact keeps_modify _ rfl fun _ => ⟨rfl, rfl⟩
    · dsimp only
      split
      · exact keeps_modify _ rfl fun _ => ⟨rfl, rfl⟩
      · exact keeps_modify _ rfl fun _ => ⟨rfl, rfl⟩

theorem step_keeps (s : Bodies) (op : BodyOp) : s.Keeps (bodyStep isJson s op) := by
  cases op with
  | clone o => exact clone_keeps s o
  | constructFrom o getOrHead body => exact constructFrom_keeps s o getOrHead body
  | read o m => exact read_keeps s o m
  | pull i => exact fun _ object found => ⟨object, found, rfl, rfl⟩

end Objects

/-! ## Runs -/

section Runs

variable {isJson : Text → Bool} {s : Bodies} {ops : List BodyOp}

theorem run_inv (inv : ∃ sources, BodiesInv s sources)
    (proper : Along (bodyStep isJson) BodyOp.Proper s ops) :
    ∃ sources, BodiesInv (runFrom (bodyStep isJson) s ops) sources :=
  run_invariant_along (I := fun s => ∃ sources, BodiesInv s sources)
    (fun _ op ⟨_, inv⟩ => step_inv inv op) ops s inv proper

theorem run_keeps (s : Bodies) (ops : List BodyOp) : s.Keeps (runFrom (bodyStep isJson) s ops) :=
  run_invariant (fun _ op keeps => keeps.trans (step_keeps _ op)) ops s (.refl s)

theorem start_inv (kind : Kind) (init : BodyInit) :
    ∃ sources, BodiesInv (start kind init) sources := by
  have inv : BodiesInv Bodies.empty [] := ⟨holds_empty, by simp [Bodies.empty], by simp [Bodies.empty]⟩
  exact make_inv inv kind init

/-- What an object gives as long as it is not read. -/
theorem wouldRead_of_unread {o : Nat} {object : BodyObject} {chunks : List Delivered}
    (found : s.objects[o]? = some object) (fixed : Fixed object chunks)
    (proper : Along (bodyStep isJson) BodyOp.Proper s ops) (inv : ∃ sources, BodiesInv s sources)
    (unread : Unread (runFrom (bodyStep isJson) s ops) o) :
    wouldRead isJson (runFrom (bodyStep isJson) s ops) o
      = concatArrayBuffer (chunks.map Delivered.binary) := by
  obtain ⟨sources, inv⟩ := run_inv inv proper
  obtain ⟨later, foundLater, body, kept⟩ := @run_keeps isJson s ops o object found
  obtain ⟨_, same, fresh⟩ := unread
  obtain rfl := Option.some.inj (foundLater.symm.trans same)
  have fixedLater : Fixed later chunks := by
    rw [Fixed, body, kept]
    exact fixed
  rw [wouldRead_eq inv foundLater, (inv.objects o later foundLater).heldBy_eq fresh fixedLater]

/-- A proper clone of an object whose body is not used. -/
theorem clone_ok {o : Nat} {object : BodyObject} {later : List BodyOp}
    (inv : ∃ sources, BodiesInv s sources) (found : s.objects[o]? = some object)
    (unused : object.bodyUsed = false)
    (proper : Along (bodyStep isJson) BodyOp.Proper s (.clone o :: later)) :
    ∃ c, (call isJson s (.clone o)).2 = .made c ∧ s.CloneOk isJson o c later := by
  obtain ⟨sources, here⟩ := inv
  obtain ⟨init, made, -, source⟩ := clone_eq here found unused proper.1
  obtain ⟨outcome, objects⟩ := construct_eq s object.kind init
  have fixed : Fixed object init.delivered := by
    rcases source with kept | ⟨absent, -, rfl⟩
    · exact .inl ⟨init, kept, rfl⟩
    · exact .inr ⟨absent, rfl⟩
  have fixedClone : Fixed (newObject object.kind init (s.heap.length + 1)) init.delivered := by
    rcases source with kept | ⟨-, -, rfl⟩
    · obtain ⟨rebuildable, -⟩ := (here.objects o object found).init init kept
      exact .inl ⟨init, newObject_bodyInit rebuildable, rfl⟩
    · exact .inr ⟨rfl, rfl⟩
  have unread : object.wasRead = false := by
    by_contra done
    rw [((here.objects o object found).read (by simpa using done)).1] at unused
    cases unused
  have now : wouldRead isJson s o = concatArrayBuffer (init.delivered.map Delivered.binary) := by
    rw [wouldRead_eq here found, (here.objects o object found).heldBy_eq unread fixed]
  have after : bodyStep isJson s (.clone o) = (s.construct object.kind init).1 :=
    congrArg Prod.fst made
  have next := @step_inv isJson _ _ here (.clone o) proper.1
  obtain ⟨inside, -⟩ := List.getElem?_eq_some_iff.mp found
  have foundAfter : (bodyStep isJson s (.clone o)).objects[o]? = some object := by
    rw [after, objects, List.getElem?_append_left inside, found]
  have foundClone : (bodyStep isJson s (.clone o)).objects[s.objects.length]?
      = some (newObject object.kind init (s.heap.length + 1)) := by
    rw [after, objects, List.getElem?_append_right (Nat.le_refl _), Nat.sub_self]
    rfl
  refine ⟨s.objects.length, ?_, foundAfter.trans found.symm, ?_, ?_⟩
  · exact (congrArg Prod.snd made).trans outcome
  · intro fresh
    rw [now]
    exact wouldRead_of_unread foundClone fixedClone proper.2 next fresh
  · intro fresh
    rw [now]
    exact wouldRead_of_unread foundAfter fixed proper.2 next fresh

/-- Nothing more comes of an object that was read. -/
theorem again_fails (emptyText : isJson [] = false) (inv : ∃ sources, BodiesInv s sources)
    {op : BodyOp} (proper : op.Proper s) (again : op.Again s) : (call isJson s op).2 = .failed := by
  obtain ⟨sources, inv⟩ := inv
  cases op with
  | clone o =>
    obtain ⟨object, found, done⟩ := again
    exact congrArg Prod.snd (clone_of_used found ((inv.objects o object found).read done).1)
  | read o m =>
    obtain ⟨object, found, done⟩ := again
    obtain rfl := proper object found done
    obtain ⟨-, -, -, -, -, -, outcome⟩ := @read_eq isJson _ _ _ _ inv found .json
    refine outcome.trans ?_
    rw [((inv.objects o object found).read done).2]
    exact if_pos ⟨rfl, emptyText⟩
  | constructFrom o getOrHead body => exact again.elim
  | pull i => exact again.elim

/-- Clones give what the original gives, and what was read is spent, in every run that clones no
stream and reads nothing twice other than as JSON. -/
theorem bodyContract (emptyText : isJson [] = false) (kind : Kind) (init : BodyInit)
    (proper : Along (bodyStep isJson) BodyOp.Proper (start kind init) ops) :
    BodyContract isJson (start kind init) ops where
  clones before o later after split object found unused := by
    subst split
    rw [along_append, ← List.cons_append, along_append] at proper
    exact clone_ok (run_inv (start_inv kind init) proper.1) found unused proper.2.1
  once before op after split again := by
    subst split
    rw [along_append] at proper
    exact again_fails emptyText (run_inv (start_inv kind init) proper.1) proper.2.1 again

/-- A request with the body `1` is cloned and read, and both are read as JSON afterwards. -/
theorem bodyContract_json :
    BodyContract (· == ['1']) (start (.request false) (.string ['1']))
      [.clone 0, .read 0 .text, .read 0 .json, .read 1 .json] := by
  refine bodyContract rfl (.request false) (.string ['1']) ⟨?_, ?_, ?_, ?_, trivial⟩
  · rintro object ⟨⟩
    exact .inr (.inr nofun)
  · rintro object ⟨⟩ ⟨⟩
  · rintro object ⟨⟩ _
    rfl
  · rintro object ⟨⟩ ⟨⟩

/-- A text that is read again is empty, and the clone of a response with a stream has no body. -/
theorem body_lost :
    ¬BodyContract (· == ['1']) (start (.request false) (.string ['1']))
        [.read 0 .text, .read 0 .text] ∧
      ¬BodyContract (· == ['1']) (start .response (.source [.string ['1']])) [.clone 0] := by
  constructor
  · intro contract
    have outcome := contract.once [.read 0 .text] (.read 0 .text) [] rfl ⟨_, rfl, rfl⟩
    exact absurd outcome (by decide)
  · intro contract
    obtain ⟨c, made, -, clone, -⟩ := contract.clones [] 0 [] [] rfl _ rfl rfl
    obtain rfl : 1 = c := by cases made; rfl
    exact absurd (clone ⟨_, rfl, rfl⟩) (by decide)

end Runs

end QjsLws.Body
