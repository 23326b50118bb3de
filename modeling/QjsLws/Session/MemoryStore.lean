import QjsLws.Misc.Assoc
import QjsLws.Misc.Text

/-!
# MemoryStore

Model of `MemoryStore` (`lib/lws/session.js`). The methods are `async` but do their work before
they return, so each is one step; `now` is what `Date.now()` gives it. Session ids are numbers,
and `ν` is the type of the JSON values.
-/

namespace QjsLws.Session

open QjsLws.Misc

/-- The data of a session as stores see it: a plain object of JSON values. -/
abbrev SessionData (ν : Type) := Assoc Text ν

/-- An entry of `#map`. -/
structure StoreEntry (ν : Type) where
  data : SessionData ν
  expires : Nat

/-- The class `MemoryStore`. -/
structure MemoryStore (ν : Type) where
  map : Assoc Nat (StoreEntry ν)

namespace MemoryStore

variable {ν : Type}

/-- `new MemoryStore()`. -/
def empty : MemoryStore ν := ⟨.empty⟩

/-- `get`: the data, and the store without an entry that has expired. -/
def get (store : MemoryStore ν) (now sid : Nat) : Option (SessionData ν) × MemoryStore ν :=
  match store.map.get sid with
  | none => (none, store)
  | some entry =>
    if entry.expires ≤ now then (none, ⟨store.map.erase sid⟩) else (some entry.data, store)

/-- `set`. -/
def set (store : MemoryStore ν) (now sid : Nat) (data : SessionData ν) (ttlMs : Nat) :
    MemoryStore ν := ⟨store.map.set sid ⟨data, now + ttlMs⟩⟩

/-- `destroy`. -/
def destroy (store : MemoryStore ν) (sid : Nat) : MemoryStore ν := ⟨store.map.erase sid⟩

/-- `touch`. -/
def touch (store : MemoryStore ν) (now sid ttlMs : Nat) : MemoryStore ν :=
  match store.map.get sid with
  | none => store
  | some entry => ⟨store.map.set sid { entry with expires := now + ttlMs }⟩

/-- What is kept under an id, expired or not. -/
def kept (store : MemoryStore ν) (sid : Nat) : Option (SessionData ν) :=
  (store.map.get sid).map (·.data)

@[simp] theorem kept_empty (sid : Nat) : (empty : MemoryStore ν).kept sid = none := rfl

theorem kept_set (store : MemoryStore ν) (now sid sid' ttlMs : Nat) (data : SessionData ν) :
    (store.set now sid data ttlMs).kept sid' = if sid = sid' then some data else store.kept sid' := by
  unfold kept set
  rw [Assoc.get_set]
  split <;> rfl

theorem kept_destroy (store : MemoryStore ν) (sid sid' : Nat) :
    (store.destroy sid).kept sid' = if sid = sid' then none else store.kept sid' := by
  unfold kept destroy
  rw [Assoc.get_erase]
  split <;> rfl

theorem kept_touch (store : MemoryStore ν) (now sid sid' ttlMs : Nat) :
    (store.touch now sid ttlMs).kept sid' = store.kept sid' := by
  unfold touch
  cases found : store.map.get sid with
  | none => rfl
  | some entry =>
    unfold kept
    simp only [Assoc.get_set]
    split
    · rename_i same
      rw [← same, found]
      rfl
    · rfl

/-- `get` hands out only what is kept. -/
theorem kept_of_get {store : MemoryStore ν} {now sid : Nat} {data : SessionData ν}
    (got : (store.get now sid).1 = some data) : store.kept sid = some data := by
  unfold get at got
  unfold kept
  split at got
  · cases got
  · rename_i entry found
    rw [found]
    split at got
    · cases got
    · exact got

/-- `get` drops entries but adds none. -/
theorem kept_get {store : MemoryStore ν} {now sid sid' : Nat} {data : SessionData ν}
    (found : (store.get now sid).2.kept sid' = some data) : store.kept sid' = some data := by
  unfold get at found
  split at found
  · exact found
  · split at found
    · rw [show (⟨store.map.erase sid⟩ : MemoryStore ν) = store.destroy sid from rfl,
        kept_destroy] at found
      split at found
      · cases found
      · exact found
    · exact found

end MemoryStore

end QjsLws.Session
