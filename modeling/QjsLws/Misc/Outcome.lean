/-!
# Outcomes of calls that may throw

A synchronous call leaves a state behind and may throw. What it did before the throw stays done.
-/

namespace QjsLws.Misc

variable {σ τ ε : Type}

/-- The state after a call, and the exception it ended with. -/
structure Outcome (ε σ : Type) where
  state : σ
  thrown : Option ε
  deriving DecidableEq, Repr

namespace Outcome

/-- A call that returns. -/
def done (s : σ) : Outcome ε σ := ⟨s, none⟩

/-- A call that throws. -/
def threw (e : ε) (s : σ) : Outcome ε σ := ⟨s, some e⟩

/-- `f` continues where the call returned; a throw skips it. -/
def andThen (o : Outcome ε σ) (f : σ → Outcome ε σ) : Outcome ε σ :=
  match o.thrown with
  | none => f o.state
  | some _ => o

@[simp] theorem done_state (s : σ) : (done s : Outcome ε σ).state = s := rfl
@[simp] theorem done_thrown (s : σ) : (done s : Outcome ε σ).thrown = none := rfl
@[simp] theorem threw_state (e : ε) (s : σ) : (threw e s).state = s := rfl
@[simp] theorem threw_thrown (e : ε) (s : σ) : (threw e s).thrown = some e := rfl

@[simp] theorem done_andThen (s : σ) (f : σ → Outcome ε σ) : (done s).andThen f = f s := rfl
@[simp] theorem threw_andThen (e : ε) (s : σ) (f : σ → Outcome ε σ) :
    (threw e s).andThen f = threw e s := rfl

theorem andThen_of_thrown {o : Outcome ε σ} {f : σ → Outcome ε σ} (threw : o.thrown ≠ none) :
    o.andThen f = o := by
  rcases o with ⟨s, _ | e⟩
  · exact absurd rfl threw
  · rfl

/-- `ok` holds where the call returned, `err` where it threw. -/
def Sat (ok err : σ → Prop) (o : Outcome ε σ) : Prop :=
  match o.thrown with
  | none => ok o.state
  | some _ => err o.state

@[simp] theorem sat_done {ok err : σ → Prop} {s : σ} : (done s : Outcome ε σ).Sat ok err ↔ ok s :=
  Iff.rfl

@[simp] theorem sat_threw {ok err : σ → Prop} {e : ε} {s : σ} : (threw e s).Sat ok err ↔ err s :=
  Iff.rfl

/-- The rule for a sequence of two calls. -/
theorem Sat.andThen {M ok err : σ → Prop} {o : Outcome ε σ} {f : σ → Outcome ε σ}
    (first : o.Sat M err) (next : ∀ s, M s → (f s).Sat ok err) : (o.andThen f).Sat ok err := by
  rcases o with ⟨s, _ | e⟩
  · exact next s first
  · exact first

/-- The rule of consequence. -/
theorem Sat.imp {ok ok' err err' : σ → Prop} {o : Outcome ε σ} (sat : o.Sat ok err)
    (okay : ∀ s, ok s → ok' s) (fails : ∀ s, err s → err' s) : o.Sat ok' err' := by
  rcases o with ⟨s, _ | e⟩
  · exact okay s sat
  · exact fails s sat

/-- What holds either way holds of the state left behind. -/
theorem Sat.state {inv : σ → Prop} {o : Outcome ε σ} (sat : o.Sat inv inv) : inv o.state := by
  rcases o with ⟨s, _ | e⟩ <;> exact sat

end Outcome

end QjsLws.Misc
