import Mathlib.Logic.Relation

/-!
# Forests kept as lists

Nodes are known by their position in a list and name their parent, which comes before them. An
invariant of such a forest is a condition on every node and a condition on every edge; the rules
below say what adding a node and replacing a node have to show.
-/

namespace QjsLws.Misc.Forest

variable {τ : Type} (parent : τ → Option Nat)

/-- The node at `c` names `p` as its parent. -/
def Child (l : List τ) (p c : Nat) : Prop := ∃ t, l[c]? = some t ∧ parent t = some p

/-- The second node is the first one or below it. -/
def Below (l : List τ) : Nat → Nat → Prop := Relation.ReflTransGen (Child parent l)

/-- Every node meets `node`, comes after its parent and meets `edge` with it. -/
structure Holds (node : Nat → τ → Prop) (edge : Nat → τ → Nat → τ → Prop) (l : List τ) : Prop where
  node : ∀ i t, l[i]? = some t → node i t
  edge : ∀ c t p, l[c]? = some t → parent t = some p → p < c ∧ ∀ u, l[p]? = some u → edge p u c t

variable {parent} {node node' : Nat → τ → Prop} {edge edge' : Nat → τ → Nat → τ → Prop} {l : List τ}

theorem Holds.mono (holds : Holds parent node edge l) (nodes : ∀ i t, node i t → node' i t)
    (edges : ∀ p u c t, edge p u c t → edge' p u c t) : Holds parent node' edge' l := by
  refine ⟨fun i t found => nodes i t (holds.node i t found), ?_⟩
  intro c t p found named
  obtain ⟨before, meets⟩ := holds.edge c t p found named
  exact ⟨before, fun u above => edges p u c t (meets u above)⟩

theorem Holds.parent_exists (holds : Holds parent node edge l) {c p : Nat} {t : τ}
    (found : l[c]? = some t) (named : parent t = some p) :
    p < c ∧ ∃ u, l[p]? = some u ∧ edge p u c t := by
  obtain ⟨before, meets⟩ := holds.edge c t p found named
  have inside : p < l.length := Nat.lt_trans before (List.getElem?_eq_some_iff.mp found).1
  exact ⟨before, l[p], List.getElem?_eq_getElem inside, meets _ (List.getElem?_eq_getElem inside)⟩

theorem Holds.push (holds : Holds parent node edge l) {t : τ} (own : node l.length t)
    (up : ∀ p, parent t = some p → p < l.length ∧ ∀ u, l[p]? = some u → edge p u l.length t) :
    Holds parent node edge (l ++ [t]) := by
  have earlier : ∀ i u, (l ++ [t])[i]? = some u → l[i]? = some u ∨ i = l.length ∧ u = t := by
    intro i u found
    rcases Nat.lt_trichotomy i l.length with old | new | beyond
    · rw [List.getElem?_append_left old] at found
      exact .inl found
    · subst new
      rw [List.getElem?_concat_length, Option.some.injEq] at found
      exact .inr ⟨rfl, found.symm⟩
    · rw [List.getElem?_eq_none (by simp; omega)] at found
      cases found
  refine ⟨?_, ?_⟩
  · intro i u found
    rcases earlier i u found with old | ⟨rfl, rfl⟩
    · exact holds.node i u old
    · exact own
  · intro c u p found named
    rcases earlier c u found with old | ⟨rfl, rfl⟩
    · obtain ⟨before, v, above, meets⟩ := holds.parent_exists old named
      refine ⟨before, ?_⟩
      intro w atParent
      rw [List.getElem?_append_left (List.getElem?_eq_some_iff.mp above).1, above,
        Option.some.injEq] at atParent
      exact atParent ▸ meets
    · obtain ⟨before, meets⟩ := up p named
      refine ⟨before, ?_⟩
      intro w atParent
      rw [List.getElem?_append_left before] at atParent
      exact meets w atParent

theorem Holds.put (holds : Holds parent node edge l) {i : Nat} {t t' : τ} (found : l[i]? = some t)
    (same : parent t' = parent t) (own : node i t')
    (up : ∀ p u, parent t = some p → l[p]? = some u → edge p u i t')
    (down : ∀ c u, l[c]? = some u → parent u = some i → edge i t' c u) :
    Holds parent node edge (l.set i t') := by
  have inside : i < l.length := (List.getElem?_eq_some_iff.mp found).1
  have read : ∀ j u, (l.set i t')[j]? = some u → i = j ∧ u = t' ∨ i ≠ j ∧ l[j]? = some u := by
    intro j u at'
    by_cases here : i = j
    · subst here
      rw [List.getElem?_set_self inside, Option.some.injEq] at at'
      exact .inl ⟨rfl, at'.symm⟩
    · rw [List.getElem?_set_ne here] at at'
      exact .inr ⟨here, at'⟩
  refine ⟨?_, ?_⟩
  · intro j u at'
    rcases read j u at' with ⟨rfl, rfl⟩ | ⟨-, old⟩
    · exact own
    · exact holds.node j u old
  · intro c u p at' named
    rcases read c u at' with ⟨rfl, rfl⟩ | ⟨-, old⟩
    · rw [same] at named
      obtain ⟨before, v, above, -⟩ := holds.parent_exists found named
      refine ⟨before, ?_⟩
      intro w atParent
      rcases read p w atParent with ⟨rfl, -⟩ | ⟨-, old⟩
      · exact absurd before (Nat.lt_irrefl _)
      · exact up p w named old
    · obtain ⟨before, meets⟩ := holds.edge c u p old named
      refine ⟨before, ?_⟩
      intro w atParent
      rcases read p w atParent with ⟨rfl, rfl⟩ | ⟨-, oldParent⟩
      · exact down c u old named
      · exact meets w oldParent

/-- What every edge passes down holds below a node that has it. -/
theorem Holds.passes_down (holds : Holds parent node edge l) {P : τ → Prop}
    (passes : ∀ p u c t, edge p u c t → P u → P t) {d i : Nat} {u t : τ} (below : Below parent l d i)
    (top : l[d]? = some u) (has : P u) (found : l[i]? = some t) : P t := by
  induction below generalizing t with
  | refl =>
    rw [top, Option.some.injEq] at found
    exact found ▸ has
  | tail _ child ih =>
    obtain ⟨t', at', named⟩ := child
    rw [at', Option.some.injEq] at found
    subst found
    obtain ⟨-, v, above, meets⟩ := holds.parent_exists at' named
    exact passes _ v _ t' meets (ih above)

end QjsLws.Misc.Forest
