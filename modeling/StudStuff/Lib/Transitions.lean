import Mathlib.Data.Fintype.EquivFin
import Mathlib.Logic.Relation
import Mathlib.Order.WellFounded

/-!
# Runs of transition systems

A transition system is a relation between states. What holds at the start and is kept by every step
holds in every state that is reached (`holds_of_reaches`). Where every step makes a measure smaller,
no run goes on for ever (`not_infinite_run`). Where every step is a step of another system, or
nothing at all there, so is every run (`reaches_of_simulation`). In a finite set of states each of
which comes after another one of the set, every state comes after a cycle (`exists_cycle_behind`).
-/

set_option autoImplicit false
set_option relaxedAutoImplicit false

namespace StudStuff.Lib

section Runs

variable {σ : Type*} {step : σ → σ → Prop} {property : σ → Prop} {start s : σ} {run : ℕ → σ}

/-- The rule of the invariant. The steps are those of states that are reached. -/
theorem holds_of_reaches (hstart : property start)
    (hstep : ∀ s s', Relation.ReflTransGen step start s → property s → step s s' → property s')
    (h : Relation.ReflTransGen step start s) : property s := by
  induction h with
  | refl => exact hstart
  | tail hreaches hlast ih => exact hstep _ _ hreaches ih hlast

/-- The states of a run are reached. -/
theorem reaches_of_run (hrun : ∀ n, step (run n) (run (n + 1))) (n : ℕ) :
    Relation.ReflTransGen step (run 0) (run n) := by
  induction n with
  | zero => exact .refl
  | succ n ih => exact ih.tail (hrun n)

/-- The rule of the variant. -/
theorem not_infinite_run (measure : σ → ℕ)
    (hless : ∀ s s', Relation.ReflTransGen step start s → step s s' → measure s' < measure s) :
    ¬∃ run : ℕ → σ, run 0 = start ∧ ∀ n, step (run n) (run (n + 1)) := by
  rintro ⟨run, rfl, hrun⟩
  obtain ⟨n, hn⟩ := WellFounded.not_rel_apply_succ (r := (· < ·)) fun n ↦ measure (run n)
  exact hn (hless _ _ (reaches_of_run hrun n) (hrun n))

/-- The rule of the simulation, with steps that the other system does not see. -/
theorem reaches_of_simulation {τ : Type*} {abstractStep : τ → τ → Prop} (view : σ → τ)
    (hsimulates : ∀ s s', Relation.ReflTransGen step start s → step s s' →
      view s' = view s ∨ abstractStep (view s) (view s'))
    (h : Relation.ReflTransGen step start s) :
    Relation.ReflTransGen abstractStep (view start) (view s) := by
  induction h with
  | refl => exact .refl
  | tail hreaches hlast ih =>
    rcases hsimulates _ _ hreaches hlast with hsame | hstep
    · rw [hsame]
      exact ih
    · exact ih.tail hstep

/-- Going back within a finite set without end leads to a cycle. -/
theorem exists_cycle_behind {members : σ → Prop} [Finite {s // members s}]
    (hback : ∀ s, members s → ∃ before, members before ∧ step before s) (hs : members s) :
    ∃ state, Relation.TransGen step state state ∧ Relation.ReflTransGen step state s := by
  by_contra hnone
  rw [not_exists] at hnone
  -- What comes before `s` would be well-founded, but has no first state.
  let Earlier : Type _ := {state : {s // members s} // Relation.ReflTransGen step state.1 s}
  have : IsTrans Earlier fun a b ↦ Relation.TransGen step a.1.1 b.1.1 :=
    ⟨fun _ _ _ ↦ Relation.TransGen.trans⟩
  have : Std.Irrefl fun a b : Earlier ↦ Relation.TransGen step a.1.1 b.1.1 :=
    ⟨fun state hcycle ↦ hnone state.1.1 ⟨hcycle, state.2⟩⟩
  have hfounded : WellFounded fun a b : Earlier ↦ Relation.TransGen step a.1.1 b.1.1 :=
    Finite.wellFounded_of_trans_of_irrefl _
  obtain ⟨first, -, hfirst⟩ := hfounded.has_min Set.univ ⟨⟨⟨s, hs⟩, .refl⟩, trivial⟩
  obtain ⟨before, hmember, hstep⟩ := hback first.1.1 first.1.2
  exact hfirst ⟨⟨before, hmember⟩, .head hstep first.2⟩ trivial (.single hstep)

end Runs

end StudStuff.Lib
