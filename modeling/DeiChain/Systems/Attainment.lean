import DeiChain.Systems.Run

namespace Systems

universe u v

variable {State : Type u} {Event : Type v} {step : State → Event → Option State}
  {origin start : State}

/-! # Goals that stay within reach

A goal that some steps lead to from wherever a run is. The steps that lead there
may be fewer than those of the run.
-/

/-- While the goal is not met, some steps bring it closer. -/
theorem Reaches.descend (invariant goal : State → Prop) (distance : State → Nat)
    (closer : ∀ state, invariant state → ¬ goal state →
      ∃ next, Reaches step state next ∧ invariant next ∧ distance next < distance state)
    (initial : invariant start) : ∃ final, Reaches step start final ∧ invariant final ∧ goal final := by
  induction measured : distance start using Nat.strongRecOn generalizing start with
  | ind left ih =>
      by_cases met : goal start
      · exact ⟨start, .refl start, initial, met⟩
      · obtain ⟨next, taken, held, less⟩ := closer start initial met
        obtain ⟨final, further, rest⟩ := ih (distance next) (measured ▸ less) held rfl
        exact ⟨final, taken.trans further, rest⟩

theorem Reaches.of_guarded {check : State → Event → Bool} {final : State}
    (reached : Reaches (guarded step check) start final) : Reaches step start final :=
  let ⟨trace, run⟩ := reached
  ⟨trace, run.of_guarded.1⟩

/-- Wherever a run is, as long as it has not lost what is needed, steps that pass
the check can still meet the goal. -/
def Recoverable (step : State → Event → Option State) (check : State → Event → Bool) (origin : State)
    (alive goal : State → Prop) : Prop :=
  ∀ state, Reaches step origin state → alive state →
    ∃ final, Reaches (guarded step check) state final ∧ goal final

/-- A round that leaves the goal met or nearer. -/
theorem Recoverable.of_round {check : State → Event → Bool} {alive goal : State → Prop}
    (distance : State → Nat)
    (round : ∀ state, Reaches step origin state → alive state → ¬ goal state →
      ∃ next, Reaches (guarded step check) state next ∧ alive next ∧ distance next < distance state) :
    Recoverable step check origin alive goal := by
  intro state reached living
  obtain ⟨final, further, _, met⟩ := Reaches.descend (fun state => Reaches step origin state ∧ alive state)
    goal distance (fun state ⟨reached, living⟩ unmet =>
      let ⟨next, taken, still, less⟩ := round state reached living unmet
      ⟨next, taken, ⟨reached.trans taken.of_guarded, still⟩, less⟩) ⟨reached, living⟩
  exact ⟨final, further, met⟩

end Systems
