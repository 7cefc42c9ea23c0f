import DeiChain.Systems.Run
import Mathlib.Algebra.BigOperators.Group.Finset.Basic
import Mathlib.Algebra.Order.BigOperators.Group.Finset

namespace Systems.Budget

universe u v

/-! # How much a run can still do

A quantity that no step raises, and that each step of some kind lowers, bounds
how often steps of that kind are taken. Such a quantity is mostly a sum over
processes of which a step moves one.
-/

section

variable {Index : Type u} {Value : Type v} {indices : Finset Index} {index : Index}

theorem sum_le_card_mul {most : Nat} (weight : Value → Nat) (bound : ∀ value, weight value ≤ most)
    (values : Index → Value) : ∑ other ∈ indices, weight (values other) ≤ indices.card * most := by
  have each := Finset.sum_le_card_nsmul indices (fun other => weight (values other)) most
    fun other _ => bound (values other)
  rwa [Nat.nsmul_eq_mul] at each

variable [DecidableEq Index] (weight : Value → Nat) (values : Index → Value) (value : Value)

theorem sum_moved (member : index ∈ indices) :
    ∑ other ∈ indices, weight (Function.update values index value other) + weight (values index) =
      ∑ other ∈ indices, weight (values other) + weight value := by
  have rest : ∑ other ∈ indices.erase index, weight (Function.update values index value other) =
      ∑ other ∈ indices.erase index, weight (values other) := by
    refine Finset.sum_congr rfl fun other inside => ?_
    rw [Function.update_of_ne (Finset.ne_of_mem_erase inside)]
  have before := Finset.add_sum_erase indices (fun other => weight (values other)) member
  have after := Finset.add_sum_erase indices
    (fun other => weight (Function.update values index value other)) member
  rw [rest, Function.update_self] at after
  omega

theorem sum_unmoved (outside : index ∉ indices) :
    ∑ other ∈ indices, weight (Function.update values index value other) =
      ∑ other ∈ indices, weight (values other) := by
  refine Finset.sum_congr rfl fun other inside => ?_
  have different : other ≠ index := fun same => outside (same ▸ inside)
  rw [Function.update_of_ne different]

end

variable {State : Type u} {Event : Type v} {step : State → Event → Option State} {start final : State}
  {trace : List (State × Event)}

/-- Each step that spends lowers the budget, and no step raises it. -/
theorem Run.spends_le (budget : State → Nat) (spends : Event → Bool)
    (pays : ∀ {earlier before event after}, Run step start earlier before →
      step before event = some after →
      budget after + (if spends event then 1 else 0) ≤ budget before)
    (run : Run step start trace final) :
    (trace.countP fun entry => spends entry.2) + budget final ≤ budget start := by
  induction run with
  | nil => simp
  | snoc earlier taken ih =>
      have paid := pays earlier taken
      rw [List.countP_append, List.countP_singleton]
      dsimp only
      omega

end Systems.Budget
