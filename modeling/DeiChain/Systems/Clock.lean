import DeiChain.Systems.Run
import Mathlib.Order.Basic

namespace Systems.Clock

universe u v w

variable {State : Type u} {Event : Type v} {Time : Type w}

/-! # Runs that read a clock

Some events of a run carry the time at which they happened. As long as the
clock never goes back, whatever was read earlier is no later than what is read
now, and times that were written down can be compared by when that was.
-/

/-- What the clock showed, oldest reading first. -/
def readings (time : Event → Option Time) (trace : List (State × Event)) : List Time :=
  trace.filterMap fun entry => time entry.2

theorem readings_append (time : Event → Option Time) (trace added : List (State × Event)) :
    readings time (trace ++ added) = readings time trace ++ readings time added :=
  List.filterMap_append

variable [Preorder Time]

def Forward (time : Event → Option Time) (trace : List (State × Event)) : Prop :=
  (readings time trace).Pairwise (· ≤ ·)

/-- No later than some reading so far. -/
def Past (time : Event → Option Time) (trace : List (State × Event)) (moment : Time) : Prop :=
  ∃ reading ∈ readings time trace, moment ≤ reading

variable {time : Event → Option Time} {trace added : List (State × Event)} {moment : Time}

theorem Forward.earlier (forward : Forward time (trace ++ added)) : Forward time trace := by
  rw [Forward, readings_append] at forward
  exact (List.pairwise_append.mp forward).1

theorem Past.later (past : Past time trace moment) (added : List (State × Event)) :
    Past time (trace ++ added) moment := by
  obtain ⟨reading, member, le⟩ := past
  refine ⟨reading, ?_, le⟩
  rw [readings_append]
  exact List.mem_append_left _ member

theorem Past.now {entry : State × Event} (reads : time entry.2 = some moment) :
    Past time (trace ++ [entry]) moment := by
  refine ⟨moment, ?_, le_refl moment⟩
  rw [readings_append]
  exact List.mem_append_right _ (List.mem_filterMap.mpr ⟨entry, by simp, reads⟩)

/-- The next reading is no earlier than anything in the past. -/
theorem Past.le_now {entry : State × Event} {now : Time} (past : Past time trace moment)
    (forward : Forward time (trace ++ [entry])) (reads : time entry.2 = some now) : moment ≤ now := by
  obtain ⟨reading, member, le⟩ := past
  rw [Forward, readings_append] at forward
  refine le_trans le ((List.pairwise_append.mp forward).2.2 reading member now ?_)
  exact List.mem_filterMap.mpr ⟨entry, by simp, reads⟩

/-- The induction rule for runs whose clock never goes back: a step may use
that what is past is no later than the time it reads itself. -/
theorem Run.timed {step : State → Event → Option State} {start final : State}
    (holds : (Time → Prop) → State → Prop) (initial : holds (Past time ([] : List (State × Event))) start)
    (preserved : ∀ {earlier before event after}, Run step start earlier before →
      step before event = some after → holds (Past time earlier) before →
      (∀ now, time event = some now → ∀ moment, Past time earlier moment → moment ≤ now) →
      holds (Past time (earlier ++ [(before, event)])) after)
    (run : Run step start trace final) (forward : Forward time trace) : holds (Past time trace) final := by
  induction run with
  | nil => exact initial
  | snoc earlier taken ih =>
      exact preserved earlier taken (ih forward.earlier) fun now reads moment past =>
        past.le_now forward reads

end Systems.Clock
