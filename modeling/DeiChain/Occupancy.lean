import DeiChain.Data.Nearest
import DeiChain.Launcher

namespace DeiChain

open Data Systems

/-! # What the launcher takes for an occupancy

A quotient in single precision is compared with constants in double precision,
and neither 0.6 nor 0.8 nor 0.4 is a number of either format.
-/

/-- `(float)pool->count / TRANSACTION_POOL_SIZE`. -/
def occupancyOf (count size : Nat) : ℚ :=
  if count = 0 then 0 else nearest 24 (singleOfNat count) (singleOfNat size)

section

variable {count size : Nat}

theorem singleOfNat_small {value : Nat} (small : value < 2 ^ 24) : singleOfNat value = value := if_pos small

theorem occupancyOf_decided (positive : 0 < size) (most : count ≤ size) (small : size < 2 ^ 24)
    {bound place : Nat} (low : 2 ^ 23 < bound) (high : bound ≤ 2 ^ 24) :
    DecidedAt (occupancyOf count size) bound place (ReachesMiddle bound (count * 2 ^ place) size) := by
  unfold occupancyOf
  split
  · rename_i none
    refine .inr ⟨?_, div_nonneg (Nat.cast_nonneg _) (pow_nonneg zero_le_two _)⟩
    have middle : 0 < (2 * bound - 1) * size := Nat.mul_pos (by omega) positive
    rw [none, Nat.zero_mul, ReachesMiddle]
    omega
  · rw [singleOfNat_small small, singleOfNat_small (Nat.lt_of_le_of_lt most small)]
    have logs := Nat.log_mono_right (b := 2) most
    exact nearest_decided (by decide) (by omega) positive (by omega) low high

/-- Six tenths lie between the floats 10066329 / 2^24 and 10066330 / 2^24. -/
theorem occupied_le_iff (positive : 0 < size) (most : count ≤ size) (small : size < 2 ^ 24) :
    occupied ≤ occupancyOf count size ↔ 3 * size ≤ 5 * count := by
  have decided := @occupancyOf_decided count size positive most small 10066330 24 (by decide) (by decide)
  rw [decided.le_iff (by norm_num [occupied]) (by norm_num [occupied]), ReachesMiddle]
  omega

/-- Eight tenths lie between the floats 13421772 / 2^24 and 13421773 / 2^24, and
four fifths are rounded to the upper one. -/
theorem crowded_lt_iff (positive : 0 < size) (most : count ≤ size) (small : size ≤ 11184810) :
    crowded < occupancyOf count size ↔ 4 * size ≤ 5 * count := by
  have decided := @occupancyOf_decided count size positive most (by omega) 13421773 24 (by decide) (by decide)
  rw [decided.lt_iff (by norm_num [crowded]) (by norm_num [crowded]), ReachesMiddle]
  omega

theorem lt_sparse_iff (positive : 0 < size) (most : count ≤ size) (small : size < 2 ^ 24) :
    occupancyOf count size < sparse ↔ 5 * count < 2 * size := by
  have decided := @occupancyOf_decided count size positive most small 13421773 25 (by decide) (by decide)
  have reached : sparse ≤ occupancyOf count size ↔ 26843545 * size < 67108864 * count := by
    rw [decided.le_iff (by norm_num [sparse]) (by norm_num [sparse])]
    norm_num [ReachesMiddle]
    omega
  rw [← not_le, reached]
  omega

/-- A poll decides by exact percentages: 60 and more, 80 and more although the
comparison there is strict, and less than 40. From 11184814 slots on, a pool that
is a little less than four fifths full counts as four fifths. -/
theorem poll_decides (positive : 0 < size) (most : count ≤ size) (small : size ≤ 11184810)
    {state after : LauncherState} (taken : stepLauncher state (.poll (occupancyOf count size)) = some after) :
    after.validators = state.validators ∧ after.children = state.children ∧ after.phase =
      if 3 * size ≤ 5 * count then .testing .first (decide (4 * size ≤ 5 * count))
      else if 5 * count < 2 * size then .terminating .first
      else .sleeping := by
  have fits : size < 2 ^ 24 := by omega
  rw [stepLauncher] at taken
  split at taken
  · cases taken
    refine ⟨rfl, rfl, ?_⟩
    simp only [LauncherState.goto, occupied_le_iff positive most fits, crowded_lt_iff positive most small,
      lt_sparse_iff positive most fits]
  · cases taken

theorem poll_decides_fourFifths : ∃ after,
    stepLauncher LauncherState.initial (.poll (occupancyOf 40 50)) = some after ∧
      after.phase = .testing .first true := by
  refine ⟨_, rfl, ?_⟩
  exact (@poll_decides 40 50 (by decide) (by decide) (by decide) LauncherState.initial _ rfl).2.2

end

end DeiChain
