import DeiChain.Data.Binary32
import Mathlib.Algebra.Order.Field.Power
import Mathlib.Data.Rat.Cast.Order
import Mathlib.Tactic.Linarith
import Mathlib.Tactic.NormNum

namespace Data

/-! # Comparisons with a rounded quotient

A quotient that is rounded to the nearest number with `precision` significant
bits reaches such a number exactly when it reaches the middle between that number
and the one below it; the middle itself is rounded to the even mantissa.
-/

/-- The rounded quotient as a number. -/
def nearest (precision num den : Nat) : ℚ :=
  let rounded := roundSignificant precision num den
  (rounded.1 : ℚ) / 2 ^ rounded.2

/-- A natural number in single precision. -/
def singleOfNat (value : Nat) : Nat :=
  if value < 2 ^ 24 then value
  else roundDiv value (2 ^ (Nat.log 2 value - 23)) * 2 ^ (Nat.log 2 value - 23)

/-- The quotient is beyond the middle below `bound`, or on it and rounded up. -/
def ReachesMiddle (bound num den : Nat) : Prop :=
  (2 * bound - 1) * den < 2 * num ∨ (2 * bound - 1) * den = 2 * num ∧ bound % 2 = 0

theorem le_roundDiv_iff {bound num den : Nat} (boundPositive : 0 < bound) (denPositive : 0 < den) :
    bound ≤ roundDiv num den ↔ ReachesMiddle bound num den := by
  have whole := Nat.div_add_mod num den
  have rest := Nat.mod_lt num denPositive
  unfold roundDiv ReachesMiddle
  generalize num / den = quotient at whole
  generalize num % den = left at whole rest
  subst whole
  rcases Nat.lt_trichotomy (quotient + 1) bound with above | rfl | below
  · obtain ⟨more, rfl⟩ := Nat.exists_eq_add_of_lt above
    have far : (2 * (quotient + 1 + more + 1) - 1) * den = 2 * (den * quotient) + 3 * den + 2 * (more * den) := by
      rw [show 2 * (quotient + 1 + more + 1) - 1 = 2 * quotient + 3 + 2 * more by omega]
      ring
    rw [far]
    split <;> omega
  · have middle : (2 * (quotient + 1) - 1) * den = 2 * (den * quotient) + den := by
      rw [show 2 * (quotient + 1) - 1 = 2 * quotient + 1 by omega]
      ring
    rw [middle]
    split <;> omega
  · obtain ⟨more, rfl⟩ := Nat.exists_eq_add_of_le (Nat.le_of_lt_succ below)
    have near : (2 * bound - 1) * den + den = 2 * (den * bound) := by
      obtain ⟨less, rfl⟩ := Nat.exists_eq_add_of_lt boundPositive
      rw [show 2 * (0 + less + 1) - 1 = 2 * less + 1 by omega]
      ring
    rw [show den * (bound + more) = den * bound + den * more by ring]
    generalize den * more = further
    split <;> omega

/-- The value is at least the number `bound / 2 ^ place` or at most the one below it. -/
def DecidedAt (value : ℚ) (bound place : Nat) (reaches : Prop) : Prop :=
  (reaches ∧ (bound : ℚ) / 2 ^ place ≤ value) ∨ (¬ reaches ∧ value ≤ ((bound - 1 : Nat) : ℚ) / 2 ^ place)

section

variable {value threshold : ℚ} {bound place : Nat} {reaches : Prop}

theorem DecidedAt.le_iff (decided : DecidedAt value bound place reaches)
    (above : ((bound - 1 : Nat) : ℚ) / 2 ^ place < threshold) (below : threshold ≤ (bound : ℚ) / 2 ^ place) :
    threshold ≤ value ↔ reaches := by
  rcases decided with ⟨reaches, enough⟩ | ⟨short, less⟩
  · exact iff_of_true (below.trans enough) reaches
  · exact iff_of_false (not_le_of_gt (less.trans_lt above)) short

theorem DecidedAt.lt_iff (decided : DecidedAt value bound place reaches)
    (above : ((bound - 1 : Nat) : ℚ) / 2 ^ place ≤ threshold) (below : threshold < (bound : ℚ) / 2 ^ place) :
    threshold < value ↔ reaches := by
  rcases decided with ⟨reaches, enough⟩ | ⟨short, less⟩
  · exact iff_of_true (below.trans_le enough) reaches
  · exact iff_of_false (not_lt_of_ge (less.trans above)) short

end

section

variable {precision num den : Nat}

/-- The scaled quotient has all its significant bits before the point. -/
theorem le_scaleBits (numPositive : 0 < num) (denPositive : 0 < den)
    (representable : Nat.log 2 num ≤ precision - 1 + Nat.log 2 den) :
    2 ^ (precision - 1) * den ≤ num * 2 ^ scaleBits precision num den := by
  unfold scaleBits
  dsimp only
  split
  · have low := Nat.pow_log_le_self 2 (Nat.pos_iff_ne_zero.mp numPositive)
    have high := Nat.lt_pow_succ_log_self (by decide : 1 < 2) den
    calc 2 ^ (precision - 1) * den ≤ 2 ^ (precision - 1) * 2 ^ (Nat.log 2 den + 1) :=
          Nat.mul_le_mul_left _ (Nat.le_of_lt high)
      _ = 2 ^ Nat.log 2 num * 2 ^ (precision - 1 + Nat.log 2 den - Nat.log 2 num + 1) := by
          rw [← Nat.pow_add, ← Nat.pow_add]
          congr 1
          omega
      _ ≤ num * 2 ^ (precision - 1 + Nat.log 2 den - Nat.log 2 num + 1) := Nat.mul_le_mul_right _ low
  · rename_i enough
    exact (Nat.le_div_iff_mul_le denPositive).mp (Nat.le_of_not_lt enough)

theorem div_pow_le_iff {first second left right : Nat} :
    (first : ℚ) / 2 ^ left ≤ (second : ℚ) / 2 ^ right ↔ first * 2 ^ right ≤ second * 2 ^ left := by
  rw [div_le_div_iff₀ (by positivity) (by positivity)]
  exact_mod_cast Iff.rfl

/-- Between a number of the format and the one below it there is no rounded quotient. -/
theorem nearest_decided (precisionPositive : 0 < precision) (numPositive : 0 < num) (denPositive : 0 < den)
    (representable : Nat.log 2 num ≤ precision - 1 + Nat.log 2 den) {bound place : Nat}
    (low : 2 ^ (precision - 1) < bound) (high : bound ≤ 2 ^ precision) :
    DecidedAt (nearest precision num den) bound place (ReachesMiddle bound (num * 2 ^ place) den) := by
  have least := le_scaleBits numPositive denPositive representable
  have most := scaleBits_lt precision precisionPositive denPositive representable
  have double : (2 : Nat) ^ precision = 2 * 2 ^ (precision - 1) := by
    rw [← Nat.pow_succ']
    congr 1
    omega
  have mantissaHigh := roundDiv_le most
  have mantissaLow : 2 ^ (precision - 1) ≤ roundDiv (num * 2 ^ scaleBits precision num den) den := by
    have whole := (Nat.le_div_iff_mul_le denPositive).mpr least
    unfold roundDiv
    split <;> omega
  rw [Nat.div_lt_iff_lt_mul denPositive] at most
  simp only [DecidedAt, nearest, roundSignificant, div_pow_le_iff]
  generalize scaleBits precision num den = shift at *
  have boundPositive : 0 < bound := Nat.lt_of_le_of_lt (Nat.zero_le _) low
  rcases Nat.lt_trichotomy shift place with more | rfl | less
  · left
    obtain ⟨extra, rfl⟩ := Nat.exists_eq_add_of_lt more
    have factor : 2 ≤ 2 ^ (extra + 1) := Nat.le_self_pow (Nat.succ_ne_zero _) 2
    have far : 2 ^ precision * den ≤ num * 2 ^ (shift + extra + 1) :=
      calc 2 ^ precision * den = 2 * (2 ^ (precision - 1) * den) := by rw [double]; ring
        _ ≤ 2 ^ (extra + 1) * (num * 2 ^ shift) := Nat.mul_le_mul factor least
        _ = num * 2 ^ (shift + extra + 1) := by ring
    refine ⟨.inl ?_, ?_⟩
    · calc (2 * bound - 1) * den < 2 * bound * den := Nat.mul_lt_mul_of_pos_right (by omega) denPositive
        _ ≤ 2 * (2 ^ precision * den) := by
          rw [Nat.mul_assoc]
          exact Nat.mul_le_mul_left 2 (Nat.mul_le_mul_right den high)
        _ ≤ 2 * (num * 2 ^ (shift + extra + 1)) := Nat.mul_le_mul_left 2 far
    · calc bound * 2 ^ shift ≤ 2 ^ (precision - 1) * 2 * 2 ^ shift :=
          Nat.mul_le_mul_right _ (by omega)
        _ ≤ roundDiv (num * 2 ^ shift) den * 2 ^ (extra + 1) * 2 ^ shift :=
          Nat.mul_le_mul_right _ (Nat.mul_le_mul mantissaLow factor)
        _ = roundDiv (num * 2 ^ shift) den * 2 ^ (shift + extra + 1) := by ring
  · by_cases reaches : ReachesMiddle bound (num * 2 ^ shift) den
    · exact .inl ⟨reaches, Nat.mul_le_mul_right _ ((le_roundDiv_iff boundPositive denPositive).mpr reaches)⟩
    · have below := mt (le_roundDiv_iff boundPositive denPositive).mp reaches
      exact .inr ⟨reaches, Nat.mul_le_mul_right _ (by omega)⟩
  · right
    obtain ⟨extra, rfl⟩ := Nat.exists_eq_add_of_lt less
    have factor : 2 ≤ 2 ^ (extra + 1) := Nat.le_self_pow (Nat.succ_ne_zero _) 2
    have near : 2 * (num * 2 ^ place) < 2 ^ precision * den :=
      calc 2 * (num * 2 ^ place) ≤ 2 ^ (extra + 1) * (num * 2 ^ place) := Nat.mul_le_mul_right _ factor
        _ = num * 2 ^ (place + extra + 1) := by ring
        _ < 2 ^ precision * den := most
    have beyond : 2 ^ precision * den ≤ (2 * bound - 1) * den := Nat.mul_le_mul_right den (by omega)
    refine ⟨?_, ?_⟩
    · intro given
      rcases given with passes | ⟨middle, _⟩ <;> omega
    · calc roundDiv (num * 2 ^ (place + extra + 1)) den * 2 ^ place ≤ (bound - 1) * 2 * 2 ^ place :=
          Nat.mul_le_mul_right _ (by omega)
        _ ≤ (bound - 1) * 2 ^ (extra + 1) * 2 ^ place :=
          Nat.mul_le_mul_right _ (Nat.mul_le_mul_left _ factor)
        _ = (bound - 1) * 2 ^ (place + extra + 1) := by ring

end

end Data
