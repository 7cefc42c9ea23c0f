import Mathlib.Data.Nat.Log
import Mathlib.Tactic.Ring

namespace Data

/-! # IEEE 754 single precision values, by their bits

Only what comparing and producing such values needs: equality as C has it, and
the conversion of a quotient of integers through double to single precision.
-/

structure Binary32 where
  bits : UInt32
deriving DecidableEq, Repr

namespace Binary32

def isNaN (value : Binary32) : Bool := 0x7f800000 < (value.bits.toNat % 2 ^ 31)

/-- `left == right`: no NaN equals anything, and both zeros are equal. -/
def equal (left right : Binary32) : Bool :=
  !left.isNaN && !right.isNaN &&
    (left.bits == right.bits || (left.bits.toNat % 2 ^ 31 == 0 && right.bits.toNat % 2 ^ 31 == 0))

theorem equal_self {value : Binary32} (number : value.isNaN = false) : value.equal value = true := by
  simp [equal, number]

end Binary32

def roundDiv (num den : Nat) : Nat :=
  if 2 * (num % den) < den ∨ 2 * (num % den) = den ∧ num / den % 2 = 0 then num / den else num / den + 1

/-- The power of two that brings a quotient to `precision` significant bits. -/
def scaleBits (precision num den : Nat) : Nat :=
  let shift := precision - 1 + Nat.log 2 den - Nat.log 2 num
  if num * 2 ^ shift / den < 2 ^ (precision - 1) then shift + 1 else shift

/-- A positive quotient rounded to `precision` significant bits, as a mantissa
over a power of two. -/
def roundSignificant (precision num den : Nat) : Nat × Nat :=
  let shift := scaleBits precision num den
  (roundDiv (num * 2 ^ shift) den, shift)

/-- `(float)((double)num / (double)den)` for positive operands below `2^53`
whose quotient is a normal number: two roundings, to 53 and to 24 bits. -/
def Binary32.ofQuotient (num den : Nat) : Binary32 :=
  if num = 0 then ⟨0⟩ else
    let double := roundSignificant 53 num den
    let single := roundSignificant 24 double.1 (2 ^ double.2)
    ⟨UInt32.ofNat ((149 - single.2) * 2 ^ 23 + single.1)⟩

theorem roundDiv_le {num den bound : Nat} (below : num / den < bound) : roundDiv num den ≤ bound := by
  unfold roundDiv
  split <;> omega

theorem scaleBits_lt (precision : Nat) {num den : Nat} (precisionPositive : 0 < precision)
    (denPositive : 0 < den) (representable : Nat.log 2 num ≤ precision - 1 + Nat.log 2 den) :
    num * 2 ^ scaleBits precision num den / den < 2 ^ precision := by
  have initial : num * 2 ^ (precision - 1 + Nat.log 2 den - Nat.log 2 num) / den < 2 ^ precision := by
    rw [Nat.div_lt_iff_lt_mul denPositive]
    calc num * 2 ^ (precision - 1 + Nat.log 2 den - Nat.log 2 num)
        < 2 ^ (Nat.log 2 num + 1) * 2 ^ (precision - 1 + Nat.log 2 den - Nat.log 2 num) :=
          Nat.mul_lt_mul_of_pos_right (Nat.lt_pow_succ_log_self (by decide) num) (Nat.two_pow_pos _)
      _ = 2 ^ precision * 2 ^ Nat.log 2 den := by
          rw [← Nat.pow_add, ← Nat.pow_add]
          congr 1
          omega
      _ ≤ 2 ^ precision * den :=
          Nat.mul_le_mul_left _ (Nat.pow_log_le_self 2 (Nat.pos_iff_ne_zero.mp denPositive))
  unfold scaleBits
  dsimp only
  split
  · rename_i small
    have double : (2 : Nat) ^ precision = 2 * 2 ^ (precision - 1) := by
      rw [← Nat.pow_succ']
      congr 1
      omega
    rw [Nat.div_lt_iff_lt_mul denPositive] at small ⊢
    calc num * 2 ^ (precision - 1 + Nat.log 2 den - Nat.log 2 num + 1)
        = 2 * (num * 2 ^ (precision - 1 + Nat.log 2 den - Nat.log 2 num)) := by ring
      _ < 2 * (2 ^ (precision - 1) * den) := by omega
      _ = 2 ^ precision * den := by rw [double]; ring
  · exact initial

theorem Binary32.number_of_mantissa {mantissa : Nat} (bound : mantissa ≤ 2 ^ 24) (shift : Nat) :
    (Binary32.mk (UInt32.ofNat ((149 - shift) * 2 ^ 23 + mantissa))).isNaN = false := by
  simp only [Binary32.isNaN, UInt32.toNat_ofNat', decide_eq_false_iff_not, not_lt]
  omega

theorem Binary32.ofQuotient_number {num den : Nat} (denPositive : 0 < den)
    (small : Nat.log 2 num ≤ 22 + Nat.log 2 den) :
    (Binary32.ofQuotient num den).isNaN = false := by
  unfold Binary32.ofQuotient
  split
  · rfl
  · have double := roundDiv_le (scaleBits_lt 53 (by decide) denPositive
      (by omega : Nat.log 2 num ≤ 53 - 1 + Nat.log 2 den))
    have scaled : 30 ≤ scaleBits 53 num den := by
      unfold scaleBits
      dsimp only
      split <;> omega
    have representable : Nat.log 2 (roundSignificant 53 num den).1 ≤
        24 - 1 + Nat.log 2 (2 ^ (roundSignificant 53 num den).2) := by
      rw [Nat.log_pow (by decide)]
      calc Nat.log 2 (roundSignificant 53 num den).1
          ≤ Nat.log 2 (2 ^ 53) := Nat.log_mono_right double
        _ = 53 := Nat.log_pow (by decide) 53
        _ ≤ 24 - 1 + scaleBits 53 num den := by omega
    exact Binary32.number_of_mantissa
      (roundDiv_le (scaleBits_lt _ (by decide) (Nat.two_pow_pos _) representable)) _

end Data
