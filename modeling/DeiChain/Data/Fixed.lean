import DeiChain.Data.Binary32
import DeiChain.Data.Decimal

namespace Data

/-! # Printing with two decimals

`%.2f` prints the exact value of its argument, rounded to a multiple of a
hundredth and to an even one from halfway.
-/

namespace Binary32

def exponent (value : Binary32) : Nat := value.bits.toNat / 2 ^ 23 % 256

def fraction (value : Binary32) : Nat := value.bits.toNat % 2 ^ 23

/-- The magnitude of a finite value is `mantissa * 2 ^ (exponent - 150)`, with
an exponent of 1 for subnormal numbers. -/
def mantissa (value : Binary32) : Nat :=
  if value.exponent = 0 then value.fraction else 2 ^ 23 + value.fraction

def hundredths (value : Binary32) : Nat :=
  roundDiv (value.mantissa * 100 * 2 ^ (max value.exponent 1 - 150)) (2 ^ (150 - max value.exponent 1))

/-- The digits of a finite value, `inf` or `nan`. -/
def magnitude2 (value : Binary32) : List UInt8 :=
  if value.exponent = 255 then
    if value.fraction = 0 then [105, 110, 102] else [110, 97, 110]
  else
    decimal (value.hundredths / 100) ++ [46] ++ decimal (value.hundredths / 10 % 10) ++
      decimal (value.hundredths % 10)

def fixed2 (value : Binary32) : List UInt8 :=
  if 2 ^ 31 ≤ value.bits.toNat then 45 :: value.magnitude2 else value.magnitude2

theorem mantissa_lt (value : Binary32) : value.mantissa < 2 ^ 24 := by
  have bound : value.fraction < 2 ^ 23 := Nat.mod_lt _ (by decide)
  unfold mantissa
  split <;> omega

theorem hundredths_le {value : Binary32} (finite : value.exponent ≠ 255) :
    value.hundredths ≤ 100 * 2 ^ 128 := by
  have field : value.exponent < 256 := Nat.mod_lt _ (by decide)
  have power : (2 : Nat) ^ (max value.exponent 1 - 150) ≤ 2 ^ 104 :=
    Nat.pow_le_pow_right (by decide) (by omega)
  have size := value.mantissa_lt
  apply roundDiv_le
  calc value.mantissa * 100 * 2 ^ (max value.exponent 1 - 150) / 2 ^ (150 - max value.exponent 1)
      ≤ value.mantissa * 100 * 2 ^ (max value.exponent 1 - 150) := Nat.div_le_self _ _
    _ ≤ value.mantissa * 100 * 2 ^ 104 := Nat.mul_le_mul_left _ power
    _ < 100 * 2 ^ 128 := by omega

theorem decimal_digit_length {value : Nat} (small : value < 10) : (decimal value).length = 1 := by
  have most : (decimal value).length ≤ 1 := decimal_length_le (by decide) small
  have least := List.length_pos_of_ne_nil (decimal_ne_nil value)
  omega

theorem magnitude2_length {value : Binary32} (finite : value.exponent ≠ 255) :
    value.magnitude2.length = (decimal (value.hundredths / 100)).length + 3 := by
  have tenth := decimal_digit_length (Nat.mod_lt (value.hundredths / 10) (by decide : 0 < 10))
  have hundredth := decimal_digit_length (Nat.mod_lt value.hundredths (by decide : 0 < 10))
  rw [magnitude2, if_neg finite]
  simp only [List.length_append, List.length_cons, List.length_nil, tenth, hundredth]

/-- A sign, 39 digits, the point and two decimals. -/
theorem fixed2_length_le (value : Binary32) : value.fixed2.length ≤ 43 := by
  have magnitude : value.magnitude2.length ≤ 42 := by
    by_cases finite : value.exponent = 255
    · rw [magnitude2, if_pos finite]
      split <;> decide
    · have bound := hundredths_le finite
      have whole : (decimal (value.hundredths / 100)).length ≤ 39 := decimal_length_le (by decide) (by omega)
      rw [magnitude2_length finite]
      omega
  rw [fixed2]
  split
  · rw [List.length_cons]
    omega
  · omega

theorem fixed2_length_ge (value : Binary32) : 3 ≤ value.fixed2.length := by
  have magnitude : 3 ≤ value.magnitude2.length := by
    by_cases finite : value.exponent = 255
    · rw [magnitude2, if_pos finite]
      split <;> decide
    · rw [magnitude2_length finite]
      exact Nat.le_add_left _ _
  rw [fixed2]
  split
  · rw [List.length_cons]
    omega
  · exact magnitude

end Binary32

end Data
