import DeiChain.Data.CString
import Mathlib.Data.Nat.Digits.Lemmas

namespace Data

/-! # Reading decimal numbers back

`%d` of `sscanf` and `atoi` skip white space, take a sign and then as many
digits as there are. Values are exact here; a number that does not fit an `int`
is undefined in C.
-/

def isSpace (byte : UInt8) : Bool := byte == 32 || (9 ≤ byte && byte ≤ 13)

def isDigit (byte : UInt8) : Bool := 48 ≤ byte && byte ≤ 57

def digitsValue (digits : List UInt8) : Nat :=
  Nat.ofDigits 10 (digits.reverse.map fun digit => digit.toNat - 48)

def scanUnsigned (text : List UInt8) : Option Nat :=
  let digits := text.takeWhile isDigit
  if digits = [] then none else some (digitsValue digits)

/-- The conversion `%d`; `none` when there is nothing to convert. -/
def scanInt (text : List UInt8) : Option Int :=
  match text.dropWhile isSpace with
  | 45 :: rest => (scanUnsigned rest).map Int.negOfNat
  | 43 :: rest => (scanUnsigned rest).map Int.ofNat
  | rest => (scanUnsigned rest).map Int.ofNat

def atoi (text : List UInt8) : Int := (scanInt text).getD 0

/-- What `%d` prints. -/
def decimalInt (value : Int) : List UInt8 :=
  if value < 0 then 45 :: decimal value.natAbs else decimal value.natAbs

@[simp] theorem decimalInt_natCast (value : Nat) : decimalInt value = decimal value := by
  have notNegative : ¬ (value : Int) < 0 := by omega
  simp [decimalInt, notNegative]

theorem decimal_ne_nil (value : Nat) : decimal value ≠ [] := by
  unfold decimal
  split
  · simp
  · rename_i nonzero
    simpa using Nat.digits_ne_nil_iff_ne_zero.mpr nonzero

theorem digit_toNat {digit : Nat} (small : digit < 10) : (UInt8.ofNat (48 + digit)).toNat = 48 + digit := by
  rw [UInt8.toNat_ofNat']
  omega

theorem isDigit_ofNat {digit : Nat} (small : digit < 10) : isDigit (UInt8.ofNat (48 + digit)) = true := by
  simp only [isDigit, Bool.and_eq_true, decide_eq_true_eq, UInt8.le_iff_toNat_le, digit_toNat small]
  exact ⟨Nat.le_add_right _ _, by change 48 + digit ≤ 57; omega⟩

theorem decimal_digits {value : Nat} {byte : UInt8} (member : byte ∈ decimal value) :
    isDigit byte = true := by
  unfold decimal at member
  split at member
  · cases List.mem_singleton.mp member
    decide
  · obtain ⟨digit, digitMember, rfl⟩ := List.mem_map.mp member
    exact isDigit_ofNat (Nat.digits_lt_base (by decide) (List.mem_reverse.mp digitMember))

theorem digitsValue_decimal (value : Nat) : digitsValue (decimal value) = value := by
  unfold decimal
  split
  · rename_i zero
    rw [zero]
    decide
  · rw [digitsValue, ← List.map_reverse, List.reverse_reverse, List.map_map]
    have same : (Nat.digits 10 value).map
        ((fun digit : UInt8 => digit.toNat - 48) ∘ fun digit => UInt8.ofNat (48 + digit)) =
          Nat.digits 10 value := by
      conv => rhs; rw [← List.map_id (Nat.digits 10 value)]
      apply List.map_congr_left
      intro digit member
      have small : digit < 10 := Nat.digits_lt_base (by decide) member
      simp only [Function.comp_apply, digit_toNat small, Nat.add_sub_cancel_left, id]
    rw [same, Nat.ofDigits_digits]

theorem decimal_injective {left right : Nat} (same : decimal left = decimal right) : left = right := by
  rw [← digitsValue_decimal left, same, digitsValue_decimal]

theorem decimal_length_le_iff {value width : Nat} (positive : 0 < width) :
    (decimal value).length ≤ width ↔ value < 10 ^ width := by
  unfold decimal
  split
  · rename_i zero
    rw [zero]
    exact iff_of_true positive (Nat.pow_pos (by decide))
  · rw [List.length_map, List.length_reverse]
    exact Nat.digits_length_le_iff (by decide) value

theorem decimal_length_le {value width : Nat} (positive : 0 < width) (bound : value < 10 ^ width) :
    (decimal value).length ≤ width :=
  (decimal_length_le_iff positive).mpr bound

section

variable {digits : List UInt8}

/-- Digits end where the text goes on with something else. -/
theorem takeWhile_digits (all : ∀ byte ∈ digits, isDigit byte = true) {rest : List UInt8}
    (ends : ∀ byte, rest.head? = some byte → isDigit byte = false) :
    (digits ++ rest).takeWhile isDigit = digits := by
  rw [List.takeWhile_append_of_pos all]
  cases rest with
  | nil => simp
  | cons byte rest => simp [ends byte rfl]

theorem scanInt_digits (nonempty : digits ≠ []) (all : ∀ byte ∈ digits, isDigit byte = true)
    {rest : List UInt8} (ends : ∀ byte, rest.head? = some byte → isDigit byte = false) :
    scanInt (digits ++ rest) = some (digitsValue digits : Int) := by
  have scanned : scanUnsigned (digits ++ rest) = some (digitsValue digits) := by
    simp only [scanUnsigned, takeWhile_digits all ends, nonempty, if_false]
  obtain ⟨first, others, shape⟩ := List.exists_cons_of_ne_nil nonempty
  have isFirst : isDigit first = true := all first (shape ▸ List.mem_cons_self)
  rw [shape, List.cons_append] at scanned ⊢
  have notSpace : isSpace first = false := by
    simp only [isDigit, isSpace, Bool.and_eq_true, decide_eq_true_eq, Bool.or_eq_false_iff,
      Bool.and_eq_false_iff, beq_eq_false_iff_ne, ne_eq, decide_eq_false_iff_not,
      UInt8.le_iff_toNat_le, ← UInt8.toNat_inj] at isFirst ⊢
    change 48 ≤ _ ∧ _ ≤ 57 at isFirst
    change ¬ _ = 32 ∧ (¬ 9 ≤ _ ∨ ¬ _ ≤ 13)
    omega
  rw [scanInt, List.dropWhile_cons_of_neg (by simp [notSpace])]
  split
  · rename_i sign
    cases (List.cons.inj sign).1
    cases isFirst
  · rename_i sign
    cases (List.cons.inj sign).1
    cases isFirst
  · rw [scanned]
    rfl

theorem atoi_digits (nonempty : digits ≠ []) (all : ∀ byte ∈ digits, isDigit byte = true) :
    atoi digits = digitsValue digits := by
  have scanned := @scanInt_digits digits nonempty all [] (by simp)
  rw [List.append_nil] at scanned
  rw [atoi, scanned, Option.getD_some]

theorem atoi_minus : atoi (45 :: digits) ≤ 0 := by
  have scanned : scanInt (45 :: digits) = (scanUnsigned digits).map Int.negOfNat := rfl
  rw [atoi, scanned]
  cases scanUnsigned digits with
  | none => exact Int.le_refl 0
  | some value =>
      rw [Option.map_some, Option.getD_some, Int.negOfNat_eq]
      exact Int.neg_nonpos_of_nonneg (Int.natCast_nonneg value)

/-- Cutting digits off behind divides the number. -/
theorem digitsValue_take (all : ∀ byte ∈ digits, isDigit byte = true) (count : Nat) :
    digitsValue (digits.take count) = digitsValue digits / 10 ^ (digits.length - count) := by
  have small : ∀ digit ∈ digits.reverse.map (fun digit => digit.toNat - 48), digit < 10 := by
    intro digit member
    obtain ⟨byte, inDigits, rfl⟩ := List.mem_map.mp member
    have bounds := all byte (List.mem_reverse.mp inDigits)
    simp only [isDigit, Bool.and_eq_true, decide_eq_true_eq, UInt8.le_iff_toNat_le] at bounds
    change 48 ≤ _ ∧ _ ≤ 57 at bounds
    omega
  have cut := Nat.ofDigits_div_pow_eq_ofDigits_drop (digits.length - count) (by decide) _ small
  rw [digitsValue, digitsValue, cut, ← List.map_drop, List.drop_reverse]
  by_cases whole : digits.length ≤ count
  · rw [Nat.sub_eq_zero_of_le whole, Nat.sub_zero, List.take_length, List.take_of_length_le whole]
  · rw [Nat.sub_sub_self (Nat.le_of_not_le whole)]

end

/-- The digits of a number end where the text goes on with something else. -/
theorem takeWhile_decimal (value : Nat) {rest : List UInt8}
    (ends : ∀ byte, rest.head? = some byte → isDigit byte = false) :
    (decimal value ++ rest).takeWhile isDigit = decimal value :=
  takeWhile_digits (fun _ member => decimal_digits member) ends

theorem scanInt_decimal (value : Nat) {rest : List UInt8}
    (ends : ∀ byte, rest.head? = some byte → isDigit byte = false) :
    scanInt (decimal value ++ rest) = some (value : Int) := by
  rw [scanInt_digits (decimal_ne_nil value) (fun _ member => decimal_digits member) ends,
    digitsValue_decimal]

/-- A number whose text is cut after `count` characters. -/
theorem atoi_decimal_take (value : Nat) {count : Nat} (positive : 0 < count) :
    atoi ((decimal value).take count) = (value / 10 ^ ((decimal value).length - count) : Nat) := by
  have nonempty : (decimal value).take count ≠ [] := by
    rw [ne_eq, List.take_eq_nil_iff, not_or]
    exact ⟨Nat.ne_of_gt positive, decimal_ne_nil value⟩
  rw [atoi_digits nonempty fun _ member => decimal_digits (List.mem_of_mem_take member),
    digitsValue_take (fun _ member => decimal_digits member), digitsValue_decimal]

end Data
