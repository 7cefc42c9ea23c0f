import Mathlib.Data.Nat.Digits.Defs

namespace Data

/-! # Numbers by their leading digits

Digits with the most significant one first. A power of the base, or a multiple
of one by a digit, separates the numbers by how many zeros they start with and
by the digit after these.
-/

def positional (base : Nat) (digits : List Nat) : Nat := Nat.ofDigits base digits.reverse

def leadingZeros (digits : List Nat) : Nat := (digits.takeWhile (· == 0)).length

variable {base digit : Nat} {digits : List Nat}

theorem positional_cons (base digit : Nat) (digits : List Nat) :
    positional base (digit :: digits) = digit * base ^ digits.length + positional base digits := by
  rw [positional, Nat.ofDigits_reverse_cons, Nat.add_comm, Nat.mul_comm, positional]

theorem positional_lt (large : 1 < base) (bounded : ∀ digit ∈ digits, digit < base) :
    positional base digits < base ^ digits.length := by
  have bound := Nat.ofDigits_lt_base_pow_length large (l := digits.reverse) (by simpa using bounded)
  rwa [List.length_reverse] at bound

@[simp] theorem leadingZeros_zero_cons (digits : List Nat) :
    leadingZeros (0 :: digits) = leadingZeros digits + 1 := by
  simp [leadingZeros]

theorem leadingZeros_cons_of_ne (nonzero : digit ≠ 0) (digits : List Nat) :
    leadingZeros (digit :: digits) = 0 := by
  simp [leadingZeros, nonzero]

/-- The digit after the leading zeros is none of them. -/
theorem leadingZeros_nonzero (next : digits[leadingZeros digits]? = some digit) : digit ≠ 0 := by
  induction digits with
  | nil => cases next
  | cons first rest ih =>
      by_cases zero : first = 0
      · subst zero
        rw [leadingZeros_zero_cons, List.getElem?_cons_succ] at next
        exact ih next
      · rw [leadingZeros_cons_of_ne zero] at next
        cases next
        exact zero

/-- Below `top` at the digit in this place: more zeros than that, or exactly so
many and a digit below `top`. -/
theorem positional_lt_iff (large : 1 < base) (bounded : ∀ digit ∈ digits, digit < base) {top : Nat}
    (positive : 0 < top) (atMost : top ≤ base) {place : Nat} (inside : place < digits.length) :
    positional base digits < top * base ^ (digits.length - place - 1) ↔
      place < leadingZeros digits ∨
        leadingZeros digits = place ∧ ∃ digit, digits[place]? = some digit ∧ digit < top := by
  induction digits generalizing place with
  | nil => cases inside
  | cons first rest ih =>
      have restBounded : ∀ digit ∈ rest, digit < base := fun digit member =>
        bounded digit (List.mem_cons_of_mem _ member)
      have small := positional_lt large restBounded
      have power : 0 < base ^ rest.length := Nat.pow_pos (by omega)
      rw [positional_cons]
      cases place with
      | zero =>
          have separated : first * base ^ rest.length + positional base rest < top * base ^ rest.length ↔
              first < top := by
            constructor
            · intro below
              by_contra high
              have more := Nat.mul_le_mul_right (base ^ rest.length) (Nat.le_of_not_lt high)
              omega
            · intro below
              have more := Nat.mul_le_mul_right (base ^ rest.length) (Nat.succ_le_of_lt below)
              rw [Nat.succ_mul] at more
              omega
          simp only [List.length_cons, Nat.sub_zero, Nat.add_sub_cancel, separated,
            List.getElem?_cons_zero, Option.some.injEq, exists_eq_left']
          by_cases zero : first = 0
          · subst zero
            simp [positive]
          · simp [leadingZeros_cons_of_ne zero]
      | succ place =>
          have inRest : place < rest.length := Nat.lt_of_succ_lt_succ inside
          have sizes : (first :: rest).length - (place + 1) - 1 = rest.length - place - 1 := by
            simp only [List.length_cons]
            omega
          rw [sizes, List.getElem?_cons_succ]
          by_cases zero : first = 0
          · subst zero
            rw [Nat.zero_mul, Nat.zero_add, ih restBounded inRest, leadingZeros_zero_cons]
            simp
          · have whole : top * base ^ (rest.length - place - 1) ≤ base ^ rest.length := by
              calc top * base ^ (rest.length - place - 1)
                  ≤ base * base ^ (rest.length - place - 1) := Nat.mul_le_mul_right _ atMost
                _ = base ^ (rest.length - place - 1 + 1) := (Nat.pow_succ' ..).symm
                _ ≤ base ^ rest.length := Nat.pow_le_pow_right (by omega) (by omega)
            have beyond := Nat.mul_le_mul_right (base ^ rest.length) (Nat.pos_of_ne_zero zero)
            rw [leadingZeros_cons_of_ne zero]
            simp only [Nat.not_lt_zero, Nat.right_eq_add, Nat.add_eq_zero_iff, Nat.one_ne_zero, and_false,
              false_and, or_false, iff_false]
            omega

/-- Below a power of the base: at least so many zeros. -/
theorem positional_lt_pow_iff (large : 1 < base) (bounded : ∀ digit ∈ digits, digit < base) {place : Nat}
    (inside : place < digits.length) :
    positional base digits < base ^ (digits.length - place - 1) ↔ place < leadingZeros digits := by
  have separated := positional_lt_iff large bounded Nat.one_pos (Nat.le_of_lt large) inside
  rw [Nat.one_mul] at separated
  rw [separated]
  refine or_iff_left ?_
  intro given
  obtain ⟨rfl, digit, at_place, small⟩ := given
  exact leadingZeros_nonzero at_place (Nat.lt_one_iff.mp small)

end Data
