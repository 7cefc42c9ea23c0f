import Mathlib.Algebra.Order.Ring.Nat
import Mathlib.Data.Int.Order.Basic

namespace Data

/-! # Stretches of a segment of memory -/

/-- `length` bytes from `start` on. -/
structure Extent where
  start : Nat
  length : Nat
deriving DecidableEq, Repr

def Extent.finish (extent : Extent) : Nat := extent.start + extent.length

/-- The extent lies in a segment of `size` bytes. -/
def Extent.Inside (extent : Extent) (size : Int) : Prop := (extent.finish : Int) ≤ size

def Extent.Disjoint (left right : Extent) : Prop :=
  left.finish ≤ right.start ∨ right.finish ≤ left.start

def Extent.Within (part whole : Extent) : Prop :=
  whole.start ≤ part.start ∧ part.finish ≤ whole.finish

/-- Cell `index` of a table that begins at `base`. -/
def cell (base width index : Nat) : Extent := ⟨base + index * width, width⟩

theorem Extent.Within.inside {part whole : Extent} (within : part.Within whole) {size : Int}
    (inside : whole.Inside size) : part.Inside size :=
  Int.le_trans (Int.ofNat_le.mpr within.2) inside

theorem Extent.Within.disjoint {left right leftWhole rightWhole : Extent}
    (leftWithin : left.Within leftWhole) (rightWithin : right.Within rightWhole)
    (apart : leftWhole.Disjoint rightWhole) : left.Disjoint right := by
  rcases apart with before | behind
  · exact .inl (Nat.le_trans leftWithin.2 (Nat.le_trans before rightWithin.1))
  · exact .inr (Nat.le_trans rightWithin.2 (Nat.le_trans behind leftWithin.1))

section

variable {base width index count : Nat}

@[simp] theorem cell_finish : (cell base width index).finish = base + (index + 1) * width := by
  simp only [cell, Extent.finish]
  rw [Nat.succ_mul, Nat.add_assoc]

theorem cell_inside (inTable : index < count) {size : Int} (fits : (base + count * width : Nat) ≤ size) :
    (cell base width index).Inside size := by
  have upTo : (index + 1) * width ≤ count * width := Nat.mul_le_mul_right width inTable
  rw [Extent.Inside, cell_finish]
  omega

theorem cell_disjoint {first second : Nat} (before : first < second) :
    (cell base width first).Disjoint (cell base width second) := by
  have upTo : (first + 1) * width ≤ second * width := Nat.mul_le_mul_right width before
  rw [Extent.Disjoint, cell_finish]
  exact .inl (Nat.add_le_add_left upTo base)

theorem before_cell_disjoint : Extent.Disjoint ⟨0, base⟩ (cell base width index) := by
  left
  simp [Extent.finish, cell]

theorem cell_within_cell {inner : Nat} (room : base + count * inner ≤ width) (inTable : index < count)
    {start : Nat} : (cell (start + base) inner index).Within ⟨start, width⟩ := by
  have upTo : (index + 1) * inner ≤ count * inner := Nat.mul_le_mul_right inner inTable
  constructor
  · simp only [cell]
    omega
  · rw [cell_finish]
    simp only [Extent.finish]
    omega

/-- A segment that ends inside the table ends inside one of its cells. -/
theorem exists_cell_cut {size : Nat} (begins : base ≤ size) (ends : size < base + count * width) :
    ∃ index < count, base + index * width ≤ size ∧ size < (cell base width index).finish := by
  have positive : 0 < width := by
    rcases Nat.eq_zero_or_pos width with rfl | positive
    · omega
    · exact positive
  have room : size - base < width * count := by
    rw [Nat.mul_comm]
    omega
  have below := Nat.div_mul_le_self (size - base) width
  have above := Nat.lt_div_mul_add positive (a := size - base)
  refine ⟨(size - base) / width, Nat.div_lt_of_lt_mul room, by omega, ?_⟩
  rw [cell_finish, Nat.succ_mul]
  omega

end

end Data
