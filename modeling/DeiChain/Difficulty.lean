import DeiChain.Pow
import DeiChain.Data.Positional

namespace DeiChain

open Data

/-! # Difficulty as a threshold

`check_difficulty` counts zeros and looks at the character after them. Read as
a number, the hash is compared with one of three thresholds.
-/

def isHexDigit (byte : UInt8) : Bool := (48 ≤ byte && byte ≤ 57) || (97 ≤ byte && byte ≤ 102)

def hexDigitValue (byte : UInt8) : Nat := if byte ≤ 57 then byte.toNat - 48 else byte.toNat - 87

/-- A string of 64 lowercase hexadecimal digits. -/
structure HexHash where
  text : List UInt8
  length : text.length = 64
  digits : ∀ byte ∈ text, isHexDigit byte = true

def HexHash.value (hash : HexHash) : Nat := positional 16 (hash.text.map hexDigitValue)

def difficultyThreshold (reward : Int32) : Nat :=
  if reward ≤ 1 then 12 * 16 ^ 59
  else if reward = 2 then 16 ^ 59
  else 12 * 16 ^ 58

theorem hexDigit_cases {byte : UInt8} (digit : isHexDigit byte = true) :
    (byte = 48 ↔ hexDigitValue byte = 0) ∧ (byte ≤ 98 ↔ hexDigitValue byte < 12) ∧
      hexDigitValue byte < 16 := by
  simp only [isHexDigit, hexDigitValue, Bool.or_eq_true, Bool.and_eq_true, decide_eq_true_eq,
    UInt8.le_iff_toNat_le, ← UInt8.toNat_inj, UInt8.reduceToNat] at digit ⊢
  split <;> omega

theorem HexHash.value_digits (hash : HexHash) : ∀ digit ∈ hash.text.map hexDigitValue, digit < 16 := by
  intro digit member
  obtain ⟨byte, inText, rfl⟩ := List.mem_map.mp member
  exact (hexDigit_cases (hash.digits byte inText)).2.2

/-- The count stops at the terminator at the latest. -/
theorem takeWhile_zeros {text : List UInt8} (digits : ∀ byte ∈ text, isHexDigit byte = true)
    (rest : List UInt8) : ((text ++ 0 :: rest).takeWhile (· == 48)).length =
      leadingZeros (text.map hexDigitValue) := by
  induction text with
  | nil => rfl
  | cons byte text ih =>
      have zero := (hexDigit_cases (digits byte List.mem_cons_self)).1
      have counted := ih fun byte member => digits byte (List.mem_cons_of_mem _ member)
      by_cases same : byte = 48
      · have value := zero.mp same
        rw [List.map_cons, value, leadingZeros_zero_cons, ← counted, same]
        rfl
      · rw [List.map_cons, leadingZeros_cons_of_ne (mt zero.mpr same), List.cons_append,
          List.takeWhile_cons_of_neg (by simpa using same), List.length_nil]

/-- The test of the two levels that look at the character after the zeros. -/
theorem level_iff {zeros place : Nat} (next : Nat → UInt8) (least : 4 ≤ place) :
    (if zeros < 4 then false
      else (zeros == place && decide (next zeros ≤ 98)) || decide (place < zeros)) = true ↔
      place < zeros ∨ zeros = place ∧ next place ≤ 98 := by
  by_cases few : zeros < 4
  · rw [if_pos few]
    simp only [Bool.false_eq_true, false_iff]
    omega
  · rw [if_neg few, Bool.or_eq_true, Bool.and_eq_true, beq_iff_eq, decide_eq_true_iff, decide_eq_true_iff,
      or_comm]
    refine or_congr_right (and_congr_right fun same => ?_)
    rw [same]

/-- The thresholds fall as the rewards rise. -/
theorem difficultyThreshold_antitone {smaller reward : Int32} (le : smaller ≤ reward) :
    difficultyThreshold reward ≤ difficultyThreshold smaller := by
  rw [difficultyThreshold, difficultyThreshold]
  by_cases low : reward ≤ 1
  · rw [if_pos low, if_pos (Int32.le_trans le low)]
  · by_cases two : reward = 2
    · rw [if_neg low, if_pos two]
      have below : smaller ≤ 1 ∨ smaller = 2 := by
        rw [two] at le
        simp only [Int32.le_iff_toInt_le, ← Int32.toInt_inj, Int32.reduceToInt] at le ⊢
        omega
      rcases below with one | same
      · rw [if_pos one]
        decide
      · rw [if_neg (by rw [same]; decide), if_pos same]
    · rw [if_neg low, if_neg two]
      split
      · decide
      · split <;> decide

section

variable (hash : HexHash) (rest : List UInt8)

theorem HexHash.lt_pow_iff {place : Nat} (inside : place < 64) :
    hash.value < 16 ^ (64 - place - 1) ↔
      place < ((hash.text ++ 0 :: rest).takeWhile (· == 48)).length := by
  have length : (hash.text.map hexDigitValue).length = 64 := List.length_map _ |>.trans hash.length
  have separated := positional_lt_pow_iff (by decide) hash.value_digits (length ▸ inside)
  rwa [length, ← takeWhile_zeros hash.digits rest] at separated

/-- The digits up to `b` have values below 12. -/
theorem HexHash.lt_twelve_iff {place : Nat} (inside : place < 64) :
    hash.value < 12 * 16 ^ (64 - place - 1) ↔
      place < ((hash.text ++ 0 :: rest).takeWhile (· == 48)).length ∨
        ((hash.text ++ 0 :: rest).takeWhile (· == 48)).length = place ∧
          (hash.text ++ 0 :: rest).getD place 0 ≤ 98 := by
  have length : (hash.text.map hexDigitValue).length = 64 := List.length_map _ |>.trans hash.length
  have separated := positional_lt_iff (by decide) hash.value_digits (by decide : 0 < 12)
    (by decide) (length ▸ inside)
  rw [length, ← takeWhile_zeros hash.digits rest] at separated
  have bound : place < hash.text.length := hash.length.symm ▸ inside
  have small := (hexDigit_cases (hash.digits _ (List.getElem_mem bound))).2.1
  have next : (hash.text ++ 0 :: rest).getD place 0 = hash.text[place] := by
    rw [List.getD_eq_getElem?_getD, List.getElem?_append_left bound, List.getElem?_eq_getElem bound,
      Option.getD_some]
  rw [HexHash.value, separated, next, small, List.getElem?_map, List.getElem?_eq_getElem bound]
  simp

theorem HexHash.accepted_iff (reward : Int32) :
    checkDifficulty (hash.text ++ 0 :: rest) reward = true ↔ hash.value < difficultyThreshold reward := by
  unfold checkDifficulty getDifficultFromReward difficultyThreshold
  dsimp only
  by_cases low : reward ≤ 1
  · rw [if_pos low, if_pos low]
    exact (level_iff (fun i => (hash.text ++ 0 :: rest).getD i 0) (Nat.le_refl 4)).trans
      (hash.lt_twelve_iff rest (by decide : 4 < 64)).symm
  · by_cases two : reward = 2
    · rw [if_neg low, if_neg low, if_pos two, if_pos two]
      refine Iff.trans ?_ (hash.lt_pow_iff rest (by decide : 4 < 64)).symm
      split
      · simp only [Bool.false_eq_true, false_iff]
        omega
      · exact decide_eq_true_iff
    · rw [if_neg low, if_neg low, if_neg two, if_neg two]
      exact (level_iff (fun i => (hash.text ++ 0 :: rest).getD i 0) (Nat.le_succ 4)).trans
        (hash.lt_twelve_iff rest (by decide : 5 < 64)).symm

/-- `check_difficulty` compares the hash with the threshold of the reward; what
passes for a reward passes for every smaller one. -/
theorem check_difficulty_threshold (reward : Int32) :
    (checkDifficulty (hash.text ++ 0 :: rest) reward = true ↔ hash.value < difficultyThreshold reward) ∧
      ∀ smaller, smaller ≤ reward → checkDifficulty (hash.text ++ 0 :: rest) reward = true →
        checkDifficulty (hash.text ++ 0 :: rest) smaller = true := by
  refine ⟨hash.accepted_iff rest reward, fun smaller le passes => ?_⟩
  rw [hash.accepted_iff] at passes ⊢
  exact Nat.lt_of_lt_of_le passes (difficultyThreshold_antitone le)

end

end DeiChain
