import Mathlib.Logic.Basic
import Mathlib.Order.Basic

namespace Systems.HashChain

universe u v

variable {Block : Type u} {Hash : Type v}

/-! # Chains of blocks linked by hashes

The chain is a prefix of an indexed store. `tip` is the hash a block appended
at a given height has to name, so that linking and reading the newest hash are
one notion.
-/

def tip (hashOf : Block → Hash) (root : Hash) (blocks : Nat → Block) : Nat → Hash
  | 0 => root
  | height + 1 => hashOf (blocks height)

/-- Every block below `count` names the tip of the chain beneath it. -/
def Linked (hashOf prevOf : Block → Hash) (root : Hash) (blocks : Nat → Block) (count : Nat) : Prop :=
  ∀ height < count, prevOf (blocks height) = tip hashOf root blocks height

def CollisionFree (hashOf : Block → Hash) (blocks : Nat → Block) (count : Nat) : Prop :=
  ∀ first < count, ∀ second < count,
    hashOf (blocks first) = hashOf (blocks second) → blocks first = blocks second

variable {hashOf prevOf : Block → Hash} {root : Hash} {blocks grown : Nat → Block} {count height : Nat}

@[simp] theorem tip_zero : tip hashOf root blocks 0 = root := rfl

@[simp] theorem tip_succ : tip hashOf root blocks (height + 1) = hashOf (blocks height) := rfl

theorem tip_congr (same : ∀ index < count, grown index = blocks index) (bound : height ≤ count) :
    tip hashOf root grown height = tip hashOf root blocks height := by
  cases height with
  | zero => rfl
  | succ height => rw [tip_succ, tip_succ, same height bound]

theorem Linked.empty : Linked hashOf prevOf root blocks 0 := by
  intro height bound
  exact absurd bound (Nat.not_lt_zero height)

theorem Linked.append (linked : Linked hashOf prevOf root blocks count)
    (same : ∀ index < count, grown index = blocks index)
    (names : prevOf (grown count) = tip hashOf root blocks count) :
    Linked hashOf prevOf root grown (count + 1) := by
  intro height bound
  rcases Nat.lt_succ_iff_lt_or_eq.mp bound with below | rfl
  · rw [same height below, linked height below, tip_congr same (Nat.le_of_lt below)]
  · rw [names, tip_congr same (Nat.le_refl _)]

theorem CollisionFree.mono {smaller : Nat} (free : CollisionFree hashOf grown count)
    (bound : smaller ≤ count) (same : ∀ index < smaller, grown index = blocks index) :
    CollisionFree hashOf blocks smaller := by
  intro first firstBound second secondBound equal
  have grownEqual := free first (Nat.lt_of_lt_of_le firstBound bound)
    second (Nat.lt_of_lt_of_le secondBound bound)
    (by rw [same first firstBound, same second secondBound]; exact equal)
  rwa [same first firstBound, same second secondBound] at grownEqual

/-- Without collisions a tip determines the height it belongs to: walking two
equal tips down in step would otherwise end at the root and at a hash. -/
theorem Linked.tip_injective (linked : Linked hashOf prevOf root blocks count)
    (free : CollisionFree hashOf blocks count) (fresh : ∀ block, hashOf block ≠ root)
    {first second : Nat} (firstBound : first ≤ count) (secondBound : second ≤ count)
    (equal : tip hashOf root blocks first = tip hashOf root blocks second) : first = second := by
  induction first generalizing second with
  | zero =>
      cases second with
      | zero => rfl
      | succ second => exact absurd equal.symm (fresh _)
  | succ first ih =>
      cases second with
      | zero => exact absurd equal (fresh _)
      | succ second =>
          have sameBlock := free first firstBound second secondBound equal
          have below : tip hashOf root blocks first = tip hashOf root blocks second := by
            rw [← linked first firstBound, ← linked second secondBound, sameBlock]
          rw [ih (Nat.le_of_lt firstBound) (Nat.le_of_lt secondBound) below]

end Systems.HashChain
