import DeiChain.System
import Mathlib.Data.List.Perm.Subperm

namespace DeiChain

open Data Systems

/-! # Repeated selection

The loop draws slots until it has copied enough of them. Nothing is ever set in
`selected_bitmap`, so a slot can be copied as often as it is drawn.
-/

section

universe u v

variable {α : Type u} {β : Type v} [BEq β] [LawfulBEq β]

/-- A list consists of the images of pairwise different elements when it has no
value more often than all their images together. -/
theorem exists_nodup_map_iff {domain : List α} (distinct : domain.Nodup) {image : α → β} {target : List β} :
    (∃ chosen : List α, chosen.Nodup ∧ (∀ element ∈ chosen, element ∈ domain) ∧ chosen.map image = target) ↔
      ∀ value ∈ target, target.count value ≤ (domain.map image).count value := by
  constructor
  · intro given value _
    obtain ⟨chosen, nodup, inside, rfl⟩ := given
    obtain ⟨sorted, permuted, sublist⟩ := List.subperm_of_subset nodup inside
    calc (chosen.map image).count value = (sorted.map image).count value :=
          ((permuted.map image).count_eq value).symm
      _ ≤ (domain.map image).count value := (sublist.map image).count_le value
  · intro rare
    obtain ⟨images, permuted, sublist⟩ := List.subperm_ext_iff.mpr rare
    obtain ⟨kept, keptSublist, rfl⟩ := List.sublist_map_iff.mp sublist
    have related : List.Forall₂ (fun value element => value = image element) (kept.map image) kept := by
      simp [List.forall₂_map_left_iff, List.forall₂_same]
    obtain ⟨chosen, matched, same⟩ := List.perm_comp_forall₂ permuted.symm related
    refine ⟨chosen, same.nodup_iff.mpr (distinct.sublist keptSublist), ?_, ?_⟩
    · intro element member
      exact keptSublist.subset (same.subset member)
    · have equal : List.Forall₂ (fun left right => left = right) target (chosen.map image) :=
        List.forall₂_map_right_iff.mpr matched
      rw [List.forall₂_eq_eq_eq] at equal
      exact equal.symm

end

namespace TransactionPool

variable (pool : TransactionPool)

def filledAt (index : Nat) : Bool := (pool.transactions[index]?).any fun slot => slot.filled == 1

def filledSlots : List Nat := (List.range pool.size).filter pool.filledAt

/-- The check in the loop before a slot is copied. -/
def eligible (index : Nat) : Bool :=
  (pool.transactions[index]?).any fun slot => slot.tx.id != [48] && slot.filled == 1

/-- The slots that are drawn and pass the check, in the order of the draws. -/
def hits (rands : List Nat) : List Nat := (rands.map fun rand => rand % pool.size).filter pool.eligible

def copyAt (index : Nat) : Option Transaction :=
  (pool.transactions[index]?).map fun slot => copyTransaction slot.tx

/-- The transactions are copies of pairwise different filled slots. -/
def CopiesDistinct (selected : List Transaction) : Prop :=
  ∃ slots : List Nat, slots.Nodup ∧ (∀ index ∈ slots, pool.filledAt index = true) ∧
    slots.map pool.copyAt = selected.map some

/-- How many of these slots hold what the slot at `index` holds. -/
def alike (slots : List Nat) (index : Nat) : Nat := (slots.map pool.copyAt).count (pool.copyAt index)

variable {pool}

@[simp] theorem hits_cons (rand : Nat) (rands : List Nat) :
    pool.hits (rand :: rands) =
      if pool.eligible (rand % pool.size) then rand % pool.size :: pool.hits rands else pool.hits rands := by
  simp [hits, List.filter_cons]

theorem filledSlots_nodup : pool.filledSlots.Nodup := List.nodup_range.filter _

theorem mem_filledSlots {index : Nat} : index ∈ pool.filledSlots ↔ pool.filledAt index = true := by
  simp only [filledSlots, List.mem_filter, List.mem_range, and_iff_right_iff_imp]
  intro filled
  by_contra outside
  simp [filledAt, List.getElem?_eq_none (Nat.le_of_not_lt outside)] at filled

end TransactionPool

/-- What the loop copies, when its bitmap is clear and enough is in the pool. -/
theorem selectLoop_hits {pool : TransactionPool} {transactionsPerBlock : Nat} {selectedBitmap : List Bool}
    {rands : List Nat} {selected result : List Transaction}
    (clear : ∀ index, selectedBitmap.getD index false = false)
    (enough : transactionsPerBlock ≤ pool.count.toNat)
    (ended : selectLoop pool transactionsPerBlock selectedBitmap rands selected = some result) :
    result.map some = selected.map some ++
      ((pool.hits rands).take (transactionsPerBlock - selected.length)).map pool.copyAt := by
  induction rands generalizing selected with
  | nil =>
      unfold selectLoop at ended
      split at ended
      · cases ended
      · cases ended
        simp [TransactionPool.hits]
  | cons rand rands ih =>
      unfold selectLoop at ended
      by_cases more : selected.length < transactionsPerBlock
      · rw [if_pos ⟨more, enough⟩] at ended
        simp only [clear, Bool.false_eq_true, if_false] at ended
        cases found : pool.transactions[rand % pool.size]? with
        | none =>
            simp only [found] at ended
            rw [ih ended, TransactionPool.hits_cons, if_neg (by simp [TransactionPool.eligible, found])]
        | some current =>
            simp only [found] at ended
            by_cases taken : current.tx.id ≠ [48] ∧ current.filled = 1
            · rw [if_pos taken] at ended
              rw [ih ended, TransactionPool.hits_cons, if_pos (by simpa [TransactionPool.eligible, found] using taken)]
              have room : transactionsPerBlock - selected.length =
                  transactionsPerBlock - (selected ++ [copyTransaction current.tx]).length + 1 := by
                rw [List.length_append, List.length_singleton]
                omega
              rw [room, List.take_succ_cons]
              simp [TransactionPool.copyAt, found]
            · rw [if_neg taken] at ended
              rw [ih ended, TransactionPool.hits_cons,
                if_neg (by simpa [TransactionPool.eligible, found] using taken)]
      · rw [if_neg (fun both => more both.1)] at ended
        cases ended
        simp [Nat.sub_eq_zero_of_le (Nat.le_of_not_lt more)]

variable {pool : TransactionPool} {transactionsPerBlock : Nat} {rands : List Nat} {selected : List Transaction}

theorem bitmap_clear (size index : Nat) : (List.replicate size false).getD index false = false := by
  rw [List.getD_eq_getElem?_getD, List.getElem?_replicate]
  split <;> rfl

theorem selectTransactions_hits (enough : transactionsPerBlock ≤ pool.count.toNat)
    (ended : selectTransactions pool transactionsPerBlock rands = some selected) :
    selected.map some = ((pool.hits rands).take transactionsPerBlock).map pool.copyAt := by
  rw [selectTransactions, if_pos enough] at ended
  simpa using selectLoop_hits (bitmap_clear pool.size) enough ended

/-- Draws that all hit are copied one by one. -/
theorem selectLoop_all {selectedBitmap : List Bool} {slots : Nat → PendingTransaction}
    (clear : ∀ index, selectedBitmap.getD index false = false)
    (enough : transactionsPerBlock ≤ pool.count.toNat)
    (hit : ∀ rand ∈ rands, pool.transactions[rand % pool.size]? = some (slots rand) ∧
      (slots rand).tx.id ≠ [48] ∧ (slots rand).filled = 1)
    (full : selected.length + rands.length = transactionsPerBlock) :
    selectLoop pool transactionsPerBlock selectedBitmap rands selected =
      some (selected ++ rands.map fun rand => copyTransaction (slots rand).tx) := by
  induction rands generalizing selected with
  | nil =>
      unfold selectLoop
      rw [if_neg (by simp at full; omega)]
      simp
  | cons rand rands ih =>
      obtain ⟨found, taken⟩ := hit rand List.mem_cons_self
      rw [List.length_cons] at full
      unfold selectLoop
      rw [if_pos ⟨by omega, enough⟩]
      simp only [clear, Bool.false_eq_true, if_false, found, if_pos taken]
      rw [ih (fun other member => hit other (List.mem_cons_of_mem _ member)) (by simp; omega)]
      simp

theorem selectTransactions_all {slots : Nat → PendingTransaction}
    (enough : transactionsPerBlock ≤ pool.count.toNat) (full : rands.length = transactionsPerBlock)
    (hit : ∀ rand ∈ rands, pool.transactions[rand % pool.size]? = some (slots rand) ∧
      (slots rand).tx.id ≠ [48] ∧ (slots rand).filled = 1) :
    selectTransactions pool transactionsPerBlock rands =
      some (rands.map fun rand => copyTransaction (slots rand).tx) := by
  rw [selectTransactions, if_pos enough]
  exact selectLoop_all (bitmap_clear pool.size) enough hit (by simpa using full)

/-- The selected transactions are copies of pairwise different filled slots
exactly when, of the draws that count, no more hit a slot with some content
than there are filled slots with that content. -/
theorem copiesDistinct_iff (enough : transactionsPerBlock ≤ pool.count.toNat)
    (ended : selectTransactions pool transactionsPerBlock rands = some selected) :
    pool.CopiesDistinct selected ↔
      ∀ index ∈ (pool.hits rands).take transactionsPerBlock,
        pool.alike ((pool.hits rands).take transactionsPerBlock) index ≤ pool.alike pool.filledSlots index := by
  simp only [TransactionPool.CopiesDistinct, selectTransactions_hits enough ended,
    ← TransactionPool.mem_filledSlots]
  rw [exists_nodup_map_iff TransactionPool.filledSlots_nodup, List.forall_mem_map]
  simp only [TransactionPool.alike]

/-- The pool of two slots once two generators have filled it. -/
def filledPair : TransactionPool where
  count := 2
  transactions := [generateTransaction 1 0 1 (zeroArray txIdLen) 5 7,
    generateTransaction 2 0 1 (zeroArray txIdLen) 5 7]

theorem filledPair_ends : (selectTransactions filledPair 2 [2, 5]).isSome = true := by decide +kernel

theorem filledPair_draws_distinct : ∃ selected, selectTransactions filledPair 2 [2, 5] = some selected ∧
    selected.length = 2 ∧ filledPair.CopiesDistinct selected := by
  have ended := (Option.some_get filledPair_ends).symm
  exact ⟨_, ended, by decide +kernel, (copiesDistinct_iff (by decide) ended).mpr (by decide +kernel)⟩

theorem filledPair_repeat_ends : (selectTransactions filledPair 2 [2, 4]).isSome = true := by decide +kernel

/-- Slot 0 is drawn twice. -/
theorem filledPair_draws_twice : filledPair.Consistent ∧ 2 ≤ filledPair.count.toNat ∧
    ∃ selected, selectTransactions filledPair 2 [2, 4] = some selected ∧ selected.length = 2 ∧
      ¬ filledPair.CopiesDistinct selected := by
  refine ⟨⟨by decide +kernel, by decide +kernel⟩, by decide, _,
    (Option.some_get filledPair_repeat_ends).symm, by decide +kernel, ?_⟩
  intro given
  obtain ⟨slots, distinct, filled, copies⟩ := given
  have rare := (exists_nodup_map_iff TransactionPool.filledSlots_nodup).mp
    ⟨slots, distinct, fun index member => TransactionPool.mem_filledSlots.mpr (filled index member), copies⟩
  exact absurd rare (by decide +kernel)

end DeiChain
