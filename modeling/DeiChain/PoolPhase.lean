import DeiChain.Pool

namespace DeiChain

open Data

variable {n : Nat}

/-! # The validator's pool phase

Check every transaction of the block against the pool, remove them all, age
what is left. `tx_found_bitmap` and `temp_tx_array` of the source are written
and never read, and are left out.
-/

def txCompare (tx1 tx2 : Transaction) : Bool :=
  sameString tx1.txId.toList tx2.txId.toList && tx1.reward == tx2.reward &&
    tx1.value.equal tx2.value && tx1.timestamp == tx2.timestamp

/-- The search both loops make: the first filled slot with the id of `tx`. -/
def findTransaction (pool : TransactionPool) (tx : Transaction) : Option Nat :=
  pool.transactions.findIdx? fun slot =>
    slot.filled != 0 && sameString tx.txId.toList slot.tx.txId.toList

/-- One round of the checking loop; `false` is `skip_block = 1`, set because
the slot differs or because there is none. -/
def checkTransaction (pool : TransactionPool) (tx : Transaction) : Bool :=
  match findTransaction pool tx with
  | some j => (pool.transactions[j]?).any fun slot => txCompare tx slot.tx
  | none => false

def checkTransactions (pool : TransactionPool) (block : TransactionBlock n) : Bool :=
  block.transactions.toList.all (checkTransaction pool)

def PendingTransaction.clear (slot : PendingTransaction) : PendingTransaction := { slot with filled := 0 }

/-- One round of the removal loop; an id that is no longer there is skipped. -/
def removeTransaction (pool : TransactionPool) (tx : Transaction) : TransactionPool :=
  match findTransaction pool tx with
  | some j => ⟨pool.count - 1, pool.transactions.modify j PendingTransaction.clear⟩
  | none => pool

def removeTransactions (pool : TransactionPool) (txs : List Transaction) : TransactionPool :=
  txs.foldl removeTransaction pool

def PendingTransaction.aged (slot : PendingTransaction) : PendingTransaction :=
  if slot.filled = 1 then
    { slot with
      age := slot.age + 1
      tx := { slot.tx with reward := if slot.age % 50 = 0 then slot.tx.reward + 1 else slot.tx.reward } }
  else slot

def ageTransactions (pool : TransactionPool) : TransactionPool :=
  ⟨pool.count, pool.transactions.map PendingTransaction.aged⟩

/-- `none` when the block is rejected here; the pool is then as it was. -/
def poolPhase (pool : TransactionPool) (block : TransactionBlock n) : Option TransactionPool :=
  if checkTransactions pool block then
    some (ageTransactions (removeTransactions pool block.transactions.toList))
  else none

@[simp] theorem PendingTransaction.clear_filled (slot : PendingTransaction) : slot.clear.filled = 0 := rfl

@[simp] theorem PendingTransaction.aged_filled (slot : PendingTransaction) :
    slot.aged.filled = slot.filled := by
  unfold PendingTransaction.aged
  split <;> rfl

@[simp] theorem PendingTransaction.aged_txId (slot : PendingTransaction) :
    slot.aged.tx.txId = slot.tx.txId := by
  unfold PendingTransaction.aged
  split <;> rfl

@[simp] theorem PendingTransaction.aged_value (slot : PendingTransaction) :
    slot.aged.tx.value = slot.tx.value := by
  unfold PendingTransaction.aged
  split <;> rfl

@[simp] theorem PendingTransaction.aged_timestamp (slot : PendingTransaction) :
    slot.aged.tx.timestamp = slot.tx.timestamp := by
  unfold PendingTransaction.aged
  split <;> rfl

@[simp] theorem PendingTransaction.aged_id (slot : PendingTransaction) : slot.aged.tx.id = slot.tx.id := by
  simp [Transaction.id]

theorem txCompare_iff {tx1 tx2 : Transaction} :
    txCompare tx1 tx2 = true ↔ tx1.id = tx2.id ∧ tx1.reward = tx2.reward ∧
      tx1.value.equal tx2.value = true ∧ tx1.timestamp = tx2.timestamp := by
  simp [txCompare, Transaction.id, and_assoc]

theorem findTransaction_some {pool : TransactionPool} {tx : Transaction} {j : Nat}
    (found : findTransaction pool tx = some j) :
    ∃ slot, pool.transactions[j]? = some slot ∧ slot.filled ≠ 0 ∧ tx.id = slot.tx.id := by
  obtain ⟨bound, holds, _⟩ := List.findIdx?_eq_some_iff_getElem.mp found
  refine ⟨_, List.getElem?_eq_getElem bound, ?_⟩
  simpa [Transaction.id] using holds

theorem findTransaction_none {pool : TransactionPool} {tx : Transaction} :
    findTransaction pool tx = none ↔
      ∀ slot ∈ pool.transactions, slot.filled ≠ 0 → tx.id ≠ slot.tx.id := by
  simp [findTransaction, List.findIdx?_eq_none_iff, Transaction.id, sameString_eq_false_iff]

/-- The counter goes down exactly when a filled slot is cleared, whatever ids the
block names and however often. -/
theorem removeTransaction_consistent {pool : TransactionPool} (consistent : pool.Consistent)
    (tx : Transaction) : (removeTransaction pool tx).Consistent := by
  unfold removeTransaction
  split
  · rename_i j found
    obtain ⟨slot, at_j, occupied, _⟩ := findTransaction_some found
    obtain ⟨bound, value⟩ := List.getElem?_eq_some_iff.mp at_j
    have filled := consistent.filled_at at_j occupied
    have written : pool.transactions.modify j PendingTransaction.clear =
        pool.transactions.set j slot.clear := by
      rw [List.modify_eq_set_get _ bound, List.get_eq_getElem, value]
    have counts := filledCount_set slot.clear at_j
    have positive : 0 < pool.filledCount :=
      List.countP_pos_iff.mpr ⟨slot, value ▸ List.getElem_mem bound, by simpa using filled⟩
    refine ⟨?_, ?_⟩
    · intro other member
      rw [written] at member
      rcases List.mem_or_eq_of_mem_set member with member | rfl
      · exact consistent.flags other member
      · exact .inl rfl
    · have noWrap : (pool.count - 1).toNat = pool.count.toNat - 1 := by
        rw [UInt32.toNat_sub_of_le _ _ (UInt32.le_iff_toNat_le.mpr _)]
        · rfl
        · rw [consistent.counted]
          exact positive
      rw [noWrap, consistent.counted, TransactionPool.filledCount, TransactionPool.filledCount, written]
      simp only [filled, PendingTransaction.clear_filled, if_true, if_false, Nat.add_zero,
        show ¬ ((0 : Int) = 1) by decide] at counts
      dsimp only
      omega
  · exact consistent

theorem removeTransactions_consistent {pool : TransactionPool} (consistent : pool.Consistent)
    (txs : List Transaction) : (removeTransactions pool txs).Consistent := by
  induction txs generalizing pool with
  | nil => exact consistent
  | cons tx rest ih => exact ih (removeTransaction_consistent consistent tx)

theorem ageTransactions_consistent {pool : TransactionPool} (consistent : pool.Consistent) :
    (ageTransactions pool).Consistent where
  flags := by
    intro slot member
    obtain ⟨before, beforeMember, rfl⟩ := List.mem_map.mp member
    simpa using consistent.flags before beforeMember
  counted := by
    simpa [TransactionPool.filledCount, ageTransactions, List.countP_map, Function.comp_def] using
      consistent.counted

theorem poolPhase_consistent {pool after : TransactionPool} {block : TransactionBlock n}
    (consistent : pool.Consistent) (accepted : poolPhase pool block = some after) :
    after.Consistent := by
  unfold poolPhase at accepted
  split at accepted
  · cases accepted
    exact ageTransactions_consistent (removeTransactions_consistent consistent _)
  · cases accepted

@[simp] theorem removeTransaction_size (pool : TransactionPool) (tx : Transaction) :
    (removeTransaction pool tx).size = pool.size := by
  unfold removeTransaction
  split <;> simp [TransactionPool.size]

@[simp] theorem removeTransactions_size (pool : TransactionPool) (txs : List Transaction) :
    (removeTransactions pool txs).size = pool.size := by
  induction txs generalizing pool with
  | nil => rfl
  | cons tx rest ih => exact (ih (removeTransaction pool tx)).trans (removeTransaction_size pool tx)

theorem poolPhase_size {pool after : TransactionPool} {block : TransactionBlock n}
    (accepted : poolPhase pool block = some after) : after.size = pool.size := by
  unfold poolPhase at accepted
  split at accepted
  · cases accepted
    simpa [ageTransactions, TransactionPool.size] using
      removeTransactions_size pool block.transactions.toList
  · cases accepted

/-- What `generate_transaction` gives a slot for good; the flag, the age and the
reward are what the pool phase writes. -/
def PendingTransaction.content (slot : PendingTransaction) : CharArray txIdLen × Binary32 × Int64 :=
  (slot.tx.txId, slot.tx.value, slot.tx.timestamp)

theorem removeTransactions_content (pool : TransactionPool) (txs : List Transaction) :
    (removeTransactions pool txs).transactions.map PendingTransaction.content =
      pool.transactions.map PendingTransaction.content := by
  induction txs generalizing pool with
  | nil => rfl
  | cons tx rest ih =>
      refine (ih (removeTransaction pool tx)).trans ?_
      unfold removeTransaction
      split
      · apply List.ext_getElem?
        intro i
        rw [List.getElem?_map, List.getElem?_map, List.getElem?_modify]
        cases pool.transactions[i]? with
        | none => rfl
        | some slot =>
            simp only [Option.map_eq_map, Option.map_some]
            split <;> rfl
      · rfl

theorem poolPhase_content {pool after : TransactionPool} {block : TransactionBlock n}
    (accepted : poolPhase pool block = some after) :
    after.transactions.map PendingTransaction.content =
      pool.transactions.map PendingTransaction.content := by
  unfold poolPhase at accepted
  split at accepted
  · cases accepted
    rw [ageTransactions, List.map_map, ← removeTransactions_content pool block.transactions.toList]
    congr 1
    funext slot
    simp [PendingTransaction.content]
  · cases accepted

theorem removeTransactions_filled (pool : TransactionPool) (txs : List Transaction) {j : Nat}
    {slot : PendingTransaction} (at_j : (removeTransactions pool txs).transactions[j]? = some slot)
    (filled : slot.filled ≠ 0) : pool.transactions[j]? = some slot := by
  induction txs generalizing pool with
  | nil => exact at_j
  | cons tx rest ih =>
      have still := ih (removeTransaction pool tx) at_j
      unfold removeTransaction at still
      split at still
      · rw [List.getElem?_modify] at still
        obtain ⟨old, at_old, same⟩ := Option.map_eq_some_iff.mp still
        split at same
        · subst same
          exact absurd rfl filled
        · exact at_old.trans (congrArg some same)
      · exact still

/-- Whatever the block, a slot that is filled after the phase was filled before
it and has only aged. -/
theorem poolPhase_filled {pool after : TransactionPool} {block : TransactionBlock n}
    (accepted : poolPhase pool block = some after) {j : Nat} {slot : PendingTransaction}
    (at_j : after.transactions[j]? = some slot) (filled : slot.filled ≠ 0) :
    ∃ old, pool.transactions[j]? = some old ∧ old.filled ≠ 0 ∧ slot = old.aged := by
  unfold poolPhase at accepted
  split at accepted
  · cases accepted
    rw [ageTransactions, List.getElem?_map] at at_j
    obtain ⟨old, at_old, rfl⟩ := Option.map_eq_some_iff.mp at_j
    rw [PendingTransaction.aged_filled] at filled
    exact ⟨old, removeTransactions_filled pool _ at_old filled, filled, rfl⟩
  · cases accepted

def TransactionPool.DistinctIds (pool : TransactionPool) : Prop :=
  ∀ (i j : Nat) (first second : PendingTransaction),
    pool.transactions[i]? = some first → pool.transactions[j]? = some second →
    first.filled ≠ 0 → second.filled ≠ 0 → first.tx.id = second.tx.id → i = j

theorem TransactionPool.distinctIds_iff {pool : TransactionPool} :
    pool.DistinctIds ↔ pool.transactions.Pairwise fun first second =>
      first.filled ≠ 0 → second.filled ≠ 0 → first.tx.id ≠ second.tx.id := by
  rw [List.pairwise_iff_getElem]
  constructor
  · intro distinct i j iBound jBound below firstFilled secondFilled same
    exact Nat.ne_of_lt below (distinct i j _ _ (List.getElem?_eq_getElem iBound)
      (List.getElem?_eq_getElem jBound) firstFilled secondFilled same)
  · intro apart i j first second at_i at_j firstFilled secondFilled same
    obtain ⟨iBound, rfl⟩ := List.getElem?_eq_some_iff.mp at_i
    obtain ⟨jBound, rfl⟩ := List.getElem?_eq_some_iff.mp at_j
    rcases Nat.lt_trichotomy i j with below | here | above
    · exact absurd same (apart i j iBound jBound below firstFilled secondFilled)
    · exact here
    · exact absurd same.symm (apart j i jBound iBound above secondFilled firstFilled)

def PendingTransaction.without (slot : PendingTransaction) (ids : List (List UInt8)) : PendingTransaction :=
  if slot.filled ≠ 0 ∧ slot.tx.id ∈ ids then slot.clear else slot

theorem removeTransaction_slots {pool : TransactionPool} (distinct : pool.DistinctIds) (tx : Transaction)
    (j : Nat) : (removeTransaction pool tx).transactions[j]? =
      (pool.transactions[j]?).map fun slot => slot.without [tx.id] := by
  unfold removeTransaction
  split
  · rename_i i found
    obtain ⟨target, at_i, occupied, same⟩ := findTransaction_some found
    rw [List.getElem?_modify]
    cases at_j : pool.transactions[j]? with
    | none => simp
    | some slot =>
        simp only [Option.map_eq_map, Option.map_some]
        by_cases here : i = j
        · subst here
          have identical : target = slot := Option.some.inj (at_i.symm.trans at_j)
          subst identical
          simp [PendingTransaction.without, occupied, same]
        · have other : ¬ (slot.filled ≠ 0 ∧ slot.tx.id ∈ [tx.id]) := by
            intro found
            obtain ⟨filled, member⟩ := found
            exact here (distinct i j target slot at_i at_j occupied filled
              (same.symm.trans (List.mem_singleton.mp member).symm))
          rw [if_neg here, PendingTransaction.without, if_neg other]
  · rename_i absent
    cases at_j : pool.transactions[j]? with
    | none => rfl
    | some slot =>
        obtain ⟨bound, value⟩ := List.getElem?_eq_some_iff.mp at_j
        have elsewhere := findTransaction_none.mp absent slot (value ▸ List.getElem_mem bound)
        have other : ¬ (slot.filled ≠ 0 ∧ slot.tx.id ∈ [tx.id]) := by
          intro found
          obtain ⟨filled, member⟩ := found
          exact elsewhere filled (List.mem_singleton.mp member).symm
        rw [Option.map_some, PendingTransaction.without, if_neg other]

theorem PendingTransaction.without_tx (slot : PendingTransaction) (ids : List (List UInt8)) :
    (slot.without ids).tx = slot.tx := by
  unfold PendingTransaction.without
  split <;> rfl

theorem PendingTransaction.without_filled (slot : PendingTransaction) (ids : List (List UInt8)) :
    (slot.without ids).filled ≠ 0 ↔ slot.filled ≠ 0 ∧ slot.tx.id ∉ ids := by
  unfold PendingTransaction.without
  split
  · rename_i removed
    simp [removed.2]
  · rename_i kept
    simp only [not_and] at kept
    exact ⟨fun filled => ⟨filled, kept filled⟩, And.left⟩

theorem PendingTransaction.without_without (slot : PendingTransaction) (first second : List (List UInt8)) :
    (slot.without first).without second = slot.without (first ++ second) := by
  unfold PendingTransaction.without
  by_cases filled : slot.filled = 0
  · simp [filled]
  · by_cases member : slot.tx.id ∈ first <;> simp [filled, member]

theorem TransactionPool.DistinctIds.of_without {pool after : TransactionPool} (distinct : pool.DistinctIds)
    {ids : List (List UInt8)}
    (slots : ∀ j : Nat, after.transactions[j]? = (pool.transactions[j]?).map fun slot => slot.without ids) :
    after.DistinctIds := by
  intro i j first second at_i at_j firstFilled secondFilled same
  rw [slots] at at_i at_j
  obtain ⟨firstBefore, firstAt, rfl⟩ := Option.map_eq_some_iff.mp at_i
  obtain ⟨secondBefore, secondAt, rfl⟩ := Option.map_eq_some_iff.mp at_j
  rw [PendingTransaction.without_tx, PendingTransaction.without_tx] at same
  exact distinct i j _ _ firstAt secondAt ((PendingTransaction.without_filled _ _).mp firstFilled).1
    ((PendingTransaction.without_filled _ _).mp secondFilled).1 same

theorem removeTransactions_slots {pool : TransactionPool} (distinct : pool.DistinctIds)
    (txs : List Transaction) (j : Nat) : (removeTransactions pool txs).transactions[j]? =
      (pool.transactions[j]?).map fun slot => slot.without (txs.map Transaction.id) := by
  induction txs generalizing pool with
  | nil =>
      have unchanged : (fun slot : PendingTransaction => slot.without []) = id := by
        funext slot
        simp [PendingTransaction.without]
      simp [removeTransactions, unchanged]
  | cons tx rest ih =>
      have first := removeTransaction_slots distinct tx
      change (removeTransactions (removeTransaction pool tx) rest).transactions[j]? = _
      rw [ih (distinct.of_without first), first, Option.map_map]
      congr 1
      funext slot
      exact slot.without_without [tx.id] (rest.map Transaction.id)

/-- Everything a successful pool phase does to a slot: emptied when the block
names its id, aged when it is still filled after that. -/
theorem poolPhase_slots {pool after : TransactionPool} {block : TransactionBlock n}
    (distinct : pool.DistinctIds) (accepted : poolPhase pool block = some after) (j : Nat) :
    after.transactions[j]? =
      (pool.transactions[j]?).map fun slot => (slot.without block.ids).aged := by
  unfold poolPhase at accepted
  split at accepted
  · cases accepted
    rw [ageTransactions, List.getElem?_map, removeTransactions_slots distinct, Option.map_map]
    rfl
  · cases accepted

/-- The block's transaction agrees with a filled slot of the pool. -/
def TransactionPool.Offers (pool : TransactionPool) (tx : Transaction) : Prop :=
  ∃ slot ∈ pool.transactions, slot.filled ≠ 0 ∧ txCompare tx slot.tx = true

theorem checkTransaction_offers {pool : TransactionPool} {tx : Transaction}
    (checked : checkTransaction pool tx = true) : ∃ j slot, findTransaction pool tx = some j ∧
      pool.transactions[j]? = some slot ∧ slot.filled ≠ 0 ∧ txCompare tx slot.tx = true := by
  unfold checkTransaction at checked
  split at checked
  · rename_i j found
    obtain ⟨slot, at_j, occupied, _⟩ := findTransaction_some found
    exact ⟨j, slot, found, at_j, occupied, by simpa [at_j] using checked⟩
  · cases checked

theorem checkTransaction_iff {pool : TransactionPool} (distinct : pool.DistinctIds) {tx : Transaction} :
    checkTransaction pool tx = true ↔ pool.Offers tx := by
  constructor
  · intro checked
    obtain ⟨j, slot, _, at_j, occupied, agrees⟩ := checkTransaction_offers checked
    obtain ⟨bound, value⟩ := List.getElem?_eq_some_iff.mp at_j
    exact ⟨slot, value ▸ List.getElem_mem bound, occupied, agrees⟩
  · intro found
    obtain ⟨slot, member, occupied, agrees⟩ := found
    obtain ⟨i, bound, value⟩ := List.getElem_of_mem member
    have at_i : pool.transactions[i]? = some slot := value ▸ List.getElem?_eq_getElem bound
    have sameId := (txCompare_iff.mp agrees).1
    unfold checkTransaction
    cases found : findTransaction pool tx with
    | none => exact absurd sameId (findTransaction_none.mp found slot member occupied)
    | some j =>
        obtain ⟨other, at_j, otherFilled, otherSame⟩ := findTransaction_some found
        have here : j = i := distinct j i other slot at_j at_i otherFilled occupied
          (otherSame.symm.trans sameId)
        subst here
        simpa [at_i] using agrees

theorem poolPhase_isSome_iff {pool : TransactionPool} (distinct : pool.DistinctIds)
    {block : TransactionBlock n} :
    (poolPhase pool block).isSome = true ↔ ∀ tx ∈ block.transactions.toList, pool.Offers tx := by
  have checks : checkTransactions pool block = true ↔ ∀ tx ∈ block.transactions.toList, pool.Offers tx := by
    rw [checkTransactions, List.all_eq_true]
    exact forall₂_congr fun tx _ => checkTransaction_iff distinct
  unfold poolPhase
  split
  · rename_i accepted
    simpa using checks.mp accepted
  · rename_i rejected
    simpa using fun all => rejected (checks.mpr all)

end DeiChain
