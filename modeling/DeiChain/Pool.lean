import DeiChain.Types

namespace DeiChain

open Data

/-! # The transactions pool and its generators -/

/-- The shared pool. Its `size` field is written once, with the number of
slots that the segment has, and is the length of the array here. -/
structure TransactionPool where
  count : UInt32
  transactions : List PendingTransaction

def TransactionPool.size (pool : TransactionPool) : Nat := pool.transactions.length

def PendingTransaction.zero : PendingTransaction := ⟨0, 0, Transaction.zero⟩

def TransactionPool.initial (size : Nat) : TransactionPool :=
  ⟨0, List.replicate size PendingTransaction.zero⟩

def formatTxId (pid txNumber : Nat) : List UInt8 :=
  [84, 88, 45] ++ decimal pid ++ [45] ++ decimal txNumber

/-- `rand` and `now` are what `rand()` and `time(NULL)` return, `stack` is what
the local variable held before: `snprintf` leaves it behind the terminator. -/
def generateTransaction (pid txNumber : Nat) (reward : Int32) (stack : CharArray txIdLen)
    (rand : Nat) (now : Int64) : PendingTransaction :=
  { filled := 1
    age := 0
    tx :=
      { txId := snprintf stack (formatTxId pid txNumber)
        reward
        value := Binary32.ofQuotient (rand % 10000) 100
        timestamp := now } }

/-- The three ways one round of the generator's insertion can end. -/
inductive Insertion where
  /-- "Transactions pool cheia" -/
  | full
  /-- "todos os slots marcados como ocupados" -/
  | noSlot
  | added (slot : Nat) (pool : TransactionPool)

def insertTransaction (pool : TransactionPool) (new : PendingTransaction) : Insertion :=
  if pool.count.toNat < pool.size then
    match pool.transactions.findIdx? fun slot => slot.filled == 0 with
    | some i => .added i ⟨pool.count + 1, pool.transactions.set i new⟩
    | none => .noSlot
  else .full

def TransactionPool.filledCount (pool : TransactionPool) : Nat :=
  pool.transactions.countP fun slot => slot.filled == 1

/-- The counter agrees with the flags, and the flags are flags. -/
structure TransactionPool.Consistent (pool : TransactionPool) : Prop where
  flags : ∀ slot ∈ pool.transactions, slot.filled = 0 ∨ slot.filled = 1
  counted : pool.count.toNat = pool.filledCount

theorem TransactionPool.filledCount_le (pool : TransactionPool) : pool.filledCount ≤ pool.size :=
  List.countP_le_length

theorem TransactionPool.Consistent.count_le {pool : TransactionPool} (consistent : pool.Consistent) :
    pool.count.toNat ≤ pool.size := by
  rw [consistent.counted]
  exact pool.filledCount_le

theorem TransactionPool.Consistent.filled_at {pool : TransactionPool} (consistent : pool.Consistent)
    {j : Nat} {slot : PendingTransaction} (at_j : pool.transactions[j]? = some slot)
    (occupied : slot.filled ≠ 0) : slot.filled = 1 :=
  (consistent.flags slot (List.mem_of_getElem? at_j)).resolve_left occupied

theorem TransactionPool.initial_consistent (size : Nat) : (TransactionPool.initial size).Consistent where
  flags := by
    intro slot member
    rw [List.eq_of_mem_replicate member]
    exact .inl rfl
  counted := by
    have none : (List.replicate size PendingTransaction.zero).countP (fun slot => slot.filled == 1) = 0 := by
      rw [List.countP_eq_zero]
      intro slot member
      rw [List.eq_of_mem_replicate member]
      decide
    simpa [TransactionPool.filledCount, TransactionPool.initial] using none.symm

theorem TransactionPool.Consistent.exists_empty {pool : TransactionPool} (consistent : pool.Consistent)
    (room : pool.count.toNat < pool.size) : ∃ slot ∈ pool.transactions, slot.filled = 0 := by
  by_contra none
  have all : pool.filledCount = pool.size := by
    rw [TransactionPool.filledCount, TransactionPool.size, List.countP_eq_length]
    intro slot member
    rcases consistent.flags slot member with empty | filled
    · exact absurd ⟨slot, member, empty⟩ none
    · simpa using filled
  rw [consistent.counted, all] at room
  exact Nat.lt_irrefl _ room

theorem insertTransaction_ne_noSlot {pool : TransactionPool} (consistent : pool.Consistent)
    (new : PendingTransaction) : insertTransaction pool new ≠ .noSlot := by
  unfold insertTransaction
  split
  · rename_i room
    obtain ⟨slot, member, empty⟩ := consistent.exists_empty room
    split
    · nofun
    · rename_i absent
      have occupied := List.findIdx?_eq_none_iff.mp absent slot member
      simp [empty] at occupied
  · nofun

theorem insertTransaction_added {pool after : TransactionPool} {new : PendingTransaction} {i : Nat}
    (added : insertTransaction pool new = .added i after) :
    ∃ old, pool.transactions[i]? = some old ∧ old.filled = 0 ∧ pool.count.toNat < pool.size ∧
      after.count = pool.count + 1 ∧ after.transactions = pool.transactions.set i new := by
  unfold insertTransaction at added
  split at added
  · rename_i room
    split at added
    · rename_i index found
      cases added
      obtain ⟨bound, empty, _⟩ := List.findIdx?_eq_some_iff_getElem.mp found
      exact ⟨_, List.getElem?_eq_getElem bound, by simpa using empty, room, rfl, rfl⟩
    · cases added
  · cases added

theorem filledCount_set {slots : List PendingTransaction} {i : Nat} {old : PendingTransaction}
    (new : PendingTransaction) (at_i : slots[i]? = some old) :
    (slots.set i new).countP (fun slot => slot.filled == 1) + (if old.filled = 1 then 1 else 0) =
      slots.countP (fun slot => slot.filled == 1) + (if new.filled = 1 then 1 else 0) := by
  obtain ⟨bound, value⟩ := List.getElem?_eq_some_iff.mp at_i
  have room : (if old.filled = 1 then 1 else 0) ≤ slots.countP fun slot => slot.filled == 1 := by
    split
    · rename_i filled
      exact List.countP_pos_iff.mpr ⟨old, value ▸ List.getElem_mem bound, by simpa using filled⟩
    · exact Nat.zero_le _
  rw [List.countP_set bound, value]
  simp only [beq_iff_eq]
  omega

theorem insertTransaction_consistent {pool after : TransactionPool} {new : PendingTransaction} {i : Nat}
    (consistent : pool.Consistent) (bounded : pool.size < 2 ^ 32) (filled : new.filled = 1)
    (added : insertTransaction pool new = .added i after) : after.Consistent := by
  obtain ⟨old, at_i, empty, room, count, slots⟩ := insertTransaction_added added
  have counts := filledCount_set new at_i
  refine ⟨?_, ?_⟩
  · intro slot member
    rw [slots] at member
    rcases List.mem_or_eq_of_mem_set member with member | rfl
    · exact consistent.flags slot member
    · exact .inr filled
  · have noWrap : (pool.count + 1).toNat = pool.count.toNat + 1 := by
      rw [UInt32.toNat_add]
      exact Nat.mod_eq_of_lt (by simpa using Nat.lt_of_le_of_lt room bounded)
    rw [count, noWrap, consistent.counted, TransactionPool.filledCount, TransactionPool.filledCount, slots]
    simpa [empty, filled] using counts.symm

end DeiChain
