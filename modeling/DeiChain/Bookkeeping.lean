import DeiChain.Transition

namespace DeiChain

open Data Systems

/-! # The pool over whole runs -/

/-- A slot as the generators leave it: a terminated id and a value that equals itself. -/
structure PendingTransaction.Proper (slot : PendingTransaction) : Prop where
  terminated : slot.tx.id.length < txIdLen
  number : slot.tx.value.isNaN = false

structure TransactionPool.Sound (pool : TransactionPool) (size : Nat) : Prop where
  consistent : pool.Consistent
  sized : pool.size = size
  proper : ∀ slot ∈ pool.transactions, slot.Proper

theorem TransactionPool.initial_sound (size : Nat) : (TransactionPool.initial size).Sound size where
  consistent := TransactionPool.initial_consistent size
  sized := by simp [TransactionPool.initial, TransactionPool.size]
  proper := by
    intro slot member
    rw [List.eq_of_mem_replicate member]
    exact ⟨by decide, by decide⟩

theorem generateTransaction_proper (pid txNumber : Nat) (reward : Int32) (stack : CharArray txIdLen)
    (rand : Nat) (now : Int64) : (generateTransaction pid txNumber reward stack rand now).Proper where
  terminated := generateTransaction_terminated pid txNumber reward stack rand now
  number := by
    have small : Nat.log 2 (rand % 10000) ≤ Nat.log 2 10000 := Nat.log_mono_right (by omega)
    exact Binary32.ofQuotient_number (by decide) (small.trans (by decide))

theorem insertTransaction_sound {pool after : TransactionPool} {new : PendingTransaction} {i size : Nat}
    (sound : pool.Sound size) (bounded : size < 2 ^ 32) (filled : new.filled = 1) (proper : new.Proper)
    (added : insertTransaction pool new = .added i after) : after.Sound size := by
  obtain ⟨old, at_i, empty, room, count, slots⟩ := insertTransaction_added added
  refine ⟨insertTransaction_consistent sound.consistent (sound.sized ▸ bounded) filled added, ?_, ?_⟩
  · rw [TransactionPool.size, slots, List.length_set]
    exact sound.sized
  · intro slot member
    rw [slots] at member
    rcases List.mem_or_eq_of_mem_set member with member | rfl
    · exact sound.proper slot member
    · exact proper

theorem poolPhase_sound {n size : Nat} {pool after : TransactionPool} {block : TransactionBlock n}
    (sound : pool.Sound size) (accepted : poolPhase pool block = some after) : after.Sound size := by
  refine ⟨poolPhase_consistent sound.consistent accepted, (poolPhase_size accepted).trans sound.sized, ?_⟩
  intro slot member
  have kept : slot.content ∈ pool.transactions.map PendingTransaction.content :=
    poolPhase_content accepted ▸ List.mem_map_of_mem member
  obtain ⟨old, oldMember, same⟩ := List.mem_map.mp kept
  simp only [PendingTransaction.content, Prod.mk.injEq] at same
  have proper := sound.proper old oldMember
  exact ⟨by simpa only [Transaction.id, same.1] using proper.terminated, same.2.1 ▸ proper.number⟩

theorem Config.poolSize_lt (cfg : Config) : cfg.transactionPoolSize < 2 ^ 32 :=
  Nat.lt_of_lt_of_le cfg.poolInt (by decide)

section

variable {setup : Setup} {before after final : State setup.txs} {event : Event}
  {trace : List (State setup.txs × Event)}

theorem Transition.pool_sound (taken : Transition setup before event after)
    (sound : before.pool.Sound setup.cfg.transactionPoolSize) :
    after.pool.Sound setup.cfg.transactionPoolSize := by
  rcases taken.pool with same | ⟨gen, stack, rand, now, slot, _, added⟩ | ⟨_, block, _, _, _, passed⟩
  · rw [same]
    exact sound
  · exact insertTransaction_sound sound setup.cfg.poolSize_lt rfl
      (generateTransaction_proper _ _ _ stack rand now) added
  · exact poolPhase_sound sound passed

theorem SystemRun.pool_sound (run : SystemRun setup trace final) :
    final.pool.Sound setup.cfg.transactionPoolSize :=
  Run.invariant (fun state => state.pool.Sound setup.cfg.transactionPoolSize)
    (TransactionPool.initial_sound _)
    (fun _ _ _ sound taken => (step_transition taken).pool_sound sound) run

theorem TransactionPool.Consistent.positive_of_found {pool : TransactionPool}
    (consistent : pool.Consistent) {tx : Transaction} (found : findTransaction pool tx ≠ none) :
    0 < pool.count.toNat := by
  obtain ⟨j, at_j⟩ := Option.ne_none_iff_exists'.mp found
  obtain ⟨slot, at_slot, occupied, _⟩ := findTransaction_some at_j
  have member := List.mem_of_getElem? at_slot
  have filled := consistent.filled_at at_slot occupied
  rw [consistent.counted]
  exact List.countP_pos_iff.mpr ⟨slot, member, by simpa using filled⟩

/-- In every reachable state the counter is the number of filled slots, so that
a generator always finds the room that the counter promises, writes only to a
slot that is not filled, and no removal, of whatever block, takes the counter
below zero. -/
theorem pool_bookkeeping (setup : Setup) {trace : List (State setup.txs × Event)}
    {final : State setup.txs} (run : SystemRun setup trace final) :
    final.pool.count.toNat = final.pool.filledCount ∧
      (∀ slot ∈ final.pool.transactions, slot.filled = 0 ∨ slot.filled = 1) ∧
      final.pool.count.toNat ≤ final.pool.size ∧
      (∀ new, insertTransaction final.pool new ≠ .noSlot) ∧
      (∀ new i pool, insertTransaction final.pool new = .added i pool →
        ∃ old, final.pool.transactions[i]? = some old ∧ old.filled = 0) ∧
      ∀ (removed : List Transaction) (next : Transaction),
        findTransaction (removeTransactions final.pool removed) next ≠ none →
          0 < (removeTransactions final.pool removed).count.toNat := by
  have consistent := run.pool_sound.consistent
  refine ⟨consistent.counted, consistent.flags, consistent.count_le,
    insertTransaction_ne_noSlot consistent, ?_, ?_⟩
  · intro new i pool added
    obtain ⟨old, at_i, empty, _⟩ := insertTransaction_added added
    exact ⟨old, at_i, empty⟩
  · intro removed next found
    exact (removeTransactions_consistent consistent removed).positive_of_found found

theorem pool_bookkeeping_after_first_block : ∃ trace, SystemRun smallSetup trace firstBlock ∧
    firstBlock.pool.count.toNat = firstBlock.pool.filledCount := by
  obtain ⟨trace, run, _⟩ := firstBlock_run
  exact ⟨trace, run, (pool_bookkeeping smallSetup run).1⟩

end

end DeiChain
