import DeiChain.Provenance
import Mathlib.Data.List.Perm.Basic

namespace DeiChain

open Data Systems

variable {n : Nat}

/-! # How often a block consumes a transaction

The checking loop looks each transaction up in the pool on its own, and the
removal loop skips what is no longer there: a block that repeats an id passes
the first and empties one slot in the second.
-/

def earnedAmount (block : TransactionBlock n) : Int32 :=
  block.transactions.toList.foldl (fun amount tx => amount + tx.reward) 0

/-- The slots that a block with these ids empties. -/
def TransactionPool.consumed (pool : TransactionPool) (ids : List (List UInt8)) : List PendingTransaction :=
  pool.transactions.filter fun slot => slot.filled != 0 && ids.contains slot.tx.id

def TransactionPool.occupied (pool : TransactionPool) : Nat :=
  pool.transactions.countP fun slot => slot.filled != 0

/-- If the block is accepted its ids are distinct, the counter drops by the
number of its transactions, and its rewards are those of the emptied slots. -/
def ConsumesOnce (pool : TransactionPool) (block : TransactionBlock n) : Prop :=
  ∀ after, poolPhase pool block = some after → block.ids.Nodup ∧
    after.count = pool.count - UInt32.ofNat n ∧
    earnedAmount block = (pool.consumed block.ids).foldl (fun amount slot => amount + slot.tx.reward) 0

def RepeatsNoOffer (pool : TransactionPool) (block : TransactionBlock n) : Prop :=
  block.ids.Nodup ∨ ∃ tx ∈ block.transactions.toList, ¬ pool.Offers tx

theorem removeTransaction_balance (pool : TransactionPool) (tx : Transaction) :
    (removeTransaction pool tx).count + UInt32.ofNat pool.occupied =
      pool.count + UInt32.ofNat (removeTransaction pool tx).occupied := by
  unfold removeTransaction
  split
  · rename_i j found
    obtain ⟨slot, at_j, occupied, _⟩ := findTransaction_some found
    obtain ⟨bound, value⟩ := List.getElem?_eq_some_iff.mp at_j
    have written : pool.transactions.modify j PendingTransaction.clear =
        pool.transactions.set j slot.clear := by
      rw [List.modify_eq_set_get _ bound, List.get_eq_getElem, value]
    have positive : 0 < pool.occupied :=
      List.countP_pos_iff.mpr ⟨slot, value ▸ List.getElem_mem bound, by simpa using occupied⟩
    have fewer : pool.occupied =
        (pool.transactions.set j slot.clear).countP (fun slot => slot.filled != 0) + 1 := by
      rw [List.countP_set bound, value]
      simp only [occupied, bne_iff_ne, ne_eq, not_false_eq_true, if_true, PendingTransaction.clear_filled,
        not_true_eq_false, if_false, Nat.add_zero]
      exact (Nat.sub_add_cancel positive).symm
    dsimp only [TransactionPool.occupied] at fewer ⊢
    rw [written, fewer, UInt32.ofNat_add]
    change pool.count - 1 + (_ + 1) = _
    grind
  · rfl

theorem removeTransactions_balance (pool : TransactionPool) (txs : List Transaction) :
    (removeTransactions pool txs).count + UInt32.ofNat pool.occupied =
      pool.count + UInt32.ofNat (removeTransactions pool txs).occupied := by
  induction txs generalizing pool with
  | nil => rfl
  | cons tx rest ih =>
      have first := removeTransaction_balance pool tx
      have others := ih (removeTransaction pool tx)
      change (removeTransactions (removeTransaction pool tx) rest).count + _ =
        _ + UInt32.ofNat (removeTransactions (removeTransaction pool tx) rest).occupied
      grind

theorem removeTransactions_occupied {pool : TransactionPool} (distinct : pool.DistinctIds)
    (txs : List Transaction) : pool.occupied = (removeTransactions pool txs).occupied +
      (pool.consumed (txs.map Transaction.id)).length := by
  have slots : (removeTransactions pool txs).transactions =
      pool.transactions.map fun slot => slot.without (txs.map Transaction.id) := by
    apply List.ext_getElem?
    intro j
    rw [removeTransactions_slots distinct, List.getElem?_map]
  have left : (removeTransactions pool txs).occupied = pool.transactions.countP fun slot =>
      slot.filled != 0 && !(txs.map Transaction.id).contains slot.tx.id := by
    rw [TransactionPool.occupied, slots, List.countP_map]
    apply List.countP_congr
    intro slot _
    simpa using PendingTransaction.without_filled slot (txs.map Transaction.id)
  have parts := List.countP_eq_countP_filter_add pool.transactions (fun slot => slot.filled != 0)
    (fun slot => (txs.map Transaction.id).contains slot.tx.id)
  rw [List.countP_filter, List.countP_filter] at parts
  rw [left, TransactionPool.occupied, parts, TransactionPool.consumed, ← List.countP_eq_length_filter,
    Nat.add_comm]

theorem poolPhase_count {pool after : TransactionPool} {block : TransactionBlock n}
    (distinct : pool.DistinctIds) (accepted : poolPhase pool block = some after) :
    after.count = pool.count - UInt32.ofNat (pool.consumed block.ids).length := by
  unfold poolPhase at accepted
  split at accepted
  · cases accepted
    have balance := removeTransactions_balance pool block.transactions.toList
    rw [removeTransactions_occupied distinct block.transactions.toList, UInt32.ofNat_add] at balance
    change (removeTransactions pool block.transactions.toList).count = _
    rw [TransactionBlock.ids]
    grind
  · cases accepted

theorem consumed_ids_nodup {pool : TransactionPool} (distinct : pool.DistinctIds) (ids : List (List UInt8)) :
    ((pool.consumed ids).map fun slot => slot.tx.id).Nodup := by
  rw [List.Nodup, List.pairwise_map, TransactionPool.consumed, List.pairwise_filter]
  refine (TransactionPool.distinctIds_iff.mp distinct).imp ?_
  intro first second apart firstTaken secondTaken
  simp only [Bool.and_eq_true, bne_iff_ne] at firstTaken secondTaken
  exact apart firstTaken.1 secondTaken.1

theorem consumed_perm {pool : TransactionPool} (distinct : pool.DistinctIds) {block : TransactionBlock n}
    (once : block.ids.Nodup) (offered : ∀ tx ∈ block.transactions.toList, pool.Offers tx) :
    (block.transactions.toList.map fun tx => (tx.id, tx.reward)).Perm
      ((pool.consumed block.ids).map fun slot => (slot.tx.id, slot.tx.reward)) := by
  have blockNodup : (block.transactions.toList.map fun tx => (tx.id, tx.reward)).Nodup := by
    refine List.Nodup.of_map Prod.fst ?_
    rwa [List.map_map]
  have slotsNodup : ((pool.consumed block.ids).map fun slot => (slot.tx.id, slot.tx.reward)).Nodup := by
    refine List.Nodup.of_map Prod.fst ?_
    rw [List.map_map]
    exact consumed_ids_nodup distinct block.ids
  have agreeing : ∀ tx ∈ block.transactions.toList, ∃ slot ∈ pool.consumed block.ids,
      slot.tx.id = tx.id ∧ slot.tx.reward = tx.reward := by
    intro tx member
    obtain ⟨slot, slotMember, occupied, agrees⟩ := offered tx member
    obtain ⟨id, reward, _⟩ := txCompare_iff.mp agrees
    have named : slot.tx.id ∈ block.ids := id ▸ List.mem_map_of_mem member
    exact ⟨slot, List.mem_filter.mpr ⟨slotMember, by simp [occupied, named]⟩, id.symm, reward.symm⟩
  rw [List.perm_ext_iff_of_nodup blockNodup slotsNodup]
  intro pair
  constructor
  · intro inBlock
    obtain ⟨tx, member, rfl⟩ := List.mem_map.mp inBlock
    obtain ⟨slot, slotMember, id, reward⟩ := agreeing tx member
    exact List.mem_map.mpr ⟨slot, slotMember, by rw [id, reward]⟩
  · intro inPool
    obtain ⟨slot, slotMember, rfl⟩ := List.mem_map.mp inPool
    have taken := List.mem_filter.mp slotMember
    simp only [Bool.and_eq_true, bne_iff_ne, List.contains_iff_mem] at taken
    obtain ⟨tx, member, same⟩ := List.mem_map.mp taken.2.2
    obtain ⟨other, otherMember, id, reward⟩ := agreeing tx member
    have one : other = slot :=
      List.inj_on_of_nodup_map (consumed_ids_nodup distinct block.ids) otherMember slotMember (id.trans same)
    exact List.mem_map.mpr ⟨tx, member, by rw [← id, ← reward, one]⟩

theorem consumesOnce_of_nodup {pool : TransactionPool} (distinct : pool.DistinctIds)
    {block : TransactionBlock n} (once : block.ids.Nodup) : ConsumesOnce pool block := by
  intro after accepted
  have offered := (poolPhase_isSome_iff distinct).mp (Option.isSome_of_eq_some accepted)
  have perm := consumed_perm distinct once offered
  have length : (pool.consumed block.ids).length = n := by
    simpa using perm.length_eq.symm
  refine ⟨once, by rw [poolPhase_count distinct accepted, length], ?_⟩
  have rewards := perm.map Prod.snd
  simp only [List.map_map, Function.comp_def] at rewards
  have commutes : RightCommutative fun (amount reward : Int32) => amount + reward :=
    ⟨fun amount first second => by rw [Int32.add_assoc, Int32.add_comm first, Int32.add_assoc]⟩
  have sums := rewards.foldl_eq (f := fun (amount reward : Int32) => amount + reward) 0
  rwa [List.foldl_map, List.foldl_map] at sums

theorem consumesOnce_iff {pool : TransactionPool} (distinct : pool.DistinctIds)
    (block : TransactionBlock n) : ConsumesOnce pool block ↔ RepeatsNoOffer pool block := by
  constructor
  · intro consumes
    by_cases offered : ∀ tx ∈ block.transactions.toList, pool.Offers tx
    · obtain ⟨after, accepted⟩ := Option.isSome_iff_exists.mp ((poolPhase_isSome_iff distinct).mpr offered)
      exact .inl (consumes after accepted).1
    · exact .inr (by simpa using offered)
  · intro either
    rcases either with once | ⟨tx, member, refused⟩
    · exact consumesOnce_of_nodup distinct once
    · intro after accepted
      exact absurd ((poolPhase_isSome_iff distinct).mp (Option.isSome_of_eq_some accepted) tx member) refused

/-- A pool phase consumes each transaction once exactly when its block repeats
no id that the pool offers; in a run whose pool phases all meet this condition,
no block of index 1 or more repeats an id. -/
theorem consumption_iff_no_repeated_offer (setup : Setup) :
    (∀ (pool : TransactionPool) (block : TransactionBlock setup.txs), pool.DistinctIds →
      (ConsumesOnce pool block ↔ RepeatsNoOffer pool block)) ∧
    ∀ (trace : List (State setup.txs × Event)) (final : State setup.txs), SystemRun setup trace final →
      (final.issued.map Transaction.id).Nodup →
      (∀ before num, (before, Event.poolPhase num) ∈ trace → ∀ block history,
        before.validators num = .checked block history → RepeatsNoOffer before.pool block) →
      ∀ k, 1 ≤ k → k < final.ledger.count → (final.ledger.blocks k).ids.Nodup := by
  refine ⟨fun pool block distinct => consumesOnce_iff distinct block, ?_⟩
  intro trace final run distinct once k lower upper
  obtain ⟨removal, pool, num, now, append, sublist, ⟨history, checked⟩, passed, _⟩ :=
    run.removedThenAppended lower upper
  have member : (removal, Event.poolPhase num) ∈ trace := sublist.subset List.mem_cons_self
  have slotsDistinct := run.recorded_distinctIds distinct member
  exact ((consumesOnce_iff slotsDistinct _).mpr (once removal num member _ history checked) pool passed).1

def repeatEvents : List Event :=
  [insertEvent 1, insertEvent 2, .start 1, .genesis 1] ++ mineEvents 1 [0, 0] ++ validateEvents 1

theorem repeat_executes : (exec (step pairSetup) (State.initial pairSetup) repeatEvents).isSome = true := by
  decide +kernel

def repeatFinal : State pairSetup.txs := (exec _ _ _).get repeat_executes

theorem block_spends_twice : ∃ trace, SystemRun pairSetup trace repeatFinal ∧
    (repeatFinal.issued.map Transaction.id).Nodup ∧ 1 < repeatFinal.ledger.count ∧
    ¬ (repeatFinal.ledger.blocks 1).ids.Nodup ∧
    (∃ before num history, (before, Event.poolPhase num) ∈ trace ∧
      before.validators num = .checked (repeatFinal.ledger.blocks 1) history ∧
      before.pool.DistinctIds ∧ ¬ ConsumesOnce before.pool (repeatFinal.ledger.blocks 1)) ∧
    repeatFinal.pool.count = 1 := by
  obtain ⟨trace, run, _⟩ :
      ∃ trace, SystemRun pairSetup trace repeatFinal ∧ trace.map Prod.snd = repeatEvents :=
    exec_run_get repeat_executes
  have distinct : (repeatFinal.issued.map Transaction.id).Nodup := by decide +kernel
  have appended : 1 < repeatFinal.ledger.count := by decide +kernel
  have repeated : ¬ (repeatFinal.ledger.blocks 1).ids.Nodup := by decide +kernel
  obtain ⟨removal, pool, num, now, append, sublist, ⟨history, checked⟩, passed, _⟩ :=
    run.removedThenAppended (k := 1) (Nat.le_refl 1) appended
  have member : (removal, Event.poolPhase num) ∈ trace := sublist.subset List.mem_cons_self
  exact ⟨trace, run, distinct, appended, repeated, ⟨removal, num, history, member, checked,
    run.recorded_distinctIds distinct member,
    fun consumes => repeated (consumes pool passed).1⟩, by decide +kernel⟩

/-- The block of a pool phase names no id twice. -/
def checksOnce (state : State n) : Event → Bool
  | .poolPhase num =>
      match state.validators num with
      | .checked block _ => decide block.ids.Nodup
      | _ => true
  | _ => true

theorem checksOnce_of_checked {state : State n} {num : Nat} {block : TransactionBlock n} {history : History}
    (checked : state.validators num = .checked block history)
    (once : checksOnce state (.poolPhase num) = true) : block.ids.Nodup := by
  simpa [checksOnce, checked] using once

theorem pairs_checked : (exec (guarded (step pairSetup) checksOnce) (State.initial pairSetup)
    pairEvents).isSome = true := by
  decide +kernel

theorem consumption_of_pairs : ∃ trace final, SystemRun pairSetup trace final ∧ final.ledger.count = 3 ∧
    (∀ k, 1 ≤ k → k < 3 → (final.ledger.blocks k).ids.Nodup) ∧
    ∃ removal num history, (removal, Event.poolPhase num) ∈ trace ∧
      removal.validators num = .checked (final.ledger.blocks 1) history ∧
      ConsumesOnce removal.pool (final.ledger.blocks 1) := by
  obtain ⟨trace, guardedRun, _⟩ := exec_run_get pairs_checked
  obtain ⟨plain, passes⟩ := guardedRun.of_guarded
  have run : SystemRun pairSetup trace ((exec _ _ _).get pairs_checked) := plain
  have count : ((exec _ _ _).get pairs_checked).ledger.count = 3 := by decide +kernel
  have distinct : (((exec _ _ _).get pairs_checked).issued.map Transaction.id).Nodup := by decide +kernel
  obtain ⟨consumes, nodup⟩ := consumption_iff_no_repeated_offer pairSetup
  have once := nodup trace _ run distinct fun before num member block history checked =>
    .inl (checksOnce_of_checked checked (passes _ member))
  obtain ⟨removal, pool, num, now, append, sublist, ⟨history, checked⟩, _⟩ :=
    run.removedThenAppended (k := 1) (Nat.le_refl 1) (by rw [count]; decide)
  have member : (removal, Event.poolPhase num) ∈ trace := sublist.subset List.mem_cons_self
  rw [count] at once
  exact ⟨trace, _, run, count, once, removal, num, history, member, checked,
    (consumes _ _ (run.recorded_distinctIds distinct member)).mpr (.inl (once 1 (by decide) (by decide)))⟩

end DeiChain
