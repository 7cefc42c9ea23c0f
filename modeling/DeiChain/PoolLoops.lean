import DeiChain.PoolPhase

namespace DeiChain

open Data

variable {n : Nat}

/-! # The pool phase as the validator's loops

The three loops over the shared pool, with their breaks and the flag that they
share, and the proof that they amount to `poolPhase`.
-/

/-- What the loops write: the pool in shared memory and `skip_block`. -/
structure PhaseState where
  pool : TransactionPool
  skipBlock : Bool

/-- The inner checking loop over the slots from `j` on, with `found` as it is
left: a slot that differs from the block's transaction breaks off like one that
agrees with it. -/
def checkSlots (tx : Transaction) : List PendingTransaction → (skipBlock : Bool) → Bool × Bool
  | [], skipBlock => (false, skipBlock)
  | slot :: slots, skipBlock =>
      if slot.filled = 0 then checkSlots tx slots skipBlock
      else if sameString tx.txId.toList slot.tx.txId.toList then
        if txCompare tx slot.tx then (true, skipBlock)
        else (false, true)
      else checkSlots tx slots skipBlock

def checkLoop : List Transaction → PhaseState → PhaseState
  | [], state => state
  | tx :: txs, state =>
      if state.skipBlock then state
      else
        let (found, skipBlock) := checkSlots tx state.pool.transactions state.skipBlock
        if found then checkLoop txs { state with skipBlock }
        else { state with skipBlock := true }

/-- The inner removal loop over the slots from `j` on; the flag tells whether
it broke off at a slot it emptied. -/
def removeSlots (tx : Transaction) : List PendingTransaction → List PendingTransaction × Bool
  | [] => ([], false)
  | slot :: slots =>
      if slot.filled = 0 then (slot :: (removeSlots tx slots).1, (removeSlots tx slots).2)
      else if sameString tx.txId.toList slot.tx.txId.toList then ({ slot with filled := 0 } :: slots, true)
      else (slot :: (removeSlots tx slots).1, (removeSlots tx slots).2)

def removeLoop : List Transaction → PhaseState → PhaseState
  | [], state => state
  | tx :: txs, state =>
      let (transactions, removed) := removeSlots tx state.pool.transactions
      let count := if removed then state.pool.count - 1 else state.pool.count
      removeLoop txs { state with pool := { count, transactions } }

def agingLoop (state : PhaseState) : PhaseState := { state with pool := ageTransactions state.pool }

/-- What is done under `sem_tx_pool` for a block that was not skipped before. -/
def poolSection (block : TransactionBlock n) (pool : TransactionPool) : PhaseState :=
  let state := checkLoop block.transactions.toList { pool, skipBlock := false }
  if state.skipBlock then state
  else agingLoop (removeLoop block.transactions.toList state)

/-- A slot that is empty or holds another id does not take part. -/
theorem checkTransaction_skip {count : UInt32} {tx : Transaction} {slot : PendingTransaction}
    (slots : List PendingTransaction)
    (passed : (slot.filled != 0 && sameString tx.txId.toList slot.tx.txId.toList) = false) :
    checkTransaction ⟨count, slot :: slots⟩ tx = checkTransaction ⟨count, slots⟩ tx := by
  simp only [checkTransaction, findTransaction, List.findIdx?_cons, passed]
  cases List.findIdx? _ slots <;> simp

theorem checkSlots_found (count : UInt32) (tx : Transaction) (slots : List PendingTransaction)
    (skipBlock : Bool) :
    (checkSlots tx slots skipBlock).1 = checkTransaction ⟨count, slots⟩ tx := by
  fun_induction checkSlots tx slots skipBlock with
  | case1 => rfl
  | case2 slot slots _ empty ih => rw [ih, checkTransaction_skip slots (by simp [empty])]
  | case3 slot slots _ filled same agrees =>
      simp [checkTransaction, findTransaction, List.findIdx?_cons, filled, same, agrees]
  | case4 slot slots _ filled same differs =>
      simp [checkTransaction, findTransaction, List.findIdx?_cons, filled, same, differs]
  | case5 slot slots _ _ other ih => rw [ih, checkTransaction_skip slots (by simp [other])]

theorem checkSlots_skipBlock {tx : Transaction} {slots : List PendingTransaction} {skipBlock : Bool}
    (found : (checkSlots tx slots skipBlock).1 = true) :
    (checkSlots tx slots skipBlock).2 = skipBlock := by
  fun_induction checkSlots tx slots skipBlock with
  | case1 => rfl
  | case2 _ _ _ _ ih => exact ih found
  | case3 => rfl
  | case4 => simp at found
  | case5 _ _ _ _ _ ih => exact ih found

theorem checkLoop_eq (txs : List Transaction) (pool : TransactionPool) :
    checkLoop txs { pool, skipBlock := false } =
      { pool, skipBlock := !txs.all (checkTransaction pool) } := by
  induction txs with
  | nil => rfl
  | cons tx txs ih =>
      have found := checkSlots_found pool.count tx pool.transactions false
      rw [checkLoop, if_neg Bool.false_ne_true, List.all_cons, ← found]
      cases slots : (checkSlots tx pool.transactions false).1 with
      | true => simpa [slots, checkSlots_skipBlock slots] using ih
      | false => simp [slots]

theorem removeSlots_eq (tx : Transaction) (slots : List PendingTransaction) :
    removeSlots tx slots =
      match slots.findIdx? fun slot =>
        slot.filled != 0 && sameString tx.txId.toList slot.tx.txId.toList with
      | some j => (slots.modify j PendingTransaction.clear, true)
      | none => (slots, false) := by
  fun_induction removeSlots tx slots with
  | case1 => rfl
  | case2 slot slots empty ih =>
      rw [ih, List.findIdx?_cons]
      cases List.findIdx? _ slots <;> simp [empty]
  | case3 slot slots filled same =>
      simp [List.findIdx?_cons, filled, same, PendingTransaction.clear]
  | case4 slot slots filled other ih =>
      rw [ih, List.findIdx?_cons]
      cases List.findIdx? _ slots <;> simp [other]

theorem removeLoop_eq (txs : List Transaction) (pool : TransactionPool) (skipBlock : Bool) :
    removeLoop txs { pool, skipBlock } = { pool := removeTransactions pool txs, skipBlock } := by
  induction txs generalizing pool with
  | nil => rfl
  | cons tx txs ih =>
      have row : removeTransaction pool tx =
          { count := if (removeSlots tx pool.transactions).2 then pool.count - 1 else pool.count
            transactions := (removeSlots tx pool.transactions).1 } := by
        rw [removeTransaction, removeSlots_eq, findTransaction]
        cases List.findIdx? _ pool.transactions <;> rfl
      rw [removeLoop]
      dsimp only
      rw [← row, ih]
      rfl

/-- The loops do what `poolPhase` says, and a block that is rejected leaves the
pool as it was. -/
theorem poolSection_eq (block : TransactionBlock n) (pool : TransactionPool) :
    poolSection block pool =
      match poolPhase pool block with
      | some after => { pool := after, skipBlock := false }
      | none => { pool, skipBlock := true } := by
  rw [poolSection, checkLoop_eq, poolPhase, checkTransactions]
  cases accepted : block.transactions.toList.all (checkTransaction pool) with
  | true => simp [removeLoop_eq, agingLoop]
  | false => simp

/-- How many filled slots the block names. -/
def emptiedCount (block : TransactionBlock n) (pool : TransactionPool) : Nat :=
  pool.transactions.countP fun slot => slot.filled == 1 && block.ids.contains slot.tx.id

/-- `after` is `before` one aging step later. -/
structure PendingTransaction.AgedOnce (before after : PendingTransaction) : Prop where
  filled : after.filled = before.filled
  age : after.age = before.age + 1
  reward : after.tx.reward = if before.age % 50 = 0 then before.tx.reward + 1 else before.tx.reward
  txId : after.tx.txId = before.tx.txId
  value : after.tx.value = before.tx.value
  timestamp : after.tx.timestamp = before.tx.timestamp

theorem PendingTransaction.agedOnce_aged {slot : PendingTransaction} (filled : slot.filled = 1) :
    slot.AgedOnce slot.aged := by
  constructor <;> simp [PendingTransaction.aged, filled]

theorem poolPhase_transactions {pool after : TransactionPool} {block : TransactionBlock n}
    (distinct : pool.DistinctIds) (accepted : poolPhase pool block = some after) :
    after.transactions = pool.transactions.map fun slot => (slot.without block.ids).aged := by
  apply List.ext_getElem?
  intro j
  rw [poolPhase_slots distinct accepted, List.getElem?_map]

/-- A filled slot is counted once: among the emptied ones or after the phase. -/
theorem poolPhase_count_add_emptied {pool after : TransactionPool} {block : TransactionBlock n}
    (distinct : pool.DistinctIds) (consistent : pool.Consistent)
    (accepted : poolPhase pool block = some after) :
    after.count.toNat + emptiedCount block pool = pool.count.toNat := by
  have left : after.filledCount =
      pool.transactions.countP fun slot => slot.filled == 1 && !block.ids.contains slot.tx.id := by
    rw [TransactionPool.filledCount, poolPhase_transactions distinct accepted, List.countP_map]
    congr 1
    funext slot
    by_cases empty : slot.filled = 0
    · simp [PendingTransaction.without, empty]
    · by_cases member : slot.tx.id ∈ block.ids <;>
        simp [PendingTransaction.without, empty, member]
  have split := List.countP_eq_countP_filter_add pool.transactions (fun slot => slot.filled == 1)
    (fun slot => block.ids.contains slot.tx.id)
  simp only [List.countP_filter] at split
  rw [(poolPhase_consistent consistent accepted).counted, consistent.counted, left, emptiedCount,
    TransactionPool.filledCount, split, Nat.add_comm]

/-- The pool phase is all or nothing, whatever the block. -/
theorem pool_phase_all_or_nothing (pool : TransactionPool) (distinct : pool.DistinctIds)
    (consistent : pool.Consistent) (block : TransactionBlock n) :
    let left := poolSection block pool
    (left.skipBlock = false ↔ ∀ tx ∈ block.transactions.toList, ∃ slot ∈ pool.transactions,
      slot.filled ≠ 0 ∧ tx.id = slot.tx.id ∧ tx.reward = slot.tx.reward ∧
        tx.value.equal slot.tx.value = true ∧ tx.timestamp = slot.tx.timestamp) ∧
    (left.skipBlock = false →
      left.pool.transactions.length = pool.transactions.length ∧
      (∀ (j : Nat) before after,
        pool.transactions[j]? = some before → left.pool.transactions[j]? = some after →
        (before.filled = 0 → after = before) ∧
        (before.filled ≠ 0 → before.tx.id ∈ block.ids → after.filled = 0) ∧
        (before.filled ≠ 0 → before.tx.id ∉ block.ids → before.AgedOnce after)) ∧
      left.pool.count.toNat + emptiedCount block pool = pool.count.toNat) ∧
    (left.skipBlock = true → left.pool = pool) := by
  intro left
  have outcome : left = _ := poolSection_eq block pool
  have offers := @poolPhase_isSome_iff _ pool distinct block
  simp only [TransactionPool.Offers, txCompare_iff] at offers
  rw [← offers, outcome]
  cases accepted : poolPhase pool block with
  | none => exact ⟨by simp, fun success => absurd success (by simp), fun _ => rfl⟩
  | some after =>
      refine ⟨by simp, fun _ => ⟨?_, ?_, poolPhase_count_add_emptied distinct consistent accepted⟩,
        fun failure => absurd failure (by simp)⟩
      · rw [poolPhase_transactions distinct accepted, List.length_map]
      · intro j slot aged at_j at_after
        dsimp only at at_after
        rw [poolPhase_slots distinct accepted, at_j, Option.map_some, Option.some_inj] at at_after
        subst at_after
        refine ⟨fun empty => ?_, fun filled member => ?_, fun filled other => ?_⟩
        · simp [PendingTransaction.without, PendingTransaction.aged, empty]
        · simp [PendingTransaction.without, filled, member]
        · rw [PendingTransaction.without, if_neg fun removed => other removed.2]
          exact PendingTransaction.agedOnce_aged (consistent.filled_at at_j filled)

/-- A slot of reward `reward` and of this age, in a stack of some filling. -/
def sampleSlot (pid txNumber : Nat) (reward : Int32) (filling : UInt8) (age : UInt32) : PendingTransaction :=
  { generateTransaction pid txNumber reward (List.Vector.replicate txIdLen filling) 1234 1700000000 with age }

/-- Three transactions, of which the second is about to age for the 51st time. -/
def samplePool : TransactionPool :=
  ⟨3, [sampleSlot 41 0 2 35 3, sampleSlot 42 0 1 36 50, PendingTransaction.zero, sampleSlot 41 1 3 37 7]⟩

def sampleTaken : TransactionBlock 2 :=
  { TransactionBlock.zero 2 with transactions := ⟨[(sampleSlot 41 1 3 0 0).tx, (sampleSlot 41 0 2 0 0).tx], rfl⟩ }

/-- Its last transaction has another reward than the slot. -/
def sampleRefused : TransactionBlock 2 :=
  { TransactionBlock.zero 2 with transactions := ⟨[(sampleSlot 41 1 3 0 0).tx, (sampleSlot 42 0 2 0 0).tx], rfl⟩ }

theorem samplePool_distinct : samplePool.DistinctIds :=
  TransactionPool.distinctIds_iff.mpr (by decide +kernel)

theorem samplePool_consistent : samplePool.Consistent where
  flags := by decide +kernel
  counted := by decide +kernel

theorem pool_phase_all_or_nothing_sample :
    (poolSection sampleTaken samplePool).skipBlock = false ∧
      (poolSection sampleTaken samplePool).pool.count.toNat + 2 = 3 ∧
      (poolSection sampleTaken samplePool).pool.transactions.map PendingTransaction.filled = [0, 1, 0, 0] ∧
      (∃ aged, (poolSection sampleTaken samplePool).pool.transactions[1]? = some aged ∧
        (sampleSlot 42 0 1 36 50).AgedOnce aged ∧ aged.tx.reward = 2) ∧
      (poolSection sampleRefused samplePool).skipBlock = true ∧
      (poolSection sampleRefused samplePool).pool = samplePool := by
  obtain ⟨_, takes, _⟩ :=
    pool_phase_all_or_nothing samplePool samplePool_distinct samplePool_consistent sampleTaken
  obtain ⟨_, _, refuses⟩ :=
    pool_phase_all_or_nothing samplePool samplePool_distinct samplePool_consistent sampleRefused
  have taken : (poolSection sampleTaken samplePool).skipBlock = false := by decide +kernel
  have refused : (poolSection sampleRefused samplePool).skipBlock = true := by decide +kernel
  obtain ⟨length, slots, count⟩ := takes taken
  have emptied : emptiedCount sampleTaken samplePool = 2 := by decide +kernel
  rw [emptied] at count
  have bound : 1 < (poolSection sampleTaken samplePool).pool.transactions.length := by
    rw [length]
    decide
  have at_one := List.getElem?_eq_getElem bound
  have aged := (slots 1 _ _ rfl at_one).2.2 (by decide) (by decide +kernel)
  exact ⟨taken, count, by decide +kernel, ⟨_, at_one, aged, aged.reward⟩, refused, refuses refused⟩

end DeiChain
