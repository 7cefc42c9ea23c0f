import DeiChain.Ledger
import DeiChain.PoolPhase
import DeiChain.Systems.Sections

namespace DeiChain

open Data Systems.Sections

variable {n : Nat}

/-! # The stores of the critical sections

Each section that writes, as its assignments in the order of the source. Done
one after the other they are the change that the section makes as a whole.
-/

def TransactionPool.modifySlot (i : Nat) (write : PendingTransaction → PendingTransaction)
    (pool : TransactionPool) : TransactionPool :=
  { pool with transactions := pool.transactions.modify i write }

def TransactionPool.setCount (change : UInt32 → UInt32) (pool : TransactionPool) : TransactionPool :=
  { pool with count := change pool.count }

/-- The slot is written before the counter. -/
def insertionStores (pool : TransactionPool) (new : PendingTransaction) :
    List (TransactionPool → TransactionPool) :=
  match insertTransaction pool new with
  | .added i _ => [.modifySlot i fun _ => new, .setCount (· + 1)]
  | .noSlot | .full => []

theorem runStores_insertion {pool after : TransactionPool} {new : PendingTransaction} {slot : Nat}
    (added : insertTransaction pool new = .added slot after) :
    runStores (insertionStores pool new) pool = after := by
  rw [insertionStores, added]
  unfold insertTransaction at added
  split at added
  · split at added
    · rename_i found
      cases added
      have bound := (List.findIdx?_eq_some_iff_getElem.mp found).1
      simp only [runStores_cons, runStores_nil, TransactionPool.modifySlot, TransactionPool.setCount]
      rw [List.modify_eq_set_get _ bound]
    · cases added
  · cases added

/-- The removal loop: for each id that is still there, the flag and then the counter. -/
def removalStores : TransactionPool → List Transaction → List (TransactionPool → TransactionPool)
  | _, [] => []
  | pool, tx :: rest =>
      (match findTransaction pool tx with
        | some j => [.modifySlot j PendingTransaction.clear, .setCount (· - 1)]
        | none => []) ++ removalStores (removeTransaction pool tx) rest

theorem runStores_removal (pool : TransactionPool) (txs : List Transaction) :
    runStores (removalStores pool txs) pool = removeTransactions pool txs := by
  induction txs generalizing pool with
  | nil => rfl
  | cons tx rest ih =>
      have first : runStores (match findTransaction pool tx with
          | some j => [TransactionPool.modifySlot j PendingTransaction.clear, .setCount (· - 1)]
          | none => []) pool = removeTransaction pool tx := by
        cases found : findTransaction pool tx <;> simp only [removeTransaction, found] <;> rfl
      rw [removalStores, runStores_append, first, ih]
      rfl

def PendingTransaction.raised (slot : PendingTransaction) : PendingTransaction :=
  if slot.filled = 1 ∧ slot.age % 50 = 0 then
    { slot with tx := { slot.tx with reward := slot.tx.reward + 1 } }
  else slot

def PendingTransaction.older (slot : PendingTransaction) : PendingTransaction :=
  if slot.filled = 1 then { slot with age := slot.age + 1 } else slot

/-- The aging loop: for each slot the reward and then the age. -/
def agingStores (size : Nat) : List (TransactionPool → TransactionPool) :=
  (List.range size).flatMap fun i =>
    [.modifySlot i PendingTransaction.raised, .modifySlot i PendingTransaction.older]

theorem PendingTransaction.raised_older (slot : PendingTransaction) : slot.raised.older = slot.aged := by
  unfold raised older aged
  by_cases filled : slot.filled = 1
  · by_cases due : slot.age % 50 = 0 <;> simp [filled, due]
  · simp [filled]

theorem runStores_aging_slots (pool : TransactionPool) (size j : Nat) :
    (runStores (agingStores size) pool).count = pool.count ∧
      (runStores (agingStores size) pool).transactions[j]? =
        (pool.transactions[j]?).map fun slot => if j < size then slot.aged else slot := by
  induction size with
  | zero => simp [agingStores]
  | succ size ih =>
      have split : agingStores (size + 1) = agingStores size ++
          [.modifySlot size PendingTransaction.raised, .modifySlot size PendingTransaction.older] := by
        simp [agingStores, List.range_succ]
      rw [split, runStores_append]
      refine ⟨ih.1, ?_⟩
      simp only [runStores_cons, runStores_nil, TransactionPool.modifySlot, List.getElem?_modify, ih.2,
        Option.map_eq_map, Option.map_map]
      congr 1
      funext slot
      by_cases here : size = j
      · subst here
        simp [PendingTransaction.raised_older]
      · have same : j < size + 1 ↔ j < size := by omega
        simp [here, same]

theorem runStores_aging (pool : TransactionPool) :
    runStores (agingStores pool.size) pool = ageTransactions pool := by
  have slots : (runStores (agingStores pool.size) pool).transactions =
      pool.transactions.map PendingTransaction.aged := by
    apply List.ext_getElem?
    intro j
    rw [(runStores_aging_slots pool pool.size j).2, List.getElem?_map]
    cases at_j : pool.transactions[j]? with
    | none => rfl
    | some slot =>
        have bound : j < pool.size := (List.getElem?_eq_some_iff.mp at_j).1
        simp [bound]
  calc runStores (agingStores pool.size) pool
      = ⟨(runStores (agingStores pool.size) pool).count,
          (runStores (agingStores pool.size) pool).transactions⟩ := rfl
    _ = ageTransactions pool := by rw [slots, (runStores_aging_slots pool pool.size 0).1, ageTransactions]

def poolPhaseStores (pool : TransactionPool) (block : TransactionBlock n) :
    List (TransactionPool → TransactionPool) :=
  if checkTransactions pool block then
    removalStores pool block.transactions.toList ++ agingStores pool.size
  else []

theorem runStores_poolPhase (pool : TransactionPool) (block : TransactionBlock n) :
    runStores (poolPhaseStores pool block) pool = (poolPhase pool block).getD pool := by
  unfold poolPhaseStores poolPhase
  split
  · rw [runStores_append, runStores_removal, ← removeTransactions_size pool block.transactions.toList,
      runStores_aging, Option.getD_some]
  · rfl

def Ledger.modifyBlock (index : Nat) (write : TransactionBlock n → TransactionBlock n) (ledger : Ledger n) :
    Ledger n :=
  { ledger with blocks := Function.update ledger.blocks index (write (ledger.blocks index)) }

def Ledger.setLastBlockHash (hash : CharArray hashSize) (ledger : Ledger n) : Ledger n :=
  { ledger with lastBlockHash := strcpy ledger.lastBlockHash hash.toList }

/-- The counter is set before the block is there. -/
def genesisStores (sha256 : Sha256) : List (Ledger n → Ledger n) :=
  let (nemesisBlock, result) := proofOfWork sha256 (TransactionBlock.zero n)
  [fun ledger => { ledger with count := 1 },
    .modifyBlock 0 fun slot => { slot with txbId := overwrite slot.txbId [122] },
    .modifyBlock 0 fun slot => { slot with txbId := strcpy slot.txbId nemesisBlock.txbId.toList },
    .modifyBlock 0 fun slot => { slot with timestamp := nemesisBlock.timestamp },
    .modifyBlock 0 fun slot => { slot with nonce := nemesisBlock.nonce },
    .setLastBlockHash result.hash]

theorem runStores_genesis {sha256 : Sha256} {ledger after : Ledger n}
    (created : createGenesis sha256 ledger = some after) :
    runStores (genesisStores sha256) ledger = after := by
  unfold createGenesis at created
  dsimp only at created
  split at created
  · cases created
  · cases created
    simp [genesisStores, Ledger.modifyBlock, Ledger.setLastBlockHash]

def transactionStores (tx : Transaction) : List (Transaction → Transaction) :=
  [fun slot => { slot with txId := strcpy slot.txId tx.txId.toList },
    fun slot => { slot with reward := tx.reward },
    fun slot => { slot with value := tx.value },
    fun slot => { slot with timestamp := tx.timestamp }]

def TransactionBlock.modifyTransaction (i : Fin n) (write : Transaction → Transaction)
    (block : TransactionBlock n) : TransactionBlock n :=
  { block with transactions := block.transactions.set i (write (block.transactions.get i)) }

def transactionsStores (block : TransactionBlock n) (positions : List (Fin n)) :
    List (TransactionBlock n → TransactionBlock n) :=
  positions.flatMap fun i => (transactionStores (block.transactions.get i)).map (.modifyTransaction i)

def blockStores (block : TransactionBlock n) : List (TransactionBlock n → TransactionBlock n) :=
  [fun slot => { slot with txbId := strcpy slot.txbId block.txbId.toList },
    fun slot =>
      { slot with previousBlockHash := strcpy slot.previousBlockHash block.previousBlockHash.toList },
    fun slot => { slot with timestamp := block.timestamp },
    fun slot => { slot with nonce := block.nonce }] ++ transactionsStores block (List.finRange n)

theorem runStores_transaction (i : Fin n) (slot : TransactionBlock n) (tx : Transaction) :
    runStores ((transactionStores tx).map (.modifyTransaction i)) slot =
      slot.modifyTransaction i fun stored => storeTransaction stored tx := by
  have unit : ∀ slot : TransactionBlock n, slot.modifyTransaction i (fun stored => stored) = slot := by
    intro slot
    have same : slot.transactions.set i (slot.transactions.get i) = slot.transactions := by
      apply List.Vector.ext
      intro j
      by_cases here : i = j
      · subst here
        rw [List.Vector.get_set_same]
      · rw [List.Vector.get_set_of_ne here]
    rw [TransactionBlock.modifyTransaction, same]
  have compose : ∀ first second (slot : TransactionBlock n),
      (slot.modifyTransaction i first).modifyTransaction i second =
        slot.modifyTransaction i fun stored => second (first stored) := by
    intro first second slot
    have same : (slot.transactions.set i (first (slot.transactions.get i))).set i
        (second (first (slot.transactions.get i))) =
          slot.transactions.set i (second (first (slot.transactions.get i))) := by
      apply List.Vector.ext
      intro j
      by_cases here : i = j
      · subst here
        rw [List.Vector.get_set_same, List.Vector.get_set_same]
      · rw [List.Vector.get_set_of_ne here, List.Vector.get_set_of_ne here, List.Vector.get_set_of_ne here]
    simp only [TransactionBlock.modifyTransaction, List.Vector.get_set_same, same]
  exact runStores_map unit compose (transactionStores tx) slot

theorem runStores_transactions (block slot : TransactionBlock n) {positions : List (Fin n)}
    (distinct : positions.Nodup) : runStores (transactionsStores block positions) slot =
      { slot with transactions := List.Vector.ofFn fun j =>
          if j ∈ positions then storeTransaction (slot.transactions.get j) (block.transactions.get j)
          else slot.transactions.get j } := by
  induction positions generalizing slot with
  | nil => simp [transactionsStores]
  | cons i rest ih =>
      obtain ⟨fresh, distinct⟩ := List.nodup_cons.mp distinct
      have split : transactionsStores block (i :: rest) =
          (transactionStores (block.transactions.get i)).map (.modifyTransaction i) ++
            transactionsStores block rest := rfl
      rw [split, runStores_append, runStores_transaction, ih _ distinct]
      simp only [TransactionBlock.modifyTransaction]
      congr 1
      apply List.Vector.ext
      intro j
      simp only [List.Vector.get_ofFn, List.mem_cons]
      by_cases here : i = j
      · subst here
        simp [fresh]
      · rw [List.Vector.get_set_of_ne here]
        simp [Ne.symm here]

theorem runStores_block (block slot : TransactionBlock n) :
    runStores (blockStores block) slot = storeBlock slot block := by
  rw [blockStores, runStores_append, runStores_transactions _ _ (List.nodup_finRange n)]
  simp only [runStores_cons, runStores_nil, storeBlock, List.mem_finRange, if_true]
  congr 1
  apply List.Vector.ext
  intro j
  rw [List.Vector.get_ofFn, List.Vector.zipWith_get]

def appendStores (nextIndex : Nat) (block : TransactionBlock n) (hash : CharArray hashSize) :
    List (Ledger n → Ledger n) :=
  (blockStores block).map (.modifyBlock nextIndex) ++
    [.setLastBlockHash hash, fun ledger => { ledger with count := ledger.count + 1 },
      fun ledger => { ledger with lastBlockIndex := ledger.lastBlockIndex + 1 }]

theorem runStores_append_block (ledger : Ledger n) (block : TransactionBlock n) (hash : CharArray hashSize) :
    runStores (appendStores (ledger.lastBlockIndex + 1) block hash) ledger =
      appendBlock ledger block hash := by
  have stored : runStores ((blockStores block).map (.modifyBlock (ledger.lastBlockIndex + 1))) ledger =
      ledger.modifyBlock (ledger.lastBlockIndex + 1) (runStores (blockStores block)) :=
    runStores_map (fun ledger => by simp [Ledger.modifyBlock])
      (fun first second ledger => by simp [Ledger.modifyBlock]) _ ledger
  rw [appendStores, runStores_append, stored]
  simp only [runStores_cons, runStores_nil, Ledger.modifyBlock, Ledger.setLastBlockHash, appendBlock,
    runStores_block]

end DeiChain
