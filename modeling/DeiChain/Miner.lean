import DeiChain.Frame
import DeiChain.Ledger
import DeiChain.PoolPhase

namespace DeiChain

open Data

variable {n : Nat}

/-! # Building a block in a miner thread -/

/-- The copy a thread takes of a pool slot, into `calloc`ed memory. -/
def copyTransaction (tx : Transaction) : Transaction :=
  { txId := strncpy txIdLen tx.txId.toList
    reward := tx.reward
    value := tx.value
    timestamp := tx.timestamp }

/-- The selection loop, run on the values that `rand()` returns; `none` while
it still spins after the last of them. `selectedBitmap` is consulted but, as in
the source, never set. -/
def selectLoop (pool : TransactionPool) (transactionsPerBlock : Nat) (selectedBitmap : List Bool) :
    List Nat → (selected : List Transaction) → Option (List Transaction)
  | rands, selected =>
    if selected.length < transactionsPerBlock ∧ transactionsPerBlock ≤ pool.count.toNat then
      match rands with
      | [] => none
      | rand :: rands =>
          let randomIndex := rand % pool.size
          if selectedBitmap.getD randomIndex false then
            selectLoop pool transactionsPerBlock selectedBitmap rands selected
          else
            match pool.transactions[randomIndex]? with
            | some current =>
                if current.tx.id ≠ [48] ∧ current.filled = 1 then
                  selectLoop pool transactionsPerBlock selectedBitmap rands
                    (selected ++ [copyTransaction current.tx])
                else selectLoop pool transactionsPerBlock selectedBitmap rands selected
            | none => selectLoop pool transactionsPerBlock selectedBitmap rands selected
    else some selected

/-- The critical section that selects: the count is checked again, the bitmap
is allocated cleared. -/
def selectTransactions (pool : TransactionPool) (transactionsPerBlock : Nat) (rands : List Nat) :
    Option (List Transaction) :=
  if transactionsPerBlock ≤ pool.count.toNat then
    selectLoop pool transactionsPerBlock (List.replicate pool.size false) rands []
  else some []

def formatTxbId (threadId blockNumber : Nat) : List UInt8 :=
  [66, 76, 79, 67, 75, 45] ++ decimal threadId ++ [45] ++ decimal blockNumber

/-- The block before its first proof of work, from the newest hash of the ledger. -/
def buildBlock (threadId blockNumber : Nat) (lastBlockHash : CharArray hashSize)
    (transactions : List.Vector Transaction n) : TransactionBlock n :=
  let previousBlockHash := strncpy hashSize lastBlockHash.toList
  { txbId := snprintf (zeroArray txbIdLen) (formatTxbId threadId blockNumber)
    previousBlockHash := strncpy hashSize previousBlockHash.toList
    timestamp := 0
    nonce := 0
    transactions }

def TransactionPool.Supplies (pool : TransactionPool) (tx : Transaction) : Prop :=
  ∃ slot ∈ pool.transactions, slot.filled = 1 ∧ tx = copyTransaction slot.tx

theorem selectLoop_supplied {pool : TransactionPool} {transactionsPerBlock : Nat}
    {selectedBitmap : List Bool} {rands : List Nat} {selected result : List Transaction}
    (supplied : ∀ tx ∈ selected, pool.Supplies tx)
    (ended : selectLoop pool transactionsPerBlock selectedBitmap rands selected = some result) :
    ∀ tx ∈ result, pool.Supplies tx := by
  induction rands generalizing selected with
  | nil =>
      unfold selectLoop at ended
      split at ended
      · cases ended
      · cases ended
        exact supplied
  | cons rand rands ih =>
      unfold selectLoop at ended
      split at ended
      · dsimp only at ended
        split at ended
        · exact ih supplied ended
        · split at ended
          · rename_i current at_index
            split at ended
            · rename_i taken
              refine ih ?_ ended
              intro tx member
              rcases List.mem_append.mp member with member | member
              · exact supplied tx member
              · exact ⟨current, List.mem_of_getElem? at_index, taken.2, List.mem_singleton.mp member⟩
            · exact ih supplied ended
          · exact ih supplied ended
      · cases ended
        exact supplied

theorem selectTransactions_supplied {pool : TransactionPool} {transactionsPerBlock : Nat}
    {rands : List Nat} {result : List Transaction}
    (ended : selectTransactions pool transactionsPerBlock rands = some result) :
    ∀ tx ∈ result, pool.Supplies tx := by
  unfold selectTransactions at ended
  split at ended
  · exact selectLoop_supplied (by simp) ended
  · cases ended
    simp

theorem formatTxbId_nonzero {threadId blockNumber : Nat} {byte : UInt8}
    (member : byte ∈ formatTxbId threadId blockNumber) : byte ≠ 0 := by
  simp only [formatTxbId, List.mem_append] at member
  rcases member with ((member | member) | member) | member
  · exact ne_of_mem_of_not_mem member (by decide)
  · exact decimal_nonzero member
  · exact ne_of_mem_of_not_mem member (by decide)
  · exact decimal_nonzero member

theorem formatTxId_nonzero {pid txNumber : Nat} {byte : UInt8}
    (member : byte ∈ formatTxId pid txNumber) : byte ≠ 0 := by
  simp only [formatTxId, List.mem_append] at member
  rcases member with ((member | member) | member) | member
  · exact ne_of_mem_of_not_mem member (by decide)
  · exact decimal_nonzero member
  · exact ne_of_mem_of_not_mem member (by decide)
  · exact decimal_nonzero member

theorem generateTransaction_terminated (pid txNumber : Nat) (reward : Int32)
    (stack : CharArray txIdLen) (rand : Nat) (now : Int64) :
    (generateTransaction pid txNumber reward stack rand now).tx.id.length < txIdLen :=
  snprintf_terminated stack (fun _ member => formatTxId_nonzero member) (by decide)

theorem copyTransaction_id {tx : Transaction} (terminated : tx.id.length < txIdLen) :
    (copyTransaction tx).id = tx.id :=
  cstr_strncpy_of_lt terminated

theorem copyTransaction_zeroPadded {tx : Transaction} (terminated : tx.id.length < txIdLen) :
    ZeroPadded (copyTransaction tx).txId :=
  strncpy_zeroPadded terminated

theorem buildBlock_previousBlockHash {threadId blockNumber : Nat} {lastBlockHash : CharArray hashSize}
    {transactions : List.Vector Transaction n} (padded : ZeroPadded lastBlockHash) :
    (buildBlock threadId blockNumber lastBlockHash transactions).previousBlockHash = lastBlockHash := by
  simp only [buildBlock, padded.strncpy_eq]

/-- Whatever garbage the pool keeps behind its ids, the block has none. -/
theorem buildBlock_padded {threadId blockNumber : Nat} {lastBlockHash : CharArray hashSize}
    {transactions : List.Vector Transaction n} (padded : ZeroPadded lastBlockHash)
    (copies : ∀ tx ∈ transactions.toList, ZeroPadded tx.txId) :
    (buildBlock threadId blockNumber lastBlockHash transactions).Padded where
  txbId := snprintf_zeroArray_zeroPadded (fun _ member => formatTxbId_nonzero member) (by decide)
  previousBlockHash := by
    rw [buildBlock_previousBlockHash padded]
    exact padded
  transactions := copies

/-- Miner and validator agree across the pipe: for whatever block the thread
has built, a successful proof of work is one the validator finds in the frame,
with the nonce, the hash and every other byte the miner left. -/
theorem frame_agreement (cfg : Config) (sha256 : Sha256)
    (block : TransactionBlock cfg.transactionsPerBlock) (pointer : UInt64) (residue : List UInt8)
    (success : (proofOfWork sha256 block).2.error = 0) :
    let mined := (proofOfWork sha256 block).1
    (minerFrame pointer mined).length = maxBlockSize cfg.transactionsPerBlock ∧
      decodeFrame cfg.transactionsPerBlock residue (minerFrame pointer mined) = some mined ∧
      mined = { block with nonce := mined.nonce } ∧
      verifyNonce sha256 mined = true ∧
      computeSha256 sha256 mined = (proofOfWork sha256 block).2.hash := by
  obtain ⟨hash, verified⟩ := proofOfWork_success success
  obtain ⟨nonce, left⟩ := proofOfWork_block sha256 block
  exact ⟨minerFrame_length _ _, decodeFrame_minerFrame cfg.maxBlockSize_lt _ _ _,
    by rw [left], verified, hash.symm⟩

/-- Two transactions as a thread copies them, in its block on a given hash. -/
def sampleBlock : TransactionBlock 2 :=
  let transactions : List.Vector Transaction 2 :=
    ⟨[copyTransaction (generateTransaction 4242 17 2 (zeroArray txIdLen) 1234 1700000000).tx,
      copyTransaction (generateTransaction 4243 3 3 (zeroArray txIdLen) 987654 1700000005).tx], rfl⟩
  { buildBlock 3 12 (computeSha256 checksum (TransactionBlock.zero 2)) transactions with timestamp := 1700000009 }

/-- Like `checksum`, but only one sum in eight meets a difficulty. -/
def pickyChecksum : Sha256 := fun bytes =>
  let sum := bytes.foldl (· + ·) 0
  ⟨List.replicate 31 (if sum % 8 = 0 then 0 else 255) ++ [sum], by simp⟩

def sampleMined : TransactionBlock 2 := (proofOfWork pickyChecksum sampleBlock).1

theorem frame_agreement_sample : sampleMined.nonce ≠ 0 ∧
    (minerFrame 140723412345648 sampleMined).length = 309 ∧
    decodeFrame 2 (List.replicate 309 170) (minerFrame 140723412345648 sampleMined) = some sampleMined ∧
    sampleMined = { sampleBlock with nonce := sampleMined.nonce } ∧
    verifyNonce pickyChecksum sampleMined = true ∧
    computeSha256 pickyChecksum sampleMined = (proofOfWork pickyChecksum sampleBlock).2.hash :=
  ⟨by decide +kernel, frame_agreement
    { numMiners := 5, transactionPoolSize := 50, transactionsPerBlock := 2, blockchainBlocks := 2 }
    pickyChecksum sampleBlock 140723412345648 (List.replicate 309 170) (by decide +kernel)⟩

end DeiChain
