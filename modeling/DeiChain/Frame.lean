import DeiChain.Pow

namespace DeiChain

open Data

variable {n : Nat}

/-! # Blocks on the validation pipe

A frame is the payload size, the block header without the pointer, and the
transactions. The miner takes the header apart around the pointer with
`offsetof`; the validator subtracts the size of the pointer.
-/

/-- The packed `TransactionBlock` in memory, the pointer to the transactions last. -/
def blockBytes (pointer : UInt64) (block : TransactionBlock n) : List UInt8 :=
  block.txbId.toList ++ block.previousBlockHash.toList ++ leBytes 8 block.timestamp.toUInt64.toNat ++
    leBytes 4 block.nonce.toNat ++ leBytes 8 pointer.toNat

def minerFrame (pointer : UInt64) (block : TransactionBlock n) : List UInt8 :=
  let beforeTransactions := offsetofTransactions
  let afterTransactions := sizeofTransactionBlock - offsetofTransactions - sizeofPointer
  let headerSize := beforeTransactions + afterTransactions
  let txsSize := sizeofTransaction * n
  let totalPayloadSize := headerSize + txsSize
  leBytes sizeofSizeT totalPayloadSize ++
    (blockBytes pointer block).take beforeTransactions ++
    ((blockBytes pointer block).drop (offsetofTransactions + sizeofPointer)).take afterTransactions ++
    (transactionsBytes block.transactions.toList).take txsSize

/-- `MAX_BLOCK_SIZE`: the size of the validator's buffer and of each `read`. -/
def maxBlockSize (n : Nat) : Nat :=
  sizeofSizeT + (sizeofTransactionBlock - sizeofPointer) + n * sizeofTransaction

/-- The first `header_size` bytes of a payload, copied over the block header. -/
def loadHeader (payload : List UInt8) (transactions : List.Vector Transaction n) : TransactionBlock n :=
  { txbId := loadArray txbIdLen payload
    previousBlockHash := loadArray hashSize (payload.drop txbIdLen)
    timestamp := ⟨UInt64.ofNat (leNat ((payload.drop (txbIdLen + hashSize)).take 8))⟩
    nonce := UInt32.ofNat (leNat ((payload.drop (txbIdLen + hashSize + 8)).take 4))
    transactions }

/-- What the validator makes of the `received` bytes of one `read`; `residue`
is what `malloc` left in the buffer. `none` is the exit of its loop. -/
def decodeFrame (n : Nat) (residue received : List UInt8) : Option (TransactionBlock n) :=
  if received.length < sizeofSizeT then none
  else
    let payloadSize := leNat (received.take sizeofSizeT)
    if received.length ≠ (sizeofSizeT + payloadSize) % 2 ^ 64 then none
    else
      let buffer := received ++ residue.drop received.length
      let payload := buffer.drop sizeofSizeT
      let headerSize := sizeofTransactionBlock - sizeofPointer
      some (loadHeader payload (loadTransactions n (payload.drop headerSize)))

def headerBytes (block : TransactionBlock n) : List UInt8 :=
  block.txbId.toList ++ (block.previousBlockHash.toList ++
    (leBytes 8 block.timestamp.toUInt64.toNat ++ leBytes 4 block.nonce.toNat))

@[simp] theorem headerBytes_length (block : TransactionBlock n) :
    (headerBytes block).length = offsetofTransactions := by
  simp [headerBytes, offsetofTransactions, Nat.add_assoc]

theorem minerFrame_eq (pointer : UInt64) (block : TransactionBlock n) :
    minerFrame pointer block = leBytes sizeofSizeT (offsetofTransactions + n * sizeofTransaction) ++
      (headerBytes block ++ transactionsBytes block.transactions.toList) := by
  have whole : blockBytes pointer block = headerBytes block ++ leBytes 8 pointer.toNat := by
    simp [blockBytes, headerBytes]
  have all : (transactionsBytes block.transactions.toList).take (sizeofTransaction * n) =
      transactionsBytes block.transactions.toList :=
    List.take_of_length_le (by simp [Nat.mul_comm])
  have noneAfter : sizeofTransactionBlock - offsetofTransactions - sizeofPointer = 0 := rfl
  simp only [minerFrame, noneAfter, List.take_zero, List.append_nil, Nat.add_zero, all, whole,
    List.take_left' (headerBytes_length block), List.append_assoc]
  rw [Nat.mul_comm]

theorem minerFrame_length (pointer : UInt64) (block : TransactionBlock n) :
    (minerFrame pointer block).length = maxBlockSize n := by
  rw [minerFrame_eq]
  simp [maxBlockSize, sizeofTransactionBlock, Nat.add_assoc]

theorem loadHeader_headerBytes (block : TransactionBlock n) (rest : List UInt8) :
    loadHeader (headerBytes block ++ rest) block.transactions = block := by
  obtain ⟨txbId, previousBlockHash, timestamp, nonce, transactions⟩ := block
  have layout : headerBytes ⟨txbId, previousBlockHash, timestamp, nonce, transactions⟩ ++ rest =
      txbId.toList ++ (previousBlockHash.toList ++
        (leBytes 8 timestamp.toUInt64.toNat ++ (leBytes 4 nonce.toNat ++ rest))) := by
    simp [headerBytes]
  rw [layout, loadHeader, List.drop_left' txbId.toList_length]
  have afterHash : (txbId.toList ++ (previousBlockHash.toList ++
      (leBytes 8 timestamp.toUInt64.toNat ++ (leBytes 4 nonce.toNat ++ rest)))).drop
        (txbIdLen + hashSize) = leBytes 8 timestamp.toUInt64.toNat ++ (leBytes 4 nonce.toNat ++ rest) := by
    rw [← List.drop_drop, List.drop_left' txbId.toList_length,
      List.drop_left' previousBlockHash.toList_length]
  have afterTime : (txbId.toList ++ (previousBlockHash.toList ++
      (leBytes 8 timestamp.toUInt64.toNat ++ (leBytes 4 nonce.toNat ++ rest)))).drop
        (txbIdLen + hashSize + 8) = leBytes 4 nonce.toNat ++ rest := by
    rw [← List.drop_drop, afterHash, List.drop_left' (leBytes_length _ _)]
  rw [afterHash, afterTime, List.take_left' (leBytes_length _ _), List.take_left' (leBytes_length _ _),
    loadArray_append, loadArray_append, leNat_leBytes_of_lt 8 timestamp.toUInt64.toNat_lt,
    leNat_leBytes_of_lt 4 nonce.toNat_lt, UInt64.ofNat_toNat, UInt32.ofNat_toNat]

theorem minerFrame_payloadSize (fits : maxBlockSize n < 2 ^ 64) (pointer : UInt64)
    (block : TransactionBlock n) : leNat ((minerFrame pointer block).take sizeofSizeT) =
      offsetofTransactions + n * sizeofTransaction := by
  have sizes : maxBlockSize n = sizeofSizeT + (offsetofTransactions + n * sizeofTransaction) := by
    simp [maxBlockSize, sizeofTransactionBlock, Nat.add_assoc]
  rw [minerFrame_eq, List.take_left' (leBytes_length _ _), leNat_leBytes_of_lt sizeofSizeT]
  change offsetofTransactions + n * sizeofTransaction < 2 ^ 64
  omega

theorem decodeFrame_take (fits : maxBlockSize n < 2 ^ 64) (pointer : UInt64) (residue : List UInt8)
    (block : TransactionBlock n) {count : Nat} (short : count < maxBlockSize n) :
    decodeFrame n residue ((minerFrame pointer block).take count) = none := by
  have length : ((minerFrame pointer block).take count).length = count := by
    rw [List.length_take, minerFrame_length]
    omega
  rw [decodeFrame, length]
  by_cases tiny : count < sizeofSizeT
  · rw [if_pos tiny]
  · have sizes : maxBlockSize n = sizeofSizeT + (offsetofTransactions + n * sizeofTransaction) := by
      simp [maxBlockSize, sizeofTransactionBlock, Nat.add_assoc]
    have announced : leNat (((minerFrame pointer block).take count).take sizeofSizeT) =
        offsetofTransactions + n * sizeofTransaction := by
      rw [List.take_take, Nat.min_eq_left (Nat.le_of_not_lt tiny), minerFrame_payloadSize fits]
    rw [if_neg tiny]
    dsimp only
    rw [announced, ← sizes, Nat.mod_eq_of_lt fits, if_pos (Nat.ne_of_lt short)]

/-- A frame read whole decodes to the block it was made from, whatever the
buffer held before. -/
theorem decodeFrame_minerFrame (fits : maxBlockSize n < 2 ^ 64) (pointer : UInt64)
    (residue : List UInt8) (block : TransactionBlock n) :
    decodeFrame n residue (minerFrame pointer block) = some block := by
  have sizes : maxBlockSize n = sizeofSizeT + (offsetofTransactions + n * sizeofTransaction) := by
    simp [maxBlockSize, sizeofTransactionBlock, Nat.add_assoc]
  have prefixSize := minerFrame_payloadSize fits pointer block
  have enough : ¬ (minerFrame pointer block).length < sizeofSizeT := by
    rw [minerFrame_length, sizes]
    omega
  have announced : (minerFrame pointer block).length =
      (sizeofSizeT + (offsetofTransactions + n * sizeofTransaction)) % 2 ^ 64 := by
    rw [minerFrame_length, ← sizes, Nat.mod_eq_of_lt fits]
  have payload (rest : List UInt8) : (minerFrame pointer block ++ rest).drop sizeofSizeT =
      headerBytes block ++ (transactionsBytes block.transactions.toList ++ rest) := by
    rw [minerFrame_eq, List.append_assoc, List.drop_left' (leBytes_length _ _), List.append_assoc]
  have headerSize : sizeofTransactionBlock - sizeofPointer = offsetofTransactions := rfl
  rw [decodeFrame, if_neg enough]
  dsimp only
  rw [prefixSize, if_neg (not_not.mpr announced), payload, headerSize,
    List.drop_left' (headerBytes_length block), loadTransactions_bytes, loadHeader_headerBytes]

theorem Config.maxBlockSize_lt (cfg : Config) : maxBlockSize cfg.transactionsPerBlock < 2 ^ 64 := by
  have bound := cfg.transactionsInt
  simp only [maxBlockSize, sizeofSizeT, sizeofTransactionBlock, sizeofPointer, offsetofTransactions,
    sizeofTransaction, txbIdLen, txIdLen, hashSize]
  omega

end DeiChain
