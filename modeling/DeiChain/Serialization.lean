import DeiChain.Pow
import DeiChain.Data.Buffer

namespace DeiChain

open Data

variable {n : Nat}

/-- `get_transaction_block_size`, in `size_t`; the exit on a block without
transactions is `none`. -/
def getTransactionBlockSize (n : Nat) : Option Nat :=
  if n = 0 then none else some ((sizeofTransactionBlock + n * sizeofTransaction) % 2 ^ 64)

/-- `*sz_buf`. -/
def serializedSize (n : Nat) : Option Nat :=
  (getTransactionBlockSize n).map (· - sizeofPointer)

/-- The copies of `serialize_block` into the `buffer` it allocated, whatever
`malloc` left in it. -/
def serializeInto (block : TransactionBlock n) (buffer : List UInt8) : Option Writer := do
  let p := Writer.after [] buffer
  let p ← p.memcpy block.txbId.toList
  let p ← p.memcpy block.previousBlockHash.toList
  let p ← p.memcpy (leBytes 8 block.timestamp.toUInt64.toNat)
  let p ← block.transactions.toList.foldlM (fun p tx => p.memcpy tx.bytes) p
  p.memcpy (leBytes 4 block.nonce.toNat)

theorem serializeBlock_length (block : TransactionBlock n) :
    (serializeBlock block).length = offsetofTransactions + n * sizeofTransaction := by
  simp [serializeBlock, offsetofTransactions]
  omega

theorem serializedSize_eq (positive : 1 ≤ n) (small : n < 2 ^ 31) :
    serializedSize n = some (offsetofTransactions + n * sizeofTransaction) := by
  have whole : sizeofTransactionBlock + n * sizeofTransaction < 2 ^ 64 := by
    simp only [sizeofTransactionBlock, offsetofTransactions, sizeofPointer, sizeofTransaction, txbIdLen,
      hashSize, txIdLen]
    omega
  rw [serializedSize, getTransactionBlockSize, if_neg (Nat.ne_of_gt positive), Nat.mod_eq_of_lt whole,
    Option.map_some]
  congr 1
  rw [sizeofTransactionBlock]
  omega

/-- The copies run behind each other through a buffer that is long enough and
leave what is behind them. -/
theorem serializeInto_eq (block : TransactionBlock n) {buffer : List UInt8}
    (fits : (serializeBlock block).length ≤ buffer.length) :
    serializeInto block buffer =
      some (Writer.after (serializeBlock block) (buffer.drop (serializeBlock block).length)) := by
  have id := block.txbId.toList_length
  have hash := block.previousBlockHash.toList_length
  have txs : (block.transactions.toList.flatMap Transaction.bytes).length = n * sizeofTransaction := by
    rw [← transactionsBytes, transactionsBytes_length, List.Vector.toList_length]
  have time := leBytes_length 8 block.timestamp.toUInt64.toNat
  have nonce := leBytes_length 4 block.nonce.toNat
  rw [serializeBlock_length, offsetofTransactions] at fits
  have idFits : block.txbId.toList.length ≤ buffer.length := by omega
  rw [serializeInto]
  simp only [Option.bind_eq_bind]
  rw [Writer.memcpy_after [] idFits, Option.bind_some, Writer.memcpy_after _ (by rw [List.length_drop]; omega),
    Option.bind_some, List.drop_drop, Writer.memcpy_after _ (by rw [List.length_drop]; omega),
    Option.bind_some, List.drop_drop,
    Writer.foldlM_memcpy_after Transaction.bytes _ _ (by rw [List.length_drop]; omega),
    Option.bind_some, List.drop_drop, Writer.memcpy_after _ (by rw [List.length_drop]; omega), List.drop_drop]
  simp only [serializeBlock, transactionsBytes, List.nil_append, List.length_append]

theorem leBytes_injective {width left right : Nat} (leftFits : left < 256 ^ width)
    (rightFits : right < 256 ^ width) (same : leBytes width left = leBytes width right) : left = right := by
  rw [← leNat_leBytes_of_lt width leftFits, same, leNat_leBytes_of_lt width rightFits]

theorem transactionsBytes_injective {left right : List.Vector Transaction n}
    (same : transactionsBytes left.toList = transactionsBytes right.toList) : left = right := by
  have read := loadTransactions_bytes left []
  rw [same, loadTransactions_bytes right []] at read
  exact read.symm

theorem serializeBlock_injective : Function.Injective (serializeBlock (n := n)) := by
  intro left right same
  obtain ⟨leftId, leftHash, leftTime, leftNonce, leftTxs⟩ := left
  obtain ⟨rightId, rightHash, rightTime, rightNonce, rightTxs⟩ := right
  simp only [serializeBlock, List.append_assoc] at same
  obtain ⟨sameId, same⟩ := List.append_inj same (by simp)
  obtain ⟨sameHash, same⟩ := List.append_inj same (by simp)
  obtain ⟨sameTime, same⟩ := List.append_inj same (by simp)
  obtain ⟨sameTxs, sameNonce⟩ := List.append_inj same (by simp)
  have time := leBytes_injective leftTime.toUInt64.toNat_lt rightTime.toUInt64.toNat_lt sameTime
  have nonce := leBytes_injective leftNonce.toNat_lt rightNonce.toNat_lt sameNonce
  congr 1
  · exact List.Vector.eq _ _ sameId
  · exact List.Vector.eq _ _ sameHash
  · exact congrArg Int64.ofUInt64 (UInt64.toNat_inj.mp time)
  · exact UInt32.toNat_inj.mp nonce
  · exact transactionsBytes_injective sameTxs

/-- `serialize_block` fills the buffer it allocates exactly, whatever was in
it, and the bytes determine the block. -/
theorem serialize_block_commits (cfg : Config) :
    (∃ size, serializedSize cfg.transactionsPerBlock = some size ∧
      ∀ (block : TransactionBlock cfg.transactionsPerBlock) (buffer : List.Vector UInt8 size),
        serializeInto block buffer.toList = some ⟨serializeBlock block, size⟩ ∧
          (serializeBlock block).length = size) ∧
      Function.Injective (serializeBlock (n := cfg.transactionsPerBlock)) := by
  refine ⟨⟨_, serializedSize_eq cfg.transactionsPositive cfg.transactionsInt, fun block buffer => ?_⟩,
    serializeBlock_injective⟩
  have length := serializeBlock_length block
  refine ⟨?_, length⟩
  have filled := length.trans buffer.toList_length.symm
  rw [serializeInto_eq block (Nat.le_of_eq filled), filled, List.drop_length, Writer.after,
    List.append_nil, length]

end DeiChain
