import DeiChain.Data.CString
import DeiChain.Data.LittleEndian
import DeiChain.Data.Binary32

namespace DeiChain

open Data

def txIdLen : Nat := 64
def hashSize : Nat := 65
def txbIdLen : Nat := 64

/-- The four values of the configuration file, as `main` lets them pass: each
is an `int` that `parse_config` read from digits and that a check bounds below. -/
structure Config where
  numMiners : Nat
  transactionPoolSize : Nat
  transactionsPerBlock : Nat
  blockchainBlocks : Nat
  minersPositive : 1 ≤ numMiners := by decide
  poolPositive : 1 ≤ transactionPoolSize := by decide
  transactionsPositive : 1 ≤ transactionsPerBlock := by decide
  twoBlocks : 2 ≤ blockchainBlocks := by decide
  minersInt : numMiners < 2 ^ 31 := by decide
  poolInt : transactionPoolSize < 2 ^ 31 := by decide
  transactionsInt : transactionsPerBlock < 2 ^ 31 := by decide
  blocksInt : blockchainBlocks < 2 ^ 31 := by decide

structure Transaction where
  txId : CharArray txIdLen
  reward : Int32
  value : Binary32
  timestamp : Int64
deriving DecidableEq

def Transaction.zero : Transaction := ⟨zeroArray txIdLen, 0, ⟨0⟩, 0⟩

/-- The id as the string that `strcmp` compares. -/
def Transaction.id (tx : Transaction) : List UInt8 := cstr tx.txId.toList

structure PendingTransaction where
  filled : Int
  age : UInt32
  tx : Transaction
deriving DecidableEq

/-- An instantiated block of `n` transactions: the in-memory `TransactionBlock`
and the block slot of the ledger have these same fields. -/
structure TransactionBlock (n : Nat) where
  txbId : CharArray txbIdLen
  previousBlockHash : CharArray hashSize
  timestamp : Int64
  nonce : UInt32
  transactions : List.Vector Transaction n

def TransactionBlock.zero (n : Nat) : TransactionBlock n :=
  ⟨zeroArray txbIdLen, zeroArray hashSize, 0, 0, List.Vector.replicate n Transaction.zero⟩

def TransactionBlock.ids {n : Nat} (block : TransactionBlock n) : List (List UInt8) :=
  block.transactions.toList.map Transaction.id

@[simp] theorem TransactionBlock.ids_length {n : Nat} (block : TransactionBlock n) :
    block.ids.length = n := by
  simp [TransactionBlock.ids]

theorem TransactionBlock.ids_ne_nil {n : Nat} (positive : 1 ≤ n) (block : TransactionBlock n) :
    block.ids ≠ [] := by
  apply List.ne_nil_of_length_pos
  rwa [TransactionBlock.ids_length]

def sizeofSizeT : Nat := 8
def sizeofPointer : Nat := 8

/-- 64 characters, two 4 byte fields and an 8 byte time need no padding;
`TransactionBlock` is packed and ends in the pointer to its transactions. -/
def sizeofTransaction : Nat := txIdLen + 4 + 4 + 8
def offsetofTransactions : Nat := txbIdLen + hashSize + 8 + 4
def sizeofTransactionBlock : Nat := offsetofTransactions + sizeofPointer

def Transaction.bytes (tx : Transaction) : List UInt8 :=
  tx.txId.toList ++ leBytes 4 tx.reward.toUInt32.toNat ++ leBytes 4 tx.value.bits.toNat ++
    leBytes 8 tx.timestamp.toUInt64.toNat

def transactionsBytes (txs : List Transaction) : List UInt8 := txs.flatMap Transaction.bytes

def loadTransaction (bytes : List UInt8) : Transaction :=
  { txId := loadArray txIdLen bytes
    reward := ⟨UInt32.ofNat (leNat ((bytes.drop txIdLen).take 4))⟩
    value := ⟨UInt32.ofNat (leNat ((bytes.drop (txIdLen + 4)).take 4))⟩
    timestamp := ⟨UInt64.ofNat (leNat ((bytes.drop (txIdLen + 8)).take 8))⟩ }

/-- `memcpy` of `count` transactions out of a buffer. -/
def loadTransactions : (count : Nat) → List UInt8 → List.Vector Transaction count
  | 0, _ => .nil
  | count + 1, bytes => loadTransaction bytes ::ᵥ loadTransactions count (bytes.drop sizeofTransaction)

@[simp] theorem Transaction.bytes_length (tx : Transaction) : tx.bytes.length = sizeofTransaction := by
  simp [Transaction.bytes, sizeofTransaction]

@[simp] theorem transactionsBytes_length (txs : List Transaction) :
    (transactionsBytes txs).length = txs.length * sizeofTransaction := by
  induction txs with
  | nil => simp [transactionsBytes]
  | cons tx rest ih =>
      simp only [transactionsBytes, List.flatMap_cons, List.length_append, Transaction.bytes_length,
        List.length_cons] at ih ⊢
      rw [ih, Nat.add_mul, Nat.one_mul, Nat.add_comm]

theorem loadTransaction_bytes (tx : Transaction) (rest : List UInt8) :
    loadTransaction (tx.bytes ++ rest) = tx := by
  obtain ⟨txId, reward, value, timestamp⟩ := tx
  have layout : (Transaction.mk txId reward value timestamp).bytes ++ rest =
      txId.toList ++ (leBytes 4 reward.toUInt32.toNat ++ (leBytes 4 value.bits.toNat ++
        (leBytes 8 timestamp.toUInt64.toNat ++ rest))) := by
    simp [Transaction.bytes]
  have afterId : ((Transaction.mk txId reward value timestamp).bytes ++ rest).drop txIdLen =
      leBytes 4 reward.toUInt32.toNat ++ (leBytes 4 value.bits.toNat ++
        (leBytes 8 timestamp.toUInt64.toNat ++ rest)) := by
    rw [layout]
    exact List.drop_left' txId.toList_length
  have afterReward : ((Transaction.mk txId reward value timestamp).bytes ++ rest).drop (txIdLen + 4) =
      leBytes 4 value.bits.toNat ++ (leBytes 8 timestamp.toUInt64.toNat ++ rest) := by
    rw [← List.drop_drop, afterId, List.drop_left' (leBytes_length _ _)]
  have afterValue : ((Transaction.mk txId reward value timestamp).bytes ++ rest).drop (txIdLen + 8) =
      leBytes 8 timestamp.toUInt64.toNat ++ rest := by
    rw [show txIdLen + 8 = txIdLen + 4 + 4 from rfl, ← List.drop_drop, afterReward,
      List.drop_left' (leBytes_length _ _)]
  have rewardBound := reward.toUInt32.toNat_lt
  have valueBound := value.bits.toNat_lt
  have timeBound := timestamp.toUInt64.toNat_lt
  rw [loadTransaction, afterId, afterReward, afterValue]
  simp only [List.take_left' (leBytes_length _ _), leNat_leBytes_of_lt 4 rewardBound,
    leNat_leBytes_of_lt 4 valueBound, leNat_leBytes_of_lt 8 timeBound,
    layout, loadArray_append, UInt32.ofNat_toNat, UInt64.ofNat_toNat]

theorem loadTransactions_bytes {count : Nat} (txs : List.Vector Transaction count) (rest : List UInt8) :
    loadTransactions count (transactionsBytes txs.toList ++ rest) = txs := by
  induction count with
  | zero => exact (List.Vector.eq_nil txs).symm
  | succ count ih =>
      obtain ⟨head, tail, rfl⟩ := txs.exists_eq_cons
      have layout : transactionsBytes (head ::ᵥ tail).toList ++ rest =
          head.bytes ++ (transactionsBytes tail.toList ++ rest) := by
        simp [transactionsBytes]
      rw [layout, loadTransactions, loadTransaction_bytes,
        List.drop_left' (Transaction.bytes_length _), ih]

end DeiChain
