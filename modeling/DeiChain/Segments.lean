import DeiChain.Data.Memory
import DeiChain.Layout
import DeiChain.Signals

namespace DeiChain

open Data Systems Systems.Sections

/-! # The two segments as bytes

The processes share two stretches of memory. Each finds its way in them through
an interface: the header says where the slots of the pool and the blocks of the
ledger begin, and every assignment of a section stores the bytes of one field.
-/

def viewTransaction (memory : Memory) (start : Nat) : Transaction where
  txId := memory.chars txIdLen start
  reward := memory.i32 (start + txIdLen)
  value := ⟨memory.u32 (start + (txIdLen + 4))⟩
  timestamp := memory.i64 (start + (txIdLen + 8))

def viewSlot (memory : Memory) (start : Nat) : PendingTransaction where
  filled := (memory.i32 start).toInt
  age := memory.u32 (start + 4)
  tx := viewTransaction memory (start + 8)

/-- `interfaceTxPool`: the slots are where `transactions_offset` says. -/
def viewPool (memory : Memory) : TransactionPool where
  count := memory.u32 4
  transactions := readTable viewSlot sizeofPendingTransaction (memory.u32 0).toNat memory (memory.u64 16).toNat

def viewBlock (txs : Nat) (memory : Memory) (block : TransactionBlockInterface) : TransactionBlock txs where
  txbId := memory.chars txbIdLen block.txbId.start
  previousBlockHash := memory.chars hashSize block.previousBlockHash.start
  timestamp := memory.i64 block.timestamp.start
  nonce := memory.u32 block.nonce.start
  transactions := readVector viewTransaction sizeofTransaction txs memory block.transactions

/-- The block that begins at an offset, as `interfaceTxBlock` shows it. -/
def viewBlockAt (txs : Nat) (memory : Memory) (blockOffset : Nat) : TransactionBlock txs :=
  viewBlock txs memory (interfaceTxBlock blockOffset)

/-- `interfaceLedger`, which walks from `blocks_offset` on; it has no block past
`num_blocks`. -/
def viewLedger (txs : Nat) (memory : Memory) : Ledger txs where
  lastBlockIndex := (memory.u32 0).toNat
  lastBlockHash := memory.chars hashSize 4
  numBlocks := (memory.u32 72).toNat
  count := (memory.u32 76).toNat
  blocks i :=
    match (interfaceBlocks txs (memory.u32 72).toNat (memory.u64 80).toNat)[i]? with
    | some block => viewBlock txs memory block
    | none => TransactionBlock.zero txs

section

variable (cfg : Config)

/-- `memset` and the header fields that `main` stores. -/
def poolSegment : Memory :=
  [Write.word 4 0 cfg.transactionPoolSize, .word 4 8 cfg.numMiners, .word 4 12 cfg.transactionsPerBlock,
    .word 8 16 sizeofTransactionPoolSHM].foldl Memory.store .zero

def ledgerSegment : Memory :=
  [Write.word 4 72 cfg.blockchainBlocks, .word 8 80 sizeofLedgerSHM].foldl Memory.store .zero

/-- The header fields of the pool that nobody changes; the generators signal by
the two that they read at their start. -/
structure PoolHeader (memory : Memory) : Prop where
  size : memory.u32 0 = .ofNat cfg.transactionPoolSize
  numMiners : memory.u32 8 = .ofNat cfg.numMiners
  transactionsPerBlock : memory.u32 12 = .ofNat cfg.transactionsPerBlock
  transactionsOffset : memory.u64 16 = .ofNat sizeofTransactionPoolSHM

structure LedgerHeader (memory : Memory) : Prop where
  numBlocks : memory.u32 72 = .ofNat cfg.blockchainBlocks
  blocksOffset : memory.u64 80 = .ofNat sizeofLedgerSHM

end

/-- A structure as it is copied. -/
def PendingTransaction.bytes (slot : PendingTransaction) : List UInt8 :=
  leBytes 4 (Int32.ofInt slot.filled).toUInt32.toNat ++ (leBytes 4 slot.age.toNat ++ (slot.tx.txId.toList ++
    (leBytes 4 slot.tx.reward.toUInt32.toNat ++ (leBytes 4 slot.tx.value.bits.toNat ++
      leBytes 8 slot.tx.timestamp.toUInt64.toNat))))

def insertionWrites (pool : TransactionPool) (new : PendingTransaction) : List Assignment :=
  match insertTransaction pool new with
  | .added i _ => [fun _ => some ⟨(poolSlot i).start, new.bytes⟩, setWord 4 (· + 1)]
  | .noSlot | .full => []

def clearSlot (start : Nat) : Assignment := fun _ => some (.word 4 start 0)

def removalWrites : TransactionPool → List Transaction → List Assignment
  | _, [] => []
  | pool, tx :: rest =>
      (match findTransaction pool tx with
        | some j => [clearSlot (poolSlot j).start, setWord 4 (· - 1)]
        | none => []) ++ removalWrites (removeTransaction pool tx) rest

def raiseSlot (start : Nat) : Assignment := fun memory =>
  let slot := viewSlot memory start
  if slot.filled = 1 ∧ slot.age % 50 = 0 then
    some (.word 4 (start + (8 + txIdLen)) (slot.tx.reward + 1).toUInt32.toNat)
  else none

def ageSlot (start : Nat) : Assignment := fun memory =>
  let slot := viewSlot memory start
  if slot.filled = 1 then some (.word 4 (start + 4) (slot.age + 1).toNat) else none

def agingWrites (size : Nat) : List Assignment :=
  (List.range size).flatMap fun i => [raiseSlot (poolSlot i).start, ageSlot (poolSlot i).start]

section

variable {n : Nat}

def poolPhaseWrites (pool : TransactionPool) (block : TransactionBlock n) : List Assignment :=
  if checkTransactions pool block then
    removalWrites pool block.transactions.toList ++ agingWrites pool.size
  else []

/-- The start of block `i`, of `n` transactions as all the others. -/
def blockStart (n i : Nat) : Nat := sizeofLedgerSHM + i * blockStride n

def genesisWrites (n : Nat) (sha256 : Sha256) : List Assignment :=
  let (nemesisBlock, result) := proofOfWork sha256 (TransactionBlock.zero n)
  let slot := interfaceTxBlock (blockStart n 0)
  [setWord 76 fun _ => 1,
    fun _ => some ⟨slot.txbId.start, [122]⟩,
    copyString slot.txbId.start nemesisBlock.txbId.toList,
    copyWord 8 slot.timestamp.start nemesisBlock.timestamp.toUInt64.toNat,
    copyWord 4 slot.nonce.start nemesisBlock.nonce.toNat,
    copyString 4 result.hash.toList]

def transactionWrites (start : Nat) (tx : Transaction) : List Assignment :=
  [copyString start tx.txId.toList,
    copyWord 4 (start + txIdLen) tx.reward.toUInt32.toNat,
    copyWord 4 (start + (txIdLen + 4)) tx.value.bits.toNat,
    copyWord 8 (start + (txIdLen + 8)) tx.timestamp.toUInt64.toNat]

def blockWrites (i : Nat) (block : TransactionBlock n) : List Assignment :=
  let slot := interfaceTxBlock (blockStart n i)
  [copyString slot.txbId.start block.txbId.toList,
    copyString slot.previousBlockHash.start block.previousBlockHash.toList,
    copyWord 8 slot.timestamp.start block.timestamp.toUInt64.toNat,
    copyWord 4 slot.nonce.start block.nonce.toNat] ++
    (List.finRange n).flatMap fun j =>
      transactionWrites (slot.transactions + j.val * sizeofTransaction) (block.transactions.get j)

def appendWrites (nextIndex : Nat) (block : TransactionBlock n) (hash : CharArray hashSize) : List Assignment :=
  blockWrites nextIndex block ++ [copyString 4 hash.toList, setWord 76 (· + 1), setWord 0 (· + 1)]

/-- The walk of `interfaceLedger`: whoever makes an interface stores the offset
of the transactions in every block, under no semaphore. -/
def interfaceWrites (n : Nat) (memory : Memory) : List Assignment :=
  (interfaceBlocks n (memory.u32 72).toNat (memory.u64 80).toNat).map fun block =>
    copyWord 8 block.transactionsOffset.start sizeofTransactionBlockSHM

end

section

open Memory

variable {start : Nat}

theorem local_transaction : Local sizeofTransaction viewTransaction := by
  intro left right start same
  rw [viewTransaction, viewTransaction, (local_chars txIdLen).front same (by decide),
    local_i32.part same (by decide : txIdLen + 4 ≤ _), local_u32.part same (by decide : txIdLen + 4 + 4 ≤ _),
    local_i64.part same (by decide : txIdLen + 8 + 8 ≤ _)]

theorem local_slot : Local sizeofPendingTransaction viewSlot := by
  intro left right start same
  rw [viewSlot, viewSlot, local_i32.front same (by decide), local_u32.part same (by decide : 4 + 4 ≤ _),
    local_transaction.part same (by decide : 8 + sizeofTransaction ≤ _)]

theorem local_block (n : Nat) : Local (blockStride n) (viewBlockAt n) := by
  intro left right start same
  have header : sizeofTransactionBlockSHM ≤ blockStride n := Nat.le_add_right _ _
  simp only [sizeofTransactionBlockSHM] at header
  have txs : sizeofTransactionBlockSHM + n * sizeofTransaction ≤ blockStride n := Nat.le_refl _
  simp only [viewBlockAt, viewBlock, interfaceTxBlock]
  rw [(local_chars txbIdLen).front same (Nat.le_trans (by decide) header),
    (local_chars hashSize).part same (Nat.le_trans (by decide : txbIdLen + hashSize ≤ _) header),
    local_i64.part same (Nat.le_trans (by decide : 136 + 8 ≤ _) header),
    local_u32.part same (Nat.le_trans (by decide : 144 + 4 ≤ _) header),
    local_transaction.vector.part same txs]

theorem viewTransaction_zero (start : Nat) : viewTransaction .zero start = Transaction.zero := by
  simp only [viewTransaction, chars_zero, i32_zero, u32_zero, i64_zero]
  rfl

theorem viewSlot_zero (start : Nat) : viewSlot .zero start = PendingTransaction.zero := by
  simp only [viewSlot, viewTransaction_zero, i32_zero, u32_zero]
  rfl

theorem viewBlock_zero (n : Nat) (block : TransactionBlockInterface) :
    viewBlock n .zero block = TransactionBlock.zero n := by
  simp only [viewBlock, chars_zero, u32_zero, i64_zero, TransactionBlock.zero]
  congr 1
  apply List.Vector.ext
  intro i
  rw [readVector, List.Vector.get_ofFn, viewTransaction_zero, List.Vector.get_replicate]

theorem poolSegment_header (cfg : Config) : PoolHeader cfg (poolSegment cfg) := by
  simp only [poolSegment, List.foldl_cons, List.foldl_nil]
  constructor <;>
    simp (disch := (simp only [Write.word_start, Write.word_length]; omega)) only [u32_beside, u32_stored,
      u64_stored]

theorem ledgerSegment_header (cfg : Config) : LedgerHeader cfg (ledgerSegment cfg) := by
  simp only [ledgerSegment, List.foldl_cons, List.foldl_nil]
  constructor <;>
    simp (disch := (simp only [Write.word_start, Write.word_length]; omega)) only [u32_beside, u32_stored,
      u64_stored]

theorem transaction_changes (start : Nat) {tx : Transaction} (terminated : (cstr tx.txId.toList).length < txIdLen) :
    List.Forall₂ (Changes viewTransaction sizeofTransaction start) (transactionWrites start tx)
      (transactionStores tx) := by
  refine .cons ?_ (.cons ?_ (.cons ?_ (.cons ?_ .nil)))
  · apply copyString_changes terminated (Nat.le_refl _) (Nat.add_le_add_left (by decide) _)
    intro memory
    simp (disch := (simp only [Write.string_start, Write.string_length]; omega)) only [viewTransaction,
      chars_string terminated, i32_beside, u32_beside, i64_beside]
  · apply copyWord_changes (Nat.le_add_right _ _) (by simp only [txIdLen, sizeofTransaction]; omega)
    intro memory
    simp (disch := (simp only [Write.word_start, Write.word_length, txIdLen]; omega)) only [viewTransaction,
      chars_beside, i32_word, u32_beside, i64_beside]
  · apply copyWord_changes (Nat.le_add_right _ _) (by simp only [txIdLen, sizeofTransaction]; omega)
    intro memory
    simp (disch := (simp only [Write.word_start, Write.word_length, txIdLen]; omega)) only [viewTransaction,
      chars_beside, i32_beside, u32_word, i64_beside]
  · apply copyWord_changes (Nat.le_add_right _ _) (by simp only [txIdLen, sizeofTransaction]; omega)
    intro memory
    simp (disch := (simp only [Write.word_start, Write.word_length, txIdLen]; omega)) only [viewTransaction,
      chars_beside, i32_beside, u32_beside, i64_word]

theorem PendingTransaction.bytes_length (slot : PendingTransaction) :
    slot.bytes.length = sizeofPendingTransaction := by
  simp only [PendingTransaction.bytes, List.length_append, leBytes_length, List.Vector.toList_length]
  rfl

/-- A copied structure is its fields one after the other. -/
theorem slot_stored (start : Nat) {new : PendingTransaction} (flag : (Int32.ofInt new.filled).toInt = new.filled)
    (memory : Memory) : viewSlot (memory.store ⟨start, new.bytes⟩) start = new := by
  have word : ∀ width place value, (⟨place, leBytes width value⟩ : Write) = .word width place value :=
    fun _ _ _ => rfl
  have txId : start + 8 = start + 4 + 4 := rfl
  have value : start + 4 + 4 + (txIdLen + 4) = start + 4 + 4 + txIdLen + 4 := (Nat.add_assoc _ _ _).symm
  have time : start + 4 + 4 + (txIdLen + 8) = start + 4 + 4 + txIdLen + 4 + 4 := by omega
  simp only [PendingTransaction.bytes, store_append, leBytes_length, List.Vector.toList_length, word]
  simp (disch := (simp only [Write.word_start, Write.word_length, List.Vector.toList_length, txIdLen]; omega)) only
    [viewSlot, viewTransaction, txId, value, time, chars_beside, u32_beside, i32_beside, i32_word, u32_word,
      i64_word, chars_array, flag]

theorem slot_changes_new (start : Nat) {new : PendingTransaction}
    (flag : (Int32.ofInt new.filled).toInt = new.filled) :
    Changes viewSlot sizeofPendingTransaction start (fun _ => some ⟨start, new.bytes⟩) fun _ => new where
  within memory write stores := by
    cases stores
    exact ⟨Nat.le_refl _, by simp [Write.extent, Extent.finish, PendingTransaction.bytes_length]⟩
  result memory := slot_stored start flag memory

theorem slot_changes_clear (start : Nat) :
    Changes viewSlot sizeofPendingTransaction start (clearSlot start) PendingTransaction.clear := by
  apply copyWord_changes (Nat.le_refl _) (Nat.add_le_add_left (by decide) _)
  intro memory
  have zero : (memory.store (.word 4 start 0)).i32 start = 0 := i32_word 0
  simp (disch := (simp only [Write.word_start, Write.word_length, txIdLen]; omega)) only [viewSlot,
    viewTransaction, PendingTransaction.clear, zero, chars_beside, u32_beside, i32_beside, i64_beside]
  rfl

theorem slot_changes_raise (start : Nat) :
    Changes viewSlot sizeofPendingTransaction start (raiseSlot start) PendingTransaction.raised where
  within memory write stores := by
    simp only [raiseSlot] at stores
    split at stores
    · cases stores
      simp only [Write.Within, Extent.Within, Extent.finish, Write.extent, Write.word_start, Write.word_length,
        txIdLen, sizeofPendingTransaction, sizeofTransaction]
      omega
    · cases stores
  result memory := by
    rw [PendingTransaction.raised]
    split
    · rename_i due
      rw [assign_some (if_pos due)]
      simp (disch := (simp only [Write.word_start, Write.word_length, txIdLen]; omega)) only [viewSlot,
        viewTransaction, chars_beside, u32_beside, i32_beside, i64_beside, i32_word, ← Nat.add_assoc]
    · rename_i other
      rw [assign, raiseSlot, if_neg other]

theorem slot_changes_age (start : Nat) :
    Changes viewSlot sizeofPendingTransaction start (ageSlot start) PendingTransaction.older where
  within memory write stores := by
    simp only [ageSlot] at stores
    split at stores
    · cases stores
      simp only [Write.Within, Extent.Within, Extent.finish, Write.extent, Write.word_start, Write.word_length,
        txIdLen, sizeofPendingTransaction, sizeofTransaction]
      omega
    · cases stores
  result memory := by
    rw [PendingTransaction.older]
    split
    · rename_i filled
      rw [assign_some (if_pos filled)]
      simp (disch := (simp only [Write.word_start, Write.word_length, txIdLen]; omega)) only [viewSlot,
        viewTransaction, chars_beside, u32_beside, i32_beside, i64_beside, u32_word]
    · rename_i empty
      rw [assign, ageSlot, if_neg empty]

theorem block_changes_transaction {n : Nat} {j : Fin n} {assignment : Assignment}
    {change : Transaction → Transaction}
    (changes : Changes viewTransaction sizeofTransaction
      ((interfaceTxBlock start).transactions + j * sizeofTransaction) assignment change) :
    Changes (viewBlockAt n) (blockStride n) start assignment (.modifyTransaction j change) := by
  have whole := changes.vector local_transaction
  constructor
  · intro memory write stores
    obtain ⟨lower, upper⟩ := whole.within memory write stores
    simp only [interfaceTxBlock, Extent.finish] at lower upper
    constructor
    · exact Nat.le_trans (Nat.le_add_right _ _) lower
    · rw [blockStride, Extent.finish, Extent.finish, ← Nat.add_assoc]
      exact upper
  · intro memory
    have before : ∀ offset width, offset + width ≤ sizeofTransactionBlockSHM →
        start + offset + width ≤ start + sizeofTransactionBlockSHM := by
      intro offset width inHeader
      rw [Nat.add_assoc]
      exact Nat.add_le_add_left inHeader start
    rw [viewBlockAt, viewBlockAt, viewBlock, viewBlock, TransactionBlock.modifyTransaction, whole.result memory]
    simp only [interfaceTxBlock] at whole ⊢
    rw [whole.beside (local_chars txbIdLen) (.inl (Nat.add_le_add_left (by decide) _)),
      whole.beside (local_chars hashSize) (.inl (before txbIdLen hashSize (by decide))),
      whole.beside local_i64 (.inl (before 136 8 (by decide))),
      whole.beside local_u32 (.inl (before 144 4 (by decide)))]

theorem transactions_beside {n : Nat} {memory : Memory} {write : Write}
    (before : write.start + write.bytes.length ≤ start) :
    readVector viewTransaction sizeofTransaction n (memory.store write) start =
      readVector viewTransaction sizeofTransaction n memory start :=
  local_transaction.vector.beside (.inr before)

/-- The fields of a block before its transactions. -/
theorem block_changes_header {n : Nat} (start : Nat) {block : TransactionBlock n} (padded : block.Padded) :
    List.Forall₂ (Changes (viewBlockAt n) (blockStride n) start)
      [copyString (interfaceTxBlock start).txbId.start block.txbId.toList,
        copyString (interfaceTxBlock start).previousBlockHash.start block.previousBlockHash.toList,
        copyWord 8 (interfaceTxBlock start).timestamp.start block.timestamp.toUInt64.toNat,
        copyWord 4 (interfaceTxBlock start).nonce.start block.nonce.toNat]
      [fun slot => { slot with txbId := strcpy slot.txbId block.txbId.toList },
        fun slot =>
          { slot with previousBlockHash := strcpy slot.previousBlockHash block.previousBlockHash.toList },
        fun slot => { slot with timestamp := block.timestamp },
        fun slot => { slot with nonce := block.nonce }] := by
  have room : sizeofTransactionBlockSHM ≤ blockStride n := Nat.le_add_right _ _
  have header : sizeofTransactionBlockSHM = 160 := rfl
  have idWidth : txbIdLen = 64 := rfl
  have hashWidth : hashSize = 65 := rfl
  have shortId := padded.txbId.1
  have shortHash := padded.previousBlockHash.1
  simp only [interfaceTxBlock]
  refine .cons ?_ (.cons ?_ (.cons ?_ (.cons ?_ .nil)))
  · apply copyString_changes shortId (Nat.le_refl _) (by omega)
    intro memory
    simp (disch := (simp only [Write.string_start, Write.string_length]; omega)) only [viewBlockAt, viewBlock,
      interfaceTxBlock, chars_string shortId, chars_beside, i64_beside, u32_beside, transactions_beside]
  · apply copyString_changes shortHash (Nat.le_add_right _ _) (by omega)
    intro memory
    simp (disch := (simp only [Write.string_start, Write.string_length]; omega)) only [viewBlockAt, viewBlock,
      interfaceTxBlock, chars_string shortHash, chars_beside, i64_beside, u32_beside, transactions_beside]
  · apply copyWord_changes (Nat.le_add_right _ _) (by omega)
    intro memory
    simp (disch := (simp only [Write.word_start, Write.word_length]; omega)) only [viewBlockAt, viewBlock,
      interfaceTxBlock, chars_beside, i64_word, u32_beside, transactions_beside]
  · apply copyWord_changes (Nat.le_add_right _ _) (by omega)
    intro memory
    simp (disch := (simp only [Write.word_start, Write.word_length]; omega)) only [viewBlockAt, viewBlock,
      interfaceTxBlock, chars_beside, i64_beside, u32_word, transactions_beside]

/-- The field by field copy of a streamed block. -/
theorem block_changes {n : Nat} (i : Nat) {block : TransactionBlock n} (padded : block.Padded) :
    List.Forall₂ (Changes (viewBlockAt n) (blockStride n) (blockStart n i)) (blockWrites i block)
      (blockStores block) := by
  refine List.rel_append (block_changes_header (blockStart n i) padded) (List.rel_flatMap
    (List.forall₂_same.mpr fun j _ => rfl) ?_)
  intro j _ same
  subst same
  rw [List.forall₂_map_right_iff]
  refine (transaction_changes _ ?_).imp fun _ _ changes => block_changes_transaction changes
  exact (padded.transactions _ (List.Vector.get_mem j block.transactions)).1

end

section

variable {cfg : Config} {memory : Memory} {assignment : Assignment}

theorem PoolHeader.size_toNat (header : PoolHeader cfg memory) :
    (memory.u32 0).toNat = cfg.transactionPoolSize := by
  rw [header.size, UInt32.toNat_ofNat_of_lt' (Nat.lt_trans cfg.poolInt (by decide))]

theorem PoolHeader.viewPool (header : PoolHeader cfg memory) : viewPool memory =
    ⟨memory.u32 4,
      readTable viewSlot sizeofPendingTransaction cfg.transactionPoolSize memory sizeofTransactionPoolSHM⟩ := by
  rw [DeiChain.viewPool, header.size_toNat, header.transactionsOffset]
  rfl

theorem viewPool_segment (cfg : Config) :
    DeiChain.viewPool (poolSegment cfg) = .initial cfg.transactionPoolSize := by
  have count : (poolSegment cfg).u32 4 = 0 := by
    simp (disch := (simp only [Write.word_start, Write.word_length]; omega)) only [poolSegment, List.foldl_cons,
      List.foldl_nil, Memory.u32_beside, Memory.u32_zero]
  rw [(poolSegment_header cfg).viewPool, count, TransactionPool.initial]
  congr 1
  apply List.ext_getElem
  · rw [readTable, List.length_map, List.length_range, List.length_replicate]
  · intro i inside _
    simp only [readTable, List.getElem_map, List.getElem_range, List.getElem_replicate]
    rw [poolSegment, local_slot.behind, viewSlot_zero]
    simp only [List.forall_mem_cons, Write.word_start, Write.word_length, sizeofTransactionPoolSHM]
    refine ⟨?_, ?_, ?_, ?_, by simp⟩ <;> omega

/-- The header stays where only the counter or what lies behind it is assigned to. -/
theorem PoolHeader.keep {α : Type} {read : Memory → Nat → α} {length start : Nat} {change : α → α}
    (header : PoolHeader cfg memory) (changes : Changes read length start assignment change)
    (elsewhere : start = 4 ∧ length = 4 ∨ sizeofTransactionPoolSHM ≤ start) :
    PoolHeader cfg (memory.assign assignment) := by
  have size : sizeofTransactionPoolSHM = 24 := rfl
  constructor
  · rw [changes.beside local_u32 (by omega), header.size]
  · rw [changes.beside local_u32 (by omega), header.numMiners]
  · rw [changes.beside local_u32 (by omega), header.transactionsPerBlock]
  · rw [changes.beside local_u64 (by omega), header.transactionsOffset]

abbrev PoolRealizes (cfg : Config) : Assignment → (TransactionPool → TransactionPool) → Prop :=
  Realizes (PoolHeader cfg) (shmTransactionspoolSize cfg) viewPool

theorem realizes_setCount (fits : poolBytes cfg < 2 ^ 31) (change : UInt32 → UInt32) :
    PoolRealizes cfg (setWord 4 change) (.setCount change) := by
  have changes := setWord_changes 4 change
  have size : (poolBytes cfg : Int) ≤ shmTransactionspoolSize cfg := (le_intOfSizeT_iff _).mpr fits
  have counter : 4 + 4 ≤ poolBytes cfg := Nat.le_trans (by decide) (Nat.le_add_right _ _)
  constructor
  · exact changes.inside (Int.le_trans (Int.ofNat_le.mpr counter) size)
  · intro memory header
    exact header.keep changes (.inl ⟨rfl, rfl⟩)
  · intro memory header
    rw [(header.keep changes (.inl ⟨rfl, rfl⟩)).viewPool, header.viewPool, TransactionPool.setCount,
      changes.result memory, changes.beside local_slot.table (.inr (by decide))]

theorem realizes_modifySlot (fits : poolBytes cfg < 2 ^ 31) {i : Nat} (inPool : i < cfg.transactionPoolSize)
    {change : PendingTransaction → PendingTransaction}
    (changes : Changes viewSlot sizeofPendingTransaction (poolSlot i).start assignment change) :
    PoolRealizes cfg assignment (.modifySlot i change) := by
  have behind : sizeofTransactionPoolSHM ≤ (poolSlot i).start := Nat.le_add_right _ _
  constructor
  · exact changes.inside (cell_inside inPool ((le_intOfSizeT_iff _).mpr fits))
  · intro memory header
    exact header.keep changes (.inr behind)
  · intro memory header
    rw [(header.keep changes (.inr behind)).viewPool, header.viewPool, TransactionPool.modifySlot,
      changes.beside local_u32 (.inl (Nat.le_trans (by decide) behind))]
    exact congrArg (TransactionPool.mk _) (Changes.table changes local_slot _)

section

variable (fits : poolBytes cfg < 2 ^ 31) {pool : TransactionPool} (sized : pool.size = cfg.transactionPoolSize)

include fits sized

theorem insertion_realized {new : PendingTransaction} (flag : (Int32.ofInt new.filled).toInt = new.filled) :
    List.Forall₂ (PoolRealizes cfg) (insertionWrites pool new) (insertionStores pool new) := by
  rw [insertionWrites, insertionStores]
  cases added : insertTransaction pool new with
  | added i after =>
      obtain ⟨_, found, _⟩ := insertTransaction_added added
      have inPool : i < cfg.transactionPoolSize := sized ▸ (List.getElem?_eq_some_iff.mp found).1
      exact .cons (realizes_modifySlot fits inPool (slot_changes_new _ flag))
        (.cons (realizes_setCount fits _) .nil)
  | noSlot => exact .nil
  | full => exact .nil

theorem removal_realized (txs : List Transaction) :
    List.Forall₂ (PoolRealizes cfg) (removalWrites pool txs) (removalStores pool txs) := by
  induction txs generalizing pool with
  | nil => exact .nil
  | cons tx rest ih =>
      apply List.rel_append _ (ih ((removeTransaction_size pool tx).trans sized))
      cases found : findTransaction pool tx with
      | none => exact .nil
      | some j =>
          obtain ⟨_, slot, _⟩ := findTransaction_some found
          have inPool : j < cfg.transactionPoolSize := sized ▸ (List.getElem?_eq_some_iff.mp slot).1
          exact .cons (realizes_modifySlot fits inPool (slot_changes_clear _))
            (.cons (realizes_setCount fits _) .nil)

theorem aging_realized : List.Forall₂ (PoolRealizes cfg) (agingWrites pool.size) (agingStores pool.size) := by
  have inPool : ∀ i ∈ List.range pool.size, i < cfg.transactionPoolSize :=
    fun i member => sized ▸ List.mem_range.mp member
  rw [agingWrites, agingStores]
  generalize List.range pool.size = positions at inPool
  induction positions with
  | nil => exact .nil
  | cons i positions ih =>
      obtain ⟨own, others⟩ := List.forall_mem_cons.mp inPool
      exact .cons (realizes_modifySlot fits own (slot_changes_raise _))
        (.cons (realizes_modifySlot fits own (slot_changes_age _)) (ih others))

theorem poolPhase_realized {n : Nat} (block : TransactionBlock n) :
    List.Forall₂ (PoolRealizes cfg) (poolPhaseWrites pool block) (poolPhaseStores pool block) := by
  rw [poolPhaseWrites, poolPhaseStores]
  split
  · exact List.rel_append (removal_realized fits sized _) (aging_realized fits sized)
  · exact .nil

end

end

theorem Ledger.ext {n : Nat} {left right : Ledger n} (lastBlockIndex : left.lastBlockIndex = right.lastBlockIndex)
    (lastBlockHash : left.lastBlockHash = right.lastBlockHash) (numBlocks : left.numBlocks = right.numBlocks)
    (count : left.count = right.count) (blocks : left.blocks = right.blocks) : left = right := by
  cases left
  cases right
  cases lastBlockIndex
  cases lastBlockHash
  cases numBlocks
  cases count
  cases blocks
  rfl

theorem runStores_modifyBlock {n : Nat} (ledger : Ledger n) (i : Nat)
    (stores : List (TransactionBlock n → TransactionBlock n)) :
    runStores (stores.map (.modifyBlock i)) ledger = ledger.modifyBlock i (runStores stores) :=
  runStores_map (fun ledger => by simp [Ledger.modifyBlock])
    (fun first second ledger => by simp [Ledger.modifyBlock]) stores ledger

theorem nemesis_padded (sha256 : Sha256) (n : Nat) : (proofOfWork sha256 (TransactionBlock.zero n)).1.Padded := by
  obtain ⟨nonce, left⟩ := proofOfWork_block sha256 (TransactionBlock.zero n)
  rw [left]
  refine ⟨zeroArray_zeroPadded (by decide), zeroArray_zeroPadded (by decide), ?_⟩
  intro tx member
  have cleared : tx ∈ List.replicate n Transaction.zero := member
  rw [List.eq_of_mem_replicate cleared]
  exact zeroArray_zeroPadded (by decide)

theorem u32_succ {word : UInt32} {value : Nat} (same : word.toNat = value) (small : value < 2 ^ 31) :
    (word + 1).toNat = value + 1 := by
  rw [UInt32.toNat_add, same]
  exact Nat.mod_eq_of_lt (Nat.lt_of_le_of_lt small (by decide))

section

variable {cfg : Config} {memory : Memory} {assignment : Assignment}

theorem LedgerHeader.numBlocks_toNat (header : LedgerHeader cfg memory) :
    (memory.u32 72).toNat = cfg.blockchainBlocks := by
  rw [header.numBlocks, UInt32.toNat_ofNat_of_lt' (Nat.lt_trans cfg.blocksInt (by decide))]

/-- Segments whose size is an `int` are too short for an offset to wrap. -/
theorem LedgerHeader.blocks (header : LedgerHeader cfg memory)
    (fits : ledgerBytes cfg cfg.blockchainBlocks < 2 ^ 31) (i : Nat) :
    (viewLedger cfg.transactionsPerBlock memory).blocks i =
      if i < cfg.blockchainBlocks then
        viewBlockAt cfg.transactionsPerBlock memory (blockStart cfg.transactionsPerBlock i)
      else TransactionBlock.zero cfg.transactionsPerBlock := by
  have offset : (memory.u64 80).toNat = sizeofLedgerSHM := by
    rw [header.blocksOffset]
    rfl
  simp only [viewLedger, header.numBlocks_toNat, offset]
  split
  · rename_i block found
    have inLedger := (List.getElem?_eq_some_iff.mp found).1
    rw [interfaceBlocks_length] at inLedger
    have upTo : i * blockStride cfg.transactionsPerBlock ≤ cfg.blockchainBlocks * blockStride cfg.transactionsPerBlock :=
      Nat.mul_le_mul_right _ (Nat.le_of_lt inLedger)
    rw [ledgerBytes_eq] at fits
    rw [interfaceBlocks_getElem? inLedger (by omega)] at found
    cases found
    rw [if_pos inLedger]
    rfl
  · rename_i past
    rw [List.getElem?_eq_none_iff, interfaceBlocks_length] at past
    rw [if_neg (Nat.not_lt_of_le past)]

theorem viewLedger_segment (fits : ledgerBytes cfg cfg.blockchainBlocks < 2 ^ 31) :
    viewLedger cfg.transactionsPerBlock (ledgerSegment cfg) =
      .initial cfg.transactionsPerBlock cfg.blockchainBlocks := by
  have header := ledgerSegment_header cfg
  have width : hashSize = 65 := rfl
  apply Ledger.ext
  · simp (disch := (simp only [Write.word_start, Write.word_length]; omega)) only [viewLedger, ledgerSegment,
      List.foldl_cons, List.foldl_nil, Memory.u32_beside, Memory.u32_zero]
    rfl
  · simp (disch := (simp only [Write.word_start, Write.word_length]; omega)) only [viewLedger, ledgerSegment,
      List.foldl_cons, List.foldl_nil, Memory.chars_beside, Memory.chars_zero]
    rfl
  · exact header.numBlocks_toNat
  · simp (disch := (simp only [Write.word_start, Write.word_length]; omega)) only [viewLedger, ledgerSegment,
      List.foldl_cons, List.foldl_nil, Memory.u32_beside, Memory.u32_zero]
    rfl
  · funext i
    rw [header.blocks fits]
    split
    · have behind : sizeofLedgerSHM ≤ blockStart cfg.transactionsPerBlock i := Nat.le_add_right _ _
      have size : sizeofLedgerSHM = 88 := rfl
      rw [ledgerSegment, (local_block _).behind, viewBlockAt, viewBlock_zero]
      · rfl
      · simp only [List.forall_mem_cons, Write.word_start, Write.word_length]
        refine ⟨?_, ?_, by simp⟩ <;> omega
    · rfl

/-- The header stays where its other fields or what lies behind it is assigned to. -/
theorem LedgerHeader.keep {α : Type} {read : Memory → Nat → α} {length start : Nat} {change : α → α}
    (header : LedgerHeader cfg memory) (changes : Changes read length start assignment change)
    (elsewhere : start + length ≤ 72 ∨ start = 76 ∧ length = 4 ∨ sizeofLedgerSHM ≤ start) :
    LedgerHeader cfg (memory.assign assignment) := by
  have size : sizeofLedgerSHM = 88 := rfl
  constructor
  · rw [changes.beside local_u32 (by omega), header.numBlocks]
  · rw [changes.beside local_u64 (by omega), header.blocksOffset]

abbrev LedgerRealizes (cfg : Config) :
    Assignment → (Ledger cfg.transactionsPerBlock → Ledger cfg.transactionsPerBlock) → Prop :=
  Realizes (LedgerHeader cfg) (shmLedgerSize cfg) (viewLedger cfg.transactionsPerBlock)

section

variable (fits : ledgerBytes cfg cfg.blockchainBlocks < 2 ^ 31)

include fits

theorem ledgerHeader_inside : (sizeofLedgerSHM : Nat) ≤ shmLedgerSize cfg := by
  have header : sizeofLedgerSHM ≤ ledgerBytes cfg cfg.blockchainBlocks := by
    rw [ledgerBytes_eq]
    exact Nat.le_add_right _ _
  exact Int.le_trans (Int.ofNat_le.mpr header) ((le_intOfSizeT_iff _).mpr fits)

/-- Nor do the blocks change with a field before them. -/
theorem LedgerHeader.keep_blocks {α : Type} {read : Memory → Nat → α} {length start : Nat} {change : α → α}
    (header : LedgerHeader cfg memory) (changes : Changes read length start assignment change)
    (elsewhere : start + length ≤ 72 ∨ start = 76 ∧ length = 4) :
    (viewLedger cfg.transactionsPerBlock (memory.assign assignment)).blocks =
      (viewLedger cfg.transactionsPerBlock memory).blocks := by
  have size : sizeofLedgerSHM = 88 := rfl
  have kept := header.keep changes (by omega)
  funext i
  rw [kept.blocks fits, header.blocks fits]
  split
  · have behind : sizeofLedgerSHM ≤ blockStart cfg.transactionsPerBlock i := Nat.le_add_right _ _
    exact changes.beside (local_block _) (by omega)
  · rfl

theorem realizes_modifyBlock {i : Nat} (inLedger : i < cfg.blockchainBlocks)
    {change : TransactionBlock cfg.transactionsPerBlock → TransactionBlock cfg.transactionsPerBlock}
    (changes : Changes (viewBlockAt cfg.transactionsPerBlock) (blockStride cfg.transactionsPerBlock)
      (blockStart cfg.transactionsPerBlock i) assignment change) :
    LedgerRealizes cfg assignment (.modifyBlock i change) := by
  have behind : sizeofLedgerSHM ≤ blockStart cfg.transactionsPerBlock i := Nat.le_add_right _ _
  have size : sizeofLedgerSHM = 88 := rfl
  have width : hashSize = 65 := rfl
  constructor
  · have whole := (le_intOfSizeT_iff _).mpr fits
    rw [ledgerBytes_eq] at whole
    apply changes.inside (cell_inside inLedger _)
    rwa [shmLedgerSize, ledgerBytes_eq]
  · intro memory header
    exact header.keep changes (.inr (.inr behind))
  · intro memory header
    have kept := header.keep changes (.inr (.inr behind))
    apply Ledger.ext
    · exact congrArg UInt32.toNat (changes.beside local_u32 (by omega))
    · exact changes.beside (local_chars hashSize) (by omega)
    · exact congrArg UInt32.toNat (changes.beside local_u32 (by omega))
    · exact congrArg UInt32.toNat (changes.beside local_u32 (by omega))
    · funext j
      dsimp only [Ledger.modifyBlock]
      rw [Function.update_apply, kept.blocks fits, header.blocks fits, header.blocks fits, if_pos inLedger]
      by_cases own : j = i
      · subst own
        rw [if_pos rfl, if_pos inLedger]
        exact changes.result memory
      · rw [if_neg own]
        split
        · exact (Changes.cell changes (local_block _) j).trans (if_neg (Ne.symm own))
        · rfl

theorem realizes_setLastBlockHash {hash : CharArray hashSize} (terminated : (cstr hash.toList).length < hashSize) :
    LedgerRealizes cfg (copyString 4 hash.toList) (.setLastBlockHash hash) := by
  have changes : Changes (Memory.chars hashSize) hashSize 4 (copyString 4 hash.toList) _ :=
    string_changes terminated
  have width : hashSize = 65 := rfl
  have size : sizeofLedgerSHM = 88 := rfl
  have whole := ledgerHeader_inside fits
  constructor
  · exact changes.inside (by omega)
  · intro memory header
    exact header.keep changes (.inl (by decide))
  · intro memory header
    apply Ledger.ext
    · exact congrArg UInt32.toNat (changes.beside local_u32 (by omega))
    · exact changes.result memory
    · exact congrArg UInt32.toNat (changes.beside local_u32 (by omega))
    · exact congrArg UInt32.toNat (changes.beside local_u32 (by omega))
    · exact header.keep_blocks fits changes (.inl (by decide))

/-- The counter by what it was as a word; the number behind it may be too large for one. -/
theorem LedgerHeader.seen_setCount (header : LedgerHeader cfg memory) (change : UInt32 → UInt32) :
    viewLedger cfg.transactionsPerBlock (memory.assign (setWord 76 change)) =
      { viewLedger cfg.transactionsPerBlock memory with count := (change (memory.u32 76)).toNat } := by
  have changes := setWord_changes 76 change
  apply Ledger.ext
  · exact congrArg UInt32.toNat (changes.beside local_u32 (by omega))
  · exact changes.beside (local_chars hashSize) (.inl (by decide))
  · exact congrArg UInt32.toNat (changes.beside local_u32 (by omega))
  · exact congrArg UInt32.toNat (changes.result memory)
  · exact header.keep_blocks fits changes (.inr ⟨rfl, rfl⟩)

theorem LedgerHeader.seen_setLastBlockIndex (header : LedgerHeader cfg memory) (change : UInt32 → UInt32) :
    viewLedger cfg.transactionsPerBlock (memory.assign (setWord 0 change)) =
      { viewLedger cfg.transactionsPerBlock memory with lastBlockIndex := (change (memory.u32 0)).toNat } := by
  have changes := setWord_changes 0 change
  apply Ledger.ext
  · exact congrArg UInt32.toNat (changes.result memory)
  · exact changes.beside (local_chars hashSize) (.inr (by decide))
  · exact congrArg UInt32.toNat (changes.beside local_u32 (by omega))
  · exact congrArg UInt32.toNat (changes.beside local_u32 (by omega))
  · exact header.keep_blocks fits changes (.inl (by decide))

theorem counters_inside {start : Nat} (inHeader : start + 4 ≤ sizeofLedgerSHM) (change : UInt32 → UInt32) :
    StaysInside (shmLedgerSize cfg) (setWord start change) :=
  (setWord_changes start change).inside (Int.le_trans (Int.ofNat_le.mpr inHeader) (ledgerHeader_inside fits))

theorem genesis_realized (sha256 : Sha256)
    (success : (proofOfWork sha256 (TransactionBlock.zero cfg.transactionsPerBlock)).2.error = 0) :
    List.Forall₂ (LedgerRealizes cfg) (genesisWrites cfg.transactionsPerBlock sha256) (genesisStores sha256) := by
  have first : 0 < cfg.blockchainBlocks := Nat.lt_of_lt_of_le (by decide) cfg.twoBlocks
  have room : sizeofTransactionBlockSHM ≤ blockStride cfg.transactionsPerBlock := Nat.le_add_right _ _
  have header : sizeofTransactionBlockSHM = 160 := rfl
  have idWidth : txbIdLen = 64 := rfl
  have hashWidth : hashSize = 65 := rfl
  have hash : (cstr (proofOfWork sha256 (TransactionBlock.zero cfg.transactionsPerBlock)).2.hash.toList).length <
      hashSize := by
    rw [(proofOfWork_success success).1, cstr_computeSha256_length]
    decide
  have counter : LedgerRealizes cfg (setWord 76 fun _ => 1) fun ledger => { ledger with count := 1 } :=
    ⟨counters_inside fits (by decide) _,
      fun _ held => held.keep (setWord_changes 76 _) (.inr (.inl ⟨rfl, rfl⟩)),
      fun _ held => held.seen_setCount fits fun _ => 1⟩
  have mark : Changes (viewBlockAt cfg.transactionsPerBlock) (blockStride cfg.transactionsPerBlock)
      (blockStart cfg.transactionsPerBlock 0)
      (fun _ => some ⟨(interfaceTxBlock (blockStart cfg.transactionsPerBlock 0)).txbId.start, [122]⟩)
      fun slot => { slot with txbId := overwrite slot.txbId [122] } := by
    have short : ([122] : List UInt8).length ≤ txbIdLen := by decide
    have one : ([122] : List UInt8).length = 1 := rfl
    constructor
    · intro memory write stores
      cases stores
      refine ⟨Nat.le_refl _, ?_⟩
      simp only [Write.extent, Extent.finish, interfaceTxBlock]
      omega
    · intro memory
      rw [Memory.assign]
      simp (disch := (simp only [one]; omega)) only [viewBlockAt, viewBlock, interfaceTxBlock,
        Memory.chars_store short, Memory.chars_beside, Memory.i64_beside, Memory.u32_beside, transactions_beside]
  have fields := block_changes_header (blockStart cfg.transactionsPerBlock 0)
    (nemesis_padded sha256 cfg.transactionsPerBlock)
  simp only [List.forall₂_cons] at fields
  obtain ⟨txbId, _, timestamp, nonce, _⟩ := fields
  exact .cons counter (.cons (realizes_modifyBlock fits first mark) (.cons (realizes_modifyBlock fits first txbId)
    (.cons (realizes_modifyBlock fits first timestamp) (.cons (realizes_modifyBlock fits first nonce)
      (.cons (realizes_setLastBlockHash fits hash) .nil)))))

/-- The copy of an append, before the counters. -/
theorem copy_realized {nextIndex : Nat} (inLedger : nextIndex < cfg.blockchainBlocks)
    {block : TransactionBlock cfg.transactionsPerBlock} (padded : block.Padded) {hash : CharArray hashSize}
    (terminated : (cstr hash.toList).length < hashSize) :
    List.Forall₂ (LedgerRealizes cfg) (blockWrites nextIndex block ++ [copyString 4 hash.toList])
      ((blockStores block).map (.modifyBlock nextIndex) ++ [.setLastBlockHash hash]) := by
  apply List.rel_append
  · rw [List.forall₂_map_right_iff]
    exact (block_changes nextIndex padded).imp fun _ _ changes => realizes_modifyBlock fits inLedger changes
  · exact .cons (realizes_setLastBlockHash fits terminated) .nil

theorem append_inside {nextIndex : Nat} (inLedger : nextIndex < cfg.blockchainBlocks)
    {block : TransactionBlock cfg.transactionsPerBlock} (padded : block.Padded) {hash : CharArray hashSize}
    (terminated : (cstr hash.toList).length < hashSize) :
    ∀ assignment ∈ appendWrites nextIndex block hash, StaysInside (shmLedgerSize cfg) assignment := by
  have copied := realizes_inside (copy_realized fits inLedger padded terminated)
  intro assignment member
  simp only [appendWrites, List.mem_append, List.mem_cons, List.not_mem_nil, or_false] at member copied
  rcases member with block | hash | rfl | rfl
  · exact copied assignment (.inl block)
  · exact copied assignment (.inr hash)
  · exact counters_inside fits (by decide) _
  · exact counters_inside fits (by decide) _

/-- An append in a ledger with room for it, whose counters are short of their ends. -/
theorem append_seen {nextIndex : Nat} (inLedger : nextIndex < cfg.blockchainBlocks)
    {block : TransactionBlock cfg.transactionsPerBlock} (padded : block.Padded) {hash : CharArray hashSize}
    (terminated : (cstr hash.toList).length < hashSize) (header : LedgerHeader cfg memory)
    (index : (viewLedger cfg.transactionsPerBlock memory).lastBlockIndex < 2 ^ 31)
    (count : (viewLedger cfg.transactionsPerBlock memory).count < 2 ^ 31) :
    LedgerHeader cfg (memory.run (appendWrites nextIndex block hash)) ∧
      viewLedger cfg.transactionsPerBlock (memory.run (appendWrites nextIndex block hash)) =
        runStores (appendStores nextIndex block hash) (viewLedger cfg.transactionsPerBlock memory) := by
  obtain ⟨kept, seen⟩ := realizes_run (copy_realized fits inLedger padded terminated) header
  generalize written : memory.run (blockWrites nextIndex block ++ [copyString 4 hash.toList]) = middle at kept seen
  have stored : viewLedger cfg.transactionsPerBlock middle =
      ((viewLedger cfg.transactionsPerBlock memory).modifyBlock nextIndex
        (runStores (blockStores block))).setLastBlockHash hash := by
    refine seen.trans ((runStores_append _ _ _).trans ?_)
    rw [runStores_modifyBlock]
    rfl
  have counted := kept.keep (setWord_changes 76 (· + 1)) (.inr (.inl ⟨rfl, rfl⟩))
  have countWord : (middle.u32 76 + 1).toNat = (viewLedger cfg.transactionsPerBlock memory).count + 1 :=
    u32_succ (congrArg Ledger.count stored) count
  have sameIndex : (viewLedger cfg.transactionsPerBlock (middle.assign (setWord 76 (· + 1)))).lastBlockIndex =
      (viewLedger cfg.transactionsPerBlock memory).lastBlockIndex := by
    rw [kept.seen_setCount fits, stored]
    rfl
  have indexWord : ((middle.assign (setWord 76 (· + 1))).u32 0 + 1).toNat =
      (viewLedger cfg.transactionsPerBlock memory).lastBlockIndex + 1 :=
    u32_succ sameIndex index
  have split : memory.run (appendWrites nextIndex block hash) =
      (middle.assign (setWord 76 (· + 1))).assign (setWord 0 (· + 1)) := by
    rw [← written]
    simp only [appendWrites, Memory.run, List.foldl_append, List.foldl_cons, List.foldl_nil]
  rw [split]
  refine ⟨counted.keep (setWord_changes 0 _) (.inl (by decide)), ?_⟩
  rw [counted.seen_setLastBlockIndex fits, kept.seen_setCount fits, indexWord, countWord, stored, appendStores,
    runStores_append, runStores_modifyBlock]
  rfl

/-- What an interface stores is not read by anyone: whoever makes another one
stores it again before. -/
theorem interface_realized (header : LedgerHeader cfg memory) :
    ∀ assignment ∈ interfaceWrites cfg.transactionsPerBlock memory,
      LedgerRealizes cfg assignment fun ledger => ledger := by
  have offset : (memory.u64 80).toNat = sizeofLedgerSHM := by
    rw [header.blocksOffset]
    rfl
  rw [interfaceWrites, header.numBlocks_toNat, offset, ← interfaceLedger, List.forall_mem_map]
  intro block member
  obtain ⟨i, bound, rfl⟩ := List.mem_iff_getElem.mp member
  have inLedger : i < cfg.blockchainBlocks := by
    rwa [interfaceLedger, interfaceBlocks_length] at bound
  have upTo := Nat.mul_le_mul_right (blockStride cfg.transactionsPerBlock) (Nat.le_of_lt inLedger)
  have small := fits
  rw [ledgerBytes_eq] at small
  have here : (interfaceLedger cfg)[i]? = some (interfaceTxBlock (blockStart cfg.transactionsPerBlock i)) :=
    interfaceBlocks_getElem? inLedger (by omega)
  rw [List.getElem?_eq_getElem bound, Option.some_inj] at here
  rw [here]
  have room : sizeofTransactionBlockSHM ≤ blockStride cfg.transactionsPerBlock := Nat.le_add_right _ _
  have size : sizeofTransactionBlockSHM = 160 := rfl
  have idWidth : txbIdLen = 64 := rfl
  have hashWidth : hashSize = 65 := rfl
  have same : Changes (viewBlockAt cfg.transactionsPerBlock) (blockStride cfg.transactionsPerBlock)
      (blockStart cfg.transactionsPerBlock i)
      (copyWord 8 (blockStart cfg.transactionsPerBlock i + 152) sizeofTransactionBlockSHM) fun block => block := by
    apply copyWord_changes (Nat.le_add_right _ _) (by omega)
    intro memory
    simp (disch := (simp only [Write.word_start, Write.word_length]; omega)) only [viewBlockAt, viewBlock,
      interfaceTxBlock, Memory.chars_beside, Memory.i64_beside, Memory.u32_beside, transactions_beside]
  have unit : (Ledger.modifyBlock i fun block : TransactionBlock cfg.transactionsPerBlock => block) =
      fun ledger => ledger := by
    funext ledger
    rw [Ledger.modifyBlock, Function.update_eq_self]
  exact unit ▸ realizes_modifyBlock fits inLedger same

end

end

end DeiChain
