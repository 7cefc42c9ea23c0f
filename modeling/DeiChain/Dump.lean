import DeiChain.Authorship
import DeiChain.Data.Fixed
import Mathlib.Algebra.BigOperators.Intervals
import Mathlib.Algebra.Order.BigOperators.Group.Finset
import Mathlib.Algebra.Order.BigOperators.Group.List

namespace DeiChain

open Data Systems

variable {n : Nat}

/-! # The text of the ledger

`dump_ledger` estimates the length of the text, allocates that much, and appends
to it with `strcat`.
-/

def ascii (text : String) : List UInt8 := text.toList.map fun char => UInt8.ofNat char.toNat

/-- What `snprintf(temp, sizeof(temp), ...)` leaves of a text. -/
def temp (text : List UInt8) : List UInt8 := text.take (256 - 1)

def blockHeader (i : UInt32) (block : TransactionBlock n) : List UInt8 :=
  ascii "||---- Block  " ++ decimal i.toNat ++ ascii " --\nBlock ID=" ++ cstr block.txbId.toList ++
    ascii "\nPrevious Hash=" ++ cstr block.previousBlockHash.toList ++
    ascii "\nBlock Timestamp=" ++ decimalInt block.timestamp.toInt ++
    ascii "\nNonce=" ++ decimal block.nonce.toNat ++ ascii "\nTransactions:\n"

/-- The reward is printed as an unsigned number. -/
def transactionLine (j : UInt32) (tx : Transaction) : List UInt8 :=
  ascii "    [" ++ decimal j.toNat ++ ascii "]: ID=" ++ cstr tx.txId.toList ++
    ascii " | Reward=" ++ decimal tx.reward.toUInt32.toNat ++ ascii " | Value=" ++ tx.value.fixed2 ++
    ascii " | Timestamp=" ++ decimalInt tx.timestamp.toInt ++ ascii "\n"

def dumpBlock (i : UInt32) (block : TransactionBlock n) : List UInt8 :=
  if cstr block.txbId.toList = [] then []
  else
    temp (blockHeader i block) ++
      (block.transactions.toList.mapIdx fun j tx => temp (transactionLine (.ofNat j) tx)).flatten ++
      ascii "||-------------------------------------\n"

def dumpLedger (ledger : Ledger n) : List UInt8 :=
  ascii "\n=================== Start Ledger ===================\n" ++
    (List.range ledger.count).flatMap (fun i => dumpBlock (.ofNat i) (ledger.blocks i)) ++
    ascii "=================== End Ledger ===================\n"

/-- `estimated_size`, which is far below the range of a `size_t` for a ledger
that a segment can hold. -/
def estimatedSize (n count : Nat) : Nat := 256 + count * (sizeofTransaction + 100) * n

/-- The text and its terminator stay inside the buffer. -/
def DumpFits (ledger : Ledger n) : Prop :=
  (dumpLedger ledger).length + 1 ≤ estimatedSize n ledger.count

instance (ledger : Ledger n) : Decidable (DumpFits ledger) := inferInstanceAs (Decidable (_ ≤ _))

/-- The characters of the line of a transaction, by those of its fields. -/
def transactionWidth (j : UInt32) (tx : Transaction) : Nat :=
  44 + (decimal j.toNat).length + (cstr tx.txId.toList).length + (decimal tx.reward.toUInt32.toNat).length +
    tx.value.fixed2.length + (decimalInt tx.timestamp.toInt).length

/-- The characters of a block that names a previous hash of 64 digits. -/
def blockWidth (i : UInt32) (block : TransactionBlock n) : Nat :=
  185 + (decimal i.toNat).length + (cstr block.txbId.toList).length +
    (decimalInt block.timestamp.toInt).length + (decimal block.nonce.toNat).length +
    (block.transactions.toList.mapIdx fun j tx => transactionWidth (.ofNat j) tx).sum

theorem transactionLine_length (j : UInt32) (tx : Transaction) :
    (transactionLine j tx).length = transactionWidth j tx := by
  simp only [transactionLine, transactionWidth, ascii, List.length_append, List.length_map]
  simp
  omega

theorem decimalInt_length_le (value : Int64) : (decimalInt value.toInt).length ≤ 20 := by
  have low : -2 ^ 63 ≤ value.toInt := value.le_toInt
  have high : value.toInt < 2 ^ 63 := value.toInt_lt
  have digits : (decimal value.toInt.natAbs).length ≤ 19 := decimal_length_le (by decide) (by omega)
  unfold decimalInt
  split
  · rw [List.length_cons]
    omega
  · omega

theorem decimal_uint32_length_le (value : UInt32) : (decimal value.toNat).length ≤ 10 :=
  decimal_length_le (by decide) (Nat.lt_trans value.toNat_lt (by decide))

theorem cstr_length_le {width : Nat} (array : CharArray width) : (cstr array.toList).length ≤ width :=
  (List.takeWhile_sublist _).length_le.trans (Nat.le_of_eq array.toList_length)

/-- No line is long enough to be cut. -/
theorem temp_transactionLine (j : UInt32) (tx : Transaction) :
    (temp (transactionLine j tx)).length = transactionWidth j tx := by
  have index := decimal_uint32_length_le j
  have id := cstr_length_le tx.txId
  have reward := decimal_uint32_length_le tx.reward.toUInt32
  have value := tx.value.fixed2_length_le
  have time := decimalInt_length_le tx.timestamp
  have short : transactionWidth j tx ≤ 255 := by
    simp only [transactionWidth, txIdLen] at id ⊢
    omega
  rw [temp, List.length_take, transactionLine_length]
  omega

theorem temp_blockHeader (i : UInt32) {block : TransactionBlock n}
    (hash : (cstr block.previousBlockHash.toList).length = 64) :
    (temp (blockHeader i block)).length = 145 + (decimal i.toNat).length +
      (cstr block.txbId.toList).length + (decimalInt block.timestamp.toInt).length +
      (decimal block.nonce.toNat).length := by
  have index := decimal_uint32_length_le i
  have id : (cstr block.txbId.toList).length ≤ 64 := cstr_length_le block.txbId
  have nonce := decimal_uint32_length_le block.nonce
  have time := decimalInt_length_le block.timestamp
  have length : (blockHeader i block).length = 81 + (decimal i.toNat).length +
      (cstr block.txbId.toList).length + (cstr block.previousBlockHash.toList).length +
      (decimalInt block.timestamp.toInt).length + (decimal block.nonce.toNat).length := by
    simp only [blockHeader, ascii, List.length_append, List.length_map]
    simp
    omega
  rw [temp, List.length_take, length, hash]
  omega

theorem dumpBlock_length (i : UInt32) {block : TransactionBlock n} (named : cstr block.txbId.toList ≠ [])
    (hash : (cstr block.previousBlockHash.toList).length = 64) :
    (dumpBlock i block).length = blockWidth i block := by
  have lines : (block.transactions.toList.mapIdx fun j tx =>
      temp (transactionLine (.ofNat j) tx)).flatten.length =
        (block.transactions.toList.mapIdx fun j tx => transactionWidth (.ofNat j) tx).sum := by
    rw [List.length_flatten]
    congr 1
    apply List.ext_getElem
    · simp
    · intro j _ _
      rw [List.getElem_map, List.getElem_mapIdx, List.getElem_mapIdx]
      exact temp_transactionLine _ _
  have separator : (ascii "||-------------------------------------\n").length = 40 := rfl
  rw [dumpBlock, if_neg named]
  simp only [List.length_append, temp_blockHeader i hash, lines, separator, blockWidth]
  omega

theorem dumpLedger_length (ledger : Ledger n) : (dumpLedger ledger).length =
    105 + ∑ i ∈ Finset.range ledger.count, (dumpBlock (.ofNat i) (ledger.blocks i)).length := by
  have header : (ascii "\n=================== Start Ledger ===================\n").length = 54 := rfl
  have footer : (ascii "=================== End Ledger ===================\n").length = 51 := rfl
  have blocks : ((List.range ledger.count).flatMap fun i => dumpBlock (.ofNat i) (ledger.blocks i)).length =
      ∑ i ∈ Finset.range ledger.count, (dumpBlock (.ofNat i) (ledger.blocks i)).length := by
    induction ledger.count with
    | zero => rfl
    | succ count ih =>
        rw [List.range_succ, List.flatMap_append, List.length_append, ih, Finset.sum_range_succ]
        simp
  rw [dumpLedger, List.length_append, List.length_append, header, footer, blocks]
  omega

section

variable {setup : Setup} {final : State setup.txs} {trace : List (State setup.txs × Event)}

/-- Every block but the first names a miner and a hash. -/
theorem SystemRun.dumpBlock_length (run : SystemRun setup trace final) {i : Nat} (lower : 1 ≤ i)
    (upper : i < final.ledger.count) : (dumpBlock (.ofNat i) (final.ledger.blocks i)).length =
      blockWidth (.ofNat i) (final.ledger.blocks i) := by
  obtain ⟨thread, authored⟩ := run.authors.stored i lower upper
  obtain ⟨number, text⟩ := authored.text
  refine DeiChain.dumpBlock_length _ (by simp [text, txbPrefix]) ?_
  have linked := run.chain.chained.linked i upper
  obtain ⟨below, rfl⟩ : ∃ below, i = below + 1 := ⟨i - 1, by omega⟩
  rw [linked, HashChain.tip_succ]
  exact cstr_computeSha256_length _ _

/-- The genesis block has no id and is skipped. -/
theorem SystemRun.dumpBlock_genesis (run : SystemRun setup trace final) (positive : 0 < final.ledger.count) :
    dumpBlock (.ofNat 0) (final.ledger.blocks 0) = [] := by
  obtain ⟨nonce, left⟩ := proofOfWork_block setup.sha256 (TransactionBlock.zero setup.txs)
  rw [dumpBlock, (run.genesis.2 positive).2, left]
  exact if_pos (cstr_zeros txbIdLen)

theorem SystemRun.dump_length (run : SystemRun setup trace final) :
    (dumpLedger final.ledger).length = 105 +
      ∑ i ∈ Finset.Ico 1 final.ledger.count, blockWidth (.ofNat i) (final.ledger.blocks i) := by
  rw [dumpLedger_length]
  congr 1
  rcases Nat.eq_zero_or_pos final.ledger.count with empty | positive
  · rw [empty]
    rfl
  · rw [Finset.range_eq_Ico, Finset.sum_eq_sum_Ico_succ_bot positive, run.dumpBlock_genesis positive,
      List.length_nil, Nat.zero_add]
    refine Finset.sum_congr rfl fun i inRange => ?_
    obtain ⟨lower, upper⟩ := Finset.mem_Ico.mp inRange
    exact run.dumpBlock_length lower upper

theorem decimal_length_pos (value : Nat) : 1 ≤ (decimal value).length :=
  List.length_pos_of_ne_nil (decimal_ne_nil value)

theorem decimalInt_length_pos (value : Int) : 1 ≤ (decimalInt value).length := by
  have digits := decimal_length_pos value.natAbs
  unfold decimalInt
  split
  · rw [List.length_cons]
    omega
  · exact digits

theorem transactionWidth_ge (j : UInt32) (tx : Transaction) : 50 ≤ transactionWidth j tx := by
  have index := decimal_length_pos j.toNat
  have reward := decimal_length_pos tx.reward.toUInt32.toNat
  have value := tx.value.fixed2_length_ge
  have time := decimalInt_length_pos tx.timestamp.toInt
  unfold transactionWidth
  omega

theorem SystemRun.blockWidth_ge (run : SystemRun setup trace final) {i : Nat} (lower : 1 ≤ i)
    (upper : i < final.ledger.count) :
    196 + 50 * setup.txs ≤ blockWidth (.ofNat i) (final.ledger.blocks i) := by
  obtain ⟨thread, authored⟩ := run.authors.stored i lower upper
  obtain ⟨number, text⟩ := authored.text
  have miner := decimal_length_pos thread
  have id : 8 ≤ (cstr (final.ledger.blocks i).txbId.toList).length := by
    rw [text]
    simp only [txbPrefix, List.length_append, List.length_cons, List.length_nil]
    omega
  have index := decimal_length_pos (UInt32.ofNat i).toNat
  have nonce := decimal_length_pos (final.ledger.blocks i).nonce.toNat
  have time := decimalInt_length_pos (final.ledger.blocks i).timestamp.toInt
  have lines := List.card_nsmul_le_sum
    ((final.ledger.blocks i).transactions.toList.mapIdx fun j tx => transactionWidth (.ofNat j) tx) 50 (by
      intro width member
      obtain ⟨j, bound, rfl⟩ := List.mem_mapIdx.mp member
      exact transactionWidth_ge _ _)
  rw [List.length_mapIdx, List.Vector.toList_length, Nat.nsmul_eq_mul] at lines
  unfold blockWidth
  omega

/-- With one transaction a block every ledger of seven blocks is too long. -/
theorem SystemRun.dump_overflows_of_single (run : SystemRun setup trace final) (single : setup.txs = 1)
    (many : 7 ≤ final.ledger.count) : ¬ DumpFits final.ledger := by
  have wide := Finset.card_nsmul_le_sum (Finset.Ico 1 final.ledger.count)
    (fun i => blockWidth (.ofNat i) (final.ledger.blocks i)) 246 (by
      intro i inRange
      obtain ⟨lower, upper⟩ := Finset.mem_Ico.mp inRange
      have := run.blockWidth_ge lower upper
      omega)
  rw [Nat.card_Ico, Nat.nsmul_eq_mul] at wide
  have estimate (count : Nat) : estimatedSize setup.txs count = 256 + count * 180 := by
    rw [estimatedSize, single, Nat.mul_one]
    rfl
  rw [DumpFits, run.dump_length, estimate]
  omega

/-- Numbers of ten digits at most in the ids, and values below a hundred. -/
structure TransactionBlock.Narrow (block : TransactionBlock n) : Prop where
  txbId : (cstr block.txbId.toList).length ≤ 27
  txId : ∀ tx ∈ block.transactions.toList, (cstr tx.txId.toList).length ≤ 24
  value : ∀ tx ∈ block.transactions.toList, tx.value.fixed2.length ≤ 5

theorem TransactionBlock.Narrow.blockWidth_le {block : TransactionBlock n} (narrow : block.Narrow)
    (i : UInt32) : blockWidth i block ≤ 252 + 113 * n := by
  have index := decimal_uint32_length_le i
  have nonce := decimal_uint32_length_le block.nonce
  have time := decimalInt_length_le block.timestamp
  have id := narrow.txbId
  have lines := List.sum_le_card_nsmul
    (block.transactions.toList.mapIdx fun j tx => transactionWidth (.ofNat j) tx) 113 (by
      intro width member
      obtain ⟨j, bound, rfl⟩ := List.mem_mapIdx.mp member
      have inBlock := List.getElem_mem bound
      have line := decimal_uint32_length_le (.ofNat j)
      have reward := decimal_uint32_length_le (block.transactions.toList[j]).reward.toUInt32
      have value := narrow.value _ inBlock
      have txId := narrow.txId _ inBlock
      have seen := decimalInt_length_le (block.transactions.toList[j]).timestamp
      unfold transactionWidth
      omega)
  rw [List.length_mapIdx, List.Vector.toList_length, Nat.nsmul_eq_mul] at lines
  unfold blockWidth
  omega

/-- With four transactions a block, or more, narrow blocks always fit. -/
theorem SystemRun.dump_fits_of_four (run : SystemRun setup trace final) (four : 4 ≤ setup.txs)
    (narrow : ∀ i, 1 ≤ i → i < final.ledger.count → (final.ledger.blocks i).Narrow) :
    DumpFits final.ledger := by
  have wide := Finset.sum_le_card_nsmul (Finset.Ico 1 final.ledger.count)
    (fun i => blockWidth (.ofNat i) (final.ledger.blocks i)) (252 + 113 * setup.txs) (by
      intro i inRange
      obtain ⟨lower, upper⟩ := Finset.mem_Ico.mp inRange
      exact (narrow i lower upper).blockWidth_le _)
  rw [Nat.card_Ico, Nat.nsmul_eq_mul] at wide
  have share : 252 + 113 * setup.txs ≤ (sizeofTransaction + 100) * setup.txs := by
    rw [sizeofTransaction, txIdLen]
    omega
  have blocks : (final.ledger.count - 1) * (252 + 113 * setup.txs) ≤
      final.ledger.count * ((sizeofTransaction + 100) * setup.txs) :=
    Nat.mul_le_mul (Nat.sub_le _ _) share
  rw [DumpFits, run.dump_length, estimatedSize, Nat.mul_assoc]
  omega

/-- The dump of a reachable ledger fits its buffer exactly if its blocks are
not wider than the share of their transactions in the estimate, and what is
left of the 256 characters besides. So a ledger of seven blocks of one
transaction never fits, and one of narrow blocks of four transactions always. -/
theorem ledger_dump_fits_iff (setup : Setup) {trace : List (State setup.txs × Event)}
    {final : State setup.txs} (run : SystemRun setup trace final) :
    (DumpFits final.ledger ↔
      ∑ i ∈ Finset.Ico 1 final.ledger.count, blockWidth (.ofNat i) (final.ledger.blocks i) ≤
        150 + final.ledger.count * (sizeofTransaction + 100) * setup.txs) ∧
    (setup.txs = 1 → 7 ≤ final.ledger.count → ¬ DumpFits final.ledger) ∧
    (4 ≤ setup.txs → (∀ i, 1 ≤ i → i < final.ledger.count → (final.ledger.blocks i).Narrow) →
      DumpFits final.ledger) := by
  refine ⟨?_, fun single many => run.dump_overflows_of_single single many,
    fun four narrow => run.dump_fits_of_four four narrow⟩
  rw [DumpFits, run.dump_length, estimatedSize]
  omega

/-- The genesis block and one mined block fit. -/
theorem ledger_dump_fits_after_first_block : ∃ trace, SystemRun smallSetup trace firstBlock ∧
    DumpFits firstBlock.ledger := by
  obtain ⟨trace, run, _⟩ := firstBlock_run
  exact ⟨trace, run, (ledger_dump_fits_iff smallSetup run).1.mpr (by decide +kernel)⟩

/-- Four blocks of one transaction each, with times of the present day. -/
def singleEvents : List Event :=
  [.start 1, .genesis 1] ++ (List.range 4).flatMap fun _ =>
    [.insert 1 (zeroArray txIdLen) 5 1700000000, .pollPool 1, .pollLedger 1, .select 1 [0], .readTip 1,
      .mine 1 1700000000, .write 1 0] ++ validateEvents 1

theorem singleEvents_executes :
    (exec (step singleSetup) (State.initial singleSetup) singleEvents).isSome = true := by
  decide +kernel

def singleBlocks : State singleSetup.txs := (exec _ _ _).get singleEvents_executes

theorem dump_overflows : (∃ trace, SystemRun singleSetup trace singleBlocks) ∧
    singleBlocks.ledger.count = 5 ∧ ¬ DumpFits singleBlocks.ledger := by
  obtain ⟨trace, run, _⟩ := exec_run_get singleEvents_executes
  have evaluated : singleBlocks.ledger.count = 5 ∧ ¬ DumpFits singleBlocks.ledger := by decide +kernel
  exact ⟨⟨trace, run⟩, evaluated⟩

end

end DeiChain
