import DeiChain.Data.Extent
import DeiChain.Working

namespace DeiChain

open Data

/-! # Where the interfaces place what is shared

Extents are relative to the base of the segment. `main` stores the size of the
header as the offset of the first slot in both segments.
-/

/-- `pool.transactions[i]` of `interfaceTxPool`. -/
def poolSlot (i : Nat) : Extent := cell sizeofTransactionPoolSHM sizeofPendingTransaction i

/-- The fields of a `TransactionBlockSHM`, its `transactions_offset` with them,
and where the transactions of the block begin. -/
structure TransactionBlockInterface where
  txbId : Extent
  previousBlockHash : Extent
  timestamp : Extent
  nonce : Extent
  transactionsOffset : Extent
  transactions : Nat

def interfaceTxBlock (blockOffset : Nat) : TransactionBlockInterface where
  txbId := ⟨blockOffset, txbIdLen⟩
  previousBlockHash := ⟨blockOffset + txbIdLen, hashSize⟩
  timestamp := ⟨blockOffset + 136, 8⟩
  nonce := ⟨blockOffset + 144, 4⟩
  transactionsOffset := ⟨blockOffset + 152, 8⟩
  transactions := blockOffset + sizeofTransactionBlockSHM

/-- What is read and written of a block in a ledger of blocks of `txs`
transactions. -/
def TransactionBlockInterface.parts (txs : Nat) (block : TransactionBlockInterface) : List Extent :=
  [block.txbId, block.previousBlockHash, block.timestamp, block.nonce, block.transactionsOffset] ++
    (List.range txs).map (cell block.transactions sizeofTransaction)

/-- How far the offset of `interfaceLedger` moves with each block. -/
def blockStride (txs : Nat) : Nat := sizeofTransactionBlockSHM + txs * sizeofTransaction

/-- The loop of `interfaceLedger`; the offset is a `size_t`. -/
def interfaceBlocks (txs : Nat) : (numBlocks blocksOffset : Nat) → List TransactionBlockInterface
  | 0, _ => []
  | numBlocks + 1, blocksOffset =>
      interfaceTxBlock blocksOffset ::
        interfaceBlocks txs numBlocks ((blocksOffset + blockStride txs) % 2 ^ 64)

def interfaceLedger (cfg : Config) : List TransactionBlockInterface :=
  interfaceBlocks cfg.transactionsPerBlock cfg.blockchainBlocks sizeofLedgerSHM

def ledgerHeader : Extent := ⟨0, sizeofLedgerSHM⟩

/-- What the interfaces place lies in the segments, behind the header of the
ledger, and no two blocks share a byte. -/
structure LayoutFits (cfg : Config) : Prop where
  pool : ∀ i < cfg.transactionPoolSize, (poolSlot i).Inside (shmTransactionspoolSize cfg)
  ledger : ∀ block ∈ interfaceLedger cfg, ∀ part ∈ block.parts cfg.transactionsPerBlock,
    part.Inside (shmLedgerSize cfg) ∧ ledgerHeader.Disjoint part
  blocks : (interfaceLedger cfg).Pairwise fun left right =>
    ∀ leftPart ∈ left.parts cfg.transactionsPerBlock, ∀ rightPart ∈ right.parts cfg.transactionsPerBlock,
      leftPart.Disjoint rightPart

theorem interfaceBlocks_length (txs numBlocks blocksOffset : Nat) :
    (interfaceBlocks txs numBlocks blocksOffset).length = numBlocks := by
  induction numBlocks generalizing blocksOffset with
  | zero => rfl
  | succ numBlocks ih => rw [interfaceBlocks, List.length_cons, ih]

/-- As long as the offset does not wrap, block `i` is cell `i` of a table. -/
theorem interfaceBlocks_getElem? {txs numBlocks blocksOffset i : Nat} (inLedger : i < numBlocks)
    (small : blocksOffset + i * blockStride txs < 2 ^ 64) :
    (interfaceBlocks txs numBlocks blocksOffset)[i]? =
      some (interfaceTxBlock (blocksOffset + i * blockStride txs)) := by
  induction numBlocks generalizing blocksOffset i with
  | zero => omega
  | succ numBlocks ih =>
      cases i with
      | zero => simp [interfaceBlocks]
      | succ i =>
          have moved : blocksOffset + (i + 1) * blockStride txs =
              blocksOffset + blockStride txs + i * blockStride txs := by
            rw [Nat.succ_mul]
            omega
          rw [moved] at small ⊢
          have noWrap : (blocksOffset + blockStride txs) % 2 ^ 64 = blocksOffset + blockStride txs :=
            Nat.mod_eq_of_lt (by omega)
          rw [interfaceBlocks, List.getElem?_cons_succ, noWrap]
          exact ih (Nat.lt_of_succ_lt_succ inLedger) small

theorem part_within {txs blockOffset : Nat} {part : Extent}
    (member : part ∈ (interfaceTxBlock blockOffset).parts txs) :
    part.Within ⟨blockOffset, blockStride txs⟩ := by
  simp only [TransactionBlockInterface.parts, List.mem_append, List.mem_cons, List.not_mem_nil, or_false,
    List.mem_map, List.mem_range] at member
  rcases member with (rfl | rfl | rfl | rfl | rfl) | ⟨j, inBlock, rfl⟩
  case inr => exact cell_within_cell (Nat.le_refl _) inBlock
  all_goals
    simp only [interfaceTxBlock, Extent.Within, Extent.finish, blockStride, sizeofTransactionBlockSHM,
      txbIdLen, hashSize]
    omega

/-- The last transaction of a block ends where the next block begins. -/
theorem exists_last_part {txs : Nat} (positive : 1 ≤ txs) (blockOffset : Nat) :
    ∃ part ∈ (interfaceTxBlock blockOffset).parts txs, part.finish = blockOffset + blockStride txs := by
  refine ⟨cell (blockOffset + sizeofTransactionBlockSHM) sizeofTransaction (txs - 1), ?_, ?_⟩
  · refine List.mem_append_right _ (List.mem_map.mpr ⟨txs - 1, ?_, rfl⟩)
    rw [List.mem_range]
    omega
  · rw [cell_finish, Nat.sub_add_cancel positive, blockStride, Nat.add_assoc]

theorem ledgerBytes_eq (cfg : Config) (blocks : Nat) :
    ledgerBytes cfg blocks = sizeofLedgerSHM + blocks * blockStride cfg.transactionsPerBlock := by
  rw [ledgerBytes, blockStride, Nat.mul_add, Nat.mul_assoc, Nat.add_assoc]

theorem layoutFits_of_lt {cfg : Config} (pool : poolBytes cfg < 2 ^ 31)
    (ledger : ledgerBytes cfg cfg.blockchainBlocks < 2 ^ 31) : LayoutFits cfg := by
  have poolSize : (poolBytes cfg : Int) ≤ shmTransactionspoolSize cfg := (le_intOfSizeT_iff _).mpr pool
  have ledgerSize : (ledgerBytes cfg cfg.blockchainBlocks : Int) ≤ shmLedgerSize cfg :=
    (le_intOfSizeT_iff _).mpr ledger
  rw [ledgerBytes_eq] at ledger ledgerSize
  have place : ∀ i < cfg.blockchainBlocks, (interfaceLedger cfg)[i]? =
      some (interfaceTxBlock (sizeofLedgerSHM + i * blockStride cfg.transactionsPerBlock)) := by
    intro i inLedger
    have upTo := Nat.mul_le_mul_right (blockStride cfg.transactionsPerBlock) (Nat.le_of_lt inLedger)
    exact interfaceBlocks_getElem? inLedger (by omega)
  have length : (interfaceLedger cfg).length = cfg.blockchainBlocks := interfaceBlocks_length _ _ _
  refine ⟨fun i inPool => cell_inside inPool poolSize, fun block member part isPart => ?_, ?_⟩
  · obtain ⟨i, bound, rfl⟩ := List.mem_iff_getElem.mp member
    have inLedger : i < cfg.blockchainBlocks := length ▸ bound
    have here := place i inLedger
    rw [List.getElem?_eq_getElem bound, Option.some_inj] at here
    rw [here] at isPart
    have within := part_within isPart
    exact ⟨within.inside (cell_inside inLedger ledgerSize),
      Extent.Within.disjoint ⟨Nat.le_refl _, Nat.le_refl _⟩ within before_cell_disjoint⟩
  · rw [List.pairwise_iff_getElem]
    intro first second firstBound secondBound before leftPart isLeft rightPart isRight
    have left := place first (length ▸ firstBound)
    have right := place second (length ▸ secondBound)
    rw [List.getElem?_eq_getElem firstBound, Option.some_inj] at left
    rw [List.getElem?_eq_getElem secondBound, Option.some_inj] at right
    rw [left] at isLeft
    rw [right] at isRight
    exact (part_within isLeft).disjoint (part_within isRight) (cell_disjoint before)

/-- A pool of 2^31 bytes or more is cut inside one of its slots. -/
theorem not_layoutFits_of_pool {cfg : Config} (wide : 2 ^ 31 ≤ poolBytes cfg) : ¬ LayoutFits cfg := by
  intro fits
  have bound := intOfSizeT_lt (poolBytes cfg)
  have last := fits.pool (cfg.transactionPoolSize - 1) (Nat.sub_one_lt_of_le cfg.poolPositive (Nat.le_refl _))
  rw [poolSlot, Extent.Inside, cell_finish, Nat.sub_add_cancel cfg.poolPositive] at last
  change ((poolBytes cfg : Nat) : Int) ≤ intOfSizeT (poolBytes cfg) at last
  omega

theorem exists_block_cut {cfg : Config} {size : Int} (small : size < 2 ^ 31)
    (cut : size < ledgerBytes cfg cfg.blockchainBlocks) :
    ∃ i < cfg.blockchainBlocks, sizeofLedgerSHM + i * blockStride cfg.transactionsPerBlock < 2 ^ 64 ∧
      size < (cell sizeofLedgerSHM (blockStride cfg.transactionsPerBlock) i).finish := by
  have header : sizeofLedgerSHM = 88 := rfl
  rw [ledgerBytes_eq] at cut
  by_cases begins : (sizeofLedgerSHM : Int) ≤ size
  · obtain ⟨natural, rfl⟩ := Int.eq_ofNat_of_zero_le (show 0 ≤ size by omega)
    obtain ⟨i, inLedger, start, finish⟩ := exists_cell_cut (Int.ofNat_le.mp begins) (Int.ofNat_lt.mp cut)
    exact ⟨i, inLedger, by omega, Int.ofNat_lt.mpr finish⟩
  · refine ⟨0, Nat.lt_of_lt_of_le Nat.zero_lt_two cfg.twoBlocks, by omega, ?_⟩
    rw [cell_finish]
    omega

/-- The segment ends inside a block that comes before the offset wraps. -/
theorem not_layoutFits_of_ledger {cfg : Config}
    (wide : 2 ^ 31 ≤ ledgerBytes cfg cfg.blockchainBlocks) : ¬ LayoutFits cfg := by
  intro fits
  have bound : shmLedgerSize cfg < 2 ^ 31 := intOfSizeT_lt _
  obtain ⟨i, inLedger, noWrap, cut⟩ := exists_block_cut bound (Int.lt_of_lt_of_le bound (Int.ofNat_le.mpr wide))
  have here := @interfaceBlocks_getElem? cfg.transactionsPerBlock _ _ _ inLedger noWrap
  obtain ⟨part, isPart, finish⟩ := exists_last_part cfg.transactionsPositive
    (sizeofLedgerSHM + i * blockStride cfg.transactionsPerBlock)
  have inside := (fits.ledger _ (List.mem_of_getElem? here) part isPart).1
  rw [cell_finish, Nat.succ_mul, ← Nat.add_assoc, ← finish] at cut
  rw [Extent.Inside] at inside
  omega

theorem layoutFits_iff (cfg : Config) :
    LayoutFits cfg ↔ poolBytes cfg < 2 ^ 31 ∧ ledgerBytes cfg cfg.blockchainBlocks < 2 ^ 31 := by
  constructor
  · intro fits
    exact ⟨Nat.lt_of_not_le fun wide => not_layoutFits_of_pool wide fits,
      Nat.lt_of_not_le fun wide => not_layoutFits_of_ledger wide fits⟩
  · intro sizes
    exact layoutFits_of_lt sizes.1 sizes.2

/-- The interfaces stay inside the segments exactly if neither size is too
large for its `int`. Where both sizes are positive, so that the segments can be
made, nothing else helps: a size that wraps to a positive value does not. -/
theorem shared_memory_layout_fits (cfg : Config) :
    (LayoutFits cfg ↔ poolBytes cfg < 2 ^ 31 ∧ ledgerBytes cfg cfg.blockchainBlocks < 2 ^ 31) ∧
    ((0 < shmTransactionspoolSize cfg ∧ 0 < shmLedgerSize cfg → LayoutFits cfg) ↔
      (0 < shmTransactionspoolSize cfg ∧ 0 < shmLedgerSize cfg →
        poolBytes cfg < 2 ^ 31 ∧ ledgerBytes cfg cfg.blockchainBlocks < 2 ^ 31)) :=
  ⟨layoutFits_iff cfg, imp_congr_right fun _ => layoutFits_iff cfg⟩

/-- A pool of 48806447 slots gets a segment of 64 bytes. -/
theorem wideConfig_layout : 0 < shmTransactionspoolSize wideConfig ∧ 0 < shmLedgerSize wideConfig ∧
    ¬ LayoutFits wideConfig :=
  ⟨by decide, by decide, not_layoutFits_of_pool (by decide)⟩

end DeiChain
