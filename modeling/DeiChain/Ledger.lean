import DeiChain.Pow
import DeiChain.Systems.HashChain
import Mathlib.Data.Vector.Mem
import Mathlib.Data.Vector.Zip
import Mathlib.Logic.Function.Basic

namespace DeiChain

open Data Systems

variable {n : Nat}

/-! # The shared ledger -/

/-- The ledger segment and the blocks its interface points to. The segment has
`numBlocks` block slots; a write past them is undefined in C and is an ordinary
write here, so that whether it happens is something to prove. -/
structure Ledger (n : Nat) where
  lastBlockIndex : Nat
  lastBlockHash : CharArray hashSize
  numBlocks : Nat
  count : Nat
  blocks : Nat → TransactionBlock n

def Ledger.initial (n numBlocks : Nat) : Ledger n :=
  { lastBlockIndex := 0, lastBlockHash := zeroArray hashSize, numBlocks, count := 0
    blocks := fun _ => TransactionBlock.zero n }

def storeTransaction (slot tx : Transaction) : Transaction :=
  { txId := strcpy slot.txId tx.txId.toList
    reward := tx.reward
    value := tx.value
    timestamp := tx.timestamp }

/-- The field by field copy of a streamed block into a block slot. -/
def storeBlock (slot block : TransactionBlock n) : TransactionBlock n :=
  { txbId := strcpy slot.txbId block.txbId.toList
    previousBlockHash := strcpy slot.previousBlockHash block.previousBlockHash.toList
    timestamp := block.timestamp
    nonce := block.nonce
    transactions := List.Vector.zipWith storeTransaction slot.transactions block.transactions }

/-- The genesis branch of a starting validator, taken when the ledger is empty.
`none` is its `exit(1)` after a failed proof of work. -/
def createGenesis (sha256 : Sha256) (ledger : Ledger n) : Option (Ledger n) :=
  let (nemesisBlock, result) := proofOfWork sha256 (TransactionBlock.zero n)
  if result.error ≠ 0 then none
  else
    let slot := ledger.blocks 0
    some { ledger with
      count := 1
      blocks := Function.update ledger.blocks 0
        { slot with
          txbId := strcpy (overwrite slot.txbId [122]) nemesisBlock.txbId.toList
          timestamp := nemesisBlock.timestamp
          nonce := nemesisBlock.nonce }
      lastBlockHash := strcpy ledger.lastBlockHash result.hash.toList }

def appendBlock (ledger : Ledger n) (block : TransactionBlock n) (hash : CharArray hashSize) : Ledger n :=
  let nextIndex := ledger.lastBlockIndex + 1
  { ledger with
    blocks := Function.update ledger.blocks nextIndex (storeBlock (ledger.blocks nextIndex) block)
    lastBlockHash := strcpy ledger.lastBlockHash hash.toList
    count := ledger.count + 1
    lastBlockIndex := ledger.lastBlockIndex + 1 }

/-- The comparison of the previous hash of a block with the newest one. -/
def onTip (ledger : Ledger n) (block : TransactionBlock n) : Bool :=
  samePrefix hashSize block.previousBlockHash.toList ledger.lastBlockHash.toList

structure TransactionBlock.Padded (block : TransactionBlock n) : Prop where
  txbId : ZeroPadded block.txbId
  previousBlockHash : ZeroPadded block.previousBlockHash
  transactions : ∀ tx ∈ block.transactions.toList, ZeroPadded tx.txId

theorem storeTransaction_zero {tx : Transaction} (padded : ZeroPadded tx.txId) :
    storeTransaction Transaction.zero tx = tx := by
  obtain ⟨txId, reward, value, timestamp⟩ := tx
  simp only [storeTransaction, Transaction.zero, padded.strcpy_zeroArray]

theorem storeBlock_zero {block : TransactionBlock n} (padded : block.Padded) :
    storeBlock (TransactionBlock.zero n) block = block := by
  obtain ⟨txbId, previousBlockHash, timestamp, nonce, transactions⟩ := block
  have copied : List.Vector.zipWith storeTransaction
      (List.Vector.replicate n Transaction.zero) transactions = transactions := by
    apply List.Vector.ext
    intro i
    rw [List.Vector.zipWith_get, List.Vector.get_replicate]
    exact storeTransaction_zero (padded.transactions _ (List.Vector.get_mem i transactions))
  simp only [storeBlock, TransactionBlock.zero, copied, padded.txbId.strcpy_zeroArray,
    padded.previousBlockHash.strcpy_zeroArray]

theorem strcpy_full {m : Nat} {old array : CharArray (m + 1)} (padded : ZeroPadded array)
    (full : (cstr array.toList).length = m) : strcpy old array.toList = array := by
  apply List.Vector.eq
  have bytes : array.toList = cstr array.toList ++ [(0 : UInt8)] := by
    conv => lhs; rw [← padded.strncpy_eq, strncpy_toList, List.take_of_length_le (by omega), full]
    simp
  change (cstr array.toList ++ [(0 : UInt8)] ++
    old.toList.drop (cstr array.toList ++ [(0 : UInt8)]).length).take (m + 1) = _
  rw [← bytes, List.drop_of_length_le (by simp), List.append_nil, List.take_of_length_le (by simp)]

theorem strcpy_computeSha256 (sha256 : Sha256) (block : TransactionBlock n) (old : CharArray hashSize) :
    strcpy old (computeSha256 sha256 block).toList = computeSha256 sha256 block :=
  strcpy_full (computeSha256_zeroPadded sha256 block) (cstr_computeSha256_length sha256 block)

/-- The ledger is a verified hash chain whose newest hash is at hand and whose
unused slots are cleared. -/
structure Ledger.Chained (sha256 : Sha256) (ledger : Ledger n) : Prop where
  index : ledger.lastBlockIndex = ledger.count - 1
  newest : ledger.lastBlockHash =
    HashChain.tip (computeSha256 sha256) (zeroArray hashSize) ledger.blocks ledger.count
  linked : HashChain.Linked (computeSha256 sha256) TransactionBlock.previousBlockHash
    (zeroArray hashSize) ledger.blocks ledger.count
  verified : ∀ index < ledger.count, verifyNonce sha256 (ledger.blocks index) = true
  cleared : ∀ index, ledger.count ≤ index → ledger.blocks index = TransactionBlock.zero n

def Ledger.Extends (older newer : Ledger n) : Prop :=
  older.count ≤ newer.count ∧ ∀ index < older.count, newer.blocks index = older.blocks index

theorem Ledger.Extends.refl (ledger : Ledger n) : ledger.Extends ledger :=
  ⟨Nat.le_refl _, fun _ _ => rfl⟩

theorem Ledger.Extends.trans {first second third : Ledger n} (left : first.Extends second)
    (right : second.Extends third) : first.Extends third :=
  ⟨Nat.le_trans left.1 right.1, fun index bound =>
    (right.2 index (Nat.lt_of_lt_of_le bound left.1)).trans (left.2 index bound)⟩

theorem Ledger.initial_chained (sha256 : Sha256) (n numBlocks : Nat) :
    (Ledger.initial n numBlocks).Chained sha256 where
  index := rfl
  newest := rfl
  linked := HashChain.Linked.empty
  verified := by simp [Ledger.initial]
  cleared := fun _ _ => rfl

theorem Ledger.Chained.lastBlockHash_zeroPadded {sha256 : Sha256} {ledger : Ledger n}
    (chained : ledger.Chained sha256) : ZeroPadded ledger.lastBlockHash := by
  rw [chained.newest]
  cases ledger.count with
  | zero => exact zeroArray_zeroPadded (by decide)
  | succ count => exact computeSha256_zeroPadded sha256 _

theorem Ledger.Chained.onTip_iff {sha256 : Sha256} {ledger : Ledger n} (chained : ledger.Chained sha256)
    {block : TransactionBlock n} (padded : ZeroPadded block.previousBlockHash) :
    onTip ledger block = true ↔ block.previousBlockHash = ledger.lastBlockHash := by
  rw [onTip, samePrefix_whole, sameString_iff]
  exact ⟨padded.ext chained.lastBlockHash_zeroPadded, fun same => by rw [same]⟩

theorem createGenesis_count {sha256 : Sha256} {ledger after : Ledger n}
    (created : createGenesis sha256 ledger = some after) : after.count = 1 := by
  unfold createGenesis at created
  dsimp only at created
  split at created
  · cases created
  · cases created
    rfl

theorem createGenesis_positive {sha256 : Sha256} {ledger after : Ledger n}
    (created : createGenesis sha256 ledger = some after) : 0 < after.count := by
  rw [createGenesis_count created]
  exact Nat.one_pos

theorem createGenesis_spec {sha256 : Sha256} {ledger after : Ledger n} (chained : ledger.Chained sha256)
    (empty : ledger.count = 0) (created : createGenesis sha256 ledger = some after) :
    after.Chained sha256 ∧ after.count = 1 ∧ after.numBlocks = ledger.numBlocks ∧
      after.blocks 0 = (proofOfWork sha256 (TransactionBlock.zero n)).1 := by
  obtain ⟨nonce, left⟩ := proofOfWork_block sha256 (TransactionBlock.zero n)
  unfold createGenesis at created
  dsimp only at created
  split at created
  · cases created
  · rename_i success
    obtain ⟨hash, verified⟩ := proofOfWork_success (not_not.mp success)
    have slot := chained.cleared 0 (by omega)
    have newest : ledger.lastBlockHash = zeroArray hashSize := by
      rw [chained.newest, empty, HashChain.tip_zero]
    have zeroString : strcpy (overwrite (zeroArray txbIdLen) [122]) (List.replicate txbIdLen 0) =
        zeroArray txbIdLen := by decide
    have stored : after.blocks 0 = (proofOfWork sha256 (TransactionBlock.zero n)).1 := by
      cases created
      simp only [Function.update_self, slot, left]
      simp only [TransactionBlock.zero, zeroArray_toList, zeroString]
    have others : ∀ index, 1 ≤ index → after.blocks index = ledger.blocks index := by
      intro index positive
      cases created
      exact Function.update_of_ne (by omega) _ _
    have last : after.lastBlockHash = computeSha256 sha256 (after.blocks 0) := by
      rw [stored]
      cases created
      dsimp only
      rw [hash, strcpy_computeSha256]
    have counts : after.count = 1 := by cases created; rfl
    refine ⟨⟨?_, ?_, ?_, ?_, ?_⟩, counts, by cases created; rfl, stored⟩
    · rw [counts]
      cases created
      simpa [empty] using chained.index
    · rw [counts, last, HashChain.tip_succ]
    · intro index bound
      have first : index = 0 := by omega
      rw [first, HashChain.tip_zero, stored, left]
      rfl
    · intro index bound
      have first : index = 0 := by omega
      rw [first, stored]
      exact verified
    · intro index bound
      rw [others index (by omega)]
      exact chained.cleared index (by omega)

/-- Appending a padded, verified block on the tip: it is stored whole at the
index after the last, nothing below changes, and the ledger stays a chain. -/
theorem appendBlock_spec {sha256 : Sha256} {ledger : Ledger n} {block : TransactionBlock n}
    (chained : ledger.Chained sha256) (created : 0 < ledger.count) (padded : block.Padded)
    (verified : verifyNonce sha256 block = true) (tip : onTip ledger block = true) :
    let after := appendBlock ledger block (computeSha256 sha256 block)
    after.Chained sha256 ∧ ledger.Extends after ∧ after.count = ledger.count + 1 ∧
      after.blocks ledger.count = block := by
  have nextIndex : ledger.lastBlockIndex + 1 = ledger.count := by
    rw [chained.index]
    omega
  have names := (chained.onTip_iff padded.previousBlockHash).mp tip
  have stored : (appendBlock ledger block (computeSha256 sha256 block)).blocks ledger.count = block := by
    simp only [appendBlock, nextIndex, Function.update_self]
    rw [chained.cleared ledger.count (Nat.le_refl _), storeBlock_zero padded]
  have others : ∀ index, index ≠ ledger.count →
      (appendBlock ledger block (computeSha256 sha256 block)).blocks index = ledger.blocks index := by
    intro index different
    simp only [appendBlock, nextIndex]
    exact Function.update_of_ne different _ _
  have extended : ledger.Extends (appendBlock ledger block (computeSha256 sha256 block)) :=
    ⟨Nat.le_succ _, fun index bound => others index (Nat.ne_of_lt bound)⟩
  refine ⟨⟨?_, ?_, ?_, ?_, ?_⟩, extended, rfl, stored⟩
  · change ledger.lastBlockIndex + 1 = ledger.count + 1 - 1
    omega
  · change strcpy ledger.lastBlockHash (computeSha256 sha256 block).toList = _
    rw [strcpy_computeSha256]
    exact (congrArg (computeSha256 sha256) stored).symm
  · exact chained.linked.append extended.2 (by rw [stored, names, chained.newest])
  · intro index bound
    rcases Nat.lt_succ_iff_lt_or_eq.mp bound with below | rfl
    · rw [extended.2 index below]
      exact chained.verified index below
    · rw [stored]
      exact verified
  · intro index bound
    have above : ledger.count + 1 ≤ index := bound
    rw [others index (by omega)]
    exact chained.cleared index (by omega)

end DeiChain
