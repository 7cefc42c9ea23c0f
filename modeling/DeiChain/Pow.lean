import DeiChain.Types

namespace DeiChain

open Data

variable {n : Nat}

/-- `SHA256` of the cryptographic library, over which everything is stated. -/
abbrev Sha256 := List UInt8 → List.Vector UInt8 32

/-- A stand-in digest that sums its input and whose strings meet every
difficulty, to evaluate runs with. -/
def checksum : Sha256 := fun bytes =>
  ⟨List.replicate 31 0 ++ [bytes.foldl (· + ·) 0], by simp⟩

def powMaxOps : Nat := 10000000

inductive DifficultyLevel where
  | easy
  | normal
  | hard
deriving DecidableEq, Repr

/-- The fields of `PoWResult` that the program reads; the hash of a failed
search is left uninitialised there and is zero here. -/
structure PoWResult where
  hash : CharArray hashSize
  operations : Nat
  error : Int

/-- A `size_t` passed for an `int` parameter. -/
def intOfSizeT (size : Nat) : Int := Int.bmod size (2 ^ 32)

def getMaxTransactionReward (block : TransactionBlock n) (txsPerBlock : Int) : Int32 :=
  (block.transactions.toList.take txsPerBlock.toNat).foldl
    (fun maxReward tx => if maxReward < tx.reward then tx.reward else maxReward) 0

def serializeBlock (block : TransactionBlock n) : List UInt8 :=
  block.txbId.toList ++ block.previousBlockHash.toList ++ leBytes 8 block.timestamp.toUInt64.toNat ++
    transactionsBytes block.transactions.toList ++ leBytes 4 block.nonce.toNat

def hexDigit (digit : Nat) : UInt8 := UInt8.ofNat (if digit < 10 then 48 + digit else 87 + digit)

def hexByte (byte : UInt8) : List UInt8 := [hexDigit (byte.toNat / 16), hexDigit (byte.toNat % 16)]

theorem hexBytes_length (bytes : List UInt8) : (bytes.flatMap hexByte).length = 2 * bytes.length := by
  induction bytes with
  | nil => rfl
  | cons byte rest ih =>
      simp only [List.flatMap_cons, List.length_append, ih, List.length_cons, hexByte, List.length_nil]
      omega

def computeSha256 (sha256 : Sha256) (block : TransactionBlock n) : CharArray hashSize :=
  ⟨(sha256 (serializeBlock block)).toList.flatMap hexByte ++ [0], by
    rw [List.length_append, hexBytes_length, List.Vector.toList_length]
    rfl⟩

def getDifficultFromReward (reward : Int32) : DifficultyLevel :=
  if reward ≤ 1 then .easy
  else if reward = 2 then .normal
  else .hard

/-- `hash` is one of the strings `compute_sha256` makes, so its characters are
plain ASCII and comparing them as unsigned bytes is comparing them as `char`. -/
def checkDifficulty (hash : List UInt8) (reward : Int32) : Bool :=
  let zeros := (hash.takeWhile (· == 48)).length
  let nextChar := hash.getD zeros 0
  if zeros < 4 then false
  else match getDifficultFromReward reward with
    | .easy => (zeros == 4 && decide (nextChar ≤ 98)) || decide (4 < zeros)
    | .normal => decide (5 ≤ zeros)
    | .hard => (zeros == 5 && decide (nextChar ≤ 98)) || decide (5 < zeros)

def verifyNonce (sha256 : Sha256) (block : TransactionBlock n) : Bool :=
  checkDifficulty (computeSha256 sha256 block).toList (getMaxTransactionReward block (intOfSizeT n))

/-- The `while (1)` of `proof_of_work`, entered with the given nonce in the
block. The loop leaves at the latest when the nonce passes `powMaxOps`, so the
fuel that `proofOfWork` gives is never used up. -/
def powLoop (sha256 : Sha256) (reward : Int32) :
    (fuel : Nat) → TransactionBlock n → (operations : Nat) → TransactionBlock n × PoWResult
  | 0, block, operations => (block, { hash := zeroArray hashSize, operations, error := 1 })
  | fuel + 1, block, operations =>
      let hash := computeSha256 sha256 block
      if checkDifficulty hash.toList reward then (block, { hash, operations, error := 0 })
      else
        let next := { block with nonce := block.nonce + 1 }
        if powMaxOps < next.nonce.toNat then
          (next, { hash := zeroArray hashSize, operations, error := 1 })
        else powLoop sha256 reward fuel next (operations + 1)

def proofOfWork (sha256 : Sha256) (block : TransactionBlock n) : TransactionBlock n × PoWResult :=
  powLoop sha256 (getMaxTransactionReward block (intOfSizeT n)) (powMaxOps + 1) { block with nonce := 0 } 0

theorem hexDigit_nonzero {digit : Nat} (small : digit < 16) : hexDigit digit ≠ 0 := by
  unfold hexDigit
  intro zero
  have value := congrArg UInt8.toNat zero
  rw [UInt8.toNat_ofNat'] at value
  have same : (if digit < 10 then 48 + digit else 87 + digit) % 2 ^ 8 = 0 := value
  split at same <;> omega

theorem hexByte_nonzero {byte char : UInt8} (member : char ∈ hexByte byte) : char ≠ 0 := by
  have bound := byte.toNat_lt
  simp only [hexByte, List.mem_cons, List.not_mem_nil, or_false] at member
  rcases member with rfl | rfl
  · exact hexDigit_nonzero (by omega)
  · exact hexDigit_nonzero (by omega)

theorem cstr_computeSha256 (sha256 : Sha256) (block : TransactionBlock n) :
    cstr (computeSha256 sha256 block).toList =
      (sha256 (serializeBlock block)).toList.flatMap hexByte := by
  apply cstr_append_zero
  intro char member
  obtain ⟨byte, _, inByte⟩ := List.mem_flatMap.mp member
  exact hexByte_nonzero inByte

theorem cstr_computeSha256_length (sha256 : Sha256) (block : TransactionBlock n) :
    (cstr (computeSha256 sha256 block).toList).length = 64 := by
  rw [cstr_computeSha256, hexBytes_length, List.Vector.toList_length]

theorem computeSha256_zeroPadded (sha256 : Sha256) (block : TransactionBlock n) :
    ZeroPadded (computeSha256 sha256 block) := by
  have length := cstr_computeSha256_length sha256 block
  refine ⟨by rw [length]; decide, ?_⟩
  apply List.Vector.eq
  rw [strncpy_toList, List.take_of_length_le (by rw [length]; decide), length, cstr_computeSha256]
  rfl

theorem computeSha256_ne_zeroArray (sha256 : Sha256) (block : TransactionBlock n) :
    computeSha256 sha256 block ≠ zeroArray hashSize := by
  intro same
  have length := cstr_computeSha256_length sha256 block
  rw [same, zeroArray_toList, cstr_zeros] at length
  simp at length

theorem foldl_max_spec (txs : List Transaction) (start : Int32) :
    let largest :=
      txs.foldl (fun maxReward tx => if maxReward < tx.reward then tx.reward else maxReward) start
    start ≤ largest ∧ (∀ tx ∈ txs, tx.reward ≤ largest) ∧
      (largest = start ∨ ∃ tx ∈ txs, tx.reward = largest) := by
  induction txs generalizing start with
  | nil => exact ⟨Int32.le_refl _, by simp, .inl rfl⟩
  | cons tx rest ih =>
      by_cases larger : start < tx.reward
      · obtain ⟨fromTx, all, attained⟩ := ih tx.reward
        simp only [List.foldl_cons, if_pos larger]
        refine ⟨Int32.le_trans (Int32.le_of_lt larger) fromTx, ?_, .inr ?_⟩
        · simpa using ⟨fromTx, all⟩
        · rcases attained with same | ⟨other, member, same⟩
          · exact ⟨tx, by simp, same.symm⟩
          · exact ⟨other, by simp [member], same⟩
      · obtain ⟨fromStart, all, attained⟩ := ih start
        simp only [List.foldl_cons, if_neg larger]
        refine ⟨fromStart, ?_, ?_⟩
        · simpa using ⟨Int32.le_trans (Int32.not_lt.mp larger) fromStart, all⟩
        · rcases attained with same | ⟨other, member, same⟩
          · exact .inl same
          · exact .inr ⟨other, by simp [member], same⟩

theorem intOfSizeT_of_lt {size : Nat} (bound : size < 2 ^ 31) : intOfSizeT size = size := by
  unfold intOfSizeT
  rw [Int.bmod_def]
  split <;> omega

/-- `reward` is the largest in the block. -/
def LargestReward (block : TransactionBlock n) (reward : Int32) : Prop :=
  (∃ tx ∈ block.transactions.toList, tx.reward = reward) ∧
    ∀ tx ∈ block.transactions.toList, tx.reward ≤ reward

/-- The search for the maximum starts at zero, which is of the same difficulty
as every smaller reward. -/
theorem checkDifficulty_largest {block : TransactionBlock n} (bound : n < 2 ^ 31) {reward : Int32}
    (largest : LargestReward block reward) (hash : List UInt8) :
    checkDifficulty hash (getMaxTransactionReward block (intOfSizeT n)) = checkDifficulty hash reward := by
  obtain ⟨zeroLe, all, source⟩ := foldl_max_spec block.transactions.toList 0
  have whole : getMaxTransactionReward block (intOfSizeT n) =
      block.transactions.toList.foldl
        (fun maxReward tx => if maxReward < tx.reward then tx.reward else maxReward) 0 := by
    rw [getMaxTransactionReward, intOfSizeT_of_lt bound, Int.toNat_natCast,
      List.take_of_length_le (by simp)]
  rw [whole]
  obtain ⟨⟨tx, member, rfl⟩, above⟩ := largest
  rcases source with zero | ⟨other, otherMember, same⟩
  · have sameLevel : getDifficultFromReward tx.reward = getDifficultFromReward 0 := by
      have small : tx.reward ≤ 1 := Int32.le_trans (zero ▸ all tx member) (by decide)
      simp [getDifficultFromReward, small]
    rw [zero, checkDifficulty, checkDifficulty, sameLevel]
  · rw [← same, Int32.le_antisymm (above other otherMember) (same ▸ all tx member)]

/-- The difficulty that `verify_nonce` asks for is that of the largest reward
in the block. -/
theorem verifyNonce_largest {sha256 : Sha256} {block : TransactionBlock n} (bound : n < 2 ^ 31)
    (verified : verifyNonce sha256 block = true) {reward : Int32}
    (attained : ∃ tx ∈ block.transactions.toList, tx.reward = reward)
    (largest : ∀ tx ∈ block.transactions.toList, tx.reward ≤ reward) :
    checkDifficulty (computeSha256 sha256 block).toList reward = true := by
  rw [← checkDifficulty_largest bound ⟨attained, largest⟩]
  exact verified

theorem exists_largestReward (positive : 1 ≤ n) (block : TransactionBlock n) :
    ∃ reward, LargestReward block reward := by
  have length := block.transactions.toList_length
  cases list : block.transactions.toList with
  | nil => simp [list] at length; omega
  | cons first rest =>
      obtain ⟨fromFirst, all, attained⟩ := foldl_max_spec rest first.reward
      refine ⟨rest.foldl (fun maxReward tx => if maxReward < tx.reward then tx.reward else maxReward)
        first.reward, ?_, by simpa [list] using ⟨fromFirst, all⟩⟩
      rcases attained with same | ⟨tx, member, same⟩
      · exact ⟨first, by simp [list], same.symm⟩
      · exact ⟨tx, by simp [list, member], same⟩

/-- The search changes nothing but the nonce, and success means that the block
as it is left passes the difficulty check under the returned hash. -/
theorem powLoop_spec (sha256 : Sha256) (reward : Int32) (fuel : Nat) (block : TransactionBlock n)
    (operations : Nat) :
    let outcome := powLoop sha256 reward fuel block operations
    (∃ nonce, outcome.1 = { block with nonce }) ∧
      (outcome.2.error = 0 → outcome.2.hash = computeSha256 sha256 outcome.1 ∧
        checkDifficulty (computeSha256 sha256 outcome.1).toList reward = true) := by
  induction fuel generalizing block operations with
  | zero => exact ⟨⟨block.nonce, rfl⟩, fun success => absurd success (by simp [powLoop])⟩
  | succ fuel ih =>
      by_cases accepted : checkDifficulty (computeSha256 sha256 block).toList reward
      · simp only [powLoop, accepted, if_true]
        exact ⟨⟨block.nonce, rfl⟩, fun _ => ⟨trivial, trivial⟩⟩
      · by_cases last : powMaxOps < (block.nonce + 1).toNat
        · simp only [powLoop, accepted, last, if_true, Bool.false_eq_true, if_false]
          exact ⟨⟨block.nonce + 1, rfl⟩, fun success => absurd success (by decide)⟩
        · simp only [powLoop, accepted, last, Bool.false_eq_true, if_false]
          obtain ⟨⟨nonce, left⟩, success⟩ := ih { block with nonce := block.nonce + 1 } (operations + 1)
          exact ⟨⟨nonce, left⟩, success⟩

theorem powLoop_error (sha256 : Sha256) (reward : Int32) (fuel : Nat) (block : TransactionBlock n)
    (operations : Nat) : (powLoop sha256 reward fuel block operations).2.error = 0 ∨
      (powLoop sha256 reward fuel block operations).2.error = 1 := by
  induction fuel generalizing block operations with
  | zero => exact .inr rfl
  | succ fuel ih =>
      simp only [powLoop]
      split
      · exact .inl rfl
      · split
        · exact .inr rfl
        · exact ih _ _

theorem proofOfWork_block (sha256 : Sha256) (block : TransactionBlock n) :
    ∃ nonce, (proofOfWork sha256 block).1 = { block with nonce } :=
  (powLoop_spec sha256 _ _ { block with nonce := 0 } 0).1

theorem getMaxTransactionReward_congr {left right : TransactionBlock n}
    (same : left.transactions = right.transactions) (count : Int) :
    getMaxTransactionReward left count = getMaxTransactionReward right count := by
  rw [getMaxTransactionReward, getMaxTransactionReward, same]

theorem proofOfWork_success {sha256 : Sha256} {block : TransactionBlock n}
    (success : (proofOfWork sha256 block).2.error = 0) :
    (proofOfWork sha256 block).2.hash = computeSha256 sha256 (proofOfWork sha256 block).1 ∧
      verifyNonce sha256 (proofOfWork sha256 block).1 = true := by
  obtain ⟨⟨nonce, left⟩, checked⟩ := powLoop_spec sha256
    (getMaxTransactionReward block (intOfSizeT n)) (powMaxOps + 1) { block with nonce := 0 } 0
  obtain ⟨hash, difficulty⟩ := checked success
  refine ⟨hash, ?_⟩
  have sameReward : getMaxTransactionReward (proofOfWork sha256 block).1 (intOfSizeT n) =
      getMaxTransactionReward block (intOfSizeT n) :=
    getMaxTransactionReward_congr (by rw [proofOfWork, left]) _
  rw [verifyNonce, sameReward]
  exact difficulty

theorem checkDifficulty_of_zeros {hash : List UInt8} (zeros : 5 < (hash.takeWhile (· == 48)).length)
    (reward : Int32) : checkDifficulty hash reward = true := by
  rw [checkDifficulty, if_neg (by omega)]
  cases getDifficultFromReward reward with
  | easy =>
      have more : 4 < (hash.takeWhile (· == 48)).length := Nat.lt_of_succ_lt zeros
      simp [more]
  | normal => exact decide_eq_true (Nat.le_of_lt zeros)
  | hard => simp [zeros]

theorem checksum_difficulty (block : TransactionBlock n) (reward : Int32) :
    checkDifficulty (computeSha256 checksum block).toList reward = true := by
  obtain ⟨rest, written⟩ : ∃ rest, (computeSha256 checksum block).toList = List.replicate 62 48 ++ rest :=
    ⟨_, rfl⟩
  refine checkDifficulty_of_zeros ?_ reward
  rw [written, List.takeWhile_append_of_pos (by simp), List.length_append, List.length_replicate]
  exact Nat.lt_add_right _ (by decide)

theorem checksum_solves (block : TransactionBlock n) : (proofOfWork checksum block).2.error = 0 := by
  rw [proofOfWork, powLoop, if_pos (checksum_difficulty _ _)]

end DeiChain
