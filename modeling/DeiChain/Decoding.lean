import DeiChain.Miner

namespace DeiChain

open Data

variable {n : Nat}

/-! # What the decoder accepts

The size checks compare the announced size with the bytes that came; the copies
behind them take a whole block out of the buffer.
-/

/-- The bytes that the copies move into the header and the transactions. -/
def payloadBytes (block : TransactionBlock n) : List UInt8 :=
  headerBytes block ++ transactionsBytes block.transactions.toList

/-- The block the frame is decoded to, whatever was in the buffer before, is
made of the bytes that came behind the size, all of them and no others. -/
def CompleteFrame (n : Nat) (received : List UInt8) : Prop :=
  ∀ (buffer : List.Vector UInt8 (maxBlockSize n)) (block : TransactionBlock n),
    decodeFrame n buffer.toList received = some block →
      (received.drop sizeofSizeT).length = offsetofTransactions + n * sizeofTransaction ∧
        payloadBytes block = received.drop sizeofSizeT

/-- A field of `width` bytes that lies inside what was read. -/
theorem field_length {bytes : List UInt8} {offset width : Nat} (enough : offset + width ≤ bytes.length) :
    ((bytes.drop offset).take width).length = width := by
  rw [List.length_take, List.length_drop]
  omega

theorem word32_bytes {bytes : List UInt8} {offset : Nat} (enough : offset + 4 ≤ bytes.length) :
    leBytes 4 (UInt32.ofNat (leNat ((bytes.drop offset).take 4))).toNat = (bytes.drop offset).take 4 := by
  have width := field_length enough
  have bound := leNat_lt ((bytes.drop offset).take 4)
  have restored := leBytes_leNat ((bytes.drop offset).take 4)
  rw [width] at bound restored
  rw [UInt32.toNat_ofNat_of_lt' (Nat.lt_of_lt_of_le bound (by decide)), restored]

theorem word64_bytes {bytes : List UInt8} {offset : Nat} (enough : offset + 8 ≤ bytes.length) :
    leBytes 8 (UInt64.ofNat (leNat ((bytes.drop offset).take 8))).toNat = (bytes.drop offset).take 8 := by
  have width := field_length enough
  have bound := leNat_lt ((bytes.drop offset).take 8)
  have restored := leBytes_leNat ((bytes.drop offset).take 8)
  rw [width] at bound restored
  rw [UInt64.toNat_ofNat_of_lt' (Nat.lt_of_lt_of_le bound (by decide)), restored]

theorem loadArray_toList {width : Nat} {bytes : List UInt8} (enough : width ≤ bytes.length) :
    (loadArray width bytes).toList = bytes.take width := by
  change bytes.take width ++ List.replicate (width - bytes.length) 0 = _
  rw [Nat.sub_eq_zero_of_le enough, List.replicate_zero, List.append_nil]

theorem loadTransaction_stored {bytes : List UInt8} (enough : sizeofTransaction ≤ bytes.length) :
    (loadTransaction bytes).bytes = bytes.take sizeofTransaction := by
  have size : sizeofTransaction = txIdLen + 4 + 4 + 8 := rfl
  rw [Transaction.bytes, loadTransaction]
  dsimp only
  rw [loadArray_toList (by omega), word32_bytes (by omega), word32_bytes (by omega), word64_bytes (by omega),
    size, List.take_add, List.take_add, List.take_add]

theorem loadTransactions_stored {count : Nat} {bytes : List UInt8}
    (enough : count * sizeofTransaction ≤ bytes.length) :
    transactionsBytes (loadTransactions count bytes).toList = bytes.take (count * sizeofTransaction) := by
  induction count generalizing bytes with
  | zero => simp [loadTransactions, transactionsBytes]
  | succ count ih =>
      rw [Nat.succ_mul] at enough ⊢
      have rest : count * sizeofTransaction ≤ (bytes.drop sizeofTransaction).length := by
        rw [List.length_drop]
        omega
      have stored := ih rest
      rw [transactionsBytes] at stored
      rw [loadTransactions, List.Vector.toList_cons, transactionsBytes, List.flatMap_cons, stored,
        loadTransaction_stored (by omega), Nat.add_comm, List.take_add]

theorem loadHeader_stored {payload : List UInt8} (enough : offsetofTransactions ≤ payload.length)
    (transactions : List.Vector Transaction n) :
    headerBytes (loadHeader payload transactions) = payload.take offsetofTransactions := by
  have size : offsetofTransactions = txbIdLen + hashSize + 8 + 4 := rfl
  rw [headerBytes, loadHeader]
  dsimp only
  rw [loadArray_toList (by omega), loadArray_toList (by rw [List.length_drop]; omega),
    word64_bytes (by omega), word32_bytes (by omega), size, List.take_add, List.take_add, List.take_add]
  simp only [List.append_assoc]

/-- What passes the size checks; the sum of the second one does not wrap for a
frame that has its size in front. -/
theorem decodeFrame_isSome_iff {buffer received : List UInt8} (fits : received.length < 2 ^ 64) :
    (decodeFrame n buffer received).isSome = true ↔
      sizeofSizeT ≤ received.length ∧
        leNat (received.take sizeofSizeT) = received.length - sizeofSizeT := by
  have eight : sizeofSizeT = 8 := rfl
  have bound := leNat_lt (received.take sizeofSizeT)
  rw [decodeFrame]
  split
  · rename_i tiny
    simp only [Option.isSome_none, Bool.false_eq_true, false_iff, not_and]
    omega
  · rename_i enough
    have width : (received.take sizeofSizeT).length = 8 := by
      rw [List.length_take]
      omega
    rw [width] at bound
    dsimp only
    split <;> simp only [Option.isSome_none, Option.isSome_some, Bool.false_eq_true, false_iff, true_iff,
      not_and] <;> omega

theorem maxBlockSize_eq (n : Nat) :
    maxBlockSize n = sizeofSizeT + (offsetofTransactions + n * sizeofTransaction) := by
  simp [maxBlockSize, sizeofTransactionBlock, Nat.add_assoc]

/-- Nothing of the old buffer is left behind a frame of full length. -/
theorem completeFrame_of_full {received : List UInt8} (full : received.length = maxBlockSize n) :
    CompleteFrame n received := by
  intro buffer block decoded
  have size := maxBlockSize_eq n
  have payload : (received.drop sizeofSizeT).length = offsetofTransactions + n * sizeofTransaction := by
    rw [List.length_drop]
    omega
  have noneLeft : buffer.toList.drop received.length = [] :=
    List.drop_of_length_le (by rw [buffer.toList_length, full])
  refine ⟨payload, ?_⟩
  rw [decodeFrame, noneLeft, List.append_nil] at decoded
  split at decoded
  · cases decoded
  · dsimp only at decoded
    split at decoded
    · cases decoded
    · have header : sizeofTransactionBlock - sizeofPointer = offsetofTransactions := rfl
      have transactions : n * sizeofTransaction ≤
          ((received.drop sizeofSizeT).drop offsetofTransactions).length := by
        rw [List.length_drop]
        omega
      have all : ((received.drop sizeofSizeT).drop offsetofTransactions).take (n * sizeofTransaction) =
          (received.drop sizeofSizeT).drop offsetofTransactions :=
        List.take_of_length_le (by rw [List.length_drop]; omega)
      cases decoded
      rw [payloadBytes, loadHeader_stored (by omega), loadHeader, header, loadTransactions_stored transactions,
        all, List.take_append_drop]

theorem not_completeFrame_of_short {received : List UInt8} (fits : received.length < 2 ^ 64)
    (sized : sizeofSizeT ≤ received.length)
    (announced : leNat (received.take sizeofSizeT) = received.length - sizeofSizeT)
    (short : received.length ≠ maxBlockSize n) : ¬ CompleteFrame n received := by
  intro complete
  obtain ⟨block, decoded⟩ := Option.isSome_iff_exists.mp
    ((@decodeFrame_isSome_iff n (List.Vector.replicate (maxBlockSize n) 0).toList received fits).mpr
      ⟨sized, announced⟩)
  have size := maxBlockSize_eq n
  have payload := (complete _ block decoded).1
  rw [List.length_drop] at payload
  omega

/-- The decoder takes complete frames only, as long as no shorter one announces
exactly what follows its size. -/
theorem decoder_accepts_complete_frames_iff (cfg : Config) {received : List UInt8}
    (bounded : received.length ≤ maxBlockSize cfg.transactionsPerBlock) :
    CompleteFrame cfg.transactionsPerBlock received ↔
      received.length < sizeofSizeT ∨
        leNat (received.take sizeofSizeT) ≠ received.length - sizeofSizeT ∨
        received.length = maxBlockSize cfg.transactionsPerBlock := by
  have fits := Nat.lt_of_le_of_lt bounded cfg.maxBlockSize_lt
  constructor
  · intro complete
    by_contra accepted
    simp only [not_or, not_not, Nat.not_lt] at accepted
    obtain ⟨sized, announced, short⟩ := accepted
    exact not_completeFrame_of_short fits sized announced short complete
  · intro given
    obtain tiny | other | full := given
    · intro buffer block decoded
      have passed := (decodeFrame_isSome_iff fits).mp (Option.isSome_iff_exists.mpr ⟨block, decoded⟩)
      exact absurd passed.1 (Nat.not_le.mpr tiny)
    · intro buffer block decoded
      have passed := (decodeFrame_isSome_iff fits).mp (Option.isSome_iff_exists.mpr ⟨block, decoded⟩)
      exact absurd passed.2 other
    · exact completeFrame_of_full full

theorem decoder_accepts_miner_frame : CompleteFrame 2 (minerFrame 140723412345648 sampleMined) ∧
    decodeFrame 2 [] (minerFrame 140723412345648 sampleMined) = some sampleMined := by
  have length : (minerFrame 140723412345648 sampleMined).length = maxBlockSize 2 := minerFrame_length _ _
  have complete := (decoder_accepts_complete_frames_iff
    { numMiners := 5, transactionPoolSize := 50, transactionsPerBlock := 2, blockchainBlocks := 2 }
    (Nat.le_of_eq length)).mpr (.inr (.inr length))
  exact ⟨complete, decodeFrame_minerFrame (by decide) _ _ _⟩

/-- Eight zeros announce an empty payload; the block is what the buffer held. -/
theorem empty_payload_decoded : ¬ CompleteFrame 1 (List.replicate 8 0) ∧
    (decodeFrame 1 (List.replicate (maxBlockSize 1) 65) (List.replicate 8 0)).map
      (fun block => block.txbId.toList) = some (List.replicate 64 65) :=
  ⟨not_completeFrame_of_short (by decide) (by decide) (by decide) (by decide), by decide +kernel⟩

end DeiChain
