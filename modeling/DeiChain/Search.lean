import DeiChain.Pow

namespace DeiChain

open Data

variable {n : Nat}

/-- The `while (1)` of `proof_of_work` without any bound on its passes: the
loop entered with this block and this count of operations ends in `outcome`. -/
inductive PowEnds (sha256 : Sha256) (reward : Int32) :
    TransactionBlock n → (operations : Nat) → TransactionBlock n × PoWResult → Prop
  | accepted {block : TransactionBlock n} {operations : Nat}
      (passes : checkDifficulty (computeSha256 sha256 block).toList reward = true) :
      PowEnds sha256 reward block operations
        (block, { hash := computeSha256 sha256 block, operations, error := 0 })
  | givenUp {block : TransactionBlock n} {operations : Nat}
      (fails : checkDifficulty (computeSha256 sha256 block).toList reward = false)
      (last : powMaxOps < (block.nonce + 1).toNat) :
      PowEnds sha256 reward block operations
        ({ block with nonce := block.nonce + 1 }, { hash := zeroArray hashSize, operations, error := 1 })
  | again {block : TransactionBlock n} {operations : Nat} {outcome : TransactionBlock n × PoWResult}
      (fails : checkDifficulty (computeSha256 sha256 block).toList reward = false)
      (more : (block.nonce + 1).toNat ≤ powMaxOps)
      (rest : PowEnds sha256 reward { block with nonce := block.nonce + 1 } (operations + 1) outcome) :
      PowEnds sha256 reward block operations outcome

/-- `proof_of_work` called on `block` returns, with this outcome. -/
def ProofOfWorkEnds (sha256 : Sha256) (block : TransactionBlock n)
    (outcome : TransactionBlock n × PoWResult) : Prop :=
  PowEnds sha256 (getMaxTransactionReward block (intOfSizeT n)) { block with nonce := 0 } 0 outcome

/-- The hash of the block with this nonce passes the check. -/
def Passes (sha256 : Sha256) (block : TransactionBlock n) (reward : Int32) (nonce : Nat) : Prop :=
  checkDifficulty (computeSha256 sha256 { block with nonce := UInt32.ofNat nonce }).toList reward = true

theorem powMaxOps_lt : powMaxOps + 1 < 2 ^ 32 := by decide

theorem nonce_succ {nonce : UInt32} (bound : nonce.toNat ≤ powMaxOps) :
    (nonce + 1).toNat = nonce.toNat + 1 := by
  rw [UInt32.toNat_add, show (1 : UInt32).toNat = 1 from rfl]
  exact Nat.mod_eq_of_lt (Nat.lt_of_le_of_lt (Nat.succ_le_succ bound) powMaxOps_lt)

/-- The fuel of `powLoop` is never used up, so it computes what the loop
without fuel ends in. -/
theorem powLoop_ends (sha256 : Sha256) (reward : Int32) {fuel : Nat} {block : TransactionBlock n}
    (bound : block.nonce.toNat ≤ powMaxOps) (enough : powMaxOps < block.nonce.toNat + fuel)
    (operations : Nat) :
    PowEnds sha256 reward block operations (powLoop sha256 reward fuel block operations) := by
  induction fuel generalizing block operations with
  | zero => omega
  | succ fuel ih =>
      have next := nonce_succ bound
      by_cases passes : checkDifficulty (computeSha256 sha256 block).toList reward
      · rw [powLoop, if_pos passes]
        exact .accepted passes
      · have fails := Bool.eq_false_iff.mpr passes
        rw [powLoop, if_neg passes]
        by_cases last : powMaxOps < (block.nonce + 1).toNat
        · rw [if_pos last]
          exact .givenUp fails last
        · rw [if_neg last]
          have more := Nat.not_lt.mp last
          exact .again fails more (ih more (by dsimp only; omega) _)

theorem PowEnds.unique {sha256 : Sha256} {reward : Int32} {block : TransactionBlock n} {operations : Nat}
    {left right : TransactionBlock n × PoWResult} (ends : PowEnds sha256 reward block operations left)
    (other : PowEnds sha256 reward block operations right) : left = right := by
  induction ends with
  | accepted passes =>
      cases other with
      | accepted => rfl
      | givenUp fails => exact absurd passes (Bool.eq_false_iff.mp fails)
      | again fails => exact absurd passes (Bool.eq_false_iff.mp fails)
  | givenUp fails last =>
      cases other with
      | accepted passes => exact absurd passes (Bool.eq_false_iff.mp fails)
      | givenUp => rfl
      | again _ more => exact absurd more (Nat.not_le.mpr last)
  | again fails more _ ih =>
      cases other with
      | accepted passes => exact absurd passes (Bool.eq_false_iff.mp fails)
      | givenUp _ last => exact absurd more (Nat.not_le.mpr last)
      | again _ _ rest => exact ih rest

theorem proofOfWork_ends (sha256 : Sha256) (block : TransactionBlock n) :
    ProofOfWorkEnds sha256 block (proofOfWork sha256 block) :=
  powLoop_ends sha256 _ (by simp) (by simp) 0

/-- What a search through the nonces of `start` leaves. -/
inductive SearchOutcome (sha256 : Sha256) (reward : Int32) (start : TransactionBlock n) :
    TransactionBlock n × PoWResult → Prop
  | found {nonce : Nat} (bound : nonce ≤ powMaxOps) (passes : Passes sha256 start reward nonce)
      (least : ∀ smaller < nonce, ¬ Passes sha256 start reward smaller) :
      SearchOutcome sha256 reward start ({ start with nonce := UInt32.ofNat nonce },
        { hash := computeSha256 sha256 { start with nonce := UInt32.ofNat nonce }
          operations := nonce
          error := 0 })
  | exhausted (none : ∀ nonce ≤ powMaxOps, ¬ Passes sha256 start reward nonce) :
      SearchOutcome sha256 reward start ({ start with nonce := UInt32.ofNat (powMaxOps + 1) },
        { hash := zeroArray hashSize, operations := powMaxOps, error := 1 })

/-- Where every pass of the loop begins: the count of operations is the nonce,
and all smaller nonces have failed. -/
structure Searching (sha256 : Sha256) (reward : Int32) (start block : TransactionBlock n)
    (operations : Nat) : Prop where
  here : block = { start with nonce := UInt32.ofNat operations }
  bound : operations ≤ powMaxOps
  failed : ∀ nonce < operations, ¬ Passes sha256 start reward nonce

section

variable {sha256 : Sha256} {reward : Int32} {start block : TransactionBlock n} {operations : Nat}

theorem Searching.nonce (searching : Searching sha256 reward start block operations) :
    block.nonce.toNat = operations := by
  rw [searching.here]
  exact UInt32.toNat_ofNat_of_lt' (Nat.lt_of_le_of_lt searching.bound (by decide))

theorem Searching.passes_iff (searching : Searching sha256 reward start block operations) :
    Passes sha256 start reward operations ↔
      checkDifficulty (computeSha256 sha256 block).toList reward = true := by
  rw [searching.here]
  rfl

theorem Searching.next (searching : Searching sha256 reward start block operations) :
    { block with nonce := block.nonce + 1 } = { start with nonce := UInt32.ofNat (operations + 1) } := by
  have nonce : block.nonce = UInt32.ofNat operations := by rw [searching.here]
  rw [nonce, searching.here, UInt32.ofNat_add]
  rfl

/-- A failed check extends the failures by the nonce it was made for. -/
theorem Searching.failed_le (searching : Searching sha256 reward start block operations)
    (fails : checkDifficulty (computeSha256 sha256 block).toList reward = false) :
    ∀ nonce ≤ operations, ¬ Passes sha256 start reward nonce := by
  intro nonce le passes
  rcases Nat.lt_or_eq_of_le le with before | rfl
  · exact searching.failed nonce before passes
  · exact absurd (searching.passes_iff.mp passes) (Bool.eq_false_iff.mp fails)

theorem PowEnds.outcome {outcome : TransactionBlock n × PoWResult}
    (ends : PowEnds sha256 reward block operations outcome)
    (searching : Searching sha256 reward start block operations) :
    SearchOutcome sha256 reward start outcome := by
  induction ends with
  | accepted passes =>
      have here := searching.here
      subst here
      exact .found searching.bound (searching.passes_iff.mpr passes) searching.failed
  | @givenUp block operations fails last =>
      have nonce := searching.nonce
      have all : operations = powMaxOps := by
        rw [nonce_succ (nonce ▸ searching.bound), nonce] at last
        exact Nat.le_antisymm searching.bound (Nat.lt_succ_iff.mp last)
      have failed := searching.failed_le fails
      rw [searching.next, all]
      exact .exhausted (all ▸ failed)
  | @again block operations _ fails more _ ih =>
      have nonce := searching.nonce
      refine ih ⟨searching.next, ?_, fun nonce before => searching.failed_le fails nonce
        (Nat.lt_succ_iff.mp before)⟩
      rwa [nonce_succ (nonce ▸ searching.bound), nonce] at more

end

theorem searching_first (sha256 : Sha256) (reward : Int32) (block : TransactionBlock n) :
    Searching sha256 reward block { block with nonce := 0 } 0 :=
  ⟨rfl, Nat.zero_le _, fun _ before => absurd before (Nat.not_lt_zero _)⟩

theorem proofOfWork_outcome (sha256 : Sha256) (block : TransactionBlock n) :
    SearchOutcome sha256 (getMaxTransactionReward block (intOfSizeT n)) block (proofOfWork sha256 block) :=
  (proofOfWork_ends sha256 block).outcome (searching_first sha256 _ block)

theorem SearchOutcome.error_iff {sha256 : Sha256} {reward : Int32} {start : TransactionBlock n}
    {outcome : TransactionBlock n × PoWResult} (left : SearchOutcome sha256 reward start outcome) :
    outcome.2.error = 0 ↔ ∃ nonce ≤ powMaxOps, Passes sha256 start reward nonce := by
  cases left with
  | found bound passes => exact iff_of_true rfl ⟨_, bound, passes⟩
  | exhausted none =>
      refine iff_of_false (by simp) ?_
      intro given
      obtain ⟨nonce, bound, passes⟩ := given
      exact none nonce bound passes

theorem SearchOutcome.least {sha256 : Sha256} {reward : Int32} {start : TransactionBlock n}
    {outcome : TransactionBlock n × PoWResult} (left : SearchOutcome sha256 reward start outcome)
    (success : outcome.2.error = 0) :
    IsLeast {nonce | nonce ≤ powMaxOps ∧ Passes sha256 start reward nonce} outcome.1.nonce.toNat ∧
      outcome.2.operations = outcome.1.nonce.toNat := by
  cases left with
  | @found nonce bound passes least =>
      have kept : (UInt32.ofNat nonce).toNat = nonce :=
        UInt32.toNat_ofNat_of_lt' (Nat.lt_of_le_of_lt bound (by decide))
      dsimp only
      rw [kept]
      refine ⟨⟨⟨bound, passes⟩, ?_⟩, rfl⟩
      intro other given
      obtain ⟨_, otherPasses⟩ := given
      exact Nat.le_of_not_lt fun smaller => least other smaller otherPasses
  | exhausted => simp at success

/-- `proof_of_work` returns on every block, whatever the hash function: with
the least nonce that passes for the largest reward of the block, or with an
error when there is none up to `powMaxOps`. -/
theorem proof_of_work_least_nonce (cfg : Config) (sha256 : Sha256)
    (block : TransactionBlock cfg.transactionsPerBlock) :
    let outcome := proofOfWork sha256 block
    (∀ ended, ProofOfWorkEnds sha256 block ended ↔ ended = outcome) ∧
      ∃ reward, LargestReward block reward ∧
        (outcome.2.error = 0 ↔ ∃ nonce ≤ powMaxOps, Passes sha256 block reward nonce) ∧
        (outcome.2.error = 0 →
          IsLeast {nonce | nonce ≤ powMaxOps ∧ Passes sha256 block reward nonce}
            outcome.1.nonce.toNat ∧
          outcome.2.operations = outcome.1.nonce.toNat ∧
          outcome.2.hash = computeSha256 sha256 outcome.1 ∧ verifyNonce sha256 outcome.1 = true) ∧
        (outcome.2.error ≠ 0 → outcome.2.error = 1) ∧
        ∃ nonce, outcome.1 = { block with nonce } := by
  intro outcome
  obtain ⟨reward, largest⟩ := exists_largestReward cfg.transactionsPositive block
  have passes_iff : ∀ nonce, Passes sha256 block reward nonce ↔
      Passes sha256 block (getMaxTransactionReward block (intOfSizeT cfg.transactionsPerBlock)) nonce := by
    intro nonce
    rw [Passes, Passes, checkDifficulty_largest cfg.transactionsInt largest]
  have left := proofOfWork_outcome sha256 block
  refine ⟨fun ended => ⟨fun ends => ends.unique (proofOfWork_ends sha256 block), ?_⟩,
    reward, largest, ?_, fun success => ?_, fun failure => ?_, proofOfWork_block sha256 block⟩
  · intro same
    subst same
    exact proofOfWork_ends sha256 block
  · simp only [passes_iff]
    exact left.error_iff
  · obtain ⟨least, operations⟩ := left.least success
    simp only [passes_iff]
    exact ⟨least, operations, proofOfWork_success success⟩
  · exact (powLoop_error sha256 _ _ _ _).resolve_left failure

end DeiChain
