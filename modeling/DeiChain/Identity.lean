import DeiChain.Statistics

namespace DeiChain

open Data

variable {n : Nat}

/-! # A miner's number on its way to statistics

Scanned out of the id of a block, printed into a field of seven bytes, and read
again as an index.
-/

/-- What `%d` stores in an `int`. C leaves open what comes of a number that
does not fit; there `overflow` decides. -/
def storedInt (overflow : Int → Int32) (number : Int) : Int :=
  if -2 ^ 31 ≤ number ∧ number < 2 ^ 31 then number else (overflow number).toInt

/-- `new_msg.miner_id`. -/
def sentMinerId (overflow : Int → Int32) (txbId : CharArray txbIdLen) : CharArray minerIdLen :=
  match scanMinerId txbId with
  | some number => snprintf (zeroArray minerIdLen) (decimalInt (storedInt overflow number))
  | none => snprintf (zeroArray minerIdLen) [45, 49]

/-- The messages that a validator can send for a block. -/
inductive Sent (overflow : Int → Int32) (block : TransactionBlock n) : StatisticsMessage → Prop
  | rejected : Sent overflow block
      { rejectionMessage block with minerId := sentMinerId overflow block.txbId }
  | accepted (nextIndex : Nat) (now : Int64) : Sent overflow block
      { insertionMessage block nextIndex now with minerId := sentMinerId overflow block.txbId }

/-- The `miner_id` that `statistics` takes for an index. -/
def StatisticsMessage.entry (msg : StatisticsMessage) : Int := atoi (cstr msg.minerId.toList) - 1

structure Statistics.Sized (stats : Statistics) (numMiners : Nat) : Prop where
  valid : stats.minerValidBlocks.length = numMiners
  invalid : stats.minerInvalidBlocks.length = numMiners
  credits : stats.minerCredits.length = numMiners

theorem Statistics.initial_sized (numMiners : Nat) : (Statistics.initial numMiners).Sized numMiners :=
  ⟨List.length_replicate, List.length_replicate, List.length_replicate⟩

/-- The id is one that thread `thread` gives its blocks. -/
def WrittenBy (thread : Nat) (txbId : CharArray txbIdLen) : Prop :=
  ∃ blockNumber, txbId = snprintf (zeroArray txbIdLen) (formatTxbId thread blockNumber)

/-- Whatever is sent for the block stays inside the arrays, and what is sent
for a block of a miner thread goes to the entry of that thread. -/
structure IdentitySurvives (cfg : Config) (overflow : Int → Int32)
    (block : TransactionBlock cfg.transactionsPerBlock) : Prop where
  inside : ∀ msg, Sent overflow block msg →
    ∀ (ledger : Ledger cfg.transactionsPerBlock) (stats : Statistics), stats.Sized cfg.numMiners →
      (receiveMessage ledger stats msg).isSome = true
  own : ∀ thread, 1 ≤ thread → thread ≤ cfg.numMiners → WrittenBy thread block.txbId →
    ∀ msg, Sent overflow block msg → msg.entry = (thread : Int) - 1

/-- What is left of a number in a field of six characters. -/
def sixDigits (value : Nat) : Nat := value / 10 ^ ((decimal value).length - 6)

/-- The id names a miner whose number fits the field. -/
def NamesMiner (cfg : Config) (overflow : Int → Int32) (txbId : CharArray txbIdLen) : Prop :=
  (∃ (number : Int) (miner : Nat), scanMinerId txbId = some number ∧ storedInt overflow number = miner ∧
    1 ≤ sixDigits miner ∧ sixDigits miner ≤ cfg.numMiners) ∧
  ∀ thread, 1 ≤ thread → thread ≤ cfg.numMiners → WrittenBy thread txbId → thread ≤ 999999

theorem sixDigits_eq_iff (value : Nat) : sixDigits value = value ↔ value ≤ 999999 := by
  have width : (decimal value).length ≤ 6 ↔ value < 10 ^ 6 := decimal_length_le_iff (by decide)
  rw [sixDigits]
  constructor
  · intro whole
    by_contra large
    have long : 1 ≤ (decimal value).length - 6 := by
      have : ¬ (decimal value).length ≤ 6 := mt width.mp (by omega)
      omega
    have smaller := Nat.div_lt_self (by omega : 0 < value)
      (Nat.one_lt_pow (Nat.ne_of_gt long) (by decide : 1 < 10))
    omega
  · intro small
    rw [Nat.sub_eq_zero_of_le (width.mpr (by omega)), Nat.pow_zero, Nat.div_one]

section

variable {overflow : Int → Int32} {txbId : CharArray txbIdLen} {number : Int}

/-- For numbers that fit it is the field of every message above. -/
theorem sentMinerId_eq (fits : ∀ number, scanMinerId txbId = some number → -2 ^ 31 ≤ number ∧ number < 2 ^ 31) :
    sentMinerId overflow txbId = formatMinerId txbId := by
  rw [sentMinerId, formatMinerId]
  cases scanned : scanMinerId txbId with
  | none => rfl
  | some number =>
      dsimp only
      rw [storedInt, if_pos (fits number scanned)]

theorem cstr_sentMinerId (scanned : scanMinerId txbId = some number) :
    cstr (sentMinerId overflow txbId).toList = (decimalInt (storedInt overflow number)).take 6 := by
  have nonzero : ∀ byte ∈ decimalInt (storedInt overflow number), byte ≠ 0 := by
    intro byte member
    unfold decimalInt at member
    split at member
    · rcases List.mem_cons.mp member with rfl | digit
      · decide
      · exact decimal_nonzero digit
    · exact decimal_nonzero member
  rw [sentMinerId, scanned]
  exact cstr_snprintf _ nonzero (by decide)

theorem entry_unscanned (unscanned : scanMinerId txbId = none) :
    atoi (cstr (sentMinerId overflow txbId).toList) = -1 := by
  have sentinel : atoi (cstr (snprintf (zeroArray minerIdLen) [45, 49]).toList) = -1 := by decide +kernel
  rw [sentMinerId, unscanned]
  exact sentinel

theorem entry_negative (scanned : scanMinerId txbId = some number)
    (negative : storedInt overflow number < 0) : atoi (cstr (sentMinerId overflow txbId).toList) ≤ 0 := by
  rw [cstr_sentMinerId scanned, decimalInt, if_pos negative]
  exact atoi_minus

theorem entry_natural (scanned : scanMinerId txbId = some number) {miner : Nat}
    (stored : storedInt overflow number = miner) :
    atoi (cstr (sentMinerId overflow txbId).toList) = sixDigits miner := by
  rw [cstr_sentMinerId scanned, stored, decimalInt_natCast, atoi_decimal_take miner (by decide), sixDigits]

/-- The number that statistics reads is positive exactly for ids from which a
natural number was stored. -/
theorem entry_positive_iff (numMiners : Nat) :
    (1 ≤ atoi (cstr (sentMinerId overflow txbId).toList) ∧
      atoi (cstr (sentMinerId overflow txbId).toList) ≤ numMiners) ↔
      ∃ (number : Int) (miner : Nat), scanMinerId txbId = some number ∧
        storedInt overflow number = miner ∧ 1 ≤ sixDigits miner ∧ sixDigits miner ≤ numMiners := by
  constructor
  · intro given
    obtain ⟨positive, bound⟩ := given
    cases scanned : scanMinerId txbId with
    | none =>
        rw [entry_unscanned scanned] at positive
        omega
    | some number =>
        by_cases negative : storedInt overflow number < 0
        · have := entry_negative scanned negative
          omega
        · obtain ⟨miner, stored⟩ := Int.eq_ofNat_of_zero_le (Int.not_lt.mp negative)
          rw [entry_natural scanned stored] at positive bound
          exact ⟨number, miner, rfl, stored, by omega, by omega⟩
  · intro given
    obtain ⟨number, miner, scanned, stored, positive, bound⟩ := given
    rw [entry_natural scanned stored]
    exact ⟨by omega, by omega⟩

end

theorem addAt_isSome_iff {counters : List Int} {numMiners : Nat} (sized : counters.length = numMiners)
    (number amount : Int) :
    (addAt counters (number - 1) amount).isSome = true ↔ 1 ≤ number ∧ number ≤ numMiners := by
  rw [addAt, sized]
  split <;> simp only [Option.isSome_some, Option.isSome_none, Bool.false_eq_true, true_iff, false_iff] <;>
    omega

theorem receiveMessage_isSome_iff {ledger : Ledger n} {stats : Statistics} {numMiners : Nat}
    (sized : stats.Sized numMiners) (msg : StatisticsMessage) :
    (receiveMessage ledger stats msg).isSome = true ↔
      1 ≤ atoi (cstr msg.minerId.toList) ∧ atoi (cstr msg.minerId.toList) ≤ numMiners := by
  have valid := addAt_isSome_iff sized.valid (atoi (cstr msg.minerId.toList)) 1
  have credits := addAt_isSome_iff sized.credits (atoi (cstr msg.minerId.toList)) msg.earnedAmount
  rw [receiveMessage]
  split
  · rw [Option.isSome_map]
    exact addAt_isSome_iff sized.invalid _ _
  · cases counted : addAt stats.minerValidBlocks (atoi (cstr msg.minerId.toList) - 1) 1 with
    | none =>
        rw [counted] at valid
        simpa using valid
    | some minerValidBlocks =>
        rw [Option.bind_some, Option.isSome_map]
        exact credits

/-- A miner's number survives exactly if the field holds it and it is one of a
miner. -/
theorem identity_survives_iff (cfg : Config) (overflow : Int → Int32)
    (block : TransactionBlock cfg.transactionsPerBlock) :
    IdentitySurvives cfg overflow block ↔ NamesMiner cfg overflow block.txbId := by
  have received (msg : StatisticsMessage) (sent : Sent overflow block msg) :
      msg.minerId = sentMinerId overflow block.txbId := by cases sent <;> rfl
  have written (thread : Nat) (bound : thread ≤ cfg.numMiners) (written : WrittenBy thread block.txbId) :
      atoi (cstr (sentMinerId overflow block.txbId).toList) = sixDigits thread := by
    obtain ⟨blockNumber, same⟩ := written
    have small := Nat.lt_of_le_of_lt bound cfg.minersInt
    have scanned : scanMinerId block.txbId = some (thread : Int) :=
      same ▸ scanMinerId_formatTxbId small blockNumber
    exact entry_natural scanned (if_pos ⟨by omega, by omega⟩)
  constructor
  · intro survives
    refine ⟨?_, fun thread positive bound writtenBy => ?_⟩
    · rw [← entry_positive_iff]
      exact (receiveMessage_isSome_iff (Statistics.initial_sized cfg.numMiners) _).mp
        (survives.inside _ .rejected (Ledger.initial _ cfg.blockchainBlocks) _
          (Statistics.initial_sized cfg.numMiners))
    · have entry := survives.own thread positive bound writtenBy _ .rejected
      rw [StatisticsMessage.entry, written thread bound writtenBy] at entry
      exact (sixDigits_eq_iff thread).mp (by omega)
  · intro given
    obtain ⟨names, small⟩ := given
    refine ⟨fun msg sent ledger stats sized => ?_, fun thread positive bound writtenBy msg sent => ?_⟩
    · rw [receiveMessage_isSome_iff sized, received msg sent]
      exact (entry_positive_iff cfg.numMiners).mpr names
    · rw [StatisticsMessage.entry, received msg sent, written thread bound writtenBy,
        (sixDigits_eq_iff thread).mpr (small thread positive bound writtenBy)]

/-- A block without an id is reported for miner -1, which is entry -2; thread
1000000 is counted under 100000. -/
theorem identity_lost :
    ¬ IdentitySurvives smallSetup.cfg (fun _ => 0) (TransactionBlock.zero smallSetup.cfg.transactionsPerBlock) ∧
      (rejectionMessage (TransactionBlock.zero 1)).entry = -2 ∧
      StatisticsMessage.entry { rejectionMessage (TransactionBlock.zero 1) with
        minerId := sentMinerId (fun _ => 0) (snprintf (zeroArray txbIdLen) (formatTxbId 1000000 0)) } =
          99999 := by
  refine ⟨fun survives => ?_, by decide +kernel, by decide +kernel⟩
  have inside := survives.inside _ .rejected (Ledger.initial _ 4) _ (Statistics.initial_sized 2)
  rw [receiveMessage_isSome_iff (Statistics.initial_sized 2)] at inside
  exact absurd inside.1 (by decide +kernel)

end DeiChain
