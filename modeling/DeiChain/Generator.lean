import DeiChain.Configuration
import DeiChain.SharedMemory

namespace DeiChain

open Data Systems

/-! # How a generator starts

Its two arguments are checked before it opens anything. Everything else it takes
from the header of the pool, which it maps on its own first to learn how much
there is to map.
-/

/-- `atoi` where an `int` is expected; other numbers are undefined in C. -/
def atoiInt (text : List UInt8) : Except Stop Int32 :=
  if -2 ^ 31 ≤ atoi text ∧ atoi text < 2 ^ 31 then .ok (.ofInt (atoi text)) else .error .undefined

structure TxGenStart where
  args : TxGenArgs
  sleepTime : Int32
  poolSize : UInt32
  numMiners : UInt32
  transactionsPerBlock : UInt32
  shmSize : Nat

/-- What `main` of txGen does before its loop. `name` is `argv[0]`, and `args`
the arguments behind it. -/
def startTxGen (name : String) (pid : Nat) (args : List (List UInt8)) (memory : Memory) : Except Stop TxGenStart :=
  match args with
  | [first, second] => do
      let reward ← atoiInt first
      let sleepTime ← atoiInt second
      if rewards : reward < 1 ∨ 3 < reward then
        .error (.failure "O reward deve ser um valor entre 1 e 3.\n")
      else if sleepTime < 200 ∨ 3000 < sleepTime then
        .error (.failure "O sleep time deve ser um valor entre 200 e 3000.\n")
      else
        let poolSize := memory.u32 0
        .ok {
          args := {
            pid
            reward
            rewardLow := Int32.not_lt.mp (not_or.mp rewards).1
            rewardHigh := Int32.not_lt.mp (not_or.mp rewards).2 }
          sleepTime
          poolSize
          numMiners := memory.u32 8
          transactionsPerBlock := memory.u32 12
          shmSize := (sizeofTransactionPoolSHM + poolSize.toNat * sizeofPendingTransaction) % 2 ^ 64 }
  | _ => .error (.failure ("Uso: " ++ name ++ " <reward> <sleep time>\n"))

/-- A start on arguments that the checks let through, with all that the header
of the pool says of `cfg`. -/
structure TxGenStart.Proper (cfg : Config) (pid : Nat) (first second : List UInt8) (start : TxGenStart) : Prop where
  pid : start.args.pid = pid
  reward : start.args.reward.toInt = atoi first
  sleepTime : start.sleepTime.toInt = atoi second
  sleeps : 200 ≤ atoi second ∧ atoi second ≤ 3000
  poolSize : start.poolSize.toNat = cfg.transactionPoolSize
  numMiners : start.numMiners.toNat = cfg.numMiners
  transactionsPerBlock : start.transactionsPerBlock.toNat = cfg.transactionsPerBlock
  mapped : (start.shmSize : Int) = shmTransactionspoolSize cfg

section

variable {cfg : Config} {name : String} {pid : Nat} {args : List (List UInt8)} {memory : Memory}
  {start : TxGenStart} {text first second : List UInt8} {value : Int32}

theorem atoiInt_ok_iff : atoiInt text = .ok value ↔ value.toInt = atoi text := by
  rw [atoiInt]
  constructor
  · intro read
    split at read
    · rename_i fits
      cases read
      exact Int32.toInt_ofInt_of_le fits.1 fits.2
    · cases read
  · intro same
    have low := value.le_toInt
    have high := value.toInt_lt
    rw [← same, if_pos ⟨low, high⟩, Int32.ofInt_toInt]

theorem PoolHeader.numMiners_toNat (header : PoolHeader cfg memory) : (memory.u32 8).toNat = cfg.numMiners := by
  rw [header.numMiners, UInt32.toNat_ofNat_of_lt' (Nat.lt_trans cfg.minersInt (by decide))]

theorem PoolHeader.transactionsPerBlock_toNat (header : PoolHeader cfg memory) :
    (memory.u32 12).toNat = cfg.transactionsPerBlock := by
  rw [header.transactionsPerBlock, UInt32.toNat_ofNat_of_lt' (Nat.lt_trans cfg.transactionsInt (by decide))]

theorem PoolHeader.mapped (header : PoolHeader cfg memory) (fits : poolBytes cfg < 2 ^ 31) :
    (((sizeofTransactionPoolSHM + (memory.u32 0).toNat * sizeofPendingTransaction) % 2 ^ 64 : Nat) : Int) =
      shmTransactionspoolSize cfg := by
  have size : sizeofTransactionPoolSHM + (memory.u32 0).toNat * sizeofPendingTransaction = poolBytes cfg := by
    rw [header.size_toNat, poolBytes]
  rw [size, Nat.mod_eq_of_lt (Nat.lt_trans fits (by decide)), shmTransactionspoolSize, intOfSizeT_of_lt fits]

theorem startTxGen_proper (header : PoolHeader cfg memory) (fits : poolBytes cfg < 2 ^ 31)
    (started : startTxGen name pid args memory = .ok start) :
    ∃ first second, args = [first, second] ∧ start.Proper cfg pid first second := by
  unfold startTxGen at started
  split at started
  · rename_i first second
    refine ⟨first, second, rfl, ?_⟩
    obtain ⟨reward, read, started⟩ := bind_eq_ok.mp started
    obtain ⟨sleepTime, slept, started⟩ := bind_eq_ok.mp started
    split at started
    · cases started
    · split at started
      · cases started
      · rename_i sleeps
        have low := Int32.le_iff_toInt_le.mp (Int32.not_lt.mp (not_or.mp sleeps).1)
        have high := Int32.le_iff_toInt_le.mp (Int32.not_lt.mp (not_or.mp sleeps).2)
        rw [atoiInt_ok_iff.mp slept] at low high
        cases started
        exact {
          pid := rfl
          reward := atoiInt_ok_iff.mp read
          sleepTime := atoiInt_ok_iff.mp slept
          sleeps := ⟨low, high⟩
          poolSize := header.size_toNat
          numMiners := header.numMiners_toNat
          transactionsPerBlock := header.transactionsPerBlock_toNat
          mapped := header.mapped fits }
  · cases started

theorem startTxGen_accepts (rewards : 1 ≤ atoi first ∧ atoi first ≤ 3)
    (sleeps : 200 ≤ atoi second ∧ atoi second ≤ 3000) :
    ∃ start, startTxGen name pid [first, second] memory = .ok start := by
  have reward : (Int32.ofInt (atoi first)).toInt = atoi first := Int32.toInt_ofInt_of_le (by omega) (by omega)
  have sleepTime : (Int32.ofInt (atoi second)).toInt = atoi second :=
    Int32.toInt_ofInt_of_le (by omega) (by omega)
  have rewarded : ¬ (Int32.ofInt (atoi first) < 1 ∨ 3 < Int32.ofInt (atoi first)) := by
    rw [not_or, Int32.not_lt, Int32.not_lt, Int32.le_iff_toInt_le, Int32.le_iff_toInt_le, reward]
    exact rewards
  have rested : ¬ (Int32.ofInt (atoi second) < 200 ∨ 3000 < Int32.ofInt (atoi second)) := by
    rw [not_or, Int32.not_lt, Int32.not_lt, Int32.le_iff_toInt_le, Int32.le_iff_toInt_le, sleepTime]
    exact sleeps
  simp only [startTxGen, atoiInt_ok_iff.mpr reward, atoiInt_ok_iff.mpr sleepTime, ok_bind, rewarded, rested,
    dif_neg, if_neg, not_false_eq_true]
  exact ⟨_, rfl⟩

theorem TxGenStart.Proper.rewards (proper : start.Proper cfg pid first second) :
    1 ≤ atoi first ∧ atoi first ≤ 3 := by
  rw [← proper.reward]
  exact ⟨Int32.le_iff_toInt_le.mp start.args.rewardLow, Int32.le_iff_toInt_le.mp start.args.rewardHigh⟩

end

/-- The header that `main` leaves is there for every generator, whenever it is
started: what it maps is the segment, and what it reads is the configuration. -/
theorem txGen_starts_iff {setup : Setup} (fits : LayoutFits setup.cfg) {trace : List (Mapped setup.txs × Access)}
    {final : Mapped setup.txs} (run : Run (stepAccess setup) (Mapped.initial setup) trace final)
    (unambiguous : ∀ entry ∈ trace, entry.1.view.Unambiguous) (name : String) (pid : Nat)
    (args : List (List UInt8)) :
    ((∃ start, startTxGen name pid args final.pool = .ok start) ↔
      ∃ first second, args = [first, second] ∧ (1 ≤ atoi first ∧ atoi first ≤ 3) ∧
        200 ≤ atoi second ∧ atoi second ≤ 3000) ∧
      ∀ start, startTxGen name pid args final.pool = .ok start →
        ∃ first second, args = [first, second] ∧ start.Proper setup.cfg pid first second := by
  have header := (run_held fits run unambiguous).poolHeader
  have small := (layoutFits_lt fits).1
  refine ⟨⟨?_, ?_⟩, fun start started => startTxGen_proper header small started⟩
  · intro started
    obtain ⟨start, started⟩ := started
    obtain ⟨first, second, same, proper⟩ := startTxGen_proper header small started
    exact ⟨first, second, same, proper.rewards, proper.sleeps⟩
  · intro bounds
    obtain ⟨first, second, rfl, rewards, sleeps⟩ := bounds
    exact startTxGen_accepts rewards sleeps

/-- The arguments 2 and 200 while the segments hold a first block. -/
theorem txGen_starts_iff_after_first_block : ∃ trace final,
    Run (stepAccess smallSetup) (Mapped.initial smallSetup) trace final ∧ final.view = firstBlock ∧
    ∃ start, startTxGen "txgen" 7 [[50], [50, 48, 48]] final.pool = .ok start ∧
      start.Proper smallSetup.cfg 7 [50] [50, 48, 48] := by
  obtain ⟨trace, final, mapped, seen, viewed⟩ := firstBlock_mapped
  have fits : LayoutFits smallSetup.cfg := layoutFits_of_lt (by decide) (by decide)
  obtain ⟨accepts, proper⟩ := txGen_starts_iff fits mapped viewed "txgen" 7 [[50], [50, 48, 48]]
  obtain ⟨start, started⟩ := accepts.mpr ⟨_, _, rfl, by decide, by decide⟩
  obtain ⟨_, _, same, started_proper⟩ := proper start started
  cases same
  exact ⟨trace, final, mapped, seen, start, started, started_proper⟩

end DeiChain
