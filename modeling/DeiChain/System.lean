import DeiChain.Miner
import DeiChain.Systems.Run

namespace DeiChain

open Data Systems

variable {n : Nat}

/-! # The running system

Generators, miner threads and validators over the pool, the ledger and the
pipe. A step is one critical section, one operation on the pipe or one stretch
of local work of one process; runs interleave them in any order.
-/

structure TxGenArgs where
  pid : Nat
  reward : Int32
  rewardLow : 1 ≤ reward := by decide
  rewardHigh : reward ≤ 3 := by decide

/-- What a run is started with. The launcher never runs more than three
validators; nothing below depends on the number. -/
structure Setup where
  cfg : Config
  sha256 : Sha256
  txGens : Nat → TxGenArgs
  maxValidators : Nat := 3

abbrev Setup.txs (setup : Setup) : Nat := setup.cfg.transactionsPerBlock

/-- Where a block comes from: the number of ledger blocks when its transactions
were selected and when its previous hash was read. No step depends on it. -/
structure History where
  countAtSelection : Nat
  countAtTip : Nat
deriving DecidableEq, Repr

structure Frame where
  bytes : List UInt8
  history : History

/-- The points of the loop of `miner_thread` between its sections. -/
inductive MinerPhase (n : Nat) where
  | waiting
  | polled (txCount : UInt32)
  | ready
  | selected (txs : List.Vector Transaction n) (countAtSelection : Nat)
  | mining (block : TransactionBlock n) (history : History)
  | mined (block : TransactionBlock n) (history : History)
  | finished

structure MinerThread (n : Nat) where
  phase : MinerPhase n
  blockNumber : Nat

/-- The points of `validator` between its sections. `checked` is after the
nonce and the first hash check, `accepted` after a successful pool phase;
`rejecting` and `inserted` are before the message to statistics. -/
inductive ValidatorPhase (n : Nat) where
  | absent
  | starting
  | reading
  | received (block : TransactionBlock n) (history : History)
  | checked (block : TransactionBlock n) (history : History)
  | accepted (block : TransactionBlock n) (history : History)
  | rejecting (block : TransactionBlock n)
  | inserted (block : TransactionBlock n) (index : Nat) (now : Int64)
  | exited

/-- The shared objects and every process; `issued` lists, as history, each
transaction a generator ever stored in a slot. -/
structure State (n : Nat) where
  pool : TransactionPool
  ledger : Ledger n
  pipe : List Frame
  txNumbers : Nat → Nat
  miners : Nat → MinerThread n
  validators : Nat → ValidatorPhase n
  issued : List Transaction

def State.initial (setup : Setup) : State setup.txs :=
  { pool := TransactionPool.initial setup.cfg.transactionPoolSize
    ledger := Ledger.initial setup.txs setup.cfg.blockchainBlocks
    pipe := []
    txNumbers := fun _ => 0
    miners := fun _ => ⟨.waiting, 0⟩
    validators := fun _ => .absent
    issued := [] }

def State.withMiner (state : State n) (thread : Nat) (phase : MinerPhase n)
    (blockNumber : Nat := (state.miners thread).blockNumber) : State n :=
  { state with miners := Function.update state.miners thread ⟨phase, blockNumber⟩ }

def State.withValidator (state : State n) (num : Nat) (phase : ValidatorPhase n) : State n :=
  { state with validators := Function.update state.validators num phase }

@[simp] theorem State.withMiner_phase (state : State n) (thread other : Nat) (phase : MinerPhase n)
    (blockNumber : Nat) : ((state.withMiner thread phase blockNumber).miners other).phase =
      if other = thread then phase else (state.miners other).phase := by
  by_cases same : other = thread
  · subst same
    simp [State.withMiner]
  · simp [State.withMiner, same]

@[simp] theorem State.withValidator_validators (state : State n) (num other : Nat)
    (phase : ValidatorPhase n) : (state.withValidator num phase).validators other =
      if other = num then phase else state.validators other := by
  simp [State.withValidator, Function.update_apply]

section

variable (state : State n) (thread : Nat) (phase : MinerPhase n) (blockNumber : Nat)

@[simp] theorem State.withMiner_pool : (state.withMiner thread phase blockNumber).pool = state.pool := rfl

@[simp] theorem State.withMiner_ledger : (state.withMiner thread phase blockNumber).ledger = state.ledger := rfl

@[simp] theorem State.withMiner_pipe : (state.withMiner thread phase blockNumber).pipe = state.pipe := rfl

@[simp] theorem State.withMiner_validators :
    (state.withMiner thread phase blockNumber).validators = state.validators := rfl

@[simp] theorem State.withMiner_txNumbers :
    (state.withMiner thread phase blockNumber).txNumbers = state.txNumbers := rfl

end

@[simp] theorem State.withValidator_ledger (state : State n) (num : Nat) (phase : ValidatorPhase n) :
    (state.withValidator num phase).ledger = state.ledger := rfl

/-- The choices of a run: which process takes its next step, and what `rand`,
`time`, uninitialised memory and failing system calls give it. -/
inductive Event where
  | insert (gen : Nat) (stack : CharArray txIdLen) (rand : Nat) (now : Int64)
  | pollPool (thread : Nat)
  | pollLedger (thread : Nat)
  | select (thread : Nat) (rands : List Nat)
  | readTip (thread : Nat)
  | mine (thread : Nat) (now : Int64)
  | write (thread : Nat) (pointer : UInt64)
  | abandon (thread : Nat)
  | start (num : Nat)
  | genesis (num : Nat)
  | read (num : Nat) (residue : List UInt8)
  | examine (num : Nat)
  | poolPhase (num : Nat)
  | ledgerPhase (num : Nat) (now : Int64)
  | report (num : Nat)
  | leave (num : Nat)
  | kill (num : Nat)
deriving DecidableEq

def Event.thread? : Event → Option Nat
  | .pollPool thread | .pollLedger thread | .select thread _ | .readTip thread | .mine thread _
  | .write thread _ | .abandon thread => some thread
  | _ => none

def Event.validator? : Event → Option Nat
  | .start num | .genesis num | .read num _ | .examine num | .poolPhase num | .ledgerPhase num _
  | .report num | .leave num | .kill num => some num
  | _ => none

section

variable (setup : Setup) (state : State setup.txs)

def newTransaction (gen : Nat) (stack : CharArray txIdLen) (rand : Nat) (now : Int64) :
    PendingTransaction :=
  let args := setup.txGens gen
  generateTransaction args.pid (state.txNumbers gen) args.reward stack rand now

def stepInsert (gen : Nat) (stack : CharArray txIdLen) (rand : Nat) (now : Int64) : State setup.txs :=
  let new := newTransaction setup state gen stack rand now
  match insertTransaction state.pool new with
  | .added _ pool =>
      { state with
        pool
        txNumbers := Function.update state.txNumbers gen (state.txNumbers gen + 1)
        issued := state.issued ++ [new.tx] }
  | .noSlot | .full => state

/-- The first read of `count`, after `sem_timedwait` returned for whatever
reason. The threads are numbered from 1. -/
def stepPollPool (thread : Nat) : Option (State setup.txs) :=
  match (state.miners thread).phase with
  | .waiting =>
      if 1 ≤ thread ∧ thread ≤ setup.cfg.numMiners then
        some (state.withMiner thread (.polled state.pool.count))
      else none
  | _ => none

/-- The first read of the ledger's `count` and the early `break`. -/
def stepPollLedger (thread : Nat) : Option (State setup.txs) :=
  match (state.miners thread).phase with
  | .polled txCount =>
      if txCount.toNat < setup.txs ∨ setup.cfg.blockchainBlocks ≤ state.ledger.count then
        some (state.withMiner thread .waiting)
      else some (state.withMiner thread .ready)
  | _ => none

def stepSelect (thread : Nat) (rands : List Nat) : Option (State setup.txs) :=
  match (state.miners thread).phase with
  | .ready =>
      match selectTransactions state.pool setup.txs rands with
      | some selected =>
          if enough : selected.length = setup.txs then
            some (state.withMiner thread (.selected ⟨selected, enough⟩ state.ledger.count))
          else some (state.withMiner thread .waiting)
      | none => none
  | _ => none

def stepReadTip (thread : Nat) : Option (State setup.txs) :=
  match (state.miners thread).phase with
  | .selected txs countAtSelection =>
      if state.ledger.count < setup.cfg.blockchainBlocks then
        let blockNumber := (state.miners thread).blockNumber
        let block := buildBlock thread blockNumber state.ledger.lastBlockHash txs
        some (state.withMiner thread (.mining block ⟨countAtSelection, state.ledger.count⟩)
          (blockNumber + 1))
      else some (state.withMiner thread .finished)
  | _ => none

/-- One round of the loop around `proof_of_work`; `stop_threads` is never set. -/
def stepMine (thread : Nat) (now : Int64) : Option (State setup.txs) :=
  match (state.miners thread).phase with
  | .mining block history =>
      let (block, result) := proofOfWork setup.sha256 { block with timestamp := now }
      if result.error = 1 then some (state.withMiner thread (.mining block history))
      else some (state.withMiner thread (.mined block history))
  | _ => none

def stepWrite (thread : Nat) (pointer : UInt64) : Option (State setup.txs) :=
  match (state.miners thread).phase with
  | .mined block history =>
      some { state.withMiner thread .waiting with
        pipe := state.pipe ++ [⟨minerFrame pointer block, history⟩] }
  | _ => none

/-- An allocation or the `write` fails and the round ends without a block. -/
def stepAbandon (thread : Nat) : Option (State setup.txs) :=
  match (state.miners thread).phase with
  | .ready | .mined _ _ => some (state.withMiner thread .waiting)
  | _ => none

/-- The controller forks validator 1 once; the launcher forks the others, and
again once they have ended. -/
def stepStart (num : Nat) : Option (State setup.txs) :=
  if 1 ≤ num ∧ num ≤ setup.maxValidators then
    match state.validators num with
    | .absent => some (state.withValidator num .starting)
    | .exited => if num = 1 then none else some (state.withValidator num .starting)
    | _ => none
  else none

/-- The first section of a validator. A failed proof of work ends the process
with `sem_ledger` still taken, after which no ledger section runs at all; such
runs stop here. -/
def stepGenesis (num : Nat) : Option (State setup.txs) :=
  match state.validators num with
  | .starting =>
      if state.ledger.count = 0 then
        (createGenesis setup.sha256 state.ledger).map fun ledger =>
          { state.withValidator num .reading with ledger }
      else some (state.withValidator num .reading)
  | _ => none

def stepRead (num : Nat) (residue : List UInt8) : Option (State setup.txs) :=
  match state.validators num, state.pipe with
  | .reading, frame :: pipe =>
      match decodeFrame setup.txs residue frame.bytes with
      | some block => some { state.withValidator num (.received block frame.history) with pipe }
      | none => some { state.withValidator num .exited with pipe }
  | _, _ => none

def stepExamine (num : Nat) : Option (State setup.txs) :=
  match state.validators num with
  | .received block history =>
      if verifyNonce setup.sha256 block ∧ onTip state.ledger block then
        some (state.withValidator num (.checked block history))
      else some (state.withValidator num (.rejecting block))
  | _ => none

def stepPoolPhase (num : Nat) : Option (State setup.txs) :=
  match state.validators num with
  | .checked block history =>
      match poolPhase state.pool block with
      | some pool => some { state.withValidator num (.accepted block history) with pool }
      | none => some (state.withValidator num (.rejecting block))
  | _ => none

/-- The hash, the double check, and the insertion; a block that fails the
double check is dropped, and the loop continues. -/
def stepLedgerPhase (num : Nat) (now : Int64) : Option (State setup.txs) :=
  match state.validators num with
  | .accepted block _ =>
      let hash := computeSha256 setup.sha256 block
      if onTip state.ledger block then
        some { state.withValidator num (.inserted block (state.ledger.lastBlockIndex + 1) now) with
          ledger := appendBlock state.ledger block hash }
      else some (state.withValidator num .reading)
  | _ => none

/-- The message to statistics, after which the next block is read. -/
def stepReport (num : Nat) : Option (State setup.txs) :=
  match state.validators num with
  | .rejecting _ | .inserted _ _ _ => some (state.withValidator num .reading)
  | _ => none

/-- A `break` out of the loop: the pipe is closed or an allocation failed. -/
def stepLeave (num : Nat) : Option (State setup.txs) :=
  match state.validators num with
  | .reading | .received _ _ | .checked _ _ | .rejecting _ => some (state.withValidator num .exited)
  | _ => none

/-- SIGTERM between two sections: the handler ends the process. -/
def stepKill (num : Nat) : Option (State setup.txs) :=
  match state.validators num with
  | .absent | .exited => none
  | _ => some (state.withValidator num .exited)

end

def step (setup : Setup) (state : State setup.txs) : Event → Option (State setup.txs)
  | .insert gen stack rand now => some (stepInsert setup state gen stack rand now)
  | .pollPool thread => stepPollPool setup state thread
  | .pollLedger thread => stepPollLedger setup state thread
  | .select thread rands => stepSelect setup state thread rands
  | .readTip thread => stepReadTip setup state thread
  | .mine thread now => stepMine setup state thread now
  | .write thread pointer => stepWrite setup state thread pointer
  | .abandon thread => stepAbandon setup state thread
  | .start num => stepStart setup state num
  | .genesis num => stepGenesis setup state num
  | .read num residue => stepRead setup state num residue
  | .examine num => stepExamine setup state num
  | .poolPhase num => stepPoolPhase setup state num
  | .ledgerPhase num now => stepLedgerPhase setup state num now
  | .report num => stepReport setup state num
  | .leave num => stepLeave setup state num
  | .kill num => stepKill setup state num

/-- A run of the system: the steps it took, each with the state it was taken in. -/
abbrev SystemRun (setup : Setup) (trace : List (State setup.txs × Event)) (final : State setup.txs) :
    Prop :=
  Run (step setup) (State.initial setup) trace final

/-- Generators of reward 1, two threads, one transaction a block. -/
def smallSetup : Setup where
  cfg := { numMiners := 2, transactionPoolSize := 3, transactionsPerBlock := 1, blockchainBlocks := 4 }
  sha256 := checksum
  txGens := fun gen => { pid := gen, reward := 1 }

def pairSetup : Setup where
  cfg := { numMiners := 1, transactionPoolSize := 2, transactionsPerBlock := 2, blockchainBlocks := 3 }
  sha256 := checksum
  txGens := fun gen => { pid := gen, reward := 1 }

def singleSetup : Setup where
  cfg := { numMiners := 1, transactionPoolSize := 1, transactionsPerBlock := 1, blockchainBlocks := 6 }
  sha256 := checksum
  txGens := fun _ => { pid := 4242, reward := 1 }

/-- One slot for transactions that are only taken in pairs. -/
def starvedConfig : Config where
  numMiners := 1
  transactionPoolSize := 1
  transactionsPerBlock := 2
  blockchainBlocks := 2

/-- A pool of 2^32 + 64 bytes. -/
def wideConfig : Config where
  numMiners := 1
  transactionPoolSize := 48806447
  transactionsPerBlock := 1
  blockchainBlocks := 2

/-- Generators that all had the same process id, one after the other. -/
def checksumSetup (cfg : Config) : Setup where
  cfg := cfg
  sha256 := checksum
  txGens := fun _ => { pid := 4242, reward := 1 }

def insertEvent (gen : Nat) : Event := .insert gen (zeroArray txIdLen) 5 7

def mineEvents (thread : Nat) (rands : List Nat) : List Event :=
  [.pollPool thread, .pollLedger thread, .select thread rands, .readTip thread, .mine thread 0,
    .write thread 0]

def validateEvents (num : Nat) : List Event :=
  [.read num [], .examine num, .poolPhase num, .ledgerPhase num 0, .report num]

/-- Two blocks of two transactions each. -/
def pairEvents : List Event :=
  [.start 1, .genesis 1] ++ [[0, 1], [1, 0]].flatMap fun rands =>
    [insertEvent 1, insertEvent 2] ++ mineEvents 1 rands ++ validateEvents 1

theorem all_of_events {setup : Setup} {trace : List (State setup.txs × Event)} {events : List Event}
    (check : Event → Bool) (recorded : trace.map Prod.snd = events) (checked : events.all check = true) :
    ∀ entry ∈ trace, check entry.2 = true := by
  intro entry member
  exact List.all_eq_true.mp checked _ (recorded ▸ List.mem_map_of_mem member)

def firstBlockEvents : List Event :=
  [insertEvent 1, insertEvent 2, .start 1, .genesis 1] ++ mineEvents 1 [0] ++ validateEvents 1

theorem firstBlock_executes :
    (exec (step smallSetup) (State.initial smallSetup) firstBlockEvents).isSome = true := by
  decide +kernel

/-- A genesis block, a block with one transaction, and a transaction in the pool. -/
def firstBlock : State smallSetup.txs := (exec _ _ _).get firstBlock_executes

theorem firstBlock_run :
    ∃ trace, SystemRun smallSetup trace firstBlock ∧ trace.map Prod.snd = firstBlockEvents :=
  exec_run_get firstBlock_executes

end DeiChain
