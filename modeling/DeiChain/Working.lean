import DeiChain.Data.Decimal
import DeiChain.Selection
import DeiChain.Snapshot

namespace DeiChain

open Data Systems

/-! # Configurations that can work

Runs in which every system call succeeds, over segments that are as long as
`main` makes them: their sizes are computed in `size_t`, where they may wrap,
and kept in an `int`, which takes the same low bits.
-/

def sizeofPendingTransaction : Nat := 4 + 4 + sizeofTransaction
def sizeofTransactionPoolSHM : Nat := 4 * 4 + 8
def sizeofTransactionBlockSHM : Nat := 160
def sizeofLedgerSHM : Nat := 88

section

variable (cfg : Config)

def poolBytes : Nat := sizeofTransactionPoolSHM + cfg.transactionPoolSize * sizeofPendingTransaction

def ledgerBytes (blocks : Nat) : Nat :=
  sizeofLedgerSHM + blocks * sizeofTransactionBlockSHM +
    blocks * cfg.transactionsPerBlock * sizeofTransaction

def shmTransactionspoolSize : Int := intOfSizeT (poolBytes cfg)

def shmLedgerSize : Int := intOfSizeT (ledgerBytes cfg cfg.blockchainBlocks)

/-- The calls of a step succeed and what it touches is mapped: a `read` gets the
whole frame, which is never more than the pipe holds; the aging loop goes over
the whole pool; an insertion writes a whole block. The segments of other steps
are not looked at. -/
def works (pipeSize : Nat) (state : State cfg.transactionsPerBlock) : Event → Bool
  | .read _ _ => maxBlockSize cfg.transactionsPerBlock ≤ pipeSize
  | .poolPhase _ => (poolBytes cfg : Int) ≤ shmTransactionspoolSize cfg
  | .ledgerPhase _ _ => (ledgerBytes cfg (state.ledger.lastBlockIndex + 2) : Int) ≤ shmLedgerSize cfg
  | .abandon _ | .leave _ | .kill _ => false
  | _ => true

end

/-- A run in which every step works. -/
abbrev WorkingRun (setup : Setup) (pipeSize : Nat) (trace : List (State setup.txs × Event))
    (final : State setup.txs) : Prop :=
  Run (guarded (step setup) (works setup.cfg pipeSize)) (State.initial setup) trace final

/-- The transactions of a block fit the pool, its frame the pipe, and the sizes
of the two segments an `int`. -/
structure Config.Workable (cfg : Config) (pipeSize : Nat) : Prop where
  transactions : cfg.transactionsPerBlock ≤ cfg.transactionPoolSize
  frame : maxBlockSize cfg.transactionsPerBlock ≤ pipeSize
  pool : poolBytes cfg < 2 ^ 31
  ledger : ledgerBytes cfg cfg.blockchainBlocks < 2 ^ 31

theorem intOfSizeT_lt (size : Nat) : intOfSizeT size < 2 ^ 31 := by
  unfold intOfSizeT
  rw [Int.bmod_def]
  split <;> omega

theorem le_intOfSizeT_iff (size : Nat) : (size : Int) ≤ intOfSizeT size ↔ size < 2 ^ 31 := by
  constructor
  · intro fits
    have bound := intOfSizeT_lt size
    omega
  · intro bound
    rw [intOfSizeT_of_lt bound]

theorem works_poolPhase {cfg : Config} {pipeSize : Nat} {state : State cfg.transactionsPerBlock} {num : Nat} :
    works cfg pipeSize state (.poolPhase num) = true ↔ poolBytes cfg < 2 ^ 31 := by
  rw [works, decide_eq_true_iff, shmTransactionspoolSize, le_intOfSizeT_iff]

theorem works_ledgerPhase {cfg : Config} {pipeSize : Nat} {state : State cfg.transactionsPerBlock}
    {num : Nat} {now : Int64} : works cfg pipeSize state (.ledgerPhase num now) = true ↔
      (ledgerBytes cfg (state.ledger.lastBlockIndex + 2) : Int) ≤ shmLedgerSize cfg := by
  rw [works, decide_eq_true_iff]

theorem ledgerBytes_mono (cfg : Config) {fewer more : Nat} (le : fewer ≤ more) :
    ledgerBytes cfg fewer ≤ ledgerBytes cfg more := by
  unfold ledgerBytes
  gcongr

section

variable {setup : Setup} {pipeSize : Nat} {before after final : State setup.txs} {event : Event}
  {trace : List (State setup.txs × Event)}

theorem WorkingRun.system (run : WorkingRun setup pipeSize trace final) : SystemRun setup trace final :=
  run.of_guarded.1

theorem guarded_step (taken : guarded (step setup) (works setup.cfg pipeSize) before event = some after) :
    works setup.cfg pipeSize before event = true ∧ Transition setup before event after := by
  rw [guarded] at taken
  split at taken
  · rename_i works
    exact ⟨works, step_transition taken⟩
  · cases taken

/-- A validator comes to a block by reading it from the pipe. -/
theorem Transition.streamed (taken : Transition setup before event after) {num : Nat}
    {block : TransactionBlock setup.txs} {history : History}
    (streamed : (after.validators num).Streamed block history) :
    (before.validators num).Streamed block history ∨
      (∃ residue, event = .read num residue) ∧ before.pipe ≠ [] := by
  have move := taken.validator num
  generalize arrived : after.validators num = phase at move streamed
  cases move with
  | kept same => exact .inl (same ▸ streamed)
  | took reading member => exact .inr ⟨taken.received_read reading arrived, List.ne_nil_of_mem member⟩
  | approved received =>
      rcases streamed with same | same | same <;> cases same
      exact .inl (.inl received)
  | removed own checked =>
      rcases streamed with same | same | same <;> cases same
      exact .inl (.inr (.inl checked))
  | _ => rcases streamed with same | same | same <;> cases same

/-- Without a block to insert there is at most the genesis block. -/
theorem Transition.count_le_one (taken : Transition setup before event after)
    (idle : ∀ num block history, before.validators num ≠ .accepted block history)
    (few : before.ledger.count ≤ 1) : after.ledger.count ≤ 1 := by
  rcases taken.ledger with same | ⟨_, _, _, genesis⟩ | ⟨num, _, block, history, _, accepted, _, _⟩
  · exact same ▸ few
  · exact Nat.le_of_eq (createGenesis_count genesis)
  · exact absurd accepted (idle num block history)

/-- No block was ever started. -/
structure Barren (state : State setup.txs) : Prop where
  miners : ∀ thread, (state.miners thread).phase.EmptyHanded
  pipe : state.pipe = []
  validators : ∀ num block history, ¬ (state.validators num).Streamed block history
  count : state.ledger.count ≤ 1

theorem select_short {pool : TransactionPool} {size : Nat} {rands : List Nat}
    (sound : pool.Sound size) {count : Nat} (positive : 1 ≤ count) (short : size < count)
    (txs : List.Vector Transaction count) : selectTransactions pool count rands ≠ some txs.toList := by
  have low := sound.consistent.count_le
  rw [sound.sized] at low
  rw [selectTransactions, if_neg (by omega)]
  intro same
  have length := congrArg List.length (Option.some.inj same)
  rw [txs.toList_length, List.length_nil] at length
  omega

theorem Barren.miner (barren : Barren before) (sound : before.pool.Sound setup.cfg.transactionPoolSize)
    (short : setup.cfg.transactionPoolSize < setup.txs) {thread : Nat} {phase : MinerPhase setup.txs}
    (move : MinerMove setup before after thread phase) : phase.EmptyHanded := by
  have idle := barren.miners thread
  cases move with
  | kept same => exact same ▸ idle
  | rested empty => exact empty
  | selected chosen => exact absurd chosen (select_short sound setup.cfg.transactionsPositive short _)
  | drafted held | retried held | solved held =>
      rw [held] at idle
      cases idle

theorem Barren.step (barren : Barren before) (sound : before.pool.Sound setup.cfg.transactionPoolSize)
    (short : setup.cfg.transactionPoolSize < setup.txs) (taken : Transition setup before event after) :
    Barren after where
  miners thread := barren.miner sound short (taken.miner thread)
  pipe := by
    rw [List.eq_nil_iff_forall_not_mem]
    intro frame member
    rcases taken.pipe member with old | ⟨thread, _, _, held, _⟩
    · rw [barren.pipe] at old
      cases old
    · have idle := barren.miners thread
      rw [held] at idle
      cases idle
  validators num block history streamed := by
    rcases taken.streamed streamed with earlier | ⟨_, frames⟩
    · exact barren.validators num block history earlier
    · exact frames barren.pipe
  count := taken.count_le_one
    (fun num block history accepted => barren.validators num block history (.inr (.inr accepted)))
    barren.count

theorem SystemRun.barren (run : SystemRun setup trace final)
    (short : setup.cfg.transactionPoolSize < setup.txs) : Barren final := by
  induction run with
  | nil =>
      refine ⟨fun _ => trivial, rfl, ?_, Nat.zero_le 1⟩
      intro num block history streamed
      rcases streamed with streamed | streamed | streamed <;> cases streamed
  | snoc earlier taken ih => exact ih.step (SystemRun.pool_sound earlier) short (step_transition taken)

/-- No read gets a frame that is larger than the pipe. -/
theorem WorkingRun.unread (run : WorkingRun setup pipeSize trace final)
    (large : pipeSize < maxBlockSize setup.txs) :
    (∀ num block history, ¬ (final.validators num).Streamed block history) ∧ final.ledger.count ≤ 1 := by
  induction run with
  | nil =>
      refine ⟨?_, Nat.zero_le 1⟩
      intro num block history streamed
      rcases streamed with streamed | streamed | streamed <;> cases streamed
  | snoc earlier taken ih =>
      obtain ⟨working, transition⟩ := guarded_step taken
      refine ⟨fun num block history streamed => ?_, transition.count_le_one ?_ ih.2⟩
      · rcases transition.streamed streamed with before | ⟨⟨residue, rfl⟩, _⟩
        · exact ih.1 num block history before
        · exact absurd (of_decide_eq_true working) (Nat.not_le.mpr large)
      · exact fun num block history accepted => ih.1 num block history (.inr (.inr accepted))

/-- No pool phase ends well over a segment that is too short for the pool. -/
theorem WorkingRun.unaccepted (run : WorkingRun setup pipeSize trace final)
    (wide : 2 ^ 31 ≤ poolBytes setup.cfg) :
    (∀ num block history, final.validators num ≠ .accepted block history) ∧ final.ledger.count ≤ 1 := by
  induction run with
  | nil => exact ⟨by simp [State.initial], Nat.zero_le 1⟩
  | snoc earlier taken ih =>
      obtain ⟨working, transition⟩ := guarded_step taken
      refine ⟨fun num block history accepted => ?_, transition.count_le_one ih.1 ih.2⟩
      have move := transition.validator num
      rw [accepted] at move
      cases move with
      | kept same => exact ih.1 num block history same
      | removed own =>
          subst own
          exact absurd (works_poolPhase.mp working) (Nat.not_lt.mpr wide)

/-- The last block does not fit a ledger segment that is too short. -/
theorem WorkingRun.below (run : WorkingRun setup pipeSize trace final)
    (wide : 2 ^ 31 ≤ ledgerBytes setup.cfg setup.cfg.blockchainBlocks) :
    final.ledger.count < setup.cfg.blockchainBlocks := by
  have two := setup.cfg.twoBlocks
  induction run with
  | nil => exact Nat.lt_of_lt_of_le Nat.zero_lt_two two
  | @snoc _ before _ after earlier taken ih =>
      obtain ⟨working, transition⟩ := guarded_step taken
      rcases transition.ledger with same | ⟨_, _, _, genesis⟩ | ⟨num, now, _, _, rfl, _, _, same⟩
      · exact same ▸ ih
      · rw [createGenesis_count genesis]
        exact two
      · have index := (SystemRun.chain (WorkingRun.system earlier)).chained.index
        have fits := works_ledgerPhase.mp working
        have bound := intOfSizeT_lt (ledgerBytes setup.cfg setup.cfg.blockchainBlocks)
        rw [shmLedgerSize] at fits
        rw [same]
        change before.ledger.count + 1 < setup.cfg.blockchainBlocks
        by_contra last
        have reaches : setup.cfg.blockchainBlocks ≤ before.ledger.lastBlockIndex + 2 := by omega
        have enough := ledgerBytes_mono setup.cfg reaches
        omega

theorem WorkingRun.count_lt (run : WorkingRun setup pipeSize trace final)
    (unworkable : ¬ setup.cfg.Workable pipeSize) : final.ledger.count < setup.cfg.blockchainBlocks := by
  have two := setup.cfg.twoBlocks
  by_cases transactions : setup.txs ≤ setup.cfg.transactionPoolSize
  · by_cases frame : maxBlockSize setup.txs ≤ pipeSize
    · by_cases pool : poolBytes setup.cfg < 2 ^ 31
      · refine run.below (Nat.le_of_not_lt fun ledger => ?_)
        exact unworkable ⟨transactions, frame, pool, ledger⟩
      · exact Nat.lt_of_le_of_lt (run.unaccepted (Nat.le_of_not_lt pool)).2 two
    · exact Nat.lt_of_le_of_lt (run.unread (Nat.lt_of_not_le frame)).2 two
  · exact Nat.lt_of_le_of_lt (run.system.barren (Nat.lt_of_not_le transactions)).count two

abbrev WorkingReaches (setup : Setup) (pipeSize : Nat) :=
  Reaches (guarded (step setup) (works setup.cfg pipeSize))

theorem reaches_next {start : State setup.txs} (working : works setup.cfg pipeSize before event = true)
    (taken : step setup before event = some after) (reached : WorkingReaches setup pipeSize start before) :
    WorkingReaches setup pipeSize start after := by
  have passed : guarded (step setup) (works setup.cfg pipeSize) before event = some after := by
    rw [guarded, if_pos working, taken]
  exact Reaches.next reached passed

/-- A frame on its way: the block a thread made on the newest hash. -/
structure Offered (setup : Setup) (ledger : Ledger setup.txs) (txs : List.Vector Transaction setup.txs)
    (frame : Frame) (block : TransactionBlock setup.txs) : Prop where
  bytes : frame.bytes = minerFrame 0 block
  transactions : block.transactions = txs
  names : block.previousBlockHash = ledger.lastBlockHash
  verified : verifyNonce setup.sha256 block = true

/-- Thread 1 takes these transactions to the pipe. -/
theorem mining_reaches (success : ∀ block : TransactionBlock setup.txs,
      (proofOfWork setup.sha256 block).2.error = 0)
    (padded : ZeroPadded before.ledger.lastBlockHash) {rands : List Nat}
    {txs : List.Vector Transaction setup.txs}
    (waiting : (before.miners 1).phase = .waiting) (enough : setup.txs ≤ before.pool.count.toNat)
    (room : before.ledger.count < setup.cfg.blockchainBlocks)
    (chosen : selectTransactions before.pool setup.txs rands = some txs.toList) :
    ∃ after frame block, WorkingReaches setup pipeSize before after ∧ after.pool = before.pool ∧
      after.ledger = before.ledger ∧ after.validators = before.validators ∧
      after.txNumbers = before.txNumbers ∧ (after.miners 1).phase = .waiting ∧
      after.pipe = before.pipe ++ [frame] ∧ Offered setup before.ledger txs frame block := by
  let polled := before.withMiner 1 (.polled before.pool.count)
  let ready := polled.withMiner 1 .ready
  let selected := ready.withMiner 1 (.selected txs before.ledger.count)
  let draft :=
    { buildBlock 1 (selected.miners 1).blockNumber before.ledger.lastBlockHash txs with timestamp := 0 }
  let history : History := ⟨before.ledger.count, before.ledger.count⟩
  let mining := selected.withMiner 1 (.mining draft history) ((selected.miners 1).blockNumber + 1)
  obtain ⟨outcome, found⟩ : ∃ outcome, proofOfWork setup.sha256 draft = outcome := ⟨_, rfl⟩
  have solved := success draft
  have verified := (proofOfWork_success solved).2
  obtain ⟨nonce, left⟩ := proofOfWork_block setup.sha256 draft
  rw [found] at solved verified left
  let mined := mining.withMiner 1 (.mined outcome.1 history)
  let after : State setup.txs := { mined.withMiner 1 .waiting with
    pipe := mined.pipe ++ [⟨minerFrame 0 outcome.1, history⟩] }
  have poll : step setup before (.pollPool 1) = some polled := by
    simp [step, stepPollPool, waiting, setup.cfg.minersPositive, polled]
  have pollLedger : step setup polled (.pollLedger 1) = some ready := by
    have stays : ¬ (before.pool.count.toNat < setup.txs ∨ setup.cfg.blockchainBlocks ≤ before.ledger.count) := by
      omega
    simp [step, stepPollLedger, polled, ready, stays, State.withMiner]
  have select : step setup ready (.select 1 rands) = some selected := by
    have phase : (ready.miners 1).phase = .ready := by simp [ready]
    have same : ready.pool = before.pool := rfl
    simp only [step, stepSelect, phase, same, chosen]
    rw [dif_pos txs.toList_length]
    rfl
  have readTip : step setup selected (.readTip 1) = some mining := by
    have phase : (selected.miners 1).phase = .selected txs before.ledger.count := by simp [selected]
    have same : selected.ledger = before.ledger := rfl
    simp only [step, stepReadTip, phase, same, if_pos room]
    rfl
  have mine : step setup mining (.mine 1 0) = some mined := by
    have phase : (mining.miners 1).phase = .mining draft history := by simp [mining]
    have same : { draft with timestamp := 0 } = draft := rfl
    simp only [step, stepMine, phase, same, found, solved]
    rfl
  have write : step setup mined (.write 1 0) = some after := by
    have phase : (mined.miners 1).phase = .mined outcome.1 history := by simp [mined]
    simp only [step, stepWrite, phase]
    rfl
  have reached : WorkingReaches setup pipeSize before after :=
    reaches_next rfl write <| reaches_next rfl mine <| reaches_next rfl readTip <|
      reaches_next rfl select <| reaches_next rfl pollLedger <| reaches_next rfl poll (.refl before)
  have names : draft.previousBlockHash = before.ledger.lastBlockHash := buildBlock_previousBlockHash padded
  have rested : (after.miners 1).phase = .waiting := by simp [after]
  have kept : after.pool = before.pool ∧ after.ledger = before.ledger ∧
      after.validators = before.validators ∧ after.txNumbers = before.txNumbers ∧
      after.pipe = before.pipe ++ [⟨minerFrame 0 outcome.1, history⟩] := by
    simp [after, mined, mining, selected, ready, polled]
  obtain ⟨pool, ledger, validators, txNumbers, pipe⟩ := kept
  refine ⟨after, _, outcome.1, reached, pool, ledger, validators, txNumbers, rested, pipe, ?_⟩
  refine ⟨rfl, ?_, ?_, verified⟩
  · exact congrArg TransactionBlock.transactions left
  · exact (congrArg TransactionBlock.previousBlockHash left).trans names

/-- Validator 1 takes the frame out of the pipe and its block to the ledger. -/
theorem validating_reaches (workable : setup.cfg.Workable pipeSize) {frame : Frame}
    {txs : List.Vector Transaction setup.txs} {block : TransactionBlock setup.txs} {pool : TransactionPool}
    (index : before.ledger.lastBlockIndex + 1 = before.ledger.count)
    (room : before.ledger.count < setup.cfg.blockchainBlocks)
    (reading : before.validators 1 = .reading) (pipe : before.pipe = [frame])
    (offered : Offered setup before.ledger txs frame block) (passed : poolPhase before.pool block = some pool) :
    ∃ after, WorkingReaches setup pipeSize before after ∧ after.pool = pool ∧
      after.ledger.count = before.ledger.count + 1 ∧ after.miners = before.miners ∧
      after.txNumbers = before.txNumbers ∧ after.validators 1 = .reading ∧ after.pipe = [] := by
  let received : State setup.txs := { before.withValidator 1 (.received block frame.history) with pipe := [] }
  let checked := received.withValidator 1 (.checked block frame.history)
  let accepted : State setup.txs := { checked.withValidator 1 (.accepted block frame.history) with pool }
  let inserted : State setup.txs :=
    { accepted.withValidator 1 (.inserted block (before.ledger.lastBlockIndex + 1) 0) with
      ledger := appendBlock before.ledger block (computeSha256 setup.sha256 block) }
  let after := inserted.withValidator 1 .reading
  have tip : onTip before.ledger block = true := by
    rw [onTip, offered.names]
    simp [samePrefix]
  have fits : (ledgerBytes setup.cfg (before.ledger.lastBlockIndex + 2) : Int) ≤ shmLedgerSize setup.cfg := by
    have inside : before.ledger.lastBlockIndex + 2 ≤ setup.cfg.blockchainBlocks := by omega
    have most := ledgerBytes_mono setup.cfg inside
    have whole := (le_intOfSizeT_iff _).mpr workable.ledger
    rw [shmLedgerSize]
    omega
  have read : step setup before (.read 1 []) = some received := by
    have decoded : decodeFrame setup.txs [] frame.bytes = some block := by
      rw [offered.bytes]
      exact decodeFrame_minerFrame setup.cfg.maxBlockSize_lt 0 [] block
    simp only [step, stepRead, reading, pipe, decoded]
    rfl
  have examine : step setup received (.examine 1) = some checked := by
    have phase : received.validators 1 = .received block frame.history := by simp [received]
    have same : received.ledger = before.ledger := rfl
    simp only [step, stepExamine, phase, same, offered.verified, tip, and_self, if_true]
    rfl
  have remove : step setup checked (.poolPhase 1) = some accepted := by
    have phase : checked.validators 1 = .checked block frame.history := by simp [checked]
    have same : checked.pool = before.pool := rfl
    simp only [step, stepPoolPhase, phase, same, passed]
    rfl
  have insert : step setup accepted (.ledgerPhase 1 0) = some inserted := by
    have phase : accepted.validators 1 = .accepted block frame.history := by simp [accepted]
    have same : accepted.ledger = before.ledger := rfl
    simp only [step, stepLedgerPhase, phase, same, tip, if_true]
    rfl
  have report : step setup inserted (.report 1) = some after := by
    have phase : inserted.validators 1 = .inserted block (before.ledger.lastBlockIndex + 1) 0 := by
      simp [inserted]
    simp only [step, stepReport, phase]
    rfl
  have readable : works setup.cfg pipeSize before (.read 1 []) = true := decide_eq_true workable.frame
  have removable : works setup.cfg pipeSize checked (.poolPhase 1) = true := works_poolPhase.mpr workable.pool
  have insertable : works setup.cfg pipeSize accepted (.ledgerPhase 1 0) = true := works_ledgerPhase.mpr fits
  have reached : WorkingReaches setup pipeSize before after :=
    reaches_next rfl report <| reaches_next insertable insert <| reaches_next removable remove <|
      reaches_next rfl examine <| reaches_next readable read (.refl before)
  exact ⟨after, reached, rfl, rfl, rfl, rfl, by simp [after], rfl⟩

/-- The `number`th transaction of a generator. -/
def slotOf (setup : Setup) (gen number : Nat) : PendingTransaction :=
  generateTransaction (setup.txGens gen).pid number (setup.txGens gen).reward (zeroArray txIdLen) 5 7

/-- A generator that was idle has filled the first slots of an empty pool. -/
structure Filling (setup : Setup) (gen : Nat) (base : State setup.txs) (filled : Nat)
    (state : State setup.txs) : Prop where
  slots : ∀ j : Nat, state.pool.transactions[j]? =
    if j < filled then some (slotOf setup gen j) else base.pool.transactions[j]?
  size : state.pool.size = base.pool.size
  count : state.pool.count.toNat = filled
  numbers : state.txNumbers = Function.update base.txNumbers gen filled
  ledger : state.ledger = base.ledger
  pipe : state.pipe = base.pipe
  miners : state.miners = base.miners
  validators : state.validators = base.validators

theorem Filling.insert {gen filled : Nat} {base : State setup.txs}
    (filling : Filling setup gen base filled before) (sized : base.pool.size = setup.cfg.transactionPoolSize)
    (room : filled < setup.cfg.transactionPoolSize)
    (empty : ∀ slot ∈ base.pool.transactions, slot.filled = 0) :
    ∃ after, step setup before (insertEvent gen) = some after ∧ Filling setup gen base (filled + 1) after := by
  have bound : filled < before.pool.size := by
    rw [filling.size, sized]
    exact room
  have number : before.txNumbers gen = filled := by rw [filling.numbers, Function.update_self]
  have new : newTransaction setup before gen (zeroArray txIdLen) 5 7 = slotOf setup gen filled := by
    rw [newTransaction, number]
    rfl
  have found : before.pool.transactions.findIdx? (fun slot => slot.filled == 0) = some filled := by
    rw [List.findIdx?_eq_some_iff_getElem]
    refine ⟨bound, ?_, fun j below => ?_⟩
    · have value := filling.slots filled
      rw [if_neg (Nat.lt_irrefl filled), List.getElem?_eq_getElem bound] at value
      simpa using empty _ (List.mem_of_getElem? value.symm)
    · have value := filling.slots j
      rw [if_pos below, List.getElem?_eq_getElem (below.trans bound), Option.some.injEq] at value
      simp [value, slotOf, generateTransaction]
  have added : insertTransaction before.pool (slotOf setup gen filled) =
      .added filled ⟨before.pool.count + 1, before.pool.transactions.set filled (slotOf setup gen filled)⟩ := by
    rw [insertTransaction, if_pos (filling.count ▸ bound), found]
  refine ⟨_, rfl, ?_⟩
  rw [stepInsert, new, added]
  refine ⟨fun j => ?_, ?_, ?_, ?_, filling.ledger, filling.pipe, filling.miners, filling.validators⟩
  · rw [List.getElem?_set]
    by_cases here : filled = j
    · subst here
      have inside : filled < before.pool.transactions.length := bound
      rw [if_pos rfl, if_pos inside, if_pos (Nat.lt_succ_self filled)]
    · have same : j < filled + 1 ↔ j < filled := by omega
      rw [if_neg here, filling.slots j]
      simp only [same]
  · exact (List.length_set).trans filling.size
  · have small := setup.cfg.poolSize_lt
    have next : (before.pool.count + 1).toNat = before.pool.count.toNat + 1 := by
      rw [UInt32.toNat_add]
      exact Nat.mod_eq_of_lt (by simp only [filling.count, UInt32.reduceToNat]; omega)
    rw [next, filling.count]
  · rw [number, filling.numbers, Function.update_idem]

theorem filling_reaches {gen : Nat} (sound : before.pool.Sound setup.cfg.transactionPoolSize)
    (empty : ∀ slot ∈ before.pool.transactions, slot.filled = 0) (fresh : before.txNumbers gen = 0)
    (workable : setup.cfg.Workable pipeSize) :
    ∃ after, WorkingReaches setup pipeSize before after ∧ Filling setup gen before setup.txs after := by
  have none : before.pool.count.toNat = 0 := by
    rw [sound.consistent.counted, TransactionPool.filledCount, List.countP_eq_zero]
    intro slot member
    simp [empty slot member]
  have start : Filling setup gen before 0 before := by
    refine ⟨fun j => (if_neg (Nat.not_lt_zero j)).symm, rfl, none, ?_, rfl, rfl, rfl, rfl⟩
    rw [← fresh, Function.update_eq_self]
  refine Reaches.iterate (Filling setup gen before) setup.txs (fun filled state bound filling => ?_) start
  obtain ⟨after, taken, next⟩ := filling.insert sound.sized (Nat.lt_of_lt_of_le bound workable.transactions) empty
  exact ⟨after, reaches_next rfl taken (.refl state), next⟩

theorem Setup.txs_lt (setup : Setup) : setup.txs < 10 ^ 10 :=
  setup.cfg.transactionsInt.trans (by decide)

/-- What `snprintf` writes is short enough not to be cut. -/
theorem slotOf_id {gen number : Nat} (few : number < 10 ^ 10) (low : (setup.txGens gen).pid < 10 ^ 10) :
    (slotOf setup gen number).tx.id = formatTxId (setup.txGens gen).pid number := by
  have pidLength := decimal_length_le (Nat.succ_pos 9) low
  have numberLength := decimal_length_le (Nat.succ_pos 9) few
  have short : (formatTxId (setup.txGens gen).pid number).length ≤ txIdLen - 1 := by
    simp only [formatTxId, List.length_append, List.length_cons, List.length_nil, txIdLen]
    omega
  have written : (slotOf setup gen number).tx.id =
      (formatTxId (setup.txGens gen).pid number).take (txIdLen - 1) :=
    cstr_snprintf _ (fun _ member => formatTxId_nonzero member) (by decide)
  rw [written, List.take_of_length_le short]

theorem formatTxId_injective {pid first second : Nat} (same : formatTxId pid first = formatTxId pid second) :
    first = second :=
  decimal_injective (List.append_cancel_left same)

theorem formatTxId_ne_zero (pid number : Nat) : formatTxId pid number ≠ [48] := by
  simp [formatTxId]

section

variable {gen : Nat} {base : State setup.txs}

/-- A slot that is filled is one of those the generator has filled. -/
theorem Filling.slot (filling : Filling setup gen base setup.txs before)
    (empty : ∀ slot ∈ base.pool.transactions, slot.filled = 0) {j : Nat} {slot : PendingTransaction}
    (at_j : before.pool.transactions[j]? = some slot) (filled : slot.filled ≠ 0) :
    j < setup.txs ∧ slot = slotOf setup gen j := by
  rw [filling.slots] at at_j
  split at at_j
  · rename_i below
    exact ⟨below, (Option.some.inj at_j).symm⟩
  · exact absurd (empty slot (List.mem_of_getElem? at_j)) filled

theorem Filling.distinctIds (filling : Filling setup gen base setup.txs before)
    (empty : ∀ slot ∈ base.pool.transactions, slot.filled = 0) (low : (setup.txGens gen).pid < 10 ^ 10) :
    before.pool.DistinctIds := by
  intro i j first second at_i at_j firstFilled secondFilled same
  obtain ⟨firstBelow, rfl⟩ := filling.slot empty at_i firstFilled
  obtain ⟨secondBelow, rfl⟩ := filling.slot empty at_j secondFilled
  rw [slotOf_id (firstBelow.trans setup.txs_lt) low, slotOf_id (secondBelow.trans setup.txs_lt) low] at same
  exact formatTxId_injective same

/-- Each slot is drawn once. -/
theorem Filling.select (filling : Filling setup gen base setup.txs before)
    (sized : before.pool.size = setup.cfg.transactionPoolSize) (workable : setup.cfg.Workable pipeSize)
    (low : (setup.txGens gen).pid < 10 ^ 10) :
    selectTransactions before.pool setup.txs (List.range setup.txs) =
      some ((List.range setup.txs).map fun j => copyTransaction (slotOf setup gen j).tx) := by
  have hit : ∀ rand ∈ List.range setup.txs,
      before.pool.transactions[rand % before.pool.size]? = some (slotOf setup gen rand) ∧
        (slotOf setup gen rand).tx.id ≠ [48] ∧ (slotOf setup gen rand).filled = 1 := by
    intro rand member
    have below : rand < setup.txs := List.mem_range.mp member
    have inside : rand < before.pool.size := by
      rw [sized]
      exact Nat.lt_of_lt_of_le below workable.transactions
    rw [Nat.mod_eq_of_lt inside, filling.slots, if_pos below, slotOf_id (below.trans setup.txs_lt) low]
    exact ⟨rfl, formatTxId_ne_zero _ _, rfl⟩
  exact selectTransactions_all filling.count.ge List.length_range hit

end

/-- The ledger has `k` blocks and nothing is under way; the generators from
number `k` on have done nothing yet. -/
structure Resting (setup : Setup) (pipeSize k : Nat) (state : State setup.txs) : Prop where
  reached : WorkingReaches setup pipeSize (State.initial setup) state
  count : state.ledger.count = k
  reading : state.validators 1 = .reading
  waiting : (state.miners 1).phase = .waiting
  pipe : state.pipe = []
  empty : ∀ slot ∈ state.pool.transactions, slot.filled = 0
  fresh : ∀ gen, k ≤ gen → state.txNumbers gen = 0

theorem WorkingReaches.system {state : State setup.txs}
    (reached : WorkingReaches setup pipeSize (State.initial setup) state) :
    ∃ trace, SystemRun setup trace state := by
  obtain ⟨trace, run⟩ := reached
  exact ⟨trace, WorkingRun.system run⟩

theorem resting_reaches (success : ∀ block : TransactionBlock setup.txs,
      (proofOfWork setup.sha256 block).2.error = 0) (known : 1 ≤ setup.maxValidators) :
    ∃ state, Resting setup pipeSize 1 state := by
  let starting := (State.initial setup).withValidator 1 .starting
  have start : step setup (State.initial setup) (.start 1) = some starting := by
    simp [step, stepStart, known, State.initial, starting]
  obtain ⟨ledger, genesis⟩ : ∃ ledger, createGenesis setup.sha256 starting.ledger = some ledger := by
    have solved := success (TransactionBlock.zero setup.txs)
    unfold createGenesis
    dsimp only
    rw [if_neg (not_not.mpr solved)]
    exact ⟨_, rfl⟩
  let state : State setup.txs := { starting.withValidator 1 .reading with ledger }
  have create : step setup starting (.genesis 1) = some state := by
    have phase : starting.validators 1 = .starting := by simp [starting]
    have empty : starting.ledger.count = 0 := rfl
    simp only [step, stepGenesis, phase, empty, genesis, if_true]
    rfl
  refine ⟨state, reaches_next rfl create (reaches_next rfl start (.refl _)), createGenesis_count genesis,
    by simp [state], rfl, rfl, ?_, fun _ _ => rfl⟩
  intro slot member
  rw [List.eq_of_mem_replicate member]
  rfl

/-- The block that was made of the whole pool empties it. -/
theorem Filling.emptied {gen : Nat} {base : State setup.txs} (filling : Filling setup gen base setup.txs before)
    (sound : before.pool.Sound setup.cfg.transactionPoolSize)
    (empty : ∀ slot ∈ base.pool.transactions, slot.filled = 0) (low : (setup.txGens gen).pid < 10 ^ 10)
    {block : TransactionBlock setup.txs} {pool : TransactionPool}
    (all : block.transactions.toList =
      (List.range setup.txs).map fun j => copyTransaction (slotOf setup gen j).tx)
    (passed : poolPhase before.pool block = some pool) : ∀ slot ∈ pool.transactions, slot.filled = 0 := by
  intro slot member
  obtain ⟨j, at_j⟩ := List.getElem?_of_mem member
  rw [poolPhase_slots (filling.distinctIds empty low) passed] at at_j
  obtain ⟨old, at_old, rfl⟩ := Option.map_eq_some_iff.mp at_j
  rw [PendingTransaction.aged_filled]
  by_contra left
  obtain ⟨filled, unnamed⟩ := (PendingTransaction.without_filled _ _).mp left
  obtain ⟨below, same⟩ := filling.slot empty at_old filled
  have terminated := (sound.proper old (List.mem_of_getElem? at_old)).terminated
  refine unnamed ?_
  rw [TransactionBlock.ids, all, List.map_map, List.mem_map]
  refine ⟨j, List.mem_range.mpr below, ?_⟩
  rw [Function.comp_apply, ← same, copyTransaction_id terminated]

/-- Generator `k` fills the pool for block `k`. -/
theorem Resting.round {k : Nat} (resting : Resting setup pipeSize k before) (workable : setup.cfg.Workable pipeSize)
    (success : ∀ block : TransactionBlock setup.txs, (proofOfWork setup.sha256 block).2.error = 0)
    (low : (setup.txGens k).pid < 10 ^ 10) (positive : 1 ≤ k) (room : k < setup.cfg.blockchainBlocks) :
    ∃ after, Resting setup pipeSize (k + 1) after := by
  obtain ⟨_, run⟩ := resting.reached.system
  obtain ⟨full, filled, filling⟩ :=
    filling_reaches run.pool_sound resting.empty (resting.fresh k (Nat.le_refl k)) workable
  have reachedFull := resting.reached.trans filled
  obtain ⟨_, runFull⟩ := WorkingReaches.system reachedFull
  have sound := runFull.pool_sound
  have padded := runFull.chain.chained.lastBlockHash_zeroPadded
  have count : full.ledger.count = k := filling.ledger ▸ resting.count
  have roomFull : full.ledger.count < setup.cfg.blockchainBlocks := count ▸ room
  have waiting : (full.miners 1).phase = .waiting := filling.miners ▸ resting.waiting
  obtain ⟨txs, all⟩ : ∃ txs : List.Vector Transaction setup.txs,
      txs.toList = (List.range setup.txs).map fun j => copyTransaction (slotOf setup k j).tx :=
    ⟨⟨_, by simp⟩, rfl⟩
  have chosen := filling.select sound.sized workable low
  rw [← all] at chosen
  obtain ⟨mined, frame, block, mining, pool, ledger, validators, numbers, rested, pipe, offered⟩ :=
    mining_reaches success padded waiting filling.count.ge roomFull chosen
  rw [filling.pipe, resting.pipe, List.nil_append] at pipe
  rw [← ledger] at offered roomFull count
  have reachedMined := reachedFull.trans mining
  obtain ⟨_, runMined⟩ := WorkingReaches.system reachedMined
  have index : mined.ledger.lastBlockIndex + 1 = mined.ledger.count := by
    have last := runMined.chain.chained.index
    omega
  have reading : mined.validators 1 = .reading := by
    rw [validators, filling.validators]
    exact resting.reading
  obtain ⟨emptied, passed⟩ : ∃ emptied, poolPhase mined.pool block = some emptied := by
    rw [← Option.isSome_iff_exists, pool,
      poolPhase_isSome_iff (filling.distinctIds resting.empty low), offered.transactions]
    exact fun tx member => sound.offers (selectTransactions_supplied chosen tx member)
  obtain ⟨after, validating, left, grown, miners, keptNumbers, back, drained⟩ :=
    validating_reaches workable index roomFull reading pipe offered passed
  have blockAll := (congrArg List.Vector.toList offered.transactions).trans all
  refine ⟨after, reachedMined.trans validating, grown.trans (congrArg (· + 1) count), back,
    miners ▸ rested, drained, ?_, ?_⟩
  · rw [left]
    exact filling.emptied sound resting.empty low blockAll (pool ▸ passed)
  · intro gen above
    rw [keptNumbers, numbers, filling.numbers, Function.update_of_ne (Nat.ne_of_gt above)]
    exact resting.fresh gen (Nat.le_of_succ_le above)

theorem Resting.all (first : ∃ state, Resting setup pipeSize 1 state) (workable : setup.cfg.Workable pipeSize)
    (success : ∀ block : TransactionBlock setup.txs, (proofOfWork setup.sha256 block).2.error = 0)
    (low : ∀ gen, (setup.txGens gen).pid < 10 ^ 10) {k : Nat} (positive : 1 ≤ k)
    (fits : k ≤ setup.cfg.blockchainBlocks) : ∃ state, Resting setup pipeSize k state := by
  induction k, positive using Nat.le_induction with
  | base => exact first
  | succ k positive ih =>
      obtain ⟨before, resting⟩ := ih (Nat.le_of_succ_le fits)
      exact resting.round workable success (low k) positive fits

end

/-- The checks of `main` look at the four values one by one. What they let pass
can work if and only if the transactions of a block fit the pool, its frame the
pipe, and the sizes of both segments an `int`. -/
theorem reaches_last_block_iff (setup : Setup) (pipeSize : Nat)
    (pids : ∀ gen, (setup.txGens gen).pid < 2 ^ 31) (known : 1 ≤ setup.maxValidators)
    (success : ∀ block : TransactionBlock setup.txs, (proofOfWork setup.sha256 block).2.error = 0) :
    (∃ trace final, WorkingRun setup pipeSize trace final ∧
        final.ledger.count = setup.cfg.blockchainBlocks) ↔
      setup.cfg.Workable pipeSize := by
  constructor
  · intro given
    obtain ⟨trace, final, run, full⟩ := given
    by_contra unworkable
    exact absurd full (Nat.ne_of_lt (run.count_lt unworkable))
  · intro workable
    have low : ∀ gen, (setup.txGens gen).pid < 10 ^ 10 := fun gen => (pids gen).trans (by decide)
    have positive : 1 ≤ setup.cfg.blockchainBlocks := Nat.le_of_succ_le setup.cfg.twoBlocks
    obtain ⟨final, resting⟩ :=
      Resting.all (resting_reaches success known) workable success low positive (Nat.le_refl _)
    obtain ⟨trace, run⟩ := resting.reached
    exact ⟨trace, final, run, resting.count⟩

theorem pairs_reach_last_block : ∃ trace final,
    WorkingRun (checksumSetup pairSetup.cfg) 65536 trace final ∧ final.ledger.count = 3 := by
  have workable : (checksumSetup pairSetup.cfg).cfg.Workable 65536 :=
    ⟨by decide, by decide, by decide, by decide⟩
  have pid : 4242 < 2 ^ 31 := by decide
  exact (reaches_last_block_iff (checksumSetup pairSetup.cfg) 65536 (fun _ => pid) (by decide)
    checksum_solves).mpr workable

theorem starved_below_last_block : ¬ ∀ cfg : Config,
    (∀ block : TransactionBlock cfg.transactionsPerBlock, (proofOfWork checksum block).2.error = 0) →
      ∃ pipeSize trace final, WorkingRun (checksumSetup cfg) pipeSize trace final ∧
        final.ledger.count = cfg.blockchainBlocks := by
  intro works
  obtain ⟨pipeSize, trace, final, run, full⟩ := works starvedConfig checksum_solves
  have unworkable : ¬ (checksumSetup starvedConfig).cfg.Workable pipeSize := by
    intro given
    obtain ⟨transactions, -, -, -⟩ := given
    exact absurd transactions (by decide)
  exact absurd full (Nat.ne_of_lt (run.count_lt unworkable))

end DeiChain
