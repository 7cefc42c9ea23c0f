import DeiChain.Authorship
import DeiChain.Signalling
import DeiChain.Systems.Attainment
import DeiChain.Working

namespace DeiChain

open Data Systems

/-! # Filling the ledger from any state

Calls may have failed and other validators may have been killed between their
sections, in any number: as long as validator 1 is there, which is never started
a second time, steps that all succeed can still bring the ledger to its last block.
-/

variable {n : Nat}

section

variable {setup : Setup} {pipeSize : Nat} {before after final : State setup.txs} {event : Event}
  {trace : List (State setup.txs × Event)}

abbrev Reachable (setup : Setup) (state : State setup.txs) : Prop :=
  Reaches (step setup) (State.initial setup) state

def Full (setup : Setup) (state : State setup.txs) : Prop :=
  setup.cfg.blockchainBlocks ≤ state.ledger.count

theorem Reachable.further (reachable : Reachable setup before)
    (reached : WorkingReaches setup pipeSize before after) : Reachable setup after :=
  reachable.trans reached.of_guarded

theorem Reachable.chain (reachable : Reachable setup before) : ChainInvariant setup before :=
  let ⟨_, run⟩ := reachable
  SystemRun.chain run

theorem Reachable.sound (reachable : Reachable setup before) :
    before.pool.Sound setup.cfg.transactionPoolSize :=
  let ⟨_, run⟩ := reachable
  SystemRun.pool_sound run

/-- A thread only finishes over a full ledger. -/
theorem stepReadTip_finished {thread other : Nat} (taken : stepReadTip setup before other = some after)
    (finished : (after.miners thread).phase = .finished) :
    (before.miners thread).phase = .finished ∨ Full setup before := by
  unfold stepReadTip at taken
  split at taken
  · split at taken
    · cases taken
      rw [State.withMiner_phase] at finished
      split at finished
      · cases finished
      · exact .inl finished
    · rename_i full
      exact .inr (Nat.le_of_not_lt full)
  · cases taken

theorem Reachable.grows (reachable : Reachable setup before) (taken : step setup before event = some after) :
    before.ledger.count ≤ after.ledger.count :=
  (reachable.chain.ledger (step_transition taken)).2.2.1

theorem step_finished_full {thread : Nat} (taken : step setup before event = some after)
    (finished : (after.miners thread).phase = .finished) :
    (before.miners thread).phase = .finished ∨ Full setup before := by
  by_cases own : event.thread? = some thread
  · cases event with
    | readTip other => exact stepReadTip_finished taken finished
    | pollPool | pollLedger | select | mine | write | abandon =>
        simp only [step, stepPollPool, stepPollLedger, stepSelect, stepMine, stepWrite, stepAbandon] at taken
        cases own
        repeat' split at taken
        all_goals cases taken
        all_goals
          simp only [State.withMiner_phase, if_true] at finished
          cases finished
    | _ => cases own
  · exact .inl (((step_transition taken).miner_other own).symm ▸ finished)

theorem Reachable.finished_full (reachable : Reachable setup before) {thread : Nat}
    (finished : (before.miners thread).phase = .finished) : Full setup before := by
  obtain ⟨trace, run⟩ := reachable
  induction run with
  | nil => cases finished
  | snoc earlier taken ih =>
      have grows := Reachable.grows ⟨_, earlier⟩ taken
      rcases step_finished_full taken finished with old | full
      · exact Nat.le_trans (ih old) grows
      · exact Nat.le_trans full grows

/-- No transaction in the pool has the id that the selection passes over. -/
theorem formatTxId_take_ne_zero (pid number : Nat) : (formatTxId pid number).take (txIdLen - 1) ≠ [48] := by
  simp [formatTxId, txIdLen]

theorem Reachable.id_ne_zero (reachable : Reachable setup before) :
    ∀ slot ∈ before.pool.transactions, slot.filled ≠ 0 → slot.tx.id ≠ [48] := by
  obtain ⟨trace, run⟩ := reachable
  refine Run.invariant (fun state : State setup.txs =>
    ∀ slot ∈ state.pool.transactions, slot.filled ≠ 0 → slot.tx.id ≠ [48]) ?_ ?_ run
  · intro slot member filled
    rw [List.eq_of_mem_replicate member] at filled
    exact absurd rfl filled
  · intro before event after named taken
    rcases (step_transition taken).pool with same | ⟨gen, stack, rand, now, i, _, added⟩ |
      ⟨_, block, _, _, _, passed⟩
    · exact same ▸ named
    · obtain ⟨_, _, _, _, _, slots⟩ := insertTransaction_added added
      intro slot member filled
      rw [slots] at member
      rcases List.mem_or_eq_of_mem_set member with member | rfl
      · exact named slot member filled
      · have written : (newTransaction setup before gen stack rand now).tx.id = _ :=
          cstr_snprintf stack (fun _ member => formatTxId_nonzero member) (by decide)
        rw [written]
        exact formatTxId_take_ne_zero _ _
    · intro slot member filled
      obtain ⟨j, at_j⟩ := List.getElem?_of_mem member
      obtain ⟨old, at_old, oldFilled, rfl⟩ := poolPhase_filled passed at_j filled
      rw [PendingTransaction.aged_id]
      exact named old (List.mem_of_getElem? at_old) oldFilled

/-- The search of the validator for the first filled slot ends there. -/
theorem TransactionPool.Sound.first_passes {pool : TransactionPool} {size : Nat} (sound : pool.Sound size)
    (positive : 0 < pool.count.toNat) : ∃ (first : Nat) (slot : PendingTransaction),
      pool.transactions[first]? = some slot ∧ slot.filled = 1 ∧
        checkTransaction pool (copyTransaction slot.tx) = true := by
  rw [sound.consistent.counted] at positive
  obtain ⟨some_slot, some_member, some_filled⟩ := List.countP_pos_iff.mp positive
  obtain ⟨first, found⟩ : ∃ first, pool.transactions.findIdx? (fun slot => slot.filled == 1) =
      some first := by
    rw [← Option.isSome_iff_exists, List.findIdx?_isSome, List.any_eq_true]
    exact ⟨some_slot, some_member, some_filled⟩
  obtain ⟨bound, filled, earlier⟩ := List.findIdx?_eq_some_iff_getElem.mp found
  generalize value : pool.transactions[first] = slot at filled
  have at_first : pool.transactions[first]? = some slot := by rw [List.getElem?_eq_getElem bound, value]
  have occupied : slot.filled = 1 := by simpa using filled
  have proper := sound.proper slot (List.mem_of_getElem? at_first)
  have copied : (copyTransaction slot.tx).id = slot.tx.id := copyTransaction_id proper.terminated
  have search : findTransaction pool (copyTransaction slot.tx) = some first := by
    rw [findTransaction, List.findIdx?_eq_some_iff_getElem]
    refine ⟨bound, ?_, fun j below => ?_⟩
    · have same : sameString (copyTransaction slot.tx).txId.toList slot.tx.txId.toList = true := by
        simpa [Transaction.id] using copied
      simp [value, occupied, same]
    · have flags := sound.consistent.flags _ (List.getElem_mem (below.trans bound))
      have empty := flags.resolve_right fun one => earlier j below (by simp [one])
      simp [empty]
  refine ⟨first, slot, at_first, occupied, ?_⟩
  rw [checkTransaction, search]
  simp only [at_first, Option.any_some]
  exact txCompare_iff.mpr ⟨copied, rfl, Binary32.equal_self proper.number, rfl⟩

/-- Copies of one transaction, which pass as often as they are there. -/
theorem Reachable.select (reachable : Reachable setup before) (enough : setup.txs ≤ before.pool.count.toNat) :
    ∃ (rands : List Nat) (txs : List.Vector Transaction setup.txs),
      selectTransactions before.pool setup.txs rands = some txs.toList ∧
        ∀ tx ∈ txs.toList, checkTransaction before.pool tx = true := by
  obtain ⟨first, slot, at_first, occupied, passes⟩ :=
    reachable.sound.first_passes (Nat.lt_of_lt_of_le setup.cfg.transactionsPositive enough)
  have bound : first < before.pool.size := (List.getElem?_eq_some_iff.mp at_first).1
  have named : slot.tx.id ≠ [48] :=
    reachable.id_ne_zero slot (List.mem_of_getElem? at_first) (by simp [occupied])
  have hit : ∀ rand ∈ List.replicate setup.txs first,
      before.pool.transactions[rand % before.pool.size]? = some slot ∧ slot.tx.id ≠ [48] ∧ slot.filled = 1 := by
    intro rand drawn
    rw [List.eq_of_mem_replicate drawn, Nat.mod_eq_of_lt bound]
    exact ⟨at_first, named, occupied⟩
  have chosen : selectTransactions before.pool setup.txs (List.replicate setup.txs first) =
      some ((List.replicate setup.txs first).map fun _ => copyTransaction slot.tx) :=
    selectTransactions_all enough List.length_replicate hit
  refine ⟨List.replicate setup.txs first,
    ⟨List.replicate setup.txs (copyTransaction slot.tx), List.length_replicate⟩, ?_, ?_⟩
  · rw [chosen, List.map_replicate]
    rfl
  · intro tx drawn
    rw [List.eq_of_mem_replicate (show tx ∈ List.replicate _ _ from drawn)]
    exact passes

theorem createGenesis_of_success
    (success : ∀ block : TransactionBlock setup.txs, (proofOfWork setup.sha256 block).2.error = 0)
    (ledger : Ledger setup.txs) : ∃ after, createGenesis setup.sha256 ledger = some after := by
  have solved := success (TransactionBlock.zero setup.txs)
  unfold createGenesis
  dsimp only
  rw [if_neg (not_not.mpr solved)]
  exact ⟨_, rfl⟩

/-- How many steps the process is from reading the pipe; one that has ended is not on its way. -/
def ValidatorPhase.distance : ValidatorPhase n → Nat
  | .reading | .exited => 0
  | .starting | .rejecting _ | .inserted _ _ _ => 1
  | .absent | .accepted _ _ => 2
  | .checked _ _ => 3
  | .received _ _ => 4

/-- Validator 1 has not ended. -/
def Alive (state : State n) : Prop := state.validators 1 ≠ .exited

/-- What validator 1 leaves alone on its way. -/
structure Beside (base state : State setup.txs) : Prop where
  reachable : Reachable setup state
  alive : Alive state
  miners : state.miners = base.miners
  pipe : state.pipe = base.pipe
  grown : base.ledger.count ≤ state.ledger.count

theorem Reachable.insertable (reachable : Reachable setup before) (workable : setup.cfg.Workable pipeSize)
    (room : ¬ Full setup before) (num : Nat) (now : Int64) :
    works setup.cfg pipeSize before (.ledgerPhase num now) = true := by
  have two := setup.cfg.twoBlocks
  have index := reachable.chain.chained.index
  have inside : before.ledger.lastBlockIndex + 2 ≤ setup.cfg.blockchainBlocks := by
    unfold Full at room
    omega
  have most := ledgerBytes_mono setup.cfg inside
  have whole := (le_intOfSizeT_iff _).mpr workable.ledger
  rw [works_ledgerPhase, shmLedgerSize]
  omega

/-- One working step brings validator 1 nearer to the head of its loop. -/
theorem step_toward_reading (workable : setup.cfg.Workable pipeSize) (known : 1 ≤ setup.maxValidators)
    (success : ∀ block : TransactionBlock setup.txs, (proofOfWork setup.sha256 block).2.error = 0)
    (reachable : Reachable setup before) (room : ¬ Full setup before) (alive : Alive before)
    (away : before.validators 1 ≠ .reading) :
    ∃ event after, works setup.cfg pipeSize before event = true ∧ step setup before event = some after ∧
      Alive after ∧ after.miners = before.miners ∧ after.pipe = before.pipe ∧
      (after.validators 1).distance < (before.validators 1).distance := by
  cases phase : before.validators 1 with
  | reading => exact absurd phase away
  | exited => exact absurd phase alive
  | absent =>
      refine ⟨.start 1, before.withValidator 1 .starting, rfl, ?_, ?_, rfl, rfl, ?_⟩
      · simp [step, stepStart, phase, known]
      · simp [Alive]
      · simp [ValidatorPhase.distance]
  | starting =>
      by_cases empty : before.ledger.count = 0
      · obtain ⟨ledger, genesis⟩ := createGenesis_of_success success before.ledger
        refine ⟨.genesis 1, { before.withValidator 1 .reading with ledger }, rfl, ?_, ?_, rfl, rfl, ?_⟩
        · simp [step, stepGenesis, phase, empty, genesis]
        · simp [Alive]
        · simp [ValidatorPhase.distance]
      · refine ⟨.genesis 1, before.withValidator 1 .reading, rfl, ?_, ?_, rfl, rfl, ?_⟩
        · simp [step, stepGenesis, phase, empty]
        · simp [Alive]
        · simp [ValidatorPhase.distance]
  | received block history =>
      by_cases holds : verifyNonce setup.sha256 block = true ∧ onTip before.ledger block = true
      · refine ⟨.examine 1, before.withValidator 1 (.checked block history), rfl, ?_, ?_, rfl, rfl, ?_⟩
        · simp [step, stepExamine, phase, holds]
        · simp [Alive]
        · simp [ValidatorPhase.distance]
      · refine ⟨.examine 1, before.withValidator 1 (.rejecting block), rfl, ?_, ?_, rfl, rfl, ?_⟩
        · simp only [step, stepExamine, phase, if_neg holds]
        · simp [Alive]
        · simp [ValidatorPhase.distance]
  | checked block history =>
      have removable : works setup.cfg pipeSize before (.poolPhase 1) = true :=
        works_poolPhase.mpr workable.pool
      cases passed : poolPhase before.pool block with
      | some pool =>
          refine ⟨.poolPhase 1, { before.withValidator 1 (.accepted block history) with pool },
            removable, ?_, ?_, rfl, rfl, ?_⟩
          · simp [step, stepPoolPhase, phase, passed]
          · simp [Alive]
          · simp [ValidatorPhase.distance]
      | none =>
          refine ⟨.poolPhase 1, before.withValidator 1 (.rejecting block), removable, ?_, ?_, rfl, rfl, ?_⟩
          · simp [step, stepPoolPhase, phase, passed]
          · simp [Alive]
          · simp [ValidatorPhase.distance]
  | accepted block history =>
      have fits := reachable.insertable workable room 1 0
      by_cases tip : onTip before.ledger block = true
      · refine ⟨.ledgerPhase 1 0,
          { before.withValidator 1 (.inserted block (before.ledger.lastBlockIndex + 1) 0) with
            ledger := appendBlock before.ledger block (computeSha256 setup.sha256 block) },
          fits, ?_, ?_, rfl, rfl, ?_⟩
        · simp [step, stepLedgerPhase, phase, tip]
        · simp [Alive]
        · simp [ValidatorPhase.distance]
      · refine ⟨.ledgerPhase 1 0, before.withValidator 1 .reading, fits, ?_, ?_, rfl, rfl, ?_⟩
        · simp [step, stepLedgerPhase, phase, tip]
        · simp [Alive]
        · simp [ValidatorPhase.distance]
  | rejecting block | inserted block =>
      refine ⟨.report 1, before.withValidator 1 .reading, rfl, ?_, ?_, rfl, rfl, ?_⟩
      · simp [step, stepReport, phase]
      · simp [Alive]
      · simp [ValidatorPhase.distance]

/-- How many steps a thread is from waiting; one that has finished is not on its way. -/
def MinerPhase.distance : MinerPhase n → Nat
  | .waiting | .finished => 0
  | .mined _ _ => 1
  | .mining _ _ => 2
  | .selected _ _ => 3
  | .ready => 4
  | .polled _ => 5

/-- One working step brings thread 1 nearer to its wait. -/
theorem step_toward_waiting
    (success : ∀ block : TransactionBlock setup.txs, (proofOfWork setup.sha256 block).2.error = 0)
    (reachable : Reachable setup before) (room : ¬ Full setup before)
    (away : (before.miners 1).phase ≠ .waiting) :
    ∃ event after, works setup.cfg pipeSize before event = true ∧ step setup before event = some after ∧
      after.ledger = before.ledger ∧ after.validators = before.validators ∧
      (after.miners 1).phase.distance < (before.miners 1).phase.distance := by
  cases phase : (before.miners 1).phase with
  | waiting => exact absurd phase away
  | finished => exact absurd (reachable.finished_full phase) room
  | polled txCount =>
      by_cases few : txCount.toNat < setup.txs ∨ setup.cfg.blockchainBlocks ≤ before.ledger.count
      · refine ⟨.pollLedger 1, before.withMiner 1 .waiting, rfl, ?_, rfl, rfl, ?_⟩
        · simp only [step, stepPollLedger, phase, if_pos few]
        · simp [MinerPhase.distance]
      · refine ⟨.pollLedger 1, before.withMiner 1 .ready, rfl, ?_, rfl, rfl, ?_⟩
        · simp only [step, stepPollLedger, phase, if_neg few]
        · simp [MinerPhase.distance]
  | ready =>
      by_cases enough : setup.txs ≤ before.pool.count.toNat
      · obtain ⟨rands, txs, chosen, _⟩ := reachable.select enough
        refine ⟨.select 1 rands, before.withMiner 1 (.selected txs before.ledger.count), rfl, ?_, rfl, rfl, ?_⟩
        · simp only [step, stepSelect, phase, chosen]
          rw [dif_pos txs.toList_length]
          rfl
        · simp [MinerPhase.distance]
      · refine ⟨.select 1 [], before.withMiner 1 .waiting, rfl, ?_, rfl, rfl, ?_⟩
        · have positive := setup.cfg.transactionsPositive
          have none : selectTransactions before.pool setup.txs [] = some [] := if_neg enough
          simp only [step, stepSelect, phase, none]
          rw [dif_neg (by simp only [List.length_nil, Setup.txs]; omega)]
        · simp [MinerPhase.distance]
  | selected txs countAtSelection =>
      let block := buildBlock 1 (before.miners 1).blockNumber before.ledger.lastBlockHash txs
      refine ⟨.readTip 1, before.withMiner 1 (.mining block ⟨countAtSelection, before.ledger.count⟩)
        ((before.miners 1).blockNumber + 1), rfl, ?_, rfl, rfl, ?_⟩
      · simp only [step, stepReadTip, phase, if_pos (Nat.lt_of_not_le room), block]
      · simp [MinerPhase.distance]
  | mining block history =>
      obtain ⟨outcome, found⟩ : ∃ outcome, proofOfWork setup.sha256 { block with timestamp := 0 } = outcome :=
        ⟨_, rfl⟩
      have solved := success { block with timestamp := 0 }
      rw [found] at solved
      refine ⟨.mine 1 0, before.withMiner 1 (.mined outcome.1 history), rfl, ?_, rfl, rfl, ?_⟩
      · simp [step, stepMine, phase, found, solved]
      · simp [MinerPhase.distance]
  | mined block history =>
      refine ⟨.write 1 0, { before.withMiner 1 .waiting with
        pipe := before.pipe ++ [⟨minerFrame 0 block, history⟩] }, rfl, ?_, rfl, rfl, ?_⟩
      · simp [step, stepWrite, phase]
      · simp [State.withMiner, MinerPhase.distance]

end

section

variable {setup : Setup} {pipeSize : Nat} {before : State setup.txs}
  (workable : setup.cfg.Workable pipeSize) (known : 1 ≤ setup.maxValidators)
  (success : ∀ block : TransactionBlock setup.txs, (proofOfWork setup.sha256 block).2.error = 0)
  (reachable : Reachable setup before)

include success reachable

/-- What thread 1 leaves alone on its way. -/
structure Apart (base state : State setup.txs) : Prop where
  reachable : Reachable setup state
  ledger : state.ledger = base.ledger
  validators : state.validators = base.validators

theorem Reachable.rests (room : ¬ Full setup before) : ∃ after, WorkingReaches setup pipeSize before after ∧
    Apart before after ∧ (after.miners 1).phase = .waiting := by
  refine Reaches.descend (Apart before) (fun state => (state.miners 1).phase = .waiting)
    (fun state => (state.miners 1).phase.distance) ?_ ⟨reachable, rfl, rfl⟩
  intro state apart away
  have roomThere : ¬ Full setup state := by
    unfold Full
    rwa [apart.ledger]
  obtain ⟨event, next, working, taken, ledger, validators, nearer⟩ :=
    step_toward_waiting success apart.reachable roomThere away
  have one := reaches_next working taken (.refl state)
  refine ⟨next, one, ?_, nearer⟩
  exact ⟨apart.reachable.further one, ledger.trans apart.ledger, validators.trans apart.validators⟩

include workable known

theorem Reachable.serves (alive : Alive before) : ∃ after, WorkingReaches setup pipeSize before after ∧ Beside before after ∧
    (Full setup after ∨ after.validators 1 = .reading) := by
  refine Reaches.descend (Beside before) (fun state => Full setup state ∨ state.validators 1 = .reading)
    (fun state => (state.validators 1).distance) ?_ ⟨reachable, alive, rfl, rfl, Nat.le_refl _⟩
  intro state beside unmet
  obtain ⟨room, away⟩ := not_or.mp unmet
  obtain ⟨event, next, working, taken, still, miners, pipe, nearer⟩ :=
    step_toward_reading workable known success beside.reachable room beside.alive away
  have one := reaches_next working taken (.refl state)
  refine ⟨next, one, ?_, nearer⟩
  exact ⟨beside.reachable.further one, still, miners.trans beside.miners, pipe.trans beside.pipe,
    beside.grown.trans (beside.reachable.grows taken)⟩

/-- What draining the pipe leaves alone. -/
structure Attended (base state : State setup.txs) : Prop where
  reachable : Reachable setup state
  alive : Alive state
  miners : state.miners = base.miners
  grown : base.ledger.count ≤ state.ledger.count
  attended : Full setup state ∨ state.validators 1 = .reading

omit reachable in
theorem Attended.read {base state : State setup.txs} (attended : Attended base state)
    (reading : state.validators 1 = .reading) (frames : state.pipe ≠ []) :
    ∃ next, WorkingReaches setup pipeSize state next ∧ Attended base next ∧
      next.pipe.length < state.pipe.length := by
  obtain ⟨frame, pipe, front⟩ := List.exists_cons_of_ne_nil frames
  obtain ⟨pointer, block, bytes, _⟩ := attended.reachable.chain.frames frame (front ▸ List.mem_cons_self)
  have decoded : decodeFrame setup.txs [] frame.bytes = some block := by
    rw [bytes]
    exact decodeFrame_minerFrame setup.cfg.maxBlockSize_lt pointer [] block
  have taken : step setup state (.read 1 []) =
      some { state.withValidator 1 (.received block frame.history) with pipe } := by
    simp [step, stepRead, reading, front, decoded]
  have readable : works setup.cfg pipeSize state (.read 1 []) = true := decide_eq_true workable.frame
  have one := reaches_next readable taken (.refl state)
  obtain ⟨next, served, beside, serving⟩ :=
    (attended.reachable.further one).serves workable known success (by simp [Alive])
  refine ⟨next, one.trans served, ⟨beside.reachable, beside.alive, beside.miners.trans attended.miners,
    attended.grown.trans beside.grown, serving⟩, ?_⟩
  rw [beside.pipe, front]
  exact Nat.lt_succ_self _

theorem Reachable.drains (alive : Alive before) : ∃ after, WorkingReaches setup pipeSize before after ∧
    Attended before after ∧ (Full setup after ∨ after.pipe = []) := by
  obtain ⟨serving, served, beside, attended⟩ := reachable.serves workable known success alive
  have initial : Attended before serving :=
    ⟨beside.reachable, beside.alive, beside.miners, beside.grown, attended⟩
  obtain ⟨after, drained, held, empty⟩ := Reaches.descend (Attended before)
    (fun state => Full setup state ∨ state.pipe = []) (fun state => state.pipe.length)
    (fun state attended unmet => by
      obtain ⟨room, frames⟩ := not_or.mp unmet
      exact attended.read workable known success (attended.attended.resolve_left room) frames) initial
  exact ⟨after, served.trans drained, held, empty⟩

end

section

variable {setup : Setup} {pipeSize : Nat} {before : State setup.txs}

/-- What generators leave alone. -/
structure Stocked (base state : State setup.txs) : Prop where
  reachable : Reachable setup state
  ledger : state.ledger = base.ledger
  pipe : state.pipe = base.pipe
  miners : state.miners = base.miners
  validators : state.validators = base.validators

theorem Stocked.insert {base state : State setup.txs} (stocked : Stocked base state) :
    ∃ next, WorkingReaches setup pipeSize state next ∧ Stocked base next ∧
      next.pool.count.toNat = min (state.pool.count.toNat + 1) setup.cfg.transactionPoolSize := by
  have taken : step setup state (insertEvent 1) = some (stepInsert setup state 1 (zeroArray txIdLen) 5 7) := rfl
  have one : WorkingReaches setup pipeSize state _ := reaches_next rfl taken (.refl state)
  have count := stepInsert_count stocked.reachable.sound 1 (zeroArray txIdLen) 5 7
  generalize inserted : stepInsert setup state 1 (zeroArray txIdLen) 5 7 = next at one count
  obtain ⟨ledger, pipe, miners, validators⟩ : next.ledger = state.ledger ∧ next.pipe = state.pipe ∧
      next.miners = state.miners ∧ next.validators = state.validators := by
    subst inserted
    unfold stepInsert
    dsimp only
    split <;> exact ⟨rfl, rfl, rfl, rfl⟩
  exact ⟨next, one, ⟨stocked.reachable.further one, ledger.trans stocked.ledger, pipe.trans stocked.pipe,
    miners.trans stocked.miners, validators.trans stocked.validators⟩, count⟩

theorem Reachable.fills (reachable : Reachable setup before) : ∃ after,
    WorkingReaches setup pipeSize before after ∧ Stocked before after ∧
      setup.cfg.transactionPoolSize ≤ after.pool.count.toNat := by
  refine Reaches.descend (Stocked before)
    (fun state => setup.cfg.transactionPoolSize ≤ state.pool.count.toNat)
    (fun state => setup.cfg.transactionPoolSize - state.pool.count.toNat) ?_ ⟨reachable, rfl, rfl, rfl, rfl⟩
  intro state stocked short
  obtain ⟨next, one, held, count⟩ := stocked.insert
  exact ⟨next, one, held, by omega⟩

/-- From any state, one more block. -/
theorem Reachable.gains (reachable : Reachable setup before) (workable : setup.cfg.Workable pipeSize)
    (known : 1 ≤ setup.maxValidators)
    (success : ∀ block : TransactionBlock setup.txs, (proofOfWork setup.sha256 block).2.error = 0)
    (room : ¬ Full setup before) (alive : Alive before) :
    ∃ after, WorkingReaches setup pipeSize before after ∧ Alive after ∧
      before.ledger.count < after.ledger.count := by
  obtain ⟨rested, resting, apart, waiting⟩ := reachable.rests success room
  have aliveRested : Alive rested := by rwa [Alive, apart.validators]
  obtain ⟨drained, draining, attended, empty⟩ := apart.reachable.drains workable known success aliveRested
  rw [← apart.ledger]
  have reached := resting.trans draining
  by_cases full : Full setup drained
  · exact ⟨drained, reached, attended.alive, Nat.lt_of_lt_of_le (apart.ledger ▸ Nat.lt_of_not_le room) full⟩
  · obtain ⟨stocked, stocking, held, enough⟩ := attended.reachable.fills
    have enoughTxs := Nat.le_trans workable.transactions enough
    obtain ⟨rands, txs, chosen, passes⟩ := held.reachable.select enoughTxs
    have room : stocked.ledger.count < setup.cfg.blockchainBlocks := by
      rw [held.ledger]
      exact Nat.lt_of_not_le full
    have waiting : (stocked.miners 1).phase = .waiting := by rwa [held.miners, attended.miners]
    obtain ⟨mined, frame, block, mining, pool, kept, validators, _, _, pipe, offered⟩ :=
      mining_reaches success held.reachable.chain.chained.lastBlockHash_zeroPadded waiting enoughTxs room chosen
    rw [held.pipe, empty.resolve_left full, List.nil_append] at pipe
    rw [← kept] at offered room
    have reading : mined.validators 1 = .reading := by
      rw [validators, held.validators]
      exact attended.attended.resolve_left full
    have chain := (held.reachable.further mining).chain
    have founded : 0 < mined.ledger.count := chain.founded 1 (reading ▸ trivial)
    have index : mined.ledger.lastBlockIndex + 1 = mined.ledger.count := by
      have last := chain.chained.index
      omega
    obtain ⟨left, passed⟩ : ∃ left, poolPhase mined.pool block = some left := by
      have all : checkTransactions mined.pool block = true := by
        rw [checkTransactions, offered.transactions, pool]
        exact List.all_eq_true.mpr passes
      exact ⟨_, if_pos all⟩
    obtain ⟨after, validating, _, grown, _, _, still, _⟩ :=
      validating_reaches workable index room reading pipe offered passed
    refine ⟨after, ((reached.trans stocking).trans mining).trans validating, ?_, ?_⟩
    · rw [Alive, still]
      intro gone
      cases gone
    · rw [grown, kept, held.ledger]
      exact Nat.lt_succ_of_le attended.grown

end

/-- Validator 2 is killed between the removal of a block's transactions and its
insertion, while thread 1 holds another block. -/
def wreckEvents : List Event :=
  [insertEvent 1, insertEvent 2, .start 1, .genesis 1, .start 2, .genesis 2] ++ mineEvents 1 [0] ++
    [.read 2 [], .examine 2, .poolPhase 2, .kill 2, .pollPool 1, .pollLedger 1, .select 1 [1], .readTip 1]

theorem wreck_executes :
    (exec (step smallSetup) (State.initial smallSetup) wreckEvents).isSome = true := by
  decide +kernel

def wreck : State smallSetup.txs := (exec _ _ _).get wreck_executes

theorem wreck_reachable : Reachable smallSetup wreck :=
  let ⟨trace, run, _⟩ := exec_run_get wreck_executes
  ⟨trace, run⟩

def ValidatorPhase.isReading : ValidatorPhase n → Bool
  | .reading => true
  | _ => false

theorem alive_of_isReading {state : State n} (reading : (state.validators 1).isReading = true) : Alive state := by
  intro exited
  rw [exited] at reading
  cases reading

end DeiChain
