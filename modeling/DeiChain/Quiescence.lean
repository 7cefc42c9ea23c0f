import DeiChain.Authorship
import DeiChain.Systems.Budget

namespace DeiChain

open Data Systems

/-! # After the last block

Once the ledger has all of its blocks, the miners start none and the validators
refuse those that are still under way: what is left to do is bounded by what
was in hand at that moment.
-/

/-- A thread with a block in hand still writes it; a frame is still read,
examined and reported. -/
def MinerPhase.load {n : Nat} : MinerPhase n → Nat
  | .mining _ _ | .mined _ _ => 1
  | _ => 0

def ValidatorPhase.load {n : Nat} : ValidatorPhase n → Nat
  | .received _ _ | .checked _ _ => 2
  | .accepted _ _ | .rejecting _ | .inserted _ _ _ => 1
  | _ => 0

/-- The steps that move a block on; what is left are polls, proofs of work,
starts and ends of processes, and the generators. -/
def Event.movesBlock : Event → Bool
  | .write _ _ | .read _ _ | .examine _ | .poolPhase _ | .ledgerPhase _ _ | .report _ => true
  | _ => false

def State.load (setup : Setup) (state : State setup.txs) : Nat :=
  4 * ∑ thread ∈ Finset.Icc 1 setup.cfg.numMiners, (state.miners thread).phase.load +
    3 * state.pipe.length +
    ∑ num ∈ Finset.Icc 1 setup.maxValidators, (state.validators num).load

section

variable {setup : Setup} {before after full final : State setup.txs} {event : Event}
  {trace later : List (State setup.txs × Event)}

/-- A state with all blocks in the ledger and no two of them of one hash. -/
structure Complete (setup : Setup) (state : State setup.txs) : Prop where
  count : state.ledger.count = setup.cfg.blockchainBlocks
  free : HashChain.CollisionFree (computeSha256 setup.sha256) state.ledger.blocks state.ledger.count

/-- Every block that is under way names an older hash than the newest. -/
theorem Complete.stale (complete : Complete setup before) (chain : ChainInvariant setup before) {num : Nat}
    {block : TransactionBlock setup.txs} {history : History}
    (streamed : (before.validators num).Streamed block history) : onTip before.ledger block = false := by
  by_contra tip
  have draft := (chain.streams num block history streamed).toDraft
  have height := chain.tip_height draft complete.free (Bool.not_eq_false _ ▸ tip)
  have room := draft.room
  have count := complete.count
  omega

theorem Complete.ledger (complete : Complete setup before) (chain : ChainInvariant setup before)
    (taken : Transition setup before event after) : after.ledger = before.ledger := by
  have two := setup.cfg.twoBlocks
  have count := complete.count
  rcases taken.ledger with same | ⟨_, _, empty, _⟩ | ⟨num, _, block, history, _, accepted, tip, _⟩
  · exact same
  · omega
  · rw [complete.stale chain (.inr (.inr accepted))] at tip
    cases tip

theorem Complete.of_ledger (complete : Complete setup before) (same : after.ledger = before.ledger) :
    Complete setup after :=
  ⟨same ▸ complete.count, same ▸ complete.free⟩

/-- Nothing is appended to a full ledger. -/
theorem Complete.run (complete : Complete setup full) (run : SystemRun setup trace full)
    (further : Run (step setup) full later final) : final.ledger = full.ledger ∧ Complete setup final := by
  induction further with
  | nil => exact ⟨rfl, complete⟩
  | snoc earlier taken ih =>
      obtain ⟨same, held⟩ := ih
      have kept := held.ledger (SystemRun.chain (run.append earlier)) (step_transition taken)
      exact ⟨kept.trans same, held.of_ledger kept⟩

theorem stepWrite_wrote {thread : Nat} {pointer : UInt64}
    (taken : step setup before (.write thread pointer) = some after) :
    ∃ block history, (before.miners thread).phase = .mined block history ∧
      after = { before.withMiner thread .waiting with
        pipe := before.pipe ++ [⟨minerFrame pointer block, history⟩] } := by
  simp only [step, stepWrite] at taken
  split at taken
  · rename_i held
    cases taken
    exact ⟨_, _, held, rfl⟩
  · cases taken

theorem MinerPhase.EmptyHanded.load {n : Nat} {phase : MinerPhase n} (empty : phase.EmptyHanded) :
    phase.load = 0 := by
  cases phase with
  | mining | mined => exact empty.elim
  | _ => rfl

section

variable {thread num blockNumber : Nat} {phase : MinerPhase setup.txs} {next : ValidatorPhase setup.txs}

theorem load_withMiner (known : thread ∈ Finset.Icc 1 setup.cfg.numMiners) (pipe : List Frame) :
    State.load setup { before.withMiner thread phase blockNumber with pipe } +
        (4 * (before.miners thread).phase.load + 3 * before.pipe.length) =
      before.load setup + (4 * phase.load + 3 * pipe.length) := by
  have moved := Budget.sum_moved (fun miner : MinerThread setup.txs => miner.phase.load) before.miners
    ⟨phase, blockNumber⟩ known
  simp only [State.load, State.withMiner] at moved ⊢
  omega

theorem load_withMiner_unknown (unknown : thread ∉ Finset.Icc 1 setup.cfg.numMiners) :
    State.load setup (before.withMiner thread phase blockNumber) = before.load setup := by
  have same := Budget.sum_unmoved (fun miner : MinerThread setup.txs => miner.phase.load) before.miners
    ⟨phase, blockNumber⟩ unknown
  simp only [State.load, State.withMiner] at same ⊢
  omega

theorem load_withValidator (known : num ∈ Finset.Icc 1 setup.maxValidators) (pipe : List Frame)
    (pool : TransactionPool) (ledger : Ledger setup.txs) :
    State.load setup { before.withValidator num next with pipe, pool, ledger } +
        ((before.validators num).load + 3 * before.pipe.length) =
      before.load setup + (next.load + 3 * pipe.length) := by
  have moved := Budget.sum_moved ValidatorPhase.load before.validators next known
  simp only [State.load, State.withValidator] at moved ⊢
  omega

theorem load_pays {old new spent : Nat} (paid : after.load setup + old = before.load setup + new)
    (less : new + spent ≤ old) : after.load setup + spent ≤ before.load setup := by
  omega

end

def Event.isWrite : Event → Bool
  | .write _ _ => true
  | _ => false

theorem Complete.pays_write (authors : AuthorInvariant setup before) {thread : Nat} {pointer : UInt64}
    (taken : step setup before (.write thread pointer) = some after) :
    after.load setup + 1 ≤ before.load setup := by
  obtain ⟨block, history, held, rfl⟩ := stepWrite_wrote taken
  have known : thread ∈ Finset.Icc 1 setup.cfg.numMiners :=
    Finset.mem_Icc.mpr (authors.working thread (by rw [held]; nofun))
  refine load_pays (load_withMiner known _) ?_
  rw [held]
  simp only [MinerPhase.load, List.length_append, List.length_singleton]
  omega

/-- A thread that does not write keeps its share or gives it up. -/
theorem load_withMiner_le {thread blockNumber : Nat} {phase : MinerPhase setup.txs}
    (le : phase.load ≤ (before.miners thread).phase.load) :
    State.load setup (before.withMiner thread phase blockNumber) ≤ before.load setup := by
  by_cases known : thread ∈ Finset.Icc 1 setup.cfg.numMiners
  · have paid : State.load setup (before.withMiner thread phase blockNumber) + _ = _ :=
      load_withMiner known before.pipe
    omega
  · exact Nat.le_of_eq (load_withMiner_unknown known)

theorem Complete.pays_other (complete : Complete setup before) (chain : ChainInvariant setup before)
    (known : ∀ num, before.validators num ≠ .absent → 1 ≤ num ∧ num ≤ setup.maxValidators)
    (taken : Transition setup before event after) (other : event.isWrite = false) :
    after.load setup + (if event.movesBlock then 1 else 0) ≤ before.load setup := by
  have two := setup.cfg.twoBlocks
  have count := complete.count
  have present {num : Nat} {phase : ValidatorPhase setup.txs} (held : before.validators num = phase)
      (alive : phase ≠ .absent) : num ∈ Finset.Icc 1 setup.maxValidators :=
    Finset.mem_Icc.mpr (known num (held ▸ alive))
  cases taken with
  | refused | stored => exact Nat.le_refl _
  | rested own empty =>
      have idle : event.movesBlock = false := by
        cases event with
        | write => cases other
        | read | examine | poolPhase | ledgerPhase | report => cases own
        | _ => rfl
      rw [idle]
      exact load_withMiner_le (by rw [empty.load]; exact Nat.zero_le _)
  | selected => exact load_withMiner_le (Nat.zero_le _)
  | drafted held room => omega
  | retried held => exact load_withMiner_le (by rw [held]; exact Nat.le_refl _)
  | solved held => exact load_withMiner_le (by rw [held]; exact Nat.le_refl _)
  | wrote => cases other
  | started inRange idle =>
      refine load_pays (load_withValidator (Finset.mem_Icc.mpr inRange) before.pipe _ _) ?_
      simp [ValidatorPhase.load, Event.movesBlock]
  | created starting empty => omega
  | joined starting =>
      refine load_pays (load_withValidator (present starting nofun) before.pipe _ _) ?_
      simp [ValidatorPhase.load, Event.movesBlock]
  | took reading front =>
      refine load_pays (load_withValidator (present reading nofun) _ _ _) ?_
      simp only [reading, front, ValidatorPhase.load, Event.movesBlock, List.length_cons, if_true]
      omega
  | misread reading front =>
      refine load_pays (load_withValidator (present reading nofun) _ _ _) ?_
      simp only [reading, front, ValidatorPhase.load, Event.movesBlock, List.length_cons, if_true]
      omega
  | approved received verified tip =>
      rw [complete.stale chain (.inl received)] at tip
      cases tip
  | refusedBlock received =>
      refine load_pays (load_withValidator (present received nofun) before.pipe _ _) ?_
      simp only [received, ValidatorPhase.load, Event.movesBlock, if_true]
      omega
  | removed checked =>
      refine load_pays (load_withValidator (present checked nofun) before.pipe _ _) ?_
      simp only [checked, ValidatorPhase.load, Event.movesBlock, if_true]
      omega
  | unmatched checked =>
      refine load_pays (load_withValidator (present checked nofun) before.pipe _ _) ?_
      simp only [checked, ValidatorPhase.load, Event.movesBlock, if_true]
      omega
  | appended accepted tip =>
      rw [complete.stale chain (.inr (.inr accepted))] at tip
      cases tip
  | dropped accepted =>
      refine load_pays (load_withValidator (present accepted nofun) before.pipe _ _) ?_
      simp only [accepted, ValidatorPhase.load, Event.movesBlock, if_true]
      omega
  | reported pending =>
      rcases pending with ⟨_, held⟩ | ⟨_, _, _, held⟩
      all_goals
        refine load_pays (load_withValidator (present held nofun) before.pipe _ _) ?_
        simp only [held, ValidatorPhase.load, Event.movesBlock, if_true]
        omega
  | left founded =>
      refine load_pays (load_withValidator (present rfl fun absent => ?_) before.pipe _ _) ?_
      · rw [absent] at founded
        exact founded
      · simp [ValidatorPhase.load, Event.movesBlock]
  | killed alive =>
      refine load_pays (load_withValidator (present rfl alive) before.pipe _ _) ?_
      simp [ValidatorPhase.load, Event.movesBlock]

theorem Complete.pays (complete : Complete setup before) (run : SystemRun setup trace before)
    (taken : step setup before event = some after) :
    after.load setup + (if event.movesBlock then 1 else 0) ≤ before.load setup := by
  cases writes : event.isWrite with
  | false =>
      exact complete.pays_other run.chain (fun num => run.validator_known num) (step_transition taken) writes
  | true =>
      obtain ⟨thread, pointer, rfl⟩ : ∃ thread pointer, event = .write thread pointer := by
        cases event with
        | write thread pointer => exact ⟨thread, pointer, rfl⟩
        | _ => cases writes
      exact Complete.pays_write run.authors taken

def Event.writes (thread : Nat) : Event → Bool
  | .write own _ => own == thread
  | _ => false

theorem Complete.pays_thread (complete : Complete setup before)
    (taken : step setup before event = some after) (thread : Nat) :
    (after.miners thread).phase.load + (if event.writes thread then 1 else 0) ≤
      (before.miners thread).phase.load := by
  cases writes : event.writes thread with
  | false =>
      have move := (step_transition taken).miner thread
      generalize (after.miners thread).phase = phase at move
      have count := complete.count
      cases move with
      | kept same => exact Nat.le_of_eq (congrArg MinerPhase.load same).symm
      | rested empty =>
          rw [empty.load]
          exact Nat.zero_le _
      | selected => exact Nat.zero_le _
      | drafted held room => omega
      | retried held | solved held =>
          rw [held]
          exact Nat.le_refl _
  | true =>
      obtain ⟨pointer, rfl⟩ : ∃ pointer, event = .write thread pointer := by
        cases event with
        | write own pointer => exact ⟨pointer, by rw [eq_of_beq writes]⟩
        | _ => cases writes
      obtain ⟨block, history, held, rfl⟩ := stepWrite_wrote taken
      rw [held]
      simp [State.withMiner, MinerPhase.load]

/-- When the ledger has all of its blocks it stays as it is. A thread writes no
block but the one it has in hand, every block that is examined is found off the
tip, and the system comes to rest: the steps that still move a block are
bounded by the threads, the frames in the pipe and the validators. -/
theorem full_ledger_comes_to_rest (setup : Setup) {trace later : List (State setup.txs × Event)}
    {full final : State setup.txs} (run : SystemRun setup trace full)
    (count : full.ledger.count = setup.cfg.blockchainBlocks)
    (free : HashChain.CollisionFree (computeSha256 setup.sha256) full.ledger.blocks full.ledger.count)
    (further : Run (step setup) full later final) :
    final.ledger = full.ledger ∧
      (∀ before num, (before, Event.examine num) ∈ later → ∀ block history,
        before.validators num = .received block history → onTip before.ledger block = false) ∧
      (∀ thread, (later.countP fun entry => entry.2.writes thread) ≤ (full.miners thread).phase.load) ∧
      (later.countP fun entry => entry.2.movesBlock) ≤
        4 * setup.cfg.numMiners + 3 * full.pipe.length + 2 * setup.maxValidators := by
  have complete : Complete setup full := ⟨count, free⟩
  refine ⟨(complete.run run further).1, ?_, fun thread => ?_, ?_⟩
  · intro before num member block history received
    obtain ⟨_, _, _, _, reached, _, _⟩ := further.recorded member
    obtain ⟨_, held⟩ := complete.run run reached
    exact held.stale (SystemRun.chain (run.append reached)) (.inl received)
  · have spent := Budget.Run.spends_le (fun state => (state.miners thread).phase.load) (Event.writes thread)
      (fun reached taken => (complete.run run reached).2.pays_thread taken thread) further
    exact Nat.le_of_add_right_le spent
  · have spent := Budget.Run.spends_le (State.load setup) Event.movesBlock
      (fun reached taken => (complete.run run reached).2.pays (run.append reached) taken) further
    have threads : ∑ thread ∈ Finset.Icc 1 setup.cfg.numMiners, (full.miners thread).phase.load ≤
        (Finset.Icc 1 setup.cfg.numMiners).card * 1 :=
      Budget.sum_le_card_mul (fun miner : MinerThread setup.txs => miner.phase.load)
        (fun miner => by cases miner.phase <;> simp [MinerPhase.load]) full.miners
    have validators : ∑ num ∈ Finset.Icc 1 setup.maxValidators, (full.validators num).load ≤
        (Finset.Icc 1 setup.maxValidators).card * 2 :=
      Budget.sum_le_card_mul ValidatorPhase.load
        (fun phase => by cases phase <;> simp [ValidatorPhase.load]) full.validators
    rw [Nat.card_Icc] at threads validators
    unfold State.load at spent
    omega

/-- Two blocks, and a third one while thread 2 has read the same tip. -/
def lastBlockEvents : List Event :=
  [.start 1, .genesis 1, insertEvent 1] ++ mineEvents 1 [0] ++ validateEvents 1 ++ [insertEvent 1] ++
    mineEvents 1 [0] ++ validateEvents 1 ++ [insertEvent 1, insertEvent 1, .pollPool 2, .pollLedger 2,
      .select 2 [1], .readTip 2] ++ mineEvents 1 [0] ++ validateEvents 1

theorem lastBlock_executes :
    (exec (step smallSetup) (State.initial smallSetup) lastBlockEvents).isSome = true := by
  decide +kernel

def lastBlock : State smallSetup.txs := (exec _ _ _).get lastBlock_executes

theorem lastBlock_run : ∃ trace, SystemRun smallSetup trace lastBlock :=
  let ⟨trace, run, _⟩ := exec_run_get lastBlock_executes
  ⟨trace, run⟩

theorem lastBlock_count : lastBlock.ledger.count = smallSetup.cfg.blockchainBlocks := by
  decide +kernel

theorem lastBlock_free :
    HashChain.CollisionFree (computeSha256 smallSetup.sha256) lastBlock.ledger.blocks lastBlock.ledger.count := by
  have distinct : ((List.range smallSetup.cfg.blockchainBlocks).map fun k =>
      computeSha256 smallSetup.sha256 (lastBlock.ledger.blocks k)).Nodup := by decide +kernel
  rw [lastBlock_count]
  intro first firstBound second secondBound same
  rw [List.inj_on_of_nodup_map distinct (List.mem_range.mpr firstBound)
    (List.mem_range.mpr secondBound) same]

def restEvents : List Event := [.mine 2 0, .write 2 0, .read 1 [], .examine 1, .report 1]

theorem rest_executes : (exec (step smallSetup) lastBlock restEvents).isSome = true := by
  decide +kernel

theorem full_ledger_comes_to_rest_lastBlock : ∃ later final, Run (step smallSetup) lastBlock later final ∧
    later.map Prod.snd = restEvents ∧ final.ledger = lastBlock.ledger ∧
    (lastBlock.miners 2).phase.load = 1 ∧ (later.countP fun entry => entry.2.writes 2) ≤ 1 ∧
    (lastBlock.miners 1).phase.load = 0 ∧ (later.countP fun entry => entry.2.writes 1) ≤ 0 ∧
    (later.countP fun entry => entry.2.movesBlock) ≤ 4 * 2 + 3 * 0 + 2 * 3 := by
  obtain ⟨_, run⟩ := lastBlock_run
  obtain ⟨later, further, events⟩ := exec_run_get rest_executes
  have drained : lastBlock.pipe.length = 0 := by decide +kernel
  have inHand : (lastBlock.miners 2).phase.load = 1 ∧ (lastBlock.miners 1).phase.load = 0 := by decide +kernel
  obtain ⟨same, _, writes, moves⟩ :=
    full_ledger_comes_to_rest smallSetup run lastBlock_count lastBlock_free further
  rw [drained] at moves
  exact ⟨later, _, further, events, same, inHand.1, inHand.1 ▸ writes 2, inHand.2, inHand.2 ▸ writes 1, moves⟩

end

end DeiChain
