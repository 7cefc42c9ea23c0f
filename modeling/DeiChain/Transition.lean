import DeiChain.System

namespace DeiChain

open Data Systems

/-! # The transitions of the system

One constructor for each way a step can end, with the facts its section has
established. Every invariant is a case analysis on them; steps of a miner that
leave it without transactions in hand are one case.
-/

def MinerPhase.EmptyHanded {n : Nat} : MinerPhase n → Prop
  | .waiting | .polled _ | .ready | .finished => True
  | _ => False

def ValidatorPhase.Founded {n : Nat} : ValidatorPhase n → Prop
  | .absent | .starting | .exited => False
  | _ => True

inductive Transition (setup : Setup) (before : State setup.txs) :
    Event → State setup.txs → Prop where
  | refused {gen stack rand now}
      (full : ∀ slot pool, insertTransaction before.pool (newTransaction setup before gen stack rand now) ≠
        .added slot pool) :
      Transition setup before (.insert gen stack rand now) before
  | stored {gen stack rand now slot pool}
      (added : insertTransaction before.pool (newTransaction setup before gen stack rand now) =
        .added slot pool) :
      Transition setup before (.insert gen stack rand now)
        { before with
          pool
          txNumbers := Function.update before.txNumbers gen (before.txNumbers gen + 1)
          issued := before.issued ++ [(newTransaction setup before gen stack rand now).tx] }
  | rested {event thread phase} (own : event.thread? = some thread) (empty : phase.EmptyHanded) :
      Transition setup before event (before.withMiner thread phase)
  | selected {thread rands} {txs : List.Vector Transaction setup.txs}
      (chosen : selectTransactions before.pool setup.txs rands = some txs.toList) :
      Transition setup before (.select thread rands)
        (before.withMiner thread (.selected txs before.ledger.count))
  | drafted {thread txs countAtSelection}
      (held : (before.miners thread).phase = .selected txs countAtSelection)
      (room : before.ledger.count < setup.cfg.blockchainBlocks) :
      Transition setup before (.readTip thread)
        (before.withMiner thread
          (.mining (buildBlock thread (before.miners thread).blockNumber
            before.ledger.lastBlockHash txs) ⟨countAtSelection, before.ledger.count⟩)
          ((before.miners thread).blockNumber + 1))
  | retried {thread now block history}
      (held : (before.miners thread).phase = .mining block history)
      (failed : (proofOfWork setup.sha256 { block with timestamp := now }).2.error = 1) :
      Transition setup before (.mine thread now)
        (before.withMiner thread
          (.mining (proofOfWork setup.sha256 { block with timestamp := now }).1 history))
  | solved {thread now block history}
      (held : (before.miners thread).phase = .mining block history)
      (success : (proofOfWork setup.sha256 { block with timestamp := now }).2.error = 0) :
      Transition setup before (.mine thread now)
        (before.withMiner thread
          (.mined (proofOfWork setup.sha256 { block with timestamp := now }).1 history))
  | wrote {thread pointer block history}
      (held : (before.miners thread).phase = .mined block history) :
      Transition setup before (.write thread pointer)
        { before.withMiner thread .waiting with
          pipe := before.pipe ++ [⟨minerFrame pointer block, history⟩] }
  | started {num} (known : 1 ≤ num ∧ num ≤ setup.maxValidators)
      (idle : before.validators num = .absent ∨ before.validators num = .exited ∧ num ≠ 1) :
      Transition setup before (.start num) (before.withValidator num .starting)
  | created {num ledger} (starting : before.validators num = .starting)
      (empty : before.ledger.count = 0)
      (genesis : createGenesis setup.sha256 before.ledger = some ledger) :
      Transition setup before (.genesis num) { before.withValidator num .reading with ledger }
  | joined {num} (starting : before.validators num = .starting) (positive : 0 < before.ledger.count) :
      Transition setup before (.genesis num) (before.withValidator num .reading)
  | took {num residue frame pipe block} (reading : before.validators num = .reading)
      (front : before.pipe = frame :: pipe)
      (decoded : decodeFrame setup.txs residue frame.bytes = some block) :
      Transition setup before (.read num residue)
        { before.withValidator num (.received block frame.history) with pipe }
  | misread {num residue frame pipe} (reading : before.validators num = .reading)
      (front : before.pipe = frame :: pipe)
      (failed : decodeFrame setup.txs residue frame.bytes = none) :
      Transition setup before (.read num residue) { before.withValidator num .exited with pipe }
  | approved {num block history} (received : before.validators num = .received block history)
      (verified : verifyNonce setup.sha256 block = true) (tip : onTip before.ledger block = true) :
      Transition setup before (.examine num) (before.withValidator num (.checked block history))
  | refusedBlock {num block history} (received : before.validators num = .received block history)
      (fault : ¬ (verifyNonce setup.sha256 block = true ∧ onTip before.ledger block = true)) :
      Transition setup before (.examine num) (before.withValidator num (.rejecting block))
  | removed {num block history pool} (checked : before.validators num = .checked block history)
      (passed : poolPhase before.pool block = some pool) :
      Transition setup before (.poolPhase num)
        { before.withValidator num (.accepted block history) with pool }
  | unmatched {num block history} (checked : before.validators num = .checked block history)
      (failed : poolPhase before.pool block = none) :
      Transition setup before (.poolPhase num) (before.withValidator num (.rejecting block))
  | appended {num now block history} (accepted : before.validators num = .accepted block history)
      (tip : onTip before.ledger block = true) :
      Transition setup before (.ledgerPhase num now)
        { before.withValidator num (.inserted block (before.ledger.lastBlockIndex + 1) now) with
          ledger := appendBlock before.ledger block (computeSha256 setup.sha256 block) }
  | dropped {num now block history} (accepted : before.validators num = .accepted block history)
      (stale : onTip before.ledger block = false) :
      Transition setup before (.ledgerPhase num now) (before.withValidator num .reading)
  | reported {num}
      (pending : (∃ block, before.validators num = .rejecting block) ∨
        ∃ block index now, before.validators num = .inserted block index now) :
      Transition setup before (.report num) (before.withValidator num .reading)
  | left {num} (founded : (before.validators num).Founded)
      (unburdened : ∀ block history, before.validators num ≠ .accepted block history) :
      Transition setup before (.leave num) (before.withValidator num .exited)
  | killed {num} (alive : before.validators num ≠ .absent) :
      Transition setup before (.kill num) (before.withValidator num .exited)

section

variable {setup : Setup} {before after : State setup.txs}

theorem stepInsert_transition (gen : Nat) (stack : CharArray txIdLen) (rand : Nat) (now : Int64) :
    Transition setup before (.insert gen stack rand now) (stepInsert setup before gen stack rand now) := by
  unfold stepInsert
  dsimp only
  split
  · rename_i added
    exact .stored added
  · rename_i none
    exact .refused (by simp [none])
  · rename_i none
    exact .refused (by simp [none])

theorem stepPollPool_transition {thread : Nat} (taken : stepPollPool setup before thread = some after) :
    Transition setup before (.pollPool thread) after := by
  simp only [stepPollPool] at taken
  split at taken
  · split at taken
    · cases taken
      exact .rested rfl trivial
    · cases taken
  · cases taken

theorem stepPollLedger_transition {thread : Nat} (taken : stepPollLedger setup before thread = some after) :
    Transition setup before (.pollLedger thread) after := by
  simp only [stepPollLedger] at taken
  split at taken
  · split at taken
    · cases taken
      exact .rested rfl trivial
    · cases taken
      exact .rested rfl trivial
  · cases taken

theorem stepSelect_transition {thread : Nat} {rands : List Nat}
    (taken : stepSelect setup before thread rands = some after) :
    Transition setup before (.select thread rands) after := by
  simp only [stepSelect] at taken
  split at taken
  · split at taken
    · rename_i chosen
      split at taken
      · cases taken
        exact .selected chosen
      · cases taken
        exact .rested rfl trivial
    · cases taken
  · cases taken

theorem stepReadTip_transition {thread : Nat} (taken : stepReadTip setup before thread = some after) :
    Transition setup before (.readTip thread) after := by
  simp only [stepReadTip] at taken
  split at taken
  · rename_i held
    split at taken
    · rename_i room
      cases taken
      exact .drafted held room
    · cases taken
      exact .rested rfl trivial
  · cases taken

theorem stepMine_transition {thread : Nat} {now : Int64}
    (taken : stepMine setup before thread now = some after) :
    Transition setup before (.mine thread now) after := by
  simp only [stepMine] at taken
  split at taken
  · rename_i held
    split at taken
    · rename_i failed
      cases taken
      exact .retried held failed
    · rename_i notFailed
      cases taken
      exact .solved held ((powLoop_error _ _ _ _ _).resolve_right notFailed)
  · cases taken

theorem stepWrite_transition {thread : Nat} {pointer : UInt64}
    (taken : stepWrite setup before thread pointer = some after) :
    Transition setup before (.write thread pointer) after := by
  simp only [stepWrite] at taken
  split at taken
  · rename_i held
    cases taken
    exact .wrote held
  · cases taken

theorem stepAbandon_transition {thread : Nat} (taken : stepAbandon setup before thread = some after) :
    Transition setup before (.abandon thread) after := by
  simp only [stepAbandon] at taken
  split at taken
  · cases taken
    exact .rested rfl trivial
  · cases taken
    exact .rested rfl trivial
  · cases taken

theorem stepStart_transition {num : Nat} (taken : stepStart setup before num = some after) :
    Transition setup before (.start num) after := by
  simp only [stepStart] at taken
  split at taken
  · rename_i known
    split at taken
    · rename_i absent
      cases taken
      exact .started known (.inl absent)
    · rename_i exited
      split at taken
      · cases taken
      · rename_i extra
        cases taken
        exact .started known (.inr ⟨exited, extra⟩)
    · cases taken
  · cases taken

theorem stepGenesis_transition {num : Nat} (taken : stepGenesis setup before num = some after) :
    Transition setup before (.genesis num) after := by
  simp only [stepGenesis] at taken
  split at taken
  · rename_i starting
    split at taken
    · rename_i empty
      obtain ⟨ledger, genesis, rfl⟩ := Option.map_eq_some_iff.mp taken
      exact .created starting empty genesis
    · rename_i nonempty
      cases taken
      exact .joined starting (Nat.pos_of_ne_zero nonempty)
  · cases taken

theorem stepRead_transition {num : Nat} {residue : List UInt8}
    (taken : stepRead setup before num residue = some after) :
    Transition setup before (.read num residue) after := by
  simp only [stepRead] at taken
  split at taken
  · rename_i reading front
    split at taken
    · rename_i decoded
      cases taken
      exact .took reading front decoded
    · rename_i failed
      cases taken
      exact .misread reading front failed
  · cases taken

theorem stepExamine_transition {num : Nat} (taken : stepExamine setup before num = some after) :
    Transition setup before (.examine num) after := by
  simp only [stepExamine] at taken
  split at taken
  · rename_i received
    split at taken
    · rename_i passed
      cases taken
      exact .approved received passed.1 passed.2
    · rename_i fault
      cases taken
      exact .refusedBlock received fault
  · cases taken

theorem stepPoolPhase_transition {num : Nat} (taken : stepPoolPhase setup before num = some after) :
    Transition setup before (.poolPhase num) after := by
  simp only [stepPoolPhase] at taken
  split at taken
  · rename_i checked
    split at taken
    · rename_i passed
      cases taken
      exact .removed checked passed
    · rename_i failed
      cases taken
      exact .unmatched checked failed
  · cases taken

theorem stepLedgerPhase_transition {num : Nat} {now : Int64}
    (taken : stepLedgerPhase setup before num now = some after) :
    Transition setup before (.ledgerPhase num now) after := by
  simp only [stepLedgerPhase] at taken
  split at taken
  · rename_i accepted
    split at taken
    · rename_i tip
      cases taken
      exact .appended accepted tip
    · rename_i stale
      cases taken
      exact .dropped accepted (Bool.eq_false_iff.mpr stale)
  · cases taken

theorem stepReport_transition {num : Nat} (taken : stepReport setup before num = some after) :
    Transition setup before (.report num) after := by
  simp only [stepReport] at taken
  split at taken
  · rename_i block rejecting
    cases taken
    exact .reported (.inl ⟨block, rejecting⟩)
  · rename_i block index now inserted
    cases taken
    exact .reported (.inr ⟨block, index, now, inserted⟩)
  · cases taken

theorem stepLeave_transition {num : Nat} (taken : stepLeave setup before num = some after) :
    Transition setup before (.leave num) after := by
  simp only [stepLeave] at taken
  split at taken
  case h_5 => cases taken
  all_goals
    rename_i phase
    cases taken
    exact .left (by rw [phase]; trivial) (by simp [phase])

theorem stepKill_transition {num : Nat} (taken : stepKill setup before num = some after) :
    Transition setup before (.kill num) after := by
  simp only [stepKill] at taken
  split at taken
  · cases taken
  · cases taken
  · rename_i present _
    cases taken
    exact .killed present

theorem step_transition {event : Event} (taken : step setup before event = some after) :
    Transition setup before event after := by
  cases event with
  | insert gen stack rand now => exact Option.some.inj taken ▸ stepInsert_transition gen stack rand now
  | pollPool thread => exact stepPollPool_transition taken
  | pollLedger thread => exact stepPollLedger_transition taken
  | select thread rands => exact stepSelect_transition taken
  | readTip thread => exact stepReadTip_transition taken
  | mine thread now => exact stepMine_transition taken
  | write thread pointer => exact stepWrite_transition taken
  | abandon thread => exact stepAbandon_transition taken
  | start num => exact stepStart_transition taken
  | genesis num => exact stepGenesis_transition taken
  | read num residue => exact stepRead_transition taken
  | examine num => exact stepExamine_transition taken
  | poolPhase num => exact stepPoolPhase_transition taken
  | ledgerPhase num now => exact stepLedgerPhase_transition taken
  | report num => exact stepReport_transition taken
  | leave num => exact stepLeave_transition taken
  | kill num => exact stepKill_transition taken

end

section

variable {setup : Setup} {before after : State setup.txs} {event : Event}

theorem Transition.pool (taken : Transition setup before event after) :
    after.pool = before.pool ∨
      (∃ gen stack rand now slot, event = .insert gen stack rand now ∧
        insertTransaction before.pool (newTransaction setup before gen stack rand now) =
          .added slot after.pool) ∨
      ∃ num block history, event = .poolPhase num ∧ before.validators num = .checked block history ∧
        poolPhase before.pool block = some after.pool := by
  cases taken with
  | stored added => exact .inr (.inl ⟨_, _, _, _, _, rfl, added⟩)
  | removed checked passed => exact .inr (.inr ⟨_, _, _, rfl, checked, passed⟩)
  | _ => exact .inl rfl

theorem Transition.ledger (taken : Transition setup before event after) :
    after.ledger = before.ledger ∨
      (∃ num, event = .genesis num ∧ before.ledger.count = 0 ∧
        createGenesis setup.sha256 before.ledger = some after.ledger) ∨
      ∃ num now block history, event = .ledgerPhase num now ∧
        before.validators num = .accepted block history ∧ onTip before.ledger block = true ∧
        after.ledger = appendBlock before.ledger block (computeSha256 setup.sha256 block) := by
  cases taken with
  | created starting empty genesis => exact .inr (.inl ⟨_, rfl, empty, genesis⟩)
  | appended accepted tip => exact .inr (.inr ⟨_, _, _, _, rfl, accepted, tip, rfl⟩)
  | _ => exact .inl rfl

theorem Transition.pipe (taken : Transition setup before event after) {frame : Frame}
    (member : frame ∈ after.pipe) : frame ∈ before.pipe ∨
      ∃ thread pointer block, (before.miners thread).phase = .mined block frame.history ∧
        frame.bytes = minerFrame pointer block := by
  cases taken with
  | wrote held =>
      rcases List.mem_append.mp member with old | new
      · exact .inl old
      · cases List.mem_singleton.mp new
        exact .inr ⟨_, _, _, held, rfl⟩
  | took reading front decoded => exact .inl (front ▸ List.mem_cons_of_mem _ member)
  | misread reading front failed => exact .inl (front ▸ List.mem_cons_of_mem _ member)
  | _ => exact .inl member

inductive MinerMove (setup : Setup) (before after : State setup.txs) (thread : Nat) :
    MinerPhase setup.txs → Prop where
  | kept {phase} (same : (before.miners thread).phase = phase) : MinerMove setup before after thread phase
  | rested {phase} (empty : phase.EmptyHanded) : MinerMove setup before after thread phase
  | selected {txs : List.Vector Transaction setup.txs} {rands}
      (chosen : selectTransactions before.pool setup.txs rands = some txs.toList)
      (pool : after.pool = before.pool) (ledger : after.ledger = before.ledger)
      (validators : after.validators = before.validators) :
      MinerMove setup before after thread (.selected txs before.ledger.count)
  | drafted {txs countAtSelection blockNumber}
      (held : (before.miners thread).phase = .selected txs countAtSelection)
      (room : before.ledger.count < setup.cfg.blockchainBlocks) :
      MinerMove setup before after thread
        (.mining (buildBlock thread blockNumber before.ledger.lastBlockHash txs)
          ⟨countAtSelection, before.ledger.count⟩)
  | retried {block history now} (held : (before.miners thread).phase = .mining block history) :
      MinerMove setup before after thread
        (.mining (proofOfWork setup.sha256 { block with timestamp := now }).1 history)
  | solved {block history now} (held : (before.miners thread).phase = .mining block history)
      (success : (proofOfWork setup.sha256 { block with timestamp := now }).2.error = 0) :
      MinerMove setup before after thread
        (.mined (proofOfWork setup.sha256 { block with timestamp := now }).1 history)

theorem MinerMove.withMiner {thread other : Nat} (phase : MinerPhase setup.txs) {blockNumber : Nat}
    (move : MinerMove setup before after thread phase) :
    MinerMove setup before after other
      ((before.withMiner thread phase blockNumber).miners other).phase := by
  rw [State.withMiner_phase]
  split
  · rename_i same
    exact same ▸ move
  · exact .kept rfl

theorem Transition.miner (taken : Transition setup before event after) (thread : Nat) :
    MinerMove setup before after thread (after.miners thread).phase := by
  cases taken with
  | rested own empty => exact MinerMove.withMiner _ (.rested empty)
  | selected chosen => exact MinerMove.withMiner _ (.selected chosen rfl rfl rfl)
  | drafted held room => exact MinerMove.withMiner _ (.drafted held room)
  | retried held failed => exact MinerMove.withMiner _ (.retried held)
  | solved held success => exact MinerMove.withMiner _ (.solved held success)
  | wrote held => exact MinerMove.withMiner .waiting (.rested trivial)
  | _ => exact .kept rfl

def ValidatorPhase.Streamed {n : Nat} (phase : ValidatorPhase n) (block : TransactionBlock n)
    (history : History) : Prop :=
  phase = .received block history ∨ phase = .checked block history ∨ phase = .accepted block history

/-- The phases a validator can be in after a step, by the move that leads there. -/
inductive ValidatorMove (setup : Setup) (before : State setup.txs) (event : Event)
    (after : State setup.txs) (num : Nat) : ValidatorPhase setup.txs → Prop where
  | kept {phase} (same : before.validators num = phase) : ValidatorMove setup before event after num phase
  | started (own : event = .start num) (known : 1 ≤ num ∧ num ≤ setup.maxValidators)
      (idle : before.validators num = .absent ∨ before.validators num = .exited ∧ num ≠ 1) :
      ValidatorMove setup before event after num .starting
  | founded (starting : before.validators num = .starting) (positive : 0 < after.ledger.count) :
      ValidatorMove setup before event after num .reading
  | took {residue frame block} (reading : before.validators num = .reading)
      (member : frame ∈ before.pipe)
      (decoded : decodeFrame setup.txs residue frame.bytes = some block) :
      ValidatorMove setup before event after num (.received block frame.history)
  | approved {block history} (received : before.validators num = .received block history)
      (tip : onTip before.ledger block = true) (ledger : after.ledger = before.ledger) :
      ValidatorMove setup before event after num (.checked block history)
  | removed {block history} (own : event = .poolPhase num)
      (checked : before.validators num = .checked block history)
      (passed : poolPhase before.pool block = some after.pool) (ledger : after.ledger = before.ledger) :
      ValidatorMove setup before event after num (.accepted block history)
  | rejected {block history} (streamed : before.validators num = .received block history ∨
      before.validators num = .checked block history) :
      ValidatorMove setup before event after num (.rejecting block)
  | appended {block history index now} (own : event = .ledgerPhase num now)
      (accepted : before.validators num = .accepted block history)
      (count : after.ledger.count = before.ledger.count + 1) :
      ValidatorMove setup before event after num (.inserted block index now)
  | dropped {block history now} (own : event = .ledgerPhase num now)
      (accepted : before.validators num = .accepted block history)
      (stale : onTip before.ledger block = false) :
      ValidatorMove setup before event after num .reading
  | reported (pending : (∃ block, before.validators num = .rejecting block) ∨
      ∃ block index now, before.validators num = .inserted block index now) :
      ValidatorMove setup before event after num .reading
  | exited (present : before.validators num ≠ .absent) :
      ValidatorMove setup before event after num .exited

theorem ValidatorMove.withValidator {num other : Nat} (phase : ValidatorPhase setup.txs)
    (move : ValidatorMove setup before event after num phase) :
    ValidatorMove setup before event after other ((before.withValidator num phase).validators other) := by
  rw [State.withValidator_validators]
  split
  · rename_i same
    exact same ▸ move
  · exact .kept rfl

theorem Transition.validator (taken : Transition setup before event after) (num : Nat) :
    ValidatorMove setup before event after num (after.validators num) := by
  cases taken with
  | started known idle => exact ValidatorMove.withValidator _ (.started rfl known idle)
  | created starting empty genesis =>
      exact ValidatorMove.withValidator _ (.founded starting (createGenesis_positive genesis))
  | joined starting positive => exact ValidatorMove.withValidator _ (.founded starting positive)
  | took reading front decoded =>
      exact ValidatorMove.withValidator _ (.took reading (front ▸ List.mem_cons_self) decoded)
  | misread reading front failed =>
      exact ValidatorMove.withValidator .exited (.exited (by simp [reading]))
  | approved received verified tip => exact ValidatorMove.withValidator _ (.approved received tip rfl)
  | refusedBlock received fault => exact ValidatorMove.withValidator _ (.rejected (.inl received))
  | removed checked passed => exact ValidatorMove.withValidator _ (.removed rfl checked passed rfl)
  | unmatched checked failed => exact ValidatorMove.withValidator _ (.rejected (.inr checked))
  | appended accepted tip => exact ValidatorMove.withValidator _ (.appended rfl accepted rfl)
  | dropped accepted stale => exact ValidatorMove.withValidator _ (.dropped rfl accepted stale)
  | reported pending => exact ValidatorMove.withValidator _ (.reported pending)
  | left founded unburdened =>
      refine ValidatorMove.withValidator _ (.exited fun absent => ?_)
      rw [absent] at founded
      exact founded
  | killed alive => exact ValidatorMove.withValidator _ (.exited alive)
  | _ => exact .kept rfl

theorem ValidatorMove.known {num : Nat} {phase : ValidatorPhase setup.txs}
    (move : ValidatorMove setup before event after num phase) (present : phase ≠ .absent) :
    before.validators num ≠ .absent ∨
      event = .start num ∧ 1 ≤ num ∧ num ≤ setup.maxValidators := by
  cases move with
  | kept same => exact .inl (same ▸ present)
  | started own known => exact .inr ⟨own, known⟩
  | rejected streamed => exact .inl fun absent => by simp [absent] at streamed
  | reported pending => exact .inl fun absent => by simp [absent] at pending
  | exited wasPresent => exact .inl wasPresent
  | founded phase | took phase | approved phase | removed _ phase | appended _ phase | dropped _ phase =>
      exact .inl (by simp [phase])

theorem Transition.poolPhase_accepts {num : Nat} {pool : TransactionPool}
    {block : TransactionBlock setup.txs} {history : History}
    (taken : Transition setup before (.poolPhase num) after)
    (checked : before.validators num = .checked block history)
    (passed : poolPhase before.pool block = some pool) :
    after.validators num = .accepted block history := by
  cases taken with
  | rested own => cases own
  | removed same =>
      cases same.symm.trans checked
      exact (State.withValidator_validators _ _ _ _).trans (if_pos rfl)
  | unmatched same failed =>
      cases same.symm.trans checked
      rw [failed] at passed
      cases passed

theorem Transition.ledgerPhase_releases {num : Nat} {now : Int64}
    (taken : Transition setup before (.ledgerPhase num now) after) (block : TransactionBlock setup.txs)
    (history : History) : after.validators num ≠ .accepted block history := by
  cases taken with
  | rested own => cases own
  | appended => simp
  | dropped => simp

theorem Transition.validator_other (taken : Transition setup before event after) {num : Nat}
    (other : event.validator? ≠ some num) : after.validators num = before.validators num := by
  have elsewhere {acting : Nat} (phase : ValidatorPhase setup.txs) (own : some acting ≠ some num) :
      (before.withValidator acting phase).validators num = before.validators num := by
    rw [State.withValidator_validators, if_neg fun same => own (congrArg some same.symm)]
  cases taken with
  | started | joined | approved | refusedBlock | unmatched | dropped | reported | left | killed =>
      exact elsewhere _ other
  | created => exact elsewhere .reading other
  | took => exact elsewhere (.received _ _) other
  | misread => exact elsewhere .exited other
  | removed => exact elsewhere (.accepted _ _) other
  | appended => exact elsewhere (.inserted _ _ _) other
  | _ => rfl

theorem Transition.received_read (taken : Transition setup before event after) {num : Nat}
    {block : TransactionBlock setup.txs} {history : History} (reading : before.validators num = .reading)
    (received : after.validators num = .received block history) : ∃ residue, event = .read num residue := by
  by_cases own : event.validator? = some num
  · cases taken with
    | took => cases own; exact ⟨_, rfl⟩
    | started | created | joined | misread | approved | refusedBlock | removed | unmatched | appended
    | dropped | reported | left | killed => cases own; simp at received
    | _ => cases reading.symm.trans received
  · rw [taken.validator_other own, reading] at received
    cases received

theorem SystemRun.validator_known {final : State setup.txs} {trace : List (State setup.txs × Event)}
    (run : SystemRun setup trace final) (num : Nat) (present : final.validators num ≠ .absent) :
    1 ≤ num ∧ num ≤ setup.maxValidators := by
  refine Run.invariant
    (fun state => state.validators num ≠ .absent → 1 ≤ num ∧ num ≤ setup.maxValidators)
    (fun absent => absurd rfl absent) (fun before event after held taken present => ?_) run present
  exact (((step_transition taken).validator num).known present).elim held And.right

end

end DeiChain
