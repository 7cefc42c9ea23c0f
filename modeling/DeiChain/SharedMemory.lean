import DeiChain.Segments

namespace DeiChain

open Data Systems Systems.Sections

/-! # The system over mapped memory

The same steps with the two segments as bytes. A process sees them through its
interfaces and leaves in them what the assignments of its section store; in
between anybody may be making an interface of the ledger.
-/

/-- A state without the segments. -/
structure Locals (n : Nat) where
  pipe : List Frame
  txNumbers : Nat → Nat
  miners : Nat → MinerThread n
  validators : Nat → ValidatorPhase n
  issued : List Transaction

def State.locals {n : Nat} (state : State n) : Locals n :=
  { pipe := state.pipe
    txNumbers := state.txNumbers
    miners := state.miners
    validators := state.validators
    issued := state.issued }

def Locals.withSegments {n : Nat} (locals : Locals n) (pool : TransactionPool) (ledger : Ledger n) : State n :=
  { pool
    ledger
    pipe := locals.pipe
    txNumbers := locals.txNumbers
    miners := locals.miners
    validators := locals.validators
    issued := locals.issued }

structure Mapped (n : Nat) where
  locals : Locals n
  pool : Memory
  ledger : Memory

/-- What the processes have before them. -/
def Mapped.view {n : Nat} (mapped : Mapped n) : State n :=
  mapped.locals.withSegments (viewPool mapped.pool) (viewLedger n mapped.ledger)

section

variable (setup : Setup)

def Mapped.initial : Mapped setup.txs where
  locals := (State.initial setup).locals
  pool := poolSegment setup.cfg
  ledger := ledgerSegment setup.cfg

variable (state : State setup.txs)

def poolWrites : Event → List Assignment
  | .insert gen stack rand now => insertionWrites state.pool (newTransaction setup state gen stack rand now)
  | .poolPhase num =>
      match state.validators num with
      | .checked block _ => poolPhaseWrites state.pool block
      | _ => []
  | _ => []

def ledgerWrites : Event → List Assignment
  | .genesis _ => if state.ledger.count = 0 then genesisWrites setup.txs setup.sha256 else []
  | .ledgerPhase num _ =>
      match state.validators num with
      | .accepted block _ =>
          if onTip state.ledger block then
            appendWrites (state.ledger.lastBlockIndex + 1) block (computeSha256 setup.sha256 block)
          else []
      | _ => []
  | _ => []

end

/-- A step of the system, or a store of a process that makes an interface. -/
inductive Access where
  | system (event : Event)
  | place (block : Nat)
deriving DecidableEq

def Access.event? : Access → Option Event
  | .system event => some event
  | .place _ => none

section

variable (setup : Setup) (mapped : Mapped setup.txs)

def stepMapped (event : Event) : Option (Mapped setup.txs) :=
  (step setup mapped.view event).map fun after =>
    { locals := after.locals
      pool := mapped.pool.run (poolWrites setup mapped.view event)
      ledger := mapped.ledger.run (ledgerWrites setup mapped.view event) }

def stepAccess : Access → Option (Mapped setup.txs)
  | .system event => stepMapped setup mapped event
  | .place block =>
      ((interfaceWrites setup.txs mapped.ledger)[block]?).map fun assignment =>
        { mapped with ledger := mapped.ledger.assign assignment }

/-- Every store of the step is to the segment it is meant for. -/
def Access.Inside : Access → Prop
  | .system event =>
      (∀ assignment ∈ poolWrites setup mapped.view event,
        StaysInside (shmTransactionspoolSize setup.cfg) assignment) ∧
      ∀ assignment ∈ ledgerWrites setup mapped.view event, StaysInside (shmLedgerSize setup.cfg) assignment
  | .place block =>
      ∀ assignment, (interfaceWrites setup.txs mapped.ledger)[block]? = some assignment →
        StaysInside (shmLedgerSize setup.cfg) assignment

end

section

variable {setup : Setup} {before after : State setup.txs} {event : Event} {memory : Memory}

theorem createGenesis_success {n : Nat} {sha256 : Sha256} {ledger after : Ledger n}
    (created : createGenesis sha256 ledger = some after) :
    (proofOfWork sha256 (TransactionBlock.zero n)).2.error = 0 := by
  by_contra failed
  rw [createGenesis] at created
  simp only [ne_eq, failed, not_false_eq_true, if_true] at created
  cases created

theorem Transition.pool_realized (taken : Transition setup before event after)
    (fits : poolBytes setup.cfg < 2 ^ 31) (sized : before.pool.size = setup.cfg.transactionPoolSize) :
    List.Forall₂ (PoolRealizes setup.cfg) (poolWrites setup before event)
      (DeiChain.poolStores setup before event) := by
  have flag : ∀ gen stack rand now, (Int32.ofInt (newTransaction setup before gen stack rand now).filled).toInt =
      (newTransaction setup before gen stack rand now).filled := fun _ _ _ _ => by
    change (Int32.ofInt 1).toInt = 1
    decide
  cases taken with
  | refused | stored => exact insertion_realized fits sized (flag _ _ _ _)
  | rested own => cases event <;> first | exact .nil | cases own
  | removed checked | unmatched checked =>
      simp only [poolWrites, DeiChain.poolStores, checked]
      exact poolPhase_realized fits sized _
  | _ => exact .nil

/-- What a step may do to the ledger. -/
theorem Transition.ledger_cases (taken : Transition setup before event after) :
    ledgerWrites setup before event = [] ∧ DeiChain.ledgerStores setup before event = [] ∨
      ledgerWrites setup before event = genesisWrites setup.txs setup.sha256 ∧
        DeiChain.ledgerStores setup before event = genesisStores setup.sha256 ∧
        (proofOfWork setup.sha256 (TransactionBlock.zero setup.txs)).2.error = 0 ∨
      ∃ num block history, before.validators num = .accepted block history ∧
        onTip before.ledger block = true ∧
        ledgerWrites setup before event =
          appendWrites (before.ledger.lastBlockIndex + 1) block (computeSha256 setup.sha256 block) ∧
        DeiChain.ledgerStores setup before event =
          appendStores (before.ledger.lastBlockIndex + 1) block (computeSha256 setup.sha256 block) := by
  cases taken with
  | rested own => cases event <;> first | exact .inl ⟨rfl, rfl⟩ | cases own
  | created starting empty genesis =>
      refine .inr (.inl ⟨?_, ?_, createGenesis_success genesis⟩)
      · simp only [ledgerWrites, empty, if_true]
      · simp only [DeiChain.ledgerStores, empty, if_true]
  | joined starting positive =>
      left
      simp only [ledgerWrites, DeiChain.ledgerStores, Nat.ne_of_gt positive, if_false, and_self]
  | appended accepted tip =>
      refine .inr (.inr ⟨_, _, _, accepted, tip, ?_, ?_⟩)
      · simp only [ledgerWrites, accepted, tip, if_true]
      · simp only [DeiChain.ledgerStores, accepted, tip, if_true]
  | dropped accepted stale =>
      left
      simp only [ledgerWrites, DeiChain.ledgerStores, accepted, stale, Bool.false_eq_true, if_false, and_self]
  | _ => exact .inl ⟨rfl, rfl⟩

/-- What holds of the bytes and of what is seen of them, in whole runs. -/
structure Mapped.Held (setup : Setup) (mapped : Mapped setup.txs) : Prop where
  poolHeader : PoolHeader setup.cfg mapped.pool
  ledgerHeader : LedgerHeader setup.cfg mapped.ledger
  sound : mapped.view.pool.Sound setup.cfg.transactionPoolSize
  chain : ChainInvariant setup mapped.view
  room : mapped.view.ledger.count ≤ setup.cfg.blockchainBlocks

/-- The newest hash stands for one height only. -/
def State.Unambiguous (setup : Setup) (state : State setup.txs) : Prop :=
  HashChain.CollisionFree (computeSha256 setup.sha256) state.ledger.blocks state.ledger.count

theorem ChainInvariant.append_room (chain : ChainInvariant setup before)
    (unambiguous : before.Unambiguous) {num : Nat} {block : TransactionBlock setup.txs} {history : History}
    (accepted : before.validators num = .accepted block history) (tip : onTip before.ledger block = true) :
    before.ledger.lastBlockIndex + 1 = before.ledger.count ∧ before.ledger.count < setup.cfg.blockchainBlocks := by
  have draft := (chain.streams num block history (.inr (.inr accepted))).toDraft
  have height := chain.tip_height draft unambiguous tip
  have positive := chain.founded num (accepted ▸ trivial)
  have index := chain.chained.index
  have room := draft.room
  constructor <;> omega

theorem Transition.room (taken : Transition setup before event after) (chain : ChainInvariant setup before)
    (unambiguous : before.Unambiguous) (room : before.ledger.count ≤ setup.cfg.blockchainBlocks) :
    after.ledger.count ≤ setup.cfg.blockchainBlocks := by
  rcases taken.ledger with same | ⟨_, _, empty, genesis⟩ | ⟨num, _, block, history, _, accepted, tip, same⟩
  · rw [same]
    exact room
  · rw [(createGenesis_spec chain.chained empty genesis).2.1]
    exact Nat.le_trans (by decide) setup.cfg.twoBlocks
  · rw [same]
    exact (chain.append_room unambiguous accepted tip).2

theorem Transition.ledger_realized (taken : Transition setup before event after)
    (fits : ledgerBytes setup.cfg setup.cfg.blockchainBlocks < 2 ^ 31) (chain : ChainInvariant setup before)
    (unambiguous : before.Unambiguous) (header : LedgerHeader setup.cfg memory)
    (seen : viewLedger setup.txs memory = before.ledger) :
    (LedgerHeader setup.cfg (memory.run (ledgerWrites setup before event)) ∧
        viewLedger setup.txs (memory.run (ledgerWrites setup before event)) = after.ledger) ∧
      ∀ assignment ∈ ledgerWrites setup before event, StaysInside (shmLedgerSize setup.cfg) assignment := by
  rw [taken.ledgerStores, ← seen]
  rcases taken.ledger_cases with ⟨writes, stores⟩ | ⟨writes, stores, success⟩ |
    ⟨num, block, history, accepted, tip, writes, stores⟩
  · rw [writes, stores]
    exact ⟨⟨header, rfl⟩, by simp⟩
  · rw [writes, stores]
    have each := genesis_realized fits setup.sha256 success
    exact ⟨realizes_run each header, realizes_inside each⟩
  · rw [writes, stores]
    obtain ⟨next, room⟩ := chain.append_room unambiguous accepted tip
    have inLedger : before.ledger.lastBlockIndex + 1 < setup.cfg.blockchainBlocks := next ▸ room
    have padded := (chain.streams num block history (.inr (.inr accepted))).padded
    have terminated : (cstr (computeSha256 setup.sha256 block).toList).length < hashSize := by
      rw [cstr_computeSha256_length]
      decide
    have small := setup.cfg.blocksInt
    refine ⟨append_seen fits inLedger padded terminated header ?_ ?_, append_inside fits inLedger padded terminated⟩
    · change (viewLedger setup.txs memory).lastBlockIndex < 2 ^ 31
      rw [seen]
      omega
    · change (viewLedger setup.txs memory).count < 2 ^ 31
      rw [seen]
      omega

end

section

variable {setup : Setup} {before after : Mapped setup.txs}

theorem layoutFits_lt {cfg : Config} (fits : LayoutFits cfg) :
    poolBytes cfg < 2 ^ 31 ∧ ledgerBytes cfg cfg.blockchainBlocks < 2 ^ 31 :=
  ⟨Nat.lt_of_not_le fun wide => not_layoutFits_of_pool wide fits,
    Nat.lt_of_not_le fun wide => not_layoutFits_of_ledger wide fits⟩

theorem Mapped.initial_view (fits : ledgerBytes setup.cfg setup.cfg.blockchainBlocks < 2 ^ 31) :
    (Mapped.initial setup).view = State.initial setup := by
  simp only [Mapped.view, Mapped.initial, viewPool_segment, viewLedger_segment fits]
  rfl

theorem Mapped.initial_held (fits : ledgerBytes setup.cfg setup.cfg.blockchainBlocks < 2 ^ 31) :
    (Mapped.initial setup).Held := by
  have start := Mapped.initial_view fits
  refine ⟨poolSegment_header _, ledgerSegment_header _, ?_, ?_, ?_⟩
  · rw [start]
    exact TransactionPool.initial_sound _
  · rw [start]
    exact ChainInvariant.initial setup
  · rw [start]
    exact Nat.zero_le _

/-- A section on the bytes is the section on what they show. -/
theorem Mapped.Held.section_step (held : before.Held) (fits : LayoutFits setup.cfg)
    (unambiguous : before.view.Unambiguous) {event : Event} (taken : stepMapped setup before event = some after) :
    (Access.system event).Inside setup before ∧ after.Held ∧ step setup before.view event = some after.view := by
  obtain ⟨poolFits, ledgerFits⟩ := layoutFits_lt fits
  obtain ⟨result, stepped, rfl⟩ := Option.map_eq_some_iff.mp taken
  have transition := step_transition stepped
  have stores := transition.pool_realized poolFits held.sound.sized
  obtain ⟨poolHeader, poolSeen⟩ := realizes_run stores held.poolHeader
  obtain ⟨⟨ledgerHeader, ledgerSeen⟩, ledgerInside⟩ :=
    transition.ledger_realized ledgerFits held.chain unambiguous held.ledgerHeader rfl
  have pool : viewPool (before.pool.run (poolWrites setup before.view event)) = result.pool :=
    poolSeen.trans transition.poolStores.symm
  generalize viewed : ({ locals := result.locals
                         pool := before.pool.run (poolWrites setup before.view event)
                         ledger := before.ledger.run (ledgerWrites setup before.view event) } :
    Mapped setup.txs) = next
  have same : next.view = result := calc
    next.view = result.locals.withSegments (viewPool (before.pool.run (poolWrites setup before.view event)))
        (viewLedger setup.txs (before.ledger.run (ledgerWrites setup before.view event))) := by
      rw [← viewed]
      rfl
    _ = result.locals.withSegments result.pool result.ledger := by rw [pool, ledgerSeen]
    _ = result := rfl
  refine ⟨⟨realizes_inside stores, ledgerInside⟩, ⟨?_, ?_, ?_, ?_, ?_⟩, same ▸ stepped⟩
  · exact viewed ▸ poolHeader
  · exact viewed ▸ ledgerHeader
  · exact same ▸ transition.pool_sound held.sound
  · exact same ▸ held.chain.step held.sound transition
  · exact same ▸ transition.room held.chain unambiguous held.room

/-- An interface may be made at any time: nobody sees it. -/
theorem Mapped.Held.place_step (held : before.Held) (fits : LayoutFits setup.cfg) {block : Nat}
    (taken : stepAccess setup before (.place block) = some after) :
    (Access.place block).Inside setup before ∧ after.Held ∧ after.view = before.view := by
  have walked := interface_realized (layoutFits_lt fits).2 held.ledgerHeader
  obtain ⟨assignment, found, rfl⟩ := Option.map_eq_some_iff.mp taken
  have realizes := walked assignment (List.mem_of_getElem? found)
  have same : ({ before with ledger := before.ledger.assign assignment } : Mapped setup.txs).view = before.view :=
    congrArg (before.locals.withSegments (viewPool before.pool))
      (realizes.seen before.ledger held.ledgerHeader)
  refine ⟨?_, ⟨held.poolHeader, realizes.kept _ held.ledgerHeader, ?_, ?_, ?_⟩, same⟩
  · intro other here
    cases here.symm.trans found
    exact realizes.inside
  · exact same ▸ held.sound
  · exact same ▸ held.chain
  · exact same ▸ held.room

end

section

variable {setup : Setup} {final : Mapped setup.txs} {trace : List (Mapped setup.txs × Access)}

theorem run_held (fits : LayoutFits setup.cfg) (run : Run (stepAccess setup) (Mapped.initial setup) trace final)
    (unambiguous : ∀ entry ∈ trace, entry.1.view.Unambiguous) : final.Held := by
  apply Run.invariant_of_allowed (Mapped.Held setup) (fun before _ => before.view.Unambiguous)
    (Mapped.initial_held (layoutFits_lt fits).2) ?_ run unambiguous
  intro before action after held allowed taken
  cases action with
  | system event => exact (held.section_step fits allowed taken).2.1
  | place block => exact (held.place_step fits taken).2.1

theorem recorded_held (fits : LayoutFits setup.cfg)
    (run : Run (stepAccess setup) (Mapped.initial setup) trace final)
    (unambiguous : ∀ entry ∈ trace, entry.1.view.Unambiguous) : ∀ entry ∈ trace, entry.1.Held := by
  intro entry member
  obtain ⟨earlier, reached, allowed⟩ := run.before unambiguous member
  exact run_held fits reached allowed

theorem run_seen (fits : LayoutFits setup.cfg) (run : Run (stepAccess setup) (Mapped.initial setup) trace final)
    (unambiguous : ∀ entry ∈ trace, entry.1.view.Unambiguous) :
    SystemRun setup
      (trace.filterMap fun entry => entry.2.event?.map fun event => (entry.1.view, event)) final.view := by
  have held := recorded_held fits run unambiguous
  rw [SystemRun, ← Mapped.initial_view (layoutFits_lt fits).2]
  apply run.viewed Mapped.view Access.event?
  · intro entry member after taken silent
    obtain ⟨before, action⟩ := entry
    cases action with
    | system event => cases silent
    | place block => exact ((held _ member).place_step fits taken).2.2
  · intro entry member after event taken own
    obtain ⟨before, action⟩ := entry
    cases action with
    | system event =>
        cases own
        exact ((held _ member).section_step fits (unambiguous _ member) taken).2.2
    | place block => cases own

theorem run_inside (fits : LayoutFits setup.cfg) (run : Run (stepAccess setup) (Mapped.initial setup) trace final)
    (unambiguous : ∀ entry ∈ trace, entry.1.view.Unambiguous) : ∀ entry ∈ trace, entry.2.Inside setup entry.1 := by
  have held := recorded_held fits run unambiguous
  intro entry member
  obtain ⟨before, action⟩ := entry
  obtain ⟨_, _, after, _, _, taken, _⟩ := run.recorded member
  cases action with
  | system event => exact ((held _ member).section_step fits (unambiguous _ member) taken).1
  | place block => exact ((held _ member).place_step fits taken).1

/-- And every run of the system can be had on the bytes. -/
theorem run_mapped (fits : LayoutFits setup.cfg) {views : List (State setup.txs × Event)} {last : State setup.txs}
    (run : SystemRun setup views last) (unambiguous : ∀ entry ∈ views, entry.1.Unambiguous) :
    ∃ trace final, Run (stepAccess setup) (Mapped.initial setup) trace final ∧ final.Held ∧ final.view = last ∧
      (trace.map fun entry => (entry.1.view, entry.2)) = views.map fun entry => (entry.1, .system entry.2) := by
  induction run with
  | nil =>
      have small := (layoutFits_lt fits).2
      exact ⟨[], Mapped.initial setup, .nil, Mapped.initial_held small, Mapped.initial_view small, rfl⟩
  | @snoc earlierViews before event after earlier taken ih =>
      obtain ⟨trace, reached, mapped, held, rfl, same⟩ :=
        ih fun entry member => unambiguous entry (List.mem_append_left _ member)
      obtain ⟨next, stepped⟩ : ∃ next, stepMapped setup reached event = some next := by
        rw [stepMapped, taken]
        exact ⟨_, rfl⟩
      have own : reached.view.Unambiguous := unambiguous (reached.view, event) (by simp)
      have accessed : stepAccess setup reached (.system event) = some next := stepped
      obtain ⟨_, heldNext, viewed⟩ := held.section_step fits own stepped
      have arrived : next.view = after := Option.some_inj.mp (viewed.symm.trans taken)
      refine ⟨trace ++ [(reached, .system event)], next, mapped.snoc accessed, heldNext, arrived, ?_⟩
      rw [List.map_append, List.map_append, same]
      rfl

/-- In segments whose sizes are not too large the bytes are only another way to
hold the pool and the ledger: what the processes see is a run of the system, and
no store is to anything but the segment. -/
theorem mapped_run_refines (fits : LayoutFits setup.cfg)
    (run : Run (stepAccess setup) (Mapped.initial setup) trace final)
    (unambiguous : ∀ entry ∈ trace, entry.1.view.Unambiguous) :
    SystemRun setup
      (trace.filterMap fun entry => entry.2.event?.map fun event => (entry.1.view, event)) final.view ∧
      ∀ entry ∈ trace, entry.2.Inside setup entry.1 :=
  ⟨run_seen fits run unambiguous, run_inside fits run unambiguous⟩

theorem firstBlock_unambiguous : firstBlock.Unambiguous := by
  have count : firstBlock.ledger.count = 2 := by decide +kernel
  have different : computeSha256 smallSetup.sha256 (firstBlock.ledger.blocks 0) ≠
      computeSha256 smallSetup.sha256 (firstBlock.ledger.blocks 1) := by decide +kernel
  rw [State.Unambiguous, count]
  intro first firstBound second secondBound same
  have small : (first = 0 ∨ first = 1) ∧ (second = 0 ∨ second = 1) := by omega
  obtain ⟨rfl | rfl, rfl | rfl⟩ := small
  · rfl
  · exact absurd same different
  · exact absurd same.symm different
  · rfl

theorem firstBlock_mapped : ∃ trace final,
    Run (stepAccess smallSetup) (Mapped.initial smallSetup) trace final ∧ final.view = firstBlock ∧
      ∀ entry ∈ trace, entry.1.view.Unambiguous := by
  obtain ⟨views, run, _⟩ := firstBlock_run
  have fits : LayoutFits smallSetup.cfg := layoutFits_of_lt (by decide) (by decide)
  have unambiguous : ∀ entry ∈ views, entry.1.Unambiguous := fun entry member =>
    (run.grows entry member).collisionFree firstBlock_unambiguous
  obtain ⟨trace, final, mapped, _, seen, same⟩ := run_mapped fits run unambiguous
  refine ⟨trace, final, mapped, seen, fun entry member => ?_⟩
  have listed : (entry.1.view, entry.2) ∈ views.map fun entry => (entry.1, Access.system entry.2) :=
    same ▸ List.mem_map_of_mem member
  obtain ⟨prior, priorMember, equal⟩ := List.mem_map.mp listed
  rw [← (Prod.mk.inj equal).1]
  exact unambiguous prior priorMember

theorem mapped_run_refines_after_first_block : ∃ trace final,
    Run (stepAccess smallSetup) (Mapped.initial smallSetup) trace final ∧ final.view = firstBlock ∧
      ∀ entry ∈ trace, entry.2.Inside smallSetup entry.1 := by
  obtain ⟨trace, final, mapped, seen, viewed⟩ := firstBlock_mapped
  have fits : LayoutFits smallSetup.cfg := layoutFits_of_lt (by decide) (by decide)
  exact ⟨trace, final, mapped, seen, (mapped_run_refines fits mapped viewed).2⟩

end

def Mapped.segments {n : Nat} (mapped : Mapped n) : Segment → Memory
  | .pool => mapped.pool
  | .ledger => mapped.ledger

section

variable (setup : Setup) (mapped : Mapped setup.txs)

def segmentWrites (event : Event) : Segment → List Assignment
  | .pool => poolWrites setup mapped.view event
  | .ledger => ledgerWrites setup mapped.view event

variable {setup mapped} {after : Mapped setup.txs} {event : Event}

theorem stepMapped_segments (taken : stepMapped setup mapped event = some after) (segment : Segment) :
    after.segments segment = (mapped.segments segment).run (segmentWrites setup mapped event segment) := by
  obtain ⟨_, _, rfl⟩ := Option.map_eq_some_iff.mp taken
  cases segment <;> rfl

theorem segmentWrites_scope {segment : Segment} (other : event.scope ≠ some segment) :
    segmentWrites setup mapped event segment = [] := by
  cases segment <;> cases event <;> first | rfl | exact absurd rfl other

end

/-- The sections on the bytes, to be taken apart into their stores. -/
def mappedProgram (setup : Setup) : Program (Mapped setup.txs) Event Process Segment fun _ => Memory where
  step := stepMapped setup
  memory := Mapped.segments
  withMemory mapped values := { mapped with pool := values .pool, ledger := values .ledger }
  memory_withMemory := by
    intro mapped values
    funext segment
    cases segment <;> rfl
  withMemory_memory := fun _ => rfl
  withMemory_withMemory := fun _ _ _ => rfl
  process := Event.process
  scope := Event.scope
  ends
    | .kill _ => true
    | _ => false
  stores mapped event segment :=
    (segmentWrites setup mapped event segment).map fun assignment memory => memory.assign assignment
  frame := by
    intro mapped event after unscoped taken
    funext segment
    rw [stepMapped_segments taken, segmentWrites_scope (by simp [unscoped])]
    rfl
  effect := by
    intro mapped event after segment own taken
    funext other
    rw [stepMapped_segments taken]
    by_cases here : other = segment
    · subst here
      rw [Function.update_self, runStores, List.foldl_map]
      rfl
    · have elsewhere : event.scope ≠ some other := by simpa [own] using Ne.symm here
      rw [Function.update_of_ne here, segmentWrites_scope elsewhere]
      rfl

def segmentSize (cfg : Config) : Segment → Int
  | .pool => shmTransactionspoolSize cfg
  | .ledger => shmLedgerSize cfg

section

variable {setup : Setup} {final : Locked (Mapped setup.txs) Process Segment fun _ => Memory}
  {trace : List (Locked (Mapped setup.txs) Process Segment (fun _ => Memory) × Action Event Process Segment)}

theorem locked_mapped
    (run : Run (Locked.step (mappedProgram setup)) (Locked.initial (Mapped.initial setup)) trace final)
    (orderly : ∀ entry ∈ trace, Orderly (mappedProgram setup) entry.1 entry.2) :
    Run (stepAccess setup) (Mapped.initial setup)
      (trace.filterMap fun entry =>
        entry.2.event?.map fun event => ((mappedProgram setup).view entry.1, Access.system event))
      ((mappedProgram setup).view final) := by
  have same : ∀ before event after, (mappedProgram setup).step before event = some after →
      stepAccess setup before (.system event) = some after := fun _ _ _ taken => taken
  have sections := Run.rename Access.system same (run_viewed run orderly)
  rw [List.map_filterMap] at sections
  simpa only [Option.map_map, Function.comp_def] using sections

/-- The same with the sections taken apart: to the next process it is as if
every section begun were done, and each store that is still to be done stays
inside its segment. -/
theorem locked_bytes_refine (fits : LayoutFits setup.cfg)
    (run : Run (Locked.step (mappedProgram setup)) (Locked.initial (Mapped.initial setup)) trace final)
    (orderly : ∀ entry ∈ trace, Orderly (mappedProgram setup) entry.1 entry.2)
    (unambiguous : ∀ entry ∈ trace, ((mappedProgram setup).view entry.1).view.Unambiguous) :
    SystemRun setup
        (trace.filterMap fun entry =>
          entry.2.event?.map fun event => (((mappedProgram setup).view entry.1).view, event))
        ((mappedProgram setup).view final).view ∧
      ∀ segment, ∀ visit ∈ final.visits segment, ∀ store ∈ visit.pending, ∃ assignment : Assignment,
        store = (fun memory => memory.assign assignment) ∧
          StaysInside (segmentSize setup.cfg segment) assignment := by
  have mapped := locked_mapped run orderly
  have entered : ∀ entry ∈ trace.filterMap fun entry =>
      entry.2.event?.map fun event => ((mappedProgram setup).view entry.1, Access.system event),
      entry.1.view.Unambiguous := by
    intro entry member
    obtain ⟨prior, priorMember, own⟩ := List.mem_filterMap.mp member
    obtain ⟨event, _, rfl⟩ := Option.map_eq_some_iff.mp own
    exact unambiguous prior priorMember
  constructor
  · have seen := run_seen fits mapped entered
    rw [List.filterMap_filterMap] at seen
    convert seen using 2
    rename_i entry _
    cases entry.2.event? <;> rfl
  · have begins : ∀ before event segment, (before, Action.wait event) ∈ trace →
        (mappedProgram setup).scope event = some segment →
        ∀ store ∈ (mappedProgram setup).stores ((mappedProgram setup).view before) event segment,
          ∃ assignment : Assignment, store = (fun memory => memory.assign assignment) ∧
            StaysInside (segmentSize setup.cfg segment) assignment := by
      intro before event segment member _ store pending
      have inside := run_inside fits mapped entered ((mappedProgram setup).view before, .system event)
        (List.mem_filterMap.mpr ⟨_, member, rfl⟩)
      obtain ⟨assignment, own, rfl⟩ := List.mem_map.mp pending
      refine ⟨assignment, rfl, ?_⟩
      cases segment with
      | pool => exact inside.1 assignment own
      | ledger => exact inside.2 assignment own
    exact run_pending run orderly begins

end

def splitInsertActions : List (Action Event Process Segment) :=
  [.wait (insertEvent 1), .store (.txGen 1) .pool, .work (.start 1), .store (.txGen 1) .pool,
    .post (.txGen 1) .pool]

def ledgerEmpty (locked : Locked (Mapped smallSetup.txs) Process Segment fun _ => Memory)
    (action : Action Event Process Segment) : Bool :=
  ((mappedProgram smallSetup).view locked).view.ledger.count == 0 &&
    action.event?.all fun event => !(mappedProgram smallSetup).ends event

theorem splitInsert_executes : (exec (guarded (Locked.step (mappedProgram smallSetup)) ledgerEmpty)
    (Locked.initial (Mapped.initial smallSetup)) splitInsertActions).isSome = true := by
  decide +kernel

theorem locked_bytes_refine_split_insert : ∃ trace final,
    Run (Locked.step (mappedProgram smallSetup)) (Locked.initial (Mapped.initial smallSetup)) trace final ∧
      trace.map Prod.snd = splitInsertActions ∧
      ∃ views, SystemRun smallSetup views ((mappedProgram smallSetup).view final).view := by
  obtain ⟨trace, checked, actions⟩ := exec_run_get splitInsert_executes
  obtain ⟨run, empty⟩ := checked.of_guarded
  have fits : LayoutFits smallSetup.cfg := layoutFits_of_lt (by decide) (by decide)
  refine ⟨trace, _, run, actions, _, (locked_bytes_refine fits run ?_ ?_).1⟩
  · intro entry member
    obtain ⟨before, action⟩ := entry
    have stays := (Bool.and_eq_true_iff.mp (empty _ member)).2
    cases action with
    | wait event =>
        change (mappedProgram smallSetup).ends event = false
        simpa [Action.event?] using stays
    | work event => exact fun ends => by simp [Action.event?, ends] at stays
    | store | post => trivial
  · intro entry member
    have none := (Bool.and_eq_true_iff.mp (empty entry member)).1
    rw [State.Unambiguous, beq_iff_eq.mp none]
    exact nofun

end DeiChain
