import DeiChain.Provenance

namespace DeiChain

open Data Systems

/-! # One validator and the snapshots of the miners

A thread takes its transactions and its tip in two sections. With a single
validator an unchanged tip means that no pool phase lies between them and the
examination, so the transactions are still in their slots, unaged.
-/

section

variable {setup : Setup} {before after final : State setup.txs} {event : Event}
  {trace : List (State setup.txs × Event)}

def OnlyFirst (trace : List (State setup.txs × Event)) : Prop :=
  ∀ before num, (before, Event.start num) ∈ trace → num = 1

/-- The validator has not emptied slots for a block that the ledger lacks. -/
def ValidatorPhase.Quiet {n : Nat} : ValidatorPhase n → Prop
  | .accepted _ _ | .exited => False
  | _ => True

structure SnapshotInvariant (state : State setup.txs) : Prop where
  alone : ∀ num, num ≠ 1 → state.validators num = .absent
  tip : ∀ block history, state.validators 1 = .checked block history ∨
    state.validators 1 = .accepted block history → onTip state.ledger block = true
  since : ∀ tx countAtSelection, state.Carries tx countAtSelection → countAtSelection ≤ state.ledger.count
  supplied : (state.validators 1).Quiet →
    ∀ tx, state.Carries tx state.ledger.count → state.pool.Supplies tx

theorem SnapshotInvariant.first (held : SnapshotInvariant before) (num : Nat)
    (present : before.validators num ≠ .absent) : num = 1 := by
  by_contra other
  exact present (held.alone num other)

theorem insertTransaction_supplies {pool pool' : TransactionPool} {new : PendingTransaction} {i : Nat}
    (added : insertTransaction pool new = .added i pool') {tx : Transaction} (supplied : pool.Supplies tx) :
    pool'.Supplies tx := by
  obtain ⟨old, at_i, empty, _, _, slots⟩ := insertTransaction_added added
  obtain ⟨slot, member, filled, copied⟩ := supplied
  obtain ⟨j, at_j⟩ := List.getElem?_of_mem member
  have different : i ≠ j := by
    intro same
    subst same
    rw [at_i, Option.some.injEq] at at_j
    rw [at_j, filled] at empty
    cases empty
  refine ⟨slot, ?_, filled, copied⟩
  rw [slots]
  apply List.mem_of_getElem?
  rw [List.getElem?_set_ne different, at_j]

theorem SnapshotInvariant.ledger_other (held : SnapshotInvariant before)
    (taken : Transition setup before event after) (other : event.validator? ≠ some 1) :
    after.ledger = before.ledger := by
  rcases taken.ledger with same | ⟨num, rfl, empty, genesis⟩ | ⟨num, now, _, _, rfl, accepted, _, _⟩
  · exact same
  · cases taken with
    | rested own => cases own
    | created starting =>
        exact absurd (congrArg some (held.first num (by simp [starting]))) other
    | joined => rfl
  · exact absurd (congrArg some (held.first num (by simp [accepted]))) other

theorem SnapshotInvariant.quiet_before (held : SnapshotInvariant before)
    (taken : Transition setup before event after) (count : after.ledger.count = before.ledger.count)
    (quiet : (after.validators 1).Quiet) : (before.validators 1).Quiet := by
  have move := taken.validator 1
  generalize after.validators 1 = phase at move quiet
  cases move with
  | kept same => exact same ▸ quiet
  | started own known idle =>
      rcases idle with earlier | ⟨_, other⟩
      · exact earlier ▸ trivial
      · exact absurd rfl other
  | founded earlier | took earlier | approved earlier => exact earlier ▸ trivial
  | removed | exited => exact absurd quiet id
  | rejected streamed => rcases streamed with earlier | earlier <;> exact earlier ▸ trivial
  | appended own accepted grown => omega
  | dropped own accepted stale =>
      rw [held.tip _ _ (.inr accepted)] at stale
      cases stale
  | reported pending =>
      rcases pending with ⟨_, earlier⟩ | ⟨_, _, _, earlier⟩ <;> exact earlier ▸ trivial

theorem SnapshotInvariant.step (held : SnapshotInvariant before) (chain : ChainInvariant setup before)
    (only : ∀ num, event = .start num → num = 1) (taken : Transition setup before event after) :
    SnapshotInvariant after := by
  have growth := (chain.ledger taken).2.2
  refine ⟨?_, ?_, ?_, ?_⟩
  · intro num different
    by_contra present
    rcases (taken.validator num).known present with earlier | ⟨own, _⟩
    · exact different (held.first _ earlier)
    · exact different (only num own)
  · intro block history phase
    have still (same : after.ledger = before.ledger)
        (earlier : before.validators 1 = .checked block history ∨
          before.validators 1 = .accepted block history) : onTip after.ledger block = true :=
      same ▸ held.tip block history earlier
    have kept (same : after.validators 1 = before.validators 1) : onTip after.ledger block = true := by
      rw [same] at phase
      rcases taken.ledger with ledger | ⟨_, _, empty, _⟩ | ⟨num, now, _, _, rfl, accepted, _, _⟩
      · exact still ledger phase
      · have positive := chain.founded 1 (by rcases phase with earlier | earlier <;> exact earlier ▸ trivial)
        omega
      · cases held.first num (by simp [accepted])
        exact absurd (same.trans accepted) (taken.ledgerPhase_releases _ _)
    rcases phase with checked | accepted
    · have move := taken.validator 1
      rw [checked] at move
      cases move with
      | kept same => exact kept (checked.trans same.symm)
      | approved received tip ledger => exact ledger ▸ tip
    · have move := taken.validator 1
      rw [accepted] at move
      cases move with
      | kept same => exact kept (accepted.trans same.symm)
      | removed own checked passed ledger => exact still ledger (.inl checked)
  · intro tx countAtSelection carried
    rcases taken.carries carried with earlier | ⟨_, now, _⟩
    · exact Nat.le_trans (held.since tx countAtSelection earlier) growth.1
    · exact now ▸ growth.1
  · intro quiet tx carried
    rcases taken.carries carried with earlier | ⟨supplied, _, pool, _⟩
    · have count : after.ledger.count = before.ledger.count :=
        Nat.le_antisymm (held.since tx _ earlier) growth.1
      rw [count] at earlier
      have supplied := held.supplied (held.quiet_before taken count quiet) tx earlier
      rcases taken.pool with same | ⟨_, _, _, _, _, _, added⟩ | ⟨num, _, _, rfl, checked, passed⟩
      · exact same ▸ supplied
      · exact insertTransaction_supplies added supplied
      · cases held.first num (by simp [checked])
        rw [taken.poolPhase_accepts checked passed] at quiet
        exact absurd quiet id
    · exact pool ▸ supplied

theorem SystemRun.snapshot (run : SystemRun setup trace final) (only : OnlyFirst trace) :
    SnapshotInvariant final := by
  induction run with
  | nil =>
      refine ⟨fun _ _ => rfl, ?_, ?_, ?_⟩
      · intro block history phase
        rcases phase with checked | accepted
        · cases checked
        · cases accepted
      · intro tx countAtSelection carried
        exact absurd carried (State.initial_carries _ _)
      · intro _ tx carried
        exact absurd carried (State.initial_carries _ _)
  | snoc earlier taken ih =>
      have held := ih fun before num member => only before num (List.mem_append_left _ member)
      refine held.step (SystemRun.chain earlier) ?_ (step_transition taken)
      intro num same
      subst same
      exact only _ num (List.mem_append_right _ (List.mem_singleton.mpr rfl))

theorem TransactionPool.Sound.offers {pool : TransactionPool} {size : Nat} (sound : pool.Sound size)
    {tx : Transaction} (supplied : pool.Supplies tx) : pool.Offers tx := by
  obtain ⟨slot, member, filled, rfl⟩ := supplied
  obtain ⟨terminated, number⟩ := sound.proper slot member
  exact ⟨slot, member, by simp [filled],
    txCompare_iff.mpr ⟨copyTransaction_id terminated, rfl, Binary32.equal_self number, rfl⟩⟩

/-- How far the validator is with a block examined when the ledger had `k`
blocks, after that many of its own steps. -/
def HonestStage (setup : Setup) (k : Nat) (block : TransactionBlock setup.txs) (history : History)
    (state : State setup.txs) : Nat → Prop
  | 0 => state.validators 1 = .received block history ∧ state.ledger.count = k ∧
      verifyNonce setup.sha256 block = true ∧ onTip state.ledger block = true
  | 1 => state.validators 1 = .checked block history ∧ state.ledger.count = k ∧
      (poolPhase state.pool block).isSome = true
  | 2 => state.validators 1 = .accepted block history ∧ state.ledger.count = k ∧
      onTip state.ledger block = true
  | _ + 3 => k < state.ledger.count ∧ state.ledger.blocks k = block

def validatorSteps (trace : List (State setup.txs × Event)) : Nat :=
  trace.countP fun entry => entry.2.validator? == some 1

theorem step_expected {num : Nat} (own : event.validator? = some num)
    (stays : event ≠ .leave num ∧ event ≠ .kill num) (taken : step setup before event = some after)
    (block : TransactionBlock setup.txs) (history : History) :
    (before.validators num = .received block history → event = .examine num) ∧
      (before.validators num = .checked block history → event = .poolPhase num) ∧
      (before.validators num = .accepted block history → ∃ now, event = .ledgerPhase num now) := by
  cases event <;> cases own
  all_goals
    refine ⟨fun phase => ?_, fun phase => ?_, fun phase => ?_⟩
    all_goals simp [step, stepStart, stepGenesis, stepRead, stepExamine, stepPoolPhase, stepLedgerPhase,
      stepReport, phase] at taken stays ⊢

theorem SystemRun.accepts (run : SystemRun setup trace final) (only : OnlyFirst trace)
    (distinct : (final.issued.map Transaction.id).Nodup) {block : TransactionBlock setup.txs}
    {history : History} (checked : final.validators 1 = .checked block history)
    (since : history.countAtSelection = final.ledger.count) :
    (poolPhase final.pool block).isSome = true := by
  rw [poolPhase_isSome_iff (run.distinctIds distinct)]
  intro tx member
  have carried : final.Carries tx final.ledger.count := .streamed (.inr (.inl checked)) since member
  exact run.pool_sound.offers ((run.snapshot only).supplied (checked ▸ trivial) tx carried)

theorem HonestStage.next {k count : Nat} {block : TransactionBlock setup.txs} {history : History}
    (stage : HonestStage setup k block history before count) (run : SystemRun setup trace before)
    (only : OnlyFirst (trace ++ [(before, event)])) (since : history.countAtSelection = k)
    (stays : event ≠ .leave 1 ∧ event ≠ .kill 1) (taken : step setup before event = some after)
    (distinct : (after.issued.map Transaction.id).Nodup) :
    HonestStage setup k block history after
      (count + if event.validator? == some 1 then 1 else 0) := by
  have transition := step_transition taken
  have chain := run.chain
  have held := run.snapshot fun state num member => only state num (List.mem_append_left _ member)
  have passes (checked : after.validators 1 = .checked block history) (ledger : after.ledger.count = k) :
      (poolPhase after.pool block).isSome = true :=
    SystemRun.accepts (run.snoc taken) only distinct checked (since.trans ledger.symm)
  by_cases own : event.validator? = some 1
  · simp only [own, beq_self_eq_true, if_true]
    obtain ⟨examines, removes, appends⟩ := step_expected own stays taken block history
    match count with
    | 0 =>
        obtain ⟨received, ledger, verified, tip⟩ := stage
        cases examines received
        cases transition with
        | rested own => cases own
        | approved same =>
            cases same.symm.trans received
            have checked : (before.withValidator 1 (.checked block history)).validators 1 =
                .checked block history := (State.withValidator_validators _ _ _ _).trans (if_pos rfl)
            exact ⟨checked, ledger, passes checked ledger⟩
        | refusedBlock same fault =>
            cases same.symm.trans received
            exact absurd ⟨verified, tip⟩ fault
    | 1 =>
        obtain ⟨checked, ledger, passed⟩ := stage
        cases removes checked
        obtain ⟨pool, passed⟩ := Option.isSome_iff_exists.mp passed
        have accepted := transition.poolPhase_accepts checked passed
        have next := held.step chain (by nofun) transition
        refine ⟨accepted, ?_, next.tip block history (.inr accepted)⟩
        rcases transition.ledger with same | ⟨_, own, _⟩ | ⟨_, _, _, _, own, _⟩
        · rw [same, ledger]
        · cases own
        · cases own
    | 2 =>
        obtain ⟨accepted, ledger, tip⟩ := stage
        obtain ⟨now, rfl⟩ := appends accepted
        cases transition with
        | rested own => cases own
        | appended same =>
            cases same.symm.trans accepted
            have sealing := chain.streams 1 block history (.inr (.inr accepted))
            have positive := chain.founded 1 (accepted ▸ trivial)
            obtain ⟨_, _, count, stored⟩ :=
              appendBlock_spec chain.chained positive sealing.padded sealing.verified tip
            exact ⟨ledger ▸ Nat.lt_succ_self _, ledger ▸ stored⟩
        | dropped same stale =>
            cases same.symm.trans accepted
            rw [tip] at stale
            cases stale
    | count + 3 =>
        obtain ⟨bound, stored⟩ := stage
        have growth := (chain.ledger transition).2.2
        exact ⟨Nat.lt_of_lt_of_le bound growth.1, (growth.2 k bound).trans stored⟩
  · have other : (event.validator? == some 1) = false := beq_eq_false_iff_ne.mpr own
    have phase := transition.validator_other own
    have ledger := held.ledger_other transition own
    simp only [other, Bool.false_eq_true, if_false, Nat.add_zero]
    match count with
    | 0 => simpa only [HonestStage, phase, ledger] using stage
    | 1 =>
        obtain ⟨checked, count, _⟩ := stage
        have checked := phase.trans checked
        have count : after.ledger.count = k := ledger ▸ count
        exact ⟨checked, count, passes checked count⟩
    | 2 => simpa only [HonestStage, phase, ledger] using stage
    | count + 3 => simpa only [HonestStage, ledger] using stage

theorem HonestStage.along {k : Nat} {block : TransactionBlock setup.txs} {history : History}
    {examined : State setup.txs} {later : List (State setup.txs × Event)}
    (stage : HonestStage setup k block history examined 0) (run : SystemRun setup trace examined)
    (rest : Run (step setup) examined later final) (only : OnlyFirst (trace ++ later))
    (since : history.countAtSelection = k)
    (stays : ∀ entry ∈ later, entry.2 ≠ .leave 1 ∧ entry.2 ≠ .kill 1)
    (distinct : (final.issued.map Transaction.id).Nodup) :
    HonestStage setup k block history final (validatorSteps later) := by
  induction rest with
  | nil => exact stage
  | @snoc laterTrace before event after earlier taken ih =>
      have growth := (step_transition taken).issued
      have reached := ih (fun state num member => only state num (by
          rw [← List.append_assoc]
          exact List.mem_append_left _ member))
        (fun entry member => stays entry (List.mem_append_left _ member))
        (nodup_of_issued_growth growth distinct)
      rw [validatorSteps, List.countP_append, List.countP_singleton]
      exact reached.next (Run.append run earlier) (List.append_assoc trace _ _ ▸ only) since
        (stays (before, event) (List.mem_append_right _ (List.mem_singleton.mpr rfl))) taken distinct

theorem HonestStage.enabled {k count : Nat} {block : TransactionBlock setup.txs} {history : History}
    (stage : HonestStage setup k block history final count) (unfinished : count < 3) :
    ∃ event after, event.validator? = some 1 ∧ event ≠ .leave 1 ∧ event ≠ .kill 1 ∧
      step setup final event = some after := by
  obtain rfl | rfl | rfl : count = 0 ∨ count = 1 ∨ count = 2 := by omega
  · obtain ⟨received, _, verified, tip⟩ := stage
    have enabled : (step setup final (.examine 1)).isSome = true := by
      simp only [step, stepExamine, received, verified, tip, and_self, if_true, Option.isSome_some]
    obtain ⟨after, taken⟩ := Option.isSome_iff_exists.mp enabled
    exact ⟨_, after, rfl, by simp, by simp, taken⟩
  · obtain ⟨checked, _, passed⟩ := stage
    obtain ⟨pool, passed⟩ := Option.isSome_iff_exists.mp passed
    have enabled : (step setup final (.poolPhase 1)).isSome = true := by
      simp only [step, stepPoolPhase, checked, passed, Option.isSome_some]
    obtain ⟨after, taken⟩ := Option.isSome_iff_exists.mp enabled
    exact ⟨_, after, rfl, by simp, by simp, taken⟩
  · obtain ⟨accepted, _, tip⟩ := stage
    have enabled : (step setup final (.ledgerPhase 1 0)).isSome = true := by
      simp only [step, stepLedgerPhase, accepted, tip, if_true, Option.isSome_some]
    obtain ⟨after, taken⟩ := Option.isSome_iff_exists.mp enabled
    exact ⟨_, after, rfl, by simp, by simp, taken⟩

/-- With validator 1 alone, a block that was selected and started on one height
of the ledger and is on the tip when it is examined passes the nonce check, the
pool phase and the double check in the validator's next three steps, whatever
the generators and threads do meanwhile, and is then in the ledger. -/
theorem honest_block_accepted (setup : Setup) {trace later : List (State setup.txs × Event)}
    {examined final : State setup.txs} (run : SystemRun setup trace examined)
    (rest : Run (step setup) examined later final) (only : OnlyFirst (trace ++ later))
    (distinct : (final.issued.map Transaction.id).Nodup)
    (free : HashChain.CollisionFree (computeSha256 setup.sha256) examined.ledger.blocks
      examined.ledger.count)
    {block : TransactionBlock setup.txs} {history : History}
    (received : examined.validators 1 = .received block history)
    (unchanged : history.countAtSelection = history.countAtTip)
    (tip : onTip examined.ledger block = true)
    (stays : ∀ entry ∈ later, entry.2 ≠ .leave 1 ∧ entry.2 ≠ .kill 1) :
    HonestStage setup examined.ledger.count block history final (validatorSteps later) ∧
      (validatorSteps later < 3 → ∃ event after, event.validator? = some 1 ∧ event ≠ .leave 1 ∧
        event ≠ .kill 1 ∧ step setup final event = some after) := by
  have sealing := run.chain.streams 1 block history (.inl received)
  have height := run.chain.tip_height sealing.toDraft free tip
  have start : HonestStage setup examined.ledger.count block history examined 0 :=
    ⟨received, rfl, sealing.verified, tip⟩
  have stage := start.along run rest only (unchanged.trans height) stays distinct
  exact ⟨stage, stage.enabled⟩

end

def readEvents : List Event := [insertEvent 1, .start 1, .genesis 1] ++ mineEvents 1 [0] ++ [.read 1 []]

def acceptEvents : List Event := [.examine 1, .poolPhase 1, insertEvent 2, .ledgerPhase 1 0]

theorem read_executes : (exec (step smallSetup) (State.initial smallSetup) readEvents).isSome = true := by
  decide +kernel

def readBlock : State smallSetup.txs := (exec _ _ _).get read_executes

theorem accept_executes : (exec (step smallSetup) readBlock acceptEvents).isSome = true := by
  decide +kernel

def State.examinable {n : Nat} (state : State n) : Bool :=
  match state.validators 1 with
  | .received block history => history.countAtSelection == history.countAtTip && onTip state.ledger block
  | _ => false

theorem State.examinable_received {n : Nat} (state : State n) (examinable : state.examinable = true) :
    ∃ block history, state.validators 1 = .received block history ∧
      history.countAtSelection = history.countAtTip ∧ onTip state.ledger block = true := by
  unfold State.examinable at examinable
  split at examinable
  · rename_i received
    exact ⟨_, _, received, by simpa using examinable⟩
  · cases examinable

theorem onlyFirst_of_events {setup : Setup} {trace : List (State setup.txs × Event)} {events : List Event}
    (recorded : trace.map Prod.snd = events)
    (checked : events.all (fun event => event.validator?.all (· == 1)) = true) : OnlyFirst trace := by
  intro before num member
  simpa [Event.validator?] using all_of_events _ recorded checked _ member

theorem honest_block_accepted_sample : ∃ block later final, Run (step smallSetup) readBlock later final ∧
    (∃ history, readBlock.validators 1 = .received block history) ∧ final.ledger.blocks 1 = block := by
  obtain ⟨trace, run, events⟩ :
      ∃ trace, SystemRun smallSetup trace readBlock ∧ trace.map Prod.snd = readEvents :=
    exec_run_get read_executes
  obtain ⟨later, rest, laterEvents⟩ := exec_run_get accept_executes
  obtain ⟨block, history, received, unchanged, tip⟩ :=
    State.examinable_received readBlock (by decide +kernel)
  have count : readBlock.ledger.count = 1 := by decide +kernel
  have free : HashChain.CollisionFree (computeSha256 smallSetup.sha256) readBlock.ledger.blocks
      readBlock.ledger.count := by
    rw [count]
    intro first firstBound second secondBound _
    rw [Nat.lt_one_iff.mp firstBound, Nat.lt_one_iff.mp secondBound]
  have only : OnlyFirst (trace ++ later) :=
    onlyFirst_of_events (by rw [List.map_append, events, laterEvents]) (by decide +kernel)
  have stays : ∀ entry ∈ later, entry.2 ≠ .leave 1 ∧ entry.2 ≠ .kill 1 := fun entry member => by
    simpa using all_of_events (fun event => event ≠ .leave 1 ∧ event ≠ .kill 1)
      laterEvents (by decide +kernel) entry member
  have accepted := (honest_block_accepted smallSetup run rest only (by decide +kernel) free received
    unchanged tip stays).1
  have steps : validatorSteps later = 3 := calc
    validatorSteps later = (later.map Prod.snd).countP fun event => event.validator? == some 1 := by
      rw [List.countP_map]
      rfl
    _ = 3 := by rw [laterEvents]; rfl
  rw [steps, count] at accepted
  exact ⟨block, later, _, rest, ⟨history, received⟩, accepted.2⟩

end DeiChain
