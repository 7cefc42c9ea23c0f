import DeiChain.Accounts
import DeiChain.Conservation
import DeiChain.Handling

namespace DeiChain

open Data Systems
open Systems.Delivery (Action)

/-! # Statistics and the ledger

What the statistics process has counted, what is on its way to it and what
validators still have to send make up what was decided, unless a report is lost.
-/

def blocksOf {n : Nat} (m : Nat) (blocks : List (TransactionBlock n)) : List (TransactionBlock n) :=
  blocks.filter fun block => isOf m block.txbId

section

variable (setup : Setup)

/-- The blocks that validators have appended and not yet reported. -/
def State.unreported (state : State setup.txs) : List (TransactionBlock setup.txs) :=
  (List.range' 1 setup.maxValidators).filterMap fun num =>
    match state.validators num with
    | .inserted block _ _ => some block
    | _ => none

/-- The blocks that validators have decided to reject and not yet finished with. -/
def State.refusing (state : State setup.txs) : List (TransactionBlock setup.txs) :=
  (List.range' 1 setup.maxValidators).filterMap fun num =>
    match state.validators num with
    | .rejecting block => some block
    | _ => none

end

def rejectedBlocks {setup : Setup} (trace : List (ReportState setup.txs × ReportEvent)) :
    List (TransactionBlock setup.txs) :=
  trace.filterMap fun entry => entry.2.event?.bind fun own => rejection setup entry.1.system own

section

variable {setup : Setup} {before after final : ReportState setup.txs} {event : ReportEvent}
  {trace : List (ReportState setup.txs × ReportEvent)}

theorem pending_accepted {state : State setup.txs} (authors : AuthorInvariant setup state) (m : Nat) :
    (acceptedOf m (state.pending setup)).map StatisticsMessage.earnedAmount =
      (blocksOf m (state.unreported setup)).map TransactionBlock.rewards := by
  simp only [acceptedOf, blocksOf, State.pending, State.unreported, List.filter_filterMap,
    List.map_filterMap]
  apply List.filterMap_congr
  intro num _
  rw [State.messages]
  generalize phase : state.validators num = held
  cases held with
  | inserted block index now =>
      obtain ⟨thread, authored⟩ := authors.held num block (by rw [phase]; rfl)
      have same : (insertionMessage block index now).txbId = block.txbId := authored.printed
      simp only [ValidatorPhase.message, Option.filter_some, insertionMessage_accepted, same, Bool.true_and]
      cases isOf m block.txbId <;> rfl
  | rejecting block => simp [ValidatorPhase.message, Option.filter_some]
  | _ => rfl

theorem pending_inserted (state : State setup.txs) :
    ((state.pending setup).filter StatisticsMessage.accepted).length =
      (state.unreported setup).length := by
  have same : ((state.pending setup).filter StatisticsMessage.accepted).map (fun _ => ()) =
      (state.unreported setup).map fun _ => () := by
    simp only [State.pending, State.unreported, List.filter_filterMap, List.map_filterMap]
    apply List.filterMap_congr
    intro num _
    rw [State.messages]
    cases state.validators num with
    | inserted block index now => simp [ValidatorPhase.message, Option.filter_some]
    | rejecting block => simp [ValidatorPhase.message, Option.filter_some]
    | _ => rfl
  simpa using congrArg List.length same

theorem pending_rejected {state : State setup.txs} (authors : AuthorInvariant setup state) (m : Nat) :
    (rejectedOf m (state.pending setup)).length = (blocksOf m (state.refusing setup)).length := by
  have same : (rejectedOf m (state.pending setup)).map StatisticsMessage.txbId =
      (blocksOf m (state.refusing setup)).map TransactionBlock.txbId := by
    simp only [rejectedOf, blocksOf, State.pending, State.refusing, List.filter_filterMap,
      List.map_filterMap]
    apply List.filterMap_congr
    intro num _
    rw [State.messages]
    generalize phase : state.validators num = held
    cases held with
    | rejecting block =>
        obtain ⟨thread, authored⟩ := authors.held num block (by rw [phase]; rfl)
        have same : (rejectionMessage block).txbId = block.txbId := authored.printed
        simp only [ValidatorPhase.message, Option.filter_some, rejectionMessage_accepted, same,
          Bool.not_false, Bool.true_and]
        cases own : isOf m block.txbId
        · rfl
        · exact congrArg some same
    | inserted block index now => simp [ValidatorPhase.message, Option.filter_some]
    | _ => rfl
  simpa using congrArg List.length same

theorem decided_accepted (run : ReportRun setup trace final) (m : Nat) :
    (acceptedOf m (decidedMessages trace)).map StatisticsMessage.earnedAmount =
      (blocksOf m final.system.ledger.appended).map TransactionBlock.rewards := by
  obtain ⟨nows, held⟩ := run.insertions
  have authors := SystemRun.authors run.system
  rw [acceptedOf, ← List.filter_filter, List.filter_comm, held.reports, blocksOf, Ledger.appended,
    List.filter_map, List.filter_map, List.map_map, List.map_map]
  have kept : (List.range' 1 (final.system.ledger.count - 1)).filter
        ((fun msg => isOf m msg.txbId) ∘
          fun k => insertionMessage (final.system.ledger.blocks k) k (nows k)) =
      (List.range' 1 (final.system.ledger.count - 1)).filter
        ((fun block => isOf m block.txbId) ∘ final.system.ledger.blocks) := by
    apply List.filter_congr
    intro k member
    obtain ⟨lower, upper⟩ := List.mem_range'_1.mp member
    obtain ⟨thread, authored⟩ := authors.stored k lower (by omega)
    exact congrArg (isOf m) authored.printed
  rw [kept]
  rfl

theorem decision_rejection (state : State setup.txs) (own : Event) :
    (((decision setup state own).bind Action.made?).filter fun msg => !msg.accepted) =
      (rejection setup state own).map rejectionMessage := by
  cases own with
  | examine num =>
      simp only [decision, rejection]
      cases state.validators num with
      | received block history =>
          dsimp only
          split
          · rfl
          · simp [Option.filter_some, Action.made?]
      | _ => rfl
  | poolPhase num =>
      simp only [decision, rejection]
      cases state.validators num with
      | checked block history =>
          dsimp only
          split
          · rfl
          · simp [Option.filter_some, Action.made?]
      | _ => rfl
  | ledgerPhase num now =>
      simp only [decision, rejection]
      cases state.validators num with
      | accepted block history =>
          dsimp only
          split
          · simp [Option.filter_some, Action.made?]
          · simp [Option.filter_some, Action.made?]
      | _ => rfl
  | leave num | kill num =>
      simp only [decision, rejection]
      cases state.messages num <;> rfl
  | _ => rfl

theorem decided_rejected (trace : List (ReportState setup.txs × ReportEvent)) :
    (decidedMessages trace).filter (fun msg => !msg.accepted) =
      (rejectedBlocks trace).map rejectionMessage := by
  rw [decidedMessages, reportActions, List.filterMap_filterMap, List.filter_filterMap, rejectedBlocks,
    List.map_filterMap]
  apply List.filterMap_congr
  intro entry _
  obtain ⟨state, event⟩ := entry
  cases event with
  | system own => exact decision_rejection state.system own
  | sendFails num =>
      simp only [reportAction]
      cases state.system.messages num <;> rfl
  | receive => rfl

theorem mem_rejectedBlocks {own : Event} {block : TransactionBlock setup.txs}
    (member : (before, ReportEvent.system own) ∈ trace)
    (rejected : rejection setup before.system own = some block) : block ∈ rejectedBlocks trace :=
  List.mem_filterMap.mpr ⟨_, member, rejected⟩

theorem decided_rejected_length (run : ReportRun setup trace final) (m : Nat) :
    (rejectedOf m (decidedMessages trace)).length = (blocksOf m (rejectedBlocks trace)).length := by
  rw [rejectedOf, ← List.filter_filter, List.filter_comm, decided_rejected, List.filter_map,
    List.length_map, blocksOf]
  congr 1
  apply List.filter_congr
  intro block member
  obtain ⟨⟨state, event⟩, entryMember, rejected⟩ := List.mem_filterMap.mp member
  obtain ⟨own, _, rejected⟩ := Option.bind_eq_some_iff.mp rejected
  obtain ⟨num, holds⟩ := rejection_held rejected
  obtain ⟨_, _, _, _, reached, _, _⟩ := run.recorded entryMember
  obtain ⟨thread, authored⟩ := (SystemRun.authors (ReportRun.system reached)).held num block holds
  exact congrArg (isOf m) authored.printed

/-- No `mq_send` fails and no process is killed. -/
structure Undisturbed (trace : List (ReportState setup.txs × ReportEvent)) : Prop where
  sent : ∀ entry ∈ trace, ∀ num, entry.2 ≠ .sendFails num
  alive : ∀ entry ∈ trace, ∀ num, entry.2 ≠ .system (.kill num)

def ReportEvent.disturbs : ReportEvent → Bool
  | .sendFails _ | .system (.kill _) => true
  | _ => false

theorem undisturbed_of_events {events : List ReportEvent} (recorded : trace.map Prod.snd = events)
    (none : events.all (fun event => !event.disturbs) = true) : Undisturbed trace := by
  have quiet (entry : ReportState setup.txs × ReportEvent) (member : entry ∈ trace) :
      (!entry.2.disturbs) = true :=
    List.all_eq_true.mp none _ (recorded ▸ List.mem_map_of_mem member)
  constructor
  · intro entry member num same
    have kept := quiet entry member
    rw [same] at kept
    cases kept
  · intro entry member num same
    have kept := quiet entry member
    rw [same] at kept
    cases kept

/-- No validator leaves its loop with a rejected block that it has not reported:
no allocation fails there. -/
def FinishesRejections (setup : Setup) (trace : List (State setup.txs × Event)) : Prop :=
  ∀ before num, (before, Event.leave num) ∈ trace → ∀ block, before.validators num ≠ .rejecting block

/-- The rejected block that an event leaves without a report. -/
def unsentRejection (setup : Setup) (state : State setup.txs) : Event → Option (TransactionBlock setup.txs)
  | .ledgerPhase num _ =>
      match state.validators num with
      | .accepted block _ => if onTip state.ledger block then none else some block
      | _ => none
  | .leave num =>
      match state.validators num with
      | .rejecting block => some block
      | _ => none
  | _ => none

theorem decision_unsent {state after : State setup.txs} {own : Event}
    (taken : step setup state own = some after) (alive : ∀ num, own ≠ .kill num) :
    (decision setup state own).bind Action.lost? =
      (unsentRejection setup state own).map rejectionMessage := by
  cases own with
  | kill num => exact absurd rfl (alive num)
  | ledgerPhase num now =>
      simp only [decision, unsentRejection]
      cases state.validators num with
      | accepted block history =>
          dsimp only
          split <;> rfl
      | _ => rfl
  | leave num =>
      simp only [step, stepLeave] at taken
      simp only [decision, unsentRejection, State.messages]
      generalize state.validators num = phase at taken ⊢
      cases phase with
      | inserted => cases taken
      | _ => rfl
  | examine num =>
      simp only [decision, unsentRejection]
      cases state.validators num with
      | received block history =>
          dsimp only
          split <;> rfl
      | _ => rfl
  | poolPhase num =>
      simp only [decision, unsentRejection]
      cases state.validators num with
      | checked block history =>
          dsimp only
          split <;> rfl
      | _ => rfl
  | _ => rfl

theorem Undisturbed.lostMessages_eq (undisturbed : Undisturbed trace) (run : ReportRun setup trace final) :
    lostMessages trace =
      ((systemTrace trace).filterMap fun entry => unsentRejection setup entry.1 entry.2).map
        rejectionMessage := by
  rw [lostMessages, reportActions, List.filterMap_filterMap, systemTrace, List.filterMap_filterMap,
    List.map_filterMap]
  apply List.filterMap_congr
  intro entry member
  obtain ⟨state, event⟩ := entry
  obtain ⟨_, _, after, _, _, taken, _⟩ := run.recorded member
  cases event with
  | sendFails num => exact absurd rfl (undisturbed.sent _ member num)
  | receive => rfl
  | system own =>
      refine decision_unsent ((stepReports_system taken).2 own rfl) fun num same => ?_
      exact undisturbed.alive _ member num (congrArg ReportEvent.system same)

theorem Undisturbed.lost_accepted (undisturbed : Undisturbed trace) (run : ReportRun setup trace final)
    (m : Nat) : acceptedOf m (lostMessages trace) = [] := by
  rw [acceptedOf, List.filter_eq_nil_iff, undisturbed.lostMessages_eq run]
  intro msg member
  obtain ⟨block, _, rfl⟩ := List.mem_map.mp member
  simp

theorem unsentRejection_none_iff {steps : List (State setup.txs × Event)} :
    (∀ entry ∈ steps, unsentRejection setup entry.1 entry.2 = none) ↔
      KeepsTips setup steps ∧ FinishesRejections setup steps := by
  constructor
  · intro none
    constructor
    · intro before num now member block history accepted
      have kept := none _ member
      by_contra stale
      simp [unsentRejection, accepted, stale] at kept
    · intro before num member block rejecting
      have kept := none _ member
      simp [unsentRejection, rejecting] at kept
  · intro given entry member
    obtain ⟨tips, finishes⟩ := given
    obtain ⟨state, own⟩ := entry
    cases own with
    | ledgerPhase num now =>
        simp only [unsentRejection]
        generalize phase : state.validators num = held
        cases held with
        | accepted block history => exact if_pos (tips state num now member block history phase)
        | _ => rfl
    | leave num =>
        simp only [unsentRejection]
        generalize phase : state.validators num = held
        cases held with
        | rejecting block => exact absurd phase (finishes state num member block)
        | _ => rfl
    | _ => rfl

theorem Undisturbed.lost_nil_iff (undisturbed : Undisturbed trace) (run : ReportRun setup trace final) :
    lostMessages trace = [] ↔
      KeepsTips setup (systemTrace trace) ∧ FinishesRejections setup (systemTrace trace) := by
  rw [undisturbed.lostMessages_eq run, List.map_eq_nil_iff, List.filterMap_eq_nil_iff,
    unsentRejection_none_iff]

/-- Nothing is counted twice, and nothing is forgotten but what was lost. -/
theorem ReportRun.balance {Weight : Type} [AddCommMonoid Weight] (run : ReportRun setup trace final)
    (kind : StatisticsMessage → Bool) (weight : StatisticsMessage → Weight) :
    ((final.received.filter kind).map weight).sum + ((final.statisticsMq.filter kind).map weight).sum +
      (((final.system.pending setup).filter kind).map weight).sum +
      (((lostMessages trace).filter kind).map weight).sum =
        (((decidedMessages trace).filter kind).map weight).sum := by
  obtain ⟨delivery, ⟨held, queue, delivered⟩, conserved, made, lost⟩ := run.conserved
  rw [← delivered, ← queue, ← made, ← lost, State.pending, ← held]
  exact conserved.sum kind weight

theorem ReportRun.balance_length (run : ReportRun setup trace final) (kind : StatisticsMessage → Bool) :
    (final.received.filter kind).length + (final.statisticsMq.filter kind).length +
      ((final.system.pending setup).filter kind).length + ((lostMessages trace).filter kind).length =
        ((decidedMessages trace).filter kind).length := by
  have counted := run.balance kind fun _ => 1
  simpa using counted

/-- The accounts of the accepted blocks agree with the ledger. -/
structure Reconciled (trace : List (ReportState setup.txs × ReportEvent))
    (state : ReportState setup.txs) : Prop where
  valid : ∀ m, 1 ≤ m → m ≤ setup.cfg.numMiners → ∃ counter,
    state.stats.minerValidBlocks[m - 1]? = some counter ∧
      counter + (acceptedOf m state.statisticsMq).length +
        (blocksOf m (state.system.unreported setup)).length =
          (blocksOf m state.system.ledger.appended).length
  credits : ∀ m, 1 ≤ m → m ≤ setup.cfg.numMiners → ∃ counter,
    state.stats.minerCredits[m - 1]? = some counter ∧
      counter + ((acceptedOf m state.statisticsMq).map StatisticsMessage.earnedAmount).sum +
        ((blocksOf m (state.system.unreported setup)).map TransactionBlock.rewards).sum =
          ((blocksOf m state.system.ledger.appended).map TransactionBlock.rewards).sum
  chain : 0 < state.system.ledger.count →
    state.stats.blocksInChain + (state.statisticsMq.filter StatisticsMessage.accepted).length +
      (state.system.unreported setup).length = (state.system.ledger.count : Int) - 1
  chainBefore : state.system.ledger.count = 0 →
    state.stats.blocksInChain + (state.statisticsMq.filter StatisticsMessage.accepted).length +
      (state.system.unreported setup).length = 0
  time : state.stats.totalTxTime =
    ((state.received.filter StatisticsMessage.accepted).map fun msg =>
      txTime msg.timestamp (state.system.ledger.blocks msg.blockIndex.toNat)).sum
  reported : ∀ msg ∈ state.received, msg.accepted = true →
    ∃ k, 1 ≤ k ∧ k < state.system.ledger.count ∧
      msg = insertionMessage (state.system.ledger.blocks k) k msg.timestamp ∧
      AppendedAt trace k (state.system.ledger.blocks k) msg.timestamp

def countedEvents : List ReportEvent := firstBlockEvents.map .system ++ [.receive]

theorem counted_executes :
    (exec (stepReports smallSetup) (ReportState.initial smallSetup) countedEvents).isSome = true := by
  decide +kernel

/-- The accounts of the rejected blocks agree with what the validators did. -/
structure RejectionsCounted (trace : List (ReportState setup.txs × ReportEvent))
    (state : ReportState setup.txs) : Prop where
  invalid : ∀ m, 1 ≤ m → m ≤ setup.cfg.numMiners → ∃ counter,
    state.stats.minerInvalidBlocks[m - 1]? = some counter ∧
      counter + (rejectedOf m state.statisticsMq).length +
        (blocksOf m (state.system.refusing setup)).length = (blocksOf m (rejectedBlocks trace)).length
  processed : state.statisticsMq = [] → (∀ num, (state.system.validators num).message = none) →
    state.stats.totalBlocksProcessed =
      (state.system.ledger.appended.length + (rejectedBlocks trace).length : Nat)

/-- Each rejection is counted exactly when every pool phase that passes is
followed by a ledger phase on the same tip, and no validator leaves its loop
with a rejection to report. -/
theorem rejections_counted_iff (run : ReportRun setup trace final)
    (few : setup.cfg.numMiners ≤ 999999) (undisturbed : Undisturbed trace) :
    RejectionsCounted trace final ↔
      KeepsTips setup (systemTrace trace) ∧ FinishesRejections setup (systemTrace trace) := by
  rw [← undisturbed.lost_nil_iff run]
  have tallied := run.tallied few
  have authors := SystemRun.authors run.system
  have counted (m : Nat) : (rejectedOf m final.received).length +
      (rejectedOf m final.statisticsMq).length + (blocksOf m (final.system.refusing setup)).length +
      (rejectedOf m (lostMessages trace)).length = (blocksOf m (rejectedBlocks trace)).length := by
    rw [← pending_rejected authors, ← decided_rejected_length run]
    exact run.balance_length _
  constructor
  · intro law
    rw [List.eq_nil_iff_forall_not_mem]
    intro msg member
    obtain ⟨thread, names⟩ := run.messages_from few (run.lost_decided member)
    obtain ⟨lower, upper, _⟩ := names.authored
    obtain ⟨counter, value, sum⟩ := law.invalid thread lower upper
    cases value.symm.trans (tallied.invalid.value thread lower upper)
    have none : rejectedOf thread (lostMessages trace) = [] := by
      apply List.eq_nil_of_length_eq_zero
      have := counted thread
      omega
    rw [rejectedOf, List.filter_eq_nil_iff] at none
    apply none msg member
    rw [undisturbed.lostMessages_eq run] at member
    obtain ⟨block, _, rfl⟩ := List.mem_map.mp member
    rw [rejectionMessage_accepted, (names.authored.isOf_iff thread).mpr rfl]
    rfl
  · intro none
    refine ⟨?_, ?_⟩
    · intro m lower upper
      refine ⟨_, tallied.invalid.value m lower upper, ?_⟩
      have := counted m
      simp only [none, rejectedOf, List.filter_nil, List.length_nil] at this ⊢
      omega
    · intro drained idle
      have pending : final.system.pending setup = [] := by
        rw [State.pending, List.filterMap_eq_nil_iff]
        exact fun num _ => idle num
      have appended : ((decidedMessages trace).filter StatisticsMessage.accepted).length =
          final.system.ledger.appended.length := by
        obtain ⟨nows, held⟩ := run.insertions
        rw [held.reports, Ledger.appended, List.length_map, List.length_map]
      have rejected := congrArg List.length (decided_rejected trace)
      rw [List.length_map] at rejected
      have decided := run.balance_length fun _ => true
      have kinds := List.length_eq_length_filter_add (l := decidedMessages trace) StatisticsMessage.accepted
      simp only [List.filter_true, drained, pending, none, List.length_nil] at decided
      rw [tallied.processed]
      omega

/-- Both threads mine on the same tip, and validator 1 refuses the second block. -/
def refusedEvents : List ReportEvent :=
  ([insertEvent 1, insertEvent 2, .start 1, .genesis 1] ++ mineEvents 1 [0] ++ mineEvents 2 [1] ++
    validateEvents 1 ++ [Event.read 1 [], .examine 1, .report 1]).map .system ++ [.receive, .receive]

def sendsRejections (setup : Setup) (state : ReportState setup.txs) (event : ReportEvent) : Bool :=
  event.event?.all fun own => (unsentRejection setup state.system own).isNone

theorem refused_executes : (exec (guarded (stepReports smallSetup) (sendsRejections smallSetup))
    (ReportState.initial smallSetup) refusedEvents).isSome = true := by
  decide +kernel

theorem rejections_counted_of_refused : ∃ trace final, ReportRun smallSetup trace final ∧
    RejectionsCounted trace final ∧ final.stats.minerValidBlocks = [1, 0] ∧
    final.stats.minerInvalidBlocks = [0, 1] ∧ final.stats.totalBlocksProcessed = 2 := by
  obtain ⟨trace, guardedRun, events⟩ := exec_run_get refused_executes
  obtain ⟨plain, sends⟩ := guardedRun.of_guarded
  have run : ReportRun smallSetup trace ((exec _ _ _).get refused_executes) := plain
  have law := rejections_counted_iff run (by decide) (undisturbed_of_events events (by decide +kernel))
  refine ⟨trace, _, run, law.mpr (unsentRejection_none_iff.mp ?_), by decide +kernel, by decide +kernel,
    by decide +kernel⟩
  intro entry member
  obtain ⟨⟨state, event⟩, recorded, labelled⟩ := List.mem_filterMap.mp member
  obtain ⟨own, label, rfl⟩ := Option.map_eq_some_iff.mp labelled
  have sent := sends _ recorded
  rw [sendsRejections, label, Option.all_some] at sent
  exact Option.isNone_iff_eq_none.mp sent

end

/-- Two validators between their pool and ledger phases, of which one has appended its block. -/
def racedEvents : List ReportEvent := raceEvents.dropLast.map .system

theorem raced_executes :
    (exec (stepReports smallSetup) (ReportState.initial smallSetup) racedEvents).isSome = true := by
  decide +kernel

def raced : ReportState smallSetup.txs := (exec _ _ _).get raced_executes

theorem raced_drops : (stepReports smallSetup raced (.system (.ledgerPhase 2 0))).isSome = true := by
  decide +kernel

theorem dropped_block_uncounted : ∃ trace final, ReportRun smallSetup trace final ∧
    smallSetup.cfg.numMiners ≤ 999999 ∧ Undisturbed trace ∧ ¬ RejectionsCounted trace final := by
  obtain ⟨trace, run, events⟩ := exec_run_get raced_executes
  have dropped : ReportRun smallSetup (trace ++ [(raced, .system (.ledgerPhase 2 0))])
      ((stepReports smallSetup raced (.system (.ledgerPhase 2 0))).get raced_drops) :=
    run.snoc (Option.some_get raced_drops).symm
  refine ⟨_, _, dropped, by decide, ?_, fun law => ?_⟩
  · have recorded : (trace ++ [(raced, ReportEvent.system (.ledgerPhase 2 0))]).map Prod.snd =
        racedEvents ++ [.system (.ledgerPhase 2 0)] := by
      rw [List.map_append, events]
      rfl
    exact undisturbed_of_events recorded (by decide +kernel)
  · obtain ⟨counter, value, sum⟩ := law.invalid 2 (by decide) (by decide)
    have zero : counter = 0 := Option.some.inj (value.symm.trans (by decide +kernel))
    have silent : (rejectedOf 2 ((stepReports smallSetup raced (.system (.ledgerPhase 2 0))).get
          raced_drops).statisticsMq).length = 0 ∧
        (blocksOf 2 (((stepReports smallSetup raced (.system (.ledgerPhase 2 0))).get
          raced_drops).system.refusing smallSetup)).length = 0 := by
      decide +kernel
    have own : ((rejection smallSetup raced.system (.ledgerPhase 2 0)).map fun block =>
        isOf 2 block.txbId) = some true := by
      decide +kernel
    obtain ⟨block, rejected, isOwn⟩ := Option.map_eq_some_iff.mp own
    have counted : block ∈ blocksOf 2 (rejectedBlocks
        (trace ++ [(raced, .system (.ledgerPhase 2 0))])) := by
      refine List.mem_filter.mpr ⟨mem_rejectedBlocks (List.mem_append_right _ ?_) rejected, isOwn⟩
      exact List.mem_singleton_self _
    have positive := List.length_pos_of_mem counted
    omega

end DeiChain
