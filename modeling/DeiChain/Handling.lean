import DeiChain.Authorship
import DeiChain.Systems.Handover

namespace DeiChain

open Data Systems
open Systems.Handover (Action)

/-! # From the pipe to a decision

Each frame that a thread writes is taken by one validator, which appends or
rejects its block unless it ends first.
-/

deriving instance DecidableEq for TransactionBlock

/-- The block that a validator has read and not yet decided on. -/
def ValidatorPhase.undecided {n : Nat} : ValidatorPhase n → Option (TransactionBlock n)
  | .received block _ | .checked block _ | .accepted block _ => some block
  | _ => none

section

variable (setup : Setup)

/-- The block that an event of the system rejects, for whatever reason. -/
def rejection (state : State setup.txs) : Event → Option (TransactionBlock setup.txs)
  | .examine num =>
      match state.validators num with
      | .received block _ =>
          if verifyNonce setup.sha256 block ∧ onTip state.ledger block then none else some block
      | _ => none
  | .poolPhase num =>
      match state.validators num with
      | .checked block _ => if (poolPhase state.pool block).isSome then none else some block
      | _ => none
  | .ledgerPhase num _ =>
      match state.validators num with
      | .accepted block _ => if onTip state.ledger block then none else some block
      | _ => none
  | _ => none

/-- The block that an event of the system appends or rejects. -/
def decides (state : State setup.txs) : Event → Option (TransactionBlock setup.txs)
  | .ledgerPhase num _ =>
      match state.validators num with
      | .accepted block _ => some block
      | _ => none
  | event => rejection setup state event

def handling (state : State setup.txs) : Event → Option (Action Nat (TransactionBlock setup.txs))
  | .write thread _ =>
      match (state.miners thread).phase with
      | .mined block _ => some (.place block)
      | _ => none
  | .read num _ => some (.take num)
  | .examine num => (decides setup state (.examine num)).map (.settle num)
  | .poolPhase num => (decides setup state (.poolPhase num)).map (.settle num)
  | .ledgerPhase num now => (decides setup state (.ledgerPhase num now)).map (.settle num)
  | .leave num | .kill num => (state.validators num).undecided.map (.drop num)
  | _ => none

end

section

variable {setup : Setup} {before after final : State setup.txs} {event : Event}
  {trace : List (State setup.txs × Event)}

theorem rejection_held {state : State setup.txs} {own : Event} {block : TransactionBlock setup.txs}
    (rejected : rejection setup state own = some block) :
    ∃ num, (state.validators num).block? = some block := by
  unfold rejection at rejected
  split at rejected
  · split at rejected
    · rename_i received
      split at rejected
      · cases rejected
      · cases rejected
        exact ⟨_, by rw [received]; rfl⟩
    · cases rejected
  · split at rejected
    · rename_i checked
      split at rejected
      · cases rejected
      · cases rejected
        exact ⟨_, by rw [checked]; rfl⟩
    · cases rejected
  · split at rejected
    · rename_i accepted
      split at rejected
      · cases rejected
      · cases rejected
        exact ⟨_, by rw [accepted]; rfl⟩
    · cases rejected
  · cases rejected

/-- The queue holds the blocks of the frames in the pipe, and each validator the block it has read. -/
structure Handled (state : State setup.txs) (handover : Handover Nat (TransactionBlock setup.txs)) :
    Prop where
  queue : List.Forall₂ (fun frame block => ∃ pointer : UInt64, frame.bytes = minerFrame pointer block)
    state.pipe handover.queue
  held : handover.held = fun num => (state.validators num).undecided

theorem undecided_update {num : Nat} {phase : ValidatorPhase setup.txs}
    (moved : after.validators = Function.update before.validators num phase) :
    (fun other => (after.validators other).undecided) =
      Function.update (fun other => (before.validators other).undecided) num phase.undecided := by
  funext other
  simp only [moved, Function.update_apply]
  split <;> rfl

/-- A handover of the state before a step takes the action that the step stands
for, and is then one of the state after it. -/
def Matches (handover : Handover Nat (TransactionBlock setup.txs)) (after : State setup.txs)
    (label : Option (Action Nat (TransactionBlock setup.txs))) : Prop :=
  (label = none → Handled after handover) ∧
    ∀ action, label = some action → ∃ next, Handover.step handover action = some next ∧ Handled after next

variable {handover next : Handover Nat (TransactionBlock setup.txs)} {num : Nat}
  {earlier phase : ValidatorPhase setup.txs} {block : TransactionBlock setup.txs}

theorem Matches.still (handled : Handled after handover) : Matches handover after none := by
  refine ⟨fun _ => handled, fun action label => ?_⟩
  cases label

theorem Matches.acts {action : Action Nat (TransactionBlock setup.txs)}
    (stepped : Handover.step handover action = some next) (handled : Handled after next) :
    Matches handover after (some action) := by
  refine ⟨fun label => ?_, fun other label => ?_⟩
  · cases label
  · cases label
    exact ⟨next, stepped, handled⟩

theorem Matches.silent (handled : Handled before handover) (was : before.validators num = earlier)
    (moved : after.validators = Function.update before.validators num phase)
    (same : earlier.undecided = phase.undecided) (pipe : after.pipe = before.pipe) : Matches handover after none := by
  refine .still ⟨pipe ▸ handled.queue, ?_⟩
  have holds : (before.validators num).undecided = phase.undecided :=
    (congrArg ValidatorPhase.undecided was).trans same
  rw [handled.held, undecided_update moved, ← holds]
  exact (Function.update_eq_self num _).symm

theorem Matches.settles (handled : Handled before handover) (was : before.validators num = earlier)
    (moved : after.validators = Function.update before.validators num phase)
    (holds : earlier.undecided = some block) (free : phase.undecided = none)
    (pipe : after.pipe = before.pipe) : Matches handover after (some (.settle num block)) := by
  have holding : handover.held num = some block :=
    (congrFun handled.held num).trans ((congrArg ValidatorPhase.undecided was).trans holds)
  refine .acts (if_pos holding) ⟨pipe ▸ handled.queue, ?_⟩
  rw [undecided_update moved, free, handled.held]

theorem Matches.ends (handled : Handled before handover)
    (moved : after.validators = Function.update before.validators num .exited)
    (pipe : after.pipe = before.pipe) :
    Matches handover after ((before.validators num).undecided.map (.drop num)) := by
  cases holds : (before.validators num).undecided with
  | none => exact .silent handled rfl moved holds pipe
  | some block =>
      have holding : handover.held num = some block := (congrFun handled.held num).trans holds
      refine .acts (if_pos holding) ⟨pipe ▸ handled.queue, ?_⟩
      rw [undecided_update moved, handled.held]
      rfl

theorem Transition.handles (handled : Handled before handover)
    (taken : Transition setup before event after) (unwritten : ∀ thread pointer, event ≠ .write thread pointer) :
    Matches handover after (handling setup before event) := by
  cases taken with
  | rested own empty =>
      cases event with
      | write thread pointer => exact absurd rfl (unwritten thread pointer)
      | pollPool | pollLedger | select | readTip | mine | abandon => exact .still ⟨handled.queue, handled.held⟩
      | _ => cases own
  | started known idle =>
      rcases idle with idle | ⟨idle, _⟩
      · exact .silent handled idle rfl rfl rfl
      · exact .silent handled idle rfl rfl rfl
  | created starting empty genesis => exact .silent handled starting rfl rfl rfl
  | joined starting positive => exact .silent handled starting rfl rfl rfl
  | @took num residue frame pipe block reading front decoded =>
      obtain ⟨queue, held⟩ := handled
      rw [front] at queue
      obtain ⟨first, rest, ⟨pointer, bytes⟩, others, full⟩ := List.forall₂_cons_left_iff.mp queue
      rw [bytes, decodeFrame_minerFrame setup.cfg.maxBlockSize_lt] at decoded
      cases decoded
      have idle : handover.held num = none :=
        (congrFun held num).trans (congrArg ValidatorPhase.undecided reading)
      have stepped : Handover.step handover (.take num) = some { handover with
          queue := rest
          held := Function.update handover.held num (some block) } := by
        rw [Handover.step, full]
        exact if_pos idle
      refine .acts stepped ⟨others, ?_⟩
      have moved : ({ before.withValidator num (.received block frame.history) with
          pipe } : State setup.txs).validators =
            Function.update before.validators num (.received block frame.history) := rfl
      rw [undecided_update moved, held]
      rfl
  | misread reading front failed =>
      have queue := handled.queue
      rw [front] at queue
      obtain ⟨first, rest, ⟨pointer, bytes⟩, _⟩ := List.forall₂_cons_left_iff.mp queue
      rw [bytes, decodeFrame_minerFrame setup.cfg.maxBlockSize_lt] at failed
      cases failed
  | approved received verified tip =>
      simp only [handling, decides, rejection, received, verified, tip, and_self, if_true, Option.map_none]
      exact .silent handled received rfl rfl rfl
  | refusedBlock received fault =>
      simp only [handling, decides, rejection, received, fault, if_false, Option.map_some]
      exact .settles handled received rfl rfl rfl rfl
  | removed checked passed =>
      simp only [handling, decides, rejection, checked, passed, Option.isSome_some, if_true, Option.map_none]
      exact .silent handled checked rfl rfl rfl
  | unmatched checked failed =>
      simp only [handling, decides, rejection, checked, failed, Option.isSome_none, Bool.false_eq_true,
        if_false, Option.map_some]
      exact .settles handled checked rfl rfl rfl rfl
  | appended accepted tip =>
      simp only [handling, decides, accepted, Option.map_some]
      exact .settles handled accepted rfl rfl rfl rfl
  | dropped accepted stale =>
      simp only [handling, decides, accepted, Option.map_some]
      exact .settles handled accepted rfl rfl rfl rfl
  | reported pending =>
      rcases pending with ⟨block, phase⟩ | ⟨block, index, now, phase⟩
      · exact .silent handled phase rfl rfl rfl
      · exact .silent handled phase rfl rfl rfl
  | left founded unburdened => exact .ends handled rfl rfl
  | killed alive => exact .ends handled rfl rfl
  | wrote => exact absurd rfl (unwritten _ _)
  | _ => exact .still ⟨handled.queue, handled.held⟩

theorem step_handles (handled : Handled before handover) (taken : step setup before event = some after) :
    Matches handover after (handling setup before event) := by
  by_cases writes : ∃ thread pointer, event = .write thread pointer
  · obtain ⟨thread, pointer, rfl⟩ := writes
    simp only [step, stepWrite] at taken
    simp only [handling]
    cases phase : (before.miners thread).phase with
    | mined block history =>
        rw [phase] at taken
        cases taken
        exact .acts rfl ⟨List.rel_append handled.queue (.cons ⟨pointer, rfl⟩ .nil), handled.held⟩
    | _ =>
        rw [phase] at taken
        cases taken
  · exact (step_transition taken).handles handled fun thread pointer same => writes ⟨thread, pointer, same⟩

def handlings (trace : List (State setup.txs × Event)) : List (Action Nat (TransactionBlock setup.txs)) :=
  trace.filterMap fun entry => handling setup entry.1 entry.2

/-- The blocks of the frames that threads wrote, those that validators decided
on, and those that a validator took with it when it ended. -/
def writtenBlocks (trace : List (State setup.txs × Event)) : List (TransactionBlock setup.txs) :=
  (handlings trace).filterMap Action.placed?

def decidedBlocks (trace : List (State setup.txs × Event)) : List (TransactionBlock setup.txs) :=
  (handlings trace).filterMap Action.settled?

def abandonedBlocks (trace : List (State setup.txs × Event)) : List (TransactionBlock setup.txs) :=
  (handlings trace).filterMap Action.dropped?

theorem handling_take {state : State setup.txs} (label : handling setup state event = some (.take num)) :
    ∃ residue, event = .read num residue := by
  cases event with
  | read other residue =>
      cases label
      exact ⟨residue, rfl⟩
  | write thread pointer =>
      simp only [handling] at label
      split at label <;> cases label
  | examine other | poolPhase other | ledgerPhase other now | leave other | kill other =>
      obtain ⟨_, _, same⟩ := Option.map_eq_some_iff.mp label
      cases same
  | _ => cases label

theorem SystemRun.handed (run : SystemRun setup trace final) :
    ∃ handover : Handover Nat (TransactionBlock setup.txs), Handled final handover ∧
      Handover.Conserved (List.range' 1 setup.maxValidators) handover ∧
      handover.placed = writtenBlocks trace ∧ handover.settled = decidedBlocks trace ∧
      handover.dropped = abandonedBlocks trace := by
  obtain ⟨handoverTrace, handover, handed, handled, labels⟩ :=
    Run.simulates Handled (handling setup) (⟨.nil, rfl⟩ : Handled _ Handover.empty) run
      (fun entry _ _ _ handled taken silent => (step_handles handled taken).1 silent)
      (fun entry _ _ _ action handled taken label => (step_handles handled taken).2 action label)
  obtain ⟨placed, settled, dropped⟩ := Handover.run_lists handed
  rw [labels] at placed settled dropped
  refine ⟨handover, handled, Handover.run_conserved List.nodup_range' handed ?_, placed, settled, dropped⟩
  intro num takes
  rw [labels] at takes
  obtain ⟨⟨state, event⟩, member, label⟩ := List.mem_filterMap.mp takes
  obtain ⟨earlier, _, _, _, reached, taken, _⟩ := run.recorded member
  obtain ⟨residue, rfl⟩ := handling_take label
  have present : state.validators num ≠ .absent := by
    intro absent
    simp [step, stepRead, absent] at taken
  obtain ⟨lower, upper⟩ := SystemRun.validator_known reached num present
  exact List.mem_range'_1.mpr ⟨lower, by omega⟩

theorem abandonedBlocks_nil_iff : abandonedBlocks trace = [] ↔
    ∀ state num, (state, Event.leave num) ∈ trace ∨ (state, Event.kill num) ∈ trace →
      (state.validators num).undecided = none := by
  rw [abandonedBlocks, handlings, List.filterMap_filterMap, List.filterMap_eq_nil_iff]
  constructor
  · intro none state num ends
    rcases ends with member | member
    · have kept := none _ member
      cases holds : (state.validators num).undecided with
      | none => rfl
      | some block => simp [handling, holds, Action.dropped?] at kept
    · have kept := none _ member
      cases holds : (state.validators num).undecided with
      | none => rfl
      | some block => simp [handling, holds, Action.dropped?] at kept
  · intro idle entry member
    obtain ⟨state, event⟩ := entry
    cases event with
    | leave num =>
        simp only [handling, idle state num (.inl member)]
        rfl
    | kill num =>
        simp only [handling, idle state num (.inr member)]
        rfl
    | examine num | poolPhase num | ledgerPhase num now =>
        simp only [handling]
        cases decides setup state _ <;> rfl
    | write thread pointer =>
        simp only [handling]
        cases (state.miners thread).phase <;> rfl
    | _ => rfl

/-- Every frame written so far has been decided on exactly when the pipe is
empty, no validator is between reading and deciding, and none ever ended there. -/
theorem SystemRun.decided_iff (run : SystemRun setup trace final) :
    (decidedBlocks trace).Perm (writtenBlocks trace) ↔ abandonedBlocks trace = [] ∧
      (∀ num, (final.validators num).undecided = none) ∧ final.pipe = [] := by
  obtain ⟨handover, ⟨queue, held⟩, conserved, placed, settled, dropped⟩ := SystemRun.handed run
  rw [← placed, ← settled, ← dropped, conserved.settled_iff, held]
  have empty : handover.queue = [] ↔ final.pipe = [] := by
    rw [← List.length_eq_zero_iff, ← List.length_eq_zero_iff, queue.length_eq]
  rw [empty]

end

end DeiChain
