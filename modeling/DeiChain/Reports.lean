import DeiChain.Statistics

namespace DeiChain

open Data Systems
open Systems.Delivery (Action)

/-! # Reports as deliveries

A message is made when a validator decides on a block, and held by it until the
validator has sent it. A block that fails the double check is rejected without
a message: the report that was due is missed.
-/

def State.messages {n : Nat} (state : State n) (num : Nat) : Option StatisticsMessage :=
  (state.validators num).message

section

variable (setup : Setup)

/-- What an event of the system means for the reports. -/
def decision (state : State setup.txs) : Event → Option (Action Nat StatisticsMessage)
  | .examine num =>
      match state.validators num with
      | .received block _ =>
          if verifyNonce setup.sha256 block ∧ onTip state.ledger block then none
          else some (.make num (rejectionMessage block))
      | _ => none
  | .poolPhase num =>
      match state.validators num with
      | .checked block _ =>
          if (poolPhase state.pool block).isSome then none
          else some (.make num (rejectionMessage block))
      | _ => none
  | .ledgerPhase num now =>
      match state.validators num with
      | .accepted block _ =>
          if onTip state.ledger block then
            some (.make num (insertionMessage block (state.ledger.lastBlockIndex + 1) now))
          else some (.miss (rejectionMessage block))
      | _ => none
  | .report num => some (.send num)
  | .leave num | .kill num => (state.messages num).map fun msg => .lose num msg
  | _ => none

def reportAction (state : ReportState setup.txs) : ReportEvent → Option (Action Nat StatisticsMessage)
  | .system event => decision setup state.system event
  | .sendFails num => (state.system.messages num).map fun msg => .lose num msg
  | .receive => some .receive

end

section

variable {setup : Setup} {before after : State setup.txs} {event : Event}

theorem messages_update {num : Nat} {phase : ValidatorPhase setup.txs}
    (moved : after.validators = Function.update before.validators num phase) :
    after.messages = Function.update before.messages num phase.message := by
  funext other
  simp only [State.messages, moved, Function.update_apply]
  split <;> rfl

/-- A delivery whose holders are the validators with a message takes the step
that the decision says, and is left with the holders after it. -/
def Follows (delivery : Delivery Nat StatisticsMessage) (before after : State setup.txs) (event : Event)
    (label : Option (Action Nat StatisticsMessage)) : Prop :=
  (label = none → after.messages = before.messages) ∧
    ∀ action, label = some action → ∃ next, Delivery.step delivery action = some next ∧
      next.held = after.messages ∧ next.queue = delivery.queue ++ (outgoing before event).toList ∧
      next.delivered = delivery.delivered

variable {delivery next : Delivery Nat StatisticsMessage} {num : Nat}
  {earlier phase : ValidatorPhase setup.txs}

theorem Follows.still (same : after.messages = before.messages) :
    Follows delivery before after event none := by
  refine ⟨fun _ => same, fun action label => ?_⟩
  cases label

theorem Follows.silent (was : before.validators num = earlier)
    (moved : after.validators = Function.update before.validators num phase)
    (same : earlier.message = phase.message) : Follows delivery before after event none := by
  apply Follows.still
  have holds : before.messages num = phase.message := (congrArg ValidatorPhase.message was).trans same
  rw [messages_update moved, ← holds, Function.update_eq_self]

theorem Follows.acts {action : Action Nat StatisticsMessage}
    (held : delivery.held = before.messages)
    (moved : after.validators = Function.update before.validators num phase)
    (stepped : Delivery.step delivery action = some next)
    (updated : next.held = Function.update delivery.held num phase.message)
    (queue : next.queue = delivery.queue ++ (outgoing before event).toList)
    (delivered : next.delivered = delivery.delivered) :
    Follows delivery before after event (some action) := by
  refine ⟨fun none => ?_, fun other same => ?_⟩
  · cases none
  cases same
  exact ⟨next, stepped, by rw [updated, held, messages_update moved], queue, delivered⟩

theorem Follows.makes {msg : StatisticsMessage} (held : delivery.held = before.messages)
    (was : before.validators num = earlier) (idle : earlier.message = none)
    (moved : after.validators = Function.update before.validators num phase)
    (message : phase.message = some msg) (quiet : outgoing before event = none) :
    Follows delivery before after event (some (.make num msg)) := by
  have none : delivery.held num = none := by
    rw [held]
    exact (congrArg ValidatorPhase.message was).trans idle
  exact .acts held moved (if_pos none) (by rw [message]) (by simp [quiet]) rfl

theorem Follows.exits (held : delivery.held = before.messages)
    (moved : after.validators = Function.update before.validators num .exited)
    (quiet : outgoing before event = none) :
    Follows delivery before after event ((before.messages num).map fun msg => .lose num msg) := by
  cases holds : before.messages num with
  | none => exact .silent rfl moved holds
  | some msg => exact .acts held moved (if_pos (held ▸ holds)) rfl (by simp [quiet]) rfl

theorem Transition.follows (taken : Transition setup before event after)
    (held : delivery.held = before.messages) :
    Follows delivery before after event (decision setup before event) := by
  cases taken with
  | rested own empty =>
      cases event with
      | pollPool | pollLedger | select | readTip | mine | write | abandon => exact .still rfl
      | _ => cases own
  | started known idle =>
      rcases idle with idle | ⟨idle, _⟩
      · exact .silent idle rfl rfl
      · exact .silent idle rfl rfl
  | created starting empty genesis => exact .silent starting rfl rfl
  | joined starting positive => exact .silent starting rfl rfl
  | took reading front decoded => exact .silent reading rfl rfl
  | misread reading front failed => exact .silent reading rfl rfl
  | approved received verified tip =>
      simp only [decision, received, verified, tip, and_self, if_true]
      exact .silent received rfl rfl
  | refusedBlock received fault =>
      simp only [decision, received, fault, if_false]
      exact .makes held received rfl rfl rfl rfl
  | removed checked passed =>
      simp only [decision, checked, passed, Option.isSome_some, if_true]
      exact .silent checked rfl rfl
  | unmatched checked failed =>
      simp only [decision, checked, failed, Option.isSome_none, Bool.false_eq_true, if_false]
      exact .makes held checked rfl rfl rfl rfl
  | appended accepted tip =>
      simp only [decision, accepted, tip, if_true]
      exact .makes held accepted rfl rfl rfl rfl
  | dropped accepted stale =>
      simp only [decision, accepted, stale, Bool.false_eq_true, if_false]
      refine .acts held rfl rfl ?_ (List.append_nil _).symm rfl
      have idle : delivery.held _ = none :=
        (congrFun held _).trans (congrArg ValidatorPhase.message accepted)
      exact ((congrArg _ idle.symm).trans (Function.update_eq_self _ _)).symm
  | @reported num pending =>
      obtain ⟨msg, holds⟩ : ∃ msg, before.messages num = some msg := by
        rcases pending with ⟨block, phase⟩ | ⟨block, index, now, phase⟩
        · exact ⟨_, congrArg ValidatorPhase.message phase⟩
        · exact ⟨_, congrArg ValidatorPhase.message phase⟩
      have sends : Delivery.step delivery (.send num) = some { delivery with
          held := Function.update delivery.held num none
          queue := delivery.queue ++ [msg] } := by
        rw [Delivery.step, held, holds]
        rfl
      have message : outgoing before (.report num) = some msg := holds
      exact .acts held rfl sends rfl (by rw [message]; rfl) rfl
  | left founded unburdened => exact .exits held rfl rfl
  | killed alive => exact .exits held rfl rfl
  | _ => exact .still rfl

end

section

variable {setup : Setup} {before after final : ReportState setup.txs} {event : ReportEvent}
  {trace : List (ReportState setup.txs × ReportEvent)}

structure Reported {n : Nat} (state : ReportState n) (delivery : Delivery Nat StatisticsMessage) :
    Prop where
  held : delivery.held = state.system.messages
  queue : delivery.queue = state.statisticsMq
  delivered : delivery.delivered = state.received

theorem Reported.step {delivery : Delivery Nat StatisticsMessage} (reported : Reported before delivery)
    (taken : stepReports setup before event = some after) :
    (reportAction setup before event = none → Reported after delivery) ∧
      ∀ action, reportAction setup before event = some action →
        ∃ next, Delivery.step delivery action = some next ∧ Reported after next := by
  obtain ⟨held, queue, delivered⟩ := reported
  have follows {own : Event} (label : event.event? = some own) :=
    (step_transition ((stepReports_system taken).2 own label)).follows held
  cases event with
  | system own =>
      obtain ⟨silent, acts⟩ := follows rfl
      have lists : after.statisticsMq = before.statisticsMq ++ (outgoing before.system own).toList ∧
          after.received = before.received := by
        simp only [stepReports] at taken
        split at taken
        · rename_i msg sends
          split at taken
          · obtain ⟨system, _, rfl⟩ := Option.map_eq_some_iff.mp taken
            exact ⟨by rw [sends]; rfl, rfl⟩
          · cases taken
        · rename_i quiet
          obtain ⟨system, _, rfl⟩ := Option.map_eq_some_iff.mp taken
          exact ⟨by rw [quiet]; exact (List.append_nil _).symm, rfl⟩
      constructor
      · intro none
        have quiet : outgoing before.system own = Option.none := by
          cases own with
          | report num => cases none
          | _ => rfl
        rw [quiet] at lists
        exact ⟨held.trans (silent none).symm, queue.trans (lists.1.trans (List.append_nil _)).symm,
          delivered.trans lists.2.symm⟩
      · intro action some
        obtain ⟨next, stepped, nextHeld, nextQueue, nextDelivered⟩ := acts action some
        exact ⟨next, stepped, nextHeld, by rw [nextQueue, queue, lists.1],
          by rw [nextDelivered, delivered, lists.2]⟩
  | sendFails num =>
      obtain ⟨_, acts⟩ := follows rfl
      obtain ⟨system, stepped, rfl⟩ := Option.map_eq_some_iff.mp taken
      obtain ⟨next, sent, released, _⟩ := acts (.send num) rfl
      obtain ⟨msg, holds, rfl⟩ := Option.map_eq_some_iff.mp sent
      have message : before.system.messages num = some msg := held ▸ holds
      simp only [reportAction, message, Option.map_some]
      refine ⟨fun none => ?_, fun action same => ?_⟩
      · cases none
      cases same
      exact ⟨_, if_pos holds, released, queue, delivered⟩
  | receive =>
      refine ⟨fun none => ?_, fun action same => ?_⟩
      · cases none
      cases same
      simp only [stepReports] at taken
      split at taken
      · cases taken
      · rename_i msg rest front
        obtain ⟨stats, _, rfl⟩ := Option.map_eq_some_iff.mp taken
        refine ⟨{ delivery with queue := rest, delivered := delivery.delivered ++ [msg] }, ?_, held, rfl,
          by rw [delivered]⟩
        rw [Delivery.step, queue, front]

def reportActions (trace : List (ReportState setup.txs × ReportEvent)) :
    List (Action Nat StatisticsMessage) :=
  trace.filterMap fun entry => reportAction setup entry.1 entry.2

/-- The messages of the blocks that were decided on, and of those the ones that
no one will ever receive. -/
def decidedMessages (trace : List (ReportState setup.txs × ReportEvent)) : List StatisticsMessage :=
  (reportActions trace).filterMap Action.made?

def lostMessages (trace : List (ReportState setup.txs × ReportEvent)) : List StatisticsMessage :=
  (reportActions trace).filterMap Action.lost?

/-- The messages that validators are about to send. -/
def State.pending (setup : Setup) (state : State setup.txs) : List StatisticsMessage :=
  (List.range' 1 setup.maxValidators).filterMap state.messages

/-- A message that becomes due is about the block that the acting validator has. -/
theorem decision_made {state : State setup.txs} {own : Event} {action : Action Nat StatisticsMessage}
    {msg : StatisticsMessage} (label : decision setup state own = some action)
    (makes : action.made? = some msg) :
    ∃ num block, (state.validators num).block? = some block ∧
      (∀ token, ∀ process, action = .make process token → process = num) ∧
      (msg = rejectionMessage block ∨ ∃ now history, own = .ledgerPhase num now ∧
        state.validators num = .accepted block history ∧ onTip state.ledger block = true ∧
        msg = insertionMessage block (state.ledger.lastBlockIndex + 1) now) := by
  unfold decision at label
  split at label
  · split at label
    · rename_i received
      split at label
      · cases label
      · cases label
        cases makes
        exact ⟨_, _, by rw [received]; rfl, fun _ _ same => by cases same; rfl, .inl rfl⟩
    · cases label
  · split at label
    · rename_i checked
      split at label
      · cases label
      · cases label
        cases makes
        exact ⟨_, _, by rw [checked]; rfl, fun _ _ same => by cases same; rfl, .inl rfl⟩
    · cases label
  · split at label
    · rename_i accepted
      split at label
      · rename_i tip
        cases label
        cases makes
        exact ⟨_, _, by rw [accepted]; rfl, fun _ _ same => by cases same; rfl,
          .inr ⟨_, _, rfl, accepted, tip, rfl⟩⟩
      · cases label
        cases makes
        exact ⟨_, _, by rw [accepted]; rfl, nofun, .inl rfl⟩
    · cases label
  · cases label
    cases makes
  · obtain ⟨_, _, rfl⟩ := Option.map_eq_some_iff.mp label
    cases makes
  · obtain ⟨_, _, rfl⟩ := Option.map_eq_some_iff.mp label
    cases makes
  · cases label

theorem reportAction_made {action : Action Nat StatisticsMessage} {msg : StatisticsMessage}
    (label : reportAction setup before event = some action) (makes : action.made? = some msg) :
    ∃ own, event = .system own ∧ decision setup before.system own = some action := by
  cases event with
  | system own => exact ⟨own, rfl, label⟩
  | sendFails num =>
      obtain ⟨_, _, rfl⟩ := Option.map_eq_some_iff.mp label
      cases makes
  | receive =>
      cases label
      cases makes

theorem mem_decidedMessages {msg : StatisticsMessage} (member : msg ∈ decidedMessages trace) :
    ∃ state own action, (state, ReportEvent.system own) ∈ trace ∧
      decision setup state.system own = some action ∧ action.made? = some msg := by
  obtain ⟨action, actionMember, makes⟩ := List.mem_filterMap.mp member
  obtain ⟨⟨state, event⟩, entryMember, label⟩ := List.mem_filterMap.mp actionMember
  obtain ⟨own, rfl, decided⟩ := reportAction_made label makes
  exact ⟨state, own, action, entryMember, decided, makes⟩

/-- Every message that was due has been dealt with, waits in the queue, is
about to be sent, or is lost. -/
theorem ReportRun.conserved (run : ReportRun setup trace final) :
    ∃ delivery : Delivery Nat StatisticsMessage, Reported final delivery ∧
      Delivery.Conserved (List.range' 1 setup.maxValidators) delivery ∧
      delivery.made = decidedMessages trace ∧ delivery.lost = lostMessages trace := by
  obtain ⟨deliveryTrace, delivery, delivered, reported, labels⟩ :=
    Run.simulates Reported (reportAction setup) (⟨rfl, rfl, rfl⟩ : Reported _ Delivery.empty) run
      (fun entry _ _ _ related taken silent => (related.step taken).1 silent)
      (fun entry _ _ _ action related taken label => (related.step taken).2 action label)
  obtain ⟨made, lost⟩ := Delivery.run_lists delivered
  rw [labels] at made lost
  refine ⟨delivery, reported, Delivery.run_conserved List.nodup_range' delivered ?_, made, lost⟩
  intro num msg makes
  rw [labels] at makes
  obtain ⟨entry, member, label⟩ := List.mem_filterMap.mp makes
  obtain ⟨own, _, decided⟩ := reportAction_made label rfl
  obtain ⟨acting, block, holds, same, _⟩ := decision_made decided rfl
  cases same msg num rfl
  obtain ⟨earlier, _, _, _, reached, _, _⟩ := run.recorded member
  have present : entry.1.system.validators num ≠ .absent := by
    intro absent
    rw [absent] at holds
    cases holds
  obtain ⟨lower, upper⟩ := SystemRun.validator_known (ReportRun.system reached) num present
  exact List.mem_range'_1.mpr ⟨lower, by omega⟩

end

end DeiChain
