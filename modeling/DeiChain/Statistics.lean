import DeiChain.Authorship
import DeiChain.Systems.Delivery

namespace DeiChain

open Data Systems

variable {n : Nat}

/-! # Reports to the statistics process

A validator reports each block it has decided on with one message. Amounts,
counters and `total_tx_time`, a double that only ever gets whole seconds, are
exact integers here.
-/

def minerIdLen : Nat := 7
def statisticsMqSize : Nat := 10

structure StatisticsMessage where
  txbId : CharArray txbIdLen
  minerId : CharArray minerIdLen
  blockIndex : Int
  earnedAmount : Int
  timestamp : Int64
deriving DecidableEq

/-- The miner of a block, scanned out of its id and printed again. -/
def formatMinerId (txbId : CharArray txbIdLen) : CharArray minerIdLen :=
  match scanMinerId txbId with
  | some minerId => snprintf (zeroArray minerIdLen) (decimalInt minerId)
  | none => snprintf (zeroArray minerIdLen) [45, 49]

def TransactionBlock.rewards (block : TransactionBlock n) : Int :=
  (block.transactions.toList.map fun tx => tx.reward.toInt).sum

def rejectionMessage (block : TransactionBlock n) : StatisticsMessage :=
  { txbId := snprintf (zeroArray txbIdLen) (cstr block.txbId.toList)
    minerId := formatMinerId block.txbId
    blockIndex := -1
    earnedAmount := -1
    timestamp := 0 }

def insertionMessage (block : TransactionBlock n) (nextIndex : Nat) (now : Int64) : StatisticsMessage :=
  { txbId := snprintf (zeroArray txbIdLen) (cstr block.txbId.toList)
    minerId := formatMinerId block.txbId
    blockIndex := nextIndex
    earnedAmount := block.rewards
    timestamp := now }

/-- The message that a validator is about to send. -/
def ValidatorPhase.message : ValidatorPhase n → Option StatisticsMessage
  | .rejecting block => some (rejectionMessage block)
  | .inserted block index now => some (insertionMessage block index now)
  | _ => none

structure Statistics where
  minerValidBlocks : List Int
  minerInvalidBlocks : List Int
  totalTxTime : Int
  minerCredits : List Int
  totalBlocksProcessed : Int
  blocksInChain : Int

def Statistics.initial (numMiners : Nat) : Statistics :=
  ⟨List.replicate numMiners 0, List.replicate numMiners 0, 0, List.replicate numMiners 0, 0, 0⟩

/-- `counters[index] += amount`; `none` where the index is out of bounds, which
is undefined in C. -/
def addAt (counters : List Int) (index amount : Int) : Option (List Int) :=
  if 0 ≤ index ∧ index.toNat < counters.length then
    some (counters.modify index.toNat fun counter => counter + amount)
  else none

def txTime (timestamp : Int64) (block : TransactionBlock n) : Int :=
  (block.transactions.toList.map fun tx => timestamp.toInt - tx.timestamp.toInt).sum

/-- One round of the loop of `statistics`, its section on the ledger included. -/
def receiveMessage (ledger : Ledger n) (stats : Statistics) (msg : StatisticsMessage) :
    Option Statistics :=
  let minerId := atoi (cstr msg.minerId.toList) - 1
  if msg.blockIndex = -1 then
    (addAt stats.minerInvalidBlocks minerId 1).map fun minerInvalidBlocks =>
      { stats with
        minerInvalidBlocks
        totalBlocksProcessed := stats.totalBlocksProcessed + 1 }
  else
    (addAt stats.minerValidBlocks minerId 1).bind fun minerValidBlocks =>
      (addAt stats.minerCredits minerId msg.earnedAmount).map fun minerCredits =>
        { stats with
          minerValidBlocks
          minerCredits
          totalBlocksProcessed := stats.totalBlocksProcessed + 1
          blocksInChain := stats.blocksInChain + 1
          totalTxTime :=
            stats.totalTxTime + txTime msg.timestamp (ledger.blocks msg.blockIndex.toNat) }

/-- The system with the queue to statistics and the process that empties it;
`received` lists, as history, every message it has dealt with. -/
structure ReportState (n : Nat) where
  system : State n
  statisticsMq : List StatisticsMessage
  stats : Statistics
  received : List StatisticsMessage

def ReportState.initial (setup : Setup) : ReportState setup.txs :=
  { system := State.initial setup
    statisticsMq := []
    stats := Statistics.initial setup.cfg.numMiners
    received := [] }

/-- `sendFails` is a report whose `mq_send` fails: the queue is opened with
`O_NONBLOCK`, and the validator goes on without its message. -/
inductive ReportEvent where
  | system (event : Event)
  | sendFails (num : Nat)
  | receive
deriving DecidableEq

def outgoing (state : State n) : Event → Option StatisticsMessage
  | .report num => (state.validators num).message
  | _ => none

def stepReports (setup : Setup) (state : ReportState setup.txs) :
    ReportEvent → Option (ReportState setup.txs)
  | .system event =>
      match outgoing state.system event with
      | some msg =>
          if state.statisticsMq.length < statisticsMqSize then
            (step setup state.system event).map fun system =>
              { state with system, statisticsMq := state.statisticsMq ++ [msg] }
          else none
      | none => (step setup state.system event).map fun system => { state with system }
  | .sendFails num => (step setup state.system (.report num)).map fun system => { state with system }
  | .receive =>
      match state.statisticsMq with
      | [] => none
      | msg :: statisticsMq =>
          (receiveMessage state.system.ledger state.stats msg).map fun stats =>
            { state with statisticsMq, stats, received := state.received ++ [msg] }

abbrev ReportRun (setup : Setup) (trace : List (ReportState setup.txs × ReportEvent))
    (final : ReportState setup.txs) : Prop :=
  Run (stepReports setup) (ReportState.initial setup) trace final

def ReportEvent.event? : ReportEvent → Option Event
  | .system event => some event
  | .sendFails num => some (.report num)
  | .receive => none

/-- Reports of a run of the system with its statistics. -/
def systemTrace {setup : Setup} (trace : List (ReportState setup.txs × ReportEvent)) :
    List (State setup.txs × Event) :=
  trace.filterMap fun entry => entry.2.event?.map fun event => (entry.1.system, event)

section

variable {setup : Setup} {before after final : ReportState setup.txs} {event : ReportEvent}
  {trace : List (ReportState setup.txs × ReportEvent)}

theorem stepReports_system (taken : stepReports setup before event = some after) :
    (event.event? = none → after.system = before.system) ∧
      ∀ own, event.event? = some own → step setup before.system own = some after.system := by
  cases event with
  | system own =>
      refine ⟨nofun, fun same label => ?_⟩
      cases label
      simp only [stepReports] at taken
      split at taken
      · split at taken
        · obtain ⟨system, stepped, rfl⟩ := Option.map_eq_some_iff.mp taken
          exact stepped
        · cases taken
      · obtain ⟨system, stepped, rfl⟩ := Option.map_eq_some_iff.mp taken
        exact stepped
  | sendFails num =>
      refine ⟨nofun, fun same label => ?_⟩
      cases label
      obtain ⟨system, stepped, rfl⟩ := Option.map_eq_some_iff.mp taken
      exact stepped
  | receive =>
      refine ⟨fun _ => ?_, nofun⟩
      simp only [stepReports] at taken
      split at taken
      · cases taken
      · obtain ⟨stats, _, rfl⟩ := Option.map_eq_some_iff.mp taken
        rfl

/-- The processes run on as if nobody counted. -/
theorem ReportRun.system (run : ReportRun setup trace final) :
    SystemRun setup (systemTrace trace) final.system := by
  induction run with
  | nil => exact .nil
  | @snoc earlierTrace before event after earlier taken ih =>
      obtain ⟨silent, stepped⟩ := stepReports_system taken
      rw [systemTrace, List.filterMap_append, ← systemTrace]
      cases label : event.event? with
      | none => simpa [label, silent label] using ih
      | some own => simpa [label] using ih.snoc (stepped own label)

end

end DeiChain
