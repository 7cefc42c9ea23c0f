import DeiChain.Identity
import DeiChain.Reports

namespace DeiChain

open Data Systems
open Systems.Delivery (Action)

/-! # The accounts of the statistics process

Its counters are sums over the messages it has received, and these are reports
of blocks that were decided on. An account closes when what was decided equals
what was counted and what is still on its way.
-/

def StatisticsMessage.accepted (msg : StatisticsMessage) : Bool := msg.blockIndex != -1

/-- The reports among `msgs` of blocks of miner `m` that were appended. -/
def acceptedOf (m : Nat) (msgs : List StatisticsMessage) : List StatisticsMessage :=
  msgs.filter fun msg => msg.accepted && isOf m msg.txbId

def rejectedOf (m : Nat) (msgs : List StatisticsMessage) : List StatisticsMessage :=
  msgs.filter fun msg => !msg.accepted && isOf m msg.txbId

/-- The message names the miner of its block in both of its texts. -/
structure StatisticsMessage.From (setup : Setup) (msg : StatisticsMessage) (thread : Nat) : Prop where
  authored : Authored setup msg.txbId thread
  minerId : atoi (cstr msg.minerId.toList) = thread

section

variable {setup : Setup} {thread : Nat}

theorem Authored.printed {txbId : CharArray txbIdLen} (authored : Authored setup txbId thread) :
    snprintf (zeroArray txbIdLen) (cstr txbId.toList) = txbId := by
  have padded := authored.padded
  rw [snprintf, List.take_of_length_le (Nat.le_sub_one_of_lt padded.1)]
  exact padded.strcpy_zeroArray

theorem Authored.formatMinerId {txbId : CharArray txbIdLen} (authored : Authored setup txbId thread)
    (few : setup.cfg.numMiners ≤ 999999) : atoi (cstr (formatMinerId txbId).toList) = thread := by
  have known := authored.2.1
  have fits : ∀ number, scanMinerId txbId = some number → -2 ^ 31 ≤ number ∧ number < 2 ^ 31 := by
    intro number scanned
    cases authored.scanned.symm.trans scanned
    omega
  have stored : storedInt (fun _ => 0) thread = thread := if_pos (fits _ authored.scanned)
  have sent := @sentMinerId_eq (fun _ => 0) txbId fits
  rw [← sent, entry_natural authored.scanned stored, (sixDigits_eq_iff thread).mpr (known.trans few)]

variable {block : TransactionBlock setup.txs}

theorem rejectionMessage_from (authored : Authored setup block.txbId thread)
    (few : setup.cfg.numMiners ≤ 999999) : (rejectionMessage block).From setup thread where
  authored := by
    rw [rejectionMessage, authored.printed]
    exact authored
  minerId := authored.formatMinerId few

theorem insertionMessage_from (authored : Authored setup block.txbId thread)
    (few : setup.cfg.numMiners ≤ 999999) (index : Nat) (now : Int64) :
    (insertionMessage block index now).From setup thread where
  authored := by
    rw [insertionMessage, authored.printed]
    exact authored
  minerId := authored.formatMinerId few

@[simp] theorem rejectionMessage_accepted : (rejectionMessage block).accepted = false := rfl

@[simp] theorem insertionMessage_accepted (index : Nat) (now : Int64) :
    (insertionMessage block index now).accepted = true := by
  simp [insertionMessage, StatisticsMessage.accepted]

end

section

variable {setup : Setup} {before after final : ReportState setup.txs} {event : ReportEvent}
  {trace : List (ReportState setup.txs × ReportEvent)}

/-- A ledger phase of the run appended the block at height `k`, and `time` read `now` there. -/
def AppendedAt (trace : List (ReportState setup.txs × ReportEvent)) (k : Nat)
    (block : TransactionBlock setup.txs) (now : Int64) : Prop :=
  ∃ append num history, (append, ReportEvent.system (.ledgerPhase num now)) ∈ trace ∧
    append.system.validators num = .accepted block history ∧
    onTip append.system.ledger block = true ∧ append.system.ledger.lastBlockIndex + 1 = k

/-- The blocks of index 1 and above. -/
def Ledger.appended {n : Nat} (ledger : Ledger n) : List (TransactionBlock n) :=
  (List.range' 1 (ledger.count - 1)).map ledger.blocks

theorem Transition.insertion {state next : State setup.txs} {own : Event}
    (chained : state.ledger.Chained setup.sha256) (taken : Transition setup state own next) :
    (∃ num now block history, own = .ledgerPhase num now ∧
      state.validators num = .accepted block history ∧ onTip state.ledger block = true ∧
      next.ledger = appendBlock state.ledger block (computeSha256 setup.sha256 block) ∧
      decision setup state own =
        some (.make num (insertionMessage block (state.ledger.lastBlockIndex + 1) now))) ∨
    (next.ledger.count - 1 = state.ledger.count - 1 ∧
      ∀ action msg, decision setup state own = some action → action.made? = some msg →
        msg.accepted = false) := by
  by_cases appends : ∃ num now block history, own = .ledgerPhase num now ∧
      state.validators num = .accepted block history ∧ onTip state.ledger block = true
  · obtain ⟨num, now, block, history, rfl, accepted, tip⟩ := appends
    refine .inl ⟨num, now, block, history, rfl, accepted, tip, ?_, by simp [decision, accepted, tip]⟩
    cases taken with
    | rested own => cases own
    | appended same =>
        cases same.symm.trans accepted
        rfl
    | dropped same stale =>
        cases same.symm.trans accepted
        rw [tip] at stale
        cases stale
  · refine .inr ⟨?_, fun action msg label makes => ?_⟩
    · rcases taken.ledger with same | ⟨_, _, empty, genesis⟩ | ⟨num, now, block, history, own, held, tip, _⟩
      · rw [same]
      · have one := (createGenesis_spec chained empty genesis).2.1
        omega
      · exact absurd ⟨num, now, block, history, own, held, tip⟩ appends
    · obtain ⟨num, block, _, _, rfl | ⟨now, history, own, held, tip, _⟩⟩ := decision_made label makes
      · rfl
      · exact absurd ⟨num, now, block, history, own, held, tip⟩ appends

theorem decidedMessages_snoc (trace : List (ReportState setup.txs × ReportEvent))
    (before : ReportState setup.txs) (event : ReportEvent) :
    decidedMessages (trace ++ [(before, event)]) =
      decidedMessages trace ++ ((reportAction setup before event).bind Action.made?).toList := by
  simp only [decidedMessages, reportActions, List.filterMap_append]
  cases label : reportAction setup before event with
  | none => simp [label]
  | some action => cases makes : action.made? <;> simp [label, makes]

/-- The reports of appended blocks are those of the ledger blocks, in their order. -/
structure LedgerReports (trace : List (ReportState setup.txs × ReportEvent)) (ledger : Ledger setup.txs)
    (nows : Nat → Int64) : Prop where
  reports : (decidedMessages trace).filter StatisticsMessage.accepted =
    (List.range' 1 (ledger.count - 1)).map fun k => insertionMessage (ledger.blocks k) k (nows k)
  appended : ∀ k, 1 ≤ k → k < ledger.count → AppendedAt trace k (ledger.blocks k) (nows k)

variable {older newer : Ledger setup.txs} {nows : Nat → Int64}

theorem AppendedAt.later {k : Nat} {block : TransactionBlock setup.txs} {now : Int64}
    (found : AppendedAt trace k block now) (entry : ReportState setup.txs × ReportEvent) :
    AppendedAt (trace ++ [entry]) k block now := by
  obtain ⟨append, num, history, member, facts⟩ := found
  exact ⟨append, num, history, List.mem_append_left _ member, facts⟩

theorem LedgerReports.still (held : LedgerReports trace older nows) (growth : older.Extends newer)
    (count : newer.count - 1 = older.count - 1)
    (quiet : ∀ action msg, reportAction setup before event = some action → action.made? = some msg →
      msg.accepted = false) : LedgerReports (trace ++ [(before, event)]) newer nows where
  reports := by
    have none : ((reportAction setup before event).bind Action.made?).toList.filter
        StatisticsMessage.accepted = [] := by
      cases made : (reportAction setup before event).bind Action.made? with
      | none => rfl
      | some msg =>
          obtain ⟨action, label, makes⟩ := Option.bind_eq_some_iff.mp made
          simp [quiet action msg label makes]
    rw [decidedMessages_snoc, List.filter_append, none, List.append_nil, held.reports, count]
    apply List.map_congr_left
    intro k member
    rw [growth.2 k (by have := List.mem_range'_1.mp member; omega)]
  appended := by
    intro k lower upper
    rw [growth.2 k (by omega)]
    exact (held.appended k lower (by omega)).later _

theorem LedgerReports.append {num : Nat} {now : Int64} {block : TransactionBlock setup.txs}
    {history : History} (held : LedgerReports trace before.system.ledger nows)
    (growth : before.system.ledger.Extends newer) (positive : 0 < before.system.ledger.count)
    (count : newer.count = before.system.ledger.count + 1)
    (stored : newer.blocks before.system.ledger.count = block)
    (index : before.system.ledger.lastBlockIndex + 1 = before.system.ledger.count)
    (accepted : before.system.validators num = .accepted block history)
    (tip : onTip before.system.ledger block = true)
    (decides : decision setup before.system (.ledgerPhase num now) =
      some (.make num (insertionMessage block (before.system.ledger.lastBlockIndex + 1) now))) :
    LedgerReports (trace ++ [(before, .system (.ledgerPhase num now))]) newer
      (Function.update nows before.system.ledger.count now) where
  reports := by
    have made : ((reportAction setup before (.system (.ledgerPhase num now))).bind
        Action.made?).toList = [insertionMessage block before.system.ledger.count now] := by
      rw [reportAction, decides, ← index]
      rfl
    have grown : newer.count - 1 = before.system.ledger.count - 1 + 1 := by omega
    have last : 1 + (before.system.ledger.count - 1) = before.system.ledger.count := by omega
    rw [decidedMessages_snoc, made, List.filter_append, held.reports, grown, List.range'_1_concat,
      List.map_append, last]
    congr 1
    · apply List.map_congr_left
      intro k member
      have below : k < before.system.ledger.count := by
        have := List.mem_range'_1.mp member
        omega
      rw [growth.2 k below, Function.update_of_ne (Nat.ne_of_lt below)]
    · simp [stored]
  appended := by
    intro k lower upper
    rcases Nat.lt_or_eq_of_le (Nat.le_of_lt_succ (count ▸ upper)) with below | here
    · rw [growth.2 k below, Function.update_of_ne (Nat.ne_of_lt below)]
      exact (held.appended k lower below).later _
    · subst here
      rw [stored, Function.update_self]
      exact ⟨before, num, history, List.mem_append_right _ (by simp), accepted, tip, index⟩

theorem ReportRun.insertions (run : ReportRun setup trace final) :
    ∃ nows, LedgerReports trace final.system.ledger nows := by
  induction run with
  | nil => exact ⟨fun _ => 0, rfl, fun k _ upper => absurd upper (Nat.not_lt_zero k)⟩
  | @snoc earlierTrace before event after earlier taken ih =>
      obtain ⟨nows, held⟩ := ih
      have chain := SystemRun.chain (ReportRun.system earlier)
      cases label : event.event? with
      | none =>
          have same := (stepReports_system taken).1 label
          refine ⟨nows, held.still (same ▸ .refl _) (by rw [same]) fun action msg decided makes => ?_⟩
          obtain ⟨own, rfl, _⟩ := reportAction_made decided makes
          cases label
      | some own =>
          have transition := step_transition ((stepReports_system taken).2 own label)
          rcases transition.insertion chain.chained with
            ⟨num, now, block, history, rfl, accepted, tip, ledger, decides⟩ | ⟨count, quiet⟩
          · obtain rfl : event = .system (.ledgerPhase num now) := by
              cases event with
              | system own => cases label; rfl
              | sendFails | receive => cases label
            have positive := chain.founded num (accepted ▸ trivial)
            have sealing := chain.streams num block history (.inr (.inr accepted))
            obtain ⟨_, extended, count, stored⟩ :=
              appendBlock_spec chain.chained positive sealing.padded sealing.verified tip
            rw [← ledger] at extended count stored
            have index : before.system.ledger.lastBlockIndex + 1 = before.system.ledger.count := by
              rw [chain.chained.index]
              omega
            exact ⟨_, held.append extended positive count stored index accepted tip decides⟩
          · refine ⟨nows, held.still (chain.ledger transition).2.2 count fun action msg decided makes => ?_⟩
            obtain ⟨_, rfl, decision⟩ := reportAction_made decided makes
            cases label
            exact quiet action msg decision makes

end

theorem addAt_eq {counters : List Int} {m : Nat} (lower : 1 ≤ m) (upper : m ≤ counters.length)
    (amount : Int) :
    addAt counters ((m : Int) - 1) amount =
      some (counters.modify (m - 1) fun counter => counter + amount) := by
  have position : ((m : Int) - 1).toNat = m - 1 := by omega
  rw [addAt, position, if_pos ⟨by omega, by omega⟩]

/-- A list of counters, one a miner, that holds a sum of `weight` for each. -/
structure Counts (counters : List Int) (numMiners : Nat) (sum : Nat → Int) : Prop where
  length : counters.length = numMiners
  value : ∀ m, 1 ≤ m → m ≤ numMiners → counters[m - 1]? = some (sum m)

theorem Counts.add {counters : List Int} {numMiners m : Nat} {sum : Nat → Int}
    (counts : Counts counters numMiners sum) (lower : 1 ≤ m) (amount : Int) :
    Counts (counters.modify (m - 1) fun counter => counter + amount) numMiners
      fun other => if other = m then sum other + amount else sum other where
  length := by rw [List.length_modify, counts.length]
  value := by
    intro other otherLower otherUpper
    rw [List.getElem?_modify, counts.value other otherLower otherUpper]
    by_cases same : other = m
    · simp [same]
    · have apart : m - 1 ≠ other - 1 := by omega
      simp [same, apart]

theorem Counts.congr {counters : List Int} {numMiners : Nat} {sum other : Nat → Int}
    (counts : Counts counters numMiners sum) (same : ∀ m, sum m = other m) :
    Counts counters numMiners other where
  length := counts.length
  value := fun m lower upper => (counts.value m lower upper).trans (congrArg some (same m))

theorem Counts.initial (numMiners : Nat) : Counts (List.replicate numMiners 0) numMiners fun _ => 0 where
  length := List.length_replicate
  value := fun m lower upper => List.getElem?_replicate_of_lt (by omega)

section

variable {setup : Setup} {before after final : ReportState setup.txs} {event : ReportEvent}
  {trace : List (ReportState setup.txs × ReportEvent)}

theorem acceptedOf_append (m : Nat) (msgs : List StatisticsMessage) (msg : StatisticsMessage) :
    acceptedOf m (msgs ++ [msg]) =
      acceptedOf m msgs ++ if msg.accepted && isOf m msg.txbId then [msg] else [] := by
  rw [acceptedOf, List.filter_append, List.filter_singleton, Bool.cond_eq_ite]
  rfl

theorem rejectedOf_append (m : Nat) (msgs : List StatisticsMessage) (msg : StatisticsMessage) :
    rejectedOf m (msgs ++ [msg]) =
      rejectedOf m msgs ++ if !msg.accepted && isOf m msg.txbId then [msg] else [] := by
  rw [rejectedOf, List.filter_append, List.filter_singleton, Bool.cond_eq_ite]
  rfl

def receivedTime (ledger : Ledger setup.txs) (msgs : List StatisticsMessage) : Int :=
  ((msgs.filter StatisticsMessage.accepted).map fun msg =>
    txTime msg.timestamp (ledger.blocks msg.blockIndex.toNat)).sum

/-- What is counted of the blocks of the chain, whichever miner they name. -/
structure Timed (ledger : Ledger setup.txs) (stats : Statistics) (received : List StatisticsMessage) :
    Prop where
  chain : stats.blocksInChain = (received.filter StatisticsMessage.accepted).length
  time : stats.totalTxTime = receivedTime ledger received

theorem Timed.receive {ledger : Ledger setup.txs} {stats next : Statistics}
    {received : List StatisticsMessage} {msg : StatisticsMessage} (timed : Timed ledger stats received)
    (counted : receiveMessage ledger stats msg = some next) : Timed ledger next (received ++ [msg]) := by
  cases accepted : msg.accepted with
  | false =>
      have index : msg.blockIndex = -1 := by simpa [StatisticsMessage.accepted] using accepted
      simp only [receiveMessage, index, if_true] at counted
      obtain ⟨_, _, rfl⟩ := Option.map_eq_some_iff.mp counted
      exact ⟨by simp [timed.chain, accepted], by simp [timed.time, receivedTime, accepted]⟩
  | true =>
      have index : msg.blockIndex ≠ -1 := by simpa [StatisticsMessage.accepted] using accepted
      simp only [receiveMessage, index, if_false] at counted
      obtain ⟨_, _, credited⟩ := Option.bind_eq_some_iff.mp counted
      obtain ⟨_, _, rfl⟩ := Option.map_eq_some_iff.mp credited
      exact ⟨by simp [timed.chain, accepted], by simp [timed.time, receivedTime, accepted]⟩

theorem Timed.extend {older newer : Ledger setup.txs} {stats : Statistics}
    {received : List StatisticsMessage} (timed : Timed older stats received) (growth : older.Extends newer)
    (stored : ∀ msg ∈ received, msg.accepted = true → msg.blockIndex.toNat < older.count) :
    Timed newer stats received where
  chain := timed.chain
  time := by
    rw [timed.time, receivedTime, receivedTime]
    congr 1
    apply List.map_congr_left
    intro msg member
    obtain ⟨received, accepted⟩ := List.mem_filter.mp member
    rw [growth.2 _ (stored msg received accepted)]

/-- The counters of each miner are sums over the messages received. -/
structure Tallied (setup : Setup) (stats : Statistics) (received : List StatisticsMessage) : Prop where
  valid : Counts stats.minerValidBlocks setup.cfg.numMiners fun m => (acceptedOf m received).length
  invalid : Counts stats.minerInvalidBlocks setup.cfg.numMiners fun m => (rejectedOf m received).length
  credits : Counts stats.minerCredits setup.cfg.numMiners fun m =>
    ((acceptedOf m received).map StatisticsMessage.earnedAmount).sum
  processed : stats.totalBlocksProcessed = received.length

theorem Tallied.receive {ledger : Ledger setup.txs} {stats : Statistics}
    {received : List StatisticsMessage} {msg : StatisticsMessage} {thread : Nat}
    (tallied : Tallied setup stats received) (names : msg.From setup thread) :
    ∃ next, receiveMessage ledger stats msg = some next ∧ Tallied setup next (received ++ [msg]) := by
  obtain ⟨lower, upper, _⟩ := names.authored
  have own (m : Nat) : isOf m msg.txbId = true ↔ m = thread := names.authored.isOf_iff m
  have counted {counters : List Int} {sum : Nat → Int}
      (counts : Counts counters setup.cfg.numMiners sum) (amount : Int) :=
    addAt_eq lower (counts.length.symm ▸ upper) amount
  cases accepted : msg.accepted with
  | false =>
      have index : msg.blockIndex = -1 := by simpa [StatisticsMessage.accepted] using accepted
      simp only [receiveMessage, names.minerId, index, if_true, counted tallied.invalid, Option.map_some]
      refine ⟨_, rfl, ?_, ?_, ?_, ?_⟩
      · exact tallied.valid.congr fun m => by simp [acceptedOf_append, accepted]
      · refine (tallied.invalid.add lower 1).congr fun m => ?_
        by_cases same : m = thread
        · subst same
          simp [rejectedOf_append, accepted, (own m).mpr rfl]
        · simp [rejectedOf_append, accepted, Bool.eq_false_iff.mpr (mt (own m).mp same), same]
      · exact tallied.credits.congr fun m => by simp [acceptedOf_append, accepted]
      · simp [tallied.processed]
  | true =>
      have index : msg.blockIndex ≠ -1 := by simpa [StatisticsMessage.accepted] using accepted
      simp only [receiveMessage, names.minerId, index, if_false, counted tallied.valid,
        counted tallied.credits, Option.bind_some, Option.map_some]
      refine ⟨_, rfl, ?_, ?_, ?_, ?_⟩
      · refine (tallied.valid.add lower 1).congr fun m => ?_
        by_cases same : m = thread
        · subst same
          simp [acceptedOf_append, accepted, (own m).mpr rfl]
        · simp [acceptedOf_append, accepted, Bool.eq_false_iff.mpr (mt (own m).mp same), same]
      · exact tallied.invalid.congr fun m => by simp [rejectedOf_append, accepted]
      · refine (tallied.credits.add lower msg.earnedAmount).congr fun m => ?_
        by_cases same : m = thread
        · subst same
          simp [acceptedOf_append, accepted, (own m).mpr rfl]
        · simp [acceptedOf_append, accepted, Bool.eq_false_iff.mpr (mt (own m).mp same), same]
      · simp [tallied.processed]

theorem Tallied.initial (setup : Setup) : Tallied setup (Statistics.initial setup.cfg.numMiners) [] where
  valid := .initial _
  invalid := .initial _
  credits := .initial _
  processed := rfl

theorem ReportRun.messages_from (run : ReportRun setup trace final)
    (few : setup.cfg.numMiners ≤ 999999) {msg : StatisticsMessage} (member : msg ∈ decidedMessages trace) :
    ∃ thread, msg.From setup thread := by
  obtain ⟨state, own, action, entryMember, decided, makes⟩ := mem_decidedMessages member
  obtain ⟨num, block, holds, _, made⟩ := decision_made decided makes
  obtain ⟨_, _, _, _, reached, _, _⟩ := run.recorded entryMember
  obtain ⟨thread, authored⟩ := (SystemRun.authors (ReportRun.system reached)).held num block holds
  rcases made with rfl | ⟨now, _, _, _, _, rfl⟩
  · exact ⟨thread, rejectionMessage_from authored few⟩
  · exact ⟨thread, insertionMessage_from authored few _ now⟩

theorem ReportRun.sent_decided (run : ReportRun setup trace final) {msg : StatisticsMessage}
    (member : msg ∈ final.received ++ final.statisticsMq) : msg ∈ decidedMessages trace := by
  obtain ⟨delivery, reported, conserved, made, _⟩ := run.conserved
  rw [← reported.delivered, ← reported.queue] at member
  rw [← made]
  exact conserved.made_of_mem (.inl member)

theorem ReportRun.lost_decided (run : ReportRun setup trace final) {msg : StatisticsMessage}
    (member : msg ∈ lostMessages trace) : msg ∈ decidedMessages trace := by
  obtain ⟨delivery, _, conserved, made, lost⟩ := run.conserved
  rw [← lost] at member
  rw [← made]
  exact conserved.made_of_mem (.inr member)

/-- A report of an insertion names the height and the time at which its block was appended. -/
theorem ReportRun.insertion_of_accepted (run : ReportRun setup trace final) {msg : StatisticsMessage}
    (member : msg ∈ decidedMessages trace) (accepted : msg.accepted = true) :
    ∃ k, 1 ≤ k ∧ k < final.system.ledger.count ∧
      msg = insertionMessage (final.system.ledger.blocks k) k msg.timestamp ∧
      AppendedAt trace k (final.system.ledger.blocks k) msg.timestamp := by
  obtain ⟨nows, held⟩ := run.insertions
  have among := List.mem_filter.mpr ⟨member, accepted⟩
  rw [held.reports] at among
  obtain ⟨k, range, rfl⟩ := List.mem_map.mp among
  obtain ⟨lower, upper⟩ := List.mem_range'_1.mp range
  exact ⟨k, lower, by omega, rfl, held.appended k lower (by omega)⟩

/-- The induction over a run for a law between the ledger, the counters and the
messages received: the ledger grows, and a message that was decided on is counted. -/
theorem ReportRun.account (law : Ledger setup.txs → Statistics → List StatisticsMessage → Prop)
    (initial : law (ReportState.initial setup).system.ledger (ReportState.initial setup).stats [])
    (grows : ∀ {older newer stats received}, law older stats received → older.Extends newer →
      (∀ msg ∈ received, msg.accepted = true → msg.blockIndex.toNat < older.count) →
      law newer stats received)
    (receives : ∀ {earlier before msg next}, ReportRun setup earlier before →
      msg ∈ decidedMessages earlier → law before.system.ledger before.stats before.received →
      receiveMessage before.system.ledger before.stats msg = some next →
      law before.system.ledger next (before.received ++ [msg]))
    (run : ReportRun setup trace final) : law final.system.ledger final.stats final.received := by
  induction run with
  | nil => exact initial
  | @snoc earlierTrace before event after earlier taken ih =>
      have grown : before.system.ledger.Extends after.system.ledger := by
        obtain ⟨silent, stepped⟩ := stepReports_system taken
        cases label : event.event? with
        | none => exact silent label ▸ .refl _
        | some own =>
            exact ((SystemRun.chain (ReportRun.system earlier)).ledger
              (step_transition (stepped own label))).2.2
      have stored : ∀ msg ∈ before.received, msg.accepted = true →
          msg.blockIndex.toNat < before.system.ledger.count := by
        intro msg member accepted
        obtain ⟨k, _, upper, same, _⟩ := ReportRun.insertion_of_accepted earlier
          (ReportRun.sent_decided earlier (List.mem_append_left _ member)) accepted
        have index : msg.blockIndex = k := congrArg StatisticsMessage.blockIndex same
        rw [index]
        exact upper
      have held := grows ih grown stored
      cases event with
      | system own =>
          simp only [stepReports] at taken
          split at taken
          · split at taken
            · obtain ⟨system, _, rfl⟩ := Option.map_eq_some_iff.mp taken
              exact held
            · cases taken
          · obtain ⟨system, _, rfl⟩ := Option.map_eq_some_iff.mp taken
            exact held
      | sendFails num =>
          obtain ⟨system, _, rfl⟩ := Option.map_eq_some_iff.mp taken
          exact held
      | receive =>
          simp only [stepReports] at taken
          split at taken
          · cases taken
          · rename_i msg rest front
            obtain ⟨stats, counted, rfl⟩ := Option.map_eq_some_iff.mp taken
            have queued : msg ∈ before.received ++ before.statisticsMq := by simp [front]
            exact receives earlier (ReportRun.sent_decided earlier queued) held counted

theorem ReportRun.timed (run : ReportRun setup trace final) :
    Timed final.system.ledger final.stats final.received :=
  ReportRun.account Timed ⟨rfl, rfl⟩ Timed.extend (fun _ _ timed counted => timed.receive counted) run

theorem ReportRun.tallied (run : ReportRun setup trace final) (few : setup.cfg.numMiners ≤ 999999) :
    Tallied setup final.stats final.received := by
  refine ReportRun.account (fun _ => Tallied setup) (.initial setup) (fun held _ _ => held) ?_ run
  intro earlier before msg next reached decided tallied counted
  obtain ⟨thread, names⟩ := ReportRun.messages_from reached few decided
  obtain ⟨_, received, holds⟩ := tallied.receive names
  cases received.symm.trans counted
  exact holds

end

end DeiChain
