import DeiChain.Accounts
import DeiChain.Provenance
import DeiChain.Systems.Clock
import Mathlib.Data.Int.ConditionallyCompleteOrder

namespace DeiChain

open Data Systems

/-! # Times in the ledger

Generators, miner threads and validators read the same clock with `time(NULL)`.
When it never goes back, a block is no older than its transactions and no older
than the blocks that were there when its previous hash was read.
-/

def Event.time? : Event → Option Int
  | .insert _ _ _ now | .mine _ now | .ledgerPhase _ now => some now.toInt
  | _ => none

/-- A block with its proof of work done, on its way to the ledger. -/
inductive State.InFlight {n : Nat} (state : State n) (block : TransactionBlock n) (history : History) :
    Prop where
  | mined {thread} (phase : (state.miners thread).phase = .mined block history)
  | framed {frame residue} (inPipe : frame ∈ state.pipe)
      (decoded : decodeFrame n residue frame.bytes = some block) (since : frame.history = history)
  | streamed {num} (streamed : (state.validators num).Streamed block history)

section

variable {setup : Setup} {before after final : State setup.txs} {event : Event}
  {trace : List (State setup.txs × Event)} {block : TransactionBlock setup.txs} {history : History}

theorem Transition.mined (taken : Transition setup before event after) {thread : Nat}
    (mined : (after.miners thread).phase = .mined block history) :
    (before.miners thread).phase = .mined block history ∨
      ∃ now draft, event = .mine thread now ∧ (before.miners thread).phase = .mining draft history ∧
        block = (proofOfWork setup.sha256 { draft with timestamp := now }).1 := by
  cases taken with
  | rested own empty =>
      rw [State.withMiner_phase] at mined
      split at mined
      · rw [mined] at empty
        exact empty.elim
      · exact .inl mined
  | selected | drafted | retried =>
      rw [State.withMiner_phase] at mined
      split at mined
      · cases mined
      · exact .inl mined
  | solved held =>
      rw [State.withMiner_phase] at mined
      split at mined
      · rename_i own
        subst own
        cases mined
        exact .inr ⟨_, _, rfl, held, rfl⟩
      · exact .inl mined
  | @wrote acting =>
      change ((before.withMiner acting .waiting).miners thread).phase = _ at mined
      rw [State.withMiner_phase] at mined
      split at mined
      · cases mined
      · exact .inl mined
  | _ => exact .inl mined

/-- A block comes on its way by a successful proof of work only. -/
theorem Transition.inFlight (taken : Transition setup before event after)
    (flies : after.InFlight block history) : before.InFlight block history ∨
      ∃ thread now draft, event = .mine thread now ∧ (before.miners thread).phase = .mining draft history ∧
        block = (proofOfWork setup.sha256 { draft with timestamp := now }).1 := by
  cases flies with
  | mined phase =>
      rcases taken.mined phase with earlier | solved
      · exact .inl (.mined earlier)
      · exact .inr ⟨_, solved⟩
  | framed inPipe decoded since =>
      rcases taken.pipe inPipe with old | ⟨thread, pointer, framed, mined, bytes⟩
      · exact .inl (.framed old decoded since)
      · rw [bytes, decodeFrame_minerFrame setup.cfg.maxBlockSize_lt] at decoded
        cases decoded
        exact .inl (.mined (since ▸ mined))
  | @streamed num streamed =>
      have move := taken.validator num
      generalize phase : after.validators num = now at move streamed
      cases move with
      | kept same => exact .inl (.streamed (same ▸ streamed))
      | took reading inPipe decoded =>
          rcases streamed with same | same | same <;> cases same
          exact .inl (.framed inPipe decoded rfl)
      | approved received =>
          rcases streamed with same | same | same <;> cases same
          exact .inl (.streamed (.inl received))
      | removed own checked =>
          rcases streamed with same | same | same <;> cases same
          exact .inl (.streamed (.inr (.inl checked)))
      | _ => rcases streamed with other | other | other <;> cases other

theorem ChainInvariant.sealing (held : ChainInvariant setup before) (flies : before.InFlight block history) :
    Sealed setup before.ledger block history := by
  cases flies with
  | mined phase => exact held.mined _ block history phase
  | framed inPipe decoded since => exact since ▸ held.decoded inPipe decoded
  | streamed streamed => exact held.streams _ block history streamed

/-- The block is no older than its transactions and than the blocks below the
tip that it was built on. -/
structure BlockDated (past : Int → Prop) (ledger : Ledger setup.txs) (block : TransactionBlock setup.txs)
    (history : History) : Prop where
  made : past block.timestamp.toInt
  transactions : ∀ tx ∈ block.transactions.toList, tx.timestamp.toInt ≤ block.timestamp.toInt
  built : ∀ k, 1 ≤ k → k < history.countAtTip →
    (ledger.blocks k).timestamp.toInt ≤ block.timestamp.toInt

structure Dated (past : Int → Prop) (state : State setup.txs) : Prop where
  issued : ∀ tx ∈ state.issued, past tx.timestamp.toInt
  inFlight : ∀ block history, state.InFlight block history → BlockDated past state.ledger block history
  recorded : ∀ k, 1 ≤ k → k < state.ledger.count → past (state.ledger.blocks k).timestamp.toInt

variable {older newer : Int → Prop}

theorem BlockDated.mono {first second : Ledger setup.txs} (dated : BlockDated older first block history)
    (later : ∀ moment, older moment → newer moment) (known : history.countAtTip ≤ first.count)
    (growth : first.Extends second) : BlockDated newer second block history where
  made := later _ dated.made
  transactions := dated.transactions
  built k lower upper := by
    rw [growth.2 k (Nat.lt_of_lt_of_le upper known)]
    exact dated.built k lower upper

theorem Dated.solved (dated : Dated older before) (chain : ChainInvariant setup before)
    (traced : AllTraced before) {thread : Nat} {now : Int64} {draft : TransactionBlock setup.txs}
    (mining : (before.miners thread).phase = .mining draft history)
    (present : newer now.toInt) (latest : ∀ moment, older moment → moment ≤ now.toInt) :
    BlockDated newer before.ledger (proofOfWork setup.sha256 { draft with timestamp := now }).1 history := by
  obtain ⟨nonce, left⟩ := proofOfWork_block setup.sha256 { draft with timestamp := now }
  rw [left]
  refine ⟨present, fun tx member => ?_, fun k lower upper => ?_⟩
  · obtain ⟨origin, issued, _, _, same⟩ := traced.carried tx _ (.mining mining rfl member)
    exact same ▸ latest _ (dated.issued origin issued)
  · have known := (chain.drafts thread draft history mining).known
    exact latest _ (dated.recorded k lower (Nat.lt_of_lt_of_le upper known))

theorem Dated.step (dated : Dated older before) (chain : ChainInvariant setup before)
    (traced : AllTraced before) (taken : Transition setup before event after)
    (present : ∀ now, event.time? = some now → newer now)
    (latest : ∀ now, event.time? = some now → ∀ moment, older moment → moment ≤ now)
    (later : ∀ moment, older moment → newer moment) : Dated newer after := by
  obtain ⟨_, _, growth⟩ := chain.ledger taken
  refine ⟨?_, ?_, ?_⟩
  · intro tx member
    cases taken with
    | stored =>
        rcases List.mem_append.mp member with old | new
        · exact later _ (dated.issued tx old)
        · cases List.mem_singleton.mp new
          exact present _ rfl
    | _ => exact later _ (dated.issued tx member)
  · intro block history flies
    rcases taken.inFlight flies with earlier | ⟨thread, now, draft, rfl, mining, rfl⟩
    · exact (dated.inFlight block history earlier).mono later (chain.sealing earlier).known growth
    · have solved := dated.solved chain traced mining (present _ rfl) (latest _ rfl)
      exact solved.mono (fun _ => id) (chain.drafts thread draft history mining).known growth
  · intro k lower upper
    rcases taken.ledger with same | ⟨_, _, _, genesis⟩ | ⟨num, _, block, history, _, accepted, tip, same⟩
    · rw [same] at upper ⊢
      exact later _ (dated.recorded k lower upper)
    · have one := createGenesis_count genesis
      omega
    · have sealing := chain.streams num block history (.inr (.inr accepted))
      have positive := chain.founded num (accepted ▸ trivial)
      obtain ⟨_, extended, count, stored⟩ :=
        appendBlock_spec chain.chained positive sealing.padded sealing.verified tip
      rw [same] at upper ⊢
      rcases Nat.lt_or_eq_of_le (Nat.le_of_lt_succ (count ▸ upper)) with below | here
      · rw [extended.2 k below]
        exact later _ (dated.recorded k lower below)
      · rw [here, stored]
        exact later _ (dated.inFlight block history (.streamed (.inr (.inr accepted)))).made

theorem SystemRun.dated (run : SystemRun setup trace final) (forward : Clock.Forward Event.time? trace) :
    Dated (Clock.Past Event.time? trace) final := by
  refine Clock.Run.timed Dated ⟨fun tx member => ?_, fun block history flies => ?_, fun k _ upper => ?_⟩ ?_ run forward
  · cases member
  · cases flies with
    | mined phase => cases phase
    | framed inPipe => cases inPipe
    | streamed streamed => rcases streamed with other | other | other <;> cases other
  · exact absurd upper (Nat.not_lt_zero k)
  · intro earlier before event after reached taken dated latest
    exact dated.step (SystemRun.chain reached) (SystemRun.allTraced reached) (step_transition taken)
      (fun now reads => Clock.Past.now reads) latest fun moment past => past.later _

/-- The step that appended block `k`, with what its validator knew then. -/
theorem SystemRun.appendedAt (run : SystemRun setup trace final) (forward : Clock.Forward Event.time? trace)
    {k : Nat} (lower : 1 ≤ k) (upper : k < final.ledger.count) :
    ∃ before num now history, (before, Event.ledgerPhase num now) ∈ trace ∧
      before.validators num = .accepted (final.ledger.blocks k) history ∧
      onTip before.ledger (final.ledger.blocks k) = true ∧ before.ledger.count = k ∧
      BlockDated (fun moment => moment ≤ now.toInt) before.ledger (final.ledger.blocks k) history := by
  obtain ⟨_, _, num, now, append, sublist, _, _, ⟨history, accepted⟩, tip, count⟩ :=
    run.removedThenAppended lower upper
  have member : (append, Event.ledgerPhase num now) ∈ trace := sublist.subset (by simp)
  obtain ⟨earlier, later, _, split, reached, _, _⟩ := run.recorded member
  rw [split, List.append_cons] at forward
  have dated := SystemRun.dated reached forward.earlier.earlier
  have own := dated.inFlight _ history (.streamed (.inr (.inr accepted)))
  have known := ((SystemRun.chain reached).streams num _ history (.inr (.inr accepted))).known
  exact ⟨append, num, now, history, member, accepted, tip, count,
    own.mono (fun moment past => past.le_now forward.earlier rfl) known (.refl _)⟩

/-- With a clock that never goes back, every block after the first is dated
after all of its transactions and before it was appended. -/
theorem blocks_follow_transactions (setup : Setup) {trace : List (State setup.txs × Event)}
    {final : State setup.txs} (run : SystemRun setup trace final)
    (forward : Clock.Forward Event.time? trace) {k : Nat} (lower : 1 ≤ k) (upper : k < final.ledger.count) :
    (∀ tx ∈ (final.ledger.blocks k).transactions.toList,
        tx.timestamp ≤ (final.ledger.blocks k).timestamp) ∧
      ∃ before num now, (before, Event.ledgerPhase num now) ∈ trace ∧
        (∃ history, before.validators num = .accepted (final.ledger.blocks k) history) ∧
        before.ledger.count = k ∧ (final.ledger.blocks k).timestamp ≤ now := by
  obtain ⟨before, num, now, history, member, accepted, _, count, dated⟩ :=
    run.appendedAt forward lower upper
  exact ⟨fun tx inside => Int64.le_iff_toInt_le.mpr (dated.transactions tx inside),
    before, num, now, member, ⟨history, accepted⟩, count, Int64.le_iff_toInt_le.mpr dated.made⟩

/-- A block with one transaction, mined, validated and reported in the order of
the times 7, 8 and 9. -/
def datedEvents (rand : Nat) (now : Int64) : List Event :=
  [.insert 1 (zeroArray txIdLen) 5 now, .pollPool 1, .pollLedger 1, .select 1 [rand], .readTip 1,
    .mine 1 (now + 1), .write 1 0, .read 1 [], .examine 1, .poolPhase 1, .ledgerPhase 1 (now + 2),
    .report 1]

def twoDatedEvents : List Event := [.start 1, .genesis 1] ++ datedEvents 0 7 ++ datedEvents 0 9

theorem twoDatedEvents_execute :
    (exec (step smallSetup) (State.initial smallSetup) twoDatedEvents).isSome = true := by
  decide +kernel

def twoDated : State smallSetup.txs := (exec _ _ _).get twoDatedEvents_execute

theorem readings_of_events {trace : List (State setup.txs × Event)} {events : List Event}
    (recorded : trace.map Prod.snd = events) :
    Clock.readings Event.time? trace = events.filterMap Event.time? := by
  rw [← recorded, List.filterMap_map]
  rfl

theorem twoDated_run : ∃ trace, SystemRun smallSetup trace twoDated ∧ Clock.Forward Event.time? trace := by
  obtain ⟨trace, run, events⟩ := exec_run_get twoDatedEvents_execute
  refine ⟨trace, run, ?_⟩
  rw [Clock.Forward, readings_of_events events]
  decide

theorem blocks_follow_transactions_twoDated : ((twoDated.ledger.blocks 1).transactions.toList.all fun tx =>
    tx.timestamp ≤ (twoDated.ledger.blocks 1).timestamp) = true := by
  obtain ⟨trace, run, forward⟩ := twoDated_run
  have follows := (blocks_follow_transactions smallSetup run forward (Nat.le_refl 1) (by decide +kernel)).1
  exact List.all_eq_true.mpr fun tx inside => decide_eq_true (follows tx inside)

-- the clock of this run goes back from 7 to 0
example : ∃ tx ∈ (firstBlock.ledger.blocks 1).transactions.toList,
    (firstBlock.ledger.blocks 1).timestamp < tx.timestamp := by decide +kernel

theorem SystemRun.block_built (run : SystemRun setup trace final)
    (forward : Clock.Forward Event.time? trace)
    (free : HashChain.CollisionFree (computeSha256 setup.sha256) final.ledger.blocks final.ledger.count)
    {j k : Nat} (lower : 1 ≤ j) (below : j < k) (upper : k < final.ledger.count) :
    (final.ledger.blocks j).timestamp.toInt ≤ (final.ledger.blocks k).timestamp.toInt := by
  obtain ⟨before, num, now, history, member, accepted, tip, count, dated⟩ :=
    run.appendedAt forward (Nat.le_of_lt (Nat.lt_of_le_of_lt lower below)) upper
  obtain ⟨_, _, _, _, reached, _, _⟩ := run.recorded member
  have growth : before.ledger.Extends final.ledger := run.grows _ member
  have chain := SystemRun.chain reached
  have draft := (chain.streams num _ history (.inr (.inr accepted))).toDraft
  have height := chain.tip_height draft (growth.collisionFree free) tip
  have earlier := dated.built j lower (by omega)
  rwa [← growth.2 j (by omega)] at earlier

/-- Without hash collisions the blocks are dated in the order of the chain: the
block before was there when the next one was started. -/
theorem blocks_dated_in_order (setup : Setup) {trace : List (State setup.txs × Event)}
    {final : State setup.txs} (run : SystemRun setup trace final)
    (forward : Clock.Forward Event.time? trace)
    (free : HashChain.CollisionFree (computeSha256 setup.sha256) final.ledger.blocks final.ledger.count)
    {j k : Nat} (lower : 1 ≤ j) (ordered : j ≤ k) (upper : k < final.ledger.count) :
    (final.ledger.blocks j).timestamp ≤ (final.ledger.blocks k).timestamp := by
  rw [Int64.le_iff_toInt_le]
  rcases Nat.lt_or_eq_of_le ordered with below | rfl
  · exact run.block_built forward free lower below upper
  · exact Int.le_refl _

theorem blocks_dated_in_order_twoDated :
    (twoDated.ledger.blocks 1).timestamp ≤ (twoDated.ledger.blocks 2).timestamp := by
  obtain ⟨trace, run, forward⟩ := twoDated_run
  have free : HashChain.CollisionFree (computeSha256 smallSetup.sha256) twoDated.ledger.blocks
      twoDated.ledger.count := by
    have distinct : ((List.range 3).map fun k =>
        computeSha256 smallSetup.sha256 (twoDated.ledger.blocks k)).Nodup := by decide +kernel
    have count : twoDated.ledger.count = 3 := by decide +kernel
    rw [count]
    intro first firstBound second secondBound same
    rw [List.inj_on_of_nodup_map distinct (List.mem_range.mpr firstBound)
      (List.mem_range.mpr secondBound) same]
  exact blocks_dated_in_order smallSetup run forward free (by decide) (by decide) (by decide +kernel)

end

theorem sum_between {Item : Type} {items : List Item} {value : Item → Int} {most : Int}
    (bounds : ∀ item ∈ items, 0 ≤ value item ∧ value item ≤ most) :
    0 ≤ (items.map value).sum ∧ (items.map value).sum ≤ items.length * most := by
  induction items with
  | nil => simp
  | cons item rest ih =>
      obtain ⟨low, high⟩ := bounds item List.mem_cons_self
      obtain ⟨restLow, restHigh⟩ := ih fun other member => bounds other (List.mem_cons_of_mem _ member)
      rw [List.map_cons, List.sum_cons, List.length_cons, Nat.cast_succ, Int.add_mul, Int.one_mul]
      omega

section

variable {setup : Setup} {final : ReportState setup.txs}
  {trace : List (ReportState setup.txs × ReportEvent)}

theorem SystemRun.issued_read {final : State setup.txs} {trace : List (State setup.txs × Event)}
    (run : SystemRun setup trace final) {tx : Transaction} (member : tx ∈ final.issued) :
    tx.timestamp.toInt ∈ Clock.readings Event.time? trace := by
  obtain ⟨_, _, _, _, _, _, _, recorded, _, rfl⟩ := run.generated member
  exact List.mem_filterMap.mpr ⟨_, recorded, rfl⟩

/-- The transactions of an appended block were generated before. -/
theorem AppendedAt.txTime_between {k : Nat} {block : TransactionBlock setup.txs} {now : Int64}
    {first last : Int} (appended : AppendedAt trace k block now) (run : ReportRun setup trace final)
    (forward : Clock.Forward Event.time? (systemTrace trace))
    (within : ∀ reading ∈ Clock.readings Event.time? (systemTrace trace), first ≤ reading ∧ reading ≤ last) :
    0 ≤ txTime now block ∧ txTime now block ≤ setup.txs * (last - first) := by
  obtain ⟨append, num, history, member, accepted, _, _⟩ := appended
  have recorded : (append.system, Event.ledgerPhase num now) ∈ systemTrace trace :=
    List.mem_filterMap.mpr ⟨_, member, rfl⟩
  obtain ⟨earlier, later, _, split, reached, _, _⟩ := run.system.recorded recorded
  have present := within now.toInt (List.mem_filterMap.mpr ⟨_, recorded, rfl⟩)
  rw [split, List.append_cons] at forward
  have dated := SystemRun.dated reached forward.earlier.earlier
  have own := dated.inFlight block history (.streamed (.inr (.inr accepted)))
  have made : block.timestamp.toInt ≤ now.toInt := own.made.le_now forward.earlier rfl
  have between := @sum_between _ block.transactions.toList
    (fun tx => now.toInt - tx.timestamp.toInt) (last - first) fun tx inside => ?_
  · rwa [List.Vector.toList_length] at between
  · have older := own.transactions tx inside
    obtain ⟨origin, issued, _, _, same⟩ := (SystemRun.allTraced reached).carried tx _
      (.streamed (.inr (.inr accepted)) rfl inside)
    have read := SystemRun.issued_read reached issued
    have since := within origin.timestamp.toInt (by
      rw [split, Clock.readings_append]
      exact List.mem_append_left _ read)
    rw [same] at since
    constructor <;> omega

/-- The mean approval time that the statistics print is that of real waits:
over any run the total is not negative, and each transaction adds no more than
what the clock has advanced. -/
theorem approval_time_between (setup : Setup) {trace : List (ReportState setup.txs × ReportEvent)}
    {final : ReportState setup.txs} (run : ReportRun setup trace final)
    (forward : Clock.Forward Event.time? (systemTrace trace)) {first last : Int}
    (within : ∀ reading ∈ Clock.readings Event.time? (systemTrace trace), first ≤ reading ∧ reading ≤ last) :
    0 ≤ final.stats.totalTxTime ∧
      final.stats.totalTxTime ≤ final.stats.blocksInChain * (setup.txs * (last - first)) := by
  rw [run.timed.time, run.timed.chain, receivedTime]
  refine sum_between fun msg member => ?_
  obtain ⟨received, accepted⟩ := List.mem_filter.mp member
  obtain ⟨k, _, _, same, appended⟩ :=
    run.insertion_of_accepted (run.sent_decided (List.mem_append_left _ received)) accepted
  have index : msg.blockIndex.toNat = k := by
    rw [congrArg StatisticsMessage.blockIndex same]
    rfl
  rw [index]
  exact appended.txTime_between run forward within

def timedEvents : List ReportEvent := twoDatedEvents.map .system ++ [.receive, .receive]

theorem timedEvents_execute :
    (exec (stepReports smallSetup) (ReportState.initial smallSetup) timedEvents).isSome = true := by
  decide +kernel

def twoTimed : ReportState smallSetup.txs := (exec _ _ _).get timedEvents_execute

theorem approval_time_between_twoTimed :
    0 ≤ twoTimed.stats.totalTxTime ∧ twoTimed.stats.totalTxTime ≤ 2 * (1 * (11 - 7)) := by
  obtain ⟨trace, run, events⟩ := exec_run_get timedEvents_execute
  have recorded : (systemTrace trace).map Prod.snd = twoDatedEvents := by
    have own : (systemTrace trace).map Prod.snd = (trace.map Prod.snd).filterMap ReportEvent.event? := by
      rw [systemTrace, List.map_filterMap, List.filterMap_map]
      refine List.filterMap_congr fun entry _ => ?_
      rw [Function.comp_apply]
      generalize entry.2.event? = own
      cases own <;> rfl
    rw [own, events]
    rfl
  have readings := readings_of_events recorded
  have forward : Clock.Forward Event.time? (systemTrace trace) := by
    rw [Clock.Forward, readings]
    decide
  have within : ∀ reading ∈ Clock.readings Event.time? (systemTrace trace), 7 ≤ reading ∧ reading ≤ 11 := by
    rw [readings]
    decide
  have blocks : twoTimed.stats.blocksInChain = 2 := by decide +kernel
  have between := @approval_time_between smallSetup trace twoTimed run forward 7 11 within
  rwa [blocks] at between

end

end DeiChain
