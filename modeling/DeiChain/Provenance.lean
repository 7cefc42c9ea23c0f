import DeiChain.Custody

namespace DeiChain

open Data Systems
open Systems.Custody (Place Action)

/-! # Where the transactions of a block come from -/

section

variable {setup : Setup} {before after final : State setup.txs} {event : Event}
  {trace : List (State setup.txs × Event)}

/-- The transaction is in flight between the pool and the ledger, selected when
the ledger had `countAtSelection` blocks. -/
inductive State.Carries {n : Nat} (state : State n) (tx : Transaction) (countAtSelection : Nat) : Prop where
  | selected {thread txs} (phase : (state.miners thread).phase = .selected txs countAtSelection)
      (member : tx ∈ txs.toList)
  | mining {thread block history} (phase : (state.miners thread).phase = .mining block history)
      (since : history.countAtSelection = countAtSelection) (member : tx ∈ block.transactions.toList)
  | mined {thread block history} (phase : (state.miners thread).phase = .mined block history)
      (since : history.countAtSelection = countAtSelection) (member : tx ∈ block.transactions.toList)
  | framed {frame residue block} (inPipe : frame ∈ state.pipe)
      (decoded : decodeFrame n residue frame.bytes = some block)
      (since : frame.history.countAtSelection = countAtSelection) (member : tx ∈ block.transactions.toList)
  | streamed {num block history} (streamed : (state.validators num).Streamed block history)
      (since : history.countAtSelection = countAtSelection) (member : tx ∈ block.transactions.toList)

theorem proofOfWork_transactions {n : Nat} (sha256 : Sha256) (block : TransactionBlock n) :
    (proofOfWork sha256 block).1.transactions = block.transactions := by
  obtain ⟨nonce, left⟩ := proofOfWork_block sha256 block
  rw [left]

theorem Transition.carries (taken : Transition setup before event after) {tx : Transaction}
    {countAtSelection : Nat} (carried : after.Carries tx countAtSelection) :
    before.Carries tx countAtSelection ∨
      (before.pool.Supplies tx ∧ countAtSelection = before.ledger.count ∧ after.pool = before.pool ∧
        after.ledger = before.ledger ∧ after.validators = before.validators) := by
  cases carried with
  | @selected thread txs phase member =>
      have move := taken.miner thread
      rw [phase] at move
      cases move with
      | kept same => exact .inl (.selected same member)
      | rested empty => exact absurd empty id
      | selected chosen pool ledger validators =>
          exact .inr ⟨selectTransactions_supplied chosen tx member, rfl, pool, ledger, validators⟩
  | @mining thread block history phase since member =>
      subst since
      have move := taken.miner thread
      rw [phase] at move
      cases move with
      | kept same => exact .inl (.mining same rfl member)
      | rested empty => exact absurd empty id
      | drafted held room => exact .inl (.selected held member)
      | retried held =>
          rw [proofOfWork_transactions] at member
          exact .inl (.mining held rfl member)
  | @mined thread block history phase since member =>
      have move := taken.miner thread
      rw [phase] at move
      cases move with
      | kept same => exact .inl (.mined same since member)
      | rested empty => exact absurd empty id
      | solved held success =>
          rw [proofOfWork_transactions] at member
          exact .inl (.mining held since member)
  | @framed frame residue block inPipe decoded since member =>
      rcases taken.pipe inPipe with old | ⟨thread, pointer, framed, mined, bytes⟩
      · exact .inl (.framed old decoded since member)
      · rw [bytes, decodeFrame_minerFrame setup.cfg.maxBlockSize_lt] at decoded
        cases decoded
        exact .inl (.mined mined since member)
  | @streamed num block history streamed since member =>
      have move := taken.validator num
      generalize phase : after.validators num = now at move streamed
      cases move with
      | kept same => exact .inl (.streamed (same ▸ streamed) since member)
      | started | founded | rejected | appended | dropped | reported | exited =>
          rcases streamed with other | other | other <;> cases other
      | took reading inPipe decoded =>
          rcases streamed with same | same | same <;> cases same
          exact .inl (.framed inPipe decoded since member)
      | approved received =>
          rcases streamed with same | same | same <;> cases same
          exact .inl (.streamed (.inl received) since member)
      | removed own checked passed =>
          rcases streamed with same | same | same <;> cases same
          exact .inl (.streamed (.inr (.inl checked)) since member)

theorem State.initial_carries (tx : Transaction) (countAtSelection : Nat) :
    ¬ (State.initial setup).Carries tx countAtSelection := by
  intro carried
  cases carried with
  | selected phase | mining phase | mined phase => cases phase
  | framed inPipe => cases inPipe
  | streamed streamed => rcases streamed with other | other | other <;> cases other

/-- A generator issued this transaction, whatever its reward has become. -/
def Traced (issued : List Transaction) (tx : Transaction) : Prop :=
  ∃ origin ∈ issued, origin.id = tx.id ∧ origin.value = tx.value ∧ origin.timestamp = tx.timestamp

theorem Traced.mono {older newer : List Transaction} {tx : Transaction} (traced : Traced older tx)
    (growth : older <+: newer) : Traced newer tx := by
  obtain ⟨origin, member, same⟩ := traced
  exact ⟨origin, growth.subset member, same⟩

theorem Traced.agree {issued : List Transaction} (distinct : (issued.map Transaction.id).Nodup)
    {first second : Transaction} (firstTraced : Traced issued first) (secondTraced : Traced issued second)
    (same : first.id = second.id) : first.value = second.value ∧ first.timestamp = second.timestamp := by
  obtain ⟨origin, member, id, value, timestamp⟩ := firstTraced
  obtain ⟨other, otherMember, otherId, otherValue, otherTimestamp⟩ := secondTraced
  have one : origin = other :=
    List.inj_on_of_nodup_map distinct member otherMember (id.trans (same.trans otherId.symm))
  exact ⟨value.symm.trans (one ▸ otherValue), timestamp.symm.trans (one ▸ otherTimestamp)⟩

structure AllTraced (state : State setup.txs) : Prop where
  slots : ∀ slot ∈ state.pool.transactions, slot.filled ≠ 0 → Traced state.issued slot.tx
  carried : ∀ tx countAtSelection, state.Carries tx countAtSelection → Traced state.issued tx
  recorded : ∀ k, 1 ≤ k → k < state.ledger.count →
    ∀ tx ∈ (state.ledger.blocks k).transactions.toList, Traced state.issued tx

theorem AllTraced.supplied {state : State setup.txs} (held : AllTraced state)
    (sound : state.pool.Sound setup.cfg.transactionPoolSize) {tx : Transaction}
    (supplied : state.pool.Supplies tx) : Traced state.issued tx := by
  obtain ⟨slot, member, filled, rfl⟩ := supplied
  obtain ⟨origin, issued, id, value, timestamp⟩ := held.slots slot member (by simp [filled])
  exact ⟨origin, issued, id.trans (copyTransaction_id (sound.proper slot member).terminated).symm,
    value, timestamp⟩

theorem AllTraced.step (held : AllTraced before) (chain : ChainInvariant setup before)
    (sound : before.pool.Sound setup.cfg.transactionPoolSize)
    (taken : Transition setup before event after) : AllTraced after := by
  have growth := taken.issued
  refine ⟨?_, ?_, ?_⟩
  · intro slot member filled
    rcases taken.pool with same | ⟨gen, stack, rand, now, i, rfl, added⟩ | ⟨_, block, _, _, _, passed⟩
    · rw [same] at member
      exact (held.slots slot member filled).mono growth
    · obtain ⟨old, _, _, _, _, slots⟩ := insertTransaction_added added
      rw [slots] at member
      rcases List.mem_or_eq_of_mem_set member with member | rfl
      · exact (held.slots slot member filled).mono growth
      · cases taken with
        | refused full => exact absurd added (full _ _)
        | stored => exact ⟨_, List.mem_append_right _ (by simp), rfl, rfl, rfl⟩
        | rested own => cases own
    · obtain ⟨j, at_j⟩ := List.getElem?_of_mem member
      obtain ⟨old, at_old, oldFilled, rfl⟩ := poolPhase_filled passed at_j filled
      obtain ⟨origin, issued, same⟩ := held.slots old (List.mem_of_getElem? at_old) oldFilled
      exact ⟨origin, growth.subset issued, by simpa using same⟩
  · intro tx countAtSelection carried
    rcases taken.carries carried with earlier | ⟨supplied, _⟩
    · exact (held.carried tx countAtSelection earlier).mono growth
    · exact (held.supplied sound supplied).mono growth
  · intro k lower upper tx member
    rcases taken.ledger with same | ⟨_, _, empty, genesis⟩ | ⟨num, _, block, history, _, accepted, tip, same⟩
    · rw [same] at upper member
      exact (held.recorded k lower upper tx member).mono growth
    · have one := (createGenesis_spec chain.chained empty genesis).2.1
      omega
    · have sealing := chain.streams num block history (.inr (.inr accepted))
      have positive := chain.founded num (accepted ▸ trivial)
      obtain ⟨_, extended, count, stored⟩ :=
        appendBlock_spec chain.chained positive sealing.padded sealing.verified tip
      rw [same] at upper member
      rcases Nat.lt_or_eq_of_le (Nat.le_of_lt_succ (count ▸ upper)) with below | here
      · rw [extended.2 k below] at member
        exact (held.recorded k lower below tx member).mono growth
      · rw [here, stored] at member
        exact (held.carried tx _ (.streamed (.inr (.inr accepted)) rfl member)).mono growth

theorem SystemRun.allTraced (run : SystemRun setup trace final) : AllTraced final := by
  induction run with
  | nil =>
      refine ⟨fun slot member filled => ?_, fun tx countAtSelection carried => ?_, fun k _ upper => ?_⟩
      · rw [List.eq_of_mem_replicate member] at filled
        exact absurd rfl filled
      · exact absurd carried (State.initial_carries _ _)
      · exact absurd upper (Nat.not_lt_zero k)
  | snoc earlier taken ih =>
      exact ih.step (SystemRun.chain earlier) (SystemRun.pool_sound earlier) (step_transition taken)

def Removes (trace : List (State setup.txs × Event)) (num : Nat) (block : TransactionBlock setup.txs)
    (removal : State setup.txs) (pool : TransactionPool) : Prop :=
  (removal, Event.poolPhase num) ∈ trace ∧ (∃ history, removal.validators num = .checked block history) ∧
    poolPhase removal.pool block = some pool

def RemovedThenAppended (trace : List (State setup.txs × Event)) (k : Nat)
    (block : TransactionBlock setup.txs) (removal : State setup.txs) (pool : TransactionPool) : Prop :=
  ∃ num now append,
    List.Sublist [(removal, Event.poolPhase num), (append, Event.ledgerPhase num now)] trace ∧
    (∃ history, removal.validators num = .checked block history) ∧
    poolPhase removal.pool block = some pool ∧
    (∃ history, append.validators num = .accepted block history) ∧
    onTip append.ledger block = true ∧ append.ledger.count = k

theorem SystemRun.removes (run : SystemRun setup trace final) (num : Nat)
    (block : TransactionBlock setup.txs) (history : History)
    (accepted : final.validators num = .accepted block history) :
    ∃ removal pool, Removes trace num block removal pool := by
  induction run with
  | nil => cases accepted
  | snoc earlier taken ih =>
      have move := (step_transition taken).validator num
      rw [accepted] at move
      cases move with
      | kept same =>
          obtain ⟨removal, pool, member, facts⟩ := ih same
          exact ⟨removal, pool, List.mem_append_left _ member, facts⟩
      | removed own checked passed =>
          subst own
          exact ⟨_, _, List.mem_append_right _ (by simp), ⟨history, checked⟩, passed⟩

theorem SystemRun.removedThenAppended (run : SystemRun setup trace final) {k : Nat} (lower : 1 ≤ k)
    (upper : k < final.ledger.count) :
    ∃ removal pool, RemovedThenAppended trace k (final.ledger.blocks k) removal pool := by
  induction run with
  | nil => exact absurd upper (Nat.not_lt_zero k)
  | @snoc earlierTrace before event after earlier taken ih =>
      have chain := SystemRun.chain earlier
      have keep (still : k < before.ledger.count) (same : after.ledger.blocks k = before.ledger.blocks k) :
          ∃ removal pool, RemovedThenAppended (earlierTrace ++ [(before, event)]) k
            (after.ledger.blocks k) removal pool := by
        obtain ⟨removal, pool, num, now, append, sublist, facts⟩ := ih still
        rw [same]
        exact ⟨removal, pool, num, now, append, sublist.trans (List.sublist_append_left _ _), facts⟩
      rcases (step_transition taken).ledger with
        same | ⟨_, _, empty, genesis⟩ | ⟨num, now, block, history, rfl, accepted, tip, same⟩
      · exact keep (same ▸ upper) (by rw [same])
      · have one := (createGenesis_spec chain.chained empty genesis).2.1
        omega
      · have sealing := chain.streams num block history (.inr (.inr accepted))
        have positive := chain.founded num (accepted ▸ trivial)
        obtain ⟨_, extended, count, stored⟩ :=
          appendBlock_spec chain.chained positive sealing.padded sealing.verified tip
        rw [← same] at extended count stored
        rcases Nat.lt_or_eq_of_le (Nat.le_of_lt_succ (count ▸ upper)) with below | here
        · exact keep below (extended.2 k below)
        · obtain ⟨removal, pool, member, checked, passed⟩ :=
            SystemRun.removes earlier num block history accepted
          have sublist : List.Sublist [(removal, Event.poolPhase num), (before, Event.ledgerPhase num now)]
              (earlierTrace ++ [(before, Event.ledgerPhase num now)]) :=
            (List.singleton_sublist.mpr member).append (List.Sublist.refl [_])
          rw [here, stored]
          exact ⟨removal, pool, num, now, before, sublist, checked, passed, ⟨history, accepted⟩, tip, rfl⟩

def GeneratedIn (trace : List (State setup.txs × Event)) (tx : Transaction) : Prop :=
  ∃ before gen stack rand now slot pool, (before, Event.insert gen stack rand now) ∈ trace ∧
    insertTransaction before.pool (newTransaction setup before gen stack rand now) = .added slot pool ∧
    (newTransaction setup before gen stack rand now).tx = tx

theorem SystemRun.generated (run : SystemRun setup trace final) {tx : Transaction}
    (member : tx ∈ final.issued) : GeneratedIn trace tx := by
  induction run with
  | nil => cases member
  | @snoc earlierTrace before event after earlier taken ih =>
      have keep (old : tx ∈ before.issued) : GeneratedIn (earlierTrace ++ [(before, event)]) tx := by
        obtain ⟨state, gen, stack, rand, now, slot, pool, recorded, facts⟩ := ih old
        exact ⟨state, gen, stack, rand, now, slot, pool, List.mem_append_left _ recorded, facts⟩
      cases step_transition taken with
      | stored added =>
          rcases List.mem_append.mp member with old | new
          · exact keep old
          · exact ⟨before, _, _, _, _, _, _, List.mem_append_right _ (by simp), added,
              (List.mem_singleton.mp new).symm⟩
      | _ => exact keep member

/-- A pool phase empties the slot of each transaction of its block, and the
block has the reward that the slot had then. -/
theorem poolPhase_removes {pool pool' : TransactionPool} {n : Nat} {block : TransactionBlock n}
    (distinct : pool.DistinctIds) (passed : poolPhase pool block = some pool') {tx : Transaction}
    (member : tx ∈ block.transactions.toList) : ∃ (j : Nat) (slot emptied : PendingTransaction),
      pool.transactions[j]? = some slot ∧ slot.filled ≠ 0 ∧ slot.tx.id = tx.id ∧
        slot.tx.reward = tx.reward ∧ pool'.transactions[j]? = some emptied ∧ emptied.filled = 0 := by
  obtain ⟨slot, slotMember, occupied, agrees⟩ :=
    (poolPhase_isSome_iff distinct).mp (Option.isSome_of_eq_some passed) tx member
  obtain ⟨id, reward, _, _⟩ := txCompare_iff.mp agrees
  obtain ⟨j, at_j⟩ := List.getElem?_of_mem slotMember
  refine ⟨j, slot, (slot.without block.ids).aged, at_j, occupied, id.symm, reward.symm, ?_, ?_⟩
  · rw [poolPhase_slots distinct passed, at_j, Option.map_some]
  · rw [PendingTransaction.aged_filled, PendingTransaction.without, if_pos]
    · rfl
    · exact ⟨occupied, id ▸ List.mem_map_of_mem member⟩

theorem SystemRun.distinctIds (run : SystemRun setup trace final)
    (distinct : (final.issued.map Transaction.id).Nodup) : final.pool.DistinctIds := by
  obtain ⟨_, place, _, represents, _⟩ := run.custody distinct
  exact represents.distinctIds

theorem SystemRun.recorded_distinctIds (run : SystemRun setup trace final)
    (distinct : (final.issued.map Transaction.id).Nodup) {entry : State setup.txs × Event}
    (member : entry ∈ trace) : entry.1.pool.DistinctIds := by
  obtain ⟨_, _, _, _, reached, _, _⟩ := run.recorded member
  exact SystemRun.distinctIds reached (nodup_of_issued_growth ((issued_grows run).2 entry member) distinct)

/-- No id is in two blocks, and every transaction of a block was issued by a
generator, was in a slot when the validator that appended the block removed it,
and is recorded with the reward of that slot at that moment. -/
theorem no_double_spending (setup : Setup) {trace : List (State setup.txs × Event)}
    {final : State setup.txs} (run : SystemRun setup trace final)
    (distinct : (final.issued.map Transaction.id).Nodup) :
    (∀ j k, 1 ≤ j → j < final.ledger.count → 1 ≤ k → k < final.ledger.count →
      ∀ id, id ∈ (final.ledger.blocks j).ids → id ∈ (final.ledger.blocks k).ids → j = k) ∧
    ∀ k, 1 ≤ k → k < final.ledger.count → ∃ removal pool,
      RemovedThenAppended trace k (final.ledger.blocks k) removal pool ∧
        ∀ tx ∈ (final.ledger.blocks k).transactions.toList,
          (∃ origin, GeneratedIn trace origin ∧ origin.id = tx.id ∧ origin.value = tx.value ∧
            origin.timestamp = tx.timestamp) ∧
          ∃ (i : Nat) (slot emptied : PendingTransaction),
            removal.pool.transactions[i]? = some slot ∧ slot.filled = 1 ∧
            slot.tx.id = tx.id ∧ slot.tx.reward = tx.reward ∧ slot.tx.value = tx.value ∧
            slot.tx.timestamp = tx.timestamp ∧
            pool.transactions[i]? = some emptied ∧ emptied.filled = 0 := by
  obtain ⟨_, place, _, represents, _⟩ := run.custody distinct
  constructor
  · intro j k jLower jUpper kLower kUpper id inFirst inSecond
    have first : final.At id (.committed j) := ⟨jLower, jUpper, inFirst⟩
    have second : final.At id (.committed k) := ⟨kLower, kUpper, inSecond⟩
    cases represents.unique _ _ first second
    rfl
  · intro k lower upper
    obtain ⟨removal, pool, phases⟩ := run.removedThenAppended lower upper
    refine ⟨removal, pool, phases, fun tx member => ?_⟩
    have traced := run.allTraced.recorded k lower upper tx member
    obtain ⟨num, now, append, sublist, _, passed, _⟩ := phases
    have recorded : (removal, Event.poolPhase num) ∈ trace := sublist.subset List.mem_cons_self
    obtain ⟨_, _, _, _, reached, _, _⟩ := run.recorded recorded
    obtain ⟨i, slot, emptied, at_i, occupied, id, reward, emptiedAt, empty⟩ :=
      poolPhase_removes (run.recorded_distinctIds distinct recorded) passed member
    have slotMember := List.mem_of_getElem? at_i
    have slotTraced := ((SystemRun.allTraced reached).slots slot slotMember occupied).mono
      ((issued_grows run).2 _ recorded)
    obtain ⟨value, timestamp⟩ := slotTraced.agree distinct traced id
    have filled := (SystemRun.pool_sound reached).consistent.filled_at at_i occupied
    obtain ⟨origin, issued, same⟩ := traced
    exact ⟨⟨origin, run.generated issued, same⟩, i, slot, emptied, at_i, filled, id, reward, value,
      timestamp, emptiedAt, empty⟩

theorem pairEvents_execute : (exec (step pairSetup) (State.initial pairSetup) pairEvents).isSome = true := by
  decide +kernel

def pairBlocks : State pairSetup.txs := (exec _ _ _).get pairEvents_execute

theorem no_double_spending_of_pairs : ∃ trace, SystemRun pairSetup trace pairBlocks ∧
    pairBlocks.ledger.count = 3 ∧
    (∀ id ∈ (pairBlocks.ledger.blocks 1).ids, id ∉ (pairBlocks.ledger.blocks 2).ids) ∧
    ∀ k, 1 ≤ k → k < 3 → ∃ removal pool,
      RemovedThenAppended trace k (pairBlocks.ledger.blocks k) removal pool := by
  obtain ⟨trace, run, _⟩ :
      ∃ trace, SystemRun pairSetup trace pairBlocks ∧ trace.map Prod.snd = pairEvents :=
    exec_run_get pairEvents_execute
  have count : pairBlocks.ledger.count = 3 := by decide +kernel
  obtain ⟨apart, removed⟩ := no_double_spending pairSetup run (by decide +kernel)
  rw [count] at apart removed
  refine ⟨trace, run, count, fun id inFirst inSecond => ?_, fun k lower upper => ?_⟩
  · have same := apart 1 2 (by decide) (by decide) (by decide) (by decide) id inFirst inSecond
    cases same
  · obtain ⟨removal, pool, phases, _⟩ := removed k lower upper
    exact ⟨removal, pool, phases⟩

end

end DeiChain
