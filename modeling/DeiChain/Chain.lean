import DeiChain.Bookkeeping

namespace DeiChain

open Data Systems

/-! # The ledger over whole runs

A block in flight remembers a height whose tip it names. Blocks are only ever
appended, so the tip of that height stays the same while the block travels.
-/

section

variable {setup : Setup}

/-- A block that a miner thread builds: free of garbage, and on a tip the ledger had. -/
structure Draft (setup : Setup) (ledger : Ledger setup.txs) (block : TransactionBlock setup.txs)
    (history : History) : Prop where
  padded : block.Padded
  names : block.previousBlockHash =
    HashChain.tip (computeSha256 setup.sha256) (zeroArray hashSize) ledger.blocks history.countAtTip
  known : history.countAtTip ≤ ledger.count
  room : history.countAtTip < setup.cfg.blockchainBlocks
  ordered : history.countAtSelection ≤ history.countAtTip

structure Sealed (setup : Setup) (ledger : Ledger setup.txs) (block : TransactionBlock setup.txs)
    (history : History) : Prop extends Draft setup ledger block history where
  verified : verifyNonce setup.sha256 block = true

variable {older newer : Ledger setup.txs} {block : TransactionBlock setup.txs} {history : History}

theorem Draft.mono (draft : Draft setup older block history) (growth : older.Extends newer) :
    Draft setup newer block history where
  padded := draft.padded
  names := by rw [draft.names, HashChain.tip_congr growth.2 draft.known]
  known := Nat.le_trans draft.known growth.1
  room := draft.room
  ordered := draft.ordered

theorem Sealed.mono (sealing : Sealed setup older block history) (growth : older.Extends newer) :
    Sealed setup newer block history :=
  ⟨sealing.toDraft.mono growth, sealing.verified⟩

theorem Draft.proofOfWork (draft : Draft setup older block history) (now : Int64) :
    Draft setup older (proofOfWork setup.sha256 { block with timestamp := now }).1 history := by
  obtain ⟨nonce, left⟩ := proofOfWork_block setup.sha256 { block with timestamp := now }
  rw [left]
  exact ⟨⟨draft.padded.txbId, draft.padded.previousBlockHash, draft.padded.transactions⟩,
    draft.names, draft.known, draft.room, draft.ordered⟩

theorem Ledger.Chained.draft (chained : older.Chained setup.sha256) {thread blockNumber : Nat}
    {txs : List.Vector Transaction setup.txs} {countAtSelection : Nat}
    (copies : ∀ tx ∈ txs.toList, ZeroPadded tx.txId) (earlier : countAtSelection ≤ older.count)
    (room : older.count < setup.cfg.blockchainBlocks) :
    Draft setup older (buildBlock thread blockNumber older.lastBlockHash txs)
      ⟨countAtSelection, older.count⟩ where
  padded := buildBlock_padded chained.lastBlockHash_zeroPadded copies
  names := by rw [buildBlock_previousBlockHash chained.lastBlockHash_zeroPadded, chained.newest]
  known := Nat.le_refl _
  room := room
  ordered := earlier

/-- Everything a run keeps true about the ledger and the blocks on their way to it. -/
structure ChainInvariant (setup : Setup) (state : State setup.txs) : Prop where
  chained : state.ledger.Chained setup.sha256
  sized : state.ledger.numBlocks = setup.cfg.blockchainBlocks
  selections : ∀ thread txs countAtSelection,
    (state.miners thread).phase = .selected txs countAtSelection →
      countAtSelection ≤ state.ledger.count ∧ ∀ tx ∈ txs.toList, ZeroPadded tx.txId
  drafts : ∀ thread block history, (state.miners thread).phase = .mining block history →
    Draft setup state.ledger block history
  mined : ∀ thread block history, (state.miners thread).phase = .mined block history →
    Sealed setup state.ledger block history
  frames : ∀ frame ∈ state.pipe, ∃ pointer block,
    frame.bytes = minerFrame pointer block ∧ Sealed setup state.ledger block frame.history
  streams : ∀ num block history, (state.validators num).Streamed block history →
    Sealed setup state.ledger block history
  founded : ∀ num, (state.validators num).Founded → 0 < state.ledger.count

variable {before after final : State setup.txs} {event : Event} {trace : List (State setup.txs × Event)}

theorem ChainInvariant.initial (setup : Setup) : ChainInvariant setup (State.initial setup) where
  chained := Ledger.initial_chained _ _ _
  sized := rfl
  selections := nofun
  drafts := nofun
  mined := nofun
  frames := nofun
  streams := by
    intro num block history streamed
    rcases streamed with streamed | streamed | streamed <;> cases streamed
  founded := fun _ => False.elim

theorem ChainInvariant.ledger (held : ChainInvariant setup before)
    (taken : Transition setup before event after) :
    after.ledger.Chained setup.sha256 ∧ after.ledger.numBlocks = before.ledger.numBlocks ∧
      before.ledger.Extends after.ledger := by
  rcases taken.ledger with same | ⟨_, _, empty, genesis⟩ | ⟨num, _, block, history, _, accepted, tip, same⟩
  · rw [same]
    exact ⟨held.chained, rfl, .refl _⟩
  · obtain ⟨chained, _, sized, _⟩ := createGenesis_spec held.chained empty genesis
    refine ⟨chained, sized, by omega, fun index bound => ?_⟩
    omega
  · have sealing := held.streams num block history (.inr (.inr accepted))
    have positive := held.founded num (accepted ▸ trivial)
    obtain ⟨chained, growth, _⟩ :=
      appendBlock_spec held.chained positive sealing.padded sealing.verified tip
    rw [same]
    exact ⟨chained, rfl, growth⟩

theorem selectTransactions_zeroPadded {pool : TransactionPool} {size : Nat} (sound : pool.Sound size)
    {rands : List Nat} {transactionsPerBlock : Nat} {result : List Transaction}
    (chosen : selectTransactions pool transactionsPerBlock rands = some result) :
    ∀ tx ∈ result, ZeroPadded tx.txId := by
  intro tx member
  obtain ⟨slot, slotMember, _, rfl⟩ := selectTransactions_supplied chosen tx member
  exact copyTransaction_zeroPadded (sound.proper slot slotMember).terminated

theorem ChainInvariant.decoded (held : ChainInvariant setup before) {frame : Frame}
    (member : frame ∈ before.pipe) {residue : List UInt8} {block : TransactionBlock setup.txs}
    (decoded : decodeFrame setup.txs residue frame.bytes = some block) :
    Sealed setup before.ledger block frame.history := by
  obtain ⟨pointer, framed, bytes, sealing⟩ := held.frames frame member
  rw [bytes, decodeFrame_minerFrame setup.cfg.maxBlockSize_lt] at decoded
  cases decoded
  exact sealing

theorem ChainInvariant.step (held : ChainInvariant setup before)
    (sound : before.pool.Sound setup.cfg.transactionPoolSize)
    (taken : Transition setup before event after) : ChainInvariant setup after := by
  obtain ⟨chained, sized, growth⟩ := held.ledger taken
  refine ⟨chained, sized.trans held.sized, ?_, ?_, ?_, ?_, ?_, ?_⟩
  · intro thread txs countAtSelection phase
    have move := taken.miner thread
    rw [phase] at move
    cases move with
    | kept same =>
        obtain ⟨bound, copies⟩ := held.selections thread txs countAtSelection same
        exact ⟨Nat.le_trans bound growth.1, copies⟩
    | rested empty => exact absurd empty id
    | selected chosen pool ledger validators => exact ⟨growth.1, selectTransactions_zeroPadded sound chosen⟩
  · intro thread block history phase
    have move := taken.miner thread
    rw [phase] at move
    cases move with
    | kept same => exact (held.drafts thread block history same).mono growth
    | rested empty => exact absurd empty id
    | drafted selected room =>
        obtain ⟨bound, copies⟩ := held.selections thread _ _ selected
        exact (held.chained.draft copies bound room).mono growth
    | retried mining => exact ((held.drafts thread _ _ mining).proofOfWork _).mono growth
  · intro thread block history phase
    have move := taken.miner thread
    rw [phase] at move
    cases move with
    | kept same => exact (held.mined thread block history same).mono growth
    | rested empty => exact absurd empty id
    | solved mining success =>
        exact Sealed.mono ⟨(held.drafts thread _ _ mining).proofOfWork _,
          (proofOfWork_success success).2⟩ growth
  · intro frame member
    rcases taken.pipe member with old | ⟨thread, pointer, block, mined, bytes⟩
    · obtain ⟨pointer, block, bytes, sealing⟩ := held.frames frame old
      exact ⟨pointer, block, bytes, sealing.mono growth⟩
    · exact ⟨pointer, block, bytes, (held.mined thread block _ mined).mono growth⟩
  · intro num block history streamed
    have move := taken.validator num
    generalize phase : after.validators num = now at move streamed
    cases move with
    | kept same => exact (held.streams num block history (same ▸ streamed)).mono growth
    | started | founded | rejected | appended | dropped | reported | exited =>
        rcases streamed with other | other | other <;> cases other
    | took reading member decoded =>
        rcases streamed with same | same | same <;> cases same
        exact (held.decoded member decoded).mono growth
    | approved received =>
        rcases streamed with same | same | same <;> cases same
        exact (held.streams num block history (.inl received)).mono growth
    | removed own checked passed =>
        rcases streamed with same | same | same <;> cases same
        exact (held.streams num block history (.inr (.inl checked))).mono growth
  · intro num founded
    have move := taken.validator num
    generalize phase : after.validators num = now at move founded
    cases move with
    | kept same => exact Nat.lt_of_lt_of_le (held.founded num (same ▸ founded)) growth.1
    | started | exited => exact absurd founded id
    | founded starting positive => exact positive
    | took earlier | approved earlier | removed _ earlier | appended _ earlier | dropped _ earlier =>
        exact Nat.lt_of_lt_of_le (held.founded num (earlier ▸ trivial)) growth.1
    | reported pending =>
        rcases pending with ⟨_, earlier⟩ | ⟨_, _, _, earlier⟩
        · exact Nat.lt_of_lt_of_le (held.founded num (earlier ▸ trivial)) growth.1
        · exact Nat.lt_of_lt_of_le (held.founded num (earlier ▸ trivial)) growth.1
    | rejected streamed =>
        rcases streamed with earlier | earlier
        · exact Nat.lt_of_lt_of_le (held.founded num (earlier ▸ trivial)) growth.1
        · exact Nat.lt_of_lt_of_le (held.founded num (earlier ▸ trivial)) growth.1

theorem SystemRun.chain (run : SystemRun setup trace final) : ChainInvariant setup final := by
  have both := Run.invariant
    (fun state => state.pool.Sound setup.cfg.transactionPoolSize ∧ ChainInvariant setup state)
    ⟨TransactionPool.initial_sound _, .initial setup⟩
    (fun _ _ _ held taken => ⟨(step_transition taken).pool_sound held.1,
      held.2.step held.1 (step_transition taken)⟩) run
  exact both.2

theorem SystemRun.grows (run : SystemRun setup trace final) :
    ∀ entry ∈ trace, entry.1.ledger.Extends final.ledger :=
  (Run.related (fun older newer => older.ledger.Extends newer.ledger)
    (fun _ => .refl _) (fun first second => first.trans second)
    (fun earlier taken => ((SystemRun.chain earlier).ledger (step_transition taken)).2.2) run).2

def createsGenesis {n : Nat} (entry : State n × Event) : Bool :=
  match entry.2 with
  | .genesis _ => entry.1.ledger.count == 0
  | _ => false

theorem ChainInvariant.genesis (held : ChainInvariant setup before)
    (taken : Transition setup before event after) :
    (createsGenesis (before, event) = true ∧ before.ledger.count = 0 ∧
      createGenesis setup.sha256 before.ledger = some after.ledger) ∨
    (createsGenesis (before, event) = false ∧ (before.ledger.count = 0 → after.ledger.count = 0)) := by
  cases taken with
  | created starting empty genesis => exact .inl ⟨by simp [createsGenesis, empty], empty, genesis⟩
  | joined starting positive =>
      exact .inr ⟨by simpa [createsGenesis] using Nat.ne_of_gt positive, id⟩
  | appended accepted tip =>
      refine .inr ⟨rfl, fun empty => ?_⟩
      have positive := held.founded _ (show (before.validators _).Founded by rw [accepted]; trivial)
      omega
  | rested own empty =>
      refine .inr ⟨?_, id⟩
      cases event <;> first | rfl | cases own
  | _ => exact .inr ⟨rfl, id⟩

/-- Whatever the order in which validators start, the first of them creates the
genesis block and no other does. -/
theorem SystemRun.genesis (run : SystemRun setup trace final) :
    (final.ledger.count = 0 → trace.countP createsGenesis = 0) ∧
      (0 < final.ledger.count → trace.countP createsGenesis = 1 ∧
        final.ledger.blocks 0 = (proofOfWork setup.sha256 (TransactionBlock.zero setup.txs)).1) := by
  induction run with
  | nil => exact ⟨fun _ => rfl, fun positive => absurd positive (Nat.lt_irrefl 0)⟩
  | snoc earlier taken ih =>
      have held := SystemRun.chain earlier
      have growth := (held.ledger (step_transition taken)).2.2
      simp only [List.countP_append, List.countP_singleton]
      rcases held.genesis (step_transition taken) with ⟨creates, empty, genesis⟩ | ⟨creates, stays⟩
      · obtain ⟨_, count, _, first⟩ := createGenesis_spec held.chained empty genesis
        rw [ih.1 empty, if_pos creates]
        exact ⟨fun zero => by omega, fun _ => ⟨rfl, first⟩⟩
      · rw [if_neg (Bool.eq_false_iff.mp creates), Nat.add_zero]
        refine ⟨fun zero => ih.1 (by have := growth.1; omega), fun positive => ?_⟩
        have earlierPositive : 0 < _ := Nat.pos_of_ne_zero fun zero =>
          Nat.ne_of_gt positive (stays zero)
        obtain ⟨once, first⟩ := ih.2 earlierPositive
        exact ⟨once, (growth.2 0 earlierPositive).trans first⟩

/-- In every reachable state with a block the ledger is a chain that verifies
itself from its own fields, grown from one genesis block and by appending only. -/
theorem ledger_is_verified_chain (setup : Setup) {trace : List (State setup.txs × Event)}
    {final : State setup.txs} (run : SystemRun setup trace final) (created : 1 ≤ final.ledger.count) :
    let ledger := final.ledger
    let hashOf := computeSha256 setup.sha256 (n := setup.txs)
    ledger.lastBlockIndex + 1 = ledger.count ∧
      trace.countP createsGenesis = 1 ∧
      ledger.blocks 0 = (proofOfWork setup.sha256 (TransactionBlock.zero setup.txs)).1 ∧
      (∀ k, k < ledger.count - 1 → (ledger.blocks (k + 1)).previousBlockHash = hashOf (ledger.blocks k)) ∧
      ledger.lastBlockHash = hashOf (ledger.blocks (ledger.count - 1)) ∧
      (∀ k < ledger.count, ∀ reward, (∃ tx ∈ (ledger.blocks k).transactions.toList, tx.reward = reward) →
        (∀ tx ∈ (ledger.blocks k).transactions.toList, tx.reward ≤ reward) →
          checkDifficulty (hashOf (ledger.blocks k)).toList reward = true) ∧
      ∀ entry ∈ trace, entry.1.ledger.count ≤ ledger.count ∧
        ∀ k < entry.1.ledger.count, ledger.blocks k = entry.1.ledger.blocks k := by
  obtain ⟨index, newest, linked, verified, _⟩ := run.chain.chained
  obtain ⟨once, first⟩ := run.genesis.2 created
  refine ⟨by omega, once, first, ?_, ?_, ?_, run.grows⟩
  · intro k bound
    exact linked (k + 1) (by omega)
  · obtain ⟨height, count⟩ : ∃ height, final.ledger.count = height + 1 := ⟨final.ledger.count - 1, by omega⟩
    rw [newest, count]
    rfl
  · intro k bound reward attained largest
    exact verifyNonce_largest setup.cfg.transactionsInt (verified k bound) attained largest

theorem ledger_is_verified_chain_after_first_block : ∃ trace, SystemRun smallSetup trace firstBlock ∧
    trace.countP createsGenesis = 1 ∧ (firstBlock.ledger.blocks 1).previousBlockHash =
      computeSha256 smallSetup.sha256 (firstBlock.ledger.blocks 0) := by
  obtain ⟨trace, run, _⟩ := firstBlock_run
  obtain ⟨_, once, _, linked, _⟩ := ledger_is_verified_chain smallSetup run (by decide +kernel)
  have second := linked 0 (by decide +kernel)
  rw [Nat.zero_add] at second
  exact ⟨trace, run, once, second⟩

/-- A block that names the newest hash was started when the ledger had exactly
the blocks it has now. -/
theorem ChainInvariant.tip_height (held : ChainInvariant setup before) {block : TransactionBlock setup.txs}
    {history : History} (draft : Draft setup before.ledger block history)
    (free : HashChain.CollisionFree (computeSha256 setup.sha256) before.ledger.blocks before.ledger.count)
    (tip : onTip before.ledger block = true) : history.countAtTip = before.ledger.count := by
  have names := (held.chained.onTip_iff draft.padded.previousBlockHash).mp tip
  refine held.chained.linked.tip_injective free (computeSha256_ne_zeroArray setup.sha256)
    draft.known (Nat.le_refl _) ?_
  rw [← draft.names, names, held.chained.newest]

theorem Ledger.Extends.collisionFree {sha256 : Sha256} (growth : older.Extends newer)
    (free : HashChain.CollisionFree (computeSha256 sha256) newer.blocks newer.count) :
    HashChain.CollisionFree (computeSha256 sha256) older.blocks older.count :=
  free.mono growth.1 growth.2

theorem SystemRun.count_le (run : SystemRun setup trace final)
    (free : HashChain.CollisionFree (computeSha256 setup.sha256) final.ledger.blocks final.ledger.count) :
    final.ledger.count ≤ setup.cfg.blockchainBlocks := by
  induction run with
  | nil => exact Nat.zero_le _
  | snoc earlier taken ih =>
      have held := SystemRun.chain earlier
      have growth := (held.ledger (step_transition taken)).2.2
      have earlierFree := growth.collisionFree free
      have bound := ih earlierFree
      rcases (step_transition taken).ledger with
        same | ⟨_, _, empty, genesis⟩ | ⟨num, _, block, history, _, accepted, tip, same⟩
      · rw [same]
        exact bound
      · rw [(createGenesis_spec held.chained empty genesis).2.1]
        exact Nat.le_trans (by decide) setup.cfg.twoBlocks
      · have draft := (held.streams num block history (.inr (.inr accepted))).toDraft
        have height := held.tip_height draft earlierFree tip
        have room := draft.room
        rw [same]
        exact Nat.succ_le_of_lt (height ▸ room)

/-- Without hash collisions in the ledger no append is out of bounds, although
only miners look at the number of blocks: a block is appended at the very
height at which its miner read the tip. -/
theorem ledger_never_overflows (setup : Setup) {trace : List (State setup.txs × Event)}
    {final : State setup.txs} (run : SystemRun setup trace final)
    (free : HashChain.CollisionFree (computeSha256 setup.sha256) final.ledger.blocks final.ledger.count) :
    final.ledger.count ≤ final.ledger.numBlocks ∧
      final.ledger.numBlocks = setup.cfg.blockchainBlocks ∧
      ∀ before num now, (before, Event.ledgerPhase num now) ∈ trace →
        ∀ block history, before.validators num = .accepted block history →
          onTip before.ledger block = true →
            let nextIndex := before.ledger.lastBlockIndex + 1
            1 ≤ nextIndex ∧ nextIndex < before.ledger.numBlocks ∧
              before.ledger.numBlocks = setup.cfg.blockchainBlocks ∧
              nextIndex = before.ledger.count ∧ history.countAtTip = nextIndex := by
  have sized := run.chain.sized
  refine ⟨sized ▸ run.count_le free, sized, ?_⟩
  intro before num now member block history accepted tip
  obtain ⟨_, _, _, _, reached, _, _⟩ := run.recorded member
  have held := SystemRun.chain reached
  have draft := (held.streams num block history (.inr (.inr accepted))).toDraft
  have height := held.tip_height draft ((run.grows _ member).collisionFree free) tip
  have positive := held.founded num (accepted ▸ trivial)
  have index := held.chained.index
  have room := draft.room
  refine ⟨Nat.le_add_left _ _, ?_, held.sized, by omega, by omega⟩
  rw [held.sized]
  omega

theorem ledger_never_overflows_after_first_block : ∃ trace, SystemRun smallSetup trace firstBlock ∧
    firstBlock.ledger.count ≤ firstBlock.ledger.numBlocks := by
  obtain ⟨trace, run, _⟩ := firstBlock_run
  have count : firstBlock.ledger.count = 2 := by decide +kernel
  have different : computeSha256 smallSetup.sha256 (firstBlock.ledger.blocks 0) ≠
      computeSha256 smallSetup.sha256 (firstBlock.ledger.blocks 1) := by decide +kernel
  refine ⟨trace, run, (ledger_never_overflows smallSetup run ?_).1⟩
  rw [count]
  intro first firstBound second secondBound same
  have small : (first = 0 ∨ first = 1) ∧ (second = 0 ∨ second = 1) := by omega
  obtain ⟨rfl | rfl, rfl | rfl⟩ := small
  · rfl
  · exact absurd same different
  · exact absurd same.symm different
  · rfl

end

end DeiChain
