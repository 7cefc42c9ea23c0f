import DeiChain.Chain
import DeiChain.Data.Decimal

namespace DeiChain

open Data Systems

/-! # Whose block it is

A block carries the number of its miner thread in its id only, as text that the
validator scans again.
-/

/-- What the id of every block of miner `m` starts with: `BLOCK-m-`. -/
def txbPrefix (m : Nat) : List UInt8 := [66, 76, 79, 67, 75, 45] ++ decimal m ++ [45]

def isOf (m : Nat) (txbId : CharArray txbIdLen) : Bool :=
  (txbPrefix m).isPrefixOf (cstr txbId.toList)

/-- `sscanf(txb_id, "BLOCK-%d-", &miner_id)`, where it returns 1. -/
def scanMinerId (txbId : CharArray txbIdLen) : Option Int :=
  let text := cstr txbId.toList
  if [66, 76, 79, 67, 75, 45].isPrefixOf text then scanInt (text.drop 6) else none

/-- The number of a thread is an `int`, which leaves room for all of the prefix. -/
theorem cstr_formatTxbId {thread : Nat} (bound : thread < 2 ^ 31) (blockNumber : Nat) :
    ∃ number, cstr (snprintf (zeroArray txbIdLen) (formatTxbId thread blockNumber)).toList =
      txbPrefix thread ++ number := by
  have short : (decimal thread).length ≤ 10 := decimal_length_le (by decide) (by omega)
  have room : (txbPrefix thread).length ≤ txbIdLen - 1 := by
    simp only [txbPrefix, txbIdLen, List.length_append, List.length_cons, List.length_nil]
    omega
  refine ⟨(decimal blockNumber).take (txbIdLen - 1 - (txbPrefix thread).length), ?_⟩
  rw [cstr_snprintf _ (fun _ member => formatTxbId_nonzero member) (by decide), formatTxbId,
    ← txbPrefix, List.take_append, List.take_of_length_le room]

theorem scanMinerId_formatTxbId {thread : Nat} (bound : thread < 2 ^ 31) (blockNumber : Nat) :
    scanMinerId (snprintf (zeroArray txbIdLen) (formatTxbId thread blockNumber)) = some (thread : Int) := by
  obtain ⟨number, text⟩ := cstr_formatTxbId bound blockNumber
  have rest : cstr (snprintf (zeroArray txbIdLen) (formatTxbId thread blockNumber)).toList =
      [66, 76, 79, 67, 75, 45] ++ (decimal thread ++ 45 :: number) := by
    rw [text, txbPrefix]
    simp
  have starts : [66, 76, 79, 67, 75, 45].isPrefixOf
      (cstr (snprintf (zeroArray txbIdLen) (formatTxbId thread blockNumber)).toList) = true :=
    List.isPrefixOf_iff_prefix.mpr ⟨_, rest.symm⟩
  rw [scanMinerId, if_pos starts, rest]
  exact scanInt_decimal thread (by simp [isDigit])

/-- The id is one that `miner_thread` prints, for a thread that exists. -/
def Authored (setup : Setup) (txbId : CharArray txbIdLen) (thread : Nat) : Prop :=
  1 ≤ thread ∧ thread ≤ setup.cfg.numMiners ∧
    ∃ blockNumber, txbId = snprintf (zeroArray txbIdLen) (formatTxbId thread blockNumber)

section

variable {setup : Setup} {txbId : CharArray txbIdLen} {thread : Nat}

theorem Authored.padded (authored : Authored setup txbId thread) : ZeroPadded txbId := by
  obtain ⟨_, _, _, rfl⟩ := authored
  exact snprintf_zeroArray_zeroPadded (fun _ member => formatTxbId_nonzero member) (by decide)

theorem Authored.text (authored : Authored setup txbId thread) :
    ∃ number, cstr txbId.toList = txbPrefix thread ++ number := by
  obtain ⟨_, bound, blockNumber, rfl⟩ := authored
  exact cstr_formatTxbId (Nat.lt_of_le_of_lt bound setup.cfg.minersInt) blockNumber

theorem Authored.scanned (authored : Authored setup txbId thread) :
    scanMinerId txbId = some (thread : Int) := by
  obtain ⟨_, bound, blockNumber, rfl⟩ := authored
  exact scanMinerId_formatTxbId (Nat.lt_of_le_of_lt bound setup.cfg.minersInt) blockNumber

theorem Authored.isOf_iff (authored : Authored setup txbId thread) (m : Nat) :
    isOf m txbId = true ↔ m = thread := by
  obtain ⟨number, text⟩ := authored.text
  rw [isOf, text, List.isPrefixOf_iff_prefix]
  constructor
  · intro starts
    obtain ⟨rest, same⟩ := starts
    have digits : decimal m ++ 45 :: rest = decimal thread ++ 45 :: number := by
      simpa [txbPrefix] using same
    have cut := congrArg (List.takeWhile isDigit) digits
    rw [takeWhile_decimal m (by simp [isDigit]), takeWhile_decimal thread (by simp [isDigit])] at cut
    exact decimal_injective cut
  · intro same
    subst same
    exact ⟨number, rfl⟩

end

def ValidatorPhase.block? {n : Nat} : ValidatorPhase n → Option (TransactionBlock n)
  | .received block _ | .checked block _ | .accepted block _ | .rejecting block | .inserted block _ _ =>
      some block
  | _ => none

section

variable {setup : Setup} {before after final : State setup.txs} {event : Event}
  {trace : List (State setup.txs × Event)}

structure AuthorInvariant (setup : Setup) (state : State setup.txs) : Prop where
  working : ∀ thread, (state.miners thread).phase ≠ .waiting →
    1 ≤ thread ∧ thread ≤ setup.cfg.numMiners
  mining : ∀ thread block history, (state.miners thread).phase = .mining block history →
    Authored setup block.txbId thread
  mined : ∀ thread block history, (state.miners thread).phase = .mined block history →
    Authored setup block.txbId thread
  frames : ∀ frame ∈ state.pipe, ∃ (pointer : UInt64) (block : TransactionBlock setup.txs) (thread : Nat),
    frame.bytes = minerFrame pointer block ∧ Authored setup block.txbId thread
  held : ∀ num block, (state.validators num).block? = some block →
    ∃ thread, Authored setup block.txbId thread
  stored : ∀ k, 1 ≤ k → k < state.ledger.count →
    ∃ thread, Authored setup (state.ledger.blocks k).txbId thread

theorem AuthorInvariant.initial (setup : Setup) : AuthorInvariant setup (State.initial setup) where
  working := fun _ other => absurd rfl other
  mining := nofun
  mined := nofun
  frames := nofun
  held := nofun
  stored := fun k _ upper => absurd upper (Nat.not_lt_zero k)

theorem Transition.miner_other (taken : Transition setup before event after) {thread : Nat}
    (other : event.thread? ≠ some thread) : after.miners thread = before.miners thread := by
  have elsewhere {acting : Nat} (own : some acting ≠ some thread) (phase : MinerPhase setup.txs)
      (blockNumber : Nat) :
      (before.withMiner acting phase blockNumber).miners thread = before.miners thread :=
    Function.update_of_ne (fun same => own (congrArg some same.symm)) _ _
  cases taken with
  | rested own empty => exact elsewhere (own ▸ other) _ _
  | selected | drafted | retried | solved => exact elsewhere other _ _
  | wrote => exact elsewhere other .waiting _
  | _ => rfl

/-- Only a thread that was created ever leaves its wait. -/
theorem step_wakes (taken : step setup before event = some after) {thread : Nat}
    (waiting : (before.miners thread).phase = .waiting)
    (woken : (after.miners thread).phase ≠ .waiting) : 1 ≤ thread ∧ thread ≤ setup.cfg.numMiners := by
  by_cases own : event.thread? = some thread
  · cases event with
    | pollPool _ =>
        cases own
        simp only [step, stepPollPool, waiting] at taken
        split at taken
        · assumption
        · cases taken
    | pollLedger | select | readTip | mine | write | abandon =>
        cases own
        simp [step, stepPollLedger, stepSelect, stepReadTip, stepMine, stepWrite, stepAbandon,
          waiting] at taken
    | _ => cases own
  · rw [(step_transition taken).miner_other own] at woken
    exact absurd waiting woken

theorem AuthorInvariant.step (held : AuthorInvariant setup before) (chain : ChainInvariant setup before)
    (taken : step setup before event = some after) : AuthorInvariant setup after := by
  have transition := step_transition taken
  refine ⟨?_, ?_, ?_, ?_, ?_, ?_⟩
  · intro thread woken
    by_cases waiting : (before.miners thread).phase = .waiting
    · exact step_wakes taken waiting woken
    · exact held.working thread waiting
  · intro thread block history phase
    have move := transition.miner thread
    rw [phase] at move
    cases move with
    | kept same => exact held.mining thread block history same
    | rested empty => exact absurd empty id
    | drafted selected room =>
        obtain ⟨lower, upper⟩ := held.working thread (by simp [selected])
        exact ⟨lower, upper, _, rfl⟩
    | @retried draft _ now mining =>
        obtain ⟨nonce, left⟩ := proofOfWork_block setup.sha256 { draft with timestamp := now }
        rw [left]
        exact held.mining thread draft _ mining
  · intro thread block history phase
    have move := transition.miner thread
    rw [phase] at move
    cases move with
    | kept same => exact held.mined thread block history same
    | rested empty => exact absurd empty id
    | @solved draft _ now mining success =>
        obtain ⟨nonce, left⟩ := proofOfWork_block setup.sha256 { draft with timestamp := now }
        rw [left]
        exact held.mining thread draft _ mining
  · intro frame member
    rcases transition.pipe member with old | ⟨thread, pointer, block, mined, bytes⟩
    · exact held.frames frame old
    · exact ⟨pointer, block, thread, bytes, held.mined thread block _ mined⟩
  · intro num block holds
    have move := transition.validator num
    generalize phase : after.validators num = now at move holds
    cases move with
    | kept same => exact held.held num block (same ▸ holds)
    | started | founded | dropped | reported | exited => cases holds
    | took reading member decoded =>
        cases holds
        obtain ⟨pointer, framed, thread, bytes, authored⟩ := held.frames _ member
        rw [bytes, decodeFrame_minerFrame setup.cfg.maxBlockSize_lt] at decoded
        cases decoded
        exact ⟨thread, authored⟩
    | approved earlier | removed _ earlier | appended _ earlier =>
        cases holds
        exact held.held num _ (by rw [earlier]; rfl)
    | rejected streamed =>
        cases holds
        rcases streamed with earlier | earlier
        · exact held.held num _ (by rw [earlier]; rfl)
        · exact held.held num _ (by rw [earlier]; rfl)
  · intro k lower upper
    rcases transition.ledger with same | ⟨_, _, empty, genesis⟩ | ⟨num, _, block, history, _, accepted, tip, same⟩
    · rw [same] at upper ⊢
      exact held.stored k lower upper
    · have one := (createGenesis_spec chain.chained empty genesis).2.1
      omega
    · have sealing := chain.streams num block history (.inr (.inr accepted))
      have positive := chain.founded num (accepted ▸ trivial)
      obtain ⟨_, extended, count, stored⟩ :=
        appendBlock_spec chain.chained positive sealing.padded sealing.verified tip
      rw [← same] at extended count stored
      rcases Nat.lt_or_eq_of_le (Nat.le_of_lt_succ (count ▸ upper)) with below | here
      · rw [extended.2 k below]
        exact held.stored k lower below
      · rw [here, stored]
        exact held.held num block (by rw [accepted]; rfl)

theorem SystemRun.authors (run : SystemRun setup trace final) : AuthorInvariant setup final := by
  induction run with
  | nil => exact .initial setup
  | snoc earlier taken ih => exact ih.step (SystemRun.chain earlier) taken

end

end DeiChain
