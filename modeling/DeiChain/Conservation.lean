import DeiChain.Custody

namespace DeiChain

open Data Systems
open Systems.Custody (Place Action)

/-! # What becomes of the transactions of a block

A validator empties the slots of a block before it knows that the block will be
appended. If the ledger has moved on when it looks again, the block is dropped
and no one has its transactions any more.
-/

section

variable {setup : Setup} {before after final : State setup.txs} {event : Event}
  {trace : List (State setup.txs × Event)}

theorem generateTransaction_id_ne_nil (pid txNumber : Nat) (reward : Int32) (stack : CharArray txIdLen)
    (rand : Nat) (now : Int64) : (generateTransaction pid txNumber reward stack rand now).tx.id ≠ [] := by
  have text : (generateTransaction pid txNumber reward stack rand now).tx.id =
      (formatTxId pid txNumber).take (txIdLen - 1) :=
    cstr_snprintf stack (fun _ member => formatTxId_nonzero member) (by decide)
  rw [text]
  simp [formatTxId, txIdLen]

theorem SystemRun.issued_named (run : SystemRun setup trace final) : ∀ tx ∈ final.issued, tx.id ≠ [] := by
  refine Run.invariant (fun state => ∀ tx ∈ state.issued, tx.id ≠ []) (by simp [State.initial])
    (fun before event after held taken => ?_) run
  cases step_transition taken with
  | stored added =>
      intro tx member
      rcases List.mem_append.mp member with old | new
      · exact held tx old
      · rw [List.mem_singleton.mp new]
        exact generateTransaction_id_ne_nil _ _ _ _ _ _
  | _ => exact held

theorem SystemRun.genesis_ids (run : SystemRun setup trace final) (created : 0 < final.ledger.count)
    {id : List UInt8} (member : id ∈ (final.ledger.blocks 0).ids) : id = [] := by
  obtain ⟨nonce, left⟩ := proofOfWork_block setup.sha256 (TransactionBlock.zero setup.txs)
  rw [(run.genesis.2 created).2, left] at member
  obtain ⟨tx, txMember, rfl⟩ := List.mem_map.mp member
  change tx ∈ List.replicate setup.txs Transaction.zero at txMember
  rw [List.eq_of_mem_replicate txMember]
  decide

def State.Keeps {n : Nat} (state : State n) (tx : Transaction) : Prop :=
  (∃ slot ∈ state.pool.transactions, slot.filled = 1 ∧ slot.tx.id = tx.id) ∨
    ∃ k < state.ledger.count, tx.id ∈ (state.ledger.blocks k).ids

instance {n : Nat} (state : State n) (tx : Transaction) : Decidable (state.Keeps tx) :=
  inferInstanceAs (Decidable (_ ∨ _))

/-- No validator is between a successful pool phase and the end of its ledger phase. -/
def State.Settled {n : Nat} (state : State n) : Prop :=
  ∀ num block history, state.validators num ≠ .accepted block history

def ValidatorPhase.isAccepted {n : Nat} : ValidatorPhase n → Bool
  | .accepted _ _ => true
  | _ => false

theorem SystemRun.settled (run : SystemRun setup trace final)
    (quiet : ∀ num ∈ List.range (setup.maxValidators + 1), (final.validators num).isAccepted = false) :
    final.Settled := by
  intro num block history accepted
  have known := run.validator_known num (by simp [accepted])
  have notHere := quiet num (List.mem_range.mpr (Nat.lt_succ_of_le known.2))
  rw [accepted] at notHere
  cases notHere

/-- Every ledger phase of the run finds its block still on the tip. -/
def KeepsTips (setup : Setup) (trace : List (State setup.txs × Event)) : Prop :=
  ∀ before num now, (before, Event.ledgerPhase num now) ∈ trace →
    ∀ block history, before.validators num = .accepted block history → onTip before.ledger block = true

theorem custodyAction_lose {action : Action (List UInt8)}
    (label : custodyAction setup before event = some action) (loses : action.target = .lost) :
    (∃ num, event = .kill num) ∨ ∃ num now block history, event = .ledgerPhase num now ∧
      before.validators num = .accepted block history ∧ onTip before.ledger block = false := by
  unfold custodyAction at label
  split at label
  · dsimp only at label
    split at label
    · cases label
      cases loses
    · cases label
    · cases label
  · split at label
    · split at label
      · cases label
        cases loses
      · cases label
    · cases label
  · split at label
    · rename_i accepted
      split at label
      · cases label
        cases loses
      · rename_i stale
        exact .inr ⟨_, _, _, _, rfl, accepted, Bool.eq_false_iff.mpr stale⟩
    · cases label
  · exact .inl ⟨_, rfl⟩
  · cases label

theorem Represents.keeps_iff {place : List UInt8 → Place} (represents : Represents final place)
    (run : SystemRun setup trace final) (settled : final.Settled) {tx : Transaction}
    (member : tx ∈ final.issued) : final.Keeps tx ↔ place tx.id ≠ .lost := by
  constructor
  · intro either
    rcases either with ⟨slot, slotMember, filled, same⟩ | ⟨k, bound, inBlock⟩
    · obtain ⟨j, at_j⟩ := List.getElem?_of_mem slotMember
      rw [represents.place_eq (.pooled j) ⟨slot, at_j, by simp [filled], same⟩]
      nofun
    · cases k with
      | zero => exact absurd (run.genesis_ids bound inBlock) (run.issued_named tx member)
      | succ k =>
          rw [represents.place_eq (.committed (k + 1)) ⟨Nat.le_add_left _ _, bound, inBlock⟩]
          nofun
  · intro notLost
    have found := (represents tx.id (place tx.id) notLost).mp rfl
    cases at_place : place tx.id with
    | unissued =>
        rw [at_place] at found
        exact absurd (List.mem_map_of_mem member) found
    | pooled j =>
        rw [at_place] at found
        obtain ⟨slot, at_j, occupied, same⟩ := found
        have filled := run.pool_sound.consistent.filled_at at_j occupied
        exact .inl ⟨slot, List.mem_of_getElem? at_j, filled, same⟩
    | held num =>
        rw [at_place] at found
        obtain ⟨block, history, accepted, _⟩ := found
        exact absurd accepted (settled num block history)
    | committed k =>
        rw [at_place] at found
        exact .inr ⟨k, found.2.1, found.2.2⟩
    | lost => exact absurd at_place notLost

/-- In a run without kills, and wherever no validator is between its two
sections, every transaction ever stored is still in the pool or in the ledger
exactly when no ledger phase found its block off the tip. -/
theorem transactions_kept_iff_tips_kept (setup : Setup) {trace : List (State setup.txs × Event)}
    {final : State setup.txs} (run : SystemRun setup trace final)
    (distinct : (final.issued.map Transaction.id).Nodup)
    (noKill : ∀ entry ∈ trace, ∀ num, entry.2 ≠ .kill num) (settled : final.Settled) :
    (∀ tx ∈ final.issued, final.Keeps tx) ↔ KeepsTips setup trace := by
  obtain ⟨custodyTrace, place, custodyRun, represents, labels⟩ := run.custody distinct
  have lostIff := Custody.run_lost_iff custodyRun
  constructor
  · intro kept before num now member block history accepted
    by_contra stale
    have label : custodyAction setup before (.ledgerPhase num now) = some (.lose block.ids num) := by
      simp [custodyAction, accepted, stale]
    have inLabels : Action.lose block.ids num ∈ custodyTrace.map Prod.snd := by
      rw [labels]
      exact List.mem_filterMap.mpr ⟨_, member, label⟩
    obtain ⟨entry, entryMember, same⟩ := List.mem_map.mp inLabels
    obtain ⟨id, lost⟩ := lostIff.mpr ⟨entry, entryMember, by rw [same]; rfl⟩
    have wasIssued : id ∈ final.issued.map Transaction.id := by
      by_contra fresh
      rw [represents.place_eq .unissued fresh] at lost
      cases lost
    obtain ⟨tx, txMember, rfl⟩ := List.mem_map.mp wasIssued
    exact (represents.keeps_iff run settled txMember).mp (kept tx txMember) lost
  · intro tips tx member
    rw [represents.keeps_iff run settled member]
    intro lost
    obtain ⟨entry, entryMember, loses⟩ := lostIff.mp ⟨tx.id, lost⟩
    have inLabels : entry.2 ∈ trace.filterMap fun entry => custodyAction setup entry.1 entry.2 := by
      rw [← labels]
      exact List.mem_map_of_mem entryMember
    obtain ⟨⟨before, event⟩, stepMember, label⟩ := List.mem_filterMap.mp inLabels
    rcases custodyAction_lose label loses with
      ⟨num, same⟩ | ⟨num, now, block, history, same, accepted, stale⟩
    · exact noKill _ stepMember num same
    · dsimp only at same
      subst same
      rw [tips before num now stepMember block history accepted] at stale
      cases stale

end

def Event.isKill : Event → Bool
  | .kill _ => true
  | _ => false

theorem noKill_of_events {setup : Setup} {trace : List (State setup.txs × Event)} {events : List Event}
    (recorded : trace.map Prod.snd = events) (none : events.all (fun event => !event.isKill) = true) :
    ∀ entry ∈ trace, ∀ num, entry.2 ≠ .kill num := by
  intro entry member num same
  have notKill := all_of_events _ recorded none entry member
  rw [same] at notKill
  cases notKill

theorem transactions_kept_after_first_block : ∃ trace, SystemRun smallSetup trace firstBlock ∧
    (∀ tx ∈ firstBlock.issued, firstBlock.Keeps tx) ∧ KeepsTips smallSetup trace := by
  obtain ⟨trace, run, events⟩ := firstBlock_run
  have kept : ∀ tx ∈ firstBlock.issued, firstBlock.Keeps tx := by decide +kernel
  have law := transactions_kept_iff_tips_kept smallSetup run (by decide +kernel)
    (noKill_of_events events (by decide)) (SystemRun.settled run (by decide +kernel))
  exact ⟨trace, run, kept, law.mp kept⟩

/-- After a first block both threads mine on the same tip, and both validators
finish their pool phases before either enters its ledger phase. -/
def raceEvents : List Event :=
  [insertEvent 1, insertEvent 2, insertEvent 2, .start 1, .genesis 1, .start 2, .genesis 2] ++
    mineEvents 1 [0] ++ validateEvents 1 ++ mineEvents 1 [1] ++ mineEvents 2 [2] ++
    [.read 1 [], .read 2 [], .examine 1, .examine 2, .poolPhase 1, .poolPhase 2, .ledgerPhase 1 0,
      .report 1, .ledgerPhase 2 0]

theorem race_executes : (exec (step smallSetup) (State.initial smallSetup) raceEvents).isSome = true := by
  decide +kernel

theorem race_loses_transaction : ∃ trace final, SystemRun smallSetup trace final ∧
    (final.issued.map Transaction.id).Nodup ∧ (∀ entry ∈ trace, ∀ num, entry.2 ≠ .kill num) ∧
    final.Settled ∧ ∃ tx ∈ final.issued, ¬ final.Keeps tx := by
  obtain ⟨trace, run, events⟩ := exec_run_get race_executes
  exact ⟨trace, _, run, by decide +kernel, noKill_of_events events (by decide),
    SystemRun.settled run (by decide +kernel), by decide +kernel⟩

end DeiChain
