import DeiChain.Bookkeeping
import DeiChain.Systems.Since
import Mathlib.Algebra.Order.Floor.Div
import Mathlib.GroupTheory.GroupAction.Ring

namespace DeiChain

open Data Systems

/-! # Ages and rewards over whole runs

Between two steps of a run no process is inside a section of the pool.
-/

/-- The step stores a new transaction in slot `j`. -/
def StoresAt (setup : Setup) (j : Nat) (entry : State setup.txs × Event) : Prop :=
  ∃ gen stack rand now pool, entry.2 = .insert gen stack rand now ∧
    insertTransaction entry.1.pool (newTransaction setup entry.1 gen stack rand now) = .added j pool

/-- The step is a pool phase that succeeds, of whichever validator. -/
def phaseSucceeds {n : Nat} (entry : State n × Event) : Bool :=
  match entry.2 with
  | .poolPhase num =>
      match entry.1.validators num with
      | .checked block _ => (poolPhase entry.1.pool block).isSome
      | _ => false
  | _ => false

def successes {n : Nat} (steps : List (State n × Event)) : Nat := steps.countP phaseSucceeds

/-- `slot` holds what `new` brought, `phases` aging steps later. -/
structure AgedBy (new slot : PendingTransaction) (phases : Nat) : Prop where
  content : slot.content = new.content
  age : phases < 2 ^ 32 → slot.age.toNat = phases
  reward : phases < 2 ^ 32 → slot.tx.reward.toInt = new.tx.reward.toInt + (phases ⌈/⌉ 50 : Nat)

theorem ceilDiv_succ (phases : Nat) :
    (phases + 1) ⌈/⌉ 50 = phases ⌈/⌉ 50 + if phases % 50 = 0 then 1 else 0 := by
  rw [Nat.ceilDiv_eq_add_pred_div, Nat.ceilDiv_eq_add_pred_div]
  split <;> omega

theorem ceilDiv_small {phases : Nat} (bound : phases < 2 ^ 32) : phases ⌈/⌉ 50 < 2 ^ 30 := by
  rw [Nat.ceilDiv_eq_add_pred_div]
  omega

theorem int32_succ {value : Int32} (low : 0 ≤ value.toInt) (high : value.toInt < 2 ^ 31 - 1) :
    (value + 1).toInt = value.toInt + 1 := by
  rw [Int32.toInt_add]
  exact Int.bmod_eq_of_le (by change _ ≤ value.toInt + 1; omega) (by change value.toInt + 1 < _; omega)

section

variable {new slot : PendingTransaction} {phases : Nat}

theorem AgedBy.start (fresh : new.age = 0) : AgedBy new new 0 where
  content := rfl
  age := by simp [fresh]
  reward := by simp

theorem AgedBy.aged (low : 1 ≤ new.tx.reward) (high : new.tx.reward ≤ 3) (filled : slot.filled = 1)
    (held : AgedBy new slot phases) : AgedBy new slot.aged (phases + 1) where
  content := by
    rw [← held.content]
    simp [PendingTransaction.content]
  age := by
    intro bound
    have before := held.age (Nat.lt_of_succ_lt bound)
    rw [PendingTransaction.aged, if_pos filled]
    dsimp only
    rw [UInt32.toNat_add, before]
    exact Nat.mod_eq_of_lt bound
  reward := by
    intro bound
    have age := held.age (Nat.lt_of_succ_lt bound)
    have reward := held.reward (Nat.lt_of_succ_lt bound)
    have small := ceilDiv_small (Nat.lt_of_succ_lt bound)
    have atLeast : 1 ≤ new.tx.reward.toInt := Int32.le_iff_toInt_le.mp low
    have atMost : new.tx.reward.toInt ≤ 3 := Int32.le_iff_toInt_le.mp high
    have stepped : slot.age % 50 = 0 ↔ phases % 50 = 0 := by
      rw [← UInt32.toNat_inj, UInt32.toNat_mod, age]
      rfl
    rw [PendingTransaction.aged, if_pos filled, ceilDiv_succ]
    dsimp only
    by_cases round : phases % 50 = 0
    · rw [if_pos (stepped.mpr round), if_pos round, int32_succ (by omega) (by omega), reward]
      push_cast
      omega
    · rw [if_neg (mt stepped.mp round), if_neg round, reward]
      rfl

end

theorem newTransaction_reward (setup : Setup) (state : State setup.txs) (gen : Nat)
    (stack : CharArray txIdLen) (rand : Nat) (now : Int64) :
    (newTransaction setup state gen stack rand now).tx.reward = (setup.txGens gen).reward := rfl

/-- Where a filled slot comes from: it was stored by the step, or it was there
before and aged exactly if the step is a successful pool phase. -/
inductive SlotMove (setup : Setup) (before : State setup.txs) (event : Event) (j : Nat) :
    PendingTransaction → Prop where
  | stored {gen stack rand now} (own : event = .insert gen stack rand now)
      (stores : StoresAt setup j (before, event)) :
      SlotMove setup before event j (newTransaction setup before gen stack rand now)
  | kept {slot} (here : before.pool.transactions[j]? = some slot)
      (elsewhere : ¬ StoresAt setup j (before, event)) (quiet : phaseSucceeds (before, event) = false) :
      SlotMove setup before event j slot
  | aged {slot} (here : before.pool.transactions[j]? = some slot) (filled : slot.filled ≠ 0)
      (elsewhere : ¬ StoresAt setup j (before, event)) (success : phaseSucceeds (before, event) = true) :
      SlotMove setup before event j slot.aged

section

variable {setup : Setup} {before after final : State setup.txs} {event : Event} {j : Nat}
  {slot : PendingTransaction} {trace : List (State setup.txs × Event)}

theorem not_storesAt (other : ∀ gen stack rand now, event ≠ .insert gen stack rand now) :
    ¬ StoresAt setup j (before, event) := by
  intro given
  obtain ⟨gen, stack, rand, now, _, own, _⟩ := given
  exact other gen stack rand now own

theorem phaseSucceeds_other (other : ∀ num, event ≠ .poolPhase num) :
    phaseSucceeds (before, event) = false := by
  cases event with
  | poolPhase num => exact absurd rfl (other num)
  | _ => rfl

theorem Transition.slotMove (taken : Transition setup before event after)
    (at_j : after.pool.transactions[j]? = some slot) (filled : slot.filled ≠ 0) :
    SlotMove setup before event j slot := by
  cases taken with
  | refused full =>
      refine .kept at_j ?_ rfl
      intro given
      obtain ⟨gen, stack, rand, now, pool, own, added⟩ := given
      cases own
      exact full _ _ added
  | @stored gen stack rand now i pool added =>
      obtain ⟨old, at_i, _, _, _, slots⟩ := insertTransaction_added added
      dsimp only at at_j
      rw [slots] at at_j
      by_cases same : i = j
      · subst same
        rw [List.getElem?_set_self (List.getElem?_eq_some_iff.mp at_i).1] at at_j
        cases at_j
        exact .stored rfl ⟨gen, stack, rand, now, pool, rfl, added⟩
      · rw [List.getElem?_set_ne same] at at_j
        refine .kept at_j ?_ rfl
        intro given
        obtain ⟨_, _, _, _, _, own, other⟩ := given
        cases own
        exact same (Insertion.added.inj (added.symm.trans other)).1
  | removed checked passed =>
      obtain ⟨old, here, occupied, rfl⟩ := poolPhase_filled passed at_j filled
      exact .aged here occupied (not_storesAt (by simp)) (by simp [phaseSucceeds, checked, passed])
  | unmatched checked failed =>
      exact .kept at_j (not_storesAt (by simp)) (by simp [phaseSucceeds, checked, failed])
  | rested own =>
      refine .kept at_j (not_storesAt fun _ _ _ _ insert => ?_) (phaseSucceeds_other fun _ phase => ?_)
      · cases insert ▸ own
      · cases phase ▸ own
  | _ => exact .kept at_j (not_storesAt (by simp)) rfl

/-- Every filled slot was stored by a step that no later one repeats on it, and
has aged once for each pool phase that succeeded since. -/
theorem SystemRun.aged (run : SystemRun setup trace final)
    (at_j : final.pool.transactions[j]? = some slot) (filled : slot.filled ≠ 0) :
    ∃ before gen stack rand now later,
      Since (StoresAt setup j) trace (before, .insert gen stack rand now) later ∧
      AgedBy (newTransaction setup before gen stack rand now) slot (successes later) := by
  induction run generalizing slot with
  | nil =>
      have empty := List.eq_of_mem_replicate (List.mem_of_getElem? at_j)
      subst empty
      exact absurd rfl filled
  | @snoc trace before event after earlier taken ih =>
      cases (step_transition taken).slotMove at_j filled with
      | stored own stores =>
          subst own
          exact ⟨_, _, _, _, _, [], .now stores, .start rfl⟩
      | kept here elsewhere quiet =>
          obtain ⟨stored, gen, stack, rand, now, later, since, held⟩ := ih here filled
          refine ⟨stored, gen, stack, rand, now, later ++ [(before, event)], since.snoc elsewhere, ?_⟩
          simpa [successes, quiet] using held
      | aged here occupied elsewhere success =>
          obtain ⟨stored, gen, stack, rand, now, later, since, held⟩ := ih here occupied
          refine ⟨stored, gen, stack, rand, now, later ++ [(before, event)], since.snoc elsewhere, ?_⟩
          have flag := (SystemRun.pool_sound earlier).consistent.filled_at here occupied
          have args := newTransaction_reward setup stored gen stack rand now
          have next := held.aged (args ▸ (setup.txGens gen).rewardLow) (args ▸ (setup.txGens gen).rewardHigh) flag
          simpa [successes, success] using next

/-- The age of a filled slot counts the pool phases that succeeded since the
insertion that filled it, and the reward has grown by one for every fifty of
them begun. -/
theorem aging_law (setup : Setup) {trace : List (State setup.txs × Event)} {final : State setup.txs}
    (run : SystemRun setup trace final) (j : Nat) (slot : PendingTransaction)
    (at_j : final.pool.transactions[j]? = some slot) (filled : slot.filled ≠ 0) :
    (∃ entry later, Since (StoresAt setup j) trace entry later) ∧
      ∀ before gen stack rand now later,
        Since (StoresAt setup j) trace (before, .insert gen stack rand now) later →
        slot.content = (newTransaction setup before gen stack rand now).content ∧
        (successes later < 2 ^ 32 → slot.age.toNat = successes later ∧
          slot.tx.reward.toInt = (setup.txGens gen).reward.toInt + (successes later ⌈/⌉ 50 : Nat)) := by
  obtain ⟨stored, gen, stack, rand, now, later, since, held⟩ := run.aged at_j filled
  refine ⟨⟨_, _, since⟩, ?_⟩
  intro before otherGen otherStack otherRand otherNow otherLater also
  obtain ⟨same, sameLater⟩ := since.unique also
  cases same
  subst sameLater
  exact ⟨held.content, fun bound => ⟨held.age bound, held.reward bound⟩⟩

/-- The second transaction of `firstBlock` has seen one pool phase, its first. -/
theorem aging_law_after_first_block : ∃ trace before gen stack rand now later slot,
    SystemRun smallSetup trace firstBlock ∧
    Since (StoresAt smallSetup 1) trace (before, .insert gen stack rand now) later ∧
    firstBlock.pool.transactions[1]? = some slot ∧ successes later = 1 ∧ slot.age.toNat = 1 ∧
    slot.tx.reward.toInt = (smallSetup.txGens gen).reward.toInt + 1 := by
  obtain ⟨trace, run, events⟩ := firstBlock_run
  have inPool : ((firstBlock.pool.transactions[1]?).map fun slot => (slot.filled, slot.age)) = some (1, 1) := by
    decide +kernel
  obtain ⟨slot, at_slot, same⟩ := Option.map_eq_some_iff.mp inPool
  obtain ⟨filled, age⟩ := Prod.mk.inj same
  have occupied : slot.filled ≠ 0 := by
    rw [filled]
    decide
  obtain ⟨⟨⟨before, event⟩, later, since⟩, aged⟩ := aging_law smallSetup run 1 slot at_slot occupied
  obtain ⟨gen, stack, rand, now, _, own, _⟩ := since.marked
  dsimp only at own
  subst own
  have few : successes later < 2 ^ 32 := by
    obtain ⟨earlier, split⟩ := since.split
    have length := congrArg List.length events
    have count : successes later ≤ later.length := List.countP_le_length
    rw [List.length_map, split, List.length_append, List.length_cons] at length
    change _ = 15 at length
    omega
  obtain ⟨ages, reward⟩ := (aged _ _ _ _ _ _ since).2 few
  have once : successes later = 1 := by rw [← ages, age]; rfl
  rw [once] at ages reward
  exact ⟨trace, before, gen, stack, rand, now, later, slot, run, since, at_slot, once, ages, reward⟩

end

end DeiChain
