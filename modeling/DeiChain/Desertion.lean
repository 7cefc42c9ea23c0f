import DeiChain.Staffing

namespace DeiChain

open Data Systems

/-! # A pool that nobody empties

The launcher waits for ended children only in polls with low occupancy. When
every validator has ended and none was waited for, the occupancy stays high.
-/

/-- Between two polls, or in one with an occupancy that is not low. -/
def LauncherPhase.upper : LauncherPhase → Bool
  | .polling | .testing _ _ | .logging _ _ | .sleeping => true
  | _ => false

/-- No validator is left, both slots of the launcher are taken, and the pool is
at least two fifths full. -/
structure Deserted (setup : Setup) (staff : Staff setup.txs) : Prop where
  gone : staff.system.validators 1 = .exited
  idle : ∀ num, (staff.system.validators num).isRunning = false
  taken : ∀ slot, staff.launcher.validators slot ≠ 0
  phase : staff.launcher.phase.upper = true
  crowded : 2 * setup.cfg.transactionPoolSize ≤ 5 * staff.system.pool.count.toNat
  unfinished : staff.system.ledger.count < setup.cfg.blockchainBlocks

section

variable {setup : Setup} {before after final : Staff setup.txs} {event : StaffEvent}
  {trace later : List (Staff setup.txs × StaffEvent)}

section

variable {state next : State setup.txs} {action : Event} (transition : Transition setup state action next)
  (idle : ∀ num, (state.validators num).isRunning = false)

include transition idle

theorem idle_ledger : next.ledger = state.ledger := by
  cases transition with
  | @created num _ starting =>
      have ended := idle num
      rw [starting] at ended
      cases ended
  | @appended num _ _ _ accepted =>
      have ended := idle num
      rw [accepted] at ended
      cases ended
  | _ => rfl

theorem idle_count (sound : state.pool.Sound setup.cfg.transactionPoolSize) :
    state.pool.count.toNat ≤ next.pool.count.toNat := by
  rcases transition.pool with same | ⟨_, _, _, _, _, _, added⟩ | ⟨num, block, history, _, checked, _⟩
  · rw [same]
  · obtain ⟨_, _, _, room, count, _⟩ := insertTransaction_added added
    have small := setup.cfg.poolSize_lt
    rw [sound.sized] at room
    rw [count, UInt32.toNat_add, Nat.mod_eq_of_lt (by simp only [UInt32.reduceToNat]; omega)]
    exact Nat.le_succ _
  · have ended := idle num
    rw [checked] at ended
    cases ended

omit idle in
theorem gone_stays (gone : state.validators 1 = .exited) : next.validators 1 = .exited := by
  have move := transition.validator 1
  generalize next.validators 1 = phase at move
  cases move with
  | kept same => exact same.symm.trans gone
  | exited => rfl
  | started own known idle =>
      rcases idle with absent | ⟨_, other⟩
      · cases gone.symm.trans absent
      · exact absurd rfl other
  | founded before | took before | approved before | removed _ before | appended _ before
  | dropped _ before =>
      cases gone.symm.trans before
  | rejected before => rcases before with before | before <;> cases gone.symm.trans before
  | reported before => rcases before with ⟨_, before⟩ | ⟨_, _, _, before⟩ <;> cases gone.symm.trans before

end

theorem Deserted.own (deserted : Deserted setup before)
    (sound : before.system.pool.Sound setup.cfg.transactionPoolSize) {action : Event} {system : State setup.txs}
    (admitted : before.admits action = true) (taken : step setup before.system action = some system)
    (children : List (Children.Child Slot)) :
    Deserted setup ⟨system, { before.launcher with children }⟩ ∧ system.ledger = before.system.ledger := by
  have transition := step_transition taken
  have ledger := idle_ledger transition deserted.idle
  have count := idle_count transition deserted.idle sound
  have gone := gone_stays transition deserted.gone
  refine ⟨⟨gone, fun num => ?_, deserted.taken, deserted.phase, ?_, ledger ▸ deserted.unfinished⟩, ledger⟩
  · rw [← Bool.not_eq_true]
    intro running
    by_cases started : action = .start num
    · subst started
      cases of_decide_eq_true admitted
      rw [gone] at running
      cases running
    · have ran := step_isRunning taken started running
      rw [deserted.idle num] at ran
      cases ran
  · have crowded := deserted.crowded
    dsimp only
    omega

theorem Deserted.advance (deserted : Deserted setup before) {launcher : LauncherState}
    (taken : before.launcher.advance = some launcher) :
    launcher.validators = before.launcher.validators ∧ launcher.phase.upper = true := by
  have held := deserted.taken
  have upper := deserted.phase
  have after (slot : Slot) (high : Bool) : (LauncherPhase.afterSlot slot high).upper = true := by
    unfold LauncherPhase.afterSlot
    split <;> rfl
  unfold LauncherState.advance at taken
  generalize phase : before.launcher.phase = current at taken upper
  cases current with
  | testing slot high =>
      cases taken
      exact ⟨rfl, (if_neg (held slot)).symm ▸ after slot high⟩
  | logging slot high =>
      cases taken
      exact ⟨rfl, after slot high⟩
  | sleeping =>
      cases taken
      exact ⟨rfl, rfl⟩
  | polling => cases taken
  | _ => cases upper

theorem Deserted.poll (deserted : Deserted setup before) (small : setup.cfg.transactionPoolSize < 2 ^ 24)
    (sound : before.system.pool.Sound setup.cfg.transactionPoolSize) {launcher : LauncherState}
    (taken : stepLauncher before.launcher before.pollEvent = some launcher) :
    launcher.validators = before.launcher.validators ∧ launcher.phase.upper = true := by
  have most := sound.consistent.count_le
  rw [sound.sized] at most
  have high : ¬ occupancyOf before.system.pool.count.toNat setup.cfg.transactionPoolSize < sparse := by
    rw [lt_sparse_iff setup.cfg.poolPositive most small]
    exact Nat.not_lt.mpr deserted.crowded
  rw [Staff.pollEvent, if_neg (Nat.not_le.mpr deserted.unfinished)] at taken
  simp only [stepLauncher] at taken
  split at taken
  · cases taken
    refine ⟨rfl, ?_⟩
    dsimp only [LauncherState.goto]
    split <;> rfl
  · cases taken

theorem Deserted.step (deserted : Deserted setup before) (small : setup.cfg.transactionPoolSize < 2 ^ 24)
    (sound : before.system.pool.Sound setup.cfg.transactionPoolSize)
    (taken : StaffTransition before event after) :
    Deserted setup after ∧ after.system.ledger = before.system.ledger := by
  have keeps {launcher : LauncherState} (slots : launcher.validators = before.launcher.validators ∧
      launcher.phase.upper = true) : Deserted setup { before with launcher } :=
    ⟨deserted.gone, deserted.idle, fun slot => slots.1 ▸ deserted.taken slot, slots.2, deserted.crowded,
      deserted.unfinished⟩
  have unforked {slot high} : before.launcher.phase ≠ .forking slot high := by
    intro forking
    have upper := deserted.phase
    rw [forking] at upper
    cases upper
  cases taken with
  | own admitted taken => exact deserted.own sound admitted taken _
  | launcher taken polled =>
      refine ⟨keeps ?_, rfl⟩
      rcases polled with ⟨_, rfl⟩ | ⟨_, rfl⟩ | ⟨_, rfl⟩
      · exact deserted.poll small sound taken
      · unfold stepLauncher at taken
        dsimp only at taken
        split at taken
        · rename_i slot high forking
          exact absurd forking unforked
        · cases taken
      · exact deserted.advance taken
  | forked phase => exact absurd phase unforked

end

/-- From a deserted state on, with a pool whose occupancies a `float` tells from
two fifths, no block is ever added again, and the simulation does not end either. -/
theorem deserted_forever (setup : Setup) (small : setup.cfg.transactionPoolSize < 2 ^ 24)
    {trace later : List (Staff setup.txs × StaffEvent)} {staff final : Staff setup.txs}
    (run : StaffRun setup trace staff) (deserted : Deserted setup staff)
    (further : Run (stepStaff setup) staff later final) :
    Deserted setup final ∧ final.system.ledger = staff.system.ledger := by
  induction further with
  | nil => exact ⟨deserted, rfl⟩
  | snoc earlier taken ih =>
      obtain ⟨still, same⟩ := ih
      obtain ⟨_, systemRun, _⟩ := StaffRun.system (run.append earlier)
      obtain ⟨next, kept⟩ := still.step small systemRun.pool_sound (stepStaff_transition taken)
      exact ⟨next, kept.trans same⟩

/-- At four fifths both validators are forked, and all three end on their own. -/
def desertEvents : List StaffEvent :=
  [insertEvent 1, insertEvent 2, insertEvent 1, .start 1, .genesis 1].map .own ++
    [.poll, .advance, .fork true, .advance, .advance, .advance, .fork true, .advance, .advance] ++
    [Event.genesis 2, .genesis 3, .leave 3, .leave 2, .leave 1].map .own

theorem desert_executes :
    (exec (stepStaff smallSetup) (Staff.initial smallSetup) desertEvents).isSome = true := by
  decide +kernel

def desert : Staff smallSetup.txs := (exec _ _ _).get desert_executes

theorem desert_run : ∃ trace, StaffRun smallSetup trace desert :=
  let ⟨trace, run, _⟩ := exec_run_get desert_executes
  ⟨trace, run⟩

def ValidatorPhase.hasExited {n : Nat} : ValidatorPhase n → Bool
  | .exited => true
  | _ => false

theorem ValidatorPhase.eq_exited {n : Nat} {phase : ValidatorPhase n} (exited : phase.hasExited = true) :
    phase = .exited := by
  cases phase with
  | exited => rfl
  | _ => cases exited

theorem desert_deserted : Deserted smallSetup desert where
  gone := ValidatorPhase.eq_exited (by decide +kernel)
  idle num := by
    by_cases known : 1 ≤ num ∧ num ≤ 3
    · obtain rfl | rfl | rfl : num = 1 ∨ num = 2 ∨ num = 3 := by omega
      all_goals decide +kernel
    · obtain ⟨_, run⟩ := desert_run
      obtain ⟨_, systemRun, _⟩ := StaffRun.system run
      have absent : desert.system.validators num = .absent :=
        by_contra fun present => known (systemRun.validator_known num present)
      rw [absent]
      rfl
  taken slot := by cases slot <;> decide +kernel
  phase := by decide +kernel
  crowded := by decide +kernel
  unfinished := by decide +kernel

theorem deserted_forever_desert : desert.system.ledger.count = 1 ∧
    ∀ later final, Run (stepStaff smallSetup) desert later final → final.system.ledger.count = 1 := by
  have counted : desert.system.ledger.count = 1 := by decide +kernel
  refine ⟨counted, fun later final further => ?_⟩
  obtain ⟨_, run⟩ := desert_run
  obtain ⟨_, same⟩ := deserted_forever smallSetup (by decide) run desert_deserted further
  rw [same, counted]

end DeiChain
