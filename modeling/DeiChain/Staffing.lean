import DeiChain.Bookkeeping
import DeiChain.Occupancy
import DeiChain.Systems.Attainment

namespace DeiChain

open Data Systems
open Systems.Children (Running)

/-! # The launcher among the other processes

The launcher reads the pool and the ledger, and its children are validators 2
and 3. Before the shutdown nobody else signals a validator.
-/

def Slot.num : Slot → Nat
  | .first => 2
  | .second => 3

def ValidatorPhase.isRunning {n : Nat} : ValidatorPhase n → Bool
  | .absent | .exited => false
  | _ => true

structure Staff (n : Nat) where
  system : State n
  launcher : LauncherState

def Staff.initial (setup : Setup) : Staff setup.txs := ⟨State.initial setup, .initial⟩

/-- `own` is a step of a process other than the launcher. -/
inductive StaffEvent where
  | own (event : Event)
  | poll
  | fork (success : Bool)
  | advance
deriving DecidableEq

/-- The validators of the launcher are started by it, and end of SIGTERM only
when it has sent one. -/
def Staff.admits {n : Nat} (staff : Staff n) : Event → Bool
  | .start num => num = 1
  | .kill num => staff.launcher.children.any fun child =>
      child.role.num = num && child.status = .running && child.signalled
  | _ => true

def State.ended {n : Nat} (state : State n) (slot : Slot) : Bool := !(state.validators slot.num).isRunning

/-- What the launcher finds at the top of its loop. -/
def Staff.pollEvent {setup : Setup} (staff : Staff setup.txs) : LauncherEvent :=
  if setup.cfg.blockchainBlocks ≤ staff.system.ledger.count then .full
  else .poll (occupancyOf staff.system.pool.count.toNat setup.cfg.transactionPoolSize)

def stepStaff (setup : Setup) (staff : Staff setup.txs) : StaffEvent → Option (Staff setup.txs)
  | .own event =>
      if staff.admits event then
        (step setup staff.system event).map fun system =>
          ⟨system, { staff.launcher with children := Children.settle system.ended staff.launcher.children }⟩
      else none
  | .poll => (stepLauncher staff.launcher staff.pollEvent).map fun launcher => { staff with launcher }
  | .fork false => (stepLauncher staff.launcher (.fork false)).map fun launcher => { staff with launcher }
  | .fork true =>
      match staff.launcher.phase with
      | .forking slot _ =>
          (stepLauncher staff.launcher (.fork true)).bind fun launcher =>
            (step setup staff.system (.start slot.num)).map fun system => ⟨system, launcher⟩
      | _ => none
  | .advance => (stepLauncher staff.launcher .advance).map fun launcher => { staff with launcher }

abbrev StaffRun (setup : Setup) (trace : List (Staff setup.txs × StaffEvent)) (final : Staff setup.txs) :
    Prop :=
  Run (stepStaff setup) (Staff.initial setup) trace final

variable {n : Nat}

section

variable {setup : Setup} {before after final : Staff setup.txs} {event : StaffEvent}
  {trace : List (Staff setup.txs × StaffEvent)}

/-- A step is one of the other processes, one of the launcher, or a fork, which is one of both. -/
inductive StaffTransition (before : Staff setup.txs) : StaffEvent → Staff setup.txs → Prop where
  | own {event system} (admitted : before.admits event = true)
      (taken : step setup before.system event = some system) :
      StaffTransition before (.own event)
        ⟨system, { before.launcher with children := Children.settle system.ended before.launcher.children }⟩
  | launcher {event launched launcher} (taken : stepLauncher before.launcher launched = some launcher)
      (polled : event = .poll ∧ launched = before.pollEvent ∨ event = .fork false ∧ launched = .fork false ∨
        event = .advance ∧ launched = .advance) :
      StaffTransition before event { before with launcher }
  | forked {slot high launcher system} (phase : before.launcher.phase = .forking slot high)
      (forked : stepLauncher before.launcher (.fork true) = some launcher)
      (started : step setup before.system (.start slot.num) = some system) :
      StaffTransition before (.fork true) ⟨system, launcher⟩

theorem stepStaff_transition (taken : stepStaff setup before event = some after) :
    StaffTransition before event after := by
  cases event with
  | own event =>
      simp only [stepStaff] at taken
      split at taken
      · rename_i admitted
        obtain ⟨system, stepped, rfl⟩ := Option.map_eq_some_iff.mp taken
        exact .own admitted stepped
      · cases taken
  | poll =>
      obtain ⟨launcher, stepped, rfl⟩ := Option.map_eq_some_iff.mp taken
      exact .launcher stepped (.inl ⟨rfl, rfl⟩)
  | fork success =>
      cases success with
      | false =>
          obtain ⟨launcher, stepped, rfl⟩ := Option.map_eq_some_iff.mp taken
          exact .launcher stepped (.inr (.inl ⟨rfl, rfl⟩))
      | true =>
          simp only [stepStaff] at taken
          split at taken
          · rename_i slot high phase
            obtain ⟨launcher, forked, rest⟩ := Option.bind_eq_some_iff.mp taken
            obtain ⟨system, started, rfl⟩ := Option.map_eq_some_iff.mp rest
            exact .forked phase forked started
          · cases taken
  | advance =>
      obtain ⟨launcher, stepped, rfl⟩ := Option.map_eq_some_iff.mp taken
      exact .launcher stepped (.inr (.inr ⟨rfl, rfl⟩))

/-- Children that end in one step have ended one after the other. -/
theorem settle_reaches (ended : Slot → Bool) (launcher : LauncherState) :
    Reaches stepLauncher launcher
      { launcher with children := Children.settle ended launcher.children } := by
  have closer : ∀ state : LauncherState, (state.validators = launcher.validators ∧
        state.phase = launcher.phase ∧
        Children.settle ended state.children = Children.settle ended launcher.children) →
      Children.settle ended state.children ≠ state.children → ∃ next, Reaches stepLauncher state next ∧
        (next.validators = launcher.validators ∧ next.phase = launcher.phase ∧
          Children.settle ended next.children = Children.settle ended launcher.children) ∧
        (next.children.countP fun child => child.status = .running) <
          state.children.countP fun child => child.status = .running := by
    intro state ⟨validators, phase, same⟩ unsettled
    obtain ⟨index, children, exits, settles, fewer⟩ := Children.settle_exit unsettled
    have taken : stepLauncher state (.exit (Children.pid index)) = some { state with children } := by
      rw [stepLauncher, exits]
      rfl
    exact ⟨_, .next (.refl state) taken, ⟨validators, phase, settles.trans same⟩, fewer⟩
  obtain ⟨final, reached, ⟨validators, phase, same⟩, settled⟩ :=
    Reaches.descend _ _ _ closer ⟨rfl, rfl, rfl⟩
  have whole : final = { launcher with children := Children.settle ended launcher.children } := by
    cases final
    cases validators
    cases phase
    cases settled.symm.trans same
    rfl
  exact whole ▸ reached

/-- The step of the system that a step of the whole contains. -/
def Staff.systemEvent {n : Nat} (staff : Staff n) : StaffEvent → Option Event
  | .own event => some event
  | .fork true => match staff.launcher.phase with
      | .forking slot _ => some (.start slot.num)
      | _ => none
  | _ => none

theorem StaffTransition.system (taken : StaffTransition before event after) :
    (before.systemEvent event = none ∧ after.system = before.system) ∨
      ∃ action, before.systemEvent event = some action ∧
        step setup before.system action = some after.system := by
  cases taken with
  | own admitted taken => exact .inr ⟨_, rfl, taken⟩
  | launcher taken polled =>
      left
      rcases polled with ⟨rfl, _⟩ | ⟨rfl, _⟩ | ⟨rfl, _⟩ <;> exact ⟨rfl, rfl⟩
  | forked phase forked started =>
      refine .inr ⟨_, ?_, started⟩
      simp only [Staff.systemEvent, phase]

theorem StaffRun.system (run : StaffRun setup trace final) :
    ∃ events, SystemRun setup events final.system ∧
      events.map Prod.snd = trace.filterMap fun entry => entry.1.systemEvent entry.2 := by
  have simulated : ∃ events state, SystemRun setup events state ∧ final.system = state ∧
      events.map Prod.snd = trace.filterMap fun entry => entry.1.systemEvent entry.2 := by
    refine run.simulates (fun staff state => staff.system = state) Staff.systemEvent rfl
      (fun entry _ after state held taken silent => ?_)
      (fun entry _ after state action held taken labelled => ?_)
    · rcases (stepStaff_transition taken).system with ⟨_, same⟩ | ⟨action, own, _⟩
      · exact same.trans held
      · rw [silent] at own
        cases own
    · rcases (stepStaff_transition taken).system with ⟨none, _⟩ | ⟨_, own, stepped⟩
      · rw [none] at labelled
        cases labelled
      · cases own.symm.trans labelled
        exact ⟨_, held ▸ stepped, rfl⟩
  obtain ⟨events, state, systemRun, rfl, labels⟩ := simulated
  exact ⟨events, systemRun, labels⟩

theorem StaffRun.launcher (run : StaffRun setup trace final) :
    ∃ launched, LauncherRun launched final.launcher := by
  induction run with
  | nil => exact ⟨[], .nil⟩
  | snoc earlier taken ih =>
      have reached : Reaches stepLauncher LauncherState.initial _ := ih
      cases stepStaff_transition taken with
      | own admitted stepped => exact reached.trans (settle_reaches _ _)
      | launcher stepped polled => exact reached.next stepped
      | forked phase forked started => exact reached.next forked

theorem StaffRun.located (run : StaffRun setup trace final) : Located final.launcher := by
  obtain ⟨launched, launcherRun⟩ := StaffRun.launcher run
  exact Run.invariant Located Located.initial (fun _ _ _ held taken => held.step taken) launcherRun

theorem Located.unique {state : LauncherState} (located : Located state) {slot : Slot} {first second : Nat}
    (left : Children.Unreaped state.children first slot)
    (right : Children.Unreaped state.children second slot) : first = second := by
  have nonzero (index : Nat) : (0 : Int) ≠ Children.pid index := Int.ne_of_lt (Children.pid_pos index)
  rcases located.children first slot left with storedLeft | ⟨high, storingLeft⟩ <;>
    rcases located.children second slot right with storedRight | ⟨other, storingRight⟩
  · exact Children.pid_injective (storedLeft.symm.trans storedRight)
  · rw [located.awaited slot other _ storingRight] at storedLeft
    exact absurd storedLeft (nonzero first)
  · rw [located.awaited slot high _ storingLeft] at storedRight
    exact absurd storedRight (nonzero second)
  · have same := storingLeft.symm.trans storingRight
    simp only [LauncherPhase.storing.injEq] at same
    exact Children.pid_injective same.2.2

theorem stepLauncher_running {state next : LauncherState} {launched : LauncherEvent}
    (taken : stepLauncher state launched = some next) (forkless : launched ≠ .fork true)
    (exitless : ∀ pid, launched ≠ .exit pid) {index : Nat} {slot : Slot} :
    Running next.children index slot ↔ Running state.children index slot := by
  cases launched with
  | exit pid => exact absurd rfl (exitless pid)
  | full | poll =>
      simp only [stepLauncher] at taken
      split at taken <;> cases taken
      exact Iff.rfl
  | fork success =>
      cases success with
      | true => exact absurd rfl forkless
      | false =>
          simp only [stepLauncher] at taken
          split at taken <;> cases taken
          exact Iff.rfl
  | advance =>
      have poked (i : Slot) (sweep : Bool) :
          Running (state.poke i sweep).children index slot ↔ Running state.children index slot := by
        unfold LauncherState.poke
        split
        · rename_i children terminated
          exact Children.running_waitpid terminated
        · exact Iff.rfl
      simp only [stepLauncher, LauncherState.advance] at taken
      split at taken
      case h_4 i phase =>
        split at taken
        · split at taken
          · rename_i children killed
            cases taken
            exact Children.running_kill killed
          · cases taken
            exact Iff.rfl
        · cases taken
          exact Iff.rfl
      case h_5 i phase =>
        cases taken
        exact poked i false
      case h_6 i phase =>
        split at taken <;> cases taken
        · exact poked i true
        · exact Iff.rfl
      all_goals cases taken
      all_goals exact Iff.rfl

/-- No process but one that is started begins to run. -/
theorem step_isRunning {state next : State setup.txs} {event : Event} {num : Nat}
    (taken : step setup state event = some next) (other : event ≠ .start num)
    (running : (next.validators num).isRunning = true) : (state.validators num).isRunning = true := by
  have move := (step_transition taken).validator num
  generalize next.validators num = phase at move running
  cases move with
  | kept same => exact same ▸ running
  | started own => exact absurd own other
  | exited => cases running
  | founded before | took before | approved before | removed _ before | appended _ before
  | dropped _ before =>
      rw [before]
      rfl
  | rejected before => rcases before with before | before <;> rw [before] <;> rfl
  | reported before =>
      rcases before with ⟨_, before⟩ | ⟨_, _, _, before⟩ <;> rw [before] <;> rfl

/-- A validator of the launcher runs while the launcher has a running child for it. -/
def Matched (staff : Staff n) : Prop :=
  ∀ slot, (staff.system.validators slot.num).isRunning = true ↔
    ∃ index, Running staff.launcher.children index slot

theorem Slot.num_ne_one (slot : Slot) : slot.num ≠ 1 := by
  cases slot <;> decide

theorem Slot.num_injective {slot other : Slot} (same : slot.num = other.num) : slot = other := by
  cases slot <;> cases other <;> first | rfl | cases same

theorem Matched.step (matched : Matched before) (taken : StaffTransition before event after) :
    Matched after := by
  intro slot
  cases taken with
  | @own event system admitted taken =>
      have notStart : event ≠ .start slot.num := by
        intro same
        subst same
        exact slot.num_ne_one (of_decide_eq_true admitted)
      have settled (index : Nat) : Running (Children.settle system.ended before.launcher.children) index slot ↔
          Running before.launcher.children index slot ∧ (system.validators slot.num).isRunning = true := by
        rw [Children.running_settle, State.ended, Bool.not_eq_false']
      simp only [settled]
      constructor
      · intro running
        obtain ⟨index, child⟩ := (matched slot).mp (step_isRunning taken notStart running)
        exact ⟨index, child, running⟩
      · intro given
        obtain ⟨_, _, running⟩ := given
        exact running
  | @launcher _ launched _ taken polled =>
      have plain : launched ≠ .fork true ∧ ∀ pid, launched ≠ .exit pid := by
        rcases polled with ⟨_, rfl⟩ | ⟨_, rfl⟩ | ⟨_, rfl⟩
        · unfold Staff.pollEvent
          split <;> exact ⟨nofun, nofun⟩
        · exact ⟨nofun, nofun⟩
        · exact ⟨nofun, nofun⟩
      simp only [stepLauncher_running taken plain.1 plain.2]
      exact matched slot
  | @forked own high launcher system phase forked started =>
      have children : launcher.children = Children.fork before.launcher.children own := by
        simp only [stepLauncher, phase, if_true, Option.some.injEq] at forked
        rw [← forked]
      have starting : system = before.system.withValidator own.num .starting := by
        cases step_transition started with
        | rested acts => cases acts
        | started => rfl
      rw [starting, children]
      simp only [Children.running_fork, State.withValidator_validators]
      by_cases same : slot = own
      · subst same
        rw [if_pos rfl]
        exact iff_of_true rfl ⟨_, .inr ⟨rfl, rfl⟩⟩
      · rw [if_neg fun nums => same (Slot.num_injective nums)]
        simp only [Ne.symm same, and_false, or_false]
        exact matched slot

theorem StaffRun.matched (run : StaffRun setup trace final) : Matched final := by
  refine Run.invariant Matched (fun slot => ?_)
    (fun _ _ _ matched taken => matched.step (stepStaff_transition taken)) run
  refine iff_of_false nofun ?_
  intro given
  obtain ⟨index, child, found, _⟩ := given
  cases found

end

/-- The launcher and the other processes each run as they do alone, a validator
that the launcher forks finds the earlier one of its number ended, and no two
processes ever run under one number. -/
theorem one_validator_a_number (setup : Setup) (known : 3 ≤ setup.maxValidators)
    {trace : List (Staff setup.txs × StaffEvent)} {final : Staff setup.txs} (run : StaffRun setup trace final) :
    (∃ events, SystemRun setup events final.system ∧
        events.map Prod.snd = trace.filterMap fun entry => entry.1.systemEvent entry.2) ∧
      (∃ launched, LauncherRun launched final.launcher) ∧
      (∀ slot, (final.system.validators slot.num).isRunning = true ↔
        ∃ index, Running final.launcher.children index slot) ∧
      (∀ slot left right, Running final.launcher.children left slot →
        Running final.launcher.children right slot → left = right) ∧
      ∀ slot high, final.launcher.phase = .forking slot high →
        (stepStaff setup final (.fork true)).isSome = true := by
  have located := run.located
  have matched := run.matched
  refine ⟨run.system, run.launcher, matched, fun slot left right first second =>
    located.unique first.unreaped second.unreaped, fun slot high forking => ?_⟩
  have idle : (final.system.validators slot.num).isRunning = false := by
    rw [← Bool.not_eq_true, matched slot]
    intro given
    obtain ⟨index, running⟩ := given
    rcases located.children index slot running.unreaped with stored | ⟨other, storing⟩
    · rw [located.vacant slot high forking] at stored
      exact absurd stored (Int.ne_of_lt (Children.pid_pos index))
    · cases forking.symm.trans storing
  have numbered : 1 ≤ slot.num ∧ slot.num ≤ setup.maxValidators := by
    cases slot <;> simp only [Slot.num] <;> omega
  obtain ⟨system, started⟩ : ∃ system, step setup final.system (.start slot.num) = some system := by
    simp only [step, stepStart, if_pos numbered]
    generalize final.system.validators slot.num = phase at idle
    cases phase with
    | absent => exact ⟨_, rfl⟩
    | exited => exact ⟨_, if_neg slot.num_ne_one⟩
    | _ => cases idle
  simp [stepStaff, stepLauncher, forking, started]

/-- Validator 2 is forked, ends on its own, is waited for in a poll with low
occupancy, and the pool fills up again. -/
def relaunchEvents : List StaffEvent :=
  [insertEvent 1, insertEvent 2, .start 1, .genesis 1].map .own ++
    [.poll, .advance, .fork true, .advance, .advance, .own (.genesis 2), .own (.leave 2)] ++
    (mineEvents 1 [0] ++ validateEvents 1).map .own ++ [.advance, .poll] ++ List.replicate 6 .advance ++
    [.advance, .own (insertEvent 1), .poll, .advance]

theorem relaunch_executes :
    (exec (stepStaff smallSetup) (Staff.initial smallSetup) relaunchEvents).isSome = true := by
  decide +kernel

def relaunched : Staff smallSetup.txs := (exec _ _ _).get relaunch_executes

theorem relaunched_run : ∃ trace, StaffRun smallSetup trace relaunched :=
  let ⟨trace, run, _⟩ := exec_run_get relaunch_executes
  ⟨trace, run⟩

theorem one_validator_a_number_relaunched :
    (stepStaff smallSetup relaunched (.fork true)).isSome = true ∧ relaunched.launcher.children.length = 1 := by
  obtain ⟨_, run⟩ := relaunched_run
  have forking : relaunched.launcher.phase = .forking .first false := by decide +kernel
  obtain ⟨_, _, _, _, forks⟩ := one_validator_a_number smallSetup (by decide) run
  exact ⟨forks .first false forking, by decide +kernel⟩

end DeiChain
