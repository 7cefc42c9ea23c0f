import DeiChain.Launcher

namespace DeiChain

open Systems
open Systems.Children (Child Unreaped pid)

/-! # The end of the extra validators

`cleanup` signals and waits for the validators in the two slots, and only then
cancels and joins the thread that fills the slots.
-/

/-- Where the main thread is in `cleanup`, up to the join of the launcher. -/
inductive CleanupPhase where
  | idle
  | signalling (i : Slot)
  | waiting (i : Slot)
  | waitingFor (i : Slot) (pid : Int)
  | cancelling
  | joining
  | passed
deriving DecidableEq

structure CleanupState where
  launcher : LauncherState
  cleanup : CleanupPhase
  cancelRequested : Bool

def CleanupState.initial : CleanupState := ⟨.initial, .idle, false⟩

/-- `cancel` is the cancellation taking effect. -/
inductive CleanupEvent where
  | launcher (event : LauncherEvent)
  | cancel
  | proceed
deriving DecidableEq

/-- The phases with a cancellation point before the next access to a slot:
`log_info`, `waitpid`, `sleep` or `pthread_testcancel`. -/
def LauncherPhase.cancellable : LauncherPhase → Bool
  | .polling | .testing _ _ | .storing _ _ _ | .ended => false
  | _ => true

def CleanupPhase.afterSignal (i : Slot) : CleanupPhase :=
  if i = .first then .signalling .second else .waiting .first

def CleanupPhase.afterWait (i : Slot) : CleanupPhase :=
  if i = .first then .waiting .second else .cancelling

section

variable (state : CleanupState)

def CleanupState.withChildren (children : List (Child Slot)) (cleanup : CleanupPhase) : CleanupState :=
  { state with launcher := { state.launcher with children }, cleanup }

def CleanupState.proceed : Option CleanupState :=
  let validators := state.launcher.validators
  match state.cleanup with
  | .idle => some { state with cleanup := .signalling .first }
  | .signalling i =>
      if 0 < validators i then
        match Children.kill state.launcher.children (validators i) with
        | some children => some (state.withChildren children (.afterSignal i))
        | none => some { state with cleanup := .afterSignal i }
      else some { state with cleanup := .afterSignal i }
  | .waiting i =>
      if 0 < validators i then some { state with cleanup := .waitingFor i (validators i) }
      else some { state with cleanup := .afterWait i }
  | .waitingFor i pid =>
      match Children.waitpid state.launcher.children pid with
      | .terminated children => some (state.withChildren children (.afterWait i))
      | .failed => some { state with cleanup := .afterWait i }
      | .running => none
  | .cancelling => some { state with cleanup := .joining, cancelRequested := true }
  | .joining => if state.launcher.phase = .ended then some { state with cleanup := .passed } else none
  | .passed => none

def stepCleanup : CleanupEvent → Option CleanupState
  | .launcher event => (stepLauncher state.launcher event).map fun launcher => { state with launcher }
  | .cancel =>
      if state.cancelRequested ∧ state.launcher.phase.cancellable then
        some { state with launcher := state.launcher.goto .ended }
      else none
  | .proceed => state.proceed

end

abbrev CleanupRun (trace : List (CleanupState × CleanupEvent)) (final : CleanupState) : Prop :=
  Run stepCleanup CleanupState.initial trace final

/-- Every validator the launcher ever forked was sent SIGTERM or has ended, and
has been waited for. -/
def CleanupState.NoneLeft (state : CleanupState) : Prop :=
  ∀ child ∈ state.launcher.children,
    (child.signalled = true ∨ child.status ≠ .running) ∧ child.status = .reaped

def Slot.precedes : Slot → Slot → Bool
  | .first, .second => true
  | _, _ => false

/-- The wait loop has read this slot. -/
def CleanupPhase.hasRead (slot : Slot) : CleanupPhase → Bool
  | .idle | .signalling _ => false
  | .waiting i => slot.precedes i
  | .waitingFor i _ => slot = i || slot.precedes i
  | .cancelling | .joining | .passed => true

/-- A new validator is stored in a slot that the wait loop has already read. -/
def storesLate (state : CleanupState) : CleanupEvent → Bool
  | .launcher .advance =>
      match state.launcher.phase with
      | .storing slot _ result => decide (0 < result) && state.cleanup.hasRead slot
      | _ => false
  | _ => false

section

variable {before after final : CleanupState} {event : CleanupEvent}
  {trace : List (CleanupState × CleanupEvent)}

/-- Of the children of a slot that the wait loop has read, only the one that it
waits for and one that is about to be stored have not been waited for. -/
structure Swept (state : CleanupState) : Prop where
  located : Located state.launcher
  read : ∀ slot index, state.cleanup.hasRead slot = true → Unreaped state.launcher.children index slot →
    state.cleanup = .waitingFor slot (pid index) ∨
      ∃ high, state.launcher.phase = .storing slot high (pid index)
  joined : state.cleanup = .passed → state.launcher.phase = .ended

theorem Swept.waiting (swept : Swept before)
    (settled : ∀ slot high result, before.launcher.phase ≠ .storing slot high result) {slot : Slot}
    {index : Nat} (read : before.cleanup.hasRead slot = true)
    (unwaited : Unreaped before.launcher.children index slot) :
    before.cleanup = .waitingFor slot (pid index) := by
  rcases swept.read slot index read unwaited with waiting | ⟨high, storing⟩
  · exact waiting
  · exact absurd storing (settled slot high _)

theorem ended_step {state next : LauncherState} {own : LauncherEvent} (ended : state.phase = .ended)
    (taken : stepLauncher state own = some next) : next.phase = .ended := by
  cases own with
  | exit id =>
      obtain ⟨children, _, rfl⟩ := Option.map_eq_some_iff.mp taken
      exact ended
  | full | poll | fork | advance => simp [stepLauncher, LauncherState.advance, ended] at taken

theorem Swept.launch {own : LauncherEvent} {launcher : LauncherState} (swept : Swept before)
    (taken : stepLauncher before.launcher own = some launcher)
    (inTime : storesLate before (.launcher own) = false) : Swept { before with launcher } := by
  refine ⟨swept.located.step taken, fun slot index read unwaited => ?_,
    fun passed => ended_step (swept.joined passed) taken⟩
  dsimp only at read unwaited ⊢
  cases stepLauncher_move taken with
  | passed slots same earlier later =>
      exact .inl (swept.waiting (not_storing_of_plain earlier) read ((same index slot).mp unwaited))
  | exited same => exact swept.read slot index read ((same index slot).mp unwaited)
  | tested phase vacant => exact .inl (swept.waiting (by simp [phase]) read unwaited)
  | @forked forks high phase =>
      rcases Children.unreaped_fork.mp unwaited with old | ⟨rfl, rfl⟩
      · exact .inl (swept.waiting (by simp [phase]) read old)
      · exact .inr ⟨high, rfl⟩
  | refused phase => exact .inl (swept.waiting (by simp [phase]) read unwaited)
  | @stored stores high result phase =>
      rcases swept.read slot index read unwaited with waiting | ⟨top, storing⟩
      · exact .inl waiting
      · cases phase.symm.trans storing
        simp [storesLate, phase, Children.pid_pos, read] at inTime
  | waited plain own left =>
      exact .inl (swept.waiting (not_storing_of_plain plain) read ((left index slot).mp unwaited).1)
  | cleared phase => exact .inl (swept.waiting (by simp [phase]) read unwaited)

theorem Swept.cancel (swept : Swept before) (cancellable : before.launcher.phase.cancellable = true) :
    Swept { before with launcher := before.launcher.goto .ended } := by
  have settled (slot : Slot) (high : Bool) (result : Int) :
      before.launcher.phase ≠ .storing slot high result := by
    intro storing
    rw [storing] at cancellable
    cases cancellable
  exact ⟨.of_plain (fun index slot unwaited => swept.located.stored settled unwaited) rfl,
    fun slot index read unwaited => .inl (swept.waiting settled read unwaited), fun _ => rfl⟩

theorem afterSignal_hasRead (i slot : Slot) : (CleanupPhase.afterSignal i).hasRead slot = false := by
  cases i <;> cases slot <;> rfl

theorem afterWait_hasRead (i slot : Slot) (read : (CleanupPhase.afterWait i).hasRead slot = true) :
    slot = i ∨ slot.precedes i = true := by
  cases i <;> cases slot <;> first | exact .inl rfl | exact .inr rfl | cases read

/-- A new validator that is not yet in its slot. -/
def InFlight (state : CleanupState) (slot : Slot) (index : Nat) : Prop :=
  ∃ high, state.launcher.phase = .storing slot high (pid index)

theorem Swept.inFlight (swept : Swept before) {slot : Slot} {index : Nat}
    (read : before.cleanup.hasRead slot = true) (unwaited : Unreaped before.launcher.children index slot)
    (elsewhere : before.cleanup ≠ .waitingFor slot (pid index)) : InFlight before slot index :=
  (swept.read slot index read unwaited).resolve_left elsewhere

/-- The wait loop leaves a slot behind that names no child any more. -/
theorem Swept.leave (swept : Swept before) {i : Slot} {children : List (Child Slot)}
    (fewer : ∀ index slot, Unreaped children index slot → Unreaped before.launcher.children index slot)
    (read : ∀ slot : Slot, slot.precedes i = true → before.cleanup.hasRead slot = true)
    (other : ∀ (slot : Slot) (index : Nat), slot.precedes i = true → before.cleanup ≠ .waitingFor slot (pid index))
    (left : ∀ index, Unreaped children index i → InFlight before i index) :
    Swept (before.withChildren children (.afterWait i)) := by
  refine ⟨swept.located.fewer rfl rfl fewer, fun slot index past unwaited => .inr ?_, fun passed => ?_⟩
  · rcases afterWait_hasRead i slot past with rfl | below
    · exact left index unwaited
    · exact swept.inFlight (read slot below) (fewer index slot unwaited) (other slot index below)
  · rw [CleanupState.withChildren, CleanupPhase.afterWait] at passed
    split at passed <;> cases passed

/-- The wait for the child of a slot ends when that child has been waited for,
or where there is none. -/
theorem Swept.reap (swept : Swept before) {i : Slot} {id : Int} (phase : before.cleanup = .waitingFor i id)
    {children : List (Child Slot)}
    (fewer : ∀ index slot, Unreaped children index slot → Unreaped before.launcher.children index slot)
    (gone : ∀ index, id = pid index → ¬ Unreaped children index i) :
    Swept (before.withChildren children (.afterWait i)) := by
  refine swept.leave fewer (fun slot below => ?_) (fun slot index below => ?_) (fun index unwaited => ?_)
  · rw [phase]
    exact Bool.or_eq_true_iff.mpr (.inr below)
  · rw [phase]
    intro other
    cases other
    cases i <;> cases below
  · have read : before.cleanup.hasRead i = true := by
      rw [phase]
      exact Bool.or_eq_true_iff.mpr (.inl (decide_eq_true rfl))
    refine swept.inFlight read (fewer index i unwaited) fun waiting => ?_
    cases phase.symm.trans waiting
    exact gone index rfl unwaited

theorem Swept.proceed (swept : Swept before) (taken : before.proceed = some after) : Swept after := by
  have unread {cleanup : CleanupPhase} {children : List (Child Slot)}
      (fewer : ∀ index slot, Unreaped children index slot → Unreaped before.launcher.children index slot)
      (none : ∀ slot, cleanup.hasRead slot = false) : Swept (before.withChildren children cleanup) := by
    refine ⟨swept.located.fewer rfl rfl fewer, fun slot index read => ?_, fun passed => ?_⟩
    · rw [CleanupState.withChildren, none slot] at read
      cases read
    · rw [show cleanup = .passed from passed] at none
      cases none .first
  have same (index : Nat) (slot : Slot) (unwaited : Unreaped before.launcher.children index slot) :
      Unreaped before.launcher.children index slot := unwaited
  rw [CleanupState.proceed] at taken
  split at taken
  · cases taken
    exact unread same fun _ => rfl
  · rename_i i phase
    split at taken
    · split at taken
      · rename_i children killed
        cases taken
        exact unread (fun _ _ => (Children.unreaped_kill killed).mp) (afterSignal_hasRead i)
      · cases taken
        exact unread same (afterSignal_hasRead i)
    · cases taken
      exact unread same (afterSignal_hasRead i)
  · rename_i i phase
    have earlier (slot : Slot) (below : slot.precedes i = true) : before.cleanup.hasRead slot = true := by
      rw [phase]
      exact below
    split at taken
    · rename_i positive
      cases taken
      refine ⟨swept.located, fun slot index read unwaited => ?_, fun passed => ?_⟩
      · dsimp only [CleanupPhase.hasRead] at read unwaited ⊢
        rcases Bool.or_eq_true_iff.mp read with here | below
        · cases of_decide_eq_true here
          rcases swept.located.children index i unwaited with stored | flight
          · rw [stored]
            exact .inl rfl
          · exact .inr flight
        · exact .inr (swept.inFlight (earlier slot below) unwaited (by simp [phase]))
      · cases passed
    · rename_i vacant
      cases taken
      refine swept.leave same earlier (by simp [phase]) fun index unwaited => ?_
      rcases swept.located.children index i unwaited with stored | flight
      · rw [stored] at vacant
        exact absurd (Children.pid_pos index) vacant
      · exact flight
  · rename_i i id phase
    split at taken
    · rename_i children terminated
      cases taken
      obtain ⟨waited, rfl⟩ := Children.waitpid_known terminated
      have left (index : Nat) (slot : Slot) : Unreaped children index slot ↔
          Unreaped before.launcher.children index slot ∧ index ≠ waited :=
        Children.unreaped_waitpid terminated
      refine swept.reap phase (fun index slot => And.left ∘ (left index slot).mp) fun index ids unwaited => ?_
      exact ((left index i).mp unwaited).2 (Children.pid_injective ids).symm
    · rename_i failed
      cases taken
      refine swept.reap phase same ?_
      intro index same
      subst same
      exact Children.waitpid_failed failed
    · cases taken
  · rename_i phase
    cases taken
    refine ⟨swept.located, fun slot index _ unwaited => .inr ?_, fun passed => ?_⟩
    · exact swept.inFlight (by rw [phase]; rfl) unwaited (by simp [phase])
    · cases passed
  · rename_i phase
    split at taken
    · rename_i ended
      cases taken
      refine ⟨swept.located, fun slot index _ unwaited => .inr ?_, fun _ => ended⟩
      exact swept.inFlight (by rw [phase]; rfl) unwaited (by simp [phase])
    · cases taken
  · cases taken

theorem Swept.step (swept : Swept before) (inTime : storesLate before event = false)
    (taken : stepCleanup before event = some after) : Swept after := by
  cases event with
  | launcher own =>
      obtain ⟨launcher, launched, rfl⟩ := Option.map_eq_some_iff.mp taken
      exact swept.launch launched inTime
  | cancel =>
      simp only [stepCleanup] at taken
      split at taken
      · rename_i requested
        cases taken
        exact swept.cancel requested.2
      · cases taken
  | proceed => exact swept.proceed taken

/-- If no validator is stored in a slot after the wait loop has read it, then
none is left when the launcher has been joined. -/
theorem cleanup_leaves_none (run : CleanupRun trace final)
    (inTime : ∀ entry ∈ trace, storesLate entry.1 entry.2 = false) (passed : final.cleanup = .passed) :
    final.NoneLeft := by
  have initial : Swept .initial := by
    refine ⟨.initial, fun slot index read => ?_, fun passed => ?_⟩
    · cases read
    · cases passed
  have swept := run.invariant_of_allowed Swept (fun state event => storesLate state event = false) initial
    (fun before event after swept allowed taken => swept.step allowed taken) inTime
  have reaped : ∀ child ∈ final.launcher.children, child.status = .reaped := by
    rw [Children.all_reaped_iff]
    intro index slot unwaited
    rcases swept.read slot index (by rw [passed]; rfl) unwaited with waiting | ⟨high, storing⟩
    · cases passed.symm.trans waiting
    · cases (swept.joined passed).symm.trans storing
  intro child member
  refine ⟨.inr ?_, reaped child member⟩
  rw [reaped child member]
  decide

end

/-- A validator is launched, and then signalled and waited for. -/
def orderlyEvents : List CleanupEvent :=
  [.launcher (.poll (3 / 4)), .launcher .advance, .launcher (.fork true), .launcher .advance,
    .launcher .advance, .proceed, .proceed, .proceed, .proceed, .launcher (.exit 1), .proceed, .proceed,
    .proceed, .cancel, .proceed]

theorem orderly_executes : (exec (guarded stepCleanup fun state event => !storesLate state event)
    CleanupState.initial orderlyEvents).isSome = true := by
  decide +kernel

theorem orderly_cleanup_leaves_none : ∃ trace final, CleanupRun trace final ∧ final.cleanup = .passed ∧
    final.launcher.children ≠ [] ∧ final.NoneLeft := by
  obtain ⟨trace, checked, _⟩ := exec_run_get orderly_executes
  obtain ⟨run, inTime⟩ := checked.of_guarded
  have passed : ((exec (guarded stepCleanup fun state event => !storesLate state event)
      CleanupState.initial orderlyEvents).get orderly_executes).cleanup = .passed := by decide +kernel
  refine ⟨trace, _, run, passed, by decide +kernel, cleanup_leaves_none run ?_ passed⟩
  intro entry member
  simpa using inTime entry member

/-- The launcher has found slot 0 empty; `cleanup` finds both slots empty before it forks. -/
def lateForkEvents : List CleanupEvent :=
  [.launcher (.poll (3 / 4)), .launcher .advance, .proceed, .proceed, .proceed, .proceed, .proceed,
    .launcher (.fork true), .proceed, .launcher .advance, .cancel, .proceed]

theorem lateFork_executes :
    (exec stepCleanup CleanupState.initial lateForkEvents).isSome = true := by
  decide +kernel

theorem late_validator_left : ∃ trace final, CleanupRun trace final ∧ final.cleanup = .passed ∧
    ¬ final.NoneLeft := by
  obtain ⟨trace, run, _⟩ := exec_run_get lateFork_executes
  refine ⟨trace, _, run, by decide +kernel, fun none => ?_⟩
  have running : ∃ child ∈ ((exec stepCleanup CleanupState.initial lateForkEvents).get
      lateFork_executes).launcher.children, child.status = .running := by
    decide +kernel
  obtain ⟨child, member, alive⟩ := running
  cases alive.symm.trans (none child member).2

end DeiChain
