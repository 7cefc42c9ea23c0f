import DeiChain.Systems.Children
import DeiChain.Systems.Run
import Mathlib.Algebra.Order.Ring.Unbundled.Rat
import Mathlib.Logic.Function.Basic

namespace DeiChain

open Systems
open Systems.Children (Child Unreaped pid)

/-! # The launcher thread

`validator_launcher` keeps two process ids, `validators[0]` and `validators[1]`.
A step is one access to them or one system call; the children run, and end, at
any time between two steps.
-/

/-- The doubles nearest to 0.6, 0.8 and 0.4, with which the occupancy is compared. -/
def occupied : ℚ := 5404319552844595 / 2 ^ 53
def crowded : ℚ := 7205759403792794 / 2 ^ 53
def sparse : ℚ := 7205759403792794 / 2 ^ 54

/-- The indices 0 and 1 of `validators`, for validators 2 and 3. -/
inductive Slot where
  | first
  | second
deriving DecidableEq

/-- `high` says that the occupancy read in this poll was above 0.8. `sweeping`
is the second loop of a poll with low occupancy. -/
inductive LauncherPhase where
  | polling
  | testing (slot : Slot) (high : Bool)
  | forking (slot : Slot) (high : Bool)
  | storing (slot : Slot) (high : Bool) (result : Int)
  | logging (slot : Slot) (high : Bool)
  | terminating (i : Slot)
  | reaping (i : Slot)
  | sweeping (i : Slot)
  | clearing (i : Slot) (sweep : Bool)
  | sleeping
  | ended
deriving DecidableEq

structure LauncherState where
  validators : Slot → Int
  children : List (Child Slot)
  phase : LauncherPhase

def LauncherState.initial : LauncherState := ⟨fun _ => 0, [], .polling⟩

/-- `full` is a poll that finds the ledger full and ends the thread. -/
inductive LauncherEvent where
  | full
  | poll (occupancy : ℚ)
  | fork (success : Bool)
  | advance
  | exit (pid : Int)
deriving DecidableEq

def LauncherPhase.afterSlot (slot : Slot) (high : Bool) : LauncherPhase :=
  if slot = .first ∧ high then .testing .second high else .sleeping

def LauncherPhase.afterTerminate (i : Slot) : LauncherPhase :=
  if i = .first then .terminating .second else .sweeping .first

def LauncherPhase.afterSweep (i : Slot) : LauncherPhase :=
  if i = .first then .sweeping .second else .sleeping

def LauncherPhase.afterClear (i : Slot) (sweep : Bool) : LauncherPhase :=
  if sweep then .afterSweep i else .afterTerminate i

section

variable (state : LauncherState)

def LauncherState.goto (phase : LauncherPhase) : LauncherState := { state with phase }

/-- `if (waitpid(validators[i], &status, WNOHANG) > 0)`, and where the loop goes on otherwise. -/
def LauncherState.poke (i : Slot) (sweep : Bool) : LauncherState :=
  match Children.waitpid state.children (state.validators i) with
  | .terminated children => { state with children, phase := .clearing i sweep }
  | _ => state.goto (.afterClear i sweep)

def LauncherState.advance : Option LauncherState :=
  match state.phase with
  | .testing slot high =>
      some (state.goto (if state.validators slot = 0 then .forking slot high else .afterSlot slot high))
  | .storing slot high result =>
      some { state with
        validators := Function.update state.validators slot result
        phase := .logging slot high }
  | .logging slot high => some (state.goto (.afterSlot slot high))
  | .terminating i =>
      if 0 < state.validators i then
        match Children.kill state.children (state.validators i) with
        | some children => some { state with children, phase := .reaping i }
        | none => some (state.goto (.afterTerminate i))
      else some (state.goto (.afterTerminate i))
  | .reaping i => some (state.poke i false)
  | .sweeping i =>
      if 0 < state.validators i then some (state.poke i true) else some (state.goto (.afterSweep i))
  | .clearing i sweep =>
      some { state with
        validators := Function.update state.validators i 0
        phase := .afterClear i sweep }
  | .sleeping => some (state.goto .polling)
  | .polling | .forking _ _ | .ended => none

def stepLauncher : LauncherEvent → Option LauncherState
  | .full => if state.phase = .polling then some (state.goto .ended) else none
  | .poll occupancy =>
      if state.phase = .polling then
        some (state.goto
          (if occupied ≤ occupancy then .testing .first (decide (crowded < occupancy))
          else if occupancy < sparse then .terminating .first
          else .sleeping))
      else none
  | .fork success =>
      match state.phase with
      | .forking slot high =>
          if success then
            some { state with
              children := Children.fork state.children slot
              phase := .storing slot high (pid state.children.length) }
          else some (state.goto (.storing slot high (-1)))
      | _ => none
  | .advance => state.advance
  | .exit pid => (Children.exit state.children pid).map fun children => { state with children }

end

abbrev LauncherRun (trace : List (LauncherState × LauncherEvent)) (final : LauncherState) : Prop :=
  Run stepLauncher LauncherState.initial trace final

/-- The phases in which the slots are as the last poll left them. -/
def LauncherPhase.plain : LauncherPhase → Bool
  | .forking _ _ | .storing _ _ _ | .clearing _ _ => false
  | _ => true

/-- What a step can do to the slots and to the children that have not been waited for. -/
inductive LauncherMove (before : LauncherState) : LauncherEvent → LauncherState → Prop where
  | passed {event after} (slots : after.validators = before.validators)
      (same : ∀ index slot, Unreaped after.children index slot ↔ Unreaped before.children index slot)
      (earlier : before.phase.plain = true) (later : after.phase.plain = true)
      (forkless : ∀ success, event ≠ .fork success) : LauncherMove before event after
  | exited {id children}
      (same : ∀ index slot, Unreaped children index slot ↔ Unreaped before.children index slot) :
      LauncherMove before (.exit id) { before with children }
  | tested {slot high} (phase : before.phase = .testing slot high) (vacant : before.validators slot = 0) :
      LauncherMove before .advance (before.goto (.forking slot high))
  | forked {slot high} (phase : before.phase = .forking slot high) :
      LauncherMove before (.fork true) { before with
        children := Children.fork before.children slot
        phase := .storing slot high (pid before.children.length) }
  | refused {slot high} (phase : before.phase = .forking slot high) :
      LauncherMove before (.fork false) (before.goto (.storing slot high (-1)))
  | stored {slot high result} (phase : before.phase = .storing slot high result) :
      LauncherMove before .advance { before with
        validators := Function.update before.validators slot result
        phase := .logging slot high }
  | waited {i sweep index children} (plain : before.phase.plain = true)
      (own : before.validators i = pid index)
      (left : ∀ other slot, Unreaped children other slot ↔
        Unreaped before.children other slot ∧ other ≠ index) :
      LauncherMove before .advance { before with children, phase := .clearing i sweep }
  | cleared {i sweep} (phase : before.phase = .clearing i sweep) :
      LauncherMove before .advance { before with
        validators := Function.update before.validators i 0
        phase := .afterClear i sweep }

section

variable {before after final : LauncherState} {event : LauncherEvent}
  {trace : List (LauncherState × LauncherEvent)}

theorem afterSlot_plain (slot : Slot) (high : Bool) : (LauncherPhase.afterSlot slot high).plain = true := by
  rw [LauncherPhase.afterSlot]
  split <;> rfl

theorem afterClear_plain (i : Slot) (sweep : Bool) : (LauncherPhase.afterClear i sweep).plain = true := by
  rw [LauncherPhase.afterClear, LauncherPhase.afterSweep, LauncherPhase.afterTerminate]
  split <;> split <;> rfl

theorem not_storing_of_plain {phase : LauncherPhase} (plain : phase.plain = true) (slot : Slot) (high : Bool)
    (result : Int) : phase ≠ .storing slot high result := by
  intro same
  subst same
  cases plain

theorem not_clearing_of_plain {phase : LauncherPhase} (plain : phase.plain = true) (slot : Slot)
    (sweep : Bool) : phase ≠ .clearing slot sweep := by
  intro same
  subst same
  cases plain

theorem poke_move (plain : before.phase.plain = true) (i : Slot) (sweep : Bool) :
    LauncherMove before .advance (before.poke i sweep) := by
  rw [LauncherState.poke]
  split
  · rename_i children terminated
    obtain ⟨index, own⟩ := Children.waitpid_known terminated
    rw [own] at terminated
    exact .waited plain own fun _ _ => Children.unreaped_waitpid terminated
  · exact .passed rfl (fun _ _ => Iff.rfl) plain (afterClear_plain i sweep) (by simp)

theorem advance_move (taken : before.advance = some after) : LauncherMove before .advance after := by
  have goes {phase : LauncherPhase} (earlier : before.phase.plain = true) (later : phase.plain = true) :
      LauncherMove before .advance (before.goto phase) :=
    .passed rfl (fun _ _ => Iff.rfl) earlier later (by simp)
  rw [LauncherState.advance] at taken
  split at taken
  · rename_i slot high phase
    cases taken
    by_cases vacant : before.validators slot = 0
    · rw [if_pos vacant]
      exact .tested phase vacant
    · rw [if_neg vacant]
      exact goes (by rw [phase]; rfl) (afterSlot_plain slot high)
  · rename_i slot high result phase
    cases taken
    exact .stored phase
  · rename_i slot high phase
    cases taken
    exact goes (by rw [phase]; rfl) (afterSlot_plain slot high)
  · rename_i i phase
    have plain : before.phase.plain = true := by rw [phase]; rfl
    split at taken
    · split at taken
      · rename_i children killed
        cases taken
        exact .passed rfl (fun _ _ => Children.unreaped_kill killed) plain rfl (by simp)
      · cases taken
        exact goes plain (afterClear_plain i false)
    · cases taken
      exact goes plain (afterClear_plain i false)
  · rename_i i phase
    cases taken
    exact poke_move (by rw [phase]; rfl) i false
  · rename_i i phase
    have plain : before.phase.plain = true := by rw [phase]; rfl
    split at taken
    · cases taken
      exact poke_move plain i true
    · cases taken
      exact goes plain (afterClear_plain i true)
  · rename_i i sweep phase
    cases taken
    exact .cleared phase
  · rename_i phase
    cases taken
    exact goes (by rw [phase]; rfl) rfl
  · cases taken
  · cases taken
  · cases taken

theorem stepLauncher_move (taken : stepLauncher before event = some after) :
    LauncherMove before event after := by
  cases event with
  | full =>
      simp only [stepLauncher] at taken
      split at taken
      · rename_i phase
        cases taken
        exact .passed rfl (fun _ _ => Iff.rfl) (by rw [phase]; rfl) rfl (by simp)
      · cases taken
  | poll occupancy =>
      simp only [stepLauncher] at taken
      split at taken
      · rename_i phase
        cases taken
        refine .passed rfl (fun _ _ => Iff.rfl) (by rw [phase]; rfl) ?_ (by simp)
        rw [LauncherState.goto]
        dsimp only
        split
        · rfl
        · split <;> rfl
      · cases taken
  | fork success =>
      simp only [stepLauncher] at taken
      split at taken
      · rename_i slot high phase
        cases success with
        | true =>
            cases taken
            exact .forked phase
        | false =>
            cases taken
            exact .refused phase
      · cases taken
  | advance => exact advance_move taken
  | exit id =>
      obtain ⟨children, exits, rfl⟩ := Option.map_eq_some_iff.mp taken
      exact .exited fun _ _ => Children.unreaped_exit exits

/-- Each child not waited for is the one of its slot, or about to be stored there. -/
structure Located (state : LauncherState) : Prop where
  children : ∀ index slot, Unreaped state.children index slot → state.validators slot = pid index ∨
    ∃ high, state.phase = .storing slot high (pid index)
  vacant : ∀ slot high, state.phase = .forking slot high → state.validators slot = 0
  awaited : ∀ slot high result, state.phase = .storing slot high result → state.validators slot = 0
  waited : ∀ slot sweep index, state.phase = .clearing slot sweep → state.validators slot = pid index →
    ¬ Unreaped state.children index slot

/-- Outside of the store after a fork the slots name all children. -/
theorem Located.stored (located : Located before)
    (settled : ∀ slot high result, before.phase ≠ .storing slot high result) {index : Nat} {slot : Slot}
    (unwaited : Unreaped before.children index slot) : before.validators slot = pid index := by
  rcases located.children index slot unwaited with stored | ⟨high, storing⟩
  · exact stored
  · exact absurd storing (settled slot high _)

theorem Located.of_plain (children : ∀ index slot, Unreaped after.children index slot →
    after.validators slot = pid index) (plain : after.phase.plain = true) : Located after where
  children := fun index slot unwaited => .inl (children index slot unwaited)
  vacant := by
    intro slot high phase
    rw [phase] at plain
    cases plain
  awaited slot high result phase := absurd phase (not_storing_of_plain plain slot high result)
  waited slot sweep _ phase := absurd phase (not_clearing_of_plain plain slot sweep)

/-- The children may end, be killed and be waited for at any time. -/
theorem Located.fewer (located : Located before) (slots : after.validators = before.validators)
    (phase : after.phase = before.phase)
    (fewer : ∀ index slot, Unreaped after.children index slot → Unreaped before.children index slot) :
    Located after where
  children := by
    intro index slot unwaited
    rw [slots, phase]
    exact located.children index slot (fewer index slot unwaited)
  vacant := by
    rw [slots, phase]
    exact located.vacant
  awaited := by
    rw [slots, phase]
    exact located.awaited
  waited := by
    rw [slots, phase]
    exact fun slot sweep index clearing stored unwaited =>
      located.waited slot sweep index clearing stored (fewer index slot unwaited)

theorem Located.step (located : Located before) (taken : stepLauncher before event = some after) :
    Located after := by
  cases stepLauncher_move taken with
  | passed slots same earlier later =>
      refine .of_plain (fun index slot unwaited => ?_) later
      rw [slots]
      exact located.stored (not_storing_of_plain earlier) ((same index slot).mp unwaited)
  | exited same => exact located.fewer rfl rfl fun index slot => (same index slot).mp
  | @tested slot high phase vacant =>
      refine ⟨fun index other unwaited => .inl ?_, fun other top forking => ?_,
        fun other top result storing => ?_, fun other sweep index clearing => ?_⟩
      · exact located.stored (by simp [phase]) unwaited
      · cases forking
        exact vacant
      · cases storing
      · cases clearing
  | @forked slot high phase =>
      refine ⟨fun index other unwaited => ?_, fun other top forking => ?_,
        fun other top result storing => ?_, fun other sweep index clearing => ?_⟩
      · rcases Children.unreaped_fork.mp unwaited with old | ⟨rfl, rfl⟩
        · exact .inl (located.stored (by simp [phase]) old)
        · exact .inr ⟨high, rfl⟩
      · cases forking
      · cases storing
        exact located.vacant slot high phase
      · cases clearing
  | @refused slot high phase =>
      refine ⟨fun index other unwaited => .inl ?_, fun other top forking => ?_,
        fun other top result storing => ?_, fun other sweep index clearing => ?_⟩
      · exact located.stored (by simp [phase]) unwaited
      · cases forking
      · cases storing
        exact located.vacant slot high phase
      · cases clearing
  | @stored slot high result phase =>
      refine .of_plain (fun index other unwaited => ?_) rfl
      dsimp only
      rcases located.children index other unwaited with stored | ⟨top, storing⟩
      · have apart : other ≠ slot := by
          intro same
          subst same
          rw [located.awaited other high result phase] at stored
          exact absurd stored (Int.ne_of_lt (Children.pid_pos index))
        rw [Function.update_of_ne apart]
        exact stored
      · cases phase.symm.trans storing
        exact Function.update_self ..
  | @waited i sweep index children plain own left =>
      refine ⟨fun other slot unwaited => .inl ?_, fun slot high forking => ?_,
        fun slot high result storing => ?_, fun slot again other clearing stored unwaited => ?_⟩
      · exact located.stored (not_storing_of_plain plain) ((left other slot).mp unwaited).1
      · cases forking
      · cases storing
      · cases clearing
        exact ((left other i).mp unwaited).2 (Children.pid_injective (stored.symm.trans own))
  | @cleared i sweep phase =>
      refine .of_plain (fun index other unwaited => ?_) (afterClear_plain i sweep)
      have stored := located.stored (by simp [phase]) unwaited
      have apart : other ≠ i := by
        intro same
        subst same
        exact located.waited other sweep index phase stored unwaited
      dsimp only
      rw [Function.update_of_ne apart]
      exact stored

theorem Located.initial : Located LauncherState.initial :=
  .of_plain (by intro index slot unwaited; obtain ⟨child, found, _⟩ := unwaited; cases found) rfl

end

end DeiChain
