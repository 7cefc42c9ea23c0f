import DeiChain.Launcher

namespace DeiChain

open Systems
open Systems.Children (Child Unreaped pid)

/-! # Whether a validator is launched

A poll forks for a slot only when the slot holds 0. A failed fork leaves -1
there for good, and the id of a child that has ended stays until a poll with low
occupancy waits for it.
-/

section

variable {before after final state : LauncherState} {event : LauncherEvent} {slot : Slot}
  {trace earlier later : List (LauncherState × LauncherEvent)}

/-- The launcher tries to fork for this slot. -/
def Attempts (trace : List (LauncherState × LauncherEvent)) (slot : Slot) : Prop :=
  ∃ state success high, (state, LauncherEvent.fork success) ∈ trace ∧ state.phase = .forking slot high

def ForkFailed (trace : List (LauncherState × LauncherEvent)) (slot : Slot) : Prop :=
  ∃ state high, (state, LauncherEvent.fork false) ∈ trace ∧ state.phase = .forking slot high

theorem forkFailed_snoc : ForkFailed (trace ++ [(before, event)]) slot ↔ ForkFailed trace slot ∨
    event = .fork false ∧ ∃ high, before.phase = .forking slot high := by
  constructor
  · intro given
    obtain ⟨state, high, member, phase⟩ := given
    rcases List.mem_append.mp member with member | member
    · exact .inl ⟨state, high, member, phase⟩
    · cases List.mem_singleton.mp member
      exact .inr ⟨rfl, high, phase⟩
  · intro given
    obtain ⟨state, high, member, phase⟩ | ⟨rfl, high, phase⟩ := given
    · exact ⟨state, high, List.mem_append_left _ member, phase⟩
    · exact ⟨before, high, List.mem_append_right _ (by simp), phase⟩

theorem attempts_snoc : Attempts (trace ++ [(before, event)]) slot ↔ Attempts trace slot ∨
    ∃ success high, event = .fork success ∧ before.phase = .forking slot high := by
  constructor
  · intro given
    obtain ⟨state, success, high, member, phase⟩ := given
    rcases List.mem_append.mp member with member | member
    · exact .inl ⟨state, success, high, member, phase⟩
    · cases List.mem_singleton.mp member
      exact .inr ⟨success, high, rfl, phase⟩
  · intro given
    obtain ⟨state, success, high, member, phase⟩ | ⟨success, high, rfl, phase⟩ := given
    · exact ⟨state, success, high, List.mem_append_left _ member, phase⟩
    · exact ⟨before, success, high, List.mem_append_right _ (by simp), phase⟩

/-- While nothing but the launcher waits for its children, a slot that is not 0
holds a child not waited for, or the failure of a fork. -/
structure Tracked (trace : List (LauncherState × LauncherEvent)) (state : LauncherState) : Prop where
  located : Located state
  slots : ∀ slot, state.validators slot = 0 ∨ state.validators slot = -1 ∨
    ∃ index, state.validators slot = pid index ∧
      (Unreaped state.children index slot ∨ ∃ sweep, state.phase = .clearing slot sweep)
  stored : ∀ slot high result, state.phase = .storing slot high result →
    result = -1 ∨ ∃ index, result = pid index ∧ Unreaped state.children index slot
  clearing : ∀ slot sweep, state.phase = .clearing slot sweep → ∃ index, state.validators slot = pid index
  failed : ∀ slot, ForkFailed trace slot ↔ state.validators slot = -1 ∨
    ∃ high, state.phase = .storing slot high (-1)

theorem pid_ne (index : Nat) : pid index ≠ -1 ∧ pid index ≠ 0 := by
  rw [pid]
  omega

section

variable (tracked : Tracked trace before)
include tracked

theorem Tracked.held (elsewhere : ∀ slot sweep, before.phase ≠ .clearing slot sweep) (slot : Slot) :
    before.validators slot = 0 ∨ before.validators slot = -1 ∨
      ∃ index, before.validators slot = pid index ∧ Unreaped before.children index slot := by
  rcases tracked.slots slot with zero | failure | ⟨index, own, unwaited | ⟨sweep, clearing⟩⟩
  · exact .inl zero
  · exact .inr (.inl failure)
  · exact .inr (.inr ⟨index, own, unwaited⟩)
  · exact absurd clearing (elsewhere slot sweep)

theorem Tracked.failed_iff (elsewhere : ∀ slot high result, before.phase ≠ .storing slot high result)
    (slot : Slot) : ForkFailed trace slot ↔ before.validators slot = -1 := by
  rw [tracked.failed slot]
  exact or_iff_left fun ⟨high, storing⟩ => elsewhere slot high (-1) storing

/-- The only failures are those of forks. -/
theorem Tracked.forkless (none : ∀ success, event ≠ .fork success) (slot : Slot) :
    ForkFailed (trace ++ [(before, event)]) slot ↔ before.validators slot = -1 ∨
      ∃ high, before.phase = .storing slot high (-1) := by
  rw [forkFailed_snoc, tracked.failed slot]
  simp [none false]

theorem Tracked.forkless_iff (none : ∀ success, event ≠ .fork success)
    (elsewhere : ∀ slot high result, before.phase ≠ .storing slot high result) (slot : Slot) :
    ForkFailed (trace ++ [(before, event)]) slot ↔ before.validators slot = -1 := by
  rw [tracked.forkless none slot]
  exact or_iff_left fun ⟨high, storing⟩ => elsewhere slot high (-1) storing

end

/-- Between the accesses to the slots nothing is on its way to one. -/
theorem Tracked.of_settled (located : Located after)
    (storing : ∀ slot high result, after.phase ≠ .storing slot high result)
    (clearing : ∀ slot sweep, after.phase ≠ .clearing slot sweep)
    (held : ∀ slot, after.validators slot = 0 ∨ after.validators slot = -1 ∨
      ∃ index, after.validators slot = pid index ∧ Unreaped after.children index slot)
    (failed : ∀ slot, ForkFailed trace slot ↔ after.validators slot = -1) : Tracked trace after where
  located := located
  slots slot := by
    rcases held slot with zero | failure | ⟨index, own, unwaited⟩
    · exact .inl zero
    · exact .inr (.inl failure)
    · exact .inr (.inr ⟨index, own, .inl unwaited⟩)
  stored slot high result phase := absurd phase (storing slot high result)
  clearing slot sweep phase := absurd phase (clearing slot sweep)
  failed slot := by
    rw [failed slot]
    exact (or_iff_left fun ⟨high, phase⟩ => storing slot high (-1) phase).symm

theorem Tracked.step (tracked : Tracked trace before) (taken : stepLauncher before event = some after) :
    Tracked (trace ++ [(before, event)]) after := by
  have located := tracked.located.step taken
  cases stepLauncher_move taken with
  | passed same kept earlier later none =>
      refine .of_settled located (not_storing_of_plain later) (not_clearing_of_plain later) ?_ ?_
      · intro other
        rw [same]
        simp only [kept]
        exact tracked.held (not_clearing_of_plain earlier) other
      · intro other
        rw [same]
        exact tracked.forkless_iff none (not_storing_of_plain earlier) other
  | @exited id children kept =>
      refine ⟨located, fun other => ?_, fun other high result storing => ?_, tracked.clearing,
        tracked.forkless (by simp)⟩
      · simp only [kept]
        exact tracked.slots other
      · simp only [kept]
        exact tracked.stored other high result storing
  | @tested tests high phase vacant =>
      exact .of_settled located (by simp [LauncherState.goto]) (by simp [LauncherState.goto])
        (tracked.held (by simp [phase])) (tracked.forkless_iff (by simp) (by simp [phase]))
  | @forked forks high phase =>
      refine ⟨located, fun other => ?_, fun other top result storing => ?_,
        fun other again clears => ?_, fun other => ?_⟩
      · rcases tracked.held (by simp [phase]) other with zero | failure | ⟨index, own, unwaited⟩
        · exact .inl zero
        · exact .inr (.inl failure)
        · exact .inr (.inr ⟨index, own, .inl (Children.unreaped_fork.mpr (.inl unwaited))⟩)
      · cases storing
        exact .inr ⟨_, rfl, Children.unreaped_fork.mpr (.inr ⟨rfl, rfl⟩)⟩
      · cases clears
      · rw [forkFailed_snoc, tracked.failed_iff (by simp [phase])]
        have fresh := (pid_ne before.children.length).1
        simp [fresh]
  | @refused forks high phase =>
      refine ⟨located, fun other => ?_, fun other top result storing => ?_,
        fun other again clears => ?_, fun other => ?_⟩
      · rcases tracked.held (by simp [phase]) other with zero | failure | ⟨index, own, unwaited⟩
        · exact .inl zero
        · exact .inr (.inl failure)
        · exact .inr (.inr ⟨index, own, .inl unwaited⟩)
      · cases storing
        exact .inl rfl
      · cases clears
      · rw [forkFailed_snoc, tracked.failed_iff (by simp [phase])]
        simp [phase, LauncherState.goto]
  | @stored stores high result phase =>
      refine .of_settled located (by simp) (by simp) (fun other => ?_) (fun other => ?_)
      · dsimp only
        by_cases same : other = stores
        · subst same
          rw [Function.update_self]
          exact .inr (tracked.stored other high result phase)
        · rw [Function.update_of_ne same]
          exact tracked.held (by simp [phase]) other
      · rw [tracked.forkless (by simp)]
        dsimp only
        by_cases same : other = stores
        · subst same
          have empty := tracked.located.awaited other high result phase
          simp [phase, empty]
        · have apart : stores ≠ other := Ne.symm same
          simp [phase, same, apart]
  | @waited i sweep index children plain own left =>
      have held := tracked.held (not_clearing_of_plain plain)
      refine ⟨located, fun other => ?_, fun other top result storing => ?_,
        fun other again clears => ?_, fun other => ?_⟩
      · rcases held other with zero | failure | ⟨position, holds, unwaited⟩
        · exact .inl zero
        · exact .inr (.inl failure)
        · by_cases same : position = index
          · subst same
            have third := ((held i).resolve_left (own ▸ (pid_ne position).2)).resolve_left
              (own ▸ (pid_ne position).1)
            -- both slots hold the id, and the child has one role
            obtain ⟨again, stored, unreaped⟩ := third
            cases Children.pid_injective (stored.symm.trans own)
            cases Children.unreaped_role unwaited unreaped
            exact .inr (.inr ⟨position, holds, .inr ⟨sweep, rfl⟩⟩)
          · exact .inr (.inr ⟨position, holds, .inl ((left position other).mpr ⟨unwaited, same⟩)⟩)
      · cases storing
      · cases clears
        exact ⟨index, own⟩
      · rw [tracked.forkless_iff (by simp) (not_storing_of_plain plain)]
        simp
  | @cleared i sweep phase =>
      have plain := afterClear_plain i sweep
      refine .of_settled located (not_storing_of_plain plain) (not_clearing_of_plain plain)
        (fun other => ?_) (fun other => ?_)
      · dsimp only
        by_cases same : other = i
        · rw [same, Function.update_self]
          exact .inl rfl
        · rw [Function.update_of_ne same]
          rcases tracked.slots other with zero | failure | ⟨index, own, unwaited | ⟨again, clearing⟩⟩
          · exact .inl zero
          · exact .inr (.inl failure)
          · exact .inr (.inr ⟨index, own, unwaited⟩)
          · cases phase.symm.trans clearing
            exact absurd rfl same
      · obtain ⟨index, own⟩ := tracked.clearing i sweep phase
        rw [tracked.forkless_iff (by simp) (by simp [phase])]
        dsimp only
        by_cases same : other = i
        · subst same
          simp [own, (pid_ne index).1]
        · simp [same]

theorem LauncherRun.tracked (run : LauncherRun trace final) : Tracked trace final := by
  induction run with
  | nil =>
      refine ⟨.initial, fun _ => .inl rfl, fun _ _ _ storing => ?_, fun _ _ clearing => ?_, fun slot => ?_⟩
      · cases storing
      · cases clearing
      · simp [ForkFailed, LauncherState.initial]
  | snoc earlier taken ih => exact ih.step taken

/-- At the top of the loop a slot holds 0 exactly when no fork for it has failed
and its children have been waited for. -/
theorem Tracked.vacant_iff (tracked : Tracked trace state) (phase : state.phase = .polling) (slot : Slot) :
    state.validators slot = 0 ↔ ¬ ForkFailed trace slot ∧ ∀ index, ¬ Unreaped state.children index slot := by
  rw [tracked.failed_iff (by simp [phase])]
  constructor
  · intro zero
    refine ⟨by omega, fun index unwaited => ?_⟩
    have stored := tracked.located.stored (by simp [phase]) unwaited
    exact (pid_ne index).2 (stored.symm.trans zero)
  · intro given
    obtain ⟨kept, reaped⟩ := given
    rcases tracked.held (by simp [phase]) slot with zero | failure | ⟨index, _, unwaited⟩
    · exact zero
    · exact absurd failure kept
    · exact absurd unwaited (reaped index)

/-- Where a poll is with regard to one slot: its test is still ahead, the fork
is next, or neither will happen any more. -/
inductive Stage where
  | due
  | trying
  | past
deriving DecidableEq

def LauncherPhase.stage (slot : Slot) : LauncherPhase → Stage
  | .testing i high => if i = slot ∨ i = .first ∧ high then .due else .past
  | .forking i high => if i = slot then .trying else if i = .first ∧ high then .due else .past
  | .storing i high _ | .logging i high => if i ≠ slot ∧ i = .first ∧ high then .due else .past
  | _ => .past

theorem afterSlot_stage (slot i : Slot) (high : Bool) : (LauncherPhase.afterSlot i high).stage slot =
    if i ≠ slot ∧ i = .first ∧ high then .due else .past := by
  cases slot <;> cases i <;> cases high <;> rfl

theorem afterClear_stage (slot i : Slot) (sweep : Bool) :
    (LauncherPhase.afterClear i sweep).stage slot = .past := by
  cases i <;> cases sweep <;> rfl

theorem poke_stage (slot i : Slot) (sweep : Bool) : (before.poke i sweep).phase.stage slot = .past := by
  rw [LauncherState.poke]
  split
  · rfl
  · exact afterClear_stage slot i sweep

/-- What a poll has done for a slot that held `held` when it began. -/
def Polled (later : List (LauncherState × LauncherEvent)) (state : LauncherState) (slot : Slot)
    (held : Int) : Prop :=
  match state.phase.stage slot with
  | .due => state.validators slot = held ∧ ¬ Attempts later slot
  | .trying => held = 0 ∧ ¬ Attempts later slot
  | .past => Attempts later slot ↔ held = 0

theorem Polled.keep {held : Int} (polled : Polled later before slot held)
    (stage : after.phase.stage slot = before.phase.stage slot)
    (slots : before.phase.stage slot = .due → after.validators slot = before.validators slot)
    (quiet : ∀ success high, event = .fork success → before.phase ≠ .forking slot high) :
    Polled (later ++ [(before, event)]) after slot held := by
  have attempts : Attempts (later ++ [(before, event)]) slot ↔ Attempts later slot := by
    rw [attempts_snoc]
    refine or_iff_left ?_
    intro given
    obtain ⟨success, high, forks, phase⟩ := given
    exact quiet success high forks phase
  rw [Polled] at polled ⊢
  rw [stage, attempts]
  cases now : before.phase.stage slot with
  | due =>
      rw [now] at polled
      exact ⟨(slots now).trans polled.1, polled.2⟩
  | trying | past =>
      rw [now] at polled
      exact polled

/-- The test of the slot: it is tried if it holds 0, and else passed by. -/
theorem Polled.decides {held : Int} {high : Bool} (polled : Polled later before slot held)
    (phase : before.phase = .testing slot high) : Polled (later ++ [(before, .advance)])
      (before.goto (if before.validators slot = 0 then .forking slot high else .afterSlot slot high))
      slot held := by
  have due : before.phase.stage slot = .due := by
    rw [phase]
    exact if_pos (.inl rfl)
  rw [Polled, due] at polled
  obtain ⟨rfl, untried⟩ := polled
  have none : ¬ Attempts (later ++ [(before, .advance)]) slot := by
    rw [attempts_snoc]
    simp [untried]
  by_cases vacant : before.validators slot = 0
  · have trying : (LauncherPhase.forking slot high).stage slot = .trying := if_pos rfl
    rw [if_pos vacant, Polled, LauncherState.goto, trying]
    exact ⟨vacant, none⟩
  · have past : (LauncherPhase.afterSlot slot high).stage slot = .past := by
      rw [afterSlot_stage]
      simp
    rw [if_neg vacant, Polled, LauncherState.goto, past]
    exact iff_of_false none vacant

theorem Polled.advance {held : Int} (polled : Polled later before slot held)
    (taken : before.advance = some after) : Polled (later ++ [(before, .advance)]) after slot held := by
  have quiet (success : Bool) (high : Bool) (forks : LauncherEvent.advance = .fork success) :
      before.phase ≠ .forking slot high := by
    cases forks
  have settles {phase : LauncherPhase} (was : before.phase = phase) (past : phase.stage slot = .past)
      (past' : after.phase.stage slot = .past) : Polled (later ++ [(before, .advance)]) after slot held := by
    rw [← was] at past
    refine polled.keep (past'.trans past.symm) (fun due => ?_) quiet
    rw [past] at due
    cases due
  rw [LauncherState.advance] at taken
  split at taken
  · rename_i i high phase
    by_cases same : i = slot
    · subst same
      cases taken
      exact polled.decides phase
    · cases taken
      refine polled.keep ?_ (fun _ => rfl) quiet
      rw [LauncherState.goto, phase]
      dsimp only
      split
      · simp [LauncherPhase.stage, same]
      · rw [afterSlot_stage]
        simp [LauncherPhase.stage, same]
  · rename_i i high result phase
    cases taken
    refine polled.keep ?_ (fun due => ?_) quiet
    · rw [phase]
      rfl
    · refine Function.update_of_ne ?_ _ _
      intro same
      subst same
      rw [phase] at due
      simp [LauncherPhase.stage] at due
  · rename_i i high phase
    cases taken
    refine polled.keep ?_ (fun _ => rfl) quiet
    rw [phase, LauncherState.goto, afterSlot_stage]
    rfl
  · rename_i i phase
    split at taken
    · split at taken
      · cases taken
        exact settles phase rfl rfl
      · cases taken
        exact settles phase rfl (afterClear_stage slot i false)
    · cases taken
      exact settles phase rfl (afterClear_stage slot i false)
  · rename_i i phase
    cases taken
    exact settles phase rfl (poke_stage slot i false)
  · rename_i i phase
    split at taken
    · cases taken
      exact settles phase rfl (poke_stage slot i true)
    · cases taken
      exact settles phase rfl (afterClear_stage slot i true)
  · rename_i i sweep phase
    cases taken
    exact settles phase rfl (afterClear_stage slot i sweep)
  · rename_i phase
    cases taken
    exact settles phase rfl rfl
  · cases taken
  · cases taken
  · cases taken

theorem Polled.step {held : Int} (polled : Polled later before slot held)
    (taken : stepLauncher before event = some after) (single : ∀ occupancy, event ≠ .poll occupancy) :
    Polled (later ++ [(before, event)]) after slot held := by
  cases event with
  | poll occupancy => exact absurd rfl (single occupancy)
  | advance => exact polled.advance taken
  | full =>
      simp only [stepLauncher] at taken
      split at taken
      · rename_i phase
        cases taken
        exact polled.keep (by rw [phase]; rfl) (fun _ => rfl) (by simp)
      · cases taken
  | exit id =>
      obtain ⟨children, _, rfl⟩ := Option.map_eq_some_iff.mp taken
      exact polled.keep rfl (fun _ => rfl) (by simp)
  | fork success =>
      simp only [stepLauncher] at taken
      split at taken
      · rename_i i high phase
        have left : after.phase = .storing i high (if success then pid before.children.length else -1) ∧
            after.validators = before.validators := by
          cases success with
          | true =>
              cases taken
              exact ⟨rfl, rfl⟩
          | false =>
              cases taken
              exact ⟨rfl, rfl⟩
        by_cases same : i = slot
        · subst same
          have trying : before.phase.stage i = .trying := by
            rw [phase]
            exact if_pos rfl
          have past : after.phase.stage i = .past := by
            rw [left.1]
            exact if_neg (fun other => other.1 rfl)
          rw [Polled, trying] at polled
          rw [Polled, past]
          exact iff_of_true (attempts_snoc.mpr (.inr ⟨success, high, rfl, phase⟩)) polled.1
        · refine polled.keep ?_ (fun _ => congrFun left.2 slot) (by simp [phase, same])
          rw [left.1, phase]
          simp [LauncherPhase.stage, same]
      · cases taken

/-- The occupancy at which a poll looks at this slot. -/
def Wanted (slot : Slot) (occupancy : ℚ) : Prop :=
  if slot = .first then occupied ≤ occupancy else crowded < occupancy

theorem crowded_occupied {occupancy : ℚ} (high : crowded < occupancy) : occupied ≤ occupancy := by
  have order : occupied ≤ crowded := by decide +kernel
  exact le_of_lt (lt_of_le_of_lt order high)

theorem polled_poll {occupancy : ℚ} (wanted : Wanted slot occupancy) (phase : before.phase = .polling)
    (taken : stepLauncher before (.poll occupancy) = some after) :
    Polled [] after slot (before.validators slot) := by
  rw [stepLauncher, if_pos phase] at taken
  cases taken
  have enough : occupied ≤ occupancy ∧
      (LauncherPhase.testing .first (decide (crowded < occupancy))).stage slot = .due := by
    rw [Wanted] at wanted
    split at wanted
    · rename_i first
      exact ⟨wanted, if_pos (.inl first.symm)⟩
    · exact ⟨crowded_occupied wanted, if_pos (.inr ⟨rfl, decide_eq_true wanted⟩)⟩
  rw [if_pos enough.1, Polled, LauncherState.goto, enough.2]
  refine ⟨rfl, fun attempted => ?_⟩
  obtain ⟨_, _, _, member, _⟩ := attempted
  exact absurd member List.not_mem_nil

theorem polled_run {held : Int} (run : Run stepLauncher before later final) (start : Polled [] before slot held)
    (single : ∀ entry ∈ later, ∀ occupancy, entry.2 ≠ .poll occupancy) : Polled later final slot held := by
  induction run with
  | nil => exact start
  | @snoc _ state event _ earlier taken ih =>
      refine (ih fun entry member => single entry (List.mem_append_left _ member)).step taken ?_
      exact single (state, event) (List.mem_append_right _ (by simp))

/-- In this poll, if no child of the slot is running, the launcher tries to fork one. -/
def Relaunches (state : LauncherState) (later : List (LauncherState × LauncherEvent)) (slot : Slot) : Prop :=
  (∀ child ∈ state.children, child.role = slot → child.status ≠ .running) → Attempts later slot

/-- A poll whose occupancy asks for a validator launches it exactly when no
fork for its slot has failed and the slot's child has been waited for. -/
theorem relaunches_iff {occupancy : ℚ}
    (run : LauncherRun (earlier ++ (state, .poll occupancy) :: later) final)
    (wanted : Wanted slot occupancy) (single : ∀ entry ∈ later, ∀ other, entry.2 ≠ .poll other)
    (finished : final.phase = .sleeping) :
    Relaunches state later slot ↔
      ((∀ child ∈ state.children, child.role = slot → child.status ≠ .running) →
        ¬ ForkFailed earlier slot ∧ ∀ child ∈ state.children, child.role = slot → child.status = .reaped) := by
  obtain ⟨reached, after, taken, rest⟩ := run.split_at
  have phase : state.phase = .polling := by
    by_contra other
    rw [stepLauncher, if_neg other] at taken
    cases taken
  have polled := polled_run rest (polled_poll wanted phase taken) single
  have past : final.phase.stage slot = .past := by
    rw [finished]
    rfl
  have attempted : Attempts later slot ↔ state.validators slot = 0 := by
    rw [Polled, past] at polled
    exact polled
  have reaped : (∀ index, ¬ Unreaped state.children index slot) ↔
      ∀ child ∈ state.children, child.role = slot → child.status = .reaped := by
    constructor
    · intro none child member own
      obtain ⟨index, found⟩ := List.getElem?_of_mem member
      by_contra unwaited
      exact none index ⟨child, found, own, unwaited⟩
    · intro all index given
      obtain ⟨child, found, own, unwaited⟩ := given
      exact unwaited (all child (List.mem_of_getElem? found) own)
  refine imp_congr_right fun _ => ?_
  rw [attempted, (LauncherRun.tracked reached).vacant_iff phase slot, reaped]

end

/-- A poll at three quarters launches a validator, which ends; one at a quarter
waits for it; the next begins at three quarters again. -/
def reapedEvents : List LauncherEvent :=
  [.poll (3 / 4), .advance, .fork true, .advance, .advance, .advance, .exit (pid 0), .poll (1 / 4)] ++
    List.replicate 7 .advance

theorem reaped_executes : (exec stepLauncher LauncherState.initial reapedEvents).isSome = true := by
  decide +kernel

def reapedChild : LauncherState := (exec _ _ _).get reaped_executes

def relaunchingEvents : List LauncherEvent := [.advance, .fork true, .advance, .advance]

theorem relaunching_executes : (exec stepLauncher reapedChild (.poll (3 / 4) :: relaunchingEvents)).isSome = true := by
  decide +kernel

theorem relaunches_iff_of_reaped : ∃ earlier later final,
    LauncherRun (earlier ++ (reapedChild, .poll (3 / 4)) :: later) final ∧ final.phase = .sleeping ∧
    (∃ child ∈ reapedChild.children, child.role = .first ∧ child.status = .reaped) ∧
    Attempts later .first := by
  obtain ⟨earlier, run, events⟩ := exec_run_get reaped_executes
  obtain ⟨trace, rest, restEvents⟩ := exec_run_get relaunching_executes
  obtain ⟨⟨state, event⟩, later, rfl, rfl, laterEvents⟩ := List.map_eq_cons_iff.mp restEvents
  cases rest.head_eq
  have polled : ∀ entry ∈ later, ∀ other, entry.2 ≠ .poll other := by
    intro entry member other same
    have known : entry.2 ∈ relaunchingEvents := laterEvents ▸ List.mem_map_of_mem member
    simp [same, relaunchingEvents] at known
  have unfailed : ¬ ForkFailed earlier .first := by
    intro failed
    obtain ⟨_, _, member, _⟩ := failed
    have known : LauncherEvent.fork false ∈ reapedEvents := events ▸ List.mem_map_of_mem member
    exact absurd known (by decide +kernel)
  have wanted : Wanted .first (3 / 4) := by
    rw [Wanted, if_pos rfl]
    decide +kernel
  have law := relaunches_iff (run.append rest) wanted polled (by decide +kernel)
  have relaunches := law.mpr fun _ => ⟨unfailed, by decide +kernel⟩
  exact ⟨earlier, later, _, run.append rest, by decide +kernel, by decide +kernel, relaunches (by decide +kernel)⟩

/-- A poll at three quarters of the pool, its fork fails, and the next poll begins. -/
def failedForkEvents : List LauncherEvent :=
  [.poll (3 / 4), .advance, .fork false, .advance, .advance, .advance]

theorem failedFork_executes :
    (exec stepLauncher LauncherState.initial failedForkEvents).isSome = true := by
  decide +kernel

def failedFork : LauncherState := (exec _ _ _).get failedFork_executes

theorem failedFork_polls : (stepLauncher failedFork (.poll (3 / 4))).isSome = true := by
  decide +kernel

def repolled : LauncherState := (stepLauncher failedFork (.poll (3 / 4))).get failedFork_polls

theorem repolled_tests : (stepLauncher repolled .advance).isSome = true := by
  decide +kernel

theorem repolled_run : ∃ earlier, LauncherRun
    (earlier ++ (failedFork, .poll (3 / 4)) :: [(repolled, .advance)])
    ((stepLauncher repolled .advance).get repolled_tests) := by
  obtain ⟨trace, run, _⟩ := exec_run_get failedFork_executes
  have polled := (run.snoc (Option.some_get failedFork_polls).symm).snoc (Option.some_get repolled_tests).symm
  rw [List.append_assoc] at polled
  exact ⟨trace, polled⟩

theorem failed_fork_never_retried : ∃ earlier, LauncherRun
    (earlier ++ (failedFork, .poll (3 / 4)) :: [(repolled, .advance)])
    ((stepLauncher repolled .advance).get repolled_tests) ∧
      ((stepLauncher repolled .advance).get repolled_tests).phase = .sleeping ∧
      Wanted .first (3 / 4) ∧ ¬ Relaunches failedFork [(repolled, .advance)] .first := by
  obtain ⟨earlier, run⟩ := repolled_run
  refine ⟨earlier, run, by decide +kernel, ?_, fun relaunches => ?_⟩
  · rw [Wanted, if_pos rfl]
    decide +kernel
  · obtain ⟨_, _, _, member, _⟩ := relaunches (by decide +kernel)
    cases List.mem_singleton.mp member

end DeiChain
