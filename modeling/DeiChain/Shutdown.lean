import DeiChain.Handling

namespace DeiChain

open Data Systems

variable {n : Nat}

/-! # Shutdown

The controller ends the miner process first. Its signal handler thread cancels
and joins every thread before it posts `sem_pipeclosed`, and only then does the
controller end validator 1. Validators 2 and 3 may come and go at any time.
-/

/-- Where `cleanup` is with the children in `pids`. -/
inductive ControllerPhase where
  | running
  | minerSignalled
  | pipeClosed
  | validatorSignalled
  | statisticsSignalled
deriving DecidableEq

/-- Where `signal_handler_thread` is; the index is that of its two loops. -/
inductive HandlerPhase where
  | waiting
  | cancelling (i : Nat)
  | joining (i : Nat)
  | posted
deriving DecidableEq

structure ShutdownState (n : Nat) where
  system : State n
  controller : ControllerPhase
  handler : HandlerPhase
  cancelRequested : Nat → Bool
  cancelled : Nat → Bool
  semPipeclosed : Nat

def ShutdownState.initial (setup : Setup) : ShutdownState setup.txs :=
  { system := State.initial setup
    controller := .running
    handler := .waiting
    cancelRequested := fun _ => false
    cancelled := fun _ => false
    semPipeclosed := 0 }

/-- `cancel` is a pending cancellation that takes effect: a thread that has not
returned always has a cancellation point ahead of it. -/
inductive ShutdownEvent where
  | system (event : Event)
  | cancel (thread : Nat)
  | handle
  | signalMiner
  | awaitPipe
  | signalValidator
  | signalStatistics
deriving DecidableEq

def MinerPhase.isFinished : MinerPhase n → Bool
  | .finished => true
  | _ => false

def ShutdownState.ended (state : ShutdownState n) (thread : Nat) : Bool :=
  state.cancelled thread || (state.system.miners thread).phase.isFinished

/-- The controller has sent SIGTERM to validator 1. -/
def ControllerPhase.endsValidator : ControllerPhase → Bool
  | .validatorSignalled | .statisticsSignalled => true
  | _ => false

section

variable (setup : Setup) (state : ShutdownState setup.txs)

/-- A thread that has ended does nothing more, and validator 1 has no SIGTERM to
handle before the controller sends it. -/
def ShutdownState.admits : Event → Bool
  | .kill num => num != 1 || state.controller.endsValidator
  | event => event.thread?.all fun thread => !state.cancelled thread

/-- `threads[i]` is the thread that numbers itself `i + 1`. -/
def stepHandler : Option (ShutdownState setup.txs) :=
  match state.handler with
  | .waiting => if state.controller = .running then none else some { state with handler := .cancelling 0 }
  | .cancelling i =>
      if i < setup.cfg.numMiners then
        some { state with
          cancelRequested := Function.update state.cancelRequested (i + 1) true
          handler := .cancelling (i + 1) }
      else some { state with handler := .joining 0 }
  | .joining i =>
      if i < setup.cfg.numMiners then
        if state.ended (i + 1) then some { state with handler := .joining (i + 1) } else none
      else some { state with semPipeclosed := state.semPipeclosed + 1, handler := .posted }
  | .posted => none

def stepShutdown : ShutdownEvent → Option (ShutdownState setup.txs)
  | .system event =>
      if state.admits setup event then
        (step setup state.system event).map fun system => { state with system }
      else none
  | .cancel thread =>
      if state.cancelRequested thread ∧ ¬ state.ended thread then
        some { state with cancelled := Function.update state.cancelled thread true }
      else none
  | .handle => stepHandler setup state
  | .signalMiner =>
      if state.controller = .running then some { state with controller := .minerSignalled } else none
  | .awaitPipe =>
      if state.controller = .minerSignalled ∧ 0 < state.semPipeclosed then
        some { state with controller := .pipeClosed, semPipeclosed := state.semPipeclosed - 1 }
      else none
  | .signalValidator =>
      if state.controller = .pipeClosed then some { state with controller := .validatorSignalled }
      else none
  | .signalStatistics =>
      if state.controller = .validatorSignalled then
        some { state with controller := .statisticsSignalled }
      else none

end

abbrev ShutdownRun (setup : Setup) (trace : List (ShutdownState setup.txs × ShutdownEvent))
    (final : ShutdownState setup.txs) : Prop :=
  Run (stepShutdown setup) (ShutdownState.initial setup) trace final

def ShutdownEvent.event? : ShutdownEvent → Option Event
  | .system event => some event
  | _ => none

def beforeShutdown {setup : Setup} (trace : List (ShutdownState setup.txs × ShutdownEvent)) :
    List (State setup.txs × Event) :=
  trace.filterMap fun entry => entry.2.event?.map fun event => (entry.1.system, event)

section

variable {setup : Setup} {before after final : ShutdownState setup.txs} {event : ShutdownEvent}
  {trace : List (ShutdownState setup.txs × ShutdownEvent)}

theorem stepShutdown_system (taken : stepShutdown setup before event = some after) :
    (event.event? = none → after.system = before.system) ∧
      ∀ own, event.event? = some own →
        before.admits setup own = true ∧ step setup before.system own = some after.system ∧
          after = { before with system := after.system } := by
  cases event with
  | system own =>
      refine ⟨fun none => ?_, fun other same => ?_⟩
      · cases none
      · cases same
        simp only [stepShutdown] at taken
        split at taken
        · rename_i admitted
          obtain ⟨system, stepped, rfl⟩ := Option.map_eq_some_iff.mp taken
          exact ⟨admitted, stepped, rfl⟩
        · cases taken
  | handle =>
      refine ⟨fun _ => ?_, fun other same => ?_⟩
      · simp only [stepShutdown, stepHandler] at taken
        split at taken <;> (try split at taken) <;> (try split at taken) <;> cases taken <;> rfl
      · cases same
  | cancel | signalMiner | awaitPipe | signalValidator | signalStatistics =>
      refine ⟨fun _ => ?_, fun other same => ?_⟩
      · simp only [stepShutdown] at taken
        split at taken
        · cases taken
          rfl
        · cases taken
      · cases same

theorem ShutdownRun.system (run : ShutdownRun setup trace final) :
    SystemRun setup (beforeShutdown trace) final.system := by
  induction run with
  | nil => exact .nil
  | @snoc earlierTrace before event after earlier taken ih =>
      obtain ⟨silent, stepped⟩ := stepShutdown_system taken
      rw [beforeShutdown, List.filterMap_append, ← beforeShutdown]
      cases label : event.event? with
      | none => simpa [label, silent label] using ih
      | some own => simpa [label] using ih.snoc (stepped own label).2.1

theorem step_finished {state next : State setup.txs} {own : Event} {thread : Nat}
    (taken : step setup state own = some next)
    (finished : (state.miners thread).phase.isFinished = true) :
    (next.miners thread).phase.isFinished = true := by
  by_cases acts : own.thread? = some thread
  · cases own with
    | pollPool | pollLedger | select | readTip | mine | write | abandon =>
        cases acts
        simp only [step, stepPollPool, stepPollLedger, stepSelect, stepReadTip, stepMine, stepWrite,
          stepAbandon] at taken
        generalize phase : (state.miners thread).phase = current at taken finished
        cases current with
        | finished => cases taken
        | _ => cases finished
    | _ => cases acts
  · rw [(step_transition taken).miner_other acts]
    exact finished

theorem stepHandler_ended (taken : stepHandler setup before = some after) (thread : Nat) :
    after.ended thread = before.ended thread := by
  simp only [stepHandler] at taken
  split at taken
  · split at taken
    · cases taken
    · cases taken
      rfl
  · split at taken
    · cases taken
      rfl
    · cases taken
      rfl
  · split at taken
    · split at taken
      · cases taken
        rfl
      · cases taken
    · cases taken
      rfl
  · cases taken

theorem stepShutdown_ended (taken : stepShutdown setup before event = some after) {thread : Nat}
    (ended : before.ended thread = true) : after.ended thread = true := by
  cases event with
  | system own =>
      obtain ⟨_, stepped, rest⟩ := (stepShutdown_system taken).2 own rfl
      rw [rest]
      rcases Bool.or_eq_true_iff.mp ended with cancelled | finished
      · exact Bool.or_eq_true_iff.mpr (.inl cancelled)
      · exact Bool.or_eq_true_iff.mpr (.inr (step_finished stepped finished))
  | cancel other =>
      simp only [stepShutdown] at taken
      split at taken
      · cases taken
        rcases Bool.or_eq_true_iff.mp ended with cancelled | finished
        · refine Bool.or_eq_true_iff.mpr (.inl ?_)
          dsimp only
          by_cases same : thread = other
          · rw [same, Function.update_self]
          · rw [Function.update_of_ne same]
            exact cancelled
        · exact Bool.or_eq_true_iff.mpr (.inr finished)
      · cases taken
  | handle => exact (stepHandler_ended taken thread).trans ended
  | signalMiner | awaitPipe | signalValidator | signalStatistics =>
      simp only [stepShutdown] at taken
      split at taken
      · cases taken
        exact ended
      · cases taken

/-- The controller has taken `sem_pipeclosed`. -/
def ControllerPhase.passed : ControllerPhase → Nat
  | .running | .minerSignalled => 0
  | _ => 1

def HandlerPhase.posts : HandlerPhase → Nat
  | .posted => 1
  | _ => 0

/-- How many threads the handler has joined. -/
def HandlerPhase.joined (numMiners : Nat) : HandlerPhase → Nat
  | .joining i => i
  | .posted => numMiners
  | _ => 0

structure ShutdownInvariant (setup : Setup) (state : ShutdownState setup.txs) : Prop where
  joined : ∀ thread, 1 ≤ thread → thread ≤ state.handler.joined setup.cfg.numMiners →
    state.ended thread = true
  within : state.handler.joined setup.cfg.numMiners ≤ setup.cfg.numMiners
  balance : state.semPipeclosed + state.controller.passed = state.handler.posts

theorem ShutdownInvariant.handle (held : ShutdownInvariant setup before)
    (taken : stepHandler setup before = some after) : ShutdownInvariant setup after := by
  obtain ⟨joined, within, balance⟩ := held
  have kept (thread : Nat) := stepHandler_ended taken thread
  simp only [stepHandler] at taken
  split at taken
  · rename_i waiting
    rw [waiting] at balance
    split at taken
    · cases taken
    · cases taken
      exact ⟨fun thread lower upper => absurd upper (Nat.not_le_of_gt lower), Nat.zero_le _, balance⟩
  · rename_i i cancelling
    rw [cancelling] at balance
    split at taken
    · cases taken
      exact ⟨fun thread lower upper => absurd upper (Nat.not_le_of_gt lower), Nat.zero_le _, balance⟩
    · cases taken
      exact ⟨fun thread lower upper => absurd upper (Nat.not_le_of_gt lower), Nat.zero_le _, balance⟩
  · rename_i i joining
    rw [joining] at joined within balance
    split at taken
    · rename_i below
      split at taken
      · rename_i ended
        cases taken
        refine ⟨fun thread lower upper => ?_, below, balance⟩
        rw [kept]
        rcases Nat.lt_or_eq_of_le upper with earlier | here
        · exact joined thread lower (Nat.le_of_lt_succ earlier)
        · rw [here]
          exact ended
      · cases taken
    · rename_i all
      cases taken
      have whole : i = setup.cfg.numMiners := Nat.le_antisymm within (Nat.not_lt.mp all)
      refine ⟨fun thread lower upper => ?_, Nat.le_refl _, ?_⟩
      · rw [kept]
        exact joined thread lower (whole ▸ upper)
      · simp only [HandlerPhase.posts] at balance ⊢
        omega
  · cases taken

theorem ShutdownInvariant.step (held : ShutdownInvariant setup before)
    (taken : stepShutdown setup before event = some after) : ShutdownInvariant setup after := by
  have ended (thread : Nat) : before.ended thread = true → after.ended thread = true :=
    stepShutdown_ended taken
  cases event with
  | handle => exact held.handle taken
  | system own =>
      have rest := ((stepShutdown_system taken).2 own rfl).2.2
      rw [rest] at ended ⊢
      exact ⟨fun thread lower upper => ended thread (held.joined thread lower upper), held.within, held.balance⟩
  | cancel thread =>
      simp only [stepShutdown] at taken
      split at taken
      · cases taken
        exact ⟨fun thread lower upper => ended thread (held.joined thread lower upper), held.within, held.balance⟩
      · cases taken
  | signalMiner | awaitPipe | signalValidator | signalStatistics =>
      obtain ⟨joined, within, balance⟩ := held
      simp only [stepShutdown] at taken
      split at taken
      · rename_i phase
        cases taken
        refine ⟨joined, within, ?_⟩
        simp only [phase, ControllerPhase.passed] at balance ⊢
        omega
      · cases taken

theorem ShutdownRun.invariant (run : ShutdownRun setup trace final) : ShutdownInvariant setup final := by
  refine Run.invariant (ShutdownInvariant setup) ⟨?_, Nat.zero_le _, rfl⟩
    (fun _ _ _ held taken => held.step taken) run
  exact fun thread lower upper => absurd upper (Nat.not_le_of_gt lower)

/-- When validator 1 is told to end, every thread has been joined. -/
theorem ShutdownRun.ended (run : ShutdownRun setup trace final)
    (signalled : final.controller.endsValidator = true) {thread : Nat} (lower : 1 ≤ thread)
    (upper : thread ≤ setup.cfg.numMiners) : final.ended thread = true := by
  obtain ⟨joined, _, balance⟩ := ShutdownRun.invariant run
  have passed : final.controller.passed = 1 := by
    cases phase : final.controller with
    | validatorSignalled | statisticsSignalled => rfl
    | _ =>
        rw [phase] at signalled
        cases signalled
  cases handler : final.handler with
  | posted =>
      rw [handler] at joined
      exact joined thread lower upper
  | _ =>
      rw [handler, passed] at balance
      simp [HandlerPhase.posts] at balance

theorem ShutdownRun.no_write (run : ShutdownRun setup trace final)
    (signalled : final.controller.endsValidator = true) (thread : Nat) (pointer : UInt64) :
    stepShutdown setup final (.system (.write thread pointer)) = none := by
  cases taken : stepShutdown setup final (.system (.write thread pointer)) with
  | none => rfl
  | some after =>
      obtain ⟨admitted, stepped, _⟩ := (stepShutdown_system taken).2 _ rfl
      have alive : final.cancelled thread = false := by
        simpa [ShutdownState.admits, Event.thread?] using admitted
      have authors := SystemRun.authors (ShutdownRun.system run)
      have working : (final.system.miners thread).phase ≠ .waiting := by
        intro waiting
        simp [step, stepWrite, waiting] at stepped
      obtain ⟨lower, upper⟩ := authors.working thread working
      have ended := ShutdownRun.ended run signalled lower upper
      rw [ShutdownState.ended, alive, Bool.false_or] at ended
      simp only [step, stepWrite] at stepped
      generalize (final.system.miners thread).phase = phase at stepped ended
      cases phase with
      | finished => cases stepped
      | _ => cases ended

/-- From the moment the controller has told validator 1 to end, every thread
has ended and the pipe is not written to. -/
theorem pipe_reader_outlives_writers (run : ShutdownRun setup trace final) :
    (final.controller.endsValidator = true →
      ∀ thread, 1 ≤ thread → thread ≤ setup.cfg.numMiners → final.ended thread = true) ∧
    ∀ state thread pointer, (state, ShutdownEvent.system (.write thread pointer)) ∈ trace →
      state.controller.endsValidator = false := by
  constructor
  · intro signalled thread lower upper
    exact ShutdownRun.ended run signalled lower upper
  · intro state thread pointer member
    obtain ⟨_, _, after, _, reached, taken, _⟩ := run.recorded member
    cases signalled : state.controller.endsValidator with
    | false => rfl
    | true =>
        rw [ShutdownRun.no_write reached signalled thread pointer] at taken
        cases taken

/-- The signal handler thread of a miner process with two threads, from SIGTERM
to its end, and the controller up to its SIGTERM to validator 1. -/
def endMinerEvents : List ShutdownEvent :=
  [.signalMiner, .handle, .handle, .handle, .handle, .cancel 1, .cancel 2, .handle, .handle, .handle,
    .awaitPipe, .signalValidator]

def quietShutdownEvents : List ShutdownEvent := firstBlockEvents.map .system ++ endMinerEvents

theorem quietShutdown_executes :
    (exec (stepShutdown smallSetup) (ShutdownState.initial smallSetup) quietShutdownEvents).isSome = true := by
  decide +kernel

def quietShutdown : ShutdownState smallSetup.txs := (exec _ _ _).get quietShutdown_executes

theorem quietShutdown_run : ∃ trace, ShutdownRun smallSetup trace quietShutdown ∧
    trace.map Prod.snd = quietShutdownEvents :=
  exec_run_get quietShutdown_executes

theorem pipe_reader_outlives_small_writers : ∃ trace, ShutdownRun smallSetup trace quietShutdown ∧
    (quietShutdown.controller.endsValidator = true ∧
      ∀ thread, 1 ≤ thread → thread ≤ 2 → quietShutdown.ended thread = true) ∧
    ∀ state thread pointer, (state, ShutdownEvent.system (.write thread pointer)) ∈ trace →
      state.controller.endsValidator = false := by
  obtain ⟨trace, run, _⟩ := quietShutdown_run
  obtain ⟨ended, unwritten⟩ := pipe_reader_outlives_writers run
  have signalled : quietShutdown.controller.endsValidator = true := by decide +kernel
  exact ⟨trace, run, ⟨signalled, ended signalled⟩, unwritten⟩

end

/-- Every frame written to the pipe has been read and decided on. -/
def FramesDecided {setup : Setup} (trace : List (ShutdownState setup.txs × ShutdownEvent)) : Prop :=
  (decidedBlocks (beforeShutdown trace)).Perm (writtenBlocks (beforeShutdown trace))

theorem quietShutdown_ends :
    (stepShutdown smallSetup quietShutdown (.system (.kill 1))).isSome = true := by
  decide +kernel

def Event.ends : Event → Bool
  | .leave _ | .kill _ => true
  | _ => false

/-- A thread writes a frame, and validator 1 handles the SIGTERM before it reads again. -/
def lostFrameEvents : List ShutdownEvent :=
  ([insertEvent 1, .start 1, .genesis 1] ++ mineEvents 1 [0]).map .system ++ endMinerEvents

theorem lostFrame_executes :
    (exec (stepShutdown smallSetup) (ShutdownState.initial smallSetup) lostFrameEvents).isSome = true := by
  decide +kernel

def lostFrame : ShutdownState smallSetup.txs := (exec _ _ _).get lostFrame_executes

theorem lostFrame_ends : (stepShutdown smallSetup lostFrame (.system (.kill 1))).isSome = true := by
  decide +kernel

end DeiChain
