import DeiChain.Locking

namespace DeiChain.Locking

open Systems

/-! # Cancelled miner threads

`signal_handler_thread` requests the end of every miner thread. The request
takes effect at a cancellation point that the thread comes to later;
`cleanup_thread_resources` then frees memory and posts no semaphore.
-/

/-- Everything but the calls that are no cancellation points: the waits, the
writes, `pthread_testcancel` and the stdio calls. -/
def Place.cancellationPoint : Place → Bool
  | .other => false
  | _ => true

def cancellable {Process : Type} (names : Process → ProgramName) (process : Process) (place : Place) : Bool :=
  names process == .minerThread && place.cancellationPoint

/-- The stdio calls with which `log_info` writes the log, and all of the
`log_info` for the failed allocation of `selected_bitmap`. -/
def Place.leaks : Place → Bool
  | .logOutput _ => true
  | .formatError site | .logWait site => site == .bitmapFailed
  | _ => false

/-- What a miner thread holds at a cancellation point. -/
def ProgramName.expects (name : ProgramName) (place : Place) (held : List Semaphore) : Bool :=
  !(name == .minerThread && place.cancellationPoint) || held.isEmpty == !place.leaks

theorem ProgramName.sound_expects (name : ProgramName) :
    name.program.Sound ⟨Semaphore.rank, name.expects⟩ := by
  cases name
  all_goals rfl

/-- Any processes that run these programs; the miner threads can be cancelled. -/
abbrev CancellationRun {Process : Type} [DecidableEq Process] (names : Process → ProgramName) :=
  Run (LockState.step (cancellable names)) (LockState.initial fun process => (names process).program)

/-- No cancelled thread holds a semaphore, so each is one again when the
processes that are left have posted it. -/
def Released {Process : Type} [Fintype Process] (state : LockState Process Semaphore Place) : Prop :=
  (∀ process, state.cancelled process = true → ∀ sem, sem ∉ state.inside process) ∧
    ∀ sem, state.sem sem + (state.liveHolders sem).card = 1

/-- A cancellation takes effect at none of these places. -/
def cancelsHarmlessly {Process : Type} (state : LockState Process Semaphore Place) : LockEvent Process → Bool
  | .cancel process => !((state.control process).label?).any Place.leaks
  | .step _ _ | .request _ => true

section

variable {Process : Type} [DecidableEq Process] {names : Process → ProgramName}
  {trace : List (LockState Process Semaphore Place × LockEvent Process)}
  {before final : LockState Process Semaphore Place}

/-- The point at which a thread is cancelled tells whether it holds a semaphore. -/
theorem CancellationRun.inside_nil_iff [Fintype Process] {process : Process}
    (run : CancellationRun names trace final) (member : (before, .cancel process) ∈ trace) :
    before.inside process = [] ↔ cancelsHarmlessly before (.cancel process) = true := by
  obtain ⟨place, here, allowed, expected⟩ :=
    LockState.run_cancel (fun process => (names process).sound_expects) run member
  rw [cancellable] at allowed
  have holds : (before.inside process).isEmpty = !place.leaks := by
    simpa [ProgramName.expects, allowed] using expected
  simp [cancelsHarmlessly, here, ← holds]

/-- The semaphores are released in a run exactly when no thread is cancelled
inside a `log_info` while it holds one. -/
theorem released_iff [Fintype Process] (run : CancellationRun names trace final) :
    Released final ↔ ∀ entry ∈ trace, cancelsHarmlessly entry.1 entry.2 = true := by
  have orderly := LockState.run_orderly (fun process => (names process).sound_expects) run
  have clean := LockState.clean_iff (fun process => (names process).sound_expects) run
  have released : Released final ↔ final.Clean := by
    rw [Released, orderly.live_balanced_iff]
    simp only [LockState.Clean, List.eq_nil_iff_forall_not_mem, and_self]
  rw [released, clean]
  constructor
  · intro empty entry member
    obtain ⟨before, event⟩ := entry
    cases event with
    | cancel process => exact (run.inside_nil_iff member).mp (empty _ member process rfl)
    | step process choice => rfl
    | request process => rfl
  · intro harmless entry member process same
    obtain ⟨before, event⟩ := entry
    cases same
    exact (run.inside_nil_iff member).mpr (harmless _ member)

end

/-- The signal handler thread comes to its first `pthread_cancel`. -/
def handleSigterm : List (LockEvent Bool) :=
  List.replicate 3 (.step false false) ++ List.replicate 2 (.step false true) ++
    List.replicate 16 (.step false false) ++ [.step false true] ++ List.replicate 16 (.step false false)

/-- It cancels the miner thread, which has come to a cancellation point. -/
def cancelMinerThread : List (LockEvent Bool) := [.request true, .step false false, .cancel true]

/-- The miner thread is at `pthread_testcancel`. -/
def harmlessEvents : List (LockEvent Bool) :=
  handleSigterm ++ List.replicate 16 (.step true false) ++ [.step true true] ++
    List.replicate 3 (.step true false) ++ cancelMinerThread

theorem harmless_executes :
    (exec (guarded (LockState.step (cancellable (minerThreadWith .signalHandlerThread))) cancelsHarmlessly)
      (LockState.initial fun process => (minerThreadWith .signalHandlerThread process).program)
      harmlessEvents).isSome = true := by
  decide +kernel

theorem harmless_released : ∃ trace final,
    CancellationRun (minerThreadWith .signalHandlerThread) trace final ∧
      final.cancelled true = true ∧ Released final := by
  obtain ⟨trace, checked, _⟩ := exec_run_get harmless_executes
  obtain ⟨run, harmless⟩ := checked.of_guarded
  exact ⟨trace, _, run, by decide +kernel, (released_iff run).mpr harmless⟩

/-- The miner thread is at the first `fprintf` of its first `log_info`. -/
def leakEvents : List (LockEvent Bool) :=
  handleSigterm ++ List.replicate 5 (.step true false) ++ cancelMinerThread

theorem leak_executes :
    (exec (LockState.step (cancellable (minerThreadWith .signalHandlerThread)))
      (LockState.initial fun process => (minerThreadWith .signalHandlerThread process).program)
      leakEvents).isSome = true := by
  decide +kernel

theorem log_semaphore_leaks : ∃ trace final,
    CancellationRun (minerThreadWith .signalHandlerThread) trace final ∧
      final.sem .logFile = 0 ∧ final.liveHolders .logFile = ∅ ∧ ¬ Released final := by
  obtain ⟨trace, run, _⟩ := exec_run_get leak_executes
  have empty : ((exec (LockState.step (cancellable (minerThreadWith .signalHandlerThread))) _
      leakEvents).get leak_executes).sem .logFile = 0 ∧
      ((exec (LockState.step (cancellable (minerThreadWith .signalHandlerThread))) _
      leakEvents).get leak_executes).liveHolders .logFile = ∅ := by
    decide +kernel
  refine ⟨trace, _, run, empty.1, empty.2, fun released => ?_⟩
  have one := released.2 .logFile
  rw [empty.1, empty.2] at one
  cases one

end DeiChain.Locking
