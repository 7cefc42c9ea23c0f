import DeiChain.Systems.Command
import DeiChain.Systems.Run
import Mathlib.Data.Fintype.Basic
import Mathlib.Data.Finset.Card
import Mathlib.Logic.Function.Basic
import Mathlib.Logic.Relation

namespace Systems

universe u v

/-! # Processes that share locks

Every process runs a command; a lock is a counting semaphore that starts at
one. `inside` remembers the locks a process has waited for and not posted. A
process can be asked to end, which happens later and at certain places only,
and gives no lock back.
-/

structure LockState (Process : Type) (Lock : Type u) (Label : Type v) where
  control : Process → Control Lock Label
  inside : Process → List Lock
  sem : Lock → Nat
  requested : Process → Bool
  cancelled : Process → Bool

inductive LockEvent (Process : Type) where
  | step (process : Process) (choice : Bool)
  | request (process : Process)
  | cancel (process : Process)

namespace LockState

variable {Process : Type} {Lock : Type u} {Label : Type v}

def initial (programs : Process → Command Lock Label) : LockState Process Lock Label where
  control process := [.run (programs process)]
  inside _ := []
  sem _ := 1
  requested _ := false
  cancelled _ := false

variable [DecidableEq Process] [DecidableEq Lock]

def proceed (state : LockState Process Lock Label) (process : Process) (next : Control Lock Label) :
    LockState Process Lock Label :=
  { state with control := Function.update state.control process next }

def enter (state : LockState Process Lock Label) (process : Process) (lock : Lock) :
    LockState Process Lock Label :=
  { state with
    inside := Function.update state.inside process (lock :: state.inside process)
    sem := Function.update state.sem lock (state.sem lock - 1) }

def release (state : LockState Process Lock Label) (process : Process) (lock : Lock) :
    LockState Process Lock Label :=
  { state with
    inside := Function.update state.inside process ((state.inside process).erase lock)
    sem := Function.update state.sem lock (state.sem lock + 1) }

/-- A wait goes on only when the semaphore is positive. -/
def apply (state : LockState Process Lock Label) (process : Process) :
    Effect Lock → Option (LockState Process Lock Label)
  | .silent => some state
  | .wait lock => if 0 < state.sem lock then some (state.enter process lock) else none
  | .post lock => some (state.release process lock)

/-- `cancellable` gives the places at which a request takes effect. -/
def step (cancellable : Process → Label → Bool) (state : LockState Process Lock Label) :
    LockEvent Process → Option (LockState Process Lock Label)
  | .step process choice =>
      ((state.control process).advance choice).bind fun taken =>
        (state.apply process taken.1).map fun after => after.proceed process taken.2
  | .request process =>
      some { state with requested := Function.update state.requested process true }
  | .cancel process =>
      if state.requested process && ((state.control process).label?).any (cancellable process) then
        some { state.proceed process [] with cancelled := Function.update state.cancelled process true }
      else none

variable {cancellable : Process → Label → Bool} {state after : LockState Process Lock Label}
  {process : Process} {lock : Lock}

/-- What a step can do. -/
theorem step_cases {event : LockEvent Process} (taken : step cancellable state event = some after) :
    (∃ process choice effect next middle, event = .step process choice ∧
      (state.control process).advance choice = some (effect, next) ∧
      state.apply process effect = some middle ∧ after = middle.proceed process next) ∨
    (∃ process, event = .request process ∧
      after = { state with requested := Function.update state.requested process true }) ∨
    (∃ process label, event = .cancel process ∧ (state.control process).label? = some label ∧
      cancellable process label = true ∧
      after = { state.proceed process [] with
        cancelled := Function.update state.cancelled process true }) := by
  cases event with
  | step process choice =>
      left
      simp only [step, Option.bind_eq_some_iff, Option.map_eq_some_iff] at taken
      obtain ⟨⟨effect, next⟩, advanced, middle, applied, rfl⟩ := taken
      exact ⟨process, choice, effect, next, middle, rfl, advanced, applied, rfl⟩
  | request process =>
      right; left
      cases taken
      exact ⟨process, rfl, rfl⟩
  | cancel process =>
      right; right
      simp only [step] at taken
      split at taken
      · rename_i allowed
        cases taken
        simp only [Bool.and_eq_true, Option.any_eq_true] at allowed
        obtain ⟨_, label, place, here⟩ := allowed
        exact ⟨process, label, rfl, place, here, rfl⟩
      · cases taken

theorem apply_inside_other {effect : Effect Lock} {middle : LockState Process Lock Label} {other : Process}
    (applied : state.apply process effect = some middle) (different : other ≠ process) :
    middle.inside other = state.inside other := by
  cases effect with
  | silent => cases applied; rfl
  | wait lock =>
      simp only [apply] at applied
      split at applied
      · cases applied
        simp [enter, different]
      · cases applied
  | post lock =>
      cases applied
      simp [release, different]

theorem apply_cancelled {effect : Effect Lock} {middle : LockState Process Lock Label}
    (applied : state.apply process effect = some middle) : middle.cancelled = state.cancelled := by
  cases effect with
  | silent => cases applied; rfl
  | wait lock =>
      simp only [apply] at applied
      split at applied
      · cases applied
        rfl
      · cases applied
  | post lock =>
      cases applied
      rfl

variable [Fintype Process]

/-- The processes between their wait and their post. -/
def holders (state : LockState Process Lock Label) (lock : Lock) : Finset Process :=
  Finset.univ.filter fun process => lock ∈ state.inside process

def liveHolders (state : LockState Process Lock Label) (lock : Lock) : Finset Process :=
  Finset.univ.filter fun process => lock ∈ state.inside process ∧ state.cancelled process = false

/-- `first` holds a lock and waits for one that `second` holds. -/
def WaitsOn (state : LockState Process Lock Label) (first second : Process) : Prop :=
  state.inside first ≠ [] ∧
    ∃ lock, (state.control first).waits? = some lock ∧ lock ∈ state.inside second

/-- No process that was ended holds a lock. -/
def Clean (state : LockState Process Lock Label) : Prop :=
  ∀ process, state.cancelled process = true → state.inside process = []

structure Orderly (rank : Lock → Nat) (expects : Process → Label → List Lock → Bool)
    (state : LockState Process Lock Label) : Prop where
  fits : ∀ process, state.cancelled process = false →
    Fits ⟨rank, expects process⟩ (state.inside process) (state.control process)
  ended : ∀ process, state.cancelled process = true → state.control process = []
  distinct : ∀ process, (state.inside process).Nodup
  balanced : ∀ lock, state.sem lock + (state.holders lock).card = 1

variable {rank : Lock → Nat} {expects : Process → Label → List Lock → Bool}
  {programs : Process → Command Lock Label}

omit [DecidableEq Process] in
@[simp] theorem mem_holders : process ∈ state.holders lock ↔ lock ∈ state.inside process := by
  simp [holders]

omit [DecidableEq Process] in
@[simp] theorem mem_liveHolders :
    process ∈ state.liveHolders lock ↔ lock ∈ state.inside process ∧ state.cancelled process = false := by
  simp [liveHolders]

theorem card_holders_enter (outside : lock ∉ state.inside process) :
    ((state.enter process lock).holders lock).card = (state.holders lock).card + 1 := by
  have grown : (state.enter process lock).holders lock = insert process (state.holders lock) := by
    ext other
    by_cases same : other = process
    · simp [enter, same]
    · simp [enter, same]
  rw [grown, Finset.card_insert_of_notMem]
  simpa using outside

theorem card_holders_release (holds : lock ∈ state.inside process)
    (distinct : (state.inside process).Nodup) :
    ((state.release process lock).holders lock).card + 1 = (state.holders lock).card := by
  have shrunk : (state.release process lock).holders lock = (state.holders lock).erase process := by
    ext other
    by_cases same : other = process
    · simp [release, same, distinct.mem_erase_iff]
    · simp [release, same]
  rw [shrunk, Finset.card_erase_add_one]
  simpa using holds

theorem holders_enter_other {other : Lock} (different : other ≠ lock) :
    (state.enter process lock).holders other = state.holders other := by
  ext reader
  by_cases same : reader = process
  · simp [enter, same, different]
  · simp [enter, same]

theorem holders_release_other {other : Lock} (different : other ≠ lock) :
    (state.release process lock).holders other = state.holders other := by
  ext reader
  by_cases same : reader = process
  · simp [release, same, List.mem_erase_of_ne different]
  · simp [release, same]

/-- A balanced semaphore stays so when a process that is outside enters. -/
theorem balanced_enter (balanced : ∀ lock, state.sem lock + (state.holders lock).card = 1)
    (free : 0 < state.sem lock) (outside : lock ∉ state.inside process) (other : Lock) :
    (state.enter process lock).sem other + ((state.enter process lock).holders other).card = 1 := by
  by_cases same : other = lock
  · subst same
    have before := balanced other
    rw [card_holders_enter outside]
    simp only [enter, Function.update_self]
    omega
  · rw [holders_enter_other same]
    simpa [enter, same] using balanced other

theorem balanced_release (balanced : ∀ lock, state.sem lock + (state.holders lock).card = 1)
    (holds : lock ∈ state.inside process) (distinct : (state.inside process).Nodup) (other : Lock) :
    (state.release process lock).sem other + ((state.release process lock).holders other).card = 1 := by
  by_cases same : other = lock
  · subst same
    have before := balanced other
    have less := card_holders_release holds distinct
    simp only [release, Function.update_self] at less ⊢
    omega
  · rw [holders_release_other same]
    simpa [release, same] using balanced other

omit [DecidableEq Process] in
theorem initial_orderly
    (sound : ∀ process, (programs process).Sound ⟨rank, expects process⟩) :
    (initial programs).Orderly rank expects where
  fits process _ := (sound process).fits
  ended process stopped := by simp [initial] at stopped
  distinct process := by simp [initial]
  balanced lock := by simp [initial, holders]

/-- Only the process that takes the step has to be looked at again. -/
theorem Orderly.proceed {middle : LockState Process Lock Label} {next : Control Lock Label}
    (orderly : state.Orderly rank expects) (live : state.cancelled process = false)
    (control : middle.control = state.control) (cancelled : middle.cancelled = state.cancelled)
    (others : ∀ other, other ≠ process → middle.inside other = state.inside other)
    (fits : Fits ⟨rank, expects process⟩ (middle.inside process) next)
    (distinct : (middle.inside process).Nodup)
    (balanced : ∀ lock, middle.sem lock + (middle.holders lock).card = 1) :
    (middle.proceed process next).Orderly rank expects where
  fits other running := by
    by_cases same : other = process
    · subst same
      simpa [LockState.proceed] using fits
    · have kept := orderly.fits other (by simpa [LockState.proceed, cancelled] using running)
      simpa [LockState.proceed, same, control, others other same] using kept
  ended other stopped := by
    have stoppedBefore : state.cancelled other = true := by
      simpa [LockState.proceed, cancelled] using stopped
    have different : other ≠ process := by
      intro same
      subst same
      simp [live] at stoppedBefore
    simpa [LockState.proceed, different, control] using orderly.ended other stoppedBefore
  distinct other := by
    by_cases same : other = process
    · subst same
      exact distinct
    · exact (others other same).symm ▸ orderly.distinct other
  balanced := balanced

/-- What the discipline allows a process to do keeps the invariant. -/
theorem Orderly.apply {effect : Effect Lock} {next : Control Lock Label} {middle : LockState Process Lock Label}
    (orderly : state.Orderly rank expects) (live : state.cancelled process = false)
    (takes : (⟨rank, expects process⟩ : Discipline Lock Label).Takes (state.inside process) next effect)
    (applied : state.apply process effect = some middle) :
    (middle.proceed process next).Orderly rank expects := by
  cases effect with
  | silent =>
      cases applied
      exact orderly.proceed live rfl rfl (fun _ _ => rfl) takes (orderly.distinct process) orderly.balanced
  | wait lock =>
      obtain ⟨outside, _, fits⟩ := takes
      simp only [LockState.apply] at applied
      split at applied
      · rename_i free
        cases applied
        refine orderly.proceed live rfl rfl ?_ ?_ ?_ (balanced_enter orderly.balanced free outside)
        · intro other different
          simp [enter, different]
        · simpa [enter] using fits
        · simpa [enter] using And.intro outside (orderly.distinct process)
      · cases applied
  | post lock =>
      cases applied
      obtain ⟨rest, held, fits⟩ := takes
      have distinct := orderly.distinct process
      have left : (state.inside process).erase lock = rest := by simp [held]
      refine orderly.proceed live rfl rfl ?_ ?_ ?_
        (balanced_release orderly.balanced (by simp [held]) distinct)
      · intro other different
        simp [release, different]
      · simpa [release, left] using fits
      · simpa [release] using distinct.erase lock

theorem Orderly.step {event : LockEvent Process} (orderly : state.Orderly rank expects)
    (taken : step cancellable state event = some after) : after.Orderly rank expects := by
  rcases step_cases taken with ⟨process, choice, effect, next, middle, -, advanced, applied, rfl⟩ |
    ⟨process, -, rfl⟩ | ⟨process, label, -, place, -, rfl⟩
  · have live : state.cancelled process = false := by
      by_contra stopped
      rw [orderly.ended process (by simpa using stopped)] at advanced
      simp [Control.advance] at advanced
    exact orderly.apply live ((orderly.fits process live).advance advanced) applied
  · exact ⟨orderly.fits, orderly.ended, orderly.distinct, orderly.balanced⟩
  · refine ⟨fun other running => ?_, fun other stopped => ?_, orderly.distinct, orderly.balanced⟩
    · have different : other ≠ process := by
        intro same
        subst same
        simp at running
      simpa [LockState.proceed, different] using orderly.fits other (by simpa [different] using running)
    · by_cases same : other = process
      · simp [LockState.proceed, same]
      · simpa [LockState.proceed, same] using orderly.ended other (by simpa [same] using stopped)

section

variable {trace : List (LockState Process Lock Label × LockEvent Process)} {final : LockState Process Lock Label}

/-- Every run of sound commands keeps its locks in order. -/
theorem run_orderly (sound : ∀ process, (programs process).Sound ⟨rank, expects process⟩)
    (run : Run (LockState.step cancellable) (initial programs) trace final) :
    final.Orderly rank expects :=
  run.invariant (Orderly rank expects) (initial_orderly sound) fun _ _ _ orderly taken => orderly.step taken

end

omit [DecidableEq Process] in
/-- Along a chain of waiting processes the rank of the lock waited for grows. -/
theorem Orderly.rank_lt (orderly : state.Orderly rank expects) {first last : Process}
    (chain : Relation.TransGen state.WaitsOn first last) {wanted later : Lock}
    (firstWaits : (state.control first).waits? = some wanted)
    (lastWaits : (state.control last).waits? = some later) : rank wanted < rank later := by
  have ranked : ∀ {process : Process} {lock held : Lock}, (state.control process).waits? = some lock →
      held ∈ state.inside process → rank held < rank lock := by
    intro process lock held waiting member
    have live : state.cancelled process = false := by
      by_contra stopped
      rw [orderly.ended process (by simpa using stopped)] at waiting
      cases waiting
    exact ((orderly.fits process live).waits waiting).2 held member
  induction chain generalizing later with
  | single waits =>
      obtain ⟨_, lock, waiting, held⟩ := waits
      cases firstWaits.symm.trans waiting
      exact ranked lastWaits held
  | tail _ waits ih =>
      obtain ⟨_, lock, waiting, held⟩ := waits
      exact (ih waiting).trans (ranked lastWaits held)

omit [DecidableEq Process] in
theorem Orderly.acyclic (orderly : state.Orderly rank expects) (process : Process) :
    ¬ Relation.TransGen state.WaitsOn process process := by
  intro cycle
  obtain ⟨_, ⟨_, lock, waiting, _⟩, _⟩ := (Relation.TransGen.head'_iff).mp cycle
  exact absurd (orderly.rank_lt cycle waiting waiting) (Nat.lt_irrefl _)

omit [DecidableEq Process] in
/-- Each lock can be taken again once the live processes that hold it post,
unless an ended one holds it. -/
theorem Orderly.live_balanced_iff (orderly : state.Orderly rank expects) :
    (∀ lock, state.sem lock + (state.liveHolders lock).card = 1) ↔ state.Clean := by
  have subset : ∀ lock, state.liveHolders lock ⊆ state.holders lock := by
    intro lock process member
    exact mem_holders.mpr (mem_liveHolders.mp member).1
  constructor
  · intro balanced process stopped
    by_contra holds
    obtain ⟨lock, member⟩ := List.exists_mem_of_ne_nil _ holds
    have fewer : (state.liveHolders lock).card < (state.holders lock).card := by
      refine Finset.card_lt_card ⟨subset lock, fun same => ?_⟩
      have live := (mem_liveHolders.mp (same (mem_holders.mpr member))).2
      simp [stopped] at live
    have all := orderly.balanced lock
    have alive := balanced lock
    omega
  · intro clean lock
    have same : state.liveHolders lock = state.holders lock := by
      refine (subset lock).antisymm fun process member => ?_
      have holds := mem_holders.mp member
      refine mem_liveHolders.mpr ⟨holds, ?_⟩
      by_contra stopped
      rw [clean process (by simpa using stopped)] at holds
      cases holds
    rw [same]
    exact orderly.balanced lock

theorem Orderly.clean_step {event : LockEvent Process} (orderly : state.Orderly rank expects)
    (taken : LockState.step cancellable state event = some after) :
    after.Clean ↔ state.Clean ∧ ∀ process, event = .cancel process → state.inside process = [] := by
  rcases step_cases taken with ⟨process, choice, effect, next, middle, rfl, advanced, applied, rfl⟩ |
    ⟨process, rfl, rfl⟩ | ⟨process, label, rfl, place, -, rfl⟩
  · have kept : ∀ other, state.cancelled other = true →
        middle.inside other = state.inside other := by
      intro other stopped
      have different : other ≠ process := by
        intro same
        subst same
        rw [orderly.ended other stopped] at advanced
        simp [Control.advance] at advanced
      exact apply_inside_other applied different
    have cancelled := apply_cancelled applied
    constructor
    · intro clean
      refine ⟨fun other stopped => ?_, by simp⟩
      rw [← kept other stopped]
      exact clean other (by simpa [LockState.proceed, cancelled] using stopped)
    · intro clean other stopped
      have stoppedBefore : state.cancelled other = true := by
        simpa [LockState.proceed, cancelled] using stopped
      exact (kept other stoppedBefore).trans (clean.1 other stoppedBefore)
  · simp [Clean]
  · constructor
    · intro clean
      refine ⟨fun other stopped => clean other ?_, ?_⟩
      · by_cases same : other = process
        · simp [same]
        · simpa [same] using stopped
      · intro other same
        cases same
        exact clean process (by simp)
    · intro clean other stopped
      by_cases same : other = process
      · rw [same]
        exact clean.2 process rfl
      · exact clean.1 other (by simpa [same] using stopped)

/-- Where a process can be ended, and what it holds there. -/
theorem run_cancel {trace : List (LockState Process Lock Label × LockEvent Process)}
    {before final : LockState Process Lock Label}
    (sound : ∀ process, (programs process).Sound ⟨rank, expects process⟩)
    (run : Run (LockState.step cancellable) (initial programs) trace final)
    (member : (before, .cancel process) ∈ trace) :
    ∃ label, (before.control process).label? = some label ∧ cancellable process label = true ∧
      expects process label (before.inside process) = true := by
  obtain ⟨_, _, after, _, reached, taken, _⟩ := run.recorded member
  have orderly := run_orderly sound reached
  rcases step_cases taken with ⟨_, _, _, _, _, same, _⟩ | ⟨_, same, _⟩ | ⟨_, label, same, place, here, _⟩
  · cases same
  · cases same
  · cases same
    have live : before.cancelled process = false := by
      by_contra stopped
      rw [orderly.ended process (by simpa using stopped)] at place
      cases place
    exact ⟨label, place, here, (orderly.fits process live).expects place⟩

/-- The ended processes hold nothing exactly when each held nothing as it was
ended. -/
theorem clean_iff {trace : List (LockState Process Lock Label × LockEvent Process)}
    {final : LockState Process Lock Label}
    (sound : ∀ process, (programs process).Sound ⟨rank, expects process⟩)
    (run : Run (LockState.step cancellable) (initial programs) trace final) :
    final.Clean ↔
      ∀ entry ∈ trace, ∀ process, entry.2 = .cancel process → entry.1.inside process = [] := by
  induction run with
  | nil => simp [Clean, initial]
  | snoc earlier taken ih =>
      rw [(run_orderly sound earlier).clean_step taken, ih]
      simp [or_imp, forall_and]

end LockState

end Systems
