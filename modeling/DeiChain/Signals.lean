import DeiChain.Chain
import DeiChain.Stores
import Mathlib.Data.Fintype.Basic

namespace DeiChain

open Data Systems Systems.Sections

/-! # Signals in the critical sections

The processes over the two segments and their semaphores, each section taken
apart into its wait, its stores and its post. The handlers of validator,
statistics and txGen close what the process has open and call `exit`; none of
them posts a semaphore or finishes an update.
-/

inductive Process where
  | txGen (gen : Nat)
  | miner (thread : Nat)
  | validator (num : Nat)
  | statistics
  | controller
deriving DecidableEq

/-- The segments that `sem_transactions_pool` and `sem_ledger` guard. -/
inductive Segment where
  | pool
  | ledger
deriving DecidableEq

instance : Fintype Segment := ⟨{.pool, .ledger}, fun segment => by cases segment <;> simp⟩

def Segment.Value (n : Nat) : Segment → Type
  | .pool => TransactionPool
  | .ledger => Ledger n

def Event.process : Event → Process
  | .insert gen _ _ _ => .txGen gen
  | .pollPool thread | .pollLedger thread | .select thread _ | .readTip thread | .mine thread _
  | .write thread _ | .abandon thread => .miner thread
  | .start _ => .controller
  | .genesis num | .read num _ | .examine num | .poolPhase num | .ledgerPhase num _ | .report num
  | .leave num | .kill num => .validator num

def Event.scope : Event → Option Segment
  | .insert _ _ _ _ | .pollPool _ | .select _ _ | .poolPhase _ => some .pool
  | .pollLedger _ | .readTip _ | .genesis _ | .examine _ | .ledgerPhase _ _ => some .ledger
  | .mine _ _ | .write _ _ | .abandon _ | .start _ | .read _ _ | .report _ | .leave _ | .kill _ => none

/-- The steps of the system, and those of the processes it leaves out: the
sums of statistics over a block, `dump_ledger`, the exit of a validator whose
first proof of work fails, and the signals to a generator and to statistics. -/
inductive Task where
  | system (event : Event)
  | tally
  | dump
  | nemesisFails (num : Nat)
  | interrupt (gen : Nat)
  | terminate
deriving DecidableEq

def Task.process : Task → Process
  | .system event => event.process
  | .tally | .terminate => .statistics
  | .dump => .controller
  | .nemesisFails num => .validator num
  | .interrupt gen => .txGen gen

def Task.scope : Task → Option Segment
  | .system event => event.scope
  | .tally | .dump | .nemesisFails _ => some .ledger
  | .interrupt _ | .terminate => none

/-- The process exits in this step, wherever it is. -/
def Task.ends : Task → Bool
  | .system (.kill _) | .nemesisFails _ | .interrupt _ | .terminate => true
  | _ => false

/-- The step of the system that a task is, if it is one; a validator that exits
is gone as after a signal. -/
def Task.event? : Task → Option Event
  | .system event => some event
  | .nemesisFails num => some (.kill num)
  | _ => none

structure Site (n : Nat) where
  system : State n
  interrupted : Nat → Bool
  terminated : Bool

section

variable (setup : Setup)

def Site.initial : Site setup.txs :=
  { system := State.initial setup, interrupted := fun _ => false, terminated := false }

variable (site : Site setup.txs)

def stepSystem (event : Event) : Option (Site setup.txs) :=
  (step setup site.system event).map fun system => { site with system }

def stepTask : Task → Option (Site setup.txs)
  | .system (.insert gen stack rand now) =>
      if site.interrupted gen then none else stepSystem setup site (.insert gen stack rand now)
  | .system event => stepSystem setup site event
  | .tally => if site.terminated then none else some site
  | .dump => some site
  | .nemesisFails num =>
      match site.system.validators num with
      | .starting =>
          if site.system.ledger.count = 0 ∧ (createGenesis setup.sha256 site.system.ledger).isNone then
            some { site with system := site.system.withValidator num .exited }
          else none
      | _ => none
  | .interrupt gen =>
      if site.interrupted gen then none
      else some { site with interrupted := Function.update site.interrupted gen true }
  | .terminate => if site.terminated then none else some { site with terminated := true }

variable (state : State setup.txs)

def poolStores : Event → List (TransactionPool → TransactionPool)
  | .insert gen stack rand now => insertionStores state.pool (newTransaction setup state gen stack rand now)
  | .poolPhase num =>
      match state.validators num with
      | .checked block _ => poolPhaseStores state.pool block
      | _ => []
  | _ => []

def ledgerStores : Event → List (Ledger setup.txs → Ledger setup.txs)
  | .genesis _ => if state.ledger.count = 0 then genesisStores setup.sha256 else []
  | .ledgerPhase num _ =>
      match state.validators num with
      | .accepted block _ =>
          if onTip state.ledger block then
            appendStores (state.ledger.lastBlockIndex + 1) block (computeSha256 setup.sha256 block)
          else []
      | _ => []
  | _ => []

def taskStores : Task → (segment : Segment) → List (segment.Value setup.txs → segment.Value setup.txs)
  | .system event, .pool => poolStores setup site.system event
  | .system event, .ledger => ledgerStores setup site.system event
  | _, _ => []

end

variable {setup : Setup} {before after : State setup.txs} {event : Event}

theorem Transition.poolStores (taken : Transition setup before event after) :
    after.pool = runStores (poolStores setup before event) before.pool := by
  cases taken with
  | refused full =>
      simp only [DeiChain.poolStores, insertionStores]
      split
      · rename_i added
        exact absurd added (full _ _)
      · rfl
      · rfl
  | stored added => exact (runStores_insertion added).symm
  | rested own => cases event <;> first | rfl | cases own
  | removed checked passed =>
      simp only [DeiChain.poolStores, checked, runStores_poolPhase, passed]
      rfl
  | unmatched checked failed =>
      simp only [DeiChain.poolStores, checked, runStores_poolPhase, failed]
      rfl
  | _ => rfl

theorem Transition.ledgerStores (taken : Transition setup before event after) :
    after.ledger = runStores (ledgerStores setup before event) before.ledger := by
  cases taken with
  | rested own => cases event <;> first | rfl | cases own
  | created starting empty genesis =>
      simp only [DeiChain.ledgerStores, empty, if_true]
      exact (runStores_genesis genesis).symm
  | joined starting positive =>
      simp only [DeiChain.ledgerStores, Nat.ne_of_gt positive, if_false]
      rfl
  | appended accepted tip =>
      simp only [DeiChain.ledgerStores, accepted, tip, if_true]
      exact (runStores_append_block _ _ _).symm
  | dropped accepted stale =>
      simp only [DeiChain.ledgerStores, accepted, stale, Bool.false_eq_true, if_false]
      rfl
  | _ => rfl

def Site.memory {n : Nat} (site : Site n) : (segment : Segment) → segment.Value n
  | .pool => site.system.pool
  | .ledger => site.system.ledger

def Site.withMemory {n : Nat} (site : Site n) (values : (segment : Segment) → segment.Value n) : Site n :=
  { site with system := { site.system with pool := values .pool, ledger := values .ledger } }

section

variable {setup : Setup} {site after : Site setup.txs} {task : Task}

theorem stepTask_system {event : Event} (taken : stepTask setup site (.system event) = some after) :
    step setup site.system event = some after.system := by
  have stepped : stepSystem setup site event = some after := by
    cases event with
    | insert gen stack rand now =>
        simp only [stepTask] at taken
        split at taken
        · cases taken
        · exact taken
    | _ => exact taken
  obtain ⟨result, reached, rfl⟩ := Option.map_eq_some_iff.mp stepped
  exact reached

theorem stepTask_other (taken : stepTask setup site task = some after)
    (other : ∀ event, task ≠ .system event) : after.memory = site.memory ∧
      (task.event? = none → after.system = site.system) ∧
      ∀ num, task = .nemesisFails num → step setup site.system (.kill num) = some after.system := by
  cases task with
  | system event => exact absurd rfl (other event)
  | nemesisFails num =>
      simp only [stepTask] at taken
      split at taken
      · rename_i starting
        split at taken
        · cases taken
          refine ⟨rfl, by simp [Task.event?], fun same own => ?_⟩
          cases own
          simp only [step, stepKill, starting]
        · cases taken
      · cases taken
  | dump =>
      cases taken
      exact ⟨rfl, fun _ => rfl, by simp⟩
  | tally | interrupt gen | terminate =>
      simp only [stepTask] at taken
      split at taken
      · cases taken
      · cases taken
        exact ⟨rfl, fun _ => rfl, by simp⟩

theorem stepTask_event (taken : stepTask setup site task = some after) :
    (task.event? = none → after.system = site.system) ∧
      ∀ event, task.event? = some event → step setup site.system event = some after.system := by
  cases task with
  | system event =>
      refine ⟨nofun, fun same own => ?_⟩
      cases own
      exact stepTask_system taken
  | nemesisFails num =>
      refine ⟨nofun, fun same own => ?_⟩
      cases own
      exact (stepTask_other taken nofun).2.2 num rfl
  | _ => exact ⟨(stepTask_other taken nofun).2.1, nofun⟩

theorem stepTask_stores (taken : stepTask setup site task = some after) (segment : Segment) :
    after.memory segment = runStores (taskStores setup site task segment) (site.memory segment) := by
  cases task with
  | system event =>
      have transition := step_transition (stepTask_system taken)
      cases segment with
      | pool => exact transition.poolStores
      | ledger => exact transition.ledgerStores
  | _ =>
      rw [(stepTask_other taken nofun).1]
      cases segment <;> rfl

theorem taskStores_scope (setup : Setup) (site : Site setup.txs) {task : Task} {segment : Segment}
    (other : task.scope ≠ some segment) : taskStores setup site task segment = [] := by
  cases task with
  | system event =>
      cases segment <;> cases event <;> first | rfl | exact absurd rfl other
  | _ => cases segment <;> rfl

end

def program (setup : Setup) :
    Program (Site setup.txs) Task Process Segment (Segment.Value setup.txs) where
  step := stepTask setup
  memory := Site.memory
  withMemory := Site.withMemory
  memory_withMemory := by
    intro site values
    funext segment
    cases segment <;> rfl
  withMemory_memory := fun _ => rfl
  withMemory_withMemory := fun _ _ _ => rfl
  process := Task.process
  scope := Task.scope
  ends := Task.ends
  stores := taskStores setup
  frame := by
    intro site task after unscoped taken
    funext segment
    rw [stepTask_stores taken, taskStores_scope setup site (by simp [unscoped]), runStores_nil]
  effect := by
    intro site task after segment own taken
    funext other
    rw [stepTask_stores taken]
    by_cases here : other = segment
    · subst here
      rw [Function.update_self]
    · have elsewhere : task.scope ≠ some other := by simpa [own] using Ne.symm here
      rw [Function.update_of_ne here, taskStores_scope setup site elsewhere, runStores_nil]

abbrev LockedState (setup : Setup) : Type :=
  Locked (Site setup.txs) Process Segment (Segment.Value setup.txs)

/-- A run of the processes with their sections taken apart. -/
abbrev LockedRun (setup : Setup) (trace : List (LockedState setup × Action Task Process Segment))
    (final : LockedState setup) : Prop :=
  Run (Locked.step (program setup)) (Locked.initial (Site.initial setup)) trace final

/-- What the two semaphores protect, in a state where no live process is
between the wait and the post of the one or of the other. The counter and the
index of the ledger differ by one from its first block on. -/
structure Intact (setup : Setup) (locked : LockedState setup) : Prop where
  pool : locked.visits .pool = [] →
    locked.sem .pool = 1 ∧
      locked.state.system.pool.count.toNat = locked.state.system.pool.filledCount
  ledger : locked.visits .ledger = [] →
    locked.sem .ledger = 1 ∧ (0 < locked.state.system.ledger.count →
      locked.state.system.ledger.lastBlockIndex + 1 = locked.state.system.ledger.count ∧
      locked.state.system.ledger.lastBlockHash =
        computeSha256 setup.sha256
          (locked.state.system.ledger.blocks locked.state.system.ledger.lastBlockIndex))

section

variable {setup : Setup}

theorem Intact.unlocked {locked : LockedState setup} (intact : Intact setup locked) : locked.Unlocked := by
  intro segment empty
  cases segment with
  | pool => exact (intact.pool empty).1
  | ledger => exact (intact.ledger empty).1

theorem taskRun_system {sections : List (Site setup.txs × Task)} {site : Site setup.txs}
    (run : Run (stepTask setup) (Site.initial setup) sections site) :
    ∃ trace, SystemRun setup trace site.system := by
  have simulated : ∃ trace system, SystemRun setup trace system ∧ site.system = system ∧
      trace.map Prod.snd = sections.filterMap fun entry => entry.2.event? :=
    Run.simulates (fun (site : Site setup.txs) state => site.system = state) (fun _ task => task.event?)
      rfl run
      (fun _ _ _ _ related taken silent => ((stepTask_event taken).1 silent).trans related)
      (fun _ _ _ _ event related taken labelled =>
        ⟨_, related ▸ (stepTask_event taken).2 event labelled, rfl⟩)
  obtain ⟨trace, system, reached, rfl, _⟩ := simulated
  exact ⟨trace, reached⟩

variable {final : LockedState setup} {trace : List (LockedState setup × Action Task Process Segment)}

/-- Without an exit inside a section, a segment that no process is at is as a
run of whole sections leaves it. -/
theorem LockedRun.intact (run : LockedRun setup trace final)
    (orderly : ∀ entry ∈ trace, Orderly (program setup) entry.1 entry.2) : Intact setup final := by
  have balanced := run_balanced run orderly
  obtain ⟨sections, refined, _⟩ := run_refines run orderly
  obtain ⟨events, system⟩ := taskRun_system refined
  constructor
  · intro empty
    have same : ((program setup).view final).system.pool = final.state.system.pool :=
      (program setup).view_memory final empty
    exact ⟨balanced.unlocked _ empty, same ▸ system.pool_sound.consistent.counted⟩
  · intro empty
    have same : ((program setup).view final).system.ledger = final.state.system.ledger :=
      (program setup).view_memory final empty
    refine ⟨balanced.unlocked _ empty, fun positive => ?_⟩
    have chained := same ▸ system.chain.chained
    have last : final.state.system.ledger.lastBlockIndex + 1 = final.state.system.ledger.count := by
      rw [chained.index]
      omega
    refine ⟨last, ?_⟩
    rw [chained.newest, ← last, HashChain.tip_succ]

/-- Over the states of any run: the semaphores and what they protect are intact
in all of them exactly when every process that exits, by a signal or by its own
doing, is at that moment outside of every section. -/
theorem sections_intact_iff (setup : Setup)
    {trace : List (LockedState setup × Action Task Process Segment)} {final : LockedState setup}
    (run : LockedRun setup trace final) :
    (Intact setup final ∧ ∀ entry ∈ trace, Intact setup entry.1) ↔
      ∀ entry ∈ trace, Orderly (program setup) entry.1 entry.2 := by
  constructor
  · intro found
    obtain ⟨intact, always⟩ := found
    exact (run_unlocked_iff run).mp ⟨intact.unlocked, fun entry member => (always entry member).unlocked⟩
  · intro orderly
    refine ⟨LockedRun.intact run orderly, fun entry member => ?_⟩
    obtain ⟨_, reached, earlierOrderly⟩ := run.before orderly member
    exact LockedRun.intact reached earlierOrderly

end

def insertActions : List (Action Task Process Segment) :=
  [.wait (.system (insertEvent 1)), .store (.txGen 1) .pool, .store (.txGen 1) .pool, .post (.txGen 1) .pool]

theorem insert_executes : (exec (Locked.step (program smallSetup))
    (Locked.initial (Site.initial smallSetup)) insertActions).isSome = true := by
  decide +kernel

def inserted : LockedState smallSetup := (exec _ _ _).get insert_executes

theorem interrupt_enabled :
    (Locked.step (program smallSetup) inserted (.work (.interrupt 1))).isSome = true := by
  decide +kernel

def interruptedAfter : LockedState smallSetup := (Locked.step _ _ _).get interrupt_enabled

theorem intact_after_interrupt : ∃ trace, LockedRun smallSetup trace interruptedAfter ∧
    Intact smallSetup interruptedAfter := by
  obtain ⟨earlier, run, recorded⟩ := exec_run_get insert_executes
  have last : LockedRun smallSetup (earlier ++ [(inserted, .work (.interrupt 1))]) interruptedAfter :=
    run.snoc (Option.some_get interrupt_enabled).symm
  refine ⟨_, last, ((sections_intact_iff smallSetup last).mpr ?_).1⟩
  intro entry member
  rcases List.mem_append.mp member with member | member
  · have action : entry.2 ∈ insertActions := recorded ▸ List.mem_map_of_mem member
    simp only [insertActions, List.mem_cons, List.not_mem_nil, or_false] at action
    rcases action with same | same | same | same <;> rw [same] <;> trivial
  · cases List.mem_singleton.mp member
    have outside : inserted.Outside (.txGen 1) := by decide +kernel
    exact fun _ => outside

/-- SIGINT between the two stores of an insertion. -/
def interruptActions : List (Action Task Process Segment) :=
  [.wait (.system (insertEvent 1)), .store (.txGen 1) .pool, .work (.interrupt 1)]

theorem interrupt_executes : (exec (Locked.step (program smallSetup))
    (Locked.initial (Site.initial smallSetup)) interruptActions).isSome = true := by
  decide +kernel

def interruptedInside : LockedState smallSetup := (exec _ _ _).get interrupt_executes

/-- The slot is filled, the counter is not, and the semaphore is gone. -/
theorem interrupt_leaks_semaphore : ∃ trace, LockedRun smallSetup trace interruptedInside ∧
    interruptedInside.visits .pool = [] ∧ interruptedInside.sem .pool = 0 ∧
    interruptedInside.state.system.pool.count = 0 ∧
    interruptedInside.state.system.pool.filledCount = 1 ∧ ¬ Intact smallSetup interruptedInside := by
  obtain ⟨trace, run, _⟩ := exec_run_get interrupt_executes
  have empty : interruptedInside.visits .pool = [] := by
    rw [← List.isEmpty_iff]
    decide +kernel
  have taken : interruptedInside.sem .pool = 0 := by decide +kernel
  refine ⟨trace, run, empty, taken, by decide +kernel, by decide +kernel, fun intact => ?_⟩
  exact absurd (taken.symm.trans (intact.pool empty).1) (by decide)

end DeiChain
