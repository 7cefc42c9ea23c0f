import DeiChain.Systems.Run
import Mathlib.Data.Fintype.Basic
import Mathlib.Logic.Function.Basic

namespace Systems.Sections

universe u v w

/-! # Critical sections under semaphores

A program is given by whole critical sections, each of them one step on one
segment of shared memory. `Locked.step` takes the sections apart: a process
waits on the semaphore of the segment, does its stores one by one and posts,
other processes run in between, and a process can end at any of these points.
-/

def runStores {V : Type w} (stores : List (V → V)) (value : V) : V :=
  stores.foldl (fun value store => store value) value

@[simp] theorem runStores_nil {V : Type w} (value : V) : runStores [] value = value := rfl

@[simp] theorem runStores_cons {V : Type w} (store : V → V) (stores : List (V → V)) (value : V) :
    runStores (store :: stores) value = runStores stores (store value) := rfl

@[simp] theorem runStores_append {V : Type w} (first second : List (V → V)) (value : V) :
    runStores (first ++ second) value = runStores second (runStores first value) :=
  List.foldl_append

theorem runStores_map {Part Whole : Type*} {lift : (Part → Part) → Whole → Whole}
    (unit : ∀ whole, lift (fun part => part) whole = whole)
    (compose : ∀ first second whole,
      lift second (lift first whole) = lift (fun part => second (first part)) whole)
    (stores : List (Part → Part)) (whole : Whole) :
    runStores (stores.map lift) whole = lift (runStores stores) whole := by
  induction stores generalizing whole with
  | nil => exact (unit whole).symm
  | cons store rest ih =>
      rw [List.map_cons, runStores_cons, ih, compose]
      rfl

/-- A system whose steps are whole sections. `scope` is the segment whose
semaphore a step holds, `stores` what it writes there in order. A step that
`ends` its process gives nothing back: a signal, or an exit inside a section. -/
structure Program (State : Type u) (Event : Type v) (Process Segment : Type) (Value : Segment → Type w)
    [DecidableEq Segment] where
  step : State → Event → Option State
  memory : State → (segment : Segment) → Value segment
  withMemory : State → ((segment : Segment) → Value segment) → State
  memory_withMemory : ∀ state values, memory (withMemory state values) = values
  withMemory_memory : ∀ state, withMemory state (memory state) = state
  withMemory_withMemory : ∀ state older newer,
    withMemory (withMemory state older) newer = withMemory state newer
  process : Event → Process
  scope : Event → Option Segment
  ends : Event → Bool
  stores : State → Event → (segment : Segment) → List (Value segment → Value segment)
  frame : ∀ {state event after}, scope event = none → step state event = some after →
    memory after = memory state
  effect : ∀ {state event after segment}, scope event = some segment → step state event = some after →
    memory after =
      Function.update (memory state) segment (runStores (stores state event segment) (memory state segment))

structure Visit (Process : Type) (V : Type w) where
  process : Process
  pending : List (V → V)

/-- The memory as it stands, the value of each semaphore, and who is inside. -/
structure Locked (State : Type u) (Process Segment : Type) (Value : Segment → Type w) where
  state : State
  sem : Segment → Nat
  visits : (segment : Segment) → List (Visit Process (Value segment))

inductive Action (Event : Type v) (Process Segment : Type) where
  | wait (event : Event)
  | store (process : Process) (segment : Segment)
  | post (process : Process) (segment : Segment)
  | work (event : Event)

def Action.event? {Event : Type v} {Process Segment : Type} : Action Event Process Segment → Option Event
  | .wait event | .work event => some event
  | .store _ _ | .post _ _ => none

section

variable {State : Type u} {Event : Type v} {Process Segment : Type} {Value : Segment → Type w}

def Locked.initial (start : State) : Locked State Process Segment Value :=
  { state := start, sem := fun _ => 1, visits := fun _ => [] }

def Locked.Outside (locked : Locked State Process Segment Value) (process : Process) : Prop :=
  ∀ segment, ∀ visit ∈ locked.visits segment, visit.process ≠ process

/-- At most one process is inside a section, and then its semaphore is zero. -/
def Locked.Exclusive (locked : Locked State Process Segment Value) : Prop :=
  ∀ segment, locked.sem segment + (locked.visits segment).length ≤ 1

/-- Nothing is lost: a semaphore is zero only while some process is inside. -/
def Locked.Balanced (locked : Locked State Process Segment Value) : Prop :=
  ∀ segment, locked.sem segment + (locked.visits segment).length = 1

/-- Whenever no process is inside a section its semaphore is one. -/
def Locked.Unlocked (locked : Locked State Process Segment Value) : Prop :=
  ∀ segment, locked.visits segment = [] → locked.sem segment = 1

theorem Locked.initial_balanced (start : State) :
    (Locked.initial start : Locked State Process Segment Value).Balanced := fun _ => rfl

theorem Locked.Balanced.exclusive {locked : Locked State Process Segment Value} (balanced : locked.Balanced) :
    locked.Exclusive :=
  fun segment => Nat.le_of_eq (balanced segment)

theorem Locked.Balanced.unlocked {locked : Locked State Process Segment Value} (balanced : locked.Balanced) :
    locked.Unlocked := by
  intro segment empty
  simpa [empty] using balanced segment

theorem Locked.Exclusive.found [DecidableEq Process] {locked : Locked State Process Segment Value}
    (exclusive : locked.Exclusive) {segment : Segment} {process : Process}
    {visit : Visit Process (Value segment)}
    (found : (locked.visits segment).find? (fun visit => visit.process == process) = some visit) :
    locked.visits segment = [visit] ∧ visit.process = process := by
  have one := exclusive segment
  cases visits : locked.visits segment with
  | nil => simp [visits] at found
  | cons first rest =>
      rw [visits, List.length_cons] at one
      have alone : rest = [] := List.eq_nil_of_length_eq_zero (by omega)
      subst alone
      rw [visits] at found
      have same := List.mem_singleton.mp (List.mem_of_find?_eq_some found)
      exact ⟨by rw [same], by simpa using List.find?_some found⟩

variable [DecidableEq Segment] (program : Program State Event Process Segment Value)

/-- The state once every section in progress has done its stores. A section is
entered from this state: its own segment is then as it stands in memory, and of
the others it reads nothing. -/
def Program.view (locked : Locked State Process Segment Value) : State :=
  program.withMemory locked.state fun segment =>
    (locked.visits segment).foldl (fun value visit => runStores visit.pending value)
      (program.memory locked.state segment)

theorem Program.view_eq (locked : Locked State Process Segment Value)
    (memory : (segment : Segment) → Value segment) (result : State)
    (state : locked.state = program.withMemory result memory)
    (complete : ∀ segment, (locked.visits segment).foldl (fun value visit => runStores visit.pending value)
      (memory segment) = program.memory result segment) : program.view locked = result := by
  have completed : (fun segment => (locked.visits segment).foldl
      (fun value visit => runStores visit.pending value) (memory segment)) = program.memory result :=
    funext complete
  rw [Program.view, state, program.memory_withMemory, program.withMemory_withMemory, completed,
    program.withMemory_memory]

theorem Program.view_memory (locked : Locked State Process Segment Value) {segment : Segment}
    (empty : locked.visits segment = []) :
    program.memory (program.view locked) segment = program.memory locked.state segment := by
  rw [Program.view, program.memory_withMemory, empty, List.foldl_nil]

/-- No process ends between the wait and the post of a section. -/
def Orderly (locked : Locked State Process Segment Value) : Action Event Process Segment → Prop
  | .wait event => program.ends event = false
  | .work event => program.ends event = true → locked.Outside (program.process event)
  | .store _ _ | .post _ _ => True

variable [DecidableEq Process]

instance [Fintype Segment] (locked : Locked State Process Segment Value) (process : Process) :
    Decidable (locked.Outside process) :=
  inferInstanceAs (Decidable (∀ segment, ∀ visit ∈ locked.visits segment, visit.process ≠ process))

def Locked.step [Fintype Segment] (locked : Locked State Process Segment Value) :
    Action Event Process Segment → Option (Locked State Process Segment Value)
  | .wait event =>
      match program.scope event with
      | some segment =>
          if 0 < locked.sem segment ∧ locked.Outside (program.process event) then
            (program.step (program.view locked) event).map fun after =>
              { state := program.withMemory after (program.memory locked.state)
                sem := Function.update locked.sem segment (locked.sem segment - 1)
                visits :=
                  if program.ends event then locked.visits
                  else Function.update locked.visits segment
                    (⟨program.process event, program.stores (program.view locked) event segment⟩ ::
                      locked.visits segment) }
          else none
      | none => none
  | .store process segment =>
      match (locked.visits segment).find? fun visit => visit.process == process with
      | some ⟨_, store :: pending⟩ =>
          let value := program.memory locked.state segment
          some { locked with
            state := program.withMemory locked.state
              (Function.update (program.memory locked.state) segment (store value))
            visits := Function.update locked.visits segment
              (⟨process, pending⟩ :: (locked.visits segment).eraseP fun visit => visit.process == process) }
      | _ => none
  | .post process segment =>
      match (locked.visits segment).find? fun visit => visit.process == process with
      | some ⟨_, []⟩ =>
          some { locked with
            sem := Function.update locked.sem segment (locked.sem segment + 1)
            visits := Function.update locked.visits segment
              ((locked.visits segment).eraseP fun visit => visit.process == process) }
      | _ => none
  | .work event =>
      match program.scope event with
      | some _ => none
      | none =>
          if program.ends event ∨ locked.Outside (program.process event) then
            (program.step (program.view locked) event).map fun after =>
              { locked with
                state := program.withMemory after (program.memory locked.state)
                visits :=
                  if program.ends event then fun segment =>
                    (locked.visits segment).filter fun visit => visit.process ≠ program.process event
                  else locked.visits }
          else none

inductive Move (before : Locked State Process Segment Value) :
    Action Event Process Segment → Locked State Process Segment Value → Prop where
  | entered {event segment after} (scope : program.scope event = some segment)
      (stays : program.ends event = false) (free : before.sem segment = 1)
      (empty : before.visits segment = [])
      (taken : program.step (program.view before) event = some after) :
      Move before (.wait event)
        { state := program.withMemory after (program.memory before.state)
          sem := Function.update before.sem segment 0
          visits := Function.update before.visits segment
            [⟨program.process event, program.stores (program.view before) event segment⟩] }
  | vanished {event segment after} (ends : program.ends event = true) (empty : before.visits segment = []) :
      Move before (.wait event)
        { state := after, sem := Function.update before.sem segment 0, visits := before.visits }
  | stored {process segment store pending} (inside : before.visits segment = [⟨process, store :: pending⟩]) :
      Move before (.store process segment)
        { before with
          state := program.withMemory before.state (Function.update (program.memory before.state) segment
            (store (program.memory before.state segment)))
          visits := Function.update before.visits segment [⟨process, pending⟩] }
  | posted {process segment} (inside : before.visits segment = [⟨process, []⟩]) :
      Move before (.post process segment)
        { before with
          sem := Function.update before.sem segment (before.sem segment + 1)
          visits := Function.update before.visits segment [] }
  | worked {event after} (scope : program.scope event = none)
      (outside : before.Outside (program.process event))
      (taken : program.step (program.view before) event = some after) :
      Move before (.work event)
        { before with state := program.withMemory after (program.memory before.state) }
  | stopped {event after} (ends : program.ends event = true)
      (inside : ¬ before.Outside (program.process event)) :
      Move before (.work event)
        { state := after
          sem := before.sem
          visits := fun segment =>
            (before.visits segment).filter fun visit => visit.process ≠ program.process event }

variable {program} {before after : Locked State Process Segment Value}
  {action : Action Event Process Segment}

theorem step_move [Fintype Segment] (exclusive : before.Exclusive)
    (taken : before.step program action = some after) :
    Move program before action after := by
  cases action with
  | wait event =>
      simp only [Locked.step] at taken
      split at taken
      · rename_i segment scope
        split at taken
        · rename_i free
          obtain ⟨result, stepped, rfl⟩ := Option.map_eq_some_iff.mp taken
          have one := exclusive segment
          have empty : before.visits segment = [] := List.eq_nil_of_length_eq_zero (by omega)
          have value : before.sem segment = 1 := by omega
          cases ends : program.ends event with
          | true => simpa [value] using Move.vanished ends empty
          | false => simpa [value, empty] using Move.entered scope ends value empty stepped
        · cases taken
      · cases taken
  | store process segment =>
      simp only [Locked.step] at taken
      split at taken
      · rename_i found
        obtain ⟨inside, same⟩ := exclusive.found found
        cases same
        cases taken
        simpa [inside] using Move.stored inside
      · cases taken
  | post process segment =>
      simp only [Locked.step] at taken
      split at taken
      · rename_i found
        obtain ⟨inside, same⟩ := exclusive.found found
        cases same
        cases taken
        simpa [inside] using Move.posted inside
      · cases taken
  | work event =>
      simp only [Locked.step] at taken
      split at taken
      · cases taken
      · rename_i scope
        split at taken
        · rename_i allowed
          obtain ⟨result, stepped, rfl⟩ := Option.map_eq_some_iff.mp taken
          by_cases outside : before.Outside (program.process event)
          · have kept : (fun segment => (before.visits segment).filter
                fun visit => visit.process ≠ program.process event) = before.visits := by
              funext segment
              rw [List.filter_eq_self]
              intro visit member
              simpa using outside segment visit member
            rw [kept, ite_self]
            exact .worked scope outside stepped
          · have ends := allowed.resolve_right outside
            rw [if_pos ends]
            exact .stopped ends outside
        · cases taken

theorem Move.balanced (move : Move program before action after) (orderly : Orderly program before action)
    (balanced : before.Balanced) : after.Balanced := by
  intro segment
  have one := balanced segment
  cases move with
  | @entered event entered result scope stays free empty taken =>
      by_cases here : segment = entered
      · subst here
        simp
      · simpa [here] using one
  | vanished ends empty => exact absurd (ends.symm.trans orderly) (by decide)
  | @stored process stored store pending inside =>
      by_cases here : segment = stored
      · subst here
        simpa [inside] using one
      · simpa [here] using one
  | @posted process posted inside =>
      by_cases here : segment = posted
      · subst here
        simpa [inside] using one
      · simpa [here] using one
  | worked => exact one
  | stopped ends inside => exact absurd (orderly ends) inside

theorem Move.leaks (move : Move program before action after) (disorderly : ¬ Orderly program before action)
    (balanced : before.Balanced) : ¬ after.Unlocked := by
  cases move with
  | entered scope stays => exact absurd stays disorderly
  | @vanished event segment result ends empty =>
      intro unlocked
      simpa using unlocked segment empty
  | stored | posted => exact absurd trivial disorderly
  | worked scope outside => exact absurd (fun _ => outside) disorderly
  | @stopped event result ends inside =>
      simp only [Locked.Outside, not_forall, not_not] at inside
      obtain ⟨segment, visit, member, same⟩ := inside
      have one := balanced segment
      have positive := List.length_pos_of_mem member
      have alone : before.visits segment = [visit] := by
        obtain ⟨only, single⟩ := List.length_eq_one_iff.mp (by omega : (before.visits segment).length = 1)
        rw [single] at member ⊢
        rw [List.mem_singleton.mp member]
      intro unlocked
      have free := unlocked segment (by simp [alone, same])
      dsimp only at free
      omega

/-- An orderly action is the step it stands for, seen with all sections
completed: a section counts as done when its semaphore is taken. -/
theorem Move.view (move : Move program before action after) (orderly : Orderly program before action) :
    (action.event? = none → program.view after = program.view before) ∧
      ∀ event, action.event? = some event →
        program.step (program.view before) event = some (program.view after) := by
  have seen : program.memory (program.view before) = fun segment =>
      (before.visits segment).foldl (fun value visit => runStores visit.pending value)
        (program.memory before.state segment) := program.memory_withMemory _ _
  cases move with
  | @entered event entered result scope stays free empty taken =>
      refine ⟨nofun, fun same own => ?_⟩
      cases own
      rw [taken]
      refine congrArg some (program.view_eq _ _ result rfl fun segment => ?_).symm
      rw [program.effect scope taken, seen]
      by_cases here : segment = entered
      · subst here
        simp [empty]
      · simp [here]
  | vanished ends => exact absurd (ends.symm.trans orderly) (by decide)
  | @stored process stored store pending inside =>
      refine ⟨fun _ => ?_, nofun⟩
      refine program.view_eq _ _ (program.view before) (program.withMemory_withMemory _ _ _).symm
        fun segment => ?_
      rw [seen]
      by_cases here : segment = stored
      · subst here
        simp [inside]
      · simp [here]
  | @posted process posted inside =>
      refine ⟨fun _ => ?_, nofun⟩
      have state : before.state = program.withMemory (program.view before) (program.memory before.state) := by
        rw [Program.view, program.withMemory_withMemory, program.withMemory_memory]
      refine program.view_eq _ _ (program.view before) state fun segment => ?_
      rw [seen]
      by_cases here : segment = posted
      · subst here
        simp [inside]
      · simp [here]
  | @worked event result scope outside taken =>
      refine ⟨nofun, fun same own => ?_⟩
      cases own
      rw [taken]
      refine congrArg some (program.view_eq _ _ result rfl fun segment => ?_).symm
      rw [program.frame scope taken, seen]
  | stopped ends inside => exact absurd (orderly ends) inside

/-- What holds of all the stores that a section begins with holds of those that
it has yet to do. -/
theorem Move.pending (move : Move program before action after)
    {allowed : (segment : Segment) → (Value segment → Value segment) → Prop}
    (begins : ∀ event segment, action = .wait event → program.scope event = some segment →
      ∀ store ∈ program.stores (program.view before) event segment, allowed segment store)
    (held : ∀ segment, ∀ visit ∈ before.visits segment, ∀ store ∈ visit.pending, allowed segment store) :
    ∀ segment, ∀ visit ∈ after.visits segment, ∀ store ∈ visit.pending, allowed segment store := by
  intro segment visit member store pending
  cases move with
  | @entered event entered result scope =>
      by_cases here : segment = entered
      · subst here
        simp only [Function.update_self, List.mem_singleton] at member
        subst member
        exact begins event segment rfl scope store pending
      · simp only [Function.update_of_ne here] at member
        exact held segment visit member store pending
  | vanished => exact held segment visit member store pending
  | @stored process stored done rest inside =>
      by_cases here : segment = stored
      · subst here
        simp only [Function.update_self, List.mem_singleton] at member
        subst member
        exact held segment ⟨process, done :: rest⟩ (by simp [inside]) store (List.mem_cons_of_mem _ pending)
      · simp only [Function.update_of_ne here] at member
        exact held segment visit member store pending
  | @posted process posted inside =>
      by_cases here : segment = posted
      · subst here
        simp [Function.update_self] at member
      · simp only [Function.update_of_ne here] at member
        exact held segment visit member store pending
  | worked => exact held segment visit member store pending
  | stopped => exact held segment visit (List.mem_of_mem_filter member) store pending

section

variable [Fintype Segment] {start : State} {final : Locked State Process Segment Value}
  {trace : List (Locked State Process Segment Value × Action Event Process Segment)}

theorem run_balanced (run : Run (Locked.step program) (Locked.initial start) trace final)
    (orderly : ∀ entry ∈ trace, Orderly program entry.1 entry.2) : final.Balanced :=
  run.invariant_of_allowed Locked.Balanced (Orderly program) (Locked.initial_balanced start)
    (fun _ _ _ balanced orderly taken => (step_move balanced.exclusive taken).balanced orderly balanced)
    orderly

/-- A run in which no process ends inside a section is a run of whole sections. -/
theorem run_refines (run : Run (Locked.step program) (Locked.initial start) trace final)
    (orderly : ∀ entry ∈ trace, Orderly program entry.1 entry.2) :
    ∃ sections, Run program.step start sections (program.view final) ∧
      sections.map Prod.snd = trace.filterMap fun entry => entry.2.event? := by
  have moves : ∀ entry ∈ trace, ∀ after, entry.1.step program entry.2 = some after →
      Move program entry.1 entry.2 after := by
    intro entry member after taken
    obtain ⟨_, reached, earlierOrderly⟩ := run.before orderly member
    exact step_move (run_balanced reached earlierOrderly).exclusive taken
  obtain ⟨sections, state, reached, rfl, labels⟩ := Run.simulates
    (fun locked state => program.view locked = state) (fun _ action => action.event?)
    (program.view_eq _ (program.memory start) start (program.withMemory_memory start).symm fun _ => rfl) run
    (fun entry member after state related taken silent =>
      (((moves entry member after taken).view (orderly entry member)).1 silent).trans related)
    (fun entry member after state event related taken labelled =>
      ⟨_, related ▸ ((moves entry member after taken).view (orderly entry member)).2 event labelled, rfl⟩)
  exact ⟨sections, reached, labels⟩

theorem run_moves (run : Run (Locked.step program) (Locked.initial start) trace final)
    (orderly : ∀ entry ∈ trace, Orderly program entry.1 entry.2) :
    ∀ entry ∈ trace, ∀ after, entry.1.step program entry.2 = some after →
      Move program entry.1 entry.2 after := by
  intro entry member after taken
  obtain ⟨_, reached, earlierOrderly⟩ := run.before orderly member
  exact step_move (run_balanced reached earlierOrderly).exclusive taken

/-- The run of whole sections is that of what is seen as they are entered. -/
theorem run_viewed (run : Run (Locked.step program) (Locked.initial start) trace final)
    (orderly : ∀ entry ∈ trace, Orderly program entry.1 entry.2) :
    Run program.step start
      (trace.filterMap fun entry => entry.2.event?.map fun event => (program.view entry.1, event))
      (program.view final) := by
  have moves := run_moves run orderly
  have initial : program.view (Locked.initial start) = start :=
    program.view_eq _ (program.memory start) start (program.withMemory_memory start).symm fun _ => rfl
  have viewed := run.viewed program.view Action.event?
    (fun entry member after taken silent =>
      ((moves entry member after taken).view (orderly entry member)).1 silent)
    (fun entry member after event taken labelled =>
      ((moves entry member after taken).view (orderly entry member)).2 event labelled)
  rwa [initial] at viewed

theorem run_pending (run : Run (Locked.step program) (Locked.initial start) trace final)
    (orderly : ∀ entry ∈ trace, Orderly program entry.1 entry.2)
    {allowed : (segment : Segment) → (Value segment → Value segment) → Prop}
    (begins : ∀ before event segment, (before, Action.wait event) ∈ trace → program.scope event = some segment →
      ∀ store ∈ program.stores (program.view before) event segment, allowed segment store) :
    ∀ segment, ∀ visit ∈ final.visits segment, ∀ store ∈ visit.pending, allowed segment store := by
  induction run with
  | nil => exact fun _ _ member => nomatch member
  | @snoc earlierTrace before action after earlier taken ih =>
      have held := ih (fun entry member => orderly entry (List.mem_append_left _ member))
        fun before event segment member => begins before event segment (List.mem_append_left _ member)
      have last : ∀ event segment, action = .wait event → program.scope event = some segment →
          ∀ store ∈ program.stores (program.view before) event segment, allowed segment store := by
        intro event segment same scope
        subst same
        exact begins before event segment (by simp) scope
      exact (run_moves (earlier.snoc taken) orderly (before, action) (by simp) after taken).pending last held

/-- Semaphores are never lost exactly in the runs in which no process ends
inside a section. -/
theorem run_unlocked_iff (run : Run (Locked.step program) (Locked.initial start) trace final) :
    (final.Unlocked ∧ ∀ entry ∈ trace, entry.1.Unlocked) ↔
      ∀ entry ∈ trace, Orderly program entry.1 entry.2 := by
  constructor
  · intro found
    obtain ⟨unlocked, always⟩ := found
    induction run with
    | nil => simp
    | snoc earlier taken ih =>
        rename_i before action after
        have orderly := ih (always (before, action) (by simp))
          (fun entry member => always entry (List.mem_append_left _ member))
        have balanced := run_balanced earlier orderly
        intro entry member
        rcases List.mem_append.mp member with member | member
        · exact orderly entry member
        · cases List.mem_singleton.mp member
          by_contra disorderly
          exact (step_move balanced.exclusive taken).leaks disorderly balanced unlocked
  · intro orderly
    refine ⟨(run_balanced run orderly).unlocked, fun entry member => ?_⟩
    obtain ⟨_, reached, earlierOrderly⟩ := run.before orderly member
    exact (run_balanced reached earlierOrderly).unlocked

end

end

end Systems.Sections
