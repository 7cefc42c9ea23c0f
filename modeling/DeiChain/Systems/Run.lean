import Mathlib.Data.List.Induction

namespace Systems

universe u v w x

variable {State : Type u} {Event : Type v} {Abstract : Type w} {Action : Type x}

/-! # Runs of a partial step function

A run records every event together with the state it was taken in, so that a
property of a whole history can speak about the states in which its steps
happened. Nothing here depends on what the states and events are.
-/

/-- `Run step start trace final`: the steps of `trace`, oldest first, lead from
`start` to `final`. -/
inductive Run (step : State → Event → Option State) (start : State) :
    List (State × Event) → State → Prop where
  | nil : Run step start [] start
  | snoc {trace before event after}
      (earlier : Run step start trace before)
      (taken : step before event = some after) :
      Run step start (trace ++ [(before, event)]) after

variable {step : State → Event → Option State} {start middle final : State}
  {trace later : List (State × Event)}

theorem Run.append (first : Run step start trace middle) (second : Run step middle later final) :
    Run step start (trace ++ later) final := by
  induction second with
  | nil => simpa using first
  | snoc earlier taken ih => simpa only [List.append_assoc] using ih.snoc taken

/-- The induction rule for runs in which every step meets `allowed`. An
unconditional invariant is the case where `allowed` is always true. -/
theorem Run.invariant_of_allowed (invariant : State → Prop) (allowed : State → Event → Prop)
    (initial : invariant start)
    (preserved : ∀ before event after, invariant before → allowed before event →
      step before event = some after → invariant after)
    (run : Run step start trace final)
    (conditions : ∀ entry ∈ trace, allowed entry.1 entry.2) : invariant final := by
  induction run with
  | nil => exact initial
  | snoc earlier taken ih =>
      have before := ih (fun entry member => conditions entry (List.mem_append_left _ member))
      exact preserved _ _ _ before (conditions (_, _) (List.mem_append_right _ (by simp))) taken

theorem Run.invariant (invariant : State → Prop) (initial : invariant start)
    (preserved : ∀ before event after, invariant before →
      step before event = some after → invariant after)
    (run : Run step start trace final) : invariant final :=
  run.invariant_of_allowed invariant (fun _ _ => True) initial
    (fun before event after held _ taken => preserved before event after held taken)
    (fun _ _ => trivial)

/-- A recorded step splits its run: an earlier run reaches the recorded state,
the step is enabled there, and a later run leads on to the end. -/
theorem Run.split_at {before : State} {event : Event} {earlier : List (State × Event)}
    (run : Run step start (earlier ++ (before, event) :: later) final) :
    Run step start earlier before ∧
      ∃ after, step before event = some after ∧ Run step after later final := by
  induction later using List.reverseRecOn generalizing final with
  | nil =>
      generalize whole : earlier ++ [(before, event)] = recorded at run
      cases run with
      | nil => simp at whole
      | snoc prior taken =>
          obtain ⟨rfl, same⟩ := List.append_inj' whole rfl
          cases same
          exact ⟨prior, _, taken, .nil⟩
  | append_singleton later last ih =>
      generalize whole : earlier ++ (before, event) :: (later ++ [last]) = recorded at run
      cases run with
      | nil => simp at whole
      | snoc prior taken =>
          have regrouped : (earlier ++ (before, event) :: later) ++ [last] = _ :=
            (by simp : _ = earlier ++ (before, event) :: (later ++ [last])).trans whole
          obtain ⟨rfl, same⟩ := List.append_inj' regrouped rfl
          cases same
          obtain ⟨reached, after, enabled, rest⟩ := ih prior
          exact ⟨reached, after, enabled, rest.snoc taken⟩

theorem Run.head_eq {before : State} {event : Event} (run : Run step start ((before, event) :: later) final) :
    before = start := by
  have whole : Run step start ([] ++ (before, event) :: later) final := run
  have reached := whole.split_at.1
  generalize none : ([] : List (State × Event)) = recorded at reached
  cases reached with
  | nil => rfl
  | snoc => simp at none

theorem Run.recorded {before : State} {event : Event}
    (run : Run step start trace final) (member : (before, event) ∈ trace) :
    ∃ earlier later after, trace = earlier ++ (before, event) :: later ∧
      Run step start earlier before ∧ step before event = some after ∧
      Run step after later final := by
  obtain ⟨earlier, later, rfl⟩ := List.append_of_mem member
  obtain ⟨reached, after, enabled, rest⟩ := run.split_at
  exact ⟨earlier, later, after, rfl, reached, enabled, rest⟩

/-- What holds of all steps of a run holds of those before a recorded one. -/
theorem Run.before {holds : State × Event → Prop} (run : Run step start trace final)
    (conditions : ∀ entry ∈ trace, holds entry) {entry : State × Event} (member : entry ∈ trace) :
    ∃ earlier, Run step start earlier entry.1 ∧ ∀ prior ∈ earlier, holds prior := by
  obtain ⟨earlier, later, _, split, reached, _, _⟩ := run.recorded member
  refine ⟨earlier, reached, fun prior priorMember => conditions prior ?_⟩
  rw [split]
  exact List.mem_append_left _ priorMember

/-- A reflexive and transitive relation kept by every step from a state that
can be reached relates each recorded state to the end of the run. -/
theorem Run.related (relation : State → State → Prop)
    (reflexive : ∀ state, relation state state)
    (transitive : ∀ {first second third}, relation first second → relation second third →
      relation first third)
    (kept : ∀ {trace before event after}, Run step start trace before →
      step before event = some after → relation before after)
    (run : Run step start trace final) :
    relation start final ∧ ∀ entry ∈ trace, relation entry.1 final := by
  induction run with
  | nil => exact ⟨reflexive _, by simp⟩
  | snoc earlier taken ih =>
      have last := kept earlier taken
      refine ⟨transitive ih.1 last, ?_⟩
      intro entry member
      rcases List.mem_append.mp member with member | member
      · exact transitive (ih.2 entry member) last
      · cases List.mem_singleton.mp member
        exact last

/-- Forward simulation with stuttering. `label` says which action an event
stands for, if any; the abstract run takes exactly the labelled actions. -/
theorem Run.simulates {abstractStep : Abstract → Action → Option Abstract} {abstractStart : Abstract}
    (related : State → Abstract → Prop) (label : State → Event → Option Action)
    (initial : related start abstractStart)
    (run : Run step start trace final)
    (silent : ∀ entry ∈ trace, ∀ after abstract, related entry.1 abstract →
      step entry.1 entry.2 = some after → label entry.1 entry.2 = none → related after abstract)
    (matched : ∀ entry ∈ trace, ∀ after abstract action, related entry.1 abstract →
      step entry.1 entry.2 = some after → label entry.1 entry.2 = some action →
      ∃ next, abstractStep abstract action = some next ∧ related after next) :
    ∃ abstractTrace abstract, Run abstractStep abstractStart abstractTrace abstract ∧
      related final abstract ∧
      abstractTrace.map Prod.snd = trace.filterMap fun entry => label entry.1 entry.2 := by
  induction run with
  | nil => exact ⟨[], abstractStart, .nil, initial, rfl⟩
  | @snoc earlierTrace before event after earlier taken ih =>
      obtain ⟨abstractTrace, abstract, reached, held, labels⟩ := ih
        (fun entry member => silent entry (List.mem_append_left _ member))
        (fun entry member => matched entry (List.mem_append_left _ member))
      have last : (before, event) ∈ earlierTrace ++ [(before, event)] := by simp
      cases label_eq : label before event with
      | none =>
          refine ⟨abstractTrace, abstract, reached, silent _ last _ _ held taken label_eq, ?_⟩
          simp [labels, label_eq]
      | some action =>
          obtain ⟨next, abstractTaken, kept⟩ := matched _ last _ _ _ held taken label_eq
          refine ⟨abstractTrace ++ [(abstract, action)], next, reached.snoc abstractTaken, kept, ?_⟩
          simp [labels, label_eq]

/-- A simulation by a function of the state. The abstract run is that of what
is seen in the states of the run. -/
theorem Run.viewed {abstractStep : Abstract → Action → Option Abstract} (view : State → Abstract)
    (label : Event → Option Action) (run : Run step start trace final)
    (silent : ∀ entry ∈ trace, ∀ after, step entry.1 entry.2 = some after → label entry.2 = none →
      view after = view entry.1)
    (matched : ∀ entry ∈ trace, ∀ after action, step entry.1 entry.2 = some after →
      label entry.2 = some action → abstractStep (view entry.1) action = some (view after)) :
    Run abstractStep (view start)
      (trace.filterMap fun entry => (label entry.2).map fun action => (view entry.1, action)) (view final) := by
  induction run with
  | nil => exact .nil
  | @snoc earlierTrace before event after earlier taken ih =>
      have reached := ih (fun entry member => silent entry (List.mem_append_left _ member))
        (fun entry member => matched entry (List.mem_append_left _ member))
      have last : (before, event) ∈ earlierTrace ++ [(before, event)] := by simp
      rw [List.filterMap_append]
      cases labelled : label event with
      | none =>
          rw [silent _ last _ taken labelled]
          simpa [labelled] using reached
      | some action =>
          simpa [labelled] using reached.snoc (matched _ last _ _ taken labelled)

theorem Run.rename {Name : Type x} {named : State → Name → Option State} (event : Name → Event)
    (taken : ∀ before name after, named before name = some after → step before (event name) = some after)
    {names : List (State × Name)} (run : Run named start names final) :
    Run step start (names.map fun entry => (entry.1, event entry.2)) final := by
  induction run with
  | nil => exact .nil
  | snoc earlier last ih =>
      rw [List.map_append]
      exact ih.snoc (taken _ _ _ last)

/-- The steps that pass a check, in the state they are taken in. -/
def guarded (step : State → Event → Option State) (check : State → Event → Bool) (state : State)
    (event : Event) : Option State :=
  if check state event then step state event else none

theorem Run.of_guarded {check : State → Event → Bool} (run : Run (guarded step check) start trace final) :
    Run step start trace final ∧ ∀ entry ∈ trace, check entry.1 entry.2 = true := by
  induction run with
  | nil => exact ⟨.nil, by simp⟩
  | snoc earlier taken ih =>
      rw [guarded] at taken
      split at taken
      · rename_i checked
        refine ⟨ih.1.snoc taken, fun entry member => ?_⟩
        rcases List.mem_append.mp member with member | member
        · exact ih.2 entry member
        · cases List.mem_singleton.mp member
          exact checked
      · cases taken

def Reaches (step : State → Event → Option State) (start final : State) : Prop :=
  ∃ trace, Run step start trace final

theorem Reaches.refl (state : State) : Reaches step state state := ⟨[], .nil⟩

theorem Reaches.trans (first : Reaches step start middle) (second : Reaches step middle final) :
    Reaches step start final := by
  obtain ⟨earlier, first⟩ := first
  obtain ⟨later, second⟩ := second
  exact ⟨earlier ++ later, first.append second⟩

theorem Reaches.next {event : Event} (reached : Reaches step start middle)
    (taken : step middle event = some final) : Reaches step start final := by
  obtain ⟨trace, run⟩ := reached
  exact ⟨_, run.snoc taken⟩

/-- A round that can be repeated `count` times. -/
theorem Reaches.iterate (invariant : Nat → State → Prop) (count : Nat)
    (round : ∀ index state, index < count → invariant index state →
      ∃ after, Reaches step state after ∧ invariant (index + 1) after)
    (initial : invariant 0 start) : ∃ after, Reaches step start after ∧ invariant count after := by
  induction count with
  | zero => exact ⟨start, .refl start, initial⟩
  | succ count ih =>
      obtain ⟨state, reached, held⟩ := ih fun index state bound =>
        round index state (Nat.lt_succ_of_lt bound)
      obtain ⟨after, further, next⟩ := round count state (Nat.lt_succ_self count) held
      exact ⟨after, reached.trans further, next⟩

/-- Execute a list of events; `none` when one of them is not enabled. -/
def exec (step : State → Event → Option State) (start : State) : List Event → Option State
  | [] => some start
  | event :: events => (step start event).bind fun next => exec step next events

theorem exec_run {events : List Event} (executed : exec step start events = some final) :
    ∃ trace, Run step start trace final ∧ trace.map Prod.snd = events := by
  induction events generalizing start with
  | nil => cases executed; exact ⟨[], .nil, rfl⟩
  | cons event events ih =>
      cases first : step start event with
      | none => simp [exec, first] at executed
      | some next =>
          have executedRest : exec step next events = some final := by simpa [exec, first] using executed
          obtain ⟨trace, run, recorded⟩ := ih executedRest
          refine ⟨(start, event) :: trace, ?_, by simp [recorded]⟩
          have single : Run step start [(start, event)] next := Run.nil.snoc first
          exact single.append run

theorem exec_run_get {events : List Event} (executed : (exec step start events).isSome = true) :
    ∃ trace, Run step start trace ((exec step start events).get executed) ∧ trace.map Prod.snd = events :=
  exec_run (Option.some_get executed).symm

end Systems
