import DeiChain.Bookkeeping
import DeiChain.Systems.TopUp

namespace DeiChain

open Data Systems

/-! # Waking the miners

`sem_minerwork` over the running system. A generator that leaves the section of
the pool with enough transactions in it reads the semaphore and posts what is
missing to `NUM_MINERS`; a miner thread polls the pool after `sem_timedwait`
took a post or timed out.
-/

/-- The points of the loop of a generator: `signalling` is after a section that
set `should_signal`, `posting` inside the loop of posts, with so many to go. -/
inductive TxGenPhase where
  | sleeping
  | signalling
  | posting (left : Nat)
  | ended
deriving DecidableEq

def TxGenPhase.missing : TxGenPhase → Nat
  | .posting left => left
  | _ => 0

/-- The loop of posts ends when none is left. -/
def TxGenPhase.owing (left : Nat) : TxGenPhase :=
  if left = 0 then .sleeping else .posting left

@[simp] theorem TxGenPhase.missing_owing (left : Nat) : (TxGenPhase.owing left).missing = left := by
  unfold TxGenPhase.owing
  split
  · rename_i none
    exact none.symm
  · rfl

structure TxGen where
  phase : TxGenPhase
  lastSignalCount : Int

structure Wakeups (n : Nat) where
  system : State n
  minerwork : Nat
  txGens : Nat → TxGen

/-- The semaphore is created with value 0. -/
def Wakeups.initial (setup : Setup) : Wakeups setup.txs :=
  { system := State.initial setup, minerwork := 0, txGens := fun _ => ⟨.sleeping, 0⟩ }

/-- Steps of generators and the ways out of `sem_timedwait`; every other step
of the system is one of `other`. -/
inductive WakeEvent where
  | insert (gen : Nat) (stack : CharArray txIdLen) (rand : Nat) (now : Int64)
  | getvalue (gen : Nat)
  | post (gen : Nat)
  | interrupt (gen : Nat)
  | wake (thread : Nat)
  | timeout (thread : Nat)
  | other (event : Event)

/-- The two steps of the system around which the semaphore is used. -/
def Event.signals : Event → Bool
  | .insert _ _ _ _ | .pollPool _ => true
  | _ => false

/-- Past this value `sem_post` fails. -/
def semValueMax : Nat := 2 ^ 31 - 1

/-- `num_miners - semval`, an `unsigned int` kept in an `int`. -/
def toPost (numMiners semval : Nat) : Int := ((numMiners : Int) - semval).bmod (2 ^ 32)

/-- The counter as the `int` that is kept as `last_signal_count`. -/
def TransactionPool.currentCount (pool : TransactionPool) : Int := (pool.count.toNat : Int).bmod (2 ^ 32)

def shouldSignal (transactionsPerBlock : Nat) (pool : TransactionPool) (transactionAdded : Bool)
    (lastSignalCount : Int) : Bool :=
  decide ((transactionsPerBlock : Int) ≤ pool.currentCount) &&
    (transactionAdded || pool.currentCount != lastSignalCount ||
      decide (pool.currentCount % 2 ^ 32 = pool.size))

section

variable (setup : Setup) (state : Wakeups setup.txs)

def transactionAdded (gen : Nat) (stack : CharArray txIdLen) (rand : Nat) (now : Int64) : Bool :=
  match insertTransaction state.system.pool (newTransaction setup state.system gen stack rand now) with
  | .added _ _ => true
  | .noSlot | .full => false

def wakeInsert (gen : Nat) (stack : CharArray txIdLen) (rand : Nat) (now : Int64) :
    Option (Wakeups setup.txs) :=
  match (state.txGens gen).phase with
  | .sleeping =>
      let system := stepInsert setup state.system gen stack rand now
      if shouldSignal setup.txs system.pool (transactionAdded setup state gen stack rand now)
          (state.txGens gen).lastSignalCount then
        some { state with
          system
          txGens := Function.update state.txGens gen ⟨.signalling, system.pool.currentCount⟩ }
      else some { state with system }
  | _ => none

def Wakeups.withPhase {n : Nat} (state : Wakeups n) (gen : Nat) (phase : TxGenPhase) : Wakeups n :=
  { state with
    txGens := Function.update state.txGens gen ⟨phase, (state.txGens gen).lastSignalCount⟩ }

def wakeGetvalue (gen : Nat) : Option (Wakeups setup.txs) :=
  match (state.txGens gen).phase with
  | .signalling =>
      some (state.withPhase gen (.owing (toPost setup.cfg.numMiners state.minerwork).toNat))
  | _ => none

/-- One round of the loop of posts; a failed post is reported and not repeated. -/
def wakePost (gen : Nat) : Option (Wakeups setup.txs) :=
  match (state.txGens gen).phase with
  | .posting (left + 1) =>
      some { state.withPhase gen (.owing left) with
        minerwork := if state.minerwork < semValueMax then state.minerwork + 1 else state.minerwork }
  | _ => none

/-- `sem_timedwait` takes a post whenever there is one, and times out only when
there is none. -/
def wakeThread (thread : Nat) : Option (Wakeups setup.txs) :=
  match state.minerwork with
  | 0 => none
  | minerwork + 1 =>
      (stepPollPool setup state.system thread).map fun system => { state with system, minerwork }

def wakeTimeout (thread : Nat) : Option (Wakeups setup.txs) :=
  if state.minerwork = 0 then
    (stepPollPool setup state.system thread).map fun system => { state with system }
  else none

def wakeOther (event : Event) : Option (Wakeups setup.txs) :=
  if event.signals then none
  else (step setup state.system event).map fun system => { state with system }

end

def wakeStep (setup : Setup) (state : Wakeups setup.txs) : WakeEvent → Option (Wakeups setup.txs)
  | .insert gen stack rand now => wakeInsert setup state gen stack rand now
  | .getvalue gen => wakeGetvalue setup state gen
  | .post gen => wakePost setup state gen
  | .interrupt gen => some (state.withPhase gen .ended)
  | .wake thread => wakeThread setup state thread
  | .timeout thread => wakeTimeout setup state thread
  | .other event => wakeOther setup state event

abbrev WakeRun (setup : Setup) (trace : List (Wakeups setup.txs × WakeEvent)) (final : Wakeups setup.txs) :
    Prop :=
  Run (wakeStep setup) (Wakeups.initial setup) trace final

def WakeEvent.system? : WakeEvent → Option Event
  | .insert gen stack rand now => some (.insert gen stack rand now)
  | .wake thread | .timeout thread => some (.pollPool thread)
  | .other event => some event
  | .getvalue _ | .post _ | .interrupt _ => none

def WakeEvent.topUp? : WakeEvent → Option (TopUp.Action Nat)
  | .getvalue gen => some (.measure gen)
  | .post gen => some (.post gen)
  | .interrupt gen => some (.quit gen)
  | .wake _ => some .take
  | .insert _ _ _ _ | .timeout _ | .other _ => none

/-- The semaphore and what each generator has still to post. -/
def Wakeups.view {n : Nat} (state : Wakeups n) : TopUp.State Nat :=
  ⟨state.minerwork, fun gen => (state.txGens gen).phase.missing⟩

theorem Wakeups.view_withPhase {n : Nat} (state : Wakeups n) (gen : Nat) (phase : TxGenPhase) :
    (state.withPhase gen phase).view = state.view.owes gen phase.missing := by
  simp only [Wakeups.view, Wakeups.withPhase, TopUp.State.owes, TopUp.State.mk.injEq, true_and]
  funext other
  by_cases same : other = gen
  · subst same
    simp
  · simp [same]

theorem toPost_toNat {numMiners semval : Nat} (few : numMiners < 2 ^ 31) (small : semval ≤ semValueMax) :
    (toPost numMiners semval).toNat = numMiners - semval := by
  have low : semval ≤ 2 ^ 31 - 1 := small
  rw [toPost, Int.bmod_eq_of_le] <;> omega

section

variable {setup : Setup} {before after final : Wakeups setup.txs} {event : WakeEvent}
  {trace : List (Wakeups setup.txs × WakeEvent)}

/-- What a step does to the system, to the semaphore and to the generators. -/
inductive WakeTransition (setup : Setup) (before : Wakeups setup.txs) :
    WakeEvent → Wakeups setup.txs → Prop where
  | signalled {gen stack rand now} (sleeping : (before.txGens gen).phase = .sleeping)
      (signals : shouldSignal setup.txs (stepInsert setup before.system gen stack rand now).pool
        (transactionAdded setup before gen stack rand now) (before.txGens gen).lastSignalCount = true) :
      WakeTransition setup before (.insert gen stack rand now)
        { before with
          system := stepInsert setup before.system gen stack rand now
          txGens := Function.update before.txGens gen
            ⟨.signalling, (stepInsert setup before.system gen stack rand now).pool.currentCount⟩ }
  | quiet {gen stack rand now} (sleeping : (before.txGens gen).phase = .sleeping)
      (silent : shouldSignal setup.txs (stepInsert setup before.system gen stack rand now).pool
        (transactionAdded setup before gen stack rand now) (before.txGens gen).lastSignalCount = false) :
      WakeTransition setup before (.insert gen stack rand now)
        { before with system := stepInsert setup before.system gen stack rand now }
  | measured {gen} (signalling : (before.txGens gen).phase = .signalling) :
      WakeTransition setup before (.getvalue gen)
        (before.withPhase gen (.owing (toPost setup.cfg.numMiners before.minerwork).toNat))
  | posted {gen left} (posting : (before.txGens gen).phase = .posting (left + 1)) :
      WakeTransition setup before (.post gen)
        { before.withPhase gen (.owing left) with
          minerwork := if before.minerwork < semValueMax then before.minerwork + 1 else before.minerwork }
  | interrupted {gen} : WakeTransition setup before (.interrupt gen) (before.withPhase gen .ended)
  | woken {thread minerwork system} (positive : before.minerwork = minerwork + 1)
      (polled : step setup before.system (.pollPool thread) = some system) :
      WakeTransition setup before (.wake thread) { before with system, minerwork }
  | timedOut {thread system} (zero : before.minerwork = 0)
      (polled : step setup before.system (.pollPool thread) = some system) :
      WakeTransition setup before (.timeout thread) { before with system }
  | other {event system} (taken : step setup before.system event = some system) :
      WakeTransition setup before (.other event) { before with system }

theorem wakeInsert_transition {gen : Nat} {stack : CharArray txIdLen} {rand : Nat} {now : Int64}
    (taken : wakeInsert setup before gen stack rand now = some after) :
    WakeTransition setup before (.insert gen stack rand now) after := by
  simp only [wakeInsert] at taken
  split at taken
  · rename_i sleeping
    split at taken
    · rename_i signals
      cases taken
      exact .signalled sleeping signals
    · rename_i silent
      cases taken
      exact .quiet sleeping (Bool.eq_false_iff.mpr silent)
  · cases taken

theorem wakeThread_transition {thread : Nat} (taken : wakeThread setup before thread = some after) :
    WakeTransition setup before (.wake thread) after := by
  simp only [wakeThread] at taken
  split at taken
  · cases taken
  · rename_i positive
    obtain ⟨system, polled, rfl⟩ := Option.map_eq_some_iff.mp taken
    exact .woken positive polled

theorem wakeTimeout_transition {thread : Nat} (taken : wakeTimeout setup before thread = some after) :
    WakeTransition setup before (.timeout thread) after := by
  simp only [wakeTimeout] at taken
  split at taken
  · rename_i zero
    obtain ⟨system, polled, rfl⟩ := Option.map_eq_some_iff.mp taken
    exact .timedOut zero polled
  · cases taken

theorem wakeOther_transition {event : Event} (taken : wakeOther setup before event = some after) :
    WakeTransition setup before (.other event) after := by
  simp only [wakeOther] at taken
  split at taken
  · cases taken
  · obtain ⟨system, stepped, rfl⟩ := Option.map_eq_some_iff.mp taken
    exact .other stepped

theorem wakeStep_transition (taken : wakeStep setup before event = some after) :
    WakeTransition setup before event after := by
  cases event with
  | insert gen stack rand now => exact wakeInsert_transition taken
  | getvalue gen =>
      simp only [wakeStep, wakeGetvalue] at taken
      split at taken
      · rename_i signalling
        cases taken
        exact .measured signalling
      · cases taken
  | post gen =>
      simp only [wakeStep, wakePost] at taken
      split at taken
      · rename_i posting
        cases taken
        exact .posted posting
      · cases taken
  | interrupt gen =>
      cases taken
      exact .interrupted
  | wake thread => exact wakeThread_transition taken
  | timeout thread => exact wakeTimeout_transition taken
  | other event => exact wakeOther_transition taken

theorem WakeTransition.system (taken : WakeTransition setup before event after) :
    (event.system? = none ∧ after.system = before.system) ∨
      ∃ action, event.system? = some action ∧ step setup before.system action = some after.system := by
  cases taken with
  | signalled | quiet => exact .inr ⟨_, rfl, rfl⟩
  | measured | posted | interrupted => exact .inl ⟨rfl, rfl⟩
  | woken _ polled => exact .inr ⟨_, rfl, polled⟩
  | timedOut _ polled => exact .inr ⟨_, rfl, polled⟩
  | other taken => exact .inr ⟨_, rfl, taken⟩

/-- A run with the semaphore is a run of the system without it. -/
theorem WakeRun.system (run : WakeRun setup trace final) :
    ∃ events, SystemRun setup events final.system ∧
      events.map Prod.snd = trace.filterMap fun entry => entry.2.system? := by
  have simulated : ∃ events state, SystemRun setup events state ∧ final.system = state ∧
      events.map Prod.snd = trace.filterMap fun entry => entry.2.system? := by
    refine run.simulates (fun wakeups state => wakeups.system = state) (fun _ event => event.system?) rfl
      (fun entry _ after state held taken silent => ?_)
      (fun entry _ after state action held taken labelled => ?_)
    · rcases (wakeStep_transition taken).system with ⟨_, same⟩ | ⟨action, own, _⟩
      · exact same.trans held
      · rw [silent] at own
        cases own
    · rcases (wakeStep_transition taken).system with ⟨none, _⟩ | ⟨_, own, stepped⟩
      · rw [none] at labelled
        cases labelled
      · cases own.symm.trans labelled
        exact ⟨_, held ▸ stepped, rfl⟩
  obtain ⟨events, state, systemRun, rfl, labels⟩ := simulated
  exact ⟨events, systemRun, labels⟩

theorem WakeRun.pool_sound (run : WakeRun setup trace final) :
    final.system.pool.Sound setup.cfg.transactionPoolSize := by
  obtain ⟨_, systemRun, _⟩ := WakeRun.system run
  exact systemRun.pool_sound

theorem WakeTransition.minerwork_le (taken : WakeTransition setup before event after)
    (bound : before.minerwork ≤ semValueMax) : after.minerwork ≤ semValueMax := by
  cases taken with
  | posted =>
      dsimp only
      split <;> omega
  | woken positive =>
      dsimp only
      omega
  | _ => exact bound

theorem WakeRun.minerwork_le (run : WakeRun setup trace final) : final.minerwork ≤ semValueMax :=
  Run.invariant (fun wakeups => wakeups.minerwork ≤ semValueMax) (Nat.zero_le _)
    (fun _ _ _ bound taken => (wakeStep_transition taken).minerwork_le bound) run

/-- The semaphore and the posts to come change as fillers change them that top
up to `NUM_MINERS`. -/
theorem WakeTransition.topUp (taken : WakeTransition setup before event after)
    (bound : before.minerwork ≤ semValueMax) :
    (event.topUp? = none ∧ after.view = before.view) ∨
      ∃ action, event.topUp? = some action ∧
        TopUp.step setup.cfg.numMiners semValueMax before.view action = some after.view := by
  cases taken with
  | @signalled gen stack rand now sleeping signals =>
      refine .inl ⟨rfl, ?_⟩
      simp only [Wakeups.view, TopUp.State.mk.injEq, true_and]
      funext other
      by_cases same : other = gen
      · subst same
        simp [sleeping, TxGenPhase.missing]
      · simp [same]
  | quiet => exact .inl ⟨rfl, rfl⟩
  | @measured gen signalling =>
      refine .inr ⟨_, rfl, ?_⟩
      have settled : before.view.missing gen = 0 := congrArg TxGenPhase.missing signalling
      rw [TopUp.step, if_pos settled, Wakeups.view_withPhase, TxGenPhase.missing_owing,
        toPost_toNat setup.cfg.minersInt bound]
      rfl
  | @posted gen left posting =>
      refine .inr ⟨_, rfl, ?_⟩
      have owed : before.view.missing gen = left + 1 := congrArg TxGenPhase.missing posting
      have paid := before.view_withPhase gen (.owing left)
      rw [TxGenPhase.missing_owing] at paid
      simp only [TopUp.step, owed, ← paid]
      rfl
  | @interrupted gen => exact .inr ⟨_, rfl, congrArg some (before.view_withPhase gen .ended).symm⟩
  | woken positive =>
      refine .inr ⟨_, rfl, ?_⟩
      have value : before.view.value = _ + 1 := positive
      simp only [TopUp.step, value]
      rfl
  | timedOut | other => exact .inl ⟨rfl, rfl⟩

theorem wakeRun_topUp {start : Wakeups setup.txs} (bound : start.minerwork ≤ semValueMax)
    (run : Run (wakeStep setup) start trace final) :
    ∃ actions, Run (TopUp.step setup.cfg.numMiners semValueMax) start.view actions final.view ∧
      actions.map Prod.snd = trace.filterMap fun entry => entry.2.topUp? := by
  have simulated : ∃ actions view, Run (TopUp.step setup.cfg.numMiners semValueMax) start.view actions view ∧
      (final.view = view ∧ final.minerwork ≤ semValueMax) ∧
      actions.map Prod.snd = trace.filterMap fun entry => entry.2.topUp? := by
    refine run.simulates (fun wakeups view => wakeups.view = view ∧ wakeups.minerwork ≤ semValueMax)
      (fun _ event => event.topUp?) ⟨rfl, bound⟩
      (fun entry _ after view held taken silent => ?_)
      (fun entry _ after view action held taken labelled => ?_)
    · have transition := wakeStep_transition taken
      rcases transition.topUp held.2 with ⟨_, same⟩ | ⟨action, own, _⟩
      · exact ⟨same.trans held.1, transition.minerwork_le held.2⟩
      · rw [silent] at own
        cases own
    · have transition := wakeStep_transition taken
      rcases transition.topUp held.2 with ⟨none, _⟩ | ⟨_, own, stepped⟩
      · rw [none] at labelled
        cases labelled
      · cases own.symm.trans labelled
        exact ⟨_, held.1 ▸ stepped, rfl, transition.minerwork_le held.2⟩
  obtain ⟨actions, view, topUpRun, ⟨rfl, _⟩, labels⟩ := simulated
  exact ⟨actions, topUpRun, labels⟩

/-- With one generator `sem_minerwork` and the posts still to come never exceed
`NUM_MINERS`; every further generator adds as many at most. -/
theorem minerwork_bounded (setup : Setup) {trace : List (Wakeups setup.txs × WakeEvent)}
    {final : Wakeups setup.txs} (run : WakeRun setup trace final) (gens : Finset Nat)
    (known : ∀ entry ∈ trace, ∀ gen, entry.2 = .getvalue gen → gen ∈ gens) :
    final.minerwork + ∑ gen ∈ gens, (final.txGens gen).phase.missing ≤ gens.card * setup.cfg.numMiners := by
  obtain ⟨actions, topUpRun, labels⟩ := wakeRun_topUp (Nat.zero_le _) run
  have initial : TopUp.Bounded setup.cfg.numMiners gens (Wakeups.initial setup).view :=
    ⟨fun _ => Nat.zero_le _, fun _ _ => rfl, by
      simp [TopUp.State.total, Wakeups.view, Wakeups.initial, TxGenPhase.missing]⟩
  refine (TopUp.Run.bounded initial topUpRun fun entry member gen measures => ?_).total
  have label : entry.2 ∈ trace.filterMap fun entry => entry.2.topUp? :=
    labels ▸ List.mem_map_of_mem member
  obtain ⟨wakeEntry, wakeMember, same⟩ := List.mem_filterMap.mp label
  rw [measures] at same
  refine known wakeEntry wakeMember gen ?_
  generalize wakeEntry.2 = event at same
  cases event <;> cases same
  rfl

end

end DeiChain
