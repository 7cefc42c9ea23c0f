import DeiChain.Signalling

namespace DeiChain

open Data Systems

/-! # What the semaphore allows

Runs with the semaphore put together from whole rounds of generators, to see
which runs of the system it leaves and how high it can get.
-/

section

variable {setup : Setup} {before after final : Wakeups setup.txs} {event : WakeEvent}
  {trace : List (Wakeups setup.txs × WakeEvent)}

/-- Only these generators come to read the semaphore. -/
def measuresOnly (allowed : Nat → Bool) (_ : Wakeups setup.txs) : WakeEvent → Bool
  | .getvalue gen => allowed gen
  | _ => true

abbrev WakeReaches (setup : Setup) (allowed : Nat → Bool) (final : Wakeups setup.txs) : Prop :=
  Reaches (guarded (wakeStep setup) (measuresOnly allowed)) (Wakeups.initial setup) final

variable {allowed : Nat → Bool}

theorem WakeReaches.next (reached : WakeReaches setup allowed before)
    (passes : measuresOnly allowed before event = true) (taken : wakeStep setup before event = some after) :
    WakeReaches setup allowed after := by
  have passed : guarded (wakeStep setup) (measuresOnly allowed) before event = some after := by
    rw [guarded, if_pos passes, taken]
  exact Reaches.next reached passed

theorem WakeReaches.run (reached : WakeReaches setup allowed final) :
    ∃ trace, WakeRun setup trace final ∧
      ∀ entry ∈ trace, ∀ gen, entry.2 = .getvalue gen → allowed gen = true := by
  obtain ⟨trace, run⟩ := reached
  obtain ⟨wakeRun, passed⟩ := run.of_guarded
  refine ⟨trace, wakeRun, fun entry member gen measures => ?_⟩
  have own := passed entry member
  rwa [measures] at own

/-- A reachable state by its system, the semaphore and where each generator is. -/
structure Arrived (setup : Setup) (allowed : Nat → Bool) (system : State setup.txs) (value : Nat)
    (phases : Nat → TxGenPhase) (state : Wakeups setup.txs) : Prop where
  reached : WakeReaches setup allowed state
  system : state.system = system
  value : state.minerwork = value
  phases : ∀ gen, (state.txGens gen).phase = phases gen

variable {system : State setup.txs} {value : Nat} {phases : Nat → TxGenPhase}

theorem Arrived.initial (setup : Setup) (allowed : Nat → Bool) :
    Arrived setup allowed (State.initial setup) 0 (fun _ => .sleeping) (Wakeups.initial setup) :=
  ⟨.refl _, rfl, rfl, fun _ => rfl⟩

theorem Arrived.pool_sound (arrived : Arrived setup allowed system value phases before) :
    system.pool.Sound setup.cfg.transactionPoolSize := by
  obtain ⟨_, run, _⟩ := arrived.reached.run
  exact arrived.system ▸ WakeRun.pool_sound run

theorem Arrived.value_le (arrived : Arrived setup allowed system value phases before) :
    value ≤ semValueMax := by
  obtain ⟨_, run, _⟩ := arrived.reached.run
  exact arrived.value ▸ WakeRun.minerwork_le run

theorem Wakeups.withPhase_phases {n : Nat} {state : Wakeups n}
    (same : ∀ gen, (state.txGens gen).phase = phases gen) (acting : Nat) (phase : TxGenPhase) (gen : Nat) :
    ((state.withPhase acting phase).txGens gen).phase = Function.update phases acting phase gen := by
  by_cases own : gen = acting
  · subst own
    simp [Wakeups.withPhase]
  · simp [Wakeups.withPhase, own, same]

/-- One round of generator `gen` in the section of the pool. -/
theorem Arrived.insert (arrived : Arrived setup allowed system value phases before) (gen : Nat)
    (sleeping : phases gen = .sleeping) (stack : CharArray txIdLen) (rand : Nat) (now : Int64) :
    ∃ after, Arrived setup allowed (stepInsert setup system gen stack rand now) value
      (if setup.txs ≤ (stepInsert setup system gen stack rand now).pool.count.toNat then
        Function.update phases gen .signalling else phases) after := by
  have sound := arrived.pool_sound
  obtain ⟨reached, rfl, rfl, here⟩ := arrived
  have own := (here gen).trans sleeping
  have decides := shouldSignal_iff sound gen stack rand now (before.txGens gen).lastSignalCount
  by_cases enough : setup.txs ≤ (stepInsert setup before.system gen stack rand now).pool.count.toNat
  · have taken : wakeStep setup before (.insert gen stack rand now) =
        some { before with
          system := stepInsert setup before.system gen stack rand now
          txGens := Function.update before.txGens gen
            ⟨.signalling, (stepInsert setup before.system gen stack rand now).pool.currentCount⟩ } := by
      simp only [wakeStep, wakeInsert, own, decides.mpr enough, if_true]
    refine ⟨_, reached.next rfl taken, rfl, rfl, fun other => ?_⟩
    dsimp only
    rw [if_pos enough]
    by_cases same : other = gen
    · subst same
      simp
    · simp [same, here]
  · have silent := Bool.eq_false_iff.mpr fun signals => enough (decides.mp signals)
    have taken : wakeStep setup before (.insert gen stack rand now) =
        some { before with system := stepInsert setup before.system gen stack rand now } := by
      simp only [wakeStep, wakeInsert, own, silent, Bool.false_eq_true, if_false]
    rw [if_neg enough]
    exact ⟨_, reached.next rfl taken, rfl, rfl, here⟩

theorem Arrived.measure (arrived : Arrived setup allowed system value phases before) {gen : Nat}
    (known : allowed gen = true) (signalling : phases gen = .signalling) :
    ∃ after, Arrived setup allowed system value
      (Function.update phases gen (.owing (setup.cfg.numMiners - value))) after := by
  have missing := toPost_toNat setup.cfg.minersInt arrived.value_le
  obtain ⟨reached, rfl, rfl, here⟩ := arrived
  have own := (here gen).trans signalling
  have taken : wakeStep setup before (.getvalue gen) =
      some (before.withPhase gen (.owing (setup.cfg.numMiners - before.minerwork))) := by
    simp only [wakeStep, wakeGetvalue, own, missing]
  have passes : measuresOnly allowed before (.getvalue gen) = true := known
  exact ⟨_, reached.next passes taken, rfl, rfl, Wakeups.withPhase_phases here gen _⟩

theorem Arrived.post {left : Nat} (arrived : Arrived setup allowed system value phases before) {gen : Nat}
    (owing : phases gen = .owing left) (room : value + left ≤ semValueMax) :
    ∃ after, Arrived setup allowed system (value + left) (Function.update phases gen .sleeping) after := by
  induction left generalizing value phases before with
  | zero =>
      have settled : Function.update phases gen .sleeping = phases := by
        rw [show TxGenPhase.sleeping = phases gen from owing.symm, Function.update_eq_self]
      rw [settled]
      exact ⟨before, arrived⟩
  | succ left ih =>
      have own : (before.txGens gen).phase = .posting (left + 1) := (arrived.phases gen).trans owing
      have below : value < semValueMax := by omega
      have taken : wakeStep setup before (.post gen) =
          some { before.withPhase gen (.owing left) with minerwork := value + 1 } := by
        simp only [wakeStep, wakePost, own, arrived.value, below, if_true]
      have next : Arrived setup allowed system (value + 1) (Function.update phases gen (.owing left))
          { before.withPhase gen (.owing left) with minerwork := value + 1 } :=
        ⟨arrived.reached.next rfl taken, arrived.system, rfl,
          Wakeups.withPhase_phases arrived.phases gen _⟩
      obtain ⟨after, reached⟩ := ih next (Function.update_self _ _ _) (by omega)
      rw [Function.update_idem, Nat.add_right_comm, Nat.add_assoc] at reached
      exact ⟨after, reached⟩

/-- A whole round of a generator: the section, the reading and the posts. -/
theorem Arrived.round (arrived : Arrived setup (fun _ => true) system value (fun _ => .sleeping) before)
    (gen : Nat) (stack : CharArray txIdLen) (rand : Nat) (now : Int64) :
    ∃ value after, Arrived setup (fun _ => true) (stepInsert setup system gen stack rand now) value
      (fun _ => .sleeping) after := by
  obtain ⟨inserted, first⟩ := arrived.insert gen rfl stack rand now
  split at first
  · obtain ⟨measured, second⟩ := first.measure rfl (Function.update_self _ _ _)
    rw [Function.update_idem] at second
    have possible : setup.cfg.numMiners ≤ semValueMax := Nat.le_sub_one_of_lt setup.cfg.minersInt
    have most := arrived.value_le
    obtain ⟨after, third⟩ := second.post (Function.update_self _ _ _) (by omega)
    rw [Function.update_idem] at third
    refine ⟨_, after, third.reached, third.system, third.value, fun other => ?_⟩
    rw [third.phases, Function.update_apply, ite_self]
  · exact ⟨_, inserted, first⟩

/-- A thread whose poll is due takes a post when there is one and times out
when there is none. -/
theorem Arrived.poll (arrived : Arrived setup allowed system value phases before) {thread : Nat}
    {polled : State setup.txs} (taken : step setup system (.pollPool thread) = some polled) :
    ∃ value after, Arrived setup allowed polled value phases after := by
  obtain ⟨reached, rfl, rfl, here⟩ := arrived
  have polls : stepPollPool setup before.system thread = some polled := taken
  cases positive : before.minerwork with
  | zero =>
      have timesOut : wakeStep setup before (.timeout thread) = some { before with system := polled } := by
        simp only [wakeStep, wakeTimeout, positive, polls, if_true, Option.map_some]
      exact ⟨_, _, reached.next rfl timesOut, rfl, rfl, here⟩
  | succ minerwork =>
      have wakes : wakeStep setup before (.wake thread) = some { before with system := polled, minerwork } := by
        simp only [wakeStep, wakeThread, positive, polls, Option.map_some]
      exact ⟨_, _, reached.next rfl wakes, rfl, rfl, here⟩

theorem Arrived.other (arrived : Arrived setup allowed system value phases before) {event : Event}
    (ordinary : event.signals = false) {next : State setup.txs} (taken : step setup system event = some next) :
    ∃ after, Arrived setup allowed next value phases after := by
  obtain ⟨reached, rfl, rfl, here⟩ := arrived
  have stepped : wakeStep setup before (.other event) = some { before with system := next } := by
    simp only [wakeStep, wakeOther, ordinary, taken, Bool.false_eq_true, if_false, Option.map_some]
  exact ⟨_, reached.next rfl stepped, rfl, rfl, here⟩

theorem SystemRun.realised {events : List (State setup.txs × Event)} (run : SystemRun setup events system) :
    ∃ value state, Arrived setup (fun _ => true) system value (fun _ => .sleeping) state := by
  induction run with
  | nil => exact ⟨_, _, Arrived.initial setup _⟩
  | @snoc _ before event after earlier taken ih =>
      obtain ⟨value, state, arrived⟩ := ih
      cases event with
      | insert gen stack rand now =>
          cases taken
          exact arrived.round gen stack rand now
      | pollPool thread => exact arrived.poll taken
      | _ => exact ⟨_, arrived.other rfl taken⟩

/-- Whatever the generators post and the threads take, every interleaving of
the system stays possible and no other becomes so: a thread finds either a post
or the time-out. -/
theorem reachable_with_minerwork_iff (setup : Setup) (state : State setup.txs) :
    (∃ trace wakeups, WakeRun setup trace wakeups ∧ wakeups.system = state) ↔
      ∃ trace, SystemRun setup trace state := by
  constructor
  · intro given
    obtain ⟨trace, wakeups, run, rfl⟩ := given
    obtain ⟨events, systemRun, _⟩ := WakeRun.system run
    exact ⟨events, systemRun⟩
  · intro given
    obtain ⟨events, run⟩ := given
    obtain ⟨value, wakeups, arrived⟩ := SystemRun.realised run
    obtain ⟨trace, wakeRun, _⟩ := arrived.reached.run
    exact ⟨trace, wakeups, wakeRun, arrived.system⟩

/-- The first `j` generators have come to this point, the other ones of the
first `k` are still at the one before it. -/
def firstOf (j k : Nat) (here there : TxGenPhase) (gen : Nat) : TxGenPhase :=
  if gen < j then here else if gen < k then there else .sleeping

theorem firstOf_next {j k : Nat} (more : j < k) (here there : TxGenPhase) :
    Function.update (firstOf j k here there) j here = firstOf (j + 1) k here there := by
  funext gen
  rw [Function.update_apply]
  unfold firstOf
  split_ifs <;> first | rfl | omega

theorem firstOf_here {j k : Nat} (more : j < k) (here there : TxGenPhase) : firstOf j k here there j = there := by
  simp [firstOf, more]

theorem firstOf_all (k : Nat) (here there last : TxGenPhase) : firstOf k k here there = firstOf 0 k last here := by
  funext gen
  unfold firstOf
  split_ifs <;> first | rfl | omega

abbrev below (k gen : Nat) : Bool := gen < k

theorem signalling_reached (fits : setup.txs ≤ setup.cfg.transactionPoolSize) (k : Nat) :
    ∃ system state, Arrived setup (below k) system 0 (firstOf k k .signalling .sleeping) state := by
  have positive : 1 ≤ setup.txs := setup.cfg.transactionsPositive
  -- one generator fills up to the last transaction before a block
  have filled : ∀ count < setup.txs, ∃ system state, system.pool.count.toNat = count ∧
      Arrived setup (below k) system 0 (fun _ => .sleeping) state := by
    intro count few
    induction count with
    | zero => exact ⟨_, _, rfl, Arrived.initial setup _⟩
    | succ count ih =>
        obtain ⟨system, before, same, arrived⟩ := ih (Nat.lt_of_succ_lt few)
        obtain ⟨after, next⟩ := arrived.insert 0 rfl (zeroArray txIdLen) 0 0
        have grown := stepInsert_count arrived.pool_sound 0 (zeroArray txIdLen) 0 0
        rw [same, Nat.min_eq_left (by omega)] at grown
        rw [if_neg (by omega)] at next
        exact ⟨_, after, grown, next⟩
  have signalled : ∀ j ≤ k, ∃ system state, setup.txs ≤ system.pool.count.toNat + 1 ∧
      Arrived setup (below k) system 0 (firstOf j k .signalling .sleeping) state := by
    intro j within
    induction j with
    | zero =>
        obtain ⟨system, state, same, arrived⟩ := filled (setup.txs - 1) (by omega)
        refine ⟨system, state, by omega, arrived.reached, arrived.system, arrived.value, fun gen => ?_⟩
        rw [arrived.phases]
        simp [firstOf]
    | succ j ih =>
        obtain ⟨system, before, enough, arrived⟩ := ih (Nat.le_of_succ_le within)
        obtain ⟨after, next⟩ :=
          arrived.insert j (firstOf_here within .signalling .sleeping) (zeroArray txIdLen) 0 0
        have grown := stepInsert_count arrived.pool_sound j (zeroArray txIdLen) 0 0
        rw [if_pos (by omega), firstOf_next within] at next
        exact ⟨_, after, by omega, next⟩
  obtain ⟨system, state, _, arrived⟩ := signalled k (Nat.le_refl k)
  exact ⟨system, state, arrived⟩

theorem measured_reached (fits : setup.txs ≤ setup.cfg.transactionPoolSize) (k : Nat) :
    ∃ system state, Arrived setup (below k) system 0
      (firstOf k k (.owing setup.cfg.numMiners) .signalling) state := by
  obtain ⟨system, state, arrived⟩ := signalling_reached fits k
  rw [firstOf_all k .signalling .sleeping (.owing setup.cfg.numMiners)] at arrived
  have measured : ∀ j ≤ k, ∃ after, Arrived setup (below k) system 0
      (firstOf j k (.owing setup.cfg.numMiners) .signalling) after := by
    intro j within
    induction j with
    | zero => exact ⟨state, arrived⟩
    | succ j ih =>
        obtain ⟨before, held⟩ := ih (Nat.le_of_succ_le within)
        obtain ⟨after, next⟩ := held.measure (decide_eq_true within) (firstOf_here within _ _)
        rw [Nat.sub_zero, firstOf_next within] at next
        exact ⟨after, next⟩
  obtain ⟨after, reached⟩ := measured k (Nat.le_refl k)
  exact ⟨system, after, reached⟩

theorem posted_reached (fits : setup.txs ≤ setup.cfg.transactionPoolSize) {k : Nat}
    (limit : k * setup.cfg.numMiners ≤ semValueMax) :
    ∃ state, WakeReaches setup (below k) state ∧ state.minerwork = k * setup.cfg.numMiners := by
  obtain ⟨system, state, arrived⟩ := measured_reached fits k
  rw [firstOf_all k (.owing setup.cfg.numMiners) .signalling .sleeping] at arrived
  have posted : ∀ j ≤ k, ∃ after, Arrived setup (below k) system (j * setup.cfg.numMiners)
      (firstOf j k .sleeping (.owing setup.cfg.numMiners)) after := by
    intro j within
    induction j with
    | zero =>
        rw [Nat.zero_mul]
        exact ⟨state, arrived⟩
    | succ j ih =>
        obtain ⟨before, held⟩ := ih (Nat.le_of_succ_le within)
        have room : (j + 1) * setup.cfg.numMiners ≤ k * setup.cfg.numMiners := Nat.mul_le_mul_right _ within
        have sum : j * setup.cfg.numMiners + setup.cfg.numMiners = (j + 1) * setup.cfg.numMiners :=
          (Nat.succ_mul j setup.cfg.numMiners).symm
        obtain ⟨after, next⟩ := held.post (firstOf_here within _ _) (sum ▸ room.trans limit)
        rw [firstOf_next within, sum] at next
        exact ⟨after, next⟩
  obtain ⟨after, reached⟩ := posted k (Nat.le_refl k)
  exact ⟨after, reached.reached, reached.value⟩

/-- With at most `k` generators that signal the highest value of `sem_minerwork`
is `k` times `NUM_MINERS`: each can find it empty before any of them posts. -/
theorem minerwork_isGreatest (setup : Setup) (k : Nat) (fits : setup.txs ≤ setup.cfg.transactionPoolSize)
    (limit : k * setup.cfg.numMiners ≤ semValueMax) :
    IsGreatest {value | ∃ trace final, ∃ gens : Finset Nat, WakeRun setup trace final ∧ gens.card ≤ k ∧
      (∀ entry ∈ trace, ∀ gen, entry.2 = .getvalue gen → gen ∈ gens) ∧ final.minerwork = value}
      (k * setup.cfg.numMiners) := by
  refine ⟨?_, ?_⟩
  · obtain ⟨state, reached, value⟩ := posted_reached fits limit
    obtain ⟨trace, run, known⟩ := reached.run
    refine ⟨trace, state, Finset.range k, run, (Finset.card_range k).le, ?_, value⟩
    intro entry member gen measures
    exact Finset.mem_range.mpr (of_decide_eq_true (known entry member gen measures))
  · intro value given
    obtain ⟨trace, final, gens, run, few, known, rfl⟩ := given
    have bounded := Nat.le_of_add_right_le (minerwork_bounded setup run gens known)
    exact bounded.trans (Nat.mul_le_mul_right _ few)

theorem minerwork_isGreatest_of_two_generators :
    IsGreatest {value | ∃ trace final, ∃ gens : Finset Nat, WakeRun smallSetup trace final ∧ gens.card ≤ 2 ∧
      (∀ entry ∈ trace, ∀ gen, entry.2 = .getvalue gen → gen ∈ gens) ∧ final.minerwork = value} 4 :=
  minerwork_isGreatest smallSetup 2 (by decide) (by decide)

end

end DeiChain
