import DeiChain.Wakeups

namespace DeiChain

open Data Systems

/-! # When a generator signals, and what that grants -/

section

variable {setup : Setup} {before after final : Wakeups setup.txs} {event : WakeEvent}
  {trace : List (Wakeups setup.txs × WakeEvent)}

theorem TransactionPool.Sound.currentCount {pool : TransactionPool} {size : Nat} (sound : pool.Sound size)
    (bounded : size < 2 ^ 31) : pool.currentCount = pool.count.toNat := by
  have low := sound.consistent.count_le
  rw [sound.sized] at low
  unfold TransactionPool.currentCount
  generalize pool.count.toNat = count at low ⊢
  exact Int.bmod_eq_of_le (by omega) (by omega)

/-- A round of a generator fills a slot whenever one is free. -/
theorem stepInsert_count {state : State setup.txs} (sound : state.pool.Sound setup.cfg.transactionPoolSize)
    (gen : Nat) (stack : CharArray txIdLen) (rand : Nat) (now : Int64) :
    (stepInsert setup state gen stack rand now).pool.count.toNat =
      min (state.pool.count.toNat + 1) setup.cfg.transactionPoolSize := by
  have small := setup.cfg.poolSize_lt
  have most := sound.consistent.count_le
  have sized := sound.sized
  unfold stepInsert
  dsimp only
  split
  · rename_i added
    obtain ⟨_, _, _, room, count, _⟩ := insertTransaction_added added
    have next : (state.pool.count + 1).toNat = state.pool.count.toNat + 1 := by
      rw [UInt32.toNat_add]
      exact Nat.mod_eq_of_lt (by simp only [UInt32.reduceToNat]; omega)
    dsimp only
    rw [count, next]
    omega
  · rename_i none
    exact absurd none (insertTransaction_ne_noSlot sound.consistent _)
  · rename_i full
    unfold insertTransaction at full
    split at full
    · split at full <;> cases full
    · omega

/-- A round that adds nothing finds the pool full. -/
theorem transactionAdded_or_full (sound : before.system.pool.Sound setup.cfg.transactionPoolSize)
    (gen : Nat) (stack : CharArray txIdLen) (rand : Nat) (now : Int64) :
    transactionAdded setup before gen stack rand now = true ∨
      before.system.pool.count.toNat = setup.cfg.transactionPoolSize := by
  unfold transactionAdded
  split
  · exact .inl rfl
  · rename_i none
    exact absurd none (insertTransaction_ne_noSlot sound.consistent _)
  · rename_i full
    have most := sound.consistent.count_le
    have sized := sound.sized
    unfold insertTransaction at full
    split at full
    · split at full <;> cases full
    · exact .inr (by omega)

/-- The comparison with `last_signal_count` decides nothing. -/
theorem shouldSignal_iff (sound : before.system.pool.Sound setup.cfg.transactionPoolSize) (gen : Nat)
    (stack : CharArray txIdLen) (rand : Nat) (now : Int64) (lastSignalCount : Int) :
    shouldSignal setup.txs (stepInsert setup before.system gen stack rand now).pool
        (transactionAdded setup before gen stack rand now) lastSignalCount = true ↔
      setup.txs ≤ (stepInsert setup before.system gen stack rand now).pool.count.toNat := by
  have stepped := @stepInsert_transition setup before.system gen stack rand now
  have soundAfter := stepped.pool_sound sound
  have count := stepInsert_count sound gen stack rand now
  have current := soundAfter.currentCount setup.cfg.poolInt
  have sized := soundAfter.sized
  have occasion : (transactionAdded setup before gen stack rand now ||
      (stepInsert setup before.system gen stack rand now).pool.currentCount != lastSignalCount ||
      decide ((stepInsert setup before.system gen stack rand now).pool.currentCount % 2 ^ 32 =
        (stepInsert setup before.system gen stack rand now).pool.size)) = true := by
    rcases transactionAdded_or_full sound gen stack rand now with added | full
    · rw [added, Bool.true_or, Bool.true_or]
    · have small := setup.cfg.poolInt
      rw [current, count, full, sized, decide_eq_true (by omega), Bool.or_true]
  rw [shouldSignal, occasion, Bool.and_true, decide_eq_true_iff, current, Nat.cast_le]

theorem WakeTransition.signals_iff (sound : before.system.pool.Sound setup.cfg.transactionPoolSize)
    {gen : Nat} {stack : CharArray txIdLen} {rand : Nat} {now : Int64}
    (taken : WakeTransition setup before (.insert gen stack rand now) after) :
    (after.txGens gen).phase = .signalling ↔ setup.txs ≤ after.system.pool.count.toNat := by
  cases taken with
  | signalled sleeping signals =>
      dsimp only
      rw [Function.update_self]
      exact iff_of_true rfl ((shouldSignal_iff sound _ _ _ _ _).mp signals)
  | quiet sleeping silent =>
      dsimp only
      rw [sleeping]
      refine iff_of_false nofun fun enough => ?_
      rw [(shouldSignal_iff sound _ _ _ _ _).mpr enough] at silent
      cases silent

/-- In every reachable state a generator signals exactly when it leaves enough
transactions for a block, whatever it remembers of its last signal: a round
that adds nothing has found the pool full, and then signals as well. -/
theorem signals_iff_enough (setup : Setup) {trace : List (Wakeups setup.txs × WakeEvent)}
    {before after : Wakeups setup.txs} (run : WakeRun setup trace before) {gen : Nat}
    {stack : CharArray txIdLen} {rand : Nat} {now : Int64}
    (taken : wakeStep setup before (.insert gen stack rand now) = some after) :
    (after.txGens gen).phase = .signalling ↔ setup.txs ≤ after.system.pool.count.toNat :=
  (wakeStep_transition taken).signals_iff (WakeRun.pool_sound run)

/-- The first transaction of a system whose blocks have one. -/
def wakeInsertEvent : WakeEvent := .insert 1 (zeroArray txIdLen) 5 7

theorem wakeInsert_executes :
    (wakeStep smallSetup (Wakeups.initial smallSetup) wakeInsertEvent).isSome = true := by
  decide +kernel

def firstInserted : Wakeups smallSetup.txs := (wakeStep _ _ _).get wakeInsert_executes

theorem firstInserted_taken :
    wakeStep smallSetup (Wakeups.initial smallSetup) wakeInsertEvent = some firstInserted :=
  (Option.some_get wakeInsert_executes).symm

/-- A round after which the pool has enough, the reading and two posts; then two
rounds that fill the pool, with readings that find nothing missing. -/
def filledEvents : List WakeEvent :=
  [wakeInsertEvent, .getvalue 1, .post 1, .post 1, wakeInsertEvent, .getvalue 1, wakeInsertEvent, .getvalue 1]

theorem filledEvents_execute :
    (exec (wakeStep smallSetup) (Wakeups.initial smallSetup) filledEvents).isSome = true := by
  decide +kernel

def filled : Wakeups smallSetup.txs := (exec _ _ _).get filledEvents_execute

theorem filled_inserts : (wakeStep smallSetup filled wakeInsertEvent).isSome = true := by
  decide +kernel

/-- Nothing is added and the count is the one of the last signal, and still the
generator signals. -/
theorem signals_iff_enough_of_filled : ∃ after, wakeStep smallSetup filled wakeInsertEvent = some after ∧
    (filled.txGens 1).lastSignalCount = 3 ∧ after.system.pool.count.toNat = 3 ∧
    (after.txGens 1).phase = .signalling := by
  obtain ⟨trace, run, _⟩ := exec_run_get filledEvents_execute
  have taken := (Option.some_get filled_inserts).symm
  have enough : smallSetup.txs ≤ ((wakeStep smallSetup filled wakeInsertEvent).get
      filled_inserts).system.pool.count.toNat := by decide +kernel
  exact ⟨_, taken, by decide +kernel, by decide +kernel, (signals_iff_enough smallSetup run taken).mpr enough⟩

def WakeEvent.isWake : WakeEvent → Bool
  | .wake _ => true
  | _ => false

theorem WakeTransition.keeps_signalling (taken : WakeTransition setup before event after) {gen : Nat}
    (signalling : (before.txGens gen).phase = .signalling)
    (other : event ≠ .getvalue gen ∧ event ≠ .interrupt gen) :
    (after.txGens gen).phase = .signalling := by
  have elsewhere {acting : Nat} (phase : TxGenPhase) (different : acting ≠ gen) :
      ((before.withPhase acting phase).txGens gen).phase = .signalling := by
    simp [Wakeups.withPhase, Function.update_of_ne different.symm, signalling]
  cases taken with
  | @signalled acting =>
      dsimp only
      by_cases same : gen = acting
      · rw [same, Function.update_self]
      · rw [Function.update_of_ne same, signalling]
  | measured => exact elsewhere _ fun same => other.1 (same ▸ rfl)
  | @posted acting left posting =>
      refine elsewhere (.owing left) ?_
      intro same
      subst same
      rw [signalling] at posting
      cases posting
  | interrupted => exact elsewhere _ fun same => other.2 (same ▸ rfl)
  | _ => exact signalling

/-- A generator that is about to signal, is not interrupted and is found
elsewhere later has read the semaphore in between. -/
theorem getvalue_taken {start : Wakeups setup.txs} {gen : Nat}
    (run : Run (wakeStep setup) start trace final) (signalling : (start.txGens gen).phase = .signalling)
    (uninterrupted : ∀ entry ∈ trace, entry.2 ≠ .interrupt gen)
    (left : (final.txGens gen).phase ≠ .signalling) : ∃ measured, (measured, WakeEvent.getvalue gen) ∈ trace := by
  by_contra never
  refine left (run.invariant_of_allowed (fun wakeups => (wakeups.txGens gen).phase = .signalling)
    (fun _ event => event ≠ .getvalue gen ∧ event ≠ .interrupt gen) signalling
    (fun _ _ _ held other taken => (wakeStep_transition taken).keeps_signalling held other) ?_)
  refine fun entry member => ⟨fun same => never ⟨entry.1, ?_⟩, uninterrupted entry member⟩
  rw [← same]
  exact member

theorem countP_topUp (trace : List (Wakeups setup.txs × WakeEvent))
    {actions : List (TopUp.State Nat × TopUp.Action Nat)}
    (labels : actions.map Prod.snd = trace.filterMap fun entry => entry.2.topUp?) :
    (actions.countP fun entry => entry.2.isTake) = trace.countP fun entry => entry.2.isWake := by
  have counted := congrArg (List.countP TopUp.Action.isTake) labels
  rw [List.countP_map, List.countP_filterMap] at counted
  refine counted.trans (List.countP_congr fun entry _ => ?_)
  generalize entry.2 = event
  cases event <;> simp [WakeEvent.topUp?, WakeEvent.isWake, TopUp.Action.isTake]

theorem granted_since_getvalue {measured next : Wakeups setup.txs} {gen : Nat}
    (bound : measured.minerwork ≤ semValueMax)
    (taken : wakeStep setup measured (.getvalue gen) = some next)
    (later : Run (wakeStep setup) next trace final)
    (uninterrupted : ∀ entry ∈ trace, entry.2 ≠ .interrupt gen) :
    setup.cfg.numMiners ≤ final.minerwork + (final.txGens gen).phase.missing +
      trace.countP fun entry => entry.2.isWake := by
  have transition := wakeStep_transition taken
  obtain ⟨actions, topUpRun, labels⟩ := wakeRun_topUp (transition.minerwork_le bound) later
  rcases transition.topUp bound with ⟨none, _⟩ | ⟨action, own, measures⟩
  · cases none
  · cases own
    have possible : setup.cfg.numMiners ≤ semValueMax := Nat.le_sub_one_of_lt setup.cfg.minersInt
    have granted := TopUp.Run.granted possible (TopUp.measure_covers measures) topUpRun ?_
    · rwa [countP_topUp trace labels] at granted
    · intro entry member quits
      have label : entry.2 ∈ trace.filterMap fun entry => entry.2.topUp? :=
        labels ▸ List.mem_map_of_mem member
      obtain ⟨wakeEntry, wakeMember, same⟩ := List.mem_filterMap.mp label
      rw [quits] at same
      refine uninterrupted wakeEntry wakeMember ?_
      generalize wakeEntry.2 = event at same
      cases event <;> cases same
      rfl

/-- A generator that leaves enough transactions in the pool goes on by reading
the semaphore, and from any such reading on there are `NUM_MINERS` wake-ups:
those in the semaphore, those it is still to post and those taken since. -/
theorem wakeups_granted (setup : Setup) {earlier later : List (Wakeups setup.txs × WakeEvent)}
    {before final : Wakeups setup.txs} {gen : Nat} {stack : CharArray txIdLen} {rand : Nat} {now : Int64}
    (run : WakeRun setup (earlier ++ (before, .insert gen stack rand now) :: later) final)
    (enough : setup.txs ≤ (stepInsert setup before.system gen stack rand now).pool.count.toNat)
    (uninterrupted : ∀ entry ∈ later, entry.2 ≠ .interrupt gen) :
    ((final.txGens gen).phase ≠ .signalling → ∃ measured, (measured, WakeEvent.getvalue gen) ∈ later) ∧
    ∀ between measured since, later = between ++ (measured, .getvalue gen) :: since →
      setup.cfg.numMiners ≤ final.minerwork + (final.txGens gen).phase.missing +
        since.countP fun entry => entry.2.isWake := by
  obtain ⟨reached, after, taken, rest⟩ := run.split_at
  have sound := WakeRun.pool_sound reached
  have transition := wakeStep_transition taken
  have system : after.system = stepInsert setup before.system gen stack rand now := by
    cases transition <;> rfl
  have signalling := (transition.signals_iff sound).mpr (system ▸ enough)
  refine ⟨getvalue_taken rest signalling uninterrupted, fun between measured since split => ?_⟩
  subst split
  obtain ⟨toMeasured, next, measures, fromMeasured⟩ := rest.split_at
  have bound : measured.minerwork ≤ semValueMax :=
    WakeRun.minerwork_le ((reached.snoc taken).append toMeasured)
  exact granted_since_getvalue bound measures fromMeasured fun entry inside =>
    uninterrupted entry (List.mem_append_right _ (List.mem_cons_of_mem _ inside))

def wakeEvents : List WakeEvent := [.getvalue 1, .post 1, .wake 2, .post 1]

theorem wakeEvents_execute : (exec (wakeStep smallSetup) firstInserted wakeEvents).isSome = true := by
  decide +kernel

theorem wakeups_granted_firstInserted : ∃ between measured since final,
    WakeRun smallSetup ((Wakeups.initial smallSetup, wakeInsertEvent) ::
      (between ++ (measured, .getvalue 1) :: since)) final ∧ measured.minerwork = 0 ∧
    final.minerwork = 1 ∧ (final.txGens 1).phase.missing = 0 ∧
    2 ≤ final.minerwork + (final.txGens 1).phase.missing + since.countP fun entry => entry.2.isWake := by
  obtain ⟨later, rest, events⟩ := exec_run_get wakeEvents_execute
  obtain ⟨⟨measured, event⟩, since, rfl, rfl, _⟩ := List.map_eq_cons_iff.mp events
  cases rest.head_eq
  have first : WakeRun smallSetup [(Wakeups.initial smallSetup, wakeInsertEvent)] firstInserted :=
    Run.nil.snoc firstInserted_taken
  have run := first.append rest
  have enough : smallSetup.txs ≤ firstInserted.system.pool.count.toNat := by decide +kernel
  refine ⟨[], firstInserted, since, _, run, by decide +kernel, by decide +kernel, by decide +kernel,
    (@wakeups_granted smallSetup [] _ _ _ 1 _ _ _ run enough ?_).2 [] _ _ rfl⟩
  intro entry member interrupts
  have known : entry.2 ∈ wakeEvents := events ▸ List.mem_map_of_mem member
  rw [interrupts] at known
  simp [wakeEvents] at known

end

end DeiChain
