import DeiChain.Systems.Budget

namespace Systems.TopUp

universe u

variable {Filler : Type u} [DecidableEq Filler]

/-! # Topping up a counting semaphore

Fillers raise a semaphore to a target for those who wait on it. A filler reads
the value and then posts what was missing, post by post; it does not see what
other fillers have still to post, nor what is taken in the meantime. A post at
the limit of the semaphore fails and is not repeated.
-/

structure State (Filler : Type u) where
  value : Nat
  missing : Filler → Nat

inductive Action (Filler : Type u) where
  | measure (filler : Filler)
  | post (filler : Filler)
  | quit (filler : Filler)
  | take

def State.owes (state : State Filler) (filler : Filler) (missing : Nat) : State Filler :=
  { state with missing := Function.update state.missing filler missing }

def step (target limit : Nat) (state : State Filler) : Action Filler → Option (State Filler)
  | .measure filler =>
      if state.missing filler = 0 then some (state.owes filler (target - state.value)) else none
  | .post filler =>
      match state.missing filler with
      | 0 => none
      | missing + 1 =>
          some { state.owes filler missing with
            value := if state.value < limit then state.value + 1 else state.value }
  | .quit filler => some (state.owes filler 0)
  | .take =>
      match state.value with
      | 0 => none
      | value + 1 => some { state with value }

@[simp] theorem State.owes_value (state : State Filler) (filler : Filler) (missing : Nat) :
    (state.owes filler missing).value = state.value := rfl

@[simp] theorem State.owes_missing (state : State Filler) (filler other : Filler) (missing : Nat) :
    (state.owes filler missing).missing other = if other = filler then missing else state.missing other := by
  simp [State.owes, Function.update_apply]

def Action.isTake : Action Filler → Bool
  | .take => true
  | _ => false

variable {target limit : Nat} {before after start final : State Filler} {action : Action Filler}
  {trace : List (State Filler × Action Filler)}

/-- Each way a step can change the semaphore and what is owed to it. -/
theorem step_cases (taken : step target limit before action = some after) :
    (∃ filler, action = .measure filler ∧ before.missing filler = 0 ∧
        after = before.owes filler (target - before.value)) ∨
      (∃ filler missing value, action = .post filler ∧ before.missing filler = missing + 1 ∧
        (value = before.value + 1 ∨ value = before.value ∧ limit ≤ before.value) ∧
        after = { before.owes filler missing with value }) ∨
      (∃ filler, action = .quit filler ∧ after = before.owes filler 0) ∨
      action = .take ∧ before.value = after.value + 1 ∧ after.missing = before.missing := by
  cases action with
  | measure filler =>
      simp only [step] at taken
      split at taken
      · rename_i settled
        cases taken
        exact .inl ⟨filler, rfl, settled, rfl⟩
      · cases taken
  | post filler =>
      simp only [step] at taken
      split at taken
      · cases taken
      · rename_i missing owed
        cases taken
        refine .inr (.inl ⟨filler, missing, _, rfl, owed, ?_, rfl⟩)
        split
        · exact .inl rfl
        · rename_i full
          exact .inr ⟨rfl, Nat.le_of_not_lt full⟩
  | quit filler =>
      cases taken
      exact .inr (.inr (.inl ⟨filler, rfl, rfl⟩))
  | take =>
      simp only [step] at taken
      split at taken
      · cases taken
      · rename_i value positive
        cases taken
        exact .inr (.inr (.inr ⟨rfl, positive, rfl⟩))

/-- What the semaphore can come to when these fillers have made all their posts. -/
def State.total (state : State Filler) (fillers : Finset Filler) : Nat :=
  state.value + ∑ filler ∈ fillers, state.missing filler

theorem State.total_owes {fillers : Finset Filler} {filler : Filler} (member : filler ∈ fillers)
    (state : State Filler) (missing : Nat) :
    (state.owes filler missing).total fillers + state.missing filler = state.total fillers + missing := by
  have moved : ∑ other ∈ fillers, (state.owes filler missing).missing other + state.missing filler =
      ∑ other ∈ fillers, state.missing other + missing :=
    Budget.sum_moved id state.missing missing member
  rw [State.total, State.total, State.owes_value]
  omega

/-- Nobody owes more than the target, others than `fillers` owe nothing, and
what is owed to the semaphore stays below one target for each of them. -/
structure Bounded (target : Nat) (fillers : Finset Filler) (state : State Filler) : Prop where
  each : ∀ filler, state.missing filler ≤ target
  others : ∀ filler, filler ∉ fillers → state.missing filler = 0
  total : state.total fillers ≤ fillers.card * target

theorem Bounded.owes {fillers : Finset Filler} (bounded : Bounded target fillers before) {filler : Filler}
    (member : filler ∈ fillers) {missing : Nat} (small : missing ≤ target)
    (total : (before.owes filler missing).total fillers ≤ fillers.card * target) :
    Bounded target fillers (before.owes filler missing) where
  each other := by
    rw [State.owes_missing]
    split
    · exact small
    · exact bounded.each other
  others other outside := by
    have different : other ≠ filler := fun same => outside (same.symm ▸ member)
    rw [State.owes_missing, if_neg different]
    exact bounded.others other outside
  total := total

/-- Below the target a measurement brings the filler's share to a whole target
at most; the shares of the others are not touched. -/
theorem Bounded.measure {fillers : Finset Filler} (bounded : Bounded target fillers before) {filler : Filler}
    (member : filler ∈ fillers) (settled : before.missing filler = 0) :
    Bounded target fillers (before.owes filler (target - before.value)) := by
  refine bounded.owes member (Nat.sub_le _ _) ?_
  have change := before.total_owes member (target - before.value)
  have total := bounded.total
  rw [settled, Nat.add_zero] at change
  by_cases reached : target ≤ before.value
  · omega
  · have othersOwe : ∑ other ∈ fillers.erase filler, before.missing other ≤
        (fillers.card - 1) * target := by
      have each := Finset.sum_le_card_nsmul (fillers.erase filler) before.missing target
        fun other _ => bounded.each other
      rwa [Finset.card_erase_of_mem member, Nat.nsmul_eq_mul] at each
    have shares : (fillers.card - 1) * target + target = fillers.card * target := by
      rw [← Nat.succ_mul, Nat.succ_eq_add_one, Nat.sub_add_cancel (Finset.card_pos.mpr ⟨filler, member⟩)]
    have whole : before.total fillers = before.value + ∑ other ∈ fillers.erase filler, before.missing other := by
      rw [State.total, ← Finset.add_sum_erase fillers before.missing member, settled, Nat.zero_add]
    omega

theorem Bounded.step {fillers : Finset Filler} (bounded : Bounded target fillers before)
    (known : ∀ filler, action = .measure filler → filler ∈ fillers)
    (taken : step target limit before action = some after) : Bounded target fillers after := by
  rcases step_cases taken with ⟨filler, rfl, settled, rfl⟩ |
    ⟨filler, missing, value, rfl, owed, posted, rfl⟩ | ⟨filler, rfl, rfl⟩ | ⟨rfl, lower, same⟩
  · exact bounded.measure (known filler rfl) settled
  · have member : filler ∈ fillers := by
      by_contra outside
      rw [bounded.others filler outside] at owed
      cases owed
    have change := before.total_owes member missing
    have total := bounded.total
    have small := bounded.each filler
    have paid : Bounded target fillers (before.owes filler missing) :=
      bounded.owes member (by omega) (by omega)
    refine ⟨paid.each, paid.others, ?_⟩
    rw [State.total, State.owes_value] at change
    rw [State.total]
    dsimp only at *
    omega
  · by_cases member : filler ∈ fillers
    · have change := before.total_owes member 0
      have total := bounded.total
      exact bounded.owes member (Nat.zero_le _) (by omega)
    · have same : before.owes filler 0 = before := by
        rw [State.owes, ← bounded.others filler member, Function.update_eq_self]
      rwa [same]
  · refine ⟨same ▸ bounded.each, same ▸ bounded.others, ?_⟩
    have total := bounded.total
    rw [State.total] at total ⊢
    rw [same]
    omega

/-- However the fillers interleave, the semaphore never exceeds one target for
each filler that ever measured. -/
theorem Run.bounded {fillers : Finset Filler} (initial : Bounded target fillers start)
    (run : Run (step target limit) start trace final)
    (known : ∀ entry ∈ trace, ∀ filler, entry.2 = .measure filler → filler ∈ fillers) :
    Bounded target fillers final :=
  run.invariant_of_allowed (Bounded target fillers)
    (fun _ action => ∀ filler, action = .measure filler → filler ∈ fillers) initial
    (fun _ _ _ bounded allowed taken => bounded.step allowed taken) known

/-- From a measurement on, what is there, what this filler has still to post
and what was taken make up a target. -/
theorem Run.granted {filler : Filler} (possible : target ≤ limit)
    (initial : target ≤ start.value + start.missing filler)
    (run : Run (step target limit) start trace final)
    (stays : ∀ entry ∈ trace, entry.2 ≠ .quit filler) :
    target ≤ final.value + final.missing filler + trace.countP fun entry => entry.2.isTake := by
  induction run with
  | nil => exact initial
  | @snoc earlierTrace before action after earlier taken ih =>
      have held := ih fun entry member => stays entry (List.mem_append_left _ member)
      rw [List.countP_append, List.countP_singleton]
      rcases step_cases taken with ⟨other, rfl, settled, rfl⟩ |
        ⟨other, missing, value, rfl, owed, posted, rfl⟩ | ⟨other, rfl, rfl⟩ | ⟨rfl, lower, same⟩
      · rw [State.owes_value, State.owes_missing]
        split
        · omega
        · simpa [Action.isTake] using held
      · have paid : ({ before.owes other missing with value } : State Filler).missing filler =
            if filler = other then missing else before.missing filler := before.owes_missing _ _ _
        rw [paid]
        split
        · rename_i same
          rw [same, owed] at held
          dsimp only
          omega
        · dsimp only
          omega
      · have notOwn : filler ≠ other := by
          intro same
          subst same
          exact stays (before, .quit filler) (List.mem_append_right _ (by simp)) rfl
        rw [State.owes_value, State.owes_missing, if_neg notOwn]
        simpa [Action.isTake] using held
      · rw [same, if_pos (show Action.isTake .take = true from rfl)]
        omega

theorem measure_covers {filler : Filler} (taken : step target limit before (.measure filler) = some after) :
    target ≤ after.value + after.missing filler := by
  rcases step_cases taken with ⟨own, same, settled, rfl⟩ | ⟨_, _, _, other, _⟩ | ⟨_, other, _⟩ | ⟨other, _⟩
  · cases same
    rw [State.owes_value, State.owes_missing, if_pos rfl]
    omega
  · cases other
  · cases other
  · cases other

end Systems.TopUp
