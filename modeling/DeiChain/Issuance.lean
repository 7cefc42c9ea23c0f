import DeiChain.Custody
import DeiChain.Working

namespace DeiChain

open Data Systems

/-! # Transaction ids

A generator writes its process id and a number of its own into each id, and
counts from zero. Nothing else keeps the ids apart.
-/

theorem formatTxId_inj {pid other number otherNumber : Nat}
    (same : formatTxId pid number = formatTxId other otherNumber) : pid = other ∧ number = otherNumber := by
  have tail : decimal pid ++ 45 :: decimal number = decimal other ++ 45 :: decimal otherNumber := by
    simpa [formatTxId] using same
  have ends : ∀ (rest : List UInt8) (byte : UInt8), (45 :: rest).head? = some byte → isDigit byte = false := by
    intro rest byte front
    cases front
    decide
  have pids := congrArg (List.takeWhile isDigit) tail
  rw [takeWhile_decimal pid (ends _), takeWhile_decimal other (ends _)] at pids
  rw [pids] at tail
  exact ⟨decimal_injective pids, decimal_injective (List.cons.inj (List.append_cancel_left tail)).2⟩

variable {n : Nat}

section

variable {setup : Setup} {before after final : State setup.txs} {event : Event}
  {trace : List (State setup.txs × Event)}

/-- What `snprintf` writes when neither number is longer than ten digits. -/
theorem newTransaction_id {gen : Nat} (low : (setup.txGens gen).pid < 10 ^ 10)
    (few : before.txNumbers gen < 10 ^ 10) (stack : CharArray txIdLen) (rand : Nat) (now : Int64) :
    (newTransaction setup before gen stack rand now).tx.id =
      formatTxId (setup.txGens gen).pid (before.txNumbers gen) := by
  have pidLength := decimal_length_le (Nat.succ_pos 9) low
  have numberLength := decimal_length_le (Nat.succ_pos 9) few
  have written : (newTransaction setup before gen stack rand now).tx.id =
      (formatTxId (setup.txGens gen).pid (before.txNumbers gen)).take (txIdLen - 1) :=
    cstr_snprintf stack (fun _ member => formatTxId_nonzero member) (by decide)
  rw [written]
  refine List.take_of_length_le ?_
  simp only [formatTxId, List.length_append, List.length_cons, List.length_nil, txIdLen]
  omega

/-- What an insertion does to the numbers and to what was issued. -/
theorem Transition.issues (taken : Transition setup before event after) :
    (after.txNumbers = before.txNumbers ∧ after.issued = before.issued) ∨
      ∃ gen stack rand now,
        after.txNumbers = Function.update before.txNumbers gen (before.txNumbers gen + 1) ∧
        after.issued = before.issued ++ [(newTransaction setup before gen stack rand now).tx] := by
  cases taken with
  | stored added => exact .inr ⟨_, _, _, _, rfl, rfl⟩
  | _ => exact .inl ⟨rfl, rfl⟩

theorem Transition.numbers_grow (taken : Transition setup before event after) (gen : Nat) :
    before.txNumbers gen ≤ after.txNumbers gen := by
  rcases taken.issues with ⟨same, _⟩ | ⟨other, _, _, _, next, _⟩
  · rw [same]
  · rw [next, Function.update_apply]
    split
    · rename_i here
      exact here ▸ Nat.le_succ _
    · exact Nat.le_refl _

def State.ids (state : State n) : List (List UInt8) := state.issued.map Transaction.id

/-- The ids that were issued are those the numbers account for. -/
def Numbered (setup : Setup) (state : State setup.txs) : Prop :=
  ∀ id, id ∈ state.ids ↔
    ∃ gen number, number < state.txNumbers gen ∧ id = formatTxId (setup.txGens gen).pid number

/-- No two generators that stored a transaction have one process id. -/
def SeparatePids (setup : Setup) (state : State setup.txs) : Prop :=
  ∀ gen other, 0 < state.txNumbers gen → 0 < state.txNumbers other →
    (setup.txGens gen).pid = (setup.txGens other).pid → gen = other

section

variable {gen : Nat} (next : after.txNumbers = Function.update before.txNumbers gen (before.txNumbers gen + 1))

include next

theorem Numbered.insert (numbered : Numbered setup before)
    (ids : after.ids = before.ids ++ [formatTxId (setup.txGens gen).pid (before.txNumbers gen)]) :
    Numbered setup after := by
  intro id
  rw [ids, List.mem_append, List.mem_singleton, numbered id]
  constructor
  · intro given
    obtain ⟨other, number, below, rfl⟩ | rfl := given
    · refine ⟨other, number, Nat.lt_of_lt_of_le below ?_, rfl⟩
      rw [next, Function.update_apply]
      split
      · rename_i here
        exact here ▸ Nat.le_succ _
      · exact Nat.le_refl _
    · refine ⟨gen, before.txNumbers gen, ?_, rfl⟩
      rw [next, Function.update_self]
      exact Nat.lt_succ_self _
  · intro given
    obtain ⟨other, number, below, rfl⟩ := given
    rw [next, Function.update_apply] at below
    split at below
    · rename_i here
      subst here
      rcases Nat.lt_or_eq_of_le (Nat.le_of_lt_succ below) with earlier | rfl
      · exact .inl ⟨other, number, earlier, rfl⟩
      · exact .inr rfl
    · exact .inl ⟨other, number, below, rfl⟩

theorem separatePids_insert : SeparatePids setup after ↔ SeparatePids setup before ∧
    ∀ other, other ≠ gen → 0 < before.txNumbers other →
      (setup.txGens other).pid ≠ (setup.txGens gen).pid := by
  have positive (other : Nat) : 0 < after.txNumbers other ↔ other = gen ∨ 0 < before.txNumbers other := by
    rw [next, Function.update_apply]
    split
    · rename_i here
      simp [here]
    · rename_i elsewhere
      simp [elsewhere]
  simp only [SeparatePids, positive]
  constructor
  · intro separate
    exact ⟨fun first second firstStored secondStored => separate first second (.inr firstStored) (.inr secondStored),
      fun other elsewhere stored same => elsewhere (separate other gen (.inr stored) (.inl rfl) same)⟩
  · intro given first second firstStored secondStored same
    obtain ⟨separate, apart⟩ := given
    rcases firstStored with rfl | firstStored <;> rcases secondStored with rfl | secondStored
    · rfl
    · by_contra elsewhere
      exact apart second (Ne.symm elsewhere) secondStored same.symm
    · by_contra elsewhere
      exact apart first elsewhere firstStored same
    · exact separate first second firstStored secondStored same

omit next in
/-- A new id is an old one only where a process id comes back. -/
theorem Numbered.fresh_iff (numbered : Numbered setup before) (separate : SeparatePids setup before) :
    formatTxId (setup.txGens gen).pid (before.txNumbers gen) ∉ before.ids ↔
      ∀ other, other ≠ gen → 0 < before.txNumbers other →
        (setup.txGens other).pid ≠ (setup.txGens gen).pid := by
  rw [numbered]
  constructor
  · intro fresh other elsewhere stored same
    refine fresh ⟨other, 0, stored, ?_⟩
    have unused : before.txNumbers gen = 0 := by
      by_contra used
      exact elsewhere (separate other gen stored (Nat.pos_of_ne_zero used) same)
    rw [unused, same]
  · intro apart given
    obtain ⟨other, number, below, same⟩ := given
    obtain ⟨pid, rfl⟩ := formatTxId_inj same
    have elsewhere : other ≠ gen := fun here => Nat.lt_irrefl _ (here ▸ below)
    exact apart other elsewhere (Nat.zero_lt_of_lt below) pid.symm

end

theorem SystemRun.numbered (run : SystemRun setup trace final)
    (pids : ∀ gen, 0 < final.txNumbers gen → (setup.txGens gen).pid < 2 ^ 31)
    (few : ∀ gen, final.txNumbers gen ≤ 2 ^ 31) :
    Numbered setup final ∧ (final.ids.Nodup ↔ SeparatePids setup final) := by
  induction run with
  | nil =>
      refine ⟨fun id => ?_, ?_⟩
      · simp [State.ids, State.initial]
      · simp [State.ids, State.initial, SeparatePids]
  | @snoc _ before _ after earlier taken ih =>
      have transition := step_transition taken
      obtain ⟨numbered, distinct⟩ := ih
        (fun gen stored => pids gen (Nat.lt_of_lt_of_le stored (transition.numbers_grow gen)))
        fun gen => (transition.numbers_grow gen).trans (few gen)
      rcases transition.issues with ⟨numbers, issued⟩ | ⟨gen, stack, rand, now, next, issued⟩
      · have ids : after.ids = before.ids := congrArg (List.map Transaction.id) issued
        simp only [Numbered, SeparatePids, ids, numbers]
        exact ⟨numbered, distinct⟩
      · have small : before.txNumbers gen < 10 ^ 10 := by
          have bound := (transition.numbers_grow gen).trans (few gen)
          omega
        have low : (setup.txGens gen).pid < 2 ^ 31 := pids gen (by simp [next])
        have ids : after.ids = before.ids ++ [formatTxId (setup.txGens gen).pid (before.txNumbers gen)] := by
          rw [State.ids, issued, List.map_append, List.map_singleton,
            newTransaction_id (low.trans (by decide)) small]
          rfl
        refine ⟨numbered.insert next ids, ?_⟩
        rw [ids, List.nodup_append_comm, List.singleton_append, List.nodup_cons, and_comm, distinct,
          separatePids_insert next]
        exact and_congr_right fun separate => numbered.fresh_iff separate

theorem SystemRun.numbers_le (run : SystemRun setup trace final) (gen : Nat) :
    final.txNumbers gen ≤ final.issued.length := by
  refine Run.invariant (fun state : State setup.txs => state.txNumbers gen ≤ state.issued.length)
    (Nat.le_refl 0) (fun before event after le taken => ?_) run
  rcases (step_transition taken).issues with ⟨numbers, issued⟩ | ⟨other, _, _, _, next, issued⟩
  · rw [numbers, issued]
    exact le
  · rw [next, issued, Function.update_apply, List.length_append, List.length_singleton]
    split
    · rename_i here
      exact here ▸ Nat.succ_le_succ le
    · exact Nat.le_succ_of_le le

end

/-- The ids are kept apart exactly by the process ids of the generators that
stored anything, and so are the blocks. -/
theorem ids_distinct_iff_pids (setup : Setup) {trace : List (State setup.txs × Event)}
    {final : State setup.txs} (run : SystemRun setup trace final)
    (pids : ∀ gen, 0 < final.txNumbers gen → (setup.txGens gen).pid < 2 ^ 31)
    (few : ∀ gen, final.txNumbers gen ≤ 2 ^ 31) :
    (final.ids.Nodup ↔ SeparatePids setup final) ∧
      (SeparatePids setup final → ∀ j k, 1 ≤ j → j < final.ledger.count → 1 ≤ k → k < final.ledger.count →
        ∀ id, id ∈ (final.ledger.blocks j).ids → id ∈ (final.ledger.blocks k).ids → j = k) := by
  obtain ⟨_, distinct⟩ := run.numbered pids few
  refine ⟨distinct, fun separate j k jLower jUpper kLower kUpper id inFirst inSecond => ?_⟩
  obtain ⟨_, place, _, represents, _⟩ := run.custody (distinct.mpr separate)
  have first : final.At id (.committed j) := ⟨jLower, jUpper, inFirst⟩
  have second : final.At id (.committed k) := ⟨kLower, kUpper, inSecond⟩
  cases represents.unique _ _ first second
  rfl

/-- Two generators that were given process id 4242 one after the other. -/
def reusedPidEvents : List Event := [insertEvent 1, insertEvent 2]

theorem reusedPid_executes : (exec (step (checksumSetup smallSetup.cfg))
    (State.initial (checksumSetup smallSetup.cfg)) reusedPidEvents).isSome = true := by
  decide +kernel

def reusedPid : State (checksumSetup smallSetup.cfg).txs := (exec _ _ _).get reusedPid_executes

theorem ids_distinct_iff_pids_reusedPid : ¬ SeparatePids (checksumSetup smallSetup.cfg) reusedPid := by
  obtain ⟨trace, run, _⟩ := exec_run_get reusedPid_executes
  have two : reusedPid.issued.length = 2 := by decide +kernel
  have few (gen : Nat) : reusedPid.txNumbers gen ≤ 2 ^ 31 := by
    have le := SystemRun.numbers_le run gen
    have length : reusedPid.issued.length ≤ 2 ^ 31 := two ▸ by decide
    exact Nat.le_trans le length
  have pids (gen : Nat) (_ : 0 < reusedPid.txNumbers gen) : 4242 < 2 ^ 31 := by decide
  have twice : ¬ reusedPid.ids.Nodup := by decide +kernel
  exact fun separate => twice ((ids_distinct_iff_pids _ run pids few).1.mpr separate)

end DeiChain
