import DeiChain.Chain
import DeiChain.Systems.Custody

namespace DeiChain

open Data Systems
open Systems.Custody (Place Action)

/-! # Custody of the transactions

The system seen as moving ids between slots, validators and ledger blocks. The
abstract custody of ids says what is meant to happen to a transaction; here the
critical sections are shown to do no more than that.
-/

section

variable {setup : Setup} {before after final : State setup.txs} {event : Event}
  {trace : List (State setup.txs × Event)} {place : List UInt8 → Place} {id : List UInt8}

/-- The state has the id at the given place; no state shows that an id is lost. -/
def State.At {n : Nat} (state : State n) (id : List UInt8) : Place → Prop
  | .unissued => id ∉ state.issued.map Transaction.id
  | .pooled j => ∃ slot, state.pool.transactions[j]? = some slot ∧ slot.filled ≠ 0 ∧ slot.tx.id = id
  | .held num => ∃ block history, state.validators num = .accepted block history ∧ id ∈ block.ids
  | .committed k => 1 ≤ k ∧ k < state.ledger.count ∧ id ∈ (state.ledger.blocks k).ids
  | .lost => False

def Represents {n : Nat} (state : State n) (place : List UInt8 → Place) : Prop :=
  ∀ id location, location ≠ .lost → (place id = location ↔ state.At id location)

def custodyAction (setup : Setup) (state : State setup.txs) : Event → Option (Action (List UInt8))
  | .insert gen stack rand now =>
      let new := newTransaction setup state gen stack rand now
      match insertTransaction state.pool new with
      | .added slot _ => some (.issue new.tx.id slot)
      | .noSlot | .full => none
  | .poolPhase num =>
      match state.validators num with
      | .checked block _ =>
          if (poolPhase state.pool block).isSome then some (.take block.ids num) else none
      | _ => none
  | .ledgerPhase num _ =>
      match state.validators num with
      | .accepted block _ =>
          if onTip state.ledger block then some (.commit block.ids num state.ledger.count)
          else some (.lose block.ids num)
      | _ => none
  | .kill num =>
      match state.validators num with
      | .accepted block _ => some (.lose block.ids num)
      | _ => none
  | _ => none

theorem State.At.ne_lost {n : Nat} {state : State n} {location : Place} (at_location : state.At id location) :
    location ≠ .lost := by
  intro same
  subst same
  exact at_location

theorem Represents.place_eq (represents : Represents before place) (location : Place)
    (at_location : before.At id location) : place id = location :=
  (represents id location at_location.ne_lost).mpr at_location

theorem Represents.unique (represents : Represents before place) (first second : Place)
    (at_first : before.At id first) (at_second : before.At id second) : first = second :=
  (represents.place_eq first at_first).symm.trans (represents.place_eq second at_second)

theorem Represents.distinctIds (represents : Represents before place) : before.pool.DistinctIds := by
  intro i j first second at_i at_j firstFilled secondFilled same
  have firstAt : before.At second.tx.id (.pooled i) := ⟨first, at_i, firstFilled, same⟩
  have secondAt : before.At second.tx.id (.pooled j) := ⟨second, at_j, secondFilled, rfl⟩
  cases represents.unique _ _ firstAt secondAt
  rfl

theorem Represents.initial (setup : Setup) :
    Represents (State.initial setup) (fun _ => Place.unissued) := by
  intro id location notLost
  cases location with
  | unissued => simp [State.At, State.initial]
  | pooled j =>
      refine ⟨nofun, ?_⟩
      intro found
      obtain ⟨slot, at_j, filled, _⟩ := found
      have member := List.mem_of_getElem? at_j
      rw [List.eq_of_mem_replicate member] at filled
      exact absurd rfl filled
  | held num => simp [State.At, State.initial]
  | committed k => simp [State.At, State.initial, Ledger.initial]
  | lost => exact absurd rfl notLost

/-- A step that moves some ids to one place and shows every other id where it was. -/
theorem Represents.move (represents : Represents before place) {action : Action (List UInt8)}
    (nonempty : action.tokens ≠ [])
    (source : ∀ id ∈ action.tokens, ∃ location, before.At id location ∧ action.source location = true)
    (moved : ∀ id ∈ action.tokens, ∀ location, location ≠ .lost →
      (after.At id location ↔ location = action.target))
    (kept : ∀ id, id ∉ action.tokens → ∀ location, after.At id location ↔ before.At id location) :
    ∃ next, Custody.step place action = some next ∧ Represents after next := by
  refine ⟨_, Custody.step_eq_some nonempty ?_, ?_⟩
  · intro id member
    obtain ⟨location, at_location, found⟩ := source id member
    rwa [represents.place_eq _ at_location]
  · intro id location notLost
    dsimp only
    split
    · rename_i member
      exact eq_comm.trans (moved id member location notLost).symm
    · rename_i other
      exact (represents id location notLost).trans (kept id other location).symm

theorem Represents.still (represents : Represents before place) (pool : after.pool = before.pool)
    (issued : after.issued = before.issued)
    (accepted : ∀ num block history,
      after.validators num = .accepted block history ↔ before.validators num = .accepted block history)
    (ledger : ∀ id k, after.At id (.committed k) ↔ before.At id (.committed k)) :
    Represents after place := by
  intro id location notLost
  rw [represents id location notLost]
  cases location with
  | unissued => simp only [State.At, issued]
  | pooled j => simp only [State.At, pool]
  | held num => simp only [State.At, accepted]
  | committed k => exact (ledger id k).symm
  | lost => exact absurd rfl notLost

theorem accepted_unmoved {num : Nat} {phase : ValidatorPhase setup.txs}
    (was : ∀ block history, before.validators num ≠ .accepted block history)
    (becomes : ∀ block history, phase ≠ .accepted block history) (other : Nat)
    (block : TransactionBlock setup.txs) (history : History) :
    (before.withValidator num phase).validators other = .accepted block history ↔
      before.validators other = .accepted block history := by
  rw [State.withValidator_validators]
  split
  · rename_i same
    subst same
    exact ⟨fun now => absurd now (becomes block history), fun earlier => absurd earlier (was block history)⟩
  · exact Iff.rfl

theorem Represents.issue (represents : Represents before place) {new : PendingTransaction} {slot : Nat}
    (fresh : new.tx.id ∉ before.issued.map Transaction.id) (filled : new.filled = 1)
    (added : insertTransaction before.pool new = .added slot after.pool)
    (ledger : after.ledger = before.ledger) (validators : after.validators = before.validators)
    (issued : after.issued = before.issued ++ [new.tx]) :
    ∃ next, Custody.step place (.issue new.tx.id slot) = some next ∧ Represents after next := by
  obtain ⟨old, at_slot, empty, _, _, slots⟩ := insertTransaction_added added
  have written : after.pool.transactions[slot]? = some new := by
    rw [slots, List.getElem?_set_self (List.getElem?_eq_some_iff.mp at_slot).1]
  have others : ∀ j, j ≠ slot → after.pool.transactions[j]? = before.pool.transactions[j]? := by
    intro j different
    rw [slots, List.getElem?_set_ne different.symm]
  have unissued : before.At new.tx.id .unissued := fresh
  apply represents.move
  · simp [Action.tokens]
  · intro id member
    rw [List.mem_singleton.mp member]
    exact ⟨.unissued, unissued, rfl⟩
  · intro id member location notLost
    rw [List.mem_singleton.mp member]
    cases location with
    | unissued => simp [State.At, issued, Action.target]
    | pooled j =>
        constructor
        · intro found
          obtain ⟨current, at_j, occupied, same⟩ := found
          by_cases here : j = slot
          · rw [here]
            rfl
          · rw [others j here] at at_j
            exact nomatch represents.unique _ (.pooled j) unissued ⟨current, at_j, occupied, same⟩
        · intro same
          cases same
          exact ⟨new, written, by simp [filled], rfl⟩
    | held num =>
        simp only [State.At, validators, Action.target, reduceCtorEq, iff_false]
        intro held
        exact nomatch represents.unique _ (.held num) unissued held
    | committed k =>
        simp only [State.At, ledger, Action.target, reduceCtorEq, iff_false]
        intro committed
        exact nomatch represents.unique _ (.committed k) unissued committed
    | lost => exact absurd rfl notLost
  · intro id other location
    have different : id ≠ new.tx.id := fun same => other (List.mem_singleton.mpr same)
    cases location with
    | unissued => simp [State.At, issued, different]
    | pooled j =>
        by_cases here : j = slot
        · subst here
          simp only [State.At, written, at_slot, Option.some.injEq]
          constructor
          · intro found
            obtain ⟨_, rfl, _, same⟩ := found
            exact absurd same.symm different
          · intro found
            obtain ⟨_, rfl, occupied, _⟩ := found
            exact absurd empty occupied
        · simp only [State.At, others j here]
    | held num => simp only [State.At, validators]
    | committed k => simp only [State.At, ledger]
    | lost => exact Iff.rfl

theorem Represents.take (represents : Represents before place) {num : Nat}
    {block : TransactionBlock setup.txs} {history : History}
    (checked : before.validators num = .checked block history)
    (passed : poolPhase before.pool block = some after.pool)
    (ledger : after.ledger = before.ledger) (issued : after.issued = before.issued)
    (validators : after.validators = (before.withValidator num (.accepted block history)).validators) :
    ∃ next, Custody.step place (.take block.ids num) = some next ∧ Represents after next := by
  have slots := poolPhase_slots represents.distinctIds passed
  have pooled : ∀ id ∈ block.ids, ∃ j, before.At id (.pooled j) := by
    intro id member
    obtain ⟨tx, txMember, rfl⟩ := List.mem_map.mp member
    obtain ⟨slot, slotMember, occupied, agrees⟩ :=
      (poolPhase_isSome_iff represents.distinctIds).mp (Option.isSome_of_eq_some passed) tx txMember
    obtain ⟨j, at_j⟩ := List.getElem?_of_mem slotMember
    exact ⟨j, slot, at_j, occupied, (txCompare_iff.mp agrees).1.symm⟩
  have afterPooled : ∀ id j, after.At id (.pooled j) ↔ before.At id (.pooled j) ∧ id ∉ block.ids := by
    intro id j
    simp only [State.At, slots j, Option.map_eq_some_iff]
    constructor
    · intro found
      obtain ⟨_, ⟨slot, at_j, rfl⟩, occupied, rfl⟩ := found
      rw [PendingTransaction.aged_filled, PendingTransaction.without_filled] at occupied
      rw [PendingTransaction.aged_id, PendingTransaction.without_tx]
      exact ⟨⟨slot, at_j, occupied.1, rfl⟩, occupied.2⟩
    · intro found
      obtain ⟨⟨slot, at_j, occupied, rfl⟩, other⟩ := found
      refine ⟨_, ⟨slot, at_j, rfl⟩, ?_, ?_⟩
      · rw [PendingTransaction.aged_filled, PendingTransaction.without_filled]
        exact ⟨occupied, other⟩
      · rw [PendingTransaction.aged_id, PendingTransaction.without_tx]
  have afterHeld : ∀ id holder, after.At id (.held holder) ↔
      if holder = num then id ∈ block.ids else before.At id (.held holder) := by
    intro id holder
    simp only [State.At, validators, State.withValidator_validators]
    split
    · constructor
      · intro found
        obtain ⟨_, _, same, member⟩ := found
        cases same
        exact member
      · exact fun member => ⟨block, history, rfl, member⟩
    · exact Iff.rfl
  have notHeld : ∀ id, ¬ before.At id (.held num) := by
    intro id given
    obtain ⟨_, _, accepted, _⟩ := given
    rw [checked] at accepted
    cases accepted
  apply represents.move
  · exact block.ids_ne_nil setup.cfg.transactionsPositive
  · intro id member
    obtain ⟨j, at_j⟩ := pooled id member
    exact ⟨.pooled j, at_j, rfl⟩
  · intro id member location notLost
    obtain ⟨j, at_j⟩ := pooled id member
    cases location with
    | unissued =>
        simp only [State.At, issued, Action.target, reduceCtorEq, iff_false]
        intro fresh
        exact nomatch represents.unique _ .unissued at_j fresh
    | pooled i =>
        simp only [afterPooled, Action.target, reduceCtorEq, iff_false]
        exact fun found => found.2 member
    | held holder =>
        rw [afterHeld]
        split
        · rename_i same
          subst same
          exact ⟨fun _ => rfl, fun _ => member⟩
        · rename_i different
          constructor
          · intro held
            exact nomatch represents.unique _ _ at_j held
          · intro same
            cases same
            exact absurd rfl different
    | committed k =>
        simp only [State.At, ledger, Action.target, reduceCtorEq, iff_false]
        intro committed
        exact nomatch represents.unique _ (.committed k) at_j committed
    | lost => exact absurd rfl notLost
  · intro id other location
    cases location with
    | unissued => simp only [State.At, issued]
    | pooled j =>
        rw [afterPooled]
        exact ⟨And.left, fun found => ⟨found, other⟩⟩
    | held holder =>
        rw [afterHeld]
        split
        · rename_i same
          subst same
          exact ⟨fun member => absurd member other, fun held => absurd held (notHeld id)⟩
        · exact Iff.rfl
    | committed k => simp only [State.At, ledger]
    | lost => exact Iff.rfl

/-- A validator gives up the ids of its accepted block: to the ledger, or to no one. -/
theorem Represents.release (represents : Represents before place) {num : Nat}
    {block : TransactionBlock setup.txs} {history : History} (phase : ValidatorPhase setup.txs)
    (accepted : before.validators num = .accepted block history)
    (free : ∀ block history, phase ≠ .accepted block history) {action : Action (List UInt8)}
    (tokens : action.tokens = block.ids) (source : action.source (.held num) = true)
    (pool : after.pool = before.pool) (issued : after.issued = before.issued)
    (validators : after.validators = (before.withValidator num phase).validators)
    (ledger : ∀ id k, after.At id (.committed k) ↔
      before.At id (.committed k) ∨ action.target = .committed k ∧ id ∈ block.ids)
    (target : action.target = .lost ∨ ∃ k, action.target = .committed k) :
    ∃ next, Custody.step place action = some next ∧ Represents after next := by
  have held : ∀ id ∈ block.ids, before.At id (.held num) := fun id member =>
    ⟨block, history, accepted, member⟩
  have afterHeld : ∀ id holder, after.At id (.held holder) ↔
      holder ≠ num ∧ before.At id (.held holder) := by
    intro id holder
    simp only [State.At, validators, State.withValidator_validators]
    split
    · rename_i same
      constructor
      · intro found
        obtain ⟨_, _, now, _⟩ := found
        exact absurd now (free _ _)
      · exact fun other => absurd same other.1
    · rename_i different
      exact ⟨fun found => ⟨different, found⟩, And.right⟩
  apply represents.move
  · rw [tokens]
    exact block.ids_ne_nil setup.cfg.transactionsPositive
  · intro id member
    exact ⟨.held num, held id (tokens ▸ member), source⟩
  · intro id member location notLost
    have at_num := held id (tokens ▸ member)
    cases location with
    | unissued =>
        simp only [State.At, issued]
        constructor
        · intro fresh
          exact nomatch represents.unique _ .unissued at_num fresh
        · intro same
          rcases target with lost | ⟨k, committed⟩
          · exact nomatch same.trans lost
          · exact nomatch same.trans committed
    | pooled j =>
        simp only [State.At, pool]
        constructor
        · intro pooled
          exact nomatch represents.unique _ (.pooled j) at_num pooled
        · intro same
          rcases target with lost | ⟨k, committed⟩
          · exact nomatch same.trans lost
          · exact nomatch same.trans committed
    | held holder =>
        rw [afterHeld]
        constructor
        · intro found
          obtain ⟨different, other⟩ := found
          cases represents.unique _ _ at_num other
          exact absurd rfl different
        · intro same
          rcases target with lost | ⟨k, committed⟩
          · exact nomatch same.trans lost
          · exact nomatch same.trans committed
    | committed k =>
        rw [ledger]
        constructor
        · intro either
          rcases either with earlier | ⟨same, _⟩
          · exact nomatch represents.unique _ _ at_num earlier
          · exact same.symm
        · exact fun same => .inr ⟨same.symm, tokens ▸ member⟩
    | lost => exact absurd rfl notLost
  · intro id other location
    have notHere : id ∉ block.ids := tokens ▸ other
    cases location with
    | unissued => simp only [State.At, issued]
    | pooled j => simp only [State.At, pool]
    | held holder =>
        rw [afterHeld]
        refine ⟨And.right, fun found => ⟨?_, found⟩⟩
        intro same
        subst same
        obtain ⟨held, _, now, member⟩ := found
        rw [accepted] at now
        cases now
        exact notHere member
    | committed k =>
        rw [ledger]
        exact ⟨fun either => either.resolve_right fun here => notHere here.2, .inl⟩
    | lost => exact Iff.rfl

theorem last_fresh {issued : List Transaction} {tx : Transaction}
    (distinct : ((issued ++ [tx]).map Transaction.id).Nodup) : tx.id ∉ issued.map Transaction.id := by
  rw [List.map_append, List.nodup_append] at distinct
  exact fun member => distinct.2.2 _ member _ (by simp) rfl

theorem Represents.step (represents : Represents before place) (held : ChainInvariant setup before)
    (distinct : (after.issued.map Transaction.id).Nodup) (taken : Transition setup before event after) :
    (custodyAction setup before event = none → Represents after place) ∧
      ∀ action, custodyAction setup before event = some action →
        ∃ next, Custody.step place action = some next ∧ Represents after next := by
  have moveless {num : Nat} {phase : ValidatorPhase setup.txs}
      (was : ∀ block history, before.validators num ≠ .accepted block history)
      (becomes : ∀ block history, phase ≠ .accepted block history) :
      Represents (before.withValidator num phase) place :=
    represents.still rfl rfl (accepted_unmoved was becomes) fun _ _ => Iff.rfl
  cases taken with
  | refused full =>
      refine ⟨fun _ => represents, fun action label => ?_⟩
      simp only [custodyAction] at label
      split at label
      · rename_i added
        exact absurd added (full _ _)
      · cases label
      · cases label
  | stored added =>
      have fresh := last_fresh distinct
      refine ⟨fun label => ?_, fun action label => ?_⟩
      · simp [custodyAction, added] at label
      · simp only [custodyAction, added, Option.some.injEq] at label
        subst label
        exact represents.issue fresh rfl added rfl rfl rfl
  | rested own empty =>
      refine ⟨fun _ => represents.still rfl rfl (fun _ _ _ => Iff.rfl) fun _ _ => Iff.rfl,
        fun action label => ?_⟩
      cases event <;> first | cases label | cases own
  | selected | drafted | retried | solved | wrote =>
      exact ⟨fun _ => represents.still rfl rfl (fun _ _ _ => Iff.rfl) fun _ _ => Iff.rfl, nofun⟩
  | started known idle =>
      refine ⟨fun _ => moveless ?_ nofun, nofun⟩
      intro block history accepted
      rcases idle with absent | ⟨exited, _⟩
      · rw [absent] at accepted
        cases accepted
      · rw [exited] at accepted
        cases accepted
  | created starting empty genesis =>
      refine ⟨fun _ => ?_, nofun⟩
      refine represents.still rfl rfl (accepted_unmoved (by simp [starting]) nofun) fun id k => ?_
      obtain ⟨_, count, _, _⟩ := createGenesis_spec held.chained empty genesis
      simp only [State.At]
      omega
  | joined starting positive => exact ⟨fun _ => moveless (by simp [starting]) nofun, nofun⟩
  | took reading front decoded =>
      exact ⟨fun _ => represents.still rfl rfl (accepted_unmoved (by simp [reading]) nofun)
        fun _ _ => Iff.rfl, nofun⟩
  | misread reading front failed =>
      exact ⟨fun _ => represents.still rfl rfl (accepted_unmoved (by simp [reading]) nofun)
        fun _ _ => Iff.rfl, nofun⟩
  | approved received verified tip => exact ⟨fun _ => moveless (by simp [received]) nofun, nofun⟩
  | refusedBlock received fault => exact ⟨fun _ => moveless (by simp [received]) nofun, nofun⟩
  | removed checked passed =>
      refine ⟨fun label => ?_, fun action label => ?_⟩
      · simp [custodyAction, checked, passed] at label
      · simp only [custodyAction, checked, passed, Option.isSome_some, if_true, Option.some.injEq] at label
        subst label
        exact represents.take checked passed rfl rfl rfl
  | unmatched checked failed =>
      refine ⟨fun _ => moveless (by simp [checked]) nofun, fun action label => ?_⟩
      simp [custodyAction, checked, failed] at label
  | @appended num now block history accepted tip =>
      refine ⟨fun label => ?_, fun action label => ?_⟩
      · simp [custodyAction, accepted, tip] at label
      · simp only [custodyAction, accepted, tip, if_true, Option.some.injEq] at label
        subst label
        have sealing := held.streams num block history (.inr (.inr accepted))
        have positive := held.founded num (accepted ▸ trivial)
        obtain ⟨_, growth, count, stored⟩ :=
          appendBlock_spec held.chained positive sealing.padded sealing.verified tip
        refine represents.release (.inserted block _ now) accepted nofun rfl
          (by simp [Action.source]) rfl rfl rfl ?_ (.inr ⟨_, rfl⟩)
        intro id k
        simp only [State.At, Action.target, Place.committed.injEq]
        constructor
        · intro found
          obtain ⟨lower, upper, member⟩ := found
          rcases Nat.lt_or_eq_of_le (Nat.le_of_lt_succ (count ▸ upper)) with below | same
          · exact .inl ⟨lower, below, growth.2 k below ▸ member⟩
          · subst same
            exact .inr ⟨rfl, stored ▸ member⟩
        · intro either
          rcases either with ⟨lower, below, member⟩ | ⟨same, member⟩
          · exact ⟨lower, Nat.lt_of_lt_of_le below growth.1, (growth.2 k below).symm ▸ member⟩
          · subst same
            exact ⟨positive, by rw [count]; exact Nat.lt_succ_self _, stored.symm ▸ member⟩
  | dropped accepted stale =>
      refine ⟨fun label => ?_, fun action label => ?_⟩
      · simp [custodyAction, accepted, stale] at label
      · simp only [custodyAction, accepted, stale, Bool.false_eq_true, if_false, Option.some.injEq] at label
        subst label
        exact represents.release .reading accepted nofun rfl (by simp [Action.source])
          rfl rfl rfl (fun _ _ => by simp [State.At, Action.target]) (.inl rfl)
  | reported pending =>
      refine ⟨fun _ => moveless ?_ nofun, nofun⟩
      intro block history accepted
      rcases pending with ⟨_, rejecting⟩ | ⟨_, _, _, inserted⟩
      · rw [rejecting] at accepted
        cases accepted
      · rw [inserted] at accepted
        cases accepted
  | left founded unburdened => exact ⟨fun _ => moveless unburdened nofun, nofun⟩
  | @killed num alive =>
      cases phase : before.validators num with
      | accepted block history =>
          refine ⟨fun label => ?_, fun action label => ?_⟩
          · simp [custodyAction, phase] at label
          · simp only [custodyAction, phase, Option.some.injEq] at label
            subst label
            exact represents.release .exited phase nofun rfl (by simp [Action.source])
              rfl rfl rfl (fun _ _ => by simp [State.At, Action.target]) (.inl rfl)
      | _ => exact ⟨fun _ => moveless (by simp [phase]) nofun, by simp [custodyAction, phase]⟩

theorem Transition.issued (taken : Transition setup before event after) : before.issued <+: after.issued := by
  cases taken with
  | stored added => exact List.prefix_append _ _
  | _ => exact List.prefix_refl _

theorem issued_grows {start : State setup.txs} (run : Run (step setup) start trace final) :
    start.issued <+: final.issued ∧ ∀ entry ∈ trace, entry.1.issued <+: final.issued :=
  Run.related (fun older newer => older.issued <+: newer.issued)
    (fun _ => List.prefix_refl _) List.IsPrefix.trans
    (fun _ taken => (step_transition taken).issued) run

theorem nodup_of_issued_growth {older newer : List Transaction} (growth : older <+: newer)
    (distinct : (newer.map Transaction.id).Nodup) : (older.map Transaction.id).Nodup :=
  distinct.sublist (growth.sublist.map _)

/-- While the generators issue distinct ids, the system refines the custody of
ids: it takes exactly the custody actions its steps stand for. -/
theorem SystemRun.custody (run : SystemRun setup trace final)
    (distinct : (final.issued.map Transaction.id).Nodup) :
    ∃ custodyTrace place, Run Custody.step (fun _ => Place.unissued) custodyTrace place ∧
      Represents final place ∧
      custodyTrace.map Prod.snd = trace.filterMap fun entry => custodyAction setup entry.1 entry.2 := by
  have stepwise : ∀ entry ∈ trace, ∀ after place, Represents entry.1 place →
      step setup entry.1 entry.2 = some after →
      (custodyAction setup entry.1 entry.2 = none → Represents after place) ∧
        ∀ action, custodyAction setup entry.1 entry.2 = some action →
          ∃ next, Custody.step place action = some next ∧ Represents after next := by
    intro entry member after place represents taken
    obtain ⟨_, _, next, _, reached, enabled, rest⟩ := run.recorded member
    cases Option.some.inj (taken.symm.trans enabled)
    exact represents.step (SystemRun.chain reached) (nodup_of_issued_growth (issued_grows rest).1 distinct)
      (step_transition taken)
  exact Run.simulates Represents _ (Represents.initial setup) run
    (fun entry member after place represents taken => (stepwise entry member after place represents taken).1)
    (fun entry member after place action represents taken =>
      (stepwise entry member after place represents taken).2 action)

end

end DeiChain
