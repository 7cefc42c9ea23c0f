import DeiChain.Systems.Delivery

namespace Systems

universe u v

/-! # Tokens that are handed to workers

What is put in a queue is taken from its front by one of many workers, who
settles it before it takes another. A worker that stops drops what it holds.
-/

structure Handover (Process : Type u) (Token : Type v) where
  queue : List Token
  held : Process → Option Token
  settled : List Token
  dropped : List Token
  placed : List Token

namespace Handover

open Delivery (inHand inHand_update inHand_release)

variable {Process : Type u} {Token : Type v}

inductive Action (Process : Type u) (Token : Type v) where
  | place (token : Token)
  | take (process : Process)
  | settle (process : Process) (token : Token)
  | drop (process : Process) (token : Token)

def Action.placed? : Action Process Token → Option Token
  | .place token => some token
  | _ => none

def Action.settled? : Action Process Token → Option Token
  | .settle _ token => some token
  | _ => none

def Action.dropped? : Action Process Token → Option Token
  | .drop _ token => some token
  | _ => none

def empty : Handover Process Token := ⟨[], fun _ => none, [], [], []⟩

/-- Every token placed is in exactly one of the four places it can be in. -/
structure Conserved (processes : List Process) (handover : Handover Process Token) : Prop where
  within : ∀ process token, handover.held process = some token → process ∈ processes
  balance : (handover.settled : Multiset Token) + handover.dropped +
    inHand processes handover.held + handover.queue = handover.placed

/-- All that was placed has been settled exactly when nothing waits, nothing is
held and nothing was dropped. -/
theorem Conserved.settled_iff {processes : List Process} {handover : Handover Process Token}
    (conserved : Conserved processes handover) :
    handover.settled.Perm handover.placed ↔
      handover.dropped = [] ∧ (∀ process, handover.held process = none) ∧ handover.queue = [] := by
  obtain ⟨within, balance⟩ := conserved
  constructor
  · intro settled
    have lengths := congrArg Multiset.card balance
    simp only [inHand, Multiset.card_add, Multiset.coe_card, ← settled.length_eq] at lengths
    have held : processes.filterMap handover.held = [] := List.eq_nil_of_length_eq_zero (by omega)
    refine ⟨List.eq_nil_of_length_eq_zero (by omega), fun process => ?_,
      List.eq_nil_of_length_eq_zero (by omega)⟩
    cases holds : handover.held process with
    | none => rfl
    | some token =>
        have none := List.filterMap_eq_nil_iff.mp held process (within process token holds)
        exact holds.symm.trans none
  · intro given
    obtain ⟨dropped, held, queue⟩ := given
    have none : inHand processes handover.held = 0 := by
      rw [inHand, List.filterMap_eq_nil_iff.mpr fun process _ => held process, Multiset.coe_nil]
    rw [dropped, queue, none] at balance
    simpa using balance

variable [DecidableEq Process] [DecidableEq Token]

def step (handover : Handover Process Token) : Action Process Token → Option (Handover Process Token)
  | .place token =>
      some { handover with queue := handover.queue ++ [token], placed := handover.placed ++ [token] }
  | .take process =>
      match handover.queue with
      | [] => none
      | token :: queue =>
          if handover.held process = none then
            some { handover with queue, held := Function.update handover.held process (some token) }
          else none
  | .settle process token =>
      if handover.held process = some token then
        some { handover with
          held := Function.update handover.held process none
          settled := handover.settled ++ [token] }
      else none
  | .drop process token =>
      if handover.held process = some token then
        some { handover with
          held := Function.update handover.held process none
          dropped := handover.dropped ++ [token] }
      else none

variable {before after final : Handover Process Token} {action : Action Process Token}
  {trace : List (Handover Process Token × Action Process Token)}

theorem step_lists (taken : step before action = some after) :
    after.placed = before.placed ++ action.placed?.toList ∧
      after.settled = before.settled ++ action.settled?.toList ∧
      after.dropped = before.dropped ++ action.dropped?.toList := by
  cases action with
  | place token =>
      cases taken
      exact ⟨rfl, (List.append_nil _).symm, (List.append_nil _).symm⟩
  | take process =>
      simp only [step] at taken
      split at taken
      · cases taken
      · split at taken
        · cases taken
          exact ⟨(List.append_nil _).symm, (List.append_nil _).symm, (List.append_nil _).symm⟩
        · cases taken
  | settle process token =>
      simp only [step] at taken
      split at taken
      · cases taken
        exact ⟨(List.append_nil _).symm, rfl, (List.append_nil _).symm⟩
      · cases taken
  | drop process token =>
      simp only [step] at taken
      split at taken
      · cases taken
        exact ⟨(List.append_nil _).symm, (List.append_nil _).symm, rfl⟩
      · cases taken

/-- What was placed, settled and dropped can be read off the actions alone. -/
theorem run_lists (run : Run step empty trace final) :
    final.placed = (trace.map Prod.snd).filterMap Action.placed? ∧
      final.settled = (trace.map Prod.snd).filterMap Action.settled? ∧
      final.dropped = (trace.map Prod.snd).filterMap Action.dropped? := by
  induction run with
  | nil => exact ⟨rfl, rfl, rfl⟩
  | snoc earlier taken ih =>
      obtain ⟨placed, settled, dropped⟩ := step_lists taken
      obtain ⟨placedBefore, settledBefore, droppedBefore⟩ := ih
      simp only [List.map_append, List.filterMap_append, List.map_cons, List.map_nil, placed, settled,
        dropped, placedBefore, settledBefore, droppedBefore]
      refine ⟨?_, ?_, ?_⟩
      · cases same : Action.placed? _ <;> simp [same]
      · cases same : Action.settled? _ <;> simp [same]
      · cases same : Action.dropped? _ <;> simp [same]

theorem Conserved.step {processes : List Process} (nodup : processes.Nodup)
    (conserved : Conserved processes before) (taken : step before action = some after)
    (known : ∀ process, action = .take process → process ∈ processes) :
    Conserved processes after := by
  obtain ⟨within, balance⟩ := conserved
  have stays {process other : Process} {token : Token}
      (holds : Function.update before.held process none other = some token) : other ∈ processes := by
    by_cases same : other = process
    · rw [same, Function.update_self] at holds
      cases holds
    · rw [Function.update_of_ne same] at holds
      exact within other token holds
  cases action with
  | place token =>
      cases taken
      refine ⟨within, ?_⟩
      simp only [← Multiset.coe_add, ← balance]
      abel
  | take process =>
      simp only [Handover.step] at taken
      split at taken
      · cases taken
      · rename_i token queue front
        split at taken
        · rename_i idle
          cases taken
          have member := known process rfl
          refine ⟨fun other held holds => ?_, ?_⟩
          · by_cases same : other = process
            · exact same ▸ member
            · dsimp only at holds
              rw [Function.update_of_ne same] at holds
              exact within other held holds
          · rw [front, ← Multiset.cons_coe, ← Multiset.singleton_add] at balance
            dsimp only
            rw [inHand_update nodup member idle, ← balance]
            abel
        · cases taken
  | settle process token =>
      simp only [Handover.step] at taken
      split at taken
      · rename_i holds
        cases taken
        refine ⟨fun _ _ => stays, ?_⟩
        rw [inHand_release nodup (within process token holds) holds] at balance
        simp only [← Multiset.coe_add, ← balance, Multiset.coe_singleton]
        abel
      · cases taken
  | drop process token =>
      simp only [Handover.step] at taken
      split at taken
      · rename_i holds
        cases taken
        refine ⟨fun _ _ => stays, ?_⟩
        rw [inHand_release nodup (within process token holds) holds] at balance
        simp only [← Multiset.coe_add, ← balance, Multiset.coe_singleton]
        abel
      · cases taken

theorem run_conserved {processes : List Process} (nodup : processes.Nodup)
    (run : Run step empty trace final)
    (known : ∀ process, Action.take process ∈ trace.map Prod.snd → process ∈ processes) :
    Conserved processes final := by
  have initial : Conserved processes (empty : Handover Process Token) := by
    refine ⟨nofun, ?_⟩
    have none : inHand processes (fun _ => (none : Option Token)) = 0 := by
      rw [inHand, List.filterMap_eq_nil_iff.mpr fun _ _ => rfl, Multiset.coe_nil]
    simp [empty, none]
  refine run.invariant_of_allowed (Conserved processes)
    (fun _ action => ∀ process, action = .take process → process ∈ processes) initial
    (fun before action after conserved allowed taken => conserved.step nodup taken allowed) ?_
  intro entry member process same
  exact known process (same ▸ List.mem_map_of_mem member)

end Handover

end Systems
