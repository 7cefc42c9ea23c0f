import DeiChain.Systems.Run
import Mathlib.Algebra.BigOperators.Group.Multiset.Basic
import Mathlib.Algebra.Order.Group.Multiset
import Mathlib.Tactic.Abel
import Mathlib.Logic.Function.Basic

namespace Systems

universe u v w

/-! # Tokens on their way to one receiver

A process that makes a token holds it until it sends it; what is sent waits in
a queue that a single receiver empties. A token can be lost: by the process
that holds it, or because it was due and no process ever took it up.
-/

structure Delivery (Process : Type u) (Token : Type v) where
  held : Process → Option Token
  queue : List Token
  delivered : List Token
  lost : List Token
  made : List Token

namespace Delivery

variable {Process : Type u} {Token : Type v}

inductive Action (Process : Type u) (Token : Type v) where
  | make (process : Process) (token : Token)
  | miss (token : Token)
  | send (process : Process)
  | lose (process : Process) (token : Token)
  | receive

def Action.made? : Action Process Token → Option Token
  | .make _ token | .miss token => some token
  | _ => none

def Action.lost? : Action Process Token → Option Token
  | .miss token | .lose _ token => some token
  | _ => none

def empty : Delivery Process Token := ⟨fun _ => none, [], [], [], []⟩

/-- What the processes of a list hold. -/
def inHand (processes : List Process) (held : Process → Option Token) : Multiset Token :=
  processes.filterMap held

/-- Every token made is in exactly one of the four places it can be in. -/
structure Conserved (processes : List Process) (delivery : Delivery Process Token) : Prop where
  within : ∀ process token, delivery.held process = some token → process ∈ processes
  balance : (delivery.delivered : Multiset Token) + delivery.queue +
    inHand processes delivery.held + delivery.lost = delivery.made

/-- Whichever tokens are looked at, and whatever they weigh, nothing is gained
or lost on the way. -/
theorem Conserved.sum {Weight : Type w} [AddCommMonoid Weight] {processes : List Process}
    {delivery : Delivery Process Token} (conserved : Conserved processes delivery) (kind : Token → Bool)
    (weight : Token → Weight) :
    ((delivery.delivered.filter kind).map weight).sum + ((delivery.queue.filter kind).map weight).sum +
      (((processes.filterMap delivery.held).filter kind).map weight).sum +
      ((delivery.lost.filter kind).map weight).sum =
        ((delivery.made.filter kind).map weight).sum := by
  have weighed := congrArg
    (fun tokens : Multiset Token => ((tokens.filter fun token => kind token = true).map weight).sum)
    conserved.balance
  simpa [inHand, add_assoc] using weighed

theorem Conserved.made_of_mem {processes : List Process} {delivery : Delivery Process Token}
    (conserved : Conserved processes delivery) {token : Token}
    (member : token ∈ delivery.delivered ++ delivery.queue ∨ token ∈ delivery.lost) :
    token ∈ delivery.made := by
  rw [← Multiset.mem_coe, ← conserved.balance]
  simp only [Multiset.mem_add, Multiset.mem_coe]
  exact member.imp (fun sent => .inl (List.mem_append.mp sent)) id

variable [DecidableEq Process] [DecidableEq Token]

def step (delivery : Delivery Process Token) : Action Process Token → Option (Delivery Process Token)
  | .make process token =>
      if delivery.held process = none then
        some { delivery with
          held := Function.update delivery.held process (some token)
          made := delivery.made ++ [token] }
      else none
  | .miss token =>
      some { delivery with lost := delivery.lost ++ [token], made := delivery.made ++ [token] }
  | .send process =>
      (delivery.held process).map fun token =>
        { delivery with
          held := Function.update delivery.held process none
          queue := delivery.queue ++ [token] }
  | .lose process token =>
      if delivery.held process = some token then
        some { delivery with
          held := Function.update delivery.held process none
          lost := delivery.lost ++ [token] }
      else none
  | .receive =>
      match delivery.queue with
      | [] => none
      | token :: queue => some { delivery with queue, delivered := delivery.delivered ++ [token] }

variable {before after final : Delivery Process Token} {action : Action Process Token}
  {trace : List (Delivery Process Token × Action Process Token)}

theorem step_lists (taken : step before action = some after) :
    after.made = before.made ++ action.made?.toList ∧ after.lost = before.lost ++ action.lost?.toList := by
  cases action with
  | make process token =>
      simp only [step] at taken
      split at taken
      · cases taken
        exact ⟨rfl, (List.append_nil _).symm⟩
      · cases taken
  | miss token =>
      cases taken
      exact ⟨rfl, rfl⟩
  | send process =>
      obtain ⟨token, _, rfl⟩ := Option.map_eq_some_iff.mp taken
      exact ⟨(List.append_nil _).symm, (List.append_nil _).symm⟩
  | lose process token =>
      simp only [step] at taken
      split at taken
      · cases taken
        exact ⟨(List.append_nil _).symm, rfl⟩
      · cases taken
  | receive =>
      simp only [step] at taken
      split at taken
      · cases taken
      · cases taken
        exact ⟨(List.append_nil _).symm, (List.append_nil _).symm⟩

/-- What was made and what was lost can be read off the actions alone. -/
theorem run_lists (run : Run step empty trace final) :
    final.made = (trace.map Prod.snd).filterMap Action.made? ∧
      final.lost = (trace.map Prod.snd).filterMap Action.lost? := by
  induction run with
  | nil => exact ⟨rfl, rfl⟩
  | snoc earlier taken ih =>
      obtain ⟨made, lost⟩ := step_lists taken
      simp only [List.map_append, List.filterMap_append, List.map_cons, List.map_nil, made, lost, ih.1, ih.2]
      constructor
      · cases same : Action.made? _ <;> simp [same]
      · cases same : Action.lost? _ <;> simp [same]

omit [DecidableEq Token] in
theorem inHand_update {processes : List Process} (nodup : processes.Nodup)
    {held : Process → Option Token} {process : Process} (member : process ∈ processes)
    (idle : held process = none) (token : Token) :
    inHand processes (Function.update held process (some token)) = inHand processes held + {token} := by
  obtain ⟨front, rest, rfl⟩ := List.append_of_mem member
  have apart : process ∉ front ∧ process ∉ rest := by
    rw [List.nodup_middle, List.nodup_cons, List.mem_append, not_or] at nodup
    exact nodup.1
  have unchanged {part : List Process} (absent : process ∉ part) :
      part.filterMap (Function.update held process (some token)) = part.filterMap held := by
    apply List.filterMap_congr
    intro other otherMember
    exact Function.update_of_ne (ne_of_mem_of_not_mem otherMember absent) _ _
  rw [inHand, inHand, List.filterMap_append, List.filterMap_append, unchanged apart.1,
    List.filterMap_cons_some (Function.update_self ..), List.filterMap_cons_none idle, unchanged apart.2]
  simp only [← Multiset.coe_add, ← Multiset.cons_coe, ← Multiset.singleton_add]
  abel

omit [DecidableEq Token] in
theorem inHand_release {processes : List Process} (nodup : processes.Nodup)
    {held : Process → Option Token} {process : Process} (member : process ∈ processes)
    {token : Token} (holds : held process = some token) :
    inHand processes held = inHand processes (Function.update held process none) + {token} := by
  have again := inHand_update nodup member (Function.update_self process none held) token
  rwa [Function.update_idem, ← holds, Function.update_eq_self] at again

theorem Conserved.step {processes : List Process} (nodup : processes.Nodup)
    (conserved : Conserved processes before) (taken : step before action = some after)
    (known : ∀ process token, action = .make process token → process ∈ processes) :
    Conserved processes after := by
  obtain ⟨within, balance⟩ := conserved
  have stays {process other : Process} {token : Token}
      (holds : Function.update before.held process none other = some token) : other ∈ processes := by
    by_cases same : other = process
    · rw [same, Function.update_self] at holds
      cases holds
    · rw [Function.update_of_ne same] at holds
      exact within other token holds
  cases action with
  | make process token =>
      simp only [Delivery.step] at taken
      split at taken
      · rename_i idle
        cases taken
        have member := known process token rfl
        refine ⟨fun other held holds => ?_, ?_⟩
        · by_cases same : other = process
          · exact same ▸ member
          · dsimp only at holds
            rw [Function.update_of_ne same] at holds
            exact within other held holds
        · dsimp only
          rw [inHand_update nodup member idle, ← Multiset.coe_add, ← balance, Multiset.coe_singleton]
          abel
      · cases taken
  | miss token =>
      cases taken
      refine ⟨within, ?_⟩
      simp only [← Multiset.coe_add, ← balance]
      abel
  | send process =>
      obtain ⟨token, holds, rfl⟩ := Option.map_eq_some_iff.mp taken
      refine ⟨fun _ _ => stays, ?_⟩
      rw [inHand_release nodup (within process token holds) holds] at balance
      simp only [← Multiset.coe_add, ← balance, Multiset.coe_singleton]
      abel
  | lose process token =>
      simp only [Delivery.step] at taken
      split at taken
      · rename_i holds
        cases taken
        refine ⟨fun _ _ => stays, ?_⟩
        rw [inHand_release nodup (within process token holds) holds] at balance
        simp only [← Multiset.coe_add, ← balance, Multiset.coe_singleton]
        abel
      · cases taken
  | receive =>
      simp only [Delivery.step] at taken
      split at taken
      · cases taken
      · rename_i token queue front
        cases taken
        refine ⟨within, ?_⟩
        rw [front, ← Multiset.cons_coe, ← Multiset.singleton_add] at balance
        simp only [← Multiset.coe_add, ← balance, Multiset.coe_singleton]
        abel

theorem run_conserved {processes : List Process} (nodup : processes.Nodup)
    (run : Run step empty trace final)
    (known : ∀ process token, Action.make process token ∈ trace.map Prod.snd → process ∈ processes) :
    Conserved processes final := by
  have initial : Conserved processes (empty : Delivery Process Token) := by
    refine ⟨nofun, ?_⟩
    have none : inHand processes (fun _ => (none : Option Token)) = 0 := by
      rw [inHand, List.filterMap_eq_nil_iff.mpr fun _ _ => rfl, Multiset.coe_nil]
    simp [empty, none]
  refine run.invariant_of_allowed (Conserved processes)
    (fun _ action => ∀ process token, action = .make process token → process ∈ processes) initial
    (fun before action after conserved allowed taken => conserved.step nodup taken allowed) ?_
  intro entry member process token same
  exact known process token (same ▸ List.mem_map_of_mem member)

end Delivery

end Systems
