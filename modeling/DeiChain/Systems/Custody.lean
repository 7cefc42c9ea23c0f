import DeiChain.Systems.Run

namespace Systems.Custody

universe u

/-! # Custody of tokens

Tokens that are issued once, wait in a pool, are taken by an owner and are then
either committed or lost. A token is at one place at a time, because its place
is a function of it; an action moves a list of tokens and no other.
-/

inductive Place where
  | unissued
  | pooled (slot : Nat)
  | held (owner : Nat)
  | committed (height : Nat)
  | lost
deriving DecidableEq

inductive Action (Token : Type u) where
  | issue (token : Token) (slot : Nat)
  | take (tokens : List Token) (owner : Nat)
  | commit (tokens : List Token) (owner height : Nat)
  | lose (tokens : List Token) (owner : Nat)

variable {Token : Type u}

def Action.tokens : Action Token → List Token
  | .issue token _ => [token]
  | .take tokens _ | .commit tokens _ _ | .lose tokens _ => tokens

/-- Where the action finds each of its tokens. -/
def Action.source : Action Token → Place → Bool
  | .issue _ _, .unissued => true
  | .take _ _, .pooled _ => true
  | .commit _ owner _, .held holder => owner == holder
  | .lose _ owner, .held holder => owner == holder
  | _, _ => false

def Action.target : Action Token → Place
  | .issue _ slot => .pooled slot
  | .take _ owner => .held owner
  | .commit _ _ height => .committed height
  | .lose _ _ => .lost

variable [DecidableEq Token]

def step (place : Token → Place) (action : Action Token) : Option (Token → Place) :=
  if action.tokens ≠ [] ∧ ∀ token ∈ action.tokens, action.source (place token) = true then
    some fun token => if token ∈ action.tokens then action.target else place token
  else none

variable {place after : Token → Place} {action : Action Token}
  {trace : List ((Token → Place) × Action Token)}

theorem step_enabled (taken : step place action = some after) :
    action.tokens ≠ [] ∧ ∀ token ∈ action.tokens, action.source (place token) = true := by
  unfold step at taken
  split at taken
  · assumption
  · cases taken

theorem step_place (taken : step place action = some after) (token : Token) :
    after token = if token ∈ action.tokens then action.target else place token := by
  unfold step at taken
  split at taken
  · cases taken
    rfl
  · cases taken

theorem step_eq_some (nonempty : action.tokens ≠ [])
    (found : ∀ token ∈ action.tokens, action.source (place token) = true) :
    step place action =
      some fun token => if token ∈ action.tokens then action.target else place token :=
  if_pos ⟨nonempty, found⟩

theorem step_settled (taken : step place action = some after) {token : Token}
    (settled : place token = .lost ∨ ∃ height, place token = .committed height) :
    after token = place token := by
  rw [step_place taken]
  refine if_neg fun member => ?_
  have source := (step_enabled taken).2 token member
  rcases settled with lost | ⟨height, committed⟩
  · rw [lost] at source
    cases action <;> cases source
  · rw [committed] at source
    cases action <;> cases source

/-- Tokens are lost by the actions that lose them and by nothing else. -/
theorem run_lost_iff (run : Run step (fun _ => .unissued) trace place) :
    (∃ token, place token = .lost) ↔ ∃ entry ∈ trace, entry.2.target = .lost := by
  induction run with
  | nil => simp
  | @snoc earlierTrace before action after earlier taken ih =>
      constructor
      · intro found
        obtain ⟨token, lost⟩ := found
        rw [step_place taken] at lost
        split at lost
        · exact ⟨(before, action), by simp, lost⟩
        · obtain ⟨entry, earlierMember, loses⟩ := ih.mp ⟨token, lost⟩
          exact ⟨entry, List.mem_append_left _ earlierMember, loses⟩
      · intro found
        obtain ⟨entry, member, loses⟩ := found
        rcases List.mem_append.mp member with member | member
        · obtain ⟨token, lost⟩ := ih.mpr ⟨entry, member, loses⟩
          exact ⟨token, (step_settled taken (.inl lost)).trans lost⟩
        · cases List.mem_singleton.mp member
          obtain ⟨token, tokenMember⟩ := List.exists_mem_of_ne_nil _ (step_enabled taken).1
          exact ⟨token, by rw [step_place taken, if_pos tokenMember, loses]⟩

end Systems.Custody
