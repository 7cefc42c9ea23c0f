import Mathlib.Data.List.Basic

namespace Systems

universe u v

variable {Lock : Type u} {Label : Type v}

/-! # Commands that take and release locks

What a process does to locks, as nested commands; every condition is a free
choice. A check by recursion on the command finds the locks that are held at
each place, and is sound for every execution.
-/

/-- `leave` and `again` are `break` and `continue` of the innermost `loop` or
`scope`; a `scope` runs its body once. A label names a place. -/
inductive Command (Lock : Type u) (Label : Type v) where
  | skip
  | call (label : Label)
  | wait (lock : Lock) (label : Label)
  | post (lock : Lock)
  | seq (first second : Command Lock Label)
  | branch (first second : Command Lock Label)
  | loop (body : Command Lock Label)
  | scope (body : Command Lock Label)
  | leave
  | again
  | exit

def Command.block : List (Command Lock Label) → Command Lock Label
  | [] => .skip
  | first :: rest => .seq first (block rest)

/-- A condition without an `else` branch. -/
def Command.when (body : Command Lock Label) : Command Lock Label := .branch body .skip

inductive Frame (Lock : Type u) (Label : Type v) where
  | run (command : Command Lock Label)
  | loopEnd (body : Command Lock Label)
  | scopeEnd

/-- What a process still has to do, the next frame first. -/
abbrev Control (Lock : Type u) (Label : Type v) := List (Frame Lock Label)

def Control.unwindLeave : Control Lock Label → Control Lock Label
  | [] => []
  | .run _ :: rest => unwindLeave rest
  | .loopEnd _ :: rest | .scopeEnd :: rest => rest

def Control.unwindAgain : Control Lock Label → Control Lock Label
  | [] => []
  | .run _ :: rest => unwindAgain rest
  | .loopEnd body :: rest => .run (.loop body) :: rest
  | .scopeEnd :: rest => rest

inductive Effect (Lock : Type u) where
  | silent
  | wait (lock : Lock)
  | post (lock : Lock)

/-- One step: its effect on the locks and what is left to do. -/
def Control.advance (choice : Bool) : Control Lock Label → Option (Effect Lock × Control Lock Label)
  | [] => none
  | .run .skip :: rest | .run (.call _) :: rest | .scopeEnd :: rest => some (.silent, rest)
  | .run (.wait lock _) :: rest => some (.wait lock, rest)
  | .run (.post lock) :: rest => some (.post lock, rest)
  | .run (.seq first second) :: rest => some (.silent, .run first :: .run second :: rest)
  | .run (.branch first second) :: rest =>
      some (.silent, (if choice then .run first else .run second) :: rest)
  | .run (.loop body) :: rest =>
      some (.silent, if choice then .run body :: .loopEnd body :: rest else rest)
  | .run (.scope body) :: rest => some (.silent, .run body :: .scopeEnd :: rest)
  | .loopEnd body :: rest => some (.silent, .run (.loop body) :: rest)
  | .run .leave :: rest => some (.silent, unwindLeave rest)
  | .run .again :: rest => some (.silent, unwindAgain rest)
  | .run .exit :: _ => some (.silent, [])

/-- The place at which a process is. -/
def Control.label? : Control Lock Label → Option Label
  | .run (.call label) :: _ | .run (.wait _ label) :: _ => some label
  | _ => none

def Control.waits? : Control Lock Label → Option Lock
  | .run (.wait lock _) :: _ => some lock
  | _ => none

/-- An order in which locks are taken, and what may be held at a place. -/
structure Discipline (Lock : Type u) (Label : Type v) where
  rank : Lock → Nat
  expects : Label → List Lock → Bool

/-- How a command ends: with these locks held, or never at its end. -/
inductive Flow (Lock : Type u) where
  | wrong
  | stops
  | falls (held : List Lock)
deriving DecidableEq

variable [DecidableEq Lock]

def Flow.join : Flow Lock → Flow Lock → Flow Lock
  | .stops, other | other, .stops => other
  | .falls first, .falls second => if first = second then .falls first else .wrong
  | _, _ => .wrong

/-- The body of a loop leaves the locks as it found them. -/
def Flow.repeats (held : List Lock) : Flow Lock → Flow Lock
  | .stops => .falls held
  | .falls last => if last = held then .falls held else .wrong
  | .wrong => .wrong

/-- `target` is what is held where `leave` and `again` go to. -/
def Command.after (discipline : Discipline Lock Label) :
    Command Lock Label → List Lock → List Lock → Flow Lock
  | .skip, held, _ => .falls held
  | .call label, held, _ => if discipline.expects label held then .falls held else .wrong
  | .wait lock label, held, _ =>
      if lock ∉ held ∧ (∀ other ∈ held, discipline.rank other < discipline.rank lock) ∧
          discipline.expects label held then .falls (lock :: held)
      else .wrong
  | .post lock, held, _ =>
      match held with
      | top :: rest => if top = lock then .falls rest else .wrong
      | [] => .wrong
  | .seq first second, held, target =>
      match first.after discipline held target with
      | .falls middle => second.after discipline middle target
      | flow => flow
  | .branch first second, held, target =>
      (first.after discipline held target).join (second.after discipline held target)
  | .loop body, held, _ | .scope body, held, _ => (body.after discipline held held).repeats held
  | .leave, held, target | .again, held, target => if held = target then .stops else .wrong
  | .exit, held, _ => if held = [] then .stops else .wrong

/-- Nothing is held when the command starts, nor when it ends. -/
def Command.Sound (discipline : Discipline Lock Label) (command : Command Lock Label) : Prop :=
  (command.after discipline [] []).repeats [] = .falls []

section

variable (discipline : Discipline Lock Label)

mutual

/-- With these locks held, what is left to do meets the discipline. -/
inductive Fits : List Lock → Control Lock Label → Prop where
  | ended : Fits [] []
  | run {held target command rest} (outer : Lands target rest)
      (sound : command.after discipline held target ≠ .wrong)
      (falls : ∀ last, command.after discipline held target = .falls last → Fits last rest) :
      Fits held (.run command :: rest)
  | loopEnd {held target body rest} (repeats : (body.after discipline held held).repeats held = .falls held)
      (outer : Lands target rest) (past : Fits held rest) : Fits held (.loopEnd body :: rest)
  | scopeEnd {held rest} (past : Fits held rest) : Fits held (.scopeEnd :: rest)

/-- So does what is left after `leave` and after `again`. -/
inductive Lands : List Lock → Control Lock Label → Prop where
  | ended : Lands [] []
  | run {target command rest} (outer : Lands target rest) : Lands target (.run command :: rest)
  | loopEnd {held target body rest} (repeats : (body.after discipline held held).repeats held = .falls held)
      (outer : Lands target rest) (past : Fits held rest) : Lands held (.loopEnd body :: rest)
  | scopeEnd {held rest} (past : Fits held rest) : Lands held (.scopeEnd :: rest)

end

variable {discipline} {held target : List Lock} {command first second body : Command Lock Label}
  {rest control next : Control Lock Label}

theorem Flow.join_left {left right : Flow Lock} (sound : left.join right ≠ .wrong) :
    left ≠ .wrong ∧ ∀ last, left = .falls last → left.join right = .falls last := by
  cases left with
  | wrong => cases right <;> simp [Flow.join] at sound
  | stops => simp
  | falls held =>
      refine ⟨by simp, fun last same => ?_⟩
      cases same
      cases right with
      | wrong => simp [Flow.join] at sound
      | stops => rfl
      | falls other =>
          simp only [Flow.join] at sound ⊢
          split at sound
          · rename_i same
            rw [if_pos same]
          · exact absurd rfl sound

theorem Flow.join_comm (left right : Flow Lock) : left.join right = right.join left := by
  cases left with
  | wrong | stops => cases right <;> rfl
  | falls held =>
      cases right with
      | wrong | stops => rfl
      | falls other =>
          simp only [Flow.join]
          by_cases same : held = other
          · rw [same]
          · rw [if_neg same, if_neg (Ne.symm same)]

theorem Flow.repeats_sound {flow : Flow Lock} (sound : flow.repeats held ≠ .wrong) :
    flow.repeats held = .falls held ∧ flow ≠ .wrong ∧ ∀ last, flow = .falls last → last = held := by
  cases flow with
  | wrong => exact absurd rfl sound
  | stops => exact ⟨rfl, by simp, by simp⟩
  | falls last =>
      simp only [Flow.repeats] at sound ⊢
      split at sound
      · rename_i same
        refine ⟨if_pos same, by simp, fun other equal => ?_⟩
        cases equal
        exact same
      · exact absurd rfl sound

/-- The frame below a body that is about to run: the body again, or what
follows it. -/
theorem Lands.unwind {target : List Lock} {rest : Control Lock Label} (outer : Lands discipline target rest) :
    Fits discipline target rest.unwindLeave ∧ Fits discipline target rest.unwindAgain := by
  induction rest with
  | nil =>
      cases outer
      exact ⟨.ended, .ended⟩
  | cons frame rest ih =>
      cases outer with
      | run outer => exact ih outer
      | scopeEnd past => exact ⟨past, past⟩
      | loopEnd repeats outer past =>
          refine ⟨past, .run outer ?_ ?_⟩
          · rw [Command.after, repeats]
            simp
          · intro last same
            rw [Command.after, repeats] at same
            cases same
            exact past

/-- What a step may do to the locks, and what is left then. -/
def Discipline.Takes (discipline : Discipline Lock Label) (held : List Lock) (next : Control Lock Label) :
    Effect Lock → Prop
  | .silent => Fits discipline held next
  | .wait lock => lock ∉ held ∧ (∀ other ∈ held, discipline.rank other < discipline.rank lock) ∧
      Fits discipline (lock :: held) next
  | .post lock => ∃ rest, held = lock :: rest ∧ Fits discipline rest next

/-- A branch that is taken meets the discipline when the join does. -/
theorem Fits.of_join {left right : Command Lock Label} (outer : Lands discipline target rest)
    (sound : (left.after discipline held target).join (right.after discipline held target) ≠ .wrong)
    (falls : ∀ last, (left.after discipline held target).join (right.after discipline held target) = .falls last →
      Fits discipline last rest) : Fits discipline held (.run left :: rest) := by
  obtain ⟨leftSound, leftFalls⟩ := Flow.join_left sound
  exact .run outer leftSound fun last same => falls last (leftFalls last same)

/-- The body of a loop or of a scope, above the frame that ends it. -/
theorem Fits.enclosed {frame : Frame Lock Label} (repeats : (body.after discipline held held).repeats held ≠ .wrong)
    (outer : Lands discipline held (frame :: rest)) (past : Fits discipline held (frame :: rest)) :
    Fits discipline held (.run body :: frame :: rest) := by
  obtain ⟨_, sound, ends⟩ := Flow.repeats_sound repeats
  refine .run outer sound fun last same => ?_
  rw [ends last same]
  exact past

theorem Fits.advance {choice : Bool} {effect : Effect Lock} (fits : Fits discipline held control)
    (step : control.advance choice = some (effect, next)) : discipline.Takes held next effect := by
  cases fits with
  | ended => simp [Control.advance] at step
  | scopeEnd past =>
      cases step
      exact past
  | loopEnd repeats outer past =>
      cases step
      refine .run outer ?_ ?_
      · rw [Command.after, repeats]
        simp
      · intro last same
        rw [Command.after, repeats] at same
        cases same
        exact past
  | @run _ target command rest outer sound falls =>
      cases command with
      | skip =>
          cases step
          exact falls _ rfl
      | call label =>
          cases step
          rw [Command.after] at sound falls
          split at sound
          · rename_i expected
            exact falls _ (if_pos expected)
          · exact absurd rfl sound
      | wait lock label =>
          cases step
          rw [Command.after] at sound falls
          split at sound
          · rename_i allowed
            exact ⟨allowed.1, allowed.2.1, falls _ (if_pos allowed)⟩
          · exact absurd rfl sound
      | post lock =>
          cases step
          cases held with
          | nil => exact absurd rfl sound
          | cons top others =>
              simp only [Command.after] at sound falls
              split at sound
              · rename_i same
                subst same
                exact ⟨others, rfl, falls _ (if_pos rfl)⟩
              · exact absurd rfl sound
      | seq first second =>
          cases step
          rw [Command.after] at sound falls
          cases flow : first.after discipline held target with
          | wrong => exact absurd (by rw [flow]) sound
          | stops => exact .run (.run outer) (by simp [flow]) (by simp [flow])
          | falls middle =>
              simp only [flow] at sound falls
              refine .run (.run outer) (by simp [flow]) fun last same => ?_
              cases flow.symm.trans same
              exact .run outer sound falls
      | branch first second =>
          cases step
          rw [Command.after] at sound falls
          cases choice with
          | true => exact Fits.of_join outer sound falls
          | false =>
              rw [Flow.join_comm] at sound falls
              exact Fits.of_join outer sound falls
      | loop body =>
          cases step
          rw [Command.after] at sound falls
          have past := falls held (Flow.repeats_sound sound).1
          have repeats := (Flow.repeats_sound sound).1
          cases choice with
          | true => exact Fits.enclosed sound (.loopEnd repeats outer past) (.loopEnd repeats outer past)
          | false => exact past
      | scope body =>
          cases step
          rw [Command.after] at sound falls
          have past := falls held (Flow.repeats_sound sound).1
          exact Fits.enclosed sound (.scopeEnd past) (.scopeEnd past)
      | leave =>
          cases step
          rw [Command.after] at sound
          split at sound
          · rename_i same
            exact same ▸ outer.unwind.1
          · exact absurd rfl sound
      | again =>
          cases step
          rw [Command.after] at sound
          split at sound
          · rename_i same
            exact same ▸ outer.unwind.2
          · exact absurd rfl sound
      | exit =>
          cases step
          rw [Command.after] at sound
          split at sound
          · rename_i same
            exact same ▸ .ended
          · exact absurd rfl sound

theorem Fits.expects {label : Label} (fits : Fits discipline held control)
    (place : control.label? = some label) : discipline.expects label held = true := by
  cases fits with
  | ended | scopeEnd past | loopEnd repeats outer past => cases place
  | @run _ target command rest outer sound falls =>
      cases command with
      | call here =>
          cases place
          rw [Command.after] at sound
          split at sound
          · rename_i expected
            exact expected
          · exact absurd rfl sound
      | wait lock here =>
          cases place
          rw [Command.after] at sound
          split at sound
          · rename_i allowed
            exact allowed.2.2
          · exact absurd rfl sound
      | _ => cases place

theorem Fits.waits {lock : Lock} (fits : Fits discipline held control) (waiting : control.waits? = some lock) :
    lock ∉ held ∧ ∀ other ∈ held, discipline.rank other < discipline.rank lock := by
  cases fits with
  | ended | scopeEnd past | loopEnd repeats outer past => cases waiting
  | @run _ target command rest outer sound falls =>
      cases command with
      | wait here label =>
          cases waiting
          have step : Control.advance true (.run (.wait lock label) :: rest) = some (.wait lock, rest) := rfl
          have taken := (Fits.run outer sound falls).advance step
          exact ⟨taken.1, taken.2.1⟩
      | _ => cases waiting

/-- A sound command meets the discipline from its start. -/
theorem Command.Sound.fits (sound : command.Sound discipline) : Fits discipline [] [.run command] := by
  have checked : (command.after discipline [] []).repeats [] ≠ .wrong := by
    rw [sound]
    simp
  obtain ⟨_, started, ends⟩ := Flow.repeats_sound checked
  refine .run .ended started fun last same => ?_
  rw [ends last same]
  exact .ended

end

end Systems
