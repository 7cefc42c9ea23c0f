import Mathlib.Data.List.Basic

namespace Systems.Children

universe u

/-! # Child processes

The children that one process has forked, in the order of their process ids;
no id is used twice. A child that has ended stays until it has been waited for.
-/

inductive Status where
  | running
  | exited
  | reaped
deriving DecidableEq

structure Child (Role : Type u) where
  role : Role
  status : Status
  signalled : Bool
deriving DecidableEq

variable {Role : Type u}

def pid (index : Nat) : Int := index + 1

def status (children : List (Child Role)) (pid : Int) : Option Status :=
  if 0 < pid then children[pid.toNat - 1]?.map Child.status else none

/-- What the child with this id becomes; the others stay as they are. -/
def change (children : List (Child Role)) (pid : Int) (update : Child Role → Child Role) :
    List (Child Role) :=
  children.modify (pid.toNat - 1) update

def fork (children : List (Child Role)) (role : Role) : List (Child Role) :=
  children ++ [⟨role, .running, false⟩]

/-- SIGTERM to a child; `none` where there is no such process any more. -/
def kill (children : List (Child Role)) (pid : Int) : Option (List (Child Role)) :=
  match status children pid with
  | some .running | some .exited => some (change children pid fun child => { child with signalled := true })
  | _ => none

inductive Wait (Role : Type u) where
  | terminated (children : List (Child Role))
  | running
  | failed

def waitpid (children : List (Child Role)) (pid : Int) : Wait Role :=
  match status children pid with
  | some .exited => .terminated (change children pid fun child => { child with status := .reaped })
  | some .running => .running
  | _ => .failed

def exit (children : List (Child Role)) (pid : Int) : Option (List (Child Role)) :=
  match status children pid with
  | some .running => some (change children pid fun child => { child with status := .exited })
  | _ => none

/-- The child at this position, forked for `role`, has not been waited for. -/
def Unreaped (children : List (Child Role)) (index : Nat) (role : Role) : Prop :=
  ∃ child, children[index]? = some child ∧ child.role = role ∧ child.status ≠ .reaped

variable {children next : List (Child Role)} {index : Nat} {role other : Role} {id : Int}

theorem pid_pos (index : Nat) : 0 < pid index := by
  rw [pid]
  omega

theorem pid_injective {first second : Nat} (same : pid first = pid second) : first = second := by
  rw [pid, pid] at same
  omega

theorem status_pid : status children (pid index) = children[index]?.map Child.status := by
  rw [status, if_pos (pid_pos index), pid]
  rfl

theorem exists_pid (positive : 0 < id) : ∃ index, id = pid index := by
  refine ⟨id.toNat - 1, ?_⟩
  rw [pid]
  omega

theorem status_some (known : (status children id).isSome = true) : ∃ index, id = pid index := by
  rw [status] at known
  split at known
  · exact exists_pid ‹_›
  · cases known

theorem change_getElem? (changed : Nat) (update : Child Role → Child Role) :
    (change children (pid changed) update)[index]? =
      if index = changed then children[index]?.map update else children[index]? := by
  have position : (pid changed).toNat - 1 = changed := by
    rw [pid]
    omega
  rw [change, position, List.getElem?_modify]
  by_cases same : changed = index
  · simp [same]
  · cases found : children[index]? <;> simp [same, Ne.symm same]

/-- A change that leaves roles alone and ends no wait keeps the same children unreaped. -/
theorem unreaped_change {update : Child Role → Child Role} {changed : Nat}
    (roles : ∀ child, (update child).role = child.role)
    (waited : ∀ child, children[changed]? = some child →
      ((update child).status = .reaped ↔ child.status = .reaped)) :
    Unreaped (change children (pid changed) update) index role ↔ Unreaped children index role := by
  rw [Unreaped, Unreaped, change_getElem?]
  by_cases same : index = changed
  · subst same
    rw [if_pos rfl]
    constructor
    · intro given
      obtain ⟨child, found, own, unwaited⟩ := given
      obtain ⟨was, before, rfl⟩ := Option.map_eq_some_iff.mp found
      exact ⟨was, before, (roles was).symm.trans own, mt (waited was before).mpr unwaited⟩
    · intro given
      obtain ⟨was, before, own, unwaited⟩ := given
      exact ⟨update was, by rw [before]; rfl, (roles was).trans own, mt (waited was before).mp unwaited⟩
  · rw [if_neg same]

theorem unreaped_role (first : Unreaped children index role) (second : Unreaped children index other) :
    role = other := by
  obtain ⟨child, found, own, _⟩ := first
  obtain ⟨again, foundAgain, ownAgain, _⟩ := second
  cases found.symm.trans foundAgain
  exact own.symm.trans ownAgain

theorem unreaped_kill (killed : kill children id = some next) :
    Unreaped next index role ↔ Unreaped children index role := by
  rw [kill] at killed
  split at killed
  · rename_i alive
    obtain ⟨changed, rfl⟩ := status_some (by rw [alive]; rfl)
    cases killed
    exact unreaped_change (fun _ => rfl) (fun _ _ => Iff.rfl)
  · rename_i zombie
    obtain ⟨changed, rfl⟩ := status_some (by rw [zombie]; rfl)
    cases killed
    exact unreaped_change (fun _ => rfl) (fun _ _ => Iff.rfl)
  · cases killed

theorem unreaped_exit (exits : exit children id = some next) :
    Unreaped next index role ↔ Unreaped children index role := by
  rw [exit] at exits
  split at exits
  · rename_i alive
    obtain ⟨changed, rfl⟩ := status_some (by rw [alive]; rfl)
    cases exits
    refine unreaped_change (fun _ => rfl) (fun child found => ?_)
    rw [status_pid, found] at alive
    have running : child.status = .running := Option.some.inj alive
    simp [running]
  · cases exits

theorem unreaped_waitpid {changed : Nat} (terminated : waitpid children (pid changed) = .terminated next) :
    Unreaped next index role ↔ Unreaped children index role ∧ index ≠ changed := by
  rw [waitpid] at terminated
  split at terminated
  · cases terminated
    rw [Unreaped, Unreaped, change_getElem?]
    by_cases same : index = changed
    · rw [if_pos same]
      constructor
      · intro given
        obtain ⟨child, found, _, unwaited⟩ := given
        obtain ⟨was, _, rfl⟩ := Option.map_eq_some_iff.mp found
        exact absurd rfl unwaited
      · intro given
        obtain ⟨_, other⟩ := given
        exact absurd same other
    · rw [if_neg same, and_iff_left same]
  · cases terminated
  · cases terminated

theorem unreaped_fork : Unreaped (fork children other) index role ↔
    Unreaped children index role ∨ index = children.length ∧ other = role := by
  rw [Unreaped, Unreaped, fork]
  rcases Nat.lt_trichotomy index children.length with old | last | beyond
  · rw [List.getElem?_append_left old]
    simp [Nat.ne_of_lt old]
  · subst last
    simp
  · have none : (children ++ [⟨other, .running, false⟩])[index]? = Option.none :=
      List.getElem?_eq_none (by simp; omega)
    have missing : children[index]? = Option.none := List.getElem?_eq_none (Nat.le_of_lt beyond)
    simp [none, missing, Nat.ne_of_gt beyond]

theorem waitpid_known (terminated : waitpid children id = .terminated next) : ∃ index, id = pid index := by
  rw [waitpid] at terminated
  split at terminated
  · rename_i zombie
    exact status_some (by rw [zombie]; rfl)
  · cases terminated
  · cases terminated

/-- A wait fails only where there is no child left to wait for. -/
theorem waitpid_failed {waited : Nat} (failed : waitpid children (pid waited) = .failed) :
    ¬ Unreaped children waited role := by
  intro given
  obtain ⟨child, found, _, unwaited⟩ := given
  rw [waitpid, status_pid, found] at failed
  cases state : child.status with
  | reaped => exact unwaited state
  | running | exited =>
      rw [Option.map_some, state] at failed
      cases failed

theorem all_reaped_iff : (∀ child ∈ children, child.status = .reaped) ↔
    ∀ index role, ¬ Unreaped children index role := by
  constructor
  · intro reaped index role given
    obtain ⟨child, found, _, unwaited⟩ := given
    exact unwaited (reaped child (List.mem_of_getElem? found))
  · intro none child member
    obtain ⟨index, found⟩ := List.getElem?_of_mem member
    by_contra unwaited
    exact none index child.role ⟨child, found, rfl, unwaited⟩

/-- The child at this position, forked for `role`, has not ended. -/
def Running (children : List (Child Role)) (index : Nat) (role : Role) : Prop :=
  ∃ child, children[index]? = some child ∧ child.role = role ∧ child.status = .running

/-- The running children of these roles have ended. -/
def settle (ended : Role → Bool) (children : List (Child Role)) : List (Child Role) :=
  children.map fun child =>
    if child.status = .running ∧ ended child.role = true then { child with status := .exited } else child

theorem Running.unreaped (running : Running children index role) : Unreaped children index role := by
  obtain ⟨child, found, own, status⟩ := running
  exact ⟨child, found, own, by simp [status]⟩

theorem running_fork : Running (fork children other) index role ↔
    Running children index role ∨ index = children.length ∧ other = role := by
  rw [Running, Running, fork]
  rcases Nat.lt_trichotomy index children.length with old | last | beyond
  · rw [List.getElem?_append_left old]
    simp [Nat.ne_of_lt old]
  · subst last
    simp
  · have none : (children ++ [⟨other, .running, false⟩])[index]? = Option.none :=
      List.getElem?_eq_none (by simp; omega)
    have missing : children[index]? = Option.none := List.getElem?_eq_none (Nat.le_of_lt beyond)
    simp [none, missing, Nat.ne_of_gt beyond]

/-- A change that leaves roles alone and neither ends nor revives a child. -/
theorem running_change {update : Child Role → Child Role} {changed : Nat}
    (roles : ∀ child, (update child).role = child.role)
    (lives : ∀ child, children[changed]? = some child →
      ((update child).status = .running ↔ child.status = .running)) :
    Running (change children (pid changed) update) index role ↔ Running children index role := by
  rw [Running, Running, change_getElem?]
  by_cases same : index = changed
  · subst same
    rw [if_pos rfl]
    constructor
    · intro given
      obtain ⟨child, found, own, status⟩ := given
      obtain ⟨was, before, rfl⟩ := Option.map_eq_some_iff.mp found
      exact ⟨was, before, (roles was).symm.trans own, (lives was before).mp status⟩
    · intro given
      obtain ⟨was, before, own, status⟩ := given
      exact ⟨update was, by rw [before]; rfl, (roles was).trans own, (lives was before).mpr status⟩
  · rw [if_neg same]

theorem running_kill (killed : kill children id = some next) :
    Running next index role ↔ Running children index role := by
  rw [kill] at killed
  split at killed
  · rename_i alive
    obtain ⟨changed, rfl⟩ := status_some (by rw [alive]; rfl)
    cases killed
    exact running_change (fun _ => rfl) (fun _ _ => Iff.rfl)
  · rename_i zombie
    obtain ⟨changed, rfl⟩ := status_some (by rw [zombie]; rfl)
    cases killed
    exact running_change (fun _ => rfl) (fun _ _ => Iff.rfl)
  · cases killed

theorem running_waitpid (terminated : waitpid children id = .terminated next) :
    Running next index role ↔ Running children index role := by
  rw [waitpid] at terminated
  split at terminated
  · rename_i zombie
    obtain ⟨changed, rfl⟩ := status_some (by rw [zombie]; rfl)
    cases terminated
    refine running_change (fun _ => rfl) (fun child found => ?_)
    rw [status_pid, found] at zombie
    have ended : child.status = .exited := Option.some.inj zombie
    simp [ended]
  · cases terminated
  · cases terminated

theorem running_settle {ended : Role → Bool} : Running (settle ended children) index role ↔
    Running children index role ∧ ended role = false := by
  rw [Running, Running, settle, List.getElem?_map]
  constructor
  · intro given
    obtain ⟨child, found, own, status⟩ := given
    obtain ⟨was, before, rfl⟩ := Option.map_eq_some_iff.mp found
    by_cases finished : was.status = .running ∧ ended was.role = true
    · rw [if_pos finished] at status
      cases status
    · rw [if_neg finished] at own status
      exact ⟨⟨was, before, own, status⟩, Bool.eq_false_iff.mpr fun ends => finished ⟨status, own ▸ ends⟩⟩
  · intro given
    obtain ⟨⟨was, before, rfl, status⟩, lives⟩ := given
    exact ⟨was, by simp [before, lives], rfl, status⟩

/-- One child after the other ends. -/
theorem settle_exit {ended : Role → Bool} (unsettled : settle ended children ≠ children) :
    ∃ (index : Nat) (next : List (Child Role)), exit children (pid index) = some next ∧
      settle ended next = settle ended children ∧
      (next.countP fun child => child.status = .running) < children.countP fun child => child.status = .running := by
  obtain ⟨index, child, found, running, finished⟩ : ∃ (index : Nat) (child : Child Role),
      children[index]? = some child ∧ child.status = .running ∧ ended child.role = true := by
    by_contra none
    refine unsettled ((List.map_congr_left fun child member => if_neg fun finished => ?_).trans (List.map_id children))
    obtain ⟨index, found⟩ := List.getElem?_of_mem member
    exact none ⟨index, child, found, finished⟩
  obtain ⟨bound, value⟩ := List.getElem?_eq_some_iff.mp found
  have position : (pid index).toNat - 1 = index := by
    rw [pid]
    omega
  have written : change children (pid index) (fun child => { child with status := .exited }) =
      children.set index { child with status := .exited } := by
    rw [change, position, List.modify_eq_set_get _ bound, List.get_eq_getElem, value]
  refine ⟨index, children.set index { child with status := .exited }, ?_, ?_, ?_⟩
  · rw [exit, status_pid, found, Option.map_some, running, ← written]
  · refine List.ext_getElem? fun other => ?_
    rw [settle, settle, List.getElem?_map, List.getElem?_map, List.getElem?_set]
    split
    · rename_i same
      subst same
      simp [bound, value, running, finished]
    · rfl
  · have counted : 0 < children.countP fun child => child.status = .running :=
      List.countP_pos_iff.mpr ⟨child, value ▸ List.getElem_mem bound, by simp [running]⟩
    rw [List.countP_set bound, value]
    simp only [running, decide_true, if_true, reduceCtorEq, decide_false, Bool.false_eq_true, if_false]
    exact Nat.sub_lt counted Nat.one_pos

end Systems.Children
